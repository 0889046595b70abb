import TensorIR.Word64
import TensorIR.SymExpr.Basic
import TensorIR.SymExpr.Eval
import TensorIR.SymExpr.Canonical
import TensorIR.SymExpr.Simplify
import TensorIR.SymExpr.Printer
import TensorIR.Text.Inspect
import TensorIR.Interval
import TensorIR.Predicate
import TensorIR.Layout.Parser
import TensorIR.Layout.Conversion
import TensorIR.DataType
import TensorIR.Doc
import TensorIR.Dictionary
import TensorIR.Expr.Basic
import TensorIR.Inference
import TensorIR.Conv2d.Construct
import TensorIR.Operators
import TensorIR.Pass
import TensorIR.Proofs.Except
import TensorIR.Proofs.Word64
import TensorIR.Proofs.SymExpr.Eval
import TensorIR.Proofs.SymExpr.Rewriting
import TensorIR.Proofs.SymExpr.Canonical
import TensorIR.Proofs.SymExpr.Simplify
import TensorIR.Proofs.Conv2d.Construct
import TensorIR.Proofs.Conv2d.Shape
import TensorIR.Proofs.Conv2d.Transpose
import TensorIR.Proofs.Interval
import TensorIR.Proofs.Predicate
import TensorIR.Proofs.Formula.Grammar
import TensorIR.Proofs.SymExpr.Printer
import TensorIR.Proofs.Conv2d.Stages
import TensorIR.Proofs.Conv2d.Channels
import TensorIR.Proofs.SymExpr.Constant
import TensorIR.Proofs.SymExpr.Quotient
import TensorIR.Proofs.Layout.Literal
import TensorIR.Proofs.Conv2d.Overflow
import TensorIR.Proofs.Conv2d.Permutation
import TensorIR.Proofs.SymExpr.FixedPoint
import TensorIR.Proofs.Conv2d.RankOnly
import TensorIR.Proofs.SymExpr.LiteralSum
import TensorIR.Proofs.Conv2d.SizeSums
import TensorIR.Proofs.Conv2d.ShapeOverflow
import TensorIR.Proofs.Conv2d.LiteralDims
import TensorIR.Proofs.Conv2d.Inverse
import TensorIR.Proofs.Steps
import TensorIR.Proofs.Text.Quoted
import TensorIR.Proofs.Doc.Cutting
import TensorIR.Proofs.Doc.Reading
import TensorIR.Proofs.Expr.StructInfo
import TensorIR.Proofs.SymExpr.Folding
import TensorIR.Proofs.Layout.Grammar
import TensorIR.Proofs.SymExpr.MapSymbols
import TensorIR.Proofs.Assumption
import TensorIR.Proofs.SymExpr.LiteralFactor
import TensorIR.Proofs.Layout.Blocked
import TensorIR.Proofs.SymExpr.Linear
import TensorIR.Proofs.SymExpr.Settling
import TensorIR.Proofs.SymExpr.Cancellation
import TensorIR.Proofs.SymExpr.LinearBounds
import TensorIR.Proofs.Equality
import TensorIR.Proofs.Conv2d.NegativeSizes
import TensorIR.Proofs.Expr.Keywords
import TensorIR.Proofs.Expr.Enumeration
import TensorIR.Proofs.Expr.ReadKeywords
import TensorIR.Proofs.Conv2d.Context
import TensorIR.Proofs.Text.Literal
import TensorIR.Proofs.Expr.Printable
import TensorIR.Proofs.FusedCall
import TensorIR.Proofs.Expr.ReadRecords
import TensorIR.Proofs.SymExpr.Same
import TensorIR.Proofs.SymExpr.Termination
import TensorIR.Proofs.Conv2d.Requirement
import TensorIR.Proofs.DataType
import TensorIR.Proofs.SymExpr.CommonFactors
import TensorIR.Proofs.Rounding
