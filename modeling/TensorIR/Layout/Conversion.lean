import TensorIR.Layout.Basic
import TensorIR.SymExpr.Simplify

/-!
Conversion of shapes between two layouts of the same primal axes. The logical size of a primal axis
is the product of its parts; a split axis takes the size divided by its factor, rounded up.
-/

namespace TensorIR

namespace Layout

def dim? (layout : Layout) (shape : List SymExpr) (name : Char) : Option SymExpr :=
  (layout.indexOf? name).bind (shape[·]?)

/-- The size of a primal axis, both its parts taken together. -/
def logicalSize (layout : Layout) (shape : List SymExpr) (letter : Char) : SymExpr :=
  let outer := (layout.dim? shape letter).getD (.lit 1)
  match layout.dim? shape letter.toLower with
  | some inner => .mul outer inner
  | none => outer

def axisSize (layout : Layout) (logical : Char → SymExpr) : Axis → SymExpr
  | .inner _ f => .lit f
  | .primal c =>
    match layout.factorOf? c with
    | some f => .ceilDiv (logical c) (.lit f)
    | none => logical c

def convert (src dst : Layout) (shape : List SymExpr) : Except LayoutError (List SymExpr) :=
  if shape.length = src.ndim then
    .ok (dst.axes.map fun a => (dst.axisSize (src.logicalSize shape) a).simplify)
  else .error (.rankMismatch src.name src.ndim shape.length)

end Layout

structure LayoutConversion where
  src : Layout
  dst : Layout
  deriving DecidableEq, Repr, Inhabited

namespace LayoutConversion

def between (src dst : Layout) : Except LayoutError LayoutConversion :=
  if src.ndimPrimal == dst.ndimPrimal && src.primalLetters.all (dst.indexOf? · |>.isSome) then
    .ok ⟨src, dst⟩
  else .error (.incompatible src.name dst.name)

def forward (c : LayoutConversion) (shape : List SymExpr) : Except LayoutError (List SymExpr) :=
  c.src.convert c.dst shape

def backward (c : LayoutConversion) (shape : List SymExpr) : Except LayoutError (List SymExpr) :=
  c.dst.convert c.src shape

end LayoutConversion

end TensorIR
