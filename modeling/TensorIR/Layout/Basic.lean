import TensorIR.SymExpr.Basic
import TensorIR.Text.Inspect

/-!
Axis layouts. A layout names the role of each axis of a tensor. An upper-case letter is a primal
axis. A primal axis may be split into an outer part, named by the letter, and an inner part of fixed
size, named by the lower-case letter behind its size: `NCHW16c` splits `C` into blocks of 16.
-/

namespace TensorIR

/-- A primal axis, or the inner part of one; `letter` is upper-case in both. -/
inductive Axis where
  | primal (letter : Char)
  | inner (letter : Char) (factor : Int64)
  deriving DecidableEq, Repr, Inhabited

namespace Axis

def letter : Axis → Char
  | .primal c => c
  | .inner c _ => c

def name : Axis → Char
  | .primal c => c
  | .inner c _ => c.toLower

def isPrimal : Axis → Bool
  | .primal _ => true
  | .inner _ _ => false

def factor? : Axis → Option Int64
  | .primal _ => none
  | .inner _ f => some f

end Axis

structure Layout where
  -- The text that the layout was read from.
  name : String
  axes : List Axis
  deriving DecidableEq, Repr, Inhabited

namespace Layout

def ndim (layout : Layout) : Nat :=
  layout.axes.length

def primalLetters (layout : Layout) : List Char :=
  (layout.axes.filter Axis.isPrimal).map Axis.letter

def ndimPrimal (layout : Layout) : Nat :=
  layout.primalLetters.length

def indexOf? (layout : Layout) (name : Char) : Option Nat :=
  layout.axes.findIdx? (·.name == name)

def factorOf? (layout : Layout) (name : Char) : Option Int64 :=
  (layout.axes.find? (·.name == name.toLower)).bind Axis.factor?

end Layout

inductive LayoutError where
  | empty
  | invalidChar (layout : String) (c : Char)
  | duplicateAxis (layout : String) (axis : Char)
  | missingFactor (layout : String) (axis : Char)
  | danglingFactor (layout : String)
  | missingPrimal (layout : String) (axis : Char)
  | incompatible (src dst : String)
  | rankMismatch (layout : String) (expected actual : Nat)
  deriving DecidableEq, Repr, Inhabited

def LayoutError.message : LayoutError → String
  | .empty => "layout string is empty"
  | .invalidChar layout c => s!"invalid character {Inspect.char c} in layout \"{layout}\""
  | .duplicateAxis layout axis => s!"axis {axis} appears more than once in layout \"{layout}\""
  | .missingFactor layout axis =>
    s!"sub-axis {axis} in layout \"{layout}\" must have a positive split factor"
  | .danglingFactor layout => s!"split factor in layout \"{layout}\" is not followed by a sub-axis"
  | .missingPrimal layout axis => s!"sub-axis {axis} in layout \"{layout}\" has no primal axis"
  | .incompatible src dst => s!"layouts \"{src}\" and \"{dst}\" do not have the same primal axes"
  | .rankMismatch layout expected actual =>
    s!"expected shape of rank {expected} for layout \"{layout}\", got {actual}"

end TensorIR
