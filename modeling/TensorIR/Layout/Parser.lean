import TensorIR.Layout.Basic

/-!
Reading a layout from its text: each axis once, an upper-case letter or a positive size and a
lower-case letter, where the upper-case form of each lower-case letter occurs too.
-/

namespace TensorIR.Layout

def appendDigit (n : Int64) (digit : Char) : Int64 :=
  (n.satMul 10).satAdd (Int64.ofNat (digit.toNat - '0'.toNat))

/-- Reads axes behind those that have been read; `size` is a number that no axis has taken yet. -/
def readAxes (layout : String) (axes : List Axis) (size : Option Int64) :
    List Char → Except LayoutError (List Axis)
  | [] =>
    match size with
    | some _ => .error (.danglingFactor layout)
    | none => .ok axes
  | c :: cs =>
    if c.isDigit then readAxes layout axes (some (appendDigit (size.getD 0) c)) cs
    else if !c.isAlpha then .error (.invalidChar layout c)
    else if axes.any (·.name == c) then .error (.duplicateAxis layout c)
    else if c.isUpper then
      match size with
      | some _ => .error (.danglingFactor layout)
      | none => readAxes layout (axes ++ [.primal c]) none cs
    else
      match size with
      | some f =>
        if 0 < f then readAxes layout (axes ++ [.inner c.toUpper f]) none cs
        else .error (.missingFactor layout c)
      | none => .error (.missingFactor layout c)

def orphan? (axes : List Axis) : Option Axis :=
  axes.find? fun a => !a.isPrimal && !axes.any (·.name == a.letter)

def parse (name : String) : Except LayoutError Layout := do
  if name.isEmpty then throw .empty
  let axes ← readAxes name [] none name.toList
  match orphan? axes with
  | some a => throw (.missingPrimal name a.name)
  | none => return ⟨name, axes⟩

end TensorIR.Layout
