import TensorIR.SymExpr.Basic

/-!
Intervals of 64-bit integers, and the interval of the values that a symbolic expression may take.
Ends that leave the 64-bit range stop at it.
-/

namespace TensorIR

structure Interval where
  lo : Int64
  hi : Int64
  deriving DecidableEq, Repr, Inhabited

namespace Interval

def Encloses (i : Interval) (n : Int) : Prop :=
  i.lo.toInt ≤ n ∧ n ≤ i.hi.toInt

instance (i : Interval) (n : Int) : Decidable (i.Encloses n) :=
  inferInstanceAs (Decidable (_ ∧ _))

def unbounded : Interval :=
  ⟨Int64.minValue, Int64.maxValue⟩

def nonneg : Interval :=
  ⟨0, Int64.maxValue⟩

def exactly (a : Int64) : Interval :=
  ⟨a, a⟩

def single? (i : Interval) : Option Int64 :=
  if i.lo = i.hi then some i.lo else none

def neg (i : Interval) : Interval :=
  ⟨i.hi.satNeg, i.lo.satNeg⟩

def add (i j : Interval) : Interval :=
  ⟨i.lo.satAdd j.lo, i.hi.satAdd j.hi⟩

def mul (i j : Interval) : Interval :=
  let a := i.lo.satMul j.lo
  let b := i.lo.satMul j.hi
  let c := i.hi.satMul j.lo
  let d := i.hi.satMul j.hi
  ⟨min (min a b) (min c d), max (max a b) (max c d)⟩

/-- Quotients and remainders are bounded only where the divisor is one positive integer. -/
def quotient (round : Int64 → Int64 → Int64) (i j : Interval) : Interval :=
  match j.single? with
  | some d => if 0 < d then ⟨round i.lo d, round i.hi d⟩ else unbounded
  | none => unbounded

def mod (i j : Interval) : Interval :=
  match j.single? with
  | some d =>
    if 0 < d then
      if 0 ≤ i.lo ∧ i.hi < d then i else ⟨0, d - 1⟩
    else unbounded
  | none => unbounded

end Interval

def BinOp.onIntervals : BinOp → Interval → Interval → Interval
  | .add, i, j => i.add j
  | .sub, i, j => i.add j.neg
  | .mul, i, j => i.mul j
  | .div, i, j => i.quotient Int64.floorDiv j
  | .ceilDiv, i, j => i.quotient Int64.ceilDiv j
  | .mod, i, j => i.mod j

def SymExpr.bounds : SymExpr → Interval
  | .lit a => .exactly a
  | .sym s => if s.nonneg then .nonneg else .unbounded
  | .neg e => e.bounds.neg
  | .bin op l r => op.onIntervals l.bounds r.bounds

end TensorIR
