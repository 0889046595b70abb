/-!
Arithmetic on 64-bit signed literals: operations that tell when a result leaves the range,
operations that stop at the ends of the range, and division that rounds down or up.
-/

namespace Int64

def ofInt? (n : Int) : Option Int64 :=
  if Int64.minValue.toInt ≤ n ∧ n ≤ Int64.maxValue.toInt then some (Int64.ofInt n) else none

theorem ofInt?_eq_some_iff {n : Int} {a : Int64} : ofInt? n = some a ↔ a.toInt = n := by
  unfold ofInt?
  split
  case isTrue h =>
    have hn := Int64.toInt_ofInt_of_le h.1 (Int.lt_of_le_sub_one (Int64.toInt_maxValue ▸ h.2))
    constructor
    · intro ha
      simpa [← Option.some.inj ha] using hn
    · intro ha
      rw [← ha, Int64.ofInt_toInt]
  case isFalse h =>
    constructor
    · simp
    · intro ha
      exact absurd ⟨ha ▸ a.minValue_le_toInt, ha ▸ a.toInt_le⟩ h

def neg? (a : Int64) : Option Int64 :=
  ofInt? (-a.toInt)

def add? (a b : Int64) : Option Int64 :=
  ofInt? (a.toInt + b.toInt)

def sub? (a b : Int64) : Option Int64 :=
  ofInt? (a.toInt - b.toInt)

def mul? (a b : Int64) : Option Int64 :=
  ofInt? (a.toInt * b.toInt)

def satNeg (a : Int64) : Int64 :=
  Int64.ofIntClamp (-a.toInt)

def satAdd (a b : Int64) : Int64 :=
  Int64.ofIntClamp (a.toInt + b.toInt)

def satMul (a b : Int64) : Int64 :=
  Int64.ofIntClamp (a.toInt * b.toInt)

def canDivide (a b : Int64) : Bool :=
  b != 0 && !(a == Int64.minValue && b == -1)

/--
The quotient rounded toward negative infinity. It is meaningful where `canDivide` holds: the
truncated quotient lies one too high exactly if there is a remainder whose sign is not the
divisor's.
-/
def floorDiv (a b : Int64) : Int64 :=
  let q := a / b
  let r := a % b
  if r ≠ 0 ∧ decide (r < 0) ≠ decide (b < 0) then q - 1 else q

/-- The remainder that belongs to `floorDiv`; its sign is the divisor's. -/
def floorMod (a b : Int64) : Int64 :=
  let r := a % b
  if r ≠ 0 ∧ decide (r < 0) ≠ decide (b < 0) then r + b else r

def ceilDiv (a b : Int64) : Int64 :=
  let q := a / b
  let r := a % b
  if r ≠ 0 ∧ decide (0 < r) = decide (0 < b) then q + 1 else q

inductive DivisionError where
  | divisionByZero
  | divisionOverflow
  | remainderByZero
  | remainderOverflow
  deriving DecidableEq, Repr

def DivisionError.message : DivisionError → String
  | .divisionByZero => "attempt to divide by zero"
  | .divisionOverflow => "attempt to divide with overflow"
  | .remainderByZero => "attempt to calculate the remainder with a divisor of zero"
  | .remainderOverflow => "attempt to calculate the remainder with overflow"

def floorDiv? (a b : Int64) : Except DivisionError Int64 :=
  if b = 0 then .error .divisionByZero
  else if a.canDivide b then .ok (a.floorDiv b)
  else .error .divisionOverflow

def floorMod? (a b : Int64) : Except DivisionError Int64 :=
  if b = 0 then .error .remainderByZero
  else if a.canDivide b then .ok (a.floorMod b)
  else .error .remainderOverflow

def ceilDiv? (a b : Int64) : Except DivisionError Int64 :=
  if b = 0 then .error .divisionByZero
  else if a.canDivide b then .ok (a.ceilDiv b)
  else .error .divisionOverflow

end Int64
