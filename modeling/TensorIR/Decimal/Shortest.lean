import TensorIR.Binary64
import TensorIR.Decimal.Basic

/-!
The shortest decimal number that reads back as a given binary one. The reals that round to a
floating-point number form an interval around it. Among the decimal numbers in it, those with the
fewest digits are chosen, and of these the one nearest to the number; a tie goes up.
-/

namespace TensorIR.Decimal

/--
The numbers that round to `value / scale`, from `low / scale` to `high / scale`; the ends belong to
them if `closed` holds.
-/
structure Rounding where
  value : Nat
  low : Nat
  high : Nat
  scale : Nat
  closed : Bool
  deriving DecidableEq, Repr, Inhabited

namespace Rounding

/-- Half of the gaps to the neighbours, in quarters of the last binary place. -/
def ofBinary64 (x : Binary64) : Rounding :=
  let m := 4 * x.significand
  let q := x.exponent - 2
  let gap := if x.hasNarrowGap then 1 else 2
  let up := Nat.pow 2 q.toNat
  ⟨m * up, (m - gap) * up, (m + 2) * up, Nat.pow 2 (-q).toNat, x.significand % 2 = 0⟩

def contains (r : Rounding) (d : Decimal) : Bool :=
  let n := d.digits * Nat.pow 10 d.exponent.toNat * r.scale
  let den := Nat.pow 10 (-d.exponent).toNat
  if r.closed then r.low * den ≤ n && n ≤ r.high * den else r.low * den < n && n < r.high * den

/-- The least `k` for which the value is below `10 ^ k`. -/
def magnitude (r : Rounding) : Int :=
  if r.scale ≤ r.value then (Nat.repr (r.value / r.scale)).length
  else 1 - (Nat.repr ((r.scale - 1) / r.value)).length

/-- The best number with the exponent `e`: of the value's two neighbours, the nearer in range. -/
def neighbour? (r : Rounding) (e : Int) : Option Decimal :=
  let n := r.value * Nat.pow 10 (-e).toNat
  let den := r.scale * Nat.pow 10 e.toNat
  let below : Decimal := ⟨n / den, e⟩
  let above : Decimal := ⟨n / den + 1, e⟩
  match r.contains below, r.contains above with
  | true, true => if 2 * (n % den) < den then some below else some above
  | true, false => some below
  | false, true => some above
  | false, false => none

/-- The best number with the fewest digits; 17 digits are enough for each number. -/
def search? (r : Rounding) : Option Decimal :=
  (List.range' 1 17).findSome? fun (digits : Nat) => r.neighbour? (r.magnitude - digits)

end Rounding

def shortest (x : Binary64) : Decimal :=
  match (Rounding.ofBinary64 x).search? with
  | some d => normalize d.digits d.exponent
  | none => ⟨0, 0⟩

end TensorIR.Decimal
