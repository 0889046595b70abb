/-!
Decimal numbers `digits * 10 ^ exponent` and their two notations, positional and scientific.
-/

namespace TensorIR

structure Decimal where
  digits : Nat
  exponent : Int
  deriving DecidableEq, Repr, Inhabited

namespace Decimal

def normalize (digits : Nat) (exponent : Int) : Decimal :=
  if digits ≠ 0 ∧ digits % 10 = 0 then normalize (digits / 10) (exponent + 1)
  else ⟨digits, exponent⟩
termination_by digits
decreasing_by omega

def magnitude (x : Decimal) : Int :=
  x.exponent + (Nat.repr x.digits).length - 1

def zeros (n : Nat) : String :=
  String.ofList (List.replicate n '0')

/-- All digits in their places, with one digit at least on both sides of the point. -/
def positional (x : Decimal) : String :=
  let digits := Nat.repr x.digits
  if 0 ≤ x.exponent then digits ++ zeros x.exponent.toNat ++ ".0"
  else
    let places := (-x.exponent).toNat
    let padded := zeros (places + 1 - digits.length) ++ digits
    let cs := padded.toList
    let whole := cs.length - places
    String.ofList (cs.take whole ++ '.' :: cs.drop whole)

/-- One digit before the point, and the exponent of that digit behind `e`. -/
def scientific (x : Decimal) : String :=
  let mantissa :=
    match (Nat.repr x.digits).toList with
    | d :: ds@(_ :: _) => d :: '.' :: ds
    | ds => ds
  String.ofList mantissa ++ "e" ++ toString x.magnitude

end Decimal

end TensorIR
