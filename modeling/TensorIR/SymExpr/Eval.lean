import TensorIR.SymExpr.Basic

/-!
The exact integer value of a symbolic expression, under an assignment of integers to symbol names.
Division by zero has no value, and neither has an expression that contains one.
-/

namespace TensorIR

abbrev Assignment := String → Int

def BinOp.eval? : BinOp → Int → Int → Option Int
  | .add, a, b => some (a + b)
  | .sub, a, b => some (a - b)
  | .mul, a, b => some (a * b)
  | .div, a, b => if b = 0 then none else some (a.fdiv b)
  | .ceilDiv, a, b => if b = 0 then none else some (-((-a).fdiv b))
  | .mod, a, b => if b = 0 then none else some (a.fmod b)

namespace SymExpr

def eval? (σ : Assignment) : SymExpr → Option Int
  | .lit a => some a.toInt
  | .sym s => some (σ s.name)
  | .neg e => (e.eval? σ).map (- ·)
  | .bin op l r => do op.eval? (← l.eval? σ) (← r.eval? σ)

def InRange (σ : Assignment) (e : SymExpr) : Prop :=
  ∃ a : Int64, e.eval? σ = some a.toInt

/-- Every part of the expression has a value that fits a 64-bit literal. -/
def FitsAt (σ : Assignment) : SymExpr → Prop
  | .lit a => (lit a).InRange σ
  | .sym s => (sym s).InRange σ
  | .neg e => e.FitsAt σ ∧ (neg e).InRange σ
  | .bin op l r => l.FitsAt σ ∧ r.FitsAt σ ∧ (bin op l r).InRange σ

def Respects (σ : Assignment) : SymExpr → Prop
  | .lit _ => True
  | .sym s => s.nonneg = true → 0 ≤ σ s.name
  | .neg e => e.Respects σ
  | .bin _ l r => l.Respects σ ∧ r.Respects σ

end SymExpr

end TensorIR
