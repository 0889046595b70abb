import TensorIR.Interval
import TensorIR.SymExpr.Eval
import TensorIR.SymExpr.Simplify
import TensorIR.SymExpr.Printer
import TensorIR.Text.Inspect

/-!
Predicates over symbolic expressions and a proof oracle for them. A comparison is decided by
simplifying the difference of its sides and bounding it; where the bounds do not decide it, the
answer is that nothing is known.
-/

namespace TensorIR

inductive Verdict where
  | holds
  | fails
  | unknown
  deriving DecidableEq, Repr, Inhabited

namespace Verdict

def not : Verdict → Verdict
  | .holds => .fails
  | .fails => .holds
  | .unknown => .unknown

def and : Verdict → Verdict → Verdict
  | .fails, _ | _, .fails => .fails
  | .holds, .holds => .holds
  | _, _ => .unknown

def or : Verdict → Verdict → Verdict
  | .holds, _ | _, .holds => .holds
  | .fails, .fails => .fails
  | _, _ => .unknown

end Verdict

inductive Relation where
  | eq
  | ne
  | lt
  | le
  | gt
  | ge
  deriving DecidableEq, Repr, Inhabited

def Relation.Holds : Relation → Int → Int → Prop
  | .eq, a, b => a = b
  | .ne, a, b => a ≠ b
  | .lt, a, b => a < b
  | .le, a, b => a ≤ b
  | .gt, a, b => a > b
  | .ge, a, b => a ≥ b

inductive Predicate where
  | compare (rel : Relation) (lhs rhs : SymExpr)
  | and (p q : Predicate)
  | or (p q : Predicate)
  | not (p : Predicate)
  deriving DecidableEq, Repr, Inhabited

namespace Predicate

def Defined (σ : Assignment) : Predicate → Prop
  | .compare _ l r => (l.eval? σ).isSome ∧ (r.eval? σ).isSome
  | .and p q => p.Defined σ ∧ q.Defined σ
  | .or p q => p.Defined σ ∧ q.Defined σ
  | .not p => p.Defined σ

/-- The meaning of a predicate. A comparison without a value on one side does not hold. -/
def Holds (σ : Assignment) : Predicate → Prop
  | .compare rel l r => ∃ a b, l.eval? σ = some a ∧ r.eval? σ = some b ∧ rel.Holds a b
  | .and p q => p.Holds σ ∧ q.Holds σ
  | .or p q => p.Holds σ ∨ q.Holds σ
  | .not p => ¬ p.Holds σ

def differenceBounds (l r : SymExpr) : Interval :=
  (SymExpr.sub l r).simplify.bounds

def proveEq (l r : SymExpr) : Verdict :=
  let d := differenceBounds l r
  if d.lo = 0 ∧ d.hi = 0 then .holds
  else if 0 < d.lo ∨ d.hi < 0 then .fails
  else .unknown

/-- `l < r` is decided as `0 < r - l`. -/
def proveLt (l r : SymExpr) : Verdict :=
  let d := differenceBounds r l
  if 0 < d.lo then .holds
  else if d.hi ≤ 0 then .fails
  else .unknown

def proveCompare : Relation → SymExpr → SymExpr → Verdict
  | .eq, l, r => proveEq l r
  | .ne, l, r => (proveEq l r).not
  | .lt, l, r => proveLt l r
  | .le, l, r => (proveLt r l).not
  | .gt, l, r => proveLt r l
  | .ge, l, r => (proveLt l r).not

def prove : Predicate → Verdict
  | .compare rel l r => proveCompare rel l r
  | .and p q => p.prove.and q.prove
  | .or p q => p.prove.or q.prove
  | .not p => p.prove.not

def provable (p : Predicate) : Bool :=
  p.prove == .holds

end Predicate

def SymExpr.provablyEqual (l r : SymExpr) : Bool :=
  (Predicate.compare .eq l r).provable

def Relation.name : Relation → String
  | .eq => "Eq"
  | .ne => "Ne"
  | .lt => "Lt"
  | .le => "Le"
  | .gt => "Gt"
  | .ge => "Ge"

def Predicate.inspect : Predicate → String
  | .compare rel l r => Inspect.variant rel.name [l.inspect, r.inspect]
  | .and p q => Inspect.variant "And" [p.inspect, q.inspect]
  | .or p q => Inspect.variant "Or" [p.inspect, q.inspect]
  | .not p => Inspect.variant "Not" [p.inspect]

end TensorIR
