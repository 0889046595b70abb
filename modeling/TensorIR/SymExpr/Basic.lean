import TensorIR.Word64

/-!
Symbolic integer expressions over 64-bit literals and named symbols, the sizes that tensor
dimensions are written with. Two expressions are the same if they agree up to the order of the
operands of sums and products; `same` decides this.
-/

namespace TensorIR

structure Symbol where
  name : String
  -- Whether the value is known not to be negative.
  nonneg : Bool
  deriving DecidableEq, Repr, Inhabited

/-- `div` rounds down, `ceilDiv` rounds up, and `mod` is the remainder of `div`. -/
inductive BinOp where
  | add
  | sub
  | mul
  | div
  | ceilDiv
  | mod
  deriving DecidableEq, Repr, Inhabited

def BinOp.isAssocComm : BinOp → Bool
  | .add | .mul => true
  | .sub | .div | .ceilDiv | .mod => false

inductive SymExpr where
  | lit (value : Int64)
  | sym (symbol : Symbol)
  | neg (operand : SymExpr)
  | bin (op : BinOp) (lhs rhs : SymExpr)
  deriving DecidableEq, Repr, Inhabited

namespace SymExpr

@[match_pattern]
abbrev add (lhs rhs : SymExpr) : SymExpr := .bin .add lhs rhs

@[match_pattern]
abbrev sub (lhs rhs : SymExpr) : SymExpr := .bin .sub lhs rhs

@[match_pattern]
abbrev mul (lhs rhs : SymExpr) : SymExpr := .bin .mul lhs rhs

@[match_pattern]
abbrev div (lhs rhs : SymExpr) : SymExpr := .bin .div lhs rhs

@[match_pattern]
abbrev ceilDiv (lhs rhs : SymExpr) : SymExpr := .bin .ceilDiv lhs rhs

@[match_pattern]
abbrev mod (lhs rhs : SymExpr) : SymExpr := .bin .mod lhs rhs

instance : Neg SymExpr := ⟨.neg⟩
instance : Add SymExpr := ⟨.add⟩
instance : Sub SymExpr := ⟨.sub⟩
instance : Mul SymExpr := ⟨.mul⟩
instance : Div SymExpr := ⟨.div⟩
instance : Mod SymExpr := ⟨.mod⟩
instance : Coe Int64 SymExpr := ⟨.lit⟩

def var (name : String) : SymExpr :=
  .sym ⟨name, false⟩

def size (name : String) : SymExpr :=
  .sym ⟨name, true⟩

def value? : SymExpr → Option Int64
  | .lit a => some a
  | _ => none

def isLit (a : Int64) : SymExpr → Bool
  | .lit b => b == a
  | _ => false

/--
Equality up to the order of the operands of each sum and product. Symbols are compared by name
alone.
-/
def same : SymExpr → SymExpr → Bool
  | .lit a, .lit b => a == b
  | .sym s, .sym t => s.name == t.name
  | .neg a, .neg b => a.same b
  | .bin op a b, .bin op' c d =>
    op == op' && ((a.same c && b.same d) || (op.isAssocComm && a.same d && b.same c))
  | _, _ => false

/-- The operands of a nest of the operator `op`, from left to right. -/
def operands (op : BinOp) : SymExpr → List SymExpr
  | .bin op' l r => if op' = op then l.operands op ++ r.operands op else [.bin op' l r]
  | e => [e]

theorem operands_ne_nil (op : BinOp) (e : SymExpr) : e.operands op ≠ [] := by
  induction e with
  | bin op' l r ihl ihr => unfold operands; split <;> simp [ihl]
  | _ => simp [operands]

/-- The nest of `op` over a list, grouped to the left; `unit` if the list is empty. -/
def ofOperands (op : BinOp) (unit : SymExpr) : List SymExpr → SymExpr
  | [] => unit
  | e :: es => es.foldl (.bin op) e

def name? : SymExpr → Option String
  | .sym s => some s.name
  | .neg e => e.name?
  | _ => none

def isOpposite (a b : SymExpr) : Bool :=
  negates b a || negates a b
where
  negates : SymExpr → SymExpr → Bool
    | .neg x, y => y.same x
    | _, _ => false

end SymExpr

end TensorIR
