import TensorIR.SymExpr.Canonical

/-!
Simplification of symbolic expressions. A round brings the expression to canonical form and then
folds it from the leaves up: identities are dropped, literals are combined where the exact result
fits, and factors that a quotient or remainder shares with its divisor are removed. Rounds are
repeated until nothing changes, since folding can bring new terms together.
-/

namespace TensorIR

def BinOp.fold? : BinOp → Int64 → Int64 → Option Int64
  | .add, a, b => a.add? b
  | .sub, a, b => a.sub? b
  | .mul, a, b => a.mul? b
  | .div, a, b => if a.canDivide b then some (a.floorDiv b) else none
  | .ceilDiv, a, b => if a.canDivide b then some (a.ceilDiv b) else none
  | .mod, a, b => if a.canDivide b then some (a.floorMod b) else none

namespace SymExpr

def foldLits (op : BinOp) (l r : SymExpr) : Option SymExpr :=
  match l, r with
  | .lit a, .lit b => (op.fold? a b).map .lit
  | _, _ => none

def foldAdd (l r : SymExpr) : SymExpr :=
  if l.isLit 0 then r
  else if r.isLit 0 then l
  else match foldLits .add l r with
    | some e => e
    | none => if isOpposite.negates r l then .lit 0 else .add l r

def foldSub (l r : SymExpr) : SymExpr :=
  if r.isLit 0 then l
  else match foldLits .sub l r with
    | some e => e
    | none => if l.same r then .lit 0 else .sub l r

def foldMul (l r : SymExpr) : SymExpr :=
  if l.isLit 0 || r.isLit 0 then .lit 0
  else if l.isLit 1 then r
  else if r.isLit 1 then l
  else (foldLits .mul l r).getD (.mul l r)

/--
Removes factors that occur in both lists, the first partner of each; zero stays. Answers what is
left of the two lists.
-/
def cancelFactors : List SymExpr → List SymExpr → List SymExpr × List SymExpr
  | [], ds => ([], ds)
  | n :: ns, ds =>
    let partner := fun d => n.same d && !d.isLit 0
    if ds.any partner then cancelFactors ns (ds.eraseP partner)
    else
      let (ns', ds') := cancelFactors ns ds
      (n :: ns', ds')

def removeCommonFactors (l r : SymExpr) : SymExpr × SymExpr :=
  let (ns, ds) := cancelFactors (l.operands .mul) (r.operands .mul)
  (ofOperands .mul (.lit 1) ns, ofOperands .mul (.lit 1) ds)

/-- Whether a product of two or more factors has `factor`, which is not zero, as one of them. -/
def hasFactor (e factor : SymExpr) : Bool :=
  let es := e.operands .mul
  !factor.isLit 0 && 1 < es.length && es.any (·.same factor)

/--
A quotient of a quotient, `a op b op c`, as `a op (b * c)` if both divisors are positive literals
whose product fits.
-/
def mergeQuotients (op : BinOp) (l r : SymExpr) : Option SymExpr :=
  match l, r with
  | .bin op' l (.lit b), .lit c =>
    if op' = op && 0 < b && 0 < c then (b.mul? c).map fun d => .bin op l (.lit d) else none
  | _, _ => none

def foldQuotient (op : BinOp) (l r : SymExpr) : SymExpr :=
  let (l, r) := removeCommonFactors l r
  if r.isLit 1 then l
  else match foldLits op l r with
    | some e => e
    | none => (mergeQuotients op l r).getD (.bin op l r)

def foldMod (l r : SymExpr) : SymExpr :=
  if r.isLit 1 then .lit 0
  else match foldLits .mod l r with
    | some e => e
    | none => if l.hasFactor r then .lit 0 else .mod l r

def foldBin : BinOp → SymExpr → SymExpr → SymExpr
  | .add, l, r => foldAdd l r
  | .sub, l, r => foldSub l r
  | .mul, l, r => foldMul l r
  | .div, l, r => foldQuotient .div l r
  | .ceilDiv, l, r => foldQuotient .ceilDiv l r
  | .mod, l, r => foldMod l r

def fold : SymExpr → SymExpr
  | .lit a => .lit a
  | .sym s => .sym s
  | .neg e => foldNeg e.fold
  | .bin op l r => foldBin op l.fold r.fold

def simplifyRound (e : SymExpr) : SymExpr :=
  e.canonicalize.fold

def simplifyRounds : Nat → SymExpr → SymExpr
  | 0, e => e
  | n + 1, e =>
    let next := e.simplifyRound
    if next.same e then e else simplifyRounds n next

def simplify (e : SymExpr) : SymExpr :=
  simplifyRounds 7 e.simplifyRound

def hasOverflow : SymExpr → Bool
  | .lit _ => false
  | .sym _ => false
  | .neg (.lit a) => a == Int64.minValue
  | .neg e => e.hasOverflow
  | .bin op (.lit a) (.lit b) =>
    match op with
    | .add | .sub | .mul => (op.fold? a b).isNone
    | .div | .ceilDiv | .mod => a == Int64.minValue && b == -1
  | .bin _ l r => l.hasOverflow || r.hasOverflow

def checkedSimplify? (e : SymExpr) : Option SymExpr :=
  let s := e.simplify
  if s.hasOverflow then none else some s

end SymExpr

end TensorIR
