import Mathlib.Data.List.Sort
import TensorIR.Predicate
import TensorIR.Proofs.SymExpr.Bounds
import TensorIR.Proofs.SymExpr.Constant

/-!
Simplification and proofs step by step. A step stops the computation where the machine would: at an
index beyond the end of a list, at an operation whose result leaves the range, at a division by
zero, and where terms are sorted by a comparison that is not an order. No computation stops; each
gives what it gives without a look at its steps.
-/

namespace TensorIR

theorem mapM_eq_some_map {α β : Type} {f : α → Option β} {g : α → β} {as : List α}
    (h : ∀ a ∈ as, f a = some (g a)) : as.mapM f = some (as.map g) := by
  induction as with
  | nil => rfl
  | cons a as ih =>
    rw [List.forall_mem_cons] at h
    rw [List.mapM_cons, h.1, ih h.2]
    rfl

/-- Takes out the entry at a position, which must be one of the list. -/
def removeAt? {α : Type} (as : List α) (i : Nat) : Option (List α) :=
  if i < as.length then some (as.eraseIdx i) else none

theorem removeAt?_append_cons {α : Type} (front : List α) (a : α) (as : List α) :
    removeAt? (front ++ a :: as) front.length = some (front ++ as) := by
  have hlt : front.length < (front ++ a :: as).length := by simp
  rw [removeAt?, if_pos hlt, List.eraseIdx_append_of_length_le (Nat.le_refl _), Nat.sub_self]
  rfl

namespace BinOp

/-- What is looked at before two literals are combined. -/
def guard : BinOp → Int64 → Int64 → Bool
  | .add, a, b => (a.add? b).isSome
  | .sub, a, b => (a.sub? b).isSome
  | .mul, a, b => (a.mul? b).isSome
  | .div, a, b | .ceilDiv, a, b | .mod, a, b => a.canDivide b

/-- The combination itself, which does not look. -/
def combine? : BinOp → Int64 → Int64 → Option Int64
  | .add, a, b => a.add? b
  | .sub, a, b => a.sub? b
  | .mul, a, b => a.mul? b
  | .div, a, b => a.floorDivSteps? b
  | .ceilDiv, a, b => a.ceilDivSteps? b
  | .mod, a, b => a.floorModSteps? b

theorem fold?_of_guard {op : BinOp} {a b : Int64} (h : op.guard a b = true) :
    ∃ c, op.combine? a b = some c ∧ op.fold? a b = some c := by
  cases op with
  | add => exact (Option.isSome_iff_exists.1 h).imp fun c hc => ⟨hc, hc⟩
  | sub => exact (Option.isSome_iff_exists.1 h).imp fun c hc => ⟨hc, hc⟩
  | mul => exact (Option.isSome_iff_exists.1 h).imp fun c hc => ⟨hc, hc⟩
  | div => exact ⟨_, Int64.floorDivSteps?_eq_some h, if_pos h⟩
  | ceilDiv => exact ⟨_, Int64.ceilDivSteps?_eq_some h, if_pos h⟩
  | mod => exact ⟨_, Int64.floorModSteps?_eq_some h, if_pos h⟩

-- Without the guard the combination may stop.
example : BinOp.div.combine? 1 0 = none ∧ BinOp.mod.combine? Int64.minValue (-1) = none := by
  decide

theorem fold?_of_not_guard {op : BinOp} {a b : Int64} (h : ¬ op.guard a b = true) :
    op.fold? a b = none := by
  cases op with
  | add => exact Option.not_isSome_iff_eq_none.1 h
  | sub => exact Option.not_isSome_iff_eq_none.1 h
  | mul => exact Option.not_isSome_iff_eq_none.1 h
  | div => exact if_neg h
  | ceilDiv => exact if_neg h
  | mod => exact if_neg h

end BinOp

namespace SymExpr

section Folding

def foldLitsSteps? (op : BinOp) (l r : SymExpr) : Option (Option SymExpr) :=
  match l, r with
  | .lit a, .lit b =>
    if op.guard a b then do return some (.lit (← op.combine? a b)) else some none
  | _, _ => some none

def foldNegSteps? : SymExpr → Option SymExpr
  | .lit a => if a = Int64.minValue then some (.neg (.lit a)) else do return .lit (← a.neg?)
  | e => some (.neg e)

def foldAddSteps? (l r : SymExpr) : Option SymExpr :=
  if l.isLit 0 then some r
  else if r.isLit 0 then some l
  else do
    match ← foldLitsSteps? .add l r with
    | some e => return e
    | none => return if isOpposite.negates r l then .lit 0 else .add l r

def foldSubSteps? (l r : SymExpr) : Option SymExpr :=
  if r.isLit 0 then some l
  else do
    match ← foldLitsSteps? .sub l r with
    | some e => return e
    | none => return if l.same r then .lit 0 else .sub l r

def foldMulSteps? (l r : SymExpr) : Option SymExpr :=
  if l.isLit 0 || r.isLit 0 then some (.lit 0)
  else if l.isLit 1 then some r
  else if r.isLit 1 then some l
  else do return (← foldLitsSteps? .mul l r).getD (.mul l r)

/-- `cancelFactors` by position. The factors in front of the position have no partner. -/
def cancelFactorsFrom? :
    Nat → Nat → List SymExpr → List SymExpr → Option (List SymExpr × List SymExpr)
  | 0, _, _, _ => none
  | rounds + 1, i, ns, ds =>
    if i < ns.length then do
      let n ← ns[i]?
      match ds.findIdx? fun d => n.same d && !d.isLit 0 with
      | some k => cancelFactorsFrom? rounds i (← removeAt? ns i) (← removeAt? ds k)
      | none => cancelFactorsFrom? rounds (i + 1) ns ds
    else some (ns, ds)

def removeCommonFactorsSteps? (l r : SymExpr) : Option (SymExpr × SymExpr) := do
  let ns := l.operands .mul
  let (ns, ds) ← cancelFactorsFrom? (ns.length + 1) 0 ns (r.operands .mul)
  return (ofOperands .mul (.lit 1) ns, ofOperands .mul (.lit 1) ds)

def mergeQuotientsSteps? (op : BinOp) (l r : SymExpr) : Option (Option SymExpr) :=
  match l, r with
  | .bin op' l (.lit b), .lit c =>
    if op' = op && 0 < b && 0 < c && (b.mul? c).isSome then
      do return some (.bin op l (.lit (← b.mul? c)))
    else some none
  | _, _ => some none

def foldQuotientSteps? (op : BinOp) (l r : SymExpr) : Option SymExpr := do
  let (l, r) ← removeCommonFactorsSteps? l r
  if r.isLit 1 then return l
  else match ← foldLitsSteps? op l r with
    | some e => return e
    | none => return (← mergeQuotientsSteps? op l r).getD (.bin op l r)

def foldModSteps? (l r : SymExpr) : Option SymExpr :=
  if r.isLit 1 then some (.lit 0)
  else do
    match ← foldLitsSteps? .mod l r with
    | some e => return e
    | none => return if l.hasFactor r then .lit 0 else .mod l r

def foldBinSteps? : BinOp → SymExpr → SymExpr → Option SymExpr
  | .add, l, r => foldAddSteps? l r
  | .sub, l, r => foldSubSteps? l r
  | .mul, l, r => foldMulSteps? l r
  | .div, l, r => foldQuotientSteps? .div l r
  | .ceilDiv, l, r => foldQuotientSteps? .ceilDiv l r
  | .mod, l, r => foldModSteps? l r

def foldSteps? : SymExpr → Option SymExpr
  | .lit a => some (.lit a)
  | .sym s => some (.sym s)
  | .neg e => do foldNegSteps? (← e.foldSteps?)
  | .bin op l r => do foldBinSteps? op (← l.foldSteps?) (← r.foldSteps?)

variable {op : BinOp}

theorem foldLitsSteps?_eq_some (op : BinOp) (l r : SymExpr) :
    foldLitsSteps? op l r = some (foldLits op l r) := by
  match l, r with
  | .lit a, .lit b =>
    unfold foldLitsSteps? foldLits
    dsimp only
    split
    · next h =>
      obtain ⟨c, hcombine, hfold⟩ := BinOp.fold?_of_guard h
      rw [hcombine, hfold]
      rfl
    · next h =>
      rw [BinOp.fold?_of_not_guard h]
      rfl
  | .lit _, .sym _ | .lit _, .neg _ | .lit _, .bin .. | .sym _, _ | .neg _, _ | .bin .., _ => rfl

theorem foldNegSteps?_eq_some (e : SymExpr) : foldNegSteps? e = some (foldNeg e) := by
  cases e with
  | lit a =>
    by_cases h : a = Int64.minValue
    · rw [h]
      rfl
    · rw [foldNegSteps?, foldNeg, if_neg h]
      cases hneg : a.neg? with
      | none => exact absurd (eq_minValue_of_neg? hneg) h
      | some b => rfl
  | _ => rfl

theorem foldAddSteps?_eq_some (l r : SymExpr) : foldAddSteps? l r = some (foldAdd l r) := by
  unfold foldAddSteps? foldAdd
  rw [foldLitsSteps?_eq_some]
  split
  · rfl
  · split
    · rfl
    · cases foldLits .add l r with
      | some e => rfl
      | none => rfl

theorem foldSubSteps?_eq_some (l r : SymExpr) : foldSubSteps? l r = some (foldSub l r) := by
  unfold foldSubSteps? foldSub
  rw [foldLitsSteps?_eq_some]
  split
  · rfl
  · cases foldLits .sub l r with
    | some e => rfl
    | none => rfl

theorem foldMulSteps?_eq_some (l r : SymExpr) : foldMulSteps? l r = some (foldMul l r) := by
  unfold foldMulSteps? foldMul
  rw [foldLitsSteps?_eq_some]
  split
  · rfl
  · split
    · rfl
    · split
      · rfl
      · rfl

/-- The rounds suffice: each passes a factor or takes it out. -/
theorem cancelFactorsFrom?_eq_some {rounds : Nat} {ns : List SymExpr} (h : ns.length < rounds)
    (front ds : List SymExpr) :
    cancelFactorsFrom? rounds front.length (front ++ ns) ds =
      some (front ++ (cancelFactors ns ds).1, (cancelFactors ns ds).2) := by
  induction ns generalizing rounds front ds with
  | nil =>
    cases rounds with
    | zero => cases h
    | succ rounds => simp [cancelFactorsFrom?, cancelFactors]
  | cons n ns ih =>
    cases rounds with
    | zero => cases h
    | succ rounds =>
      rw [List.length_cons, Nat.add_lt_add_iff_right] at h
      have hlt : front.length < (front ++ n :: ns).length := by simp
      have hget : (front ++ n :: ns)[front.length]? = some n := by simp
      rw [cancelFactorsFrom?, if_pos hlt, hget, cancelFactors, List.eraseP_eq_eraseIdx]
      simp only [Option.bind_eq_bind, Option.bind_some]
      cases hfind : ds.findIdx? fun d => n.same d && !d.isLit 0 with
      | none =>
        have hany := List.findIdx?_eq_none_iff.1 hfind
        have hnext := ih h (front ++ [n]) ds
        rw [List.length_append, List.length_singleton, List.append_assoc] at hnext
        have hpartner : ¬ (ds.any fun d => n.same d && !d.isLit 0) = true := by
          rw [List.any_eq_true]
          rintro ⟨d, hd, hsame⟩
          rw [hany d hd] at hsame
          cases hsame
        rw [if_neg hpartner]
        simpa using hnext
      | some k =>
        obtain ⟨hk, hsame, _⟩ := List.findIdx?_eq_some_iff_getElem.1 hfind
        have hpartner : (ds.any fun d => n.same d && !d.isLit 0) = true :=
          List.any_eq_true.2 ⟨ds[k], List.getElem_mem hk, hsame⟩
        dsimp only
        rw [if_pos hpartner, removeAt?_append_cons, removeAt?, if_pos hk]
        exact ih h front (ds.eraseIdx k)

theorem removeCommonFactorsSteps?_eq_some (l r : SymExpr) :
    removeCommonFactorsSteps? l r = some (removeCommonFactors l r) := by
  have hloop := cancelFactorsFrom?_eq_some (Nat.lt_succ_self (l.operands .mul).length) []
    (r.operands .mul)
  unfold removeCommonFactorsSteps? removeCommonFactors
  dsimp only
  rw [List.length_nil, List.nil_append] at hloop
  rw [hloop]
  rfl

theorem mergeQuotientsSteps?_eq_some (op : BinOp) (l r : SymExpr) :
    mergeQuotientsSteps? op l r = some (mergeQuotients op l r) := by
  by_cases hlits : ∃ op' n b c, l = .bin op' n (.lit b) ∧ r = .lit c
  · obtain ⟨op', n, b, c, rfl, rfl⟩ := hlits
    rw [mergeQuotientsSteps?, mergeQuotients]
    cases hmul : b.mul? c with
    | none => simp
    | some d =>
      simp only [Option.isSome_some, Bool.and_true]
      split
      · rfl
      · rfl
  · have hne (op' : BinOp) (n : SymExpr) (b c : Int64) (hl : l = .bin op' n (.lit b))
        (hr : r = .lit c) : False := hlits ⟨op', n, b, c, hl, hr⟩
    rw [mergeQuotientsSteps?, mergeQuotients]
    · exact hne
    · exact hne

theorem foldQuotientSteps?_eq_some (op : BinOp) (l r : SymExpr) :
    foldQuotientSteps? op l r = some (foldQuotient op l r) := by
  unfold foldQuotientSteps? foldQuotient
  rw [removeCommonFactorsSteps?_eq_some]
  simp only [Option.bind_eq_bind, Option.bind_some]
  rw [foldLitsSteps?_eq_some, mergeQuotientsSteps?_eq_some]
  split
  · rfl
  · cases foldLits op (removeCommonFactors l r).1 (removeCommonFactors l r).2 with
    | some e => rfl
    | none => rfl

theorem foldModSteps?_eq_some (l r : SymExpr) : foldModSteps? l r = some (foldMod l r) := by
  unfold foldModSteps? foldMod
  rw [foldLitsSteps?_eq_some]
  split
  · rfl
  · cases foldLits .mod l r with
    | some e => rfl
    | none => rfl

theorem foldBinSteps?_eq_some (op : BinOp) (l r : SymExpr) :
    foldBinSteps? op l r = some (foldBin op l r) := by
  cases op with
  | add => exact foldAddSteps?_eq_some l r
  | sub => exact foldSubSteps?_eq_some l r
  | mul => exact foldMulSteps?_eq_some l r
  | div => exact foldQuotientSteps?_eq_some .div l r
  | ceilDiv => exact foldQuotientSteps?_eq_some .ceilDiv l r
  | mod => exact foldModSteps?_eq_some l r

theorem foldSteps?_eq_some (e : SymExpr) : e.foldSteps? = some e.fold := by
  induction e with
  | lit a => rfl
  | sym s => rfl
  | neg e ih =>
    rw [foldSteps?, ih]
    exact foldNegSteps?_eq_some e.fold
  | bin op l r ihl ihr =>
    rw [foldSteps?, ihl, ihr]
    exact foldBinSteps?_eq_some op l.fold r.fold

end Folding

section Sorting

/-- The comparison that terms are sorted by. -/
def compareTerms (a b : SymExpr) : Ordering :=
  match a.value?, b.value? with
  | some _, none => .lt
  | none, some _ => .gt
  | _, _ =>
    match a.name?, b.name? with
    | some n, some m => compare n m
    | some _, none => .lt
    | none, some _ => .gt
    | none, none => .eq

/-- The comparison orders these terms. -/
def Comparable (es : List SymExpr) : Prop :=
  ∀ a ∈ es, ∀ b ∈ es, compareTerms a b = (compareTerms b a).swap ∧
    ∀ c ∈ es, (compareTerms a b).isLE → (compareTerms b c).isLE → (compareTerms a c).isLE

instance (es : List SymExpr) : Decidable (Comparable es) :=
  inferInstanceAs (Decidable (∀ a ∈ es, ∀ b ∈ es, _ ∧ ∀ c ∈ es, _))

/-- Sorting may stop unless the comparison orders the terms. -/
def sortTermsSteps? (es : List SymExpr) : Option (List SymExpr) :=
  if Comparable es then some (es.insertionSort fun a b => (compareTerms a b).isLE) else none

/-- Literals, then symbols and negated symbols, then all other terms. -/
def sortRank (e : SymExpr) : Nat :=
  if e.value?.isSome then 0 else if e.name?.isSome then 1 else 2

theorem name?_eq_none_of_value? {e : SymExpr} {a : Int64} (h : e.value? = some a) :
    e.name? = none := by
  cases e with
  | lit => rfl
  | _ => cases h

theorem compareTerms_eq (a b : SymExpr) :
    compareTerms a b = (compare a.sortRank b.sortRank).then
      (compare (a.name?.getD "") (b.name?.getD "")) := by
  unfold compareTerms sortRank
  cases ha : a.value? with
  | some x =>
    rw [name?_eq_none_of_value? ha]
    cases hb : b.value? with
    | some y =>
      rw [name?_eq_none_of_value? hb]
      rfl
    | none =>
      cases b.name? with
      | some m => rfl
      | none => rfl
  | none =>
    cases hb : b.value? with
    | some y =>
      rw [name?_eq_none_of_value? hb]
      cases a.name? with
      | some n => rfl
      | none => rfl
    | none =>
      cases a.name? with
      | some n =>
        cases b.name? with
        | some m => rfl
        | none => rfl
      | none =>
        cases b.name? with
        | some m => rfl
        | none => rfl

instance : Std.TransCmp compareTerms := by
  have heq : compareTerms =
      compareLex (compareOn sortRank) (compareOn fun e => e.name?.getD "") :=
    funext fun a => funext fun b => compareTerms_eq a b
  rw [heq]
  infer_instance

theorem comparable (es : List SymExpr) : Comparable es :=
  fun _ _ _ _ => ⟨Std.OrientedCmp.eq_swap, fun _ _ => Std.TransCmp.isLE_trans⟩

theorem isLE_compareTerms (a b : SymExpr) : (compareTerms a b).isLE = a.precedes b := by
  have hnames (n m : String) : (compare n m).isLE = decide (n ≤ m) := by
    rw [Bool.eq_iff_iff, decide_eq_true_iff]
    exact isLE_compareOfLessAndEq String.le_antisymm String.not_le String.le_total
  have hvalue {e : SymExpr} (h : ∀ x, e = lit x → False) : e.value? = none := by
    cases e with
    | lit x => exact absurd rfl (h x)
    | _ => rfl
  unfold precedes
  split
  · cases b with
    | lit y => rfl
    | _ => rfl
  · next y ha =>
    rw [compareTerms, hvalue ha]
    rfl
  · next ha hb =>
    rw [compareTerms, hvalue ha, hvalue hb]
    cases a.name? with
    | some n =>
      cases b.name? with
      | some m => exact hnames n m
      | none => rfl
    | none =>
      cases b.name? with
      | some m => rfl
      | none => rfl

theorem sortTermsSteps?_eq_some (es : List SymExpr) :
    sortTermsSteps? es = some (sortTerms es) := by
  have hinsert (a : SymExpr) (es : List SymExpr) :
      es.orderedInsert (fun a b => (compareTerms a b).isLE) a = insertTerm a es := by
    induction es with
    | nil => rfl
    | cons b es ih => rw [List.orderedInsert_cons, insertTerm, isLE_compareTerms, ih]
  rw [sortTermsSteps?, if_pos (comparable es), Option.some.injEq]
  induction es with
  | nil => rfl
  | cons a es ih => rw [List.insertionSort_cons, sortTerms, ih, hinsert]

end Sorting

section Canonical

/-- `cancelOpposites` by position. The terms in front of the position stay. -/
def cancelOppositesFrom? : Nat → Nat → List SymExpr → Option (List SymExpr)
  | 0, _, _ => none
  | rounds + 1, i, es =>
    if i < es.length - 1 then do
      let a ← es[i]?
      let b ← es[i + 1]?
      if a.isOpposite b then cancelOppositesFrom? rounds i (← removeAt? (← removeAt? es i) i)
      else cancelOppositesFrom? rounds (i + 1) es
    else some es

def sumOfSteps? (es : List SymExpr) : Option SymExpr := do
  let es ← sortTermsSteps? es
  return ofOperands .add (.lit 0) (← cancelOppositesFrom? (es.length + 1) 0 es)

def productOfSteps? (es : List SymExpr) : Option SymExpr := do
  return ofOperands .mul (.lit 1) (← sortTermsSteps? es)

def negateTermSteps? : SymExpr → Option SymExpr
  | .neg e => some e
  | e => foldNegSteps? e

/-- `canonicalize` with a limit on how deep its calls nest. -/
def canonicalizeSteps? : Nat → SymExpr → Option SymExpr
  | 0, _ => none
  | depth + 1, e =>
    match e with
    | .lit a => some (.lit a)
    | .sym s => some (.sym s)
    | .neg e => do
      let e ← canonicalizeSteps? depth e
      match e.sum? with
      | none => negateTermSteps? e
      | some (l, r) => canonicalizeSteps? depth (.add (.neg l) (.neg r))
    | .bin .add l r => do
      sumOfSteps? (← (operands .add (.add l r)).mapM (canonicalizeSteps? depth))
    | .bin .mul l r => do
      productOfSteps? (← (operands .mul (.mul l r)).mapM (canonicalizeSteps? depth))
    | .bin .sub l r => do
      let l ← canonicalizeSteps? depth l
      let r ← canonicalizeSteps? depth r
      canonicalizeSteps? depth (.add l (.neg r))
    | .bin op l r => do
      return .bin op (← canonicalizeSteps? depth l) (← canonicalizeSteps? depth r)

theorem cancelOppositesFrom?_eq_some {rounds : Nat} {es : List SymExpr} (h : es.length < rounds)
    (front : List SymExpr) :
    cancelOppositesFrom? rounds front.length (front ++ es) =
      some (front ++ cancelOpposites es) := by
  fun_induction cancelOpposites es generalizing rounds front with
  | case1 a b es hopposite ih =>
    cases rounds with
    | zero => cases h
    | succ rounds =>
      rw [List.length_cons, List.length_cons] at h
      have hlt : front.length < (front ++ a :: b :: es).length - 1 := by simp
      have hfirst : (front ++ a :: b :: es)[front.length]? = some a := by simp
      have hsecond : (front ++ a :: b :: es)[front.length + 1]? = some b := by simp
      rw [cancelOppositesFrom?, if_pos hlt, hfirst, hsecond]
      simp only [Option.bind_eq_bind, Option.bind_some]
      rw [if_pos hopposite, removeAt?_append_cons, Option.bind_some, removeAt?_append_cons]
      exact ih (by omega) front
  | case2 a b es hopposite ih =>
    cases rounds with
    | zero => cases h
    | succ rounds =>
      rw [List.length_cons, Nat.add_lt_add_iff_right] at h
      have hlt : front.length < (front ++ a :: b :: es).length - 1 := by simp
      have hfirst : (front ++ a :: b :: es)[front.length]? = some a := by simp
      have hsecond : (front ++ a :: b :: es)[front.length + 1]? = some b := by simp
      have hnext := ih h (front ++ [a])
      rw [List.length_append, List.length_singleton, List.append_assoc] at hnext
      rw [cancelOppositesFrom?, if_pos hlt, hfirst, hsecond]
      simp only [Option.bind_eq_bind, Option.bind_some]
      rw [if_neg hopposite]
      simpa using hnext
  | case3 es hes =>
    cases rounds with
    | zero => cases h
    | succ rounds =>
      have hlt : ¬ front.length < (front ++ es).length - 1 := by
        cases es with
        | nil => simp
        | cons a es =>
          cases es with
          | nil => simp
          | cons b es => exact absurd rfl (hes a b es)
      rw [cancelOppositesFrom?, if_neg hlt]

theorem sumOfSteps?_eq_some (es : List SymExpr) : sumOfSteps? es = some (sumOf es) := by
  have hloop := cancelOppositesFrom?_eq_some (Nat.lt_succ_self (sortTerms es).length) []
  rw [List.length_nil, List.nil_append, List.nil_append] at hloop
  rw [sumOfSteps?, sortTermsSteps?_eq_some]
  simp only [Option.bind_eq_bind, Option.bind_some]
  rw [hloop]
  rfl

theorem productOfSteps?_eq_some (es : List SymExpr) :
    productOfSteps? es = some (productOf es) := by
  rw [productOfSteps?, sortTermsSteps?_eq_some]
  rfl

theorem negateTermSteps?_eq_some (e : SymExpr) : negateTermSteps? e = some (negateTerm e) := by
  cases e with
  | lit a => exact foldNegSteps?_eq_some (.lit a)
  | _ => rfl

/--
Canonicalization of the first expression enters itself on the second, which may be a sum that it has
built on the way and no part of the first.
-/
inductive Enters : SymExpr → SymExpr → Prop where
  | negated (e : SymExpr) : Enters (neg e) e
  | negatedSum {e l r : SymExpr} (h : e.canonicalize = add l r) :
    Enters (neg e) (add (neg l) (neg r))
  | operand {op : BinOp} (hop : op.isAssocComm = true) {a l r : SymExpr}
    (h : a ∈ operands op (bin op l r)) : Enters (bin op l r) a
  | left {op : BinOp} (hop : op.isAssocComm = false) (l r : SymExpr) : Enters (bin op l r) l
  | right {op : BinOp} (hop : op.isAssocComm = false) (l r : SymExpr) : Enters (bin op l r) r
  | difference (l r : SymExpr) : Enters (sub l r) (add l.canonicalize (neg r.canonicalize))

theorem Enters.weight_lt {e d : SymExpr} (h : Enters e d) : d.weight < e.weight := by
  cases h with
  | negated =>
    simp only [weight]
    omega
  | @negatedSum e l r hsum =>
    have hle := e.weight_canonicalize_le
    rw [hsum] at hle
    simp only [weight] at hle ⊢
    omega
  | operand _ hmem => exact weight_lt_of_mem_operands hmem
  | @left op _ _ r =>
    have := r.weight_pos
    cases op <;> simp only [weight] <;> omega
  | @right op _ l =>
    have := l.weight_pos
    cases op <;> simp only [weight] <;> omega
  | difference l r =>
    have hl := l.weight_canonicalize_le
    have hr := r.weight_canonicalize_le
    simp only [weight]
    omega

theorem canonicalizeSteps?_succ {depth : Nat} {e : SymExpr}
    (h : ∀ d, Enters e d → canonicalizeSteps? depth d = some d.canonicalize) :
    canonicalizeSteps? (depth + 1) e = some e.canonicalize := by
  cases e with
  | lit a => simp [canonicalizeSteps?]
  | sym s => simp [canonicalizeSteps?]
  | neg e =>
    rw [canonicalizeSteps?, h e (.negated e), canonicalize_neg]
    simp only [Option.bind_eq_bind, Option.bind_some]
    cases hsum : e.canonicalize.sum? with
    | none => exact negateTermSteps?_eq_some e.canonicalize
    | some terms => exact h _ (.negatedSum (eq_add_of_sum? hsum))
  | bin op l r =>
    have hoperands (hop : op.isAssocComm = true) :
        (operands op (bin op l r)).mapM (canonicalizeSteps? depth) =
          some ((operands op (bin op l r)).map canonicalize) :=
      mapM_eq_some_map fun a ha => h a (.operand hop ha)
    have hleft (hop : op.isAssocComm = false) := h l (.left hop l r)
    have hright (hop : op.isAssocComm = false) := h r (.right hop l r)
    cases op with
    | add =>
      rw [canonicalizeSteps?, hoperands rfl, canonicalize_add]
      exact sumOfSteps?_eq_some _
    | mul =>
      rw [canonicalizeSteps?, hoperands rfl, canonicalize_mul]
      exact productOfSteps?_eq_some _
    | sub =>
      rw [canonicalizeSteps?, hleft rfl, hright rfl, canonicalize_sub]
      exact h _ (.difference l r)
    | div =>
      rw [canonicalizeSteps?, hleft rfl, hright rfl, canonicalize_div]
      · rfl
      all_goals simp
    | ceilDiv =>
      rw [canonicalizeSteps?, hleft rfl, hright rfl, canonicalize_ceilDiv]
      · rfl
      all_goals simp
    | mod =>
      rw [canonicalizeSteps?, hleft rfl, hright rfl, canonicalize_mod]
      · rfl
      all_goals simp

/-- Canonicalization nests no deeper than the expression is heavy. -/
theorem canonicalizeSteps?_eq_some {depth : Nat} {e : SymExpr} (h : e.weight ≤ depth) :
    canonicalizeSteps? depth e = some e.canonicalize := by
  induction depth generalizing e with
  | zero => exact absurd h (Nat.not_le_of_lt e.weight_pos)
  | succ depth ih =>
    apply canonicalizeSteps?_succ
    intro d hd
    have hlt := hd.weight_lt
    exact ih (by omega)

end Canonical

section Simplification

def simplifyRoundSteps? (e : SymExpr) : Option SymExpr := do
  (← canonicalizeSteps? e.weight e).foldSteps?

def simplifyRoundsSteps? : Nat → SymExpr → Option SymExpr
  | 0, e => some e
  | n + 1, e => do
    let next ← e.simplifyRoundSteps?
    if next.same e then return e else simplifyRoundsSteps? n next

def simplifySteps? (e : SymExpr) : Option SymExpr := do
  simplifyRoundsSteps? 7 (← e.simplifyRoundSteps?)

def checkedSimplifySteps? (e : SymExpr) : Option (Option SymExpr) := do
  let s ← e.simplifySteps?
  return if s.hasOverflow then none else some s

theorem simplifyRoundSteps?_eq_some (e : SymExpr) :
    e.simplifyRoundSteps? = some e.simplifyRound := by
  rw [simplifyRoundSteps?, canonicalizeSteps?_eq_some (Nat.le_refl _)]
  exact foldSteps?_eq_some e.canonicalize

theorem simplifyRoundsSteps?_eq_some (n : Nat) (e : SymExpr) :
    simplifyRoundsSteps? n e = some (simplifyRounds n e) := by
  induction n generalizing e with
  | zero => rfl
  | succ n ih =>
    rw [simplifyRoundsSteps?, simplifyRoundSteps?_eq_some, simplifyRounds]
    simp only [Option.bind_eq_bind, Option.bind_some]
    split
    · rfl
    · exact ih e.simplifyRound

theorem simplifySteps?_eq_some (e : SymExpr) : e.simplifySteps? = some e.simplify := by
  rw [simplifySteps?, simplifyRoundSteps?_eq_some]
  exact simplifyRoundsSteps?_eq_some 7 e.simplifyRound

theorem checkedSimplifySteps?_eq_some (e : SymExpr) :
    e.checkedSimplifySteps? = some e.checkedSimplify? := by
  rw [checkedSimplifySteps?, simplifySteps?_eq_some]
  rfl

end Simplification

end SymExpr

namespace Predicate

def differenceBoundsSteps? (l r : SymExpr) : Option Interval := do
  (← (SymExpr.sub l r).simplifySteps?).bounds?

def proveEqSteps? (l r : SymExpr) : Option Verdict := do
  let d ← differenceBoundsSteps? l r
  return if d.lo = 0 ∧ d.hi = 0 then .holds
    else if 0 < d.lo ∨ d.hi < 0 then .fails
    else .unknown

def proveLtSteps? (l r : SymExpr) : Option Verdict := do
  let d ← differenceBoundsSteps? r l
  return if 0 < d.lo then .holds
    else if d.hi ≤ 0 then .fails
    else .unknown

def proveCompareSteps? : Relation → SymExpr → SymExpr → Option Verdict
  | .eq, l, r => proveEqSteps? l r
  | .ne, l, r => (proveEqSteps? l r).map .not
  | .lt, l, r => proveLtSteps? l r
  | .le, l, r => (proveLtSteps? r l).map .not
  | .gt, l, r => proveLtSteps? r l
  | .ge, l, r => (proveLtSteps? l r).map .not

def proveSteps? : Predicate → Option Verdict
  | .compare rel l r => proveCompareSteps? rel l r
  | .and p q => do return (← p.proveSteps?).and (← q.proveSteps?)
  | .or p q => do return (← p.proveSteps?).or (← q.proveSteps?)
  | .not p => p.proveSteps?.map .not

theorem differenceBoundsSteps?_eq_some (l r : SymExpr) :
    differenceBoundsSteps? l r = some (differenceBounds l r) := by
  rw [differenceBoundsSteps?, SymExpr.simplifySteps?_eq_some]
  exact SymExpr.bounds?_eq_some (SymExpr.sub l r).simplify

theorem proveEqSteps?_eq_some (l r : SymExpr) : proveEqSteps? l r = some (proveEq l r) := by
  rw [proveEqSteps?, differenceBoundsSteps?_eq_some]
  rfl

theorem proveLtSteps?_eq_some (l r : SymExpr) : proveLtSteps? l r = some (proveLt l r) := by
  rw [proveLtSteps?, differenceBoundsSteps?_eq_some]
  rfl

theorem proveCompareSteps?_eq_some (rel : Relation) (l r : SymExpr) :
    proveCompareSteps? rel l r = some (proveCompare rel l r) := by
  cases rel with
  | eq => exact proveEqSteps?_eq_some l r
  | ne => rw [proveCompareSteps?, proveEqSteps?_eq_some, Option.map_some, proveCompare]
  | lt => exact proveLtSteps?_eq_some l r
  | le => rw [proveCompareSteps?, proveLtSteps?_eq_some, Option.map_some, proveCompare]
  | gt => exact proveLtSteps?_eq_some r l
  | ge => rw [proveCompareSteps?, proveLtSteps?_eq_some, Option.map_some, proveCompare]

theorem proveSteps?_eq_some (p : Predicate) : p.proveSteps? = some p.prove := by
  induction p with
  | compare rel l r => exact proveCompareSteps?_eq_some rel l r
  | and p q ihp ihq =>
    rw [proveSteps?, ihp, ihq]
    rfl
  | or p q ihp ihq =>
    rw [proveSteps?, ihp, ihq]
    rfl
  | not p ih =>
    rw [proveSteps?, ih]
    rfl

end Predicate

end TensorIR
