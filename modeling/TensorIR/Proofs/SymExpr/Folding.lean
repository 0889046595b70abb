import Mathlib.Algebra.Order.BigOperators.Group.List
import Mathlib.Algebra.Order.BigOperators.GroupWithZero.List
import Mathlib.Algebra.Order.Ring.Int
import TensorIR.Proofs.SymExpr.LiteralSum
import TensorIR.Proofs.SymExpr.DifferenceFree

/-!
Expressions without symbols. Where all parts of the canonical form fit, every operation is folded
and simplification ends in the literal of the exact value. Without signs it is enough that the parts
of the expression itself fit, since no partial sum exceeds the sum. With signs it is not: the terms
of a sum may leave the range in the order that canonicalization gives them, and so may a negated
term.
-/

namespace TensorIR

/-- Operations whose exact result fits are folded, but for one remainder. -/
theorem BinOp.exists_fold?_eq_some {op : BinOp} {a b c : Int64}
    (h : op.eval? a.toInt b.toInt = some c.toInt)
    (hmod : ¬ (op = .mod ∧ a = Int64.minValue ∧ b = -1)) : ∃ d, op.fold? a b = some d := by
  have hdivide (hzero : b.toInt ≠ 0) (hmin : ¬ (a = Int64.minValue ∧ b = -1)) :
      a.canDivide b = true := by
    refine Int64.canDivide_iff.2 ⟨?_, hmin⟩
    rintro rfl
    exact hzero Int64.toInt_zero
  have hlt := c.toInt_lt
  cases op with
  | add => exact ⟨c, Int64.add?_eq_some_iff.2 (Option.some.inj h).symm⟩
  | sub => exact ⟨c, Int64.sub?_eq_some_iff.2 (Option.some.inj h).symm⟩
  | mul => exact ⟨c, Int64.mul?_eq_some_iff.2 (Option.some.inj h).symm⟩
  | div =>
    rw [eval?, Option.ite_none_left_eq_some, Option.some.injEq] at h
    refine ⟨a.floorDiv b, if_pos (hdivide h.1 ?_)⟩
    rintro ⟨rfl, rfl⟩
    have hquotient : Int64.minValue.toInt.fdiv (-1 : Int64).toInt = 2 ^ 63 := by decide
    omega
  | ceilDiv =>
    rw [eval?, Option.ite_none_left_eq_some, Option.some.injEq] at h
    refine ⟨a.ceilDiv b, if_pos (hdivide h.1 ?_)⟩
    rintro ⟨rfl, rfl⟩
    have hquotient : -((-Int64.minValue.toInt).fdiv (-1 : Int64).toInt) = 2 ^ 63 := by decide
    omega
  | mod =>
    rw [eval?, Option.ite_none_left_eq_some] at h
    exact ⟨a.floorMod b, if_pos (hdivide h.1 fun hmin => hmod ⟨rfl, hmin⟩)⟩

theorem BinOp.nonneg_of_eval? {op : BinOp} {m n v : Int} (hop : op ≠ .sub) (hm : 0 ≤ m)
    (hn : 0 ≤ n) (h : op.eval? m n = some v) : 0 ≤ v := by
  cases op with
  | add =>
    cases h
    omega
  | sub => exact absurd rfl hop
  | mul =>
    cases h
    exact Int.mul_nonneg hm hn
  | div =>
    rw [eval?, Option.ite_none_left_eq_some, Option.some.injEq] at h
    rw [← h.2]
    exact Int.fdiv_nonneg hm hn
  | ceilDiv =>
    rw [eval?, Option.ite_none_left_eq_some, Option.some.injEq] at h
    have hpos : 0 < n := by omega
    have hquotient : -m / n ≤ 0 / n := Int.ediv_le_ediv hpos (by omega)
    rw [Int.zero_ediv] at hquotient
    rw [Int.fdiv_eq_ediv_of_nonneg _ hn] at h
    omega
  | mod =>
    rw [eval?, Option.ite_none_left_eq_some, Option.some.injEq] at h
    rw [← h.2]
    exact Int.fmod_nonneg hm hn

namespace SymExpr

def SymbolFree : SymExpr → Prop
  | .lit _ => True
  | .sym _ => False
  | .neg e => e.SymbolFree
  | .bin _ l r => l.SymbolFree ∧ r.SymbolFree

/-- No part is a remainder of the least literal by minus one: it fits, but it is not taken. -/
def TakesRemainders (σ : Assignment) : SymExpr → Prop
  | .lit _ => True
  | .sym _ => True
  | .neg e => e.TakesRemainders σ
  | .bin op l r => l.TakesRemainders σ ∧ r.TakesRemainders σ ∧
      ¬ (op = .mod ∧ l.eval? σ = some Int64.minValue.toInt ∧ r.eval? σ = some (-1))

section Rewriting

variable {a b : SymExpr}

theorem symbolFree_iff_operands (op : BinOp) {e : SymExpr} :
    e.SymbolFree ↔ ∀ a ∈ e.operands op, a.SymbolFree := by
  induction e with
  | bin op' l r ihl ihr =>
    unfold operands
    split
    · simp [SymbolFree, ihl, ihr, or_imp, forall_and]
    · simp
  | _ => simp [operands]

theorem Law.symbolFree (h : Law a b) (ha : a.SymbolFree) : b.SymbolFree := by
  cases h with
  | @regroup op _ _ _ hperm =>
    rw [symbolFree_iff_operands op] at ha ⊢
    intro x hx
    apply ha
    rwa [hperm.mem_iff]
  | _ => simp_all [SymbolFree]

theorem Rewrites.symbolFree (h : Rewrites a b) (ha : a.SymbolFree) : b.SymbolFree := by
  induction h with
  | refl e => exact ha
  | law h => exact h.symbolFree ha
  | neg _ ih => exact ih ha
  | bin op _ _ ihl ihr => exact ⟨ihl ha.1, ihr ha.2⟩
  | trans _ _ ih ih' => exact ih' (ih ha)

end Rewriting

section Folding

variable {σ : Assignment} {e : SymExpr}

theorem exists_foldBin_lits {op : BinOp} {a b c : Int64} (h : op.fold? a b = some c) :
    ∃ d, foldBin op (lit a) (lit b) = lit d := by
  have hlits : foldLits op (lit a) (lit b) = some (lit c) := by
    rw [foldLits, h]
    rfl
  cases op with
  | add => exact ⟨c, fold_add_lits h⟩
  | sub =>
    rw [foldBin, foldSub, hlits]
    split
    · exact ⟨a, rfl⟩
    · exact ⟨c, rfl⟩
  | mul =>
    have hproduct : a.mul? b = some c := h
    refine ⟨c, ?_⟩
    rw [foldBin, foldMul_lits, hproduct]
    rfl
  | div => exact exists_foldQuotient_lits rfl (Option.ite_none_right_eq_some.1 h).1
  | ceilDiv => exact exists_foldQuotient_lits rfl (Option.ite_none_right_eq_some.1 h).1
  | mod =>
    rw [foldBin, foldMod, hlits]
    split
    · exact ⟨0, rfl⟩
    · exact ⟨c, rfl⟩

theorem toInt_eq_of_fold {a : Int64} {v : Int} (ha : e.fold = lit a) (hv : e.eval? σ = some v) :
    a.toInt = v := by
  have hfold := (rewrites_fold e).eval?_eq_some hv
  rw [ha] at hfold
  exact Option.some.inj hfold

theorem exists_fold_bin {op : BinOp} {l r : SymExpr} {a b : Int64} (ha : l.fold = lit a)
    (hb : r.fold = lit b) (hrange : (bin op l r).InRange σ)
    (hmod : ¬ (op = .mod ∧ l.eval? σ = some Int64.minValue.toInt ∧ r.eval? σ = some (-1))) :
    ∃ c, (bin op l r).fold = lit c := by
  obtain ⟨c, hc⟩ := hrange
  obtain ⟨x, y, hx, hy, hxy⟩ := eval?_bin_eq_some_iff.1 hc
  rw [← toInt_eq_of_fold ha hx, ← toInt_eq_of_fold hb hy] at hxy
  have hmod' : ¬ (op = .mod ∧ a = Int64.minValue ∧ b = -1) := by
    rintro ⟨hop, rfl, rfl⟩
    refine hmod ⟨hop, ?_, ?_⟩
    · rw [hx, toInt_eq_of_fold ha hx]
    · rw [hy, ← toInt_eq_of_fold hb hy]
      rfl
  obtain ⟨d, hd⟩ := BinOp.exists_fold?_eq_some hxy hmod'
  rw [fold, ha, hb]
  exact exists_foldBin_lits hd

theorem exists_fold_eq_lit (hfree : e.SymbolFree) (hfit : e.FitsAt σ)
    (hmod : e.TakesRemainders σ) : ∃ a, e.fold = lit a := by
  induction e with
  | lit a => exact ⟨a, rfl⟩
  | sym s => exact hfree.elim
  | neg e ih =>
    obtain ⟨a, ha⟩ := ih hfree hfit.1 hmod
    obtain ⟨b, hb⟩ := hfit.2
    obtain ⟨v, hv, hneg⟩ := eval?_neg_eq_some_iff.1 hb
    have hfits : a.neg? = some b := by
      rw [Int64.neg?_eq_some_iff, toInt_eq_of_fold ha hv, hneg]
    refine ⟨b, ?_⟩
    rw [fold, ha, foldNeg, hfits]
  | bin op l r ihl ihr =>
    obtain ⟨a, ha⟩ := ihl hfree.1 hfit.1 hmod.1
    obtain ⟨b, hb⟩ := ihr hfree.2 hfit.2.1 hmod.2.1
    exact exists_fold_bin ha hb hfit.2.2 hmod.2.2

end Folding

section Unsigned

variable {σ : Assignment} {e a b : SymExpr} {es : List SymExpr} {vs : List Int} {v m : Int}

/-- An expression of literals that are not negative, without negations and differences. -/
def Unsigned : SymExpr → Prop
  | .lit a => 0 ≤ a.toInt
  | .sym _ => False
  | .neg _ => False
  | .bin op l r => op ≠ .sub ∧ l.Unsigned ∧ r.Unsigned

theorem Unsigned.nonneg (h : e.Unsigned) (hv : e.eval? σ = some v) : 0 ≤ v := by
  induction e generalizing v with
  | lit a =>
    cases hv
    exact h
  | sym s => exact h.elim
  | neg e => exact h.elim
  | bin op l r ihl ihr =>
    obtain ⟨x, y, hx, hy, hxy⟩ := eval?_bin_eq_some_iff.1 hv
    exact BinOp.nonneg_of_eval? h.1 (ihl h.2.1 hx) (ihr h.2.2 hy) hxy

theorem unsigned_iff_operands {op : BinOp} (hop : op ≠ .sub) :
    e.Unsigned ↔ ∀ a ∈ e.operands op, a.Unsigned := by
  induction e with
  | bin op' l r ihl ihr =>
    unfold operands
    split
    case isTrue h =>
      subst h
      simp [Unsigned, ihl, ihr, hop, or_imp, forall_and]
    case isFalse => simp
  | _ => simp [operands]

theorem Law.unsigned (h : Law a b) (ha : a.Unsigned) : b.Unsigned := by
  have hzero : (0 : Int64).toInt = 0 := Int64.toInt_zero
  have hone : (1 : Int64).toInt = 1 := Int64.toInt_one
  cases h with
  | @regroup op _ _ hop hperm =>
    have hsub : op ≠ .sub := by
      rintro rfl
      cases hop
    rw [unsigned_iff_operands hsub] at ha ⊢
    intro x hx
    apply ha
    rwa [hperm.mem_iff]
  | fold h => exact BinOp.nonneg_of_eval? ha.1 ha.2.1 ha.2.2 h
  | @putNeutral op u hneutral =>
    cases op with
    | add =>
      cases hneutral
      exact ⟨by decide, ha, Int.le_of_eq hzero.symm⟩
    | mul =>
      cases hneutral
      exact ⟨by decide, ha, by rw [Unsigned, hone]; decide⟩
    | _ => cases hneutral
  | mergeQuotients _ _ hb hc hd =>
    refine ⟨ha.1, ha.2.1.2.1, ?_⟩
    rw [Unsigned, hd]
    exact Int.mul_nonneg ha.2.1.2.2 ha.2.2
  | _ => simp_all [Unsigned]

theorem Rewrites.unsigned (h : Rewrites a b) (ha : a.Unsigned) : b.Unsigned := by
  induction h with
  | refl e => exact ha
  | law h => exact h.unsigned ha
  | neg _ ih => exact ha.elim
  | bin op _ _ ihl ihr => exact ⟨ha.1, ihl ha.2.1, ihr ha.2.2⟩
  | trans _ _ ih ih' => exact ih' (ih ha)

theorem FitsAt.of_mem_operands {op : BinOp} (h : e.FitsAt σ) (ha : a ∈ e.operands op) :
    a.FitsAt σ := by
  induction e with
  | bin op' l r ihl ihr =>
    unfold operands at ha
    split at ha
    · rcases List.mem_append.1 ha with ha | ha
      · exact ihl h.1 ha
      · exact ihr h.2.1 ha
    · rwa [List.mem_singleton.1 ha]
  | _ => rwa [List.mem_singleton.1 ha]

theorem cancelOpposites_unsigned (h : ∀ e ∈ es, e.Unsigned) : cancelOpposites es = es := by
  have hnegates {a b : SymExpr} (ha : a.Unsigned) : isOpposite.negates a b = false := by
    cases a with
    | neg a => exact ha.elim
    | _ => rfl
  fun_induction cancelOpposites es with
  | case1 a b es hopposite ih =>
    rw [isOpposite, hnegates (h b (by simp)), hnegates (h a (by simp))] at hopposite
    cases hopposite
  | case2 a b es _ ih => rw [ih fun e he => h e (List.mem_cons_of_mem a he)]
  | case3 => rfl

/-- The values that the expressions are folded to, none of them negative. -/
def FoldTo (es : List SymExpr) (vs : List Int) : Prop :=
  List.Forall₂ (fun e v => e.fold.IsLitOf v ∧ 0 ≤ v) es vs

theorem FoldTo.nonneg (h : FoldTo es vs) : ∀ v ∈ vs, 0 ≤ v := by
  induction h with
  | nil => simp
  | cons hv _ ih => exact List.forall_mem_cons.2 ⟨hv.2, ih⟩

/-- Partial sums do not exceed the sum. -/
theorem FoldTo.isLitOf_foldl_add (h : FoldTo es vs) (he : e.fold.IsLitOf m) (hm : 0 ≤ m)
    (hsum : m + vs.sum < 2 ^ 63) : (es.foldl add e).fold.IsLitOf (m + vs.sum) := by
  induction h generalizing e m with
  | nil => simpa using he
  | @cons d v es vs hd hes ih =>
    have hrest := List.sum_nonneg (FoldTo.nonneg hes)
    rw [List.sum_cons, ← Int.add_assoc] at hsum ⊢
    have hv := hd.2
    exact ih (he.foldAdd hd.1 (by omega) (by omega)) (by omega) hsum

/-- Partial products do not exceed the product, unless a factor is zero. -/
theorem FoldTo.isLitOf_foldl_mul (h : FoldTo es vs) (he : e.fold.IsLitOf m ∨ 0 ∈ vs) (hm : 0 ≤ m)
    (hprod : m * vs.prod < 2 ^ 63) : (es.foldl mul e).fold.IsLitOf (m * vs.prod) := by
  induction h generalizing e m with
  | nil => simpa using he
  | @cons d v es vs hd hes ih =>
    rw [List.prod_cons, ← Int.mul_assoc] at hprod ⊢
    have hmv := Int.mul_nonneg hm hd.2
    refine ih ?_ hmv hprod
    by_cases hzero : v = 0
    · left
      obtain ⟨a, ha, hav⟩ := hd.1
      rw [hzero, ← Int64.toInt_zero, Int64.toInt_inj] at hav
      have hmul : (mul e d).fold = lit 0 := by simp [fold, foldBin, foldMul, ha, hav, isLit]
      rw [hmul, hzero, Int.mul_zero]
      exact isLitOf_lit 0
    · by_cases hrest : 0 ∈ vs
      · exact .inr hrest
      · left
        have hpos : ∀ w ∈ vs, 0 < w := by
          intro w hw
          have hne : w ≠ 0 := by
            rintro rfl
            exact hrest hw
          have hw := FoldTo.nonneg hes w hw
          omega
        have hle := Int.mul_le_mul_of_nonneg_left (Int.add_one_le_of_lt (List.prod_pos hpos)) hmv
        have he := he.resolve_right (by simp [Ne.symm hzero, hrest])
        exact he.foldMul hd.1 (by omega) (by omega)

theorem ValuesAt.foldTo (h : ValuesAt σ es vs)
    (hes : ∀ e ∈ es, e.Unsigned ∧ ∃ a, e.fold = lit a) : FoldTo es vs := by
  induction h with
  | nil => exact .nil
  | cons hv _ ih =>
    rw [List.forall_mem_cons] at hes
    obtain ⟨⟨hunsigned, a, ha⟩, hes⟩ := hes
    exact .cons ⟨⟨a, ha, toInt_eq_of_fold ha hv⟩, hunsigned.nonneg hv⟩ (ih hes)

theorem unsigned_sortTerms {op : BinOp} (hop : op.isAssocComm = true) (h : e.Unsigned) :
    ∀ t ∈ sortTerms ((e.operands op).map canonicalize), t.Unsigned := by
  have hsub : op ≠ .sub := by
    rintro rfl
    cases hop
  intro t ht
  rw [(sortTerms_perm _).mem_iff, List.mem_map] at ht
  obtain ⟨t, ht, rfl⟩ := ht
  exact (rewrites_canonicalize t).unsigned ((unsigned_iff_operands hsub).1 h t ht)

theorem exists_foldTo_sortTerms {op : BinOp} (hop : op.isAssocComm = true) (h : e.Unsigned)
    (hv : e.eval? σ = some v) (hterms : ∀ t ∈ e.operands op, ∃ a, t.canonicalize.fold = lit a) :
    ∃ vs, FoldTo (sortTerms ((e.operands op).map canonicalize)) vs ∧ op.collect vs = v := by
  obtain ⟨vs, hvs, rfl⟩ := (eval?_eq_some_iff_operands hop).1 hv
  have hcanonical : ValuesAt σ ((e.operands op).map canonicalize) vs :=
    List.forall₂_map_left_iff.2
      (hvs.imp fun t _ ht => (rewrites_canonicalize t).eval?_eq_some ht)
  obtain ⟨ws, hws, hperm⟩ := hcanonical.exists_of_perm (sortTerms_perm _).symm
  refine ⟨ws, hws.foldTo ?_, BinOp.collect_perm hperm⟩
  intro t ht
  refine ⟨unsigned_sortTerms hop h t ht, ?_⟩
  rw [(sortTerms_perm _).mem_iff, List.mem_map] at ht
  obtain ⟨t, ht, rfl⟩ := ht
  exact hterms t ht

theorem FoldTo.exists_fold_sum (h : FoldTo es vs) (hsum : vs.sum < 2 ^ 63) :
    ∃ a, (ofOperands .add (lit 0) es).fold = lit a := by
  cases h with
  | nil => exact ⟨0, rfl⟩
  | cons ht hts =>
    rw [List.sum_cons] at hsum
    obtain ⟨a, ha, _⟩ := FoldTo.isLitOf_foldl_add hts ht.1 ht.2 hsum
    exact ⟨a, ha⟩

theorem FoldTo.exists_fold_product (h : FoldTo es vs) (hprod : vs.prod < 2 ^ 63) :
    ∃ a, (ofOperands .mul (lit 1) es).fold = lit a := by
  cases h with
  | nil => exact ⟨1, rfl⟩
  | cons ht hts =>
    rw [List.prod_cons] at hprod
    obtain ⟨a, ha, _⟩ := FoldTo.isLitOf_foldl_mul hts (.inl ht.1) ht.2 hprod
    exact ⟨a, ha⟩

theorem exists_fold_canonicalize_quotient {op : BinOp} {l r : SymExpr}
    (hcanonical : (bin op l r).canonicalize = bin op l.canonicalize r.canonicalize)
    (h : (bin op l r).Unsigned) (hfit : (bin op l r).FitsAt σ)
    (hl : ∃ a, l.canonicalize.fold = lit a) (hr : ∃ b, r.canonicalize.fold = lit b) :
    ∃ c, (bin op l r).canonicalize.fold = lit c := by
  obtain ⟨a, ha⟩ := hl
  obtain ⟨b, hb⟩ := hr
  obtain ⟨c, hc⟩ := hfit.inRange
  have hvalue := (rewrites_canonicalize (bin op l r)).eval?_eq_some hc
  rw [hcanonical] at hvalue ⊢
  refine exists_fold_bin ha hb ⟨c, hvalue⟩ ?_
  rintro ⟨_, _, hminus⟩
  have hnonneg := ((rewrites_canonicalize r).unsigned h.2.2).nonneg hminus
  omega

/-- The canonical form of an expression without signs is folded, in whatever order its terms are. -/
theorem exists_fold_canonicalize {e : SymExpr} (h : e.Unsigned) (hfit : e.FitsAt σ) :
    ∃ a, e.canonicalize.fold = lit a := by
  match e with
  | lit a => exact ⟨a, congrArg fold (canonicalize_lit a)⟩
  | sym s => exact h.elim
  | neg e => exact h.elim
  | add l r =>
    have hterms : ∀ t ∈ operands .add (add l r), ∃ a, t.canonicalize.fold = lit a := by
      intro t ht
      have hweight := weight_lt_of_mem_operands ht
      exact exists_fold_canonicalize ((unsigned_iff_operands (by decide)).1 h t ht)
        (hfit.of_mem_operands ht)
    obtain ⟨c, hc⟩ := hfit.inRange
    obtain ⟨vs, hfold, hsum⟩ := exists_foldTo_sortTerms rfl h hc hterms
    rw [canonicalize_add, sumOf, cancelOpposites_unsigned (unsigned_sortTerms rfl h)]
    exact hfold.exists_fold_sum (lt_of_eq_of_lt hsum c.toInt_lt)
  | mul l r =>
    have hterms : ∀ t ∈ operands .mul (mul l r), ∃ a, t.canonicalize.fold = lit a := by
      intro t ht
      have hweight := weight_lt_of_mem_operands ht
      exact exists_fold_canonicalize ((unsigned_iff_operands (by decide)).1 h t ht)
        (hfit.of_mem_operands ht)
    obtain ⟨c, hc⟩ := hfit.inRange
    obtain ⟨vs, hfold, hprod⟩ := exists_foldTo_sortTerms rfl h hc hterms
    rw [canonicalize_mul, productOf]
    exact hfold.exists_fold_product (lt_of_eq_of_lt hprod c.toInt_lt)
  | sub l r => exact absurd rfl h.1
  | div l r =>
    exact exists_fold_canonicalize_quotient (canonicalize_div l r) h hfit
      (exists_fold_canonicalize h.2.1 hfit.1) (exists_fold_canonicalize h.2.2 hfit.2.1)
  | ceilDiv l r =>
    exact exists_fold_canonicalize_quotient (canonicalize_ceilDiv l r) h hfit
      (exists_fold_canonicalize h.2.1 hfit.1) (exists_fold_canonicalize h.2.2 hfit.2.1)
  | mod l r =>
    exact exists_fold_canonicalize_quotient (canonicalize_mod l r) h hfit
      (exists_fold_canonicalize h.2.1 hfit.1) (exists_fold_canonicalize h.2.2 hfit.2.1)
termination_by e.weight
decreasing_by
  all_goals first
    | exact hweight
    | (simp only [weight]; omega)

end Unsigned

section Checked

variable {σ : Assignment} {e : SymExpr}

/--
No literal but the exact value is ever returned. It is returned where all parts of the expression
fit and it has no signs, or all parts of its canonical form fit as well.
-/
theorem checkedSimplify?_exact (hfree : e.SymbolFree) (hfit : e.FitsAt σ) :
    ∃ v : Int64, e.eval? σ = some v.toInt ∧
      (∀ a, e.checkedSimplify? = some (lit a) → a = v) ∧
      (e.Unsigned ∨ e.canonicalize.FitsAt σ ∧ e.canonicalize.TakesRemainders σ →
        e.checkedSimplify? = some (lit v)) := by
  obtain ⟨v, hv⟩ := hfit.inRange
  have hexact : ∀ a, e.checkedSimplify? = some (lit a) → a = v := by
    intro a ha
    have hsimplify := eval?_simplify hv
    rw [(checkedSimplify?_eq_some_iff.1 ha).2] at hsimplify
    exact Int64.toInt_inj.1 (Option.some.inj hsimplify)
  refine ⟨v, hv, hexact, fun h => ?_⟩
  have hround : ∃ a, e.simplifyRound = lit a := by
    rcases h with hunsigned | ⟨hcanonical, hmod⟩
    · exact exists_fold_canonicalize hunsigned hfit
    · exact exists_fold_eq_lit ((rewrites_canonicalize e).symbolFree hfree) hcanonical hmod
  obtain ⟨a, ha⟩ := hround
  have hchecked := checkedSimplify?_of_simplify_lit (simplify_of_simplifyRound_lit ha)
  rwa [hexact a hchecked] at hchecked

/--
The factors of this product are grouped anew, and the terms of this sum fit also in the order that
canonicalization gives them.
-/
theorem checkedSimplify?_exact_regrouped :
    let product := mul (lit 4) (mul (lit 0) (mul (lit Int64.maxValue) (lit 1)))
    let sum := sub (add (lit 7) (div (lit (-9)) (lit 2))) (lit Int64.maxValue)
    product.checkedSimplify? = some (lit 0) ∧
      sum.checkedSimplify? = some (lit (2 - Int64.maxValue)) := by
  intro product sum
  constructor
  · have hfit : product.FitsAt fun _ => 0 :=
      ⟨⟨_, rfl⟩, ⟨⟨_, rfl⟩, ⟨⟨_, rfl⟩, ⟨_, rfl⟩, ⟨Int64.maxValue, rfl⟩⟩, ⟨0, rfl⟩⟩, ⟨0, rfl⟩⟩
    have hmax : 0 ≤ Int64.maxValue.toInt := by decide
    have hunsigned : product.Unsigned := by simp [product, Unsigned, hmax]
    obtain ⟨v, hv, _, hchecked⟩ := checkedSimplify?_exact (by simp [product, SymbolFree]) hfit
    have hzero : v.toInt = (0 : Int64).toInt := (Option.some.inj hv).symm
    rw [hchecked (.inl hunsigned), Int64.toInt_inj.1 hzero]
  · have hfit : sum.FitsAt fun _ => 0 :=
      ⟨⟨⟨_, rfl⟩, ⟨⟨_, rfl⟩, ⟨_, rfl⟩, ⟨-5, rfl⟩⟩, ⟨2, rfl⟩⟩, ⟨_, rfl⟩, ⟨2 - Int64.maxValue, rfl⟩⟩
    have hcanonical : sum.canonicalize =
        add (add (lit 7) (lit (-Int64.maxValue))) (div (lit (-9)) (lit 2)) := by
      decide +kernel
    have hcanonicalFit : sum.canonicalize.FitsAt fun _ => 0 := by
      rw [hcanonical]
      exact ⟨⟨⟨_, rfl⟩, ⟨_, rfl⟩, ⟨7 - Int64.maxValue, rfl⟩⟩, ⟨⟨_, rfl⟩, ⟨_, rfl⟩, ⟨-5, rfl⟩⟩,
        ⟨2 - Int64.maxValue, rfl⟩⟩
    have hmod : sum.canonicalize.TakesRemainders fun _ => 0 := by
      simp [hcanonical, TakesRemainders]
    obtain ⟨v, hv, _, hchecked⟩ := checkedSimplify?_exact (by simp [sum, SymbolFree]) hfit
    have hvalue : v.toInt = (2 - Int64.maxValue).toInt := (Option.some.inj hv).symm
    rw [hchecked (.inr ⟨hcanonicalFit, hmod⟩), Int64.toInt_inj.1 hvalue]

/-- All parts of the expression fit, but simplification leaves an overflow. -/
def LosesValue (e : SymExpr) : Prop :=
  e.SymbolFree ∧ (∀ σ, e.FitsAt σ) ∧ e.checkedSimplify? = none

/--
It is not enough that all parts of the expression fit: the remainder of the least literal by minus
one is not taken, a sum may leave the range where its terms are added in another order, and so may
a negated term.
-/
theorem losesValue_of_order :
    (mod (lit Int64.minValue) (lit (-1))).LosesValue ∧
      (add (lit Int64.maxValue) (add (lit 1) (lit (-1)))).LosesValue ∧
      (sub (lit (-1)) (lit Int64.minValue)).LosesValue := by
  refine ⟨⟨by simp [SymbolFree], fun σ => ?_, by decide +kernel⟩,
    ⟨by simp [SymbolFree], fun σ => ?_, by decide +kernel⟩,
    ⟨by simp [SymbolFree], fun σ => ?_, by decide +kernel⟩⟩
  · exact ⟨⟨_, rfl⟩, ⟨_, rfl⟩, ⟨0, rfl⟩⟩
  · exact ⟨⟨_, rfl⟩, ⟨⟨_, rfl⟩, ⟨_, rfl⟩, ⟨0, rfl⟩⟩, ⟨Int64.maxValue, rfl⟩⟩
  · exact ⟨⟨_, rfl⟩, ⟨_, rfl⟩, ⟨Int64.maxValue, rfl⟩⟩

end Checked

end SymExpr

end TensorIR
