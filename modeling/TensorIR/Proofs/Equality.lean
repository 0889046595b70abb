import TensorIR.Proofs.Predicate
import TensorIR.Proofs.SymExpr.LinearBounds

/-!
What the proof oracle makes of equality. An expression whose canonical form is no sum is provably
equal to itself, and expressions that values tell apart are not provably equal. Of linear
expressions, where the rounds of simplification suffice to cancel their terms, exactly those are
provably equal that mirror each other: they have the same coefficients, and the composites of one
are those of the other in reverse order. Only then do a composite and its negation come to stand
side by side, since sorting does not tell composites apart.
-/

namespace TensorIR.SymExpr

variable {t a b c e u : SymExpr}

theorem provablyEqual_iff_differenceBounds :
    a.provablyEqual b = true ↔ Predicate.differenceBounds a b = .exactly 0 := by
  rw [provablyEqual, Predicate.provable, Predicate.prove, Predicate.proveCompare, Predicate.proveEq,
    Interval.eq_exactly_zero_iff, ← Int64.toInt_zero, Int64.toInt_inj, Int64.toInt_inj]
  split
  case isTrue h => exact iff_of_true rfl h
  case isFalse h =>
    refine iff_of_false ?_ h
    split <;> decide

section Terms

theorem sum?_foldNeg (e : SymExpr) : (foldNeg e).sum? = none := by
  rcases foldNeg_eq e with h | ⟨a, h⟩
  · rw [h]
    rfl
  · rw [h]
    rfl

theorem sum?_canonicalize_of_ne_neg (hfree : e.DifferenceFree) (hsum : e.sum? = none)
    (hneg : ∀ u, e ≠ neg u) : e.canonicalize.sum? = none := by
  cases e with
  | lit a => rw [canonicalize_lit, hsum]
  | sym s => rw [canonicalize_sym, hsum]
  | neg u => exact absurd rfl (hneg u)
  | bin op l r =>
    have hadd : op ≠ .add := by
      rintro rfl
      cases hsum
    obtain ⟨l', r', h⟩ := exists_canonicalize_bin hadd hfree.1 l r
    rw [h]
    cases op with
    | add => exact absurd rfl hadd
    | _ => rfl

/-- What a canonical form negates is itself such a form, and neither a sum nor a negation. -/
structure Negatable (u : SymExpr) : Prop where
  sum?_eq : u.sum? = none
  ne_neg (x : SymExpr) : u ≠ neg x
  sum?_canonicalize_eq : u.canonicalize.sum? = none

theorem mem_of_sumOf_eq_neg {es : List SymExpr} (h : sumOf es = neg u) : neg u ∈ es := by
  apply mem_of_mem_cancelOpposites
  rw [sumOf] at h
  cases hes : cancelOpposites (sortTerms es) with
  | nil =>
    rw [hes] at h
    cases h
  | cons d ds =>
    cases ds with
    | nil =>
      rw [hes] at h
      rw [← show d = neg u from h]
      apply List.mem_singleton_self
    | cons d' ds =>
      have hlength : 2 ≤ (cancelOpposites (sortTerms es)).length := by simp [hes]
      obtain ⟨l, r, hbin⟩ :
          ∃ l r, ofOperands .add (lit 0) (cancelOpposites (sortTerms es)) = add l r :=
        exists_ofOperands_eq_bin hlength
      rw [hbin] at h
      cases h

theorem canonicalize_bin_ne_neg {op : BinOp} (hadd : op ≠ .add) (hsub : op ≠ .sub)
    (l r u : SymExpr) : (bin op l r).canonicalize ≠ neg u := by
  obtain ⟨l', r', h⟩ := exists_canonicalize_bin hadd hsub l r
  rw [h]
  exact SymExpr.noConfusion

theorem negatable_of_canonicalize {e u : SymExpr} (h : e.canonicalize = neg u) : Negatable u := by
  match e with
  | lit a =>
    rw [canonicalize_lit] at h
    cases h
  | sym s =>
    rw [canonicalize_sym] at h
    cases h
  | neg x =>
    rw [canonicalize_neg] at h
    split at h
    case h_1 hsum =>
      by_cases hneg : ∃ y, x.canonicalize = neg y
      · obtain ⟨y, hy⟩ := hneg
        rw [hy] at h
        have hnegatable := negatable_of_canonicalize hy
        exact absurd h (hnegatable.ne_neg u)
      · rw [not_exists] at hneg
        rw [negateTerm_eq hneg] at h
        rcases foldNeg_eq x.canonicalize with hfold | ⟨a, hfold⟩
        · rw [hfold] at h
          cases h
          exact ⟨hsum, hneg,
            sum?_canonicalize_of_ne_neg (differenceFree_canonicalize x) hsum hneg⟩
        · rw [hfold] at h
          cases h
    case h_2 l r hsum =>
      have hweight := weight_canonicalize_le x
      rw [eq_add_of_sum? hsum] at hweight
      have hlt : (add (neg l) (neg r)).weight < (neg x).weight := by
        simp only [weight] at hweight ⊢
        omega
      exact negatable_of_canonicalize h
  | add l r =>
    rw [canonicalize_add] at h
    obtain ⟨d, hd, hneg⟩ := List.mem_map.1 (mem_of_sumOf_eq_neg h)
    have := weight_lt_of_mem_operands hd
    exact negatable_of_canonicalize hneg
  | sub l r =>
    have hl := weight_canonicalize_le l
    have hr := weight_canonicalize_le r
    have hlt : (add l.canonicalize (neg r.canonicalize)).weight < (sub l r).weight := by
      simp only [weight]
      omega
    rw [canonicalize_sub] at h
    exact negatable_of_canonicalize h
  | mul l r => exact absurd h (canonicalize_bin_ne_neg (by decide) (by decide) l r u)
  | div l r => exact absurd h (canonicalize_bin_ne_neg (by decide) (by decide) l r u)
  | ceilDiv l r => exact absurd h (canonicalize_bin_ne_neg (by decide) (by decide) l r u)
  | mod l r => exact absurd h (canonicalize_bin_ne_neg (by decide) (by decide) l r u)
termination_by e.weight
decreasing_by
  all_goals first
    | assumption
    | (simp only [weight]; omega)

theorem sum?_negateTerm {e : SymExpr} (h : ∀ u, e.canonicalize = neg u → u.sum? = none) :
    (negateTerm e.canonicalize).sum? = none := by
  by_cases hneg : ∃ u, e.canonicalize = neg u
  · obtain ⟨u, hu⟩ := hneg
    rw [hu]
    exact h u hu
  · rw [not_exists] at hneg
    rw [negateTerm_eq hneg]
    apply sum?_foldNeg

/-- The canonical form of a canonical form that is no sum is none either. -/
theorem sum?_canonicalize_canonicalize (h : e.canonicalize.sum? = none) :
    e.canonicalize.canonicalize.sum? = none := by
  by_cases hneg : ∃ u, e.canonicalize = neg u
  · obtain ⟨u, hu⟩ := hneg
    have hnegatable := negatable_of_canonicalize hu
    rw [hu, canonicalize_neg, hnegatable.sum?_canonicalize_eq]
    exact sum?_negateTerm fun _ hv => (negatable_of_canonicalize hv).sum?_eq
  · exact sum?_canonicalize_of_ne_neg (differenceFree_canonicalize e) h (not_exists.1 hneg)

/-- A term and its negation come to zero, whether the negation is one or a literal. -/
theorem fold_sumOf_negateTerm (c : SymExpr) : (sumOf [c, negateTerm c]).fold = lit 0 := by
  rw [fold_sumOf_pair]
  by_cases hopposite : c.isOpposite (negateTerm c) = true
  · rw [if_pos hopposite]
  · rw [if_neg hopposite]
    cases c with
    | lit a =>
      cases hneg : a.neg? with
      | none =>
        have hnegate : negateTerm (lit a) = neg (lit a) := by
          rw [negateTerm_eq (by simp), foldNeg, hneg]
        rw [hnegate] at hopposite
        simp [isOpposite, isOpposite.negates, same] at hopposite
      | some b =>
        have hnegate : negateTerm (lit a) = lit b := by
          rw [negateTerm_eq (by simp), foldNeg, hneg]
        have hb := Int64.neg?_eq_some_iff.1 hneg
        obtain ⟨z, hz, hzero⟩ := (isLitOf_lit a).foldAdd (isLitOf_lit b) (by omega) (by omega)
        rw [hnegate]
        change foldAdd (lit a) (lit b) = lit 0
        rw [hb, Int.add_right_neg, ← Int64.toInt_zero, Int64.toInt_inj] at hzero
        rw [hz, hzero]
    | neg u => simp [negateTerm, isOpposite, isOpposite.negates, same_refl] at hopposite
    | _ => simp [negateTerm, foldNeg, isOpposite, isOpposite.negates, same_refl] at hopposite

theorem provablyEqual_self_of_sum? (h : e.canonicalize.sum? = none) :
    e.provablyEqual e = true := by
  have hterm := operands_eq_of_sum? h
  have hround : (sub e e).simplifyRound = lit 0 := by
    rw [simplifyRound, canonicalize_sub, canonicalize_add_terms hterm rfl, canonicalize_neg,
      sum?_canonicalize_canonicalize h]
    apply fold_sumOf_negateTerm
  have hsimplify : (sub e e).simplify = lit 0 := by
    apply simplify_of_simplifyRound hround
    rw [(isTerm_lit 0).simplifyRound_eq]
    apply same_refl
  rw [provablyEqual_iff_differenceBounds, Predicate.differenceBounds, hsimplify]
  rfl

end Terms

section Values

variable {σ : Assignment}

/--
The expressions have different values under the assignment, which stopping at the ends of the range
does not hide: neither difference changes its sign by it.
-/
structure ToldApart (σ : Assignment) (a b : SymExpr) : Prop where
  respects : a.Respects σ ∧ b.Respects σ
  values : ∃ x y, a.eval? σ = some x ∧ b.eval? σ = some y ∧ x ≠ y
  signs : (Predicate.compare .eq a b).SignsSurvive σ
  signs_swap : (Predicate.compare .eq b a).SignsSurvive σ

theorem ToldApart.symm (h : ToldApart σ a b) : ToldApart σ b a := by
  obtain ⟨x, y, hx, hy, hne⟩ := h.values
  exact ⟨h.respects.symm, ⟨y, x, hy, hx, hne.symm⟩, h.signs_swap, h.signs⟩

theorem ToldApart.not_provablyEqual (h : ToldApart σ a b) : a.provablyEqual b = false := by
  obtain ⟨x, y, hx, hy, hne⟩ := h.values
  rw [Bool.eq_false_iff]
  intro hprovable
  have hholds : (Predicate.compare .eq a b).prove = .holds := eq_of_beq hprovable
  have hrespects : (Predicate.compare .eq a b).Respects σ := h.respects
  have hsaturated := (Predicate.sound_prove_saturated hrespects).1 hholds
  have hdefined : (Predicate.compare .eq a b).Defined σ := by simp [Predicate.Defined, hx, hy]
  rw [Predicate.holdsSaturated_iff_holds_of_defined hdefined h.signs,
    Predicate.holds_compare_iff hx hy] at hsaturated
  exact hne hsaturated

end Values

section Mirrors

/-- The canonical form, with its composites as so many rounds and one more leave them. -/
def reduced (n : Nat) (e : SymExpr) : SymExpr :=
  mapComposites (reduct n) e.canonicalize

/-- A linear expression with literals that do not leave the range, whatever their signs are. -/
structure Settles (R : SymExpr → Prop) (n : Nat) (e : SymExpr) : Prop where
  linear : Linear R e.canonicalize
  literals_le : (e.reduced n).amount .literal ≤ 2 ^ 63 - 1

/-- The rounds that are left when the composites have come to rest cancel all copies. -/
def FewTerms (n : Nat) (e : SymExpr) : Prop :=
  ∀ p ≠ Part.literal, (e.reduced n).amount p + n ≤ 7

/-- The coefficients are the same, and the composites of one are those of the other in reverse. -/
structure Mirrors (n : Nat) (a b : SymExpr) : Prop where
  coefficient_eq (p : Part) : (a.reduced n).coefficient p = (b.reduced n).coefficient p
  composites_eq : (a.reduced n).composites + opposite (b.reduced n).composites = 0

variable {C R : SymExpr → Prop} {n : Nat}

theorem Mirrors.symm (h : Mirrors n a b) : Mirrors n b a := by
  refine ⟨fun p => (h.coefficient_eq p).symm, ?_⟩
  have hopposite := congrArg opposite (eq_neg_of_add_eq_zero_left h.composites_eq)
  rw [map_neg, opposite_opposite] at hopposite
  rw [hopposite, add_neg_cancel]

/-- What all rounds together make of a difference. -/
def settledDifference (a b : SymExpr) : SymExpr :=
  simplifyRound^[8] (add a.canonicalize (neg b.canonicalize))

/-- Simplification stops early where nothing changes but the order of operands. -/
theorem same_settledDifference (a b : SymExpr) :
    Same (sub a b).simplify (settledDifference a b) := by
  have hround : (sub a b).simplifyRound =
      (add a.canonicalize (neg b.canonicalize)).simplifyRound := by
    rw [simplifyRound, simplifyRound, canonicalize_sub]
  rw [simplify, hround]
  exact same_iff_relation.1 (same_simplifyRounds_iterate 7 _)

theorem Settles.linearSum (ha : Settles R n a) (hb : Settles R n b) :
    LinearSum R (add a.canonicalize (neg b.canonicalize)) := by
  have hlinear : Linear R (add a.canonicalize (neg b.canonicalize)) := ⟨ha.linear, hb.linear⟩
  exact fun u hu => .inr (linear_of_mem_operands hlinear hu)

/-- The difference when the composites have come to rest, with the rounds that are left. -/
theorem exists_flat_difference (hR : ComesToRest C n R) (ha : Settles R n a) (hb : Settles R n b)
    (hn : n ≤ 7) :
    ∃ e, Flat (Rested C) e ∧ Shrinks (add (a.reduced n) (neg (b.reduced n))) e ∧
      settledDifference a b = simplifyRound^[7 - n] e := by
  obtain ⟨hflat, hshrinks⟩ := hR.iterate (ha.linearSum hb)
  refine ⟨_, hflat, hshrinks, ?_⟩
  have hrounds : 8 = 7 - n + (n + 1) := by omega
  rw [← Function.iterate_add_apply, ← hrounds, settledDifference]

theorem flat_settledDifference (hR : ComesToRest C n R) (ha : Settles R n a) (hb : Settles R n b)
    (hn : n ≤ 7) :
    Flat (Rested C) (settledDifference a b) ∧
      Shrinks (add (a.reduced n) (neg (b.reduced n))) (settledDifference a b) := by
  obtain ⟨e, hflat, hshrinks, heq⟩ := exists_flat_difference hR ha hb hn
  obtain ⟨hflat', hshrinks'⟩ := hflat.iterate (7 - n)
  rw [heq]
  exact ⟨hflat', hshrinks.trans hshrinks'⟩

theorem literals_settledDifference_le (ha : Settles R n a) (hb : Settles R n b)
    (h : Shrinks (add (a.reduced n) (neg (b.reduced n))) e) :
    e.amount .literal ≤ 2 ^ 64 - 2 := by
  have hle := h.amount_le .literal
  have := ha.literals_le
  have := hb.literals_le
  rw [amount, amount] at hle
  omega

theorem FewTerms.amount_le (ha : FewTerms n a) (hb : FewTerms n b)
    (h : Shrinks (add (a.reduced n) (neg (b.reduced n))) e) {p : Part} (hp : p ≠ .literal) :
    e.amount p ≤ 2 * (7 - n) := by
  have hle := h.amount_le p
  have := ha p hp
  have := hb p hp
  rw [amount, amount] at hle
  omega

theorem spread_settledDifference (hR : ComesToRest C n R) (ha : Settles R n a)
    (hb : Settles R n b) (hfewa : FewTerms n a) (hfewb : FewTerms n b) :
    Spread 0 (settledDifference a b) := by
  have hn := hfewa .composite Part.noConfusion
  obtain ⟨e, hflat, hshrinks, heq⟩ := exists_flat_difference hR ha hb (by omega)
  rw [heq]
  refine Spread.iterate ⟨?_, ?_⟩ hflat
  · intro name
    have := hfewa.amount_le hfewb hshrinks (p := .symbol name) Part.noConfusion
    omega
  · exact fun _ => hfewa.amount_le hfewb hshrinks Part.noConfusion

/-- One more round brings the sum in order, unless there is nothing but literals in it. -/
theorem resolved_settledDifference (hR : ComesToRest C n R) (ha : Settles R n a)
    (hb : Settles R n b) (h : n ≤ 6 ∨ FewTerms n a ∧ FewTerms n b) :
    n ≤ 7 ∧ Resolved (settledDifference a b) := by
  by_cases hn : n ≤ 6
  · obtain ⟨e, hflat, _, heq⟩ := exists_flat_difference hR ha hb (by omega)
    have hrounds : 7 - n = 6 - n + 1 := by omega
    rw [heq, hrounds]
    exact ⟨by omega, hflat.resolved_iterate _⟩
  · obtain ⟨hfewa, hfewb⟩ := h.resolve_left hn
    have hle := hfewa .composite Part.noConfusion
    have hseven : n ≤ 7 := by omega
    refine ⟨hseven, .inl ?_⟩
    intro p hp
    have := hfewa.amount_le hfewb (flat_settledDifference hR ha hb hseven).2 hp
    omega

theorem mirrors_iff (h : Shrinks (add (a.reduced n) (neg (b.reduced n))) e) :
    Mirrors n a b ↔ (∀ p, e.coefficient p = 0) ∧ e.composites = 0 := by
  have hcoefficient (p : Part) :
      e.coefficient p = (a.reduced n).coefficient p - (b.reduced n).coefficient p :=
    h.coefficient_eq p
  rw [h.composites_eq]
  constructor
  · rintro ⟨heq, hword⟩
    refine ⟨fun p => ?_, hword⟩
    rw [hcoefficient, heq, Int.sub_self]
  · rintro ⟨hzero, hword⟩
    refine ⟨fun p => ?_, hword⟩
    have := hzero p
    rw [hcoefficient] at this
    omega

/-- Expressions are provably equal only if they mirror each other, however many terms they have. -/
theorem mirrors_of_provablyEqual (hR : ComesToRest C n R) (ha : Settles R n a)
    (hb : Settles R n b) (hC : ∀ t, C t → t.Broad)
    (hn : n ≤ 6 ∨ FewTerms n a ∧ FewTerms n b) (h : a.provablyEqual b = true) :
    Mirrors n a b := by
  obtain ⟨hseven, hresolved⟩ := resolved_settledDifference hR ha hb hn
  obtain ⟨hflat, hshrinks⟩ := flat_settledDifference hR ha hb hseven
  rw [mirrors_iff hshrinks]
  exact hresolved.eq_zero_of_bounds hC hflat (same_settledDifference a b)
    (literals_settledDifference_le ha hb hshrinks) (provablyEqual_iff_differenceBounds.1 h)

/-- Few terms that mirror each other cancel, whatever the intervals of the composites are. -/
theorem provablyEqual_of_mirrors (hR : ComesToRest C n R) (ha : Settles R n a)
    (hb : Settles R n b) (hfewa : FewTerms n a) (hfewb : FewTerms n b) (h : Mirrors n a b) :
    a.provablyEqual b = true := by
  have hn := hfewa .composite Part.noConfusion
  obtain ⟨hflat, hshrinks⟩ := flat_settledDifference hR ha hb (by omega)
  obtain ⟨hcoefficient, hword⟩ := (mirrors_iff hshrinks).1 h
  rw [provablyEqual_iff_differenceBounds]
  exact (spread_settledDifference hR ha hb hfewa hfewb).bounds_eq_zero hflat
    (same_settledDifference a b) (literals_settledDifference_le ha hb hshrinks) hcoefficient hword

/-- Copies of one composite come to their number. -/
theorem Flat.composites_eq_zsmul {e u : SymExpr} (h : Flat (Rested C) e)
    (hC : ∀ t, C t → t.same u = true) :
    e.composites = e.coefficient .composite • FreeAddGroup.of (letter u) := by
  have hbase (v : SymExpr) (hv : Base (Rested C) v) :
      v.composites = v.coefficient .composite • FreeAddGroup.of (letter u) := by
    cases hv with
    | sym s => rfl
    | composite hv =>
      rw [hv.isComposite.composites_eq, hv.isComposite.coefficient_eq, if_pos rfl, one_zsmul,
        letter_eq_iff.2 (hC v hv.rested.kind)]
  induction e with
  | lit a => rfl
  | sym s => rfl
  | neg v =>
    rw [composites, coefficient, hbase v h.base_of_neg, map_zsmul, opposite_of, neg_zsmul,
      zsmul_neg]
  | bin op l r ihl ihr =>
    by_cases hop : op = .add
    · subst hop
      rw [flat_add_iff] at h
      rw [composites, coefficient, ihl h.1, ihr h.2, add_zsmul]
    · cases h.atom_of_operands (operands_bin_ne hop l r) with
      | base h => exact hbase _ h

/-- Of a single composite, only the number counts. -/
theorem mirrors_of_coefficient {u : SymExpr} (hR : ComesToRest C n R) (ha : Settles R n a)
    (hb : Settles R n b) (hn : n ≤ 7) (hC : ∀ t, C t → t.same u = true)
    (h : ∀ p, (a.reduced n).coefficient p = (b.reduced n).coefficient p) : Mirrors n a b := by
  obtain ⟨hflat, hshrinks⟩ := flat_settledDifference hR ha hb hn
  refine ⟨h, ?_⟩
  have hword := hflat.composites_eq_zsmul hC
  rw [hshrinks.composites_eq, hshrinks.coefficient_eq, coefficient, coefficient, h,
    Int.add_right_neg, zero_zsmul] at hword
  exact hword

end Mirrors

section Instances

variable {C : SymExpr → Prop} {v : SymExpr}

/-- Composites at rest need no further round. -/
theorem comesToRest_rested (C : SymExpr → Prop) : ComesToRest C 0 (Rested C) := by
  refine ⟨tame_rested C, ?_⟩
  intro t ht hcomposite
  rw [simplifyRound, ht.canonicalize_eq, ht.fold_eq]
  exact .inr (.composite ht.formOf)

/-- A composite that one round brings to rest. -/
theorem comesToRest_of_fold (hcanonical : t.canonicalize = t) (hfold : t.fold = c)
    (hc : Rested (· = c) c) : ComesToRest (· = c) 0 (· = t) := by
  refine ⟨⟨?_, ?_, ?_, ?_⟩, ?_⟩
  · rintro _ rfl
    exact hcanonical
  · rintro _ rfl
    rw [hcanonical, hcanonical]
  · rintro _ _ rfl rfl _
    exact Alike.refl _
  · rintro _ rfl
    rw [hcanonical, reduct, hfold, hc.isComposite.amount_eq, if_pos rfl]
  · rintro _ rfl _
    rw [simplifyRound, hcanonical, hfold]
    exact .inr (.composite hc.formOf)

theorem reduced_of_flat (hflat : Flat (Rested C) e) (hcanonical : e.canonicalize = e) :
    e.reduced 0 = e := by
  rw [reduced, hcanonical]
  exact hflat.mapComposites_fold

theorem Rested.flat (h : Rested C t) : Flat (Rested C) t :=
  (Atom.base (.composite h.formOf)).flat

/-- Two composites at rest in canonical order. -/
theorem settles_add (hu : Rested C u) (hv : Rested C v)
    (hcanonical : (add u v).canonicalize = add u v) :
    Settles (Rested C) 0 (add u v) ∧ FewTerms 0 (add u v) := by
  have hreduced := reduced_of_flat (flat_add_iff.2 ⟨hu.flat, hv.flat⟩) hcanonical
  refine ⟨⟨?_, ?_⟩, ?_⟩
  · rw [hcanonical]
    exact ⟨hu.isComposite.linear_iff.2 hu, hv.isComposite.linear_iff.2 hv⟩
  · rw [hreduced, amount, hu.isComposite.amount_eq, hv.isComposite.amount_eq]
    decide
  · intro p hp
    rw [hreduced, amount, hu.isComposite.amount_eq, hv.isComposite.amount_eq]
    split <;> decide

/-- In the other order they still mirror each other. -/
theorem mirrors_add (hu : Rested C u) (hv : Rested C v)
    (huv : (add u v).canonicalize = add u v) (hvu : (add v u).canonicalize = add v u) :
    Mirrors 0 (add u v) (add v u) := by
  have hab := reduced_of_flat (flat_add_iff.2 ⟨hu.flat, hv.flat⟩) huv
  have hba := reduced_of_flat (flat_add_iff.2 ⟨hv.flat, hu.flat⟩) hvu
  refine ⟨?_, ?_⟩
  · intro p
    rw [hab, hba, coefficient, coefficient, Int.add_comm]
  · rw [hab, hba, composites, composites, hu.isComposite.composites_eq,
      hv.isComposite.composites_eq]
    simp

theorem broad_mul_sym (s s' : Symbol) : (mul (sym s) (sym s')).Broad := by
  have hwide (s s' : Symbol) :
      (mul (sym s) (sym s')).bounds.Wide ∧ (mul (sym s) (sym s')).bounds.neg.Wide := by
    simp only [bounds]
    cases s.nonneg <;> cases s'.nonneg <;> decide
  intro u h
  cases same_iff_relation.1 h with
  | straight _ hl hr =>
    cases hl with
    | sym _ =>
      cases hr with
      | sym _ => apply hwide
  | crossed _ hl hr =>
    cases hl with
    | sym _ =>
      cases hr with
      | sym _ => apply hwide

end Instances

/--
Provable equality is reflexive where the canonical form is no sum. Where values tell two expressions
apart, it fails both ways, and so it does for linear expressions that do not mirror each other. For
those of few terms it is symmetric, and holds if they mirror each other; where all composites are
copies of one, they do so if their coefficients agree.
-/
theorem provablyEqual_refl_and_symm :
    (∀ e : SymExpr, e.canonicalize.sum? = none → e.provablyEqual e = true) ∧
      (∀ (σ : Assignment) (a b : SymExpr), ToldApart σ a b →
        a.provablyEqual b = false ∧ b.provablyEqual a = false) ∧
      ∀ (C R : SymExpr → Prop) (n : Nat), ComesToRest C n R →
        ∀ a b, Settles R n a → Settles R n b →
          ((∀ t, C t → t.Broad) → n ≤ 6 → ¬ Mirrors n a b →
            a.provablyEqual b = false ∧ b.provablyEqual a = false) ∧
          (FewTerms n a → FewTerms n b →
            ((∀ t, C t → t.Broad) → a.provablyEqual b = b.provablyEqual a ∧
              (a.provablyEqual b = true → Mirrors n a b)) ∧
            (Mirrors n a b ∨ (∃ u : SymExpr, ∀ t, C t → t.same u = true) ∧
                (∀ p, (a.reduced n).coefficient p = (b.reduced n).coefficient p) →
              a.provablyEqual b = true ∧ b.provablyEqual a = true)) := by
  refine ⟨fun e => provablyEqual_self_of_sum?, ?_, ?_⟩
  · intro σ a b h
    exact ⟨h.not_provablyEqual, h.symm.not_provablyEqual⟩
  intro C R n hR a b ha hb
  constructor
  · intro hbroad hn hmirrors
    simp only [← Bool.not_eq_true]
    constructor
    · exact fun h => hmirrors (mirrors_of_provablyEqual hR ha hb hbroad (.inl hn) h)
    · exact fun h => hmirrors (mirrors_of_provablyEqual hR hb ha hbroad (.inl hn) h).symm
  · intro hfewa hfewb
    have hequal (h : Mirrors n a b) : a.provablyEqual b = true ∧ b.provablyEqual a = true :=
      ⟨provablyEqual_of_mirrors hR ha hb hfewa hfewb h,
        provablyEqual_of_mirrors hR hb ha hfewb hfewa h.symm⟩
    constructor
    · intro hbroad
      have hab := mirrors_of_provablyEqual hR ha hb hbroad (.inr ⟨hfewa, hfewb⟩)
      have hba := mirrors_of_provablyEqual hR hb ha hbroad (.inr ⟨hfewb, hfewa⟩)
      refine ⟨?_, hab⟩
      rw [Bool.eq_iff_iff]
      exact ⟨fun h => (hequal (hab h)).2, fun h => (hequal (hba h).symm).1⟩
    · rintro (h | ⟨⟨u, hu⟩, h⟩)
      · exact hequal h
      · have hn := hfewa .composite Part.noConfusion
        exact hequal (mirrors_of_coefficient hR ha hb (by omega) hu h)

theorem provablyEqual_refl_and_symm_products :
    let xy := mul (size "x") (size "y")
    let wz := mul (size "w") (size "z")
    let a := add (mul (lit 2) (mul (lit 3) (size "x"))) (lit 1)
    xy.provablyEqual xy = true ∧
      ((add xy (lit 1)).provablyEqual wz = false ∧ wz.provablyEqual (add xy (lit 1)) = false) ∧
      ((add xy wz).provablyEqual (add wz wz) = false ∧
        (add wz wz).provablyEqual (add xy wz) = false) ∧
      ((add xy wz).provablyEqual (add wz xy) = true ∧
        (add xy wz).provablyEqual (add wz xy) = (add wz xy).provablyEqual (add xy wz)) ∧
      a.provablyEqual a = true := by
  intro xy wz a
  obtain ⟨hrefl, happart, hlinear⟩ := provablyEqual_refl_and_symm
  have htold : ToldApart (fun _ => 2) (add xy (lit 1)) wz := by
    refine ⟨?_, ⟨5, 4, rfl, rfl, by decide⟩, ?_, ?_⟩
    · simp [xy, wz, Respects, size]
    · rintro _ _ ⟨⟩ ⟨⟩
      decide +kernel
    · rintro _ _ ⟨⟩ ⟨⟩
      decide +kernel
  have hxy : Rested Broad xy :=
    ⟨⟨by decide, by decide⟩, broad_mul_sym _ _, by decide +kernel, by decide⟩
  have hwz : Rested Broad wz :=
    ⟨⟨by decide, by decide⟩, broad_mul_sym _ _, by decide +kernel, by decide⟩
  have hxywz : (add xy wz).canonicalize = add xy wz := by decide +kernel
  have hwzxy : (add wz xy).canonicalize = add wz xy := by decide +kernel
  have hwzwz : (add wz wz).canonicalize = add wz wz := by decide +kernel
  obtain ⟨hsettles, hfew⟩ := settles_add hxy hwz hxywz
  refine ⟨hrefl xy (by decide +kernel), happart _ _ _ htold, ?_, ?_, ?_⟩
  · have hmirrors : ¬ Mirrors 0 (add xy wz) (add wz wz) := by
      intro h
      have hword := h.composites_eq
      rw [reduced_of_flat (flat_add_iff.2 ⟨hxy.flat, hwz.flat⟩) hxywz,
        reduced_of_flat (flat_add_iff.2 ⟨hwz.flat, hwz.flat⟩) hwzwz, composites, composites,
        hxy.isComposite.composites_eq, hwz.isComposite.composites_eq, map_add, opposite_of,
        add_assoc, add_neg_cancel_left, add_neg_eq_zero] at hword
      have hsame := letter_eq_iff.1 (FreeAddGroup.of_injective hword)
      revert hsame
      decide
    exact (hlinear _ _ 0 (comesToRest_rested Broad) _ _ hsettles
      (settles_add hwz hwz hwzwz).1).1 (fun _ h => h) (by decide) hmirrors
  · obtain ⟨hsettles', hfew'⟩ := settles_add hwz hxy hwzxy
    obtain ⟨hsymm, hequal⟩ := (hlinear _ _ 0 (comesToRest_rested Broad) _ _ hsettles
      hsettles').2 hfew hfew'
    exact ⟨(hequal (.inl (mirrors_add hxy hwz hxywz hwzxy))).1, (hsymm fun _ h => h).1⟩
  · -- Folding makes `6 * x` of `2 * 3 * x`, which is at rest.
    let t := mul (mul (lit 2) (lit 3)) (size "x")
    let c := mul (lit 6) (size "x")
    have hc : Rested (· = c) c := ⟨⟨by decide, by decide⟩, rfl, by decide +kernel, by decide⟩
    have hreduced : a.reduced 0 = add (lit 1) c := by decide +kernel
    have ha : Settles (· = t) 0 a := by
      have hone : (1 : Int64) ≠ Int64.minValue := by decide
      have heq : a.canonicalize = add (lit 1) t := by decide +kernel
      refine ⟨?_, ?_⟩
      · rw [heq]
        exact ⟨hone, ⟨by decide, by decide⟩, rfl⟩
      · rw [hreduced]
        decide
    have hfewa : FewTerms 0 a := by
      intro p hp
      rw [hreduced, amount, hc.isComposite.amount_eq, amount, if_neg hp]
      split <;> decide
    have hrest : ComesToRest (· = c) 0 (· = t) :=
      comesToRest_of_fold (by decide +kernel) (by decide) hc
    have hcopies : ∃ u : SymExpr, ∀ t, t = c → t.same u = true :=
      ⟨c, fun t ht => by rw [ht, same_refl]⟩
    exact (((hlinear _ _ 0 hrest a a ha ha).2 hfewa hfewa).2
      (.inr ⟨hcopies, fun _ => rfl⟩)).1

/--
Products that do not stand side by side do not meet their negations, the interval of a term may be
zero, the rounds may not suffice, and sums of literals and the negation of the least literal leave
the range.
-/
theorem provablyEqual_misses_equals :
    let xy := mul (size "x") (size "y")
    let zw := mul (size "z") (size "w")
    let narrow := div (mod (size "y") (lit 5)) (lit 5)
    let copies (n : Nat) (e : SymExpr) := ofOperands .add (lit 0) (List.replicate n e)
    let sum := mul (add (neg (size "x")) (neg (size "y"))) (lit 1)
    (add xy zw).provablyEqual (add xy zw) = false ∧
      ((add narrow xy).provablyEqual xy = true ∧ xy.provablyEqual (add narrow xy) = false) ∧
      (copies 8 (neg (size "x"))).provablyEqual (copies 8 (neg (size "x"))) = false ∧
      (copies 7 sum).provablyEqual (copies 7 sum) = false ∧
      (add (lit Int64.maxValue) (lit 1)).provablyEqual (add (lit Int64.maxValue) (lit 1)) = false ∧
      ((lit (-9223372036854775807)).provablyEqual (lit Int64.minValue) = true ∧
        (lit Int64.minValue).provablyEqual (lit (-9223372036854775807)) = false) := by
  decide +kernel

end TensorIR.SymExpr
