import Mathlib.Data.Multiset.AddSub
import Mathlib.Data.Rat.Floor
import TensorIR.Proofs.SymExpr.Steps

/-!
What the removal of common factors takes out of a quotient. The factors of dividend and divisor are
those that are left and, on both sides, one multiset of common factors, which does not hold the
literal zero; nothing that could be taken out is left. Main statement: the removal is exact in this
sense, and hence what is left has the quotient of what there was.
-/

namespace TensorIR.SymExpr

theorem exists_perm_of_rel {α β : Type} {R : α → β → Prop} {as : List α} {bs : List β}
    (h : Multiset.Rel R as bs) : ∃ as', as.Perm as' ∧ List.Forall₂ R as' bs := by
  induction bs generalizing as with
  | nil =>
    rw [Multiset.coe_nil, Multiset.rel_zero_right, Multiset.coe_eq_zero] at h
    exact ⟨[], h ▸ .nil, .nil⟩
  | cons b bs ih =>
    rw [← Multiset.cons_coe, Multiset.rel_cons_right] at h
    obtain ⟨a, rest, hab, hrest, has⟩ := h
    obtain ⟨as', rfl⟩ := Quot.exists_rep rest
    obtain ⟨as'', hperm, hforall⟩ := ih hrest
    exact ⟨a :: as'', (Multiset.coe_eq_coe.1 has).trans (hperm.cons a), .cons hab hforall⟩

/-- The factors pair off so that those of a pair are equal up to the order of operands. -/
abbrev SameFactors (es ds : Multiset SymExpr) : Prop :=
  Multiset.Rel (fun a b => a.same b = true) es ds

theorem sameFactors_refl (es : Multiset SymExpr) : SameFactors es es :=
  Multiset.rel_refl_of_refl_on fun a _ => same_refl a

/-- Where there are no factors, their product is the literal one. -/
def IsProductOf (e : SymExpr) (es : List SymExpr) : Prop :=
  e.operands .mul = es ∨ es = [] ∧ e = lit 1

/--
Taking the factors `common` out of the factors `ns` of a dividend and `ds` of a divisor leaves `ns'`
and `ds'`, which have none in common but the literal zero.
-/
structure Cancels (common : Multiset SymExpr) (ns ds ns' ds' : List SymExpr) : Prop where
  dividend : SameFactors ns (ns' + common)
  divisor : SameFactors ds (ds' + common)
  ne_zero : ∀ f ∈ common, f ≠ lit 0
  dividend_kept : ns'.Sublist ns
  divisor_kept : ds'.Sublist ds
  apart : ∀ n ∈ ns', ∀ d ∈ ds', n.same d = true → n = lit 0 ∧ d = lit 0

section Factors

variable {n d : SymExpr} {ns ds ns' ds' : List SymExpr} {common : Multiset SymExpr}

theorem cancels_nil (ds : List SymExpr) : Cancels 0 [] ds [] ds where
  dividend := sameFactors_refl 0
  divisor := by
    rw [Multiset.add_zero]
    apply sameFactors_refl
  ne_zero := by simp
  dividend_kept := .refl []
  divisor_kept := .refl ds
  apart := by simp

/-- A factor without a partner stays, and finds none in what is left of the divisor. -/
theorem Cancels.keep (h : Cancels common ns ds ns' ds')
    (hn : ∀ d ∈ ds, n.same d = true → d = lit 0) : Cancels common (n :: ns) ds (n :: ns') ds' where
  dividend := by
    rw [← Multiset.cons_coe, ← Multiset.cons_coe, Multiset.cons_add]
    exact .cons (same_refl n) h.dividend
  divisor := h.divisor
  ne_zero := h.ne_zero
  dividend_kept := h.dividend_kept.cons_cons n
  divisor_kept := h.divisor_kept
  apart := by
    intro m hm d hd hsame
    rcases List.mem_cons.1 hm with rfl | hm
    · obtain rfl := hn d (h.divisor_kept.subset hd) hsame
      exact ⟨eq_lit_of_same hsame, rfl⟩
    · exact h.apart m hm d hd hsame

theorem Cancels.cancel {rest : List SymExpr} (h : Cancels common ns rest ns' ds')
    (hsame : n.same d = true) (hd : d ≠ lit 0) (hperm : ds.Perm (d :: rest))
    (hrest : rest.Sublist ds) : Cancels (n ::ₘ common) (n :: ns) ds ns' ds' where
  dividend := by
    rw [← Multiset.cons_coe, Multiset.add_cons]
    exact .cons (same_refl n) h.dividend
  divisor := by
    rw [Multiset.coe_eq_coe.2 hperm, ← Multiset.cons_coe, Multiset.add_cons]
    exact .cons (equivalence_same.symm hsame) h.divisor
  ne_zero := by
    rw [Multiset.forall_mem_cons]
    refine ⟨?_, h.ne_zero⟩
    rintro rfl
    exact hd (eq_lit_of_same (equivalence_same.symm hsame))
  dividend_kept := h.dividend_kept.cons n
  divisor_kept := h.divisor_kept.trans hrest
  apart := h.apart

theorem exists_cancels_cancelFactors (ns ds : List SymExpr) :
    ∃ common, Cancels common ns ds (cancelFactors ns ds).1 (cancelFactors ns ds).2 := by
  induction ns generalizing ds with
  | nil => exact ⟨0, cancels_nil ds⟩
  | cons n ns ih =>
    rw [cancelFactors]
    dsimp only
    split
    case isTrue h =>
      obtain ⟨d, hd, hperm⟩ := perm_cons_eraseP h
      obtain ⟨common, hcommon⟩ := ih (ds.eraseP fun d => n.same d && !d.isLit 0)
      rw [Bool.and_eq_true, Bool.not_eq_true'] at hd
      have hzero : d ≠ lit 0 := by
        rintro rfl
        exact absurd hd.2 (by decide)
      exact ⟨n ::ₘ common, hcommon.cancel hd.1 hzero hperm List.eraseP_sublist⟩
    case isFalse h =>
      obtain ⟨common, hcommon⟩ := ih ds
      refine ⟨common, hcommon.keep ?_⟩
      -- Of the factors equal to this one, the search passes over zero alone.
      intro d hd hsame
      apply eq_lit_of_isLit
      by_contra hzero
      rw [Bool.not_eq_true] at hzero
      exact h (List.any_eq_true.2 ⟨d, hd, by rw [hsame, hzero]; rfl⟩)

theorem isProductOf_ofOperands {es : List SymExpr} (h : ∀ e ∈ es, e.operands .mul = [e]) :
    (ofOperands .mul (lit 1) es).IsProductOf es := by
  cases es with
  | nil => exact .inr ⟨rfl, rfl⟩
  | cons e es => exact .inl (operands_ofOperands_of_terms (List.cons_ne_nil e es) h)

theorem exists_cancels_removeCommonFactors (l r : SymExpr) :
    ∃ common ns ds, (removeCommonFactors l r).1.IsProductOf ns ∧
      (removeCommonFactors l r).2.IsProductOf ds ∧
      Cancels common (l.operands .mul) (r.operands .mul) ns ds := by
  obtain ⟨common, h⟩ := exists_cancels_cancelFactors (l.operands .mul) (r.operands .mul)
  refine ⟨common, _, _, isProductOf_ofOperands ?_, isProductOf_ofOperands ?_, h⟩
  · exact fun e he => operands_of_mem_operands (h.dividend_kept.subset he)
  · exact fun e he => operands_of_mem_operands (h.divisor_kept.subset he)

end Factors

section Values

variable {σ : Assignment} {e : SymExpr} {es ds : List SymExpr} {vs : List Int} {v : Int}

theorem IsProductOf.eval?_eq_some_iff (h : e.IsProductOf es) :
    e.eval? σ = some v ↔ ∃ vs, ValuesAt σ es vs ∧ vs.prod = v := by
  rcases h with rfl | ⟨rfl, rfl⟩
  · exact eval?_eq_some_iff_operands rfl
  · simp [eval?_lit, ValuesAt]

theorem ValuesAt.of_same (h : List.Forall₂ (fun a b => a.same b = true) es ds)
    (hvs : ValuesAt σ es vs) : ValuesAt σ ds vs := by
  induction h generalizing vs with
  | nil => exact hvs
  | cons hab _ ih =>
    cases hvs with
    | cons ha hvs => exact .cons ((eval?_eq_of_same hab).symm.trans ha) (ih hvs)

theorem SameFactors.exists_valuesAt (h : SameFactors es ds) (hvs : ValuesAt σ es vs) :
    ∃ ws, ValuesAt σ ds ws ∧ ws.prod = vs.prod := by
  obtain ⟨fs, hperm, hsame⟩ := exists_perm_of_rel h
  obtain ⟨ws, hws, hprod⟩ := hvs.exists_of_perm hperm
  exact ⟨ws, hws.of_same hsame, hprod.prod_eq⟩

theorem ValuesAt.unique {ws : List Int} (h : ValuesAt σ es vs) (h' : ValuesAt σ es ws) :
    vs = ws :=
  List.right_unique_forall₂' (fun _ _ _ ha hb => Option.some.inj (ha.symm.trans hb)) h h'

variable {l r l' r' : SymExpr} {ns : List SymExpr} {common : Multiset SymExpr}

theorem IsProductOf.exists_eval? {cs : List SymExpr} (he : e.IsProductOf es)
    (h : SameFactors (l.operands .mul) (es + (cs : Multiset SymExpr))) (hv : l.eval? σ = some v) :
    ∃ w ks, e.eval? σ = some w ∧ ValuesAt σ cs ks ∧ v = w * ks.prod := by
  have hl : l.IsProductOf (l.operands .mul) := .inl rfl
  obtain ⟨vs, hvs, rfl⟩ := hl.eval?_eq_some_iff.1 hv
  rw [Multiset.coe_add] at h
  obtain ⟨us, hus, hprod⟩ := SameFactors.exists_valuesAt h hvs
  obtain ⟨ws, ks, hws, hks, rfl⟩ := hus.exists_of_append
  refine ⟨ws.prod, ks, he.eval?_eq_some_iff.2 ⟨ws, hws, rfl⟩, hks, ?_⟩
  rw [← List.prod_append, hprod]

/-- The common factors have one value, by which dividend and divisor are multiplied. -/
theorem Cancels.exists_quotient_eq
    (h : Cancels common (l.operands .mul) (r.operands .mul) ns ds) (hl : l'.IsProductOf ns)
    (hr : r'.IsProductOf ds) {n d : Int} (hn : l.eval? σ = some n) (hd : r.eval? σ = some d)
    (hzero : d ≠ 0) :
    ∃ n' d' : Int, l'.eval? σ = some n' ∧ r'.eval? σ = some d' ∧ d' ≠ 0 ∧
      (n : ℚ) / d = n' / d' := by
  obtain ⟨cs, rfl⟩ := Quot.exists_rep common
  obtain ⟨n', ks, hn', hks, rfl⟩ := hl.exists_eval? h.dividend hn
  obtain ⟨d', ks', hd', hks', rfl⟩ := hr.exists_eval? h.divisor hd
  obtain rfl := hks.unique hks'
  obtain ⟨hd'zero, hk⟩ := Int.mul_ne_zero_iff.1 hzero
  refine ⟨n', d', hn', hd', hd'zero, ?_⟩
  rw [Int.cast_mul, Int.cast_mul, mul_div_mul_right _ _ (Int.cast_ne_zero.2 hk)]

/--
Removal of common factors is exact and complete, and by position it takes out the same factors. The
quotient of what is left is that of dividend and divisor, rounded down as well as rounded up.
-/
theorem removeCommonFactors_exact (l r : SymExpr) :
    removeCommonFactorsSteps? l r = some (removeCommonFactors l r) ∧
      (∃ common ns ds, (removeCommonFactors l r).1.IsProductOf ns ∧
        (removeCommonFactors l r).2.IsProductOf ds ∧
        Cancels common (l.operands .mul) (r.operands .mul) ns ds) ∧
      ∀ (σ : Assignment) (n d : Int), l.eval? σ = some n → r.eval? σ = some d → d ≠ 0 →
        ∃ n' d' : Int, (removeCommonFactors l r).1.eval? σ = some n' ∧
          (removeCommonFactors l r).2.eval? σ = some d' ∧ d' ≠ 0 ∧
          ⌊(n : ℚ) / d⌋ = ⌊(n' : ℚ) / d'⌋ ∧ ⌈(n : ℚ) / d⌉ = ⌈(n' : ℚ) / d'⌉ := by
  obtain ⟨common, ns, ds, hl, hr, hcancels⟩ := exists_cancels_removeCommonFactors l r
  refine ⟨removeCommonFactorsSteps?_eq_some l r, ⟨common, ns, ds, hl, hr, hcancels⟩, ?_⟩
  intro σ n d hn hd hzero
  obtain ⟨n', d', hn', hd', hzero', hquotient⟩ := hcancels.exists_quotient_eq hl hr hn hd hzero
  refine ⟨n', d', hn', hd', hzero', ?_, ?_⟩
  · rw [hquotient]
  · rw [hquotient]

/-- The divisor has one of two equal factors, and writes the sum the other way round. -/
theorem removeCommonFactors_exact_repeated :
    let l := mul (mul (add (var "x") (var "y")) (lit (-2))) (mul (var "x") (var "x"))
    let r := mul (var "x") (mul (add (var "y") (var "x")) (var "z"))
    let σ : Assignment := fun name => if name = "x" then -3 else if name = "y" then 1 else 5
    removeCommonFactors l r = (mul (lit (-2)) (var "x"), var "z") ∧ l.eval? σ = some 36 ∧
      r.eval? σ = some 30 ∧ ⌊((36 : Int) : ℚ) / (30 : Int)⌋ = ⌊((6 : Int) : ℚ) / (5 : Int)⌋ ∧
      ⌈((36 : Int) : ℚ) / (30 : Int)⌉ = ⌈((6 : Int) : ℚ) / (5 : Int)⌉ := by
  intro l r σ
  have hleft : removeCommonFactors l r = (mul (lit (-2)) (var "x"), var "z") := by decide
  have hl : l.eval? σ = some 36 := by decide
  have hr : r.eval? σ = some 30 := by decide
  obtain ⟨n, d, hn, hd, _, hfloor, hceil⟩ :=
    (removeCommonFactors_exact l r).2.2 σ 36 30 hl hr (by decide)
  rw [hleft] at hn hd
  obtain rfl : 6 = n := Option.some.inj hn
  obtain rfl : 5 = d := Option.some.inj hd
  exact ⟨hleft, hl, hr, hfloor, hceil⟩

/-- Zero is on both sides and stays there. -/
example : removeCommonFactors (mul (lit 0) (var "x")) (mul (var "x") (lit 0)) = (lit 0, lit 0) := by
  decide

end Values

end TensorIR.SymExpr
