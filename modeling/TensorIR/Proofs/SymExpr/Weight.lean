import TensorIR.Proofs.SymExpr.Rounds

/-!
The weight of an expression under simplification. Nothing that a round does adds weight, and what
keeps the weight is at most a change of order: every cancelled term, every fold and every sign that
moves loses some. So an expression that comes out of canonicalization as heavy as it went in is in
canonical form, and folding leaves such an expression alone unless it becomes lighter.
-/

namespace TensorIR.SymExpr

section Sorting

variable {a b : SymExpr} {es : List SymExpr}

theorem precedes_total (h : a.precedes b = false) : b.precedes a = true := by
  unfold precedes at h ⊢
  split at h
  · cases h
  · rfl
  · split
    · next n m hb ha =>
      simp only [ha, hb, decide_eq_false_iff_not] at h
      exact decide_eq_true ((String.le_total m n).resolve_left h)
    · rfl
    · next hb ha => simp [ha, hb] at h
    · rfl

/-- The terms are in order: each precedes the next. -/
def Ordered (es : List SymExpr) : Prop :=
  es.IsChain fun a b => a.precedes b = true

theorem Ordered.insertTerm (h : Ordered es) (a : SymExpr) : Ordered (insertTerm a es) := by
  induction es with
  | nil => exact .singleton a
  | cons b es ih =>
    unfold SymExpr.insertTerm
    split
    · next hab => exact .cons_cons hab h
    · next hab =>
      rw [Bool.not_eq_true] at hab
      have hba := precedes_total hab
      cases es with
      | nil => exact .cons_cons hba (.singleton a)
      | cons c es =>
        obtain ⟨hbc, hes⟩ := List.isChain_cons_cons.1 h
        have hrest := ih hes
        unfold SymExpr.insertTerm at hrest ⊢
        split
        · next hac => exact .cons_cons hba (.cons_cons hac hes)
        · next hac =>
          rw [if_neg hac] at hrest
          exact .cons_cons hbc hrest

theorem ordered_sortTerms (es : List SymExpr) : Ordered (sortTerms es) := by
  induction es with
  | nil => exact .nil
  | cons a es ih => exact ih.insertTerm a

theorem Ordered.sortTerms_eq (h : Ordered es) : sortTerms es = es := by
  induction es with
  | nil => rfl
  | cons a es ih =>
    cases es with
    | nil => rfl
    | cons b es =>
      obtain ⟨hab, hes⟩ := List.isChain_cons_cons.1 h
      rw [sortTerms, ih hes]
      exact if_pos hab

end Sorting

section Nests

variable {op : BinOp} {unit : SymExpr} {es : List SymExpr}

theorem weight_ofOperands (h : op ≠ .sub) (hes : es ≠ []) :
    (ofOperands op unit es).weight + 2 = termsWeight es := by
  cases es with
  | nil => exact absurd rfl hes
  | cons e es =>
    clear hes
    rw [ofOperands]
    induction es generalizing e with
    | nil => rfl
    | cons d es ih =>
      have hnest := ih (bin op e d)
      rw [termsWeight, weight_bin h] at hnest
      rw [List.foldl_cons, termsWeight, termsWeight]
      omega

theorem exists_ofOperands_eq_bin (hes : 2 ≤ es.length) :
    ∃ l r, ofOperands op unit es = bin op l r := by
  rcases es.eq_nil_or_concat with rfl | ⟨front, last, rfl⟩
  · simp at hes
  · cases front with
    | nil => simp at hes
    | cons e front =>
      refine ⟨front.foldl (.bin op) e, last, ?_⟩
      rw [List.concat_eq_append, List.cons_append, ofOperands, List.foldl_append]
      rfl

theorem two_le_length_operands (l r : SymExpr) : 2 ≤ ((bin op l r).operands op).length := by
  have hl := List.length_pos_of_ne_nil (operands_ne_nil op l)
  have hr := List.length_pos_of_ne_nil (operands_ne_nil op r)
  rw [operands_bin_self, List.length_append]
  omega

theorem termsWeight_map_le {f : SymExpr → SymExpr} (hf : ∀ e, (f e).weight ≤ e.weight)
    (es : List SymExpr) : termsWeight (es.map f) ≤ termsWeight es := by
  induction es with
  | nil => exact Nat.le_refl _
  | cons e es ih =>
    have := hf e
    rw [List.map_cons, termsWeight, termsWeight]
    omega

/-- Together the terms keep their weight only if each one keeps its own. -/
theorem weight_map_eq_of_termsWeight {f : SymExpr → SymExpr} (hf : ∀ e, (f e).weight ≤ e.weight)
    (h : termsWeight (es.map f) = termsWeight es) : ∀ e ∈ es, (f e).weight = e.weight := by
  induction es with
  | nil => simp
  | cons e es ih =>
    have he := hf e
    have hes := termsWeight_map_le hf es
    rw [List.map_cons, termsWeight, termsWeight] at h
    rw [List.forall_mem_cons]
    exact ⟨by omega, ih (by omega)⟩

theorem cancelOpposites_eq_of_termsWeight
    (h : termsWeight (cancelOpposites es) = termsWeight es) : cancelOpposites es = es := by
  fun_induction cancelOpposites es with
  | case1 a b es hopposite ih =>
    have := termsWeight_cancelOpposites_le es
    simp only [termsWeight] at h
    omega
  | case2 a b es hopposite ih =>
    rw [termsWeight, termsWeight, Nat.add_left_cancel_iff] at h
    rw [ih h]
  | case3 => rfl

end Nests

section Canonical

variable {op : BinOp} {unit e : SymExpr} {es : List SymExpr}

/-- No product is the right side of a product, so each one is a nest that is grouped to the left. -/
def ProductsLeft : SymExpr → Prop
  | .lit _ => True
  | .sym _ => True
  | .neg e => e.ProductsLeft
  | .bin op l r => l.ProductsLeft ∧ r.ProductsLeft ∧ (op = .mul → r.operands .mul = [r])

theorem ProductsLeft.ofOperands_eq (h : e.ProductsLeft) :
    ofOperands .mul unit (e.operands .mul) = e := by
  induction e with
  | bin op l r ihl _ =>
    unfold operands
    split
    case isTrue hop =>
      subst hop
      have hl := ihl h.1
      rw [h.2.2 rfl]
      cases hes : l.operands .mul with
      | nil => exact absurd hes (operands_ne_nil .mul l)
      | cons d ds =>
        rw [hes] at hl
        rw [List.cons_append, ofOperands, List.foldl_append]
        exact congrArg (bin .mul · r) hl
    case isFalse => rfl
  | _ => rfl

theorem productsLeft_ofOperands (hes : es ≠ []) (h : ∀ e ∈ es, e.ProductsLeft)
    (hterms : ∀ e ∈ es, e.operands op = [e]) : (ofOperands op unit es).ProductsLeft := by
  cases es with
  | nil => exact absurd rfl hes
  | cons e es =>
    clear hes
    rw [List.forall_mem_cons] at h hterms
    obtain ⟨he, hes⟩ := h
    replace hterms := hterms.2
    rw [ofOperands]
    induction es generalizing e with
    | nil => exact he
    | cons d es ih =>
      rw [List.forall_mem_cons] at hes hterms
      refine ih (bin op e d) ⟨he, hes.1, ?_⟩ hes.2 hterms.2
      intro hop
      rw [← hop]
      exact hterms.1

/-- Canonicalization leaves the expression alone, and its products are grouped as it groups them. -/
structure IsCanonical (e : SymExpr) : Prop where
  canonicalize_eq : e.canonicalize = e
  productsLeft : e.ProductsLeft

theorem exists_nest (hes : 2 ≤ es.length) (hcanonical : ∀ e ∈ es, e.IsCanonical)
    (hterms : ∀ e ∈ es, e.operands op = [e]) :
    ∃ l r, ofOperands op unit es = bin op l r ∧
      ((bin op l r).operands op).map canonicalize = es ∧ (bin op l r).ProductsLeft := by
  have hne : es ≠ [] := by
    intro h
    rw [h, List.length_nil] at hes
    omega
  obtain ⟨l, r, hbin⟩ : ∃ l r, ofOperands op unit es = bin op l r := exists_ofOperands_eq_bin hes
  refine ⟨l, r, hbin, ?_, ?_⟩
  · rw [← hbin, operands_ofOperands_of_terms hne hterms]
    exact (List.map_congr_left fun e he => (hcanonical e he).canonicalize_eq).trans es.map_id
  · rw [← hbin]
    exact productsLeft_ofOperands hne (fun e he => (hcanonical e he).productsLeft) hterms

theorem cancelOpposites_eq_of_weight_sumOf (hpos : 1 < (sumOf es).weight)
    (h : termsWeight es ≤ (sumOf es).weight + 2) :
    cancelOpposites (sortTerms es) = sortTerms es := by
  have hsort := termsWeight_perm (sortTerms_perm es)
  have hcancel := termsWeight_cancelOpposites_le (sortTerms es)
  have hne : cancelOpposites (sortTerms es) ≠ [] := by
    intro hnil
    rw [sumOf, hnil] at hpos
    exact absurd hpos (by decide)
  have hweight : (ofOperands .add (lit 0) _).weight + 2 = _ := weight_ofOperands (by decide) hne
  rw [sumOf] at h
  apply cancelOpposites_eq_of_termsWeight
  omega

/-- A sign that keeps its weight stays where it is. -/
theorem negateTerm_eq_neg {n : Nat} (h : e.weight ≤ n)
    (hweight : (negateTerm e).weight = 2 * n + 1) :
    negateTerm e = neg e := by
  unfold negateTerm at hweight ⊢
  split
  · simp only [weight] at h hweight
    omega
  · next hneg =>
    rcases foldNeg_eq e with hfold | ⟨a, hfold⟩
    · exact hfold
    · have := weight_pos e
      split at hweight
      · exact absurd rfl (hneg _)
      · rw [hfold] at hweight
        simp only [weight] at hweight
        omega

theorem weight_canonicalize_sub_lt (l r : SymExpr) :
    (sub l r).canonicalize.weight < (sub l r).weight := by
  have hsum := weight_canonicalize_le (add l.canonicalize (neg r.canonicalize))
  have hl := weight_canonicalize_le l
  have hr := weight_canonicalize_le r
  rw [canonicalize_sub]
  simp only [weight] at hsum ⊢
  omega

theorem canonicalize_neg_of_weight (h : (neg e).canonicalize.weight = (neg e).weight) :
    e.canonicalize.weight = e.weight ∧ (neg e).canonicalize = neg e.canonicalize ∧
      e.canonicalize.sum? = none ∧ negateTerm e.canonicalize = neg e.canonicalize := by
  have he := weight_canonicalize_le e
  rw [canonicalize_neg] at h ⊢
  cases hsum : e.canonicalize.sum? with
  | none =>
    rw [hsum] at h
    have hneg := negateTerm_eq_neg he h
    dsimp only at h ⊢
    rw [hneg] at h
    simp only [weight] at h
    exact ⟨by omega, hneg, rfl, hneg⟩
  | some p =>
    -- A sum that takes in the sign is lighter than its negation.
    rw [hsum] at h
    have hterms := weight_canonicalize_le (add (neg p.1) (neg p.2))
    rw [eq_add_of_sum? hsum] at he
    simp only [weight] at h he hterms
    omega

/-- Canonicalization has at most put operands in order, and has not made a sum or a product. -/
structure OnlyReordered (e : SymExpr) : Prop where
  isCanonical : e.canonicalize.IsCanonical
  operands_eq : ∀ {op : BinOp}, op.isAssocComm = true → e.operands op = [e] →
    e.canonicalize.operands op = [e.canonicalize]

/-- The terms of a sum, or the factors of a product, each in canonical form. -/
def canonicalOperands (op : BinOp) (e : SymExpr) : List SymExpr :=
  (e.operands op).map canonicalize

theorem exists_nest_of_onlyReordered (unit : SymExpr) {l r : SymExpr}
    (hop : op.isAssocComm = true)
    (hoperands : ∀ d : SymExpr, d.weight < (bin op l r).weight →
      d.canonicalize.weight = d.weight → d.OnlyReordered)
    (hweight : termsWeight (canonicalOperands op (bin op l r)) = (bin op l r).weight + 2) :
    ∃ l' r', ofOperands op unit (sortTerms (canonicalOperands op (bin op l r))) = bin op l' r' ∧
      canonicalOperands op (bin op l' r') = sortTerms (canonicalOperands op (bin op l r)) ∧
      (bin op l' r').ProductsLeft := by
  have hsub : op ≠ .sub := by
    rintro rfl
    cases hop
  rw [← termsWeight_operands hsub] at hweight
  have hsame := weight_map_eq_of_termsWeight weight_canonicalize_le hweight
  have hterm (e : SymExpr) (he : e ∈ sortTerms (canonicalOperands op (bin op l r))) :
      e.IsCanonical ∧ e.operands op = [e] := by
    rw [(sortTerms_perm _).mem_iff, canonicalOperands, List.mem_map] at he
    obtain ⟨d, hd, rfl⟩ := he
    have hreordered := hoperands d (weight_lt_of_mem_operands hd) (hsame d hd)
    exact ⟨hreordered.isCanonical, hreordered.operands_eq hop (operands_of_mem_operands hd)⟩
  apply exists_nest
  · rw [(sortTerms_perm _).length_eq, canonicalOperands, List.length_map]
    exact two_le_length_operands l r
  · exact fun e he => (hterm e he).1
  · exact fun e he => (hterm e he).2

theorem operands_bin_ne {op' : BinOp} (h : op' ≠ op) (l r : SymExpr) :
    (bin op' l r).operands op = [bin op' l r] :=
  if_neg h

/-- A nest is a term of the other operator only, before and after. -/
theorem onlyReordered_of_bin {l r l' r' : SymExpr}
    (heq : (bin op l r).canonicalize = bin op l' r') (hcanonical : (bin op l' r').IsCanonical) :
    (bin op l r).OnlyReordered := by
  refine ⟨heq ▸ hcanonical, ?_⟩
  intro op' _ hterm
  have hne : op ≠ op' := by
    rintro rfl
    have hlength : 2 ≤ ((bin op l r).operands op).length := two_le_length_operands l r
    rw [hterm, List.length_singleton] at hlength
    omega
  rw [heq]
  exact operands_bin_ne hne l' r'

section Steps

variable {l r : SymExpr}
  (hsmaller : ∀ d : SymExpr, d.weight < (bin op l r).weight →
    d.canonicalize.weight = d.weight → d.OnlyReordered)
  (h : (bin op l r).canonicalize.weight = (bin op l r).weight)
include hsmaller h

theorem onlyReordered_add (hop : op = .add) : (bin op l r).OnlyReordered := by
  subst hop
  have hcanonicalize (l r : SymExpr) :
      (bin .add l r).canonicalize = sumOf (canonicalOperands .add (bin .add l r)) :=
    canonicalize_add l r
  have hterms : termsWeight ((bin .add l r).operands .add) = _ :=
    termsWeight_operands (by decide) (bin .add l r)
  have hle : termsWeight (canonicalOperands .add (bin .add l r)) ≤ _ :=
    termsWeight_map_le weight_canonicalize_le ((bin .add l r).operands .add)
  have hl := weight_pos l
  have hw : (bin .add l r).weight = l.weight + r.weight + 2 := weight_bin (by decide) l r
  rw [hcanonicalize] at h
  have hcancel : cancelOpposites (sortTerms (canonicalOperands .add (bin .add l r))) = _ :=
    cancelOpposites_eq_of_weight_sumOf (by omega) (by omega)
  have hsum : sumOf (canonicalOperands .add (bin .add l r)) =
      ofOperands .add (lit 0) (sortTerms (canonicalOperands .add (bin .add l r))) :=
    congrArg (ofOperands .add (lit 0)) hcancel
  have hne : sortTerms (canonicalOperands .add (bin .add l r)) ≠ [] := by
    intro hnil
    rw [hsum, hnil] at h
    simp only [ofOperands, weight] at h
    omega
  have hweight : (ofOperands .add (lit 0) _).weight + 2 = _ := weight_ofOperands (by decide) hne
  rw [← hsum, h, termsWeight_perm (sortTerms_perm _)] at hweight
  obtain ⟨l', r', hnest, hoperands, hleft⟩ :=
    exists_nest_of_onlyReordered (lit 0) rfl hsmaller hweight.symm
  have heq : (bin .add l r).canonicalize = bin .add l' r' := by
    rw [hcanonicalize, hsum, hnest]
  apply onlyReordered_of_bin heq
  refine ⟨?_, hleft⟩
  rw [hcanonicalize, hoperands, sumOf, (ordered_sortTerms _).sortTerms_eq, hcancel, hnest]

theorem onlyReordered_mul (hop : op = .mul) : (bin op l r).OnlyReordered := by
  subst hop
  have hcanonicalize (l r : SymExpr) :
      (bin .mul l r).canonicalize = productOf (canonicalOperands .mul (bin .mul l r)) :=
    canonicalize_mul l r
  have hl := weight_pos l
  have hw : (bin .mul l r).weight = l.weight + r.weight + 2 := weight_bin (by decide) l r
  rw [hcanonicalize] at h
  have hne : sortTerms (canonicalOperands .mul (bin .mul l r)) ≠ [] := by
    intro hnil
    rw [productOf, hnil] at h
    simp only [ofOperands, weight] at h
    omega
  have hweight : (ofOperands .mul (lit 1) _).weight + 2 = _ := weight_ofOperands (by decide) hne
  rw [← productOf, h, termsWeight_perm (sortTerms_perm _)] at hweight
  obtain ⟨l', r', hnest, hoperands, hleft⟩ :=
    exists_nest_of_onlyReordered (lit 1) rfl hsmaller hweight.symm
  have heq : (bin .mul l r).canonicalize = bin .mul l' r' := by
    rw [hcanonicalize, productOf, hnest]
  apply onlyReordered_of_bin heq
  refine ⟨?_, hleft⟩
  rw [hcanonicalize, hoperands, productOf, (ordered_sortTerms _).sortTerms_eq, hnest]

/-- An operator that canonicalization passes through. -/
theorem onlyReordered_of_canonicalize_eq (hop : op ≠ .sub) (hmul : op ≠ .mul)
    (hpasses : ∀ l r : SymExpr,
      (bin op l r).canonicalize = bin op l.canonicalize r.canonicalize) :
    (bin op l r).OnlyReordered := by
  have hl := weight_canonicalize_le l
  have hr := weight_canonicalize_le r
  have hw := weight_bin hop l r
  rw [hpasses, weight_bin hop, hw] at h
  have hl' := (hsmaller l (by omega) (by omega)).isCanonical
  have hr' := (hsmaller r (by omega) (by omega)).isCanonical
  apply onlyReordered_of_bin (hpasses l r)
  refine ⟨?_, hl'.productsLeft, hr'.productsLeft, fun h => absurd h hmul⟩
  rw [hpasses, hl'.canonicalize_eq, hr'.canonicalize_eq]

end Steps

theorem onlyReordered_neg (he : e.canonicalize.weight = e.weight → e.OnlyReordered)
    (h : (neg e).canonicalize.weight = (neg e).weight) : (neg e).OnlyReordered := by
  obtain ⟨hweight, heq, hsum, hneg⟩ := canonicalize_neg_of_weight h
  have hcanonical := (he hweight).isCanonical
  refine ⟨?_, ?_⟩
  · rw [heq]
    refine ⟨?_, hcanonical.productsLeft⟩
    rw [canonicalize_neg, hcanonical.canonicalize_eq, hsum]
    exact hneg
  · intro op _ _
    rw [heq]
    rfl

/-- Canonicalization that keeps the weight reorders at most. -/
theorem onlyReordered_of_weight (e : SymExpr) (h : e.canonicalize.weight = e.weight) :
    e.OnlyReordered := by
  match e with
  | .lit a =>
    refine ⟨?_, ?_⟩
    · rw [canonicalize_lit]
      exact ⟨canonicalize_lit a, trivial⟩
    · intro op _ _
      rw [canonicalize_lit]
      rfl
  | .sym s =>
    refine ⟨?_, ?_⟩
    · rw [canonicalize_sym]
      exact ⟨canonicalize_sym s, trivial⟩
    · intro op _ _
      rw [canonicalize_sym]
      rfl
  | .neg e => exact onlyReordered_neg (onlyReordered_of_weight e) h
  | .bin op l r =>
    have hsmaller (d : SymExpr) (hd : d.weight < (bin op l r).weight) :
        d.canonicalize.weight = d.weight → d.OnlyReordered := onlyReordered_of_weight d
    cases op with
    | add => exact onlyReordered_add hsmaller h rfl
    | sub => exact absurd h (Nat.ne_of_lt (weight_canonicalize_sub_lt l r))
    | mul => exact onlyReordered_mul hsmaller h rfl
    | div =>
      exact onlyReordered_of_canonicalize_eq hsmaller h (by decide) (by decide) canonicalize_div
    | ceilDiv =>
      exact onlyReordered_of_canonicalize_eq hsmaller h (by decide) (by decide) canonicalize_ceilDiv
    | mod =>
      exact onlyReordered_of_canonicalize_eq hsmaller h (by decide) (by decide) canonicalize_mod
termination_by e.weight
decreasing_by
  · simp only [weight]
    omega
  · exact hd

end Canonical

section Folding

variable {op : BinOp} {e e' l r l' r' : SymExpr}

/-- The first expression is the second, or it weighs less. -/
def EqOrLighter (e' e : SymExpr) : Prop :=
  e' = e ∨ e'.weight < e.weight

theorem EqOrLighter.weight_le (h : EqOrLighter e' e) : e'.weight ≤ e.weight := by
  rcases h with rfl | h
  · exact Nat.le_refl _
  · exact Nat.le_of_lt h

theorem EqOrLighter.eq_of_weight (h : EqOrLighter e' e) (hweight : e'.weight = e.weight) :
    e' = e := by
  rcases h with h | h
  · exact h
  · omega

theorem weight_lt_weight_bin (op : BinOp) (l r : SymExpr) :
    l.weight < (bin op l r).weight ∧ r.weight < (bin op l r).weight ∧
      1 < (bin op l r).weight := by
  have := weight_pos l
  have := weight_pos r
  cases op <;> simp only [weight] <;> omega

theorem weight_bin_le (op : BinOp) (hl : l'.weight ≤ l.weight) (hr : r'.weight ≤ r.weight) :
    (bin op l' r').weight ≤ (bin op l r).weight ∧
      (l'.weight < l.weight ∨ r'.weight < r.weight →
        (bin op l' r').weight < (bin op l r).weight) := by
  cases op <;> simp only [weight] <;> omega

theorem lighter_of_foldLits (h : foldLits op l r = some e) : EqOrLighter e (bin op l r) := by
  obtain ⟨c, rfl⟩ := eq_lit_of_foldLits h
  exact .inr (weight_lt_weight_bin op l r).2.2

theorem eqOrLighter_foldNeg (e : SymExpr) : EqOrLighter (foldNeg e) (neg e) := by
  rcases foldNeg_eq e with h | ⟨a, h⟩
  · exact .inl h
  · have := weight_pos e
    rw [h]
    refine .inr ?_
    simp only [weight]
    omega

theorem eqOrLighter_foldAdd (l r : SymExpr) : EqOrLighter (foldAdd l r) (add l r) := by
  obtain ⟨hl, hr, hlit⟩ := weight_lt_weight_bin .add l r
  unfold foldAdd
  split
  · exact .inr hr
  · split
    · exact .inr hl
    · split
      · next h => exact lighter_of_foldLits h
      · split
        · exact .inr hlit
        · exact .inl rfl

theorem eqOrLighter_foldSub (l r : SymExpr) : EqOrLighter (foldSub l r) (sub l r) := by
  obtain ⟨hl, hr, hlit⟩ := weight_lt_weight_bin .sub l r
  unfold foldSub
  split
  · exact .inr hl
  · split
    · next h => exact lighter_of_foldLits h
    · split
      · exact .inr hlit
      · exact .inl rfl

theorem eqOrLighter_foldMul (l r : SymExpr) : EqOrLighter (foldMul l r) (mul l r) := by
  obtain ⟨hl, hr, hlit⟩ := weight_lt_weight_bin .mul l r
  unfold foldMul
  split
  · exact .inr hlit
  · split
    · exact .inr hr
    · split
      · exact .inr hl
      · cases h : foldLits .mul l r with
        | none => exact .inl rfl
        | some e => exact lighter_of_foldLits h

theorem eqOrLighter_foldMod (l r : SymExpr) : EqOrLighter (foldMod l r) (mod l r) := by
  obtain ⟨hl, hr, hlit⟩ := weight_lt_weight_bin .mod l r
  unfold foldMod
  split
  · exact .inr hlit
  · split
    · next h => exact lighter_of_foldLits h
    · split
      · exact .inr hlit
      · exact .inl rfl

theorem cancelFactors_eq_or_lighter (ns ds : List SymExpr) :
    cancelFactors ns ds = (ns, ds) ∨
      termsWeight (cancelFactors ns ds).1 < termsWeight ns ∧
        termsWeight (cancelFactors ns ds).2 < termsWeight ds := by
  induction ns generalizing ds with
  | nil => exact .inl rfl
  | cons n ns ih =>
    rw [cancelFactors]
    dsimp only
    split
    · next h =>
      -- The factor and its partner are gone, whatever becomes of the others.
      obtain ⟨f, _, hperm⟩ := perm_cons_eraseP h
      have hds := termsWeight_perm hperm
      rw [termsWeight] at hds
      refine .inr ?_
      rw [termsWeight]
      rcases ih (ds.eraseP fun d => n.same d && !d.isLit 0) with heq | hlt
      · rw [heq]
        dsimp only
        omega
      · omega
    · rcases ih ds with heq | hlt
      · rw [heq]
        exact .inl rfl
      · rw [termsWeight, termsWeight]
        exact .inr ⟨by omega, hlt.2⟩

/-- The product over the factors of an expression, grouped to the left. -/
def regrouped (e : SymExpr) : SymExpr :=
  ofOperands .mul (lit 1) (e.operands .mul)

theorem weight_regrouped (e : SymExpr) : e.regrouped.weight = e.weight := by
  have hnest : (ofOperands .mul (lit 1) (e.operands .mul)).weight + 2 = _ :=
    weight_ofOperands (by decide) (operands_ne_nil .mul e)
  rw [termsWeight_operands (by decide)] at hnest
  rw [regrouped]
  omega

theorem removeCommonFactors_eq_or_lighter (l r : SymExpr) :
    removeCommonFactors l r = (l.regrouped, r.regrouped) ∨
      (removeCommonFactors l r).1.weight ≤ l.weight ∧
        ((removeCommonFactors l r).2 = lit 1 ∨ (removeCommonFactors l r).2.weight < r.weight) := by
  unfold removeCommonFactors
  have hl : termsWeight (l.operands .mul) = _ := termsWeight_operands (by decide) l
  have hr : termsWeight (r.operands .mul) = _ := termsWeight_operands (by decide) r
  rcases cancelFactors_eq_or_lighter (l.operands .mul) (r.operands .mul) with heq | ⟨hns, hds⟩
  · rw [heq]
    exact .inl rfl
  · refine .inr ⟨?_, ?_⟩
    · exact weight_ofOperands_le (by decide) 1 (by omega) (weight_pos l)
    · dsimp only
      cases hnil : (cancelFactors (l.operands .mul) (r.operands .mul)).2 with
      | nil => exact .inl rfl
      | cons d ds =>
        have hnest : (ofOperands .mul (lit 1) (d :: ds)).weight + 2 = _ :=
          weight_ofOperands (by decide) (List.cons_ne_nil d ds)
        rw [hnil] at hds
        exact .inr (by omega)

theorem eqOrLighter_mergeQuotients (hop : op.isQuotient = true) (l r : SymExpr) :
    EqOrLighter ((mergeQuotients op l r).getD (bin op l r)) (bin op l r) := by
  have hsub : op ≠ .sub := by
    rintro rfl
    cases hop
  cases h : mergeQuotients op l r with
  | none => exact .inl rfl
  | some e =>
    unfold mergeQuotients at h
    split at h
    · next op' l b c =>
      rw [Option.ite_none_right_eq_some] at h
      simp only [Bool.and_eq_true, decide_eq_true_eq, Option.map_eq_some_iff] at h
      obtain ⟨⟨⟨rfl, _⟩, _⟩, d, _, rfl⟩ := h
      refine .inr ?_
      rw [Option.getD_some, weight_bin hsub, weight_bin hsub, weight_bin hsub]
      simp only [weight]
      omega
    · cases h

/-- What is left of both sides is divided, or becomes lighter. -/
theorem eqOrLighter_foldQuotient_rest (hop : op.isQuotient = true) (l r : SymExpr) :
    EqOrLighter (foldQuotient op l r)
      (bin op (removeCommonFactors l r).1 (removeCommonFactors l r).2) := by
  unfold foldQuotient
  generalize removeCommonFactors l r = rest
  dsimp only
  split
  · exact .inr (weight_lt_weight_bin op _ _).1
  · split
    · next h => exact lighter_of_foldLits h
    · exact eqOrLighter_mergeQuotients hop rest.1 rest.2

theorem eqOrLighter_foldQuotient (hop : op.isQuotient = true) (l r : SymExpr) :
    EqOrLighter (foldQuotient op l r) (bin op l.regrouped r.regrouped) := by
  have hrest := eqOrLighter_foldQuotient_rest hop l r
  rcases removeCommonFactors_eq_or_lighter l r with heq | ⟨hl, hr⟩
  · rwa [heq] at hrest
  · refine .inr ?_
    rw [← weight_regrouped l] at hl
    rw [← weight_regrouped r] at hr
    rcases hr with hone | hr
    · have hfold : foldQuotient op l r = (removeCommonFactors l r).1 := by
        unfold foldQuotient
        dsimp only
        rw [hone]
        rfl
      rw [hfold]
      exact Nat.lt_of_le_of_lt hl (weight_lt_weight_bin op _ _).1
    · refine Nat.lt_of_le_of_lt hrest.weight_le ?_
      exact (weight_bin_le op hl (Nat.le_of_lt hr)).2 (.inr hr)

theorem weight_foldBin_le (op : BinOp) (l r : SymExpr) :
    (foldBin op l r).weight ≤ (bin op l r).weight := by
  have hquotient {op : BinOp} (hop : op.isQuotient = true) :
      (foldQuotient op l r).weight ≤ (bin op l r).weight := by
    refine Nat.le_trans (eqOrLighter_foldQuotient hop l r).weight_le ?_
    have hl := Nat.le_of_eq (weight_regrouped l)
    have hr := Nat.le_of_eq (weight_regrouped r)
    exact (weight_bin_le op hl hr).1
  cases op with
  | add => exact (eqOrLighter_foldAdd l r).weight_le
  | sub => exact (eqOrLighter_foldSub l r).weight_le
  | mul => exact (eqOrLighter_foldMul l r).weight_le
  | div => exact hquotient rfl
  | ceilDiv => exact hquotient rfl
  | mod => exact (eqOrLighter_foldMod l r).weight_le

theorem eqOrLighter_foldBin (op : BinOp) (hl : l.ProductsLeft) (hr : r.ProductsLeft) :
    EqOrLighter (foldBin op l r) (bin op l r) := by
  have hquotient {op : BinOp} (hop : op.isQuotient = true) :
      EqOrLighter (foldQuotient op l r) (bin op l r) := by
    have h := eqOrLighter_foldQuotient hop l r
    rwa [regrouped, regrouped, hl.ofOperands_eq, hr.ofOperands_eq] at h
  cases op with
  | add => exact eqOrLighter_foldAdd l r
  | sub => exact eqOrLighter_foldSub l r
  | mul => exact eqOrLighter_foldMul l r
  | div => exact hquotient rfl
  | ceilDiv => exact hquotient rfl
  | mod => exact eqOrLighter_foldMod l r

theorem weight_fold_le (e : SymExpr) : e.fold.weight ≤ e.weight := by
  induction e with
  | lit a => exact Nat.le_refl _
  | sym s => exact Nat.le_refl _
  | neg e ih =>
    refine Nat.le_trans (eqOrLighter_foldNeg e.fold).weight_le ?_
    simp only [weight]
    omega
  | bin op l r ihl ihr =>
    exact Nat.le_trans (weight_foldBin_le op l.fold r.fold) (weight_bin_le op ihl ihr).1

/-- Folding does nothing, or it makes the expression lighter. -/
theorem eqOrLighter_fold (h : e.ProductsLeft) : EqOrLighter e.fold e := by
  induction e with
  | lit a => exact .inl rfl
  | sym s => exact .inl rfl
  | neg e ih =>
    rw [fold]
    rcases ih h with heq | hlt
    · rw [heq]
      exact eqOrLighter_foldNeg e
    · have hle := (eqOrLighter_foldNeg e.fold).weight_le
      simp only [weight] at hle
      refine .inr ?_
      simp only [weight]
      omega
  | bin op l r ihl ihr =>
    rw [fold]
    rcases ihl h.1 with hl | hl
    · rcases ihr h.2.1 with hr | hr
      · rw [hl, hr]
        exact eqOrLighter_foldBin op h.1 h.2.1
      · refine .inr (Nat.lt_of_le_of_lt (weight_foldBin_le op l.fold r.fold) ?_)
        exact (weight_bin_le op (weight_fold_le l) (weight_fold_le r)).2 (.inr hr)
    · refine .inr (Nat.lt_of_le_of_lt (weight_foldBin_le op l.fold r.fold) ?_)
      exact (weight_bin_le op (weight_fold_le l) (weight_fold_le r)).2 (.inl hl)

end Folding

end TensorIR.SymExpr
