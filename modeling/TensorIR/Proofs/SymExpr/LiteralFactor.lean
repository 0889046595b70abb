import TensorIR.Proofs.SymExpr.FixedPoint
import TensorIR.Proofs.SymExpr.Quotient

/-!
Simplified expressions times a literal. The literal joins the factors in front, where it merges with
a literal factor that is there already. Main statement: divided by the literal again, rounding up,
the product becomes the expression again unless its literal factor has merged.
-/

namespace TensorIR.SymExpr

section Rest

variable {e e' d : SymExpr}

/-- Rounds leave the expression alone, and so does each of their two steps. -/
structure AtRest (e : SymExpr) : Prop where
  isCanonical : e.IsCanonical
  fold_eq : e.fold = e

theorem AtRest.simplifyRound_eq (h : e.AtRest) : e.simplifyRound = e := by
  rw [simplifyRound, h.isCanonical.canonicalize_eq, h.fold_eq]

theorem AtRest.simplify_eq_of_simplifyRound (h : e'.AtRest) (he : e.simplifyRound = e') :
    e.simplify = e' := by
  apply simplify_of_simplifyRound he
  rw [h.simplifyRound_eq]
  apply same_refl

theorem AtRest.simplify_eq (h : e.AtRest) : e.simplify = e :=
  h.simplify_eq_of_simplifyRound h.simplifyRound_eq

theorem weight_canonicalize_of_same (hd : d.simplify.same d = true) :
    d.canonicalize.weight = d.weight := by
  have hround := weight_eq_of_same (same_simplify_iff.1 hd)
  have hcanonicalize := weight_canonicalize_le d
  have hfold := weight_fold_le d.canonicalize
  rw [simplifyRound] at hround
  omega

/-- An expression that simplification at most reorders comes to rest in canonical form. -/
theorem atRest_canonicalize (hd : d.simplify.same d = true) : d.canonicalize.AtRest := by
  have hround := weight_eq_of_same (same_simplify_iff.1 hd)
  have hcanonicalize := weight_canonicalize_of_same hd
  have hcanonical := (onlyReordered_of_weight d hcanonicalize).isCanonical
  rw [simplifyRound] at hround
  exact ⟨hcanonical, (eqOrLighter_fold hcanonical.productsLeft).eq_of_weight (by omega)⟩

theorem simplify_eq_canonicalize (hd : d.simplify.same d = true) : d.simplify = d.canonicalize :=
  (atRest_canonicalize hd).simplify_eq_of_simplifyRound (atRest_canonicalize hd).fold_eq

end Rest

section Overflow

variable {op : BinOp} {a b l r : SymExpr}

theorem hasOverflow_bin_eq (h : ∀ x y, l = lit x → r ≠ lit y) :
    (bin op l r).hasOverflow = (l.hasOverflow || r.hasOverflow) := by
  cases l with
  | lit x =>
    cases r with
    | lit y => exact absurd rfl (h x y rfl)
    | _ => rfl
  | _ => rfl

theorem hasOverflow_neg_eq (h : ∀ x, a ≠ lit x) : (neg a).hasOverflow = a.hasOverflow := by
  cases a with
  | lit x => exact absurd rfl (h x)
  | _ => rfl

theorem hasOverflow_lits_comm (hop : op.isAssocComm = true) (x y : Int64) :
    (bin op (lit x) (lit y)).hasOverflow = (bin op (lit y) (lit x)).hasOverflow := by
  cases op with
  | add => simp only [hasOverflow, BinOp.fold?, Int64.add?, Int.add_comm]
  | mul => simp only [hasOverflow, BinOp.fold?, Int64.mul?, Int.mul_comm]
  | _ => cases hop

theorem hasOverflow_bin_comm (hop : op.isAssocComm = true) (l r : SymExpr) :
    (bin op l r).hasOverflow = (bin op r l).hasOverflow := by
  by_cases hlits : ∃ x y, l = lit x ∧ r = lit y
  · obtain ⟨x, y, rfl, rfl⟩ := hlits
    exact hasOverflow_lits_comm hop x y
  · rw [hasOverflow_bin_eq fun x y hl hr => hlits ⟨x, y, hl, hr⟩,
      hasOverflow_bin_eq fun x y hr hl => hlits ⟨y, x, hl, hr⟩, Bool.or_comm]

theorem hasOverflow_bin_congr {l' r' : SymExpr} (hl : Same l l') (hr : Same r r')
    (hl' : l.hasOverflow = l'.hasOverflow) (hr' : r.hasOverflow = r'.hasOverflow) :
    (bin op l r).hasOverflow = (bin op l' r').hasOverflow := by
  by_cases hlits : ∃ x y, l = lit x ∧ r = lit y
  · obtain ⟨x, y, rfl, rfl⟩ := hlits
    cases hl
    cases hr
    rfl
  · rw [hasOverflow_bin_eq fun x y hl hr => hlits ⟨x, y, hl, hr⟩, hasOverflow_bin_eq, hl', hr']
    rintro x y rfl rfl
    cases hl
    cases hr
    exact hlits ⟨x, y, rfl, rfl⟩

theorem hasOverflow_mul_lits {x y : Int64} (h : x.mul? y = none) :
    (mul (lit x) (lit y)).hasOverflow = true :=
  Option.isNone_iff_eq_none.2 h

theorem hasOverflow_eq_of_same (h : a.same b = true) : a.hasOverflow = b.hasOverflow := by
  replace h := same_iff_relation.1 h
  induction h with
  | lit x => rfl
  | sym _ => rfl
  | @neg a b h ih =>
    by_cases hlit : ∃ x, a = lit x
    · obtain ⟨x, rfl⟩ := hlit
      cases h
      rfl
    · rw [hasOverflow_neg_eq fun x ha => hlit ⟨x, ha⟩, hasOverflow_neg_eq, ih]
      rintro x rfl
      cases h
      exact hlit ⟨x, rfl⟩
  | straight op hl hr ihl ihr => exact hasOverflow_bin_congr hl hr ihl ihr
  | @crossed op hop l r l' r' hl hr ihl ihr =>
    rw [hasOverflow_bin_comm hop l' r']
    exact hasOverflow_bin_congr hl hr ihl ihr

end Overflow

section Factors

variable {d e x : SymExpr} {es fs xs : List SymExpr} {a k f : Int64}

/-- The product of the factors, grouped to the left. -/
def product (es : List SymExpr) : SymExpr :=
  ofOperands .mul (lit 1) es

theorem productOf_eq (es : List SymExpr) : productOf es = product (sortTerms es) :=
  rfl

structure IsFactor (e : SymExpr) : Prop where
  isCanonical : e.IsCanonical
  operands_eq : e.operands .mul = [e]

theorem isFactor_lit (a : Int64) : (lit a).IsFactor :=
  ⟨⟨canonicalize_lit a, trivial⟩, rfl⟩

theorem operands_product (hes : es ≠ []) (h : ∀ e ∈ es, e.IsFactor) :
    (product es).operands .mul = es :=
  operands_ofOperands_of_terms hes fun e he => (h e he).operands_eq

theorem isCanonical_product (hes : es ≠ []) (h : ∀ e ∈ es, e.IsFactor) (hordered : Ordered es) :
    (product es).IsCanonical := by
  cases es with
  | nil => exact absurd rfl hes
  | cons e es =>
    cases es with
    | nil => exact (h e List.mem_cons_self).isCanonical
    | cons e' es =>
      have hlength : 2 ≤ (e :: e' :: es).length := by simp
      obtain ⟨l, r, hbin, hoperands, hleft⟩ : ∃ l r, product (e :: e' :: es) = bin .mul l r ∧ _ :=
        exists_nest hlength (fun e he => (h e he).isCanonical) fun e he => (h e he).operands_eq
      refine ⟨?_, hbin ▸ hleft⟩
      rw [hbin, canonicalize_mul, hoperands, productOf_eq, hordered.sortTerms_eq, hbin]

/-- The factors in canonical form, and the product that canonicalization makes of them. -/
theorem isFactor_canonicalOperands (h : d.canonicalize.weight = d.weight) :
    d.canonicalize = productOf (canonicalOperands .mul d) ∧
      ∀ a ∈ d.operands .mul, a.canonicalize.weight = a.weight ∧ a.canonicalize.IsFactor := by
  have hfactor {a : SymExpr} (hweight : a.canonicalize.weight = a.weight)
      (hterm : a.operands .mul = [a]) : a.canonicalize.IsFactor :=
    ⟨(onlyReordered_of_weight a hweight).isCanonical,
      (onlyReordered_of_weight a hweight).operands_eq rfl hterm⟩
  by_cases hterm : d.operands .mul = [d]
  · rw [canonicalOperands, hterm]
    refine ⟨rfl, ?_⟩
    rw [List.forall_mem_singleton]
    exact ⟨h, hfactor h hterm⟩
  · have hproduct : d.canonicalize = productOf (canonicalOperands .mul d) := by
      cases d with
      | bin op l r =>
        by_cases hop : op = .mul
        · rw [hop]
          exact canonicalize_mul l r
        · exact absurd (operands_bin_ne hop l r) hterm
      | _ => exact absurd rfl hterm
    refine ⟨hproduct, ?_⟩
    have hne : sortTerms (canonicalOperands .mul d) ≠ [] := by
      rw [← List.length_pos_iff, (sortTerms_perm _).length_eq, canonicalOperands, List.length_map]
      exact List.length_pos_of_ne_nil (operands_ne_nil .mul d)
    have hweight : (productOf (canonicalOperands .mul d)).weight + 2 = _ :=
      weight_ofOperands (by decide) hne
    rw [← hproduct, h, termsWeight_perm (sortTerms_perm _),
      ← termsWeight_operands (show BinOp.mul ≠ .sub by decide)] at hweight
    have hsame := weight_map_eq_of_termsWeight weight_canonicalize_le hweight.symm
    intro a ha
    exact ⟨hsame a ha, hfactor (hsame a ha) (operands_of_mem_operands ha)⟩

theorem value?_eq_none_of_weight (h : 1 < e.weight) : e.value? = none := by
  cases e with
  | lit a => exact absurd h (by simp [weight])
  | _ => rfl

theorem value?_canonicalize (h : e.canonicalize.weight = e.weight) :
    e.canonicalize.value? = e.value? := by
  by_cases hweight : 1 < e.weight
  · rw [value?_eq_none_of_weight hweight, value?_eq_none_of_weight (h ▸ hweight)]
  · cases e with
    | lit a => rw [canonicalize_lit]
    | sym s => rw [canonicalize_sym]
    | neg e =>
      have := weight_pos e
      simp only [weight] at hweight
      omega
    | bin op l r => exact absurd (weight_lt_weight_bin op l r).2.2 hweight

theorem exists_lit_of_isSome_value? (h : e.value?.isSome = true) : ∃ a, e = lit a := by
  cases e with
  | lit a => exact ⟨a, rfl⟩
  | _ => cases h

theorem insertTerm_append (hfs : ∀ e ∈ fs, e.value?.isSome = true) (hx : x.value? = none)
    (xs : List SymExpr) : insertTerm x (fs ++ xs) = fs ++ insertTerm x xs := by
  induction fs with
  | nil => rfl
  | cons e fs ih =>
    rw [List.forall_mem_cons] at hfs
    obtain ⟨a, rfl⟩ := exists_lit_of_isSome_value? hfs.1
    have hprecedes : x.precedes (lit a) = false := by
      cases x with
      | lit b => cases hx
      | _ => rfl
    rw [List.cons_append, insertTerm, hprecedes, if_neg Bool.false_ne_true, ih hfs.2]
    rfl

/-- Sorting brings the literals to the front and leaves them in their order. -/
theorem sortTerms_eq_append (es : List SymExpr) :
    sortTerms es = es.filter (·.value?.isSome) ++ sortTerms (es.filter (·.value?.isNone)) := by
  induction es with
  | nil => rfl
  | cons e es ih =>
    cases e with
    | lit a =>
      rw [sortTerms_lit_cons, ih]
      rfl
    | _ =>
      rw [sortTerms, ih, insertTerm_append (fun e he => (List.mem_filter.1 he).2) rfl]
      rfl

theorem ordered_lit_cons (k : Int64) (h : Ordered xs) : Ordered (lit k :: xs) := by
  cases xs with
  | nil => exact .singleton _
  | cons x xs => exact .cons_cons rfl h

/-- Factors in order that are no literals and do not fold. -/
structure PlainFactors (xs : List SymExpr) : Prop where
  isFactor : ∀ x ∈ xs, x.IsFactor
  fold_eq : ∀ x ∈ xs, x.fold = x
  value?_eq : ∀ x ∈ xs, x.value? = none
  ordered : Ordered xs

theorem foldMul_eq_mul (hzero : e.isLit 0 = false) (hone : e.isLit 1 = false)
    (hx : x.value? = none) : foldMul e x = mul e x := by
  have hlit (a : Int64) : x.isLit a = false := by
    cases x with
    | lit b => cases hx
    | _ => rfl
  have hlits : foldLits .mul e x = none := by
    cases x with
    | lit b => cases hx
    | _ => cases e <;> rfl
  simp [foldMul, hzero, hone, hlit, hlits]

theorem foldl_foldMul_eq (hzero : e.isLit 0 = false) (hone : e.isLit 1 = false)
    (hxs : ∀ x ∈ xs, x.value? = none) : xs.foldl foldMul e = xs.foldl mul e := by
  induction xs generalizing e with
  | nil => rfl
  | cons x xs ih =>
    rw [List.forall_mem_cons] at hxs
    rw [List.foldl_cons, List.foldl_cons, foldMul_eq_mul hzero hone hxs.1]
    exact ih rfl rfl hxs.2

theorem foldMul_one (e : SymExpr) : foldMul e (lit 1) = e := by
  unfold foldMul
  split
  case isTrue h =>
    rw [Bool.or_eq_true] at h
    exact (eq_lit_of_isLit (h.resolve_right (by decide))).symm
  case isFalse =>
    split
    case isTrue h => exact (eq_lit_of_isLit h).symm
    case isFalse => rfl

theorem one_foldMul (e : SymExpr) : foldMul (lit 1) e = e := by
  unfold foldMul
  split
  case isTrue h =>
    rw [Bool.or_eq_true] at h
    exact (eq_lit_of_isLit (h.resolve_left (by decide))).symm
  case isFalse => rfl

theorem fold_product (h : ∀ e ∈ es, e.fold = e) :
    (product es).fold = es.foldl foldMul (lit 1) := by
  cases es with
  | nil => rfl
  | cons e es =>
    rw [List.forall_mem_cons] at h
    rw [product, ofOperands, fold_foldl h.2, h.1, List.foldl_cons, one_foldMul]
    rfl

namespace PlainFactors

variable (h : PlainFactors xs)
include h

theorem isCanonical_lit (k : Int64) : (product (lit k :: xs)).IsCanonical := by
  apply isCanonical_product (List.cons_ne_nil _ _)
  · exact List.forall_mem_cons.2 ⟨isFactor_lit k, h.isFactor⟩
  · exact ordered_lit_cons k h.ordered

theorem fold_lit_cons (k : Int64) :
    (product (lit k :: xs)).fold = xs.foldl foldMul (lit k) := by
  rw [fold_product, List.foldl_cons, one_foldMul]
  exact List.forall_mem_cons.2 ⟨rfl, h.fold_eq⟩

theorem fold_lits_cons (k f : Int64) :
    (product (lit k :: lit f :: xs)).fold = xs.foldl foldMul (foldMul (lit k) (lit f)) := by
  rw [fold_product, List.foldl_cons, one_foldMul, List.foldl_cons]
  exact List.forall_mem_cons.2 ⟨rfl, List.forall_mem_cons.2 ⟨rfl, h.fold_eq⟩⟩

theorem atRest_lit (hzero : k ≠ 0) (hone : k ≠ 1) : (product (lit k :: xs)).AtRest := by
  refine ⟨h.isCanonical_lit k, ?_⟩
  rw [h.fold_lit_cons]
  exact foldl_foldMul_eq (beq_eq_false_iff_ne.2 hzero) (beq_eq_false_iff_ne.2 hone) h.value?_eq

/-- Two literals whose product leaves the range stay side by side. -/
theorem atRest_lits (hoverflow : k.mul? f = none) : (product (lit k :: lit f :: xs)).AtRest := by
  constructor
  · apply isCanonical_product (List.cons_ne_nil _ _)
    · exact List.forall_mem_cons.2 ⟨isFactor_lit k,
        List.forall_mem_cons.2 ⟨isFactor_lit f, h.isFactor⟩⟩
    · exact ordered_lit_cons k (ordered_lit_cons f h.ordered)
  · rw [h.fold_lits_cons, foldMul_lits, hoverflow]
    exact foldl_foldMul_eq rfl rfl h.value?_eq

end PlainFactors

theorem fold_bin_eq {op : BinOp} {l r : SymExpr} (hleft : (bin op l r).ProductsLeft)
    (h : (bin op l r).fold = bin op l r) :
    l.fold = l ∧ r.fold = r ∧ foldBin op l r = bin op l r := by
  have hweight := weight_foldBin_le op l.fold r.fold
  rw [fold] at h
  have hl : l.fold = l := by
    rcases eqOrLighter_fold hleft.1 with hl | hl
    · exact hl
    · have := (weight_bin_le op (weight_fold_le l) (weight_fold_le r)).2 (.inl hl)
      rw [h] at hweight
      omega
  have hr : r.fold = r := by
    rcases eqOrLighter_fold hleft.2.1 with hr | hr
    · exact hr
    · have := (weight_bin_le op (weight_fold_le l) (weight_fold_le r)).2 (.inr hr)
      rw [h] at hweight
      omega
  rw [hl, hr] at h
  exact ⟨hl, hr, h⟩

/-- Where a product does not fold, neither do its factors, nor the product of the first of them. -/
theorem fold_foldl_mul_eq (hleft : (es.foldl mul e).ProductsLeft)
    (h : (es.foldl mul e).fold = es.foldl mul e) :
    e.ProductsLeft ∧ e.fold = e ∧ ∀ d ∈ es, d.fold = d := by
  induction es generalizing e with
  | nil => exact ⟨hleft, h, by simp⟩
  | cons d es ih =>
    obtain ⟨hleft, hfold, hes⟩ := ih hleft h
    obtain ⟨he, hd, _⟩ := fold_bin_eq hleft hfold
    exact ⟨hleft.1, he, List.forall_mem_cons.2 ⟨hd, hes⟩⟩

theorem AtRest.fold_eq_of_product (h : (product es).AtRest) : ∀ e ∈ es, e.fold = e := by
  cases es with
  | nil => simp
  | cons e es =>
    obtain ⟨_, he, hes⟩ := fold_foldl_mul_eq h.isCanonical.productsLeft h.fold_eq
    exact List.forall_mem_cons.2 ⟨he, hes⟩

theorem AtRest.foldMul_eq_of_product (h : (product (d :: e :: es)).AtRest) :
    foldMul d e = mul d e := by
  obtain ⟨hleft, hfold, _⟩ := fold_foldl_mul_eq (e := mul d e) h.isCanonical.productsLeft h.fold_eq
  exact (fold_bin_eq hleft hfold).2.2

theorem hasOverflow_foldl (h : e.hasOverflow = true) (es : List SymExpr) :
    (es.foldl mul e).hasOverflow = true := by
  induction es generalizing e with
  | nil => exact h
  | cons d es ih => exact ih (hasOverflow_bin (.inl h))

theorem eq_lit_of_value? (h : e.value? = some a) : e = lit a := by
  cases e with
  | lit b => rw [Option.some.inj h]
  | _ => cases h

theorem foldMul_lit_eq_mul (hx : x.value? = none) (h : foldMul (lit k) x = mul (lit k) x) :
    k ≠ 0 ∧ k ≠ 1 := by
  constructor
  · rintro rfl
    cases h
  · rintro rfl
    have hone : foldMul (lit 1) x = x := by
      cases x with
      | lit b => cases hx
      | _ => rfl
    have hweight := congrArg weight (hone.symm.trans h)
    simp only [weight] at hweight
    omega

/-- The literals among the factors in canonical form. -/
def litFactors (d : SymExpr) : List SymExpr :=
  (canonicalOperands .mul d).filter (·.value?.isSome)

/-- The other factors in canonical form, in order. -/
def plainFactors (d : SymExpr) : List SymExpr :=
  sortTerms ((canonicalOperands .mul d).filter (·.value?.isNone))

theorem canonicalize_mul_lit (d : SymExpr) (f : Int64) :
    (mul d (lit f)).canonicalize = product (d.litFactors ++ lit f :: d.plainFactors) := by
  have hoperands :
      canonicalOperands .mul (mul d (lit f)) = canonicalOperands .mul d ++ [lit f] := by
    rw [canonicalOperands, operands_bin_self, List.map_append]
    exact congrArg (canonicalOperands .mul d ++ [·]) (canonicalize_lit f)
  have hsort : sortTerms (canonicalOperands .mul d ++ [lit f]) =
      d.litFactors ++ lit f :: d.plainFactors := by
    rw [sortTerms_eq_append, List.filter_append, List.filter_append, List.append_assoc]
    simp [value?, litFactors, plainFactors]
  rw [canonicalize_mul, ← hsort, ← productOf_eq, ← hoperands]
  rfl

theorem mem_factors_iff : e ∈ d.litFactors ++ d.plainFactors ↔ e ∈ canonicalOperands .mul d := by
  rw [litFactors, plainFactors, ← sortTerms_eq_append, (sortTerms_perm _).mem_iff]

section Simplified

variable (hd : d.simplify.same d = true)
include hd

theorem canonicalize_eq_product : d.canonicalize = product (d.litFactors ++ d.plainFactors) := by
  rw [(isFactor_canonicalOperands (weight_canonicalize_of_same hd)).1, productOf_eq,
    sortTerms_eq_append]
  rfl

theorem exists_operand_of_mem (he : e ∈ d.litFactors ++ d.plainFactors) :
    ∃ a ∈ d.operands .mul, a.value? = e.value? ∧ e.IsFactor := by
  rw [mem_factors_iff, canonicalOperands, List.mem_map] at he
  obtain ⟨a, ha, rfl⟩ := he
  have hoperand := (isFactor_canonicalOperands (weight_canonicalize_of_same hd)).2 a ha
  exact ⟨a, ha, (value?_canonicalize hoperand.1).symm, hoperand.2⟩

theorem atRest_product : (product (d.litFactors ++ d.plainFactors)).AtRest := by
  rw [← canonicalize_eq_product hd]
  exact atRest_canonicalize hd

theorem plainFactors_plainFactors : PlainFactors d.plainFactors where
  isFactor x hx := by
    obtain ⟨_, _, _, hfactor⟩ := exists_operand_of_mem hd (List.mem_append_right d.litFactors hx)
    exact hfactor
  fold_eq x hx := (atRest_product hd).fold_eq_of_product x (List.mem_append_right _ hx)
  value?_eq x hx := by
    rw [plainFactors, (sortTerms_perm _).mem_iff, List.mem_filter] at hx
    exact Option.isNone_iff_eq_none.1 hx.2
  ordered := ordered_sortTerms _

theorem litFactors_eq_nil_iff :
    d.litFactors = [] ↔ ∀ a ∈ d.operands .mul, a.value? = none := by
  rw [litFactors, canonicalOperands, List.filter_eq_nil_iff, List.forall_mem_map]
  apply forall₂_congr
  intro a ha
  have hoperand := (isFactor_canonicalOperands (weight_canonicalize_of_same hd)).2 a ha
  rw [value?_canonicalize hoperand.1, Option.not_isSome_iff_eq_none]

/-- Two literals among the factors would have merged. -/
theorem litFactors_eq (hoverflow : d.hasOverflow = false) (hne : d.litFactors ≠ []) :
    ∃ k, d.litFactors = [lit k] := by
  have hrest := atRest_product hd
  have hsame := hd
  rw [simplify_eq_canonicalize hd] at hsame
  rw [← hasOverflow_eq_of_same hsame, canonicalize_eq_product hd] at hoverflow
  have hlits : ∀ e ∈ d.litFactors, ∃ k, e = lit k := fun e he =>
    exists_lit_of_isSome_value? (List.mem_filter.1 he).2
  revert hlits hrest hoverflow hne
  generalize d.litFactors = fs
  intro hoverflow hne hrest hlits
  match fs with
  | [] => exact absurd rfl hne
  | [e] =>
    obtain ⟨k, rfl⟩ := hlits e List.mem_cons_self
    exact ⟨k, rfl⟩
  | e :: e' :: fs =>
    obtain ⟨k, rfl⟩ := hlits e List.mem_cons_self
    obtain ⟨k', rfl⟩ := hlits e' (List.mem_cons_of_mem _ List.mem_cons_self)
    have hmul : foldMul (lit k) (lit k') = mul (lit k) (lit k') := hrest.foldMul_eq_of_product
    have hleaves : (mul (lit k) (lit k')).hasOverflow = true := by
      rw [foldMul_lits] at hmul
      cases hproduct : k.mul? k' with
      | none => exact hasOverflow_mul_lits hproduct
      | some p =>
        rw [hproduct] at hmul
        cases hmul
    have hleaves' : (product (lit k :: lit k' :: (fs ++ d.plainFactors))).hasOverflow = true :=
      hasOverflow_foldl hleaves _
    rw [List.cons_append, List.cons_append, hleaves'] at hoverflow
    cases hoverflow

theorem eq_lit_iff_plainFactors (hk : d.litFactors = [lit k]) :
    d = lit k ↔ d.plainFactors = [] := by
  constructor
  · rintro rfl
    simp [plainFactors, canonicalOperands, operands, value?, sortTerms]
  · intro hnil
    have hcanonicalize := canonicalize_eq_product hd
    rw [hk, hnil] at hcanonicalize
    apply eq_lit_of_value?
    rw [← value?_canonicalize (weight_canonicalize_of_same hd), hcanonicalize]
    rfl

theorem ne_zero_and_ne_one (hk : d.litFactors = [lit k]) (hne : d.plainFactors ≠ []) :
    k ≠ 0 ∧ k ≠ 1 := by
  have hrest := atRest_product hd
  have hplain := plainFactors_plainFactors hd
  rw [hk] at hrest
  revert hrest hplain hne
  generalize d.plainFactors = xs
  intro hne hrest hplain
  cases xs with
  | nil => exact absurd rfl hne
  | cons x xs => exact foldMul_lit_eq_mul (hplain.value?_eq x (by simp)) hrest.foldMul_eq_of_product

end Simplified

end Factors

section Quotients

variable {d : SymExpr} {ns xs : List SymExpr} {a k f : Int64}

theorem cancelFactors_nil (ns : List SymExpr) : cancelFactors ns [] = (ns, []) := by
  induction ns with
  | nil => rfl
  | cons n ns ih => simp [cancelFactors, ih]

theorem cancelFactors_of_not_same (h : ∀ n ∈ ns, n.same (lit f) = false) :
    cancelFactors ns [lit f] = (ns, [lit f]) := by
  induction ns with
  | nil => rfl
  | cons n ns ih =>
    rw [List.forall_mem_cons] at h
    simp [cancelFactors, h.1, ih h.2]

theorem removeCommonFactors_of_not_same (hns : (product ns).operands .mul = ns)
    (h : ∀ n ∈ ns, n.same (lit f) = false) :
    removeCommonFactors (product ns) (lit f) = (product ns, lit f) := by
  have hlit : (lit f).operands .mul = [lit f] := rfl
  rw [removeCommonFactors, hns, hlit, cancelFactors_of_not_same h]
  rfl

theorem foldQuotient_lit_self (hf : f ≠ 0)
    (hxs : (product (lit f :: xs)).operands .mul = lit f :: xs) :
    foldQuotient .ceilDiv (product (lit f :: xs)) (lit f) = product xs := by
  have hremove : removeCommonFactors (product (lit f :: xs)) (lit f) = (product xs, lit 1) := by
    have hlit : (lit f).operands .mul = [lit f] := rfl
    have hcancel : cancelFactors (lit f :: xs) [lit f] = (xs, []) := by
      simp [cancelFactors, same, isLit, hf, cancelFactors_nil]
    rw [removeCommonFactors, hxs, hlit, hcancel]
    rfl
  rw [foldQuotient, hremove]
  rfl

theorem foldQuotient_one (hns : (product ns).operands .mul = ns)
    (h : ∀ n ∈ ns, n.same (lit 1) = false) :
    foldQuotient .ceilDiv (product ns) (lit 1) = product ns := by
  rw [foldQuotient, removeCommonFactors_of_not_same hns h]
  rfl

/-- A product is divided as a whole by a literal that is none of its factors. -/
theorem foldQuotient_of_not_same (hlength : 2 ≤ ns.length) (hns : (product ns).operands .mul = ns)
    (h : ∀ n ∈ ns, n.same (lit f) = false) (hf : f ≠ 1) :
    foldQuotient .ceilDiv (product ns) (lit f) = ceilDiv (product ns) (lit f) := by
  rw [foldQuotient, removeCommonFactors_of_not_same hns h]
  obtain ⟨l, r, hbin⟩ : ∃ l r, product ns = mul l r := exists_ofOperands_eq_bin hlength
  have hmerge : mergeQuotients .ceilDiv (mul l r) (lit f) = none := by
    cases r <;> simp [mergeQuotients]
  simp [hbin, isLit, hf, foldLits, hmerge]

theorem AtRest.simplifyRound_ceilDiv {e : SymExpr} (h : e.AtRest) (f : Int64) :
    (ceilDiv e (lit f)).simplifyRound = foldQuotient .ceilDiv e (lit f) := by
  rw [simplifyRound, canonicalize_ceilDiv, h.isCanonical.canonicalize_eq, canonicalize_lit, fold,
    h.fold_eq]
  rfl

theorem AtRest.atRest_ceilDiv {e : SymExpr} (h : e.AtRest)
    (hfold : foldQuotient .ceilDiv e (lit f) = ceilDiv e (lit f)) : (ceilDiv e (lit f)).AtRest := by
  refine ⟨⟨?_, h.isCanonical.productsLeft, trivial, nofun⟩, ?_⟩
  · rw [canonicalize_ceilDiv, h.isCanonical.canonicalize_eq, canonicalize_lit]
  · rw [fold, h.fold_eq]
    exact hfold

theorem not_same_lit_of_value? {e : SymExpr} (h : e.value? = none) (f : Int64) :
    e.same (lit f) = false := by
  cases e with
  | lit b => cases h
  | _ => rfl

section Simplified

variable (hd : d.simplify.same d = true)
include hd

omit hd in
theorem factors_ne_nil (d : SymExpr) : d.litFactors ++ d.plainFactors ≠ [] := by
  rw [litFactors, plainFactors, ← sortTerms_eq_append, ← List.length_pos_iff,
    (sortTerms_perm _).length_eq, canonicalOperands, List.length_map]
  exact List.length_pos_of_ne_nil (operands_ne_nil .mul d)

theorem isFactor_of_mem {e : SymExpr} (he : e ∈ d.litFactors ++ d.plainFactors) : e.IsFactor := by
  obtain ⟨_, _, _, hfactor⟩ := exists_operand_of_mem hd he
  exact hfactor

theorem operands_lit_cons (k : Int64) :
    (product (lit k :: d.plainFactors)).operands .mul = lit k :: d.plainFactors := by
  apply operands_product (List.cons_ne_nil _ _)
  exact List.forall_mem_cons.2 ⟨isFactor_lit k, (plainFactors_plainFactors hd).isFactor⟩

theorem simplify_mul_one : (mul d (lit 1)).simplify = d.canonicalize := by
  apply (atRest_canonicalize hd).simplify_eq_of_simplifyRound
  have hfold := (atRest_product hd).fold_eq_of_product
  have hfold' : ∀ e ∈ d.litFactors ++ lit 1 :: d.plainFactors, e.fold = e := by
    rw [List.forall_mem_append] at hfold ⊢
    exact ⟨hfold.1, List.forall_mem_cons.2 ⟨rfl, hfold.2⟩⟩
  rw [simplifyRound, canonicalize_mul_lit, canonicalize_eq_product hd,
    ← (atRest_product hd).fold_eq, fold_product hfold, fold_product hfold', List.foldl_append,
    List.foldl_append, List.foldl_cons, foldMul_one]

theorem simplify_mul_lit_of_plain (hnil : d.litFactors = []) (hzero : f ≠ 0) (hone : f ≠ 1) :
    (mul d (lit f)).simplify = product (lit f :: d.plainFactors) := by
  have hrest := (plainFactors_plainFactors hd).atRest_lit hzero hone
  apply hrest.simplify_eq_of_simplifyRound
  rw [simplifyRound, canonicalize_mul_lit, hnil]
  exact hrest.fold_eq

omit hd in
theorem mul?_ne (hzero : k ≠ 0) (hone : k ≠ 1) (hf : 1 < f) {p : Int64} (hp : k.mul? f = some p) :
    p ≠ 0 ∧ p ≠ 1 ∧ p ≠ f := by
  have hproduct := Int64.mul?_eq_some_iff.1 hp
  simp only [← Int64.toInt_inj, ne_eq, Int64.toInt_zero, Int64.toInt_one] at hzero hone ⊢
  rw [Int64.lt_iff_toInt_lt, Int64.toInt_one] at hf
  refine ⟨?_, ?_, ?_⟩
  · intro h
    rcases Int.mul_eq_zero.1 (hproduct.symm.trans h) with h | h
    · exact hzero h
    · omega
  · intro h
    have hunit : f.toInt ∣ 1 := ⟨k.toInt, by rw [Int.mul_comm, ← hproduct, h]⟩
    have := Int.le_of_dvd (by decide) hunit
    omega
  · intro h
    rw [h] at hproduct
    have hcancel : 1 * f.toInt = k.toInt * f.toInt := by rw [Int.one_mul, ← hproduct]
    exact hone (Int.eq_of_mul_eq_mul_right (by omega) hcancel).symm

/-- The literal merges with the literal factor, unless their product leaves the range. -/
theorem simplify_mul_lit_of_scaled (hk : d.litFactors = [lit k]) (hzero : k ≠ 0) (hone : k ≠ 1)
    (hf : 1 < f) :
    (mul d (lit f)).simplify.hasOverflow = true ∨
      ∃ p, p ≠ 0 ∧ p ≠ 1 ∧ p ≠ f ∧
        (mul d (lit f)).simplify = product (lit p :: d.plainFactors) := by
  have hplain := plainFactors_plainFactors hd
  have hround : (mul d (lit f)).simplifyRound =
      d.plainFactors.foldl foldMul (((k.mul? f).map lit).getD (mul (lit k) (lit f))) := by
    rw [simplifyRound, canonicalize_mul_lit, hk, ← foldMul_lits, ← hplain.fold_lits_cons]
    rfl
  cases hp : k.mul? f with
  | none =>
    have hrest := hplain.atRest_lits hp
    left
    rw [hp] at hround
    rw [hrest.simplify_eq_of_simplifyRound]
    · exact hasOverflow_foldl (hasOverflow_mul_lits hp) _
    · rw [hround]
      exact foldl_foldMul_eq rfl rfl hplain.value?_eq
  | some p =>
    obtain ⟨hp0, hp1, hpf⟩ := mul?_ne hzero hone hf hp
    have hrest := hplain.atRest_lit hp0 hp1
    refine .inr ⟨p, hp0, hp1, hpf, hrest.simplify_eq_of_simplifyRound ?_⟩
    rw [hround, hp, ← hrest.fold_eq, hplain.fold_lit_cons]
    rfl

theorem simplify_ceilDiv_one (hoverflow : d.hasOverflow = false) (hlit : ∀ k, d ≠ lit k) :
    (ceilDiv d.canonicalize (lit 1)).simplify = d.canonicalize := by
  have hrest := atRest_canonicalize hd
  apply hrest.simplify_eq_of_simplifyRound
  rw [hrest.simplifyRound_ceilDiv, canonicalize_eq_product hd]
  apply foldQuotient_one (operands_product (factors_ne_nil d) fun e he => isFactor_of_mem hd he)
  rw [List.forall_mem_append]
  constructor
  · -- A literal factor is not one: it would have been dropped.
    intro e he
    obtain ⟨k, hk⟩ := litFactors_eq hd hoverflow (List.ne_nil_of_mem he)
    have hne : d.plainFactors ≠ [] := mt (eq_lit_iff_plainFactors hd hk).2 (hlit k)
    rw [hk, List.mem_singleton] at he
    rw [he]
    exact beq_eq_false_iff_ne.2 (ne_zero_and_ne_one hd hk hne).2
  · intro e he
    exact not_same_lit_of_value? ((plainFactors_plainFactors hd).value?_eq e he) 1

theorem simplify_ceilDiv_of_plain (hnil : d.litFactors = []) (hzero : f ≠ 0) (hone : f ≠ 1) :
    (ceilDiv (mul d (lit f)).simplify (lit f)).simplify = d.canonicalize := by
  have hrest := (plainFactors_plainFactors hd).atRest_lit hzero hone
  apply (atRest_canonicalize hd).simplify_eq_of_simplifyRound
  rw [simplify_mul_lit_of_plain hd hnil hzero hone, hrest.simplifyRound_ceilDiv,
    foldQuotient_lit_self hzero (operands_lit_cons hd f), canonicalize_eq_product hd, hnil]
  rfl

/-- A literal that has merged is not found among the factors, so the quotient stays. -/
theorem not_same_ceilDiv_of_scaled {p : Int64} (hk : d.litFactors = [lit k])
    (hne : d.plainFactors ≠ []) (hp0 : p ≠ 0) (hp1 : p ≠ 1) (hpf : p ≠ f) (hf : f ≠ 1) :
    (ceilDiv (product (lit p :: d.plainFactors)) (lit f)).simplify.same d = false := by
  have hplain := plainFactors_plainFactors hd
  have hrest := hplain.atRest_lit hp0 hp1
  have hstays : foldQuotient .ceilDiv (product (lit p :: d.plainFactors)) (lit f) =
      ceilDiv (product (lit p :: d.plainFactors)) (lit f) := by
    apply foldQuotient_of_not_same _ (operands_lit_cons hd p) _ hf
    · have := List.length_pos_iff.2 hne
      rw [List.length_cons]
      omega
    · refine List.forall_mem_cons.2 ⟨beq_eq_false_iff_ne.2 hpf, ?_⟩
      exact fun x hx => not_same_lit_of_value? (hplain.value?_eq x hx) f
  rw [(hrest.atRest_ceilDiv hstays).simplify_eq, ← Bool.not_eq_true]
  intro hsame
  -- The literals weigh the same, and the quotient adds to the weight.
  have hweight := weight_eq_of_same hsame
  have hp : (product (lit p :: d.plainFactors)).weight + 2 = _ :=
    weight_ofOperands (by decide) (List.cons_ne_nil _ _)
  have hd' : (product (lit k :: d.plainFactors)).weight + 2 = _ :=
    weight_ofOperands (by decide) (List.cons_ne_nil _ _)
  rw [← weight_canonicalize_of_same hd, canonicalize_eq_product hd, hk] at hweight
  simp only [weight, termsWeight, List.singleton_append] at hweight hp hd'
  omega

end Simplified

/-- A literal is divided by the literal that it was multiplied with. -/
theorem simplify_ceilDiv_mul_lits (hf : 0 < f)
    (hoverflow : (mul (lit k) (lit f)).simplify.hasOverflow = false) :
    (ceilDiv (mul (lit k) (lit f)).simplify (lit f)).simplify = lit k := by
  rw [simplify_mul_lits] at hoverflow ⊢
  cases hp : k.mul? f with
  | none =>
    rw [hp, Option.map_none, Option.getD_none, hasOverflow_mul_lits hp] at hoverflow
    cases hoverflow
  | some p =>
    rw [Option.map_some, Option.getD_some]
    obtain ⟨c, hc⟩ := exists_simplify_ceilDiv_lits hf p
    have hf0 : f.toInt ≠ 0 := Int.ne_of_gt (Int64.lt_iff_toInt_lt.1 hf)
    have hvalue : (ceilDiv (lit p) (lit f)).eval? (fun _ => 0) = some k.toInt := by
      apply eval?_ceilDiv_eq_some_iff.2
      refine ⟨_, _, rfl, rfl, hf0, ?_⟩
      rw [Int64.mul?_eq_some_iff.1 hp, ← Int.neg_mul, Int.mul_fdiv_cancel _ hf0, Int.neg_neg]
    have := eval?_simplify hvalue
    rw [hc, eval?, Option.some.injEq, Int64.toInt_inj] at this
    rw [hc, this]

/--
Multiplied by a positive literal and divided by it again, rounding up, a simplified expression is
the same again exactly if the literal is one, or the expression is a literal or a product without a
literal factor.
-/
theorem same_ceilDiv_mul_iff (hf : 0 < f) (hd : d.simplify.same d = true)
    (hoverflow : d.hasOverflow = false)
    (hoverflow' : (mul d (lit f)).simplify.hasOverflow = false) :
    (ceilDiv (mul d (lit f)).simplify (lit f)).simplify.same d = true ↔
      f = 1 ∨ (∃ k, d = lit k) ∨ ∀ a ∈ d.operands .mul, a.value? = none := by
  have hsame := hd
  rw [simplify_eq_canonicalize hd] at hsame
  by_cases hlit : ∃ k, d = lit k
  · obtain ⟨k, rfl⟩ := hlit
    rw [simplify_ceilDiv_mul_lits hf hoverflow']
    simp [same]
  by_cases hone : f = 1
  · subst hone
    rw [simplify_mul_one hd, simplify_ceilDiv_one hd hoverflow fun k hk => hlit ⟨k, hk⟩, hsame]
    simp
  rw [← litFactors_eq_nil_iff hd, or_iff_right hone, or_iff_right hlit]
  rw [Int64.lt_iff_toInt_lt, Int64.toInt_zero] at hf
  by_cases hnil : d.litFactors = []
  · have hzero : f ≠ 0 := by
      rintro rfl
      exact absurd hf (by decide)
    rw [simplify_ceilDiv_of_plain hd hnil hzero hone, hsame]
    exact iff_of_true rfl hnil
  · obtain ⟨k, hk⟩ := litFactors_eq hd hoverflow hnil
    have hne : d.plainFactors ≠ [] := fun hne =>
      hlit ⟨k, (eq_lit_iff_plainFactors hd hk).2 hne⟩
    obtain ⟨hk0, hk1⟩ := ne_zero_and_ne_one hd hk hne
    have hf1 : 1 < f := by
      rw [← Int64.toInt_inj, Int64.toInt_one] at hone
      rw [Int64.lt_iff_toInt_lt, Int64.toInt_one]
      omega
    obtain hleaves | ⟨p, hp0, hp1, hpf, hp⟩ := simplify_mul_lit_of_scaled hd hk hk0 hk1 hf1
    · rw [hleaves] at hoverflow'
      cases hoverflow'
    · rw [hp, not_same_ceilDiv_of_scaled hd hk hne hp0 hp1 hpf hone]
      exact iff_of_false Bool.false_ne_true hnil

end Quotients

end TensorIR.SymExpr
