import TensorIR.Proofs.SymExpr.Constant

/-!
Quotients of constants by positive literals. A product of two literals that leaves the range is
divided by its factors only. The places of a window are counted by such a quotient; they are a
literal unless an overflow is left over.
-/

namespace TensorIR

namespace SymExpr

section Products

variable {a b f : Int64}

theorem foldMul_lits (a b : Int64) :
    foldMul (lit a) (lit b) = ((a.mul? b).map lit).getD (mul (lit a) (lit b)) := by
  have hfold {c : Int64} (h : c.toInt = a.toInt * b.toInt) : a.mul? b = some c :=
    Int64.mul?_eq_some_iff.2 h
  simp only [foldMul, isLit, Bool.or_eq_true, beq_iff_eq]
  split
  case isTrue h =>
    have hzero : a.mul? b = some 0 := by
      apply hfold
      rcases h with rfl | rfl
      · simp
      · simp
    rw [hzero]
    rfl
  case isFalse =>
    split
    case isTrue h =>
      rw [hfold (c := b) (by simp [h])]
      rfl
    case isFalse =>
      split
      case isTrue h =>
        rw [hfold (c := a) (by simp [h])]
        rfl
      case isFalse => rfl

theorem canonicalize_mul_lits (a b : Int64) :
    (mul (lit a) (lit b)).canonicalize = mul (lit a) (lit b) := by
  rw [canonicalize_mul]
  change productOf [(lit a).canonicalize, (lit b).canonicalize] = _
  rw [canonicalize_lit, canonicalize_lit]
  rfl

theorem simplifyRound_mul_lits (a b : Int64) :
    (mul (lit a) (lit b)).simplifyRound = ((a.mul? b).map lit).getD (mul (lit a) (lit b)) := by
  rw [simplifyRound, canonicalize_mul_lits, ← foldMul_lits]
  rfl

theorem simplifyRound_mul_lits_of_overflow (h : a.mul? b = none) :
    (mul (lit a) (lit b)).simplifyRound = mul (lit a) (lit b) := by
  rw [simplifyRound_mul_lits, h]
  rfl

theorem simplify_of_simplifyRound_lit {e : SymExpr} {c : Int64} (h : e.simplifyRound = lit c) :
    e.simplify = lit c := by
  apply simplify_of_simplifyRound h
  rw [(isTerm_lit c).simplifyRound_eq]
  apply same_refl

/-- The product of two literals stays as it is only where it leaves the range. -/
theorem simplify_mul_lits (a b : Int64) :
    (mul (lit a) (lit b)).simplify = ((a.mul? b).map lit).getD (mul (lit a) (lit b)) := by
  cases h : a.mul? b with
  | none =>
    have hround := simplifyRound_mul_lits_of_overflow h
    apply simplify_of_simplifyRound hround
    rw [hround]
    apply same_refl
  | some c =>
    apply simplify_of_simplifyRound_lit
    rw [simplifyRound_mul_lits, h]
    rfl

theorem removeCommonFactors_mul_lits (hf : f ≠ 0) :
    removeCommonFactors (mul (lit a) (lit b)) (lit f) =
      if a = f then (lit b, lit 1)
      else if b = f then (lit a, lit 1)
      else (mul (lit a) (lit b), lit f) := by
  by_cases ha : a = f
  · simp [removeCommonFactors, operands, cancelFactors, same, isLit, ha, hf, ofOperands]
  · by_cases hb : b = f
    · simp [removeCommonFactors, operands, cancelFactors, same, isLit, ha, hb, hf, ofOperands]
    · simp [removeCommonFactors, operands, cancelFactors, same, ha, hb, ofOperands]

variable {op : BinOp} (hop : op.isQuotient = true)
include hop

/-- A product of literals is divided by each of its factors, and by no other literal. -/
theorem foldQuotient_mul_lits (hf : f ≠ 0) :
    foldQuotient op (mul (lit a) (lit b)) (lit f) =
      if a = f then lit b
      else if b = f then lit a
      else if f = 1 then mul (lit a) (lit b)
      else bin op (mul (lit a) (lit b)) (lit f) := by
  have hmerge : mergeQuotients op (mul (lit a) (lit b)) (lit f) = none := by
    cases op with
    | div => simp [mergeQuotients]
    | ceilDiv => simp [mergeQuotients]
    | _ => cases hop
  unfold foldQuotient
  rw [removeCommonFactors_mul_lits hf]
  by_cases ha : a = f
  · rw [if_pos ha, if_pos ha]
    rfl
  · rw [if_neg ha, if_neg ha]
    by_cases hb : b = f
    · rw [if_pos hb, if_pos hb]
      rfl
    · rw [if_neg hb, if_neg hb]
      simp only [isLit, beq_iff_eq, foldLits, hmerge, Option.getD_none]

theorem exists_foldQuotient_lits (hdivide : a.canDivide f = true) :
    ∃ c, foldQuotient op (lit a) (lit f) = lit c := by
  have hf0 := (Int64.canDivide_iff.1 hdivide).1
  have hremove : removeCommonFactors (lit a) (lit f) =
      if a = f then (lit 1, lit 1) else (lit a, lit f) := by
    by_cases ha : a = f
    · simp [removeCommonFactors, operands, cancelFactors, same, isLit, ha, hf0, ofOperands]
    · simp [removeCommonFactors, operands, cancelFactors, same, ha, ofOperands]
  unfold foldQuotient
  rw [hremove]
  by_cases ha : a = f
  · rw [if_pos ha]
    exact ⟨1, rfl⟩
  · rw [if_neg ha]
    dsimp only
    split
    · exact ⟨a, rfl⟩
    · cases op with
      | div => exact ⟨a.floorDiv f, by simp [foldLits, BinOp.fold?, hdivide]⟩
      | ceilDiv => exact ⟨a.ceilDiv f, by simp [foldLits, BinOp.fold?, hdivide]⟩
      | _ => cases hop

omit hop in
theorem foldQuotient_of_operands {e : SymExpr} (hlit : ∀ a, e ≠ lit a)
    (hoperands : e.operands .mul = [e]) (hquotient : ∀ l r, e ≠ bin op l r) :
    foldQuotient op e (lit f) = if f = 1 then e else bin op e (lit f) := by
  have hsame : e.same (lit f) = false := by
    rw [Bool.eq_false_iff]
    exact fun h => hlit f (eq_lit_of_same h)
  have hremove : removeCommonFactors e (lit f) = (e, lit f) := by
    simp [removeCommonFactors, hoperands, operands, cancelFactors, hsame, ofOperands]
  have hlits : foldLits op e (lit f) = none := by
    cases e with
    | lit a => exact absurd rfl (hlit a)
    | _ => rfl
  have hmerge : mergeQuotients op e (lit f) = none := by
    unfold mergeQuotients
    split
    · next op' l b c _ =>
      have hop : op' ≠ op := by
        intro hop
        exact hquotient l (lit b) (by rw [hop])
      simp [hop]
    · rfl
  unfold foldQuotient
  rw [hremove]
  simp only [isLit, beq_iff_eq, hlits, hmerge, Option.getD_none]

end Products

section RoundedUp

variable {a b f : Int64} (hf : 0 < f)
include hf

theorem exists_simplify_ceilDiv_lits (a : Int64) :
    ∃ c, (ceilDiv (lit a) (lit f)).simplify = lit c := by
  obtain ⟨c, hc⟩ := exists_foldQuotient_lits (show BinOp.ceilDiv.isQuotient = true from rfl)
    (Int64.canDivide_of_pos a hf)
  refine ⟨c, simplify_of_simplifyRound_lit ?_⟩
  rw [simplifyRound, canonicalize_ceilDiv, canonicalize_lit, canonicalize_lit]
  exact hc

theorem simplifyRound_ceilDiv_mul_lits (h : a.mul? b = none) :
    (ceilDiv (mul (lit a) (lit b)) (lit f)).simplifyRound =
      if a = f then lit b
      else if b = f then lit a
      else if f = 1 then mul (lit a) (lit b)
      else ceilDiv (mul (lit a) (lit b)) (lit f) := by
  have hf0 : f ≠ 0 := (Int64.canDivide_iff.1 (Int64.canDivide_of_pos a hf)).1
  have hproduct := simplifyRound_mul_lits_of_overflow h
  rw [simplifyRound] at hproduct
  rw [simplifyRound, canonicalize_ceilDiv, canonicalize_lit, ← foldQuotient_mul_lits rfl hf0]
  change foldQuotient .ceilDiv (mul (lit a) (lit b)).canonicalize.fold (lit f) = _
  rw [hproduct]

/-- A product that leaves the range is divided by its factors only. -/
theorem exists_simplify_ceilDiv_mul_lits_iff (h : a.mul? b = none) :
    (∃ c, (ceilDiv (mul (lit a) (lit b)) (lit f)).simplify = lit c) ↔ f = a ∨ f = b := by
  have hround := simplifyRound_ceilDiv_mul_lits hf h
  by_cases ha : a = f
  · rw [if_pos ha] at hround
    exact ⟨fun _ => .inl ha.symm, fun _ => ⟨b, simplify_of_simplifyRound_lit hround⟩⟩
  by_cases hb : b = f
  · rw [if_neg ha, if_pos hb] at hround
    exact ⟨fun _ => .inr hb.symm, fun _ => ⟨a, simplify_of_simplifyRound_lit hround⟩⟩
  rw [if_neg ha, if_neg hb] at hround
  have hstays : ∀ c, (ceilDiv (mul (lit a) (lit b)) (lit f)).simplify ≠ lit c := by
    intro c
    split at hround
    · rw [simplify_of_simplifyRound hround]
      · exact SymExpr.noConfusion
      · rw [simplifyRound_mul_lits_of_overflow h]
        apply same_refl
    · rw [simplify_of_simplifyRound hround]
      · exact SymExpr.noConfusion
      · rw [hround]
        apply same_refl
  constructor
  · intro ⟨c, hc⟩
    exact absurd hc (hstays c)
  · intro hfactor
    rcases hfactor with rfl | rfl
    · exact absurd rfl ha
    · exact absurd rfl hb

end RoundedUp

section Numerators

variable {e l r : SymExpr} {f : Int64}

/-- A term of a numerator: a literal, a product of two, or a negated constant without signs. -/
inductive NumeratorTerm : SymExpr → Prop where
  | lit (a : Int64) : NumeratorTerm (lit a)
  | mul (a b : Int64) : NumeratorTerm (mul (lit a) (lit b))
  | neg {u : SymExpr} (h : u.Constant false) : NumeratorTerm (neg u)

/-- A sum of such terms. None of them has three factors, of which a quotient may remove one without
folding the others. -/
def Numerator (e : SymExpr) : Prop :=
  ∀ t ∈ e.operands .add, t.NumeratorTerm

theorem NumeratorTerm.operands_eq (h : e.NumeratorTerm) : e.operands .add = [e] := by
  cases h with
  | lit a => rfl
  | mul a b => rfl
  | neg h => rfl

theorem NumeratorTerm.numerator (h : e.NumeratorTerm) : e.Numerator := by
  intro t ht
  rw [h.operands_eq, List.mem_singleton] at ht
  rwa [ht]

theorem numerator_add_iff : (add l r).Numerator ↔ l.Numerator ∧ r.Numerator := by
  unfold Numerator
  rw [operands_bin_self, List.forall_mem_append]

theorem Numerator.constant (h : e.Numerator) : e.Constant true := by
  rw [constant_iff_operands (show BinOp.add.isRingOp true = true from rfl)]
  intro t ht
  cases h t ht with
  | lit a => trivial
  | mul a b => exact ⟨rfl, trivial, trivial⟩
  | neg hu => exact ⟨rfl, hu.toSigned⟩

theorem Numerator.term_or_add (h : e.Numerator) :
    e.NumeratorTerm ∨ ∃ l r, e = add l r := by
  cases e with
  | bin op l r =>
    by_cases hop : op = .add
    · exact .inr ⟨l, r, by rw [hop]⟩
    · exact .inl (h (bin op l r) (by simp [operands, hop]))
  | _ => exact .inl (h _ (by simp [operands]))

theorem cancelOpposites_sublist (es : List SymExpr) : (cancelOpposites es).Sublist es := by
  fun_induction cancelOpposites es with
  | case1 a b es _ ih => exact (ih.cons b).cons a
  | case2 a b es _ ih => exact ih.cons_cons a
  | case3 => exact List.Sublist.refl _

theorem numerator_sumOf {es : List SymExpr} (h : ∀ e ∈ es, e.Numerator) :
    (sumOf es).Numerator := by
  have hterms : ∀ e ∈ cancelOpposites (sortTerms es), e.Numerator := by
    intro e he
    apply h
    rw [← (sortTerms_perm es).mem_iff]
    exact (cancelOpposites_sublist _).subset he
  unfold sumOf
  generalize cancelOpposites (sortTerms es) = terms at hterms
  cases terms with
  | nil => exact (NumeratorTerm.lit 0).numerator
  | cons e terms =>
    unfold Numerator
    rw [operands_ofOperands (List.cons_ne_nil e terms), List.forall_mem_flatMap]
    exact hterms

theorem numeratorTerm_foldNeg {u : SymExpr} (h : u.Constant false) : (foldNeg u).NumeratorTerm := by
  rcases foldNeg_eq u with hfold | ⟨a, hfold⟩
  · rw [hfold]
    exact .neg h
  · rw [hfold]
    exact .lit a

/-- The signs of a sum move to its terms. -/
theorem numerator_canonicalize_neg {u : SymExpr} (h : u.Constant false) :
    (neg u).canonicalize.Numerator := by
  have hconstant := constant_canonicalize h
  have hneg : ∀ x, u.canonicalize ≠ neg x := by
    intro x hx
    rw [hx] at hconstant
    cases hconstant.1
  rw [canonicalize_neg]
  cases hsum : u.canonicalize.sum? with
  | none =>
    change (negateTerm u.canonicalize).Numerator
    rw [negateTerm_eq hneg]
    exact (numeratorTerm_foldNeg hconstant).numerator
  | some p =>
    obtain ⟨l, r⟩ := p
    have hweight := weight_canonicalize_le u
    rw [eq_add_of_sum? hsum] at hconstant hweight
    simp only [weight] at hweight
    have hl : l.weight < u.weight := by omega
    have hr : r.weight < u.weight := by omega
    change (add (neg l) (neg r)).canonicalize.Numerator
    rw [canonicalize_add_terms rfl rfl]
    apply numerator_sumOf
    intro e he
    rw [List.mem_pair] at he
    rcases he with rfl | rfl
    · exact numerator_canonicalize_neg hconstant.2.1
    · exact numerator_canonicalize_neg hconstant.2.2
termination_by u.weight

theorem numerator_canonicalize_term (h : e.NumeratorTerm) : e.canonicalize.Numerator := by
  cases h with
  | lit a =>
    rw [canonicalize_lit]
    exact (NumeratorTerm.lit a).numerator
  | mul a b =>
    rw [canonicalize_mul_lits]
    exact (NumeratorTerm.mul a b).numerator
  | neg hu => exact numerator_canonicalize_neg hu

theorem numerator_canonicalize (h : e.Numerator) : e.canonicalize.Numerator := by
  rcases h.term_or_add with hterm | ⟨l, r, rfl⟩
  · exact numerator_canonicalize_term hterm
  · rw [canonicalize_add]
    apply numerator_sumOf
    rw [List.forall_mem_map]
    intro t ht
    exact numerator_canonicalize_term (h t ht)

/-- The terms of what is subtracted have no signs of their own. -/
theorem numerator_canonicalize_sub (hl : l.canonicalize.Numerator)
    (hr : r.canonicalize.Constant false) : (sub l r).canonicalize.Numerator := by
  rw [canonicalize_sub]
  apply numerator_canonicalize
  exact numerator_add_iff.2 ⟨hl, (NumeratorTerm.neg hr).numerator⟩

theorem numerator_foldAdd (hl : l.Numerator) (hr : r.Numerator) : (foldAdd l r).Numerator := by
  unfold foldAdd
  split
  · exact hr
  · split
    · exact hl
    · split
      case h_1 h =>
        obtain ⟨c, rfl⟩ := eq_lit_of_foldLits h
        exact (NumeratorTerm.lit c).numerator
      case h_2 =>
        split
        · exact (NumeratorTerm.lit 0).numerator
        · exact numerator_add_iff.2 ⟨hl, hr⟩

theorem numerator_fold (h : e.Numerator) : e.fold.Numerator := by
  induction e with
  | bin op l r ihl ihr =>
    rcases h.term_or_add with hterm | ⟨l, r, hadd⟩
    · cases hterm with
      | mul a b =>
        change (foldMul (lit a) (lit b)).Numerator
        rw [foldMul_lits]
        cases a.mul? b with
        | none => exact h
        | some c => exact (NumeratorTerm.lit c).numerator
    · cases hadd
      rw [numerator_add_iff] at h
      exact numerator_foldAdd (ihl h.1) (ihr h.2)
  | neg e ih =>
    cases h (neg e) (by simp [operands]) with
    | neg hu => exact (numeratorTerm_foldNeg (constant_fold hu)).numerator
  | _ => exact h

/-- A numerator is divided as a whole where it does not fold. -/
theorem foldQuotient_numerator (hf : 0 < f) (h : e.Numerator) (hsettled : e.Settled) :
    (foldQuotient .div e (lit f)).Constant true ∧ (foldQuotient .div e (lit f)).Settled ∨
      foldQuotient .div e (lit f) = div e (lit f) ∧ e.hasOverflow = true := by
  have hop : BinOp.div.isQuotient = true := rfl
  have hf0 : f ≠ 0 := (Int64.canDivide_iff.1 (Int64.canDivide_of_pos f hf)).1
  rcases hsettled with ⟨a, rfl⟩ | hoverflow
  · obtain ⟨c, hc⟩ := exists_foldQuotient_lits hop (Int64.canDivide_of_pos a hf)
    rw [hc]
    exact .inl ⟨trivial, settled_lit c⟩
  by_cases hmul : ∃ a b, e = mul (lit a) (lit b)
  · obtain ⟨a, b, rfl⟩ := hmul
    rw [foldQuotient_mul_lits hop hf0]
    split
    · exact .inl ⟨trivial, settled_lit b⟩
    · split
      · exact .inl ⟨trivial, settled_lit a⟩
      · split
        · exact .inl ⟨h.constant, .inr hoverflow⟩
        · exact .inr ⟨rfl, hoverflow⟩
  · have hwhole : foldQuotient .div e (lit f) = if f = 1 then e else div e (lit f) := by
      apply foldQuotient_of_operands
      · intro a ha
        rw [ha] at hoverflow
        cases hoverflow
      · rcases h.term_or_add with hterm | ⟨l, r, rfl⟩
        · cases hterm with
          | mul a b => exact absurd ⟨a, b, rfl⟩ hmul
          | _ => rfl
        · rfl
      · intro l r hdiv
        rw [hdiv] at h
        have := h.constant.1
        cases this
    rw [hwhole]
    split
    · exact .inl ⟨h.constant, .inr hoverflow⟩
    · exact .inr ⟨rfl, hoverflow⟩

end Numerators

section Counts

variable {e n : SymExpr} {f : Int64}

/-- One more than a quotient whose numerator is not folded. -/
def CountOverflows (f : Int64) (e : SymExpr) : Prop :=
  ∃ n, e = add (lit 1) (div n (lit f)) ∧ n.Numerator ∧ n.hasOverflow = true

theorem simplifyRound_count_eq
    (he : e = add (div n (lit f)) (lit 1) ∨ e = add (lit 1) (div n (lit f))) :
    e.simplifyRound = foldAdd (lit 1) (foldQuotient .div n.simplifyRound (lit f)) := by
  have hdiv : (div n (lit f)).canonicalize = div n.canonicalize (lit f) := by
    rw [canonicalize_div, canonicalize_lit]
  rcases he with rfl | rfl
  · rw [simplifyRound, canonicalize_add_terms rfl rfl, hdiv, canonicalize_lit, fold_sumOf_pair]
    rfl
  · rw [simplifyRound, canonicalize_add_terms rfl rfl, hdiv, canonicalize_lit, fold_sumOf_pair]
    rfl

variable (hf : 0 < f)
include hf

theorem simplifyRound_count (h : n.canonicalize.Numerator)
    (he : e = add (div n (lit f)) (lit 1) ∨ e = add (lit 1) (div n (lit f))) :
    e.simplifyRound.Constant true ∧ e.simplifyRound.Settled ∨ CountOverflows f e.simplifyRound := by
  have hnumerator : n.simplifyRound.Numerator := numerator_fold h
  have hsettled : n.simplifyRound.Settled := settled_fold h.constant
  rw [simplifyRound_count_eq he]
  rcases foldQuotient_numerator hf hnumerator hsettled with
    ⟨hconstant, hquotient⟩ | ⟨heq, hoverflow⟩
  · have hsum : (add (lit 1) (foldQuotient .div n.simplifyRound (lit f))).Constant true :=
      ⟨rfl, trivial, hconstant⟩
    exact .inl ⟨(rewrites_foldAdd _ _).constant hsum, settled_foldAdd (settled_lit 1) hquotient⟩
  · rw [heq]
    exact .inr ⟨_, rfl, hnumerator, hoverflow⟩

/-- A count is a literal in the end, or an overflow is left over. -/
theorem settled_simplify_count (h : n.canonicalize.Numerator) :
    (add (div n (lit f)) (lit 1)).simplify.Settled := by
  have hinvariant : (add (div n (lit f)) (lit 1)).simplify.Constant true ∧
        (add (div n (lit f)) (lit 1)).simplify.Settled ∨
      CountOverflows f (add (div n (lit f)) (lit 1)).simplify := by
    refine simplify_induction (P := fun e => e.Constant true ∧ e.Settled ∨ CountOverflows f e) ?_ ?_
    · exact simplifyRound_count hf h (.inl rfl)
    · intro e he
      rcases he with ⟨hconstant, _⟩ | ⟨m, rfl, hnumerator, _⟩
      · exact .inl (constant_and_settled_simplifyRound hconstant)
      · exact simplifyRound_count hf (numerator_canonicalize hnumerator) (.inr rfl)
  rcases hinvariant with ⟨_, hsettled⟩ | ⟨m, heq, _, hoverflow⟩
  · exact hsettled
  · rw [heq]
    exact .inr (hasOverflow_bin (.inr (hasOverflow_bin (.inl hoverflow))))

end Counts

end SymExpr

end TensorIR
