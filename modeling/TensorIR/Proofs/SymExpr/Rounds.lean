import TensorIR.Proofs.SymExpr.Simplify

/-!
Rounds of simplification. What holds after the first round and is kept by every other holds of the
result; what a round leaves alone, but for the order of operands, is the result. Sums of two terms
are settled in one round.
-/

namespace TensorIR.SymExpr

section Terms

variable {e e' u v : SymExpr}

theorem simplify_of_simplifyRound (h : e.simplifyRound = e')
    (hstable : e'.simplifyRound.same e' = true) : e.simplify = e' := by
  rw [simplify, h, simplifyRounds]
  exact if_pos hstable

theorem simplifyRounds_induction {P : SymExpr → Prop} (hstep : ∀ e, P e → P e.simplifyRound)
    (n : Nat) {e : SymExpr} (h : P e) : P (simplifyRounds n e) := by
  induction n generalizing e with
  | zero => exact h
  | succ n ih =>
    unfold simplifyRounds
    dsimp only
    split
    · exact h
    · exact ih (hstep e h)

theorem simplify_induction {P : SymExpr → Prop} (hfirst : P e.simplifyRound)
    (hstep : ∀ e, P e → P e.simplifyRound) : P e.simplify :=
  simplifyRounds_induction hstep 7 hfirst

/-- A term of a sum that simplification leaves alone. -/
structure IsTerm (e : SymExpr) : Prop where
  canonicalize_eq : e.canonicalize = e
  fold_eq : e.fold = e
  operands_eq : e.operands .add = [e]

theorem IsTerm.simplifyRound_eq (h : e.IsTerm) : e.simplifyRound = e := by
  rw [simplifyRound, h.canonicalize_eq, h.fold_eq]

theorem IsTerm.simplify_eq (h : e.IsTerm) : e.simplify = e := by
  apply simplify_of_simplifyRound h.simplifyRound_eq
  rw [h.simplifyRound_eq]
  apply same_refl

theorem isTerm_lit (a : Int64) : (lit a).IsTerm :=
  ⟨canonicalize_lit a, rfl, rfl⟩

theorem isTerm_sym (s : Symbol) : (sym s).IsTerm :=
  ⟨canonicalize_sym s, rfl, rfl⟩

theorem sum?_eq_none (h : e.operands .add = [e]) : e.sum? = none := by
  cases hsum : e.sum? with
  | none => rfl
  | some p =>
    have hlength := congrArg List.length h
    rw [eq_add_of_sum? hsum, operands_bin_self, List.length_append] at hlength
    have hl := List.length_pos_of_ne_nil (operands_ne_nil .add p.1)
    have hr := List.length_pos_of_ne_nil (operands_ne_nil .add p.2)
    rw [List.length_singleton] at hlength
    omega

theorem foldNeg_eq (e : SymExpr) : foldNeg e = neg e ∨ ∃ a, foldNeg e = lit a := by
  unfold foldNeg
  split
  · split
    · exact .inr ⟨_, rfl⟩
    · exact .inl rfl
  · exact .inl rfl

theorem negateTerm_eq (h : ∀ x, e ≠ neg x) : negateTerm e = foldNeg e := by
  unfold negateTerm
  split
  · exact absurd rfl (h _)
  · rfl

theorem IsTerm.canonicalize_neg (h : e.IsTerm) (hneg : ∀ x, e ≠ neg x) :
    (neg e).canonicalize = foldNeg e := by
  rw [SymExpr.canonicalize_neg, h.canonicalize_eq, sum?_eq_none h.operands_eq]
  exact negateTerm_eq hneg

theorem IsTerm.foldNeg (h : e.IsTerm) (hneg : ∀ x, e ≠ neg x) : (foldNeg e).IsTerm := by
  rcases foldNeg_eq e with hfold | ⟨a, hfold⟩
  · have hcanonicalize := h.canonicalize_neg hneg
    rw [hfold] at hcanonicalize ⊢
    refine ⟨hcanonicalize, ?_, rfl⟩
    rw [fold, h.fold_eq, hfold]
  · rw [hfold]
    exact isTerm_lit a

theorem eq_lit_of_foldLits {op : BinOp} {l r : SymExpr} (h : foldLits op l r = some e) :
    ∃ c, e = lit c := by
  unfold foldLits at h
  split at h
  · rw [Option.map_eq_some_iff] at h
    obtain ⟨c, _, rfl⟩ := h
    exact ⟨c, rfl⟩
  · cases h

theorem sortTerms_lit_cons (a : Int64) (es : List SymExpr) :
    sortTerms (lit a :: es) = lit a :: sortTerms es := by
  rw [sortTerms]
  cases sortTerms es with
  | nil => rfl
  | cons u us => rfl

theorem fold_foldl {op : BinOp} {es : List SymExpr} (h : ∀ e ∈ es, e.fold = e) (e : SymExpr) :
    (es.foldl (bin op) e).fold = es.foldl (foldBin op) e.fold := by
  induction es generalizing e with
  | nil => rfl
  | cons d es ih =>
    rw [List.forall_mem_cons] at h
    rw [List.foldl_cons, List.foldl_cons, ih h.2, fold, h.1]

theorem foldLits_add_comm (u v : SymExpr) : foldLits .add u v = foldLits .add v u := by
  cases u with
  | lit a =>
    cases v with
    | lit b => simp only [foldLits, BinOp.fold?, Int64.add?, Int.add_comm]
    | _ => rfl
  | _ => cases v <;> rfl

theorem canonicalize_add_terms (hu : u.operands .add = [u]) (hv : v.operands .add = [v]) :
    (add u v).canonicalize = sumOf [u.canonicalize, v.canonicalize] := by
  rw [canonicalize_add, operands_bin_self, hu, hv]
  rfl

theorem fold_sumOf_pair (u v : SymExpr) :
    (sumOf [u, v]).fold =
      if u.isOpposite v then lit 0
      else if u.precedes v then foldAdd u.fold v.fold else foldAdd v.fold u.fold := by
  have hsort : sortTerms [u, v] = if u.precedes v then [u, v] else [v, u] := rfl
  have hcancel (a b : SymExpr) :
      cancelOpposites [a, b] = if a.isOpposite b then [] else [a, b] := by
    simp only [cancelOpposites]
  have hcomm : v.isOpposite u = u.isOpposite v := Bool.or_comm ..
  rw [sumOf, hsort]
  split
  case isTrue =>
    rw [hcancel]
    split
    · rfl
    · rfl
  case isFalse =>
    rw [hcancel, hcomm]
    split
    · rfl
    · rfl

theorem foldAdd_cases (hu : u.IsTerm) (hv : v.IsTerm) :
    (foldAdd u v).IsTerm ∨ foldAdd u v = add u v ∧ u.isLit 0 = false ∧ v.isLit 0 = false ∧
      foldLits .add u v = none ∧ isOpposite.negates v u = false := by
  unfold foldAdd
  split
  case isTrue => exact .inl hv
  case isFalse hu0 =>
    split
    case isTrue => exact .inl hu
    case isFalse hv0 =>
      split
      case h_1 h =>
        obtain ⟨c, rfl⟩ := eq_lit_of_foldLits h
        exact .inl (isTerm_lit c)
      case h_2 h =>
        split
        case isTrue => exact .inl (isTerm_lit 0)
        case isFalse hnegates =>
          rw [Bool.not_eq_true] at hu0 hv0 hnegates
          exact .inr ⟨rfl, hu0, hv0, h, hnegates⟩

/-- A folded sum of two terms is left alone but for their order. -/
theorem same_simplifyRound_foldAdd (hu : u.IsTerm) (hv : v.IsTerm)
    (hnegates : isOpposite.negates u v = false) :
    (foldAdd u v).simplifyRound.same (foldAdd u v) = true := by
  rcases foldAdd_cases hu hv with h | ⟨heq, hu0, hv0, hlits, hnegates'⟩
  · rw [h.simplifyRound_eq]
    apply same_refl
  · have hopposite : u.isOpposite v = false := by
      rw [isOpposite, hnegates, hnegates']
      rfl
    have hswapped : foldAdd v u = add v u := by
      rw [foldAdd, hv0, hu0, foldLits_add_comm v u, hlits, hnegates]
      rfl
    rw [heq, simplifyRound, canonicalize_add_terms hu.operands_eq hv.operands_eq,
      hu.canonicalize_eq, hv.canonicalize_eq, fold_sumOf_pair, hopposite, hu.fold_eq, hv.fold_eq,
      heq, hswapped]
    rw [if_neg Bool.false_ne_true]
    split
    · apply same_refl
    · simp [same, same_refl, BinOp.isAssocComm]

end Terms

end TensorIR.SymExpr
