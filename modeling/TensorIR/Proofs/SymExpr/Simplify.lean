import TensorIR.Proofs.SymExpr.Canonical
import TensorIR.SymExpr.Simplify

/-!
Simplification only rewrites. Hence it keeps the value of every expression that has one, and each
literal it leaves behind is the exact result of the operations that were folded into it.
-/

namespace TensorIR

theorem BinOp.eval?_of_fold? {op : BinOp} {a b c : Int64} (h : op.fold? a b = some c) :
    op.eval? a.toInt b.toInt = some c.toInt := by
  cases op with
  | add =>
    rw [eval?, Int64.add?_eq_some_iff.1 h]
  | sub =>
    rw [eval?, Int64.sub?_eq_some_iff.1 h]
  | mul =>
    rw [eval?, Int64.mul?_eq_some_iff.1 h]
  | div =>
    simp only [fold?, Option.ite_none_right_eq_some, Option.some.injEq] at h
    have hb := Int64.toInt_ne_zero (Int64.canDivide_iff.1 h.1).1
    rw [eval?, if_neg hb, ← h.2, Int64.toInt_floorDiv h.1]
  | ceilDiv =>
    simp only [fold?, Option.ite_none_right_eq_some, Option.some.injEq] at h
    have hb := Int64.toInt_ne_zero (Int64.canDivide_iff.1 h.1).1
    rw [eval?, if_neg hb, ← h.2, Int64.toInt_ceilDiv h.1]
  | mod =>
    simp only [fold?, Option.ite_none_right_eq_some, Option.some.injEq] at h
    have hb := Int64.toInt_ne_zero (Int64.canDivide_iff.1 h.1).1
    rw [eval?, if_neg hb, ← h.2, Int64.toInt_floorMod h.1]

namespace SymExpr

theorem rewrites_of_foldLits {op : BinOp} {l r e : SymExpr} (h : foldLits op l r = some e) :
    Rewrites (bin op l r) e := by
  unfold foldLits at h
  split at h
  · rw [Option.map_eq_some_iff] at h
    obtain ⟨c, hc, rfl⟩ := h
    exact .law (.fold (BinOp.eval?_of_fold? hc))
  · exact absurd h (by simp)

theorem Rewrites.swap {op : BinOp} (hop : op.isAssocComm = true) (l r : SymExpr) :
    Rewrites (.bin op l r) (.bin op r l) := by
  apply regroup op hop
  rw [operands_bin_self]
  rw [operands_bin_self]
  exact List.perm_append_comm

theorem rewrites_foldAdd (l r : SymExpr) : Rewrites (add l r) (foldAdd l r) := by
  unfold foldAdd
  split
  case isTrue h =>
    rw [eq_lit_of_isLit h]
    exact (Rewrites.swap rfl _ _).trans (.law (.dropNeutral rfl r))
  case isFalse =>
    split
    case isTrue h =>
      rw [eq_lit_of_isLit h]
      exact .law (.dropNeutral rfl l)
    case isFalse =>
      split
      case h_1 h => exact rewrites_of_foldLits h
      case h_2 =>
        split
        case isTrue h =>
          apply Rewrites.add_of_isOpposite
          rw [isOpposite, h, Bool.true_or]
        case isFalse => apply Rewrites.refl

theorem rewrites_foldSub (l r : SymExpr) : Rewrites (sub l r) (foldSub l r) := by
  unfold foldSub
  split
  case isTrue h =>
    rw [eq_lit_of_isLit h]
    exact .law (.subZero l)
  case isFalse =>
    split
    case h_1 h => exact rewrites_of_foldLits h
    case h_2 =>
      split
      case isTrue h => exact .law (.subSelf h)
      case isFalse => apply Rewrites.refl

theorem rewrites_foldMul (l r : SymExpr) : Rewrites (mul l r) (foldMul l r) := by
  unfold foldMul
  split
  case isTrue h =>
    rw [Bool.or_eq_true] at h
    cases h with
    | inl h =>
      rw [eq_lit_of_isLit h]
      exact (Rewrites.swap rfl _ _).trans (.law (.mulZero r))
    | inr h =>
      rw [eq_lit_of_isLit h]
      exact .law (.mulZero l)
  case isFalse =>
    split
    case isTrue h =>
      rw [eq_lit_of_isLit h]
      exact (Rewrites.swap rfl _ _).trans (.law (.dropNeutral rfl r))
    case isFalse =>
      split
      case isTrue h =>
        rw [eq_lit_of_isLit h]
        exact .law (.dropNeutral rfl l)
      case isFalse =>
        cases h : foldLits .mul l r with
        | none => apply Rewrites.refl
        | some e => exact rewrites_of_foldLits h

section CommonFactors

theorem rewrites_factorOut {f : SymExpr} {es ds : List SymExpr} (h : es.Perm (f :: ds)) :
    Rewrites (ofOperands .mul (lit 1) es) (mul (ofOperands .mul (lit 1) ds) f) := by
  apply (Rewrites.ofOperands_perm rfl h).trans
  apply (Rewrites.ofOperands_cons rfl f ds).trans
  exact Rewrites.swap rfl _ _

theorem perm_cons_eraseP {p : SymExpr → Bool} {es : List SymExpr} (h : es.any p = true) :
    ∃ f, p f = true ∧ es.Perm (f :: es.eraseP p) := by
  rw [List.any_eq_true] at h
  obtain ⟨f, hf, hp⟩ := h
  obtain ⟨f, front, back, _, hp, hes, herase⟩ := List.exists_of_eraseP hf hp
  refine ⟨f, hp, ?_⟩
  rw [herase, hes]
  exact List.perm_middle

variable {op : BinOp} (hop : op.isQuotient = true)
include hop

theorem rewrites_cancelFactors (ns ds : List SymExpr) (k : SymExpr) :
    Rewrites
      (bin op (mul k (ofOperands .mul (lit 1) ns)) (ofOperands .mul (lit 1) ds))
      (bin op (mul k (ofOperands .mul (lit 1) (cancelFactors ns ds).1))
        (ofOperands .mul (lit 1) (cancelFactors ns ds).2)) := by
  induction ns generalizing ds k with
  | nil => apply Rewrites.refl
  | cons n ns ih =>
    rw [cancelFactors]
    dsimp only
    split
    case isTrue h =>
      obtain ⟨d, hd, hperm⟩ := perm_cons_eraseP h
      rw [Bool.and_eq_true, Bool.not_eq_true'] at hd
      have hdividend : Rewrites (mul k (ofOperands .mul (lit 1) (n :: ns)))
          (mul (mul k (ofOperands .mul (lit 1) ns)) n) := by
        apply (Rewrites.bin .mul (.refl k) (rewrites_factorOut (List.Perm.refl _))).trans
        apply Rewrites.regroup .mul rfl
        simp only [operands_bin_self, List.append_assoc, List.Perm.refl]
      apply (Rewrites.bin op hdividend (rewrites_factorOut hperm)).trans
      apply (Rewrites.law (.cancelFactor hop _ _ hd.1 hd.2)).trans
      exact ih _ k
    case isFalse =>
      -- A factor without a partner joins the further factor until the rest is done.
      have hregroup (es : List SymExpr) : Rewrites (mul k (mul n (ofOperands .mul (lit 1) es)))
          (mul (mul k n) (ofOperands .mul (lit 1) es)) := by
        apply Rewrites.regroup .mul rfl
        simp only [operands_bin_self, List.append_assoc, List.Perm.refl]
      have hregroup' (es : List SymExpr) : Rewrites (mul (mul k n) (ofOperands .mul (lit 1) es))
          (mul k (mul n (ofOperands .mul (lit 1) es))) := by
        apply Rewrites.regroup .mul rfl
        simp only [operands_bin_self, List.append_assoc, List.Perm.refl]
      have hfront := (Rewrites.bin .mul (.refl k) (.ofOperands_cons rfl n ns)).trans (hregroup ns)
      apply (Rewrites.bin op hfront (.refl _)).trans
      apply (ih ds (mul k n)).trans
      refine .bin op ?_ (.refl _)
      apply (hregroup' _).trans
      exact .bin .mul (.refl k) (.cons_ofOperands rfl n _)

theorem rewrites_removeCommonFactors (l r : SymExpr) :
    Rewrites (bin op l r)
      (bin op (removeCommonFactors l r).1 (removeCommonFactors l r).2) := by
  have hl : Rewrites l (mul (lit 1) (ofOperands .mul (lit 1) (l.operands .mul))) := by
    apply (Rewrites.flatten .mul rfl l).trans
    apply (Rewrites.law (@Law.putNeutral .mul 1 rfl _)).trans
    exact Rewrites.swap rfl _ _
  apply (Rewrites.bin op hl (.flatten .mul rfl r)).trans
  apply (rewrites_cancelFactors hop _ _ (lit 1)).trans
  refine .bin op ?_ (.refl _)
  exact (Rewrites.swap rfl _ _).trans (.law (.dropNeutral rfl _))

theorem rewrites_of_mergeQuotients {l r e : SymExpr} (h : mergeQuotients op l r = some e) :
    Rewrites (bin op l r) e := by
  unfold mergeQuotients at h
  split at h
  case h_1 op' l b c =>
    rw [Option.ite_none_right_eq_some] at h
    simp only [Bool.and_eq_true, decide_eq_true_eq, Option.map_eq_some_iff] at h
    obtain ⟨⟨⟨rfl, hb⟩, hc⟩, d, hd, rfl⟩ := h
    exact .law (.mergeQuotients hop l hb hc (Int64.mul?_eq_some_iff.1 hd))
  case h_2 => exact absurd h (by simp)

theorem rewrites_foldQuotient (l r : SymExpr) : Rewrites (bin op l r) (foldQuotient op l r) := by
  apply (rewrites_removeCommonFactors hop l r).trans
  unfold foldQuotient
  generalize removeCommonFactors l r = rest
  dsimp only
  split
  case isTrue h =>
    rw [eq_lit_of_isLit h]
    exact .law (.quotientOne hop _)
  case isFalse =>
    split
    case h_1 h => exact rewrites_of_foldLits h
    case h_2 =>
      cases h : mergeQuotients op rest.1 rest.2 with
      | none => apply Rewrites.refl
      | some e => exact rewrites_of_mergeQuotients hop h

end CommonFactors

theorem rewrites_of_hasFactor {l r : SymExpr} (h : l.hasFactor r = true) :
    Rewrites (mod l r) (lit 0) := by
  simp only [hasFactor, Bool.and_eq_true, Bool.not_eq_true', decide_eq_true_eq] at h
  obtain ⟨⟨hzero, _⟩, hany⟩ := h
  obtain ⟨f, hf, hperm⟩ := perm_cons_eraseP hany
  have hl := (Rewrites.flatten .mul rfl l).trans (rewrites_factorOut hperm)
  exact (Rewrites.bin .mod hl (.refl r)).trans (.law (.modFactor _ hf hzero))

theorem rewrites_foldMod (l r : SymExpr) : Rewrites (mod l r) (foldMod l r) := by
  unfold foldMod
  split
  case isTrue h =>
    rw [eq_lit_of_isLit h]
    exact .law (.modOne l)
  case isFalse =>
    split
    case h_1 h => exact rewrites_of_foldLits h
    case h_2 =>
      split
      case isTrue h => exact rewrites_of_hasFactor h
      case isFalse => apply Rewrites.refl

theorem rewrites_foldBin (op : BinOp) (l r : SymExpr) : Rewrites (bin op l r) (foldBin op l r) := by
  cases op with
  | add => exact rewrites_foldAdd l r
  | sub => exact rewrites_foldSub l r
  | mul => exact rewrites_foldMul l r
  | div => exact rewrites_foldQuotient rfl l r
  | ceilDiv => exact rewrites_foldQuotient rfl l r
  | mod => exact rewrites_foldMod l r

theorem rewrites_fold (e : SymExpr) : Rewrites e e.fold := by
  induction e with
  | lit a => apply Rewrites.refl
  | sym s => apply Rewrites.refl
  | neg e ih => exact ih.neg.trans (rewrites_foldNeg e.fold)
  | bin op l r ihl ihr => exact (Rewrites.bin op ihl ihr).trans (rewrites_foldBin op l.fold r.fold)

theorem rewrites_simplifyRound (e : SymExpr) : Rewrites e e.simplifyRound :=
  (rewrites_canonicalize e).trans (rewrites_fold e.canonicalize)

theorem rewrites_simplifyRounds (n : Nat) (e : SymExpr) : Rewrites e (simplifyRounds n e) := by
  induction n generalizing e with
  | zero => exact .refl e
  | succ n ih =>
    unfold simplifyRounds
    dsimp only
    split
    · exact .refl e
    · exact (rewrites_simplifyRound e).trans (ih e.simplifyRound)

theorem rewrites_simplify (e : SymExpr) : Rewrites e e.simplify :=
  (rewrites_simplifyRound e).trans (rewrites_simplifyRounds 7 e.simplifyRound)

section Literals

variable {a b c d : Int64}

theorem simplifyRounds_lit (n : Nat) (a : Int64) : simplifyRounds n (lit a) = lit a := by
  cases n with
  | zero => rfl
  | succ n => simp [simplifyRounds, simplifyRound, fold, same]

theorem canonicalize_sub_lits (hd : b.neg? = some d) :
    (sub (lit a) (lit b)).canonicalize = add (lit a) (lit d) := by
  have hneg : (neg (lit b)).canonicalize = lit d := by
    simp [canonicalize_neg, sum?, negateTerm, foldNeg, hd]
  simp [canonicalize_sub, canonicalize_add, operands, hneg, sumOf, sortTerms, insertTerm,
    precedes, cancelOpposites, isOpposite, isOpposite.negates, ofOperands]

theorem fold_add_lits (hc : a.add? b = some c) :
    (add (lit a) (lit b)).fold = lit c := by
  have hsum := Int64.add?_eq_some_iff.1 hc
  simp only [fold, foldBin, foldAdd, isLit, beq_iff_eq]
  split
  case isTrue ha =>
    rw [ha, Int64.toInt_zero, Int.zero_add, Int64.toInt_inj] at hsum
    rw [hsum]
  case isFalse =>
    split
    case isTrue hb =>
      rw [hb, Int64.toInt_zero, Int.add_zero, Int64.toInt_inj] at hsum
      rw [hsum]
    case isFalse => simp [foldLits, BinOp.fold?, hc]

/-- Two literals are subtracted if their difference and the negated right one fit. -/
theorem simplify_sub_lits (hd : b.neg? = some d) (hc : a.add? d = some c) :
    (sub (lit a) (lit b)).simplify = lit c := by
  rw [simplify, simplifyRound, canonicalize_sub_lits hd, fold_add_lits hc, simplifyRounds_lit]

end Literals

theorem eval?_simplify {σ : Assignment} {e : SymExpr} {v : Int} (h : e.eval? σ = some v) :
    e.simplify.eval? σ = some v :=
  (rewrites_simplify e).eval?_eq_some h

theorem checkedSimplify?_eq_some_iff {e s : SymExpr} :
    e.checkedSimplify? = some s ↔ e.simplify.hasOverflow = false ∧ e.simplify = s := by
  unfold checkedSimplify?
  dsimp only
  rw [Option.ite_none_left_eq_some, Option.some.injEq, Bool.not_eq_true]

/--
Simplification keeps every value there is, and it is a sequence of exact laws: a literal of the
result, which is in range as every literal is, was folded from others without leaving the range.
-/
theorem simplify_exact (e : SymExpr) :
    Rewrites e e.simplify ∧ ∀ σ v, e.eval? σ = some v → e.simplify.eval? σ = some v := by
  constructor
  · exact rewrites_simplify e
  · intro σ v hv
    exact eval?_simplify hv

theorem simplify_exact_common_factor :
    ((div (mul (lit 6) (var "n")) (mul (var "n") (lit 4))).eval? fun _ => -3) = some 1 ∧
      ((div (mul (lit 6) (var "n")) (mul (var "n") (lit 4))).simplify.eval? fun _ => -3) =
        some 1 := by
  constructor
  · rfl
  · exact (simplify_exact _).2 _ 1 rfl

end SymExpr

end TensorIR
