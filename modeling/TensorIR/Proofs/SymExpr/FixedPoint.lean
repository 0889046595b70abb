import Mathlib.Logic.Function.Iterate
import TensorIR.Proofs.SymExpr.Weight

/-!
Fixed points of simplification. A round that leaves an expression alone, but for the order of
operands, gives an expression that rounds leave alone altogether; and rounds that go on long enough
end in such an expression, since each of them but the last makes it lighter. Main statement: a
second simplification changes nothing exactly where one of the rounds comes to rest that the limit
on their number leaves room for. A sum of many opposite terms shows that the limit is met.
-/

namespace TensorIR.SymExpr

section Rounds

variable {e s : SymExpr}

theorem weight_eq_of_same {a b : SymExpr} (h : a.same b = true) : a.weight = b.weight := by
  replace h := same_iff_relation.1 h
  induction h with
  | lit a => rfl
  | sym _ => rfl
  | neg _ ih => rw [weight, weight, ih]
  | straight op _ _ ihl ihr => cases op <;> simp only [weight] <;> omega
  | @crossed op hop _ _ _ _ _ _ ihl ihr =>
    have hsub : op ≠ .sub := by
      rintro rfl
      cases hop
    rw [weight_bin hsub, weight_bin hsub]
    omega

theorem weight_simplifyRound_le (e : SymExpr) : e.simplifyRound.weight ≤ e.weight :=
  Nat.le_trans (weight_fold_le e.canonicalize) (weight_canonicalize_le e)

/-- A round that keeps the weight has brought the expression to rest. -/
theorem simplifyRound_eq_of_weight (h : e.simplifyRound.weight = e.weight) :
    e.simplifyRound.simplifyRound = e.simplifyRound := by
  have hcanonicalize := weight_canonicalize_le e
  have hfold := weight_fold_le e.canonicalize
  rw [simplifyRound] at h
  have hcanonical := (onlyReordered_of_weight e (by omega)).isCanonical
  have hround : e.simplifyRound = e.canonicalize :=
    (eqOrLighter_fold hcanonical.productsLeft).eq_of_weight (by omega)
  rw [hround, simplifyRound, hcanonical.canonicalize_eq]
  exact hround

theorem simplifyRound_eq_of_same (h : e.simplifyRound.same e = true) :
    e.simplifyRound.simplifyRound = e.simplifyRound :=
  simplifyRound_eq_of_weight (weight_eq_of_same h)

/-- Rounds stop only where the next ones would change the order of operands at most. -/
theorem same_simplifyRounds_iterate (m : Nat) (e : SymExpr) :
    (simplifyRounds m e).same (simplifyRound^[m] e) = true := by
  induction m generalizing e with
  | zero => exact same_refl e
  | succ m ih =>
    rw [simplifyRounds, Function.iterate_succ_apply]
    split
    case isTrue h =>
      rw [Function.iterate_fixed (simplifyRound_eq_of_same h)]
      exact equivalence_same.symm h
    case isFalse => exact ih e.simplifyRound

/-- Without a limit, the rounds would come to rest. -/
theorem exists_iterate_eq (e : SymExpr) :
    ∃ n ≤ e.weight, simplifyRound^[n + 2] e = simplifyRound^[n + 1] e := by
  by_cases h : e.simplifyRound.weight = e.weight
  · exact ⟨0, Nat.zero_le _, simplifyRound_eq_of_weight h⟩
  · have hle := weight_simplifyRound_le e
    have hlt : e.simplifyRound.weight < e.weight := by omega
    obtain ⟨n, hn, hrest⟩ := exists_iterate_eq e.simplifyRound
    exact ⟨n + 1, by omega, hrest⟩
termination_by e.weight

theorem weight_simplify_le (e : SymExpr) : e.simplify.weight ≤ e.simplifyRound.weight := by
  apply simplifyRounds_induction (P := fun s => s.weight ≤ e.simplifyRound.weight)
  · intro s hs
    exact Nat.le_trans (weight_simplifyRound_le s) hs
  · exact Nat.le_refl _

/-- Simplification changes nothing exactly if its first round changes nothing. -/
theorem same_simplify_iff : s.simplify.same s = true ↔ s.simplifyRound.same s = true := by
  have hstops (h : s.simplifyRound.simplifyRound = s.simplifyRound) :
      s.simplify = s.simplifyRound := by
    apply simplify_of_simplifyRound rfl
    rw [h]
    apply same_refl
  constructor
  · intro h
    have hsimplify := weight_simplify_le s
    have hround := weight_simplifyRound_le s
    rw [weight_eq_of_same h] at hsimplify
    rwa [← hstops (simplifyRound_eq_of_weight (by omega))]
  · intro h
    rwa [hstops (simplifyRound_eq_of_same h)]

/-- The last expression is at rest exactly if one of those on the way to it is. -/
theorem same_simplifyRounds_iff (m : Nat) (e : SymExpr) :
    (simplifyRounds m e).simplifyRound.same (simplifyRounds m e) = true ↔
      ∃ n ≤ m, (simplifyRound^[n + 1] e).same (simplifyRound^[n] e) = true := by
  induction m generalizing e with
  | zero => simp [simplifyRounds]
  | succ m ih =>
    rw [simplifyRounds]
    split
    case isTrue h => exact ⟨fun _ => ⟨0, Nat.zero_le _, h⟩, fun _ => h⟩
    case isFalse h =>
      rw [ih e.simplifyRound]
      constructor
      · rintro ⟨n, hn, hrest⟩
        exact ⟨n + 1, Nat.succ_le_succ hn, hrest⟩
      · rintro ⟨n, hn, hrest⟩
        cases n with
        | zero => exact absurd hrest h
        | succ n => exact ⟨n, Nat.le_of_succ_le_succ hn, hrest⟩

end Rounds

/--
Simplifying a simplified expression changes nothing if and only if, of the first nine rounds, one
other than the first changes nothing. Some round does that, but it may come later.
-/
theorem same_simplify_simplify_iff (e : SymExpr) :
    (e.simplify.simplify.same e.simplify = true ↔
      ∃ n < 8, (simplifyRound^[n + 2] e).same (simplifyRound^[n + 1] e) = true) ∧
    ∃ n ≤ e.weight, simplifyRound^[n + 2] e = simplifyRound^[n + 1] e := by
  refine ⟨?_, exists_iterate_eq e⟩
  rw [same_simplify_iff]
  rw [simplify, same_simplifyRounds_iff 7 e.simplifyRound]
  simp only [Nat.lt_succ_iff, Function.iterate_succ_apply]

/--
One pair of opposite terms cancels in each round behind the first; with nine pairs, one is left.
-/
theorem simplify_leaves_opposites :
    let terms := ofOperands .add (lit 0) (List.replicate 9 (size "a"))
    (sub terms terms).simplify.simplify.same (sub terms terms).simplify = false := by
  decide +kernel

end TensorIR.SymExpr
