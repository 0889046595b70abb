import TensorIR.Proofs.SymExpr.DifferenceFree
import TensorIR.Proofs.SymExpr.Steps

/-!
Termination of canonicalization. The recursion enters itself on sums that it has just built from
canonical forms, and these can be larger than the expression that it started from; they weigh less.
Main statement: the recursion is well-founded, so with no limit on its depth it ends at every
expression, in a canonical form without differences.
-/

namespace TensorIR.SymExpr

theorem wellFounded_enters : WellFounded fun d e => Enters e d :=
  Subrelation.wf (fun h => h.weight_lt) (measure weight).wf

theorem exists_of_mapM_eq_some {α β : Type} {f : α → Option β} {as : List α} {bs : List β}
    (h : as.mapM f = some bs) {a : α} (ha : a ∈ as) : ∃ b, f a = some b := by
  induction as generalizing bs with
  | nil => cases ha
  | cons a' as ih =>
    simp only [List.mapM_cons, Option.bind_eq_bind, Option.bind_eq_some_iff] at h
    obtain ⟨b, hb, bs', hbs, _⟩ := h
    cases ha with
    | head => exact ⟨b, hb⟩
    | tail _ ha => exact ih hbs ha

section Depth

variable {depth : Nat} {d e r : SymExpr}

theorem exists_of_canonicalizeSteps?_neg (h : canonicalizeSteps? (depth + 1) (neg e) = some r) :
    ∃ c, canonicalizeSteps? depth e = some c ∧
      ∀ l r', c = add l r' → canonicalizeSteps? depth (add (neg l) (neg r')) = some r := by
  simp only [canonicalizeSteps?, Option.bind_eq_bind, Option.bind_eq_some_iff] at h
  obtain ⟨c, hc, h⟩ := h
  refine ⟨c, hc, ?_⟩
  rintro l r' rfl
  exact h

theorem exists_of_canonicalizeSteps?_nest {op : BinOp} (hop : op.isAssocComm = true)
    {a b : SymExpr} (h : canonicalizeSteps? (depth + 1) (bin op a b) = some r) :
    ∃ es, (operands op (bin op a b)).mapM (canonicalizeSteps? depth) = some es := by
  cases op with
  | add =>
    simp only [canonicalizeSteps?, Option.bind_eq_bind, Option.bind_eq_some_iff] at h
    exact h.imp fun _ => And.left
  | mul =>
    simp only [canonicalizeSteps?, Option.bind_eq_bind, Option.bind_eq_some_iff] at h
    exact h.imp fun _ => And.left
  | _ => cases hop

theorem exists_of_canonicalizeSteps?_sides {op : BinOp} (hop : op.isAssocComm = false)
    {a b : SymExpr} (h : canonicalizeSteps? (depth + 1) (bin op a b) = some r) :
    ∃ a' b', canonicalizeSteps? depth a = some a' ∧ canonicalizeSteps? depth b = some b' ∧
      (op = .sub → canonicalizeSteps? depth (add a' (neg b')) = some r) := by
  cases op with
  | add => cases hop
  | mul => cases hop
  | sub =>
    simp only [canonicalizeSteps?, Option.bind_eq_bind, Option.bind_eq_some_iff] at h
    obtain ⟨a', ha, b', hb, h⟩ := h
    exact ⟨a', b', ha, hb, fun _ => h⟩
  | _ =>
    simp only [canonicalizeSteps?, Option.bind_eq_bind, Option.bind_eq_some_iff] at h
    obtain ⟨a', ha, b', hb, _⟩ := h
    refine ⟨a', b', ha, hb, ?_⟩
    intro hsub
    cases hsub

/-- A call inside a computation that finishes has finished, one level below the limit. -/
theorem Enters.exists_canonicalizeSteps? (hd : Enters e d)
    (hresult : ∀ d r, canonicalizeSteps? depth d = some r → r = d.canonicalize)
    (h : canonicalizeSteps? (depth + 1) e = some r) :
    ∃ r', canonicalizeSteps? depth d = some r' := by
  cases hd with
  | negated e =>
    obtain ⟨c, hc, _⟩ := exists_of_canonicalizeSteps?_neg h
    exact ⟨c, hc⟩
  | @negatedSum e a b hsum =>
    obtain ⟨c, hc, hterms⟩ := exists_of_canonicalizeSteps?_neg h
    exact ⟨r, hterms a b ((hresult e c hc).trans hsum)⟩
  | operand hop hmem =>
    obtain ⟨es, hes⟩ := exists_of_canonicalizeSteps?_nest hop h
    exact exists_of_mapM_eq_some hes hmem
  | left hop a b =>
    obtain ⟨a', _, ha, _⟩ := exists_of_canonicalizeSteps?_sides hop h
    exact ⟨a', ha⟩
  | right hop a b =>
    obtain ⟨_, b', _, hb, _⟩ := exists_of_canonicalizeSteps?_sides hop h
    exact ⟨b', hb⟩
  | difference a b =>
    obtain ⟨a', b', ha, hb, hsum⟩ := exists_of_canonicalizeSteps?_sides rfl h
    rw [hresult a a' ha, hresult b b' hb] at hsum
    exact ⟨r, hsum rfl⟩

/-- Whatever the limit, a computation that keeps to it ends in the canonical form. -/
theorem eq_canonicalize_of_canonicalizeSteps? (h : canonicalizeSteps? depth e = some r) :
    r = e.canonicalize := by
  induction depth generalizing e r with
  | zero => cases h
  | succ depth ih =>
    have hsucc : canonicalizeSteps? (depth + 1) e = some e.canonicalize := by
      apply canonicalizeSteps?_succ
      intro d hd
      obtain ⟨r', hr'⟩ := hd.exists_canonicalizeSteps? (fun _ _ => ih) h
      rw [hr', ih hr']
    rw [h, Option.some.injEq] at hsucc
    exact hsucc

/-- One more level is what the calls of an expression need below it, and no more. -/
theorem isSome_canonicalizeSteps?_succ_iff :
    (canonicalizeSteps? (depth + 1) e).isSome = true ↔
      ∀ d, Enters e d → (canonicalizeSteps? depth d).isSome = true := by
  simp only [Option.isSome_iff_exists]
  constructor
  · rintro ⟨r, h⟩ d hd
    exact hd.exists_canonicalizeSteps? (fun _ _ => eq_canonicalize_of_canonicalizeSteps?) h
  · intro h
    refine ⟨e.canonicalize, canonicalizeSteps?_succ fun d hd => ?_⟩
    obtain ⟨r, hr⟩ := h d hd
    rw [hr, eq_canonicalize_of_canonicalizeSteps? hr]

end Depth

/--
The calls of the recursion, which are those that a limit on its depth counts, form no infinite
chain. No expression needs more levels than it has weight.
-/
theorem canonicalize_terminates :
    (WellFounded fun d e : SymExpr => Enters e d) ∧
      (∀ (depth : Nat) (e : SymExpr), (canonicalizeSteps? (depth + 1) e).isSome = true ↔
        ∀ d, Enters e d → (canonicalizeSteps? depth d).isSome = true) ∧
      ∀ e : SymExpr, (∀ spare, canonicalizeSteps? (e.weight + spare) e = some e.canonicalize) ∧
        e.canonicalize.DifferenceFree := by
  refine ⟨wellFounded_enters, ?_, ?_⟩
  · intro depth e
    exact isSome_canonicalizeSteps?_succ_iff
  · intro e
    refine ⟨?_, differenceFree_canonicalize e⟩
    intro spare
    exact canonicalizeSteps?_eq_some (Nat.le_add_right e.weight spare)

end TensorIR.SymExpr
