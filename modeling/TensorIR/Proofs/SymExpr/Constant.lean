import TensorIR.Proofs.SymExpr.Rounds

/-!
Constant expressions: literals put together by sums, products, differences and negations. They
simplify to a literal unless an operation on two literals is left over, one whose result leaves the
range.
-/

namespace TensorIR

/-- The operations of a ring, those that bring in signs only if `signed`. -/
def BinOp.isRingOp (signed : Bool) : BinOp → Bool
  | .add | .mul => true
  | .sub => signed
  | .div | .ceilDiv | .mod => false

namespace SymExpr

/-- An expression without symbols and quotients; it has signs only if `signed`. -/
def Constant (signed : Bool) : SymExpr → Prop
  | .lit _ => True
  | .sym _ => False
  | .neg e => signed = true ∧ e.Constant signed
  | .bin op l r => op.isRingOp signed = true ∧ l.Constant signed ∧ r.Constant signed

section Rewriting

variable {signed : Bool} {op : BinOp} {a b : SymExpr}

theorem isRingOp_of_isAssocComm (h : op.isAssocComm = true) : op.isRingOp signed = true := by
  cases op <;> simp_all [BinOp.isAssocComm, BinOp.isRingOp]

theorem isRingOp_eq_false_of_isQuotient (h : op.isQuotient = true) :
    op.isRingOp signed = false := by
  cases op <;> simp_all [BinOp.isQuotient, BinOp.isRingOp]

theorem Constant.toSigned {e : SymExpr} (h : e.Constant signed) : e.Constant true := by
  induction e with
  | lit a => trivial
  | sym s => exact h.elim
  | neg e ih => exact ⟨rfl, ih h.2⟩
  | bin op l r ihl ihr =>
    refine ⟨?_, ihl h.2.1, ihr h.2.2⟩
    cases op with
    | add | sub | mul => rfl
    | _ => exact h.1

theorem constant_iff_operands (hop : op.isRingOp signed = true) {e : SymExpr} :
    e.Constant signed ↔ ∀ a ∈ e.operands op, a.Constant signed := by
  induction e with
  | bin op' l r ihl ihr =>
    unfold operands
    split
    case isTrue h =>
      subst h
      simp [Constant, ihl, ihr, hop, or_imp, forall_and]
    case isFalse => simp
  | _ => simp [operands]

theorem Law.constant (h : Law a b) (ha : a.Constant signed) : b.Constant signed := by
  cases h with
  | regroup hop hperm =>
    have hring : BinOp.isRingOp signed _ = true := isRingOp_of_isAssocComm hop
    rw [constant_iff_operands hring] at ha ⊢
    intro x hx
    apply ha
    rwa [hperm.mem_iff]
  | putNeutral hneutral e =>
    exact ⟨isRingOp_of_isAssocComm (Rewrites.isAssocComm_of_neutral hneutral), ha, trivial⟩
  | quotientOne hop e => simp [Constant, isRingOp_eq_false_of_isQuotient hop] at ha
  | cancelFactor hop => simp [Constant, isRingOp_eq_false_of_isQuotient hop] at ha
  | mergeQuotients hop => simp [Constant, isRingOp_eq_false_of_isQuotient hop] at ha
  | _ => cases signed <;> simp_all [Constant, BinOp.isRingOp]

theorem Rewrites.constant (h : Rewrites a b) (ha : a.Constant signed) : b.Constant signed := by
  induction h with
  | refl e => exact ha
  | law h => exact h.constant ha
  | neg _ ih => exact ⟨ha.1, ih ha.2⟩
  | bin op _ _ ihl ihr => exact ⟨ha.1, ihl ha.2.1, ihr ha.2.2⟩
  | trans _ _ ih ih' => exact ih' (ih ha)

end Rewriting

section Overflow

variable {op : BinOp} {e l r : SymExpr}

/-- A literal, or an expression with a part whose value leaves the range. -/
def Settled (e : SymExpr) : Prop :=
  (∃ a, e = lit a) ∨ e.hasOverflow = true

theorem settled_lit (a : Int64) : (lit a).Settled :=
  .inl ⟨a, rfl⟩

theorem hasOverflow_neg (h : e.hasOverflow = true) : (neg e).hasOverflow = true := by
  cases e with
  | lit a => cases h
  | _ => exact h

theorem hasOverflow_bin (h : l.hasOverflow = true ∨ r.hasOverflow = true) :
    (bin op l r).hasOverflow = true := by
  have hor : (l.hasOverflow || r.hasOverflow) = true := Bool.or_eq_true_iff.2 h
  cases l with
  | lit a =>
    cases r with
    | lit b => cases h <;> contradiction
    | _ => exact hor
  | _ => exact hor

/-- An operation that is not folded has no result in range, or a side that has none. -/
theorem settled_bin (hop : op.isRingOp true = true) (hl : l.Settled) (hr : r.Settled)
    (hlits : foldLits op l r = none) : (bin op l r).Settled := by
  rcases hl with ⟨a, rfl⟩ | hl
  · rcases hr with ⟨b, rfl⟩ | hr
    · rw [foldLits, Option.map_eq_none_iff] at hlits
      right
      cases op with
      | add | sub | mul => exact Option.isNone_iff_eq_none.2 hlits
      | _ => cases hop
    · exact .inr (hasOverflow_bin (.inr hr))
  · exact .inr (hasOverflow_bin (.inl hl))

theorem settled_of_foldLits (h : foldLits op l r = some e) : e.Settled :=
  .inl (eq_lit_of_foldLits h)

theorem eq_minValue_of_neg? {a : Int64} (h : a.neg? = none) : a = Int64.minValue := by
  unfold Int64.neg? Int64.ofInt? at h
  split at h
  · cases h
  · next hrange =>
    have hlo := a.le_toInt
    have hhi := a.toInt_lt
    have hmin : Int64.minValue.toInt = -2 ^ 63 := Int64.toInt_minValue
    have hmax : Int64.maxValue.toInt = 2 ^ 63 - 1 := Int64.toInt_maxValue
    rw [← Int64.toInt_inj]
    omega

theorem settled_foldNeg (h : e.Settled) : (foldNeg e).Settled := by
  rcases h with ⟨a, rfl⟩ | h
  · cases hneg : a.neg? with
    | some b =>
      rw [foldNeg, hneg]
      apply settled_lit
    | none =>
      rw [foldNeg, hneg, eq_minValue_of_neg? hneg]
      exact .inr rfl
  · rcases foldNeg_eq e with hfold | ⟨a, hfold⟩
    · rw [hfold]
      exact .inr (hasOverflow_neg h)
    · rw [hfold]
      apply settled_lit

theorem settled_foldAdd (hl : l.Settled) (hr : r.Settled) : (foldAdd l r).Settled := by
  unfold foldAdd
  split
  · exact hr
  · split
    · exact hl
    · split
      case h_1 h => exact settled_of_foldLits h
      case h_2 h =>
        split
        · exact settled_lit 0
        · exact settled_bin rfl hl hr h

theorem settled_foldSub (hl : l.Settled) (hr : r.Settled) : (foldSub l r).Settled := by
  unfold foldSub
  split
  · exact hl
  · split
    case h_1 h => exact settled_of_foldLits h
    case h_2 h =>
      split
      · exact settled_lit 0
      · exact settled_bin rfl hl hr h

theorem settled_foldMul (hl : l.Settled) (hr : r.Settled) : (foldMul l r).Settled := by
  unfold foldMul
  split
  · exact settled_lit 0
  · split
    · exact hr
    · split
      · exact hl
      · cases h : foldLits .mul l r with
        | none => exact settled_bin rfl hl hr h
        | some e => exact settled_of_foldLits h

theorem settled_fold (h : e.Constant true) : e.fold.Settled := by
  induction e with
  | lit a => exact settled_lit a
  | sym s => exact h.elim
  | neg e ih => exact settled_foldNeg (ih h.2)
  | bin op l r ihl ihr =>
    have hl := ihl h.2.1
    have hr := ihr h.2.2
    cases op with
    | add => exact settled_foldAdd hl hr
    | sub => exact settled_foldSub hl hr
    | mul => exact settled_foldMul hl hr
    | _ => cases h.1

theorem constant_canonicalize {signed : Bool} (h : e.Constant signed) :
    e.canonicalize.Constant signed :=
  (rewrites_canonicalize e).constant h

theorem constant_fold {signed : Bool} (h : e.Constant signed) : e.fold.Constant signed :=
  (rewrites_fold e).constant h

theorem constant_and_settled_simplifyRound (h : e.Constant true) :
    e.simplifyRound.Constant true ∧ e.simplifyRound.Settled :=
  ⟨(rewrites_simplifyRound e).constant h, settled_fold (constant_canonicalize h)⟩

/-- Every round folds a constant anew. -/
theorem settled_simplify (h : e.Constant true) : e.simplify.Settled := by
  have hinvariant : e.simplify.Constant true ∧ e.simplify.Settled := by
    refine simplify_induction (P := fun e => e.Constant true ∧ e.Settled) ?_ ?_
    · exact constant_and_settled_simplifyRound h
    · intro e he
      exact constant_and_settled_simplifyRound he.1
  exact hinvariant.2

theorem eq_lit_of_checkedSimplify? {s : SymExpr} (h : e.simplify.Settled)
    (hs : e.checkedSimplify? = some s) : ∃ a, s = lit a := by
  obtain ⟨hoverflow, rfl⟩ := checkedSimplify?_eq_some_iff.1 hs
  rcases h with h | h
  · exact h
  · rw [hoverflow] at h
    cases h

/-- A size that is found for an expression without symbols is the literal of its value. -/
theorem exists_lit_of_checkedSimplify? {s : SymExpr} {v : Int} (h : e.simplify.Settled)
    (hs : e.checkedSimplify? = some s) {σ : Assignment} (hv : e.eval? σ = some v) :
    ∃ a : Int64, s = lit a ∧ a.toInt = v := by
  obtain ⟨a, rfl⟩ := eq_lit_of_checkedSimplify? h hs
  have hvalue := eval?_simplify hv
  rw [(checkedSimplify?_eq_some_iff.1 hs).2, eval?_lit, Option.some.injEq] at hvalue
  exact ⟨a, rfl, hvalue⟩

end Overflow

end SymExpr

end TensorIR
