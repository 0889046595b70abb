import TensorIR.SymExpr.Basic

/-!
Equality up to the order of operands, as a relation with a rule for each way in which two
expressions agree. The order of a sum or product is free at every level, so the two expressions may
agree straight at one level and crossed at the next. Main statement: the relation is an equivalence.
-/

namespace TensorIR.SymExpr

inductive Same : SymExpr → SymExpr → Prop where
  | lit (a : Int64) : Same (lit a) (lit a)
  | sym {s t : Symbol} (hname : s.name = t.name) : Same (sym s) (sym t)
  | neg {a b : SymExpr} (h : Same a b) : Same (neg a) (neg b)
  | straight (op : BinOp) {l r l' r' : SymExpr} (hl : Same l l') (hr : Same r r') :
    Same (bin op l r) (bin op l' r')
  | crossed {op : BinOp} (hop : op.isAssocComm = true) {l r l' r' : SymExpr} (hl : Same l r')
    (hr : Same r l') : Same (bin op l r) (bin op l' r')

variable {a b c : SymExpr}

theorem same_of_relation (h : Same a b) : a.same b = true := by
  induction h with
  | lit a => simp [same]
  | sym hname => simp [same, hname]
  | neg _ ih => exact ih
  | straight op _ _ ihl ihr => simp [same, ihl, ihr]
  | crossed hop _ _ ihl ihr => simp [same, hop, ihl, ihr]

theorem same_iff_relation : a.same b = true ↔ Same a b := by
  refine ⟨?_, same_of_relation⟩
  intro h
  induction a generalizing b with
  | lit x =>
    cases b with
    | lit y =>
      rw [same, beq_iff_eq] at h
      exact h ▸ .lit x
    | _ => cases h
  | sym s =>
    cases b with
    | sym t =>
      rw [same, beq_iff_eq] at h
      exact .sym h
    | _ => cases h
  | neg a ih =>
    cases b with
    | neg b => exact .neg (ih h)
    | _ => cases h
  | bin op l r ihl ihr =>
    cases b with
    | bin op' l' r' =>
      simp only [same, Bool.and_eq_true, Bool.or_eq_true, beq_iff_eq] at h
      obtain ⟨rfl, ⟨hl, hr⟩ | ⟨⟨hop, hl⟩, hr⟩⟩ := h
      · exact .straight op (ihl hl) (ihr hr)
      · exact .crossed hop (ihl hl) (ihr hr)
    | _ => cases h

namespace Same

theorem refl (e : SymExpr) : Same e e := by
  induction e with
  | lit a => exact .lit a
  | sym s => exact .sym rfl
  | neg _ ih => exact .neg ih
  | bin op _ _ ihl ihr => exact .straight op ihl ihr

theorem symm (h : Same a b) : Same b a := by
  induction h with
  | lit a => exact .lit a
  | sym hname => exact .sym hname.symm
  | neg _ ih => exact .neg ih
  | straight op _ _ ihl ihr => exact .straight op ihl ihr
  | crossed hop _ _ ihl ihr => exact .crossed hop ihr ihl

/-- Two pairings of operands make one, which is crossed if exactly one of the two is. -/
theorem trans (hab : Same a b) (hbc : Same b c) : Same a c := by
  induction hab generalizing c with
  | lit a => exact hbc
  | sym hname =>
    cases hbc with
    | sym hname' => exact .sym (hname.trans hname')
  | neg _ ih =>
    cases hbc with
    | neg h => exact .neg (ih h)
  | straight op _ _ ihl ihr =>
    cases hbc with
    | straight _ hl hr => exact .straight op (ihl hl) (ihr hr)
    | crossed hop hl hr => exact .crossed hop (ihl hl) (ihr hr)
  | crossed hop _ _ ihl ihr =>
    cases hbc with
    | straight _ hl hr => exact .crossed hop (ihl hr) (ihr hl)
    | crossed _ hl hr => exact .straight _ (ihl hr) (ihr hl)

end Same

theorem same_refl (e : SymExpr) : e.same e = true :=
  same_of_relation (.refl e)

theorem equivalence_same : Equivalence fun a b : SymExpr => a.same b = true where
  refl := same_refl
  symm h := same_of_relation (same_iff_relation.1 h).symm
  trans hab hbc := same_of_relation ((same_iff_relation.1 hab).trans (same_iff_relation.1 hbc))

theorem eq_lit_of_same {e : SymExpr} {a : Int64} (h : e.same (lit a) = true) : e = lit a := by
  cases same_iff_relation.1 h
  rfl

end TensorIR.SymExpr
