import Mathlib.Algebra.BigOperators.Group.List.Basic
import Mathlib.Algebra.Ring.Int.Defs
import Mathlib.Data.List.Forall2
import TensorIR.Proofs.SymExpr.Same
import TensorIR.SymExpr.Eval

/-!
Values of expressions through their shape: same expressions have the same value, and the value of a
nest of sums or products is the sum or product of the values of its operands, in any order.
-/

namespace TensorIR

def BinOp.collect : BinOp → List Int → Int
  | .mul, vs => vs.prod
  | _, vs => vs.sum

namespace BinOp

variable {op : BinOp}

theorem collect_perm {vs ws : List Int} (h : vs.Perm ws) : op.collect vs = op.collect ws := by
  cases op with
  | mul => exact h.prod_eq
  | _ => exact h.sum_eq

@[simp]
theorem collect_singleton (v : Int) : op.collect [v] = v := by
  cases op <;> simp [collect]

theorem eval?_collect (hop : op.isAssocComm = true) (vs ws : List Int) :
    op.eval? (op.collect vs) (op.collect ws) = some (op.collect (vs ++ ws)) := by
  cases op <;> simp_all [collect, isAssocComm, eval?]

theorem eval?_comm (hop : op.isAssocComm = true) (a b : Int) : op.eval? a b = op.eval? b a := by
  cases op with
  | add => simp only [eval?, Int.add_comm]
  | mul => simp only [eval?, Int.mul_comm]
  | _ => simp [isAssocComm] at hop

end BinOp

namespace SymExpr

variable {σ : Assignment} {op : BinOp}

theorem eval?_neg_eq_some_iff {e : SymExpr} {v : Int} :
    (neg e).eval? σ = some v ↔ ∃ a, e.eval? σ = some a ∧ -a = v := by
  simp only [eval?, Option.map_eq_some_iff]

theorem eval?_bin_eq_some_iff {l r : SymExpr} {v : Int} :
    (bin op l r).eval? σ = some v ↔
      ∃ a b, l.eval? σ = some a ∧ r.eval? σ = some b ∧ op.eval? a b = some v := by
  simp only [eval?, Option.bind_eq_bind, Option.bind_eq_some_iff]
  constructor
  · rintro ⟨a, ha, b, hb, h⟩
    exact ⟨a, b, ha, hb, h⟩
  · rintro ⟨a, b, ha, hb, h⟩
    exact ⟨a, ha, b, hb, h⟩

theorem eval?_lit (a : Int64) : (lit a).eval? σ = some a.toInt := rfl

section Operators

variable {l r : SymExpr} {v : Int}

theorem eval?_add_eq_some_iff :
    (add l r).eval? σ = some v ↔ ∃ a b, l.eval? σ = some a ∧ r.eval? σ = some b ∧ a + b = v := by
  simp only [eval?_bin_eq_some_iff, BinOp.eval?, Option.some.injEq]

theorem eval?_sub_eq_some_iff :
    (sub l r).eval? σ = some v ↔ ∃ a b, l.eval? σ = some a ∧ r.eval? σ = some b ∧ a - b = v := by
  simp only [eval?_bin_eq_some_iff, BinOp.eval?, Option.some.injEq]

theorem eval?_mul_eq_some_iff :
    (mul l r).eval? σ = some v ↔ ∃ a b, l.eval? σ = some a ∧ r.eval? σ = some b ∧ a * b = v := by
  simp only [eval?_bin_eq_some_iff, BinOp.eval?, Option.some.injEq]

theorem eval?_div_eq_some_iff :
    (div l r).eval? σ = some v ↔
      ∃ a b, l.eval? σ = some a ∧ r.eval? σ = some b ∧ b ≠ 0 ∧ a.fdiv b = v := by
  simp only [eval?_bin_eq_some_iff, BinOp.eval?, Option.ite_none_left_eq_some, Option.some.injEq,
    ne_eq]

theorem eval?_ceilDiv_eq_some_iff :
    (ceilDiv l r).eval? σ = some v ↔
      ∃ a b, l.eval? σ = some a ∧ r.eval? σ = some b ∧ b ≠ 0 ∧ -((-a).fdiv b) = v := by
  simp only [eval?_bin_eq_some_iff, BinOp.eval?, Option.ite_none_left_eq_some, Option.some.injEq,
    ne_eq]

theorem eval?_mod_eq_some_iff :
    (mod l r).eval? σ = some v ↔
      ∃ a b, l.eval? σ = some a ∧ r.eval? σ = some b ∧ b ≠ 0 ∧ a.fmod b = v := by
  simp only [eval?_bin_eq_some_iff, BinOp.eval?, Option.ite_none_left_eq_some, Option.some.injEq,
    ne_eq]

end Operators

theorem eval?_bin_comm (hop : op.isAssocComm = true) (l r : SymExpr) :
    (bin op l r).eval? σ = (bin op r l).eval? σ := by
  simp only [eval?]
  cases l.eval? σ with
  | none => cases r.eval? σ <;> rfl
  | some a =>
    cases r.eval? σ with
    | none => rfl
    | some b => exact BinOp.eval?_comm hop a b

theorem Same.eval?_eq {a b : SymExpr} (h : Same a b) : a.eval? σ = b.eval? σ := by
  induction h with
  | lit a => rfl
  | sym hname => simp only [eval?, hname]
  | neg _ ih => simp only [eval?, ih]
  | straight op _ _ ihl ihr => simp only [eval?, ihl, ihr]
  | @crossed op hop l r l' r' _ _ ihl ihr =>
    rw [eval?_bin_comm hop l' r']
    simp only [eval?, ihl, ihr]

theorem eval?_eq_of_same {a b : SymExpr} (h : a.same b = true) : a.eval? σ = b.eval? σ :=
  (same_iff_relation.1 h).eval?_eq

/--
The operators keep equality up to the order of operands, sums and products take their operands in
either order, and equal expressions have the same value or both have none.
-/
theorem same_equivalence :
    (Equivalence fun a b : SymExpr => a.same b = true) ∧
      (∀ a b : SymExpr, a.same b = true → (neg a).same (neg b) = true) ∧
      (∀ (op : BinOp) (l r l' r' : SymExpr), l.same l' = true → r.same r' = true →
        (bin op l r).same (bin op l' r') = true) ∧
      (∀ (op : BinOp) (l r : SymExpr), op.isAssocComm = true →
        (bin op l r).same (bin op r l) = true) ∧
      ∀ (σ : Assignment) (a b : SymExpr), a.same b = true → a.eval? σ = b.eval? σ := by
  refine ⟨equivalence_same, ?_, ?_, ?_, ?_⟩
  · intro a b h
    exact same_of_relation (.neg (same_iff_relation.1 h))
  · intro op l r l' r' hl hr
    exact same_of_relation (.straight op (same_iff_relation.1 hl) (same_iff_relation.1 hr))
  · intro op l r hop
    exact same_of_relation (.crossed hop (.refl l) (.refl r))
  · intro σ a b h
    exact eval?_eq_of_same h

/-- The quotient stands first in one sum and last in the other, and has no value. -/
theorem same_equivalence_crossed :
    (add (div (size "x") (var "y")) (mul (lit 2) (var "z"))).same
        (add (mul (var "z") (lit 2)) (div (var "x") (size "y"))) = true ∧
      (add (mul (var "z") (lit 2)) (div (var "x") (size "y"))).same
        (add (div (size "x") (var "y")) (mul (lit 2) (var "z"))) = true ∧
      (add (div (size "x") (var "y")) (mul (lit 2) (var "z"))).eval? (fun _ => 0) =
        (add (mul (var "z") (lit 2)) (div (var "x") (size "y"))).eval? (fun _ => 0) := by
  have h : (add (div (size "x") (var "y")) (mul (lit 2) (var "z"))).same
      (add (mul (var "z") (lit 2)) (div (var "x") (size "y"))) = true := by decide
  exact ⟨h, same_equivalence.1.symm h, same_equivalence.2.2.2.2 _ _ _ h⟩

/-- The expressions have these values, one each. -/
def ValuesAt (σ : Assignment) (es : List SymExpr) (vs : List Int) : Prop :=
  List.Forall₂ (fun e v => e.eval? σ = some v) es vs

theorem valuesAt_nil : ValuesAt σ [] [] :=
  .nil

theorem ValuesAt.cons {e : SymExpr} {v : Int} (he : e.eval? σ = some v) {es : List SymExpr}
    {vs : List Int} (h : ValuesAt σ es vs) : ValuesAt σ (e :: es) (v :: vs) :=
  List.Forall₂.cons he h

theorem valuesAt_singleton_iff {e : SymExpr} {vs : List Int} :
    ValuesAt σ [e] vs ↔ ∃ v, e.eval? σ = some v ∧ vs = [v] := by
  simp only [ValuesAt, List.forall₂_cons_left_iff, List.forall₂_nil_left_iff]
  constructor
  · rintro ⟨v, _, hv, rfl, rfl⟩
    exact ⟨v, hv, rfl⟩
  · rintro ⟨v, hv, rfl⟩
    exact ⟨v, [], hv, rfl, rfl⟩

theorem ValuesAt.append {es ds : List SymExpr} {vs ws : List Int} (h : ValuesAt σ es vs)
    (h' : ValuesAt σ ds ws) : ValuesAt σ (es ++ ds) (vs ++ ws) :=
  List.rel_append h h'

theorem ValuesAt.exists_of_append {es ds : List SymExpr} {us : List Int}
    (h : ValuesAt σ (es ++ ds) us) :
    ∃ vs ws, ValuesAt σ es vs ∧ ValuesAt σ ds ws ∧ us = vs ++ ws := by
  have hsplit : us = us.take es.length ++ us.drop es.length := (List.take_append_drop _ us).symm
  refine ⟨us.take es.length, us.drop es.length, ?_, ?_, hsplit⟩
  · have := List.forall₂_take es.length h
    rwa [List.take_left] at this
  · have := List.forall₂_drop es.length h
    rwa [List.drop_left] at this

theorem ValuesAt.exists_of_perm {es ds : List SymExpr} {vs : List Int} (h : ValuesAt σ es vs)
    (hp : es.Perm ds) : ∃ ws, ValuesAt σ ds ws ∧ ws.Perm vs :=
  List.perm_comp_forall₂ hp.symm h

theorem ValuesAt.getElem? {es : List SymExpr} {vs : List Int} (h : ValuesAt σ es vs) (i : Nat) :
    Option.Rel (fun e v => e.eval? σ = some v) es[i]? vs[i]? := by
  induction h generalizing i with
  | nil => exact .none
  | cons hv _ ih =>
    cases i with
    | zero => exact .some hv
    | succ i => exact ih i

theorem ValuesAt.eval?_getElem? {es : List SymExpr} {vs : List Int} (h : ValuesAt σ es vs) {i : Nat}
    {e : SymExpr} {v : Int} (he : es[i]? = some e) (hv : vs[i]? = some v) : e.eval? σ = some v := by
  have hi := h.getElem? i
  rw [he, hv] at hi
  cases hi with
  | some hev => exact hev

theorem eval?_eq_some_iff_operands (hop : op.isAssocComm = true) {e : SymExpr} {v : Int} :
    e.eval? σ = some v ↔ ∃ vs, ValuesAt σ (e.operands op) vs ∧ op.collect vs = v := by
  induction e generalizing v with
  | bin op' l r ihl ihr =>
    unfold operands
    split
    case isTrue h =>
      subst h
      rw [eval?_bin_eq_some_iff]
      constructor
      · rintro ⟨a, b, ha, hb, hv⟩
        obtain ⟨as, has, rfl⟩ := ihl.1 ha
        obtain ⟨bs, hbs, rfl⟩ := ihr.1 hb
        rw [BinOp.eval?_collect hop, Option.some.injEq] at hv
        exact ⟨as ++ bs, has.append hbs, hv⟩
      · rintro ⟨vs, hvs, rfl⟩
        obtain ⟨as, bs, has, hbs, rfl⟩ := hvs.exists_of_append
        refine ⟨_, _, ihl.2 ⟨as, has, rfl⟩, ihr.2 ⟨bs, hbs, rfl⟩, ?_⟩
        exact BinOp.eval?_collect hop as bs
    case isFalse => simp [valuesAt_singleton_iff]
  | _ => simp [operands, valuesAt_singleton_iff]

theorem eval?_of_operands_perm (hop : op.isAssocComm = true) {e d : SymExpr} {v : Int}
    (hp : (e.operands op).Perm (d.operands op)) (h : e.eval? σ = some v) :
    d.eval? σ = some v := by
  obtain ⟨vs, hvs, rfl⟩ := (eval?_eq_some_iff_operands hop).1 h
  obtain ⟨ws, hws, hperm⟩ := hvs.exists_of_perm hp
  exact (eval?_eq_some_iff_operands hop).2 ⟨ws, hws, BinOp.collect_perm hperm⟩

theorem respects_iff_operands {e : SymExpr} :
    e.Respects σ ↔ ∀ a ∈ e.operands op, a.Respects σ := by
  induction e with
  | bin op' l r ihl ihr =>
    unfold operands
    split
    case isTrue h =>
      subst h
      simp only [Respects, ihl, ihr, List.mem_append, or_imp, forall_and]
    case isFalse => simp
  | _ => simp [operands]

theorem operands_of_mem_operands {a e : SymExpr} (h : a ∈ e.operands op) :
    a.operands op = [a] := by
  induction e with
  | bin op' l r ihl ihr =>
    unfold operands at h
    split at h
    case isTrue => exact (List.mem_append.1 h).elim ihl ihr
    case isFalse hne =>
      rw [List.mem_singleton] at h
      rw [h, operands, if_neg hne]
  | _ =>
    simp only [operands, List.mem_singleton] at h
    rw [h]
    rfl

theorem operands_bin_self (l r : SymExpr) :
    (bin op l r).operands op = l.operands op ++ r.operands op := by
  rw [operands, if_pos rfl]

theorem operands_foldl (e : SymExpr) (es : List SymExpr) :
    (es.foldl (bin op) e).operands op = e.operands op ++ es.flatMap (operands op) := by
  induction es generalizing e with
  | nil => simp
  | cons d es ih =>
    rw [List.foldl_cons, ih, operands_bin_self, List.flatMap_cons, List.append_assoc]

theorem operands_ofOperands {unit : SymExpr} {es : List SymExpr} (h : es ≠ []) :
    (ofOperands op unit es).operands op = es.flatMap (operands op) := by
  cases es with
  | nil => exact absurd rfl h
  | cons e es => rw [ofOperands, operands_foldl, List.flatMap_cons]

theorem operands_ofOperands_of_terms {unit : SymExpr} {es : List SymExpr} (hes : es ≠ [])
    (h : ∀ e ∈ es, e.operands op = [e]) : (ofOperands op unit es).operands op = es := by
  rw [operands_ofOperands hes, List.flatMap_congr (g := fun e => [e]) h, List.flatMap_singleton']

end SymExpr

end TensorIR
