import TensorIR.Proofs.SymExpr.Rewriting
import TensorIR.Proofs.Word64
import TensorIR.SymExpr.Canonical

/-!
Canonicalization only rewrites: regrouping, cancelling opposite terms and moving negations inwards
are applications of the laws.
-/

namespace TensorIR.SymExpr

variable {op : BinOp} {unit : SymExpr}

namespace Rewrites

theorem foldl {a b : SymExpr} (h : Rewrites a b) {es ds : List SymExpr}
    (hes : List.Forall₂ Rewrites es ds) :
    Rewrites (es.foldl (SymExpr.bin op) a) (ds.foldl (SymExpr.bin op) b) := by
  induction hes generalizing a b with
  | nil => exact h
  | cons hhead _ ih =>
    apply ih
    exact bin op h hhead

theorem ofOperands {es ds : List SymExpr} (h : List.Forall₂ Rewrites es ds) :
    Rewrites (SymExpr.ofOperands op unit es) (SymExpr.ofOperands op unit ds) := by
  cases h with
  | nil => exact refl unit
  | cons hhead htail => exact foldl hhead htail

theorem regroup (op : BinOp) (hop : op.isAssocComm = true) {a b : SymExpr}
    (h : (a.operands op).Perm (b.operands op)) : Rewrites a b :=
  law (.regroup hop h)

theorem ofOperands_perm (hop : op.isAssocComm = true) {es ds : List SymExpr} (h : es.Perm ds) :
    Rewrites (SymExpr.ofOperands op unit es) (SymExpr.ofOperands op unit ds) := by
  cases es with
  | nil =>
    rw [List.nil_perm.1 h]
    apply refl
  | cons e es =>
    have hds : ds ≠ [] := by
      intro hds
      rw [hds, List.perm_nil] at h
      exact absurd h (List.cons_ne_nil e es)
    apply regroup op hop
    rw [operands_ofOperands (List.cons_ne_nil e es)]
    rw [operands_ofOperands hds]
    apply h.flatMap_right

theorem flatten (op : BinOp) (hop : op.isAssocComm = true) (e : SymExpr) :
    Rewrites e (SymExpr.ofOperands op unit (e.operands op)) := by
  apply regroup op hop
  rw [operands_ofOperands (operands_ne_nil op e)]
  -- The operands of a nest are no nests of the same operator, so they are their own operands.
  have h : (e.operands op).flatMap (operands op) = (e.operands op).flatMap ([·]) := by
    apply List.flatMap_congr
    intro a ha
    exact operands_of_mem_operands ha
  rw [h]
  simp

variable {u : Int64}

theorem isAssocComm_of_neutral (hu : op.neutral? = some u) : op.isAssocComm = true := by
  cases op <;> simp_all [BinOp.neutral?, BinOp.isAssocComm]

theorem ofOperands_cons (hu : op.neutral? = some u) (e : SymExpr) (es : List SymExpr) :
    Rewrites (SymExpr.ofOperands op (lit u) (e :: es))
      (.bin op e (SymExpr.ofOperands op (lit u) es)) := by
  cases es with
  | nil => exact law (.putNeutral hu e)
  | cons d es =>
    apply regroup op (isAssocComm_of_neutral hu)
    rw [operands_ofOperands (List.cons_ne_nil _ _)]
    rw [operands_bin_self]
    rw [operands_ofOperands (List.cons_ne_nil _ _)]
    rw [List.flatMap_cons]

theorem cons_ofOperands (hu : op.neutral? = some u) (e : SymExpr) (es : List SymExpr) :
    Rewrites (.bin op e (SymExpr.ofOperands op (lit u) es))
      (SymExpr.ofOperands op (lit u) (e :: es)) := by
  cases es with
  | nil => exact law (.dropNeutral hu e)
  | cons d es =>
    apply regroup op (isAssocComm_of_neutral hu)
    rw [operands_bin_self]
    rw [operands_ofOperands (List.cons_ne_nil _ _)]
    rw [operands_ofOperands (List.cons_ne_nil _ _)]
    rw [List.flatMap_cons (x := e)]

theorem add_of_isOpposite {a b : SymExpr} (h : a.isOpposite b = true) :
    Rewrites (add a b) (lit 0) := by
  simp only [isOpposite, Bool.or_eq_true] at h
  cases h with
  | inl h =>
    cases b with
    | neg x => exact law (.addNeg h)
    | _ => simp [isOpposite.negates] at h
  | inr h =>
    cases a with
    | neg x =>
      have hswap : Rewrites (add (.neg x) b) (add b (.neg x)) := by
        apply regroup .add rfl
        rw [operands_bin_self]
        rw [operands_bin_self]
        exact List.perm_append_comm
      exact hswap.trans (law (.addNeg h))
    | _ => simp [isOpposite.negates] at h

theorem cancelOpposites (es : List SymExpr) :
    Rewrites (SymExpr.ofOperands .add (lit 0) es)
      (SymExpr.ofOperands .add (lit 0) (SymExpr.cancelOpposites es)) := by
  fun_induction SymExpr.cancelOpposites es with
  | case1 a b es h ih =>
    have hsplit : Rewrites (SymExpr.ofOperands .add (lit 0) (a :: b :: es))
        (add a (add b (SymExpr.ofOperands .add (lit 0) es))) := by
      apply (ofOperands_cons rfl a (b :: es)).trans
      exact bin .add (refl a) (ofOperands_cons rfl b es)
    have hregroup : Rewrites (add a (add b (SymExpr.ofOperands .add (lit 0) es)))
        (add (SymExpr.ofOperands .add (lit 0) es) (add a b)) := by
      apply regroup .add rfl
      simp only [operands_bin_self]
      rw [← List.append_assoc]
      exact List.perm_append_comm
    have hcancel : Rewrites (add (SymExpr.ofOperands .add (lit 0) es) (add a b))
        (SymExpr.ofOperands .add (lit 0) es) := by
      apply (bin .add (refl _) (add_of_isOpposite h)).trans
      exact law (.dropNeutral rfl _)
    exact (hsplit.trans (hregroup.trans hcancel)).trans ih
  | case2 a b es _ ih =>
    apply (ofOperands_cons rfl a (b :: es)).trans
    apply (bin .add (refl a) ih).trans
    exact cons_ofOperands rfl a _
  | case3 => apply refl

end Rewrites

theorem rewrites_foldNeg (e : SymExpr) : Rewrites (neg e) (foldNeg e) := by
  unfold foldNeg
  split
  · split
    · next h => exact .law (.foldNeg (Int64.neg?_eq_some_iff.1 h))
    · apply Rewrites.refl
  · apply Rewrites.refl

theorem rewrites_negateTerm (e : SymExpr) : Rewrites (neg e) (negateTerm e) := by
  unfold negateTerm
  split
  · exact .law (.negNeg _)
  · exact rewrites_foldNeg e

theorem rewrites_sumOf (es : List SymExpr) :
    Rewrites (ofOperands .add (lit 0) es) (sumOf es) := by
  apply (Rewrites.ofOperands_perm rfl (sortTerms_perm es).symm).trans
  apply Rewrites.cancelOpposites

theorem rewrites_productOf (es : List SymExpr) :
    Rewrites (ofOperands .mul (lit 1) es) (productOf es) :=
  Rewrites.ofOperands_perm rfl (sortTerms_perm es).symm

theorem rewrites_canonicalize (e : SymExpr) : Rewrites e e.canonicalize := by
  match e with
  | lit a =>
    rw [canonicalize_lit]
    apply Rewrites.refl
  | sym s =>
    rw [canonicalize_sym]
    apply Rewrites.refl
  | neg e =>
    have he := (rewrites_canonicalize e).neg
    rw [canonicalize_neg]
    split
    case h_1 => exact he.trans (rewrites_negateTerm _)
    case h_2 l r h =>
      have hweight := weight_canonicalize_le e
      rw [eq_add_of_sum? h] at he hweight
      have hlt : (add (neg l) (neg r)).weight < (neg e).weight := by
        simp only [weight] at hweight ⊢
        omega
      apply he.trans
      apply (Rewrites.law (.negAdd l r)).trans
      exact rewrites_canonicalize (add (neg l) (neg r))
  | add l r =>
    rw [canonicalize_add]
    apply (Rewrites.flatten .add rfl (add l r)).trans
    refine Rewrites.trans ?_ (rewrites_sumOf _)
    apply Rewrites.ofOperands
    rw [List.forall₂_map_right_iff, List.forall₂_same]
    intro a ha
    have := weight_lt_of_mem_operands ha
    exact rewrites_canonicalize a
  | mul l r =>
    rw [canonicalize_mul]
    apply (Rewrites.flatten .mul rfl (mul l r)).trans
    refine Rewrites.trans ?_ (rewrites_productOf _)
    apply Rewrites.ofOperands
    rw [List.forall₂_map_right_iff, List.forall₂_same]
    intro a ha
    have := weight_lt_of_mem_operands ha
    exact rewrites_canonicalize a
  | sub l r =>
    have hl := weight_canonicalize_le l
    have hr := weight_canonicalize_le r
    have hlt : (add l.canonicalize (neg r.canonicalize)).weight < (sub l r).weight := by
      simp only [weight]
      omega
    rw [canonicalize_sub]
    apply (Rewrites.law (.subAsAdd l r)).trans
    refine Rewrites.trans ?_ (rewrites_canonicalize (add l.canonicalize (neg r.canonicalize)))
    exact .bin .add (rewrites_canonicalize l) (rewrites_canonicalize r).neg
  | div l r =>
    rw [canonicalize_div]
    exact .bin .div (rewrites_canonicalize l) (rewrites_canonicalize r)
  | ceilDiv l r =>
    rw [canonicalize_ceilDiv]
    exact .bin .ceilDiv (rewrites_canonicalize l) (rewrites_canonicalize r)
  | mod l r =>
    rw [canonicalize_mod]
    exact .bin .mod (rewrites_canonicalize l) (rewrites_canonicalize r)
termination_by e.weight
decreasing_by
  all_goals first
    | assumption
    | (simp only [weight]; omega)

end TensorIR.SymExpr
