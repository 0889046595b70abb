import TensorIR.Proofs.SymExpr.Bounds
import TensorIR.Proofs.SymExpr.Simplify

/-!
Expressions without differences. The laws bring none in and canonicalization turns each into a sum,
so simplified expressions have none. Main statement: the operations of an expression without
differences stop nowhere if all its parts fit.
-/

namespace TensorIR.SymExpr

def DifferenceFree : SymExpr → Prop
  | .lit _ => True
  | .sym _ => True
  | .neg e => e.DifferenceFree
  | .bin op l r => op ≠ .sub ∧ l.DifferenceFree ∧ r.DifferenceFree

theorem differenceFree_iff_operands {op : BinOp} (hop : op ≠ .sub) {e : SymExpr} :
    e.DifferenceFree ↔ ∀ a ∈ e.operands op, a.DifferenceFree := by
  induction e with
  | bin op' l r ihl ihr =>
    unfold operands
    split
    case isTrue h =>
      subst h
      simp [DifferenceFree, ihl, ihr, hop, or_imp, forall_and]
    case isFalse => simp
  | _ => simp [operands]

theorem differenceFree_ofOperands {op : BinOp} (hop : op ≠ .sub) (a : Int64) {es : List SymExpr}
    (h : ∀ e ∈ es, e.DifferenceFree) : (ofOperands op (lit a) es).DifferenceFree := by
  cases es with
  | nil => trivial
  | cons e es =>
    rw [differenceFree_iff_operands hop, operands_ofOperands (List.cons_ne_nil e es)]
    intro d hd
    rw [List.mem_flatMap] at hd
    obtain ⟨b, hb, hd⟩ := hd
    exact (differenceFree_iff_operands hop).1 (h b hb) d hd

section Rewriting

variable {a b : SymExpr}

theorem Law.differenceFree (h : Law a b) (ha : a.DifferenceFree) : b.DifferenceFree := by
  cases h with
  | @regroup op _ _ hop hperm =>
    have hsub : op ≠ .sub := by
      intro hsub
      simp [hsub, BinOp.isAssocComm] at hop
    rw [differenceFree_iff_operands hsub] at ha ⊢
    intro x hx
    apply ha
    rwa [hperm.mem_iff]
  | @putNeutral op _ hneutral =>
    have hsub : op ≠ .sub := by
      intro hsub
      simp [hsub, BinOp.neutral?] at hneutral
    exact ⟨hsub, ha, trivial⟩
  | _ => simp_all [DifferenceFree]

theorem Rewrites.differenceFree (h : Rewrites a b) (ha : a.DifferenceFree) :
    b.DifferenceFree := by
  induction h with
  | refl e => exact ha
  | law h => exact h.differenceFree ha
  | neg _ ih => exact ih ha
  | bin op _ _ ihl ihr => exact ⟨ha.1, ihl ha.2.1, ihr ha.2.2⟩
  | trans _ _ ih ih' => exact ih' (ih ha)

end Rewriting

theorem differenceFree_canonicalize (e : SymExpr) : e.canonicalize.DifferenceFree := by
  match e with
  | lit a => simp [DifferenceFree]
  | sym s => simp [DifferenceFree]
  | neg e =>
    have he := differenceFree_canonicalize e
    rw [canonicalize_neg]
    split
    case h_1 => exact (rewrites_negateTerm _).differenceFree he
    case h_2 l r h =>
      have hweight := weight_canonicalize_le e
      rw [eq_add_of_sum? h] at hweight
      have hlt : (add (neg l) (neg r)).weight < (neg e).weight := by
        simp only [weight] at hweight ⊢
        omega
      exact differenceFree_canonicalize (add (neg l) (neg r))
  | add l r =>
    rw [canonicalize_add]
    apply (rewrites_sumOf _).differenceFree
    apply differenceFree_ofOperands (by decide)
    rw [List.forall_mem_map]
    intro a ha
    have := weight_lt_of_mem_operands ha
    exact differenceFree_canonicalize a
  | mul l r =>
    rw [canonicalize_mul]
    apply (rewrites_productOf _).differenceFree
    apply differenceFree_ofOperands (by decide)
    rw [List.forall_mem_map]
    intro a ha
    have := weight_lt_of_mem_operands ha
    exact differenceFree_canonicalize a
  | sub l r =>
    have hl := weight_canonicalize_le l
    have hr := weight_canonicalize_le r
    have hlt : (add l.canonicalize (neg r.canonicalize)).weight < (sub l r).weight := by
      simp only [weight]
      omega
    rw [canonicalize_sub]
    exact differenceFree_canonicalize (add l.canonicalize (neg r.canonicalize))
  | div l r =>
    rw [canonicalize_div]
    exact ⟨by decide, differenceFree_canonicalize l, differenceFree_canonicalize r⟩
  | ceilDiv l r =>
    rw [canonicalize_ceilDiv]
    exact ⟨by decide, differenceFree_canonicalize l, differenceFree_canonicalize r⟩
  | mod l r =>
    rw [canonicalize_mod]
    exact ⟨by decide, differenceFree_canonicalize l, differenceFree_canonicalize r⟩
termination_by e.weight
decreasing_by
  all_goals first
    | assumption
    | (simp only [weight]; omega)

theorem differenceFree_simplify (e : SymExpr) : e.simplify.DifferenceFree := by
  apply (rewrites_simplifyRounds 7 e.simplifyRound).differenceFree
  apply (rewrites_fold e.canonicalize).differenceFree
  apply differenceFree_canonicalize

theorem eval?_eq_saturated {σ : Assignment} {e : SymExpr} (h : e.DifferenceFree)
    (hfit : e.FitsAt σ) : e.eval? σ = some (e.saturated σ).toInt := by
  induction e with
  | lit a => rfl
  | sym s =>
    obtain ⟨a, ha⟩ := hfit
    rw [eval?, Option.some.injEq] at ha
    rw [eval?, saturated, ha, Int64.ofIntClamp_toInt]
  | neg e ih =>
    obtain ⟨hfit, c, hc⟩ := hfit
    have he := ih h hfit
    rw [eval?, he, Option.map_some, Option.some.injEq] at hc
    rw [eval?, he, Option.map_some, saturated, Int64.satNeg, hc, Int64.ofIntClamp_toInt]
  | bin op l r ihl ihr =>
    obtain ⟨hl, hr, c, hc⟩ := hfit
    have hop := hc
    simp only [eval?, ihl h.2.1 hl, ihr h.2.2 hr, Option.bind_eq_bind, Option.bind_some] at hop
    rw [saturated, Interval.saturate_eq_of_eval? h.1 hop, hc]

end TensorIR.SymExpr
