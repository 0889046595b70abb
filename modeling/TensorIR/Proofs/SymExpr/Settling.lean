import TensorIR.Proofs.SymExpr.Linear

/-!
Rounds of simplification on linear expressions. A round turns each composite into what it makes of
the composite alone, and takes opposite terms out of the sum; nothing else changes the coefficients
or the word of the composites. So a linear expression whose composites come to rest becomes a flat
sum of terms at rest, which has the coefficients and the word that they settle to.
-/

namespace TensorIR.SymExpr

variable {g : SymExpr → SymExpr} {R C : SymExpr → Prop} {e l r u v x : SymExpr} {p : Part}
  {es : List SymExpr}

section Terms

/-- A linear expression whose composites are all of the given kind. -/
def Linear (R : SymExpr → Prop) : SymExpr → Prop
  | .lit a => a ≠ Int64.minValue
  | .sym _ => True
  | .neg e => Linear R e
  | .bin .add l r => Linear R l ∧ Linear R r
  | e => e.IsComposite ∧ R e

/-- The canonical form of a composite of the given kind. -/
def FormOf (R : SymExpr → Prop) (t : SymExpr) : Prop :=
  ∃ s, s.IsComposite ∧ R s ∧ s.canonicalize = t

/-- A symbol, or a composite in canonical form. -/
inductive Base (R : SymExpr → Prop) : SymExpr → Prop where
  | sym (s : Symbol) : Base R (sym s)
  | composite {t : SymExpr} (h : FormOf R t) : Base R t

/-- A term of a flat sum. -/
inductive Atom (R : SymExpr → Prop) : SymExpr → Prop where
  | lit (a : Int64) : Atom R (lit a)
  | base {u : SymExpr} (h : Base R u) : Atom R u
  | neg {u : SymExpr} (h : Base R u) : Atom R (neg u)

/-- A sum of literals, symbols and composites in canonical form, and negations of the latter two. -/
def Flat (R : SymExpr → Prop) (e : SymExpr) : Prop :=
  ∀ u ∈ e.operands .add, Atom R u

theorem IsComposite.linear_iff (h : e.IsComposite) : Linear R e ↔ R e := by
  obtain ⟨op, l, r, rfl, hadd, _⟩ := h.exists_bin
  cases op <;> first | contradiction | exact and_iff_right h

theorem linear_of_mem_operands (h : Linear R e) (hu : u ∈ e.operands .add) : Linear R u := by
  induction e with
  | bin op l r ihl ihr =>
    by_cases hop : op = .add
    · subst hop
      rw [operands_bin_self, List.mem_append] at hu
      rcases hu with hu | hu
      · exact ihl h.1 hu
      · exact ihr h.2 hu
    · rw [operands_bin_ne hop, List.mem_singleton] at hu
      rwa [hu]
  | _ =>
    simp only [operands, List.mem_singleton] at hu
    rwa [hu]

theorem FormOf.isComposite (h : FormOf R u) : u.IsComposite := by
  obtain ⟨s, hcomposite, _, rfl⟩ := h
  exact hcomposite.canonicalize

namespace Base

theorem ne_neg (h : Base R u) (x : SymExpr) : u ≠ SymExpr.neg x := by
  cases h with
  | sym s => exact SymExpr.noConfusion
  | composite h => exact h.isComposite.ne_neg x

theorem operands_eq (h : Base R u) : u.operands .add = [u] := by
  cases h with
  | sym s => rfl
  | composite h => exact h.isComposite.operands_eq

theorem foldNeg_eq (h : Base R u) : foldNeg u = SymExpr.neg u := by
  cases h with
  | sym s => rfl
  | composite h =>
    obtain ⟨op, l, r, rfl, _⟩ := h.isComposite.exists_bin
    rfl

end Base

namespace Atom

theorem operands_eq (h : Atom R u) : u.operands .add = [u] := by
  cases h with
  | lit a => rfl
  | base h => exact h.operands_eq
  | neg h => rfl

theorem flat (h : Atom R u) : Flat R u := by
  unfold Flat
  rw [h.operands_eq, List.forall_mem_singleton]
  exact h

end Atom

theorem forall_operands_add_iff {P : SymExpr → Prop} :
    (∀ u ∈ (add l r).operands .add, P u) ↔
      (∀ u ∈ l.operands .add, P u) ∧ ∀ u ∈ r.operands .add, P u := by
  rw [operands_bin_self, List.forall_mem_append]

theorem flat_add_iff : Flat R (add l r) ↔ Flat R l ∧ Flat R r :=
  forall_operands_add_iff

theorem Flat.atom_of_operands (h : Flat R e) (he : e.operands .add = [e]) : Atom R e := by
  unfold Flat at h
  rw [he, List.forall_mem_singleton] at h
  exact h

theorem Flat.base_of_neg (h : Flat R (neg u)) : Base R u := by
  cases h.atom_of_operands rfl with
  | base h => exact absurd rfl (h.ne_neg u)
  | neg h => exact h

theorem Flat.formOf (h : Flat R u) (hcomposite : u.IsComposite) : FormOf R u := by
  cases h.atom_of_operands hcomposite.operands_eq with
  | lit a => exact hcomposite.elim
  | neg h => exact hcomposite.elim
  | base h =>
    cases h with
    | sym s => exact hcomposite.elim
    | composite h => exact h

theorem flat_sumOf (h : ∀ e ∈ es, Flat R e) : Flat R (sumOf es) := by
  apply ofOperands_of_forall (Atom.lit 0).flat fun _ _ hl hr => flat_add_iff.2 ⟨hl, hr⟩
  intro e he
  exact h e (mem_of_mem_cancelOpposites he)

theorem linear_sumOf (h : ∀ e ∈ es, Linear R e) : Linear R (sumOf es) := by
  have hzero : (0 : Int64) ≠ Int64.minValue := by decide
  apply ofOperands_of_forall (P := Linear R) hzero fun _ _ hl hr => ⟨hl, hr⟩
  intro e he
  exact h e (mem_of_mem_cancelOpposites he)

end Terms

section Canonical

/-- A flat linear expression. Its literals are other than the least one. -/
structure Tidy (R : SymExpr → Prop) (e : SymExpr) : Prop where
  flat : Flat R e
  linear : Linear R e

theorem exists_foldNeg_lit {a : Int64} (h : a ≠ Int64.minValue) :
    ∃ b ≠ Int64.minValue, foldNeg (lit a) = lit b ∧ Shrinks (neg (lit a)) (lit b) := by
  cases hneg : a.neg? with
  | none => exact absurd (eq_minValue_of_neg? hneg) h
  | some b =>
    have hb := Int64.neg?_eq_some_iff.1 hneg
    refine ⟨b, ?_, by rw [foldNeg, hneg], Shrinks.negLit hneg⟩
    rintro rfl
    have := a.toInt_lt
    rw [Int64.toInt_minValue] at hb
    omega

theorem Tidy.negateTerm (h : Tidy R e) (he : e.operands .add = [e]) :
    Tidy R (negateTerm e) ∧ Shrinks (mapComposites g (neg e)) (mapComposites g (negateTerm e)) := by
  obtain ⟨hflat, hlinear⟩ := h
  cases hflat.atom_of_operands he with
  | lit a =>
    obtain ⟨b, hb, hfold, hshrinks⟩ := exists_foldNeg_lit hlinear
    rw [negateTerm_eq fun _ => SymExpr.noConfusion, hfold]
    exact ⟨⟨(Atom.lit b).flat, hb⟩, hshrinks⟩
  | base hbase =>
    rw [negateTerm_eq hbase.ne_neg, hbase.foldNeg_eq]
    exact ⟨⟨(Atom.neg hbase).flat, hlinear⟩, Shrinks.refl _⟩
  | neg hbase => exact ⟨⟨(Atom.base hbase).flat, hlinear⟩, Shrinks.negNeg _⟩

/--
Composites of whose canonical form `g` makes one composite at most, the same if it is canonicalized
once more, and the same for all that differ in the order of operands only.
-/
structure Tame (g : SymExpr → SymExpr) (R : SymExpr → Prop) : Prop where
  canonicalize_mem {e : SymExpr} (h : R e) : R e.canonicalize
  canonicalize_canonicalize {e : SymExpr} (h : R e) :
    g e.canonicalize.canonicalize = g e.canonicalize
  alike {u v : SymExpr} (hu : R u) (hv : R v) (h : u.same v = true) :
    Alike (g u.canonicalize) (g v.canonicalize)
  amount_le {e : SymExpr} (h : R e) : (g e.canonicalize).amount .composite ≤ 1

variable (hR : Tame g R)
include hR

theorem Tame.mem_of_formOf (h : FormOf R u) : R u := by
  obtain ⟨s, _, hs, rfl⟩ := h
  exact hR.canonicalize_mem hs

theorem Tame.mapComposites_formOf (h : FormOf R u) : mapComposites g u = g u := by
  rw [h.isComposite.mapComposites_eq]
  obtain ⟨s, _, hs, rfl⟩ := h
  exact hR.canonicalize_canonicalize hs

theorem Tame.amount_base_le (h : Base R u) : (mapComposites g u).amount .composite ≤ 1 := by
  cases h with
  | sym s => simp [mapComposites, amount]
  | composite h =>
    rw [h.isComposite.mapComposites_eq]
    exact hR.amount_le (hR.mem_of_formOf h)

theorem Tame.alike_of_same (hu : Base R u) (hv : Flat R v) (h : v.same u = true) :
    Alike (mapComposites g v) (mapComposites g u) := by
  cases hu with
  | sym s =>
    cases same_iff_relation.1 h with
    | sym hname => exact ⟨fun p => by simp only [mapComposites, coefficient, hname], rfl⟩
  | composite hu =>
    have hv' := hu.isComposite.of_same (same_iff_relation.1 h).symm
    rw [hu.isComposite.mapComposites_eq, hv'.mapComposites_eq]
    exact hR.alike (hR.mem_of_formOf (hv.formOf hv')) (hR.mem_of_formOf hu) h

/-- Terms of which one negates the other come to zero, in both orders. -/
theorem Tame.add_eq_zero_of_negates (hu : Flat R u) (hv : Flat R v)
    (h : isOpposite.negates u v = true) :
    (∀ p, (mapComposites g u).coefficient p + (mapComposites g v).coefficient p = 0) ∧
      (mapComposites g u).composites + (mapComposites g v).composites = 0 ∧
      (mapComposites g v).composites + (mapComposites g u).composites = 0 := by
  cases u with
  | neg x =>
    have hx := hu.base_of_neg
    have halike := hR.alike_of_same hx hv h
    have hopposite := opposite_composites (hR.amount_base_le hx)
    rw [halike.composites_eq] at hopposite
    refine ⟨?_, ?_⟩
    · intro p
      have := halike.coefficient_eq p
      simp only [mapComposites, coefficient]
      omega
    · rw [mapComposites, composites, halike.composites_eq, hopposite]
      exact ⟨neg_add_cancel _, add_neg_cancel _⟩
  | _ => cases h

theorem Tame.add_eq_zero_of_isOpposite (hu : Flat R u) (hv : Flat R v)
    (h : u.isOpposite v = true) :
    (∀ p, (mapComposites g u).coefficient p + (mapComposites g v).coefficient p = 0) ∧
      (mapComposites g u).composites + (mapComposites g v).composites = 0 := by
  rw [isOpposite, Bool.or_eq_true] at h
  rcases h with h | h
  · obtain ⟨hcoefficient, _, hcomposites⟩ := hR.add_eq_zero_of_negates hv hu h
    exact ⟨fun p => (Int.add_comm _ _).trans (hcoefficient p), hcomposites⟩
  · obtain ⟨hcoefficient, hcomposites, _⟩ := hR.add_eq_zero_of_negates hu hv h
    exact ⟨hcoefficient, hcomposites⟩

/-- The sum of the canonical forms of its terms has what the expression has. -/
theorem Tame.flat_sumOf (h : ∀ u ∈ e.operands .add,
      Flat R u.canonicalize ∧ Shrinks (mapComposites g u) (mapComposites g u.canonicalize)) :
    let s := sumOf ((e.operands .add).map canonicalize)
    Flat R s ∧ Shrinks (mapComposites g e) (mapComposites g s) := by
  intro s
  have hflat : ∀ u ∈ (e.operands .add).map canonicalize, Flat R u := by
    rw [List.forall_mem_map]
    exact fun u hu => (h u hu).1
  have hopposite : ∀ u ∈ (e.operands .add).map canonicalize,
      ∀ v ∈ (e.operands .add).map canonicalize, u.isOpposite v = true → _ :=
    fun u hu v hv huv => hR.add_eq_zero_of_isOpposite (hflat u hu) (hflat v hv) huv
  refine ⟨SymExpr.flat_sumOf hflat, ⟨?_, ?_⟩, ?_⟩
  · intro p
    rw [((addsUp_coefficient p).mapComposites g).sumOf (fun u _ v _ _ => Int.add_comm _ _)
        fun u hu v hv huv => (hopposite u hu v hv huv).1 p,
      ((addsUp_coefficient p).mapComposites g).operands e, List.map_map]
    exact congrArg List.sum (List.map_congr_left fun u hu => (h u hu).2.coefficient_eq p)
  · rw [(addsUp_composites.mapComposites g).sumOf _
        fun u hu v hv huv => (hopposite u hu v hv huv).2,
      (addsUp_composites.mapComposites g).operands e, List.map_map]
    · exact congrArg List.sum (List.map_congr_left fun u hu => (h u hu).2.composites_eq)
    · intro u _ v _ huv
      obtain ⟨heq, hzero⟩ := composites_of_not_precedes (g := g) huv
      rw [heq, hzero, add_zero, zero_add]
  · intro p
    apply Nat.le_trans (((addsUp_amount p).mapComposites g).sumOf_le _)
    rw [((addsUp_amount p).mapComposites g).operands e, List.map_map]
    exact List.sum_le_sum fun u hu => (h u hu).2.amount_le p

theorem Tame.canonicalize (e : SymExpr) (h : Linear R e) :
    Tidy R e.canonicalize ∧ Shrinks (mapComposites g e) (mapComposites g e.canonicalize) := by
  match e with
  | lit a =>
    rw [canonicalize_lit]
    exact ⟨⟨(Atom.lit a).flat, h⟩, Shrinks.refl _⟩
  | sym s =>
    rw [canonicalize_sym]
    exact ⟨⟨(Atom.base (.sym s)).flat, trivial⟩, Shrinks.refl _⟩
  | neg e =>
    obtain ⟨htidy, hshrinks⟩ := Tame.canonicalize e h
    rw [canonicalize_neg]
    rcases eq_add_or_operands_eq e.canonicalize with ⟨l, r, hadd⟩ | hterm
    · have hweight := weight_canonicalize_le e
      rw [hadd] at hweight htidy hshrinks ⊢
      have hlt : (add (neg l) (neg r)).weight < (neg e).weight := by
        simp only [weight] at hweight ⊢
        omega
      obtain ⟨htidy', hshrinks'⟩ := Tame.canonicalize (add (neg l) (neg r)) htidy.linear
      exact ⟨htidy', (hshrinks.neg.trans (Shrinks.negAdd _ _)).trans hshrinks'⟩
    · obtain ⟨htidy', hshrinks'⟩ := htidy.negateTerm (g := g) hterm
      rw [sum?_eq_none hterm]
      exact ⟨htidy', hshrinks.neg.trans hshrinks'⟩
  | add l r =>
    have hoperands : ∀ u ∈ (add l r).operands .add,
        Tidy R u.canonicalize ∧ Shrinks (mapComposites g u) (mapComposites g u.canonicalize) := by
      intro u hu
      have := weight_lt_of_mem_operands hu
      exact Tame.canonicalize u (linear_of_mem_operands h hu)
    obtain ⟨hflat, hshrinks⟩ := hR.flat_sumOf (e := add l r) fun u hu =>
      ⟨(hoperands u hu).1.flat, (hoperands u hu).2⟩
    rw [canonicalize_add]
    refine ⟨⟨hflat, linear_sumOf ?_⟩, hshrinks⟩
    rw [List.forall_mem_map]
    exact fun u hu => (hoperands u hu).1.linear
  | sub l r => exact absurd rfl h.1.2
  | mul l r | div l r | ceilDiv l r | mod l r =>
    obtain ⟨hcomposite, h⟩ := h
    have hform : FormOf R _ := ⟨_, hcomposite, h, rfl⟩
    refine ⟨⟨(Atom.base (.composite hform)).flat, ?_⟩, ?_⟩
    · exact hcomposite.canonicalize.linear_iff.2 (hR.canonicalize_mem h)
    · rw [hcomposite.mapComposites_eq, hR.mapComposites_formOf hform]
      exact Shrinks.refl _
termination_by e.weight
decreasing_by
  all_goals first
    | assumption
    | (simp only [weight]; omega)

/-- A sum of linear expressions and literals, of which one may be the least literal. -/
def LinearSum (R : SymExpr → Prop) (e : SymExpr) : Prop :=
  ∀ u ∈ e.operands .add, (∃ a, u = lit a) ∨ Linear R u

theorem Tame.canonicalize_sum (h : LinearSum R e) :
    Flat R e.canonicalize ∧ Shrinks (mapComposites g e) (mapComposites g e.canonicalize) := by
  have hterms : ∀ u ∈ e.operands .add,
      Flat R u.canonicalize ∧ Shrinks (mapComposites g u) (mapComposites g u.canonicalize) := by
    intro u hu
    rcases h u hu with ⟨a, rfl⟩ | hlinear
    · rw [canonicalize_lit]
      exact ⟨(Atom.lit a).flat, Shrinks.refl _⟩
    · obtain ⟨htidy, hshrinks⟩ := hR.canonicalize u hlinear
      exact ⟨htidy.flat, hshrinks⟩
  rcases eq_add_or_operands_eq e with ⟨l, r, rfl⟩ | hterm
  · rw [canonicalize_add]
    exact hR.flat_sumOf hterms
  · exact hterms e (by rw [hterm]; exact List.mem_singleton_self e)

end Canonical

section Folding

variable {f : SymExpr → SymExpr} {P : SymExpr → Prop}

/-- Expressions of which folding a sum loses nothing but opposite terms. -/
structure Foldable (f : SymExpr → SymExpr) (P : SymExpr → Prop) : Prop where
  ofLit (a : Int64) : P (lit a)
  add_iff {l r : SymExpr} : P (add l r) ↔ P l ∧ P r
  opposite {l x : SymExpr} (hl : P l) (hx : P (neg x)) (h : l.same x = true) :
    Shrinks (mapComposites f (add l (neg x))) (lit 0)

theorem Shrinks.zeroAdd (e : SymExpr) : Shrinks (SymExpr.add (lit 0) e) e := by
  refine ⟨⟨?_, ?_⟩, ?_⟩
  · intro p
    simp [coefficient]
  · simp [composites]
  · intro p
    simp [amount]

theorem Shrinks.addZero (e : SymExpr) : Shrinks (SymExpr.add e (lit 0)) e := by
  refine ⟨⟨?_, ?_⟩, ?_⟩
  · intro p
    simp [coefficient]
  · simp [composites]
  · intro p
    simp [amount]

theorem Shrinks.addLits {a b c : Int64} (h : a.add? b = some c) :
    Shrinks (SymExpr.add (lit a) (lit b)) (lit c) := by
  have hc := Int64.add?_eq_some_iff.1 h
  refine ⟨⟨?_, ?_⟩, ?_⟩
  · intro p
    simp only [coefficient, hc]
    split <;> rfl
  · simp [composites]
  · intro p
    simp only [amount, hc]
    split
    · exact Int.natAbs_add_le _ _
    · exact Nat.le_refl _

theorem Foldable.foldAdd (hP : Foldable f P) (hl : P l) (hr : P r) :
    P (foldAdd l r) ∧ Shrinks (mapComposites f (add l r)) (mapComposites f (foldAdd l r)) := by
  unfold SymExpr.foldAdd
  split
  case isTrue h =>
    rw [eq_lit_of_isLit h]
    exact ⟨hr, Shrinks.zeroAdd _⟩
  case isFalse =>
    split
    case isTrue h =>
      rw [eq_lit_of_isLit h]
      exact ⟨hl, Shrinks.addZero _⟩
    case isFalse =>
      split
      case h_1 h =>
        obtain ⟨a, b, c, rfl, rfl, rfl, hc⟩ := exists_of_foldLits_add h
        exact ⟨hP.ofLit c, Shrinks.addLits hc⟩
      case h_2 =>
        split
        case isTrue h =>
          cases r with
          | neg x => exact ⟨hP.ofLit 0, hP.opposite hl hr h⟩
          | _ => cases h
        case isFalse => exact ⟨hP.add_iff.2 ⟨hl, hr⟩, Shrinks.refl _⟩

theorem Foldable.fold (hP : Foldable f P) (h : ∀ u ∈ e.operands .add,
      P u.fold ∧ Shrinks (mapComposites g u) (mapComposites f u.fold)) :
    P e.fold ∧ Shrinks (mapComposites g e) (mapComposites f e.fold) := by
  induction e with
  | bin op l r ihl ihr =>
    by_cases hop : op = .add
    · subst hop
      rw [operands_bin_self, List.forall_mem_append] at h
      obtain ⟨hl, hsl⟩ := ihl h.1
      obtain ⟨hr, hsr⟩ := ihr h.2
      obtain ⟨hsum, hshrinks⟩ := hP.foldAdd hl hr
      exact ⟨hsum, (hsl.add hsr).trans hshrinks⟩
    · rw [operands_bin_ne hop, List.forall_mem_singleton] at h
      exact h
  | _ => exact h _ (List.mem_singleton_self _)

/-- Both terms of the sum have the same composite, if any. -/
theorem shrinks_zero_of_alike (h : Alike l x) (hamount : x.amount .composite ≤ 1) :
    Shrinks (add l (neg x)) (lit 0) := by
  refine ⟨⟨?_, ?_⟩, ?_⟩
  · intro p
    have := h.coefficient_eq p
    simp only [coefficient, ite_self, Int64.toInt_zero]
    omega
  · rw [composites, composites, composites, opposite_composites hamount, h.composites_eq,
      add_neg_cancel]
  · intro p
    simp [amount]

theorem Tame.foldable (hR : Tame f R) : Foldable f (Flat R) where
  ofLit a := (Atom.lit a).flat
  add_iff := flat_add_iff
  opposite hl hx h :=
    shrinks_zero_of_alike (hR.alike_of_same hx.base_of_neg hl h) (hR.amount_base_le hx.base_of_neg)

end Folding

section Rest

/-- A composite of the given kind that rounds leave alone. -/
structure Rested (C : SymExpr → Prop) (t : SymExpr) : Prop where
  isComposite : t.IsComposite
  kind : C t
  canonicalize_eq : t.canonicalize = t
  fold_eq : t.fold = t

/-- A literal other than the least one, a symbol, or a composite at rest. -/
def Resting (C : SymExpr → Prop) (u : SymExpr) : Prop :=
  (∃ a ≠ Int64.minValue, u = lit a) ∨ Base (Rested C) u

theorem tame_rested (C : SymExpr → Prop) : Tame SymExpr.fold (Rested C) where
  canonicalize_mem h := by rwa [h.canonicalize_eq]
  canonicalize_canonicalize h := by rw [h.canonicalize_eq, h.canonicalize_eq]
  alike hu hv h := by
    rw [hu.canonicalize_eq, hv.canonicalize_eq, hu.fold_eq, hv.fold_eq]
    refine ⟨?_, ?_⟩
    · intro p
      rw [hu.isComposite.coefficient_eq, hv.isComposite.coefficient_eq]
    · rw [hu.isComposite.composites_eq, hv.isComposite.composites_eq, letter_eq_iff.2 h]
  amount_le h := by
    rw [h.canonicalize_eq, h.fold_eq, h.isComposite.amount_eq, if_pos rfl]

theorem Rested.formOf (h : Rested C u) : FormOf (Rested C) u :=
  ⟨u, h.isComposite, h, h.canonicalize_eq⟩

theorem FormOf.rested (h : FormOf (Rested C) u) : Rested C u :=
  (tame_rested C).mem_of_formOf h

theorem Base.canonicalize_eq (h : Base (Rested C) u) : u.canonicalize = u := by
  cases h with
  | sym s => exact canonicalize_sym s
  | composite h => exact h.rested.canonicalize_eq

theorem Base.fold_eq (h : Base (Rested C) u) : u.fold = u := by
  cases h with
  | sym s => rfl
  | composite h => exact h.rested.fold_eq

theorem Base.linear (h : Base (Rested C) u) : Linear (Rested C) u := by
  cases h with
  | sym s => trivial
  | composite h => exact h.isComposite.linear_iff.2 h.rested

theorem Atom.canonicalize_eq (h : Atom (Rested C) u) : u.canonicalize = u := by
  cases h with
  | lit a => exact canonicalize_lit a
  | base h => exact h.canonicalize_eq
  | neg h =>
    rw [canonicalize_neg, h.canonicalize_eq, sum?_eq_none h.operands_eq]
    exact (negateTerm_eq h.ne_neg).trans h.foldNeg_eq

theorem Atom.fold_eq (h : Atom (Rested C) u) : u.fold = u := by
  cases h with
  | lit a => rfl
  | base h => exact h.fold_eq
  | neg h => rw [SymExpr.fold, h.fold_eq, h.foldNeg_eq]

theorem Base.mapComposites_fold (h : Base (Rested C) u) : mapComposites SymExpr.fold u = u := by
  cases h with
  | sym s => rfl
  | composite h => rw [(tame_rested C).mapComposites_formOf h, h.rested.fold_eq]

theorem Flat.mapComposites_fold (h : Flat (Rested C) e) : mapComposites SymExpr.fold e = e := by
  induction e with
  | lit a | sym s => rfl
  | neg e => rw [mapComposites, h.base_of_neg.mapComposites_fold]
  | bin op l r ihl ihr =>
    by_cases hop : op = .add
    · subst hop
      rw [flat_add_iff] at h
      rw [mapComposites, ihl h.1, ihr h.2]
    · cases h.atom_of_operands (operands_bin_ne hop l r) with
      | base h => exact h.mapComposites_fold

theorem Resting.flat (h : Resting C u) : Flat (Rested C) u := by
  rcases h with ⟨a, _, rfl⟩ | h
  · exact (Atom.lit a).flat
  · exact (Atom.base h).flat

theorem Resting.foldNeg (h : Resting C u) :
    Flat (Rested C) (foldNeg u) ∧ Shrinks (neg u) (foldNeg u) := by
  rcases h with ⟨a, hmin, rfl⟩ | hbase
  · obtain ⟨b, _, hfold, hshrinks⟩ := exists_foldNeg_lit hmin
    rw [hfold]
    exact ⟨(Atom.lit b).flat, hshrinks⟩
  · rw [hbase.foldNeg_eq]
    exact ⟨(Atom.neg hbase).flat, Shrinks.refl _⟩

/-- A round after which all composites are at rest. -/
theorem Tame.simplifyRound (hR : Tame SymExpr.fold R)
    (hrest : ∀ t, R t → t.IsComposite → Resting C t.simplifyRound) (h : LinearSum R e) :
    Flat (Rested C) e.simplifyRound ∧ Shrinks (mapComposites SymExpr.fold e) e.simplifyRound := by
  obtain ⟨hflat, hshrinks⟩ := hR.canonicalize_sum h
  have hbase (u : SymExpr) (hu : Base R u) :
      Resting C u.fold ∧ mapComposites SymExpr.fold u = u.fold := by
    cases hu with
    | sym s => exact ⟨.inr (.sym s), rfl⟩
    | composite hu =>
      have heq := hR.mapComposites_formOf hu
      obtain ⟨s, hcomposite, hs, rfl⟩ := hu
      exact ⟨hrest s hs hcomposite, heq⟩
  have hatom : ∀ u ∈ e.canonicalize.operands .add, Flat (Rested C) u.fold ∧
      Shrinks (mapComposites SymExpr.fold u) (mapComposites SymExpr.fold u.fold) := by
    intro u hu
    cases hflat u hu with
    | lit a => exact ⟨(Atom.lit a).flat, Shrinks.refl _⟩
    | base hu =>
      obtain ⟨hfold, heq⟩ := hbase u hu
      rw [heq, hfold.flat.mapComposites_fold]
      exact ⟨hfold.flat, Shrinks.refl _⟩
    | @neg x hx =>
      obtain ⟨hfold, heq⟩ := hbase x hx
      obtain ⟨hneg, hshrinks⟩ := hfold.foldNeg
      rw [SymExpr.fold, mapComposites, heq, hneg.mapComposites_fold]
      exact ⟨hneg, hshrinks⟩
  obtain ⟨hflat', hshrinks'⟩ := (tame_rested C).foldable.fold hatom
  rw [hflat'.mapComposites_fold] at hshrinks'
  exact ⟨hflat', hshrinks.trans hshrinks'⟩

theorem Flat.linearSum (h : Flat (Rested C) e) : LinearSum (Rested C) e := by
  intro u hu
  cases h u hu with
  | lit a => exact .inl ⟨a, rfl⟩
  | base h => exact .inr h.linear
  | neg h => exact .inr h.linear

theorem Flat.fold (h : Flat (Rested C) e) : Flat (Rested C) e.fold ∧ Shrinks e e.fold := by
  obtain ⟨hflat, hshrinks⟩ := (tame_rested C).foldable.fold (e := e) (g := SymExpr.fold)
    fun u hu => by
      rw [(h u hu).fold_eq]
      exact ⟨(h u hu).flat, Shrinks.refl _⟩
  rw [h.mapComposites_fold, hflat.mapComposites_fold] at hshrinks
  exact ⟨hflat, hshrinks⟩

/-- At rest, all that rounds do is to order the terms and to take opposite ones out. -/
theorem Flat.simplifyRound (h : Flat (Rested C) e) :
    Flat (Rested C) e.simplifyRound ∧ Shrinks e e.simplifyRound := by
  obtain ⟨hflat, hshrinks⟩ := (tame_rested C).canonicalize_sum h.linearSum
  obtain ⟨hflat', hshrinks'⟩ := hflat.fold
  rw [h.mapComposites_fold, hflat.mapComposites_fold] at hshrinks
  exact ⟨hflat', hshrinks.trans hshrinks'⟩

end Rest

section Stages

/-- What so many rounds and one more make of a composite in canonical form. -/
def reduct : Nat → SymExpr → SymExpr
  | 0, t => t.fold
  | n + 1, t => mapComposites (reduct n) t.fold

theorem isComposite_of_linear {op : BinOp} (hop : op ≠ .add) (h : Linear R (bin op l r)) :
    (bin op l r).IsComposite ∧ R (bin op l r) := by
  cases op with
  | add => exact absurd rfl hop
  | _ => exact h

theorem linearSum_bin {op : BinOp} (hop : op ≠ .add) (h : LinearSum R (bin op l r)) :
    Linear R (bin op l r) := by
  unfold LinearSum at h
  rw [operands_bin_ne hop, List.forall_mem_singleton] at h
  rcases h with ⟨a, h⟩ | h
  · cases h
  · exact h

theorem linearSum_add_iff : LinearSum R (add l r) ↔ LinearSum R l ∧ LinearSum R r :=
  forall_operands_add_iff

/-- What differs from a linear expression in the order of operands only is linear. -/
theorem linear_of_same (h : Same l x) (hl : LinearSum R l) (hx : Linear R x) : Linear R l := by
  induction h with
  | lit a => exact hx
  | sym _ => trivial
  | neg _ ih =>
    rcases hl _ (List.mem_singleton_self _) with ⟨a, h⟩ | h
    · cases h
    · exact h
  | @straight op l r _ _ _ _ ihl ihr =>
    by_cases hop : op = .add
    · subst hop
      rw [linearSum_add_iff] at hl
      exact ⟨ihl hl.1 hx.1, ihr hl.2 hx.2⟩
    · exact linearSum_bin hop hl
  | @crossed op _ l r _ _ _ _ ihl ihr =>
    by_cases hop : op = .add
    · subst hop
      rw [linearSum_add_iff] at hl
      exact ⟨ihl hl.1 hx.2, ihr hl.2 hx.1⟩
    · exact linearSum_bin hop hl

theorem Tame.alike_of_same_bin {op : BinOp} {l' r' : SymExpr} (hR : Tame g R) (hop : op ≠ .add)
    (hl : Linear R (bin op l r)) (hx : Linear R (bin op l' r'))
    (h : Same (bin op l r) (bin op l' r')) :
    Alike (mapComposites g (bin op l r)) (mapComposites g (bin op l' r')) := by
  obtain ⟨hl, hmeml⟩ := isComposite_of_linear hop hl
  obtain ⟨hx, hmemx⟩ := isComposite_of_linear hop hx
  rw [hl.mapComposites_eq, hx.mapComposites_eq]
  exact hR.alike hmeml hmemx (same_of_relation h)

theorem Tame.alike_of_sameSum (hR : Tame g R) (h : Same l x) (hl : Linear R l) (hx : Linear R x)
    (hamount : (mapComposites g x).amount .composite ≤ 1) :
    Alike (mapComposites g l) (mapComposites g x) := by
  induction h with
  | lit a => exact Alike.refl _
  | sym hname => exact ⟨fun p => by simp only [mapComposites, coefficient, hname], rfl⟩
  | neg _ ih =>
    have h := ih hl hx hamount
    exact ⟨fun p => congrArg (- ·) (h.coefficient_eq p), congrArg opposite h.composites_eq⟩
  | @straight op l r l' r' hsl hsr ihl ihr =>
    by_cases hop : op = .add
    · subst hop
      rw [mapComposites, amount] at hamount
      have hl' := ihl hl.1 hx.1 (by omega)
      have hr' := ihr hl.2 hx.2 (by omega)
      refine ⟨?_, ?_⟩
      · intro p
        simp only [mapComposites, coefficient, hl'.coefficient_eq, hr'.coefficient_eq]
      · simp only [mapComposites, composites, hl'.composites_eq, hr'.composites_eq]
    · exact hR.alike_of_same_bin hop hl hx (.straight op hsl hsr)
  | @crossed op hassoc l r l' r' hsl hsr ihl ihr =>
    by_cases hop : op = .add
    · subst hop
      rw [mapComposites, amount] at hamount
      have hl' := ihl hl.1 hx.2 (by omega)
      have hr' := ihr hl.2 hx.1 (by omega)
      refine ⟨?_, ?_⟩
      · intro p
        simp only [mapComposites, coefficient, hl'.coefficient_eq, hr'.coefficient_eq, Int.add_comm]
      · -- One side has no composite at all, so the two words commute.
        simp only [mapComposites, composites, ← hl'.composites_eq, ← hr'.composites_eq]
        rcases Nat.eq_zero_or_pos ((mapComposites g l').amount .composite) with hzero | hpos
        · rw [composites_eq_zero hzero, zero_add, add_zero]
        · rw [composites_eq_zero (e := mapComposites g r') (by omega), zero_add, add_zero]
    · exact hR.alike_of_same_bin hop hl hx (.crossed hassoc hsl hsr)

theorem Linear.foldNeg (h : Linear R x) :
    Linear R (foldNeg x) ∧ Shrinks (mapComposites g (neg x)) (mapComposites g (foldNeg x)) := by
  cases x with
  | lit a =>
    obtain ⟨b, hb, hfold, hshrinks⟩ := exists_foldNeg_lit h
    rw [hfold]
    exact ⟨hb, hshrinks⟩
  | _ => exact ⟨h, Shrinks.refl _⟩

/-- A sum of literals and of linear expressions with at most one composite each. -/
def SparseSum (g : SymExpr → SymExpr) (R : SymExpr → Prop) (e : SymExpr) : Prop :=
  ∀ u ∈ e.operands .add,
    (∃ a, u = lit a) ∨ Linear R u ∧ (mapComposites g u).amount .composite ≤ 1

theorem SparseSum.linearSum (h : SparseSum g R e) : LinearSum R e :=
  fun u hu => (h u hu).imp_right And.left

theorem sparseSum_of_linear (h : Linear R e) (hamount : (mapComposites g e).amount .composite ≤ 1) :
    SparseSum g R e := by
  intro u hu
  refine .inr ⟨linear_of_mem_operands h hu, ?_⟩
  rw [((addsUp_amount .composite).mapComposites g).operands e] at hamount
  have hmem := List.mem_map_of_mem (f := fun e => (mapComposites g e).amount .composite) hu
  exact Nat.le_trans (List.le_sum_of_mem hmem) hamount

theorem Tame.foldable_sparseSum (hR : Tame g R) : Foldable g (SparseSum g R) where
  ofLit a := List.forall_mem_singleton.2 (.inl ⟨a, rfl⟩)
  add_iff := forall_operands_add_iff
  opposite hl hx h := by
    rcases hx _ (List.mem_singleton_self _) with ⟨a, h⟩ | ⟨hx, hamount⟩
    · cases h
    · have hsame := same_iff_relation.1 h
      have hlinear := linear_of_same hsame hl.linearSum hx
      exact shrinks_zero_of_alike (hR.alike_of_sameSum hsame hlinear hx hamount) hamount

/-- A round after which the composites are as they are one round later. -/
theorem Tame.simplifyRound_reduct {n : Nat} {R' : SymExpr → Prop} (hR : Tame (reduct (n + 1)) R)
    (hR' : Tame (reduct n) R') (hstep : ∀ t, R t → t.IsComposite → Linear R' t.simplifyRound)
    (h : LinearSum R e) :
    LinearSum R' e.simplifyRound ∧
      Shrinks (mapComposites (reduct (n + 1)) e) (mapComposites (reduct n) e.simplifyRound) := by
  obtain ⟨hflat, hshrinks⟩ := hR.canonicalize_sum h
  have hbase (u : SymExpr) (hu : Base R u) : Linear R' u.fold ∧
      mapComposites (reduct (n + 1)) u = mapComposites (reduct n) u.fold ∧
      (mapComposites (reduct n) u.fold).amount .composite ≤ 1 := by
    cases hu with
    | sym s => exact ⟨trivial, rfl, Nat.zero_le _⟩
    | composite hu =>
      have heq := hR.mapComposites_formOf hu
      obtain ⟨s, hcomposite, hs, rfl⟩ := hu
      exact ⟨hstep s hs hcomposite, heq, hR.amount_le hs⟩
  have hatom : ∀ u ∈ e.canonicalize.operands .add, SparseSum (reduct n) R' u.fold ∧
      Shrinks (mapComposites (reduct (n + 1)) u) (mapComposites (reduct n) u.fold) := by
    intro u hu
    cases hflat u hu with
    | lit a => exact ⟨hR'.foldable_sparseSum.ofLit a, Shrinks.refl _⟩
    | base hu =>
      obtain ⟨hlinear, heq, hamount⟩ := hbase u hu
      rw [heq]
      exact ⟨sparseSum_of_linear hlinear hamount, Shrinks.refl _⟩
    | @neg x hx =>
      obtain ⟨hlinear, heq, hamount⟩ := hbase x hx
      obtain ⟨hneg, hshrinks⟩ := hlinear.foldNeg (g := reduct n)
      rw [SymExpr.fold, mapComposites, heq]
      exact ⟨sparseSum_of_linear hneg (Nat.le_trans (hshrinks.amount_le _) hamount), hshrinks⟩
  obtain ⟨hsum, hshrinks'⟩ := hR'.foldable_sparseSum.fold hatom
  exact ⟨hsum.linearSum, hshrinks.trans hshrinks'⟩

/--
So many rounds and one more bring the composites of the kind `R` to rest as composites of the kind
`C`: after them, each has become a sum with one composite at most.
-/
def ComesToRest (C : SymExpr → Prop) : Nat → (SymExpr → Prop) → Prop
  | 0, R => Tame (reduct 0) R ∧ ∀ t, R t → t.IsComposite → Resting C t.simplifyRound
  | n + 1, R =>
    Tame (reduct (n + 1)) R ∧
      ∃ R', ComesToRest C n R' ∧ ∀ t, R t → t.IsComposite → Linear R' t.simplifyRound

theorem ComesToRest.tame {n : Nat} (h : ComesToRest C n R) : Tame (reduct n) R := by
  cases n with
  | zero => exact h.1
  | succ n => exact h.1

theorem ComesToRest.iterate {n : Nat} (h : ComesToRest C n R) (he : LinearSum R e) :
    Flat (Rested C) (simplifyRound^[n + 1] e) ∧
      Shrinks (mapComposites (reduct n) e) (simplifyRound^[n + 1] e) := by
  induction n generalizing R e with
  | zero => exact h.1.simplifyRound h.2 he
  | succ n ih =>
    obtain ⟨hR, R', hR', hstep⟩ := h
    obtain ⟨hsum, hshrinks⟩ := hR.simplifyRound_reduct hR'.tame hstep he
    obtain ⟨hflat, hshrinks'⟩ := ih hR' hsum
    rw [Function.iterate_succ_apply]
    exact ⟨hflat, hshrinks.trans hshrinks'⟩

end Stages

end TensorIR.SymExpr
