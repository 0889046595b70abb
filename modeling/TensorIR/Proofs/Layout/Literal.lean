import TensorIR.Proofs.Layout.Unsplit
import TensorIR.Proofs.SymExpr.Quotient

/-!
Literal shapes in layouts. The size of a split axis is a product of two literals, which is a literal
only where it fits. A layout that splits the axis by one of the two divides it by that factor; the
size of the axis is a literal again. Main statement: in all other cases it is none.
-/

namespace TensorIR.Layout

open SymExpr

section Parts

variable {axes : List Axis} {layout : Layout} {c : Char}

theorem lookup?_map {α β : Type} (f : α → β) (axes : List Axis) (xs : List α) (name : Char) :
    lookup? axes (xs.map f) name = (lookup? axes xs name).map f := by
  unfold lookup?
  cases axes.findIdx? (·.name == name) with
  | none => rfl
  | some i => exact List.getElem?_map

theorem exists_mem_zip_of_lookup? {α : Type} {xs : List α} {x : α} {name : Char}
    (h : lookup? axes xs name = some x) : ∃ a, (a, x) ∈ axes.zip xs ∧ a.name = name := by
  induction axes generalizing xs with
  | nil => cases h
  | cons a axes ih =>
    cases xs with
    | nil =>
      unfold lookup? at h
      cases hindex : (a :: axes).findIdx? (·.name == name) with
      | none => simp [hindex] at h
      | some i => simp [hindex] at h
    | cons y xs =>
      by_cases hname : a.name = name
      · rw [lookup?_cons_of_eq hname, Option.some.injEq] at h
        exact ⟨a, by simp [h], hname⟩
      · rw [lookup?_cons_of_ne hname] at h
        obtain ⟨b, hb, hbname⟩ := ih h
        exact ⟨b, List.mem_cons_of_mem _ hb, hbname⟩

/-- One of the axes with this letter has this size. -/
def HasPart (layout : Layout) (sizes : List Int64) (c : Char) (x : Int64) : Prop :=
  ∃ a, (a, x) ∈ layout.axes.zip sizes ∧ a.letter = c

theorem hasPart_iff (h : Axis.AllWellFormed layout.axes) (hc : c.isUpper = true)
    {sizes : List Int64} {x : Int64} :
    layout.HasPart sizes c x ↔
      lookup? layout.axes sizes c = some x ∨ lookup? layout.axes sizes c.toLower = some x := by
  constructor
  · intro ⟨a, hx, hletter⟩
    have hlookup := lookup?_of_mem_zip h hx
    cases a with
    | primal d =>
      change d = c at hletter
      subst hletter
      exact .inl hlookup
    | inner d f =>
      change d = c at hletter
      subst hletter
      exact .inr hlookup
  · intro hlookup
    rcases hlookup with hlookup | hlookup
    · obtain ⟨a, ha, hname⟩ := exists_mem_zip_of_lookup? hlookup
      have hwell := h.wellFormed a (List.of_mem_zip ha).1
      cases a with
      | primal d => exact ⟨_, ha, hname⟩
      | inner d f => exact absurd hname.symm (Char.ne_toLower_of_isUpper hc hwell.1)
    · obtain ⟨a, ha, hname⟩ := exists_mem_zip_of_lookup? hlookup
      have hwell := h.wellFormed a (List.of_mem_zip ha).1
      cases a with
      | primal d => exact absurd hname (Char.ne_toLower_of_isUpper hwell hc)
      | inner d f => exact ⟨_, ha, Char.eq_of_toLower_eq hwell.1 hc hname⟩

theorem factorOf?_eq_some_iff (h : Axis.AllWellFormed layout.axes) (hc : c.isUpper = true)
    {f : Int64} : layout.factorOf? c = some f ↔ .inner c f ∈ layout.axes := by
  rw [factorOf?, find?_bind_factor? h hc]
  constructor
  · intro hfactor
    obtain ⟨a, ha, hf⟩ := List.exists_of_findSome?_eq_some hfactor
    cases a with
    | primal d => cases hf
    | inner d g =>
      rw [Axis.factorFor?, Option.ite_none_right_eq_some, Option.some.injEq] at hf
      rwa [← hf.1, ← hf.2]
  · exact findSome?_factorFor?_of_split h

end Parts

section Sizes

variable {src dst : Layout} {sizes : List Int64} {c d : Char}

theorem logicalSize_lits (layout : Layout) (sizes : List Int64) (c : Char) :
    layout.logicalSize (sizes.map .lit) c =
      match lookup? layout.axes sizes c.toLower with
      | some b => mul (lit ((lookup? layout.axes sizes c).getD 1)) (lit b)
      | none => lit ((lookup? layout.axes sizes c).getD 1) := by
  have houter : ((layout.dim? (sizes.map .lit) c).getD (lit 1)) =
      lit ((lookup? layout.axes sizes c).getD 1) := by
    change (lookup? layout.axes (sizes.map .lit) c).getD (lit 1) = _
    rw [lookup?_map]
    cases lookup? layout.axes sizes c <;> rfl
  have hinner : layout.dim? (sizes.map .lit) c.toLower =
      (lookup? layout.axes sizes c.toLower).map .lit :=
    lookup?_map _ _ _ _
  rw [logicalSize, houter, hinner]
  cases lookup? layout.axes sizes c.toLower <;> rfl

/-- A size that is not simplified to a literal is the product of its two parts. -/
theorem simplify_logicalSize_lits (hsrc : Axis.AllWellFormed src.axes) (hc : c.isUpper = true)
    (sizes : List Int64) :
    (∃ a, (src.logicalSize (sizes.map .lit) c).simplify = lit a ∧
      a.toInt = src.primalSize (sizes.map Int64.toInt) c) ∨
    ∃ a b, (src.logicalSize (sizes.map .lit) c).simplify = mul (lit a) (lit b) ∧
      a.mul? b = none ∧ a.toInt * b.toInt = src.primalSize (sizes.map Int64.toInt) c ∧
      ∀ x, src.HasPart sizes c x ↔ x = a ∨ x = b := by
  have hsize : src.primalSize (sizes.map Int64.toInt) c =
      ((lookup? src.axes sizes c).getD 1).toInt *
        ((lookup? src.axes sizes c.toLower).getD 1).toInt := by
    rw [primalSize, prod_filter_letter hsrc hc, lookup?_map, lookup?_map]
    cases lookup? src.axes sizes c <;> cases lookup? src.axes sizes c.toLower <;> rfl
  rw [logicalSize_lits, hsize]
  cases hinner : lookup? src.axes sizes c.toLower with
  | none =>
    refine .inl ⟨_, (isTerm_lit _).simplify_eq, ?_⟩
    rw [Option.getD_none, Int64.toInt_one, Int.mul_one]
  | some b =>
    dsimp only
    rw [simplify_mul_lits, Option.getD_some]
    cases hproduct : ((lookup? src.axes sizes c).getD 1).mul? b with
    | some n => exact .inl ⟨n, rfl, Int64.mul?_eq_some_iff.1 hproduct⟩
    | none =>
      refine .inr ⟨_, b, rfl, hproduct, rfl, ?_⟩
      intro x
      rw [hasPart_iff hsrc hc, hinner]
      cases houter : lookup? src.axes sizes c with
      | none =>
        rw [houter, Option.getD_none] at hproduct
        have hone : (1 : Int64).mul? b = some b := Int64.mul?_eq_some_iff.2 (by simp)
        rw [hone] at hproduct
        cases hproduct
      | some a => simp [eq_comm]

/-- Converted from one layout to another, the size of an axis is a literal. -/
def Resolves (src : Layout) (sizes : List Int64) (c : Char) (dst : Layout) (d : Char) : Prop :=
  (∃ a : Int64, a.toInt = src.primalSize (sizes.map Int64.toInt) c) ∨
    ∃ f, .inner d f ∈ dst.axes ∧ src.HasPart sizes c f

variable {size : Char → SymExpr} (hdst : Axis.AllWellFormed dst.axes) (hd : d.isUpper = true)
include hdst hd

theorem exists_simplify_axisSize_eq_lit {a : Int64} (ha : size d = lit a) :
    ∃ b, (dst.axisSize size (.primal d)).simplify = lit b := by
  rw [axisSize, ha]
  cases hfactor : dst.factorOf? d with
  | none => exact ⟨a, (isTerm_lit a).simplify_eq⟩
  | some f =>
    have hpos : 0 < f := (hdst.wellFormed _ ((factorOf?_eq_some_iff hdst hd).1 hfactor)).2
    exact exists_simplify_ceilDiv_lits hpos a

theorem exists_simplify_axisSize_eq_lit_iff (hsrc : Axis.AllWellFormed src.axes)
    (hc : c.isUpper = true) (hsize : size d = (src.logicalSize (sizes.map .lit) c).simplify) :
    (∃ a, (dst.axisSize size (.primal d)).simplify = lit a) ↔ src.Resolves sizes c dst d := by
  rcases simplify_logicalSize_lits hsrc hc sizes with
    ⟨a, ha, hvalue⟩ | ⟨a, b, hproduct, hoverflow, hvalue, hparts⟩
  · rw [ha] at hsize
    exact ⟨fun _ => .inl ⟨a, hvalue⟩, fun _ => exists_simplify_axisSize_eq_lit hdst hd hsize⟩
  · have hrange : ¬ ∃ n : Int64, n.toInt = src.primalSize (sizes.map Int64.toInt) c := by
      intro ⟨n, hn⟩
      rw [← hvalue, ← Int64.mul?_eq_some_iff, hoverflow] at hn
      cases hn
    rw [Resolves, or_iff_right hrange, axisSize, hsize, hproduct]
    simp only [hparts, ← factorOf?_eq_some_iff hdst hd]
    cases hfactor : dst.factorOf? d with
    | none => simp [simplify_mul_lits, hoverflow]
    | some f =>
      have hpos : 0 < f := (hdst.wellFormed _ ((factorOf?_eq_some_iff hdst hd).1 hfactor)).2
      dsimp only
      rw [exists_simplify_ceilDiv_mul_lits_iff hpos hoverflow]
      simp

end Sizes

theorem forall_shapeOf_eq_lit_iff (layout : Layout) (size : Char → SymExpr) :
    (∀ e ∈ layout.shapeOf size, ∃ a, e = lit a) ↔
      ∀ c ∈ layout.primalLetters, ∃ a, (layout.axisSize size (.primal c)).simplify = lit a := by
  unfold shapeOf
  rw [List.forall_mem_map]
  constructor
  · intro h c hc
    exact h (.primal c) (mem_primalLetters_iff.1 hc)
  · intro h a ha
    cases a with
    | primal c => exact h c (mem_primalLetters_iff.2 ha)
    | inner c f => exact ⟨f, (isTerm_lit f).simplify_eq⟩

end TensorIR.Layout
