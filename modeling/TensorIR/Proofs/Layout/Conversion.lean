import TensorIR.Layout.Conversion
import TensorIR.Proofs.Layout.Parser
import TensorIR.Proofs.SymExpr.Simplify

/-!
Converted shapes have the sizes that the layouts prescribe. The size of a primal axis is the product
of the sizes of all axes with its letter; in the target layout, a split axis has it divided by the
factor and rounded up, beside a block of the factor's size.
-/

namespace TensorIR

open SymExpr (ValuesAt)

def Axis.factorFor? (c : Char) : Axis → Option Int64
  | .primal _ => none
  | .inner d f => if d = c then some f else none

namespace Layout

/-- The size of a primal axis, given the sizes of all axes. -/
def primalSize (layout : Layout) (sizes : List Int) (c : Char) : Int :=
  (((layout.axes.zip sizes).filter (·.1.letter == c)).map Prod.snd).prod

def sizeOfAxis (layout : Layout) (size : Char → Int) : Axis → Int
  | .inner _ f => f.toInt
  | .primal c =>
    match layout.axes.findSome? (Axis.factorFor? c) with
    | some f => -((-size c).fdiv f.toInt)
    | none => size c

/-- The sizes of all axes, given those of the primal axes. -/
def sizes (layout : Layout) (size : Char → Int) : List Int :=
  layout.axes.map (layout.sizeOfAxis size)

theorem sizes_map_primal (name : String) (letters : List Char) (size : Char → Int) :
    sizes ⟨name, letters.map .primal⟩ size = letters.map size := by
  have hnone (c : Char) : (letters.map Axis.primal).findSome? (Axis.factorFor? c) = none := by
    simp [Axis.factorFor?]
  unfold sizes
  rw [List.map_map]
  apply List.map_congr_left
  intro c _
  rw [Function.comp_apply, sizeOfAxis, hnone]

theorem primalSize_map_primal (name : String) {letters : List Char} (hnodup : letters.Nodup)
    (size : Char → Int) (c : Char) :
    primalSize ⟨name, letters.map .primal⟩ (letters.map size) c =
      if c ∈ letters then size c else 1 := by
  unfold primalSize
  dsimp only
  induction letters with
  | nil => rfl
  | cons d letters ih =>
    rw [List.nodup_cons] at hnodup
    rw [List.map_cons, List.map_cons, List.zip_cons_cons, List.filter_cons]
    by_cases h : d = c
    · have heq : ((Axis.primal d).letter == c) = true := beq_iff_eq.2 h
      rw [heq, if_pos rfl, List.map_cons, List.prod_cons, ih hnodup.2, ← h, if_neg hnodup.1]
      rw [if_pos List.mem_cons_self]
      exact Int.mul_one (size d)
    · have hne : ((Axis.primal d).letter == c) = false := beq_eq_false_iff_ne.2 h
      rw [hne, if_neg Bool.false_ne_true, ih hnodup.2]
      simp only [List.mem_cons, Ne.symm h, false_or]

section Lookup

variable {α : Type} {axes : List Axis} {a : Axis} {c : Char}

def lookup? (axes : List Axis) (xs : List α) (name : Char) : Option α :=
  (axes.findIdx? (·.name == name)).bind (xs[·]?)

theorem lookup?_cons_of_eq (h : a.name = c) (x : α) (xs : List α) :
    lookup? (a :: axes) (x :: xs) c = some x := by
  rw [lookup?, List.findIdx?_cons, if_pos (beq_iff_eq.2 h)]
  rfl

theorem lookup?_cons_of_ne (h : a.name ≠ c) (x : α) (xs : List α) :
    lookup? (a :: axes) (x :: xs) c = lookup? axes xs c := by
  rw [lookup?, List.findIdx?_cons, if_neg (mt beq_iff_eq.1 h), lookup?]
  cases axes.findIdx? (·.name == c) with
  | none => rfl
  | some i => rfl

theorem lookup?_eq_none (xs : List α) (h : c ∉ axes.map Axis.name) :
    lookup? axes xs c = none := by
  have hnone : axes.findIdx? (·.name == c) = none := by
    rw [List.findIdx?_eq_none_iff]
    intro a ha
    rw [beq_eq_false_iff_ne]
    intro hname
    exact h (List.mem_map.2 ⟨a, ha, hname⟩)
  rw [lookup?, hnone]
  rfl

theorem prod_filter_letter (h : Axis.AllWellFormed axes) (hc : c.isUpper = true)
    (sizes : List Int) :
    (((axes.zip sizes).filter (·.1.letter == c)).map Prod.snd).prod =
      (lookup? axes sizes c).getD 1 * (lookup? axes sizes c.toLower).getD 1 := by
  -- With distinct names, the axes with a letter are those of its two names.
  induction axes generalizing sizes with
  | nil => rfl
  | cons a axes ih =>
    obtain ⟨ha, hname, haxes⟩ := h.of_cons
    cases sizes with
    | nil =>
      have hnil (n : Char) : lookup? (a :: axes) ([] : List Int) n = none := by
        unfold lookup?
        cases (a :: axes).findIdx? (·.name == n) <;> rfl
      rw [hnil, hnil]
      rfl
    | cons v sizes =>
      rw [List.zip_cons_cons, List.filter_cons]
      by_cases hletter : a.letter = c
      · -- The letter's other name is not the name of this axis, and this name does not occur again.
        rw [if_pos (beq_iff_eq.2 hletter), List.map_cons, List.prod_cons, ih haxes]
        cases a with
        | primal d =>
          change d = c at hletter
          subst hletter
          have hlower := Char.ne_toLower_of_isUpper hc hc
          have hnone := lookup?_eq_none (c := d) sizes hname
          rw [lookup?_cons_of_eq (a := .primal d) (c := d) rfl]
          rw [lookup?_cons_of_ne (a := .primal d) hlower]
          rw [hnone, Option.getD_none, Option.getD_some, Int.one_mul]
        | inner d f =>
          change d = c at hletter
          subst hletter
          have hlower := Char.ne_toLower_of_isUpper hc hc
          have hnone := lookup?_eq_none (c := d.toLower) sizes hname
          rw [lookup?_cons_of_ne (a := .inner d f) hlower.symm]
          rw [lookup?_cons_of_eq (a := .inner d f) (c := d.toLower) rfl]
          rw [hnone, Option.getD_none, Option.getD_some, Int.mul_one]
          apply Int.mul_comm
      · rw [if_neg (mt beq_iff_eq.1 hletter), ih haxes]
        cases a with
        | primal d =>
          have hupper := Char.ne_toLower_of_isUpper ha hc
          rw [lookup?_cons_of_ne (a := .primal d) hletter]
          rw [lookup?_cons_of_ne (a := .primal d) hupper]
        | inner d f =>
          have hupper := Char.ne_toLower_of_isUpper hc ha.1
          have hlower : d.toLower ≠ c.toLower := by
            intro hd
            exact hletter (Char.eq_of_toLower_eq ha.1 hc hd)
          rw [lookup?_cons_of_ne (a := .inner d f) hupper.symm]
          rw [lookup?_cons_of_ne (a := .inner d f) hlower]

theorem find?_bind_factor? (h : Axis.AllWellFormed axes) (hc : c.isUpper = true) :
    (axes.find? (·.name == c.toLower)).bind Axis.factor? =
      axes.findSome? (Axis.factorFor? c) := by
  induction axes with
  | nil => rfl
  | cons a axes ih =>
    obtain ⟨ha, _, haxes⟩ := h.of_cons
    rw [List.find?_cons, List.findSome?_cons]
    cases a with
    | primal d =>
      have hname : ((Axis.primal d).name == c.toLower) = false :=
        beq_eq_false_iff_ne.2 (Char.ne_toLower_of_isUpper ha hc)
      rw [hname]
      exact ih haxes
    | inner d f =>
      by_cases hd : d = c
      · have hname : ((Axis.inner d f).name == c.toLower) = true := by
          rw [hd]
          exact beq_self_eq_true c.toLower
        rw [hname, Axis.factorFor?, if_pos hd]
        rfl
      · have hname : ((Axis.inner d f).name == c.toLower) = false := by
          rw [beq_eq_false_iff_ne]
          intro hlower
          exact hd (Char.eq_of_toLower_eq ha.1 hc hlower)
        rw [hname, Axis.factorFor?, if_neg hd]
        exact ih haxes

theorem pos_of_factorFor? (h : Axis.AllWellFormed axes) {f : Int64}
    (hf : axes.findSome? (Axis.factorFor? c) = some f) : 0 < f := by
  obtain ⟨a, ha, hfa⟩ := List.exists_of_findSome?_eq_some hf
  have hwell := h.wellFormed a ha
  cases a with
  | primal d => cases hfa
  | inner d g =>
    rw [Axis.factorFor?, Option.ite_none_right_eq_some, Option.some.injEq] at hfa
    rw [← hfa.2]
    exact hwell.2

end Lookup

section Values

variable {σ : Assignment} {layout : Layout} {shape : List SymExpr} {values : List Int} {c : Char}

theorem valuesAt_lookup? (h : ValuesAt σ shape values) (axes : List Axis) (name : Char) :
    Option.Rel (fun e v => e.eval? σ = some v) (lookup? axes shape name)
      (lookup? axes values name) := by
  unfold lookup?
  cases axes.findIdx? (·.name == name) with
  | none => exact .none
  | some i => exact h.getElem? i

theorem eval?_parts {outer inner : Option SymExpr} {v w : Option Int}
    (houter : Option.Rel (fun e v => e.eval? σ = some v) outer v)
    (hinner : Option.Rel (fun e v => e.eval? σ = some v) inner w) :
    (match inner with
      | some inner => SymExpr.mul (outer.getD (.lit 1)) inner
      | none => outer.getD (.lit 1)).eval? σ = some (v.getD 1 * w.getD 1) := by
  have houter' : (outer.getD (.lit 1)).eval? σ = some (v.getD 1) := by
    cases houter with
    | none => rfl
    | some hv => exact hv
  cases hinner with
  | none => rw [houter', Option.getD_none, Int.mul_one]
  | some hv => exact SymExpr.eval?_mul_eq_some_iff.2 ⟨_, _, houter', hv, rfl⟩

theorem eval?_logicalSize (hlayout : Axis.AllWellFormed layout.axes) (hc : c.isUpper = true)
    (h : ValuesAt σ shape values) :
    (layout.logicalSize shape c).eval? σ = some (layout.primalSize values c) := by
  rw [primalSize, prod_filter_letter hlayout hc]
  exact eval?_parts (valuesAt_lookup? h layout.axes c) (valuesAt_lookup? h layout.axes c.toLower)

theorem eval?_axisSize (hlayout : Axis.AllWellFormed layout.axes) {logical : Char → SymExpr}
    {size : Char → Int} (h : ∀ c, c.isUpper = true → (logical c).eval? σ = some (size c)) {a : Axis}
    (ha : a ∈ layout.axes) :
    (layout.axisSize logical a).eval? σ = some (layout.sizeOfAxis size a) := by
  have hwell := hlayout.wellFormed a ha
  cases a with
  | inner c f => rfl
  | primal c =>
    rw [axisSize, sizeOfAxis, factorOf?, find?_bind_factor? hlayout hwell]
    cases hf : layout.axes.findSome? (Axis.factorFor? c) with
    | none => exact h c hwell
    | some f =>
      have hpos := pos_of_factorFor? hlayout hf
      have hne : f.toInt ≠ 0 := Int.ne_of_gt (Int64.lt_iff_toInt_lt.1 hpos)
      exact SymExpr.eval?_ceilDiv_eq_some_iff.2 ⟨_, _, h c hwell, rfl, hne, rfl⟩

theorem valuesAt_of_convert {src dst : Layout} (hsrc : Axis.AllWellFormed src.axes)
    (hdst : Axis.AllWellFormed dst.axes) {dims : List SymExpr}
    (hdims : convert src dst shape = .ok dims) (h : ValuesAt σ shape values) :
    ValuesAt σ dims (dst.sizes (src.primalSize values)) := by
  unfold convert at hdims
  split at hdims
  · cases hdims
    unfold ValuesAt sizes
    rw [List.forall₂_map_left_iff, List.forall₂_map_right_iff, List.forall₂_same]
    intro a ha
    apply SymExpr.eval?_simplify
    apply eval?_axisSize hdst _ ha
    intro c hc
    exact eval?_logicalSize hsrc hc h
  · cases hdims

end Values

end Layout

theorem LayoutConversion.eq_of_between {src dst : Layout} {conversion : LayoutConversion}
    (h : between src dst = .ok conversion) : conversion = ⟨src, dst⟩ := by
  unfold between at h
  split at h
  · exact (Except.ok.inj h).symm
  · cases h

end TensorIR
