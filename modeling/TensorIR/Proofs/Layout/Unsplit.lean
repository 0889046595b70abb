import TensorIR.Proofs.Layout.RoundTrip

/-!
Layouts without sub-axes. A text of distinct upper-case letters reads as such a layout, and a shape
in it is a size for each letter, so that conversion between two orders of the same letters only
moves the sizes and simplifies them.
-/

namespace TensorIR

namespace Layout

def Unsplit (layout : Layout) : Prop :=
  ∀ a ∈ layout.axes, a.isPrimal = true

/-- The layout whose axes are the letters of its name. -/
def ofLetters (name : String) : Layout :=
  ⟨name, name.toList.map .primal⟩

/-- The shape in this layout, given the sizes of the primal axes. -/
def shapeOf (layout : Layout) (size : Char → SymExpr) : List SymExpr :=
  layout.axes.map fun a => (layout.axisSize size a).simplify

/-- A text that is read letter by letter. -/
structure IsLetters (name : String) : Prop where
  ne_empty : name ≠ ""
  isUpper : ∀ c ∈ name.toList, c.isUpper = true
  nodup : name.toList.Nodup

theorem IsLetters.of_perm {name name' : String} (h : IsLetters name)
    (hperm : name'.toList.Perm name.toList) : IsLetters name' := by
  constructor
  · intro hempty
    rw [hempty] at hperm
    have hnil : name.toList = [] := List.nil_perm.1 hperm
    exact h.ne_empty (String.toList_eq_nil_iff.1 hnil)
  · intro c hc
    exact h.isUpper c (hperm.mem_iff.1 hc)
  · exact hperm.nodup_iff.2 h.nodup

section Parse

theorem isAlpha_of_isUpper {c : Char} (h : c.isUpper = true) : c.isAlpha = true := by
  change (c.isUpper || c.isLower) = true
  rw [h, Bool.true_or]

theorem isDigit_of_isUpper {c : Char} (h : c.isUpper = true) : c.isDigit = false := by
  have hall : ∀ n : Nat, n ≤ 90 → 65 ≤ n → (Char.ofNat n).isDigit = false := by
    decide
  rw [Char.isUpper_iff_toNat] at h
  rw [← Char.ofNat_toNat c]
  exact hall c.toNat h.2 h.1

theorem readAxes_letters {layout : String} {axes : List Axis} {cs : List Char}
    (hupper : ∀ c ∈ cs, c.isUpper = true) (hnodup : cs.Nodup)
    (hnew : ∀ c ∈ cs, axes.any (·.name == c) = false) :
    readAxes layout axes none cs = .ok (axes ++ cs.map .primal) := by
  induction cs generalizing axes with
  | nil => simp [readAxes]
  | cons c cs ih =>
    rw [List.forall_mem_cons] at hupper hnew
    rw [List.nodup_cons] at hnodup
    have hrest : ∀ d ∈ cs, (axes ++ [Axis.primal c]).any (·.name == d) = false := by
      intro d hd
      rw [List.any_append, hnew.2 d hd, Bool.false_or]
      have hne : c ≠ d := fun hcd => hnodup.1 (hcd ▸ hd)
      simpa [Axis.name] using hne
    unfold readAxes
    rw [isDigit_of_isUpper hupper.1, isAlpha_of_isUpper hupper.1, hnew.1, hupper.1]
    simp [ih hupper.2 hnodup.2 hrest]

theorem IsLetters.parse_eq {name : String} (h : IsLetters name) :
    parse name = .ok (ofLetters name) := by
  have horphan : orphan? (name.toList.map .primal) = none := by
    simp [orphan?, Axis.isPrimal]
  have haxes : readAxes name [] none name.toList = .ok ([] ++ name.toList.map .primal) :=
    readAxes_letters h.isUpper h.nodup (by simp)
  unfold parse
  rw [String.isEmpty_eq_false_iff.2 h.ne_empty, if_neg Bool.false_ne_true]
  dsimp only
  rw [Except.bind_eq_ok_iff]
  refine ⟨_, haxes, ?_⟩
  rw [List.nil_append, horphan]
  rfl

end Parse

section Conversion

variable {layout : Layout} {name : String}

theorem lookup?_map_primal {α : Type} {letters : List Char} (hnodup : letters.Nodup)
    (size : Char → α) (c : Char) :
    lookup? (letters.map .primal) (letters.map size) c =
      if c ∈ letters then some (size c) else none := by
  induction letters with
  | nil => rfl
  | cons d letters ih =>
    rw [List.nodup_cons] at hnodup
    rw [List.map_cons, List.map_cons]
    by_cases h : d = c
    · rw [lookup?_cons_of_eq (a := .primal d) h, if_pos (List.mem_cons.2 (.inl h.symm)), h]
    · rw [lookup?_cons_of_ne (a := .primal d) h, ih hnodup.2]
      simp only [List.mem_cons, Ne.symm h, false_or]

theorem logicalSize_of_unsplit (h : Axis.AllWellFormed layout.axes) (hunsplit : layout.Unsplit)
    {c : Char} (hc : c.isUpper = true) (shape : List SymExpr) :
    layout.logicalSize shape c = (layout.dim? shape c).getD (.lit 1) := by
  have hinner : layout.dim? shape c.toLower = none := by
    apply lookup?_toLower_of_unsplit h hc
    intro f hf
    cases hunsplit _ hf
  rw [logicalSize, hinner]

theorem axisSize_of_unsplit (h : layout.Unsplit) (logical : Char → SymExpr) (c : Char) :
    layout.axisSize logical (.primal c) = logical c := by
  have hfactor : layout.factorOf? c = none := by
    unfold factorOf?
    cases ha : layout.axes.find? (·.name == c.toLower) with
    | none => rfl
    | some a =>
      have hprimal := h a (List.mem_of_find?_eq_some ha)
      cases a with
      | primal d => rfl
      | inner d f => cases hprimal
  rw [axisSize, hfactor]

theorem axes_of_unsplit (h : layout.Unsplit) :
    layout.axes = layout.primalLetters.map .primal := by
  have hfilter : layout.axes.filter Axis.isPrimal = layout.axes := List.filter_eq_self.2 h
  rw [primalLetters, hfilter, List.map_map]
  conv => lhs; rw [← List.map_id layout.axes]
  apply List.map_congr_left
  intro a ha
  cases a with
  | primal c => rfl
  | inner c f => cases h _ ha

theorem shapeOf_of_unsplit (h : layout.Unsplit) (size : Char → SymExpr) :
    layout.shapeOf size = layout.primalLetters.map fun c => (size c).simplify := by
  rw [shapeOf, axes_of_unsplit h, List.map_map]
  apply List.map_congr_left
  intro c _
  rw [Function.comp_apply, axisSize_of_unsplit h]

theorem unsplit_ofLetters (name : String) : (ofLetters name).Unsplit := by
  intro a ha
  rw [ofLetters, List.mem_map] at ha
  obtain ⟨c, _, rfl⟩ := ha
  rfl

theorem IsLetters.allWellFormed (h : IsLetters name) :
    Axis.AllWellFormed (ofLetters name).axes :=
  allWellFormed_of_parse h.parse_eq

theorem logicalSize_ofLetters {c : Char} (h : IsLetters name) (hc : c.isUpper = true)
    (size : Char → SymExpr) :
    (ofLetters name).logicalSize (name.toList.map size) c =
      if c ∈ name.toList then size c else .lit 1 := by
  rw [logicalSize_of_unsplit h.allWellFormed (unsplit_ofLetters name) hc]
  change (lookup? (name.toList.map .primal) (name.toList.map size) c).getD (.lit 1) = _
  rw [lookup?_map_primal h.nodup]
  split
  · rfl
  · rfl

theorem axisSize_congr {logical logical' : Char → SymExpr}
    (h : ∀ c, c.isUpper = true → logical c = logical' c)
    (hlayout : Axis.AllWellFormed layout.axes) {a : Axis} (ha : a ∈ layout.axes) :
    layout.axisSize logical a = layout.axisSize logical' a := by
  cases a with
  | inner c f => rfl
  | primal c =>
    have hc := h c (hlayout.wellFormed _ ha)
    rw [axisSize, axisSize, hc]

/-- Axes that the source lacks have size one. -/
theorem convert_ofLetters {dst : Layout} (h : IsLetters name)
    (hdst : Axis.AllWellFormed dst.axes) (size : Char → SymExpr) :
    convert (ofLetters name) dst (name.toList.map size) =
      .ok (dst.shapeOf fun c => if c ∈ name.toList then size c else .lit 1) := by
  have hlength : (name.toList.map size).length = (ofLetters name).ndim := by
    simp [ofLetters, ndim]
  rw [convert, if_pos hlength, Except.ok.injEq]
  apply List.map_congr_left
  intro a ha
  rw [axisSize_congr (fun c hc => logicalSize_ofLetters h hc size) hdst ha]

theorem primalLetters_ofLetters (name : String) : (ofLetters name).primalLetters = name.toList := by
  simp [primalLetters, ofLetters, List.filter_map, Function.comp_def, Axis.isPrimal, Axis.letter]

theorem shapeOf_ofLetters (name : String) (size : Char → SymExpr) :
    (ofLetters name).shapeOf size = name.toList.map fun c => (size c).simplify := by
  rw [shapeOf_of_unsplit (unsplit_ofLetters name), primalLetters_ofLetters]

theorem between_ofLetters {src dst : String} (hperm : src.toList.Perm dst.toList) :
    LayoutConversion.between (ofLetters src) (ofLetters dst) =
      .ok ⟨ofLetters src, ofLetters dst⟩ := by
  have hindex :
      (ofLetters src).primalLetters.all ((ofLetters dst).indexOf? · |>.isSome) = true := by
    rw [primalLetters_ofLetters, List.all_eq_true]
    intro c hc
    have hmem : .primal c ∈ (ofLetters dst).axes := List.mem_map_of_mem (hperm.mem_iff.1 hc)
    rw [indexOf?, List.findIdx?_isSome, List.any_eq_true]
    exact ⟨.primal c, hmem, beq_self_eq_true c⟩
  unfold LayoutConversion.between
  rw [hindex, ndimPrimal, ndimPrimal, primalLetters_ofLetters, primalLetters_ofLetters,
    hperm.length_eq, beq_self_eq_true]
  rfl

end Conversion

end Layout

end TensorIR
