import TensorIR.Proofs.Layout.Literal
import TensorIR.Proofs.SymExpr.LiteralFactor

/-!
Symbolic blocked shapes, converted to a layout without sub-axes and back. Where an axis is split,
its size is multiplied by the factor and divided by it again. Main statement: this gives the same
shape exactly if no outer size is a product with a literal factor, which the factor merges with.
-/

namespace TensorIR.Layout

open SymExpr

/-- A shape with simplified sizes whose sub-axes have the declared sizes. -/
structure IsBlocked (layout : Layout) (shape : List SymExpr) : Prop where
  length_eq : shape.length = layout.ndim
  simplified : ∀ d ∈ shape, d.simplify.same d = true
  hasOverflow_eq : ∀ d ∈ shape, d.hasOverflow = false
  inner_eq : ∀ c f d, (.inner c f, d) ∈ layout.axes.zip shape → d = .lit f

/-- The factor and the outer size of an axis do not merge when they are multiplied. -/
def Separable (f : Int64) (d : SymExpr) : Prop :=
  f = 1 ∨ (∃ k, d = .lit k) ∨ ∀ a ∈ d.operands .mul, a.value? = none

section Unsplit

variable {layout : Layout}

/-- In a layout without sub-axes, the size of an axis is its place in the shape. -/
theorem logicalSize_map_letters (h : Axis.AllWellFormed layout.axes) (hunsplit : layout.Unsplit)
    {c : Char} (hc : c ∈ layout.primalLetters) (size : Char → SymExpr) :
    layout.logicalSize (layout.primalLetters.map size) c = size c := by
  have hupper : c.isUpper = true := h.wellFormed _ (mem_primalLetters_iff.1 hc)
  rw [logicalSize_of_unsplit h hunsplit hupper]
  change (lookup? layout.axes (layout.primalLetters.map size) c).getD (.lit 1) = _
  rw [axes_of_unsplit hunsplit, lookup?_map_primal (nodup_primalLetters h), if_pos hc]
  rfl

theorem convert_to_unsplit {src : Layout} (hunsplit : layout.Unsplit) {shape : List SymExpr}
    (hshape : shape.length = src.ndim) :
    convert src layout shape =
      .ok (layout.primalLetters.map fun c => (src.logicalSize shape c).simplify) := by
  rw [convert, if_pos hshape]
  exact congrArg Except.ok (shapeOf_of_unsplit hunsplit _)

end Unsplit

section Axes

variable {layout plain : Layout} {shape : List SymExpr} {c : Char} {d : SymExpr}
  (hlayout : Axis.AllWellFormed layout.axes) (hshape : layout.IsBlocked shape)
  (hd : (.primal c, d) ∈ layout.axes.zip shape)
include hlayout hd

theorem logicalSize_of_whole (hwhole : ∀ f, Axis.inner c f ∉ layout.axes) :
    layout.logicalSize shape c = d := by
  have hupper : c.isUpper = true := hlayout.wellFormed _ (List.of_mem_zip hd).1
  have houter : layout.dim? shape c = some d := lookup?_of_mem_zip hlayout hd
  have hinner : layout.dim? shape c.toLower = none :=
    lookup?_toLower_of_unsplit hlayout hupper shape hwhole
  rw [logicalSize, houter, hinner]
  rfl

include hshape

theorem logicalSize_of_split {f : Int64} (hf : .inner c f ∈ layout.axes) :
    layout.logicalSize shape c = .mul d (.lit f) := by
  obtain ⟨x, hx⟩ := exists_mem_zip hf hshape.length_eq
  have hinner : layout.dim? shape c.toLower = some x := lookup?_of_mem_zip hlayout hx
  have houter : layout.dim? shape c = some d := lookup?_of_mem_zip hlayout hd
  rw [logicalSize, houter, hinner, hshape.inner_eq c f x hx]
  rfl

/-- The size of an axis, converted to another layout and back. -/
theorem same_axisSize_iff (hplain : Axis.AllWellFormed plain.axes) (hunsplit : plain.Unsplit)
    (hc : c ∈ plain.primalLetters)
    (hfits : (layout.logicalSize shape c).simplify.hasOverflow = false) :
    (layout.axisSize (plain.logicalSize
        (plain.primalLetters.map fun c => (layout.logicalSize shape c).simplify))
      (.primal c)).simplify.same d = true ↔
      ∀ f, .inner c f ∈ layout.axes → Separable f d := by
  have hmem := (List.of_mem_zip hd).2
  have hsimplified := hshape.simplified d hmem
  have hupper : c.isUpper = true := hlayout.wellFormed _ (List.of_mem_zip hd).1
  rw [axisSize, logicalSize_map_letters hplain hunsplit hc]
  cases hfactor : layout.factorOf? c with
  | none =>
    have hwhole : ∀ f, Axis.inner c f ∉ layout.axes := by
      intro f hf
      rw [(factorOf?_eq_some_iff hlayout hupper).2 hf] at hfactor
      cases hfactor
    rw [logicalSize_of_whole hlayout hd hwhole, simplify_eq_canonicalize hsimplified,
      (atRest_canonicalize hsimplified).simplify_eq, ← simplify_eq_canonicalize hsimplified]
    exact iff_of_true hsimplified fun f hf => absurd hf (hwhole f)
  | some f =>
    have hf := (factorOf?_eq_some_iff hlayout hupper).1 hfactor
    have hpos : 0 < f := (hlayout.wellFormed _ hf).2
    have honly : ∀ g, .inner c g ∈ layout.axes → g = f := by
      intro g hg
      rw [(factorOf?_eq_some_iff hlayout hupper).2 hg, Option.some.injEq] at hfactor
      exact hfactor
    rw [logicalSize_of_split hlayout hshape hd hf] at hfits ⊢
    have hiff := same_ceilDiv_mul_iff hpos hsimplified (hshape.hasOverflow_eq d hmem) hfits
    refine hiff.trans ⟨?_, fun h => h f hf⟩
    intro h g hg
    rw [honly g hg]
    exact h

end Axes

/--
A blocked shape, converted to a layout without sub-axes and back, is the same shape again exactly if
no factor merges with a literal factor of the outer size, provided that the sizes in between do not
leave the range.
-/
theorem same_roundTrip_iff {plainName blockedName : String} {plain blocked : Layout}
    {conversion : LayoutConversion} (hplain : parse plainName = .ok plain)
    (hunsplit : plain.Unsplit) (hblocked : parse blockedName = .ok blocked)
    (hconversion : LayoutConversion.between plain blocked = .ok conversion)
    {shape : List SymExpr} (hshape : blocked.IsBlocked shape) :
    ∃ dims shape', conversion.backward shape = .ok dims ∧ conversion.forward dims = .ok shape' ∧
      ((∀ e ∈ dims, e.hasOverflow = false) →
        (List.Forall₂ (fun e d => e.same d = true) shape' shape ↔
          ∀ c f d, .inner c f ∈ blocked.axes → (.primal c, d) ∈ blocked.axes.zip shape →
            Separable f d)) := by
  have hplain := allWellFormed_of_parse hplain
  have hblocked := allWellFormed_of_parse hblocked
  have hperm := perm_primalLetters_of_between hplain hblocked hconversion
  obtain rfl := LayoutConversion.eq_of_between hconversion
  have hlength : (plain.primalLetters.map fun c =>
      (blocked.logicalSize shape c).simplify).length = plain.ndim := by
    rw [List.length_map, ndim, axes_of_unsplit hunsplit, List.length_map]
  refine ⟨_, _, convert_to_unsplit hunsplit hshape.length_eq, if_pos hlength, ?_⟩
  intro hfits
  rw [List.forall_mem_map] at hfits
  rw [List.forall₂_map_left_iff, List.forall₂_iff_zip]
  have hletter {c : Char} {d : SymExpr} (hd : (.primal c, d) ∈ blocked.axes.zip shape) :
      c ∈ plain.primalLetters := by
    rw [hperm.mem_iff, mem_primalLetters_iff]
    exact (List.of_mem_zip hd).1
  constructor
  · intro hround c f d hf hd
    have hsame := hround.2 hd
    have hc := hletter hd
    exact (same_axisSize_iff hblocked hshape hd hplain hunsplit hc (hfits c hc)).1 hsame f hf
  · intro hseparable
    refine ⟨hshape.length_eq.symm, ?_⟩
    intro a d hd
    cases a with
    | inner c f =>
      rw [axisSize, (isTerm_lit f).simplify_eq, hshape.inner_eq c f d hd]
      apply same_refl
    | primal c =>
      have hc := hletter hd
      apply (same_axisSize_iff hblocked hshape hd hplain hunsplit hc (hfits c hc)).2
      exact fun f hf => hseparable c f d hf hd

/-- The outer size `2 * c` becomes `32 * c`, of which 16 is no factor any more. -/
theorem same_roundTrip_merged_factor :
    let shape := [.size "n", .mul (.lit 2) (.size "c"), .size "h", .size "w", .lit 16]
    ∃ plain blocked conversion dims shape',
      parse "NCHW" = .ok plain ∧ parse "NCHW16c" = .ok blocked ∧
      LayoutConversion.between plain blocked = .ok conversion ∧
      conversion.backward shape = .ok dims ∧ conversion.forward dims = .ok shape' ∧
      ¬ List.Forall₂ (fun e d => e.same d = true) shape' shape := by
  intro shape
  let blocked : Layout :=
    ⟨"NCHW16c", [.primal 'N', .primal 'C', .primal 'H', .primal 'W', .inner 'C' 16]⟩
  have hplain : parse "NCHW" = .ok (ofLetters "NCHW") := by decide
  have hblocked : parse "NCHW16c" = .ok blocked := by decide
  have hshape : blocked.IsBlocked shape := by
    refine ⟨rfl, by decide +kernel, by decide, ?_⟩
    intro c f d hd
    simp only [shape, blocked, List.zip_cons_cons, List.zip_nil_right, List.mem_cons, Prod.mk.injEq,
      List.not_mem_nil, reduceCtorEq, false_and, false_or, or_false, Axis.inner.injEq] at hd
    rw [hd.1.2, hd.2]
  have hback : LayoutConversion.backward ⟨ofLetters "NCHW", blocked⟩ shape =
      .ok [.size "n", .mul (.lit 32) (.size "c"), .size "h", .size "w"] := by
    decide +kernel
  obtain ⟨dims, shape', hdims, hshape', hiff⟩ :=
    same_roundTrip_iff hplain (unsplit_ofLetters "NCHW") hblocked rfl hshape
  refine ⟨_, _, _, dims, shape', hplain, hblocked, rfl, hdims, hshape', ?_⟩
  rw [hback, Except.ok.injEq] at hdims
  rw [hiff]
  · intro hseparable
    obtain hone | ⟨k, hk⟩ | hfactors :=
      hseparable 'C' 16 (.mul (.lit 2) (.size "c")) (by decide) (by decide)
    · exact absurd hone (by decide)
    · cases hk
    · exact absurd (hfactors (.lit 2) (by decide)) (by decide)
  · rw [← hdims]
    decide

end TensorIR.Layout
