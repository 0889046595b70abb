import TensorIR.Conv2d.Construct
import TensorIR.Proofs.Inference
import TensorIR.Proofs.Layout.Parser

/-!
What is true of every call that has been constructed.
-/

namespace TensorIR

namespace Conv2d

variable {op attr : String}

theorem all_get_of_all_toList {x : PerAxis} {p : Int64 → Bool} (h : x.toList.all p = true)
    (axis : SpatialAxis) : p (x.get axis) = true := by
  simp only [PerAxis.toList, List.all_cons, List.all_nil, Bool.and_true, Bool.and_eq_true] at h
  cases axis with
  | height => exact h.1
  | width => exact h.2

theorem pos_of_requirePositive {x : PerAxis} (h : requirePositive op attr x.toList = .ok ())
    (axis : SpatialAxis) : 1 ≤ x.get axis := by
  unfold requirePositive at h
  split at h
  · next hall => simpa using all_get_of_all_toList hall axis
  · cases h

theorem nonneg_of_requireNonneg {x : PerAxis} (h : requireNonneg op attr x.toList = .ok ())
    (axis : SpatialAxis) : 0 ≤ x.get axis := by
  unfold requireNonneg at h
  split at h
  · next hall => simpa using all_get_of_all_toList hall axis
  · cases h

theorem sides_nonneg_of_requireNonneg {p : Padding} (h : requireNonneg op attr p.toList = .ok ())
    (axis : SpatialAxis) : 0 ≤ p.before axis ∧ 0 ≤ p.after axis := by
  unfold requireNonneg at h
  split at h
  · next hall =>
    simp only [Padding.toList, List.all_cons, List.all_nil, Bool.and_true, Bool.and_eq_true,
      decide_eq_true_eq] at hall
    cases axis with
    | height => exact ⟨hall.1, hall.2.2.1⟩
    | width => exact ⟨hall.2.1, hall.2.2.2⟩
  · cases h

/-- What the record of a call has from its parameters, and what has been checked of it. -/
structure Normalizes (op : String) (params : Conv2dParams) (attrs : Conv2dAttrs) : Prop where
  padding : completePadding op params.padding = .ok attrs.padding
  strides : broadcast op "strides" params.strides = .ok attrs.strides
  dilation : broadcast op "dilation" params.dilation = .ok attrs.dilation
  groups : attrs.groups = params.groups
  dataLayout : attrs.dataLayout = params.dataLayout
  kernelLayout : attrs.kernelLayout = params.kernelLayout
  outLayout : attrs.outLayout = params.outLayout.getD params.dataLayout
  outDtype : attrs.outDtype = params.outDtype
  groups_pos : 0 < attrs.groups
  strides_pos : ∀ axis, 1 ≤ attrs.strides.get axis
  dilation_pos : ∀ axis, 1 ≤ attrs.dilation.get axis
  padding_nonneg : ∀ axis, 0 ≤ attrs.padding.before axis ∧ 0 ≤ attrs.padding.after axis

theorem normalizes_of_normalize {params : Conv2dParams} {attrs : Conv2dAttrs}
    (h : normalize op params = .ok attrs) : Normalizes op params attrs := by
  unfold normalize at h
  rw [Except.bind_eq_ok_iff] at h
  obtain ⟨padding, hpadding, h⟩ := h
  rw [Except.bind_eq_ok_iff] at h
  obtain ⟨strides, hstrides, h⟩ := h
  rw [Except.bind_eq_ok_iff] at h
  obtain ⟨dilation, hdilation, h⟩ := h
  split at h
  · cases h
  · next hgroups =>
    have hpos : 0 < params.groups := by
      rw [Int32.le_iff_toInt_le] at hgroups
      rw [Int32.lt_iff_toInt_lt]
      omega
    dsimp only at h
    rw [Except.bind_eq_ok_iff] at h
    obtain ⟨_, hstridesPos, h⟩ := h
    rw [Except.bind_eq_ok_iff] at h
    obtain ⟨_, hdilationPos, h⟩ := h
    rw [Except.bind_eq_ok_iff] at h
    obtain ⟨_, hpaddingNonneg, h⟩ := h
    cases h
    exact {
      padding := hpadding
      strides := hstrides
      dilation := hdilation
      groups := rfl
      dataLayout := rfl
      kernelLayout := rfl
      outLayout := rfl
      outDtype := rfl
      groups_pos := hpos
      strides_pos := pos_of_requirePositive hstridesPos
      dilation_pos := pos_of_requirePositive hdilationPos
      padding_nonneg := sides_nonneg_of_requireNonneg hpaddingNonneg }

section Again

variable {op' : String}

theorem completePadding_of_ok {values : List Int64} {p : Padding}
    (h : completePadding op values = .ok p) : completePadding op' values = .ok p := by
  unfold completePadding at h
  split at h
  · exact h
  · exact h
  · exact h
  · cases h

theorem broadcast_of_ok {values : List Int64} {x : PerAxis} (h : broadcast op attr values = .ok x) :
    broadcast op' attr values = .ok x := by
  unfold broadcast at h
  split at h
  · exact h
  · exact h
  · cases h

theorem requirePositive_of_pos {x : PerAxis} (h : ∀ axis, 1 ≤ x.get axis) :
    requirePositive op attr x.toList = .ok () := by
  apply if_pos
  have hheight := h .height
  have hwidth := h .width
  simp only [PerAxis.get] at hheight hwidth
  simp [PerAxis.toList, hheight, hwidth]

theorem requireNonneg_of_nonneg {x : PerAxis} (h : ∀ axis, 0 ≤ x.get axis) :
    requireNonneg op attr x.toList = .ok () := by
  apply if_pos
  have hheight := h .height
  have hwidth := h .width
  simp only [PerAxis.get] at hheight hwidth
  simp [PerAxis.toList, hheight, hwidth]

/-- Parameters that one operator takes are taken by every other, with any kernel layout. -/
theorem Normalizes.normalize_eq {params : Conv2dParams} {attrs : Conv2dAttrs}
    (h : Normalizes op params attrs) (kernelLayout : String) :
    normalize op' { params with kernelLayout } = .ok { attrs with kernelLayout } := by
  have hgroups : ¬ params.groups ≤ 0 := by
    have hpos := h.groups_pos
    rw [h.groups, Int32.lt_iff_toInt_lt] at hpos
    rw [Int32.le_iff_toInt_le]
    omega
  have hpadding : requireNonneg op' "padding" attrs.padding.toList = .ok () := by
    apply if_pos
    have hheight := h.padding_nonneg .height
    have hwidth := h.padding_nonneg .width
    simp only [Padding.before, Padding.after] at hheight hwidth
    simp [Padding.toList, hheight, hwidth]
  have hrecord : attrs = { attrs with
      groups := params.groups
      dataLayout := params.dataLayout
      outLayout := params.outLayout.getD params.dataLayout
      outDtype := params.outDtype } := by
    rw [← h.groups, ← h.outLayout, ← h.dataLayout, ← h.outDtype]
  rw [hrecord]
  unfold normalize
  rw [Except.bind_eq_ok_iff]
  refine ⟨_, completePadding_of_ok h.padding, ?_⟩
  rw [Except.bind_eq_ok_iff]
  refine ⟨_, broadcast_of_ok h.strides, ?_⟩
  rw [Except.bind_eq_ok_iff]
  refine ⟨_, broadcast_of_ok h.dilation, ?_⟩
  rw [if_neg hgroups]
  dsimp only
  rw [Except.bind_eq_ok_iff]
  refine ⟨_, requirePositive_of_pos h.strides_pos, ?_⟩
  rw [Except.bind_eq_ok_iff]
  refine ⟨_, requirePositive_of_pos h.dilation_pos, ?_⟩
  rw [Except.bind_eq_ok_iff]
  exact ⟨_, hpadding, rfl⟩

theorem Normalizes.normalizeTranspose_eq {params : Conv2dParams} {attrs : Conv2dAttrs}
    (h : Normalizes op params attrs) (kernelLayout : String) {added : PerAxis}
    (hadded : ∀ axis, 0 ≤ added.get axis) :
    normalizeTranspose op' ⟨{ params with kernelLayout }, added.toList⟩ =
      .ok ⟨{ attrs with kernelLayout }, added⟩ := by
  unfold normalizeTranspose
  rw [Except.bind_eq_ok_iff]
  refine ⟨_, h.normalize_eq kernelLayout, ?_⟩
  rw [Except.bind_eq_ok_iff]
  refine ⟨added, rfl, ?_⟩
  rw [Except.bind_eq_ok_iff]
  exact ⟨_, requireNonneg_of_nonneg hadded, rfl⟩

end Again

theorem strides_pos_of_normalize {params : Conv2dParams} {attrs : Conv2dAttrs}
    (h : normalize op params = .ok attrs) (axis : SpatialAxis) : 1 ≤ attrs.strides.get axis :=
  (normalizes_of_normalize h).strides_pos axis

theorem normalize_of_normalizeTranspose {params : Conv2dTransposeParams}
    {attrs : Conv2dTransposeAttrs} (h : normalizeTranspose op params = .ok attrs) :
    normalize op params.conv = .ok attrs.conv ∧ ∀ axis, 0 ≤ attrs.outputPadding.get axis := by
  unfold normalizeTranspose at h
  rw [Except.bind_eq_ok_iff] at h
  obtain ⟨conv, hconv, h⟩ := h
  rw [Except.bind_eq_ok_iff] at h
  obtain ⟨outputPadding, _, h⟩ := h
  rw [Except.bind_eq_ok_iff] at h
  obtain ⟨_, hnonneg, h⟩ := h
  cases h
  exact ⟨hconv, nonneg_of_requireNonneg hnonneg⟩

end Conv2d

theorem returns_conv2d {data kernel : Expr} {params : Conv2dParams} {call : Call}
    (h : Returns (conv2d data kernel params) call) :
    ∃ attrs, Conv2d.normalize Conv2dAttrs.opName params = .ok attrs ∧
      call = ⟨.op Conv2dAttrs.opName, [data, kernel], some (.conv2d attrs), []⟩ := by
  unfold conv2d at h
  obtain ⟨attrs, hattrs, h⟩ := h.bind
  obtain ⟨_, _, h⟩ := h.bind
  exact ⟨attrs, hattrs.of_except, (returns_pure_iff.1 h).symm⟩

theorem returns_conv2dTranspose {data kernel : Expr} {params : Conv2dTransposeParams} {call : Call}
    (h : Returns (conv2dTranspose data kernel params) call) :
    ∃ attrs, Conv2d.normalizeTranspose Conv2dTransposeAttrs.opName params = .ok attrs ∧
      call =
        ⟨.op Conv2dTransposeAttrs.opName, [data, kernel], some (.conv2dTranspose attrs), []⟩ := by
  unfold conv2dTranspose at h
  obtain ⟨attrs, hattrs, h⟩ := h.bind
  obtain ⟨_, _, h⟩ := h.bind
  exact ⟨attrs, hattrs.of_except, (returns_pure_iff.1 h).symm⟩

theorem returns_conv2dTranspose_of_ok {params : Conv2dTransposeParams}
    {attrs : Conv2dTransposeAttrs}
    (h : Conv2d.normalizeTranspose Conv2dTransposeAttrs.opName params = .ok attrs)
    (data kernel : Expr) :
    Returns (conv2dTranspose data kernel params)
      ⟨.op Conv2dTransposeAttrs.opName, [data, kernel], some (.conv2dTranspose attrs), []⟩ := by
  rw [conv2dTranspose, h]
  exact ⟨[], _, rfl⟩

end TensorIR
