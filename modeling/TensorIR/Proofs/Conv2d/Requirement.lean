import TensorIR.Conv2d.Construct
import TensorIR.Proofs.Inference

/-!
What parameters of convolutions have to meet. The requirements of an operator are a list, in the
order in which they are looked at: a parameter list is refused with the error of the first
requirement that it does not meet, and completed to a record if it meets all. Main statement: both
constructors end as their requirements say, for all parameters.
-/

namespace TensorIR

/-- A condition on parameters, and the error of those that do not meet it. -/
structure Requirement where
  Met : Prop
  error : ConstructError

/--
What looking at requirements in order comes to: the error of the first that is not met, or a value
as `P` says.
-/
inductive Checked {α : Type} (P : α → Prop) :
    List Requirement → Except ConstructError α → Prop where
  | ok {a : α} (h : P a) : Checked P [] (.ok a)
  | met {r : Requirement} {rs : List Requirement} {x : Except ConstructError α} (hr : r.Met)
    (h : Checked P rs x) : Checked P (r :: rs) x
  | unmet {r : Requirement} (hr : ¬ r.Met) (rs : List Requirement) :
    Checked P (r :: rs) (.error r.error)

namespace Checked

variable {α β : Type} {P : α → Prop} {Q : β → Prop} {rs rs' : List Requirement}
  {x : Except ConstructError α}

theorem bind {f : α → Except ConstructError β} (h : Checked P rs x)
    (hf : ∀ a, P a → Checked Q rs' (f a)) : Checked Q (rs ++ rs') (x >>= f) := by
  induction h with
  | ok ha => exact hf _ ha
  | met hr _ ih => exact .met hr ih
  | unmet hr rs => exact .unmet hr (rs ++ rs')

/-- A step with one requirement, and the steps behind it. -/
theorem andThen {r : Requirement} {f : α → Except ConstructError β} (h : Checked P [r] x)
    (hf : ∀ a, P a → Checked Q rs (f a)) : Checked Q (r :: rs) (x >>= f) :=
  h.bind hf

theorem map {f : α → β} (h : Checked P rs x) (hf : ∀ a, P a → Q (f a)) :
    Checked Q rs (x.map f) := by
  induction h with
  | ok ha => exact .ok (hf _ ha)
  | met hr _ ih => exact .met hr ih
  | unmet hr rs => exact .unmet hr rs

theorem exists_eq_ok_iff (h : Checked P rs x) : (∃ a, x = .ok a) ↔ ∀ r ∈ rs, r.Met := by
  induction h with
  | ok => simp
  | met hr _ ih => simp [ih, hr]
  | unmet hr rs => simp [hr]

end Checked

namespace Conv2d

/-- One value for each axis, where a single one stands for both. -/
def perAxis : List Int64 → List Int64
  | [x] => [x, x]
  | values => values

/-- One value for each side, where one stands for all and two for height and width. -/
def perSide : List Int64 → List Int64
  | [p] => [p, p, p, p]
  | [h, w] => [h, w, h, w]
  | values => values

section Requirements

variable (op attr : String)

def lengthRequirement (expected : String) (lengths : List Nat) (values : List Int64) :
    Requirement where
  Met := values.length ∈ lengths
  error := .invalidLength op attr expected values

/-- Values are looked at as they are given, and reported in full length. -/
def valueRequirement (wanted : String) (least : Int64) (values full : List Int64) :
    Requirement where
  Met := ∀ x ∈ values, least ≤ x
  error := .invalidValue op attr wanted full

def groupsRequirement (groups : Int32) : Requirement where
  Met := 0 < groups
  error := .nonPositiveGroups op groups

def requirements (params : Conv2dParams) : List Requirement :=
  [lengthRequirement op "padding" "1, 2 or 4" [1, 2, 4] params.padding,
    lengthRequirement op "strides" "1 or 2" [1, 2] params.strides,
    lengthRequirement op "dilation" "1 or 2" [1, 2] params.dilation,
    groupsRequirement op params.groups,
    valueRequirement op "strides" "positive" 1 params.strides (perAxis params.strides),
    valueRequirement op "dilation" "positive" 1 params.dilation (perAxis params.dilation),
    valueRequirement op "padding" "non-negative" 0 params.padding (perSide params.padding)]

def transposeRequirements (params : Conv2dTransposeParams) : List Requirement :=
  requirements op params.conv ++
    [lengthRequirement op "output_padding" "1 or 2" [1, 2] params.outputPadding,
      valueRequirement op "output_padding" "non-negative" 0 params.outputPadding
        (perAxis params.outputPadding)]

end Requirements

end Conv2d

structure Conv2dParams.IsValid (params : Conv2dParams) : Prop where
  padding : params.padding.length ∈ [1, 2, 4] ∧ ∀ x ∈ params.padding, 0 ≤ x
  strides : params.strides.length ∈ [1, 2] ∧ ∀ x ∈ params.strides, 1 ≤ x
  dilation : params.dilation.length ∈ [1, 2] ∧ ∀ x ∈ params.dilation, 1 ≤ x
  groups : 0 < params.groups

structure Conv2dTransposeParams.IsValid (params : Conv2dTransposeParams) : Prop where
  conv : params.conv.IsValid
  outputPadding : params.outputPadding.length ∈ [1, 2] ∧ ∀ x ∈ params.outputPadding, 0 ≤ x

/-- The record has the values of the parameters, in full length. -/
structure Conv2dAttrs.Completes (attrs : Conv2dAttrs) (params : Conv2dParams) : Prop where
  strides : attrs.strides.toList = Conv2d.perAxis params.strides
  padding : attrs.padding.toList = Conv2d.perSide params.padding
  dilation : attrs.dilation.toList = Conv2d.perAxis params.dilation
  groups : attrs.groups = params.groups
  dataLayout : attrs.dataLayout = params.dataLayout
  kernelLayout : attrs.kernelLayout = params.kernelLayout
  outLayout : attrs.outLayout = params.outLayout.getD params.dataLayout
  outDtype : attrs.outDtype = params.outDtype

structure Conv2dTransposeAttrs.Completes (attrs : Conv2dTransposeAttrs)
    (params : Conv2dTransposeParams) : Prop where
  conv : attrs.conv.Completes params.conv
  outputPadding : attrs.outputPadding.toList = Conv2d.perAxis params.outputPadding

namespace Conv2d

variable {op attr : String} {values : List Int64}

theorem isValid_iff {params : Conv2dParams} :
    params.IsValid ↔ ∀ r ∈ requirements op params, r.Met := by
  simp only [requirements, List.forall_mem_cons, lengthRequirement, valueRequirement,
    groupsRequirement, List.not_mem_nil, false_implies, implies_true, and_true]
  constructor
  · intro h
    exact ⟨h.padding.1, h.strides.1, h.dilation.1, h.groups, h.strides.2, h.dilation.2,
      h.padding.2⟩
  · rintro ⟨hsides, haxes, hspread, hgroups, hstrides, hdilation, hpadding⟩
    exact ⟨⟨hsides, hpadding⟩, ⟨haxes, hstrides⟩, ⟨hspread, hdilation⟩, hgroups⟩

theorem transpose_isValid_iff {params : Conv2dTransposeParams} :
    params.IsValid ↔ ∀ r ∈ transposeRequirements op params, r.Met := by
  rw [transposeRequirements, List.forall_mem_append, ← isValid_iff]
  simp only [List.forall_mem_cons, lengthRequirement, valueRequirement, List.not_mem_nil,
    false_implies, implies_true, and_true]
  exact ⟨fun h => ⟨h.conv, h.outputPadding⟩, fun h => ⟨h.1, h.2⟩⟩

theorem mem_perAxis {x : Int64} : x ∈ perAxis values ↔ x ∈ values := by
  unfold perAxis
  split <;> simp

theorem mem_perSide {x : Int64} : x ∈ perSide values ↔ x ∈ values := by
  unfold perSide
  split <;> simp [or_left_comm]

theorem checked_completePadding :
    Checked (fun p => p.toList = perSide values)
      [lengthRequirement op "padding" "1, 2 or 4" [1, 2, 4] values]
      (completePadding op values) :=
  match values with
  | [] => .unmet (by simp [lengthRequirement]) []
  | [_] => .met (by simp [lengthRequirement]) (.ok rfl)
  | [_, _] => .met (by simp [lengthRequirement]) (.ok rfl)
  | [_, _, _] => .unmet (by simp [lengthRequirement]) []
  | [_, _, _, _] => .met (by simp [lengthRequirement]) (.ok rfl)
  | _ :: _ :: _ :: _ :: _ :: _ => .unmet (by simp [lengthRequirement]) []

theorem checked_broadcast :
    Checked (fun x => x.toList = perAxis values)
      [lengthRequirement op attr "1 or 2" [1, 2] values] (broadcast op attr values) :=
  match values with
  | [] => .unmet (by simp [lengthRequirement]) []
  | [_] => .met (by simp [lengthRequirement]) (.ok rfl)
  | [_, _] => .met (by simp [lengthRequirement]) (.ok rfl)
  | _ :: _ :: _ :: _ => .unmet (by simp [lengthRequirement]) []

section Values

variable {full : List Int64}

theorem checked_values {wanted : String} {least : Int64} (hfull : ∀ x, x ∈ full ↔ x ∈ values) :
    Checked (fun _ => True) [valueRequirement op attr wanted least values full]
      (if full.all (least ≤ ·) then .ok () else .error (.invalidValue op attr wanted full)) := by
  have hall : full.all (least ≤ ·) = true ↔ ∀ x ∈ values, least ≤ x := by
    simp only [List.all_eq_true, decide_eq_true_eq, hfull]
  split
  case isTrue h => exact .met (hall.1 h) (.ok trivial)
  case isFalse h => exact .unmet (mt hall.2 h) []

theorem checked_requirePositive (hfull : ∀ x, x ∈ full ↔ x ∈ values) :
    Checked (fun _ => True) [valueRequirement op attr "positive" 1 values full]
      (requirePositive op attr full) :=
  checked_values hfull

theorem checked_requireNonneg (hfull : ∀ x, x ∈ full ↔ x ∈ values) :
    Checked (fun _ => True) [valueRequirement op attr "non-negative" 0 values full]
      (requireNonneg op attr full) :=
  checked_values hfull

end Values

theorem checked_normalize (params : Conv2dParams) :
    Checked (fun attrs => attrs.Completes params) (requirements op params)
      (normalize op params) := by
  unfold normalize
  refine checked_completePadding.andThen fun padding hpadding => ?_
  refine checked_broadcast.andThen fun strides hstrides => ?_
  refine checked_broadcast.andThen fun dilation hdilation => ?_
  split
  case isTrue hgroups => exact .unmet (Int32.not_lt.2 hgroups) _
  case isFalse hgroups =>
    refine .met (Int32.not_le.1 hgroups) ?_
    -- What is reported of values that are refused is what the record would have.
    rw [← hstrides, ← hdilation, ← hpadding]
    refine (checked_requirePositive fun x => hstrides ▸ mem_perAxis).andThen fun _ _ => ?_
    refine (checked_requirePositive fun x => hdilation ▸ mem_perAxis).andThen fun _ _ => ?_
    refine (checked_requireNonneg fun x => hpadding ▸ mem_perSide).andThen fun _ _ => ?_
    exact .ok ⟨hstrides, hpadding, hdilation, rfl, rfl, rfl, rfl, rfl⟩

example : normalize op { strides := [0, 2], groups := 0 } = .error (.nonPositiveGroups op 0) :=
  rfl

theorem checked_normalizeTranspose (params : Conv2dTransposeParams) :
    Checked (fun attrs => attrs.Completes params) (transposeRequirements op params)
      (normalizeTranspose op params) := by
  unfold normalizeTranspose
  refine (checked_normalize params.conv).bind fun conv hconv => ?_
  refine checked_broadcast.andThen fun outputPadding hadded => ?_
  rw [← hadded]
  refine (checked_requireNonneg fun x => hadded ▸ mem_perAxis).andThen fun _ _ => ?_
  exact .ok ⟨hconv, hadded⟩

end Conv2d

section Construction

variable (data kernel : Expr)

theorem hasOutcome_conv2d (params : Conv2dParams) :
    HasOutcome (conv2d data kernel params)
      ((Conv2d.normalize Conv2dAttrs.opName params).map fun attrs =>
        ⟨.op Conv2dAttrs.opName, [data, kernel], some (.conv2d attrs), []⟩) := by
  intro log
  rw [conv2d]
  cases Conv2d.normalize Conv2dAttrs.opName params <;> rfl

theorem hasOutcome_conv2dTranspose (params : Conv2dTransposeParams) :
    HasOutcome (conv2dTranspose data kernel params)
      ((Conv2d.normalizeTranspose Conv2dTransposeAttrs.opName params).map fun attrs =>
        ⟨.op Conv2dTransposeAttrs.opName, [data, kernel], some (.conv2dTranspose attrs), []⟩) := by
  intro log
  rw [conv2dTranspose]
  cases Conv2d.normalizeTranspose Conv2dTransposeAttrs.opName params <;> rfl

/--
A constructor ends in one way, from every log: with the error of the first requirement that the
parameters do not meet, and if they meet all, with a call of the two operands and the completed
record. The parameters that meet all are the valid ones.
-/
theorem constructs_as_required :
    (∀ params : Conv2dParams, ∃ r, HasOutcome (conv2d data kernel params) r ∧
      ((∃ call, r = .ok call) ↔ params.IsValid) ∧
      Checked
        (fun call => ∃ attrs : Conv2dAttrs, attrs.Completes params ∧
          call = ⟨.op Conv2dAttrs.opName, [data, kernel], some (.conv2d attrs), []⟩)
        (Conv2d.requirements Conv2dAttrs.opName params) r) ∧
      ∀ params : Conv2dTransposeParams, ∃ r, HasOutcome (conv2dTranspose data kernel params) r ∧
        ((∃ call, r = .ok call) ↔ params.IsValid) ∧
        Checked
          (fun call => ∃ attrs : Conv2dTransposeAttrs, attrs.Completes params ∧
            call = ⟨.op Conv2dTransposeAttrs.opName, [data, kernel],
              some (.conv2dTranspose attrs), []⟩)
          (Conv2d.transposeRequirements Conv2dTransposeAttrs.opName params) r := by
  constructor
  · intro params
    suffices hchecked : Checked _ (Conv2d.requirements Conv2dAttrs.opName params) _ from
      ⟨_, hasOutcome_conv2d data kernel params,
        hchecked.exists_eq_ok_iff.trans Conv2d.isValid_iff.symm, hchecked⟩
    exact (Conv2d.checked_normalize params).map fun attrs hattrs => ⟨attrs, hattrs, rfl⟩
  · intro params
    suffices hchecked :
        Checked _ (Conv2d.transposeRequirements Conv2dTransposeAttrs.opName params) _ from
      ⟨_, hasOutcome_conv2dTranspose data kernel params,
        hchecked.exists_eq_ok_iff.trans Conv2d.transpose_isValid_iff.symm, hchecked⟩
    exact (Conv2d.checked_normalizeTranspose params).map fun attrs hattrs => ⟨attrs, hattrs, rfl⟩

end Construction

end TensorIR
