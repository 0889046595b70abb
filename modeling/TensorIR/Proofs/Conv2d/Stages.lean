import TensorIR.Proofs.Conv2d.Transpose
import TensorIR.Proofs.Layout.Unsplit

/-!
Inference of convolutions and of their transposes in two stages. The first resolves the operands; it
fails for their types, layouts, ranks and element types alone. The second sees the sizes of their
primal axes, whatever the layouts, checks them and computes the sizes of the result.
-/

namespace TensorIR.Conv2d

/-- The two convolutions. -/
inductive Direction where
  | forward
  | transpose

namespace Direction

def signature : Direction → Signature
  | .forward => forwardSignature
  | .transpose => transposeSignature

def rule : Direction → InferRule
  | .forward => inferForward
  | .transpose => inferTranspose

/-- The attributes of a call. Only a transposed convolution has an output padding. -/
def record : Direction → Conv2dTransposeAttrs → Attrs
  | .forward, attrs => .conv2d attrs.conv
  | .transpose, attrs => .conv2dTranspose attrs

/-- The attributes that a rule reads from a call. -/
def attrs? : Direction → Option Attrs → Option Conv2dTransposeAttrs
  | .forward, some (.conv2d attrs) => some ⟨attrs, ⟨0, 0⟩⟩
  | .transpose, some (.conv2dTranspose attrs) => some attrs
  | _, _ => none

def typeKey : Direction → String
  | .forward => Conv2dAttrs.typeKey
  | .transpose => Conv2dTransposeAttrs.typeKey

def construct : Direction → Expr → Expr → Conv2dTransposeParams → ExceptT ConstructError Logged Call
  | .forward, data, kernel, params => conv2d data kernel params.conv
  | .transpose, data, kernel, params => conv2dTranspose data kernel params

def call (dir : Direction) (data kernel : Expr) (attrs : Conv2dTransposeAttrs) : Call :=
  ⟨.op dir.signature.op, [data, kernel], some (dir.record attrs), []⟩

end Direction

/-- The size of a primal axis, as it stands in a canonical shape. -/
def canonicalSize (layout : Layout) (dims : List SymExpr) (c : Char) : SymExpr :=
  (layout.logicalSize dims c).simplify

/-- The sizes of the primal axes of a result. -/
def resultSize (batch channels height width : SymExpr) : Char → SymExpr
  | 'N' => batch
  | 'C' => channels
  | 'H' => height
  | 'W' => width
  | _ => .lit 1

/-- The second stage. -/
def Direction.sizes (attrs : Conv2dTransposeAttrs) (data kernel : Char → SymExpr) :
    Direction → Infer (Char → SymExpr)
  | .forward => do
    let op := Conv2dAttrs.opName
    checkChannels attrs.conv (data 'C') (kernel 'I')
    checkGroups attrs.conv (kernel 'O')
    let height ← checkedSize op "height" (outputSize attrs.conv .height (data 'H') (kernel 'H'))
    let width ← checkedSize op "width" (outputSize attrs.conv .width (data 'W') (kernel 'W'))
    return resultSize (data 'N') (kernel 'O') height width
  | .transpose => do
    let op := Conv2dTransposeAttrs.opName
    checkTransposeChannels (data 'C') (kernel 'I')
    checkTransposeGroups attrs.conv (kernel 'I')
    checkOutputPadding attrs
    let channels ← checkedSize op "channel size" (kernel 'O' * groupsExpr attrs.conv)
    let height ← checkedSize op "height" (transposedSize attrs .height (data 'H') (kernel 'H'))
    let width ← checkedSize op "width" (transposedSize attrs .width (data 'W') (kernel 'W'))
    return resultSize (data 'N') channels height width

namespace Direction

/-- The size of a spatial axis of the result, before it is simplified. -/
def lengthExpr : Direction → Conv2dTransposeAttrs → SpatialAxis → SymExpr → SymExpr → SymExpr
  | .forward, attrs => outputSize attrs.conv
  | .transpose, attrs => transposedSize attrs

/-- The primal axes whose sizes are computed, in this order. -/
def computedAxes : Direction → List Char
  | .forward => ['H', 'W']
  | .transpose => ['C', 'H', 'W']

/-- The size of a primal axis of the result, before it is simplified. -/
def sizeExpr (dir : Direction) (attrs : Conv2dTransposeAttrs) (data kernel : Char → SymExpr) :
    Char → SymExpr
  | 'C' => kernel 'O' * groupsExpr attrs.conv
  | 'H' => dir.lengthExpr attrs .height (data 'H') (kernel 'H')
  | _ => dir.lengthExpr attrs .width (data 'W') (kernel 'W')

end Direction

section Rules

theorem eq_record_of_attrs? {dir : Direction} {given : Option Attrs} {attrs : Conv2dTransposeAttrs}
    (h : dir.attrs? given = some attrs) : given = some (dir.record attrs) := by
  unfold Direction.attrs? at h
  split at h
  · cases h
    rfl
  · cases h
    rfl
  · cases h

theorem rule_of_attrs?_eq_none {dir : Direction} {app : Application}
    (h : dir.attrs? app.call.attrs = none) :
    dir.rule app =
      throw ⟨.missingAttrs, dir.signature.op, none,
        "expects attributes of type " ++ dir.typeKey⟩ := by
  cases dir with
  | forward =>
    change inferForward app = _
    unfold inferForward
    dsimp only
    split
    · next heq =>
      rw [heq] at h
      cases h
    · rfl
  | transpose =>
    change inferTranspose app = _
    unfold inferTranspose
    dsimp only
    split
    · next heq =>
      rw [heq] at h
      cases h
    · rfl

/-- Resolved operands have their shapes in canonical layout; the second stage begins there. -/
theorem rule_eq_bind (dir : Direction) (attrs : Conv2dTransposeAttrs) :
    ∃ finish : Operands → Infer StructInfo,
      (∀ {app}, app.call.attrs = some (dir.record attrs) →
        dir.rule app = resolveOperands app dir.signature attrs.conv >>= finish) ∧
      (∀ t, finish (.rankOnly t) = pure (.tensor t)) ∧
      ∀ data kernel out dtype,
        finish (.known (canonicalData.toList.map data)
          (dir.signature.canonicalKernel.toList.map kernel) out dtype) =
        dir.sizes attrs data kernel >>= fun size =>
          outputInfo dir.signature.op out (canonicalData.toList.map size) dtype := by
  cases dir with
  | forward =>
    refine ⟨?finish, ?bind, ?rankOnly, ?known⟩
    case bind =>
      intro app hattrs
      change inferForward app = _
      unfold inferForward
      dsimp only
      rw [hattrs]
      rfl
    case rankOnly => exact fun _ => rfl
    case known =>
      intro data kernel out dtype
      simp only [Direction.signature, toList_canonicalData, toList_forwardKernel, List.map_cons,
        dimension, spatialSize, spatialIndex, List.getElem?_cons_zero, List.getElem?_cons_succ,
        Direction.sizes, bind_assoc, pure_bind, resultSize, SpatialAxis.name]
      rfl
  | transpose =>
    refine ⟨?finish', ?bind, ?rankOnly, ?known⟩
    case bind =>
      intro app hattrs
      change inferTranspose app = _
      unfold inferTranspose
      dsimp only
      rw [hattrs]
      rfl
    case rankOnly => exact fun _ => rfl
    case known =>
      intro data kernel out dtype
      simp only [Direction.signature, toList_canonicalData, toList_transposeKernel, List.map_cons,
        dimension, spatialSize, spatialIndex, List.getElem?_cons_zero, List.getElem?_cons_succ,
        Direction.sizes, bind_assoc, pure_bind, resultSize, SpatialAxis.name]
      rfl

end Rules

section Canonical

theorem isLetters_canonicalData : Layout.IsLetters canonicalData :=
  ⟨by decide, List.all_eq_true.1 rfl, by decide⟩

theorem Direction.isLetters_canonicalKernel (dir : Direction) :
    Layout.IsLetters dir.signature.canonicalKernel := by
  cases dir with
  | forward => exact ⟨by decide, List.all_eq_true.1 rfl, by decide⟩
  | transpose => exact ⟨by decide, List.all_eq_true.1 rfl, by decide⟩

variable {layout canonical : String} {dims shape : List SymExpr}

theorem InCanonicalLayout.exists_eq (h : InCanonicalLayout layout canonical dims shape)
    (hcanonical : Layout.parse canonical = .ok (.ofLetters canonical)) :
    ∃ src, Layout.parse layout = .ok src ∧
      shape = canonical.toList.map (canonicalSize src dims) := by
  obtain ⟨src, dst, hsrc, hdst, hconvert⟩ := h
  refine ⟨src, hsrc, ?_⟩
  rw [hcanonical, Except.ok.injEq] at hdst
  subst hdst
  unfold Layout.convert at hconvert
  split at hconvert
  · cases hconvert
    change (canonical.toList.map Axis.primal).map _ = _
    rw [List.map_map]
    apply List.map_congr_left
    intro c _
    rw [Function.comp_apply, Layout.axisSize_of_unsplit (Layout.unsplit_ofLetters canonical)]
    rfl
  · cases hconvert

/-- Sizes laid out again, where the axes that the canonical layout lacks have size one. -/
theorem backward_canonicalData {out : LayoutConversion} {size : Char → SymExpr}
    (h : layoutConversion layout canonicalData = .ok out)
    (hsize : ∀ c, c ∉ canonicalData.toList → size c = .lit 1) :
    out.backward (canonicalData.toList.map size) = .ok (out.src.shapeOf size) := by
  obtain ⟨hsrc, hdst, _⟩ := layoutConversion_eq_ok h
  rw [isLetters_canonicalData.parse_eq, Except.ok.injEq] at hdst
  have hfilled : (fun c => if c ∈ canonicalData.toList then size c else .lit 1) = size := by
    funext c
    split
    · rfl
    · next hc => exact (hsize c hc).symm
  rw [LayoutConversion.backward, ← hdst, Layout.convert_ofLetters isLetters_canonicalData
    (Layout.allWellFormed_of_parse hsrc), hfilled]

/-- An output layout has the axes of a result, in some order. -/
theorem perm_primalLetters_canonicalData {out : LayoutConversion}
    (h : layoutConversion layout canonicalData = .ok out) :
    out.src.primalLetters.Perm ['N', 'C', 'H', 'W'] := by
  obtain ⟨hsrc, hdst, hbetween⟩ := layoutConversion_eq_ok h
  have hperm := Layout.perm_primalLetters_of_between (Layout.allWellFormed_of_parse hsrc)
    (Layout.allWellFormed_of_parse hdst) hbetween
  rw [isLetters_canonicalData.parse_eq, Except.ok.injEq] at hdst
  rwa [← hdst, Layout.primalLetters_ofLetters, toList_canonicalData] at hperm

theorem resultSize_eq_one {batch channels height width : SymExpr} {c : Char}
    (hc : c ∉ canonicalData.toList) : resultSize batch channels height width c = .lit 1 := by
  unfold resultSize
  split
  · exact absurd (by decide) hc
  · exact absurd (by decide) hc
  · exact absurd (by decide) hc
  · exact absurd (by decide) hc
  · rfl

end Canonical

section Sizes

variable {attrs : Conv2dTransposeAttrs} {data kernel size : Char → SymExpr}

/-- The violation that the check of the channels rejects. -/
def Direction.channelsDiffer (dir : Direction) (attrs : Conv2dAttrs)
    (data kernel : Char → SymExpr) : Predicate :=
  match dir with
  | .forward => .compare .ne (data 'C') (kernel 'I' * groupsExpr attrs)
  | .transpose => .compare .ne (data 'C') (kernel 'I')

/-- The channels of the kernel that are split into groups. -/
def Direction.grouped : Direction → Char
  | .forward => 'O'
  | .transpose => 'I'

/-- The violation that the check of the groups rejects. -/
def Direction.groupsUneven (dir : Direction) (attrs : Conv2dAttrs) (kernel : Char → SymExpr) :
    Predicate :=
  .compare .ne (kernel dir.grouped % groupsExpr attrs) (.lit 0)

theorem addsEvents_sizes (dir : Direction) (attrs : Conv2dTransposeAttrs)
    (data kernel : Char → SymExpr) : AddsEvents (dir.sizes attrs data kernel) := by
  cases dir with
  | forward =>
    apply addsEvents_rejectIfProved.bind
    intro _
    apply addsEvents_rejectIfProved.bind
    intro _
    apply (addsEvents_checkedSize _ _).bind
    intro height
    apply (addsEvents_checkedSize _ _).bind
    intro width
    apply addsEvents_pure
  | transpose =>
    apply addsEvents_rejectIfProved.bind
    intro _
    apply addsEvents_rejectIfProved.bind
    intro _
    apply addsEvents_rejectIfProved.bind
    intro _
    apply (addsEvents_checkedSize _ _).bind
    intro channels
    apply (addsEvents_checkedSize _ _).bind
    intro height
    apply (addsEvents_checkedSize _ _).bind
    intro width
    apply addsEvents_pure

theorem returns_sizes_forward (h : Returns (Direction.sizes attrs data kernel .forward) size) :
    (Direction.forward.channelsDiffer attrs.conv data kernel).prove ≠ .holds ∧
    (Direction.forward.groupsUneven attrs.conv kernel).prove ≠ .holds ∧
    ∃ height width,
      (outputSize attrs.conv .height (data 'H') (kernel 'H')).checkedSimplify? = some height ∧
      (outputSize attrs.conv .width (data 'W') (kernel 'W')).checkedSimplify? = some width ∧
      size = resultSize (data 'N') (kernel 'O') height width := by
  obtain ⟨_, hchannels, h⟩ := h.bind
  obtain ⟨_, hgroups, h⟩ := h.bind
  obtain ⟨height, hheight, h⟩ := h.bind
  obtain ⟨width, hwidth, h⟩ := h.bind
  refine ⟨prove_ne_holds_of_returns hchannels, prove_ne_holds_of_returns hgroups, height, width,
    returns_checkedSize hheight, returns_checkedSize hwidth, (returns_pure_iff.1 h).symm⟩

theorem returns_sizes_transpose (h : Returns (Direction.sizes attrs data kernel .transpose) size) :
    (Direction.transpose.channelsDiffer attrs.conv data kernel).prove ≠ .holds ∧
    (Direction.transpose.groupsUneven attrs.conv kernel).prove ≠ .holds ∧
    ∃ channels height width,
      (kernel 'O' * groupsExpr attrs.conv).checkedSimplify? = some channels ∧
      (transposedSize attrs .height (data 'H') (kernel 'H')).checkedSimplify? = some height ∧
      (transposedSize attrs .width (data 'W') (kernel 'W')).checkedSimplify? = some width ∧
      size = resultSize (data 'N') channels height width := by
  obtain ⟨_, hchannels, h⟩ := h.bind
  obtain ⟨_, hgroups, h⟩ := h.bind
  obtain ⟨_, _, h⟩ := h.bind
  obtain ⟨channels, hproduct, h⟩ := h.bind
  obtain ⟨height, hheight, h⟩ := h.bind
  obtain ⟨width, hwidth, h⟩ := h.bind
  refine ⟨prove_ne_holds_of_returns hchannels, prove_ne_holds_of_returns hgroups, channels, height,
    width, returns_checkedSize hproduct, returns_checkedSize hheight, returns_checkedSize hwidth,
    (returns_pure_iff.1 h).symm⟩

theorem exists_eq_resultSize {dir : Direction} (h : Returns (dir.sizes attrs data kernel) size) :
    ∃ batch channels height width, size = resultSize batch channels height width := by
  cases dir with
  | forward =>
    obtain ⟨_, _, height, width, _, _, hsize⟩ := returns_sizes_forward h
    exact ⟨_, _, height, width, hsize⟩
  | transpose =>
    obtain ⟨_, _, channels, height, width, _, _, _, hsize⟩ := returns_sizes_transpose h
    exact ⟨_, channels, height, width, hsize⟩

theorem hasOutcome_checkedSize {op what : String} {size s : SymExpr}
    (h : size.checkedSimplify? = some s) : HasOutcome (checkedSize op what size) (.ok s) := by
  rw [checkedSize, h]
  apply hasOutcome_pure

theorem failsOnlyWith_checkedSize {kinds : List DiagnosticKind} {op : String}
    (h : .shapeOverflow ∈ kinds) (what : String) (e : SymExpr) :
    FailsOnlyWith kinds (checkedSize op what e) := by
  unfold checkedSize
  split
  · apply failsOnlyWith_pure
  · exact failsOnlyWith_throw h

/-- The reasons for which a call with resolved operands fails. -/
def sizeKinds : List DiagnosticKind :=
  [.channelMismatch, .groupDivisibility, .outputPadding, .shapeOverflow]

theorem failsOnlyWith_sizes (dir : Direction) (attrs : Conv2dTransposeAttrs)
    (data kernel : Char → SymExpr) : FailsOnlyWith sizeKinds (dir.sizes attrs data kernel) := by
  have hoverflow : .shapeOverflow ∈ sizeKinds := by decide
  cases dir with
  | forward =>
    apply (failsOnlyWith_rejectIfProved (by simp [sizeKinds])).bind
    intro _ _
    apply (failsOnlyWith_rejectIfProved (by simp [sizeKinds])).bind
    intro _ _
    apply (failsOnlyWith_checkedSize hoverflow _ _).bind
    intro height _
    apply (failsOnlyWith_checkedSize hoverflow _ _).bind
    intro width _
    apply failsOnlyWith_pure
  | transpose =>
    apply (failsOnlyWith_rejectIfProved (by simp [sizeKinds])).bind
    intro _ _
    apply (failsOnlyWith_rejectIfProved (by simp [sizeKinds])).bind
    intro _ _
    apply (failsOnlyWith_rejectIfProved (by simp [sizeKinds])).bind
    intro _ _
    apply (failsOnlyWith_checkedSize hoverflow _ _).bind
    intro channels _
    apply (failsOnlyWith_checkedSize hoverflow _ _).bind
    intro height _
    apply (failsOnlyWith_checkedSize hoverflow _ _).bind
    intro width _
    apply failsOnlyWith_pure

theorem fails_sizes {dir : Direction} {d : Diagnostic}
    (h : Fails (dir.sizes attrs data kernel) d) :
    (d.kind = .channelMismatch → (dir.channelsDiffer attrs.conv data kernel).prove = .holds) ∧
    (d.kind = .groupDivisibility → (dir.groupsUneven attrs.conv kernel).prove = .holds) := by
  -- What follows the two checks fails for other reasons.
  have hrest (hd : d.kind ∈ [DiagnosticKind.outputPadding, .shapeOverflow]) :
      d.kind ≠ .channelMismatch ∧ d.kind ≠ .groupDivisibility := by
    constructor
    · intro hkind
      simp [hkind] at hd
    · intro hkind
      simp [hkind] at hd
  cases dir with
  | forward =>
    rcases h.bind with h | ⟨_, _, h⟩
    · obtain ⟨hholds, rfl⟩ := fails_rejectIfProved h
      exact ⟨fun _ => hholds, nofun⟩
    rcases h.bind with h | ⟨_, _, h⟩
    · obtain ⟨hholds, rfl⟩ := fails_rejectIfProved h
      exact ⟨nofun, fun _ => hholds⟩
    have hkind : d.kind ∈ [DiagnosticKind.outputPadding, .shapeOverflow] := by
      revert h
      apply (failsOnlyWith_checkedSize (by simp) _ _).bind
      intro height _
      apply (failsOnlyWith_checkedSize (by simp) _ _).bind
      intro width _
      apply failsOnlyWith_pure
    obtain ⟨hchannels, hgroups⟩ := hrest hkind
    exact ⟨fun hkind => absurd hkind hchannels, fun hkind => absurd hkind hgroups⟩
  | transpose =>
    rcases h.bind with h | ⟨_, _, h⟩
    · obtain ⟨hholds, rfl⟩ := fails_rejectIfProved h
      exact ⟨fun _ => hholds, nofun⟩
    rcases h.bind with h | ⟨_, _, h⟩
    · obtain ⟨hholds, rfl⟩ := fails_rejectIfProved h
      exact ⟨nofun, fun _ => hholds⟩
    rcases h.bind with h | ⟨_, _, h⟩
    · obtain ⟨_, rfl⟩ := fails_rejectIfProved h
      exact ⟨nofun, nofun⟩
    have hkind : d.kind ∈ [DiagnosticKind.outputPadding, .shapeOverflow] := by
      revert h
      apply (failsOnlyWith_checkedSize (by simp) _ _).bind
      intro channels _
      apply (failsOnlyWith_checkedSize (by simp) _ _).bind
      intro height _
      apply (failsOnlyWith_checkedSize (by simp) _ _).bind
      intro width _
      apply failsOnlyWith_pure
    obtain ⟨hchannels, hgroups⟩ := hrest hkind
    exact ⟨fun hkind => absurd hkind hchannels, fun hkind => absurd hkind hgroups⟩

end Sizes

section Resolution

variable {op : String}

/-- The reasons for which operands are not resolved. -/
def resolutionKinds : List DiagnosticKind :=
  [.invalidArguments, .invalidLayout, .rankMismatch, .dtypeMismatch]

theorem failsOnlyWith_tensorOperand (index : Nat) {operand : Infer (Option StructInfo)}
    (h : FailsOnlyWith resolutionKinds operand) :
    FailsOnlyWith resolutionKinds (tensorOperand op index operand) := by
  unfold tensorOperand
  apply h.bind
  intro info _
  split
  · apply failsOnlyWith_pure
  · exact failsOnlyWith_throw (by simp [resolutionKinds])

theorem failsOnlyWith_checkLayout (layout canonical role attr : String) :
    FailsOnlyWith resolutionKinds (checkLayout op layout canonical role attr) := by
  unfold checkLayout
  split
  · apply failsOnlyWith_pure
  · exact failsOnlyWith_throw (by simp [resolutionKinds])

theorem failsOnlyWith_checkRank (info : TensorInfo) (layout : Layout) (role : String)
    (index : Nat) : FailsOnlyWith resolutionKinds (checkRank op info layout role index) := by
  unfold checkRank
  split
  · apply failsOnlyWith_pure
  · exact failsOnlyWith_throw (by simp [resolutionKinds])

theorem failsOnlyWith_resultDtype (attrs : Conv2dAttrs) (data kernel : DataType) :
    FailsOnlyWith resolutionKinds (resultDtype op attrs data kernel) := by
  unfold resultDtype commonDtype
  split
  · split
    · apply failsOnlyWith_pure
    · split
      · apply failsOnlyWith_pure
      · exact failsOnlyWith_throw (by simp [resolutionKinds])
  · apply failsOnlyWith_pure

theorem failsOnlyWith_canonicalShape (conversion : LayoutConversion) (dims : List SymExpr) :
    FailsOnlyWith resolutionKinds (canonicalShape op conversion dims) := by
  unfold canonicalShape
  split
  · apply failsOnlyWith_pure
  · exact failsOnlyWith_throw (by simp [resolutionKinds])

theorem failsOnlyWith_resolveOperands {app : Application} {data kernel : Infer (Option StructInfo)}
    (hargs : app.operands = [data, kernel]) (hdata : FailsOnlyWith resolutionKinds data)
    (hkernel : FailsOnlyWith resolutionKinds kernel) (sig : Signature) (attrs : Conv2dAttrs) :
    FailsOnlyWith resolutionKinds (resolveOperands app sig attrs) := by
  unfold resolveOperands
  rw [hargs]
  apply FailsOnlyWith.bind
  · apply (failsOnlyWith_tensorOperand 0 hdata).bind
    intro data _
    apply (failsOnlyWith_tensorOperand 1 hkernel).bind
    intro kernel _
    apply failsOnlyWith_pure
  · intro (data, kernel) _
    apply (failsOnlyWith_checkLayout _ _ _ _).bind
    intro dataLayout _
    apply (failsOnlyWith_checkLayout _ _ _ _).bind
    intro kernelLayout _
    apply (failsOnlyWith_checkLayout _ _ _ _).bind
    intro outLayout _
    apply (failsOnlyWith_checkRank _ _ _ _).bind
    intro _ _
    apply (failsOnlyWith_checkRank _ _ _ _).bind
    intro _ _
    apply (failsOnlyWith_resultDtype _ _ _).bind
    intro dtype _
    split
    · apply (failsOnlyWith_canonicalShape _ _).bind
      intro data _
      apply (failsOnlyWith_canonicalShape _ _).bind
      intro kernel _
      apply failsOnlyWith_pure
    · apply failsOnlyWith_pure

end Resolution

section Calls

variable {dir : Direction} {data kernel : Expr} {attrs : Conv2dTransposeAttrs}

theorem returns_construct_nonneg {params : Conv2dTransposeParams} {call : Call}
    (h : Returns (dir.construct data kernel params) call) :
    ∃ attrs, Normalizes dir.signature.op params.conv attrs.conv ∧
      (∀ axis, 0 ≤ attrs.outputPadding.get axis) ∧ call = dir.call data kernel attrs := by
  cases dir with
  | forward =>
    obtain ⟨attrs, hattrs, rfl⟩ := returns_conv2d h
    have hnone (axis : SpatialAxis) : 0 ≤ PerAxis.get ⟨0, 0⟩ axis := by
      cases axis <;> decide
    exact ⟨⟨attrs, ⟨0, 0⟩⟩, normalizes_of_normalize hattrs, hnone, rfl⟩
  | transpose =>
    obtain ⟨attrs, hattrs, rfl⟩ := returns_conv2dTranspose h
    obtain ⟨hconv, hnonneg⟩ := normalize_of_normalizeTranspose hattrs
    exact ⟨attrs, normalizes_of_normalize hconv, hnonneg, rfl⟩

theorem returns_construct {params : Conv2dTransposeParams} {call : Call}
    (h : Returns (dir.construct data kernel params) call) :
    ∃ attrs, Normalizes dir.signature.op params.conv attrs.conv ∧
      call = dir.call data kernel attrs := by
  obtain ⟨attrs, hattrs, _, hcall⟩ := returns_construct_nonneg h
  exact ⟨attrs, hattrs, hcall⟩

theorem infer_call (dir : Direction) (data kernel : Expr) (attrs : Conv2dTransposeAttrs) :
    ∃ app, Registry.builtins.infer (dir.call data kernel attrs) = dir.rule app ∧
      app.call.attrs = some (dir.record attrs) ∧
      app.operands = [Registry.builtins.inferExpr data, Registry.builtins.inferExpr kernel] := by
  cases dir with
  | forward => exact infer_forward data kernel attrs.conv
  | transpose => exact infer_transpose data kernel attrs

variable {dataDims kernelDims : List SymExpr} {dataDtype kernelDtype : DataType}
  (hdata : Returns (Registry.builtins.inferExpr data)
    (some (.tensor ⟨.known dataDims, dataDtype⟩)))
  (hkernel : Returns (Registry.builtins.inferExpr kernel)
    (some (.tensor ⟨.known kernelDims, kernelDtype⟩)))
include hdata hkernel

theorem returns_resolveOperands {app : Application}
    (hargs : app.operands =
      [Registry.builtins.inferExpr data, Registry.builtins.inferExpr kernel])
    {operands : Operands} (h : Returns (resolveOperands app dir.signature attrs.conv) operands) :
    ∃ dataLayout kernelLayout out dtype,
      Layout.parse attrs.conv.dataLayout = .ok dataLayout ∧
      Layout.parse attrs.conv.kernelLayout = .ok kernelLayout ∧
      layoutConversion attrs.conv.outLayout canonicalData = .ok out ∧
      operands = .known (canonicalData.toList.map (canonicalSize dataLayout dataDims))
        (dir.signature.canonicalKernel.toList.map (canonicalSize kernelLayout kernelDims))
        out dtype := by
  obtain ⟨dataShape, kernelShape, out, dtype, rfl, hdataShape, hkernelShape, hout⟩ :=
    resolveOperands_known hargs (fun _ h => eq_of_inferExpr_tensor hdata h)
      (fun _ h => eq_of_inferExpr_tensor hkernel h) rfl rfl h
  obtain ⟨dataLayout, hdataLayout, rfl⟩ :=
    hdataShape.exists_eq isLetters_canonicalData.parse_eq
  obtain ⟨kernelLayout, hkernelLayout, rfl⟩ :=
    hkernelShape.exists_eq dir.isLetters_canonicalKernel.parse_eq
  exact ⟨dataLayout, kernelLayout, out, dtype, hdataLayout, hkernelLayout, hout, rfl⟩

/-- Inference succeeds through both stages; the result has the sizes of the second. -/
theorem returns_infer {info : StructInfo}
    (h : Returns (Registry.builtins.infer (dir.call data kernel attrs)) info) :
    ∃ dataLayout kernelLayout out dtype size,
      Layout.parse attrs.conv.dataLayout = .ok dataLayout ∧
      Layout.parse attrs.conv.kernelLayout = .ok kernelLayout ∧
      layoutConversion attrs.conv.outLayout canonicalData = .ok out ∧
      Returns (dir.sizes attrs (canonicalSize dataLayout dataDims)
        (canonicalSize kernelLayout kernelDims)) size ∧
      info = .tensor ⟨.known (out.src.shapeOf size), dtype⟩ := by
  obtain ⟨app, hinfer, hattrs, hargs⟩ := infer_call dir data kernel attrs
  obtain ⟨finish, hrule, _, hfinish⟩ := rule_eq_bind dir attrs
  rw [hinfer, hrule hattrs] at h
  obtain ⟨operands, hoperands, h⟩ := h.bind
  obtain ⟨dataLayout, kernelLayout, out, dtype, hdataLayout, hkernelLayout, hout, rfl⟩ :=
    returns_resolveOperands hdata hkernel hargs hoperands
  rw [hfinish] at h
  obtain ⟨size, hsizes, h⟩ := h.bind
  obtain ⟨dims, hdims, rfl⟩ := returns_outputInfo h
  obtain ⟨batch, channels, height, width, rfl⟩ := exists_eq_resultSize hsizes
  rw [backward_canonicalData hout fun _ => resultSize_eq_one, Except.ok.injEq] at hdims
  subst hdims
  exact ⟨dataLayout, kernelLayout, out, dtype, _, hdataLayout, hkernelLayout, hout, hsizes, rfl⟩

/-- Inference fails in one of its stages; with resolved operands, the result can be laid out. -/
theorem fails_infer {d : Diagnostic}
    (h : Fails (Registry.builtins.infer (dir.call data kernel attrs)) d) :
    d.kind ∈ resolutionKinds ∨ ∃ dataLayout kernelLayout,
      Layout.parse attrs.conv.dataLayout = .ok dataLayout ∧
      Layout.parse attrs.conv.kernelLayout = .ok kernelLayout ∧
      Fails (dir.sizes attrs (canonicalSize dataLayout dataDims)
        (canonicalSize kernelLayout kernelDims)) d := by
  have hoperand (e : Expr) (t : Option StructInfo)
      (ht : Returns (Registry.builtins.inferExpr e) t) :
      FailsOnlyWith resolutionKinds (Registry.builtins.inferExpr e) := by
    intro d' hd'
    have hadds := Registry.addsEvents_inferExpr Registry.rulesAddEvents_builtins e
    exact absurd hd' (hadds.not_fails_of_returns ht)
  obtain ⟨app, hinfer, hattrs, hargs⟩ := infer_call dir data kernel attrs
  obtain ⟨finish, hrule, _, hfinish⟩ := rule_eq_bind dir attrs
  rw [hinfer, hrule hattrs] at h
  rcases h.bind with h | ⟨operands, hoperands, h⟩
  · refine .inl (failsOnlyWith_resolveOperands hargs ?_ ?_ _ _ d h)
    · exact hoperand data _ hdata
    · exact hoperand kernel _ hkernel
  obtain ⟨dataLayout, kernelLayout, out, dtype, hdataLayout, hkernelLayout, hout, rfl⟩ :=
    returns_resolveOperands hdata hkernel hargs hoperands
  rw [hfinish] at h
  rcases h.bind with h | ⟨size, hsizes, h⟩
  · exact .inr ⟨dataLayout, kernelLayout, hdataLayout, hkernelLayout, h⟩
  obtain ⟨batch, channels, height, width, rfl⟩ := exists_eq_resultSize hsizes
  rw [outputInfo, backward_canonicalData hout fun _ => resultSize_eq_one] at h
  exact absurd h not_fails_pure

section Layouts

variable {dataLayout kernelLayout : Layout}
  (hdataLayout : Layout.parse attrs.conv.dataLayout = .ok dataLayout)
  (hkernelLayout : Layout.parse attrs.conv.kernelLayout = .ok kernelLayout)
include hdataLayout hkernelLayout

theorem returns_sizes_of_infer {info : StructInfo}
    (h : Returns (Registry.builtins.infer (dir.call data kernel attrs)) info) :
    ∃ size, Returns (dir.sizes attrs (canonicalSize dataLayout dataDims)
      (canonicalSize kernelLayout kernelDims)) size := by
  obtain ⟨_, _, _, _, size, hdataLayout', hkernelLayout', _, hsizes, _⟩ :=
    returns_infer hdata hkernel h
  cases hdataLayout.symm.trans hdataLayout'
  cases hkernelLayout.symm.trans hkernelLayout'
  exact ⟨size, hsizes⟩

theorem fails_sizes_of_infer {d : Diagnostic}
    (h : Fails (Registry.builtins.infer (dir.call data kernel attrs)) d) :
    d.kind ∈ resolutionKinds ∨ Fails (dir.sizes attrs (canonicalSize dataLayout dataDims)
      (canonicalSize kernelLayout kernelDims)) d := by
  rcases fails_infer hdata hkernel h with h | ⟨_, _, hdataLayout', hkernelLayout', h⟩
  · exact .inl h
  · cases hdataLayout.symm.trans hdataLayout'
    cases hkernelLayout.symm.trans hkernelLayout'
    exact .inr h

end Layouts

end Calls

end TensorIR.Conv2d
