import TensorIR.Proofs.Conv2d.Channels
import TensorIR.Proofs.Conv2d.SizeSums

/-!
Sizes that are reported not to fit, where all dimensions of the operands are literals. A size that
does not fit is never returned. What is reported of the channels of a transposed convolution is
true; of a height or a width it says only that a number on the way to the size does not fit.
-/

namespace TensorIR

/-- The primal axis of a spatial axis. -/
def SpatialAxis.letter : SpatialAxis → Char
  | .height => 'H'
  | .width => 'W'

theorem SpatialAxis.isUpper_letter (axis : SpatialAxis) : axis.letter.isUpper = true := by
  cases axis <;> decide

namespace Conv2d

open SymExpr

/-- The integer is a literal's. -/
def Fits (n : Int) : Prop :=
  ∃ a : Int64, a.toInt = n

theorem fits_of_bounds {n : Int} (hlo : -2 ^ 63 ≤ n) (hhi : n ≤ Int64.maxValue.toInt) : Fits n := by
  have hmax : Int64.maxValue.toInt = 2 ^ 63 - 1 := Int64.toInt_maxValue
  exact exists_toInt_eq hlo (by omega)

namespace Direction

/-- The exact size of a spatial axis of the result. -/
def length : Direction → Conv2dTransposeAttrs → SpatialAxis → Int → Int → Int
  | .forward, attrs => windowCount attrs.conv
  | .transpose, attrs => spreadLength attrs

/-- All numbers fit from which the size of a spatial axis is computed. -/
def PartsFit : Direction → Conv2dTransposeAttrs → SpatialAxis → Int → Int → Prop
  | .forward, attrs => RoomFits attrs.conv
  | .transpose, attrs => SpreadFits attrs

/-- The channels of the result, as they are found from those of the kernel. -/
def TakesChannels : Direction → Conv2dAttrs → SymExpr → SymExpr → Prop
  | .forward, _, filters, channels => channels = filters
  | .transpose, attrs, filters, channels =>
    (filters * groupsExpr attrs).checkedSimplify? = some channels

/-- What is reported of a size that is not found. -/
def overflow (dir : Direction) (what : String) : Diagnostic :=
  ⟨.shapeOverflow, dir.signature.op, none, s!"the output {what} does not fit in a 64-bit integer"⟩

end Direction

section Parts

variable {dir : Direction} {op : String} {params : Conv2dParams} {attrs : Conv2dTransposeAttrs}
  {axis : SpatialAxis} {n k : Int64} (hattrs : Normalizes op params attrs.conv) (hn : 0 < n)
  (hk : 0 < k)
include hattrs hn hk

theorem exists_checkedSimplify?_lengthExpr_iff (hadded : 0 ≤ attrs.outputPadding.get axis)
    (hlt : dir = .transpose → attrs.outputPadding.get axis < attrs.conv.strides.get axis) :
    (∃ s, (dir.lengthExpr attrs axis (lit n) (lit k)).checkedSimplify? = some s) ↔
      dir.PartsFit attrs axis n.toInt k.toInt := by
  have hstride := hattrs.strides_pos axis
  have hdilation := hattrs.dilation_pos axis
  have hpadding := hattrs.padding_nonneg axis
  cases dir with
  | forward => exact exists_checkedSimplify?_outputSize_iff hstride hdilation hpadding hn hk
  | transpose =>
    exact exists_checkedSimplify?_transposedSize_iff hpadding hadded (hlt rfl) hstride hdilation hn
      hk

theorem fits_windowCount (h : RoomFits attrs.conv axis n.toInt k.toInt) :
    Fits (windowCount attrs.conv axis n.toInt k.toInt) := by
  have hmax : Int64.maxValue.toInt = 2 ^ 63 - 1 := Int64.toInt_maxValue
  have hreach := mul_pred_nonneg (hattrs.dilation_pos axis) hk
  have hstride := hattrs.strides_pos axis
  have hpadding := hattrs.padding_nonneg axis
  rw [Int64.le_iff_toInt_le, Int64.toInt_one] at hstride
  rw [Int64.le_iff_toInt_le, Int64.le_iff_toInt_le, Int64.toInt_zero] at hpadding
  rw [Int64.lt_iff_toInt_lt, Int64.toInt_zero] at hn
  obtain ⟨hpadded, hreachLe⟩ := h
  have hroom : -Int64.maxValue.toInt ≤ windowRoom attrs.conv axis n.toInt k.toInt ∧
      windowRoom attrs.conv axis n.toInt k.toInt ≤ Int64.maxValue.toInt - 1 := by
    unfold windowRoom
    omega
  have hcount := fdiv_bounds hstride hroom.1 hroom.2 (by omega) (by omega)
  unfold windowRoom at hcount
  apply fits_of_bounds
  · unfold windowCount
    omega
  · unfold windowCount
    omega

theorem fits_spreadLength (hadded : 0 ≤ attrs.outputPadding.get axis)
    (h : SpreadFits attrs axis n.toInt k.toInt) :
    Fits (spreadLength attrs axis n.toInt k.toInt) := by
  have hreach := mul_pred_nonneg (hattrs.dilation_pos axis) hk
  have hspread := mul_pred_nonneg (hattrs.strides_pos axis) hn
  rw [Int.mul_comm] at hspread
  rw [Int64.le_iff_toInt_le, Int64.toInt_zero] at hadded
  obtain ⟨_, _, htotal, hcropped⟩ := h
  refine fits_of_bounds ?_ htotal
  unfold spreadLength
  by_cases hpair : 2 ^ 63 < (attrs.conv.padding.before axis).toInt
      + (attrs.conv.padding.after axis).toInt
  · have hlast := (hcropped hpair).2
    omega
  · omega

/-- Where all numbers on the way to it fit, so does the size. -/
theorem fits_length (hadded : 0 ≤ attrs.outputPadding.get axis)
    (h : dir.PartsFit attrs axis n.toInt k.toInt) :
    Fits (dir.length attrs axis n.toInt k.toInt) := by
  cases dir with
  | forward => exact fits_windowCount hattrs hn hk h
  | transpose => exact fits_spreadLength hattrs hn hk hadded h

end Parts

section Sizes

variable {op what : String} {attrs : Conv2dTransposeAttrs} {data kernel size : Char → SymExpr}
  {e : SymExpr} {d : Diagnostic}

theorem fails_checkedSize (h : Fails (checkedSize op what e) d) :
    d = ⟨.shapeOverflow, op, none, s!"the output {what} does not fit in a 64-bit integer"⟩ ∧
      e.checkedSimplify? = none := by
  unfold checkedSize at h
  split at h
  case h_1 => exact absurd h not_fails_pure
  case h_2 hnone => exact ⟨eq_of_fails_throw h, hnone⟩

theorem fails_sizes_overflow {dir : Direction} (h : Fails (dir.sizes attrs data kernel) d)
    (hkind : d.kind = .shapeOverflow) :
    (dir = .transpose → Returns (checkOutputPadding attrs) ()) ∧
    ((dir = .transpose ∧ d = dir.overflow "channel size" ∧
        (kernel 'O' * groupsExpr attrs.conv).checkedSimplify? = none) ∨
      ∃ axis, d = dir.overflow axis.name ∧
        (dir.lengthExpr attrs axis (data axis.letter) (kernel axis.letter)).checkedSimplify?
          = none) := by
  cases dir with
  | forward =>
    rcases h.bind with h | ⟨_, _, h⟩
    · rw [(fails_rejectIfProved h).2] at hkind
      cases hkind
    rcases h.bind with h | ⟨_, _, h⟩
    · rw [(fails_rejectIfProved h).2] at hkind
      cases hkind
    refine ⟨nofun, .inr ?_⟩
    rcases h.bind with h | ⟨_, _, h⟩
    · exact ⟨.height, fails_checkedSize h⟩
    rcases h.bind with h | ⟨_, _, h⟩
    · exact ⟨.width, fails_checkedSize h⟩
    exact absurd h not_fails_pure
  | transpose =>
    rcases h.bind with h | ⟨_, _, h⟩
    · rw [(fails_rejectIfProved h).2] at hkind
      cases hkind
    rcases h.bind with h | ⟨_, _, h⟩
    · rw [(fails_rejectIfProved h).2] at hkind
      cases hkind
    rcases h.bind with h | ⟨_, hpadding, h⟩
    · rw [(fails_rejectIfProved h).2] at hkind
      cases hkind
    refine ⟨fun _ => hpadding, ?_⟩
    rcases h.bind with h | ⟨_, _, h⟩
    · exact .inl ⟨rfl, fails_checkedSize h⟩
    right
    rcases h.bind with h | ⟨_, _, h⟩
    · exact ⟨.height, fails_checkedSize h⟩
    rcases h.bind with h | ⟨_, _, h⟩
    · exact ⟨.width, fails_checkedSize h⟩
    exact absurd h not_fails_pure

/-- Of the sizes of a result, only the batch and the channels of a convolution are not computed. -/
theorem returns_sizes_eq {dir : Direction} (h : Returns (dir.sizes attrs data kernel) size) :
    (dir = .transpose → Returns (checkOutputPadding attrs) ()) ∧
    ∃ (channels : SymExpr) (length : SpatialAxis → SymExpr),
      size = resultSize (data 'N') channels (length .height) (length .width) ∧
      dir.TakesChannels attrs.conv (kernel 'O') channels ∧
      ∀ axis : SpatialAxis,
        (dir.lengthExpr attrs axis (data axis.letter) (kernel axis.letter)).checkedSimplify? =
          some (length axis) := by
  cases dir with
  | forward =>
    obtain ⟨_, _, height, width, hheight, hwidth, hsize⟩ := returns_sizes_forward h
    refine ⟨nofun, _, fun | .height => height | .width => width, hsize, rfl, ?_⟩
    intro axis
    cases axis with
    | height => exact hheight
    | width => exact hwidth
  | transpose =>
    obtain ⟨_, _, channels, height, width, hchannels, hheight, hwidth, hsize⟩ :=
      returns_sizes_transpose h
    obtain ⟨_, _, h⟩ := h.bind
    obtain ⟨_, _, h⟩ := h.bind
    obtain ⟨_, hpadding, _⟩ := h.bind
    refine ⟨fun _ => hpadding, _, fun | .height => height | .width => width, hsize, hchannels, ?_⟩
    intro axis
    cases axis with
    | height => exact hheight
    | width => exact hwidth

theorem exists_checkedSimplify?_mul_lits_iff (a b : Int64) :
    (∃ s, (mul (lit a) (lit b)).checkedSimplify? = some s) ↔ Fits (a.toInt * b.toInt) := by
  have hfits : Fits (a.toInt * b.toInt) ↔ ∃ c, a.mul? b = some c :=
    exists_congr fun _ => Int64.mul?_eq_some_iff.symm
  rw [hfits]
  unfold checkedSimplify?
  rw [simplify_mul_lits]
  cases hproduct : a.mul? b with
  | none => simp [hasOverflow, BinOp.fold?, hproduct]
  | some c => simp [hasOverflow]

theorem overflow_sizes {dir : Direction} {params : Conv2dParams}
    (hattrs : Normalizes op params attrs.conv) (hadded : ∀ axis, 0 ≤ attrs.outputPadding.get axis)
    {n k : SpatialAxis → Int64} {o : Int64} (hn : ∀ axis, 0 < n axis) (hk : ∀ axis, 0 < k axis)
    (hdata : ∀ axis, data axis.letter = lit (n axis))
    (hkernel : ∀ axis, kernel axis.letter = lit (k axis)) (ho : kernel 'O' = lit o) :
    (∀ d, Fails (dir.sizes attrs data kernel) d → d.kind = .shapeOverflow →
      (dir = .transpose ∧ d = dir.overflow "channel size" ∧
          ¬ Fits (o.toInt * params.groups.toInt)) ∨
        ∃ axis, d = dir.overflow axis.name ∧
          ¬ dir.PartsFit attrs axis (n axis).toInt (k axis).toInt) ∧
    ∀ size, Returns (dir.sizes attrs data kernel) size →
      (dir = .transpose → Fits (o.toInt * params.groups.toInt)) ∧
        ∀ axis, dir.PartsFit attrs axis (n axis).toInt (k axis).toInt := by
  have hchannels : (∃ s, (kernel 'O' * groupsExpr attrs.conv).checkedSimplify? = some s) ↔
      Fits (o.toInt * params.groups.toInt) := by
    rw [← hattrs.groups, ← toInt_groups, ← exists_checkedSimplify?_mul_lits_iff, ho]
    rfl
  have hlength (hpadding : dir = .transpose → Returns (checkOutputPadding attrs) ())
      (axis : SpatialAxis) :
      (∃ s, (dir.lengthExpr attrs axis (data axis.letter) (kernel axis.letter)).checkedSimplify?
        = some s) ↔ dir.PartsFit attrs axis (n axis).toInt (k axis).toInt := by
    rw [hdata, hkernel]
    apply exists_checkedSimplify?_lengthExpr_iff hattrs (hn axis) (hk axis) (hadded axis)
    intro hdir
    exact outputPadding_lt_strides hadded hattrs.strides_pos (hpadding hdir) axis
  constructor
  · intro d hd hkind
    obtain ⟨hpadding, ⟨hdir, heq, hnone⟩ | ⟨axis, heq, hnone⟩⟩ := fails_sizes_overflow hd hkind
    · refine .inl ⟨hdir, heq, ?_⟩
      rw [← hchannels, hnone]
      exact nofun
    · refine .inr ⟨axis, heq, ?_⟩
      rw [← hlength hpadding axis, hnone]
      exact nofun
  · intro size hsize
    obtain ⟨hpadding, channels, length, _, htaken, haxes⟩ := returns_sizes_eq hsize
    constructor
    · rintro rfl
      exact hchannels.1 ⟨channels, htaken⟩
    · intro axis
      exact (hlength hpadding axis).1 ⟨length axis, haxes axis⟩

theorem exists_canonicalSize_pos {layout : Layout} (hlayout : Axis.AllWellFormed layout.axes)
    (hunsplit : layout.Unsplit) {dims : List Int64} (hdims : ∀ a ∈ dims, 0 < a) {c : Char}
    (hc : c.isUpper = true) :
    ∃ a, 0 < a ∧ canonicalSize layout (dims.map lit) c = lit a ∧
      a.toInt = layout.primalSize (dims.map Int64.toInt) c := by
  have hnonneg : ∀ a ∈ dims, 0 ≤ a := fun a ha => Int64.le_of_lt (hdims a ha)
  obtain ⟨a, _, heq, hvalue⟩ := exists_canonicalSize_eq_lit hlayout hunsplit hnonneg hc
  refine ⟨a, ?_, heq, hvalue⟩
  obtain ⟨_, hmem⟩ := canonicalSize_eq hlayout hunsplit (isSize_of_mem_lits hnonneg) hc
  rw [heq] at hmem
  rcases hmem with hmem | hone
  · obtain ⟨b, hb, hlit⟩ := List.mem_map.1 hmem
    cases hlit
    exact hdims _ hb
  · cases hone
    decide

end Sizes

/--
Where all dimensions are literals, a size is reported not to fit if a number on the way to it does
not; the number of channels is itself that number. No size that does not fit is returned.
-/
theorem infer_shapeOverflow {dir : Direction} {data kernel : Expr} {params : Conv2dTransposeParams}
    {call : Call} {dataDims kernelDims : List Int64} {dataDtype kernelDtype : DataType}
    {dataLayout kernelLayout : Layout} (hcall : Returns (dir.construct data kernel params) call)
    (hdata : Returns (Registry.builtins.inferExpr data)
      (some (.tensor ⟨.known (dataDims.map .lit), dataDtype⟩)))
    (hkernel : Returns (Registry.builtins.inferExpr kernel)
      (some (.tensor ⟨.known (kernelDims.map .lit), kernelDtype⟩)))
    (hdataDims : ∀ a ∈ dataDims, 0 < a) (hkernelDims : ∀ a ∈ kernelDims, 0 < a)
    (hdataLayout : Layout.parse params.conv.dataLayout = .ok dataLayout)
    (hkernelLayout : Layout.parse params.conv.kernelLayout = .ok kernelLayout)
    (hdataUnsplit : dataLayout.Unsplit) (hkernelUnsplit : kernelLayout.Unsplit) :
    let dataSize := dataLayout.primalSize (dataDims.map Int64.toInt)
    let kernelSize := kernelLayout.primalSize (kernelDims.map Int64.toInt)
    ∃ attrs, call.attrs = some (dir.record attrs) ∧
      (∀ d, Fails (Registry.builtins.infer call) d → d.kind = .shapeOverflow →
        (dir = .transpose ∧ d = dir.overflow "channel size" ∧
            ¬ Fits (kernelSize 'O' * params.conv.groups.toInt)) ∨
          ∃ axis, d = dir.overflow axis.name ∧
            ¬ dir.PartsFit attrs axis (dataSize axis.letter) (kernelSize axis.letter)) ∧
      (∀ info, Returns (Registry.builtins.infer call) info →
        (dir = .transpose → Fits (kernelSize 'O' * params.conv.groups.toInt)) ∧
          ∀ axis, dir.PartsFit attrs axis (dataSize axis.letter) (kernelSize axis.letter)) ∧
      ∀ axis, dir.PartsFit attrs axis (dataSize axis.letter) (kernelSize axis.letter) →
        Fits (dir.length attrs axis (dataSize axis.letter) (kernelSize axis.letter)) := by
  intro dataSize kernelSize
  obtain ⟨attrs, hattrs, hadded, rfl⟩ := returns_construct_nonneg hcall
  rw [← hattrs.dataLayout] at hdataLayout
  rw [← hattrs.kernelLayout] at hkernelLayout
  have hdataAxes := Layout.allWellFormed_of_parse hdataLayout
  have hkernelAxes := Layout.allWellFormed_of_parse hkernelLayout
  have hdataLit (axis : SpatialAxis) : ∃ a, 0 < a ∧
      canonicalSize dataLayout (dataDims.map lit) axis.letter = lit a ∧
      a.toInt = dataSize axis.letter :=
    exists_canonicalSize_pos hdataAxes hdataUnsplit hdataDims axis.isUpper_letter
  have hkernelLit (axis : SpatialAxis) : ∃ a, 0 < a ∧
      canonicalSize kernelLayout (kernelDims.map lit) axis.letter = lit a ∧
      a.toInt = kernelSize axis.letter :=
    exists_canonicalSize_pos hkernelAxes hkernelUnsplit hkernelDims axis.isUpper_letter
  have hchannelsLit : ∃ a, 0 < a ∧
      canonicalSize kernelLayout (kernelDims.map lit) 'O' = lit a ∧ a.toInt = kernelSize 'O' :=
    exists_canonicalSize_pos hkernelAxes hkernelUnsplit hkernelDims (by decide)
  choose n hnPos hn hnValue using hdataLit
  choose k hkPos hk hkValue using hkernelLit
  obtain ⟨o, _, ho, hoValue⟩ := hchannelsLit
  obtain ⟨hfails, hreturns⟩ := overflow_sizes hattrs hadded hnPos hkPos hn hk ho
  simp only [← hnValue, ← hkValue, ← hoValue]
  refine ⟨attrs, rfl, ?_, ?_, ?_⟩
  · intro d hd hkind
    rcases fails_sizes_of_infer hdata hkernel hdataLayout hkernelLayout hd with hresolution | h
    · rw [hkind] at hresolution
      exact absurd hresolution (by decide)
    · exact hfails d h hkind
  · intro info hinfer
    obtain ⟨size, hsize⟩ :=
      returns_sizes_of_infer hdata hkernel hdataLayout hkernelLayout hinfer
    exact hreturns size hsize
  · intro axis
    exact fits_length hattrs (hnPos axis) (hkPos axis) (hadded axis)

theorem infer_shapeOverflow_strided :
    let dataDims : List Int64 := [1, 2, 4611686018427387904, 5]
    let kernelDims : List Int64 := [2, 3, 3, 3]
    let data := Expr.var "x" (some (.tensor ⟨.known (dataDims.map .lit), .void⟩))
    let kernel := Expr.var "w" (some (.tensor ⟨.known (kernelDims.map .lit), .void⟩))
    ∃ call attrs,
      Returns (conv2dTranspose data kernel
        { conv := { strides := [4], kernelLayout := "IOHW" } }) call ∧
      call.attrs = some (.conv2dTranspose attrs) ∧
      Fails (Registry.builtins.infer call) (Direction.transpose.overflow "height") ∧
      ¬ SpreadFits attrs .height 4611686018427387904 3 := by
  -- One window for each of the steps, four apart, leaves the range.
  intro dataDims kernelDims data kernel
  let attrs : Conv2dTransposeAttrs :=
    ⟨⟨⟨4, 4⟩, ⟨0, 0, 0, 0⟩, ⟨1, 1⟩, 1, "NCHW", "IOHW", "NCHW", .void⟩, ⟨0, 0⟩⟩
  let call := Direction.transpose.call data kernel attrs
  have hcall : Returns (Direction.construct .transpose data kernel
      { conv := { strides := [4], kernelLayout := "IOHW" } }) call := ⟨[], _, rfl⟩
  have hfails : Fails (Registry.builtins.infer call) (Direction.transpose.overflow "height") := by
    apply fails_of_map_eq
    decide +kernel
  obtain ⟨attrs', hattrs, hoverflow, _⟩ := infer_shapeOverflow hcall ⟨[], _, rfl⟩ ⟨[], _, rfl⟩
    (by simp [dataDims]) (by simp [kernelDims]) isLetters_canonicalData.parse_eq
    Direction.transpose.isLetters_canonicalKernel.parse_eq (Layout.unsplit_ofLetters _)
    (Layout.unsplit_ofLetters _)
  cases hattrs
  refine ⟨call, attrs, hcall, rfl, hfails, ?_⟩
  rcases hoverflow _ hfails rfl with ⟨_, heq, _⟩ | ⟨axis, heq, hparts⟩
  · exact absurd heq (by decide)
  · cases axis with
    | height =>
      have hdataSize : (Layout.ofLetters canonicalData).primalSize (dataDims.map Int64.toInt) 'H' =
          4611686018427387904 := by decide +kernel
      have hkernelSize : (Layout.ofLetters Direction.transpose.signature.canonicalKernel).primalSize
          (kernelDims.map Int64.toInt) 'H' = 3 := by decide +kernel
      rwa [SpatialAxis.letter, hdataSize, hkernelSize] at hparts
    | width => exact absurd heq (by decide)

/-- The padded input does not fit, but no more places are left for the window than there were. -/
theorem infer_conv2d_overflows_at_fitting_height :
    let dataDims : List Int64 := [1, 3, Int64.maxValue, 32]
    let kernelDims : List Int64 := [16, 3, 3, 3]
    let data := Expr.var "x" (some (.tensor ⟨.known (dataDims.map .lit), .void⟩))
    let kernel := Expr.var "w" (some (.tensor ⟨.known (kernelDims.map .lit), .void⟩))
    ∃ call attrs, Returns (conv2d data kernel { padding := [1] }) call ∧
      call.attrs = some (.conv2d attrs) ∧
      Fails (Registry.builtins.infer call) (Direction.forward.overflow "height") ∧
      Fits (windowCount attrs .height
        ((Layout.ofLetters "NCHW").primalSize (dataDims.map Int64.toInt) 'H')
        ((Layout.ofLetters "OIHW").primalSize (kernelDims.map Int64.toInt) 'H')) := by
  intro dataDims kernelDims data kernel
  let attrs : Conv2dAttrs :=
    ⟨⟨1, 1⟩, ⟨1, 1, 1, 1⟩, ⟨1, 1⟩, 1, "NCHW", "OIHW", "NCHW", .void⟩
  let call : Call := ⟨.op Conv2dAttrs.opName, [data, kernel], some (.conv2d attrs), []⟩
  have hfails : Fails (Registry.builtins.infer call) (Direction.forward.overflow "height") := by
    apply fails_of_map_eq
    decide +kernel
  exact ⟨call, attrs, ⟨[], _, rfl⟩, rfl, hfails, Int64.maxValue, by decide +kernel⟩

end Conv2d

end TensorIR
