import TensorIR.Proofs.Conv2d.ShapeOverflow

/-!
The signs of the sizes of a result, where all dimensions of the operands are positive literals and
no layout has sub-axes. Batch and channels are positive. A height or a width is computed without
asking whether there is room for a window, so it is negative where the window reaches too far beyond
the padded input, or where more is cropped than the windows cover.
-/

namespace TensorIR.Conv2d

open SymExpr

/-- The window reaches beyond the padded input by one stride at most; what is cropped from a
transposed convolution is no more than what its windows cover. -/
def Direction.HasRoom : Direction → Conv2dTransposeAttrs → SpatialAxis → Int → Int → Prop
  | .forward, attrs, axis, input, window =>
    (attrs.conv.dilation.get axis).toInt * (window - 1) + 1 ≤
      input + ((attrs.conv.padding.before axis).toInt + (attrs.conv.padding.after axis).toInt)
        + (attrs.conv.strides.get axis).toInt
  | .transpose, attrs, axis, input, window =>
    (attrs.conv.padding.before axis).toInt + (attrs.conv.padding.after axis).toInt ≤
      (input - 1) * (attrs.conv.strides.get axis).toInt
        + (attrs.conv.dilation.get axis).toInt * (window - 1)
        + (attrs.outputPadding.get axis).toInt + 1

section Lengths

variable {dir : Direction} {op : String} {params : Conv2dParams} {attrs : Conv2dTransposeAttrs}
  {axis : SpatialAxis} {input window : Int}

theorem windowCount_nonneg_iff {attrs : Conv2dAttrs} (hstride : 1 ≤ attrs.strides.get axis) :
    0 ≤ windowCount attrs axis input window ↔
      (attrs.dilation.get axis).toInt * (window - 1) + 1 ≤
        input + ((attrs.padding.before axis).toInt + (attrs.padding.after axis).toInt)
          + (attrs.strides.get axis).toInt := by
  rw [Int64.le_iff_toInt_le, Int64.toInt_one] at hstride
  unfold windowCount
  have hpred (q : Int) : 0 ≤ q + 1 ↔ -1 ≤ q := by omega
  rw [Int.fdiv_eq_ediv_of_nonneg _ (by omega), hpred, Int.le_ediv_iff_mul_le (by omega)]
  omega

theorem length_nonneg_iff (hattrs : Normalizes op params attrs.conv) :
    0 ≤ dir.length attrs axis input window ↔ dir.HasRoom attrs axis input window := by
  cases dir with
  | forward => exact windowCount_nonneg_iff (hattrs.strides_pos axis)
  | transpose =>
    change 0 ≤ spreadLength attrs axis input window ↔ _ ≤ _
    unfold spreadLength
    omega

end Lengths

section Sizes

variable {dir : Direction} {op : String} {params : Conv2dParams} {attrs : Conv2dTransposeAttrs}

theorem exists_length (hattrs : Normalizes op params attrs.conv) {axis : SpatialAxis} {n k : Int64}
    {s : SymExpr} (h : (dir.lengthExpr attrs axis (lit n) (lit k)).checkedSimplify? = some s) :
    ∃ a : Int64, s = lit a ∧ a.toInt = dir.length attrs axis n.toInt k.toInt := by
  cases dir with
  | forward => exact exists_windowCount (hattrs.strides_pos axis) h
  | transpose =>
    let σ : Assignment := fun _ => 0
    have hn : (lit n).eval? σ = some n.toInt := eval?_lit n
    have hinput : (lit n).Constant true := trivial
    have hwindow : (lit k).Constant true := trivial
    exact exists_lit_of_checkedSimplify? (settled_simplify_transposedSize hinput hwindow) h
      (eval?_transposedSize attrs axis hn (eval?_lit k))

/-- The channels of a result are those of the kernel, once for each group in a transposed one. -/
theorem exists_channels (hattrs : Normalizes op params attrs.conv) {o : Int64} (ho : 0 < o)
    {channels : SymExpr} (h : dir.TakesChannels attrs.conv (lit o) channels) :
    ∃ a : Int64, channels = lit a ∧ 0 ≤ a := by
  cases dir with
  | forward => exact ⟨o, h, Int64.le_of_lt ho⟩
  | transpose =>
    let σ : Assignment := fun _ => 0
    have hlit : (lit o).eval? σ = some o.toInt := eval?_lit o
    have hconstant : (lit o * groupsExpr attrs.conv).Constant true := ⟨rfl, trivial, trivial⟩
    obtain ⟨a, rfl, ha⟩ := exists_lit_of_checkedSimplify? (settled_simplify hconstant) h
      (eval?_mul_groupsExpr attrs.conv hlit)
    have hgroups := hattrs.groups_pos
    rw [Int32.lt_iff_toInt_lt, Int32.toInt_zero] at hgroups
    rw [Int64.lt_iff_toInt_lt, Int64.toInt_zero] at ho
    have hproduct := Int.mul_pos ho hgroups
    refine ⟨a, rfl, ?_⟩
    rw [Int64.le_iff_toInt_le, Int64.toInt_zero]
    omega

variable {layout : String} {out : LayoutConversion} {b c h w : Int64}

/-- A result with literal sizes and no sub-axes has its sizes as dimensions, in some order. -/
theorem shapeOf_resultSize_lits (hout : layoutConversion layout canonicalData = .ok out)
    (hunsplit : out.src.Unsplit) :
    ∃ dims : List Int64, out.src.shapeOf (resultSize (lit b) (lit c) (lit h) (lit w)) =
      dims.map lit ∧ dims.Perm [b, c, h, w] := by
  have hlits (l : Char) : ∃ a, resultSize (lit b) (lit c) (lit h) (lit w) l = lit a := by
    unfold resultSize
    split
    · exact ⟨b, rfl⟩
    · exact ⟨c, rfl⟩
    · exact ⟨h, rfl⟩
    · exact ⟨w, rfl⟩
    · exact ⟨1, rfl⟩
  choose f hf using hlits
  refine ⟨out.src.primalLetters.map f, ?_, ?_⟩
  · rw [Layout.shapeOf_of_unsplit hunsplit, List.map_map]
    apply List.map_congr_left
    intro l _
    rw [hf, (isTerm_lit _).simplify_eq]
    rfl
  · have hN : b = f 'N' := lit.inj (hf 'N')
    have hC : c = f 'C' := lit.inj (hf 'C')
    have hH : h = f 'H' := lit.inj (hf 'H')
    have hW : w = f 'W' := lit.inj (hf 'W')
    rw [hN, hC, hH, hW]
    exact (perm_primalLetters_canonicalData hout).map f

end Sizes

/--
Where all dimensions of the operands are positive literals and no layout has sub-axes, the result is
a shape of literals. None of them is negative exactly where there is room on both spatial axes.
-/
theorem infer_nonneg_iff {dir : Direction} {data kernel : Expr} {params : Conv2dTransposeParams}
    {call : Call} {dataDims kernelDims : List Int64} {dataDtype kernelDtype : DataType}
    {dataLayout kernelLayout outLayout : Layout}
    (hcall : Returns (dir.construct data kernel params) call)
    (hdata : Returns (Registry.builtins.inferExpr data)
      (some (.tensor ⟨.known (dataDims.map .lit), dataDtype⟩)))
    (hkernel : Returns (Registry.builtins.inferExpr kernel)
      (some (.tensor ⟨.known (kernelDims.map .lit), kernelDtype⟩)))
    (hdataDims : ∀ a ∈ dataDims, 0 < a) (hkernelDims : ∀ a ∈ kernelDims, 0 < a)
    (hdataLayout : Layout.parse params.conv.dataLayout = .ok dataLayout)
    (hkernelLayout : Layout.parse params.conv.kernelLayout = .ok kernelLayout)
    (houtLayout :
      Layout.parse (params.conv.outLayout.getD params.conv.dataLayout) = .ok outLayout)
    (hdataUnsplit : dataLayout.Unsplit) (hkernelUnsplit : kernelLayout.Unsplit)
    (houtUnsplit : outLayout.Unsplit) {info : StructInfo}
    (hinfer : Returns (Registry.builtins.infer call) info) :
    let dataSize := dataLayout.primalSize (dataDims.map Int64.toInt)
    let kernelSize := kernelLayout.primalSize (kernelDims.map Int64.toInt)
    ∃ attrs dims dtype, call.attrs = some (dir.record attrs) ∧
      info = .tensor ⟨.known (List.map .lit dims), dtype⟩ ∧
      ((∀ a ∈ dims, 0 ≤ a) ↔
        ∀ axis, dir.HasRoom attrs axis (dataSize axis.letter) (kernelSize axis.letter)) := by
  intro dataSize kernelSize
  obtain ⟨attrs, hattrs, -, rfl⟩ := returns_construct_nonneg hcall
  rw [← hattrs.dataLayout] at hdataLayout
  rw [← hattrs.kernelLayout] at hkernelLayout
  rw [← hattrs.outLayout] at houtLayout
  have hdataAxes := Layout.allWellFormed_of_parse hdataLayout
  have hkernelAxes := Layout.allWellFormed_of_parse hkernelLayout
  have hdataLit {c : Char} (hc : c.isUpper = true) : ∃ a, 0 < a ∧
      canonicalSize dataLayout (dataDims.map lit) c = lit a ∧ a.toInt = dataSize c :=
    exists_canonicalSize_pos hdataAxes hdataUnsplit hdataDims hc
  have hkernelLit {c : Char} (hc : c.isUpper = true) : ∃ a, 0 < a ∧
      canonicalSize kernelLayout (kernelDims.map lit) c = lit a ∧ a.toInt = kernelSize c :=
    exists_canonicalSize_pos hkernelAxes hkernelUnsplit hkernelDims hc
  obtain ⟨dataLayout', kernelLayout', out, dtype, size, hdataLayout', hkernelLayout', hout, hsizes,
    rfl⟩ := returns_infer hdata hkernel hinfer
  cases hdataLayout.symm.trans hdataLayout'
  cases hkernelLayout.symm.trans hkernelLayout'
  cases houtLayout.symm.trans (layoutConversion_eq_ok hout).1
  obtain ⟨-, channels, length, rfl, htaken, hlengths⟩ := returns_sizes_eq hsizes
  obtain ⟨batch, hbatchPos, hbatch, -⟩ := hdataLit (c := 'N') (by decide)
  obtain ⟨o, hoPos, ho, -⟩ := hkernelLit (c := 'O') (by decide)
  rw [ho] at htaken
  obtain ⟨filters, rfl, hfilters⟩ := exists_channels hattrs hoPos htaken
  have haxis (axis : SpatialAxis) : ∃ a : Int64, length axis = lit a ∧
      (0 ≤ a ↔ dir.HasRoom attrs axis (dataSize axis.letter) (kernelSize axis.letter)) := by
    obtain ⟨n, -, hn, hnValue⟩ := hdataLit axis.isUpper_letter
    obtain ⟨k, -, hk, hkValue⟩ := hkernelLit axis.isUpper_letter
    have hlength := hlengths axis
    rw [hn, hk] at hlength
    obtain ⟨a, ha, hvalue⟩ := exists_length hattrs hlength
    refine ⟨a, ha, ?_⟩
    rw [← hnValue, ← hkValue, ← length_nonneg_iff hattrs, ← hvalue, Int64.le_iff_toInt_le,
      Int64.toInt_zero]
  choose a hlits hroom using haxis
  rw [hbatch, hlits, hlits]
  obtain ⟨dims, hdims, hperm⟩ := shapeOf_resultSize_lits hout houtUnsplit
  refine ⟨attrs, dims, dtype, rfl, by rw [hdims], ?_⟩
  have hspatial : (∀ axis, 0 ≤ a axis) ↔ 0 ≤ a .height ∧ 0 ≤ a .width := by
    constructor
    · exact fun h => ⟨h .height, h .width⟩
    · rintro ⟨hheight, hwidth⟩ axis
      cases axis with
      | height => exact hheight
      | width => exact hwidth
  simp only [← hroom, hspatial, hperm.mem_iff, List.forall_mem_cons, List.not_mem_nil,
    false_implies, implies_true, and_true, Int64.le_of_lt hbatchPos, hfilters, true_and]

theorem infer_nonneg_iff_no_place :
    let dataDims : List Int64 := [1, 3, 2, 5]
    let kernelDims : List Int64 := [4, 3, 3, 3]
    let data := Expr.var "x" (some (.tensor ⟨.known (dataDims.map .lit), .void⟩))
    let kernel := Expr.var "w" (some (.tensor ⟨.known (kernelDims.map .lit), .void⟩))
    ∃ call dims dtype, Returns (Direction.construct .forward data kernel { conv := {} }) call ∧
      Returns (Registry.builtins.infer call) (.tensor ⟨.known (List.map .lit dims), dtype⟩) ∧
      ∀ a ∈ dims, 0 ≤ a := by
  -- The window is one too large for the height of the data, and nothing is left.
  intro dataDims kernelDims data kernel
  let attrs : Conv2dTransposeAttrs :=
    ⟨⟨⟨1, 1⟩, ⟨0, 0, 0, 0⟩, ⟨1, 1⟩, 1, "NCHW", "OIHW", "NCHW", .void⟩, ⟨0, 0⟩⟩
  let call := Direction.forward.call data kernel attrs
  have hcall : Returns (Direction.construct .forward data kernel { conv := {} }) call := ⟨[], _, rfl⟩
  have hok : ((Registry.builtins.infer call).run.run []).1.isOk = true := by
    decide +kernel
  obtain ⟨info, hinfo⟩ := exists_returns hok
  obtain ⟨attrs', dims, dtype, hattrs, rfl, hnonneg⟩ := infer_nonneg_iff hcall ⟨[], _, rfl⟩
    ⟨[], _, rfl⟩ (by simp [dataDims]) (by simp [kernelDims]) isLetters_canonicalData.parse_eq
    Direction.forward.isLetters_canonicalKernel.parse_eq isLetters_canonicalData.parse_eq
    (Layout.unsplit_ofLetters _) (Layout.unsplit_ofLetters _) (Layout.unsplit_ofLetters _) hinfo
  refine ⟨call, dims, dtype, hcall, hinfo, hnonneg.2 ?_⟩
  have hconv : attrs.conv = attrs'.conv := by
    simpa [call, Direction.call, Direction.record] using hattrs
  intro axis
  simp only [Direction.HasRoom, ← hconv]
  cases axis with
  | height => decide +kernel
  | width => decide +kernel

theorem returns_of_tensor? {x : Infer StructInfo} {t : TensorInfo}
    (h : (x.run.run []).1.toOption.bind StructInfo.tensor? = some t) : Returns x (.tensor t) := by
  cases hx : x.run.run [] with
  | mk result log =>
    rw [hx] at h
    cases result with
    | error d => cases h
    | ok info =>
      cases info with
      | tensor u =>
        cases h
        exact ⟨[], log, hx⟩
      | _ => cases h

theorem infer_conv2d_returns_negative_height :
    let dataDims : List Int64 := [1, 3, 2, 2]
    let kernelDims : List Int64 := [4, 3, 8, 8]
    let data := Expr.var "x" (some (.tensor ⟨.known (dataDims.map .lit), .void⟩))
    let kernel := Expr.var "w" (some (.tensor ⟨.known (kernelDims.map .lit), .void⟩))
    ∃ call dims, Returns (conv2d data kernel {}) call ∧
      Returns (Registry.builtins.infer call) (.tensor ⟨.known (List.map .lit dims), .void⟩) ∧
      ∃ a ∈ dims, a < 0 := by
  intro dataDims kernelDims data kernel
  let attrs : Conv2dTransposeAttrs :=
    ⟨⟨⟨1, 1⟩, ⟨0, 0, 0, 0⟩, ⟨1, 1⟩, 1, "NCHW", "OIHW", "NCHW", .void⟩, ⟨0, 0⟩⟩
  let call := Direction.forward.call data kernel attrs
  have hinfer : Returns (Registry.builtins.infer call)
      (.tensor ⟨.known (List.map .lit [1, 4, -5, -5]), .void⟩) := by
    apply returns_of_tensor?
    decide +kernel
  exact ⟨call, [1, 4, -5, -5], ⟨[], _, rfl⟩, hinfer, -5, by decide, by decide⟩

end TensorIR.Conv2d
