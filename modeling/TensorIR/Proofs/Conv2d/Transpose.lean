import TensorIR.Proofs.Conv2d.Shape
import TensorIR.Proofs.Predicate

/-!
The shapes that transposed convolutions infer. The kernel's first channels are those of the input,
and its second ones are those of the output in each group. Main statement: the dimensions of the
result have the sizes of a transposed convolution, whatever the layouts, and what is added to one
side of the result is less than the stride.
-/

namespace TensorIR.Conv2d

open SymExpr (ValuesAt)

section OutputPadding

variable {attrs : Conv2dTransposeAttrs}

theorem prove_tooLarge {axis : SpatialAxis} (hpadding : 0 ≤ attrs.outputPadding.get axis)
    (hstride : 1 ≤ attrs.conv.strides.get axis)
    (h : ¬ attrs.outputPadding.get axis < attrs.conv.strides.get axis) :
    (checkOutputPadding.tooLarge attrs axis).prove = .holds := by
  have hstride' : 0 ≤ attrs.conv.strides.get axis := by
    rw [Int64.le_iff_toInt_le, Int64.toInt_one] at hstride
    rw [Int64.le_iff_toInt_le, Int64.toInt_zero]
    omega
  change (Predicate.proveLt _ _).not = .holds
  rw [Predicate.proveLt_lits hpadding hstride', if_neg h]
  rfl

theorem outputPadding_lt_strides (hpadding : ∀ axis, 0 ≤ attrs.outputPadding.get axis)
    (hstrides : ∀ axis, 1 ≤ attrs.conv.strides.get axis)
    (h : Returns (checkOutputPadding attrs) ()) (axis : SpatialAxis) :
    attrs.outputPadding.get axis < attrs.conv.strides.get axis := by
  have hprove := prove_ne_holds_of_returns h
  by_contra hlarge
  have hholds := prove_tooLarge (hpadding axis) (hstrides axis) hlarge
  apply hprove
  rw [Predicate.prove]
  cases axis with
  | height =>
    rw [hholds]
    rfl
  | width =>
    rw [hholds]
    cases (checkOutputPadding.tooLarge attrs .height).prove <;> rfl

end OutputPadding

section Sizes

variable {σ : Assignment}

/-- What dilated windows cover, one stride apart, less the padding and with what is added. -/
def spreadLength (attrs : Conv2dTransposeAttrs) (axis : SpatialAxis) (input window : Int) : Int :=
  (input - 1) * (attrs.conv.strides.get axis).toInt
    - ((attrs.conv.padding.before axis).toInt + (attrs.conv.padding.after axis).toInt)
    + (attrs.conv.dilation.get axis).toInt * (window - 1)
    + (attrs.outputPadding.get axis).toInt + 1

/-- The sizes of the primal axes of a transposed convolution, given those of data and kernel. -/
def spreadSize (attrs : Conv2dTransposeAttrs) (data kernel : Char → Int) : Char → Int
  | 'N' => data 'N'
  | 'C' => kernel 'O' * attrs.conv.groups.toInt
  | 'H' => spreadLength attrs .height (data 'H') (kernel 'H')
  | 'W' => spreadLength attrs .width (data 'W') (kernel 'W')
  | _ => 1

theorem eval?_transposedSize (attrs : Conv2dTransposeAttrs) (axis : SpatialAxis)
    {input window : SymExpr} {n k : Int} (hn : input.eval? σ = some n)
    (hk : window.eval? σ = some k) :
    (transposedSize attrs axis input window).eval? σ = some (spreadLength attrs axis n k) := by
  have hsteps : (input - .lit 1).eval? σ = some (n - 1) :=
    SymExpr.eval?_sub_eq_some_iff.2 ⟨_, _, hn, rfl, rfl⟩
  have hspread := SymExpr.eval?_mul_eq_some_iff.2
    ⟨_, _, hsteps, SymExpr.eval?_lit (attrs.conv.strides.get axis), rfl⟩
  have hcropped := SymExpr.eval?_sub_eq_some_iff.2
    ⟨_, _, hspread, eval?_paddingTotal attrs.conv axis, rfl⟩
  have hreached := SymExpr.eval?_add_eq_some_iff.2
    ⟨_, _, hcropped, eval?_kernelReach attrs.conv axis hk, rfl⟩
  have hextended := SymExpr.eval?_add_eq_some_iff.2
    ⟨_, _, hreached, SymExpr.eval?_lit (attrs.outputPadding.get axis), rfl⟩
  exact SymExpr.eval?_add_eq_some_iff.2 ⟨_, _, hextended, SymExpr.eval?_lit 1, rfl⟩

theorem eval?_mul_groupsExpr (attrs : Conv2dAttrs) {perGroup : SymExpr} {n : Int}
    (hn : perGroup.eval? σ = some n) :
    (perGroup * groupsExpr attrs).eval? σ = some (n * attrs.groups.toInt) := by
  have hgroups : (groupsExpr attrs).eval? σ = some attrs.groups.toInt := by
    rw [groupsExpr, SymExpr.eval?_lit, Int32.toInt_toInt64]
  exact SymExpr.eval?_mul_eq_some_iff.2 ⟨_, _, hn, hgroups, rfl⟩

theorem toList_transposeKernel :
    transposeSignature.canonicalKernel.toList = ['I', 'O', 'H', 'W'] := rfl

theorem inferTranspose_shape {app : Application} {attrs : Conv2dTransposeAttrs}
    (hattrs : app.call.attrs = some (.conv2dTranspose attrs))
    {data kernel : Infer (Option StructInfo)} (hargs : app.operands = [data, kernel])
    {t u : TensorInfo} (hdata : ∀ t', Returns data (some (.tensor t')) → t' = t)
    (hkernel : ∀ u', Returns kernel (some (.tensor u')) → u' = u)
    {dataDims kernelDims : List SymExpr} (ht : t.shape = .known dataDims)
    (hu : u.shape = .known kernelDims) {info : StructInfo}
    (h : Returns (inferTranspose app) info) :
    Returns (checkOutputPadding attrs) () ∧
    ∃ dataLayout kernelLayout outLayout dims dtype,
      Layout.parse attrs.conv.dataLayout = .ok dataLayout ∧
      Layout.parse attrs.conv.kernelLayout = .ok kernelLayout ∧
      Layout.parse attrs.conv.outLayout = .ok outLayout ∧
      info = .tensor ⟨.known dims, dtype⟩ ∧
      ∀ σ dataSizes kernelSizes, ValuesAt σ dataDims dataSizes →
        ValuesAt σ kernelDims kernelSizes →
        ValuesAt σ dims (outLayout.sizes (spreadSize attrs (dataLayout.primalSize dataSizes)
          (kernelLayout.primalSize kernelSizes))) := by
  unfold inferTranspose at h
  dsimp only at h
  rw [hattrs] at h
  obtain ⟨operands, hoperands, h⟩ := h.bind
  obtain ⟨dataShape, kernelShape, out, dtype, rfl, hdataShape, hkernelShape, hout⟩ :=
    resolveOperands_known hargs hdata hkernel ht hu hoperands
  obtain ⟨hsrc, hdst, _⟩ := layoutConversion_eq_ok hout
  obtain ⟨dataLayout, hdataLayout, hdataValues⟩ := hdataShape.exists_valuesAt parse_canonicalData
  obtain ⟨kernelLayout, hkernelLayout, hkernelValues⟩ :=
    hkernelShape.exists_valuesAt (parse_canonicalKernel (by simp))
  obtain ⟨_, _, h⟩ := h.bind
  obtain ⟨batch, hbatch, h⟩ := h.bind
  obtain ⟨_, _, h⟩ := h.bind
  obtain ⟨_, _, h⟩ := h.bind
  obtain ⟨_, _, h⟩ := h.bind
  obtain ⟨_, hpadding, h⟩ := h.bind
  obtain ⟨perGroup, hperGroup, h⟩ := h.bind
  obtain ⟨channels, hchannels, h⟩ := h.bind
  obtain ⟨height, hheight, h⟩ := h.bind
  obtain ⟨width, hwidth, h⟩ := h.bind
  obtain ⟨dims, hdims, rfl⟩ := returns_outputInfo h
  obtain rfl := eq_simplify_of_returns_checkedSize hchannels
  obtain ⟨inputH, windowH, hinputH, hwindowH, rfl⟩ := returns_spatialSize hheight
  obtain ⟨inputW, windowW, hinputW, hwindowW, rfl⟩ := returns_spatialSize hwidth
  refine ⟨hpadding, dataLayout, kernelLayout, out.src, dims, dtype, hdataLayout, hkernelLayout,
    hsrc, rfl, ?_⟩
  intro σ dataSizes kernelSizes hdataSizes hkernelSizes
  have hd := hdataValues σ dataSizes hdataSizes
  have hk := hkernelValues σ kernelSizes hkernelSizes
  rw [toList_canonicalData] at hd
  rw [toList_transposeKernel] at hk
  have hN := hd.eval?_getElem? (returns_dimension hbatch) rfl
  have hC := eval?_mul_groupsExpr attrs.conv
    (hk.eval?_getElem? (returns_dimension hperGroup) rfl)
  have hH := eval?_transposedSize attrs .height (hd.eval?_getElem? hinputH rfl)
    (hk.eval?_getElem? hwindowH rfl)
  have hW := eval?_transposedSize attrs .width (hd.eval?_getElem? hinputW rfl)
    (hk.eval?_getElem? hwindowW rfl)
  have hshape := ValuesAt.cons hN (.cons (SymExpr.eval?_simplify hC)
    (.cons (SymExpr.eval?_simplify hH) (.cons (SymExpr.eval?_simplify hW) SymExpr.valuesAt_nil)))
  apply valuesAt_of_backward hsrc hdst hdims hshape
  · rfl
  · intro letter hletter
    unfold spreadSize
    split
    · exact absurd (by decide) hletter
    · exact absurd (by decide) hletter
    · exact absurd (by decide) hletter
    · exact absurd (by decide) hletter
    · rfl

end Sizes

theorem infer_transpose (data kernel : Expr) (attrs : Conv2dTransposeAttrs) :
    ∃ app, Registry.builtins.infer
        ⟨.op Conv2dTransposeAttrs.opName, [data, kernel], some (.conv2dTranspose attrs), []⟩ =
          inferTranspose app ∧
      app.call.attrs = some (.conv2dTranspose attrs) ∧
      app.operands = [Registry.builtins.inferExpr data, Registry.builtins.inferExpr kernel] :=
  infer_binary (show _ = some OpDef.conv2dTranspose from rfl) rfl data kernel _

/--
The result of a transposed convolution whose operands have known shapes has a known shape too, with
the sizes of a transposed convolution in the layout that the call asks for, under every assignment
that gives the dimensions of the operands a value. Inference succeeds only if less than a stride is
added on each axis.
-/
theorem infer_conv2dTranspose_sizes {data kernel : Expr} {params : Conv2dTransposeParams}
    {call : Call} {info : StructInfo} {dataDims kernelDims : List SymExpr}
    {dataDtype kernelDtype : DataType}
    (hcall : Returns (conv2dTranspose data kernel params) call)
    (hdata : Returns (Registry.builtins.inferExpr data)
      (some (.tensor ⟨.known dataDims, dataDtype⟩)))
    (hkernel : Returns (Registry.builtins.inferExpr kernel)
      (some (.tensor ⟨.known kernelDims, kernelDtype⟩)))
    (hinfer : Returns (Registry.builtins.infer call) info) :
    ∃ attrs dataLayout kernelLayout outLayout dims dtype,
      call.attrs = some (.conv2dTranspose attrs) ∧
      (∀ axis, attrs.outputPadding.get axis < attrs.conv.strides.get axis) ∧
      Layout.parse attrs.conv.dataLayout = .ok dataLayout ∧
      Layout.parse attrs.conv.kernelLayout = .ok kernelLayout ∧
      Layout.parse attrs.conv.outLayout = .ok outLayout ∧
      info = .tensor ⟨.known dims, dtype⟩ ∧
      ∀ σ dataSizes kernelSizes, ValuesAt σ dataDims dataSizes →
        ValuesAt σ kernelDims kernelSizes →
        ValuesAt σ dims (outLayout.sizes (spreadSize attrs (dataLayout.primalSize dataSizes)
          (kernelLayout.primalSize kernelSizes))) := by
  obtain ⟨attrs, hnormalize, rfl⟩ := returns_conv2dTranspose hcall
  obtain ⟨hconv, hnonneg⟩ := normalize_of_normalizeTranspose hnormalize
  obtain ⟨app, hinferTranspose, hattrs, hoperands⟩ := infer_transpose data kernel attrs
  rw [hinferTranspose] at hinfer
  obtain ⟨hpadding, dataLayout, kernelLayout, outLayout, dims, dtype, hshape⟩ :=
    inferTranspose_shape hattrs hoperands (fun _ h => eq_of_inferExpr_tensor hdata h)
      (fun _ h => eq_of_inferExpr_tensor hkernel h) rfl rfl hinfer
  have hlt := outputPadding_lt_strides hnonneg (strides_pos_of_normalize hconv) hpadding
  exact ⟨attrs, dataLayout, kernelLayout, outLayout, dims, dtype, rfl, hlt, hshape⟩

theorem infer_conv2dTranspose_sizes_split :
    let data := Expr.var "x" (some (.tensor
      ⟨.known [.size "n", .lit 8, .lit 8, .lit 2, .lit 4], .void⟩))
    let kernel := Expr.var "w" (some (.tensor
      ⟨.known [.lit 2, .lit 3, .lit 3, .lit 8, .lit 3], .void⟩))
    let params : Conv2dTransposeParams :=
      { conv := { strides := [2, 3], padding := [1, 2, 3, 4], dilation := [1, 2], groups := 2,
                  dataLayout := "NHWC4c", kernelLayout := "2oHWIO" }
        outputPadding := [1, 2] }
    ∃ call dims dtype, Returns (conv2dTranspose data kernel params) call ∧
      Returns (Registry.builtins.infer call) (.tensor ⟨.known dims, dtype⟩) ∧
      ValuesAt (fun _ => 5) dims [5, 14, 22, 3, 4] := by
  -- Two groups of output channels in blocks of 2; no two numbers of an axis agree.
  intro data kernel params
  let attrs : Conv2dTransposeAttrs :=
    ⟨⟨⟨2, 3⟩, ⟨1, 2, 3, 4⟩, ⟨1, 2⟩, 2, "NHWC4c", "2oHWIO", "NHWC4c", .void⟩, ⟨1, 2⟩⟩
  let call : Call :=
    ⟨.op Conv2dTransposeAttrs.opName, [data, kernel], some (.conv2dTranspose attrs), []⟩
  have hcall : Returns (conv2dTranspose data kernel params) call := ⟨[], _, rfl⟩
  have hok : ((Registry.builtins.infer call).run.run []).1.isOk = true := by
    decide +kernel
  obtain ⟨info, hinfo⟩ := exists_returns hok
  obtain ⟨attrs', dataLayout, kernelLayout, outLayout, dims, dtype, hattrs, _, hdata, hkernel, hout,
    rfl, hsizes⟩ := infer_conv2dTranspose_sizes hcall ⟨[], _, rfl⟩ ⟨[], _, rfl⟩ hinfo
  cases hattrs
  have hblocks : Layout.parse "NHWC4c" = .ok
      ⟨"NHWC4c", [.primal 'N', .primal 'H', .primal 'W', .primal 'C', .inner 'C' 4]⟩ := rfl
  have hkernelBlocks : Layout.parse "2oHWIO" = .ok
      ⟨"2oHWIO", [.inner 'O' 2, .primal 'H', .primal 'W', .primal 'I', .primal 'O']⟩ := rfl
  rw [hblocks, Except.ok.injEq] at hdata hout
  rw [hkernelBlocks, Except.ok.injEq] at hkernel
  subst hdata hkernel hout
  refine ⟨call, dims, dtype, hcall, hinfo, ?_⟩
  have hvalues := hsizes (fun _ => 5) [5, 8, 8, 2, 4] [2, 3, 3, 8, 3]
    (.cons rfl (.cons rfl (.cons rfl (.cons rfl (.cons rfl .nil)))))
    (.cons rfl (.cons rfl (.cons rfl (.cons rfl (.cons rfl .nil)))))
  generalize hcomputed : Layout.sizes _ _ = sizes at hvalues
  have hsame : sizes = [5, 14, 22, 3, 4] := by
    rw [← hcomputed]
    decide +kernel
  rwa [hsame] at hvalues

end TensorIR.Conv2d
