import TensorIR.Proofs.Conv2d.Construct
import TensorIR.Proofs.Layout.Conversion
import TensorIR.Proofs.Operators

/-!
The shapes that convolutions infer. Operands are brought to canonical layout, where their dimensions
are the sizes of their primal axes; the sizes of the result follow, and its layout is one of them.
Main statement: the dimensions of the result have the sizes of a convolution, whatever the layouts.
-/

namespace TensorIR.Conv2d

open SymExpr (ValuesAt)

section Steps

variable {op : String}

theorem returns_tensorOperand {index : Nat} {operand : Infer (Option StructInfo)} {t : TensorInfo}
    (h : Returns (tensorOperand op index operand) t) : Returns operand (some (.tensor t)) := by
  unfold tensorOperand at h
  obtain ⟨info, hinfo, h⟩ := h.bind
  split at h
  · rwa [returns_pure_iff.1 h] at hinfo
  · exact absurd h not_returns_throw

theorem returns_tensorOperands {data kernel : Infer (Option StructInfo)} {t u : TensorInfo}
    (h : Returns (tensorOperands op [data, kernel]) (t, u)) :
    Returns data (some (.tensor t)) ∧ Returns kernel (some (.tensor u)) := by
  unfold tensorOperands at h
  obtain ⟨t', ht, h⟩ := h.bind
  obtain ⟨u', hu, h⟩ := h.bind
  obtain ⟨rfl, rfl⟩ := Prod.mk.inj (returns_pure_iff.1 h)
  exact ⟨returns_tensorOperand ht, returns_tensorOperand hu⟩

theorem layoutConversion_eq_ok {layout canonical : String} {conversion : LayoutConversion}
    (h : layoutConversion layout canonical = .ok conversion) :
    Layout.parse layout = .ok conversion.src ∧ Layout.parse canonical = .ok conversion.dst ∧
      LayoutConversion.between conversion.src conversion.dst = .ok conversion := by
  unfold layoutConversion at h
  rw [Except.bind_eq_ok_iff] at h
  obtain ⟨src, hsrc, h⟩ := h
  rw [Except.bind_eq_ok_iff] at h
  obtain ⟨dst, hdst, h⟩ := h
  obtain rfl := LayoutConversion.eq_of_between h
  exact ⟨hsrc, hdst, h⟩

theorem returns_checkLayout {layout canonical role attr : String} {conversion : LayoutConversion}
    (h : Returns (checkLayout op layout canonical role attr) conversion) :
    layoutConversion layout canonical = .ok conversion := by
  unfold checkLayout at h
  split at h
  · next hc => rw [hc, returns_pure_iff.1 h]
  · exact absurd h not_returns_throw

theorem returns_canonicalShape {conversion : LayoutConversion} {dims shape : List SymExpr}
    (h : Returns (canonicalShape op conversion dims) shape) :
    conversion.forward dims = .ok shape := by
  unfold canonicalShape at h
  split at h
  · next hforward => rw [hforward, returns_pure_iff.1 h]
  · exact absurd h not_returns_throw

theorem returns_dimension {shape : List SymExpr} {index : Nat} {d : SymExpr}
    (h : Returns (dimension op shape index) d) : shape[index]? = some d := by
  unfold dimension at h
  split at h
  · next hd => rw [hd, returns_pure_iff.1 h]
  · exact absurd h not_returns_throw

theorem returns_checkedSize {what : String} {size s : SymExpr}
    (h : Returns (checkedSize op what size) s) : size.checkedSimplify? = some s := by
  unfold checkedSize at h
  split at h
  · next hsize => rw [hsize, returns_pure_iff.1 h]
  · exact absurd h not_returns_throw

theorem eq_simplify_of_returns_checkedSize {what : String} {size s : SymExpr}
    (h : Returns (checkedSize op what size) s) : s = size.simplify :=
  (SymExpr.checkedSimplify?_eq_some_iff.1 (returns_checkedSize h)).2.symm

theorem returns_spatialSize {data kernel : List SymExpr}
    {size : SpatialAxis → SymExpr → SymExpr → SymExpr} {axis : SpatialAxis} {s : SymExpr}
    (h : Returns (spatialSize op data kernel size axis) s) :
    ∃ input window, data[spatialIndex axis]? = some input ∧
      kernel[spatialIndex axis]? = some window ∧ s = (size axis input window).simplify := by
  unfold spatialSize at h
  obtain ⟨input, hinput, h⟩ := h.bind
  obtain ⟨window, hwindow, h⟩ := h.bind
  refine ⟨input, window, returns_dimension hinput, returns_dimension hwindow, ?_⟩
  exact eq_simplify_of_returns_checkedSize h

theorem returns_outputInfo {out : LayoutConversion} {shape : List SymExpr} {dtype : DataType}
    {info : StructInfo} (h : Returns (outputInfo op out shape dtype) info) :
    ∃ dims, out.backward shape = .ok dims ∧ info = .tensor ⟨.known dims, dtype⟩ := by
  unfold outputInfo at h
  split at h
  · next dims hdims => exact ⟨dims, hdims, (returns_pure_iff.1 h).symm⟩
  · exact absurd h not_returns_throw

end Steps

def InCanonicalLayout (layout canonical : String) (dims shape : List SymExpr) : Prop :=
  ∃ src dst, Layout.parse layout = .ok src ∧ Layout.parse canonical = .ok dst ∧
    src.convert dst dims = .ok shape

theorem resolveOperands_known {app : Application} {sig : Signature} {attrs : Conv2dAttrs}
    {data kernel : Infer (Option StructInfo)} (hargs : app.operands = [data, kernel])
    {t u : TensorInfo} (hdata : ∀ t', Returns data (some (.tensor t')) → t' = t)
    (hkernel : ∀ u', Returns kernel (some (.tensor u')) → u' = u)
    {dataDims kernelDims : List SymExpr} (ht : t.shape = .known dataDims)
    (hu : u.shape = .known kernelDims) {operands : Operands}
    (h : Returns (resolveOperands app sig attrs) operands) :
    ∃ dataShape kernelShape out dtype,
      operands = .known dataShape kernelShape out dtype ∧
      InCanonicalLayout attrs.dataLayout canonicalData dataDims dataShape ∧
      InCanonicalLayout attrs.kernelLayout sig.canonicalKernel kernelDims kernelShape ∧
      layoutConversion attrs.outLayout canonicalData = .ok out := by
  unfold resolveOperands at h
  obtain ⟨⟨t', u'⟩, htensors, h⟩ := h.bind
  obtain ⟨dataLayout, hdataLayout, h⟩ := h.bind
  obtain ⟨kernelLayout, hkernelLayout, h⟩ := h.bind
  obtain ⟨outLayout, houtLayout, h⟩ := h.bind
  obtain ⟨_, _, h⟩ := h.bind
  obtain ⟨_, _, h⟩ := h.bind
  obtain ⟨dtype, _, h⟩ := h.bind
  rw [hargs] at htensors
  obtain ⟨htensor, hutensor⟩ := returns_tensorOperands htensors
  rw [hdata t' htensor, hkernel u' hutensor, ht, hu] at h
  obtain ⟨dataShape, hdataShape, h⟩ := h.bind
  obtain ⟨kernelShape, hkernelShape, h⟩ := h.bind
  obtain ⟨hdsrc, hddst, _⟩ := layoutConversion_eq_ok (returns_checkLayout hdataLayout)
  obtain ⟨hksrc, hkdst, _⟩ := layoutConversion_eq_ok (returns_checkLayout hkernelLayout)
  refine ⟨dataShape, kernelShape, outLayout, dtype, (returns_pure_iff.1 h).symm, ?_, ?_, ?_⟩
  · exact ⟨_, _, hdsrc, hddst, returns_canonicalShape hdataShape⟩
  · exact ⟨_, _, hksrc, hkdst, returns_canonicalShape hkernelShape⟩
  · exact returns_checkLayout houtLayout

section Sizes

variable {σ : Assignment}

/-- The number of places at which a dilated window fits a padded input, one stride apart. -/
def windowCount (attrs : Conv2dAttrs) (axis : SpatialAxis) (input window : Int) : Int :=
  (input + ((attrs.padding.before axis).toInt + (attrs.padding.after axis).toInt)
    - (attrs.dilation.get axis).toInt * (window - 1) - 1).fdiv (attrs.strides.get axis).toInt + 1

/-- The sizes of the primal axes of a convolution, given those of data and kernel. -/
def convolvedSize (attrs : Conv2dAttrs) (data kernel : Char → Int) : Char → Int
  | 'N' => data 'N'
  | 'C' => kernel 'O'
  | 'H' => windowCount attrs .height (data 'H') (kernel 'H')
  | 'W' => windowCount attrs .width (data 'W') (kernel 'W')
  | _ => 1

theorem eval?_paddingTotal (attrs : Conv2dAttrs) (axis : SpatialAxis) :
    (paddingTotal attrs axis).eval? σ = some
      ((attrs.padding.before axis).toInt + (attrs.padding.after axis).toInt) :=
  SymExpr.eval?_add_eq_some_iff.2 ⟨_, _, rfl, rfl, rfl⟩

theorem eval?_kernelReach (attrs : Conv2dAttrs) (axis : SpatialAxis) {window : SymExpr} {k : Int}
    (hk : window.eval? σ = some k) :
    (kernelReach attrs axis window).eval? σ = some ((attrs.dilation.get axis).toInt * (k - 1)) := by
  have hwindow : (window - .lit 1).eval? σ = some (k - 1) :=
    SymExpr.eval?_sub_eq_some_iff.2 ⟨_, _, hk, rfl, rfl⟩
  exact SymExpr.eval?_mul_eq_some_iff.2 ⟨_, _, rfl, hwindow, rfl⟩

theorem eval?_outputSize {attrs : Conv2dAttrs} {axis : SpatialAxis}
    (hstride : 1 ≤ attrs.strides.get axis) {input window : SymExpr} {n k : Int}
    (hn : input.eval? σ = some n) (hk : window.eval? σ = some k) :
    (outputSize attrs axis input window).eval? σ = some (windowCount attrs axis n k) := by
  have hne : (attrs.strides.get axis).toInt ≠ 0 := by
    rw [Int64.le_iff_toInt_le, Int64.toInt_one] at hstride
    omega
  have hpadded := SymExpr.eval?_add_eq_some_iff.2
    ⟨_, _, hn, eval?_paddingTotal attrs axis, rfl⟩
  have hroom := SymExpr.eval?_sub_eq_some_iff.2
    ⟨_, _, hpadded, eval?_kernelReach attrs axis hk, rfl⟩
  have hlast := SymExpr.eval?_sub_eq_some_iff.2 ⟨_, _, hroom, SymExpr.eval?_lit 1, rfl⟩
  have hquotient := SymExpr.eval?_div_eq_some_iff.2
    ⟨_, _, hlast, SymExpr.eval?_lit (attrs.strides.get axis), hne, rfl⟩
  exact SymExpr.eval?_add_eq_some_iff.2 ⟨_, _, hquotient, SymExpr.eval?_lit 1, rfl⟩

theorem parse_canonicalData :
    Layout.parse canonicalData = .ok ⟨canonicalData, canonicalData.toList.map .primal⟩ := by
  rfl

theorem toList_canonicalData : canonicalData.toList = ['N', 'C', 'H', 'W'] := rfl

theorem toList_forwardKernel : forwardSignature.canonicalKernel.toList = ['O', 'I', 'H', 'W'] := rfl

theorem parse_canonicalKernel {sig : Signature} (h : sig ∈ [forwardSignature, transposeSignature]) :
    Layout.parse sig.canonicalKernel =
      .ok ⟨sig.canonicalKernel, sig.canonicalKernel.toList.map .primal⟩ := by
  simp only [List.mem_cons, List.not_mem_nil, or_false] at h
  rcases h with rfl | rfl
  · rfl
  · rfl

theorem InCanonicalLayout.exists_valuesAt {layout canonical : String} {dims shape : List SymExpr}
    (h : InCanonicalLayout layout canonical dims shape)
    (hcanonical : Layout.parse canonical = .ok ⟨canonical, canonical.toList.map .primal⟩) :
    ∃ src, Layout.parse layout = .ok src ∧ ∀ σ sizes, ValuesAt σ dims sizes →
      ValuesAt σ shape (canonical.toList.map (src.primalSize sizes)) := by
  obtain ⟨src, dst, hsrc, hdst, hconvert⟩ := h
  refine ⟨src, hsrc, ?_⟩
  intro σ sizes hsizes
  have hshape := Layout.valuesAt_of_convert (Layout.allWellFormed_of_parse hsrc)
    (Layout.allWellFormed_of_parse hdst) hconvert hsizes
  rw [hcanonical, Except.ok.injEq] at hdst
  rwa [← hdst, Layout.sizes_map_primal] at hshape

theorem valuesAt_of_backward {outLayout : String} {out : LayoutConversion}
    (hsrc : Layout.parse outLayout = .ok out.src) (hdst : Layout.parse canonicalData = .ok out.dst)
    {shape dims : List SymExpr} (hdims : out.backward shape = .ok dims) {n c h w : Int}
    (hshape : ValuesAt σ shape [n, c, h, w]) {size : Char → Int}
    (hsize : canonicalData.toList.map size = [n, c, h, w])
    (hother : ∀ letter, letter ∉ canonicalData.toList → size letter = 1) :
    ValuesAt σ dims (out.src.sizes size) := by
  have hvalues := Layout.valuesAt_of_convert (Layout.allWellFormed_of_parse hdst)
    (Layout.allWellFormed_of_parse hsrc) hdims hshape
  rw [parse_canonicalData, Except.ok.injEq] at hdst
  have heq : out.dst.primalSize [n, c, h, w] = size := by
    funext letter
    rw [← hdst, ← hsize, Layout.primalSize_map_primal _ (by decide)]
    split
    · rfl
    · next hletter => exact (hother letter hletter).symm
  rwa [heq] at hvalues

theorem inferForward_shape {app : Application} {attrs : Conv2dAttrs}
    (hattrs : app.call.attrs = some (.conv2d attrs)) (hstrides : ∀ axis, 1 ≤ attrs.strides.get axis)
    {data kernel : Infer (Option StructInfo)} (hargs : app.operands = [data, kernel])
    {t u : TensorInfo} (hdata : ∀ t', Returns data (some (.tensor t')) → t' = t)
    (hkernel : ∀ u', Returns kernel (some (.tensor u')) → u' = u)
    {dataDims kernelDims : List SymExpr} (ht : t.shape = .known dataDims)
    (hu : u.shape = .known kernelDims) {info : StructInfo}
    (h : Returns (inferForward app) info) :
    ∃ dataLayout kernelLayout outLayout dims dtype,
      Layout.parse attrs.dataLayout = .ok dataLayout ∧
      Layout.parse attrs.kernelLayout = .ok kernelLayout ∧
      Layout.parse attrs.outLayout = .ok outLayout ∧
      info = .tensor ⟨.known dims, dtype⟩ ∧
      ∀ σ dataSizes kernelSizes, ValuesAt σ dataDims dataSizes →
        ValuesAt σ kernelDims kernelSizes →
        ValuesAt σ dims (outLayout.sizes (convolvedSize attrs (dataLayout.primalSize dataSizes)
          (kernelLayout.primalSize kernelSizes))) := by
  unfold inferForward at h
  dsimp only at h
  rw [hattrs] at h
  obtain ⟨operands, hoperands, h⟩ := h.bind
  obtain ⟨dataShape, kernelShape, out, dtype, rfl, hdataShape, hkernelShape, hout⟩ :=
    resolveOperands_known hargs hdata hkernel ht hu hoperands
  obtain ⟨hsrc, hdst, _⟩ := layoutConversion_eq_ok hout
  obtain ⟨dataLayout, hdataLayout, hdataValues⟩ := hdataShape.exists_valuesAt parse_canonicalData
  obtain ⟨kernelLayout, hkernelLayout, hkernelValues⟩ :=
    hkernelShape.exists_valuesAt (parse_canonicalKernel (by simp))
  obtain ⟨channels, hchannels, h⟩ := h.bind
  obtain ⟨batch, hbatch, h⟩ := h.bind
  obtain ⟨_, _, h⟩ := h.bind
  obtain ⟨_, _, h⟩ := h.bind
  obtain ⟨_, _, h⟩ := h.bind
  obtain ⟨_, _, h⟩ := h.bind
  obtain ⟨height, hheight, h⟩ := h.bind
  obtain ⟨width, hwidth, h⟩ := h.bind
  obtain ⟨dims, hdims, rfl⟩ := returns_outputInfo h
  obtain ⟨inputH, windowH, hinputH, hwindowH, rfl⟩ := returns_spatialSize hheight
  obtain ⟨inputW, windowW, hinputW, hwindowW, rfl⟩ := returns_spatialSize hwidth
  refine ⟨dataLayout, kernelLayout, out.src, dims, dtype, hdataLayout, hkernelLayout, hsrc, rfl, ?_⟩
  intro σ dataSizes kernelSizes hdataSizes hkernelSizes
  have hd := hdataValues σ dataSizes hdataSizes
  have hk := hkernelValues σ kernelSizes hkernelSizes
  rw [toList_canonicalData] at hd
  rw [toList_forwardKernel] at hk
  have hN := hd.eval?_getElem? (returns_dimension hbatch) rfl
  have hO := hk.eval?_getElem? (returns_dimension hchannels) rfl
  have hH := eval?_outputSize (hstrides .height) (hd.eval?_getElem? hinputH rfl)
    (hk.eval?_getElem? hwindowH rfl)
  have hW := eval?_outputSize (hstrides .width) (hd.eval?_getElem? hinputW rfl)
    (hk.eval?_getElem? hwindowW rfl)
  have hshape := ValuesAt.cons hN (.cons hO (.cons (SymExpr.eval?_simplify hH)
    (.cons (SymExpr.eval?_simplify hW) SymExpr.valuesAt_nil)))
  apply valuesAt_of_backward hsrc hdst hdims hshape
  · rfl
  · intro letter hletter
    unfold convolvedSize
    split
    · exact absurd (by decide) hletter
    · exact absurd (by decide) hletter
    · exact absurd (by decide) hletter
    · exact absurd (by decide) hletter
    · rfl

end Sizes

theorem infer_binary {name : String} {op : OpDef} {rule : InferRule}
    (hop : Registry.builtins.get? name = some op) (hrule : op.rule = some rule)
    (data kernel : Expr) (attrs : Option Attrs) :
    ∃ app, Registry.builtins.infer ⟨.op name, [data, kernel], attrs, []⟩ = rule app ∧
      app.call.attrs = attrs ∧
      app.operands = [Registry.builtins.inferExpr data, Registry.builtins.inferExpr kernel] := by
  refine ⟨_, Registry.infer_op _ _ _ _ hop hrule, rfl, ?_⟩
  simp only [Registry.inferAll]

theorem infer_forward (data kernel : Expr) (attrs : Conv2dAttrs) :
    ∃ app, Registry.builtins.infer
        ⟨.op Conv2dAttrs.opName, [data, kernel], some (.conv2d attrs), []⟩ = inferForward app ∧
      app.call.attrs = some (.conv2d attrs) ∧
      app.operands = [Registry.builtins.inferExpr data, Registry.builtins.inferExpr kernel] :=
  infer_binary (show _ = some OpDef.conv2d from rfl) rfl data kernel _

theorem eq_of_inferExpr_tensor {e : Expr} {t t' : TensorInfo}
    (h : Returns (Registry.builtins.inferExpr e) (some (.tensor t)))
    (h' : Returns (Registry.builtins.inferExpr e) (some (.tensor t'))) : t' = t := by
  have hadds := Registry.addsEvents_inferExpr Registry.rulesAddEvents_builtins e
  have heq := hadds.eq_of_returns h' h
  rwa [Option.some.injEq, StructInfo.tensor.injEq] at heq

/--
The result of a convolution whose operands have known shapes has a known shape too, with the sizes
of a convolution in the layout that the call asks for, under every assignment that gives the
dimensions of the operands a value.
-/
theorem infer_conv2d_sizes {data kernel : Expr} {params : Conv2dParams} {call : Call}
    {info : StructInfo} {dataDims kernelDims : List SymExpr} {dataDtype kernelDtype : DataType}
    (hcall : Returns (conv2d data kernel params) call)
    (hdata : Returns (Registry.builtins.inferExpr data)
      (some (.tensor ⟨.known dataDims, dataDtype⟩)))
    (hkernel : Returns (Registry.builtins.inferExpr kernel)
      (some (.tensor ⟨.known kernelDims, kernelDtype⟩)))
    (hinfer : Returns (Registry.builtins.infer call) info) :
    ∃ attrs dataLayout kernelLayout outLayout dims dtype,
      call.attrs = some (.conv2d attrs) ∧
      Layout.parse attrs.dataLayout = .ok dataLayout ∧
      Layout.parse attrs.kernelLayout = .ok kernelLayout ∧
      Layout.parse attrs.outLayout = .ok outLayout ∧
      info = .tensor ⟨.known dims, dtype⟩ ∧
      ∀ σ dataSizes kernelSizes, ValuesAt σ dataDims dataSizes →
        ValuesAt σ kernelDims kernelSizes →
        ValuesAt σ dims (outLayout.sizes (convolvedSize attrs (dataLayout.primalSize dataSizes)
          (kernelLayout.primalSize kernelSizes))) := by
  obtain ⟨attrs, hnormalize, rfl⟩ := returns_conv2d hcall
  obtain ⟨app, hinferForward, hattrs, hoperands⟩ := infer_forward data kernel attrs
  rw [hinferForward] at hinfer
  have hstrides := strides_pos_of_normalize hnormalize
  have hshape := inferForward_shape hattrs hstrides hoperands
    (fun _ h => eq_of_inferExpr_tensor hdata h) (fun _ h => eq_of_inferExpr_tensor hkernel h)
    rfl rfl hinfer
  obtain ⟨dataLayout, kernelLayout, outLayout, dims, dtype, hshape⟩ := hshape
  exact ⟨attrs, dataLayout, kernelLayout, outLayout, dims, dtype, rfl, hshape⟩

theorem infer_conv2d_sizes_split :
    let data := Expr.var "x" (some (.tensor
      ⟨.known [.size "n", .lit 32, .lit 32, .lit 2, .lit 16], .void⟩))
    let kernel := Expr.var "w" (some (.tensor ⟨.known [.lit 16, .lit 32, .lit 3, .lit 3], .void⟩))
    ∃ call dims dtype,
      Returns (conv2d data kernel { padding := [1, 2, 3, 4], dataLayout := "NHWC16c" }) call ∧
      Returns (Registry.builtins.infer call) (.tensor ⟨.known dims, dtype⟩) ∧
      ValuesAt (fun _ => 5) dims [5, 34, 36, 1, 16] := by
  -- A batch of images in blocks of 16 channels; the sides of the padding all differ.
  intro data kernel
  let attrs : Conv2dAttrs :=
    ⟨⟨1, 1⟩, ⟨1, 2, 3, 4⟩, ⟨1, 1⟩, 1, "NHWC16c", "OIHW", "NHWC16c", .void⟩
  let call : Call := ⟨.op Conv2dAttrs.opName, [data, kernel], some (.conv2d attrs), []⟩
  have hcall : Returns (conv2d data kernel
      { padding := [1, 2, 3, 4], dataLayout := "NHWC16c" }) call := ⟨[], _, rfl⟩
  have hok : ((Registry.builtins.infer call).run.run []).1.isOk = true := by
    decide +kernel
  obtain ⟨info, hinfo⟩ := exists_returns hok
  obtain ⟨attrs', dataLayout, kernelLayout, outLayout, dims, dtype, hattrs, hdata, hkernel, hout,
    rfl, hsizes⟩ := infer_conv2d_sizes hcall ⟨[], _, rfl⟩ ⟨[], _, rfl⟩ hinfo
  cases hattrs
  have hblocks : Layout.parse "NHWC16c" = .ok
      ⟨"NHWC16c", [.primal 'N', .primal 'H', .primal 'W', .primal 'C', .inner 'C' 16]⟩ := rfl
  have hplain : Layout.parse "OIHW" = .ok
      ⟨"OIHW", [.primal 'O', .primal 'I', .primal 'H', .primal 'W']⟩ := rfl
  rw [hblocks, Except.ok.injEq] at hdata hout
  rw [hplain, Except.ok.injEq] at hkernel
  subst hdata hkernel hout
  refine ⟨call, dims, dtype, hcall, hinfo, ?_⟩
  have hvalues := hsizes (fun _ => 5) [5, 32, 32, 2, 16] [16, 32, 3, 3]
    (.cons rfl (.cons rfl (.cons rfl (.cons rfl (.cons rfl .nil)))))
    (.cons rfl (.cons rfl (.cons rfl (.cons rfl .nil))))
  generalize hcomputed : Layout.sizes _ _ = sizes at hvalues
  have hsame : sizes = [5, 34, 36, 1, 16] := by
    rw [← hcomputed]
    decide +kernel
  rwa [hsame] at hvalues

end TensorIR.Conv2d
