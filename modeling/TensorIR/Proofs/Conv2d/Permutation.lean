import TensorIR.Proofs.Conv2d.Stages

/-!
The order of the axes. Where layouts are orders of the canonical letters, resolved operands are the
same in all orders, and so is the second stage of inference. Main statement: calls that differ in
the order of axes only have the same outcome, up to the order of the axes of the result.
-/

namespace TensorIR.Conv2d

/-- A tensor with axes in this order, given the sizes of its axes. -/
def tensorIn (order : String) (size : Char → SymExpr) (dtype : DataType) : StructInfo :=
  .tensor ⟨.known (order.toList.map size), dtype⟩

def withLayouts (attrs : Conv2dTransposeAttrs) (data kernel out : String) : Conv2dTransposeAttrs :=
  { attrs with
    conv := { attrs.conv with dataLayout := data, kernelLayout := kernel, outLayout := out } }

section Orders

variable {op order canonical : String} (hcanonical : Layout.IsLetters canonical)
  (horder : order.toList.Perm canonical.toList)
include hcanonical horder

theorem layoutConversion_order :
    layoutConversion order canonical = .ok ⟨.ofLetters order, .ofLetters canonical⟩ := by
  rw [layoutConversion, (hcanonical.of_perm horder).parse_eq, hcanonical.parse_eq]
  exact Layout.between_ofLetters horder

theorem checkLayout_order (role attr : String) :
    checkLayout op order canonical role attr =
      pure ⟨.ofLetters order, .ofLetters canonical⟩ := by
  rw [checkLayout, layoutConversion_order hcanonical horder]

theorem canonicalShape_order (size : Char → SymExpr) :
    canonicalShape op ⟨.ofLetters order, .ofLetters canonical⟩ (order.toList.map size) =
      pure (canonical.toList.map fun c => (size c).simplify) := by
  have hforward : LayoutConversion.forward ⟨.ofLetters order, .ofLetters canonical⟩
      (order.toList.map size) = .ok (canonical.toList.map fun c => (size c).simplify) := by
    rw [LayoutConversion.forward, Layout.convert_ofLetters (hcanonical.of_perm horder)
      hcanonical.allWellFormed, Layout.shapeOf_ofLetters, Except.ok.injEq]
    apply List.map_congr_left
    intro c hc
    rw [if_pos (horder.mem_iff.2 hc)]
  rw [canonicalShape, hforward]

end Orders

theorem checkRank_order {op : String} (order : String) (size : Char → SymExpr) (dtype : DataType)
    (role : String) (index : Nat) :
    checkRank op ⟨.known (order.toList.map size), dtype⟩ (.ofLetters order) role index =
      pure () := by
  rw [checkRank, if_pos]
  simp [TensorInfo.ndim, TensorShape.ndim, Layout.ndim, Layout.ofLetters]

section Operands

variable {dir : Direction} {attrs : Conv2dTransposeAttrs} {dataOrder kernelOrder outOrder : String}
  {data kernel : Expr} {dataSize kernelSize : Char → SymExpr} {dataDtype kernelDtype : DataType}
  (hdata : Returns (Registry.builtins.inferExpr data)
    (some (tensorIn dataOrder dataSize dataDtype)))
  (hkernel : Returns (Registry.builtins.inferExpr kernel)
    (some (tensorIn kernelOrder kernelSize kernelDtype)))
include hdata hkernel

theorem hasOutcome_tensorOperands (op : String) :
    HasOutcome
      (tensorOperands op [Registry.builtins.inferExpr data, Registry.builtins.inferExpr kernel])
      (.ok (⟨.known (dataOrder.toList.map dataSize), dataDtype⟩,
        ⟨.known (kernelOrder.toList.map kernelSize), kernelDtype⟩)) := by
  have hadds := Registry.addsEvents_inferExpr Registry.rulesAddEvents_builtins
  have hoperand {index : Nat} {e : Expr} {t : TensorInfo}
      (h : Returns (Registry.builtins.inferExpr e) (some (.tensor t))) :
      HasOutcome (tensorOperand op index (Registry.builtins.inferExpr e)) (.ok t) :=
    ((hadds e).hasOutcome_of_returns h).bind_ok (hasOutcome_pure t)
  unfold tensorOperands
  apply (hoperand hdata).bind_ok
  apply (hoperand hkernel).bind_ok
  apply hasOutcome_pure

variable (hdataOrder : dataOrder.toList.Perm canonicalData.toList)
  (hkernelOrder : kernelOrder.toList.Perm dir.signature.canonicalKernel.toList)
  (houtOrder : outOrder.toList.Perm canonicalData.toList)
include hdataOrder hkernelOrder houtOrder

/-- All orders have the same resolved operands. -/
theorem hasOutcome_resolveOperands {app : Application}
    (hargs : app.operands =
      [Registry.builtins.inferExpr data, Registry.builtins.inferExpr kernel])
    {dtype : Except Diagnostic DataType}
    (hdtype : HasOutcome (resultDtype dir.signature.op attrs.conv dataDtype kernelDtype) dtype) :
    HasOutcome (resolveOperands app dir.signature
        (withLayouts attrs dataOrder kernelOrder outOrder).conv)
      (dtype.map fun dtype => .known (canonicalData.toList.map fun c => (dataSize c).simplify)
        (dir.signature.canonicalKernel.toList.map fun c => (kernelSize c).simplify)
        ⟨.ofLetters outOrder, .ofLetters canonicalData⟩ dtype) := by
  have hcanonicalKernel := dir.isLetters_canonicalKernel
  unfold resolveOperands
  rw [hargs]
  apply (hasOutcome_tensorOperands hdata hkernel dir.signature.op).bind_ok
  dsimp only [withLayouts]
  rw [checkLayout_order isLetters_canonicalData hdataOrder, pure_bind,
    checkLayout_order hcanonicalKernel hkernelOrder, pure_bind,
    checkLayout_order isLetters_canonicalData houtOrder, pure_bind,
    checkRank_order, pure_bind, checkRank_order, pure_bind]
  cases dtype with
  | error d => exact hdtype.bind_error _
  | ok dtype =>
    refine HasOutcome.bind_ok hdtype ?_
    rw [canonicalShape_order isLetters_canonicalData hdataOrder, pure_bind,
      canonicalShape_order hcanonicalKernel hkernelOrder, pure_bind]
    apply hasOutcome_pure

end Operands

section Inference

variable {dir : Direction} {attrs : Conv2dTransposeAttrs} {dataOrder kernelOrder outOrder : String}
  {data kernel : Expr} {dataSize kernelSize : Char → SymExpr} {dataDtype kernelDtype : DataType}

theorem sizes_withLayouts (dir : Direction) (attrs : Conv2dTransposeAttrs)
    (dataLayout kernelLayout outLayout : String) (data kernel : Char → SymExpr) :
    dir.sizes (withLayouts attrs dataLayout kernelLayout outLayout) data kernel =
      dir.sizes attrs data kernel := by
  cases dir <;> rfl

theorem outputInfo_order {op : String} (houtOrder : outOrder.toList.Perm canonicalData.toList)
    {size : Char → SymExpr} (hsize : ∀ c, c ∉ canonicalData.toList → size c = .lit 1)
    (dtype : DataType) :
    outputInfo op ⟨.ofLetters outOrder, .ofLetters canonicalData⟩ (canonicalData.toList.map size)
        dtype =
      pure (tensorIn outOrder (fun c => (size c).simplify) dtype) := by
  have hconversion := layoutConversion_order isLetters_canonicalData houtOrder
  rw [outputInfo, backward_canonicalData hconversion hsize, Layout.shapeOf_ofLetters]
  rfl

/-- What is inferred from two outcomes that no order of the axes has a part in. -/
theorem hasOutcome_infer (hdataOrder : dataOrder.toList.Perm canonicalData.toList)
    (hkernelOrder : kernelOrder.toList.Perm dir.signature.canonicalKernel.toList)
    (houtOrder : outOrder.toList.Perm canonicalData.toList)
    (hdata : Returns (Registry.builtins.inferExpr data)
      (some (tensorIn dataOrder dataSize dataDtype)))
    (hkernel : Returns (Registry.builtins.inferExpr kernel)
      (some (tensorIn kernelOrder kernelSize kernelDtype)))
    {dtype : Except Diagnostic DataType} {size : Except Diagnostic (Char → SymExpr)}
    (hdtype : HasOutcome (resultDtype dir.signature.op attrs.conv dataDtype kernelDtype) dtype)
    (hsize : HasOutcome (dir.sizes attrs (fun c => (dataSize c).simplify)
      fun c => (kernelSize c).simplify) size) :
    HasOutcome
      (Registry.builtins.infer
        (dir.call data kernel (withLayouts attrs dataOrder kernelOrder outOrder)))
      (dtype >>= fun dtype =>
        size.map fun size => tensorIn outOrder (fun c => (size c).simplify) dtype) := by
  obtain ⟨app, hinfer, hattrs, hargs⟩ :=
    infer_call dir data kernel (withLayouts attrs dataOrder kernelOrder outOrder)
  obtain ⟨finish, hrule, _, hfinish⟩ :=
    rule_eq_bind dir (withLayouts attrs dataOrder kernelOrder outOrder)
  have hresolve := hasOutcome_resolveOperands hdata hkernel hdataOrder hkernelOrder houtOrder hargs
    hdtype
  rw [hinfer, hrule hattrs]
  cases dtype with
  | error d => exact hresolve.bind_error finish
  | ok dtype =>
    apply hresolve.bind_ok
    rw [hfinish, sizes_withLayouts]
    cases size with
    | error d => exact hsize.bind_error _
    | ok size =>
      apply hsize.bind_ok
      obtain ⟨batch, channels, height, width, rfl⟩ := exists_eq_resultSize hsize.returns
      rw [outputInfo_order houtOrder fun _ => resultSize_eq_one]
      apply hasOutcome_pure

end Inference

/--
Two calls whose layouts are orders of the canonical letters, and which agree in all other attributes
and in the sizes of their axes, fail alike or have results that agree in the sizes of their axes.
-/
theorem infer_permuted (dir : Direction) (attrs : Conv2dTransposeAttrs)
    {dataOrder kernelOrder outOrder : String}
    (hdataOrder : dataOrder.toList.Perm canonicalData.toList)
    (hkernelOrder : kernelOrder.toList.Perm dir.signature.canonicalKernel.toList)
    (houtOrder : outOrder.toList.Perm canonicalData.toList)
    {data data' kernel kernel' : Expr} {dataSize kernelSize : Char → SymExpr}
    {dataDtype kernelDtype : DataType}
    (hdata : Returns (Registry.builtins.inferExpr data)
      (some (tensorIn canonicalData dataSize dataDtype)))
    (hkernel : Returns (Registry.builtins.inferExpr kernel)
      (some (tensorIn dir.signature.canonicalKernel kernelSize kernelDtype)))
    (hdata' : Returns (Registry.builtins.inferExpr data')
      (some (tensorIn dataOrder dataSize dataDtype)))
    (hkernel' : Returns (Registry.builtins.inferExpr kernel')
      (some (tensorIn kernelOrder kernelSize kernelDtype))) :
    ∃ outcome : Except Diagnostic ((Char → SymExpr) × DataType),
      HasOutcome
        (Registry.builtins.infer (dir.call data kernel
          (withLayouts attrs canonicalData dir.signature.canonicalKernel canonicalData)))
        (outcome.map fun (size, dtype) => tensorIn canonicalData size dtype) ∧
      HasOutcome
        (Registry.builtins.infer (dir.call data' kernel'
          (withLayouts attrs dataOrder kernelOrder outOrder)))
        (outcome.map fun (size, dtype) => tensorIn outOrder size dtype) := by
  have hadds : AddsEvents (resultDtype dir.signature.op attrs.conv dataDtype kernelDtype) :=
    addsEvents_resultDtype attrs.conv dataDtype kernelDtype
  obtain ⟨dtype, hdtype⟩ := hadds.exists_hasOutcome
  obtain ⟨size, hsize⟩ := (addsEvents_sizes dir attrs (fun c => (dataSize c).simplify)
    fun c => (kernelSize c).simplify).exists_hasOutcome
  have hcanonical := hasOutcome_infer (.refl _) (.refl _) (.refl _) hdata hkernel hdtype hsize
  have hordered :=
    hasOutcome_infer hdataOrder hkernelOrder houtOrder hdata' hkernel' hdtype hsize
  refine ⟨dtype >>= fun dtype => size.map fun size => (fun c => (size c).simplify, dtype), ?_, ?_⟩
  · cases dtype <;> cases size <;> exact hcanonical
  · cases dtype <;> cases size <;> exact hordered

theorem infer_permuted_channels_last :
    let attrs : Conv2dTransposeAttrs :=
      ⟨⟨⟨1, 2⟩, ⟨0, 1, 2, 3⟩, ⟨1, 1⟩, 2, "NCHW", "OIHW", "NCHW", .void⟩, ⟨0, 0⟩⟩
    let dataSize := resultSize (.size "n") (.lit 6) (.size "h") (.size "w")
    let kernelSize : Char → SymExpr := fun c => if c = 'O' then .lit 4 else .lit 3
    let data := fun order => Expr.var "x" (some (tensorIn order dataSize .void))
    let kernel := fun order => Expr.var "w" (some (tensorIn order kernelSize .void))
    ∃ size dtype,
      HasOutcome (Registry.builtins.infer (Direction.forward.call (data "NCHW") (kernel "OIHW")
        (withLayouts attrs "NCHW" "OIHW" "NCHW"))) (.ok (tensorIn "NCHW" size dtype)) ∧
      HasOutcome (Registry.builtins.infer (Direction.forward.call (data "NHWC") (kernel "HWIO")
        (withLayouts attrs "NHWC" "HWIO" "CWNH"))) (.ok (tensorIn "CWNH" size dtype)) := by
  intro attrs dataSize kernelSize data kernel
  have hok : ((Registry.builtins.infer (Direction.forward.call (data "NCHW") (kernel "OIHW")
      (withLayouts attrs "NCHW" "OIHW" "NCHW"))).run.run []).1.isOk = true := by
    decide +kernel
  obtain ⟨info, hinfo⟩ := exists_returns hok
  have hdata (order : String) : Returns (Registry.builtins.inferExpr (data order))
      (some (tensorIn order dataSize .void)) := ⟨[], _, rfl⟩
  have hkernel (order : String) : Returns (Registry.builtins.inferExpr (kernel order))
      (some (tensorIn order kernelSize .void)) := ⟨[], _, rfl⟩
  have hdataOrder : "NHWC".toList.Perm canonicalData.toList := by decide
  have hkernelOrder : "HWIO".toList.Perm "OIHW".toList := by decide
  have houtOrder : "CWNH".toList.Perm canonicalData.toList := by decide
  obtain ⟨outcome, hcanonical, hordered⟩ := infer_permuted .forward attrs hdataOrder hkernelOrder
    houtOrder (hdata "NCHW") (hkernel "OIHW") (hdata "NHWC") (hkernel "HWIO")
  cases outcome with
  | error d => cases HasOutcome.eq_ok hcanonical hinfo
  | ok result => exact ⟨result.1, result.2, hcanonical, hordered⟩

end TensorIR.Conv2d
