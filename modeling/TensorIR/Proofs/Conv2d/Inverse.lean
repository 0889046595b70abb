import TensorIR.Proofs.Conv2d.Channels
import TensorIR.Proofs.Conv2d.Overflow
import TensorIR.Proofs.Conv2d.Permutation
import TensorIR.Proofs.Conv2d.SizeSums

/-!
A transposed convolution undoes a convolution on shapes. The convolution succeeds only where the
padded input fits a literal, and then so do all sums of the transposed one, in the order in which
they are computed. What the stride leaves over of the input is lost, unless it is added again.
-/

namespace TensorIR.Conv2d

open SymExpr

section Undo

variable {attrs : Conv2dTransposeAttrs} {axis : SpatialAxis} {m n k : Int64}

theorem isLitOf_transposedSize (hstride : 1 ≤ attrs.conv.strides.get axis)
    (hdilation : 1 ≤ attrs.conv.dilation.get axis)
    (hpadding : 0 ≤ attrs.conv.padding.before axis ∧ 0 ≤ attrs.conv.padding.after axis)
    (hn : 0 < n) (hk : 0 < k)
    (hpadded : n.toInt + ((attrs.conv.padding.before axis).toInt
      + (attrs.conv.padding.after axis).toInt) ≤ Int64.maxValue.toInt)
    (hroom : 0 ≤ windowRoom attrs.conv axis n.toInt k.toInt)
    (hm : m.toInt = windowCount attrs.conv axis n.toInt k.toInt)
    (hadded : 0 ≤ attrs.outputPadding.get axis)
    (hrest : (attrs.outputPadding.get axis).toInt ≤
      windowRoom attrs.conv axis n.toInt k.toInt % (attrs.conv.strides.get axis).toInt) :
    (transposedSize attrs axis (lit m) (lit k)).simplify.IsLitOf
      (n.toInt - windowRoom attrs.conv axis n.toInt k.toInt % (attrs.conv.strides.get axis).toInt
        + (attrs.outputPadding.get axis).toInt) := by
  have hmax : Int64.maxValue.toInt = 2 ^ 63 - 1 := Int64.toInt_maxValue
  have hstridePos := Int64.le_iff_toInt_le.1 hstride
  have hbefore := Int64.le_iff_toInt_le.1 hpadding.1
  have hafter := Int64.le_iff_toInt_le.1 hpadding.2
  rw [Int64.toInt_one] at hstridePos
  rw [Int64.toInt_zero] at hbefore hafter
  have hreach := mul_pred_nonneg hdilation hk
  -- What is left over is less than the stride, so the places times the stride make up the rest.
  have hcount : m.toInt - 1 = windowRoom attrs.conv axis n.toInt k.toInt
      / (attrs.conv.strides.get axis).toInt := by
    rw [hm, ← Int.fdiv_eq_ediv_of_nonneg _ (by omega)]
    exact Int.add_sub_cancel _ _
  have hquotient := Int.ediv_nonneg hroom (b := (attrs.conv.strides.get axis).toInt) (by omega)
  have hspread := Int.mul_ediv_add_emod (windowRoom attrs.conv axis n.toInt k.toInt)
    (attrs.conv.strides.get axis).toInt
  have hrestLt := Int.emod_lt_of_pos (windowRoom attrs.conv axis n.toInt k.toInt)
    (b := (attrs.conv.strides.get axis).toInt) (by omega)
  have hrestNonneg := Int.emod_nonneg (windowRoom attrs.conv axis n.toInt k.toInt)
    (b := (attrs.conv.strides.get axis).toInt) (by omega)
  have hspreadNonneg := Int.mul_nonneg (show 0 ≤ (attrs.conv.strides.get axis).toInt by omega)
    hquotient
  rw [← hcount, Int.mul_comm] at hspread hspreadNonneg
  rw [← hcount] at hquotient
  have hmPos : 0 < m := by
    rw [Int64.lt_iff_toInt_lt, Int64.toInt_zero]
    omega
  have hlt : attrs.outputPadding.get axis < attrs.conv.strides.get axis := by
    rw [Int64.lt_iff_toInt_lt]
    omega
  have hlength : spreadLength attrs axis m.toInt k.toInt =
      n.toInt - windowRoom attrs.conv axis n.toInt k.toInt % (attrs.conv.strides.get axis).toInt
        + (attrs.outputPadding.get axis).toInt := by
    unfold spreadLength
    unfold windowRoom at hspread ⊢
    omega
  rw [← hlength]
  apply isLitOf_simplify_transposedSize hpadding hadded hlt hstride hdilation hmPos hk
  rw [Int64.le_iff_toInt_le, Int64.toInt_zero] at hadded
  unfold windowRoom at hspread hroom hrest hrestNonneg hlength
  refine ⟨?_, ?_, ?_, ?_⟩
  · omega
  · omega
  · omega
  · intro hpair
    rw [Int64.lt_iff_toInt_lt, Int64.toInt_zero] at hn
    omega

end Undo

section Outcomes

variable {op : String}

theorem hasOutcome_rejectIfProved {check : String} {violation : Predicate} {d : Diagnostic}
    (h : violation.prove ≠ .holds) : HasOutcome (rejectIfProved check violation d) (.ok ()) := by
  unfold rejectIfProved
  split
  · contradiction
  · apply hasOutcome_pure
  · exact fun _ => rfl

/-- A result's element type stays what it is in a second convolution with the same kernel. -/
theorem hasOutcome_resultDtype {op' : String} {attrs : Conv2dAttrs} {data kernel dtype : DataType}
    (h : HasOutcome (resultDtype op attrs data kernel) (.ok dtype)) :
    HasOutcome (resultDtype op' attrs dtype kernel) (.ok dtype) := by
  unfold resultDtype at h ⊢
  split
  case isTrue hvoid =>
    rw [if_pos hvoid] at h
    unfold commonDtype at h ⊢
    split at h
    case isTrue =>
      cases h []
      rw [if_pos (.inl rfl)]
      apply hasOutcome_pure
    case isFalse hknown =>
      split at h
      case isTrue hsame =>
        cases h []
        rw [if_neg hknown, if_pos hsame]
        apply hasOutcome_pure
      case isFalse => cases h []
  case isFalse hvoid =>
    rwa [if_neg hvoid] at h

theorem prove_outputPadding_ne_holds {attrs : Conv2dTransposeAttrs}
    (hadded : ∀ axis, 0 ≤ attrs.outputPadding.get axis)
    (hlt : ∀ axis, attrs.outputPadding.get axis < attrs.conv.strides.get axis) :
    (Predicate.or (checkOutputPadding.tooLarge attrs .height)
      (checkOutputPadding.tooLarge attrs .width)).prove ≠ .holds := by
  have hfails (axis : SpatialAxis) : (checkOutputPadding.tooLarge attrs axis).prove = .fails := by
    have hstride : 0 ≤ attrs.conv.strides.get axis := by
      have hlt := hlt axis
      have hadded := hadded axis
      rw [Int64.le_iff_toInt_le] at hadded ⊢
      rw [Int64.lt_iff_toInt_lt] at hlt
      omega
    change (Predicate.proveLt _ _).not = .fails
    rw [Predicate.proveLt_lits (hadded axis) hstride, if_pos (hlt axis)]
    rfl
  rw [Predicate.prove, hfails, hfails]
  decide

variable {attrs : Conv2dTransposeAttrs} {n c o i h w : Int64} {data kernel : Char → SymExpr}

theorem hasOutcome_sizes_transpose (hgroups : 0 < attrs.conv.groups)
    (hadded : ∀ axis, 0 ≤ attrs.outputPadding.get axis)
    (hlt : ∀ axis, attrs.outputPadding.get axis < attrs.conv.strides.get axis)
    (ho : 0 ≤ o) (hdata : data 'C' = lit o) (hkernel : kernel 'I' = lit o)
    (hgrouped : kernel 'O' = lit i) (hdvd : attrs.conv.groups.toInt ∣ o.toInt)
    (hchannels : c.toInt = i.toInt * attrs.conv.groups.toInt)
    (hheight :
      (transposedSize attrs .height (data 'H') (kernel 'H')).checkedSimplify? = some (lit h))
    (hwidth :
      (transposedSize attrs .width (data 'W') (kernel 'W')).checkedSimplify? = some (lit w)) :
    HasOutcome (Direction.sizes attrs data kernel .transpose)
      (.ok (resultSize (data 'N') (lit c) (lit h) (lit w))) := by
  let σ : Assignment := fun _ => 0
  have hσ (name : String) : 0 ≤ σ name := Int.le_refl 0
  have hdataSize : (data 'C').IsSize := hdata ▸ .lit ho
  have hkernelSize : (kernel 'I').IsSize := hkernel ▸ .lit ho
  have hdataValue : (data 'C').eval? σ = some o.toInt := by
    rw [hdata]
    rfl
  have hkernelValue : (kernel 'I').eval? σ = some o.toInt := by
    rw [hkernel]
    rfl
  have hagree : (Direction.transpose.channelsDiffer attrs.conv data kernel).prove ≠ .holds :=
    channelsDiffer_ne_holds (d := fun _ => o.toInt) (k := fun _ => o.toInt) hgroups hσ hdataSize
      hkernelSize hdataValue hkernelValue rfl
  have heven : (Direction.transpose.groupsUneven attrs.conv kernel).prove ≠ .holds :=
    groupsUneven_ne_holds hgroups hkernelSize hkernelValue hdvd
  have hproduct : (kernel 'O' * groupsExpr attrs.conv).checkedSimplify? = some (lit c) := by
    rw [← toInt_groups] at hchannels
    have hfits := simplify_mul_lits i attrs.conv.groups.toInt64
    rw [Int64.mul?_eq_some_iff.2 hchannels] at hfits
    rw [hgrouped]
    exact checkedSimplify?_of_simplify_lit hfits
  apply (hasOutcome_rejectIfProved hagree).bind_ok
  apply (hasOutcome_rejectIfProved heven).bind_ok
  apply (hasOutcome_rejectIfProved (prove_outputPadding_ne_holds hadded hlt)).bind_ok
  apply (hasOutcome_checkedSize hproduct).bind_ok
  apply (hasOutcome_checkedSize hheight).bind_ok
  apply (hasOutcome_checkedSize hwidth).bind_ok
  apply hasOutcome_pure

end Outcomes

section Calls

/-- The sizes of the axes of a kernel. -/
def kernelSize (o i h w : SymExpr) : Char → SymExpr
  | 'O' => o
  | 'I' => i
  | 'H' => h
  | 'W' => w
  | _ => .lit 1

theorem withLayouts_eq {attrs : Conv2dTransposeAttrs} {data kernel out : String}
    (hdata : attrs.conv.dataLayout = data) (hkernel : attrs.conv.kernelLayout = kernel)
    (hout : attrs.conv.outLayout = out) : withLayouts attrs data kernel out = attrs := by
  rw [← hdata, ← hkernel, ← hout]
  rfl

/-- The attributes ask for the canonical layouts. -/
structure InCanonicalOrder (dir : Direction) (attrs : Conv2dAttrs) : Prop where
  dataLayout : attrs.dataLayout = canonicalData
  kernelLayout : attrs.kernelLayout = dir.signature.canonicalKernel
  outLayout : attrs.outLayout = canonicalData

variable {data kernel : Expr} {dataDtype kernelDtype : DataType}

theorem hasOutcome_infer_canonical (dir : Direction) (attrs : Conv2dTransposeAttrs)
    (horder : InCanonicalOrder dir attrs.conv) {dataSize kernelSize : Char → SymExpr}
    (hdata : Returns (Registry.builtins.inferExpr data)
      (some (tensorIn canonicalData dataSize dataDtype)))
    (hkernel : Returns (Registry.builtins.inferExpr kernel)
      (some (tensorIn dir.signature.canonicalKernel kernelSize kernelDtype)))
    {dtype : Except Diagnostic DataType} {size : Except Diagnostic (Char → SymExpr)}
    (hdtype : HasOutcome (resultDtype dir.signature.op attrs.conv dataDtype kernelDtype) dtype)
    (hsize : HasOutcome (dir.sizes attrs (fun c => (dataSize c).simplify)
      fun c => (kernelSize c).simplify) size) :
    HasOutcome (Registry.builtins.infer (dir.call data kernel attrs))
      (dtype >>= fun dtype =>
        size.map fun size => tensorIn canonicalData (fun c => (size c).simplify) dtype) := by
  have houtcome := hasOutcome_infer (.refl _) (.refl _) (.refl _) hdata hkernel hdtype hsize
  rwa [withLayouts_eq horder.dataLayout horder.kernelLayout horder.outLayout] at houtcome

theorem tensorIn_resultSize_lits (n c h w : Int64) (dtype : DataType) :
    tensorIn canonicalData (fun d => (resultSize (lit n) (lit c) (lit h) (lit w) d).simplify)
        dtype =
      tensorIn canonicalData (resultSize (lit n) (lit c) (lit h) (lit w)) dtype := by
  have hlit (a : Int64) : (lit a).simplify = lit a := (isTerm_lit a).simplify_eq
  simp only [tensorIn, toList_canonicalData, List.map_cons, List.map_nil, resultSize, hlit]

variable {n c h w o i kh kw : Int64}

theorem infer_forward_lits {attrs : Conv2dAttrs} (horder : InCanonicalOrder .forward attrs)
    (hstrides : ∀ axis, 1 ≤ attrs.strides.get axis)
    (hdata : Returns (Registry.builtins.inferExpr data)
      (some (tensorIn canonicalData (resultSize (lit n) (lit c) (lit h) (lit w)) dataDtype)))
    (hkernel : Returns (Registry.builtins.inferExpr kernel)
      (some (tensorIn forwardSignature.canonicalKernel
        (kernelSize (lit o) (lit i) (lit kh) (lit kw)) kernelDtype)))
    {info : StructInfo}
    (hinfer : Returns (Registry.builtins.infer
      (Direction.forward.call data kernel ⟨attrs, ⟨0, 0⟩⟩)) info) :
    ∃ mh mw dtype,
      info = tensorIn canonicalData (resultSize (lit n) (lit o) (lit mh) (lit mw)) dtype ∧
      HasOutcome (resultDtype Conv2dAttrs.opName attrs dataDtype kernelDtype) (.ok dtype) ∧
      (outputSize attrs .height (lit h) (lit kh)).checkedSimplify? = some (lit mh) ∧
      (outputSize attrs .width (lit w) (lit kw)).checkedSimplify? = some (lit mw) ∧
      mh.toInt = windowCount attrs .height h.toInt kh.toInt ∧
      mw.toInt = windowCount attrs .width w.toInt kw.toInt := by
  have hlit (a : Int64) : (lit a).simplify = lit a := (isTerm_lit a).simplify_eq
  have hadds : AddsEvents (resultDtype Conv2dAttrs.opName attrs dataDtype kernelDtype) :=
    addsEvents_resultDtype attrs dataDtype kernelDtype
  obtain ⟨dtype, hdtype⟩ := hadds.exists_hasOutcome
  obtain ⟨size, hsize⟩ := (addsEvents_sizes .forward ⟨attrs, ⟨0, 0⟩⟩
    (fun d => (resultSize (lit n) (lit c) (lit h) (lit w) d).simplify)
    fun d => (kernelSize (lit o) (lit i) (lit kh) (lit kw) d).simplify).exists_hasOutcome
  have houtcome := hasOutcome_infer_canonical .forward ⟨attrs, ⟨0, 0⟩⟩ horder hdata hkernel hdtype
    hsize
  have hok := houtcome.eq_ok hinfer
  cases dtype with
  | error d => cases hok
  | ok dtype =>
    cases size with
    | error d => cases hok
    | ok size =>
      cases hok
      obtain ⟨_, _, height, width, hheight, hwidth, rfl⟩ := returns_sizes_forward hsize.returns
      simp only [resultSize, kernelSize, hlit] at hheight hwidth
      obtain ⟨mh, rfl, hmh⟩ := exists_windowCount (hstrides .height) hheight
      obtain ⟨mw, rfl, hmw⟩ := exists_windowCount (hstrides .width) hwidth
      refine ⟨mh, mw, dtype, ?_, hdtype, hheight, hwidth, hmh, hmw⟩
      simp only [resultSize, kernelSize, hlit]
      exact tensorIn_resultSize_lits n o mh mw dtype

theorem tensorIn_resultSize (n c h w : SymExpr) (dtype : DataType) :
    tensorIn canonicalData (resultSize n c h w) dtype = .tensor ⟨.known [n, c, h, w], dtype⟩ := by
  simp only [tensorIn, toList_canonicalData, List.map_cons, List.map_nil, resultSize]

theorem tensorIn_kernelSize (o i h w : SymExpr) (dtype : DataType) :
    tensorIn forwardSignature.canonicalKernel (kernelSize o i h w) dtype =
      .tensor ⟨.known [o, i, h, w], dtype⟩ := by
  simp only [tensorIn, toList_forwardKernel, List.map_cons, List.map_nil, kernelSize]

/-- The same kernel, with its channels named for the transposed convolution. -/
theorem tensorIn_kernelSize_swap (o i h w : SymExpr) (dtype : DataType) :
    tensorIn forwardSignature.canonicalKernel (kernelSize o i h w) dtype =
      tensorIn transposeSignature.canonicalKernel (kernelSize i o h w) dtype := by
  simp only [tensorIn, toList_forwardKernel, toList_transposeKernel, List.map_cons, List.map_nil,
    kernelSize]

theorem infer_transpose_lits {attrs : Conv2dTransposeAttrs}
    (horder : InCanonicalOrder .transpose attrs.conv) (hgroups : 0 < attrs.conv.groups)
    (hadded : ∀ axis, 0 ≤ attrs.outputPadding.get axis)
    (hlt : ∀ axis, attrs.outputPadding.get axis < attrs.conv.strides.get axis) (ho : 0 < o)
    (hdvd : attrs.conv.groups.toInt ∣ o.toInt)
    (hchannels : c.toInt = i.toInt * attrs.conv.groups.toInt) {mh mw : Int64}
    (hdata : Returns (Registry.builtins.inferExpr data)
      (some (tensorIn canonicalData (resultSize (lit n) (lit o) (lit mh) (lit mw)) dataDtype)))
    (hkernel : Returns (Registry.builtins.inferExpr kernel)
      (some (tensorIn transposeSignature.canonicalKernel
        (kernelSize (lit i) (lit o) (lit kh) (lit kw)) kernelDtype)))
    {dtype : DataType}
    (hdtype : HasOutcome (resultDtype Conv2dTransposeAttrs.opName attrs.conv dataDtype kernelDtype)
      (.ok dtype))
    (hheight : (transposedSize attrs .height (lit mh) (lit kh)).checkedSimplify? = some (lit h))
    (hwidth : (transposedSize attrs .width (lit mw) (lit kw)).checkedSimplify? = some (lit w)) :
    HasOutcome (Registry.builtins.infer (Direction.transpose.call data kernel attrs))
      (.ok (tensorIn canonicalData (resultSize (lit n) (lit c) (lit h) (lit w)) dtype)) := by
  have hlit (a : Int64) : (lit a).simplify = lit a := (isTerm_lit a).simplify_eq
  have ho' : 0 ≤ o := Int64.le_of_lt ho
  have hsizes : HasOutcome (Direction.sizes attrs
      (fun d => (resultSize (lit n) (lit o) (lit mh) (lit mw) d).simplify)
      (fun d => (kernelSize (lit i) (lit o) (lit kh) (lit kw) d).simplify) .transpose)
      (.ok (resultSize (lit n).simplify (lit c) (lit h) (lit w))) := by
    apply hasOutcome_sizes_transpose hgroups hadded hlt ho' (hlit o) (hlit o) (hlit i) hdvd
      hchannels
    · simpa only [resultSize, kernelSize, hlit] using hheight
    · simpa only [resultSize, kernelSize, hlit] using hwidth
  rw [hlit] at hsizes
  have houtcome := hasOutcome_infer_canonical .transpose attrs horder hdata hkernel hdtype hsizes
  rw [← tensorIn_resultSize_lits]
  exact houtcome

/-- The size of one axis: what the stride left over is lost but for what is added. -/
theorem exists_undone_size {op : String} {params : Conv2dParams} {attrs : Conv2dAttrs}
    (hattrs : Normalizes op params attrs) {axis : SpatialAxis} {n k m : Int64} (hn : 0 < n)
    (hk : 0 < k) (hm : (outputSize attrs axis (lit n) (lit k)).checkedSimplify? = some (lit m))
    (hcount : m.toInt = windowCount attrs axis n.toInt k.toInt)
    (hroom : 0 ≤ windowRoom attrs axis n.toInt k.toInt) {added : PerAxis}
    (hadded : 0 ≤ added.get axis) (hrest : (added.get axis).toInt ≤
      windowRoom attrs axis n.toInt k.toInt % (attrs.strides.get axis).toInt) :
    ∃ r : Int64,
      (transposedSize ⟨{ attrs with kernelLayout := "IOHW" }, added⟩ axis (lit m)
        (lit k)).checkedSimplify? = some (lit r) ∧
      r.toInt = n.toInt - windowRoom attrs axis n.toInt k.toInt % (attrs.strides.get axis).toInt
        + (added.get axis).toInt := by
  have hstride := hattrs.strides_pos axis
  have hdilation := hattrs.dilation_pos axis
  have hpadding := hattrs.padding_nonneg axis
  have hpadded := ((exists_checkedSimplify?_outputSize_iff hstride hdilation hpadding hn hk).1
    ⟨_, hm⟩).1
  let transposed : Conv2dTransposeAttrs := ⟨{ attrs with kernelLayout := "IOHW" }, added⟩
  have hsize : (transposedSize transposed axis (lit m) (lit k)).simplify.IsLitOf _ :=
    isLitOf_transposedSize hstride hdilation hpadding hn hk hpadded hroom hcount hadded hrest
  obtain ⟨r, hr, hvalue⟩ := hsize
  exact ⟨r, checkedSimplify?_of_simplify_lit hr, hvalue⟩

end Calls

/-- A transposed convolution of an inferred shape, with what is added to the sides of its axes. -/
theorem infer_transpose_inferred {params : Conv2dParams} {attrs : Conv2dAttrs}
    (hattrs : Normalizes Conv2dAttrs.opName params attrs) (horder : InCanonicalOrder .forward attrs)
    {data kernel : Expr} {dataDtype kernelDtype : DataType} {n c h w o i kh kw : Int64}
    (hh : 0 < h) (hw : 0 < w) (ho : 0 < o) (hkh : 0 < kh) (hkw : 0 < kw)
    (hdata : Returns (Registry.builtins.inferExpr data)
      (some (tensorIn canonicalData (resultSize (lit n) (lit c) (lit h) (lit w)) dataDtype)))
    (hkernel : Returns (Registry.builtins.inferExpr kernel)
      (some (tensorIn forwardSignature.canonicalKernel
        (kernelSize (lit o) (lit i) (lit kh) (lit kw)) kernelDtype)))
    (hchannels : c.toInt = i.toInt * attrs.groups.toInt) (hdvd : attrs.groups.toInt ∣ o.toInt)
    (hheight : 0 ≤ windowRoom attrs .height h.toInt kh.toInt)
    (hwidth : 0 ≤ windowRoom attrs .width w.toInt kw.toInt) {info : StructInfo}
    (hinfer : Returns (Registry.builtins.infer
      (Direction.forward.call data kernel ⟨attrs, ⟨0, 0⟩⟩)) info) :
    ∃ dtype, ∀ added : PerAxis, (∀ axis, 0 ≤ added.get axis) →
      added.height.toInt ≤
        windowRoom attrs .height h.toInt kh.toInt % attrs.strides.height.toInt →
      added.width.toInt ≤ windowRoom attrs .width w.toInt kw.toInt % attrs.strides.width.toInt →
      ∃ h' w' : Int64,
        h'.toInt = h.toInt - windowRoom attrs .height h.toInt kh.toInt % attrs.strides.height.toInt
          + added.height.toInt ∧
        w'.toInt = w.toInt - windowRoom attrs .width w.toInt kw.toInt % attrs.strides.width.toInt
          + added.width.toInt ∧
        ∀ name, ∃ call',
          Returns (conv2dTranspose (.var name (some info)) kernel
            ⟨{ params with kernelLayout := "IOHW" }, added.toList⟩) call' ∧
          HasOutcome (Registry.builtins.infer call')
            (.ok (.tensor ⟨.known [lit n, lit c, lit h', lit w'], dtype⟩)) := by
  obtain ⟨mh, mw, dtype, rfl, hdtype, hmh, hmw, hmhCount, hmwCount⟩ :=
    infer_forward_lits horder hattrs.strides_pos hdata hkernel hinfer
  refine ⟨dtype, ?_⟩
  intro added hadded hrestHeight hrestWidth
  obtain ⟨h', hh', hhValue⟩ := exists_undone_size hattrs hh hkh hmh hmhCount hheight
    (hadded .height) hrestHeight
  obtain ⟨w', hw', hwValue⟩ := exists_undone_size hattrs hw hkw hmw hmwCount hwidth
    (hadded .width) hrestWidth
  refine ⟨h', w', hhValue, hwValue, ?_⟩
  intro name
  have hlt (axis : SpatialAxis) : added.get axis < attrs.strides.get axis := by
    have hstride := hattrs.strides_pos axis
    rw [Int64.le_iff_toInt_le, Int64.toInt_one] at hstride
    rw [Int64.lt_iff_toInt_lt]
    cases axis with
    | height => exact Int.lt_of_le_of_lt hrestHeight (Int.emod_lt_of_pos _ hstride)
    | width => exact Int.lt_of_le_of_lt hrestWidth (Int.emod_lt_of_pos _ hstride)
  have hdata' : Returns (Registry.builtins.inferExpr (.var name
      (some (tensorIn canonicalData (resultSize (lit n) (lit o) (lit mh) (lit mw)) dtype))))
      (some (tensorIn canonicalData (resultSize (lit n) (lit o) (lit mh) (lit mw)) dtype)) :=
    Registry.builtins.returns_inferExpr_var name _
  rw [tensorIn_kernelSize_swap] at hkernel
  have horder' : InCanonicalOrder .transpose { attrs with kernelLayout := "IOHW" } :=
    ⟨horder.dataLayout, rfl, horder.outLayout⟩
  have hbuilt : normalizeTranspose Conv2dTransposeAttrs.opName _ = _ :=
    hattrs.normalizeTranspose_eq "IOHW" hadded
  refine ⟨_, returns_conv2dTranspose_of_ok hbuilt _ _, ?_⟩
  rw [← tensorIn_resultSize]
  apply infer_transpose_lits
  · exact horder'
  · exact hattrs.groups_pos
  · exact hadded
  · exact hlt
  · exact ho
  · exact hdvd
  · exact hchannels
  · exact hdata'
  · exact hkernel
  · exact hasOutcome_resultDtype hdtype
  · exact hh'
  · exact hw'

/--
A transposed convolution with the same attributes and the same kernel, applied to what a convolution
infers, has the shape of the convolution's data if what the strides left over of it is added again.
Where nothing is added, its sizes lack what was left over.
-/
theorem infer_conv2dTranspose_conv2d {params : Conv2dParams}
    (hdataLayout : params.dataLayout = "NCHW")
    (hkernelLayout : params.kernelLayout = "OIHW") (houtLayout : params.outLayout = none)
    {n c h w o i kh kw : Int64} (hpos : ∀ a ∈ [n, c, h, w, o, i, kh, kw], 0 < a)
    {data kernel : Expr} {dataDtype kernelDtype : DataType}
    (hdata : Returns (Registry.builtins.inferExpr data)
      (some (.tensor ⟨.known [.lit n, .lit c, .lit h, .lit w], dataDtype⟩)))
    (hkernel : Returns (Registry.builtins.inferExpr kernel)
      (some (.tensor ⟨.known [.lit o, .lit i, .lit kh, .lit kw], kernelDtype⟩)))
    {call : Call} {attrs : Conv2dAttrs} (hcall : Returns (conv2d data kernel params) call)
    (hattrs : call.attrs = some (.conv2d attrs))
    (hchannels : c.toInt = i.toInt * params.groups.toInt)
    (hgroups : params.groups.toInt ∣ o.toInt)
    (hheight : 0 ≤ windowRoom attrs .height h.toInt kh.toInt)
    (hwidth : 0 ≤ windowRoom attrs .width w.toInt kw.toInt)
    {info : StructInfo} (hinfer : Returns (Registry.builtins.infer call) info)
    {restHeight restWidth : Int64}
    (hrestHeight : restHeight.toInt =
      windowRoom attrs .height h.toInt kh.toInt % attrs.strides.height.toInt)
    (hrestWidth : restWidth.toInt =
      windowRoom attrs .width w.toInt kw.toInt % attrs.strides.width.toInt) (name : String) :
    let transposed := fun outputPadding => conv2dTranspose (.var name (some info)) kernel
      { conv := { params with kernelLayout := "IOHW" }, outputPadding }
    ∃ dtype,
      (∃ call', Returns (transposed [restHeight, restWidth]) call' ∧
        HasOutcome (Registry.builtins.infer call')
          (.ok (.tensor ⟨.known [.lit n, .lit c, .lit h, .lit w], dtype⟩))) ∧
      ∃ call' h' w', Returns (transposed [0, 0]) call' ∧
        h'.toInt = h.toInt - restHeight.toInt ∧ w'.toInt = w.toInt - restWidth.toInt ∧
        HasOutcome (Registry.builtins.infer call')
          (.ok (.tensor ⟨.known [.lit n, .lit c, .lit h', .lit w'], dtype⟩)) := by
  intro transposed
  obtain ⟨attrs', hnormalize, rfl⟩ := returns_conv2d hcall
  cases hattrs
  have hnormalizes := normalizes_of_normalize hnormalize
  have horder : InCanonicalOrder .forward attrs := by
    refine ⟨?_, ?_, ?_⟩
    · rw [hnormalizes.dataLayout, hdataLayout]
      rfl
    · rw [hnormalizes.kernelLayout, hkernelLayout]
      rfl
    · rw [hnormalizes.outLayout, houtLayout, Option.getD_none, hdataLayout]
      rfl
  have hpos' {a : Int64} (ha : a ∈ [n, c, h, w, o, i, kh, kw]) : 0 < a := hpos a ha
  rw [← tensorIn_resultSize] at hdata
  rw [← tensorIn_kernelSize] at hkernel
  rw [← hnormalizes.groups] at hchannels hgroups
  obtain ⟨dtype, hundo⟩ := infer_transpose_inferred hnormalizes horder (hpos' (by simp))
    (hpos' (by simp)) (hpos' (by simp)) (hpos' (by simp)) (hpos' (by simp)) hdata hkernel
    hchannels hgroups hheight hwidth hinfer
  have hstrides (axis : SpatialAxis) : 0 < (attrs.strides.get axis).toInt := by
    have hstride := hnormalizes.strides_pos axis
    rwa [Int64.le_iff_toInt_le, Int64.toInt_one] at hstride
  have hheightNonneg : 0 ≤ restHeight.toInt :=
    hrestHeight ▸ Int.emod_nonneg _ (Int.ne_of_gt (hstrides .height))
  have hwidthNonneg : 0 ≤ restWidth.toInt :=
    hrestWidth ▸ Int.emod_nonneg _ (Int.ne_of_gt (hstrides .width))
  refine ⟨dtype, ?_, ?_⟩
  · have hadded (axis : SpatialAxis) : 0 ≤ PerAxis.get ⟨restHeight, restWidth⟩ axis := by
      rw [Int64.le_iff_toInt_le, Int64.toInt_zero]
      cases axis with
      | height => exact hheightNonneg
      | width => exact hwidthNonneg
    obtain ⟨h', w', hh', hw', houtcome⟩ := hundo ⟨restHeight, restWidth⟩ hadded
      (Int.le_of_eq hrestHeight) (Int.le_of_eq hrestWidth)
    obtain rfl : h' = h := by
      rw [← Int64.toInt_inj, hh', ← hrestHeight]
      exact Int.sub_add_cancel _ _
    obtain rfl : w' = w := by
      rw [← Int64.toInt_inj, hw', ← hrestWidth]
      exact Int.sub_add_cancel _ _
    exact houtcome name
  · have hadded (axis : SpatialAxis) : 0 ≤ PerAxis.get ⟨0, 0⟩ axis := by
      cases axis <;> decide
    obtain ⟨h', w', hh', hw', houtcome⟩ := hundo ⟨0, 0⟩ hadded
      (by rw [← hrestHeight]; exact hheightNonneg) (by rw [← hrestWidth]; exact hwidthNonneg)
    rw [← hrestHeight, Int64.toInt_zero, Int.add_zero] at hh'
    rw [← hrestWidth, Int64.toInt_zero, Int.add_zero] at hw'
    obtain ⟨call', hcall', houtcome⟩ := houtcome name
    exact ⟨call', h', w', hcall', hh', hw', houtcome⟩

theorem infer_conv2dTranspose_conv2d_strided :
    let params : Conv2dParams :=
      { strides := [2, 3], padding := [1], dilation := [1, 2], groups := 2 }
    let var := fun name sizes => Expr.var name (some (.tensor ⟨.known sizes, .void⟩))
    let kernel := var "w" [.lit 6, .lit 2, .lit 3, .lit 3]
    let transposed := fun info outputPadding => conv2dTranspose (.var "y" (some info)) kernel
      { conv := { params with kernelLayout := "IOHW" }, outputPadding }
    ∃ call info dtype,
      Returns (conv2d (var "x" [.lit 1, .lit 4, .lit 6, .lit 7]) kernel params) call ∧
      Returns (Registry.builtins.infer call) info ∧
      (∃ call', Returns (transposed info [1, 1]) call' ∧
        HasOutcome (Registry.builtins.infer call')
          (.ok (.tensor ⟨.known [.lit 1, .lit 4, .lit 6, .lit 7], dtype⟩))) ∧
      ∃ call', Returns (transposed info [0, 0]) call' ∧
        HasOutcome (Registry.builtins.infer call')
          (.ok (.tensor ⟨.known [.lit 1, .lit 4, .lit 5, .lit 6], dtype⟩)) := by
  -- Both strides leave over one of the places.
  intro params var kernel transposed
  let attrs : Conv2dAttrs :=
    ⟨⟨2, 3⟩, ⟨1, 1, 1, 1⟩, ⟨1, 2⟩, 2, "NCHW", "OIHW", "NCHW", .void⟩
  let data := var "x" [.lit 1, .lit 4, .lit 6, .lit 7]
  have hcall : Returns (conv2d data kernel params)
      ⟨.op Conv2dAttrs.opName, [data, kernel], some (.conv2d attrs), []⟩ := ⟨[], _, rfl⟩
  have hok : ((Registry.builtins.infer
      ⟨.op Conv2dAttrs.opName, [data, kernel], some (.conv2d attrs), []⟩).run.run []).1.isOk
        = true := by
    decide +kernel
  obtain ⟨info, hinfer⟩ := exists_returns hok
  have hdata : Returns (Registry.builtins.inferExpr data)
      (some (.tensor ⟨.known [.lit 1, .lit 4, .lit 6, .lit 7], .void⟩)) := ⟨[], _, rfl⟩
  have hkernel : Returns (Registry.builtins.inferExpr kernel)
      (some (.tensor ⟨.known [.lit 6, .lit 2, .lit 3, .lit 3], .void⟩)) := ⟨[], _, rfl⟩
  have hall : ([1, 4, 6, 7, 6, 2, 3, 3] : List Int64).all (fun a => 0 < a) = true := by
    decide
  have hpos (a : Int64) (ha : a ∈ [1, 4, 6, 7, 6, 2, 3, 3]) : 0 < a :=
    of_decide_eq_true (List.all_eq_true.1 hall a ha)
  have hheight : (1 : Int64).toInt =
      windowRoom attrs .height (6 : Int64).toInt (3 : Int64).toInt % (2 : Int64).toInt := by
    decide
  have hwidth : (1 : Int64).toInt =
      windowRoom attrs .width (7 : Int64).toInt (3 : Int64).toInt % (3 : Int64).toInt := by
    decide
  obtain ⟨dtype, hundone, call', h', w', hcall', hh', hw', hlost⟩ :=
    infer_conv2dTranspose_conv2d rfl rfl rfl hpos hdata hkernel hcall rfl (by decide) (by decide)
      (by decide) (by decide) hinfer hheight hwidth "y"
  obtain rfl : h' = 5 := Int64.toInt_inj.1 hh'
  obtain rfl : w' = 6 := Int64.toInt_inj.1 hw'
  exact ⟨_, info, dtype, hcall, hinfer, hundone, call', hcall', hlost⟩

end TensorIR.Conv2d
