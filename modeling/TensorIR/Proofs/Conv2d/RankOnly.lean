import TensorIR.Proofs.Conv2d.Stages

/-!
Convolutions of tensors of which only the rank is known. All checks of the operands come before
their sizes are looked at, and see no more of a shape than its rank. So a tree of convolutions that
infers still does where the sizes of some variables are forgotten, and its result is the same but
for its sizes.
-/

namespace TensorIR

/-- The second info is the first one, or has forgotten its sizes. -/
inductive TensorInfo.Forgets : Bool → TensorInfo → TensorInfo → Prop where
  | kept (t : TensorInfo) : Forgets false t t
  | forgotten (t : TensorInfo) {n : UInt64} (h : n.toNat = t.ndim) :
    Forgets true t ⟨.rank n, t.dtype⟩

theorem TensorInfo.Forgets.ndim_eq {forgets : Bool} {t t' : TensorInfo} (h : t.Forgets forgets t') :
    t'.ndim = t.ndim := by
  cases h with
  | kept => rfl
  | forgotten _ hn => exact hn

theorem TensorInfo.Forgets.dtype_eq {forgets : Bool} {t t' : TensorInfo}
    (h : t.Forgets forgets t') : t'.dtype = t.dtype := by
  cases h with
  | kept => rfl
  | forgotten => rfl

/-- The axes of a layout have different letters, of which there are few. -/
theorem Layout.toNat_ofNat_ndim {name : String} {layout : Layout} (h : parse name = .ok layout) :
    (UInt64.ofNat layout.ndim).toNat = layout.ndim := by
  have hwellFormed := allWellFormed_of_parse h
  have hle (a : Axis) (ha : a ∈ layout.axes) : a.name.toNat ≤ 122 := by
    cases a with
    | primal c =>
      have := Char.isUpper_iff_toNat.1 (hwellFormed.wellFormed _ ha)
      exact Nat.le_trans this.2 (by decide)
    | inner c f =>
      have hupper := Char.isUpper_iff_toNat.1 (hwellFormed.wellFormed _ ha).1
      have hall : ∀ n : Nat, n ≤ 90 → 65 ≤ n → (Char.ofNat n).toLower.toNat ≤ 122 := by decide
      have := hall c.toNat hupper.2 hupper.1
      rwa [Char.ofNat_toNat] at this
  have hsubset : layout.axes.map Axis.name ⊆ (List.range 123).map Char.ofNat := by
    intro c hc
    obtain ⟨a, ha, rfl⟩ := List.mem_map.1 hc
    exact List.mem_map.2 ⟨a.name.toNat, List.mem_range.2 (Nat.lt_succ_of_le (hle a ha)),
      Char.ofNat_toNat a.name⟩
  have hlength := (List.subperm_of_subset hwellFormed.nodup hsubset).length_le
  rw [List.length_map, List.length_map, List.length_range] at hlength
  rw [UInt64.toNat_ofNat']
  apply Nat.mod_eq_of_lt
  exact Nat.lt_of_le_of_lt hlength (by decide)

namespace Conv2d

section Resolution

/-- What is known of two operands before their shapes are looked at. -/
structure CheckedOperands where
  dataLayout : LayoutConversion
  kernelLayout : LayoutConversion
  outLayout : LayoutConversion
  dtype : DataType

def checkOperands (sig : Signature) (attrs : Conv2dAttrs) (data kernel : TensorInfo) :
    Infer CheckedOperands := do
  let dataLayout ← checkLayout sig.op attrs.dataLayout canonicalData "data" "data_layout"
  let kernelLayout ←
    checkLayout sig.op attrs.kernelLayout sig.canonicalKernel "kernel" "kernel_layout"
  let outLayout ← checkLayout sig.op attrs.outLayout canonicalData "output" "out_layout"
  checkRank sig.op data dataLayout.src "data" 0
  checkRank sig.op kernel kernelLayout.src "kernel" 1
  let dtype ← resultDtype sig.op attrs data.dtype kernel.dtype
  return { dataLayout, kernelLayout, outLayout, dtype }

/-- The info of a result of which only the rank is known. -/
def CheckedOperands.rankInfo (checked : CheckedOperands) : TensorInfo :=
  ⟨.rank (UInt64.ofNat checked.outLayout.src.ndim), checked.dtype⟩

def resolveShapes (sig : Signature) (data kernel : TensorShape) (checked : CheckedOperands) :
    Infer Operands :=
  match data, kernel with
  | .known dataDims, .known kernelDims => do
    let data ← canonicalShape sig.op checked.dataLayout dataDims
    let kernel ← canonicalShape sig.op checked.kernelLayout kernelDims
    return .known data kernel checked.outLayout checked.dtype
  | _, _ => return .rankOnly checked.rankInfo

variable {app : Application} {sig : Signature} {attrs : Conv2dAttrs}

theorem resolveOperands_eq_bind :
    resolveOperands app sig attrs = tensorOperands sig.op app.operands >>= fun (data, kernel) =>
      checkOperands sig attrs data kernel >>= resolveShapes sig data.shape kernel.shape := by
  simp only [checkOperands, bind_assoc, pure_bind]
  rfl

theorem addsEvents_checkOperands (data kernel : TensorInfo) :
    AddsEvents (checkOperands sig attrs data kernel) := by
  apply (addsEvents_checkLayout _ _ _ _).bind
  intro dataLayout
  apply (addsEvents_checkLayout _ _ _ _).bind
  intro kernelLayout
  apply (addsEvents_checkLayout _ _ _ _).bind
  intro outLayout
  apply (addsEvents_checkRank _ _ _ _).bind
  intro _
  apply (addsEvents_checkRank _ _ _ _).bind
  intro _
  apply (addsEvents_resultDtype _ _ _).bind
  intro dtype
  apply addsEvents_pure

/-- The checks see the ranks and the element types alone. -/
theorem checkOperands_of_forgets {forgets forgets' : Bool} {data data' kernel kernel' : TensorInfo}
    (hdata : data.Forgets forgets data') (hkernel : kernel.Forgets forgets' kernel') :
    checkOperands sig attrs data' kernel' = checkOperands sig attrs data kernel := by
  simp only [checkOperands, checkRank, hdata.ndim_eq, hdata.dtype_eq, hkernel.ndim_eq,
    hkernel.dtype_eq]

theorem returns_checkRank {op role : String} {index : Nat} {info : TensorInfo} {layout : Layout}
    (h : Returns (checkRank op info layout role index) ()) : info.ndim = layout.ndim := by
  unfold checkRank at h
  split at h
  · next hndim => exact hndim
  · exact absurd h not_returns_throw

theorem returns_checkOperands {data kernel : TensorInfo} {checked : CheckedOperands}
    (h : Returns (checkOperands sig attrs data kernel) checked) :
    layoutConversion attrs.dataLayout canonicalData = .ok checked.dataLayout ∧
      layoutConversion attrs.kernelLayout sig.canonicalKernel = .ok checked.kernelLayout ∧
      layoutConversion attrs.outLayout canonicalData = .ok checked.outLayout ∧
      data.ndim = checked.dataLayout.src.ndim ∧ kernel.ndim = checked.kernelLayout.src.ndim := by
  obtain ⟨dataLayout, hdata, h⟩ := h.bind
  obtain ⟨kernelLayout, hkernel, h⟩ := h.bind
  obtain ⟨outLayout, hout, h⟩ := h.bind
  obtain ⟨_, hdataRank, h⟩ := h.bind
  obtain ⟨_, hkernelRank, h⟩ := h.bind
  obtain ⟨dtype, _, h⟩ := h.bind
  cases returns_pure_iff.1 h
  exact ⟨returns_checkLayout hdata, returns_checkLayout hkernel, returns_checkLayout hout,
    returns_checkRank hdataRank, returns_checkRank hkernelRank⟩

theorem parse_of_returns_checkOperands {data kernel : TensorInfo} {checked : CheckedOperands}
    (h : Returns (checkOperands sig attrs data kernel) checked) :
    Layout.parse attrs.outLayout = .ok checked.outLayout.src := by
  obtain ⟨_, _, hout, _⟩ := returns_checkOperands h
  exact (layoutConversion_eq_ok hout).1

/-- A shape of the layout's rank is converted to its sizes in canonical order. -/
theorem forward_eq_ok {layout canonical : String} {conversion : LayoutConversion}
    {dims : List SymExpr} (h : layoutConversion layout canonical = .ok conversion)
    (hcanonical : Layout.IsLetters canonical) (hndim : dims.length = conversion.src.ndim) :
    conversion.forward dims =
      .ok (canonical.toList.map (canonicalSize conversion.src dims)) := by
  obtain ⟨hsrc, hdst, _⟩ := layoutConversion_eq_ok h
  have hconvert : conversion.src.convert conversion.dst dims = .ok _ := if_pos hndim
  obtain ⟨src, hsrc', hshape⟩ :=
    InCanonicalLayout.exists_eq ⟨_, _, hsrc, hdst, hconvert⟩ hcanonical.parse_eq
  rw [hsrc, Except.ok.injEq] at hsrc'
  rw [LayoutConversion.forward, hconvert, hshape, hsrc']

/-- What checked operands are resolved to: each canonical shape has one size for each axis. -/
def CheckedOperands.resolve (checked : CheckedOperands) (sig : Signature)
    (data kernel : TensorShape) : Operands :=
  match data, kernel with
  | .known dataDims, .known kernelDims =>
    .known (canonicalData.toList.map (canonicalSize checked.dataLayout.src dataDims))
      (sig.canonicalKernel.toList.map (canonicalSize checked.kernelLayout.src kernelDims))
      checked.outLayout checked.dtype
  | _, _ => .rankOnly checked.rankInfo

theorem CheckedOperands.resolve_cases (checked : CheckedOperands) (sig : Signature)
    (data kernel : TensorShape) :
    checked.resolve sig data kernel = .rankOnly checked.rankInfo ∨
      ∃ dataSize kernelSize : Char → SymExpr, checked.resolve sig data kernel =
        .known (canonicalData.toList.map dataSize) (sig.canonicalKernel.toList.map kernelSize)
          checked.outLayout checked.dtype := by
  unfold resolve
  split
  · exact .inr ⟨_, _, rfl⟩
  · exact .inl rfl

theorem resolveShapes_eq {data kernel : TensorInfo} {checked : CheckedOperands}
    (hcanonical : Layout.IsLetters sig.canonicalKernel)
    (h : Returns (checkOperands sig attrs data kernel) checked) :
    resolveShapes sig data.shape kernel.shape checked =
      pure (checked.resolve sig data.shape kernel.shape) := by
  obtain ⟨hdata, hkernel, _, hdataRank, hkernelRank⟩ := returns_checkOperands h
  unfold resolveShapes CheckedOperands.resolve
  cases hdataDims : data.shape with
  | rank => rfl
  | known dataDims =>
    cases hkernelDims : kernel.shape with
    | rank => rfl
    | known kernelDims =>
      rw [TensorInfo.ndim, hdataDims] at hdataRank
      rw [TensorInfo.ndim, hkernelDims] at hkernelRank
      dsimp only
      rw [canonicalShape, forward_eq_ok hdata isLetters_canonicalData hdataRank, canonicalShape,
        forward_eq_ok hkernel hcanonical hkernelRank]
      rfl

theorem resolveShapes_of_forgets {forgets forgets' : Bool} {data data' kernel kernel' : TensorInfo}
    (hdata : data.Forgets forgets data') (hkernel : kernel.Forgets forgets' kernel')
    (hforgets : (forgets || forgets') = true) (checked : CheckedOperands) :
    resolveShapes sig data'.shape kernel'.shape checked = pure (.rankOnly checked.rankInfo) := by
  cases hdata with
  | forgotten => rfl
  | kept =>
    cases hkernel with
    | forgotten =>
      unfold resolveShapes
      split
      · next h => cases h
      · rfl
    | kept => cases hforgets

end Resolution

section Rules

variable {dir : Direction} {app : Application} {attrs : Conv2dTransposeAttrs}
  {data kernel : TensorInfo}

/-- A result has the element type that the checks found, and the rank of the output layout. -/
theorem returns_rule_tensor {info : StructInfo} (h : Returns (dir.rule app) info) :
    ∃ attrs data kernel checked t, app.call.attrs = some (dir.record attrs) ∧
      Returns (tensorOperands dir.signature.op app.operands) (data, kernel) ∧
      Returns (checkOperands dir.signature attrs.conv data kernel) checked ∧
      info = .tensor t ∧ t.dtype = checked.dtype ∧ t.ndim = checked.outLayout.src.ndim := by
  cases hread : dir.attrs? app.call.attrs with
  | none =>
    rw [rule_of_attrs?_eq_none hread] at h
    exact absurd h not_returns_throw
  | some attrs =>
    have hattrs := eq_record_of_attrs? hread
    obtain ⟨finish, hrule, hrankOnly, hknown⟩ := rule_eq_bind dir attrs
    rw [hrule hattrs, resolveOperands_eq_bind] at h
    obtain ⟨operands, hoperands, h⟩ := h.bind
    obtain ⟨⟨data, kernel⟩, htensors, hoperands⟩ := hoperands.bind
    obtain ⟨checked, hchecked, hoperands⟩ := hoperands.bind
    rw [resolveShapes_eq dir.isLetters_canonicalKernel hchecked, returns_pure_iff] at hoperands
    rw [← hoperands] at h
    rcases checked.resolve_cases dir.signature data.shape kernel.shape with
      hrank | ⟨dataSize, kernelSize, hshapes⟩
    · rw [hrank, hrankOnly, returns_pure_iff] at h
      refine ⟨attrs, data, kernel, checked, _, hattrs, htensors, hchecked, h.symm, rfl, ?_⟩
      exact Layout.toNat_ofNat_ndim (parse_of_returns_checkOperands hchecked)
    · rw [hshapes, hknown] at h
      obtain ⟨size, _, h⟩ := h.bind
      obtain ⟨dims, hdims, rfl⟩ := returns_outputInfo h
      refine ⟨attrs, data, kernel, checked, _, hattrs, htensors, hchecked, rfl, rfl, ?_⟩
      unfold LayoutConversion.backward Layout.convert at hdims
      split at hdims
      · cases hdims
        exact List.length_map _
      · cases hdims

/-- The rules see no more of a call than its attributes and its resolved operands. -/
theorem rule_congr {app' : Application} (hattrs : app'.call.attrs = app.call.attrs)
    (hresolve : ∀ attrs, app.call.attrs = some (dir.record attrs) →
      resolveOperands app' dir.signature attrs.conv =
        resolveOperands app dir.signature attrs.conv) :
    dir.rule app' = dir.rule app := by
  cases hread : dir.attrs? app.call.attrs with
  | none => rw [rule_of_attrs?_eq_none hread, rule_of_attrs?_eq_none (hattrs ▸ hread)]
  | some attrs =>
    have happ := eq_record_of_attrs? hread
    obtain ⟨finish, hrule, _, _⟩ := rule_eq_bind dir attrs
    rw [hrule happ, hrule (hattrs.trans happ), hresolve attrs happ]

section Known

variable (hattrs : app.call.attrs = some (dir.record attrs))
include hattrs

theorem hasOutcome_rule_rankOnly {t : TensorInfo}
    (h : HasOutcome (resolveOperands app dir.signature attrs.conv) (.ok (.rankOnly t))) :
    HasOutcome (dir.rule app) (.ok (.tensor t)) := by
  obtain ⟨finish, hrule, hrankOnly, _⟩ := rule_eq_bind dir attrs
  rw [hrule hattrs]
  apply h.bind_ok
  rw [hrankOnly]
  apply hasOutcome_pure

variable (htensors : HasOutcome (tensorOperands dir.signature.op app.operands) (.ok (data, kernel)))
include htensors

theorem hasOutcome_rule_of_checkOperands_error {d : Diagnostic}
    (h : HasOutcome (checkOperands dir.signature attrs.conv data kernel) (.error d)) :
    HasOutcome (dir.rule app) (.error d) := by
  obtain ⟨finish, hrule, _, _⟩ := rule_eq_bind dir attrs
  rw [hrule hattrs, resolveOperands_eq_bind]
  exact (htensors.bind_ok (h.bind_error _)).bind_error finish

theorem hasOutcome_rule_of_forgets {forgets forgets' : Bool} {dataBefore kernelBefore : TensorInfo}
    (hdata : dataBefore.Forgets forgets data) (hkernel : kernelBefore.Forgets forgets' kernel)
    (hforgets : (forgets || forgets') = true) {checked : CheckedOperands}
    (h : HasOutcome (checkOperands dir.signature attrs.conv dataBefore kernelBefore)
      (.ok checked)) :
    HasOutcome (dir.rule app) (.ok (.tensor checked.rankInfo)) := by
  apply hasOutcome_rule_rankOnly hattrs
  rw [resolveOperands_eq_bind]
  apply htensors.bind_ok
  dsimp only
  rw [checkOperands_of_forgets hdata hkernel]
  apply h.bind_ok
  rw [resolveShapes_of_forgets hdata hkernel hforgets]
  apply hasOutcome_pure

end Known

/-- A failure without the sizes is a failure of the checks, which come first with the sizes too. -/
theorem hasOutcome_rule_error_of_forgets {app' : Application}
    (hattrs : app'.call.attrs = app.call.attrs) {data' kernel' : TensorInfo}
    (htensors : HasOutcome (tensorOperands dir.signature.op app.operands) (.ok (data, kernel)))
    (htensors' : HasOutcome (tensorOperands dir.signature.op app'.operands) (.ok (data', kernel')))
    {forgets forgets' : Bool} (hdata : data.Forgets forgets data')
    (hkernel : kernel.Forgets forgets' kernel') (hforgets : (forgets || forgets') = true)
    {d : Diagnostic} (hd : HasOutcome (dir.rule app') (.error d)) :
    HasOutcome (dir.rule app) (.error d) := by
  by_cases hrecord : ∃ attrs, app.call.attrs = some (dir.record attrs)
  · obtain ⟨attrs, hrecord⟩ := hrecord
    have hrecord' := hattrs.trans hrecord
    have hadds : AddsEvents (checkOperands dir.signature attrs.conv data kernel) :=
      addsEvents_checkOperands data kernel
    obtain ⟨outcome, houtcome⟩ := hadds.exists_hasOutcome
    cases outcome with
    | ok checked =>
      have hok := hasOutcome_rule_of_forgets hrecord' htensors' hdata hkernel hforgets houtcome
      cases (hd []).symm.trans (hok [])
    | error d₀ =>
      have herror := hasOutcome_rule_of_checkOperands_error hrecord htensors houtcome
      rw [← checkOperands_of_forgets hdata hkernel] at houtcome
      have herror' := hasOutcome_rule_of_checkOperands_error hrecord' htensors' houtcome
      cases (hd []).symm.trans (herror' [])
      exact herror
  · rw [← rule_congr hattrs fun attrs h => absurd ⟨attrs, h⟩ hrecord]
    exact hd

end Rules

section Trees

mutual

/--
The second expression is the first one, or the same tree of convolutions where the sizes of some
variables are forgotten.
-/
inductive Forgets : Bool → Expr → Expr → Prop where
  | kept (e : Expr) : Forgets false e e
  | var (name : String) {t t' : TensorInfo} (h : t.Forgets true t') :
    Forgets true (.var name (some (.tensor t))) (.var name (some (.tensor t')))
  | call (dir : Direction) (attrs : Option Attrs) (infoArgs : List StructInfo)
    {args args' : List Expr} (h : ForgetsAll true args args') :
    Forgets true (.call ⟨.op dir.signature.op, args, attrs, infoArgs⟩)
      (.call ⟨.op dir.signature.op, args', attrs, infoArgs⟩)

inductive ForgetsAll : Bool → List Expr → List Expr → Prop where
  | nil : ForgetsAll false [] []
  | cons {forgets first rest : Bool} {e e' : Expr} {es es' : List Expr} (h : Forgets first e e')
    (hs : ForgetsAll rest es es') (hforgets : (first || rest) = forgets) :
    ForgetsAll forgets (e :: es) (e' :: es')

end

variable {dir : Direction} {args args' : List Expr}

theorem infer_direction (dir : Direction) (args : List Expr) (attrs : Option Attrs)
    (infoArgs : List StructInfo) :
    Registry.builtins.infer ⟨.op dir.signature.op, args, attrs, infoArgs⟩ =
      dir.rule ⟨⟨.op dir.signature.op, args, attrs, infoArgs⟩, Registry.builtins.inferAll args,
        Registry.builtins.size⟩ := by
  cases dir with
  | forward =>
    exact Registry.infer_op _ _ _ _
      (show Registry.builtins.get? Conv2dAttrs.opName = some OpDef.conv2d from rfl) rfl
  | transpose =>
    exact Registry.infer_op _ _ _ _ (show Registry.builtins.get? Conv2dTransposeAttrs.opName =
      some OpDef.conv2dTranspose from rfl) rfl

theorem inferExpr_call (c : Call) :
    Registry.builtins.inferExpr (.call c) =
      Registry.builtins.infer c >>= fun info => pure (some info) := by
  rw [Registry.inferExpr, map_eq_pure_bind]

theorem returns_tensorOperands_inferAll {op : String} {data kernel : TensorInfo}
    (h : Returns (tensorOperands op (Registry.builtins.inferAll args)) (data, kernel)) :
    ∃ e₁ e₂, args = [e₁, e₂] ∧
      Returns (Registry.builtins.inferExpr e₁) (some (.tensor data)) ∧
      Returns (Registry.builtins.inferExpr e₂) (some (.tensor kernel)) := by
  match args with
  | [e₁, e₂] =>
    simp only [Registry.inferAll] at h
    exact ⟨e₁, e₂, rfl, returns_tensorOperands h⟩
  | [] | [_] | _ :: _ :: _ :: _ =>
    simp only [Registry.inferAll] at h
    exact absurd h not_returns_throw

theorem hasOutcome_tensorOperands_inferAll {op : String} {e₁ e₂ : Expr} {data kernel : TensorInfo}
    (hdata : Returns (Registry.builtins.inferExpr e₁) (some (.tensor data)))
    (hkernel : Returns (Registry.builtins.inferExpr e₂) (some (.tensor kernel))) :
    HasOutcome (tensorOperands op (Registry.builtins.inferAll [e₁, e₂])) (.ok (data, kernel)) := by
  have hadds (e : Expr) := Registry.addsEvents_inferExpr Registry.rulesAddEvents_builtins e
  have htensor {index : Nat} {e : Expr} {t : TensorInfo}
      (h : Returns (Registry.builtins.inferExpr e) (some (.tensor t))) :
      HasOutcome (tensorOperand op index (Registry.builtins.inferExpr e)) (.ok t) :=
    ((hadds e).hasOutcome_of_returns h).bind_ok (hasOutcome_pure t)
  simp only [Registry.inferAll]
  exact (htensor hdata).bind_ok ((htensor hkernel).bind_ok (hasOutcome_pure _))

/-- Where the first expression is inferred to be a tensor, so is the second, which forgets sizes. -/
def InfersForgetting (forgets : Bool) (e e' : Expr) : Prop :=
  ∀ t, Returns (Registry.builtins.inferExpr e) (some (.tensor t)) →
    ∃ t', Returns (Registry.builtins.inferExpr e') (some (.tensor t')) ∧ t.Forgets forgets t'

/-- Two operands on each side, of which one at least forgets its sizes. -/
def OperandsForgetting (forgets : Bool) (args args' : List Expr) : Prop :=
  ∀ e₁ e₂, args = [e₁, e₂] → ∃ e₁' e₂' forgets₁ forgets₂, args' = [e₁', e₂'] ∧
    (forgets₁ || forgets₂) = forgets ∧ InfersForgetting forgets₁ e₁ e₁' ∧
    InfersForgetting forgets₂ e₂ e₂'

theorem infer_of_operandsForgetting (h : OperandsForgetting true args args') {attrs : Option Attrs}
    {infoArgs : List StructInfo} {info : StructInfo}
    (hinfer : Returns
      (Registry.builtins.infer ⟨.op dir.signature.op, args, attrs, infoArgs⟩) info) :
    ∃ t record out n, info = .tensor t ∧ attrs = some (dir.record record) ∧
      Layout.parse record.conv.outLayout = .ok out ∧ t.ndim = out.ndim ∧ n.toNat = t.ndim ∧
      HasOutcome (Registry.builtins.infer ⟨.op dir.signature.op, args', attrs, infoArgs⟩)
        (.ok (.tensor ⟨.rank n, t.dtype⟩)) := by
  rw [infer_direction] at hinfer
  obtain ⟨record, data, kernel, checked, t, hattrs, htensors, hchecked, rfl, hdtype, hndim⟩ :=
    returns_rule_tensor hinfer
  obtain ⟨e₁, e₂, rfl, hdata, hkernel⟩ := returns_tensorOperands_inferAll htensors
  obtain ⟨e₁', e₂', forgets₁, forgets₂, rfl, hforgets, h₁, h₂⟩ := h e₁ e₂ rfl
  obtain ⟨data', hdata', hdataForgets⟩ := h₁ data hdata
  obtain ⟨kernel', hkernel', hkernelForgets⟩ := h₂ kernel hkernel
  have hparse := parse_of_returns_checkOperands hchecked
  have hrank := Layout.toNat_ofNat_ndim hparse
  have hsame := hrank.trans hndim.symm
  refine ⟨t, record, checked.outLayout.src, _, rfl, hattrs, hparse, hndim, hsame, ?_⟩
  rw [infer_direction, hdtype]
  obtain rfl : attrs = some (dir.record record) := hattrs
  exact hasOutcome_rule_of_forgets rfl (hasOutcome_tensorOperands_inferAll hdata' hkernel')
    hdataForgets hkernelForgets hforgets
    ((addsEvents_checkOperands data kernel).hasOutcome_of_returns hchecked)

theorem infersForgetting_call (h : OperandsForgetting true args args') (attrs : Option Attrs)
    (infoArgs : List StructInfo) :
    InfersForgetting true (.call ⟨.op dir.signature.op, args, attrs, infoArgs⟩)
      (.call ⟨.op dir.signature.op, args', attrs, infoArgs⟩) := by
  intro t ht
  rw [inferExpr_call] at ht
  obtain ⟨info, hinfo, ht⟩ := ht.bind
  cases returns_pure_iff.1 ht
  obtain ⟨t, record, out, n, ht, _, _, _, hn, houtcome⟩ := infer_of_operandsForgetting h hinfo
  cases ht
  simp only [inferExpr_call]
  have hsome (info : StructInfo) : HasOutcome (pure (some info) : Infer _) (.ok (some info)) :=
    hasOutcome_pure (some info)
  exact ⟨_, (houtcome.bind_ok (hsome _)).returns, .forgotten t hn⟩

mutual

theorem Forgets.infersForgetting {forgets : Bool} {e e' : Expr} (h : Forgets forgets e e') :
    InfersForgetting forgets e e' := by
  match h with
  | .kept e => exact fun t ht => ⟨t, ht, .kept t⟩
  | .var name h =>
    intro t ht
    cases returns_pure_iff.1 ht
    exact ⟨_, returns_pure_iff.2 rfl, h⟩
  | .call dir attrs infoArgs h => exact infersForgetting_call h.operandsForgetting attrs infoArgs

theorem ForgetsAll.operandsForgetting {forgets : Bool} {args args' : List Expr}
    (h : ForgetsAll forgets args args') : OperandsForgetting forgets args args' := by
  intro e₁ e₂ hargs
  match h with
  | .nil => cases hargs
  | .cons _ .nil _ => cases hargs
  | .cons _ (.cons _ (.cons _ _ _) _) _ => cases hargs
  | .cons h₁ (.cons h₂ .nil hlast) hforgets =>
    cases hargs
    rw [Bool.or_false] at hlast
    rw [← hlast] at hforgets
    exact ⟨_, _, _, _, rfl, hforgets, h₁.infersForgetting, h₂.infersForgetting⟩

end

theorem ForgetsAll.length_eq {forgets : Bool} {args args' : List Expr}
    (h : ForgetsAll forgets args args') : args'.length = args.length := by
  match h with
  | .nil => rfl
  | .cons _ hs _ => rw [List.length_cons, List.length_cons, hs.length_eq]

theorem tensorOperands_of_length {op : String} {args args' : List Expr} (h : args.length ≠ 2)
    (hlength : args'.length = args.length) :
    tensorOperands op (Registry.builtins.inferAll args') =
      tensorOperands op (Registry.builtins.inferAll args) := by
  have hinferAll (es : List Expr) : (Registry.builtins.inferAll es).length = es.length := by
    induction es with
    | nil => simp [Registry.inferAll]
    | cons e es ih => simp [Registry.inferAll, ih]
  have hthrow (es : List Expr) (hes : es.length ≠ 2) :
      tensorOperands op (Registry.builtins.inferAll es) =
        throw ⟨.invalidArguments, op, none,
          s!"expects 2 arguments, but {es.length} were given"⟩ := by
    rw [← hinferAll es] at hes ⊢
    unfold tensorOperands
    split
    · next heq =>
      rw [heq] at hes
      exact absurd rfl hes
    · rfl
  rw [hthrow args h, hthrow args' (by rwa [hlength]), hlength]

theorem infer_of_length {args args' : List Expr} (h : args.length ≠ 2)
    (hlength : args'.length = args.length) {attrs : Option Attrs} {infoArgs : List StructInfo} :
    Registry.builtins.infer ⟨.op dir.signature.op, args', attrs, infoArgs⟩ =
      Registry.builtins.infer ⟨.op dir.signature.op, args, attrs, infoArgs⟩ := by
  rw [infer_direction, infer_direction]
  apply rule_congr
  · rfl
  · intro attrs _
    rw [resolveOperands_eq_bind, resolveOperands_eq_bind]
    dsimp only
    rw [tensorOperands_of_length h hlength]

theorem infer_error_of_variables (h : ForgetsAll true args args')
    (hvariables : ∀ e ∈ args, ∃ name t, e = .var name (some (.tensor t))) {attrs : Option Attrs}
    {infoArgs : List StructInfo} {d : Diagnostic}
    (hd : HasOutcome (Registry.builtins.infer ⟨.op dir.signature.op, args', attrs, infoArgs⟩)
      (.error d)) :
    HasOutcome (Registry.builtins.infer ⟨.op dir.signature.op, args, attrs, infoArgs⟩)
      (.error d) := by
  by_cases hlength : args.length = 2
  · rw [infer_direction] at hd ⊢
    obtain ⟨e₁, e₂, rfl⟩ := List.length_eq_two.1 hlength
    rw [List.forall_mem_cons, List.forall_mem_singleton] at hvariables
    obtain ⟨⟨x, data, rfl⟩, ⟨y, kernel, rfl⟩⟩ := hvariables
    have hdata := Registry.builtins.returns_inferExpr_var x (.tensor data)
    have hkernel := Registry.builtins.returns_inferExpr_var y (.tensor kernel)
    obtain ⟨_, _, forgets₁, forgets₂, rfl, hforgets, h₁, h₂⟩ := h.operandsForgetting _ _ rfl
    obtain ⟨data', hdata', hdataForgets⟩ := h₁ data hdata
    obtain ⟨kernel', hkernel', hkernelForgets⟩ := h₂ kernel hkernel
    refine hasOutcome_rule_error_of_forgets ?_ (hasOutcome_tensorOperands_inferAll hdata hkernel)
      (hasOutcome_tensorOperands_inferAll hdata' hkernel') hdataForgets hkernelForgets hforgets hd
    rfl
  · rwa [infer_of_length hlength h.length_eq] at hd

end Trees

/--
Where a tree of convolutions is inferred, it still is after the sizes of some variables, one at
least, are forgotten: to a tensor with the same element type, of the rank that the outermost output
layout has. So a failure without those sizes is one with them, too; and it is the same failure if
all operands are variables.
-/
theorem infer_forgotten (dir : Direction) (attrs : Option Attrs) (infoArgs : List StructInfo)
    {args args' : List Expr} (h : ForgetsAll true args args') :
    let outcome := fun args =>
      HasOutcome (Registry.builtins.infer ⟨.op dir.signature.op, args, attrs, infoArgs⟩)
    (∀ info, outcome args (.ok info) → ∃ t record out n, info = .tensor t ∧
      attrs = some (dir.record record) ∧ Layout.parse record.conv.outLayout = .ok out ∧
      t.ndim = out.ndim ∧ n.toNat = t.ndim ∧
      outcome args' (.ok (.tensor ⟨.rank n, t.dtype⟩))) ∧
    (∀ d', outcome args' (.error d') → ∃ d, outcome args (.error d)) ∧
    ((∀ e ∈ args, ∃ name t, e = .var name (some (.tensor t))) →
      ∀ d, outcome args' (.error d) → outcome args (.error d)) := by
  intro outcome
  have hok (info : StructInfo) (hinfo : outcome args (.ok info)) :=
    infer_of_operandsForgetting h.operandsForgetting hinfo.returns
  refine ⟨hok, ?_, fun hvariables d hd => infer_error_of_variables h hvariables hd⟩
  intro d' hd'
  obtain ⟨r, hr⟩ := (Registry.addsEvents_infer Registry.rulesAddEvents_builtins
    ⟨.op dir.signature.op, args, attrs, infoArgs⟩).exists_hasOutcome
  cases r with
  | ok info =>
    obtain ⟨t, record, out, n, _, _, _, _, _, hrank⟩ := hok info hr
    cases (hd' []).symm.trans (hrank [])
  | error d => exact ⟨d, hr⟩

theorem infer_forgotten_nested :
    let var := fun name shape => Expr.var name (some (.tensor ⟨shape, .void⟩))
    let attrs := fun kernelLayout outLayout : String =>
      (⟨⟨1, 1⟩, ⟨0, 0, 0, 0⟩, ⟨1, 1⟩, 1, "NCHW", kernelLayout, outLayout, .void⟩ : Conv2dAttrs)
    let inner := fun data => Expr.call ⟨.op Conv2dTransposeAttrs.opName,
      [data, var "v" (.known [.lit 3, .size "c", .lit 2, .lit 2])],
      some (.conv2dTranspose ⟨attrs "IOHW" "NCHW", ⟨0, 0⟩⟩), []⟩
    let outer := fun data => Registry.builtins.infer ⟨.op Conv2dAttrs.opName,
      [inner data, var "w" (.known [.lit 8, .size "c", .lit 3, .lit 3])],
      some (.conv2d (attrs "OIHW" "NCHW4c")), []⟩
    ∃ t n, HasOutcome (outer (var "x" (.known [.size "n", .lit 3, .size "h", .size "w"])))
        (.ok (.tensor t)) ∧
      HasOutcome (outer (var "x" (.rank 4))) (.ok (.tensor ⟨.rank n, t.dtype⟩)) ∧
      n.toNat = 5 := by
  -- A convolution of a transposed one; the variable that forgets its sizes is below both.
  intro var attrs inner outer
  have hx : Forgets true (var "x" (.known [.size "n", .lit 3, .size "h", .size "w"]))
      (var "x" (.rank 4)) := .var "x" (.forgotten _ rfl)
  have hinner := Forgets.call .transpose (some (.conv2dTranspose ⟨attrs "IOHW" "NCHW", ⟨0, 0⟩⟩)) []
    (.cons hx (.cons (.kept (var "v" (.known [.lit 3, .size "c", .lit 2, .lit 2]))) .nil rfl) rfl)
  have hargs := ForgetsAll.cons hinner
    (.cons (.kept (var "w" (.known [.lit 8, .size "c", .lit 3, .lit 3]))) .nil rfl) rfl
  obtain ⟨hok, _⟩ := infer_forgotten .forward (some (.conv2d (attrs "OIHW" "NCHW4c"))) [] hargs
  have hknown : ((outer (var "x" (.known [.size "n", .lit 3, .size "h", .size "w"]))).run.run
      []).1.isOk = true := by
    decide +kernel
  obtain ⟨info, hinfo⟩ := exists_returns hknown
  have hadds := Registry.addsEvents_infer Registry.rulesAddEvents_builtins
  have houtcome := (hadds _).hasOutcome_of_returns hinfo
  obtain ⟨t, record, out, n, rfl, hattrs, hparse, hndim, hn, hrank⟩ := hok info houtcome
  refine ⟨t, n, houtcome, hrank, ?_⟩
  have hlayout : record.conv.outLayout = "NCHW4c" :=
    congrArg Conv2dAttrs.outLayout (Attrs.conv2d.inj (Option.some.inj hattrs)).symm
  rw [hlayout] at hparse
  cases hparse
  rw [hn, hndim]
  rfl

end Conv2d

end TensorIR
