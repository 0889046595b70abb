import TensorIR.Proofs.Conv2d.RankOnly
import TensorIR.Proofs.Conv2d.ShapeOverflow

/-!
Overflow in the sizes of a result, for literal shapes in any layouts. A call is accepted if its
operands are resolved and the checks of channels, groups and output paddings pass; then the only
failure that is left is the report of a size that is computed and does not fit, and such a size is
always reported. The sizes that are only taken over from an operand are not checked.
-/

namespace TensorIR.Conv2d

open SymExpr

namespace Direction

/-- What is checked of resolved operands before the sizes of the result are computed. -/
def checks (attrs : Conv2dTransposeAttrs) (data kernel : Char → SymExpr) : Direction → Infer Unit
  | .forward => do
    checkChannels attrs.conv (data 'C') (kernel 'I')
    checkGroups attrs.conv (kernel 'O')
  | .transpose => do
    checkTransposeChannels (data 'C') (kernel 'I')
    checkTransposeGroups attrs.conv (kernel 'I')
    checkOutputPadding attrs

/-- The exact sizes of the primal axes of the result. -/
def exactSize : Direction → Conv2dTransposeAttrs → (Char → Int) → (Char → Int) → Char → Int
  | .forward, attrs => convolvedSize attrs.conv
  | .transpose, attrs => spreadSize attrs

end Direction

/-- How diagnostics name a size. -/
def sizeName : Char → String
  | 'C' => "channel size"
  | 'H' => "height"
  | _ => "width"

section Sizes

variable {dir : Direction} {attrs : Conv2dTransposeAttrs} {data kernel : Char → SymExpr}

/-- The second stage checks, and then computes one size after the other. -/
theorem sizes_eq_bind (dir : Direction) (attrs : Conv2dTransposeAttrs)
    (data kernel : Char → SymExpr) :
    ∃ finish : List SymExpr → Char → SymExpr,
      dir.sizes attrs data kernel = dir.checks attrs data kernel >>= fun _ =>
        (dir.computedAxes.mapM fun c => checkedSize dir.signature.op (sizeName c)
          (dir.sizeExpr attrs data kernel c)) >>= fun sizes => pure (finish sizes) := by
  cases dir with
  | forward =>
    refine ⟨fun sizes => resultSize (data 'N') (kernel 'O') (sizes.getD 0 (lit 1))
      (sizes.getD 1 (lit 1)), ?_⟩
    simp only [Direction.checks, Direction.computedAxes, List.mapM_cons, List.mapM_nil, bind_assoc,
      pure_bind]
    rfl
  | transpose =>
    refine ⟨fun sizes => resultSize (data 'N') (sizes.getD 0 (lit 1)) (sizes.getD 1 (lit 1))
      (sizes.getD 2 (lit 1)), ?_⟩
    simp only [Direction.checks, Direction.computedAxes, List.mapM_cons, List.mapM_nil, bind_assoc,
      pure_bind]
    rfl

/-- The first size that does not simplify is reported. -/
theorem hasOutcome_checkedSizes (dir : Direction) (size : Char → SymExpr) (cs : List Char) :
    (∃ sizes, HasOutcome
      (cs.mapM fun c => checkedSize dir.signature.op (sizeName c) (size c)) (.ok sizes)) ∨
    ∃ c ∈ cs, (size c).checkedSimplify? = none ∧ HasOutcome
      (cs.mapM fun c => checkedSize dir.signature.op (sizeName c) (size c))
      (.error (dir.overflow (sizeName c))) := by
  induction cs with
  | nil => exact .inl ⟨[], hasOutcome_pure []⟩
  | cons c cs ih =>
    rw [List.mapM_cons]
    cases hc : (size c).checkedSimplify? with
    | none =>
      have hfirst : HasOutcome (checkedSize dir.signature.op (sizeName c) (size c))
          (.error (dir.overflow (sizeName c))) := by
        rw [checkedSize, hc]
        exact fun _ => rfl
      exact .inr ⟨c, List.mem_cons_self, hc, hfirst.bind_error _⟩
    | some s =>
      have hfirst : HasOutcome (checkedSize dir.signature.op (sizeName c) (size c)) (.ok s) :=
        hasOutcome_checkedSize hc
      rcases ih with ⟨sizes, hsizes⟩ | ⟨c', hc', hnone, herror⟩
      · exact .inl ⟨s :: sizes, hfirst.bind_ok (hsizes.bind_ok (hasOutcome_pure _))⟩
      · exact .inr ⟨c', List.mem_cons_of_mem c hc', hnone,
          hfirst.bind_ok (herror.bind_error _)⟩

theorem addsEvents_checks (dir : Direction) (attrs : Conv2dTransposeAttrs)
    (data kernel : Char → SymExpr) : AddsEvents (dir.checks attrs data kernel) := by
  cases dir with
  | forward => exact addsEvents_rejectIfProved.bind fun _ => addsEvents_rejectIfProved
  | transpose =>
    exact addsEvents_rejectIfProved.bind fun _ =>
      addsEvents_rejectIfProved.bind fun _ => addsEvents_rejectIfProved

theorem failsOnlyWith_checks (dir : Direction) (attrs : Conv2dTransposeAttrs)
    (data kernel : Char → SymExpr) :
    FailsOnlyWith [.channelMismatch, .groupDivisibility, .outputPadding]
      (dir.checks attrs data kernel) := by
  cases dir with
  | forward =>
    refine (failsOnlyWith_rejectIfProved (by simp)).bind fun _ _ => ?_
    exact failsOnlyWith_rejectIfProved (by simp)
  | transpose =>
    refine (failsOnlyWith_rejectIfProved (by simp)).bind fun _ _ => ?_
    refine (failsOnlyWith_rejectIfProved (by simp)).bind fun _ _ => ?_
    exact failsOnlyWith_rejectIfProved (by simp)

/-- Behind the checks, a failure is the report of a size that does not simplify. -/
theorem hasOutcome_sizes_of_checks (h : Returns (dir.checks attrs data kernel) ()) :
    (∃ size, HasOutcome (dir.sizes attrs data kernel) (.ok size)) ∨
    ∃ c ∈ dir.computedAxes, (dir.sizeExpr attrs data kernel c).checkedSimplify? = none ∧
      HasOutcome (dir.sizes attrs data kernel) (.error (dir.overflow (sizeName c))) := by
  have hchecks := (addsEvents_checks dir attrs data kernel).hasOutcome_of_returns h
  obtain ⟨finish, hsizes⟩ := sizes_eq_bind dir attrs data kernel
  rw [hsizes]
  rcases hasOutcome_checkedSizes dir (dir.sizeExpr attrs data kernel) dir.computedAxes with
    ⟨sizes, hok⟩ | ⟨c, hc, hnone, herror⟩
  · exact .inl ⟨finish sizes, hchecks.bind_ok (hok.bind_ok (hasOutcome_pure _))⟩
  · exact .inr ⟨c, hc, hnone, hchecks.bind_ok (herror.bind_error _)⟩

theorem kind_of_fails_sizes {d : Diagnostic} (h : Fails (dir.sizes attrs data kernel) d)
    (hchecks : ¬ Returns (dir.checks attrs data kernel) ()) :
    d.kind ∈ [DiagnosticKind.channelMismatch, .groupDivisibility, .outputPadding] := by
  obtain ⟨finish, hsizes⟩ := sizes_eq_bind dir attrs data kernel
  rw [hsizes] at h
  rcases h.bind with h | ⟨_, hreturns, _⟩
  · exact failsOnlyWith_checks dir attrs data kernel d h
  · exact absurd hreturns hchecks

theorem checkedSimplify?_of_returns_sizes {size : Char → SymExpr}
    (h : Returns (dir.sizes attrs data kernel) size) {c : Char} (hc : c ∈ dir.computedAxes) :
    ∃ s, (dir.sizeExpr attrs data kernel c).checkedSimplify? = some s := by
  obtain ⟨_, channels, length, _, hchannels, hlength⟩ := returns_sizes_eq h
  cases dir with
  | forward =>
    simp only [Direction.computedAxes, List.mem_cons, List.not_mem_nil, or_false] at hc
    rcases hc with rfl | rfl
    · exact ⟨_, hlength .height⟩
    · exact ⟨_, hlength .width⟩
  | transpose =>
    simp only [Direction.computedAxes, List.mem_cons, List.not_mem_nil, or_false] at hc
    rcases hc with rfl | rfl | rfl
    · exact ⟨_, hchannels⟩
    · exact ⟨_, hlength .height⟩
    · exact ⟨_, hlength .width⟩

end Sizes

section Literals

variable {dir : Direction} {attrs : Conv2dTransposeAttrs} {dataLayout kernelLayout : Layout}

theorem eval?_sizeExpr {data kernel : Char → SymExpr} {dataSize kernelSize : Char → Int}
    {σ : Assignment} (hstrides : ∀ axis, 1 ≤ attrs.conv.strides.get axis)
    (hdata : ∀ c, c.isUpper = true → (data c).eval? σ = some (dataSize c))
    (hkernel : ∀ c, c.isUpper = true → (kernel c).eval? σ = some (kernelSize c)) {c : Char}
    (hc : c ∈ dir.computedAxes) :
    (dir.sizeExpr attrs data kernel c).eval? σ =
      some (dir.exactSize attrs dataSize kernelSize c) := by
  have hH := And.intro (hdata 'H' (by decide)) (hkernel 'H' (by decide))
  have hW := And.intro (hdata 'W' (by decide)) (hkernel 'W' (by decide))
  cases dir with
  | forward =>
    simp only [Direction.computedAxes, List.mem_cons, List.not_mem_nil, or_false] at hc
    rcases hc with rfl | rfl
    · exact eval?_outputSize (hstrides _) hH.1 hH.2
    · exact eval?_outputSize (hstrides _) hW.1 hW.2
  | transpose =>
    simp only [Direction.computedAxes, List.mem_cons, List.not_mem_nil, or_false] at hc
    rcases hc with rfl | rfl | rfl
    · exact eval?_mul_groupsExpr _ (hkernel 'O' (by decide))
    · exact eval?_transposedSize _ _ hH.1 hH.2
    · exact eval?_transposedSize _ _ hW.1 hW.2

/-- A size that simplifies is the literal of its value, so it fits. -/
theorem fits_of_checkedSimplify? (hstrides : ∀ axis, 1 ≤ attrs.conv.strides.get axis)
    (hdata : Axis.AllWellFormed dataLayout.axes) (hkernel : Axis.AllWellFormed kernelLayout.axes)
    {dataDims kernelDims : List Int64} {c : Char} (hc : c ∈ dir.computedAxes) {s : SymExpr}
    (hs : (dir.sizeExpr attrs (canonicalSize dataLayout (dataDims.map lit))
      (canonicalSize kernelLayout (kernelDims.map lit)) c).checkedSimplify? = some s) :
    Fits (dir.exactSize attrs (dataLayout.primalSize (dataDims.map Int64.toInt))
      (kernelLayout.primalSize (kernelDims.map Int64.toInt)) c) := by
  have hsize {layout : Layout} (hlayout : Axis.AllWellFormed layout.axes) (dims : List Int64)
      (c : Char) (hc : c.isUpper = true) :=
    eval?_canonicalSize hlayout hc (valuesAt_lits (fun _ => 0) dims)
  have hvalue := eval?_sizeExpr hstrides (hsize hdata dataDims) (hsize hkernel kernelDims) hc
  obtain ⟨a, _, ha⟩ :=
    exists_lit_of_checkedSimplify? (settled_sizeExpr hstrides hdata hkernel hc) hs hvalue
  exact ⟨a, ha⟩

end Literals

section Calls

/-- The operands are resolved, and the checks pass that come before the sizes are computed. -/
structure Direction.Accepts (dir : Direction) (attrs : Conv2dTransposeAttrs)
    (data kernel : TensorInfo) (dataSize kernelSize : Char → SymExpr) : Prop where
  operands : ∃ checked, Returns (checkOperands dir.signature attrs.conv data kernel) checked
  checks : Returns (dir.checks attrs dataSize kernelSize) ()

theorem failsOnlyWith_checkOperands (sig : Signature) (attrs : Conv2dAttrs)
    (data kernel : TensorInfo) :
    FailsOnlyWith resolutionKinds (checkOperands sig attrs data kernel) := by
  apply (failsOnlyWith_checkLayout _ _ _ _).bind
  intro dataLayout _
  apply (failsOnlyWith_checkLayout _ _ _ _).bind
  intro kernelLayout _
  apply (failsOnlyWith_checkLayout _ _ _ _).bind
  intro outLayout _
  apply (failsOnlyWith_checkRank _ _ _ _).bind
  intro _ _
  apply (failsOnlyWith_checkRank _ _ _ _).bind
  intro _ _
  apply (failsOnlyWith_resultDtype _ _ _).bind
  intro dtype _
  apply failsOnlyWith_pure

variable {dir : Direction} {data kernel : Expr} {attrs : Conv2dTransposeAttrs}
  {dataDims kernelDims : List SymExpr} {dataDtype kernelDtype : DataType}
  (hdata : Returns (Registry.builtins.inferExpr data)
    (some (.tensor ⟨.known dataDims, dataDtype⟩)))
  (hkernel : Returns (Registry.builtins.inferExpr kernel)
    (some (.tensor ⟨.known kernelDims, kernelDtype⟩)))
include hdata hkernel

/-- Behind the checks of the operands stands the second stage, and its sizes can be laid out. -/
theorem hasOutcome_infer_of_checkOperands {checked : CheckedOperands}
    (hchecked : Returns (checkOperands dir.signature attrs.conv ⟨.known dataDims, dataDtype⟩
      ⟨.known kernelDims, kernelDtype⟩) checked)
    {r : Except Diagnostic (Char → SymExpr)}
    (h : HasOutcome (dir.sizes attrs (canonicalSize checked.dataLayout.src dataDims)
      (canonicalSize checked.kernelLayout.src kernelDims)) r) :
    HasOutcome (Registry.builtins.infer (dir.call data kernel attrs))
      (r.map fun size => .tensor ⟨.known (checked.outLayout.src.shapeOf size), checked.dtype⟩) := by
  obtain ⟨finish, hrule, _, hfinish⟩ := rule_eq_bind dir attrs
  rw [Direction.call, infer_direction, hrule rfl, resolveOperands_eq_bind, bind_assoc]
  apply (hasOutcome_tensorOperands_inferAll hdata hkernel).bind_ok
  rw [bind_assoc]
  apply ((addsEvents_checkOperands _ _).hasOutcome_of_returns hchecked).bind_ok
  rw [resolveShapes_eq dir.isLetters_canonicalKernel hchecked, pure_bind]
  change HasOutcome (finish (.known _ _ _ _)) _
  rw [hfinish]
  cases r with
  | error d => exact h.bind_error _
  | ok size =>
    apply h.bind_ok
    obtain ⟨_, _, hout, _⟩ := returns_checkOperands hchecked
    obtain ⟨batch, channels, height, width, rfl⟩ := exists_eq_resultSize h.returns
    rw [outputInfo, backward_canonicalData hout fun _ => resultSize_eq_one]
    apply hasOutcome_pure

theorem hasOutcome_infer_of_checkOperands_error {d : Diagnostic}
    (h : HasOutcome (checkOperands dir.signature attrs.conv ⟨.known dataDims, dataDtype⟩
      ⟨.known kernelDims, kernelDtype⟩) (.error d)) :
    HasOutcome (Registry.builtins.infer (dir.call data kernel attrs)) (.error d) := by
  rw [Direction.call, infer_direction]
  exact hasOutcome_rule_of_checkOperands_error rfl
    (hasOutcome_tensorOperands_inferAll hdata hkernel) h

variable {dataLayout kernelLayout : Layout}
  (hdataLayout : Layout.parse attrs.conv.dataLayout = .ok dataLayout)
  (hkernelLayout : Layout.parse attrs.conv.kernelLayout = .ok kernelLayout)
include hdataLayout hkernelLayout

theorem hasOutcome_infer_of_accepts
    (h : dir.Accepts attrs ⟨.known dataDims, dataDtype⟩ ⟨.known kernelDims, kernelDtype⟩
      (canonicalSize dataLayout dataDims) (canonicalSize kernelLayout kernelDims)) :
    (∃ size info, Returns (dir.sizes attrs (canonicalSize dataLayout dataDims)
        (canonicalSize kernelLayout kernelDims)) size ∧
      HasOutcome (Registry.builtins.infer (dir.call data kernel attrs)) (.ok info)) ∨
    ∃ c ∈ dir.computedAxes,
      (dir.sizeExpr attrs (canonicalSize dataLayout dataDims)
        (canonicalSize kernelLayout kernelDims) c).checkedSimplify? = none ∧
      HasOutcome (Registry.builtins.infer (dir.call data kernel attrs))
        (.error (dir.overflow (sizeName c))) := by
  obtain ⟨checked, hchecked⟩ := h.operands
  obtain ⟨hdataSrc, hkernelSrc, _⟩ := returns_checkOperands hchecked
  cases hdataLayout.symm.trans (layoutConversion_eq_ok hdataSrc).1
  cases hkernelLayout.symm.trans (layoutConversion_eq_ok hkernelSrc).1
  have hinfer {r} := hasOutcome_infer_of_checkOperands (r := r) hdata hkernel hchecked
  rcases hasOutcome_sizes_of_checks h.checks with ⟨size, hsize⟩ | ⟨c, hc, hnone, herror⟩
  · exact .inl ⟨size, _, hsize.returns, hinfer hsize⟩
  · exact .inr ⟨c, hc, hnone, hinfer herror⟩

theorem kind_of_fails_infer {d : Diagnostic}
    (h : ¬ dir.Accepts attrs ⟨.known dataDims, dataDtype⟩ ⟨.known kernelDims, kernelDtype⟩
      (canonicalSize dataLayout dataDims) (canonicalSize kernelLayout kernelDims))
    (hd : Fails (Registry.builtins.infer (dir.call data kernel attrs)) d) :
    d.kind ≠ .shapeOverflow := by
  have hne {kinds : List DiagnosticKind} (hkinds : .shapeOverflow ∉ kinds) (hmem : d.kind ∈ kinds) :
      d.kind ≠ .shapeOverflow := by
    intro heq
    exact hkinds (heq ▸ hmem)
  have hadds : AddsEvents (checkOperands dir.signature attrs.conv ⟨.known dataDims, dataDtype⟩
      ⟨.known kernelDims, kernelDtype⟩) := addsEvents_checkOperands _ _
  obtain ⟨r, hr⟩ := hadds.exists_hasOutcome
  cases r with
  | error d' =>
    cases (hasOutcome_infer_of_checkOperands_error hdata hkernel hr).eq_error hd
    exact hne (by decide) (failsOnlyWith_checkOperands _ _ _ _ d hr.fails)
  | ok checked =>
    have hchecked := hr.returns
    obtain ⟨hdataSrc, hkernelSrc, _⟩ := returns_checkOperands hchecked
    cases hdataLayout.symm.trans (layoutConversion_eq_ok hdataSrc).1
    cases hkernelLayout.symm.trans (layoutConversion_eq_ok hkernelSrc).1
    obtain ⟨size, hsize⟩ := (addsEvents_sizes dir attrs
      (canonicalSize checked.dataLayout.src dataDims)
      (canonicalSize checked.kernelLayout.src kernelDims)).exists_hasOutcome
    have hinfer := (hasOutcome_infer_of_checkOperands hdata hkernel hchecked hsize).eq_error hd
    cases size with
    | ok size => cases hinfer
    | error d' =>
      cases hinfer
      refine hne (by decide) (kind_of_fails_sizes hsize.fails ?_)
      exact fun hchecks => h ⟨⟨checked, hchecked⟩, hchecks⟩

end Calls

/--
Where all dimensions of the operands are literals, so are those of the result, but for the axes that
are taken over from an operand: these are literals where their size fits, or where the layout of the
result splits them by the size of one of their parts. An accepted call is answered with the report
of an overflow if a size that is computed does not fit, and fails for no other reason.
-/
theorem infer_literal_dims {dir : Direction} {data kernel : Expr} {params : Conv2dTransposeParams}
    {call : Call} {dataDims kernelDims : List Int64} {dataDtype kernelDtype : DataType}
    (hcall : Returns (dir.construct data kernel params) call)
    (hdata : Returns (Registry.builtins.inferExpr data)
      (some (.tensor ⟨.known (dataDims.map .lit), dataDtype⟩)))
    (hkernel : Returns (Registry.builtins.inferExpr kernel)
      (some (.tensor ⟨.known (kernelDims.map .lit), kernelDtype⟩))) :
    (∀ info, Returns (Registry.builtins.infer call) info →
      ∃ dataLayout kernelLayout outLayout dims dtype,
        Layout.parse params.conv.dataLayout = .ok dataLayout ∧
        Layout.parse params.conv.kernelLayout = .ok kernelLayout ∧
        Layout.parse (params.conv.outLayout.getD params.conv.dataLayout) = .ok outLayout ∧
        info = .tensor ⟨.known dims, dtype⟩ ∧
        ((∀ d ∈ dims, ∃ a, d = lit a) ↔
          dataLayout.Resolves dataDims 'N' outLayout 'N' ∧
          (dir = .forward → kernelLayout.Resolves kernelDims 'O' outLayout 'C'))) ∧
    ∃ attrs, call.attrs = some (dir.record attrs) ∧ ∀ dataLayout kernelLayout,
      Layout.parse params.conv.dataLayout = .ok dataLayout →
      Layout.parse params.conv.kernelLayout = .ok kernelLayout →
        let dataSize := canonicalSize dataLayout (dataDims.map lit)
        let kernelSize := canonicalSize kernelLayout (kernelDims.map lit)
        let accepted := dir.Accepts attrs ⟨.known (dataDims.map lit), dataDtype⟩
          ⟨.known (kernelDims.map lit), kernelDtype⟩ dataSize kernelSize
        (accepted → ∀ c ∈ dir.computedAxes,
          ¬ Fits (dir.exactSize attrs (dataLayout.primalSize (dataDims.map Int64.toInt))
            (kernelLayout.primalSize (kernelDims.map Int64.toInt)) c) →
          ∃ c' ∈ dir.computedAxes,
            HasOutcome (Registry.builtins.infer call) (.error (dir.overflow (sizeName c')))) ∧
        ∀ d, Fails (Registry.builtins.infer call) d →
          (accepted ∧ ∃ c ∈ dir.computedAxes, d = dir.overflow (sizeName c) ∧
            (dir.sizeExpr attrs dataSize kernelSize c).checkedSimplify? = none) ∨
          ¬ accepted ∧ d.kind ≠ .shapeOverflow := by
  obtain ⟨attrs, hattrs, rfl⟩ := returns_construct hcall
  constructor
  · intro info hinfer
    obtain ⟨dataLayout, kernelLayout, out, dtype, size, hdataLayout, hkernelLayout, hout, hsizes,
      rfl⟩ := returns_infer hdata hkernel hinfer
    refine ⟨dataLayout, kernelLayout, out.src, _, dtype, ?_, ?_, ?_, rfl, ?_⟩
    · rw [← hattrs.dataLayout]
      exact hdataLayout
    · rw [← hattrs.kernelLayout]
      exact hkernelLayout
    · rw [← hattrs.outLayout]
      exact (layoutConversion_eq_ok hout).1
    · exact forall_shapeOf_resultSize_iff hout hattrs.strides_pos
        (Layout.allWellFormed_of_parse hdataLayout) (Layout.allWellFormed_of_parse hkernelLayout)
        hsizes
  · refine ⟨attrs, rfl, ?_⟩
    intro dataLayout kernelLayout hdataLayout hkernelLayout dataSize kernelSize accepted
    have hdataAxes := Layout.allWellFormed_of_parse hdataLayout
    have hkernelAxes := Layout.allWellFormed_of_parse hkernelLayout
    rw [← hattrs.dataLayout] at hdataLayout
    rw [← hattrs.kernelLayout] at hkernelLayout
    constructor
    · intro haccepted c hc hfits
      rcases hasOutcome_infer_of_accepts hdata hkernel hdataLayout hkernelLayout haccepted with
        ⟨size, _, hsize, _⟩ | ⟨c', hc', _, hinfer⟩
      · obtain ⟨s, hs⟩ := checkedSimplify?_of_returns_sizes hsize hc
        exact absurd (fits_of_checkedSimplify? hattrs.strides_pos hdataAxes hkernelAxes hc hs) hfits
      · exact ⟨c', hc', hinfer⟩
    · intro d hd
      by_cases haccepted : accepted
      · left
        rcases hasOutcome_infer_of_accepts hdata hkernel hdataLayout hkernelLayout haccepted with
          ⟨_, info, _, hinfer⟩ | ⟨c, hc, hnone, hinfer⟩
        · cases hinfer.eq_error hd
        · cases hinfer.eq_error hd
          exact ⟨haccepted, c, hc, rfl, hnone⟩
      · right
        exact ⟨haccepted,
          kind_of_fails_infer hdata hkernel hdataLayout hkernelLayout haccepted hd⟩

theorem infer_literal_dims_split :
    let dataDims : List Int64 := [4611686018427387904, 3, 8, 8, 2]
    let kernelDims : List Int64 := [2, 3, 3, 3]
    let data := Expr.var "x" (some (.tensor ⟨.known (dataDims.map .lit), .void⟩))
    let kernel := Expr.var "w" (some (.tensor ⟨.known (kernelDims.map .lit), .void⟩))
    (∃ call dims dtype,
      Returns (Direction.construct .forward data kernel { conv := { dataLayout := "NCHW2n" } })
        call ∧
      Returns (Registry.builtins.infer call) (.tensor ⟨.known dims, dtype⟩) ∧
      ∀ d ∈ dims, ∃ a, d = lit a) ∧
    ∃ call, Returns (Direction.construct .transpose data kernel
        { conv := { dataLayout := "HCWN2h", kernelLayout := "OIHW" } }) call ∧
      ∃ c ∈ Direction.transpose.computedAxes, HasOutcome (Registry.builtins.infer call)
        (.error (Direction.transpose.overflow (sizeName c))) := by
  intro dataDims kernelDims data kernel
  have hplain : Layout.parse "OIHW" = .ok
      ⟨"OIHW", [.primal 'O', .primal 'I', .primal 'H', .primal 'W']⟩ := rfl
  constructor
  -- The batch leaves the range, but stays in blocks of two.
  · let attrs : Conv2dAttrs :=
      ⟨⟨1, 1⟩, ⟨0, 0, 0, 0⟩, ⟨1, 1⟩, 1, "NCHW2n", "OIHW", "NCHW2n", .void⟩
    let call : Call := ⟨.op Conv2dAttrs.opName, [data, kernel], some (.conv2d attrs), []⟩
    have hcall : Returns (Direction.construct .forward data kernel
        { conv := { dataLayout := "NCHW2n" } }) call := ⟨[], _, rfl⟩
    have hok : ((Registry.builtins.infer call).run.run []).1.isOk = true := by
      decide +kernel
    obtain ⟨info, hinfo⟩ := exists_returns hok
    obtain ⟨dataLayout, kernelLayout, outLayout, dims, dtype, hdata, hkernel, hout, rfl, hlits⟩ :=
      (infer_literal_dims hcall ⟨[], _, rfl⟩ ⟨[], _, rfl⟩).1 info hinfo
    have hblocks : Layout.parse "NCHW2n" = .ok
        ⟨"NCHW2n", [.primal 'N', .primal 'C', .primal 'H', .primal 'W', .inner 'N' 2]⟩ := rfl
    change Layout.parse "NCHW2n" = .ok outLayout at hout
    rw [hblocks, Except.ok.injEq] at hdata hout
    rw [hplain, Except.ok.injEq] at hkernel
    subst hdata hkernel hout
    refine ⟨call, dims, dtype, hcall, hinfo, hlits.2 ⟨.inr ⟨2, ?_, .inner 'N' 2, ?_, rfl⟩, ?_⟩⟩
    · decide
    · decide
    · exact fun _ => .inl ⟨2, by decide +kernel⟩
  -- In the other layout it is the height that leaves the range.
  · let attrs : Conv2dTransposeAttrs :=
      ⟨⟨⟨1, 1⟩, ⟨0, 0, 0, 0⟩, ⟨1, 1⟩, 1, "HCWN2h", "OIHW", "HCWN2h", .void⟩, ⟨0, 0⟩⟩
    let call := Direction.transpose.call data kernel attrs
    have hcall : Returns (Direction.construct .transpose data kernel
        { conv := { dataLayout := "HCWN2h", kernelLayout := "OIHW" } }) call := ⟨[], _, rfl⟩
    let dataLayout : Layout :=
      ⟨"HCWN2h", [.primal 'H', .primal 'C', .primal 'W', .primal 'N', .inner 'H' 2]⟩
    let kernelLayout : Layout := ⟨"OIHW", [.primal 'O', .primal 'I', .primal 'H', .primal 'W']⟩
    obtain ⟨attrs', hattrs, hinfer⟩ := (infer_literal_dims hcall ⟨[], _, rfl⟩ ⟨[], _, rfl⟩).2
    obtain rfl : attrs' = attrs := (Attrs.conv2dTranspose.inj (Option.some.inj hattrs)).symm
    obtain ⟨checked, hchecked⟩ : ∃ checked, Returns (checkOperands transposeSignature attrs.conv
        ⟨.known (dataDims.map lit), .void⟩ ⟨.known (kernelDims.map lit), .void⟩) checked :=
      exists_returns (by decide +kernel)
    obtain ⟨_, hchecks⟩ : ∃ u, Returns (Direction.transpose.checks attrs
        (canonicalSize dataLayout (dataDims.map lit))
        (canonicalSize kernelLayout (kernelDims.map lit))) u :=
      exists_returns (by decide +kernel)
    refine ⟨call, hcall, (hinfer dataLayout kernelLayout rfl rfl).1 ⟨⟨checked, hchecked⟩, hchecks⟩
      'H' (by decide) ?_⟩
    rintro ⟨a, ha⟩
    have hlt := a.toInt_lt
    rw [ha] at hlt
    revert hlt
    decide +kernel

theorem infer_conv2d_returns_overflowing_batch :
    let dataDims : List Int64 := [4611686018427387904, 3, 8, 8, 2]
    let kernelDims : List Int64 := [2, 3, 3, 3]
    let data := Expr.var "x" (some (.tensor ⟨.known (dataDims.map .lit), .void⟩))
    let kernel := Expr.var "w" (some (.tensor ⟨.known (kernelDims.map .lit), .void⟩))
    ∃ call dims dtype,
      Returns (conv2d data kernel { dataLayout := "NCHW2n", outLayout := "NCHW" }) call ∧
      Returns (Registry.builtins.infer call) (.tensor ⟨.known dims, dtype⟩) ∧
      ∃ d ∈ dims, ∀ a, d ≠ lit a := by
  intro dataDims kernelDims data kernel
  -- The two parts of the batch are multiplied, and the layout of the result does not split it.
  let attrs : Conv2dTransposeAttrs :=
    ⟨⟨⟨1, 1⟩, ⟨0, 0, 0, 0⟩, ⟨1, 1⟩, 1, "NCHW2n", "OIHW", "NCHW", .void⟩, ⟨0, 0⟩⟩
  let call := Direction.forward.call data kernel attrs
  have hdata : Returns (Registry.builtins.inferExpr data)
      (some (.tensor ⟨.known (dataDims.map .lit), .void⟩)) := ⟨[], _, rfl⟩
  have hkernel : Returns (Registry.builtins.inferExpr kernel)
      (some (.tensor ⟨.known (kernelDims.map .lit), .void⟩)) := ⟨[], _, rfl⟩
  have hok : ((Registry.builtins.infer call).run.run []).1.isOk = true := by
    decide +kernel
  obtain ⟨info, hinfo⟩ := exists_returns hok
  have hstrides (axis : SpatialAxis) : 1 ≤ attrs.conv.strides.get axis := by
    cases axis <;> decide
  obtain ⟨dataLayout, kernelLayout, out, dtype, size, hdataLayout, hkernelLayout, hout, hsizes,
    rfl⟩ := returns_infer hdata hkernel hinfo
  have hlits := forall_shapeOf_resultSize_iff hout hstrides
    (Layout.allWellFormed_of_parse hdataLayout) (Layout.allWellFormed_of_parse hkernelLayout) hsizes
  have hblocks : Layout.parse "NCHW2n" = .ok
      ⟨"NCHW2n", [.primal 'N', .primal 'C', .primal 'H', .primal 'W', .inner 'N' 2]⟩ := rfl
  have hsrc : Layout.parse canonicalData = .ok out.src := (layoutConversion_eq_ok hout).1
  change Layout.parse "NCHW2n" = .ok dataLayout at hdataLayout
  rw [hblocks, Except.ok.injEq] at hdataLayout
  rw [isLetters_canonicalData.parse_eq, Except.ok.injEq] at hsrc
  have hbatch : ¬ dataLayout.Resolves dataDims 'N' out.src 'N' := by
    intro hresolves
    rcases hresolves with ⟨a, ha⟩ | ⟨f, hf, _⟩
    · have hlt := a.toInt_lt
      rw [ha, ← hdataLayout] at hlt
      revert hlt
      decide +kernel
    · rw [← hsrc] at hf
      cases Layout.unsplit_ofLetters canonicalData _ hf
  have hsome : ¬ ∀ d ∈ out.src.shapeOf size, ∃ a, d = lit a := fun h => hbatch (hlits.1 h).1
  simp only [not_forall, not_exists] at hsome
  obtain ⟨d, hd, hlit⟩ := hsome
  exact ⟨call, _, dtype, ⟨[], _, rfl⟩, hinfo, d, hd, hlit⟩

end TensorIR.Conv2d
