import TensorIR.Proofs.Conv2d.Stages
import TensorIR.Proofs.SymExpr.SizeDifference

/-!
The checks of channels and groups, for layouts without sub-axes. Symbols are trusted: a call is
rejected only if no sizes of the symbols make it fit. Literals are checked: a call that does not fit
is rejected, but for products that leave the range, which pass for the largest literal.
-/

namespace TensorIR.Conv2d

open SymExpr (IsSize ValuesAt)

section CanonicalSize

variable {layout : Layout} {dims : List SymExpr} {c : Char}

theorem canonicalSize_eq (hlayout : Axis.AllWellFormed layout.axes) (hunsplit : layout.Unsplit)
    (hdims : ∀ d ∈ dims, d.IsSize) (hc : c.isUpper = true) :
    (canonicalSize layout dims c).IsSize ∧
      (canonicalSize layout dims c ∈ dims ∨ canonicalSize layout dims c = .lit 1) := by
  have hone : (SymExpr.lit 1).IsSize := .lit (by decide)
  rw [canonicalSize, Layout.logicalSize_of_unsplit hlayout hunsplit hc]
  cases hdim : layout.dim? dims c with
  | none =>
    rw [Option.getD_none, hone.isTerm.simplify_eq]
    exact ⟨hone, .inr rfl⟩
  | some d =>
    rw [Layout.dim?, Option.bind_eq_some_iff] at hdim
    obtain ⟨i, _, hi⟩ := hdim
    have hmem := List.mem_of_getElem? hi
    rw [Option.getD_some, (hdims d hmem).isTerm.simplify_eq]
    exact ⟨hdims d hmem, .inl hmem⟩

theorem eval?_canonicalSize (hlayout : Axis.AllWellFormed layout.axes) (hc : c.isUpper = true)
    {σ : Assignment} {sizes : List Int} (hsizes : ValuesAt σ dims sizes) :
    (canonicalSize layout dims c).eval? σ = some (layout.primalSize sizes c) :=
  SymExpr.eval?_simplify (Layout.eval?_logicalSize hlayout hc hsizes)

end CanonicalSize

/-- The channels of data and kernel fit each other. -/
def Direction.ChannelsAgree (dir : Direction) (groups : Int) (data kernel : Char → Int) : Prop :=
  match dir with
  | .forward => data 'C' = kernel 'I' * groups
  | .transpose => data 'C' = kernel 'I'

section Checks

variable {dir : Direction} {attrs : Conv2dAttrs} {data kernel : Char → SymExpr}

theorem toInt_groups (attrs : Conv2dAttrs) : attrs.groups.toInt64.toInt = attrs.groups.toInt :=
  Int32.toInt_toInt64 attrs.groups

theorem toInt64_groups_pos (h : 0 < attrs.groups) : 0 < attrs.groups.toInt64 := by
  rw [Int32.lt_iff_toInt_lt, Int32.toInt_zero] at h
  rwa [Int64.lt_iff_toInt_lt, Int64.toInt_zero, toInt_groups]

theorem toInt64_groups_nonneg (h : 0 < attrs.groups) : 0 ≤ attrs.groups.toInt64 := by
  have hpos := toInt64_groups_pos h
  rw [Int64.lt_iff_toInt_lt] at hpos
  rw [Int64.le_iff_toInt_le]
  omega

variable {σ : Assignment} (hgroups : 0 < attrs.groups) (hσ : ∀ name, 0 ≤ σ name)
include hgroups hσ

theorem channelsDiffer_ne_holds {d k : Char → Int} (hdata : (data 'C').IsSize)
    (hkernel : (kernel 'I').IsSize) (hd : (data 'C').eval? σ = some (d 'C'))
    (hk : (kernel 'I').eval? σ = some (k 'I'))
    (hagree : dir.ChannelsAgree attrs.groups.toInt d k) :
    (dir.channelsDiffer attrs data kernel).prove ≠ .holds := by
  cases dir with
  | forward =>
    change d 'C' = k 'I' * attrs.groups.toInt at hagree
    rw [hagree, ← toInt_groups] at hd
    rw [Direction.channelsDiffer, ne_eq, Predicate.prove_ne_eq_holds_iff, not_not]
    exact SymExpr.encloses_differenceBounds_mul hσ hdata hkernel (toInt64_groups_nonneg hgroups)
      hd hk
  | transpose =>
    change d 'C' = k 'I' at hagree
    rw [hagree] at hd
    rw [Direction.channelsDiffer, ne_eq, Predicate.prove_ne_eq_holds_iff, not_not]
    exact SymExpr.encloses_differenceBounds_sizes hσ hdata hkernel hd hk

omit hσ in
theorem groupsUneven_ne_holds {k : Int} (hkernel : (kernel dir.grouped).IsSize)
    (hk : (kernel dir.grouped).eval? σ = some k) (hdvd : attrs.groups.toInt ∣ k) :
    (dir.groupsUneven attrs kernel).prove ≠ .holds := by
  rw [← toInt_groups] at hdvd
  rw [Direction.groupsUneven, ne_eq, Predicate.prove_ne_eq_holds_iff, not_not]
  exact SymExpr.encloses_differenceBounds_mod (toInt64_groups_pos hgroups) hkernel hk hdvd

end Checks

/--
Inference does not find fault with channels or groups that some sizes of the symbols make fit.
-/
theorem infer_trusts_symbols {dir : Direction} {data kernel : Expr}
    {params : Conv2dTransposeParams} {call : Call} {dataDims kernelDims : List SymExpr}
    {dataDtype kernelDtype : DataType} {dataLayout kernelLayout : Layout}
    (hcall : Returns (dir.construct data kernel params) call)
    (hdata : Returns (Registry.builtins.inferExpr data)
      (some (.tensor ⟨.known dataDims, dataDtype⟩)))
    (hkernel : Returns (Registry.builtins.inferExpr kernel)
      (some (.tensor ⟨.known kernelDims, kernelDtype⟩)))
    (hdataLayout : Layout.parse params.conv.dataLayout = .ok dataLayout)
    (hkernelLayout : Layout.parse params.conv.kernelLayout = .ok kernelLayout)
    (hdataUnsplit : dataLayout.Unsplit) (hkernelUnsplit : kernelLayout.Unsplit)
    (hdataDims : ∀ d ∈ dataDims, d.IsSize) (hkernelDims : ∀ d ∈ kernelDims, d.IsSize)
    {σ : Assignment} (hσ : ∀ name, 0 ≤ σ name) {dataSizes kernelSizes : List Int}
    (hdataSizes : ValuesAt σ dataDims dataSizes)
    (hkernelSizes : ValuesAt σ kernelDims kernelSizes) :
    (dir.ChannelsAgree params.conv.groups.toInt (dataLayout.primalSize dataSizes)
        (kernelLayout.primalSize kernelSizes) →
      ∀ d, Fails (Registry.builtins.infer call) d → d.kind ≠ .channelMismatch) ∧
    (params.conv.groups.toInt ∣ kernelLayout.primalSize kernelSizes dir.grouped →
      ∀ d, Fails (Registry.builtins.infer call) d → d.kind ≠ .groupDivisibility) := by
  obtain ⟨attrs, hattrs, rfl⟩ := returns_construct hcall
  rw [← hattrs.dataLayout] at hdataLayout
  rw [← hattrs.kernelLayout] at hkernelLayout
  rw [← hattrs.groups]
  have hdataAxes := Layout.allWellFormed_of_parse hdataLayout
  have hkernelAxes := Layout.allWellFormed_of_parse hkernelLayout
  have hstages (d : Diagnostic)
      (h : Fails (Registry.builtins.infer (dir.call data kernel attrs)) d) :=
    fails_sizes_of_infer hdata hkernel hdataLayout hkernelLayout h
  constructor
  · intro hagree d hd hkind
    rcases hstages d hd with h | h
    · rw [hkind] at h
      exact absurd h (by decide)
    · have hsizes := canonicalSize_eq hdataAxes hdataUnsplit hdataDims (c := 'C') (by decide)
      have hsizes' := canonicalSize_eq hkernelAxes hkernelUnsplit hkernelDims (c := 'I') (by decide)
      have hd := eval?_canonicalSize hdataAxes (c := 'C') (by decide) hdataSizes
      have hk := eval?_canonicalSize hkernelAxes (c := 'I') (by decide) hkernelSizes
      exact channelsDiffer_ne_holds hattrs.groups_pos hσ hsizes.1 hsizes'.1 hd hk hagree
        ((fails_sizes h).1 hkind)
  · intro hdvd d hd hkind
    have hgrouped : dir.grouped.isUpper = true := by
      cases dir <;> decide
    rcases hstages d hd with h | h
    · rw [hkind] at h
      exact absurd h (by decide)
    · have hsize := (canonicalSize_eq hkernelAxes hkernelUnsplit hkernelDims hgrouped).1
      have hvalue := eval?_canonicalSize hkernelAxes hgrouped hkernelSizes
      exact groupsUneven_ne_holds hattrs.groups_pos hsize hvalue hdvd ((fails_sizes h).2 hkind)

theorem infer_trusts_symbols_groups :
    let data := Expr.var "x" (some (.tensor
      ⟨.known [.size "n", .size "c", .lit 8, .lit 8], .void⟩))
    let kernel := Expr.var "w" (some (.tensor
      ⟨.known [.size "o", .lit 3, .size "k", .size "k"], .void⟩))
    let params : Conv2dTransposeParams := { conv := { groups := 2 } }
    ∃ call, Returns (Direction.construct .forward data kernel params) call ∧
      ∀ d, Fails (Registry.builtins.infer call) d →
        d.kind ≠ .channelMismatch ∧ d.kind ≠ .groupDivisibility := by
  -- Six channels in two groups fit, and so do two output channels.
  intro data kernel params
  let attrs : Conv2dAttrs :=
    ⟨⟨1, 1⟩, ⟨0, 0, 0, 0⟩, ⟨1, 1⟩, 2, "NCHW", "OIHW", "NCHW", .void⟩
  let call : Call := ⟨.op Conv2dAttrs.opName, [data, kernel], some (.conv2d attrs), []⟩
  let σ : Assignment := fun name => if name = "c" then 6 else 2
  have hcall : Returns (Direction.construct .forward data kernel params) call := ⟨[], _, rfl⟩
  have hσ (name : String) : 0 ≤ σ name := by
    change 0 ≤ if name = "c" then 6 else 2
    split <;> decide
  obtain ⟨hchannels, hgroups⟩ := infer_trusts_symbols hcall ⟨[], _, rfl⟩ ⟨[], _, rfl⟩
    isLetters_canonicalData.parse_eq Direction.forward.isLetters_canonicalKernel.parse_eq
    (Layout.unsplit_ofLetters _) (Layout.unsplit_ofLetters _)
    (by simp [SymExpr.size, SymExpr.IsSize.sym, SymExpr.IsSize.lit])
    (by simp [SymExpr.size, SymExpr.IsSize.sym, SymExpr.IsSize.lit]) hσ
    (.cons rfl (.cons rfl (.cons rfl (.cons rfl .nil))))
    (.cons rfl (.cons rfl (.cons rfl (.cons rfl .nil))))
  refine ⟨call, hcall, ?_⟩
  intro d hd
  constructor
  · refine hchannels ?_ d hd
    unfold Direction.ChannelsAgree
    decide +kernel
  · exact hgroups (by decide +kernel) d hd

section Literals

variable {dims : List Int64} {layout : Layout}

theorem isSize_of_mem_lits (hdims : ∀ a ∈ dims, 0 ≤ a) : ∀ d ∈ dims.map SymExpr.lit, d.IsSize := by
  rw [List.forall_mem_map]
  intro a ha
  exact .lit (hdims a ha)

theorem valuesAt_lits (σ : Assignment) (dims : List Int64) :
    ValuesAt σ (dims.map .lit) (dims.map Int64.toInt) := by
  unfold ValuesAt
  rw [List.forall₂_map_left_iff, List.forall₂_map_right_iff, List.forall₂_same]
  exact fun _ _ => rfl

theorem exists_canonicalSize_eq_lit (hlayout : Axis.AllWellFormed layout.axes)
    (hunsplit : layout.Unsplit) (hdims : ∀ a ∈ dims, 0 ≤ a) {c : Char} (hc : c.isUpper = true) :
    ∃ a, 0 ≤ a ∧ canonicalSize layout (dims.map .lit) c = .lit a ∧
      a.toInt = layout.primalSize (dims.map Int64.toInt) c := by
  obtain ⟨hsize, hmem⟩ := canonicalSize_eq hlayout hunsplit (isSize_of_mem_lits hdims) hc
  have hvalue := eval?_canonicalSize hlayout hc (valuesAt_lits (fun _ => 0) dims)
  generalize canonicalSize layout (dims.map .lit) c = size at hsize hmem hvalue
  cases hsize with
  | @lit a ha => exact ⟨a, ha, rfl, Option.some.inj hvalue⟩
  | sym _ => simp at hmem

end Literals

/--
Where all dimensions are literals, inference of a convolution succeeds only if the groups divide the
output channels, and only if the input channels agree. The second check misses one case: if their
product leaves the range, the data may have as many channels as the largest literal.
-/
theorem infer_conv2d_channels {data kernel : Expr} {params : Conv2dParams} {call : Call}
    {info : StructInfo} {dataDims kernelDims : List Int64} {dataDtype kernelDtype : DataType}
    {dataLayout kernelLayout : Layout} (hcall : Returns (conv2d data kernel params) call)
    (hdata : Returns (Registry.builtins.inferExpr data)
      (some (.tensor ⟨.known (dataDims.map .lit), dataDtype⟩)))
    (hkernel : Returns (Registry.builtins.inferExpr kernel)
      (some (.tensor ⟨.known (kernelDims.map .lit), kernelDtype⟩)))
    (hdataDims : ∀ a ∈ dataDims, 0 ≤ a) (hkernelDims : ∀ a ∈ kernelDims, 0 ≤ a)
    (hdataLayout : Layout.parse params.dataLayout = .ok dataLayout)
    (hkernelLayout : Layout.parse params.kernelLayout = .ok kernelLayout)
    (hdataUnsplit : dataLayout.Unsplit) (hkernelUnsplit : kernelLayout.Unsplit)
    (hinfer : Returns (Registry.builtins.infer call) info) :
    let channels := dataLayout.primalSize (dataDims.map Int64.toInt) 'C'
    let kernelSize := kernelLayout.primalSize (kernelDims.map Int64.toInt)
    params.groups.toInt ∣ kernelSize 'O' ∧
      (channels = kernelSize 'I' * params.groups.toInt ↔
        ¬ (channels = Int64.maxValue.toInt ∧
          Int64.maxValue.toInt < kernelSize 'I' * params.groups.toInt)) := by
  have hcall' : Returns (Direction.construct .forward data kernel { conv := params }) call := hcall
  obtain ⟨attrs, hattrs, rfl⟩ := returns_construct hcall'
  rw [← hattrs.dataLayout] at hdataLayout
  rw [← hattrs.kernelLayout] at hkernelLayout
  obtain ⟨_, hsizes⟩ := returns_sizes_of_infer hdata hkernel hdataLayout hkernelLayout hinfer
  have hdataAxes := Layout.allWellFormed_of_parse hdataLayout
  have hkernelAxes := Layout.allWellFormed_of_parse hkernelLayout
  obtain ⟨a, ha, hC, hchannels⟩ :=
    exists_canonicalSize_eq_lit hdataAxes hdataUnsplit hdataDims (c := 'C') (by decide)
  obtain ⟨b, hb, hI, hkernelIn⟩ :=
    exists_canonicalSize_eq_lit hkernelAxes hkernelUnsplit hkernelDims (c := 'I') (by decide)
  obtain ⟨o, ho, hO, hkernelOut⟩ :=
    exists_canonicalSize_eq_lit hkernelAxes hkernelUnsplit hkernelDims (c := 'O') (by decide)
  obtain ⟨hagree, hdivides, _⟩ := returns_sizes_forward hsizes
  rw [Direction.channelsDiffer, hC, hI, ne_eq, Predicate.prove_ne_eq_holds_iff, not_not] at hagree
  rw [Direction.groupsUneven, Direction.grouped, hO, ne_eq, Predicate.prove_ne_eq_holds_iff,
    not_not] at hdivides
  have hg := toInt64_groups_nonneg hattrs.groups_pos
  have hproduct := (SymExpr.encloses_differenceBounds_mul_lits_iff ha hb hg).1 hagree
  have hdvd := (SymExpr.encloses_differenceBounds_mod_lit_iff
    (toInt64_groups_pos hattrs.groups_pos) ho).1 hdivides
  rw [toInt_groups, hattrs.groups] at hproduct hdvd
  dsimp only at hproduct hdvd ⊢
  rw [← hchannels, ← hkernelIn, ← hkernelOut]
  refine ⟨hdvd, ?_⟩
  have hmax := a.toInt_le
  generalize b.toInt * params.groups.toInt = p at *
  omega

theorem infer_conv2d_channels_groups :
    let data := Expr.var "x" (some (.tensor
      ⟨.known ([1, 6, 8, 8].map SymExpr.lit), .void⟩))
    let kernel := Expr.var "w" (some (.tensor
      ⟨.known ([4, 3, 3, 3].map SymExpr.lit), .void⟩))
    ∃ call info, Returns (conv2d data kernel { groups := 2 }) call ∧
      Returns (Registry.builtins.infer call) info ∧ (2 : Int) ∣ 4 ∧ (6 : Int) = 3 * 2 := by
  intro data kernel
  let attrs : Conv2dAttrs :=
    ⟨⟨1, 1⟩, ⟨0, 0, 0, 0⟩, ⟨1, 1⟩, 2, "NCHW", "OIHW", "NCHW", .void⟩
  let call : Call := ⟨.op Conv2dAttrs.opName, [data, kernel], some (.conv2d attrs), []⟩
  have hcall : Returns (conv2d data kernel { groups := 2 }) call := ⟨[], _, rfl⟩
  have hok : ((Registry.builtins.infer call).run.run []).1.isOk = true := by
    decide +kernel
  obtain ⟨info, hinfo⟩ := exists_returns hok
  obtain ⟨hgroups, hchannels⟩ := infer_conv2d_channels hcall ⟨[], _, rfl⟩ ⟨[], _, rfl⟩
    (by simp) (by simp) isLetters_canonicalData.parse_eq
    Direction.forward.isLetters_canonicalKernel.parse_eq (Layout.unsplit_ofLetters _)
    (Layout.unsplit_ofLetters _) hinfo
  exact ⟨call, info, hcall, hinfo, hgroups, hchannels.2 (by decide +kernel)⟩

theorem infer_conv2d_accepts_overflowing_channels :
    let dataDims : List Int64 := [1, Int64.maxValue, 8, 8]
    let kernelDims : List Int64 := [2, Int64.maxValue, 3, 3]
    let data := Expr.var "x" (some (.tensor ⟨.known (dataDims.map .lit), .void⟩))
    let kernel := Expr.var "w" (some (.tensor ⟨.known (kernelDims.map .lit), .void⟩))
    ∃ call info, Returns (conv2d data kernel { groups := 2 }) call ∧
      Returns (Registry.builtins.infer call) info ∧
      (Layout.ofLetters "NCHW").primalSize (dataDims.map Int64.toInt) 'C' ≠
        (Layout.ofLetters "OIHW").primalSize (kernelDims.map Int64.toInt) 'I' * 2 := by
  -- The product of kernel channels and groups stops at the number of data channels.
  intro dataDims kernelDims data kernel
  let attrs : Conv2dAttrs :=
    ⟨⟨1, 1⟩, ⟨0, 0, 0, 0⟩, ⟨1, 1⟩, 2, "NCHW", "OIHW", "NCHW", .void⟩
  let call : Call := ⟨.op Conv2dAttrs.opName, [data, kernel], some (.conv2d attrs), []⟩
  have hok : ((Registry.builtins.infer call).run.run []).1.isOk = true := by
    decide +kernel
  obtain ⟨info, hinfo⟩ := exists_returns hok
  exact ⟨call, info, ⟨[], _, rfl⟩, hinfo, by decide +kernel⟩

end TensorIR.Conv2d
