import TensorIR.Proofs.Conv2d.RankOnly
import TensorIR.Proofs.SymExpr.Steps

/-!
Inference step by step. Dimensions and attributes are read by position, and literals are combined
without a look at the result; a step that is not possible stops the inference, and so does a
conversion of shapes that fails once layouts and ranks have been checked. The rules of the two
convolutions never stop, whatever the attributes, if the inference of the operands does not.
-/

namespace TensorIR

/-- Inference that may also stop, without a result. -/
abbrev Stepwise := ExceptT Diagnostic (StateT (List Event) Option)

namespace Stepwise

variable {α β : Type}

/-- A step that stops where it has no result. -/
def step (x : Option α) : Stepwise α :=
  ExceptT.lift (StateT.lift x)

/-- Inference that does not stop. -/
def runs (x : Infer α) : Stepwise α :=
  ExceptT.mk fun log => some (x.run.run log)

theorem step_some (a : α) : step (some a) = pure a :=
  rfl

theorem runs_pure (a : α) : runs (pure a) = pure a :=
  rfl

theorem runs_throw (d : Diagnostic) : runs (throw d : Infer α) = throw d :=
  rfl

/-- The second part runs if it does on what the first one returns. -/
theorem runs_bind {x : Infer α} {f : α → Stepwise β} {g : α → Infer β}
    (h : ∀ a, Returns x a → f a = runs (g a)) : runs x >>= f = runs (x >>= g) := by
  apply ExceptT.ext
  apply StateT.ext
  intro log
  have hruns {γ : Type} (y : Infer γ) : (runs y).run.run log = some (y.run.run log) := rfl
  rw [ExceptT.run_bind, StateT.run_bind, hruns, hruns, run_bind, Option.bind_eq_bind,
    Option.bind_some]
  cases hx : x.run.run log with
  | mk result log' =>
    cases result with
    | ok a => exact congrArg (fun y => y.run.run log') (h a ⟨log, log', hx⟩)
    | error d => rfl

end Stepwise

open Stepwise

namespace Layout

def dimSteps? (layout : Layout) (shape : List SymExpr) (name : Char) : Option (Option SymExpr) :=
  match layout.indexOf? name with
  | some i => do return some (← shape[i]?)
  | none => some none

def logicalSizeSteps? (layout : Layout) (shape : List SymExpr) (letter : Char) :
    Option SymExpr := do
  let outer := (← layout.dimSteps? shape letter).getD (.lit 1)
  match ← layout.dimSteps? shape letter.toLower with
  | some inner => return .mul outer inner
  | none => return outer

def axisSizeSteps? (layout : Layout) (logical : Char → Option SymExpr) : Axis → Option SymExpr
  | .inner _ f => some (.lit f)
  | .primal c => do
    let size ← logical c
    match layout.factorOf? c with
    | some f => return .ceilDiv size (.lit f)
    | none => return size

def convertSteps? (src dst : Layout) (shape : List SymExpr) :
    Option (Except LayoutError (List SymExpr)) :=
  if shape.length = src.ndim then do
    return .ok (← dst.axes.mapM fun a => do
      (← dst.axisSizeSteps? (src.logicalSizeSteps? shape) a).simplifySteps?)
  else some (.error (.rankMismatch src.name src.ndim shape.length))

variable {src : Layout} {shape : List SymExpr}

theorem dimSteps?_eq_some (h : shape.length = src.ndim) (name : Char) :
    src.dimSteps? shape name = some (src.dim? shape name) := by
  unfold dimSteps? dim?
  cases hindex : src.indexOf? name with
  | none => rfl
  | some i =>
    have hi : i < shape.length := by
      rw [h]
      exact (List.findIdx?_eq_some_iff_getElem.1 hindex).1
    dsimp only
    rw [Option.bind_some, List.getElem?_eq_getElem hi]
    rfl

theorem logicalSizeSteps?_eq_some (h : shape.length = src.ndim) (letter : Char) :
    src.logicalSizeSteps? shape letter = some (src.logicalSize shape letter) := by
  unfold logicalSizeSteps? logicalSize
  rw [dimSteps?_eq_some h, dimSteps?_eq_some h]
  cases src.dim? shape letter.toLower with
  | none => rfl
  | some inner => rfl

theorem axisSizeSteps?_eq_some (dst : Layout) {logical : Char → Option SymExpr}
    {logical' : Char → SymExpr} (h : ∀ c, logical c = some (logical' c)) (a : Axis) :
    dst.axisSizeSteps? logical a = some (dst.axisSize logical' a) := by
  cases a with
  | inner c f => rfl
  | primal c =>
    rw [axisSizeSteps?, axisSize, h]
    cases dst.factorOf? c with
    | none => rfl
    | some f => rfl

theorem convertSteps?_eq_some (src dst : Layout) (shape : List SymExpr) :
    src.convertSteps? dst shape = some (src.convert dst shape) := by
  unfold convertSteps? convert
  split
  · next h =>
    have haxis (a : Axis) : (do
        (← dst.axisSizeSteps? (src.logicalSizeSteps? shape) a).simplifySteps?) =
        some (dst.axisSize (src.logicalSize shape) a).simplify := by
      rw [axisSizeSteps?_eq_some dst (logicalSizeSteps?_eq_some h)]
      exact SymExpr.simplifySteps?_eq_some _
    rw [mapM_eq_some_map fun a _ => haxis a]
    rfl
  · rfl

end Layout

/-- A call, and the stepwise inference of each of its operands. -/
structure StepwiseApplication where
  call : Call
  operands : List (Stepwise (Option StructInfo))

abbrev StepwiseRule := StepwiseApplication → Stepwise StructInfo

namespace Conv2d

section Rules

/-- A conversion of which layouts and rank have been checked. -/
def converted (src dst : Layout) (shape : List SymExpr) : Stepwise (List SymExpr) := do
  match ← step (src.convertSteps? dst shape) with
  | .ok dims => return dims
  | .error _ => step none

def tensorOperandsSteps (op : String) :
    List (Stepwise (Option StructInfo)) → Stepwise (TensorInfo × TensorInfo)
  | [data, kernel] => do
    let data ← runs (tensorOperand op 0 (pure (← data)))
    let kernel ← runs (tensorOperand op 1 (pure (← kernel)))
    return (data, kernel)
  | operands =>
    throw ⟨.invalidArguments, op, none,
      s!"expects 2 arguments, but {operands.length} were given"⟩

def resolveShapesSteps (data kernel : TensorShape) (checked : CheckedOperands) :
    Stepwise Operands :=
  match data, kernel with
  | .known dataDims, .known kernelDims => do
    let data ← converted checked.dataLayout.src checked.dataLayout.dst dataDims
    let kernel ← converted checked.kernelLayout.src checked.kernelLayout.dst kernelDims
    return .known data kernel checked.outLayout checked.dtype
  | _, _ => return .rankOnly checked.rankInfo

def resolveOperandsSteps (operands : List (Stepwise (Option StructInfo))) (sig : Signature)
    (attrs : Conv2dAttrs) : Stepwise Operands := do
  let (data, kernel) ← tensorOperandsSteps sig.op operands
  let checked ← runs (checkOperands sig attrs data kernel)
  resolveShapesSteps data.shape kernel.shape checked

/-- A check, once its violation has been tried step by step. -/
def checkSteps (violation : Predicate) (check : Infer Unit) : Stepwise Unit := do
  let _ ← step violation.proveSteps?
  runs check

def checkedSizeSteps (op what : String) (size : SymExpr) : Stepwise SymExpr := do
  let _ ← step size.checkedSimplifySteps?
  runs (checkedSize op what size)

def paddingTotalSteps? (attrs : Conv2dAttrs) (axis : Nat) : Option SymExpr := do
  return .lit (← attrs.padding.toList[axis]?) + .lit (← attrs.padding.toList[axis + 2]?)

def kernelReachSteps? (attrs : Conv2dAttrs) (axis : Nat) (kernel : SymExpr) : Option SymExpr := do
  return .lit (← attrs.dilation.toList[axis]?) * (kernel - .lit 1)

def outputSizeSteps? (attrs : Conv2dAttrs) (data kernel : List SymExpr) (axis : Nat) :
    Option SymExpr := do
  let input ← data[2 + axis]?
  let kernel ← kernel[2 + axis]?
  return (input + (← paddingTotalSteps? attrs axis) - (← kernelReachSteps? attrs axis kernel)
    - .lit 1) / .lit (← attrs.strides.toList[axis]?) + .lit 1

def transposedSizeSteps? (attrs : Conv2dTransposeAttrs) (data kernel : List SymExpr) (axis : Nat) :
    Option SymExpr := do
  let input ← data[2 + axis]?
  let kernel ← kernel[2 + axis]?
  return (input - .lit 1) * .lit (← attrs.conv.strides.toList[axis]?)
    - (← paddingTotalSteps? attrs.conv axis) + (← kernelReachSteps? attrs.conv axis kernel)
    + .lit (← attrs.outputPadding.toList[axis]?) + .lit 1

def tooLargeSteps? (attrs : Conv2dTransposeAttrs) (axis : Nat) : Option Predicate := do
  return .compare .ge (.lit (← attrs.outputPadding.toList[axis]?))
    (.lit (← attrs.conv.strides.toList[axis]?))

def spatialSizeSteps (op : String) (size : Nat → Option SymExpr) (axis : Nat) :
    Stepwise SymExpr := do
  checkedSizeSteps op (← step ["height", "width"][axis]?) (← step (size axis))

/-- The canonical shape of a result from the canonical shapes of data and kernel. -/
def Direction.sizesSteps (attrs : Conv2dTransposeAttrs) (data kernel : List SymExpr) :
    Direction → Stepwise (List SymExpr)
  | .forward => do
    let op := Conv2dAttrs.opName
    let dataChannels ← step data[1]?
    let inChannels ← step kernel[1]?
    let outChannels ← step kernel[0]?
    checkSteps (.compare .ne dataChannels (inChannels * groupsExpr attrs.conv))
      (checkChannels attrs.conv dataChannels inChannels)
    checkSteps (.compare .ne (outChannels % groupsExpr attrs.conv) (.lit 0))
      (checkGroups attrs.conv outChannels)
    let batch ← step data[0]?
    let height ← spatialSizeSteps op (outputSizeSteps? attrs.conv data kernel) 0
    let width ← spatialSizeSteps op (outputSizeSteps? attrs.conv data kernel) 1
    return [batch, outChannels, height, width]
  | .transpose => do
    let op := Conv2dTransposeAttrs.opName
    let dataChannels ← step data[1]?
    let inChannels ← step kernel[0]?
    checkSteps (.compare .ne dataChannels inChannels)
      (checkTransposeChannels dataChannels inChannels)
    checkSteps (.compare .ne (inChannels % groupsExpr attrs.conv) (.lit 0))
      (checkTransposeGroups attrs.conv inChannels)
    checkSteps (.or (← step (tooLargeSteps? attrs 0)) (← step (tooLargeSteps? attrs 1)))
      (checkOutputPadding attrs)
    let perGroup ← step kernel[1]?
    let channels ← checkedSizeSteps op "channel size" (perGroup * groupsExpr attrs.conv)
    let batch ← step data[0]?
    let height ← spatialSizeSteps op (transposedSizeSteps? attrs data kernel) 0
    let width ← spatialSizeSteps op (transposedSizeSteps? attrs data kernel) 1
    return [batch, channels, height, width]

def Direction.ruleSteps (dir : Direction) : StepwiseRule := fun app => do
  match dir.attrs? app.call.attrs with
  | some attrs =>
    match ← resolveOperandsSteps app.operands dir.signature attrs.conv with
    | .rankOnly info => return .tensor info
    | .known data kernel out dtype =>
      let shape ← dir.sizesSteps attrs data kernel
      return .tensor ⟨.known (← converted out.dst out.src shape), dtype⟩
  | none =>
    throw ⟨.missingAttrs, dir.signature.op, none, "expects attributes of type " ++ dir.typeKey⟩

end Rules

/-- What `dimension`, `canonicalShape` and `outputInfo` would report. -/
inductive ShapeFailure : Diagnostic → Prop where
  | dimension (op : String) (path : Option CallPath) (message : String) :
    ShapeFailure ⟨.missingDimension, op, path, message⟩
  | canonicalShape (op message : String) : ShapeFailure ⟨.rankMismatch, op, none, message⟩
  | outputInfo (op : String) (e : LayoutError) :
    ShapeFailure ⟨.invalidLayout, op, some (.attr "out_layout"), e.message⟩

theorem head?_toList_append {s : String} {c : Char} (h : s.toList.head? = some c) (t : String) :
    (s ++ t).toList.head? = some c := by
  rw [String.toList_append, List.head?_append, h]
  rfl

theorem head?_message_ne (e : LayoutError) : e.message.toList.head? ≠ some 'o' := by
  have hne (c : Char) (hc : c ≠ 'o') (hhead : e.message.toList.head? = some c) :
      e.message.toList.head? ≠ some 'o' := by
    rw [hhead]
    exact fun h => hc (Option.some.inj h)
  cases e with
  | empty => decide
  | invalidChar =>
    refine hne 'i' (by decide) ?_
    repeat apply head?_toList_append
    rfl
  | duplicateAxis =>
    refine hne 'a' (by decide) ?_
    repeat apply head?_toList_append
    rfl
  | missingFactor | danglingFactor | missingPrimal =>
    refine hne 's' (by decide) ?_
    repeat apply head?_toList_append
    rfl
  | incompatible =>
    refine hne 'l' (by decide) ?_
    repeat apply head?_toList_append
    rfl
  | rankMismatch =>
    refine hne 'e' (by decide) ?_
    repeat apply head?_toList_append
    rfl

theorem ShapeFailure.of_invalidLayout {d : Diagnostic} (h : ShapeFailure d)
    (hkind : d.kind = .invalidLayout) :
    d.path = some (.attr "out_layout") ∧ d.message.toList.head? ≠ some 'o' := by
  cases h with
  | dimension => cases hkind
  | canonicalShape => cases hkind
  | outputInfo op e => exact ⟨rfl, head?_message_ne e⟩

/-- Inference never fails for a canonical shape. -/
def NoShapeFailure {α : Type} (x : Infer α) : Prop :=
  ∀ d, Fails x d → ¬ ShapeFailure d

/-- The steps never stop: they are the inference, which never fails for a canonical shape. -/
structure Safe {α : Type} (steps : Stepwise α) (x : Infer α) : Prop where
  eq_runs : steps = runs x
  noShapeFailure : NoShapeFailure x

section Safe

variable {α β : Type}

theorem noShapeFailure_pure (a : α) : NoShapeFailure (pure a) :=
  fun _ h => absurd h not_fails_pure

theorem noShapeFailure_throw {d : Diagnostic} (h : ¬ ShapeFailure d) :
    NoShapeFailure (throw d : Infer α) := by
  intro d' hd'
  rwa [eq_of_fails_throw hd']

theorem NoShapeFailure.bind {x : Infer α} {f : α → Infer β} (hx : NoShapeFailure x)
    (hf : ∀ a, Returns x a → NoShapeFailure (f a)) : NoShapeFailure (x >>= f) := by
  intro d hd
  rcases hd.bind with hd | ⟨a, ha, hd⟩
  · exact hx d hd
  · exact hf a ha d hd

theorem noShapeFailure_of_failsOnlyWith {x : Infer α} {kinds : List DiagnosticKind}
    (h : FailsOnlyWith kinds x) (hkinds : ∀ kind ∈ kinds,
      kind ≠ .missingDimension ∧ kind ≠ .rankMismatch ∧ kind ≠ .invalidLayout) :
    NoShapeFailure x := by
  intro d hd hfailure
  obtain ⟨hdimension, hrank, hlayout⟩ := hkinds _ (h d hd)
  cases hfailure with
  | dimension => exact hdimension rfl
  | canonicalShape => exact hrank rfl
  | outputInfo => exact hlayout rfl

theorem NoShapeFailure.safe {x : Infer α} (h : NoShapeFailure x) : Safe (runs x) x :=
  ⟨rfl, h⟩

theorem Safe.pure (a : α) : Safe (pure a) (pure a) :=
  ⟨(runs_pure a).symm, noShapeFailure_pure a⟩

theorem Safe.throw {d : Diagnostic} (h : ¬ ShapeFailure d) :
    Safe (throw d : Stepwise α) (throw d) :=
  ⟨(runs_throw d).symm, noShapeFailure_throw h⟩

theorem Safe.bind {steps : Stepwise α} {x : Infer α} {f : α → Stepwise β} {g : α → Infer β}
    (hx : Safe steps x) (hf : ∀ a, Returns x a → Safe (f a) (g a)) :
    Safe (steps >>= f) (x >>= g) := by
  refine ⟨?_, hx.noShapeFailure.bind fun a ha => (hf a ha).noShapeFailure⟩
  rw [hx.eq_runs]
  exact runs_bind fun a ha => (hf a ha).eq_runs

end Safe

section Shapes

theorem converted_eq {src dst : Layout} {shape dims : List SymExpr}
    (h : src.convert dst shape = .ok dims) : converted src dst shape = pure dims := by
  rw [converted, Layout.convertSteps?_eq_some, h, step_some, pure_bind]

end Shapes

section Operands

variable {sig : Signature} {attrs : Conv2dAttrs} {data kernel : TensorInfo}

theorem noShapeFailure_tensorOperand (op : String) (index : Nat) (info : Option StructInfo) :
    NoShapeFailure (tensorOperand op index (pure info)) := by
  have hfails : FailsOnlyWith [.invalidArguments] (tensorOperand op index (pure info)) := by
    rw [tensorOperand, pure_bind]
    split
    · apply failsOnlyWith_pure
    · exact failsOnlyWith_throw (by simp)
  exact noShapeFailure_of_failsOnlyWith hfails (by simp)

theorem safe_tensorOperands (op : String) {steps : List (Stepwise (Option StructInfo))}
    {operands : List (Infer (Option StructInfo))} (h : List.Forall₂ Safe steps operands) :
    Safe (tensorOperandsSteps op steps) (tensorOperands op operands) := by
  have hcount (n : Nat) : ¬ ShapeFailure ⟨.invalidArguments, op, none,
      s!"expects 2 arguments, but {n} were given"⟩ := nofun
  match h with
  | .cons hdata (.cons hkernel .nil) =>
    rename_i data' data kernel' kernel
    have hsplit : tensorOperands op [data, kernel] = do
        let data ← tensorOperand op 0 (pure (← data))
        let kernel ← tensorOperand op 1 (pure (← kernel))
        return (data, kernel) := by
      simp only [tensorOperands, tensorOperand, bind_assoc, pure_bind]
    rw [hsplit]
    apply hdata.bind
    intro info _
    apply (noShapeFailure_tensorOperand op 0 info).safe.bind
    intro data _
    apply hkernel.bind
    intro info _
    apply (noShapeFailure_tensorOperand op 1 info).safe.bind
    intro kernel _
    apply Safe.pure
  | .nil => exact .throw (hcount 0)
  | .cons _ .nil => exact .throw (hcount 1)
  | .cons _ (.cons _ (.cons _ hrest)) =>
    simp only [tensorOperandsSteps, tensorOperands, List.length_cons, hrest.length_eq]
    exact .throw (hcount _)

theorem noShapeFailure_checkLayout (op layout canonical : String) {role attr : String}
    (h : attr = "out_layout" → role = "output") :
    NoShapeFailure (checkLayout op layout canonical role attr) := by
  unfold checkLayout
  intro d hd hfailure
  split at hd
  · exact not_fails_pure hd
  · rw [eq_of_fails_throw hd] at hfailure
    obtain ⟨hpath, hhead⟩ := hfailure.of_invalidLayout rfl
    -- What is reported of the layout of the output begins with its role.
    rw [h (CallPath.attr.inj (Option.some.inj hpath))] at hhead
    apply hhead
    repeat apply head?_toList_append
    rfl

theorem noShapeFailure_checkRank (op : String) (info : TensorInfo) (layout : Layout)
    (role : String) (index : Nat) : NoShapeFailure (checkRank op info layout role index) := by
  unfold checkRank
  split
  · apply noShapeFailure_pure
  · exact noShapeFailure_throw nofun

theorem noShapeFailure_resultDtype (op : String) (attrs : Conv2dAttrs) (data kernel : DataType) :
    NoShapeFailure (resultDtype op attrs data kernel) := by
  have hthrow (message : String) :
      NoShapeFailure (throw ⟨.dtypeMismatch, op, none, message⟩ : Infer DataType) :=
    noShapeFailure_throw nofun
  unfold resultDtype commonDtype
  split
  · split
    · apply noShapeFailure_pure
    · split
      · apply noShapeFailure_pure
      · apply hthrow
  · apply noShapeFailure_pure

theorem noShapeFailure_checkOperands (sig : Signature) (attrs : Conv2dAttrs)
    (data kernel : TensorInfo) : NoShapeFailure (checkOperands sig attrs data kernel) := by
  unfold checkOperands
  refine (noShapeFailure_checkLayout _ _ _ (by decide)).bind ?_
  intro dataLayout _
  refine (noShapeFailure_checkLayout _ _ _ (by decide)).bind ?_
  intro kernelLayout _
  refine (noShapeFailure_checkLayout _ _ _ (by decide)).bind ?_
  intro outLayout _
  apply (noShapeFailure_checkRank _ _ _ _ _).bind
  intro _ _
  apply (noShapeFailure_checkRank _ _ _ _ _).bind
  intro _ _
  apply (noShapeFailure_resultDtype _ _ _ _).bind
  intro dtype _
  apply noShapeFailure_pure

theorem resolveShapesSteps_eq {checked : CheckedOperands}
    (hcanonical : Layout.IsLetters sig.canonicalKernel)
    (h : Returns (checkOperands sig attrs data kernel) checked) :
    resolveShapesSteps data.shape kernel.shape checked =
      pure (checked.resolve sig data.shape kernel.shape) := by
  obtain ⟨hdata, hkernel, _, hdataRank, hkernelRank⟩ := returns_checkOperands h
  unfold resolveShapesSteps CheckedOperands.resolve
  cases hdataDims : data.shape with
  | rank => rfl
  | known dataDims =>
    cases hkernelDims : kernel.shape with
    | rank => rfl
    | known kernelDims =>
      rw [TensorInfo.ndim, hdataDims] at hdataRank
      rw [TensorInfo.ndim, hkernelDims] at hkernelRank
      dsimp only
      rw [converted_eq (forward_eq_ok hdata isLetters_canonicalData hdataRank),
        converted_eq (forward_eq_ok hkernel hcanonical hkernelRank)]
      rfl

end Operands

section Sizes

variable {attrs : Conv2dTransposeAttrs}

theorem checkSteps_eq (violation : Predicate) (check : Infer Unit) :
    checkSteps violation check = runs check := by
  rw [checkSteps, violation.proveSteps?_eq_some, step_some, pure_bind]

theorem checkedSizeSteps_eq (op what : String) (size : SymExpr) :
    checkedSizeSteps op what size = runs (checkedSize op what size) := by
  rw [checkedSizeSteps, size.checkedSimplifySteps?_eq_some, step_some, pure_bind]

theorem spatialSizeSteps_eq (op : String) {size : Nat → Option SymExpr} (axis : Nat)
    {what : String} {e : SymExpr} (hwhat : ["height", "width"][axis]? = some what)
    (hsize : size axis = some e) :
    spatialSizeSteps op size axis = runs (checkedSize op what e) := by
  rw [spatialSizeSteps, hwhat, hsize, step_some, step_some, pure_bind, pure_bind,
    checkedSizeSteps_eq]

theorem sizesSteps_eq (dir : Direction) (attrs : Conv2dTransposeAttrs)
    (data kernel : Char → SymExpr) :
    dir.sizesSteps attrs (canonicalData.toList.map data)
        (dir.signature.canonicalKernel.toList.map kernel) =
      runs (dir.sizes attrs data kernel >>= fun size =>
        pure (canonicalData.toList.map size)) := by
  cases dir with
  | forward =>
    simp only [Direction.sizesSteps, Direction.signature, toList_canonicalData,
      toList_forwardKernel, List.map_cons, List.map_nil, List.getElem?_cons_zero,
      List.getElem?_cons_succ, step_some, pure_bind, checkSteps_eq]
    rw [spatialSizeSteps_eq _ 0 rfl rfl, spatialSizeSteps_eq _ 1 rfl rfl]
    simp only [Direction.sizes, bind_assoc, pure_bind]
    apply runs_bind
    intro _ _
    apply runs_bind
    intro _ _
    apply runs_bind
    intro height _
    apply runs_bind
    intro width _
    apply runs_pure
  | transpose =>
    have htooLarge : tooLargeSteps? attrs 0 = some (checkOutputPadding.tooLarge attrs .height) ∧
        tooLargeSteps? attrs 1 = some (checkOutputPadding.tooLarge attrs .width) := ⟨rfl, rfl⟩
    simp only [Direction.sizesSteps, Direction.signature, toList_canonicalData,
      toList_transposeKernel, List.map_cons, List.map_nil, List.getElem?_cons_zero,
      List.getElem?_cons_succ, step_some, pure_bind, checkSteps_eq, checkedSizeSteps_eq,
      htooLarge]
    rw [spatialSizeSteps_eq _ 0 rfl rfl, spatialSizeSteps_eq _ 1 rfl rfl]
    simp only [Direction.sizes, bind_assoc, pure_bind]
    apply runs_bind
    intro _ _
    apply runs_bind
    intro _ _
    apply runs_bind
    intro _ _
    apply runs_bind
    intro channels _
    apply runs_bind
    intro height _
    apply runs_bind
    intro width _
    apply runs_pure

theorem safe_sizesSteps (dir : Direction) (attrs : Conv2dTransposeAttrs)
    (data kernel : Char → SymExpr) :
    Safe (dir.sizesSteps attrs (canonicalData.toList.map data)
        (dir.signature.canonicalKernel.toList.map kernel))
      (dir.sizes attrs data kernel >>= fun size => pure (canonicalData.toList.map size)) := by
  have hsizes : NoShapeFailure (dir.sizes attrs data kernel) :=
    noShapeFailure_of_failsOnlyWith (failsOnlyWith_sizes dir attrs data kernel) (by decide)
  exact ⟨sizesSteps_eq dir attrs data kernel, hsizes.bind fun _ _ => noShapeFailure_pure _⟩

end Sizes

section Rules

variable {app : Application}

/-- The canonical shape of a result is converted to the output layout. -/
theorem safe_resultSteps (dir : Direction) (attrs : Conv2dTransposeAttrs)
    (data kernel : Char → SymExpr) {layout : String} {out : LayoutConversion}
    (hout : layoutConversion layout canonicalData = .ok out) (dtype : DataType) :
    Safe
      (do
        let shape ← dir.sizesSteps attrs (canonicalData.toList.map data)
          (dir.signature.canonicalKernel.toList.map kernel)
        return .tensor ⟨.known (← converted out.dst out.src shape), dtype⟩)
      (dir.sizes attrs data kernel >>= fun size =>
        outputInfo dir.signature.op out (canonicalData.toList.map size) dtype) := by
  have hsplit : (dir.sizes attrs data kernel >>= fun size =>
      outputInfo dir.signature.op out (canonicalData.toList.map size) dtype) =
      (dir.sizes attrs data kernel >>= fun size => pure (canonicalData.toList.map size)) >>=
        fun shape => outputInfo dir.signature.op out shape dtype := by
    simp only [bind_assoc, pure_bind]
  rw [hsplit]
  apply (safe_sizesSteps dir attrs data kernel).bind
  intro shape hshape
  obtain ⟨size, hsize, hshape⟩ := hshape.bind
  obtain rfl := returns_pure_iff.1 hshape
  obtain ⟨batch, channels, height, width, rfl⟩ := exists_eq_resultSize hsize
  have hdims : out.backward (canonicalData.toList.map
      (resultSize batch channels height width)) = .ok _ :=
    backward_canonicalData hout fun _ => resultSize_eq_one
  rw [converted_eq hdims, outputInfo, hdims]
  apply Safe.pure

theorem safe_ruleSteps (dir : Direction) {steps : List (Stepwise (Option StructInfo))}
    (h : List.Forall₂ Safe steps app.operands) :
    Safe (dir.ruleSteps ⟨app.call, steps⟩) (dir.rule app) := by
  cases hattrs : dir.attrs? app.call.attrs with
  | none =>
    rw [rule_of_attrs?_eq_none hattrs, Direction.ruleSteps, hattrs]
    exact .throw nofun
  | some attrs =>
    obtain ⟨finish, hrule, hrankOnly, hknown⟩ := rule_eq_bind dir attrs
    rw [hrule (eq_record_of_attrs? hattrs), resolveOperands_eq_bind, Direction.ruleSteps, hattrs]
    simp only [resolveOperandsSteps, bind_assoc]
    apply (safe_tensorOperands _ h).bind
    intro (data, kernel) _
    apply (noShapeFailure_checkOperands _ _ _ _).safe.bind
    intro checked hchecked
    have hcanonical := dir.isLetters_canonicalKernel
    rw [resolveShapesSteps_eq hcanonical hchecked, resolveShapes_eq hcanonical hchecked,
      pure_bind, pure_bind]
    obtain ⟨_, _, hout, _⟩ := returns_checkOperands hchecked
    rcases checked.resolve_cases dir.signature data.shape kernel.shape with
      hrank | ⟨dataSize, kernelSize, hshapes⟩
    · rw [hrank, hrankOnly]
      apply Safe.pure
    · rw [hshapes, hknown]
      exact safe_resultSteps dir attrs dataSize kernelSize hout checked.dtype

end Rules

end Conv2d

end TensorIR
