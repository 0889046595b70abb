import TensorIR.Inference
import TensorIR.Layout.Conversion
import TensorIR.Layout.Parser

/-!
The rules that infer convolutions. The shapes of data and kernel are brought to canonical layouts,
their channels are checked against the attributes, the sizes of the result are computed in canonical
layout, and its shape is brought to the layout that is asked for.
-/

namespace TensorIR.Conv2d

def canonicalData : String :=
  "NCHW"

structure Signature where
  op : String
  canonicalKernel : String

def forwardSignature : Signature :=
  ⟨Conv2dAttrs.opName, "OIHW"⟩

def transposeSignature : Signature :=
  ⟨Conv2dTransposeAttrs.opName, "IOHW"⟩

def tensorOperand (op : String) (index : Nat) (operand : Infer (Option StructInfo)) :
    Infer TensorInfo := do
  match ← operand with
  | some (.tensor t) => return t
  | other =>
    throw ⟨.invalidArguments, op, some (.arg index),
      "expects its input to be a tensor, got " ++ Inspect.option (other.map StructInfo.inspect)⟩

def tensorOperands (op : String) :
    List (Infer (Option StructInfo)) → Infer (TensorInfo × TensorInfo)
  | [data, kernel] => do
    let data ← tensorOperand op 0 data
    let kernel ← tensorOperand op 1 kernel
    return (data, kernel)
  | operands =>
    throw ⟨.invalidArguments, op, none,
      s!"expects 2 arguments, but {operands.length} were given"⟩

def layoutConversion (layout canonical : String) : Except LayoutError LayoutConversion := do
  let src ← Layout.parse layout
  let dst ← Layout.parse canonical
  LayoutConversion.between src dst

def checkLayout (op layout canonical role attr : String) : Infer LayoutConversion :=
  match layoutConversion layout canonical with
  | .ok conversion => pure conversion
  | .error e =>
    throw ⟨.invalidLayout, op, some (.attr attr),
      s!"{role} layout \"{layout}\" is expected to be convertible to \"{canonical}\": {e.message}"⟩

def checkRank (op : String) (info : TensorInfo) (layout : Layout) (role : String) (index : Nat) :
    Infer Unit :=
  if info.ndim = layout.ndim then pure ()
  else
    throw ⟨.rankMismatch, op, some (.arg index),
      s!"{role} is expected to have rank {layout.ndim} as given by layout \"{layout.name}\", " ++
      s!"got {info.ndim}"⟩

def commonDtype (op : String) (lhs rhs : DataType) : Infer DataType :=
  if lhs = .void ∨ rhs = .void then pure .void
  else if lhs = rhs then pure lhs
  else
    throw ⟨.dtypeMismatch, op, none,
      s!"data types {lhs.text} and {rhs.text} must be equal for binary operators"⟩

/-- The element type of the result: the one that the attributes ask for, or that of the operands. -/
def resultDtype (op : String) (attrs : Conv2dAttrs) (data kernel : DataType) : Infer DataType :=
  if attrs.outDtype = .void then commonDtype op data kernel else pure attrs.outDtype

inductive Operands where
  -- A shape is not known; the result is known up to its sizes.
  | rankOnly (info : TensorInfo)
  -- The shapes of data and kernel in canonical layouts.
  | known (data kernel : List SymExpr) (out : LayoutConversion) (dtype : DataType)

/-- A shape in canonical layout. Layout and rank have been checked, so this does not fail. -/
def canonicalShape (op : String) (conversion : LayoutConversion) (dims : List SymExpr) :
    Infer (List SymExpr) :=
  match conversion.forward dims with
  | .ok shape => pure shape
  | .error e => throw ⟨.rankMismatch, op, none, e.message⟩

def resolveOperands (app : Application) (sig : Signature) (attrs : Conv2dAttrs) :
    Infer Operands := do
  let (data, kernel) ← tensorOperands sig.op app.operands
  let dataLayout ← checkLayout sig.op attrs.dataLayout canonicalData "data" "data_layout"
  let kernelLayout ←
    checkLayout sig.op attrs.kernelLayout sig.canonicalKernel "kernel" "kernel_layout"
  let outLayout ← checkLayout sig.op attrs.outLayout canonicalData "output" "out_layout"
  checkRank sig.op data dataLayout.src "data" 0
  checkRank sig.op kernel kernelLayout.src "kernel" 1
  let dtype ← resultDtype sig.op attrs data.dtype kernel.dtype
  match data.shape, kernel.shape with
  | .known dataDims, .known kernelDims =>
    let data ← canonicalShape sig.op dataLayout dataDims
    let kernel ← canonicalShape sig.op kernelLayout kernelDims
    return .known data kernel outLayout dtype
  | _, _ => return .rankOnly ⟨.rank (UInt64.ofNat outLayout.src.ndim), dtype⟩

def dimension (op : String) (shape : List SymExpr) (index : Nat) : Infer SymExpr :=
  match shape[index]? with
  | some d => pure d
  | none => throw ⟨.missingDimension, op, none, s!"dimension {index} is missing"⟩

def spatialIndex : SpatialAxis → Nat
  | .height => 2
  | .width => 3

def checkedSize (op what : String) (size : SymExpr) : Infer SymExpr :=
  match size.checkedSimplify? with
  | some s => pure s
  | none =>
    throw ⟨.shapeOverflow, op, none, s!"the output {what} does not fit in a 64-bit integer"⟩

def spatialSize (op : String) (data kernel : List SymExpr)
    (size : SpatialAxis → SymExpr → SymExpr → SymExpr) (axis : SpatialAxis) : Infer SymExpr := do
  let input ← dimension op data (spatialIndex axis)
  let window ← dimension op kernel (spatialIndex axis)
  checkedSize op axis.name (size axis input window)

def outputInfo (op : String) (out : LayoutConversion) (shape : List SymExpr) (dtype : DataType) :
    Infer StructInfo :=
  match out.backward shape with
  | .ok dims => pure (.tensor ⟨.known dims, dtype⟩)
  | .error e => throw ⟨.invalidLayout, op, some (.attr "out_layout"), e.message⟩

def groupsExpr (attrs : Conv2dAttrs) : SymExpr :=
  .lit attrs.groups.toInt64

def paddingTotal (attrs : Conv2dAttrs) (axis : SpatialAxis) : SymExpr :=
  .lit (attrs.padding.before axis) + .lit (attrs.padding.after axis)

/-- How far a dilated kernel reaches beyond its first entry. -/
def kernelReach (attrs : Conv2dAttrs) (axis : SpatialAxis) (kernel : SymExpr) : SymExpr :=
  .lit (attrs.dilation.get axis) * (kernel - .lit 1)

/-- The number of places at which the kernel fits the padded input, one stride apart. -/
def outputSize (attrs : Conv2dAttrs) (axis : SpatialAxis) (input kernel : SymExpr) : SymExpr :=
  (input + paddingTotal attrs axis - kernelReach attrs axis kernel - .lit 1)
    / .lit (attrs.strides.get axis) + .lit 1

/-- The size of an input that a convolution takes to the given one, but for what rounding lost. -/
def transposedSize (attrs : Conv2dTransposeAttrs) (axis : SpatialAxis) (input kernel : SymExpr) :
    SymExpr :=
  (input - .lit 1) * .lit (attrs.conv.strides.get axis) - paddingTotal attrs.conv axis
    + kernelReach attrs.conv axis kernel + .lit (attrs.outputPadding.get axis) + .lit 1

def checkChannels (attrs : Conv2dAttrs) (data kernel : SymExpr) : Infer Unit :=
  rejectIfProved "channel" (.compare .ne data (kernel * groupsExpr attrs))
    ⟨.channelMismatch, Conv2dAttrs.opName, none,
      "the channel size of the data should equal the product of the weight input channel size " ++
      s!"and the number of groups, but the data channel size is {data.text} while the weight " ++
      s!"input channel size and number of groups are {kernel.text} and {attrs.groups.toInt}"⟩

def checkGroups (attrs : Conv2dAttrs) (channels : SymExpr) : Infer Unit :=
  rejectIfProved "group divisibility" (.compare .ne (channels % groupsExpr attrs) (.lit 0))
    ⟨.groupDivisibility, Conv2dAttrs.opName, some (.attr "groups"),
      "the number of output channels should be divisible by the number of groups, but the " ++
      s!"number of output channels is {channels.text} while the number of groups is " ++
      s!"{attrs.groups.toInt}"⟩

def checkTransposeChannels (data kernel : SymExpr) : Infer Unit :=
  rejectIfProved "channel" (.compare .ne data kernel)
    ⟨.channelMismatch, Conv2dTransposeAttrs.opName, none,
      "the channel size of the data should equal the input channel size of the weight, but the " ++
      s!"data channel size is {data.text} while the weight input channel size is {kernel.text}"⟩

def checkTransposeGroups (attrs : Conv2dAttrs) (channels : SymExpr) : Infer Unit :=
  rejectIfProved "group divisibility" (.compare .ne (channels % groupsExpr attrs) (.lit 0))
    ⟨.groupDivisibility, Conv2dTransposeAttrs.opName, some (.attr "groups"),
      "the number of input channels should be divisible by the number of groups, but the " ++
      s!"number of input channels is {channels.text} while the number of groups is " ++
      s!"{attrs.groups.toInt}"⟩

def checkOutputPadding (attrs : Conv2dTransposeAttrs) : Infer Unit :=
  rejectIfProved "output padding" (.or (tooLarge .height) (tooLarge .width))
    ⟨.outputPadding, Conv2dTransposeAttrs.opName, some (.attr "output_padding"),
      "the output padding should be less than the strides, but the output padding is " ++
      inspectPair attrs.outputPadding ++ " while the strides are " ++
      inspectPair attrs.conv.strides⟩
where
  tooLarge (axis : SpatialAxis) : Predicate :=
    .compare .ge (.lit (attrs.outputPadding.get axis)) (.lit (attrs.conv.strides.get axis))
  inspectPair (x : PerAxis) : String :=
    (FieldValue.ints x.toList).inspect

def inferForward : InferRule := fun app => do
  let op := Conv2dAttrs.opName
  match app.call.attrs with
  | some (.conv2d attrs) =>
    match ← resolveOperands app forwardSignature attrs with
    | .rankOnly info => return .tensor info
    | .known data kernel out dtype =>
      let channels ← dimension op kernel 0
      let batch ← dimension op data 0
      checkChannels attrs (← dimension op data 1) (← dimension op kernel 1)
      checkGroups attrs channels
      let height ← spatialSize op data kernel (outputSize attrs) .height
      let width ← spatialSize op data kernel (outputSize attrs) .width
      outputInfo op out [batch, channels, height, width] dtype
  | _ =>
    throw ⟨.missingAttrs, op, none, "expects attributes of type " ++ Conv2dAttrs.typeKey⟩

def inferTranspose : InferRule := fun app => do
  let op := Conv2dTransposeAttrs.opName
  match app.call.attrs with
  | some (.conv2dTranspose attrs) =>
    match ← resolveOperands app transposeSignature attrs.conv with
    | .rankOnly info => return .tensor info
    | .known data kernel out dtype =>
      let inChannels ← dimension op kernel 0
      let batch ← dimension op data 0
      checkTransposeChannels (← dimension op data 1) inChannels
      checkTransposeGroups attrs.conv inChannels
      checkOutputPadding attrs
      let perGroup ← dimension op kernel 1
      let channels ← checkedSize op "channel size" (perGroup * groupsExpr attrs.conv)
      let height ← spatialSize op data kernel (transposedSize attrs) .height
      let width ← spatialSize op data kernel (transposedSize attrs) .width
      outputInfo op out [batch, channels, height, width] dtype
  | _ =>
    throw ⟨.missingAttrs, op, none,
      "expects attributes of type " ++ Conv2dTransposeAttrs.typeKey⟩

end TensorIR.Conv2d
