import TensorIR.Event
import TensorIR.Expr.Basic

/-!
Construction of convolution calls. Parameters may be given in short forms; they are brought to full
length and checked, and the first fault is reported.
-/

namespace TensorIR

structure Conv2dParams where
  strides : List Int64 := [1, 1]
  padding : List Int64 := [0, 0]
  dilation : List Int64 := [1, 1]
  groups : Int32 := 1
  dataLayout : String := "NCHW"
  kernelLayout : String := "OIHW"
  -- The layout of the data, if none is given.
  outLayout : Option String := none
  outDtype : DataType := .void
  deriving DecidableEq, Repr, Inhabited

structure Conv2dTransposeParams where
  conv : Conv2dParams := { kernelLayout := "IOHW" }
  outputPadding : List Int64 := [0, 0]
  deriving DecidableEq, Repr, Inhabited

inductive ConstructError where
  | nonPositiveGroups (op : String) (groups : Int32)
  | invalidLength (op attr expected : String) (values : List Int64)
  | invalidValue (op attr requirement : String) (values : List Int64)
  deriving DecidableEq, Repr, Inhabited

def ConstructError.message : ConstructError → String
  | .nonPositiveGroups op groups =>
    s!"{op}: the number of groups is expected to be positive, got {groups.toInt}"
  | .invalidLength op attr expected values =>
    s!"{op}: {attr} is expected to have {expected} elements, got {inspectInts values}"
  | .invalidValue op attr requirement values =>
    s!"{op}: {attr} values are expected to be {requirement}, got {inspectInts values}"
where
  inspectInts (values : List Int64) : String := (FieldValue.ints values).inspect

namespace Conv2d

def completePadding (op : String) : List Int64 → Except ConstructError Padding
  | [p] => .ok ⟨p, p, p, p⟩
  | [h, w] => .ok ⟨h, w, h, w⟩
  | [top, left, bottom, right] => .ok ⟨top, left, bottom, right⟩
  | values => .error (.invalidLength op "padding" "1, 2 or 4" values)

def broadcast (op attr : String) : List Int64 → Except ConstructError PerAxis
  | [x] => .ok ⟨x, x⟩
  | [h, w] => .ok ⟨h, w⟩
  | values => .error (.invalidLength op attr "1 or 2" values)

def requirePositive (op attr : String) (values : List Int64) : Except ConstructError Unit :=
  if values.all (1 ≤ ·) then .ok () else .error (.invalidValue op attr "positive" values)

def requireNonneg (op attr : String) (values : List Int64) : Except ConstructError Unit :=
  if values.all (0 ≤ ·) then .ok () else .error (.invalidValue op attr "non-negative" values)

/-- The record of a convolution. Lengths are checked before values, and groups in between. -/
def normalize (op : String) (params : Conv2dParams) : Except ConstructError Conv2dAttrs := do
  let padding ← completePadding op params.padding
  let strides ← broadcast op "strides" params.strides
  let dilation ← broadcast op "dilation" params.dilation
  if params.groups ≤ 0 then throw (.nonPositiveGroups op params.groups)
  requirePositive op "strides" strides.toList
  requirePositive op "dilation" dilation.toList
  requireNonneg op "padding" padding.toList
  return { strides, padding, dilation
           groups := params.groups
           dataLayout := params.dataLayout
           kernelLayout := params.kernelLayout
           outLayout := params.outLayout.getD params.dataLayout
           outDtype := params.outDtype }

def normalizeTranspose (op : String) (params : Conv2dTransposeParams) :
    Except ConstructError Conv2dTransposeAttrs := do
  let conv ← normalize op params.conv
  let outputPadding ← broadcast op "output_padding" params.outputPadding
  requireNonneg op "output_padding" outputPadding.toList
  return { conv, outputPadding }

end Conv2d

def conv2d (data kernel : Expr) (params : Conv2dParams) :
    ExceptT ConstructError Logged Call := do
  let attrs ← Conv2d.normalize Conv2dAttrs.opName params
  emit (.conv2dBuilt attrs)
  return { callee := .op Conv2dAttrs.opName
           args := [data, kernel]
           attrs := some (.conv2d attrs)
           infoArgs := [] }

def conv2dTranspose (data kernel : Expr) (params : Conv2dTransposeParams) :
    ExceptT ConstructError Logged Call := do
  let attrs ← Conv2d.normalizeTranspose Conv2dTransposeAttrs.opName params
  emit (.conv2dTransposeBuilt attrs)
  return { callee := .op Conv2dTransposeAttrs.opName
           args := [data, kernel]
           attrs := some (.conv2dTranspose attrs)
           infoArgs := [] }

end TensorIR
