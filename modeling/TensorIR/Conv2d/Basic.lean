import TensorIR.DataType

/-!
The attributes of two-dimensional convolutions and of their transposes, as records whose fields can
be enumerated.
-/

namespace TensorIR

inductive SpatialAxis where
  | height
  | width
  deriving DecidableEq, Repr, Inhabited

def SpatialAxis.name : SpatialAxis → String
  | .height => "height"
  | .width => "width"

structure PerAxis where
  height : Int64
  width : Int64
  deriving DecidableEq, Repr, Inhabited

namespace PerAxis

def get (x : PerAxis) : SpatialAxis → Int64
  | .height => x.height
  | .width => x.width

def toList (x : PerAxis) : List Int64 :=
  [x.height, x.width]

end PerAxis

structure Padding where
  top : Int64
  left : Int64
  bottom : Int64
  right : Int64
  deriving DecidableEq, Repr, Inhabited

namespace Padding

def before (p : Padding) : SpatialAxis → Int64
  | .height => p.top
  | .width => p.left

def after (p : Padding) : SpatialAxis → Int64
  | .height => p.bottom
  | .width => p.right

def toList (p : Padding) : List Int64 :=
  [p.top, p.left, p.bottom, p.right]

end Padding

structure Conv2dAttrs where
  strides : PerAxis
  padding : Padding
  dilation : PerAxis
  groups : Int32
  dataLayout : String
  kernelLayout : String
  outLayout : String
  -- The element type of the result; `void` leaves it to the operands.
  outDtype : DataType
  deriving DecidableEq, Repr, Inhabited

structure Conv2dTransposeAttrs where
  conv : Conv2dAttrs
  -- What is added to one side of each spatial axis of the result.
  outputPadding : PerAxis
  deriving DecidableEq, Repr, Inhabited

inductive FieldValue where
  | ints (values : List Int64)
  | int (value : Int32)
  | str (text : String)
  | dtype (type : DataType)
  deriving DecidableEq, Repr, Inhabited

def FieldValue.inspect : FieldValue → String
  | .ints values => Inspect.list (values.map fun n => toString n.toInt)
  | .int n => toString n.toInt
  | .str s => Inspect.string s
  | .dtype t => t.inspect

namespace Conv2dAttrs

def opName : String :=
  "relax.nn.conv2d"

def typeKey : String :=
  "relax.attrs.Conv2DAttrs"

def trailingFields (a : Conv2dAttrs) : List (String × FieldValue) :=
  [("dilation", .ints a.dilation.toList), ("groups", .int a.groups),
    ("data_layout", .str a.dataLayout), ("kernel_layout", .str a.kernelLayout),
    ("out_layout", .str a.outLayout), ("out_dtype", .dtype a.outDtype)]

def fields (a : Conv2dAttrs) : List (String × FieldValue) :=
  [("strides", .ints a.strides.toList), ("padding", .ints a.padding.toList)] ++ a.trailingFields

def inspect (a : Conv2dAttrs) : String :=
  Inspect.record "Conv2dAttrs" (a.fields.map fun (key, value) => (key, value.inspect))

end Conv2dAttrs

namespace Conv2dTransposeAttrs

def opName : String :=
  "relax.nn.conv2d_transpose"

def typeKey : String :=
  "relax.attrs.Conv2DTransposeAttrs"

def fields (a : Conv2dTransposeAttrs) : List (String × FieldValue) :=
  [("strides", .ints a.conv.strides.toList), ("padding", .ints a.conv.padding.toList),
    ("output_padding", .ints a.outputPadding.toList)] ++ a.conv.trailingFields

def inspect (a : Conv2dTransposeAttrs) : String :=
  Inspect.record "Conv2dTransposeAttrs" (a.fields.map fun (key, value) => (key, value.inspect))

end Conv2dTransposeAttrs

end TensorIR
