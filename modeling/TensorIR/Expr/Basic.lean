import TensorIR.Binary64
import TensorIR.Conv2d.Basic
import TensorIR.StructInfo

/-!
Expressions of the tensor program: variables, references to functions and operators, tuples,
literals and calls. A call may carry attributes, and annotations of the struct info of its result.
-/

namespace TensorIR

mutual

inductive Expr where
  | var (name : String) (info : Option StructInfo)
  | globalVar (name : String)
  -- A function that is found by its symbol at run time.
  | externFunc (symbol : String)
  | op (name : String)
  | tuple (fields : List Expr)
  | shape (dims : List SymExpr)
  | prim (value : SymExpr) (dtype : DataType)
  | str (text : String)
  | dtype (type : DataType)
  | call (call : Call)

structure Call where
  callee : Expr
  args : List Expr
  attrs : Option Attrs
  infoArgs : List StructInfo

inductive Attrs where
  | conv2d (record : Conv2dAttrs)
  | conv2dTranspose (record : Conv2dTransposeAttrs)
  -- A map whose entries are enumerated in no particular order; no two of them have the same key.
  | dict (entries : List (String × Object))
  /-
  A record of another schema: it passes its fields to a visitor in the order of their declaration and
  stops with the error of the visitor, if it has one.
  -/
  | custom (typeKey : String) (fields : List (String × AttrValue))

inductive Object where
  | int (value : Int64)
  | float (value : Binary64)
  | bool (value : Bool)
  | str (text : String)
  | ints (values : List Int64)
  | array (items : List Object)
  | expr (expr : Expr)

/-- The value of a field of a record; pointers and arrays have no textual form. -/
inductive AttrValue where
  | f64 (value : Binary64)
  | i64 (value : Int64)
  | u64 (value : UInt64)
  | int (value : Int32)
  | bool (value : Bool)
  | str (text : String)
  | dtype (type : DataType)
  | object (value : Object)
  | rawPtr
  | ndarray

end

instance : Inhabited Expr := ⟨.tuple []⟩
instance : Inhabited Call := ⟨⟨default, [], none, []⟩⟩

namespace Expr

mutual

/-- The struct info that is known without inference; a call has none. -/
def structInfo? : Expr → Option StructInfo
  | .var _ info => info
  | .tuple fields => (structInfos? fields).map .tuple
  | .shape dims => some (.shape (.known dims))
  | .prim _ t => some (.prim t)
  | .str _ | .dtype _ => some .object
  | .globalVar _ | .externFunc _ | .op _ | .call _ => none

def structInfos? : List Expr → Option (List StructInfo)
  | [] => some []
  | e :: es => do return (← e.structInfo?) :: (← structInfos? es)

end

def kindName : Expr → String
  | .var .. => "Var"
  | .globalVar _ => "GlobalVar"
  | .externFunc _ => "ExternFunc"
  | .op _ => "Op"
  | .tuple _ => "Tuple"
  | .shape _ => "ShapeExpr"
  | .prim .. => "PrimValue"
  | .str _ => "StringImm"
  | .dtype _ => "DataTypeImm"
  | .call _ => "Call"

end Expr

def Call.opName? (c : Call) : Option String :=
  match c.callee with
  | .op name => some name
  | _ => none

def FieldValue.kindName : FieldValue → String
  | .ints _ => "object"
  | .int _ => "int"
  | .str _ => "string"
  | .dtype _ => "dtype"

def AttrValue.kindName : AttrValue → String
  | .f64 _ => "double"
  | .i64 _ => "int64"
  | .u64 _ => "uint64"
  | .int _ => "int"
  | .bool _ => "bool"
  | .str _ => "string"
  | .dtype _ => "dtype"
  | .object _ => "object"
  | .rawPtr => "void*"
  | .ndarray => "NDArray"

namespace Attrs

def typeKey : Attrs → String
  | .conv2d _ => Conv2dAttrs.typeKey
  | .conv2dTranspose _ => Conv2dTransposeAttrs.typeKey
  | .dict _ => "DictAttrs"
  | .custom key _ => key

def fieldKinds? : Attrs → Option (List (String × String))
  | .conv2d a => some (a.fields.map fun (key, value) => (key, value.kindName))
  | .conv2dTranspose a => some (a.fields.map fun (key, value) => (key, value.kindName))
  | .dict _ => none
  | .custom _ fields => some (fields.map fun (key, value) => (key, value.kindName))

end Attrs

end TensorIR
