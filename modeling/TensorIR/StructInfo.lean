import TensorIR.DataType
import TensorIR.SymExpr.Printer

/-!
Struct info: what is known statically about a value, such as the element type and the shape of a
tensor.
-/

namespace TensorIR

inductive TensorShape where
  | known (dims : List SymExpr)
  -- The number of dimensions is known, their sizes are not.
  | rank (ndim : UInt64)
  deriving DecidableEq, Repr, Inhabited

namespace TensorShape

def ndim : TensorShape → Nat
  | .known dims => dims.length
  | .rank n => n.toNat

def dims? : TensorShape → Option (List SymExpr)
  | .known dims => some dims
  | .rank _ => none

def inspect : TensorShape → String
  | .known dims => Inspect.variant "Known" [Inspect.list (dims.map SymExpr.inspect)]
  | .rank n => Inspect.variant "Rank" [toString n.toNat]

end TensorShape

def SymExpr.sameDims : List SymExpr → List SymExpr → Bool
  | [], [] => true
  | a :: as, b :: bs => a.same b && sameDims as bs
  | _, _ => false

def TensorShape.same : TensorShape → TensorShape → Bool
  | .known as, .known bs => SymExpr.sameDims as bs
  | .rank n, .rank m => n == m
  | _, _ => false

structure TensorInfo where
  shape : TensorShape
  dtype : DataType
  deriving DecidableEq, Repr, Inhabited

namespace TensorInfo

def ndim (t : TensorInfo) : Nat :=
  t.shape.ndim

def same (t u : TensorInfo) : Bool :=
  t.dtype == u.dtype && t.shape.same u.shape

def inspect (t : TensorInfo) : String :=
  Inspect.record "TensorStructInfo" [("dtype", t.dtype.inspect), ("shape", t.shape.inspect)]

end TensorInfo

inductive StructInfo where
  | tensor (info : TensorInfo)
  -- A tensor that is sharded across a device mesh, each axis as the placement says.
  | dtensor (info : TensorInfo) (deviceMesh placement : String)
  | tuple (fields : List StructInfo)
  | shape (shape : TensorShape)
  | prim (dtype : DataType)
  | object
  deriving Repr, Inhabited

namespace StructInfo

def tensor? : StructInfo → Option TensorInfo
  | .tensor t => some t
  | _ => none

mutual

def containsDTensor : StructInfo → Bool
  | .dtensor .. => true
  | .tuple fields => anyContainsDTensor fields
  | _ => false

def anyContainsDTensor : List StructInfo → Bool
  | [] => false
  | s :: ss => s.containsDTensor || anyContainsDTensor ss

end

mutual

def same : StructInfo → StructInfo → Bool
  | .tensor t, .tensor u => t.same u
  | .dtensor t mesh placement, .dtensor u mesh' placement' =>
    t.same u && mesh == mesh' && placement == placement'
  | .tuple fields, .tuple fields' => sameFields fields fields'
  | .shape s, .shape s' => s.same s'
  | .prim t, .prim u => t == u
  | .object, .object => true
  | _, _ => false

def sameFields : List StructInfo → List StructInfo → Bool
  | [], [] => true
  | s :: ss, t :: ts => s.same t && sameFields ss ts
  | _, _ => false

end

mutual

def inspect : StructInfo → String
  | .tensor t => Inspect.variant "Tensor" [t.inspect]
  | .dtensor t mesh placement =>
    Inspect.variant "DTensor" [Inspect.record "DTensorStructInfo" [("tensor", t.inspect),
      ("device_mesh", Inspect.string mesh), ("placement", Inspect.string placement)]]
  | .tuple fields => Inspect.variant "Tuple" [Inspect.list (inspects fields)]
  | .shape s => Inspect.variant "Shape" [s.inspect]
  | .prim t => Inspect.variant "Prim" [t.inspect]
  | .object => Inspect.variant "Object" []

def inspects : List StructInfo → List String
  | [] => []
  | s :: ss => s.inspect :: inspects ss

end

end StructInfo

end TensorIR
