import TensorIR.Text.Inspect
import TensorIR.Text.Unsigned

/-!
Scalar element types. The name of a numeric type is its kind and its width in bits, such as
`float32`.
-/

namespace TensorIR

inductive NumberKind where
  | int
  | uint
  | float
  | bfloat
  deriving DecidableEq, Repr, Inhabited

def NumberKind.name : NumberKind → String
  | .int => "int"
  | .uint => "uint"
  | .float => "float"
  | .bfloat => "bfloat"

inductive DataType where
  -- The type is not known, or left to be inferred.
  | void
  | bool
  | number (kind : NumberKind) (bits : UInt8)
  deriving DecidableEq, Repr, Inhabited

structure DataTypeError where
  name : String
  deriving DecidableEq, Repr, Inhabited

def DataTypeError.message (e : DataTypeError) : String :=
  s!"unknown data type \"{e.name}\""

namespace DataType

def text : DataType → String
  | .void => "void"
  | .bool => "bool"
  | .number kind bits => kind.name ++ toString bits.toNat

def inspect : DataType → String
  | .void => "Void"
  | .bool => "Bool"
  | .number .int bits => Inspect.variant "Int" [toString bits.toNat]
  | .number .uint bits => Inspect.variant "UInt" [toString bits.toNat]
  | .number .float bits => Inspect.variant "Float" [toString bits.toNat]
  | .number .bfloat bits => Inspect.variant "BFloat" [toString bits.toNat]

def widths : List Nat :=
  [1, 4, 8, 16, 32, 64]

def readKind? (cs : List Char) : Option (NumberKind × List Char) :=
  [.uint, .int, .bfloat, .float].findSome? fun (kind : NumberKind) =>
    (kind.name.toList.isPrefixOf? cs).map (kind, ·)

def readNumber? (cs : List Char) : Option DataType := do
  let (kind, cs) ← readKind? cs
  let bits ← Text.readUnsigned? cs
  if widths.contains bits then some (.number kind (UInt8.ofNat bits)) else none

def parse (name : String) : Except DataTypeError DataType :=
  if name = "" ∨ name = "void" then .ok .void
  else if name = "bool" then .ok .bool
  else
    match readNumber? name.toList with
    | some t => .ok t
    | none => .error ⟨name⟩

end DataType

end TensorIR
