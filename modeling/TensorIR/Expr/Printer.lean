import TensorIR.Dictionary
import TensorIR.Doc
import TensorIR.Expr.Basic
import TensorIR.FusedCall

/-!
The textual form of struct info, expressions and calls. Built-in names are attributes of a prefix,
and operators of one namespace are built-in names. Calls of functions that write to memory given to
them have a form of their own.
-/

namespace TensorIR

inductive PrintError where
  | unsupportedAttrField (key kind : String)
  | unsupportedCallee (kind : String)
  | malformedCall (op reason : String)
  deriving DecidableEq, Repr, Inhabited

def PrintError.message : PrintError → String
  | .unsupportedAttrField key kind =>
    s!"TypeError: {kind} is not allowed in Attrs (field \"{key}\")"
  | .unsupportedCallee kind => s!"TypeError: unsupported callee {kind}"
  | .malformedCall op reason => s!"{op}: {reason}"

structure Printer where
  -- The name that built-in names are attributes of.
  irPrefix : String := "R"
  -- What the names of operators start with that are written as built-in names.
  opNamespace : String := "relax."
  deriving DecidableEq, Repr, Inhabited

abbrev Printed := Except PrintError Doc

namespace Printer

def builtin (p : Printer) (name : String) : Doc :=
  ((name.toList.splitOn '.').map String.ofList).foldl .attr (.id p.irPrefix)

def opRef (p : Printer) (name : String) : Doc :=
  match p.opNamespace.toList.isPrefixOf? name.toList with
  | some rest => if p.opNamespace.isEmpty then .id name else p.builtin (String.ofList rest)
  | none => .id name

def shapeTuple (dims : List SymExpr) : Doc :=
  .tuple (dims.map .dim)

def shapeList (dims : List SymExpr) : Doc :=
  .list (dims.map .dim)

def rankKeyword (ndim : UInt64) : String × Doc :=
  ("ndim", .int ndim.toInt64)

def tensorDoc (p : Printer) (t : TensorInfo) : Doc :=
  let dtype := if t.dtype = .void then [] else [("dtype", Doc.str t.dtype.text)]
  match t.shape with
  | .known dims => .call (p.builtin "Tensor") [shapeTuple dims] dtype
  | .rank n => .call (p.builtin "Tensor") [] (dtype ++ [rankKeyword n])

def dtensorDoc (p : Printer) (t : TensorInfo) (deviceMesh placement : String) : Doc :=
  let rest : List Doc := [.str t.dtype.text, .str deviceMesh, .str placement]
  match t.shape with
  | .known dims => .call (p.builtin "DTensor") (shapeTuple dims :: rest) []
  | .rank n => .call (p.builtin "DTensor") (.none :: rest) [rankKeyword n]

mutual

def infoDoc (p : Printer) : StructInfo → Doc
  | .tensor t => p.tensorDoc t
  | .dtensor t mesh placement => p.dtensorDoc t mesh placement
  | .tuple fields => .call (p.builtin "Tuple") (p.infoDocs fields) []
  | .shape (.known dims) => .call (p.builtin "Shape") [shapeList dims] []
  | .shape (.rank n) => .call (p.builtin "Shape") [] [rankKeyword n]
  | .prim t => .call (p.builtin "Prim") [.str t.text] []
  | .object => p.builtin "Object"

def infoDocs (p : Printer) : List StructInfo → List Doc
  | [] => []
  | s :: ss => p.infoDoc s :: p.infoDocs ss

end

def fieldDoc : FieldValue → Doc
  | .ints values => .list (values.map .int)
  | .int n => .int n.toInt64
  | .str s => .str s
  | .dtype t => .str t.text

def recordKeywords (fields : List (String × FieldValue)) : List (String × Doc) :=
  fields.map fun (key, value) => (key, fieldDoc value)

def inCalleePlace (arg : Expr) (printed : Printed) : Printed :=
  match arg with
  | .externFunc symbol => .ok (.str symbol)
  | _ => printed

/-- Arguments of a call; the first of them stands in the place of a callee. -/
def argDocs (args : List Expr) (printed : List Printed) : Except PrintError (List Doc) :=
  (args.zip printed).zipIdx.mapM fun ((arg, printed), i) =>
    if i = 0 then inCalleePlace arg printed else printed

def isFused (op : String) : Bool :=
  op = FusedCall.tirName || op = FusedCall.packedName

def outputDoc (p : Printer) : StructInfo → Doc
  | .tuple fields => .list (p.infoDocs fields)
  | info => p.infoDoc info

def fusedCallDoc (p : Printer) (op : String) (args : List Expr) (printed : List Printed)
    (infoArgs : List StructInfo) : Printed := do
  unless args.length = 2 ∨ args.length = 3 do
    throw (.malformedCall op s!"expected 2 or 3 arguments, got {args.length}")
  let [out] := infoArgs
    | throw (.malformedCall op
        s!"expected exactly one output struct info, got {infoArgs.length}")
  let docs ← argDocs (args.take 2) (printed.take 2)
  let outKeyword := ("out_sinfo", p.outputDoc out)
  if op = FusedCall.packedName then
    if args.length = 3 then throw (.malformedCall op "tir_vars are not supported")
    return .call (p.builtin "call_dps_packed") docs [outKeyword]
  let tirVars ← (printed.drop 2).mapM fun vars => return ("tir_vars", ← vars)
  let name := if out.containsDTensor then "dist.call_tir" else "call_tir"
  return .call (p.builtin name) docs (outKeyword :: tirVars)

/-- The callee of a call, and the arguments in front of the given ones. -/
def calleeDoc (p : Printer) : Expr → Except PrintError (Doc × List Doc)
  | .externFunc symbol => .ok (p.builtin "call_packed", [.str symbol])
  | .op name => .ok (p.opRef name, [])
  | .var name _ | .globalVar name => .ok (.id name, [])
  | e => .error (.unsupportedCallee e.kindName)

def typeKeyKeyword : Expr → Option Attrs → List (String × Doc)
  | .externFunc _, some attrs => [("attrs_type_key", .str attrs.typeKey)]
  | _, _ => []

def infoKeyword (p : Printer) : List StructInfo → List (String × Doc)
  | [] => []
  | [info] => [("sinfo_args", p.infoDoc info)]
  | infos => [("sinfo_args", .tuple (p.infoDocs infos))]

def plainCallDoc (p : Printer) (callee : Expr) (args : List Expr) (printed : List Printed)
    (attrs : Option Attrs) (keywords : Except PrintError (List (String × Doc)))
    (infoArgs : List StructInfo) : Printed := do
  let (calleeDoc, leading) ← p.calleeDoc callee
  let docs ← argDocs args printed
  return .call calleeDoc (leading ++ docs)
    (typeKeyKeyword callee attrs ++ (← keywords) ++ p.infoKeyword infoArgs)

/-- The first value without a textual form keeps all of them from being printed. -/
def keywords : List (String × Printed) → Except PrintError (List (String × Doc))
  | [] => .ok []
  | (key, printed) :: rest => do
    let doc ← printed
    return (key, doc) :: (← keywords rest)

mutual

def exprDoc (p : Printer) : Expr → Printed
  | .var name _ => .ok (.id name)
  | .globalVar name => .ok (.id name)
  | .externFunc symbol => .ok (.call (p.builtin "ExternFunc") [.str symbol] [])
  | .op name => .ok (p.opRef name)
  | .tuple fields => do return .tuple (← (p.exprDocs fields).mapM id)
  | .shape dims => .ok (.call (p.builtin "shape") [shapeList dims] [])
  | .prim value _ => .ok (.call (p.builtin "prim_value") [.dim value] [])
  | .str s => .ok (.call (p.builtin "str") [.str s] [])
  | .dtype t => .ok (.call (p.builtin "dtype") [.str t.text] [])
  | .call c => p.callDoc c

def exprDocs (p : Printer) : List Expr → List Printed
  | [] => []
  | e :: es => p.exprDoc e :: p.exprDocs es

def callDoc (p : Printer) : Call → Printed
  | ⟨callee, args, attrs, infoArgs⟩ =>
    match callee with
    | .op name =>
      if isFused name then p.fusedCallDoc name args (p.exprDocs args) infoArgs
      else p.plainCallDoc (.op name) args (p.exprDocs args) attrs (p.attrsKeywords attrs) infoArgs
    | callee => p.plainCallDoc callee args (p.exprDocs args) attrs (p.attrsKeywords attrs) infoArgs

def attrsKeywords (p : Printer) : Option Attrs → Except PrintError (List (String × Doc))
  | none => .ok []
  | some attrs => p.attrsDoc attrs

def attrsDoc (p : Printer) : Attrs → Except PrintError (List (String × Doc))
  | .conv2d a => .ok (recordKeywords a.fields)
  | .conv2dTranspose a => .ok (recordKeywords a.fields)
  | .dict entries => keywords (Dictionary.sortByKey (p.entryDocs entries))
  | .custom _ fields => keywords (p.fieldDocs fields)

def entryDocs (p : Printer) : List (String × Object) → List (String × Printed)
  | [] => []
  | (key, value) :: entries => (key, p.objectDoc value) :: p.entryDocs entries

def fieldDocs (p : Printer) : List (String × AttrValue) → List (String × Printed)
  | [] => []
  | (key, value) :: fields => (key, p.attrValueDoc key value) :: p.fieldDocs fields

def attrValueDoc (p : Printer) (key : String) : AttrValue → Printed
  | .f64 x => .ok (.float x)
  | .i64 n => .ok (.int n)
  | .u64 n => .ok (.uint n)
  | .int n => .ok (.int n.toInt64)
  | .bool b => .ok (.bool b)
  | .str s => .ok (.str s)
  | .dtype t => .ok (.str t.text)
  | .object o => p.objectDoc o
  | .rawPtr => .error (.unsupportedAttrField key AttrValue.rawPtr.kindName)
  | .ndarray => .error (.unsupportedAttrField key AttrValue.ndarray.kindName)

def objectDoc (p : Printer) : Object → Printed
  | .int n => .ok (.int n)
  | .float x => .ok (.float x)
  | .bool b => .ok (.bool b)
  | .str s => .ok (.str s)
  | .ints values => .ok (.list (values.map .int))
  | .array items => do return .list (← (p.objectDocs items).mapM id)
  | .expr e => p.exprDoc e

def objectDocs (p : Printer) : List Object → List Printed
  | [] => []
  | o :: os => p.objectDoc o :: p.objectDocs os

end

def printInfo (p : Printer) (info : StructInfo) : String :=
  (p.infoDoc info).text

def printExpr (p : Printer) (e : Expr) : Except PrintError String :=
  (p.exprDoc e).map Doc.text

def printCall (p : Printer) (c : Call) : Except PrintError String :=
  (p.callDoc c).map Doc.text

end Printer

end TensorIR
