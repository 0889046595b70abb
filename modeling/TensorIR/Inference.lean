import TensorIR.Diagnostic
import TensorIR.Dictionary
import TensorIR.Event
import TensorIR.Expr.Basic

/-!
Inference of the struct info of calls. A registry holds the operators by name, each with the rule
that infers its calls. A rule sees the call, and the inference of each operand, which runs when the
rule asks for it.
-/

namespace TensorIR

/-- Computations that report events and may fail with a diagnostic; a failure keeps the events. -/
abbrev Infer := ExceptT Diagnostic Logged

structure Application where
  call : Call
  -- The struct info of each operand, once asked for; an operand may have none.
  operands : List (Infer (Option StructInfo))
  -- How many operators are registered.
  registered : Nat

abbrev InferRule := Application → Infer StructInfo

/-- Fails if the violation is proved. Where nothing is known, the shapes are trusted. -/
def rejectIfProved (check : String) (violation : Predicate) (diagnostic : Diagnostic) :
    Infer Unit :=
  match violation.prove with
  | .holds => throw diagnostic
  | .fails => pure ()
  | .unknown => emit (.undecided check violation)

structure OpArgument where
  name : String
  typeInfo : String
  description : String
  deriving DecidableEq, Repr, Inhabited

structure OpDef where
  -- The number of operands; a variadic operator has none.
  numInputs : Option Nat := none
  arguments : List OpArgument := []
  attrsType : Option String := none
  rule : Option InferRule := none

structure Registry where
  ops : List (String × OpDef)

namespace Registry

def empty : Registry :=
  ⟨[]⟩

/-- Registers an operator; another of the same name is replaced. -/
def register (reg : Registry) (name : String) (op : OpDef) : Registry :=
  ⟨Dictionary.insert name op reg.ops⟩

def get? (reg : Registry) (name : String) : Option OpDef :=
  Dictionary.get? reg.ops name

def size (reg : Registry) : Nat :=
  reg.ops.length

def isEmpty (reg : Registry) : Bool :=
  reg.ops.isEmpty

/-- The rule for a callee. An operator must be registered; only operators have rules. -/
def ruleFor? (reg : Registry) : Expr → Except Diagnostic (Option InferRule)
  | .op name =>
    match reg.get? name with
    | some op => .ok op.rule
    | none => .error ⟨.unknownOperator, name, none, "operator is not registered"⟩
  | _ => .ok none

def annotated (call : Call) : Infer StructInfo :=
  match call.infoArgs with
  | [info] => pure info
  | infos => throw ⟨.unknownOperator, call.opName?.getD "<callee>", none,
      "cannot infer struct info without an inference function and with " ++
      s!"{infos.length} annotations"⟩

mutual

def infer (reg : Registry) : Call → Infer StructInfo
  | ⟨callee, args, attrs, infoArgs⟩ => do
    match ← reg.ruleFor? callee with
    | some rule => rule ⟨⟨callee, args, attrs, infoArgs⟩, reg.inferAll args, reg.size⟩
    | none => annotated ⟨callee, args, attrs, infoArgs⟩

def inferExpr (reg : Registry) : Expr → Infer (Option StructInfo)
  | .call c => some <$> reg.infer c
  | e => pure e.structInfo?

def inferAll (reg : Registry) : List Expr → List (Infer (Option StructInfo))
  | [] => []
  | e :: es => reg.inferExpr e :: reg.inferAll es

end

end Registry

end TensorIR
