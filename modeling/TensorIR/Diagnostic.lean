/-!
Diagnostics: why the struct info of a call cannot be inferred.
-/

namespace TensorIR

inductive DiagnosticKind where
  | invalidLayout
  | rankMismatch
  | channelMismatch
  | groupDivisibility
  | outputPadding
  | shapeOverflow
  | dtypeMismatch
  | invalidArguments
  | missingAttrs
  -- The callee is not registered, or there is nothing to infer from.
  | unknownOperator
  -- A shape in canonical layout lacks one of its dimensions; conversion never leaves one out.
  | missingDimension
  deriving DecidableEq, Repr, Inhabited

inductive CallPath where
  | arg (index : Nat)
  | attr (name : String)
  | infoArgs
  deriving DecidableEq, Repr, Inhabited

def CallPath.text : CallPath → String
  | .arg i => s!"args[{i}]"
  | .attr name => s!"attrs.{name}"
  | .infoArgs => "sinfo_args"

structure Diagnostic where
  kind : DiagnosticKind
  op : String
  path : Option CallPath
  message : String
  deriving DecidableEq, Repr, Inhabited

def Diagnostic.text (d : Diagnostic) : String :=
  match d.path with
  | some path => s!"{d.op} ({path.text}): {d.message}"
  | none => s!"{d.op}: {d.message}"

end TensorIR
