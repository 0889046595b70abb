import TensorIR.Inference

/-!
Calls of functions that write to memory given to them. The result is not inferred but declared, by
one annotation on the call.
-/

namespace TensorIR.FusedCall

def tirName : String :=
  "relax.call_tir"

def packedName : String :=
  "relax.call_dps_packed"

def tir (callee : Expr) (args : List Expr) (out : StructInfo) (tirVars : Option Expr) : Call where
  callee := .op tirName
  args := [callee, .tuple args] ++ tirVars.toList
  attrs := none
  infoArgs := [out]

def packed (callee : Expr) (args : List Expr) (out : StructInfo) : Call where
  callee := .op packedName
  args := [callee, .tuple args]
  attrs := none
  infoArgs := [out]

/-- The declared result of a call of the operator, which takes `least` to `most` arguments. -/
def declaredOutput (op : String) (least most : Nat) : InferRule := fun app =>
  let args := app.call.args.length
  if least ≤ args ∧ args ≤ most then
    match app.call.infoArgs with
    | [out] => pure out
    | infos =>
      throw ⟨.invalidArguments, op, some .infoArgs,
        s!"expects exactly one output struct info annotation, got {infos.length}"⟩
  else
    throw ⟨.invalidArguments, op, none,
      s!"expects {least} to {most} arguments, but {args} were given"⟩

def inferTir : InferRule :=
  declaredOutput tirName 2 3

def inferPacked : InferRule :=
  declaredOutput packedName 2 2

end TensorIR.FusedCall
