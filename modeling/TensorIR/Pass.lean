import TensorIR.Expr.Printer
import TensorIR.Operators
import TensorIR.Settings

/-!
The inference pass, which infers independent calls, and the options that come from the environment.
-/

namespace TensorIR

/-- How a pass runs. The options have no influence on its results. -/
structure PassOptions where
  parallel : Bool := true
  -- The size of a thread pool for the pass alone.
  numThreads : Option UInt64 := none
  deriving DecidableEq, Repr, Inhabited

def PassOptions.inspect (options : PassOptions) : String :=
  Inspect.record "PassOptions" [("parallel", Inspect.bool options.parallel),
    ("num_threads", Inspect.option (options.numThreads.map fun n => toString n.toNat))]

def Environment.passOptions (env : Environment) : Logged PassOptions := do
  let parallel ← env.read? "PARALLEL_INFERENCE" Setting.readSwitch?
  let numThreads ← env.read? "INFERENCE_THREADS" Setting.readThreadCount?
  return { parallel := parallel.getD true, numThreads }

def Environment.printer (env : Environment) : Logged Printer := do
  let irPrefix ← env.read? "IR_PREFIX" Setting.readIdentifier?
  return { irPrefix := irPrefix.getD "R" }

structure InferencePass where
  registry : Registry := .builtins
  options : PassOptions := {}

def InferencePass.run (pass : InferencePass) (calls : List Call) :
    Logged (List (Except Diagnostic StructInfo)) := do
  emit (.passStarted calls.length)
  let results ← calls.mapM fun c => (pass.registry.infer c).run
  emit (.passFinished (results.filter (!·.isOk)).length)
  return results

end TensorIR
