import TensorIR.Conv2d.Basic
import TensorIR.Predicate

/-!
Events: what building, checking and inferring report on the way, beside their results.
-/

namespace TensorIR

inductive Event where
  | conv2dBuilt (attrs : Conv2dAttrs)
  | conv2dTransposeBuilt (attrs : Conv2dTransposeAttrs)
  | undecided (check : String) (violation : Predicate)
  | passStarted (numCalls : Nat)
  | passFinished (failures : Nat)
  | invalidSetting (var value : String)
  deriving Repr, Inhabited

inductive EventKind where
  | trace
  | debug
  | warn
  | span
  deriving DecidableEq, Repr, Inhabited

namespace Event

def kind : Event → EventKind
  | .conv2dBuilt _ | .conv2dTransposeBuilt _ => .trace
  | .undecided .. | .passFinished _ => .debug
  | .passStarted _ => .span
  | .invalidSetting .. => .warn

def message : Event → String
  | .conv2dBuilt _ | .conv2dTransposeBuilt _ => "constructed call"
  | .undecided .. => "check is indeterminate, trusting input shapes"
  | .passStarted _ => "run"
  | .passFinished _ => "inference pass finished"
  | .invalidSetting .. => "ignoring invalid environment setting"

def fields : Event → List (String × String)
  | .conv2dBuilt a => [("op", Conv2dAttrs.opName), ("attrs", a.inspect)]
  | .conv2dTransposeBuilt a => [("op", Conv2dTransposeAttrs.opName), ("attrs", a.inspect)]
  | .undecided check violation => [("check", check), ("violation", violation.inspect)]
  | .passStarted n => [("num_calls", toString n)]
  | .passFinished n => [("failures", toString n)]
  | .invalidSetting var value => [("var", var), ("value", value)]

end Event

/-- Computations that report events, the oldest first. -/
abbrev Logged := StateM (List Event)

def emit (event : Event) : Logged Unit :=
  modify (· ++ [event])

end TensorIR
