import TensorIR.Proofs.Conv2d.Steps

/-!
Inference of calls, step by step: a call of a built-in operator is inferred by its rule, any other
call from its annotations.
-/

namespace TensorIR

open Stepwise Conv2d

namespace FusedCall

/-- The declared result is read without a step that may stop. -/
def declaredOutputSteps (op : String) (least most : Nat) : StepwiseRule := fun app =>
  runs (declaredOutput op least most ⟨app.call, [], 0⟩)

theorem noShapeFailure_declaredOutput (op : String) (least most : Nat) (app : Application) :
    NoShapeFailure (declaredOutput op least most app) := by
  unfold declaredOutput
  dsimp only
  split
  · split
    · apply noShapeFailure_pure
    · exact noShapeFailure_throw nofun
  · exact noShapeFailure_throw nofun

end FusedCall

/-- The rules of the built-in operators. -/
def stepwiseRules : List (String × StepwiseRule) :=
  [(FusedCall.packedName, FusedCall.declaredOutputSteps FusedCall.packedName 2 2),
    (FusedCall.tirName, FusedCall.declaredOutputSteps FusedCall.tirName 2 3),
    (Conv2dAttrs.opName, Direction.forward.ruleSteps),
    (Conv2dTransposeAttrs.opName, Direction.transpose.ruleSteps)]

mutual

def inferSteps : Call → Stepwise StructInfo
  | ⟨callee, args, attrs, infoArgs⟩ =>
    match callee with
    | .op name =>
      match Dictionary.get? stepwiseRules name with
      | some rule => rule ⟨⟨callee, args, attrs, infoArgs⟩, inferAllSteps args⟩
      | none => throw ⟨.unknownOperator, name, none, "operator is not registered"⟩
    | _ => runs (Registry.annotated ⟨callee, args, attrs, infoArgs⟩)

def inferExprSteps : Expr → Stepwise (Option StructInfo)
  | .call c => some <$> inferSteps c
  | e => pure e.structInfo?

def inferAllSteps : List Expr → List (Stepwise (Option StructInfo))
  | [] => []
  | e :: es => inferExprSteps e :: inferAllSteps es

end

/-- Where the steps of the operands are safe, so are those of the rule. -/
def SafeRule (rule : StepwiseRule) (op : OpDef) : Prop :=
  ∃ rule', op.rule = some rule' ∧ ∀ app steps, List.Forall₂ Safe steps app.operands →
    Safe (rule ⟨app.call, steps⟩) (rule' app)

theorem Dictionary.rel_get? {α β : Type} {R : α → β → Prop} {entries : List (String × α)}
    {entries' : List (String × β)}
    (h : List.Forall₂ (fun entry entry' => entry.1 = entry'.1 ∧ R entry.2 entry'.2)
      entries entries')
    (key : String) : Option.Rel R (get? entries key) (get? entries' key) := by
  induction h with
  | nil => exact .none
  | @cons entry entry' entries entries' hentry _ ih =>
    obtain ⟨hkey, hvalue⟩ := hentry
    unfold get? at ih ⊢
    rw [List.find?_cons, List.find?_cons, hkey]
    split
    · exact .some hvalue
    · exact ih

theorem safeRule_direction (dir : Direction) {op : OpDef} (h : op.rule = some dir.rule) :
    SafeRule dir.ruleSteps op :=
  ⟨dir.rule, h, fun _ _ hsteps => safe_ruleSteps dir hsteps⟩

theorem safeRule_declaredOutput (name : String) (least most : Nat) {op : OpDef}
    (h : op.rule = some (FusedCall.declaredOutput name least most)) :
    SafeRule (FusedCall.declaredOutputSteps name least most) op :=
  ⟨_, h, fun app _ _ => (FusedCall.noShapeFailure_declaredOutput name least most app).safe⟩

theorem rel_get?_builtins (name : String) :
    Option.Rel SafeRule (Dictionary.get? stepwiseRules name) (Registry.builtins.get? name) := by
  rw [Registry.get?, Registry.ops_builtins]
  apply Dictionary.rel_get?
  refine .cons ⟨rfl, ?_⟩ (.cons ⟨rfl, ?_⟩ (.cons ⟨rfl, ?_⟩ (.cons ⟨rfl, ?_⟩ .nil)))
  · exact safeRule_declaredOutput _ _ _ rfl
  · exact safeRule_declaredOutput _ _ _ rfl
  · exact safeRule_direction .forward rfl
  · exact safeRule_direction .transpose rfl

theorem stepwiseRules_cases (name : String) :
    (Dictionary.get? stepwiseRules name = none ∧ Registry.builtins.get? name = none) ∨
      ∃ rule op, Dictionary.get? stepwiseRules name = some rule ∧
        Registry.builtins.get? name = some op ∧ SafeRule rule op := by
  have hrel := rel_get?_builtins name
  generalize Dictionary.get? stepwiseRules name = rule, Registry.builtins.get? name = op at hrel ⊢
  cases hrel with
  | some h => exact .inr ⟨_, _, rfl, rfl, h⟩
  | none => exact .inl ⟨rfl, rfl⟩

theorem noShapeFailure_annotated (call : Call) : NoShapeFailure (Registry.annotated call) := by
  unfold Registry.annotated
  split
  · apply noShapeFailure_pure
  · exact noShapeFailure_throw nofun

mutual

theorem safe_inferSteps (c : Call) : Safe (inferSteps c) (Registry.builtins.infer c) := by
  match c with
  | ⟨callee, args, attrs, infoArgs⟩ =>
    cases callee with
    | op name =>
      rcases stepwiseRules_cases name with ⟨hsteps, hop⟩ | ⟨steps, op, hsteps, hop, hsafe⟩
      · rw [inferSteps, hsteps, Registry.infer, Registry.ruleFor?, hop]
        exact .throw nofun
      · obtain ⟨rule, hrule, hsafe⟩ := hsafe
        rw [inferSteps, hsteps, Registry.infer_op name args attrs infoArgs hop hrule]
        exact hsafe ⟨_, _, Registry.builtins.size⟩ _ (safe_inferAllSteps args)
    | _ =>
      rw [inferSteps, Registry.infer]
      · exact (noShapeFailure_annotated _).safe
      · nofun

theorem safe_inferExprSteps (e : Expr) :
    Safe (inferExprSteps e) (Registry.builtins.inferExpr e) := by
  match e with
  | .call c =>
    rw [inferExprSteps, Registry.inferExpr, map_eq_pure_bind, map_eq_pure_bind]
    apply (safe_inferSteps c).bind
    intro info _
    apply Safe.pure
  | .var .. | .globalVar _ | .externFunc _ | .op _ | .tuple _ | .shape _ | .prim .. | .str _
  | .dtype _ => apply Safe.pure

theorem safe_inferAllSteps (es : List Expr) :
    List.Forall₂ Safe (inferAllSteps es) (Registry.builtins.inferAll es) := by
  match es with
  | [] =>
    rw [inferAllSteps, Registry.inferAll]
    exact .nil
  | e :: es =>
    rw [inferAllSteps, Registry.inferAll]
    exact .cons (safe_inferExprSteps e) (safe_inferAllSteps es)

end

/--
Inference never stops. Step by step it succeeds or fails as it does without steps that may stop, and
it never reports that a canonical shape lacks a dimension or cannot be converted.
-/
theorem infer_never_stops (call : Call) :
    ∃ outcome, HasOutcome (Registry.builtins.infer call) outcome ∧
      (∀ log, (inferSteps call).run.run log =
        some ((Registry.builtins.infer call).run.run log)) ∧
      ∀ d, outcome = .error d → ¬ ShapeFailure d := by
  obtain ⟨outcome, houtcome⟩ :=
    (Registry.addsEvents_infer Registry.rulesAddEvents_builtins call).exists_hasOutcome
  have hsafe := safe_inferSteps call
  refine ⟨outcome, houtcome, ?_, ?_⟩
  · intro log
    rw [hsafe.eq_runs]
    rfl
  · intro d hd
    rw [hd] at houtcome
    exact hsafe.noShapeFailure d ⟨[], _, Prod.ext (houtcome []) rfl⟩

end TensorIR
