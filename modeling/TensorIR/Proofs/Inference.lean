import TensorIR.Inference
import TensorIR.Proofs.Dictionary

/-!
Inference and the log. What a computation returns is read off step by step. Computations only add to
the log, so what they return does not depend on the events before them; inference is of this kind if
the rules of the registry are.
-/

namespace TensorIR

section Logged

variable {ε α β : Type}

/-- From some log on, the computation succeeds with this value. -/
def Returns (x : ExceptT ε Logged α) (a : α) : Prop :=
  ∃ log log', x.run.run log = (.ok a, log')

/-- From some log on, the computation fails with this error. -/
def Fails (x : ExceptT ε Logged α) (e : ε) : Prop :=
  ∃ log log', x.run.run log = (.error e, log')

/-- From every log on, the computation ends in this way. -/
def HasOutcome (x : ExceptT ε Logged α) (r : Except ε α) : Prop :=
  ∀ log, (x.run.run log).1 = r

/-- The computation does not look at the log, and adds the same events behind every log. -/
def AddsEvents (x : ExceptT ε Logged α) : Prop :=
  ∃ result events, ∀ log, x.run.run log = (result, log ++ events)

theorem run_bind (x : ExceptT ε Logged α) (f : α → ExceptT ε Logged β) (log : List Event) :
    (x >>= f).run.run log =
      match x.run.run log with
      | (.ok a, log') => (f a).run.run log'
      | (.error e, log') => (.error e, log') := by
  rw [ExceptT.run_bind, StateT.run_bind]
  cases h : x.run.run log with
  | mk result log' =>
    cases result with
    | ok a => rfl
    | error e => rfl

theorem returns_pure_iff {a b : α} : Returns (pure a : ExceptT ε Logged α) b ↔ a = b := by
  constructor
  · intro ⟨log, log', h⟩
    exact Except.ok.inj (Prod.mk.inj h).1
  · intro h
    exact ⟨[], [], by rw [h]; rfl⟩

theorem not_returns_throw {e : ε} {a : α} : ¬ Returns (throw e : ExceptT ε Logged α) a := by
  intro ⟨log, log', h⟩
  cases (Prod.mk.inj h).1

theorem exists_returns {x : ExceptT ε Logged α} (h : (x.run.run []).1.isOk = true) :
    ∃ a, Returns x a := by
  cases hx : x.run.run [] with
  | mk result log =>
    rw [hx] at h
    cases result with
    | ok a => exact ⟨a, [], log, hx⟩
    | error e => cases h

theorem fails_of_map_eq {x : ExceptT ε Logged α} {e : ε}
    (h : ((x.run.run []).1.map fun _ => ()) = .error e) : Fails x e := by
  cases hx : x.run.run [] with
  | mk result log =>
    rw [hx] at h
    cases result with
    | ok a => cases h
    | error e' =>
      cases h
      exact ⟨[], log, hx⟩

theorem Returns.bind {x : ExceptT ε Logged α} {f : α → ExceptT ε Logged β} {b : β}
    (h : Returns (x >>= f) b) : ∃ a, Returns x a ∧ Returns (f a) b := by
  obtain ⟨log, log', h⟩ := h
  rw [run_bind] at h
  split at h
  case h_1 a log₁ hx => exact ⟨a, ⟨log, log₁, hx⟩, ⟨log₁, log', h⟩⟩
  case h_2 => cases (Prod.mk.inj h).1

theorem not_fails_pure {a : α} {e : ε} : ¬ Fails (pure a : ExceptT ε Logged α) e := by
  intro ⟨log, log', h⟩
  cases (Prod.mk.inj h).1

theorem eq_of_fails_throw {e e' : ε} (h : Fails (throw e : ExceptT ε Logged α) e') : e' = e := by
  obtain ⟨log, log', h⟩ := h
  exact (Except.error.inj (Prod.mk.inj h).1).symm

theorem Fails.bind {x : ExceptT ε Logged α} {f : α → ExceptT ε Logged β} {e : ε}
    (h : Fails (x >>= f) e) : Fails x e ∨ ∃ a, Returns x a ∧ Fails (f a) e := by
  obtain ⟨log, log', h⟩ := h
  rw [run_bind] at h
  split at h
  case h_1 a log₁ hx => exact .inr ⟨a, ⟨log, log₁, hx⟩, ⟨log₁, log', h⟩⟩
  case h_2 e' log₁ hx =>
    rw [Except.error.inj (Prod.mk.inj h).1] at hx
    exact .inl ⟨log, log₁, hx⟩

theorem Returns.of_except {e : Except ε α} {a : α}
    (h : Returns (liftM e : ExceptT ε Logged α) a) : e = .ok a := by
  obtain ⟨log, log', h⟩ := h
  exact (Prod.mk.inj h).1

theorem AddsEvents.eq_of_returns {x : ExceptT ε Logged α} (hx : AddsEvents x) {a b : α}
    (ha : Returns x a) (hb : Returns x b) : a = b := by
  obtain ⟨result, events, hx⟩ := hx
  obtain ⟨_, _, ha⟩ := ha
  obtain ⟨_, _, hb⟩ := hb
  rw [hx] at ha hb
  have hab := (Prod.mk.inj ha).1.symm.trans (Prod.mk.inj hb).1
  exact Except.ok.inj hab

theorem AddsEvents.not_fails_of_returns {x : ExceptT ε Logged α} (hx : AddsEvents x) {a : α} {e : ε}
    (ha : Returns x a) : ¬ Fails x e := by
  intro he
  obtain ⟨result, events, hx⟩ := hx
  obtain ⟨_, _, ha⟩ := ha
  obtain ⟨_, _, he⟩ := he
  rw [hx] at ha he
  cases (Prod.mk.inj ha).1.symm.trans (Prod.mk.inj he).1

theorem AddsEvents.exists_hasOutcome {x : ExceptT ε Logged α} (hx : AddsEvents x) :
    ∃ r, HasOutcome x r := by
  obtain ⟨result, events, hx⟩ := hx
  refine ⟨result, ?_⟩
  intro log
  rw [hx]

theorem HasOutcome.eq_ok {x : ExceptT ε Logged α} {r : Except ε α} {a : α} (hx : HasOutcome x r)
    (ha : Returns x a) : r = .ok a := by
  obtain ⟨log, log', ha⟩ := ha
  rw [← hx log, ha]

theorem HasOutcome.eq_error {x : ExceptT ε Logged α} {r : Except ε α} {e : ε} (hx : HasOutcome x r)
    (he : Fails x e) : r = .error e := by
  obtain ⟨log, log', he⟩ := he
  rw [← hx log, he]

theorem HasOutcome.returns {x : ExceptT ε Logged α} {a : α} (hx : HasOutcome x (.ok a)) :
    Returns x a :=
  ⟨[], (x.run.run []).2, Prod.ext (hx []) rfl⟩

theorem HasOutcome.fails {x : ExceptT ε Logged α} {e : ε} (hx : HasOutcome x (.error e)) :
    Fails x e :=
  ⟨[], (x.run.run []).2, Prod.ext (hx []) rfl⟩

theorem AddsEvents.hasOutcome_of_returns {x : ExceptT ε Logged α} (hx : AddsEvents x) {a : α}
    (ha : Returns x a) : HasOutcome x (.ok a) := by
  obtain ⟨r, hr⟩ := hx.exists_hasOutcome
  rwa [hr.eq_ok ha] at hr

theorem hasOutcome_pure (a : α) : HasOutcome (pure a : ExceptT ε Logged α) (.ok a) :=
  fun _ => rfl

theorem HasOutcome.bind_ok {x : ExceptT ε Logged α} {f : α → ExceptT ε Logged β} {a : α}
    {r : Except ε β} (hx : HasOutcome x (.ok a)) (hf : HasOutcome (f a) r) :
    HasOutcome (x >>= f) r := by
  intro log
  have ha := hx log
  rw [run_bind]
  split
  case h_1 b log₁ h =>
    rw [h] at ha
    cases ha
    exact hf log₁
  case h_2 e log₁ h =>
    rw [h] at ha
    cases ha

theorem HasOutcome.bind_error {x : ExceptT ε Logged α} {e : ε} (hx : HasOutcome x (.error e))
    (f : α → ExceptT ε Logged β) : HasOutcome (x >>= f) (.error e) := by
  intro log
  have he := hx log
  rw [run_bind]
  split
  case h_1 a log₁ h =>
    rw [h] at he
    cases he
  case h_2 e' log₁ h =>
    rw [h] at he
    cases he
    rfl

theorem addsEvents_pure (a : α) : AddsEvents (pure a : ExceptT ε Logged α) := by
  refine ⟨.ok a, [], ?_⟩
  intro log
  rw [List.append_nil]
  rfl

theorem addsEvents_throw (e : ε) : AddsEvents (throw e : ExceptT ε Logged α) := by
  refine ⟨.error e, [], ?_⟩
  intro log
  rw [List.append_nil]
  rfl

theorem addsEvents_emit (event : Event) :
    AddsEvents (emit event : ExceptT ε Logged Unit) :=
  ⟨.ok (), [event], fun _ => rfl⟩

theorem AddsEvents.bind {x : ExceptT ε Logged α} {f : α → ExceptT ε Logged β} (hx : AddsEvents x)
    (hf : ∀ a, AddsEvents (f a)) : AddsEvents (x >>= f) := by
  obtain ⟨result, events, hx⟩ := hx
  cases result with
  | ok a =>
    obtain ⟨result', events', hf⟩ := hf a
    refine ⟨result', events ++ events', ?_⟩
    intro log
    rw [run_bind, hx, ← List.append_assoc]
    exact hf (log ++ events)
  | error e =>
    refine ⟨.error e, events, ?_⟩
    intro log
    rw [run_bind, hx]

theorem AddsEvents.map {x : ExceptT ε Logged α} (hx : AddsEvents x) (f : α → β) :
    AddsEvents (f <$> x) := by
  rw [map_eq_pure_bind]
  exact hx.bind fun a => addsEvents_pure (f a)

end Logged

section Checks

variable {check : String} {violation : Predicate} {diagnostic : Diagnostic}

theorem addsEvents_rejectIfProved : AddsEvents (rejectIfProved check violation diagnostic) := by
  unfold rejectIfProved
  split
  · exact addsEvents_throw diagnostic
  · exact addsEvents_pure ()
  · apply addsEvents_emit

theorem prove_ne_holds_of_returns (h : Returns (rejectIfProved check violation diagnostic) ()) :
    violation.prove ≠ .holds := by
  intro hholds
  unfold rejectIfProved at h
  rw [hholds] at h
  exact not_returns_throw h

theorem fails_rejectIfProved {d : Diagnostic}
    (h : Fails (rejectIfProved check violation diagnostic) d) :
    violation.prove = .holds ∧ d = diagnostic := by
  unfold rejectIfProved at h
  split at h
  case h_1 hholds => exact ⟨hholds, eq_of_fails_throw h⟩
  case h_2 => exact absurd h not_fails_pure
  case h_3 =>
    obtain ⟨log, log', h⟩ := h
    cases (Prod.mk.inj h).1

end Checks

section Kinds

variable {α β : Type} {kinds : List DiagnosticKind}

/-- Every failure is of one of these kinds. -/
def FailsOnlyWith (kinds : List DiagnosticKind) (x : Infer α) : Prop :=
  ∀ d, Fails x d → d.kind ∈ kinds

theorem failsOnlyWith_pure (a : α) : FailsOnlyWith kinds (pure a) :=
  fun _ h => absurd h not_fails_pure

theorem failsOnlyWith_throw {d : Diagnostic} (h : d.kind ∈ kinds) :
    FailsOnlyWith kinds (throw d : Infer α) := by
  intro d' hd'
  rwa [eq_of_fails_throw hd']

theorem failsOnlyWith_rejectIfProved {check : String} {violation : Predicate}
    {diagnostic : Diagnostic} (h : diagnostic.kind ∈ kinds) :
    FailsOnlyWith kinds (rejectIfProved check violation diagnostic) := by
  intro d hd
  rwa [(fails_rejectIfProved hd).2]

theorem FailsOnlyWith.bind {x : Infer α} {f : α → Infer β} (hx : FailsOnlyWith kinds x)
    (hf : ∀ a, Returns x a → FailsOnlyWith kinds (f a)) : FailsOnlyWith kinds (x >>= f) := by
  intro d hd
  cases hd.bind with
  | inl h => exact hx d h
  | inr h =>
    obtain ⟨a, ha, h⟩ := h
    exact hf a ha d h

end Kinds

def OpDef.RuleAddsEvents (op : OpDef) : Prop :=
  ∀ rule, op.rule = some rule → ∀ app, (∀ x ∈ app.operands, AddsEvents x) → AddsEvents (rule app)

namespace Registry

variable {reg : Registry}

def RulesAddEvents (reg : Registry) : Prop :=
  ∀ entry ∈ reg.ops, entry.2.RuleAddsEvents

theorem rulesAddEvents_empty : empty.RulesAddEvents := by
  intro entry h
  cases h

theorem RulesAddEvents.register (h : reg.RulesAddEvents) {op : OpDef} (hop : op.RuleAddsEvents)
    (name : String) : (reg.register name op).RulesAddEvents := by
  intro entry hentry
  cases Dictionary.mem_of_mem_insert hentry with
  | inl heq =>
    rw [heq]
    exact hop
  | inr hmem => exact h entry hmem

theorem RulesAddEvents.of_get? (h : reg.RulesAddEvents) {name : String} {op : OpDef}
    (hop : reg.get? name = some op) : op.RuleAddsEvents := by
  obtain ⟨entry, hentry, rfl⟩ := Dictionary.exists_mem_of_get? hop
  exact h entry hentry

theorem addsEvents_annotated (call : Call) : AddsEvents (annotated call) := by
  unfold annotated
  split
  · apply addsEvents_pure
  · apply addsEvents_throw

theorem infer_op (name : String) (args : List Expr) (attrs : Option Attrs)
    (infoArgs : List StructInfo) {op : OpDef} {rule : InferRule} (h : reg.get? name = some op)
    (hrule : op.rule = some rule) :
    reg.infer ⟨.op name, args, attrs, infoArgs⟩ =
      rule ⟨⟨.op name, args, attrs, infoArgs⟩, reg.inferAll args, reg.size⟩ := by
  rw [infer, ruleFor?, h]
  dsimp only
  rw [hrule]
  rfl

theorem returns_inferExpr_var (reg : Registry) (name : String) (info : StructInfo) :
    Returns (reg.inferExpr (.var name (some info))) (some info) :=
  ⟨[], [], rfl⟩

mutual

theorem addsEvents_infer (h : reg.RulesAddEvents) (c : Call) : AddsEvents (reg.infer c) := by
  match c with
  | ⟨callee, args, attrs, infoArgs⟩ =>
    cases callee with
    | op name =>
      cases hop : reg.get? name with
      | none =>
        rw [infer, ruleFor?, hop]
        apply addsEvents_throw
      | some op =>
        cases hrule : op.rule with
        | none =>
          rw [infer, ruleFor?, hop]
          dsimp only
          rw [hrule]
          apply addsEvents_annotated
        | some rule =>
          rw [infer_op name args attrs infoArgs hop hrule]
          exact h.of_get? hop rule hrule _ (addsEvents_inferAll h args)
    | _ =>
      rw [infer]
      apply addsEvents_annotated

theorem addsEvents_inferExpr (h : reg.RulesAddEvents) (e : Expr) :
    AddsEvents (reg.inferExpr e) := by
  match e with
  | .call c => exact (addsEvents_infer h c).map some
  | .var .. | .globalVar _ | .externFunc _ | .op _ | .tuple _ | .shape _ | .prim .. | .str _
  | .dtype _ => apply addsEvents_pure

theorem addsEvents_inferAll (h : reg.RulesAddEvents) (es : List Expr) :
    ∀ x ∈ reg.inferAll es, AddsEvents x := by
  match es with
  | [] => simp [inferAll]
  | e :: es =>
    rw [inferAll, List.forall_mem_cons]
    exact ⟨addsEvents_inferExpr h e, addsEvents_inferAll h es⟩

end

end Registry

end TensorIR
