import TensorIR.Proofs.Conv2d.RankOnly

/-!
Calls among the operands of a convolution, at any depth. A call gives what a variable with its struct
info would give in its place, except where it is a field of a tuple: the struct info of a tuple is
known without inference or not at all, so a tuple with a call among its fields has none. A
convolution takes no tuples, so what differs is the text of the diagnostic.
-/

namespace TensorIR.Conv2d

/-- An expression with a hole, which is among the operands of calls and the fields of tuples. -/
inductive Context where
  | hole
  | operand (callee : Expr) (before : List Expr) (inner : Context) (after : List Expr)
    (attrs : Option Attrs) (infoArgs : List StructInfo)
  | field (before : List Expr) (inner : Context) (after : List Expr)

namespace Context

def fill : Context → Expr → Expr
  | .hole, e => e
  | .operand callee before inner after attrs infoArgs, e =>
    .call ⟨callee, before ++ inner.fill e :: after, attrs, infoArgs⟩
  | .field before inner after, e => .tuple (before ++ inner.fill e :: after)

/-- Only tuples stand around the hole. -/
def OnlyFields : Context → Prop
  | .hole => True
  | .operand .. => False
  | .field _ inner _ => inner.OnlyFields

/-- The hole is in a tuple that is an operand of a convolution, which may be nested in others. -/
def InTuple : Context → Prop
  | .hole => False
  | .operand callee _ inner _ _ _ =>
    (∃ dir : Direction, callee = .op dir.signature.op) ∧ inner.InTuple
  | .field _ inner _ => inner.OnlyFields

end Context

section StructInfo

variable {before after : List Expr} {e : Expr}

theorem structInfos?_eq_none (h : e.structInfo? = none) :
    Expr.structInfos? (before ++ e :: after) = none := by
  induction before with
  | nil => simp [Expr.structInfos?, h]
  | cons first before ih => simp [Expr.structInfos?, ih]

theorem structInfo?_tuple_eq_none (h : e.structInfo? = none) :
    (Expr.tuple (before ++ e :: after)).structInfo? = none := by
  rw [Expr.structInfo?, structInfos?_eq_none h, Option.map_none]

theorem structInfo?_tuple_cases (fields : List Expr) :
    (Expr.tuple fields).structInfo? = none ∨
      ∃ infos, (Expr.tuple fields).structInfo? = some (.tuple infos) := by
  rw [Expr.structInfo?]
  cases Expr.structInfos? fields with
  | none => exact .inl rfl
  | some infos => exact .inr ⟨infos, rfl⟩

theorem structInfo?_fill_call (ctx : Context) (c : Call) :
    (ctx.fill (.call c)).structInfo? = none := by
  induction ctx with
  | hole => rfl
  | operand => rfl
  | field before inner after ih => exact structInfo?_tuple_eq_none ih

theorem structInfo?_fill_of_not_onlyFields {ctx : Context} (h : ¬ ctx.OnlyFields) (e : Expr) :
    (ctx.fill e).structInfo? = none := by
  induction ctx with
  | hole => exact absurd trivial h
  | operand => rfl
  | field before inner after ih => exact structInfo?_tuple_eq_none (ih h)

end StructInfo

/-- What is reported of an operand that is not known to be a tensor. -/
def notTensor (dir : Direction) (index : Nat) (info : Option StructInfo) : Diagnostic :=
  ⟨.invalidArguments, dir.signature.op, some (.arg index),
    "expects its input to be a tensor, got " ++ Inspect.option (info.map StructInfo.inspect)⟩

section Agreement

variable {α β : Type} {missing : Prop}

/-- Two results are the same, or report one operand in two ways: it is a tuple, whose struct info is
missing from the first. -/
def SameResult (missing : Prop) (r r' : Except Diagnostic α) : Prop :=
  r' = r ∨ missing ∧ ∃ dir index infos, r = .error (notTensor dir index none) ∧
    r' = .error (notTensor dir index (some (.tuple infos)))

def Agree (missing : Prop) (x x' : Infer α) : Prop :=
  ∃ r r', HasOutcome x r ∧ HasOutcome x' r' ∧ SameResult missing r r'

/-- What is known of two operands agrees, or it is missing of the first and the second is a tuple. -/
def OperandsAgree (missing : Prop) (x x' : Infer (Option StructInfo)) : Prop :=
  Agree missing x x' ∨
    missing ∧ HasOutcome x (.ok none) ∧ ∃ infos, HasOutcome x' (.ok (some (.tuple infos)))

variable {x x' : Infer α} {f f' : α → Infer β}

theorem Agree.imp {missing' : Prop} (h : Agree missing x x') (himp : missing → missing') :
    Agree missing' x x' := by
  obtain ⟨r, r', hr, hr', hsame⟩ := h
  exact ⟨r, r', hr, hr', hsame.imp_right fun h => ⟨himp h.1, h.2⟩⟩

theorem Agree.refl (hx : AddsEvents x) : Agree missing x x := by
  obtain ⟨r, hr⟩ := hx.exists_hasOutcome
  exact ⟨r, r, hr, hr, .inl rfl⟩

theorem Agree.bind (h : Agree missing x x') (hf : ∀ a, AddsEvents (f a)) :
    Agree missing (x >>= f) (x' >>= f) := by
  obtain ⟨r, r', hr, hr', rfl | ⟨hmissing, dir, index, infos, rfl, rfl⟩⟩ := h
  · cases r' with
    | ok a =>
      obtain ⟨q, hq⟩ := (hf a).exists_hasOutcome
      exact ⟨q, q, hr.bind_ok hq, hr'.bind_ok hq, .inl rfl⟩
    | error d => exact ⟨_, _, hr.bind_error f, hr'.bind_error f, .inl rfl⟩
  · exact ⟨_, _, hr.bind_error f, hr'.bind_error f, .inr ⟨hmissing, dir, index, infos, rfl, rfl⟩⟩

theorem Agree.bind_right (hx : AddsEvents x) (hf : ∀ a, Agree missing (f a) (f' a)) :
    Agree missing (x >>= f) (x >>= f') := by
  obtain ⟨r, hr⟩ := hx.exists_hasOutcome
  cases r with
  | ok a =>
    obtain ⟨q, q', hq, hq', hsame⟩ := hf a
    exact ⟨q, q', hr.bind_ok hq, hr.bind_ok hq', hsame⟩
  | error d => exact ⟨_, _, hr.bind_error f, hr.bind_error f', .inl rfl⟩

end Agreement

section Rules

variable {missing : Prop} {dir : Direction}

theorem agree_tensorOperand {x x' : Infer (Option StructInfo)} (h : OperandsAgree missing x x')
    (dir : Direction) (index : Nat) :
    Agree missing (tensorOperand dir.signature.op index x)
      (tensorOperand dir.signature.op index x') := by
  rcases h with h | ⟨hmissing, hx, infos, hx'⟩
  · unfold tensorOperand
    apply h.bind
    intro info
    split
    · apply addsEvents_pure
    · apply addsEvents_throw
  · refine ⟨_, _, hx.bind_ok ?_, hx'.bind_ok ?_, .inr ⟨hmissing, dir, index, infos, rfl, rfl⟩⟩
    · exact fun _ => rfl
    · exact fun _ => rfl

theorem addsEvents_inferExpr (e : Expr) : AddsEvents (Registry.builtins.inferExpr e) :=
  Registry.addsEvents_inferExpr Registry.rulesAddEvents_builtins e

theorem agree_tensorOperands {e e' : Expr} (dir : Direction) (before after : List Expr)
    (h : OperandsAgree missing (Registry.builtins.inferExpr e) (Registry.builtins.inferExpr e')) :
    Agree missing
      (tensorOperands dir.signature.op (Registry.builtins.inferAll (before ++ e :: after)))
      (tensorOperands dir.signature.op (Registry.builtins.inferAll (before ++ e' :: after))) := by
  by_cases hlength : (before ++ e :: after).length = 2
  · obtain ⟨rfl, kernel, rfl⟩ | ⟨data, rfl, rfl⟩ :
        before = [] ∧ (∃ kernel, after = [kernel]) ∨ ∃ data, before = [data] ∧ after = [] := by
      match before, after with
      | [], [kernel] => exact .inl ⟨rfl, kernel, rfl⟩
      | [data], [] => exact .inr ⟨data, rfl, rfl⟩
      | [], [] | [], _ :: _ :: _ | [_], _ :: _ | _ :: _ :: _, _ => simp at hlength
    · simp only [List.nil_append, Registry.inferAll, tensorOperands]
      apply (agree_tensorOperand h dir 0).bind
      intro t
      apply (addsEvents_tensorOperand 1 (addsEvents_inferExpr kernel)).bind
      intro u
      apply addsEvents_pure
    · simp only [List.cons_append, List.nil_append, Registry.inferAll, tensorOperands]
      apply Agree.bind_right (addsEvents_tensorOperand 0 (addsEvents_inferExpr data))
      intro t
      apply (agree_tensorOperand h dir 1).bind
      intro u
      apply addsEvents_pure
  · have hsame : (before ++ e' :: after).length = (before ++ e :: after).length := by simp
    rw [tensorOperands_of_length hlength hsame]
    apply Agree.refl
    apply addsEvents_tensorOperands
    exact Registry.addsEvents_inferAll Registry.rulesAddEvents_builtins _

theorem addsEvents_rule {app : Application} (h : ∀ x ∈ app.operands, AddsEvents x) :
    AddsEvents (dir.rule app) := by
  cases dir with
  | forward => exact addsEvents_inferForward h
  | transpose => exact addsEvents_inferTranspose h

/-- After the operands have been inferred, a rule only adds events. -/
theorem rule_eq_tensorOperands_bind (dir : Direction) (attrs : Conv2dTransposeAttrs) :
    ∃ rest : TensorInfo × TensorInfo → Infer StructInfo, (∀ t, AddsEvents (rest t)) ∧
      ∀ {app}, app.call.attrs = some (dir.record attrs) →
        dir.rule app = tensorOperands dir.signature.op app.operands >>= rest := by
  obtain ⟨finish, hrule, _, _⟩ := rule_eq_bind dir attrs
  let rest (t : TensorInfo × TensorInfo) : Infer StructInfo :=
    (checkOperands dir.signature attrs.conv t.1 t.2 >>=
      resolveShapes dir.signature t.1.shape t.2.shape) >>= finish
  have hbind {app : Application} (hattrs : app.call.attrs = some (dir.record attrs)) :
      dir.rule app = tensorOperands dir.signature.op app.operands >>= rest := by
    rw [hrule hattrs, resolveOperands_eq_bind, bind_assoc]
  refine ⟨rest, ?_, hbind⟩
  rintro ⟨data, kernel⟩
  -- Where the operands are known without inference, the rule is what is left.
  let app : Application := ⟨⟨.op dir.signature.op, [], some (dir.record attrs), []⟩,
    [pure (some (.tensor data)), pure (some (.tensor kernel))], 0⟩
  have happ : dir.rule app = rest (data, kernel) := hbind rfl
  rw [← happ]
  apply addsEvents_rule
  simp [app, addsEvents_pure]

theorem agree_infer {e e' : Expr} (dir : Direction) (before after : List Expr)
    (attrs : Option Attrs) (infoArgs : List StructInfo)
    (h : OperandsAgree missing (Registry.builtins.inferExpr e) (Registry.builtins.inferExpr e')) :
    Agree missing
      (Registry.builtins.infer
        ⟨.op dir.signature.op, before ++ e :: after, attrs, infoArgs⟩)
      (Registry.builtins.infer
        ⟨.op dir.signature.op, before ++ e' :: after, attrs, infoArgs⟩) := by
  rw [infer_direction, infer_direction]
  cases hread : dir.attrs? attrs with
  | none =>
    rw [rule_of_attrs?_eq_none hread, rule_of_attrs?_eq_none hread]
    exact .refl (addsEvents_throw _)
  | some record =>
    have hattrs := eq_record_of_attrs? hread
    obtain ⟨rest, hrest, hrule⟩ := rule_eq_tensorOperands_bind dir record
    rw [hrule hattrs, hrule hattrs]
    exact (agree_tensorOperands dir before after h).bind hrest

theorem get?_builtins (name : String) :
    Registry.builtins.get? name = none ∨
      (∃ dir : Direction, name = dir.signature.op) ∨
      ∃ op least most, Registry.builtins.get? name = some op ∧
        op.rule = some (FusedCall.declaredOutput name least most) := by
  rw [Registry.get?, Registry.ops_builtins]
  simp only [Dictionary.get?_cons]
  split
  · next h => exact .inr (.inr ⟨_, 2, 2, rfl, h ▸ rfl⟩)
  split
  · next h => exact .inr (.inr ⟨_, 2, 3, rfl, h ▸ rfl⟩)
  split
  · next h => exact .inr (.inl ⟨.forward, h.symm⟩)
  split
  · next h => exact .inr (.inl ⟨.transpose, h.symm⟩)
  · exact .inl rfl

/-- Only convolutions look at their operands; all others see no more than how many there are. -/
theorem infer_congr_args {callee : Expr} (h : ¬ ∃ dir : Direction, callee = .op dir.signature.op)
    {args args' : List Expr} (hlength : args'.length = args.length) (attrs : Option Attrs)
    (infoArgs : List StructInfo) :
    Registry.builtins.infer ⟨callee, args', attrs, infoArgs⟩ =
      Registry.builtins.infer ⟨callee, args, attrs, infoArgs⟩ := by
  cases callee with
  | op name =>
    rcases get?_builtins name with hnone | ⟨dir, rfl⟩ | ⟨op, least, most, hop, hrule⟩
    · rw [Registry.infer, Registry.infer, Registry.ruleFor?, hnone]
      rfl
    · exact absurd ⟨dir, rfl⟩ h
    · rw [Registry.infer_op name _ _ _ hop hrule, Registry.infer_op name _ _ _ hop hrule]
      unfold FusedCall.declaredOutput
      dsimp only
      rw [hlength]
  | _ =>
    rw [Registry.infer, Registry.infer]
    rfl

end Rules

theorem operandsAgree_fill {c : Call} {info : StructInfo}
    (hc : Returns (Registry.builtins.infer c) info) (name : String) (ctx : Context) :
    OperandsAgree ctx.InTuple (Registry.builtins.inferExpr (ctx.fill (.call c)))
      (Registry.builtins.inferExpr (ctx.fill (.var name (some info)))) := by
  have hadds := Registry.addsEvents_infer Registry.rulesAddEvents_builtins
  induction ctx with
  | hole =>
    refine .inl ⟨.ok (some info), .ok (some info), ?_, hasOutcome_pure _, .inl rfl⟩
    simp only [Context.fill, inferExpr_call]
    exact ((hadds c).hasOutcome_of_returns hc).bind_ok (hasOutcome_pure _)
  | operand callee before inner after attrs infoArgs ih =>
    left
    simp only [Context.fill, inferExpr_call]
    by_cases hcallee : ∃ dir : Direction, callee = .op dir.signature.op
    · obtain ⟨dir, rfl⟩ := hcallee
      have hinfer := agree_infer dir before after attrs infoArgs ih
      exact (hinfer.imp fun h => ⟨⟨dir, rfl⟩, h⟩).bind fun info => addsEvents_pure (some info)
    · have hlength : (before ++ inner.fill (.var name (some info)) :: after).length =
          (before ++ inner.fill (.call c) :: after).length := by simp
      rw [infer_congr_args hcallee hlength]
      exact .refl ((hadds _).bind fun info => addsEvents_pure (some info))
  | field before inner after ih =>
    have hcall : HasOutcome
        (Registry.builtins.inferExpr ((Context.field before inner after).fill (.call c)))
        (.ok none) := by
      have hnone := structInfo?_fill_call (.field before inner after) c
      exact hnone ▸ hasOutcome_pure _
    have hvar (known : Option StructInfo)
        (h : ((Context.field before inner after).fill (.var name (some info))).structInfo? =
          known) :
        HasOutcome (Registry.builtins.inferExpr
          ((Context.field before inner after).fill (.var name (some info)))) (.ok known) :=
      h ▸ hasOutcome_pure _
    by_cases hfields : inner.OnlyFields
    · rcases structInfo?_tuple_cases (before ++ inner.fill (.var name (some info)) :: after) with
        hnone | ⟨infos, hinfos⟩
      · exact .inl ⟨_, _, hcall, hvar none hnone, .inl rfl⟩
      · exact .inr ⟨hfields, hcall, infos, hvar _ hinfos⟩
    · have hnone := structInfo?_fill_of_not_onlyFields hfields (.var name (some info))
      exact .inl ⟨_, _, hcall, hvar none (structInfo?_tuple_eq_none hnone), .inl rfl⟩

/--
A call among the operands of a convolution is replaced by a variable with its struct info, and the
result is the same. Where the call is in a tuple that is an operand, both fail at worst, in the same
place, and differ in what they report to be known of the tuple.
-/
theorem infer_fill (dir : Direction) (before after : List Expr) (attrs : Option Attrs)
    (infoArgs : List StructInfo) (inner : Context) {c : Call} {info : StructInfo}
    (hc : Returns (Registry.builtins.infer c) info) (name : String) :
    let outer (e : Expr) : Infer StructInfo :=
      Registry.builtins.infer ⟨.op dir.signature.op, before ++ inner.fill e :: after, attrs, infoArgs⟩
    ∃ r r', HasOutcome (outer (.call c)) r ∧ HasOutcome (outer (.var name (some info))) r' ∧
      (r' = r ∨ inner.InTuple ∧ ∃ dir index infos, r = .error (notTensor dir index none) ∧
        r' = .error (notTensor dir index (some (.tuple infos)))) :=
  agree_infer dir before after attrs infoArgs (operandsAgree_fill hc name inner)

theorem infer_fill_nested :
    let var (name : String) (dims : List SymExpr) : Expr :=
      .var name (some (.tensor ⟨.known dims, .void⟩))
    let attrs (kernelLayout : String) : Conv2dAttrs :=
      ⟨⟨1, 1⟩, ⟨0, 0, 0, 0⟩, ⟨1, 1⟩, 1, "NCHW", kernelLayout, "NCHW", .void⟩
    let inner (data : Expr) : Expr := .call ⟨.op Conv2dTransposeAttrs.opName,
      [data, var "v" [.lit 3, .size "c", .lit 2, .lit 2]],
      some (.conv2dTranspose ⟨attrs "IOHW", ⟨0, 0⟩⟩), []⟩
    let outer (data : Expr) : Infer StructInfo := Registry.builtins.infer ⟨.op Conv2dAttrs.opName,
      [inner data, var "w" [.lit 8, .size "c", .lit 3, .lit 3]], some (.conv2d (attrs "OIHW")), []⟩
    let info : StructInfo := .tensor ⟨.known [.size "n", .lit 3, .size "h", .size "w"], .void⟩
    ∃ r, HasOutcome (outer (.call (FusedCall.tir (.globalVar "f") [] info none))) (.ok r) ∧
      HasOutcome (outer (.var "x" (some info))) (.ok r) := by
  -- A convolution of a transposed one of the result of a function.
  intro var attrs inner outer info
  let c := FusedCall.tir (.globalVar "f") [] info none
  have hc : Returns (Registry.builtins.infer c) info := ⟨[], _, rfl⟩
  let ctx : Context := .operand (.op Conv2dTransposeAttrs.opName) [] .hole
    [var "v" [.lit 3, .size "c", .lit 2, .lit 2]] (some (.conv2dTranspose ⟨attrs "IOHW", ⟨0, 0⟩⟩)) []
  obtain ⟨r, r', hr, hr', rfl | ⟨hin, _⟩⟩ := infer_fill .forward []
    [var "w" [.lit 8, .size "c", .lit 3, .lit 3]] (some (.conv2d (attrs "OIHW"))) [] ctx hc "x"
  · have hok : ((outer (.var "x" (some info))).run.run []).1.isOk = true := by
      decide +kernel
    obtain ⟨out, hout⟩ := exists_returns hok
    cases hr'.eq_ok hout
    exact ⟨out, hr, hr'⟩
  · exact absurd hin.2 id

/-- A tuple with a call is not known to be a tuple. -/
theorem infer_conv2d_misses_tuple :
    let c : Call := ⟨.externFunc "f", [], none, [.object]⟩
    let kernel := Expr.var "w" (some (.tensor ⟨.known [.lit 1, .lit 1, .lit 1, .lit 1], .void⟩))
    ∃ before after d d', Returns (Registry.builtins.infer c) .object ∧
      Returns (conv2d (.tuple [.call c]) kernel {}) before ∧
      Returns (conv2d (.tuple [.var "y" (some .object)]) kernel {}) after ∧
      HasOutcome (Registry.builtins.infer before) (.error d) ∧
      HasOutcome (Registry.builtins.infer after) (.error d') ∧
      d.message = "expects its input to be a tensor, got None" ∧
      d'.message = "expects its input to be a tensor, got Some(Tuple([Object]))" := by
  intro c kernel
  let attrs : Conv2dTransposeAttrs :=
    ⟨⟨⟨1, 1⟩, ⟨0, 0, 0, 0⟩, ⟨1, 1⟩, 1, "NCHW", "OIHW", "NCHW", .void⟩, ⟨0, 0⟩⟩
  refine ⟨Direction.forward.call (.tuple [.call c]) kernel attrs,
    Direction.forward.call (.tuple [.var "y" (some .object)]) kernel attrs,
    notTensor .forward 0 none, notTensor .forward 0 (some (.tuple [.object])),
    ⟨[], _, rfl⟩, ⟨[], _, rfl⟩, ⟨[], _, rfl⟩, fun _ => rfl, fun _ => rfl, rfl, rfl⟩

end TensorIR.Conv2d
