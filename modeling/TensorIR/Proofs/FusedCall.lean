import TensorIR.Proofs.Expr.Printable
import TensorIR.Proofs.Operators

/-!
The form of calls of functions that write to memory given to them. Inference counts their arguments
and their annotations, and printing takes them apart; both accept the same calls.
-/

namespace TensorIR

namespace FusedCall

variable {op : String} {args : List Expr} {infoArgs : List StructInfo}

def mostArgs (op : String) : Nat :=
  if op = packedName then 2 else 3

theorem isComplete_iff :
    IsComplete op args infoArgs ↔
      (2 ≤ args.length ∧ args.length ≤ mostArgs op) ∧ infoArgs.length = 1 := by
  have hlength : (args.length = 2 ∨ args.length = 3 ∧ op ≠ packedName) ↔
      2 ≤ args.length ∧ args.length ≤ mostArgs op := by
    unfold mostArgs
    split
    · next hpacked =>
      rw [or_iff_left fun hthree => hthree.2 hpacked]
      omega
    · next hne =>
      rw [and_iff_left hne]
      omega
  rw [← hlength]
  exact ⟨fun ⟨h, h'⟩ => ⟨h, h'⟩, fun ⟨h, h'⟩ => ⟨h, h'⟩⟩

theorem isComplete_tir (callee : Expr) (args : List Expr) (out : StructInfo)
    (tirVars : Option Expr) :
    IsComplete tirName (tir callee args out tirVars).args [out] := by
  refine ⟨?_, rfl⟩
  cases tirVars with
  | none => exact .inl rfl
  | some vars => exact .inr ⟨rfl, by decide⟩

theorem isComplete_packed (callee : Expr) (args : List Expr) (out : StructInfo) :
    IsComplete packedName (packed callee args out).args [out] :=
  ⟨.inl rfl, rfl⟩

section Inference

theorem infer_eq (hop : Printer.isFused op = true) (attrs : Option Attrs) :
    Registry.builtins.infer ⟨.op op, args, attrs, infoArgs⟩ =
      declaredOutput op 2 (mostArgs op)
        ⟨⟨.op op, args, attrs, infoArgs⟩, Registry.builtins.inferAll args,
          Registry.builtins.size⟩ := by
  obtain rfl | rfl : op = tirName ∨ op = packedName := by simpa [Printer.isFused] using hop
  · have hget : Registry.builtins.get? tirName = some OpDef.callTir := rfl
    exact Registry.infer_op tirName args attrs infoArgs hget rfl
  · have hget : Registry.builtins.get? packedName = some OpDef.callPacked := rfl
    exact Registry.infer_op packedName args attrs infoArgs hget rfl

theorem hasOutcome_infer_of_isComplete (hop : Printer.isFused op = true) (attrs : Option Attrs)
    {out : StructInfo} (h : IsComplete op args [out]) :
    HasOutcome (Registry.builtins.infer ⟨.op op, args, attrs, [out]⟩) (.ok out) := by
  rw [infer_eq hop attrs, declaredOutput, if_pos (isComplete_iff.1 h).1]
  exact hasOutcome_pure out

theorem hasOutcome_infer_of_not_isComplete (hop : Printer.isFused op = true)
    (attrs : Option Attrs) (h : ¬ IsComplete op args infoArgs) :
    ∃ d, HasOutcome (Registry.builtins.infer ⟨.op op, args, attrs, infoArgs⟩) (.error d) := by
  rw [infer_eq hop attrs, declaredOutput]
  split
  · next hlength =>
    match infoArgs with
    | [out] => exact absurd (isComplete_iff.2 ⟨hlength, rfl⟩) h
    | [] => exact ⟨_, fun _ => rfl⟩
    | _ :: _ :: _ => exact ⟨_, fun _ => rfl⟩
  · exact ⟨_, fun _ => rfl⟩

end Inference

section Printing

theorem exists_printCall_of_isComplete (p : Printer) (hop : Printer.isFused op = true)
    (attrs : Option Attrs) (h : IsComplete op args infoArgs) (hargs : ∀ e ∈ args, e.Printable) :
    ∃ text, p.printCall ⟨.op op, args, attrs, infoArgs⟩ = .ok text := by
  have hcall : Call.Printable ⟨.op op, args, attrs, infoArgs⟩ := .fused attrs hop h hargs
  exact Except.exists_map_eq_ok_iff.2 ((Printer.exists_callDoc_iff p _).2 hcall)

theorem printCall_of_not_isComplete (p : Printer) (hop : Printer.isFused op = true)
    (attrs : Option Attrs) (h : ¬ IsComplete op args infoArgs) (hargs : ∀ e ∈ args, e.Printable) :
    ∃ reason, p.printCall ⟨.op op, args, attrs, infoArgs⟩ = .error (.malformedCall op reason) := by
  obtain ⟨err, herr, hreason⟩ := Printer.fusedCallDoc_of_not_isComplete (p := p) h
  obtain ⟨reason, rfl⟩ := hreason ((Printer.forall_exprDoc_iff p args).2 hargs)
  refine ⟨reason, ?_⟩
  rw [Printer.printCall, Printer.callDoc_fused hop, herr]
  rfl

end Printing

/--
Printing and inference accept the same calls, and printing rejects the others because of their form.
The calls that are built for a declared result are accepted: the result is the declared one, and
they are printed if their arguments are.
-/
theorem printCall_iff_infer (p : Printer) :
    (∀ op args attrs infoArgs, Printer.isFused op = true → (∀ e ∈ args, e.Printable) →
      ∃ outcome, HasOutcome (Registry.builtins.infer ⟨.op op, args, attrs, infoArgs⟩) outcome ∧
        ((∃ text, p.printCall ⟨.op op, args, attrs, infoArgs⟩ = .ok text) ↔
          ∃ info, outcome = .ok info) ∧
        ∀ err, p.printCall ⟨.op op, args, attrs, infoArgs⟩ = .error err →
          ∃ reason, err = .malformedCall op reason) ∧
    (∀ callee args out tirVars,
      HasOutcome (Registry.builtins.infer (tir callee args out tirVars)) (.ok out) ∧
        (callee.Printable → (∀ e ∈ args, e.Printable) → (∀ vars ∈ tirVars, vars.Printable) →
          ∃ text, p.printCall (tir callee args out tirVars) = .ok text)) ∧
    ∀ callee args out,
      HasOutcome (Registry.builtins.infer (packed callee args out)) (.ok out) ∧
        (callee.Printable → (∀ e ∈ args, e.Printable) →
          ∃ text, p.printCall (packed callee args out) = .ok text) := by
  refine ⟨?_, ?_, ?_⟩
  · intro op args attrs infoArgs hop hargs
    by_cases h : IsComplete op args infoArgs
    · obtain ⟨out, rfl⟩ := List.length_eq_one_iff.1 h.length_infoArgs
      obtain ⟨text, htext⟩ := exists_printCall_of_isComplete p hop attrs h hargs
      refine ⟨.ok out, hasOutcome_infer_of_isComplete hop attrs h, ?_, ?_⟩
      · exact iff_of_true ⟨text, htext⟩ ⟨out, rfl⟩
      · intro err herr
        cases htext.symm.trans herr
    · obtain ⟨d, hd⟩ := hasOutcome_infer_of_not_isComplete hop attrs h
      obtain ⟨reason, hprint⟩ := printCall_of_not_isComplete p hop attrs h hargs
      refine ⟨.error d, hd, ?_, ?_⟩
      · exact iff_of_false (by simp [hprint]) (by simp)
      · intro err herr
        cases hprint.symm.trans herr
        exact ⟨reason, rfl⟩
  · intro callee args out tirVars
    have hcomplete := isComplete_tir callee args out tirVars
    refine ⟨hasOutcome_infer_of_isComplete rfl none hcomplete, fun hcallee hargs hvars => ?_⟩
    apply exists_printCall_of_isComplete p rfl none hcomplete
    simpa [tir, hcallee] using ⟨.tuple hargs, hvars⟩
  · intro callee args out
    have hcomplete := isComplete_packed callee args out
    refine ⟨hasOutcome_infer_of_isComplete rfl none hcomplete, fun hcallee hargs => ?_⟩
    apply exists_printCall_of_isComplete p rfl none hcomplete
    simpa [packed, hcallee] using .tuple hargs

/-- Packed functions take no third argument; attributes do not matter. -/
theorem printCall_three_arguments :
    let call (op : String) : Call :=
      ⟨.op op, [.externFunc "f", .tuple [.var "x" none], .shape [.lit 1]],
        some (.custom "test.Buffer" [("handle", .rawPtr)]), [.object]⟩
    (∃ info, HasOutcome (Registry.builtins.infer (call tirName)) (.ok info)) ∧
      ∃ reason, ({} : Printer).printCall (call packedName) =
        .error (.malformedCall packedName reason) := by
  intro call
  have hargs : ∀ e ∈ (call tirName).args, e.Printable := by
    have hinputs : (Expr.tuple [.var "x" none]).Printable := .tuple (by simp [Expr.Printable.var])
    simp [call, hinputs, Expr.Printable.externFunc, Expr.Printable.shape]
  have hagree := (printCall_iff_infer {}).1
  constructor
  · obtain ⟨outcome, houtcome, hiff, _⟩ := hagree tirName _ (call tirName).attrs [.object] rfl hargs
    obtain ⟨info, rfl⟩ := hiff.1 ⟨_, rfl⟩
    exact ⟨info, houtcome⟩
  · obtain ⟨_, _, _, hmalformed⟩ := hagree packedName _ (call tirName).attrs [.object] rfl hargs
    obtain ⟨reason, hreason⟩ := hmalformed _ rfl
    exact ⟨reason, congrArg Except.error hreason⟩

end FusedCall

end TensorIR
