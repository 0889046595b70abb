import Mathlib.Data.List.Enum
import TensorIR.Proofs.Expr.Keywords

/-!
Which expressions are printed. A call of a function that writes to memory given to it is printed if
its arguments are as many as it takes and its result is declared; any other call, if its callee is a
name and its attributes have a textual form, which are then printed field by field.
-/

namespace TensorIR

/-- What may stand in the place of a callee. -/
def Expr.isCallable : Expr → Bool
  | .externFunc _ | .op _ | .var .. | .globalVar _ => true
  | _ => false

/-- Two arguments or three, of which packed functions take two only, and one declared result. -/
structure FusedCall.IsComplete (op : String) (args : List Expr) (infoArgs : List StructInfo) :
    Prop where
  length_args : args.length = 2 ∨ args.length = 3 ∧ op ≠ packedName
  length_infoArgs : infoArgs.length = 1

mutual

inductive Expr.Printable : Expr → Prop where
  | var (name : String) (info : Option StructInfo) : Expr.Printable (.var name info)
  | globalVar (name : String) : Expr.Printable (.globalVar name)
  | externFunc (symbol : String) : Expr.Printable (.externFunc symbol)
  | op (name : String) : Expr.Printable (.op name)
  | tuple {fields : List Expr} (h : ∀ e ∈ fields, Expr.Printable e) : Expr.Printable (.tuple fields)
  | shape (dims : List SymExpr) : Expr.Printable (.shape dims)
  | prim (value : SymExpr) (t : DataType) : Expr.Printable (.prim value t)
  | str (text : String) : Expr.Printable (.str text)
  | dtype (t : DataType) : Expr.Printable (.dtype t)
  | call {c : Call} (h : Call.Printable c) : Expr.Printable (.call c)

inductive Call.Printable : Call → Prop where
  -- The attributes do not matter.
  | fused {op : String} {args : List Expr} {infoArgs : List StructInfo} (attrs : Option Attrs)
    (hop : Printer.isFused op = true) (hcomplete : FusedCall.IsComplete op args infoArgs)
    (hargs : ∀ e ∈ args, Expr.Printable e) : Call.Printable ⟨.op op, args, attrs, infoArgs⟩
  | plain {callee : Expr} {args : List Expr} {attrs : Option Attrs} (infoArgs : List StructInfo)
    (hplain : Printer.printsAttrs callee = true) (hcallee : callee.isCallable = true)
    (hargs : ∀ e ∈ args, Expr.Printable e) (hattrs : ∀ a ∈ attrs, Attrs.Printable a) :
    Call.Printable ⟨callee, args, attrs, infoArgs⟩

inductive Attrs.Printable : Attrs → Prop where
  | conv2d (record : Conv2dAttrs) : Attrs.Printable (.conv2d record)
  | conv2dTranspose (record : Conv2dTransposeAttrs) : Attrs.Printable (.conv2dTranspose record)
  | dict {entries : List (String × Object)} (h : ∀ e ∈ entries, Object.Printable e.2) :
    Attrs.Printable (.dict entries)
  | custom (typeKey : String) {fields : List (String × AttrValue)}
    (h : ∀ field ∈ fields, AttrValue.Printable field.2) : Attrs.Printable (.custom typeKey fields)

inductive Object.Printable : Object → Prop where
  | int (n : Int64) : Object.Printable (.int n)
  | float (x : Binary64) : Object.Printable (.float x)
  | bool (b : Bool) : Object.Printable (.bool b)
  | str (text : String) : Object.Printable (.str text)
  | ints (values : List Int64) : Object.Printable (.ints values)
  | array {items : List Object} (h : ∀ o ∈ items, Object.Printable o) :
    Object.Printable (.array items)
  | expr {e : Expr} (h : Expr.Printable e) : Object.Printable (.expr e)

inductive AttrValue.Printable : AttrValue → Prop where
  | f64 (x : Binary64) : AttrValue.Printable (.f64 x)
  | i64 (n : Int64) : AttrValue.Printable (.i64 n)
  | u64 (n : UInt64) : AttrValue.Printable (.u64 n)
  | int (n : Int32) : AttrValue.Printable (.int n)
  | bool (b : Bool) : AttrValue.Printable (.bool b)
  | str (text : String) : AttrValue.Printable (.str text)
  | dtype (t : DataType) : AttrValue.Printable (.dtype t)
  | object {o : Object} (h : Object.Printable o) : AttrValue.Printable (.object o)

end

namespace Printer

variable {p : Printer} {callee : Expr} {args : List Expr} {infoArgs : List StructInfo}

section Arguments

theorem exprDocs_eq_map (es : List Expr) : p.exprDocs es = es.map p.exprDoc := by
  induction es with
  | nil => rfl
  | cons e es ih => rw [exprDocs, ih, List.map_cons]

theorem exists_argDocs_iff :
    (∃ docs, argDocs args (p.exprDocs args) = .ok docs) ↔ ∀ e ∈ args, ∃ d, p.exprDoc e = .ok d := by
  have hplace (e : Expr) (i : Nat) :
      (∃ d, (if i = 0 then inCalleePlace e (p.exprDoc e) else p.exprDoc e) = .ok d) ↔
        ∃ d, p.exprDoc e = .ok d := by
    split
    · cases e with
      | externFunc symbol => exact iff_of_true ⟨_, rfl⟩ ⟨_, rfl⟩
      | _ => exact Iff.rfl
    · exact Iff.rfl
  rw [argDocs, Except.exists_mapM_eq_ok_iff, List.forall_mem_zipIdx, List.forall_mem_iff_getElem]
  simp [exprDocs_eq_map, hplace]

theorem exists_argDocs_take (n : Nat) :
    (∃ docs, argDocs (args.take n) ((p.exprDocs args).take n) = .ok docs) ↔
      ∀ e ∈ args.take n, ∃ d, p.exprDoc e = .ok d := by
  rw [exprDocs_eq_map, ← List.map_take, ← exprDocs_eq_map, exists_argDocs_iff]

theorem exists_calleeDoc_iff : (∃ f, p.calleeDoc callee = .ok f) ↔ callee.isCallable = true := by
  cases callee <;> simp [calleeDoc, Expr.isCallable]

theorem exists_callDoc_iff_of_printsAttrs (h : printsAttrs callee = true) {attrs : Option Attrs} :
    (∃ d, p.callDoc ⟨callee, args, attrs, infoArgs⟩ = .ok d) ↔
      callee.isCallable = true ∧ (∀ e ∈ args, ∃ d, p.exprDoc e = .ok d) ∧
        ∃ kwargs, p.attrsKeywords attrs = .ok kwargs := by
  rw [← exists_calleeDoc_iff (p := p), ← exists_argDocs_iff]
  constructor
  · rintro ⟨d, hd⟩
    obtain ⟨f, leading, docs, kwargs, hf, hdocs, hkwargs, _⟩ := (callDoc_eq_ok_iff h).1 hd
    exact ⟨⟨_, hf⟩, ⟨docs, hdocs⟩, kwargs, hkwargs⟩
  · rintro ⟨⟨⟨f, leading⟩, hf⟩, ⟨docs, hdocs⟩, kwargs, hkwargs⟩
    exact ⟨_, (callDoc_eq_ok_iff h).2 ⟨f, leading, docs, kwargs, hf, hdocs, hkwargs, rfl⟩⟩

end Arguments

section Fused

variable {op : String}

/-- What is reported of an incomplete call is its form, unless some argument has none. -/
theorem fusedCallDoc_of_not_isComplete (h : ¬ FusedCall.IsComplete op args infoArgs) :
    ∃ err, p.fusedCallDoc op args (p.exprDocs args) infoArgs = .error err ∧
      ((∀ e ∈ args, ∃ d, p.exprDoc e = .ok d) → ∃ reason, err = .malformedCall op reason) := by
  unfold fusedCallDoc
  by_cases hlength : args.length = 2 ∨ args.length = 3
  · rw [if_pos hlength]
    match infoArgs with
    | [out] =>
      obtain ⟨rfl, hthree⟩ : op = FusedCall.packedName ∧ args.length = 3 := by
        by_contra hne
        exact h ⟨by tauto, rfl⟩
      simp only [if_pos hthree, if_true]
      cases hdocs : argDocs (args.take 2) ((p.exprDocs args).take 2) with
      | ok docs => exact ⟨_, rfl, fun _ => ⟨_, rfl⟩⟩
      | error err =>
        refine ⟨err, rfl, fun hargs => ?_⟩
        obtain ⟨docs, hok⟩ :=
          (exists_argDocs_take 2).2 fun e he => hargs e (List.mem_of_mem_take he)
        cases hdocs.symm.trans hok
    | [] => exact ⟨_, rfl, fun _ => ⟨_, rfl⟩⟩
    | _ :: _ :: _ => exact ⟨_, rfl, fun _ => ⟨_, rfl⟩⟩
  · rw [if_neg hlength]
    exact ⟨_, rfl, fun _ => ⟨_, rfl⟩⟩

theorem exists_tirVars_iff :
    (∃ kwargs, (((p.exprDocs args).drop 2).mapM fun vars => do return ("tir_vars", ← vars)) =
      .ok kwargs) ↔ ∀ e ∈ args.drop 2, ∃ d, p.exprDoc e = .ok d := by
  rw [Except.exists_mapM_eq_ok_iff, exprDocs_eq_map, ← List.map_drop, List.forall_mem_map]
  exact forall₂_congr fun e _ => Except.exists_bind_pure_eq_ok_iff

theorem exists_fusedCallDoc_iff :
    (∃ d, p.fusedCallDoc op args (p.exprDocs args) infoArgs = .ok d) ↔
      FusedCall.IsComplete op args infoArgs ∧ ∀ e ∈ args, ∃ d, p.exprDoc e = .ok d := by
  by_cases h : FusedCall.IsComplete op args infoArgs
  · have hlength := h.length_args
    obtain ⟨out, rfl⟩ := List.length_eq_one_iff.1 h.length_infoArgs
    have hsplit : (∀ e ∈ args, ∃ d, p.exprDoc e = .ok d) ↔
        (∀ e ∈ args.take 2, ∃ d, p.exprDoc e = .ok d) ∧
          ∀ e ∈ args.drop 2, ∃ d, p.exprDoc e = .ok d := by
      rw [← List.forall_mem_append, List.take_append_drop]
    rw [and_iff_right h, hsplit, ← exists_argDocs_take, ← exists_and_right]
    unfold fusedCallDoc
    rw [if_pos (hlength.imp_right And.left), Except.exists_bind_eq_ok_iff]
    refine exists_congr fun docs => and_congr_right' ?_
    by_cases hop : op = FusedCall.packedName
    · have htwo : args.length = 2 := hlength.resolve_right fun hthree => hthree.2 hop
      rw [if_pos hop, if_neg (by omega), List.drop_of_length_le htwo.le]
      exact iff_of_true ⟨_, rfl⟩ (by simp)
    · rw [if_neg hop, ← exists_tirVars_iff]
      exact Except.exists_bind_pure_eq_ok_iff
  · obtain ⟨err, herr, _⟩ := fusedCallDoc_of_not_isComplete (p := p) h
    exact iff_of_false (by simp [herr]) fun hcomplete => h hcomplete.1

end Fused

section Attributes

variable {kwargs : List (String × Doc)}

theorem fieldDocs_eq_map (fields : List (String × AttrValue)) :
    p.fieldDocs fields = fields.map fun field => (field.1, p.attrValueDoc field.1 field.2) := by
  induction fields with
  | nil => rfl
  | cons field fields ih => rw [fieldDocs, ih, List.map_cons]

theorem objectDocs_eq_map (os : List Object) : p.objectDocs os = os.map p.objectDoc := by
  induction os with
  | nil => rfl
  | cons o os ih => rw [objectDocs, ih, List.map_cons]

end Attributes

section Printable

theorem exists_sequence_iff {α : Type} {doc : α → Printed} {as : List α} {join : List Doc → Doc} :
    (∃ d, (do return join (← (as.map doc).mapM id) : Printed) = .ok d) ↔
      ∀ a ∈ as, ∃ d, doc a = .ok d := by
  rw [Except.exists_bind_pure_eq_ok_iff, Except.exists_mapM_eq_ok_iff, List.forall_mem_map]
  exact Iff.rfl

mutual

theorem exists_exprDoc_iff (p : Printer) (e : Expr) :
    (∃ d, p.exprDoc e = .ok d) ↔ e.Printable := by
  match e with
  | .var name info => exact iff_of_true ⟨_, rfl⟩ (.var name info)
  | .globalVar name => exact iff_of_true ⟨_, rfl⟩ (.globalVar name)
  | .externFunc symbol => exact iff_of_true ⟨_, rfl⟩ (.externFunc symbol)
  | .op name => exact iff_of_true ⟨_, rfl⟩ (.op name)
  | .tuple fields =>
    rw [exprDoc, exprDocs_eq_map, exists_sequence_iff, forall_exprDoc_iff p fields]
    exact ⟨.tuple, fun | .tuple h => h⟩
  | .shape dims => exact iff_of_true ⟨_, rfl⟩ (.shape dims)
  | .prim value t => exact iff_of_true ⟨_, rfl⟩ (.prim value t)
  | .str s => exact iff_of_true ⟨_, rfl⟩ (.str s)
  | .dtype t => exact iff_of_true ⟨_, rfl⟩ (.dtype t)
  | .call c =>
    rw [exprDoc, exists_callDoc_iff p c]
    exact ⟨.call, fun | .call h => h⟩

theorem forall_exprDoc_iff (p : Printer) (es : List Expr) :
    (∀ e ∈ es, ∃ d, p.exprDoc e = .ok d) ↔ ∀ e ∈ es, e.Printable := by
  match es with
  | [] => simp
  | e :: es =>
    rw [List.forall_mem_cons, List.forall_mem_cons, exists_exprDoc_iff p e,
      forall_exprDoc_iff p es]

theorem exists_callDoc_iff (p : Printer) (c : Call) :
    (∃ d, p.callDoc c = .ok d) ↔ c.Printable := by
  match c with
  | ⟨callee, args, attrs, infoArgs⟩ =>
    have hargs := forall_exprDoc_iff p args
    have hattrs := exists_attrsKeywords_iff p attrs
    cases hprints : printsAttrs callee with
    | true =>
      rw [exists_callDoc_iff_of_printsAttrs hprints, hargs, hattrs]
      constructor
      · rintro ⟨hcallee, hargs, hattrs⟩
        exact .plain infoArgs hprints hcallee hargs hattrs
      · intro h
        cases h with
        | fused _ hop _ _ => simp [printsAttrs, hop] at hprints
        | plain _ _ hcallee hargs hattrs => exact ⟨hcallee, hargs, hattrs⟩
    | false =>
      obtain ⟨op, rfl, hop⟩ := exists_op_of_printsAttrs_eq_false hprints
      rw [callDoc_fused hop, exists_fusedCallDoc_iff, hargs]
      constructor
      · rintro ⟨hcomplete, hargs⟩
        exact .fused attrs hop hcomplete hargs
      · intro h
        cases h with
        | fused _ _ hcomplete hargs => exact ⟨hcomplete, hargs⟩
        | plain _ hplain _ _ _ => cases hplain.symm.trans hprints

theorem exists_attrsKeywords_iff (p : Printer) (attrs : Option Attrs) :
    (∃ kwargs, p.attrsKeywords attrs = .ok kwargs) ↔ ∀ a ∈ attrs, a.Printable := by
  match attrs with
  | none => exact iff_of_true ⟨[], rfl⟩ (by simp)
  | some a =>
    rw [attrsKeywords, exists_attrsDoc_iff p a]
    simp

theorem exists_attrsDoc_iff (p : Printer) (attrs : Attrs) :
    (∃ kwargs, p.attrsDoc attrs = .ok kwargs) ↔ attrs.Printable := by
  match attrs with
  | .conv2d record => exact iff_of_true ⟨_, rfl⟩ (.conv2d record)
  | .conv2dTranspose record => exact iff_of_true ⟨_, rfl⟩ (.conv2dTranspose record)
  | .dict entries =>
    have hmem (e : String × Object) := (Dictionary.sortByKey_perm entries).mem_iff (a := e)
    simp only [attrsDoc_dict, exists_keywords_iff, List.forall_mem_map, hmem]
    rw [forall_entryDoc_iff p entries]
    exact ⟨.dict, fun | .dict h => h⟩
  | .custom typeKey fields =>
    rw [attrsDoc, fieldDocs_eq_map, exists_keywords_iff, List.forall_mem_map,
      forall_fieldDoc_iff p fields]
    exact ⟨.custom typeKey, fun | .custom _ h => h⟩

theorem forall_entryDoc_iff (p : Printer) (entries : List (String × Object)) :
    (∀ e ∈ entries, ∃ d, p.objectDoc e.2 = .ok d) ↔ ∀ e ∈ entries, e.2.Printable := by
  match entries with
  | [] => simp
  | (key, o) :: entries =>
    rw [List.forall_mem_cons, List.forall_mem_cons, exists_objectDoc_iff p o,
      forall_entryDoc_iff p entries]

theorem forall_fieldDoc_iff (p : Printer) (fields : List (String × AttrValue)) :
    (∀ field ∈ fields, ∃ d, p.attrValueDoc field.1 field.2 = .ok d) ↔
      ∀ field ∈ fields, field.2.Printable := by
  match fields with
  | [] => simp
  | (key, value) :: fields =>
    rw [List.forall_mem_cons, List.forall_mem_cons, exists_attrValueDoc_iff p key value,
      forall_fieldDoc_iff p fields]

theorem exists_attrValueDoc_iff (p : Printer) (key : String) (value : AttrValue) :
    (∃ d, p.attrValueDoc key value = .ok d) ↔ value.Printable := by
  match value with
  | .f64 x => exact iff_of_true ⟨_, rfl⟩ (.f64 x)
  | .i64 n => exact iff_of_true ⟨_, rfl⟩ (.i64 n)
  | .u64 n => exact iff_of_true ⟨_, rfl⟩ (.u64 n)
  | .int n => exact iff_of_true ⟨_, rfl⟩ (.int n)
  | .bool b => exact iff_of_true ⟨_, rfl⟩ (.bool b)
  | .str s => exact iff_of_true ⟨_, rfl⟩ (.str s)
  | .dtype t => exact iff_of_true ⟨_, rfl⟩ (.dtype t)
  | .object o =>
    rw [attrValueDoc, exists_objectDoc_iff p o]
    exact ⟨.object, fun | .object h => h⟩
  | .rawPtr => exact iff_of_false nofun nofun
  | .ndarray => exact iff_of_false nofun nofun

theorem exists_objectDoc_iff (p : Printer) (o : Object) :
    (∃ d, p.objectDoc o = .ok d) ↔ o.Printable := by
  match o with
  | .int n => exact iff_of_true ⟨_, rfl⟩ (.int n)
  | .float x => exact iff_of_true ⟨_, rfl⟩ (.float x)
  | .bool b => exact iff_of_true ⟨_, rfl⟩ (.bool b)
  | .str s => exact iff_of_true ⟨_, rfl⟩ (.str s)
  | .ints values => exact iff_of_true ⟨_, rfl⟩ (.ints values)
  | .array items =>
    rw [objectDoc, objectDocs_eq_map, exists_sequence_iff, forall_objectDoc_iff p items]
    exact ⟨.array, fun | .array h => h⟩
  | .expr e =>
    rw [objectDoc, exists_exprDoc_iff p e]
    exact ⟨.expr, fun | .expr h => h⟩

theorem forall_objectDoc_iff (p : Printer) (os : List Object) :
    (∀ o ∈ os, ∃ d, p.objectDoc o = .ok d) ↔ ∀ o ∈ os, o.Printable := by
  match os with
  | [] => simp
  | o :: os =>
    rw [List.forall_mem_cons, List.forall_mem_cons, exists_objectDoc_iff p o,
      forall_objectDoc_iff p os]

end

end Printable

end Printer

end TensorIR
