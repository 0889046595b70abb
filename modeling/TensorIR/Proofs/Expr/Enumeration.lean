import TensorIR.Proofs.Expr.Keywords

/-!
Expressions whose dictionaries are enumerated in different orders. They are printed in the same way,
since the entries of a dictionary are sorted by their keys before their values are looked at, inside
of the values as well.
-/

namespace TensorIR

mutual

/-- The same expression, up to the order in which its dictionaries are enumerated. -/
inductive Expr.Alike : Expr → Expr → Prop where
  | refl (e : Expr) : Expr.Alike e e
  | tuple {fields fields' : List Expr} (h : List.Forall₂ Expr.Alike fields fields') :
    Expr.Alike (.tuple fields) (.tuple fields')
  | call {c c' : Call} (h : Call.Alike c c') : Expr.Alike (.call c) (.call c')

inductive Call.Alike : Call → Call → Prop where
  | mk {callee callee' : Expr} {args args' : List Expr} {attrs attrs' : Option Attrs}
    (infoArgs : List StructInfo) (hcallee : Expr.Alike callee callee')
    (hargs : List.Forall₂ Expr.Alike args args') (hattrs : Option.Rel Attrs.Alike attrs attrs') :
    Call.Alike ⟨callee, args, attrs, infoArgs⟩ ⟨callee', args', attrs', infoArgs⟩

inductive Attrs.Alike : Attrs → Attrs → Prop where
  | refl (attrs : Attrs) : Attrs.Alike attrs attrs
  | dict {entries entries' : List (String × Object)} (hkeys : (entries.map Prod.fst).Nodup)
    (hkeys' : (entries'.map Prod.fst).Nodup)
    (h : ∀ key, Option.Rel Object.Alike (Dictionary.get? entries key)
      (Dictionary.get? entries' key)) :
    Attrs.Alike (.dict entries) (.dict entries')
  | custom (typeKey : String) {fields fields' : List (String × AttrValue)}
    (h : List.Forall₂ Attrs.FieldAlike fields fields') :
    Attrs.Alike (.custom typeKey fields) (.custom typeKey fields')

inductive Attrs.FieldAlike : String × AttrValue → String × AttrValue → Prop where
  | mk (key : String) {value value' : AttrValue} (h : AttrValue.Alike value value') :
    Attrs.FieldAlike (key, value) (key, value')

inductive AttrValue.Alike : AttrValue → AttrValue → Prop where
  | refl (value : AttrValue) : AttrValue.Alike value value
  | object {o o' : Object} (h : Object.Alike o o') : AttrValue.Alike (.object o) (.object o')

inductive Object.Alike : Object → Object → Prop where
  | refl (o : Object) : Object.Alike o o
  | array {items items' : List Object} (h : List.Forall₂ Object.Alike items items') :
    Object.Alike (.array items) (.array items')
  | expr {e e' : Expr} (h : Expr.Alike e e') : Object.Alike (.expr e) (.expr e')

end

namespace Printer

variable {p : Printer} {callee callee' : Expr} {args args' : List Expr}
  {attrs attrs' : Option Attrs} {infoArgs : List StructInfo}
  {entries entries' es es' : List (String × Object)}

section Calls

theorem inCalleePlace_eq_of_alike {e e' : Expr} (h : e.Alike e') :
    inCalleePlace e = inCalleePlace e' := by
  cases h <;> rfl

theorem mapM_zip_eq_of_alike {f : (Expr × Printed) × Nat → Printed}
    (hf : ∀ e e', e.Alike e' → ∀ d i, f ((e, d), i) = f ((e', d), i))
    (h : List.Forall₂ Expr.Alike args args') (printed : List Printed) (first : Nat) :
    ((args.zip printed).zipIdx first).mapM f = ((args'.zip printed).zipIdx first).mapM f := by
  induction h generalizing printed first with
  | nil => rfl
  | cons he _ ih =>
    cases printed with
    | nil => rfl
    | cons d printed =>
      rw [List.zip_cons_cons, List.zip_cons_cons, List.zipIdx_cons, List.zipIdx_cons,
        List.mapM_cons, List.mapM_cons, ih, hf _ _ he]

theorem argDocs_eq_of_alike (h : List.Forall₂ Expr.Alike args args') (printed : List Printed) :
    argDocs args printed = argDocs args' printed := by
  refine mapM_zip_eq_of_alike ?_ h printed 0
  intro e e' he d i
  simp only [inCalleePlace_eq_of_alike he]

theorem calleeDoc_eq_of_alike (h : callee.Alike callee') :
    p.calleeDoc callee = p.calleeDoc callee' := by
  cases h <;> rfl

theorem typeKeyKeyword_eq_of_alike (hcallee : callee.Alike callee')
    (hattrs : Option.Rel Attrs.Alike attrs attrs') :
    typeKeyKeyword callee attrs = typeKeyKeyword callee' attrs' := by
  cases hattrs with
  | none => cases hcallee <;> rfl
  | some h =>
    cases hcallee with
    | refl => cases h <;> cases callee <;> rfl
    | tuple | call => rfl

theorem plainCallDoc_eq_of_alike (hcallee : callee.Alike callee')
    (hargs : List.Forall₂ Expr.Alike args args') (hattrs : Option.Rel Attrs.Alike attrs attrs')
    (printed : List Printed) (keywords : Except PrintError (List (String × Doc))) :
    p.plainCallDoc callee args printed attrs keywords infoArgs =
      p.plainCallDoc callee' args' printed attrs' keywords infoArgs := by
  rw [plainCallDoc, plainCallDoc, calleeDoc_eq_of_alike hcallee, argDocs_eq_of_alike hargs,
    typeKeyKeyword_eq_of_alike hcallee hattrs]

theorem fusedCallDoc_eq_of_alike (op : String) (hargs : List.Forall₂ Expr.Alike args args')
    (printed : List Printed) :
    p.fusedCallDoc op args printed infoArgs = p.fusedCallDoc op args' printed infoArgs := by
  simp only [fusedCallDoc, hargs.length_eq, argDocs_eq_of_alike (List.forall₂_take 2 hargs)]

theorem callDoc_eq_of_parts (hcallee : callee.Alike callee')
    (hargs : List.Forall₂ Expr.Alike args args') (hattrs : Option.Rel Attrs.Alike attrs attrs')
    (hprinted : p.exprDocs args = p.exprDocs args')
    (hkeywords : p.attrsKeywords attrs = p.attrsKeywords attrs') :
    p.callDoc ⟨callee, args, attrs, infoArgs⟩ = p.callDoc ⟨callee', args', attrs', infoArgs⟩ := by
  have hprints : printsAttrs callee = printsAttrs callee' := by
    cases hcallee <;> rfl
  cases h : printsAttrs callee with
  | true =>
    rw [callDoc_eq h, callDoc_eq (hprints ▸ h), hprinted, hkeywords]
    exact plainCallDoc_eq_of_alike hcallee hargs hattrs _ _
  | false =>
    obtain ⟨op, rfl, hop⟩ := exists_op_of_printsAttrs_eq_false h
    cases hcallee
    rw [callDoc_fused hop, callDoc_fused hop, hprinted]
    exact fusedCallDoc_eq_of_alike op hargs _

theorem map_eq_map_of_rel {α β : Type} {R : α → α → Prop} {f : α → β} {a a' : Option α}
    (h : Option.Rel R a a') (hf : ∀ x, a = some x → ∀ x', R x x' → f x = f x') :
    a.map f = a'.map f := by
  cases h with
  | none => rfl
  | some h => exact congrArg some (hf _ rfl _ h)

theorem attrsDoc_dict_eq (hkeys : (entries.map Prod.fst).Nodup)
    (hkeys' : (entries'.map Prod.fst).Nodup)
    (h : ∀ key, (Dictionary.get? entries key).map p.objectDoc =
      (Dictionary.get? entries' key).map p.objectDoc) :
    p.attrsDoc (.dict entries) = p.attrsDoc (.dict entries') := by
  have hnodup {entries : List (String × Object)} (hkeys : (entries.map Prod.fst).Nodup) :
      ((p.entryDocs entries).map Prod.fst).Nodup := by
    rw [entryDocs_eq_map, List.map_map]
    exact hkeys
  rw [attrsDoc, attrsDoc, Dictionary.sortByKey_eq_of_get? (hnodup hkeys) (hnodup hkeys')]
  intro key
  rw [entryDocs_eq_map, entryDocs_eq_map, Dictionary.get?_map, Dictionary.get?_map, h]

end Calls

section Documents

mutual

theorem exprDoc_eq_of_alike (p : Printer) (e : Expr) :
    ∀ e', e.Alike e' → p.exprDoc e = p.exprDoc e' := by
  intro e' h
  match e with
  | .tuple fields =>
    cases h with
    | refl => rfl
    | tuple h => rw [exprDoc, exprDoc, exprDocs_eq_of_alike p fields _ h]
  | .call c =>
    cases h with
    | refl => rfl
    | call h => exact callDoc_eq_of_alike p c _ h
  | .var .. | .globalVar _ | .externFunc _ | .op _ | .shape _ | .prim .. | .str _ | .dtype _ =>
    cases h
    rfl

theorem exprDocs_eq_of_alike (p : Printer) (es : List Expr) :
    ∀ es', List.Forall₂ Expr.Alike es es' → p.exprDocs es = p.exprDocs es' := by
  intro es' h
  match es with
  | [] =>
    cases h
    rfl
  | e :: es =>
    obtain ⟨e', es', he, hes, rfl⟩ := List.forall₂_cons_left_iff.1 h
    rw [exprDocs, exprDocs, exprDoc_eq_of_alike p e e' he, exprDocs_eq_of_alike p es es' hes]

theorem callDoc_eq_of_alike (p : Printer) (c : Call) :
    ∀ c', c.Alike c' → p.callDoc c = p.callDoc c' := by
  intro c' h
  match c with
  | ⟨callee, args, attrs, infoArgs⟩ =>
    cases h with
    | mk _ hcallee hargs hattrs =>
      exact callDoc_eq_of_parts hcallee hargs hattrs (exprDocs_eq_of_alike p args _ hargs)
        (attrsKeywords_eq_of_alike p attrs _ hattrs)

theorem attrsKeywords_eq_of_alike (p : Printer) (attrs : Option Attrs) :
    ∀ attrs', Option.Rel Attrs.Alike attrs attrs' →
      p.attrsKeywords attrs = p.attrsKeywords attrs' := by
  intro attrs' h
  match attrs with
  | none =>
    cases h
    rfl
  | some a =>
    cases h with
    | some h => exact attrsDoc_eq_of_alike p a _ h

theorem attrsDoc_eq_of_alike (p : Printer) (attrs : Attrs) :
    ∀ attrs', attrs.Alike attrs' → p.attrsDoc attrs = p.attrsDoc attrs' := by
  intro attrs' h
  match attrs with
  | .conv2d _ | .conv2dTranspose _ =>
    cases h
    rfl
  | .dict entries =>
    cases h with
    | refl => rfl
    | dict hkeys hkeys' h =>
      refine attrsDoc_dict_eq hkeys hkeys' fun key => map_eq_map_of_rel (h key) ?_
      intro o ho
      exact entryDoc_eq_of_alike p entries (key, o) ((Dictionary.mem_iff_get? hkeys).2 ho)
  | .custom typeKey fields =>
    cases h with
    | refl => rfl
    | custom _ h => rw [attrsDoc, attrsDoc, fieldDocs_eq_of_alike p fields _ h]

theorem entryDoc_eq_of_alike (p : Printer) (entries : List (String × Object)) :
    ∀ e ∈ entries, ∀ o, e.2.Alike o → p.objectDoc e.2 = p.objectDoc o := by
  match entries with
  | [] => exact nofun
  | (key, o) :: entries =>
    exact List.forall_mem_cons.2 ⟨objectDoc_eq_of_alike p o, entryDoc_eq_of_alike p entries⟩

theorem fieldDocs_eq_of_alike (p : Printer) (fields : List (String × AttrValue)) :
    ∀ fields', List.Forall₂ Attrs.FieldAlike fields fields' →
      p.fieldDocs fields = p.fieldDocs fields' := by
  intro fields' h
  match fields with
  | [] =>
    cases h
    rfl
  | (key, value) :: fields =>
    obtain ⟨_, fields', hfield, hfields, rfl⟩ := List.forall₂_cons_left_iff.1 h
    cases hfield with
    | mk _ hvalue =>
      rw [fieldDocs, fieldDocs, attrValueDoc_eq_of_alike p key value _ hvalue,
        fieldDocs_eq_of_alike p fields fields' hfields]

theorem attrValueDoc_eq_of_alike (p : Printer) (key : String) (value : AttrValue) :
    ∀ value', value.Alike value' → p.attrValueDoc key value = p.attrValueDoc key value' := by
  intro value' h
  match value with
  | .object o =>
    cases h with
    | refl => rfl
    | object h => exact objectDoc_eq_of_alike p o _ h
  | .f64 _ | .i64 _ | .u64 _ | .int _ | .bool _ | .str _ | .dtype _ | .rawPtr | .ndarray =>
    cases h
    rfl

theorem objectDoc_eq_of_alike (p : Printer) (o : Object) :
    ∀ o', o.Alike o' → p.objectDoc o = p.objectDoc o' := by
  intro o' h
  match o with
  | .array items =>
    cases h with
    | refl => rfl
    | array h => rw [objectDoc, objectDoc, objectDocs_eq_of_alike p items _ h]
  | .expr e =>
    cases h with
    | refl => rfl
    | expr h => exact exprDoc_eq_of_alike p e _ h
  | .int _ | .float _ | .bool _ | .str _ | .ints _ =>
    cases h
    rfl

theorem objectDocs_eq_of_alike (p : Printer) (os : List Object) :
    ∀ os', List.Forall₂ Object.Alike os os' → p.objectDocs os = p.objectDocs os' := by
  intro os' h
  match os with
  | [] =>
    cases h
    rfl
  | o :: os =>
    obtain ⟨o', os', ho, hos, rfl⟩ := List.forall₂_cons_left_iff.1 h
    rw [objectDocs, objectDocs, objectDoc_eq_of_alike p o o' ho,
      objectDocs_eq_of_alike p os os' hos]

end

end Documents

/--
What is printed of a call depends on the mappings in its dictionaries alone, not on how they came
about nor on the order in which they are enumerated. The keywords are the keys in increasing order,
each of them once, unless the call is printed without its attributes; what keeps the dictionary from
being printed is the first key that does.
-/
theorem printCall_eq_of_enumerates (p : Printer) (infoArgs : List StructInfo)
    (hcallee : callee.Alike callee') (hargs : List.Forall₂ Expr.Alike args args')
    (hentries : Dictionary.Enumerates entries es) (hentries' : Dictionary.Enumerates entries' es')
    (hsame : ∀ key, Option.Rel Object.Alike (Dictionary.get? es.reverse key)
      (Dictionary.get? es'.reverse key)) :
    p.printCall ⟨callee, args, some (.dict entries), infoArgs⟩ =
      p.printCall ⟨callee', args', some (.dict entries'), infoArgs⟩ ∧
    (printsAttrs callee = true →
      (∀ text, p.printCall ⟨callee, args, some (.dict entries), infoArgs⟩ = .ok text →
        ∃ f leading docs kwargs, p.calleeDoc callee = .ok (f, leading) ∧
          argDocs args (p.exprDocs args) = .ok docs ∧ PrintsEntries p es kwargs ∧
          text = (Doc.call f (leading ++ docs) (typeKeyKeyword callee (some (.dict [])) ++ kwargs ++
            p.infoKeyword infoArgs)).text) ∧
      ∀ f docs err, p.calleeDoc callee = .ok f → argDocs args (p.exprDocs args) = .ok docs →
        (p.printCall ⟨callee, args, some (.dict entries), infoArgs⟩ = .error err ↔
          FirstFailure p es err)) := by
  constructor
  · have hattrs : Attrs.Alike (.dict entries) (.dict entries') := by
      refine .dict hentries.nodup_keys hentries'.nodup_keys fun key => ?_
      rw [hentries.get?_eq, hentries'.get?_eq]
      exact hsame key
    rw [printCall, printCall,
      callDoc_eq_of_alike p _ _ (.mk infoArgs hcallee hargs (.some hattrs))]
  · intro hprints
    constructor
    · intro text htext
      obtain ⟨d, hd, rfl⟩ := Except.map_eq_ok_iff.1 htext
      obtain ⟨f, leading, docs, kwargs, hf, hdocs, hkwargs, rfl⟩ :=
        (callDoc_dict_eq_ok_iff hprints).1 hd
      exact ⟨f, leading, docs, kwargs, hf, hdocs, printsEntries_of_attrsDoc hentries hkwargs, rfl⟩
    · intro f docs err hf hdocs
      rw [printCall, Except.map_eq_error_iff, callDoc_dict_eq_error_iff hprints hf hdocs,
        attrsDoc_dict_eq_error_iff hentries]

theorem printCall_eq_of_enumerates_nested :
    let nested (entries : List (String × Object)) : Object :=
      .expr (.call ⟨.externFunc "g", [], some (.dict entries), []⟩)
    let es := [("b", .int 1), ("a", nested [("y", .int 1), ("x", .bool true)]), ("b", .str "s")]
    let es' := [("b", .str "s"), ("a", nested [("x", .bool true), ("y", .int 1)])]
    let entries := [("b", .str "s"), ("a", nested [("y", .int 1), ("x", .bool true)])]
    let entries' := [("a", nested [("x", .bool true), ("y", .int 1)]), ("b", .str "s")]
    let call (entries : List (String × Object)) : Call :=
      ⟨.op "relax.add", [], some (.dict entries), []⟩
    Dictionary.Enumerates entries es ∧ Dictionary.Enumerates entries' es' ∧
      ({} : Printer).printCall (call entries) = ({} : Printer).printCall (call entries') ∧
      ({} : Printer).printCall (call entries') =
        .ok ("R.add(a=R.call_packed(\"g\", attrs_type_key=\"DictAttrs\", x=True, y=1), " ++
          "b=\"s\")") := by
  intro nested es es' entries entries' call
  have hentries : Dictionary.Enumerates entries es := by
    refine ⟨by decide, fun key => ?_⟩
    by_cases hb : "b" = key
    · simp [entries, es, Dictionary.get?_cons, hb]
    · simp [entries, es, Dictionary.get?_cons, hb]
  have hentries' : Dictionary.Enumerates entries' es' := ⟨by decide, fun _ => rfl⟩
  have hnested : Object.Alike (nested [("y", .int 1), ("x", .bool true)])
      (nested [("x", .bool true), ("y", .int 1)]) := by
    refine .expr (.call (.mk [] (.refl _) .nil ?_))
    refine .some (.dict (by decide) (by decide) fun key => ?_)
    by_cases hx : "x" = key
    · subst hx
      exact .some (.refl _)
    · by_cases hy : "y" = key
      · subst hy
        exact .some (.refl _)
      · simp only [Dictionary.get?_cons, if_neg hx, if_neg hy]
        exact .none
  have hsame (key : String) : Option.Rel Object.Alike (Dictionary.get? es.reverse key)
      (Dictionary.get? es'.reverse key) := by
    rw [← hentries.get?_eq, ← hentries'.get?_eq]
    by_cases ha : "a" = key
    · subst ha
      exact .some hnested
    · by_cases hb : "b" = key
      · subst hb
        exact .some (.refl _)
      · simp only [entries, entries', Dictionary.get?_cons, if_neg ha, if_neg hb]
        exact .none
  refine ⟨hentries, hentries', ?_, by decide +kernel⟩
  exact (printCall_eq_of_enumerates {} [] (.refl _) .nil hentries hentries' hsame).1

/-- A call of a function that writes to memory given to it has no keyword for the entry. -/
theorem printCall_fused_omits_entries :
    let call : Call := ⟨.op FusedCall.tirName, [.globalVar "f", .tuple [.var "x" none]],
      some (.dict [("a", .int 1)]), [.object]⟩
    ({} : Printer).printCall call = .ok "R.call_tir(f, (x,), out_sinfo=R.Object)" ∧
      ∃ f docs kwargs, ({} : Printer).callDoc call = .ok (.call f docs kwargs) ∧
        "a" ∉ kwargs.map Prod.fst := by
  intro call
  exact ⟨rfl, _, _, _, rfl, by decide⟩

end Printer

end TensorIR
