import TensorIR.Expr.Printer
import TensorIR.Proofs.Dictionary
import TensorIR.Proofs.Except

/-!
The keywords of a call. Those of its attributes stand between the type key and the struct info of
the call; those of a dictionary are sorted by their keys, in whatever order the map enumerates its
entries.
-/

namespace TensorIR

namespace Printer

variable {p : Printer} {callee : Expr} {args : List Expr} {infoArgs : List StructInfo}
  {entries es : List (String × Object)} {kwargs : List (String × Doc)}

/-- Calls of functions that write to memory given to them are printed without their attributes. -/
def printsAttrs : Expr → Bool
  | .op name => !isFused name
  | _ => true

section Calls

theorem callDoc_eq (h : printsAttrs callee = true) (attrs : Option Attrs) :
    p.callDoc ⟨callee, args, attrs, infoArgs⟩ =
      p.plainCallDoc callee args (p.exprDocs args) attrs (p.attrsKeywords attrs) infoArgs := by
  cases callee with
  | op name =>
    have hname : isFused name = false := Bool.not_eq_true' _ ▸ h
    rw [callDoc, hname, if_neg Bool.false_ne_true]
  | _ =>
    rw [callDoc]
    simp

theorem callDoc_fused {op : String} (h : isFused op = true) (attrs : Option Attrs) :
    p.callDoc ⟨.op op, args, attrs, infoArgs⟩ =
      p.fusedCallDoc op args (p.exprDocs args) infoArgs := by
  rw [callDoc, if_pos h]

theorem exists_op_of_printsAttrs_eq_false (h : printsAttrs callee = false) :
    ∃ op, callee = .op op ∧ isFused op = true := by
  cases callee with
  | op name => exact ⟨name, rfl, by simpa [printsAttrs] using h⟩
  | _ => cases h

theorem callDoc_eq_ok_iff (h : printsAttrs callee = true) {attrs : Option Attrs} {d : Doc} :
    p.callDoc ⟨callee, args, attrs, infoArgs⟩ = .ok d ↔
      ∃ f leading docs kwargs, p.calleeDoc callee = .ok (f, leading) ∧
        argDocs args (p.exprDocs args) = .ok docs ∧ p.attrsKeywords attrs = .ok kwargs ∧
        d = .call f (leading ++ docs)
          (typeKeyKeyword callee attrs ++ kwargs ++ p.infoKeyword infoArgs) := by
  rw [callDoc_eq h, plainCallDoc]
  simp only [Except.bind_eq_ok_iff]
  constructor
  · rintro ⟨⟨f, leading⟩, hf, docs, hdocs, kwargs, hkwargs, hd⟩
    cases hd
    exact ⟨f, leading, docs, kwargs, hf, hdocs, hkwargs, rfl⟩
  · rintro ⟨f, leading, docs, kwargs, hf, hdocs, hkwargs, rfl⟩
    exact ⟨(f, leading), hf, docs, hdocs, kwargs, hkwargs, rfl⟩

theorem callDoc_dict_eq_ok_iff (h : printsAttrs callee = true) {d : Doc} :
    p.callDoc ⟨callee, args, some (.dict entries), infoArgs⟩ = .ok d ↔
      ∃ f leading docs kwargs, p.calleeDoc callee = .ok (f, leading) ∧
        argDocs args (p.exprDocs args) = .ok docs ∧ p.attrsDoc (.dict entries) = .ok kwargs ∧
        d = .call f (leading ++ docs)
          (typeKeyKeyword callee (some (.dict [])) ++ kwargs ++ p.infoKeyword infoArgs) := by
  have htypeKey : typeKeyKeyword callee (some (.dict entries)) =
      typeKeyKeyword callee (some (.dict [])) := by
    cases callee <;> rfl
  rw [callDoc_eq_ok_iff h, htypeKey, attrsKeywords]

theorem callDoc_dict_eq_error_iff (h : printsAttrs callee = true) {f : Doc × List Doc}
    {docs : List Doc} (hf : p.calleeDoc callee = .ok f)
    (hdocs : argDocs args (p.exprDocs args) = .ok docs) {err : PrintError} :
    p.callDoc ⟨callee, args, some (.dict entries), infoArgs⟩ = .error err ↔
      p.attrsDoc (.dict entries) = .error err := by
  rw [callDoc_eq h, plainCallDoc, attrsKeywords, hf, hdocs]
  exact Except.bind_pure_eq_error_iff

end Calls

section Keywords

variable {printed : List (String × Printed)}

theorem keywords_eq_ok_iff :
    keywords printed = .ok kwargs ↔
      List.Forall₂ (fun e kwarg => kwarg.1 = e.1 ∧ e.2 = .ok kwarg.2) printed kwargs := by
  induction printed generalizing kwargs with
  | nil =>
    rw [List.forall₂_nil_left_iff, keywords, Except.ok.injEq, eq_comm]
  | cons e printed ih =>
    simp only [keywords, Except.bind_eq_ok_iff, List.forall₂_cons_left_iff, ih]
    constructor
    · rintro ⟨d, hd, rest, hrest, hkwargs⟩
      exact ⟨(e.1, d), rest, ⟨rfl, hd⟩, hrest, (Except.ok.inj hkwargs).symm⟩
    · rintro ⟨kwarg, rest, ⟨hname, hd⟩, hrest, rfl⟩
      exact ⟨kwarg.2, hd, rest, hrest, by rw [← hname]; rfl⟩

theorem keys_of_keywords (h : keywords printed = .ok kwargs) :
    kwargs.map Prod.fst = printed.map Prod.fst := by
  rw [keywords_eq_ok_iff] at h
  induction h with
  | nil => rfl
  | cons hkwarg _ ih => rw [List.map_cons, List.map_cons, hkwarg.1, ih]

theorem mem_of_mem_keywords (h : keywords printed = .ok kwargs) {key : String} {d : Doc}
    (hmem : (key, d) ∈ kwargs) : (key, .ok d) ∈ printed := by
  rw [keywords_eq_ok_iff] at h
  induction h with
  | nil => cases hmem
  | cons hkwarg _ ih =>
    rcases List.mem_cons.1 hmem with rfl | hmem
    · exact List.mem_cons.2 (.inl (Prod.ext hkwarg.1 hkwarg.2.symm))
    · exact List.mem_cons_of_mem _ (ih hmem)

theorem exists_keywords_iff :
    (∃ kwargs, keywords printed = .ok kwargs) ↔ ∀ e ∈ printed, ∃ d, e.2 = .ok d := by
  induction printed with
  | nil => exact iff_of_true ⟨[], rfl⟩ (by simp)
  | cons e printed ih =>
    rw [keywords, Except.exists_bind_eq_ok_iff, List.forall_mem_cons, ← ih, ← exists_and_right]
    exact exists_congr fun d => and_congr_right' Except.exists_bind_pure_eq_ok_iff

/-- The entry that is reported is the first one whose value has no textual form. -/
theorem keywords_eq_error_iff {err : PrintError} :
    keywords printed = .error err ↔
      ∃ before key after, printed = before ++ (key, .error err) :: after ∧
        ∀ e ∈ before, ∃ d, e.2 = .ok d := by
  induction printed with
  | nil => simp [keywords]
  | cons e printed ih =>
    obtain ⟨key, value⟩ := e
    cases value with
    | error err' =>
      have hleft : keywords ((key, .error err') :: printed) = .error err' := rfl
      rw [hleft, Except.error.injEq]
      constructor
      · rintro rfl
        exact ⟨[], key, printed, rfl, by simp⟩
      · rintro ⟨before, key', after, heq, hbefore⟩
        cases before with
        | nil =>
          cases heq
          rfl
        | cons first before =>
          cases heq
          obtain ⟨d, hd⟩ := hbefore (key, .error err') List.mem_cons_self
          cases hd
    | ok d =>
      have hleft : keywords ((key, .ok d) :: printed) = .error err ↔
          keywords printed = .error err :=
        Except.bind_pure_eq_error_iff
      rw [hleft, ih]
      constructor
      · rintro ⟨before, key', after, rfl, hbefore⟩
        exact ⟨(key, .ok d) :: before, key', after, rfl, List.forall_mem_cons.2 ⟨⟨d, rfl⟩, hbefore⟩⟩
      · rintro ⟨before, key', after, heq, hbefore⟩
        cases before with
        | nil => cases heq
        | cons first before =>
          cases heq
          exact ⟨before, key', after, rfl, (List.forall_mem_cons.1 hbefore).2⟩

end Keywords

section Entries

theorem entryDocs_eq_map (entries : List (String × Object)) :
    p.entryDocs entries = entries.map fun e => (e.1, p.objectDoc e.2) := by
  induction entries with
  | nil => rfl
  | cons e entries ih => rw [entryDocs, ih, List.map_cons]

theorem attrsDoc_dict (entries : List (String × Object)) :
    p.attrsDoc (.dict entries) =
      keywords ((Dictionary.sortByKey entries).map fun e => (e.1, p.objectDoc e.2)) := by
  rw [attrsDoc, entryDocs_eq_map, Dictionary.sortByKey_map]

theorem keys_of_attrsDoc_dict (h : p.attrsDoc (.dict entries) = .ok kwargs) :
    kwargs.map Prod.fst = (Dictionary.sortByKey entries).map Prod.fst := by
  rw [attrsDoc_dict] at h
  rw [keys_of_keywords h, List.map_map]
  rfl

theorem exists_mem_of_attrsDoc_dict (h : p.attrsDoc (.dict entries) = .ok kwargs) {key : String}
    {d : Doc} (hmem : (key, d) ∈ kwargs) :
    ∃ value, (key, value) ∈ entries ∧ p.objectDoc value = .ok d := by
  rw [attrsDoc_dict] at h
  obtain ⟨e, he, heq⟩ := List.mem_map.1 (mem_of_mem_keywords h hmem)
  obtain ⟨rfl, hdoc⟩ := Prod.ext_iff.1 heq
  exact ⟨e.2, (Dictionary.sortByKey_perm entries).mem_iff.1 he, hdoc⟩

/-- The keywords that are printed of a dictionary into which `es` were inserted. -/
structure PrintsEntries (p : Printer) (es : List (String × Object)) (kwargs : List (String × Doc)) :
    Prop where
  increasing : Dictionary.Increasing kwargs
  mem_keys_iff : ∀ key, key ∈ kwargs.map Prod.fst ↔ (Dictionary.get? es.reverse key).isSome = true
  doc_eq : ∀ key d, (key, d) ∈ kwargs →
    ∃ value, Dictionary.get? es.reverse key = some value ∧ p.objectDoc value = .ok d

/-- The first key in increasing order whose value has no textual form has this error. -/
def FirstFailure (p : Printer) (es : List (String × Object)) (err : PrintError) : Prop :=
  ∃ key value, Dictionary.get? es.reverse key = some value ∧ p.objectDoc value = .error err ∧
    ∀ key' < key, ∀ value', Dictionary.get? es.reverse key' = some value' →
      ∃ d, p.objectDoc value' = .ok d

theorem printsEntries_of_attrsDoc (hentries : Dictionary.Enumerates entries es)
    (h : p.attrsDoc (.dict entries) = .ok kwargs) : PrintsEntries p es kwargs := by
  have hkeys := keys_of_attrsDoc_dict h
  rw [hentries.sortByKey_eq] at hkeys
  constructor
  · rw [Dictionary.Increasing, ← List.pairwise_map (f := Prod.fst) (R := (· < ·)), hkeys,
      List.pairwise_map]
    exact Dictionary.increasing_ofList es
  · intro key
    rw [hkeys, List.mem_map, Option.isSome_iff_exists]
    constructor
    · rintro ⟨⟨_, value⟩, hmem, rfl⟩
      exact ⟨value, Dictionary.mem_ofList_iff.1 hmem⟩
    · rintro ⟨value, hvalue⟩
      exact ⟨(key, value), Dictionary.mem_ofList_iff.2 hvalue, rfl⟩
  · intro key d hmem
    obtain ⟨value, hvalue, hdoc⟩ := exists_mem_of_attrsDoc_dict h hmem
    rw [Dictionary.mem_iff_get? hentries.nodup_keys, hentries.get?_eq] at hvalue
    exact ⟨value, hvalue, hdoc⟩

theorem attrsDoc_dict_eq_error_iff (hentries : Dictionary.Enumerates entries es)
    {err : PrintError} : p.attrsDoc (.dict entries) = .error err ↔ FirstFailure p es err := by
  have hsorted := Dictionary.increasing_ofList es
  rw [attrsDoc_dict, hentries.sortByKey_eq, keywords_eq_error_iff]
  constructor
  · rintro ⟨before, key, after, heq, hbefore⟩
    obtain ⟨entries₁, entries₂, hsplit, rfl, hafter⟩ := List.map_eq_append_iff.1 heq
    obtain ⟨e, entries₂, rfl, herror, _⟩ := List.map_eq_cons_iff.1 hafter
    obtain ⟨rfl, herror⟩ := Prod.ext_iff.1 herror
    have hmem : (e.1, e.2) ∈ Dictionary.ofList es := by simp [hsplit]
    refine ⟨e.1, e.2, Dictionary.mem_ofList_iff.1 hmem, herror, ?_⟩
    intro key' hlt value' hvalue'
    -- The entries of smaller keys stand before this one.
    have hmem' := Dictionary.mem_ofList_iff.2 hvalue'
    rw [hsplit] at hmem' hsorted
    rcases List.mem_append.1 hmem' with hmem' | hmem'
    · exact hbefore _ (List.mem_map_of_mem hmem')
    · have hle : e.1 ≤ key' := by
        rcases List.mem_cons.1 hmem' with rfl | hmem'
        · exact le_rfl
        · exact le_of_lt ((List.pairwise_cons.1 (List.pairwise_append.1 hsorted).2.1).1 _ hmem')
      exact absurd hlt (not_lt.2 hle)
  · rintro ⟨key, value, hvalue, herror, hleast⟩
    obtain ⟨before, after, hsplit⟩ := List.append_of_mem (Dictionary.mem_ofList_iff.2 hvalue)
    refine ⟨before.map _, key, after.map _, by rw [hsplit, List.map_append, List.map_cons, herror],
      List.forall_mem_map.2 ?_⟩
    intro e he
    have hmem : (e.1, e.2) ∈ Dictionary.ofList es := by simp [hsplit, he]
    rw [hsplit] at hsorted
    have hlt := (List.pairwise_append.1 hsorted).2.2 e he (key, value) List.mem_cons_self
    exact hleast e.1 hlt e.2 (Dictionary.mem_ofList_iff.1 hmem)

end Entries

end Printer

end TensorIR
