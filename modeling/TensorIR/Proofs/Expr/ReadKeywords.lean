import TensorIR.Proofs.Doc.Reading
import TensorIR.Proofs.Expr.Keywords

/-!
Dictionaries are read back from the text of a call, where their values are literals: a keyword ends at
its first equals sign, and the text of its value in one place only.
-/

namespace TensorIR

open Doc

/-- The values that are written as constants, numbers, strings and lists of numbers. -/
inductive Object.IsLiteral : Object → Prop where
  | int (n : Int64) : IsLiteral (.int n)
  | bool (b : Bool) : IsLiteral (.bool b)
  | str (s : String) : IsLiteral (.str s)
  | ints (values : List Int64) : IsLiteral (.ints values)

namespace Printer

variable {p : Printer} {callee : Expr} {args : List Expr} {infoArgs : List StructInfo}
  {entries entries' : List (String × Object)} {kwargs kwargs' : List (String × Doc)}

section Values

variable {value value' : Object} {d : Doc}

theorem readable_objectDoc (h : value.IsLiteral) (hd : p.objectDoc value = .ok d) :
    Readable constants d := by
  cases h with
  | int n =>
    cases hd
    exact .int n
  | bool b =>
    cases hd
    refine .bool ?_
    cases b <;> decide
  | str s =>
    cases hd
    exact .str s
  | ints values =>
    cases hd
    exact .list (List.forall_mem_map.2 fun n _ => .int n)

theorem objectDoc_inj (h : value.IsLiteral) (h' : value'.IsLiteral)
    (hdoc : p.objectDoc value = p.objectDoc value') : value = value' := by
  cases h with
  | int n =>
    cases h' with
    | int n' =>
      cases hdoc
      rfl
    | _ => cases hdoc
  | bool b =>
    cases h' with
    | bool b' =>
      cases hdoc
      rfl
    | _ => cases hdoc
  | str s =>
    cases h' with
    | str s' =>
      cases hdoc
      rfl
    | _ => cases hdoc
  | ints values =>
    cases h' with
    | ints values' =>
      have hmap : values.map Doc.int = values'.map Doc.int := Doc.list.inj (Except.ok.inj hdoc)
      rw [List.map_injective_iff.2 (fun _ _ => Doc.int.inj) hmap]
    | _ => cases hdoc

theorem entries_eq_of_keywords (hentries : ∀ e ∈ entries, e.2.IsLiteral)
    (hentries' : ∀ e ∈ entries', e.2.IsLiteral)
    (h : keywords (entries.map fun e => (e.1, p.objectDoc e.2)) = .ok kwargs)
    (h' : keywords (entries'.map fun e => (e.1, p.objectDoc e.2)) = .ok kwargs) :
    entries = entries' := by
  rw [keywords_eq_ok_iff, List.forall₂_map_left_iff] at h h'
  induction h generalizing entries' with
  | nil => rw [List.forall₂_nil_right_iff.1 h']
  | @cons e kwarg _ _ hkwarg _ ih =>
    obtain ⟨e', entries', hkwarg', hrest, rfl⟩ := List.forall₂_cons_right_iff.1 h'
    rw [List.forall_mem_cons] at hentries hentries'
    have hvalue := objectDoc_inj hentries.1 hentries'.1 (hkwarg.2.trans hkwarg'.2.symm)
    obtain rfl : e = e' := Prod.ext (hkwarg.1.symm.trans hkwarg'.1) hvalue
    rw [ih hentries.2 hentries'.2 hrest]

end Values

section Texts

/-- A keyword that is read back: its name ends at the first equals sign. -/
structure IsKeyword (kwarg : String × Doc) : Prop where
  not_mem : '=' ∉ kwarg.1.toList
  readable : Readable constants kwarg.2

def keywordText (kwarg : String × Doc) : List Char :=
  argumentText (some kwarg.1, kwarg.2)

theorem IsKeyword.append_inj {kwarg kwarg' : String × Doc} {rest rest' : List Char}
    (h : IsKeyword kwarg) (h' : IsKeyword kwarg') (hrest : EndsItem rest) (hrest' : EndsItem rest')
    (htext : keywordText kwarg ++ rest = keywordText kwarg' ++ rest') :
    kwarg = kwarg' ∧ rest = rest' := by
  rw [keywordText, keywordText, argumentText, argumentText, List.append_assoc, List.append_assoc,
    List.cons_append, List.cons_append] at htext
  obtain ⟨hkey, hvalue⟩ := cut_inj h.not_mem h'.not_mem htext
  rw [← text_spelled kwarg.2, ← text_spelled kwarg'.2] at hvalue
  obtain ⟨hspelled, hrests⟩ :=
    h.readable.spelled.cancels h'.readable.spelled hrest hrest' hvalue
  have hdoc := h.readable.eq_of_spelled_eq h'.readable hspelled
  exact ⟨Prod.ext (String.toList_inj.1 hkey) hdoc, hrests⟩

theorem kwargs_eq_of_flatMap (h : ∀ kwarg ∈ kwargs, IsKeyword kwarg)
    (h' : ∀ kwarg ∈ kwargs', IsKeyword kwarg)
    (htext : (kwargs.flatMap fun kwarg => ',' :: ' ' :: keywordText kwarg) =
      kwargs'.flatMap fun kwarg => ',' :: ' ' :: keywordText kwarg) : kwargs = kwargs' := by
  refine (flatMap_append_inj (f := keywordText) ?_ (.round []) (.round []) ?_).1
  · intro kwarg hkwarg kwarg' hkwarg' rest rest' hrest hrest' htext
    exact (h kwarg hkwarg).append_inj (h' kwarg' hkwarg') hrest hrest' htext
  · rw [htext]

/-- What stands around some items of a list tells how the text of these items ends. -/
theorem flatMap_eq_of_intercalate {before after items items' : List (List Char)}
    (hne : ∀ s ∈ items, s ≠ []) (hne' : ∀ s ∈ items', s ≠ [])
    (h : [',', ' '].intercalate (before ++ items ++ after) =
      [',', ' '].intercalate (before ++ items' ++ after)) :
    (items.flatMap fun s => ',' :: ' ' :: s) = items'.flatMap fun s => ',' :: ' ' :: s := by
  have hspread {ss : List (List Char)} (hss : ss ≠ []) :
      (ss.flatMap fun s => ',' :: ' ' :: s) = ',' :: ' ' :: [',', ' '].intercalate ss := by
    obtain ⟨s, ss, rfl⟩ := List.exists_cons_of_ne_nil hss
    rw [intercalate_cons]
    rfl
  have hempty {ss : List (List Char)} (hss : ∀ s ∈ ss, s ≠ [])
      (h : [',', ' '].intercalate ss = []) : ss = [] := by
    cases ss with
    | nil => rfl
    | cons s ss =>
      rw [intercalate_cons, List.append_eq_nil_iff] at h
      exact absurd h.1 (hss s List.mem_cons_self)
  by_cases hnone : before ++ after = []
  · obtain ⟨rfl, rfl⟩ := List.append_eq_nil_iff.1 hnone
    rw [List.nil_append, List.nil_append, List.append_nil, List.append_nil] at h
    by_cases hitems : items = []
    · subst hitems
      rw [hempty hne' h.symm]
    · have hitems' : items' ≠ [] := by
        rintro rfl
        exact hitems (hempty hne h)
      rw [hspread hitems, hspread hitems', h]
  · have hall (items : List (List Char)) : before ++ items ++ after ≠ [] := by
      intro heq
      obtain ⟨hleft, hafter⟩ := List.append_eq_nil_iff.1 heq
      exact hnone (List.append_eq_nil_iff.2 ⟨(List.append_eq_nil_iff.1 hleft).1, hafter⟩)
    have hspreads : ((before ++ items ++ after).flatMap fun s => ',' :: ' ' :: s) =
        (before ++ items' ++ after).flatMap fun s => ',' :: ' ' :: s := by
      rw [hspread (hall items), hspread (hall items'), h]
    rw [List.flatMap_append, List.flatMap_append, List.flatMap_append, List.flatMap_append]
      at hspreads
    exact List.append_cancel_left (List.append_cancel_right hspreads)

theorem kwargs_eq_of_text {f : Doc} {docs : List Doc} {before after : List (String × Doc)}
    (h : ∀ kwarg ∈ kwargs, IsKeyword kwarg) (h' : ∀ kwarg ∈ kwargs', IsKeyword kwarg)
    (htext : (Doc.call f docs (before ++ kwargs ++ after)).text =
      (Doc.call f docs (before ++ kwargs' ++ after)).text) : kwargs = kwargs' := by
  have hne (kwargs : List (String × Doc)) : ∀ s ∈ kwargs.map keywordText, s ≠ [] := by
    intro s hs
    obtain ⟨kwarg, _, rfl⟩ := List.mem_map.1 hs
    simp [keywordText, argumentText]
  have hsplit (kwargs : List (String × Doc)) :
      (arguments docs (before ++ kwargs ++ after)).map argumentText =
        (arguments docs before).map argumentText ++ kwargs.map keywordText ++
          (arguments [] after).map argumentText := by
    simp [arguments, keywordText, Function.comp_def]
  have hlists := congrArg String.toList htext
  rw [toList_text_call, toList_text_call, hsplit, hsplit] at hlists
  have hitems := (List.cons.inj (List.append_cancel_left hlists)).2
  have hflat := flatMap_eq_of_intercalate (hne kwargs) (hne kwargs')
    (List.append_cancel_right hitems)
  rw [List.flatMap_map, List.flatMap_map] at hflat
  exact kwargs_eq_of_flatMap h h' hflat

end Texts

/-- The names of the keywords of a call besides those of its dictionary. -/
def addedKeys (p : Printer) (callee : Expr) (infoArgs : List StructInfo) : List String :=
  (typeKeyKeyword callee (some (.dict [])) ++ p.infoKeyword infoArgs).map Prod.fst

theorem nodup_addedKeys : (p.addedKeys callee infoArgs).Nodup := by
  have htypeKey :
      (typeKeyKeyword callee (some (.dict []))).map Prod.fst ∈ [[], ["attrs_type_key"]] := by
    cases callee <;> simp [typeKeyKeyword]
  have hinfo : (p.infoKeyword infoArgs).map Prod.fst ∈ [[], ["sinfo_args"]] := by
    unfold infoKeyword
    split <;> simp
  have hall : ∀ before ∈ [[], ["attrs_type_key"]], ∀ after ∈ [[], ["sinfo_args"]],
      (before ++ after).Nodup := by
    decide
  rw [addedKeys, List.map_append]
  exact hall _ htypeKey _ hinfo

theorem nodup_keys (hkwargs : (kwargs.map Prod.fst).Nodup)
    (hfree : ∀ key ∈ p.addedKeys callee infoArgs, key ∉ kwargs.map Prod.fst) :
    ((typeKeyKeyword callee (some (.dict [])) ++ kwargs ++ p.infoKeyword infoArgs).map
      Prod.fst).Nodup := by
  have hperm : (typeKeyKeyword callee (some (.dict [])) ++ kwargs ++ p.infoKeyword infoArgs).Perm
      (kwargs ++ (typeKeyKeyword callee (some (.dict [])) ++ p.infoKeyword infoArgs)) := by
    rw [← List.append_assoc]
    exact List.perm_append_comm.append_right _
  rw [(hperm.map Prod.fst).nodup_iff, List.map_append, List.nodup_append]
  refine ⟨hkwargs, nodup_addedKeys, ?_⟩
  rintro key hkey _ hadded rfl
  exact hfree key hadded hkey

theorem forall_isKeyword (hliteral : ∀ e ∈ entries, e.2.IsLiteral)
    (hkeys : ∀ e ∈ entries, '=' ∉ e.1.toList) (h : p.attrsDoc (.dict entries) = .ok kwargs) :
    ∀ kwarg ∈ kwargs, IsKeyword kwarg := by
  rintro ⟨key, d⟩ hmem
  obtain ⟨value, hvalue, hdoc⟩ := exists_mem_of_attrsDoc_dict h hmem
  exact ⟨hkeys _ hvalue, readable_objectDoc (hliteral _ hvalue) hdoc⟩

/--
Where the values of its dictionary are literals, no two keywords of a call have the same name if no
key is the name of a keyword that is added to them, and no other dictionary without equals signs in
its keys is printed in the same way. This does not hold of calls that are printed without their
attributes.
-/
theorem printCall_dict_inj (hprints : printsAttrs callee = true) (p : Printer) (args : List Expr)
    (infoArgs : List StructInfo) (hdistinct : (entries.map Prod.fst).Nodup)
    (hliteral : ∀ e ∈ entries, e.2.IsLiteral) :
    let call (entries : List (String × Object)) : Call :=
      ⟨callee, args, some (.dict entries), infoArgs⟩
    ((∀ key ∈ p.addedKeys callee infoArgs, key ∉ entries.map Prod.fst) →
      ∀ d, p.callDoc (call entries) = .ok d →
        ∃ f docs kwargs, d = .call f docs kwargs ∧ (kwargs.map Prod.fst).Nodup) ∧
    ((∀ e ∈ entries, '=' ∉ e.1.toList) →
      ∀ entries', (entries'.map Prod.fst).Nodup → (∀ e ∈ entries', e.2.IsLiteral) →
        (∀ e ∈ entries', '=' ∉ e.1.toList) →
          ∀ text, p.printCall (call entries) = .ok text → p.printCall (call entries') = .ok text →
            entries.Perm entries') := by
  intro call
  constructor
  · intro hfree d hd
    obtain ⟨f, leading, docs, kwargs, _, _, hkwargs, rfl⟩ := (callDoc_dict_eq_ok_iff hprints).1 hd
    have hkeys : (kwargs.map Prod.fst).Perm (entries.map Prod.fst) := by
      rw [keys_of_attrsDoc_dict hkwargs]
      exact (Dictionary.sortByKey_perm entries).map Prod.fst
    refine ⟨f, leading ++ docs, _, rfl, nodup_keys (hkeys.nodup_iff.2 hdistinct) ?_⟩
    intro key hkey hmem
    exact hfree key hkey (hkeys.mem_iff.1 hmem)
  · intro hkeys entries' _ hliteral' hkeys' text htext htext'
    obtain ⟨d, hd, rfl⟩ := Except.map_eq_ok_iff.1 htext
    obtain ⟨d', hd', hsame⟩ := Except.map_eq_ok_iff.1 htext'
    obtain ⟨f, leading, docs, kwargs, hf, hdocs, hkwargs, rfl⟩ :=
      (callDoc_dict_eq_ok_iff hprints).1 hd
    obtain ⟨f', leading', docs', kwargs', hf', hdocs', hkwargs', rfl⟩ :=
      (callDoc_dict_eq_ok_iff hprints).1 hd'
    -- Callee and arguments are the same, so what differs are the keywords of the dictionary.
    cases hf.symm.trans hf'
    cases hdocs.symm.trans hdocs'
    obtain rfl := kwargs_eq_of_text (forall_isKeyword hliteral' hkeys' hkwargs')
      (forall_isKeyword hliteral hkeys hkwargs) hsame
    have hsorted {entries : List (String × Object)} (h : ∀ e ∈ entries, e.2.IsLiteral) :
        ∀ e ∈ Dictionary.sortByKey entries, e.2.IsLiteral :=
      fun e he => h e ((Dictionary.sortByKey_perm entries).mem_iff.1 he)
    rw [attrsDoc_dict] at hkwargs hkwargs'
    have hsort := entries_eq_of_keywords (hsorted hliteral) (hsorted hliteral') hkwargs hkwargs'
    have hperm' := Dictionary.sortByKey_perm entries'
    rw [← hsort] at hperm'
    exact (Dictionary.sortByKey_perm entries).symm.trans hperm'

theorem printCall_dict_inj_comma :
    let entries : List (String × Object) := [("c", .str "x, d=2"), ("a, b", .int 1)]
    let call (entries : List (String × Object)) : Call :=
      ⟨.externFunc "f", [], some (.dict entries), [.object]⟩
    let text := "R.call_packed(\"f\", attrs_type_key=\"DictAttrs\", a, b=1, c=\"x, d=2\", " ++
      "sinfo_args=R.Object)"
    (∀ d, ({} : Printer).callDoc (call entries) = .ok d →
      ∃ f docs kwargs, d = .call f docs kwargs ∧ (kwargs.map Prod.fst).Nodup) ∧
    ({} : Printer).printCall (call entries) = .ok text ∧
    ∀ entries', (entries'.map Prod.fst).Nodup → (∀ e ∈ entries', e.2.IsLiteral) →
      (∀ e ∈ entries', '=' ∉ e.1.toList) → ({} : Printer).printCall (call entries') = .ok text →
        entries.Perm entries' := by
  intro entries call text
  have hliteral : ∀ e ∈ entries, e.2.IsLiteral := by
    rw [List.forall_mem_cons, List.forall_mem_singleton]
    exact ⟨.str "x, d=2", .int 1⟩
  have htext : ({} : Printer).printCall (call entries) = .ok text := by decide +kernel
  have hprints : printsAttrs (.externFunc "f") = true := rfl
  have hinj := printCall_dict_inj hprints {} [] [.object] (by decide) hliteral
  refine ⟨hinj.1 (by decide), htext, ?_⟩
  intro entries' hdistinct' hliteral' hkeys' htext'
  exact hinj.2 (by decide) entries' hdistinct' hliteral' hkeys' text htext htext'

/-- An entry that is not printed, a key that is added as well, and one that reads as two. -/
theorem printCall_dict_ambiguous :
    let call (callee : Expr) (args : List Expr) (infoArgs : List StructInfo)
        (entries : List (String × Object)) : Call :=
      ⟨callee, args, some (.dict entries), infoArgs⟩
    let collide (call : List (String × Object) → Call) (entries entries' : List (String × Object)) :
        Prop :=
      ¬ entries.Perm entries' ∧ ∃ text, ({} : Printer).printCall (call entries) = .ok text ∧
        ({} : Printer).printCall (call entries') = .ok text
    let fused := call (.op FusedCall.tirName) [.globalVar "f", .tuple [.var "x" none]] [.object]
    let plain := call (.op "relax.add") []
    collide fused [("a", .int 1)] [] ∧
    (∃ f docs kwargs, ({} : Printer).callDoc (plain [.object] [("sinfo_args", .int 1)]) =
      .ok (.call f docs kwargs) ∧ ¬ (kwargs.map Prod.fst).Nodup) ∧
    collide (plain []) [("a=1, b", .int 2)] [("a", .int 1), ("b", .int 2)] := by
  intro call collide fused plain
  have hlength {entries entries' : List (String × Object)} (h : entries.length ≠ entries'.length) :
      ¬ entries.Perm entries' :=
    fun hperm => h hperm.length_eq
  refine ⟨⟨hlength (by decide), _, rfl, rfl⟩, ⟨_, _, _, rfl, by decide⟩, hlength (by decide),
    "R.add(a=1, b=2)", ?_, ?_⟩
  · decide +kernel
  · decide +kernel

end Printer

end TensorIR
