import TensorIR.Doc
import TensorIR.Proofs.Doc.Cutting
import TensorIR.Proofs.Text.Quoted

/-!
Documents are read back from their text in one way only. Constants and symbols are written as names;
among documents without symbols and without names that are constants, those with the same text are
equal.
-/

namespace TensorIR.Doc

open Formula.Token (isWordChar)

section Spelling

mutual

/-- The document with the names that its constants and symbols are written as. -/
def spelled : Doc → Doc
  | .bool b => .id (if b then "True" else "False")
  | .none => .id "None"
  | .sym (.sym s) => .id s.name
  | .attr value name => .attr value.spelled name
  | .list items => .list (spelledAll items)
  | .tuple items => .tuple (spelledAll items)
  | .call callee args kwargs => .call callee.spelled (spelledAll args) (spelledKeywords kwargs)
  | d => d

def spelledAll : List Doc → List Doc
  | [] => []
  | d :: ds => d.spelled :: spelledAll ds

def spelledKeywords : List (String × Doc) → List (String × Doc)
  | [] => []
  | (key, d) :: kwargs => (key, d.spelled) :: spelledKeywords kwargs

end

mutual

theorem text_spelled (d : Doc) : d.spelled.text = d.text := by
  cases d with
  | sym e => cases e <;> rfl
  | attr value name => rw [spelled, text, text, text_spelled value]
  | list items => rw [spelled, text, text, texts_spelledAll items]
  | tuple items => rw [spelled, text, text, texts_spelledAll items]
  | call callee args kwargs =>
    rw [spelled, text, text, text_spelled callee, texts_spelledAll args,
      keywordTexts_spelledKeywords kwargs]
  | _ => rfl

theorem texts_spelledAll (ds : List Doc) : texts (spelledAll ds) = texts ds := by
  cases ds with
  | nil => rfl
  | cons d ds => rw [spelledAll, texts, texts, text_spelled d, texts_spelledAll ds]

theorem keywordTexts_spelledKeywords (kwargs : List (String × Doc)) :
    keywordTexts (spelledKeywords kwargs) = keywordTexts kwargs := by
  cases kwargs with
  | nil => rfl
  | cons kwarg kwargs =>
    rw [spelledKeywords, keywordTexts, keywordTexts, text_spelled kwarg.2,
      keywordTexts_spelledKeywords kwargs]

end

theorem spelledAll_eq_map (ds : List Doc) : spelledAll ds = ds.map spelled := by
  induction ds with
  | nil => rfl
  | cons d ds ih => rw [spelledAll, ih, List.map_cons]

theorem spelledKeywords_eq_map (kwargs : List (String × Doc)) :
    spelledKeywords kwargs = kwargs.map fun kwarg => (kwarg.1, kwarg.2.spelled) := by
  induction kwargs with
  | nil => rfl
  | cons kwarg kwargs ih => rw [spelledKeywords, ih, List.map_cons]

theorem texts_eq_map (ds : List Doc) : texts ds = ds.map text := by
  induction ds with
  | nil => rfl
  | cons d ds ih => rw [texts, ih, List.map_cons]

theorem keywordTexts_eq_map (kwargs : List (String × Doc)) :
    keywordTexts kwargs = kwargs.map fun kwarg => kwarg.1 ++ "=" ++ kwarg.2.text := by
  induction kwargs with
  | nil => rfl
  | cons kwarg kwargs ih => rw [keywordTexts, ih, List.map_cons]

end Spelling

/-- The names that constants are written as. -/
def constants : List String :=
  ["True", "False", "None"]

/-- A name that is not reserved, or an attribute of such a document. -/
inductive IsDotted (reserved : List String) : Doc → Prop where
  | id {name : String} (hname : IsName name) (hfree : name ∉ reserved) :
    IsDotted reserved (.id name)
  | attr {value : Doc} {name : String} (hvalue : IsDotted reserved value) (hname : IsName name) :
    IsDotted reserved (.attr value name)

/-- Documents that do not hide what they are: constants are reserved names, and there are no
symbolic expressions and no numbers of other types. -/
inductive Readable (reserved : List String) : Doc → Prop where
  | dotted {d : Doc} (h : IsDotted reserved d) : Readable reserved d
  | str (s : String) : Readable reserved (.str s)
  | int (n : Int64) : Readable reserved (.int n)
  | bool {b : Bool} (h : (if b then "True" else "False") ∈ reserved) : Readable reserved (.bool b)
  | none (h : "None" ∈ reserved) : Readable reserved .none
  | list {items : List Doc} (h : ∀ d ∈ items, Readable reserved d) : Readable reserved (.list items)
  | tuple {items : List Doc} (h : ∀ d ∈ items, Readable reserved d) :
    Readable reserved (.tuple items)
  | call {callee : Doc} {args : List Doc} {kwargs : List (String × Doc)}
    (hcallee : IsDotted reserved callee) (hargs : ∀ d ∈ args, Readable reserved d)
    (hkeys : ∀ kwarg ∈ kwargs, IsName kwarg.1)
    (hkwargs : ∀ kwarg ∈ kwargs, Readable reserved kwarg.2) :
    Readable reserved (.call callee args kwargs)

section Names

variable {reserved : List String} {d d' : Doc} {rest rest' : List Char}

theorem text_foldl_attr (names : List String) (d : Doc) :
    (names.foldl attr d).text.toList = d.text.toList ++ dots names := by
  induction names generalizing d with
  | nil => rw [dots, List.flatMap_nil, List.append_nil, List.foldl_nil]
  | cons name names ih =>
    rw [List.foldl_cons, ih, text, String.toList_append, String.toList_append, List.append_assoc,
      List.append_assoc]
    rfl

theorem IsDotted.exists_eq (h : IsDotted reserved d) :
    ∃ name names, d = List.foldl Doc.attr (.id name) names ∧ IsName name ∧ name ∉ reserved ∧
      ∀ name ∈ names, IsName name := by
  induction h with
  | @id name hname hfree => exact ⟨name, [], rfl, hname, hfree, by simp⟩
  | @attr value name _ hname ih =>
    obtain ⟨first, names, rfl, hfirst, hfree, hnames⟩ := ih
    refine ⟨first, names ++ [name], ?_, hfirst, hfree, ?_⟩
    · rw [List.foldl_append]
      rfl
    · rw [List.forall_mem_append, List.forall_mem_singleton]
      exact ⟨hnames, hname⟩

theorem IsDotted.text_append_inj (h : IsDotted reserved d) (h' : IsDotted reserved d')
    (hrest : EndsName rest) (hrest' : EndsName rest')
    (htext : d.text.toList ++ rest = d'.text.toList ++ rest') : d = d' ∧ rest = rest' := by
  obtain ⟨name, names, rfl, hname, _, hnames⟩ := h.exists_eq
  obtain ⟨name', names', rfl, hname', _, hnames'⟩ := h'.exists_eq
  rw [text_foldl_attr, text_foldl_attr, List.append_assoc, List.append_assoc] at htext
  obtain ⟨rfl, hdots⟩ := hname.append_inj hname' hrest.dots_append hrest'.dots_append htext
  obtain ⟨rfl, hrests⟩ := dots_append_inj hnames hnames' hrest hrest' hdots
  exact ⟨rfl, hrests⟩

def kind : Doc → Kind
  | .str _ => .str
  | .int _ => .int
  | .list _ => .list
  | .tuple _ => .tuple
  | _ => .name

theorem IsDotted.opensWith (h : IsDotted reserved d) : OpensWith .name d.text.toList := by
  obtain ⟨name, names, rfl, hname, _, _⟩ := h.exists_eq
  rw [text_foldl_attr]
  exact hname.opensWith.append _

end Names

section Texts

/-- An argument of a call, with its keyword if it has one. -/
def argumentText : Option String × Doc → List Char
  | (Option.none, d) => d.text.toList
  | (some key, d) => key.toList ++ '=' :: d.text.toList

def arguments (args : List Doc) (kwargs : List (String × Doc)) : List (Option String × Doc) :=
  args.map (Option.none, ·) ++ kwargs.map fun kwarg => (some kwarg.1, kwarg.2)

theorem arguments_inj {args args' : List Doc} {kwargs kwargs' : List (String × Doc)}
    (h : arguments args kwargs = arguments args' kwargs') : args = args' ∧ kwargs = kwargs' := by
  induction args generalizing args' with
  | nil =>
    cases args' with
    | nil =>
      refine ⟨rfl, (List.map_inj_right ?_).1 h⟩
      rintro ⟨key, d⟩ ⟨key', d'⟩ ⟨⟩
      rfl
    | cons arg' args' => cases kwargs <;> cases h
  | cons arg args ih =>
    cases args' with
    | nil => cases kwargs' <;> cases h
    | cons arg' args' =>
      obtain ⟨harg, hrest⟩ := List.cons.inj h
      obtain ⟨rfl, rfl⟩ := ih hrest
      cases harg
      exact ⟨rfl, rfl⟩

theorem toList_text_list (items : List Doc) :
    (list items).text.toList =
      '[' :: ([',', ' '].intercalate (items.map fun d => d.text.toList) ++ [']']) := by
  simp [text, texts_eq_map, Function.comp_def]

theorem toList_text_tuple (items : List Doc) :
    (tuple items).text.toList =
      '(' :: ([',', ' '].intercalate (items.map fun d => d.text.toList) ++
        if items.length = 1 then [',', ')'] else [')']) := by
  rw [text, texts_eq_map]
  simp only [List.length_map]
  split <;> simp [Function.comp_def]

theorem toList_text_call (callee : Doc) (args : List Doc) (kwargs : List (String × Doc)) :
    (call callee args kwargs).text.toList =
      callee.text.toList ++ '(' ::
        ([',', ' '].intercalate ((arguments args kwargs).map argumentText) ++ [')']) := by
  simp [text, texts_eq_map, keywordTexts_eq_map, arguments, argumentText, Function.comp_def]

end Texts

section Reading

variable {d d' : Doc} {rest rest' : List Char}

theorem readable_list_iff {reserved : List String} {items : List Doc} :
    Readable reserved (.list items) ↔ ∀ d ∈ items, Readable reserved d := by
  constructor
  · intro h
    cases h with
    | list h => exact h
    | dotted h => cases h
  · exact .list

theorem readable_tuple_iff {reserved : List String} {items : List Doc} :
    Readable reserved (.tuple items) ↔ ∀ d ∈ items, Readable reserved d := by
  constructor
  · intro h
    cases h with
    | tuple h => exact h
    | dotted h => cases h
  · exact .tuple

theorem Readable.dotted_or_call (h : Readable [] d) (hkind : d.kind = .name) :
    IsDotted [] d ∨ ∃ callee args kwargs, d = .call callee args kwargs ∧ IsDotted [] callee ∧
      (∀ d ∈ args, Readable [] d) ∧ (∀ kwarg ∈ kwargs, IsName kwarg.1) ∧
      ∀ kwarg ∈ kwargs, Readable [] kwarg.2 := by
  cases h with
  | dotted h => exact .inl h
  | call hcallee hargs hkeys hkwargs =>
    exact .inr ⟨_, _, _, rfl, hcallee, hargs, hkeys, hkwargs⟩
  | bool h => cases h
  | none h => cases h
  | _ => cases hkind

theorem Readable.opensWith (h : Readable [] d) : OpensWith d.kind d.text.toList := by
  cases h with
  | dotted h =>
    have hname := h.opensWith
    cases h <;> exact hname
  | str s => exact ⟨'"', by simp [text, Text.Quoted.encode], rfl⟩
  | int n => exact opensWith_toString n.toInt
  | bool h => cases h
  | none h => cases h
  | list h => exact ⟨'[', by simp [text], rfl⟩
  | tuple h => exact ⟨'(', by simp [text], rfl⟩
  | call hcallee hargs hkeys hkwargs =>
    rw [toList_text_call]
    exact hcallee.opensWith.append _

/-- No document reads as a keyword, since nothing that may stand behind a name is an equals sign. -/
theorem Readable.text_append_ne (h : Readable [] d) (hrest : EndsItem rest) {key : String}
    (hkey : IsName key) (cs : List Char) :
    d.text.toList ++ rest ≠ key.toList ++ '=' :: cs := by
  have hname : IsDotted [] (.id key) := .id hkey List.not_mem_nil
  have hends : EndsName ('=' :: cs) := endsName_cons (by decide) (by decide)
  intro htext
  have hkind : d.kind = .name := by
    refine (h.opensWith.append rest).unique ?_
    rw [htext]
    exact hkey.opensWith.append _
  rcases h.dotted_or_call hkind with hd | ⟨callee, args, kwargs, rfl, hcallee, _⟩
  · obtain ⟨_, rfl⟩ := hd.text_append_inj hname hrest.endsName hends htext
    exact absurd hrest (not_endsItem_cons (by decide))
  · rw [toList_text_call, List.append_assoc, List.cons_append] at htext
    obtain ⟨_, hparen⟩ := hcallee.text_append_inj hname (endsName_cons (by decide) (by decide))
      hends htext
    cases hparen

/-- The text of the document ends in one place only. -/
def Cancels (d : Doc) : Prop :=
  ∀ {d' : Doc} {rest rest' : List Char}, Readable [] d' → EndsItem rest → EndsItem rest' →
    d.text.toList ++ rest = d'.text.toList ++ rest' → d = d' ∧ rest = rest'

theorem cancels_items {items items' : List Doc} {t t' : List Char}
    (hitems : ∀ d ∈ items, Readable [] d ∧ d.Cancels) (hitems' : ∀ d ∈ items', Readable [] d)
    (ht : Closes t) (ht' : Closes t')
    (h : [',', ' '].intercalate (items.map fun d => d.text.toList) ++ t =
      [',', ' '].intercalate (items'.map fun d => d.text.toList) ++ t') :
    items = items' ∧ t = t' := by
  refine intercalate_append_inj ?_ ht ht' ?_ ?_ h
  · intro d hd d' hd' rest rest' hrest hrest' htext
    exact (hitems d hd).2 (hitems' d' hd') hrest hrest' htext
  · exact fun d hd => ⟨_, (hitems d hd).1.opensWith⟩
  · exact fun d hd => ⟨_, (hitems' d hd).opensWith⟩

/-- An argument of a call whose keyword is a name. -/
structure IsArgument (a : Option String × Doc) : Prop where
  isName : ∀ key ∈ a.1, IsName key
  readable : Readable [] a.2

theorem forall_isArgument {args : List Doc} {kwargs : List (String × Doc)}
    (hargs : ∀ d ∈ args, Readable [] d) (hkeys : ∀ kwarg ∈ kwargs, IsName kwarg.1)
    (hkwargs : ∀ kwarg ∈ kwargs, Readable [] kwarg.2) :
    ∀ a ∈ arguments args kwargs, IsArgument a := by
  rw [arguments, List.forall_mem_append, List.forall_mem_map, List.forall_mem_map]
  refine ⟨fun d hd => ⟨by simp, hargs d hd⟩, fun kwarg hkwarg => ⟨?_, hkwargs kwarg hkwarg⟩⟩
  rintro key ⟨⟩
  exact hkeys kwarg hkwarg

theorem IsArgument.opensWith {a : Option String × Doc} (h : IsArgument a) :
    ∃ kind, OpensWith kind (argumentText a) := by
  obtain ⟨_ | key, d⟩ := a
  · exact ⟨_, h.readable.opensWith⟩
  · exact ⟨_, (h.isName key rfl).opensWith.append _⟩

theorem IsArgument.append_inj {a a' : Option String × Doc} (ha : IsArgument a) (hd : a.2.Cancels)
    (ha' : IsArgument a') (hrest : EndsItem rest) (hrest' : EndsItem rest')
    (h : argumentText a ++ rest = argumentText a' ++ rest') : a = a' ∧ rest = rest' := by
  obtain ⟨key?, d⟩ := a
  obtain ⟨key?', d'⟩ := a'
  cases key? with
  | none =>
    cases key?' with
    | none =>
      obtain ⟨rfl, hrests⟩ := hd ha'.readable hrest hrest' h
      exact ⟨rfl, hrests⟩
    | some key' =>
      rw [argumentText, argumentText, List.append_assoc] at h
      exact absurd h (ha.readable.text_append_ne hrest (ha'.isName key' rfl) _)
  | some key =>
    cases key?' with
    | none =>
      rw [argumentText, argumentText, List.append_assoc] at h
      exact absurd h.symm (ha'.readable.text_append_ne hrest' (ha.isName key rfl) _)
    | some key' =>
      have hword {cs : List Char} : ∀ c ∈ ('=' :: cs).head?, isWordChar c = false := by
        rintro c ⟨⟩
        decide
      rw [argumentText, argumentText, List.append_assoc, List.append_assoc, List.cons_append,
        List.cons_append] at h
      obtain ⟨rfl, hequals⟩ := (ha.isName key rfl).append_inj (ha'.isName key' rfl) hword hword h
      obtain ⟨rfl, hrests⟩ := hd ha'.readable hrest hrest' (List.cons.inj hequals).2
      exact ⟨rfl, hrests⟩

theorem Readable.kind_eq (h : Readable [] d) (h' : Readable [] d')
    (htext : d.text.toList ++ rest = d'.text.toList ++ rest') : d.kind = d'.kind := by
  refine (h.opensWith.append rest).unique ?_
  rw [htext]
  exact h'.opensWith.append rest'

theorem Readable.cancels (h : Readable [] d) : d.Cancels := by
  induction h with
  | @dotted d h =>
    intro d' rest rest' h' hrest hrest' htext
    have hkind : d'.kind = .name := by
      rw [← Readable.kind_eq (.dotted h) h' htext]
      cases h <;> rfl
    rcases h'.dotted_or_call hkind with h' | ⟨callee, args, kwargs, rfl, hcallee, _⟩
    · exact h.text_append_inj h' hrest.endsName hrest'.endsName htext
    · rw [toList_text_call, List.append_assoc, List.cons_append] at htext
      obtain ⟨_, rfl⟩ := h.text_append_inj hcallee hrest.endsName
        (endsName_cons (by decide) (by decide)) htext
      exact absurd hrest (not_endsItem_cons (by decide))
  | str s =>
    intro d' rest rest' h' _ _ htext
    have hkind := Readable.kind_eq (.str s) h' htext
    cases d' with
    | str s' =>
      have hdecode := Text.Quoted.decode?_encode s rest
      rw [← text, htext, text, Text.Quoted.decode?_encode, Option.some.injEq, Prod.mk.injEq]
        at hdecode
      rw [String.toList_inj.1 hdecode.1, hdecode.2]
      exact ⟨rfl, rfl⟩
    | _ => cases hkind
  | int n =>
    intro d' rest rest' h' hrest hrest' htext
    have hkind := Readable.kind_eq (.int n) h' htext
    have hends : ∀ c ∈ [',', ')', ']'], (c.isDigit || c == '-') = false :=
      forall_closing (by decide) (by decide) (by decide)
    cases d' with
    | int n' =>
      obtain ⟨hdigits, rfl⟩ := append_inj_of_all (isDigit_or_minus_of_mem_toString n.toInt)
        (isDigit_or_minus_of_mem_toString n'.toInt) (fun c hc => hends c (hrest c hc))
        (fun c hc => hends c (hrest' c hc)) htext
      rw [Int64.toInt_inj.1 (eq_of_toString_eq hdigits)]
      exact ⟨rfl, rfl⟩
    | _ => cases hkind
  | bool h => cases h
  | none h => cases h
  | @list items h ih =>
    intro d' rest rest' h' _ _ htext
    have hkind := Readable.kind_eq (.list h) h' htext
    cases d' with
    | list items' =>
      rw [toList_text_list, toList_text_list, List.cons_append, List.cons_append,
        List.append_assoc, List.append_assoc] at htext
      obtain ⟨rfl, hclosed⟩ := cancels_items (fun d hd => ⟨h d hd, ih d hd⟩)
        (readable_list_iff.1 h') (.square rest) (.square rest') (List.cons.inj htext).2
      exact ⟨rfl, (List.cons.inj hclosed).2⟩
    | _ => cases hkind
  | @tuple items h ih =>
    intro d' rest rest' h' _ _ htext
    have hkind := Readable.kind_eq (.tuple h) h' htext
    have hcloses (items : List Doc) (rest : List Char) :
        Closes ((if items.length = 1 then [',', ')'] else [')']) ++ rest) := by
      split
      · exact .single rest
      · exact .round rest
    cases d' with
    | tuple items' =>
      rw [toList_text_tuple, toList_text_tuple, List.cons_append, List.cons_append,
        List.append_assoc, List.append_assoc] at htext
      obtain ⟨rfl, hclosed⟩ := cancels_items (fun d hd => ⟨h d hd, ih d hd⟩)
        (readable_tuple_iff.1 h') (hcloses _ _) (hcloses _ _) (List.cons.inj htext).2
      exact ⟨rfl, List.append_cancel_left hclosed⟩
    | _ => cases hkind
  | @call callee args kwargs hcallee hargs hkeys hkwargs ihargs ihkwargs =>
    intro d' rest rest' h' hrest hrest' htext
    have hkind := Readable.kind_eq (.call hcallee hargs hkeys hkwargs) h' htext
    have hends {cs : List Char} : EndsName ('(' :: cs) := endsName_cons (by decide) (by decide)
    rw [toList_text_call, List.append_assoc, List.cons_append] at htext
    rcases h'.dotted_or_call hkind.symm with
      h' | ⟨callee', args', kwargs', rfl, hcallee', hargs', hkeys', hkwargs'⟩
    · obtain ⟨_, rfl⟩ := hcallee.text_append_inj h' hends hrest'.endsName htext
      exact absurd hrest' (not_endsItem_cons (by decide))
    · rw [toList_text_call, List.append_assoc callee'.text.toList, List.cons_append] at htext
      obtain ⟨rfl, hparen⟩ := hcallee.text_append_inj hcallee' hends hends htext
      have harguments := forall_isArgument hargs hkeys hkwargs
      have harguments' := forall_isArgument hargs' hkeys' hkwargs'
      have hcancels : ∀ a ∈ arguments args kwargs, a.2.Cancels := by
        rw [arguments, List.forall_mem_append, List.forall_mem_map, List.forall_mem_map]
        exact ⟨ihargs, ihkwargs⟩
      have hparen := (List.cons.inj hparen).2
      rw [List.append_assoc, List.append_assoc] at hparen
      obtain ⟨heq, hclosed⟩ := intercalate_append_inj
        (fun a ha a' ha' _ _ hrest hrest' htext =>
          (harguments a ha).append_inj (hcancels a ha) (harguments' a' ha') hrest hrest' htext)
        (.round rest) (.round rest') (fun a ha => (harguments a ha).opensWith)
        (fun a ha => (harguments' a ha).opensWith) hparen
      obtain ⟨rfl, rfl⟩ := arguments_inj heq
      exact ⟨rfl, (List.cons.inj hclosed).2⟩

theorem eq_of_text_eq (h : Readable [] d) (h' : Readable [] d') (htext : d.text = d'.text) :
    d = d' := by
  have hends : EndsItem [] := by
    intro c hc
    cases hc
  exact (h.cancels h' hends hends (congrArg (·.toList ++ []) htext)).1

end Reading

section Constants

variable {reserved : List String} {d d' : Doc}

theorem IsDotted.spelled_eq (h : IsDotted reserved d) : d.spelled = d := by
  induction h with
  | id => rfl
  | attr _ _ ih => rw [spelled, ih]

theorem IsDotted.of_nil (h : IsDotted reserved d) : IsDotted [] d := by
  induction h with
  | id hname _ => exact .id hname List.not_mem_nil
  | attr _ hname ih => exact ih.attr hname

theorem isName_of_mem_constants {name : String} (h : name ∈ constants) : IsName name := by
  have hall : ∀ name ∈ constants, IsName name := by decide
  exact hall name h

theorem Readable.spelled (h : Readable constants d) : Readable [] d.spelled := by
  induction h with
  | dotted h =>
    rw [h.spelled_eq]
    exact .dotted h.of_nil
  | str s => exact .str s
  | int n => exact .int n
  | bool h => exact .dotted (.id (isName_of_mem_constants h) List.not_mem_nil)
  | none h => exact .dotted (.id (isName_of_mem_constants h) List.not_mem_nil)
  | list _ ih =>
    rw [Doc.spelled, spelledAll_eq_map]
    exact .list (List.forall_mem_map.2 ih)
  | tuple _ ih =>
    rw [Doc.spelled, spelledAll_eq_map]
    exact .tuple (List.forall_mem_map.2 ih)
  | call hcallee _ hkeys _ ihargs ihkwargs =>
    rw [Doc.spelled, spelledAll_eq_map, spelledKeywords_eq_map, hcallee.spelled_eq]
    exact .call hcallee.of_nil (List.forall_mem_map.2 ihargs) (List.forall_mem_map.2 hkeys)
      (List.forall_mem_map.2 ihkwargs)

theorem map_inj_of_mem {α β : Type} {f : α → β} {as bs : List α}
    (hinj : ∀ a ∈ as, ∀ b ∈ bs, f a = f b → a = b) (h : as.map f = bs.map f) : as = bs := by
  induction as generalizing bs with
  | nil => exact (List.map_eq_nil_iff.1 h.symm).symm
  | cons a as ih =>
    cases bs with
    | nil => cases h
    | cons b bs =>
      rw [List.map_cons, List.map_cons, List.cons.injEq] at h
      rw [hinj a (by simp) b (by simp) h.1,
        ih (fun a ha b hb => hinj a (List.mem_cons_of_mem _ ha) b (List.mem_cons_of_mem _ hb)) h.2]

theorem IsDotted.eq_of_spelled_eq (h : IsDotted constants d) (h' : Readable constants d')
    (hspelled : d.spelled = d'.spelled) : d = d' := by
  rw [h.spelled_eq] at hspelled
  cases h' with
  | dotted h' => rw [hspelled, h'.spelled_eq]
  | bool hb =>
    subst hspelled
    cases h with
    | id _ hfree => exact absurd hb hfree
  | none hnone =>
    subst hspelled
    cases h with
    | id _ hfree => exact absurd hnone hfree
  | _ =>
    rw [hspelled] at h
    cases h

theorem Readable.eq_of_spelled_eq (h : Readable constants d) (h' : Readable constants d')
    (hspelled : d.spelled = d'.spelled) : d = d' := by
  have hid : ∀ b : Bool, (if b then "True" else "False") ≠ "None" := by decide
  have hbool : ∀ b b' : Bool, (if b then "True" else "False") = (if b' then "True" else "False") →
      b = b' := by decide
  have hdotted {d d' : Doc} (h : Readable constants d) (h' : IsDotted constants d')
      (hspelled : d.spelled = d'.spelled) : d = d' :=
    (h'.eq_of_spelled_eq h hspelled.symm).symm
  induction h generalizing d' with
  | dotted h => exact h.eq_of_spelled_eq h' hspelled
  | str s =>
    cases h' with
    | dotted h' => exact hdotted (.str s) h' hspelled
    | str s' => exact hspelled
    | _ => cases hspelled
  | int n =>
    cases h' with
    | dotted h' => exact hdotted (.int n) h' hspelled
    | int n' => exact hspelled
    | _ => cases hspelled
  | @bool b h =>
    cases h' with
    | dotted h' => exact hdotted (.bool h) h' hspelled
    | @bool b' h' => rw [hbool b b' (id.inj hspelled)]
    | none => exact absurd (id.inj hspelled) (hid b)
    | _ => cases hspelled
  | none h =>
    cases h' with
    | dotted h' => exact hdotted (.none h) h' hspelled
    | @bool b' h' => exact absurd (id.inj hspelled).symm (hid b')
    | none => rfl
    | _ => cases hspelled
  | @list items h ih =>
    cases h' with
    | dotted h' => exact hdotted (.list h) h' hspelled
    | @list items' h' =>
      rw [Doc.spelled, Doc.spelled, spelledAll_eq_map, spelledAll_eq_map, list.injEq] at hspelled
      rw [map_inj_of_mem (fun d hd d' hd' => ih d hd (h' d' hd')) hspelled]
    | _ => cases hspelled
  | @tuple items h ih =>
    cases h' with
    | dotted h' => exact hdotted (.tuple h) h' hspelled
    | @tuple items' h' =>
      rw [Doc.spelled, Doc.spelled, spelledAll_eq_map, spelledAll_eq_map, tuple.injEq] at hspelled
      rw [map_inj_of_mem (fun d hd d' hd' => ih d hd (h' d' hd')) hspelled]
    | _ => cases hspelled
  | @call callee args kwargs hcallee hargs hkeys hkwargs ihargs ihkwargs =>
    cases h' with
    | dotted h' => exact hdotted (.call hcallee hargs hkeys hkwargs) h' hspelled
    | @call callee' args' kwargs' hcallee' hargs' _ hkwargs' =>
      rw [Doc.spelled, Doc.spelled, hcallee.spelled_eq, hcallee'.spelled_eq, spelledAll_eq_map,
        spelledAll_eq_map, spelledKeywords_eq_map, spelledKeywords_eq_map, call.injEq] at hspelled
      obtain ⟨rfl, hspelledArgs, hspelledKwargs⟩ := hspelled
      have hkwarg : ∀ kwarg ∈ kwargs, ∀ kwarg' ∈ kwargs',
          (kwarg.1, kwarg.2.spelled) = (kwarg'.1, kwarg'.2.spelled) → kwarg = kwarg' := by
        intro kwarg hkwarg kwarg' hkwarg' heq
        obtain ⟨hkey, hvalue⟩ := Prod.mk.inj heq
        exact Prod.ext hkey (ihkwargs kwarg hkwarg (hkwargs' kwarg' hkwarg') hvalue)
      rw [map_inj_of_mem (fun d hd d' hd' => ihargs d hd (hargs' d' hd')) hspelledArgs,
        map_inj_of_mem hkwarg hspelledKwargs]
    | _ => cases hspelled

theorem Readable.spelled_eq_of_text_eq (h : Readable [] d.spelled) (h' : Readable [] d'.spelled)
    (htext : d.text = d'.text) : d.spelled = d'.spelled := by
  rw [← text_spelled d, ← text_spelled d'] at htext
  exact eq_of_text_eq h h' htext

/-- No two documents have the same text. -/
theorem text_inj (h : Readable constants d) (h' : Readable constants d') :
    d.text = d'.text ↔ d = d' := by
  constructor
  · intro htext
    exact h.eq_of_spelled_eq h' (h.spelled.spelled_eq_of_text_eq h'.spelled htext)
  · exact congrArg text

/-- A keyword is not read as an item of a tuple, nor as a part of a string. -/
theorem text_inj_call :
    let plain := call (attr (id "R") "f") [tuple [.int 1], .str "n=True"] []
    let keyword := call (attr (id "R") "f") [tuple [.int 1]] [("n", .bool true)]
    Readable constants plain ∧ Readable constants keyword ∧ plain.text ≠ keyword.text := by
  have hcallee : IsDotted constants (attr (id "R") "f") :=
    .attr (.id (by decide) (by decide)) (by decide)
  have htuple : Readable constants (tuple [.int 1]) :=
    .tuple (List.forall_mem_singleton.2 (.int 1))
  have hplain : Readable constants (call (attr (id "R") "f") [tuple [.int 1], .str "n=True"] []) :=
    .call hcallee (List.forall_mem_cons.2 ⟨htuple, List.forall_mem_singleton.2 (.str _)⟩)
      (by simp) (by simp)
  have hkeyword :
      Readable constants (call (attr (id "R") "f") [tuple [.int 1]] [("n", .bool true)]) :=
    .call hcallee (List.forall_mem_singleton.2 htuple) (List.forall_mem_singleton.2 (by decide))
      (List.forall_mem_singleton.2 (.bool (by decide)))
  refine ⟨hplain, hkeyword, fun htext => ?_⟩
  have heq := (text_inj hplain hkeyword).1 htext
  cases heq

end Constants

end TensorIR.Doc
