import TensorIR.Proofs.Formula.Token

/-!
Texts are cut from the left: names, numbers and string literals end where a character stands that
cannot belong to them, and each item of a list ends at a comma or a closing bracket.
-/

namespace TensorIR.Doc

open Formula.Token (isNameStart isWordChar isIdentifier)

def IsName (name : String) : Prop :=
  isIdentifier name.toList = true

instance : DecidablePred IsName :=
  fun name => inferInstanceAs (Decidable (isIdentifier name.toList = true))

section Cutting

variable {rest rest' : List Char}

/-- What stands behind an item of a list. -/
def EndsItem (rest : List Char) : Prop :=
  ∀ c ∈ rest.head?, c ∈ [',', ')', ']']

def EndsName (rest : List Char) : Prop :=
  ∀ c ∈ rest.head?, isWordChar c = false ∧ c ≠ '.'

theorem forall_closing {P : Char → Prop} (hcomma : P ',') (hparen : P ')') (hbracket : P ']') :
    ∀ c ∈ [',', ')', ']'], P c := by
  simp [hcomma, hparen, hbracket]

theorem EndsItem.endsName (h : EndsItem rest) : EndsName rest := by
  have hall : ∀ c ∈ [',', ')', ']'], isWordChar c = false ∧ c ≠ '.' :=
    forall_closing (by decide) (by decide) (by decide)
  exact fun c hc => hall c (h c hc)

theorem not_endsItem_cons {c : Char} {cs : List Char} (hc : c ∉ [',', ')', ']']) :
    ¬ EndsItem (c :: cs) :=
  fun h => hc (h c rfl)

theorem endsName_cons {c : Char} {cs : List Char} (hword : isWordChar c = false) (hdot : c ≠ '.') :
    EndsName (c :: cs) := by
  intro c' hc'
  cases hc'
  exact ⟨hword, hdot⟩

theorem append_inj_of_all {p : Char → Bool} {w w' : List Char} (hw : ∀ c ∈ w, p c = true)
    (hw' : ∀ c ∈ w', p c = true) (hrest : ∀ c ∈ rest.head?, p c = false)
    (hrest' : ∀ c ∈ rest'.head?, p c = false) (h : w ++ rest = w' ++ rest') :
    w = w' ∧ rest = rest' := by
  have htake {w rest : List Char} (hw : ∀ c ∈ w, p c = true)
      (hrest : ∀ c ∈ rest.head?, p c = false) : (w ++ rest).takeWhile p = w := by
    rw [List.takeWhile_append_of_pos hw]
    cases rest with
    | nil => simp
    | cons c rest => simp [hrest c rfl]
  have hword : w = w' := by
    rw [← htake hw hrest, h, htake hw' hrest']
  subst hword
  exact ⟨rfl, List.append_cancel_left h⟩

theorem cut_inj {c : Char} {w w' : List Char} (hw : c ∉ w) (hw' : c ∉ w')
    (h : w ++ c :: rest = w' ++ c :: rest') : w = w' ∧ rest = rest' := by
  have hbefore {w : List Char} (hw : c ∉ w) : ∀ d ∈ w, (d != c) = true := by
    intro d hd
    rw [bne_iff_ne]
    rintro rfl
    exact hw hd
  have hfirst {rest : List Char} : ∀ d ∈ (c :: rest).head?, (d != c) = false := by
    rintro d ⟨⟩
    exact bne_self_eq_false c
  obtain ⟨hword, hrests⟩ := append_inj_of_all (hbefore hw) (hbefore hw') hfirst hfirst h
  exact ⟨hword, (List.cons.inj hrests).2⟩

variable {name name' : String} {names names' : List String}

theorem IsName.all (h : IsName name) : ∀ c ∈ name.toList, isWordChar c = true :=
  List.all_eq_true.1 (Formula.Token.isWordChar_of_isIdentifier h).2

theorem IsName.append_inj (h : IsName name) (h' : IsName name')
    (hrest : ∀ c ∈ rest.head?, isWordChar c = false)
    (hrest' : ∀ c ∈ rest'.head?, isWordChar c = false)
    (htext : name.toList ++ rest = name'.toList ++ rest') : name = name' ∧ rest = rest' := by
  obtain ⟨hname, hrest⟩ := append_inj_of_all h.all h'.all hrest hrest' htext
  exact ⟨String.toList_inj.1 hname, hrest⟩

/-- The attributes behind a name. -/
def dots (names : List String) : List Char :=
  names.flatMap fun name => '.' :: name.toList

theorem EndsName.dots_append (h : EndsName rest) :
    ∀ c ∈ (dots names ++ rest).head?, isWordChar c = false := by
  cases names with
  | nil => exact fun c hc => (h c hc).1
  | cons name names =>
    intro c hc
    cases hc
    decide

theorem dots_append_inj (hnames : ∀ name ∈ names, IsName name)
    (hnames' : ∀ name ∈ names', IsName name) (hrest : EndsName rest) (hrest' : EndsName rest')
    (h : dots names ++ rest = dots names' ++ rest') : names = names' ∧ rest = rest' := by
  have hdot {name : String} {names : List String} {rest rest' : List Char} (hrest : EndsName rest)
      (h : rest = dots (name :: names) ++ rest') : False := by
    rw [h] at hrest
    exact (hrest '.' rfl).2 rfl
  induction names generalizing names' with
  | nil =>
    cases names' with
    | nil => exact ⟨rfl, h⟩
    | cons name' names' => exact (hdot hrest h).elim
  | cons name names ih =>
    cases names' with
    | nil => exact (hdot hrest' h.symm).elim
    | cons name' names' =>
      rw [List.forall_mem_cons] at hnames hnames'
      rw [dots, dots, List.flatMap_cons, List.flatMap_cons, List.cons_append, List.cons_append,
        List.cons_append, List.cons_append, List.append_assoc, List.append_assoc] at h
      obtain ⟨rfl, htext⟩ := hnames.1.append_inj hnames'.1 hrest.dots_append hrest'.dots_append
        (List.cons.inj h).2
      obtain ⟨rfl, hrests⟩ := ih hnames.2 hnames'.2 htext
      exact ⟨rfl, hrests⟩

end Cutting

section Items

/-- What closes a list of items; behind a single item of a tuple stands a comma. -/
inductive Closes : List Char → Prop where
  | round (cs : List Char) : Closes (')' :: cs)
  | square (cs : List Char) : Closes (']' :: cs)
  | single (cs : List Char) : Closes (',' :: ')' :: cs)

theorem Closes.endsItem {t : List Char} (h : Closes t) : EndsItem t := by
  cases h <;> simp [EndsItem]

/-- The kinds of documents that their first character tells apart. -/
inductive Kind where
  | name
  | str
  | int
  | list
  | tuple

def kindOf? (c : Char) : Option Kind :=
  if isNameStart c then some .name
  else if c = '"' then some .str
  else if c.isDigit || c == '-' then some .int
  else if c = '[' then some .list
  else if c = '(' then some .tuple
  else Option.none

def OpensWith (kind : Kind) (cs : List Char) : Prop :=
  ∃ c ∈ cs.head?, kindOf? c = some kind

theorem OpensWith.append {kind : Kind} {cs : List Char} (h : OpensWith kind cs)
    (rest : List Char) : OpensWith kind (cs ++ rest) := by
  obtain ⟨c, hc, hkind⟩ := h
  refine ⟨c, ?_, hkind⟩
  cases cs with
  | nil => cases hc
  | cons d cs => exact hc

theorem OpensWith.unique {kind kind' : Kind} {cs : List Char} (h : OpensWith kind cs)
    (h' : OpensWith kind' cs) : kind = kind' := by
  obtain ⟨c, hc, hkind⟩ := h
  obtain ⟨c', hc', hkind'⟩ := h'
  cases Option.mem_unique hc hc'
  exact Option.some.inj (hkind.symm.trans hkind')

theorem OpensWith.not_closes {kind : Kind} {cs : List Char} (h : OpensWith kind cs) :
    ¬ Closes cs := by
  have hall : ∀ c ∈ [',', ')', ']'], kindOf? c = Option.none :=
    forall_closing (by decide) (by decide) (by decide)
  intro hcloses
  obtain ⟨c, hc, hkind⟩ := h
  rw [hall c (hcloses.endsItem c hc)] at hkind
  cases hkind

theorem intercalate_cons (s : List Char) (ss : List (List Char)) :
    [',', ' '].intercalate (s :: ss) = s ++ ss.flatMap fun s => ',' :: ' ' :: s := by
  induction ss generalizing s with
  | nil => simp
  | cons s' ss ih => simp [List.intercalate_cons_cons, ih]

variable {α : Type} {f : α → List Char} {as bs : List α} {t t' : List Char}

theorem endsItem_flatMap_append (ht : Closes t) (as : List α) :
    EndsItem (as.flatMap (fun a => ',' :: ' ' :: f a) ++ t) := by
  cases as with
  | nil => exact ht.endsItem
  | cons a as => simp [EndsItem]

variable
  (hinj : ∀ a ∈ as, ∀ b ∈ bs, ∀ rest rest', EndsItem rest → EndsItem rest' →
    f a ++ rest = f b ++ rest' → a = b ∧ rest = rest')
  (ht : Closes t) (ht' : Closes t')
include hinj ht ht'

theorem flatMap_append_inj
    (h : as.flatMap (fun a => ',' :: ' ' :: f a) ++ t =
      bs.flatMap (fun b => ',' :: ' ' :: f b) ++ t') : as = bs ∧ t = t' := by
  have hspace {cs t : List Char} (ht : Closes t) : t ≠ ',' :: ' ' :: cs := by
    cases ht <;> simp
  induction as generalizing bs with
  | nil =>
    cases bs with
    | nil => exact ⟨rfl, h⟩
    | cons b bs => exact absurd h (hspace ht)
  | cons a as ih =>
    cases bs with
    | nil => exact absurd h.symm (hspace ht')
    | cons b bs =>
      simp only [List.flatMap_cons, List.cons_append, List.append_assoc, List.cons.injEq,
        true_and] at h
      obtain ⟨rfl, hrest⟩ := hinj a (by simp) b (by simp) _ _ (endsItem_flatMap_append ht as)
        (endsItem_flatMap_append ht' bs) h
      obtain ⟨rfl, hclosed⟩ := ih
        (fun a ha b hb => hinj a (List.mem_cons_of_mem _ ha) b (List.mem_cons_of_mem _ hb)) hrest
      exact ⟨rfl, hclosed⟩

theorem intercalate_append_inj (hopens : ∀ a ∈ as, ∃ kind, OpensWith kind (f a))
    (hopens' : ∀ b ∈ bs, ∃ kind, OpensWith kind (f b))
    (h : [',', ' '].intercalate (as.map f) ++ t = [',', ' '].intercalate (bs.map f) ++ t') :
    as = bs ∧ t = t' := by
  have hempty {a : α} {t rest : List Char} (ht : Closes t) (ha : ∃ kind, OpensWith kind (f a)) :
      t ≠ f a ++ rest := by
    obtain ⟨kind, ha⟩ := ha
    rintro rfl
    exact (ha.append rest).not_closes ht
  cases as with
  | nil =>
    cases bs with
    | nil => simpa using h
    | cons b bs =>
      rw [List.map_cons, intercalate_cons, List.append_assoc] at h
      exact absurd h (hempty ht (hopens' b (by simp)))
  | cons a as =>
    cases bs with
    | nil =>
      rw [List.map_cons, intercalate_cons, List.append_assoc] at h
      exact absurd h.symm (hempty ht' (hopens a (by simp)))
    | cons b bs =>
      rw [List.map_cons, List.map_cons, intercalate_cons, intercalate_cons, List.append_assoc,
        List.append_assoc, List.flatMap_map, List.flatMap_map] at h
      obtain ⟨rfl, hrest⟩ := hinj a (by simp) b (by simp) _ _ (endsItem_flatMap_append ht as)
        (endsItem_flatMap_append ht' bs) h
      obtain ⟨rfl, hclosed⟩ := flatMap_append_inj
        (fun a ha b hb => hinj a (List.mem_cons_of_mem _ ha) b (List.mem_cons_of_mem _ hb)) ht ht'
        hrest
      exact ⟨rfl, hclosed⟩

end Items

section Openings

theorem IsName.opensWith {name : String} (h : IsName name) : OpensWith .name name.toList := by
  unfold IsName at h
  cases hname : name.toList with
  | nil =>
    rw [hname] at h
    cases h
  | cons c cs =>
    rw [hname, isIdentifier, Bool.and_eq_true] at h
    exact ⟨c, rfl, by rw [kindOf?, if_pos h.1]⟩

theorem isDigit_of_mem_repr {n : Nat} {c : Char} (hc : c ∈ n.repr.toList) : c.isDigit = true := by
  rw [Nat.toList_repr] at hc
  exact Nat.isDigit_of_mem_toDigits (by decide) (by decide) hc

theorem toList_toString_negSucc (n : Nat) :
    (toString (Int.negSucc n)).toList = '-' :: (n + 1).repr.toList := by
  change ("-" ++ (n + 1).repr).toList = _
  simp

theorem isDigit_or_minus_of_mem_toString (n : Int) :
    ∀ c ∈ (toString n).toList, (c.isDigit || c == '-') = true := by
  intro c hc
  cases n with
  | ofNat n => simp [isDigit_of_mem_repr (n := n) hc]
  | negSucc n =>
    rw [toList_toString_negSucc, List.mem_cons] at hc
    rcases hc with rfl | hc
    · rfl
    · simp [isDigit_of_mem_repr hc]

theorem opensWith_toString (n : Int) : OpensWith .int (toString n).toList := by
  have hall := isDigit_or_minus_of_mem_toString n
  have hne : (toString n).toList ≠ [] := by
    cases n with
    | ofNat n =>
      change n.repr.toList ≠ []
      rw [Nat.toList_repr]
      exact Nat.toDigits_ne_nil
    | negSucc n =>
      rw [toList_toString_negSucc]
      exact List.cons_ne_nil _ _
  obtain ⟨c, cs, hcs⟩ := List.exists_cons_of_ne_nil hne
  rw [hcs] at hall ⊢
  refine ⟨c, rfl, ?_⟩
  have hc := hall c List.mem_cons_self
  have hstart : isNameStart c = false := by
    rw [Bool.or_eq_true, beq_iff_eq] at hc
    rcases hc with hc | rfl
    · exact Formula.Token.isNameStart_of_isDigit hc
    · decide
  have hquote : c ≠ '"' := by
    rintro rfl
    exact absurd hc (by decide)
  rw [kindOf?, if_neg (by simp [hstart]), if_neg hquote, if_pos hc]

theorem eq_of_toList_repr_eq {m n : Nat} (h : m.repr.toList = n.repr.toList) : m = n := by
  rw [Nat.toList_repr, Nat.toList_repr] at h
  have hvalue := congrArg (Nat.ofDigitChars 10 · 0) h
  simpa [Nat.ofDigitChars_toDigits] using hvalue

theorem eq_of_toString_eq {m n : Int} (h : (toString m).toList = (toString n).toList) : m = n := by
  have hsign (m n : Nat) : m.repr.toList ≠ '-' :: n.repr.toList := by
    intro h
    have hminus : '-' ∈ m.repr.toList := h ▸ List.mem_cons_self
    exact absurd (isDigit_of_mem_repr hminus) (by decide)
  cases m with
  | ofNat m =>
    cases n with
    | ofNat n => exact congrArg Int.ofNat (eq_of_toList_repr_eq h)
    | negSucc n =>
      rw [toList_toString_negSucc] at h
      exact absurd h (hsign m (n + 1))
  | negSucc m =>
    cases n with
    | ofNat n =>
      rw [toList_toString_negSucc] at h
      exact absurd h.symm (hsign n (m + 1))
    | negSucc n =>
      rw [toList_toString_negSucc, toList_toString_negSucc] at h
      have hsucc : m + 1 = n + 1 := eq_of_toList_repr_eq (List.cons.inj h).2
      exact congrArg Int.negSucc (Nat.succ.inj hsucc)

end Openings

end TensorIR.Doc
