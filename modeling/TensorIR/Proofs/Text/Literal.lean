import TensorIR.Doc
import TensorIR.Proofs.Text.Quoted

/-!
What is written for a string is one literal: every character of it shows, its last quote is the one
that closes it, and it reads as the string. A literal does not start with another one.
-/

namespace TensorIR.Text.Quoted

section Literals

/-- How many backslashes a text ends in. -/
def backslashes (cs : List Char) : Nat :=
  (cs.reverse.takeWhile (· == '\\')).length

/-- Backslashes escape each other in pairs, so an odd number of them escapes what comes next. -/
def Escapes (cs : List Char) : Prop :=
  backslashes cs % 2 = 1

/-- A content in quotes, in which all quotes are escaped but the one that closes it. -/
def IsLiteral (text : List Char) : Prop :=
  ∃ content, text = '"' :: (content ++ ['"']) ∧
    ∀ before after, content ++ ['"'] = before ++ '"' :: after → (Escapes before ↔ after ≠ [])

theorem IsLiteral.eq_of_isPrefix {text text' : List Char} (h : IsLiteral text)
    (h' : IsLiteral text') (hstart : text <+: text') : text = text' := by
  obtain ⟨content, rfl, hquotes⟩ := h
  obtain ⟨content', rfl, hquotes'⟩ := h'
  obtain ⟨rest, hrest⟩ := hstart
  have hsame : content' ++ ['"'] = content ++ '"' :: rest := by
    simpa using hrest.symm
  -- The quote that closes the shorter literal is not escaped, so it closes the longer one, too.
  have hcloses : ¬ Escapes content := fun hescapes => (hquotes content [] rfl).1 hescapes rfl
  have hempty : rest = [] :=
    Decidable.byContradiction fun hne => hcloses ((hquotes' content rest hsame).2 hne)
  rw [← hrest, hempty, List.append_nil]

variable {before : List Char}

theorem escapes_concat (h : ¬ Escapes before) : Escapes (before ++ ['\\']) := by
  have hsucc : backslashes (before ++ ['\\']) = backslashes before + 1 := by
    simp [backslashes]
  unfold Escapes at *
  omega

theorem not_escapes_pair (h : ¬ Escapes before) : ¬ Escapes (before ++ ['\\', '\\']) := by
  have hpair : backslashes (before ++ ['\\', '\\']) = backslashes before + 2 := by
    simp [backslashes]
  unfold Escapes at *
  omega

theorem not_escapes_concat {c : Char} (hc : c ≠ '\\') : ¬ Escapes (before ++ [c]) := by
  simp [Escapes, backslashes, hc]

/-- A literal does not contain another one behind a character that is no backslash. -/
theorem IsLiteral.ne_append_cons {text text' : List Char} {c : Char} (h : IsLiteral text)
    (h' : IsLiteral text') (hquote : c ≠ '"') (hbackslash : c ≠ '\\') :
    text ≠ before ++ c :: text' := by
  obtain ⟨content, rfl, hquotes⟩ := h
  obtain ⟨content', rfl, _⟩ := h'
  intro heq
  cases before with
  | nil => exact hquote (List.cons.inj heq).1.symm
  | cons d before =>
    have hopens : content ++ ['"'] = (before ++ [c]) ++ '"' :: (content' ++ ['"']) := by
      simpa using (List.cons.inj heq).2
    exact not_escapes_concat hbackslash ((hquotes _ _ hopens).2 (by simp))

end Literals

section Escaping

/-- A character that stands for itself in a literal. -/
def IsPlain (c : Char) : Prop :=
  isControl c = false ∧ isFormat c = false ∧ c ≠ '"' ∧ c ≠ '\\'

instance : DecidablePred IsPlain :=
  fun _ => inferInstanceAs (Decidable (_ ∧ _ ∧ _ ∧ _))

theorem isPlain_digitChar {d : Nat} (h : d < 16) : IsPlain d.digitChar := by
  have hall : ∀ d < 16, IsPlain (Nat.digitChar d) := by decide
  exact hall d h

theorem isPlain_of_mem_hexDigits {width n : Nat} {c : Char} (h : c ∈ hexDigits width n) :
    IsPlain c := by
  induction width generalizing n with
  | zero => cases h
  | succ width ih =>
    rcases List.mem_append.1 h with h | h
    · exact ih h
    · rw [List.mem_singleton.1 h]
      exact isPlain_digitChar (Nat.mod_lt n (by decide))

/-- How a character is written: as itself, or behind a backslash. -/
inductive Written : List Char → Prop where
  | plain {c : Char} (hc : IsPlain c) : Written [c]
  | backslash : Written ['\\', '\\']
  | quote : Written ['\\', '"']
  | code {letters : List Char} {last : Char} (hletters : ∀ c ∈ letters, IsPlain c)
    (hlast : IsPlain last) : Written ('\\' :: letters ++ [last])

theorem written_escapeCode (n : Nat) : Written (escapeCode n) := by
  have hcode {letter : Char} (hletter : IsPlain letter) (width : Nat) :
      Written ('\\' :: letter :: hexDigits (width + 1) n) :=
    @Written.code (letter :: hexDigits width (n / 16)) _
      (List.forall_mem_cons.2 ⟨hletter, fun _ => isPlain_of_mem_hexDigits⟩)
      (isPlain_digitChar (Nat.mod_lt n (by decide)))
  unfold escapeCode
  split
  · exact hcode (by decide) 1
  · split
    · exact hcode (by decide) 3
    · exact hcode (by decide) 7

theorem written_escape (c : Char) : Written (escape c) := by
  have hletter {letter : Char} (h : IsPlain letter) : Written ['\\', letter] :=
    @Written.code [] letter (by simp) h
  unfold escape
  split
  · exact .backslash
  split
  · exact .quote
  split
  · exact hletter (by decide)
  split
  · exact hletter (by decide)
  split
  · exact hletter (by decide)
  split
  · exact written_escapeCode c.toNat
  · next hbackslash hquote _ _ _ hshows =>
    rw [Bool.not_eq_true, Bool.or_eq_false_iff] at hshows
    exact .plain ⟨hshows.1, hshows.2, hquote, hbackslash⟩

variable {cs before left right : List Char}

theorem Written.shows (h : Written cs) : ∀ c ∈ cs, isControl c = false ∧ isFormat c = false := by
  have hplain {c : Char} (hc : IsPlain c) : isControl c = false ∧ isFormat c = false :=
    ⟨hc.1, hc.2.1⟩
  have hbackslash : isControl '\\' = false ∧ isFormat '\\' = false := by decide
  cases h with
  | plain hc => exact List.forall_mem_singleton.2 (hplain hc)
  | backslash => exact List.forall_mem_cons.2 ⟨hbackslash, List.forall_mem_singleton.2 hbackslash⟩
  | quote => exact List.forall_mem_cons.2 ⟨hbackslash, List.forall_mem_singleton.2 (by decide)⟩
  | code hletters hlast =>
    rw [List.forall_mem_append, List.forall_mem_cons, List.forall_mem_singleton]
    exact ⟨⟨hbackslash, fun c hc => hplain (hletters c hc)⟩, hplain hlast⟩

theorem Written.not_escapes (h : Written cs) (hbefore : ¬ Escapes before) :
    ¬ Escapes (before ++ cs) := by
  cases h with
  | plain hc => exact not_escapes_concat hc.2.2.2
  | backslash => exact not_escapes_pair hbefore
  | quote =>
    rw [← List.concat_append]
    exact not_escapes_concat (by decide)
  | code hletters hlast =>
    rw [← List.append_assoc]
    exact not_escapes_concat hlast.2.2.2

theorem Written.eq_of_quote (h : Written cs) (hquote : cs = left ++ '"' :: right) :
    left = ['\\'] := by
  have hmem : '"' ∈ cs := by simp [hquote]
  cases h with
  | plain hc => exact absurd (List.mem_singleton.1 hmem).symm hc.2.2.1
  | backslash => exact absurd hmem (by decide)
  | quote =>
    cases left with
    | nil => simp at hquote
    | cons c left =>
      obtain ⟨rfl, hquote⟩ := List.cons.inj hquote
      cases left <;> simp_all
  | @code letters last hletters hlast =>
    have hne : ∀ c ∈ '\\' :: letters ++ [last], c ≠ '"' := by
      rw [List.forall_mem_append, List.forall_mem_cons, List.forall_mem_singleton]
      exact ⟨⟨by decide, fun c hc => (hletters c hc).2.2.1⟩, hlast.2.2.1⟩
    exact absurd rfl (hne '"' hmem)

end Escaping

section Bodies

variable {before left right : List Char}

theorem not_escapes_body (hbefore : ¬ Escapes before) (cs : List Char) :
    ¬ Escapes (before ++ body cs) := by
  induction cs generalizing before with
  | nil => rwa [body, List.flatMap_nil, List.append_nil]
  | cons c cs ih =>
    rw [body, List.flatMap_cons, ← List.append_assoc]
    exact ih ((written_escape c).not_escapes hbefore)

theorem escapes_of_body_eq (hbefore : ¬ Escapes before) {cs : List Char}
    (h : body cs = left ++ '"' :: right) : Escapes (before ++ left) := by
  induction cs generalizing before left with
  | nil => simp [body] at h
  | cons c cs ih =>
    have hnext := (written_escape c).not_escapes hbefore
    rw [body, List.flatMap_cons, List.append_eq_append_iff] at h
    rcases h with ⟨more, rfl, hmore⟩ | ⟨rest, hrest, hmore⟩
    · rw [← List.append_assoc]
      exact ih hnext hmore
    · cases rest with
      | nil =>
        rw [List.append_nil] at hrest
        rw [← hrest, ← List.append_nil (before ++ _)]
        exact ih hnext hmore.symm
      | cons d rest =>
        obtain ⟨rfl, _⟩ := List.cons.inj hmore
        rw [(written_escape c).eq_of_quote hrest]
        exact escapes_concat hbefore

theorem isLiteral_encode (s : String) : IsLiteral (encode s).toList := by
  have hnil : ¬ Escapes [] := by simp [Escapes, backslashes]
  refine ⟨body s.toList, by simp [encode], ?_⟩
  intro before after h
  rcases List.eq_nil_or_concat after with rfl | ⟨more, c, rfl⟩
  · rw [← (List.append_inj_left' h rfl)]
    exact iff_of_false (not_escapes_body hnil s.toList) fun hne => hne rfl
  · rw [List.concat_eq_append, ← List.cons_append, ← List.append_assoc] at h
    have hescapes := escapes_of_body_eq hnil (List.append_inj_left' h rfl)
    exact iff_of_true hescapes (by simp)

theorem shows_encode (s : String) :
    ∀ c ∈ (encode s).toList, isControl c = false ∧ isFormat c = false := by
  have hbody : ∀ c ∈ body s.toList, isControl c = false ∧ isFormat c = false := by
    intro c hc
    obtain ⟨d, _, hd⟩ := List.mem_flatMap.1 hc
    exact (written_escape d).shows c hd
  rw [encode, String.toList_ofList, List.forall_mem_append, List.forall_mem_cons,
    List.forall_mem_singleton]
  exact ⟨⟨by decide, hbody⟩, by decide⟩

end Bodies

section Reading

variable {text cs rest : List Char}

theorem found_append {c : Char} {read? read?' : Option (List Char × List Char)} {more : List Char}
    (hread : ∀ cs rest, read? = some (cs, rest) → read?' = some (cs, rest ++ more))
    (h : decodeBody?.found c read? = some (cs, rest)) :
    decodeBody?.found c read?' = some (cs, rest ++ more) := by
  obtain ⟨⟨cs', rest'⟩, hcs, heq⟩ := Option.map_eq_some_iff.1 h
  cases heq
  rw [hread cs' rest hcs]
  rfl

/-- What has been read as a literal is one, whatever stands behind it. -/
theorem decodeBody?_append (h : decodeBody? text = some (cs, rest)) (more : List Char) :
    decodeBody? (text ++ more) = some (cs, rest ++ more) := by
  have hcode {digits text cs rest : List Char}
      (hread : ∀ cs rest, decodeBody? text = some (cs, rest) →
        decodeBody? (text ++ more) = some (cs, rest ++ more))
      (h : (do decodeBody?.found (← charOfHex? digits) (decodeBody? text)) = some (cs, rest)) :
      (do decodeBody?.found (← charOfHex? digits) (decodeBody? (text ++ more))) =
        some (cs, rest ++ more) := by
    obtain ⟨c, hc, h⟩ := Option.bind_eq_some_iff.1 h
    exact Option.bind_eq_some_iff.2 ⟨c, hc, found_append hread h⟩
  fun_induction decodeBody? text generalizing cs rest with
  | case1 =>
    cases h
    rfl
  | case2 text ih => exact found_append (fun _ _ => ih) h
  | case3 text ih => exact found_append (fun _ _ => ih) h
  | case4 text ih => exact found_append (fun _ _ => ih) h
  | case5 text ih => exact found_append (fun _ _ => ih) h
  | case6 text ih => exact found_append (fun _ _ => ih) h
  | case7 a b text ih => exact hcode (fun _ _ => ih) h
  | case8 a b c d text ih => exact hcode (fun _ _ => ih) h
  | case9 a b c d e f g h' text ih => exact hcode (fun _ _ => ih) h
  | case10 => cases h
  | case11 c text hquote _ _ _ _ _ _ _ _ hend ih =>
    simp only [not_or] at hend
    rw [List.cons_append, decodeBody?_cons hquote hend.1 hend.2.1 hend.2.2]
    exact found_append (fun _ _ => ih) h
  | case12 => cases h

theorem decode?_append (h : decode? text = some (cs, rest)) (more : List Char) :
    decode? (text ++ more) = some (cs, rest ++ more) := by
  unfold decode? at h
  split at h
  · exact decodeBody?_append h more
  · cases h

theorem decode?_eq_none_of_isPrefix {s : String} (hstart : text <+: (encode s).toList)
    (hne : text ≠ (encode s).toList) : decode? text = none := by
  obtain ⟨more, hmore⟩ := hstart
  rw [Option.eq_none_iff_forall_ne_some]
  rintro ⟨cs, rest⟩ htext
  have hwhole := decode?_append htext more
  rw [hmore, ← List.append_nil (encode s).toList, decode?_encode] at hwhole
  have hnil := (List.append_eq_nil_iff.1 (Prod.mk.inj (Option.some.inj hwhole)).2.symm).2
  exact hne (by rw [← hmore, hnil, List.append_nil])

end Reading

/--
The text of a string is one literal in which every character shows, and reads as the string. Less
than this text is no literal, and is not read as one.
-/
theorem isLiteral_text_str (s : String) :
    let text := (Doc.str s).text.toList
    IsLiteral text ∧ (∀ c ∈ text, isControl c = false ∧ isFormat c = false) ∧
      decode? text = some (s.toList, []) ∧
      ∀ start, start <+: text → start ≠ text → ¬ IsLiteral start ∧ decode? start = none := by
  have htext : (Doc.str s).text = encode s := by rw [Doc.text]
  rw [htext]
  refine ⟨isLiteral_encode s, shows_encode s, ?_, ?_⟩
  · rw [← List.append_nil (encode s).toList]
    exact decode?_encode s []
  · intro start hstart hne
    constructor
    · intro hliteral
      exact hne (hliteral.eq_of_isPrefix (isLiteral_encode s) hstart)
    · exact decode?_eq_none_of_isPrefix hstart hne

end TensorIR.Text.Quoted
