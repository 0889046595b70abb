import TensorIR.Proofs.Layout.Unsplit

/-!
The grammar of layout texts. A text is spelled by tokens, an upper-case letter or the digits of a
size and a lower-case letter, and it is read if and only if it has a spelling in which no letter
occurs twice and each lower-case letter has its upper-case form beside it. The reader carries the
size that it has read so far; the digits behind that size are what the token in front of it lacks.
-/

namespace TensorIR.Layout

/-- A part of a layout text: an upper-case letter, or a lower-case letter behind its size. -/
inductive Token where
  | primal (letter : Char)
  | inner (digits : List Char) (letter : Char)

namespace Token

def letter : Token → Char
  | .primal c => c
  | .inner _ c => c

def text : Token → List Char
  | .primal c => [c]
  | .inner digits c => digits ++ [c]

def size? : Token → Option Nat
  | .primal _ => none
  | .inner digits _ => some (Nat.ofDigitChars 10 digits 0)

def WellFormed : Token → Prop
  | .primal c => c.isUpper = true
  | .inner digits c =>
    digits ≠ [] ∧ (∀ d ∈ digits, d.isDigit = true) ∧ 0 < Nat.ofDigitChars 10 digits 0 ∧
      c.isLower = true

def axis : Token → Axis
  | .primal c => .primal c
  | .inner digits c => .inner c.toUpper (Int64.ofIntClamp (Nat.ofDigitChars 10 digits 0))

variable {t : Token} (h : t.WellFormed)
include h

theorem name_axis : t.axis.name = t.letter := by
  cases t with
  | primal c => rfl
  | inner digits c => exact Char.toLower_toUpper_of_isLower h.2.2.2

omit h in
theorem factor?_axis :
    t.axis.factor?.map Int64.toInt =
      t.size?.map fun n => min (n : Int) Int64.maxValue.toInt := by
  cases t with
  | primal c => rfl
  | inner digits c =>
    have hmax : Int64.maxValue.toInt = 2 ^ 63 - 1 := Int64.toInt_maxValue
    simp only [axis, size?, Axis.factor?, Option.map_some, Int64.toInt_ofIntClamp_eq, hmax]
    refine congrArg some ?_
    dsimp only
    omega

theorem isLower_letter : t.letter.isLower = !t.axis.isPrimal := by
  cases t with
  | primal c =>
    have hupper := Char.isUpper_iff_toNat.1 h
    change c.isLower = false
    rw [Bool.eq_false_iff, ne_eq, Char.isLower_iff_toNat]
    omega
  | inner digits c => exact h.2.2.2

theorem letter_axis (hlower : t.letter.isLower = true) : t.axis.letter = t.letter.toUpper := by
  cases t with
  | primal c =>
    rw [isLower_letter h] at hlower
    cases hlower
  | inner digits c => rfl

end Token

/--
The tokens make up the text. Letters are distinct, and those of sub-axes have their upper-case forms
among the tokens.
-/
structure Spells (tokens : List Token) (name : String) : Prop where
  ne_nil : tokens ≠ []
  text_eq : tokens.flatMap Token.text = name.toList
  wellFormed : ∀ t ∈ tokens, t.WellFormed
  nodup : (tokens.map Token.letter).Nodup
  hasPrimal : ∀ t ∈ tokens, t.letter.isLower = true →
    t.letter.toUpper ∈ tokens.map Token.letter

section Digits

theorem appendDigit_clamp {c : Char} (h : c.isDigit = true) (n : Nat) :
    appendDigit (Int64.ofIntClamp n) c =
      Int64.ofIntClamp (10 * n + (c.toNat - '0'.toNat) : Nat) := by
  have hdigit : (Int64.ofNat (c.toNat - '0'.toNat)).toInt = (c.toNat - '0'.toNat : Nat) := by
    apply Int64.toInt_ofNat_of_lt
    rw [Char.isDigit_iff_toNat] at h
    have hnine : '9'.toNat = 57 := rfl
    omega
  rw [← Int64.toInt_inj, appendDigit, Int64.satAdd, Int64.satMul, hdigit]
  have hten : (10 : Int64).toInt = 10 := rfl
  simp only [Int64.toInt_ofIntClamp_eq, hten]
  omega

variable {layout : String} {axes : List Axis} {digits cs : List Char}

theorem readAxes_digit {c : Char} (h : c.isDigit = true) (size : Option Int64) :
    readAxes layout axes size (c :: cs) =
      readAxes layout axes (some (appendDigit (size.getD 0) c)) cs := by
  conv => lhs; unfold readAxes
  rw [if_pos h]

theorem readAxes_digits (h : ∀ d ∈ digits, d.isDigit = true) (n : Nat) :
    readAxes layout axes (some (Int64.ofIntClamp n)) (digits ++ cs) =
      readAxes layout axes (some (Int64.ofIntClamp (Nat.ofDigitChars 10 digits n))) cs := by
  induction digits generalizing n with
  | nil => rfl
  | cons d digits ih =>
    rw [List.forall_mem_cons] at h
    rw [List.cons_append, readAxes_digit h.1, Option.getD_some, appendDigit_clamp h.1, ih h.2,
      Nat.ofDigitChars_cons]

/-- The size behind these digits; without digits there is none. -/
def pending : List Char → Option Int64
  | [] => none
  | d :: digits => some (Int64.ofIntClamp (Nat.ofDigitChars 10 (d :: digits) 0))

theorem appendDigit_pending {c : Char} (h : c.isDigit = true) (digits : List Char) :
    some (appendDigit ((pending digits).getD 0) c) = pending (digits ++ [c]) := by
  have hzero : (0 : Int64) = Int64.ofIntClamp (0 : Nat) := rfl
  cases digits with
  | nil =>
    change some (appendDigit 0 c) = some (Int64.ofIntClamp (Nat.ofDigitChars 10 [c] 0))
    rw [hzero, appendDigit_clamp h]
    rfl
  | cons d digits =>
    change some (appendDigit (Int64.ofIntClamp _) c) =
      some (Int64.ofIntClamp (Nat.ofDigitChars 10 ((d :: digits) ++ [c]) 0))
    rw [appendDigit_clamp h, Nat.ofDigitChars_append]
    rfl

theorem pending_eq_none_iff : pending digits = none ↔ digits = [] := by
  cases digits with
  | nil => simp [pending]
  | cons d digits => simp [pending]

theorem eq_of_pending_eq_some {f : Int64} (h : pending digits = some f) :
    digits ≠ [] ∧ f = Int64.ofIntClamp (Nat.ofDigitChars 10 digits 0) := by
  cases digits with
  | nil => cases h
  | cons d digits => exact ⟨List.cons_ne_nil d digits, (Option.some.inj h).symm⟩

theorem clamp_pos_iff (n : Nat) : 0 < Int64.ofIntClamp n ↔ 0 < n := by
  rw [Int64.lt_iff_toInt_lt, Int64.toInt_zero, Int64.toInt_ofIntClamp_eq]
  omega

end Digits

section Reading

variable {layout : String} {axes axes' : List Axis} {cs : List Char}

theorem not_isUpper_of_isLower {c : Char} (h : c.isLower = true) : c.isUpper = false := by
  rw [Char.isLower_iff_toNat] at h
  rw [Bool.eq_false_iff, ne_eq, Char.isUpper_iff_toNat]
  omega

theorem isAlpha_of_isLower {c : Char} (h : c.isLower = true) : c.isAlpha = true := by
  change (c.isUpper || c.isLower) = true
  rw [h, Bool.or_true]

theorem isDigit_of_isLower {c : Char} (h : c.isLower = true) : c.isDigit = false := by
  rw [Char.isLower_iff_toNat] at h
  have hnine : '9'.toNat = 57 := rfl
  rw [Bool.eq_false_iff, ne_eq, Char.isDigit_iff_toNat]
  omega

theorem readAxes_token {t : Token} (h : t.WellFormed)
    (hnew : axes.any (·.name == t.letter) = false) :
    readAxes layout axes none (t.text ++ cs) = readAxes layout (axes ++ [t.axis]) none cs := by
  cases t with
  | primal c =>
    have hupper : c.isUpper = true := h
    have hname : axes.any (·.name == c) = false := hnew
    change readAxes layout axes none (c :: cs) = readAxes layout (axes ++ [.primal c]) none cs
    conv => lhs; unfold readAxes
    rw [isDigit_of_isUpper hupper, isAlpha_of_isUpper hupper, hname, hupper]
    rfl
  | inner digits c =>
    obtain ⟨hne, hdigits, hpos, hlower⟩ := h
    have hname : axes.any (·.name == c) = false := hnew
    have hsize : readAxes layout axes none (digits ++ c :: cs) =
        readAxes layout axes (pending digits) (c :: cs) := by
      cases digits with
      | nil => exact absurd rfl hne
      | cons d digits =>
        rw [List.forall_mem_cons] at hdigits
        have hfirst := appendDigit_pending hdigits.1 []
        rw [List.cons_append, readAxes_digit hdigits.1]
        change readAxes layout axes (some (appendDigit ((pending []).getD 0) d)) _ = _
        rw [hfirst]
        exact readAxes_digits hdigits.2 _
    have hf : pending digits = some (Int64.ofIntClamp (Nat.ofDigitChars 10 digits 0)) := by
      cases digits with
      | nil => exact absurd rfl hne
      | cons d digits => rfl
    rw [Token.text, List.append_assoc, List.singleton_append, hsize, hf]
    conv => lhs; unfold readAxes
    rw [isDigit_of_isLower hlower, isAlpha_of_isLower hlower, hname,
      not_isUpper_of_isLower hlower]
    exact if_pos ((clamp_pos_iff _).2 hpos)

/-- Tokens with new letters are read one by one. -/
theorem readAxes_tokens {tokens : List Token} (h : ∀ t ∈ tokens, t.WellFormed)
    (hnodup : (tokens.map Token.letter).Nodup)
    (hnew : ∀ t ∈ tokens, axes.any (·.name == t.letter) = false) :
    readAxes layout axes none (tokens.flatMap Token.text) =
      .ok (axes ++ tokens.map Token.axis) := by
  induction tokens generalizing axes with
  | nil =>
    rw [List.map_nil, List.append_nil]
    rfl
  | cons t tokens ih =>
    rw [List.forall_mem_cons] at h hnew
    rw [List.map_cons, List.nodup_cons] at hnodup
    rw [List.flatMap_cons, readAxes_token h.1 hnew.1, ih h.2 hnodup.2, List.map_cons,
      List.append_assoc, List.singleton_append]
    intro u hu
    have hne : t.letter ≠ u.letter := by
      intro hletter
      exact hnodup.1 (hletter ▸ List.mem_map_of_mem hu)
    rw [List.any_append, hnew.2 u hu, Bool.false_or]
    simpa [Token.name_axis h.1] using hne

/-- What is read behind these digits is spelled by tokens, the first of which takes the digits. -/
theorem exists_tokens_of_readAxes {digits : List Char} (hdigits : ∀ d ∈ digits, d.isDigit = true)
    (h : readAxes layout axes (pending digits) cs = .ok axes') :
    ∃ tokens : List Token, (∀ t ∈ tokens, t.WellFormed) ∧
      tokens.flatMap Token.text = digits ++ cs ∧ axes' = axes ++ tokens.map Token.axis := by
  have hnil : ∀ d ∈ ([] : List Char), d.isDigit = true := by simp
  induction cs generalizing axes digits with
  | nil =>
    unfold readAxes at h
    split at h
    · cases h
    · next hnone =>
      rw [pending_eq_none_iff] at hnone
      cases h
      refine ⟨[], by simp, ?_, by simp⟩
      rw [hnone]
      rfl
  | cons c cs ih =>
    unfold readAxes at h
    split at h
    · next hdigit =>
      rw [appendDigit_pending hdigit] at h
      have hall : ∀ d ∈ digits ++ [c], d.isDigit = true := by
        intro d hd
        rcases List.mem_append.1 hd with hd | hd
        · exact hdigits d hd
        · rwa [List.mem_singleton.1 hd]
      obtain ⟨tokens, hwell, htext, haxes⟩ := ih hall h
      refine ⟨tokens, hwell, ?_, haxes⟩
      rw [htext, List.append_assoc, List.singleton_append]
    · split at h
      · cases h
      · next halpha =>
        rw [Bool.not_eq_true, Bool.not_eq_false'] at halpha
        split at h
        · cases h
        · split at h
          · next hupper =>
            split at h
            · cases h
            · next hnone =>
              rw [pending_eq_none_iff] at hnone
              obtain ⟨tokens, hwell, htext, haxes⟩ := ih hnil h
              refine ⟨.primal c :: tokens, List.forall_mem_cons.2 ⟨hupper, hwell⟩, ?_, ?_⟩
              · rw [hnone, List.flatMap_cons, htext]
                rfl
              · rw [haxes, List.append_assoc]
                rfl
          · next hupper =>
            rw [Bool.not_eq_true] at hupper
            have hlower := Char.isLower_of_isAlpha halpha hupper
            split at h
            · next f hsize =>
              split at h
              · next hpos =>
                obtain ⟨hne, rfl⟩ := eq_of_pending_eq_some hsize
                rw [clamp_pos_iff] at hpos
                obtain ⟨tokens, hwell, htext, haxes⟩ := ih hnil h
                refine ⟨.inner digits c :: tokens,
                  List.forall_mem_cons.2 ⟨⟨hne, hdigits, hpos, hlower⟩, hwell⟩, ?_, ?_⟩
                · rw [List.flatMap_cons, htext, Token.text, List.append_assoc]
                  rfl
                · rw [haxes, List.append_assoc]
                  rfl
              · cases h
            · cases h

end Reading

section Parse

variable {name : String} {layout : Layout} {tokens : List Token}

theorem orphan?_eq_none_iff (axes : List Axis) :
    orphan? axes = none ↔ ∀ a ∈ axes, a.isPrimal = false → a.letter ∈ axes.map Axis.name := by
  simp [orphan?, List.find?_eq_none]

theorem map_name_axis (h : ∀ t ∈ tokens, t.WellFormed) :
    (tokens.map Token.axis).map Axis.name = tokens.map Token.letter := by
  rw [List.map_map]
  exact List.map_congr_left fun t ht => Token.name_axis (h t ht)

theorem orphan?_tokens_eq_none_iff (h : ∀ t ∈ tokens, t.WellFormed) :
    orphan? (tokens.map Token.axis) = none ↔
      ∀ t ∈ tokens, t.letter.isLower = true → t.letter.toUpper ∈ tokens.map Token.letter := by
  rw [orphan?_eq_none_iff, map_name_axis h, List.forall_mem_map]
  constructor
  · intro horphan t ht hlower
    rw [← Token.letter_axis (h t ht) hlower]
    apply horphan t ht
    rwa [Token.isLower_letter (h t ht), Bool.not_eq_true'] at hlower
  · intro hprimal t ht haxis
    have hlower : t.letter.isLower = true := by
      rw [Token.isLower_letter (h t ht), haxis]
      rfl
    rw [Token.letter_axis (h t ht) hlower]
    exact hprimal t ht hlower

theorem Spells.parse_eq (h : Spells tokens name) :
    parse name = .ok ⟨name, tokens.map Token.axis⟩ := by
  have hne : name ≠ "" := by
    rintro rfl
    have htext := h.text_eq
    cases htokens : tokens with
    | nil => exact h.ne_nil htokens
    | cons t ts =>
      rw [htokens] at htext
      cases t <;> simp [Token.text] at htext
  have hread : readAxes name [] none name.toList = .ok ([] ++ tokens.map Token.axis) := by
    rw [← h.text_eq]
    exact readAxes_tokens h.wellFormed h.nodup (by simp)
  unfold parse
  rw [String.isEmpty_eq_false_iff.2 hne, if_neg Bool.false_ne_true]
  dsimp only
  rw [Except.bind_eq_ok_iff]
  refine ⟨_, hread, ?_⟩
  rw [List.nil_append, (orphan?_tokens_eq_none_iff h.wellFormed).2 h.hasPrimal]
  rfl

theorem exists_spells_of_parse (h : parse name = .ok layout) : ∃ tokens, Spells tokens name := by
  have hnodup := (allWellFormed_of_parse h).nodup
  unfold parse at h
  split at h
  · cases h
  · next hempty =>
    dsimp only at h
    rw [Except.bind_eq_ok_iff] at h
    obtain ⟨axes, hread, h⟩ := h
    have hnil : ∀ d ∈ ([] : List Char), d.isDigit = true := by simp
    obtain ⟨tokens, hwell, htext, rfl⟩ := exists_tokens_of_readAxes hnil hread
    rw [List.nil_append] at h htext
    split at h
    · cases h
    · next horphan =>
      cases h
      refine ⟨tokens, ?_, htext, hwell, ?_, (orphan?_tokens_eq_none_iff hwell).1 horphan⟩
      · rintro rfl
        apply hempty
        rw [String.isEmpty_iff, ← String.toList_eq_nil_iff]
        exact htext.symm
      · rwa [← map_name_axis hwell]

theorem indexOf?_inj {c d : Char} (hc : c ∈ layout.axes.map Axis.name)
    (h : layout.indexOf? c = layout.indexOf? d) : c = d := by
  rw [List.mem_map] at hc
  obtain ⟨a, ha, rfl⟩ := hc
  cases hindex : layout.indexOf? a.name with
  | none =>
    rw [indexOf?, List.findIdx?_eq_none_iff] at hindex
    have := hindex a ha
    simp at this
  | some i =>
    rw [hindex] at h
    rw [indexOf?, List.findIdx?_eq_some_iff_getElem] at hindex
    obtain ⟨hi, hname, _⟩ := hindex
    have hother := h.symm
    rw [indexOf?, List.findIdx?_eq_some_iff_getElem] at hother
    obtain ⟨_, hname', _⟩ := hother
    rw [beq_iff_eq] at hname hname'
    rw [← hname, hname']

end Parse

/--
A layout text is read if and only if tokens spell it. The axes are then those of the tokens, in
order, with sizes that stop at the largest literal, and each name has a place of its own.
-/
theorem parse_iff_spells (name : String) :
    ((∃ layout, parse name = .ok layout) ↔ ∃ tokens, Spells tokens name) ∧
    ∀ layout tokens, parse name = .ok layout → Spells tokens name →
      layout.name = name ∧
      layout.axes.map Axis.name = tokens.map Token.letter ∧
      layout.axes.map (fun a => a.factor?.map Int64.toInt) =
        tokens.map (fun t => t.size?.map fun n => min (n : Int) Int64.maxValue.toInt) ∧
      layout.ndim = tokens.length ∧
      ∀ c ∈ layout.axes.map Axis.name, ∀ d ∈ layout.axes.map Axis.name,
        layout.indexOf? c = layout.indexOf? d → c = d := by
  constructor
  · constructor
    · intro ⟨layout, h⟩
      exact exists_spells_of_parse h
    · intro ⟨tokens, h⟩
      exact ⟨_, h.parse_eq⟩
  · intro layout tokens h hspells
    rw [hspells.parse_eq, Except.ok.injEq] at h
    obtain rfl := h
    refine ⟨rfl, map_name_axis hspells.wellFormed, ?_, List.length_map _, ?_⟩
    · rw [List.map_map]
      exact List.map_congr_left fun t _ => t.factor?_axis
    · intro c hc d _ hindex
      exact indexOf?_inj hc hindex

theorem parse_iff_spells_saturated :
    let name := "9223372036854775808cNC016n"
    let tokens := [.inner "9223372036854775808".toList 'c', .primal 'N', .primal 'C',
      .inner "016".toList 'n']
    Spells tokens name ∧ ∃ layout, parse name = .ok layout ∧
      layout.axes.map (fun a => a.factor?.map Int64.toInt) =
        [some Int64.maxValue.toInt, none, none, some 16] ∧ layout.ndim = 4 := by
  intro name tokens
  have hspells : Spells tokens name := by
    refine ⟨by decide, by decide, ?_, by decide, by decide⟩
    simp [tokens, Token.WellFormed, Nat.ofDigitChars]
  obtain ⟨layout, h⟩ := (parse_iff_spells name).1.2 ⟨tokens, hspells⟩
  obtain ⟨_, _, hfactors, hndim, _⟩ := (parse_iff_spells name).2 layout tokens h hspells
  refine ⟨hspells, layout, h, ?_, hndim⟩
  rw [hfactors]
  decide

end TensorIR.Layout
