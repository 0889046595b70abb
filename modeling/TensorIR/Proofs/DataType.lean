import Mathlib.Data.List.Basic
import TensorIR.DataType
import TensorIR.Proofs.Doc.Cutting
import TensorIR.Proofs.Text.Unsigned

/-!
Names of element types, and the texts that are read as one. Different types have different names.
Main statement: what is read as a type is its name, but for the empty text and for widths with a
plus sign or zeros in front of them.
-/

namespace TensorIR.DataType

section Names

open Formula.Token (isNameStart)

/-- The name of a type in front of its width, and the digits of the width. -/
def parts : DataType → List Char × List Char
  | .void => ("void".toList, [])
  | .bool => ("bool".toList, [])
  | .number kind bits => (kind.name.toList, bits.toNat.repr.toList)

theorem toList_text (t : DataType) : t.text.toList = t.parts.1 ++ t.parts.2 := by
  cases t with
  | number kind bits => exact String.toList_append
  | _ => rfl

theorem isNameStart_of_mem_parts (t : DataType) : ∀ c ∈ t.parts.1, isNameStart c = true := by
  have hkind (kind : NumberKind) : kind.name.toList.all isNameStart = true := by
    cases kind <;> decide
  apply List.all_eq_true.1
  cases t with
  | number kind bits => exact hkind kind
  | _ => decide

theorem isNameStart_of_mem_head? (t : DataType) :
    ∀ c ∈ t.parts.2.head?, isNameStart c = false := by
  cases t with
  | number kind bits =>
    intro c hc
    exact Formula.Token.isNameStart_of_isDigit
      (Doc.isDigit_of_mem_repr (List.mem_of_mem_head? hc))
  | _ => exact fun c hc => nomatch hc

theorem parts_inj {t u : DataType} (h : t.parts = u.parts) : t = u := by
  have hkind : ∀ kind kind' : NumberKind, kind.name.toList = kind'.name.toList → kind = kind' := by
    rintro ⟨⟩ ⟨⟩ <;> decide
  have hvoid (kind : NumberKind) :
      kind.name.toList ≠ "void".toList ∧ kind.name.toList ≠ "bool".toList := by
    cases kind <;> decide
  cases t with
  | number kind bits =>
    cases u with
    | number kind' bits' =>
      rw [parts, parts, Prod.mk.injEq] at h
      rw [hkind kind kind' h.1, UInt8.toNat_inj.1 (Doc.eq_of_toList_repr_eq h.2)]
    | void => exact absurd (Prod.mk.inj h).1 (hvoid kind).1
    | bool => exact absurd (Prod.mk.inj h).1 (hvoid kind).2
  | void =>
    cases u with
    | number kind bits => exact absurd (Prod.mk.inj h).1.symm (hvoid kind).1
    | void => rfl
    | bool => exact absurd (Prod.mk.inj h).1 (by decide)
  | bool =>
    cases u with
    | number kind bits => exact absurd (Prod.mk.inj h).1.symm (hvoid kind).2
    | void => exact absurd (Prod.mk.inj h).1 (by decide)
    | bool => rfl

theorem text_eq_iff {t u : DataType} : t.text = u.text ↔ t = u := by
  constructor
  · intro h
    have hlist := congrArg String.toList h
    rw [toList_text, toList_text] at hlist
    obtain ⟨hletters, hdigits⟩ := Doc.append_inj_of_all t.isNameStart_of_mem_parts
      u.isNameStart_of_mem_parts t.isNameStart_of_mem_head? u.isNameStart_of_mem_head? hlist
    exact parts_inj (Prod.ext hletters hdigits)
  · exact congrArg text

end Names

section Reading

open Text (IsPadding)

/-- The types that have a name which is read. -/
def IsStandard : DataType → Prop
  | .number _ bits => bits.toNat ∈ widths
  | _ => True

/-- The texts that a type is read from. -/
inductive Spells : DataType → List Char → Prop where
  | empty : Spells .void []
  | void : Spells .void "void".toList
  | bool : Spells .bool "bool".toList
  | number (kind : NumberKind) {bits : UInt8} (hbits : bits.toNat ∈ widths) {padding : List Char}
    (hpadding : IsPadding padding) :
    Spells (.number kind bits) (kind.name.toList ++ (padding ++ bits.toNat.repr.toList))

/-- Behind the name of a kind of numbers the text goes on with a plus sign or a zero. -/
def HasPadding (cs : List Char) : Prop :=
  ∃ (kind : NumberKind) (c : Char) (rest : List Char),
    cs = kind.name.toList ++ c :: rest ∧ (c = '+' ∨ c = '0')

variable {s : String} {d : DataType} {kind kind' : NumberKind} {cs cs' rest : List Char}

theorem readKind?_append (kind : NumberKind) (rest : List Char) :
    readKind? (kind.name.toList ++ rest) = some (kind, rest) := by
  cases kind <;> rfl

theorem readKind?_eq_some_iff : readKind? cs = some (kind, rest) ↔ cs = kind.name.toList ++ rest := by
  constructor
  · intro h
    obtain ⟨kind', _, h⟩ := List.exists_of_findSome?_eq_some h
    obtain ⟨rest', hrest, h⟩ := Option.map_eq_some_iff.1 h
    cases h
    exact (List.isPrefixOf?_eq_some_iff_append_eq.1 hrest).symm
  · rintro rfl
    exact readKind?_append kind rest

theorem name_append_inj (h : kind.name.toList ++ cs = kind'.name.toList ++ cs') :
    kind = kind' ∧ cs = cs' := by
  have hread := readKind?_append kind cs
  rw [h, readKind?_append, Option.some.injEq, Prod.mk.injEq] at hread
  exact ⟨hread.1.symm, hread.2.symm⟩

theorem toNat_ofNat_of_mem_widths {bits : Nat} (h : bits ∈ widths) :
    (UInt8.ofNat bits).toNat = bits := by
  have hall : ∀ bits ∈ widths, (UInt8.ofNat bits).toNat = bits := by decide
  exact hall bits h

theorem readNumber?_eq_some_iff :
    readNumber? cs = some d ↔ d ≠ .void ∧ d ≠ .bool ∧ d.Spells cs := by
  unfold readNumber?
  simp only [Option.bind_eq_bind, Option.bind_eq_some_iff]
  constructor
  · rintro ⟨⟨kind, rest⟩, hkind, bits, hbits, h⟩
    split at h
    case isTrue hwidth =>
      cases h
      rw [List.contains_iff_mem] at hwidth
      obtain ⟨padding, hpadding, rfl⟩ := Text.readUnsigned?_eq_some_iff.1 hbits
      rw [readKind?_eq_some_iff] at hkind
      have hbyte := toNat_ofNat_of_mem_widths hwidth
      have hspells := Spells.number kind (hbyte.symm ▸ hwidth) hpadding
      rw [hbyte, Nat.toList_repr, ← hkind] at hspells
      exact ⟨nofun, nofun, hspells⟩
    case isFalse => cases h
  · rintro ⟨hvoid, hbool, h⟩
    cases h with
    | empty => exact absurd rfl hvoid
    | void => exact absurd rfl hvoid
    | bool => exact absurd rfl hbool
    | @number kind bits hwidth padding hpadding =>
      refine ⟨_, readKind?_append kind _, bits.toNat, ?_, ?_⟩
      · rw [Nat.toList_repr]
        exact Text.readUnsigned?_eq_some_iff.2 ⟨padding, hpadding, rfl⟩
      · rw [if_pos (List.contains_iff_mem.2 hwidth), UInt8.ofNat_toNat]

theorem parse_eq_ok_iff_spells : parse s = .ok d ↔ d.Spells s.toList := by
  unfold parse
  constructor
  · intro h
    split at h
    case isTrue hvoid =>
      cases h
      rcases hvoid with rfl | rfl
      · exact .empty
      · exact .void
    case isFalse =>
      split at h
      case isTrue hbool =>
        cases h
        subst hbool
        exact .bool
      case isFalse =>
        split at h
        case h_1 t hread =>
          cases h
          exact (readNumber?_eq_some_iff.1 hread).2.2
        case h_2 => cases h
  · intro h
    have hnumber (hvoid : d ≠ .void) (hbool : d ≠ .bool) : readNumber? s.toList = some d :=
      readNumber?_eq_some_iff.2 ⟨hvoid, hbool, h⟩
    generalize hs : s.toList = cs at h hnumber
    cases h with
    | empty => rw [if_pos (.inl (String.toList_inj.1 hs))]
    | void => rw [if_pos (.inr (String.toList_inj.1 hs))]
    | bool =>
      rw [String.toList_inj.1 hs]
      rfl
    | number kind hwidth hpadding =>
      have hread := hnumber nofun nofun
      rw [if_neg, if_neg, hread]
      · rintro rfl
        rw [← hs] at hread
        cases hread
      · rw [← hs] at hread
        rintro (rfl | rfl)
        · cases hread
        · cases hread

theorem not_hasPadding_of_readKind? (h : readKind? cs = none) : ¬ HasPadding cs := by
  rintro ⟨kind, c, rest, rfl, _⟩
  rw [readKind?_append] at h
  cases h

theorem not_hasPadding_of_mem_widths {bits : Nat} (h : bits ∈ widths) :
    ¬ HasPadding (kind.name.toList ++ bits.repr.toList) := by
  rintro ⟨kind', c, rest, heq, hc⟩
  have hdigits := (name_append_inj heq).2
  rw [Nat.toList_repr] at hdigits
  rcases hc with rfl | rfl
  · have hplus : '+' ∈ Nat.toDigits 10 bits := hdigits ▸ List.mem_cons_self
    exact absurd (Nat.isDigit_of_mem_toDigits (by decide) (by decide) hplus) (by decide)
  · have hzero := Formula.Token.toDigits_of_head?_eq_zero (congrArg List.head? hdigits)
    have hbits := congrArg (Nat.ofDigitChars 10 · 0) hzero
    rw [Nat.ofDigitChars_ten_toDigits] at hbits
    subst hbits
    exact absurd h (by decide)

/-- What is written for a type is the text that it was read from, unless that has padding. -/
theorem Spells.text_eq_iff (h : d.Spells s.toList) (hne : s ≠ "") :
    d.text = s ↔ ¬ HasPadding s.toList := by
  rw [← String.toList_inj, toList_text]
  generalize hs : s.toList = cs at h
  cases h with
  | empty => exact absurd (String.toList_inj.1 hs) hne
  | void => exact iff_of_true rfl (not_hasPadding_of_readKind? rfl)
  | bool => exact iff_of_true rfl (not_hasPadding_of_readKind? rfl)
  | @number kind bits hwidth padding hpadding =>
    rw [parts, List.append_right_inj, List.self_eq_append_left]
    cases padding with
    | nil => exact iff_of_true rfl (not_hasPadding_of_mem_widths hwidth)
    | cons c cs =>
      refine iff_of_false (List.cons_ne_nil c cs) (not_not_intro ?_)
      exact ⟨kind, c, _, rfl, hpadding.eq_of_cons⟩

theorem spells_text (h : d.IsStandard) : d.Spells d.text.toList := by
  rw [toList_text]
  cases d with
  | void => exact .void
  | bool => exact .bool
  | number kind bits => exact .number kind h Text.isPadding_nil

theorem text_ne_empty (d : DataType) : d.text ≠ "" := by
  have hkind (kind : NumberKind) : kind.name.toList ≠ [] := by
    cases kind <;> decide
  intro h
  have hlist := congrArg String.toList h
  rw [toList_text] at hlist
  have hname := (List.append_eq_nil_iff.1 hlist).1
  cases d with
  | number kind bits => exact hkind kind hname
  | void => cases hname
  | bool => cases hname

theorem Spells.isStandard (h : d.Spells cs) : d.IsStandard := by
  cases h with
  | number kind hwidth => exact hwidth
  | _ => trivial

/--
The texts that are read as a type are those that spell it. Of the texts that are not empty and have
no padding it is only the name of the type, which every type of a standard width has.
-/
theorem parse_eq_ok_iff_text_eq (s : String) (d : DataType) :
    (parse s = .ok d ↔ d.Spells s.toList) ∧
      (parse s = .ok d ∧ s ≠ "" ∧ ¬ HasPadding s.toList ↔ d.IsStandard ∧ d.text = s) := by
  refine ⟨parse_eq_ok_iff_spells, ?_⟩
  rw [parse_eq_ok_iff_spells]
  constructor
  · rintro ⟨h, hne, hpadding⟩
    exact ⟨h.isStandard, (h.text_eq_iff hne).2 hpadding⟩
  · rintro ⟨h, rfl⟩
    exact ⟨spells_text h, d.text_ne_empty, ((spells_text h).text_eq_iff d.text_ne_empty).1 rfl⟩

/-- A zero in front of the width is read over, and not written. -/
theorem text_ne_of_parse_padded :
    parse "float016" = .ok (.number .float 16) ∧ "float016" ≠ "" ∧
      (number .float 16).text ≠ "float016" := by
  decide

end Reading

end TensorIR.DataType
