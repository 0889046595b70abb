import Mathlib.Data.List.Induction
import TensorIR.Text.Unsigned

/-!
Unsigned numbers and their decimal digits. Main statement: what is read as a number is written with
its digits, and what may stand in front of these is padding.
-/

namespace TensorIR.Text

/-- What may stand in front of the digits of a number: a plus sign, and zeros behind it. -/
def IsPadding (cs : List Char) : Prop :=
  ∃ zeros, cs = List.replicate zeros '0' ∨ cs = '+' :: List.replicate zeros '0'

theorem isPadding_nil : IsPadding [] :=
  ⟨0, .inl rfl⟩

theorem IsPadding.eq_of_cons {c : Char} {cs : List Char} (h : IsPadding (c :: cs)) :
    c = '+' ∨ c = '0' := by
  obtain ⟨zeros, h | h⟩ := h
  · exact .inr (List.eq_of_mem_replicate (h ▸ List.mem_cons_self))
  · exact .inl (List.cons.inj h).1

theorem digitsValue_eq (n : Nat) (cs : List Char) : digitsValue n cs = Nat.ofDigitChars 10 cs n := by
  induction cs generalizing n with
  | nil => rfl
  | cons c cs ih =>
    rw [Nat.ofDigitChars_cons]
    exact ih (10 * n + (c.toNat - '0'.toNat))

theorem toNat_sub_lt {c : Char} (h : c.isDigit = true) : c.toNat - '0'.toNat < 10 := by
  have hnine : '9'.toNat = '0'.toNat + 9 := rfl
  rw [Char.isDigit_iff_toNat] at h
  omega

theorem toDigits_of_isDigit {c : Char} (h : c.isDigit = true) :
    Nat.toDigits 10 (c.toNat - '0'.toNat) = [c] := by
  have hall : ∀ d < 10, Nat.toDigits 10 d = [Char.ofNat ('0'.toNat + d)] := by decide
  have hc : '0'.toNat + (c.toNat - '0'.toNat) = c.toNat := by
    have := (Char.isDigit_iff_toNat.1 h).1
    omega
  rw [hall _ (toNat_sub_lt h), hc, Char.ofNat_toNat]

theorem ofDigitChars_replicate_zero (zeros : Nat) :
    Nat.ofDigitChars 10 (List.replicate zeros '0') 0 = 0 := by
  induction zeros with
  | zero => rfl
  | succ zeros ih =>
    rw [List.replicate_succ, Nat.ofDigitChars_cons]
    exact ih

theorem exists_eq_replicate_append {cs : List Char} (hne : cs ≠ [])
    (hdigits : ∀ c ∈ cs, c.isDigit = true) :
    ∃ zeros, cs = List.replicate zeros '0' ++ Nat.toDigits 10 (Nat.ofDigitChars 10 cs 0) := by
  -- From the last digit on: what stands before it are the digits of a tenth.
  induction cs using List.reverseRecOn with
  | nil => exact absurd rfl hne
  | append_singleton cs c ih =>
    simp only [List.mem_append, List.mem_singleton, or_imp, forall_and, forall_eq] at hdigits
    have hc := toDigits_of_isDigit hdigits.2
    rw [Nat.ofDigitChars_append, Nat.ofDigitChars_cons, Nat.ofDigitChars_nil]
    by_cases hcs : cs = []
    · subst hcs
      refine ⟨0, ?_⟩
      rw [Nat.ofDigitChars_nil, Nat.mul_zero, Nat.zero_add, hc]
      rfl
    · obtain ⟨zeros, hzeros⟩ := ih hcs hdigits.1
      rcases Nat.eq_zero_or_pos (Nat.ofDigitChars 10 cs 0) with hzero | hpos
      · rw [hzero, Nat.toDigits_zero, ← List.replicate_succ'] at hzeros
        refine ⟨zeros + 1, ?_⟩
        rw [hzero, Nat.mul_zero, Nat.zero_add, hc, ← hzeros]
      · refine ⟨zeros, ?_⟩
        rw [← Nat.toDigits_append_toDigits (by decide) hpos (toNat_sub_lt hdigits.2), hc,
          ← List.append_assoc, ← hzeros]

theorem isDigit_of_mem_append {zeros n : Nat} {c : Char}
    (hc : c ∈ List.replicate zeros '0' ++ Nat.toDigits 10 n) : c.isDigit = true := by
  rcases List.mem_append.1 hc with hc | hc
  · rw [List.eq_of_mem_replicate hc]
    rfl
  · exact Nat.isDigit_of_mem_toDigits (by decide) (by decide) hc

theorem readDigits?_eq_some_iff {cs : List Char} {n : Nat} :
    readDigits? cs = some n ↔ ∃ zeros, cs = List.replicate zeros '0' ++ Nat.toDigits 10 n := by
  unfold readDigits?
  constructor
  · intro h
    split at h
    case isTrue hdigits =>
      rw [Option.some.injEq, digitsValue_eq] at h
      simp only [Bool.and_eq_true, Bool.not_eq_true', List.isEmpty_eq_false_iff,
        List.all_eq_true] at hdigits
      rw [← h]
      exact exists_eq_replicate_append hdigits.1 hdigits.2
    case isFalse => cases h
  · rintro ⟨zeros, rfl⟩
    rw [if_pos, digitsValue_eq, Nat.ofDigitChars_append, ofDigitChars_replicate_zero,
      Nat.ofDigitChars_ten_toDigits]
    simp only [Bool.and_eq_true, Bool.not_eq_true', List.isEmpty_eq_false_iff, List.all_eq_true]
    exact ⟨List.append_ne_nil_of_right_ne_nil _ Nat.toDigits_ne_nil,
      fun c hc => isDigit_of_mem_append hc⟩

theorem readUnsigned?_eq_some_iff {cs : List Char} {n : Nat} :
    readUnsigned? cs = some n ↔ ∃ padding, IsPadding padding ∧ cs = padding ++ Nat.toDigits 10 n := by
  unfold readUnsigned?
  split
  · next cs =>
    rw [readDigits?_eq_some_iff]
    constructor
    · rintro ⟨zeros, rfl⟩
      exact ⟨_, ⟨zeros, .inr rfl⟩, rfl⟩
    · rintro ⟨_, ⟨zeros, rfl | rfl⟩, h⟩
      · have hplus : '+' ∈ List.replicate zeros '0' ++ Nat.toDigits 10 n := h ▸ List.mem_cons_self
        exact absurd (isDigit_of_mem_append hplus) (by decide)
      · exact ⟨zeros, (List.cons.inj h).2⟩
  · next hplus =>
    rw [readDigits?_eq_some_iff]
    constructor
    · rintro ⟨zeros, rfl⟩
      exact ⟨_, ⟨zeros, .inl rfl⟩, rfl⟩
    · rintro ⟨_, ⟨zeros, rfl | rfl⟩, h⟩
      · exact ⟨zeros, h⟩
      · exact absurd h (hplus _)

end TensorIR.Text
