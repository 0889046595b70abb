import Mathlib.Algebra.Group.Nat.Defs
import TensorIR.Text.Quoted

/-!
Reading back a string literal: what `decode?` finds at the start of a text that begins with a
literal is the content of the literal, whatever stands behind it.
-/

namespace TensorIR.Text.Quoted

theorem hexValue?_digitChar {d : Nat} (h : d < 16) : hexValue? d.digitChar = some d := by
  have hall : ∀ d < 16, hexValue? (Nat.digitChar d) = some d := by decide
  exact hall d h

theorem foldlM_hexDigits (width k n : Nat) :
    (hexDigits width n).foldlM (fun k c => (hexValue? c).map (16 * k + ·)) k =
      some (16 ^ width * k + n % 16 ^ width) := by
  induction width generalizing n with
  | zero => simp [hexDigits, Nat.mod_one]
  | succ width ih =>
    rw [hexDigits, List.foldlM_append, ih, Option.bind_eq_bind, Option.bind_some]
    rw [List.foldlM_cons, hexValue?_digitChar (Nat.mod_lt n (by decide))]
    change some (16 * (16 ^ width * k + n / 16 % 16 ^ width) + n % 16) = _
    rw [Nat.pow_succ, Nat.mul_comm (16 ^ width) 16, Nat.mod_mul, Nat.mul_assoc, Nat.mul_add]
    congr 1
    omega

theorem charOfHex?_hexDigits {width : Nat} {c : Char} (h : c.toNat < 16 ^ width) :
    charOfHex? (hexDigits width c.toNat) = some c := by
  have hvalid : c.toNat.isValidChar := c.valid
  rw [charOfHex?, foldlM_hexDigits, Nat.mul_zero, Nat.zero_add, Nat.mod_eq_of_lt h]
  rw [Option.bind_eq_bind, Option.bind_some, if_pos hvalid, Char.ofNat_toNat]

theorem toNat_lt (c : Char) : c.toNat < 16 ^ 8 := by
  have hvalid : c.toNat < 0xd800 ∨ 0xdfff < c.toNat ∧ c.toNat < 0x110000 := c.valid
  omega

/-- The width of an escape is fixed by its letter, so digits behind it do not belong to it. -/
theorem decodeBody?_escapeCode (c : Char) (cs : List Char) :
    decodeBody? (escapeCode c.toNat ++ cs) = decodeBody?.found c (decodeBody? cs) := by
  have hread {digits : List Char} (h : charOfHex? digits = some c) :
      (do decodeBody?.found (← charOfHex? digits) (decodeBody? cs)) =
        decodeBody?.found c (decodeBody? cs) := by
    rw [h]
    rfl
  unfold escapeCode
  split
  · exact hread (charOfHex?_hexDigits (show c.toNat < 16 ^ 2 by omega))
  · split
    · exact hread (charOfHex?_hexDigits (show c.toNat < 16 ^ 4 by omega))
    · exact hread (charOfHex?_hexDigits (toNat_lt c))

theorem decodeBody?_cons {c : Char} (hquote : c ≠ '"') (hbackslash : c ≠ '\\') (hline : c ≠ '\n')
    (hreturn : c ≠ '\r') (cs : List Char) :
    decodeBody? (c :: cs) = decodeBody?.found c (decodeBody? cs) := by
  rw [decodeBody?]
  · rw [if_neg]
    rintro (h | h | h)
    · exact hbackslash h
    · exact hline h
    · exact hreturn h
  · exact hquote
  all_goals
    intros
    contradiction

theorem decodeBody?_escape (c : Char) (cs : List Char) :
    decodeBody? (escape c ++ cs) = decodeBody?.found c (decodeBody? cs) := by
  by_cases hbackslash : c = '\\'
  · subst hbackslash
    rfl
  by_cases hquote : c = '"'
  · subst hquote
    rfl
  by_cases hline : c = '\n'
  · subst hline
    rfl
  by_cases hreturn : c = '\r'
  · subst hreturn
    rfl
  by_cases htab : c = '\t'
  · subst htab
    rfl
  rw [escape, if_neg hbackslash, if_neg hquote, if_neg hline, if_neg hreturn, if_neg htab]
  split
  · exact decodeBody?_escapeCode c cs
  · exact decodeBody?_cons hquote hbackslash hline hreturn cs

theorem decodeBody?_body (cs rest : List Char) :
    decodeBody? (body cs ++ '"' :: rest) = some (cs, rest) := by
  induction cs with
  | nil => rfl
  | cons c cs ih =>
    rw [body, List.flatMap_cons, List.append_assoc, decodeBody?_escape]
    change decodeBody?.found c (decodeBody? (body cs ++ '"' :: rest)) = _
    rw [ih]
    rfl

theorem decode?_encode (s : String) (rest : List Char) :
    decode? ((encode s).toList ++ rest) = some (s.toList, rest) := by
  rw [encode, String.toList_ofList, List.append_assoc, List.cons_append]
  exact decodeBody?_body s.toList rest

end TensorIR.Text.Quoted
