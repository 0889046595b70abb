import TensorIR.SymExpr.Basic

/-!
The tokens of a formula in Python's notation: numbers, names, operators and punctuation. Division
rounded up has no operator there.
-/

namespace TensorIR

namespace Formula

inductive Token where
  | number (value : Nat)
  | name (text : String)
  | op (op : BinOp)
  | opening
  | closing
  | comma
  deriving DecidableEq, Repr

namespace Token

-- Beyond ASCII, every character may stand in a name.
def isNameStart (c : Char) : Bool :=
  c.isAlpha || c == '_' || 128 ≤ c.toNat

def isWordChar (c : Char) : Bool :=
  isNameStart c || c.isDigit

/-- The digits of a number, with no zero in front of others. -/
def isNumeral (word : List Char) : Bool :=
  !word.isEmpty && word.all Char.isDigit && (word.head? != some '0' || word == ['0'])

def isIdentifier : List Char → Bool
  | [] => false
  | c :: cs => isNameStart c && cs.all isWordChar

def ofWord? (word : List Char) : Option Token :=
  if isNumeral word then some (.number (Nat.ofDigitChars 10 word 0))
  else if isIdentifier word then some (.name (String.ofList word))
  else none

def ofChar? : Char → Option Token
  | '+' => some (.op .add)
  | '-' => some (.op .sub)
  | '*' => some (.op .mul)
  | '%' => some (.op .mod)
  | '(' => some .opening
  | ')' => some .closing
  | ',' => some .comma
  | _ => none

def endWord (word : List Char) (tokens : Option (List Token)) : Option (List Token) :=
  if word.isEmpty then tokens else (ofWord? word).bind fun t => tokens.map (t :: ·)

/-- The tokens of a text, behind those characters of its first word that were read already. -/
def scan (word : List Char) : List Char → Option (List Token)
  | [] => endWord word (some [])
  | c :: cs =>
    if isWordChar c then scan (word ++ [c]) cs
    else
      endWord word <|
        match c, cs with
        | ' ', cs => scan [] cs
        | '/', '/' :: cs => (scan [] cs).map (.op .div :: ·)
        | c, cs => (ofChar? c).bind fun t => (scan [] cs).map (t :: ·)

theorem scan_cons (word cs : List Char) {c : Char} (h : isWordChar c = true) :
    scan word (c :: cs) = scan (word ++ [c]) cs := by
  rw [scan.eq_def]
  dsimp only
  rw [if_pos h]

theorem scan_word {w : List Char} (h : w.all isWordChar = true) (word cs : List Char) :
    scan word (w ++ cs) = scan (word ++ w) cs := by
  induction w generalizing word with
  | nil => rw [List.append_nil, List.nil_append]
  | cons c w ih =>
    rw [List.all_cons, Bool.and_eq_true] at h
    rw [List.cons_append, scan_cons word _ h.1, ih h.2, List.append_assoc, List.singleton_append]

def EndsWord (cs : List Char) : Prop :=
  ∀ c ∈ cs.head?, isWordChar c = false

theorem endsWord_nil : EndsWord [] := by
  intro c hc
  cases hc

theorem endsWord_cons {c : Char} (h : isWordChar c = false) (cs : List Char) :
    EndsWord (c :: cs) := by
  intro d hd
  rwa [← Option.some.inj hd]

theorem scan_of_endsWord {cs : List Char} (h : EndsWord cs) (word : List Char) :
    scan word cs = endWord word (scan [] cs) := by
  cases cs with
  | nil => rfl
  | cons c cs =>
    have hc : ¬isWordChar c = true := by
      rw [h c rfl]
      exact Bool.false_ne_true
    rw [scan.eq_def, scan.eq_def [] (c :: cs)]
    dsimp only
    rw [if_neg hc, if_neg hc]
    rfl

theorem isNumeral_iff {w : List Char} :
    isNumeral w = true ↔
      w ≠ [] ∧ (∀ c ∈ w, c.isDigit = true) ∧ (w.head? = some '0' → w = ['0']) := by
  rw [isNumeral, Bool.and_eq_true, Bool.and_eq_true, Bool.or_eq_true, Bool.not_eq_true']
  rw [List.isEmpty_eq_false_iff, List.all_eq_true, bne_iff_ne, beq_iff_eq, and_assoc]
  rw [Decidable.imp_iff_not_or]

theorem isNameStart_of_isDigit {c : Char} (h : c.isDigit = true) : isNameStart c = false := by
  have hall : ∀ n : Nat, n ≤ 57 → 48 ≤ n → isNameStart (Char.ofNat n) = false := by
    decide
  rw [Char.isDigit_iff_toNat] at h
  rw [← Char.ofNat_toNat c]
  exact hall c.toNat h.2 h.1

theorem isWordChar_of_isNumeral {w : List Char} (h : isNumeral w = true) :
    w ≠ [] ∧ w.all isWordChar = true := by
  rw [isNumeral_iff] at h
  refine ⟨h.1, ?_⟩
  rw [List.all_eq_true]
  intro c hc
  rw [isWordChar, h.2.1 c hc, Bool.or_true]

theorem isWordChar_of_isIdentifier {w : List Char} (h : isIdentifier w = true) :
    w ≠ [] ∧ w.all isWordChar = true := by
  cases w with
  | nil => cases h
  | cons c w =>
    rw [isIdentifier, Bool.and_eq_true] at h
    refine ⟨List.cons_ne_nil c w, ?_⟩
    rw [List.all_cons, h.2, isWordChar, h.1]
    rfl

theorem isWordChar_of_ofWord? {w : List Char} {t : Token} (h : ofWord? w = some t) :
    w ≠ [] ∧ w.all isWordChar = true := by
  unfold ofWord? at h
  split at h
  · next hnumeral => exact isWordChar_of_isNumeral hnumeral
  · split at h
    · next hidentifier => exact isWordChar_of_isIdentifier hidentifier
    · cases h

theorem ofWord?_of_isIdentifier {w : List Char} (h : isIdentifier w = true) :
    ofWord? w = some (.name (String.ofList w)) := by
  rw [ofWord?, if_neg, if_pos h]
  intro hnumeral
  cases w with
  | nil => cases h
  | cons c w =>
    rw [isIdentifier, Bool.and_eq_true] at h
    rw [isNumeral_iff] at hnumeral
    have hc := isNameStart_of_isDigit (hnumeral.2.1 c List.mem_cons_self)
    rw [h.1] at hc
    cases hc

theorem toDigits_of_head?_eq_zero {n : Nat} (h : (Nat.toDigits 10 n).head? = some '0') :
    Nat.toDigits 10 n = ['0'] := by
  induction n using Nat.strongRecOn with
  | ind n ih =>
    rw [Nat.toDigits_eq_if (by decide)] at h ⊢
    split at h
    · next hn => rw [if_pos hn, Option.some.inj h]
    · next hn =>
      -- The digits of a tenth come first, and a tenth that is zero is one of less than ten.
      rw [List.head?_append, List.head?_eq_some_head Nat.toDigits_ne_nil, Option.some_or] at h
      rw [← List.head?_eq_some_head Nat.toDigits_ne_nil] at h
      have htenth := congrArg (Nat.ofDigitChars 10 · 0) (ih (n / 10) (by omega) h)
      rw [Nat.ofDigitChars_ten_toDigits] at htenth
      change n / 10 = 0 at htenth
      omega

theorem ofWord?_toDigits (n : Nat) : ofWord? (Nat.toDigits 10 n) = some (.number n) := by
  have hnumeral : isNumeral (Nat.toDigits 10 n) = true := by
    rw [isNumeral_iff]
    refine ⟨Nat.toDigits_ne_nil, ?_, toDigits_of_head?_eq_zero⟩
    intro c hc
    exact Nat.isDigit_of_mem_toDigits (by decide) (by decide) hc
  rw [ofWord?, if_pos hnumeral, Nat.ofDigitChars_ten_toDigits]

/-- The tokens of a text, wherever no word goes on behind it. -/
def Scans (text : List Char) (ts : List Token) : Prop :=
  ∀ cs, EndsWord cs → scan [] (text ++ cs) = (scan [] cs).map (ts ++ ·)

namespace Scans

variable {text : List Char} {ts : List Token}

theorem scan_eq (h : Scans text ts) : scan [] text = some ts := by
  have hscan := h [] endsWord_nil
  change scan [] (text ++ []) = some (ts ++ []) at hscan
  rwa [List.append_nil, List.append_nil] at hscan

theorem nil : Scans [] [] := by
  intro cs _
  exact Option.map_id'.symm

theorem ofWord {w : List Char} {t : Token} (h : ofWord? w = some t) : Scans w [t] := by
  intro cs hcs
  obtain ⟨hne, hw⟩ := isWordChar_of_ofWord? h
  rw [scan_word hw, List.nil_append, scan_of_endsWord hcs, endWord, h]
  rw [if_neg]
  · rfl
  · rwa [List.isEmpty_iff]

theorem space (h : Scans text ts) : Scans (' ' :: text) ts := by
  intro cs hcs
  exact h cs hcs

theorem div (h : Scans text ts) : Scans ('/' :: '/' :: text) (.op .div :: ts) := by
  intro cs hcs
  change (scan [] (text ++ cs)).map (.op .div :: ·) = _
  rw [h cs hcs, Option.map_map]
  rfl

theorem char {c : Char} {t : Token} (hc : ofChar? c = some t) (h : Scans text ts) :
    Scans (c :: text) (t :: ts) := by
  intro cs hcs
  have hscan : scan [] (c :: (text ++ cs)) = (scan [] (text ++ cs)).map (t :: ·) := by
    unfold ofChar? at hc
    split at hc
    all_goals cases hc
    all_goals rfl
  rw [List.cons_append, hscan, h cs hcs, Option.map_map]
  rfl

theorem append {c : Char} {text' : List Char} {us : List Token} (h : Scans text ts)
    (hc : isWordChar c = false) (h' : Scans (c :: text') us) :
    Scans (text ++ c :: text') (ts ++ us) := by
  intro cs hcs
  rw [List.append_assoc, List.cons_append, h _ (endsWord_cons hc _), ← List.cons_append]
  rw [h' cs hcs, Option.map_map]
  apply Option.map_congr
  intro vs _
  exact (List.append_assoc ts us vs).symm

end Scans

end Token

end Formula

end TensorIR
