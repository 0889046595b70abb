import TensorIR.Proofs.Formula.Grammar
import TensorIR.Proofs.SymExpr.Eval
import TensorIR.SymExpr.Printer

/-!
The text of a symbolic expression, read as a formula in Python's notation. It reads as one formula,
which has the value of the expression wherever that is defined, unless a product stands behind
another factor and begins with a quotient or a remainder: `a * (b // c * d)` loses its parentheses.
-/

namespace TensorIR

open Formula

namespace SymExpr

def HasIdentifiers : SymExpr → Prop
  | .lit _ => True
  | .sym s => Token.isIdentifier s.name.toList = true ∧ s.name ≠ "ceil_div"
  | .neg e => e.HasIdentifiers
  | .bin _ l r => l.HasIdentifiers ∧ r.HasIdentifiers

section Tokens

open Token (Scans)

def literalTokens : Int → List Token
  | .ofNat n => [.number n]
  | .negSucc n => [.op .sub, .number (n + 1)]

def parens (needed : Bool) (ts : List Token) : List Token :=
  if needed then .opening :: (ts ++ [.closing]) else ts

def tokens : SymExpr → List Token
  | .lit a => literalTokens a.toInt
  | .sym s => [.name s.name]
  | .neg e => .op .sub :: parens (e.precedence < 4) e.tokens
  | .bin .ceilDiv l r =>
    .name "ceil_div" :: .opening :: (l.tokens ++ .comma :: (r.tokens ++ [.closing]))
  | .bin op l r =>
    let prec := (bin op l r).precedence
    let parensRight := r.precedence < prec || (r.precedence == prec && !r.continues op)
    parens (l.precedence < prec) l.tokens ++ .op op :: parens parensRight r.tokens

theorem scans_literal (n : Int) : Scans (toString n).toList (literalTokens n) := by
  cases n with
  | ofNat n =>
    change Scans n.repr.toList _
    rw [Nat.toList_repr]
    exact .ofWord (Token.ofWord?_toDigits n)
  | negSucc n =>
    change Scans ("-" ++ (n + 1).repr).toList _
    rw [String.toList_append, Nat.toList_repr]
    exact .char rfl (.ofWord (Token.ofWord?_toDigits (n + 1)))

variable {text : String} {ts : List Token}

theorem scans_symbol {s : String} (h : Token.isIdentifier s.toList = true) :
    Scans s.toList [.name s] := by
  have hword := Token.ofWord?_of_isIdentifier h
  rw [String.ofList_toList] at hword
  exact .ofWord hword

theorem scans_closing : Scans [')'] [.closing] :=
  .char rfl .nil

theorem scans_parenthesize (needed : Bool) (h : Scans text.toList ts) :
    Scans (parenthesize needed text).toList (parens needed ts) := by
  cases needed with
  | false => exact h
  | true =>
    change Scans ("(" ++ text ++ ")").toList _
    rw [String.toList_append, String.toList_append, List.append_assoc]
    exact .char rfl (h.append rfl scans_closing)

theorem scans_call {text' : String} {us : List Token} (h : Scans text.toList ts)
    (h' : Scans text'.toList us) :
    Scans ("ceil_div(" ++ text ++ ", " ++ text' ++ ")").toList
      (.name "ceil_div" :: .opening :: (ts ++ .comma :: (us ++ [.closing]))) := by
  have htext : ("ceil_div(" ++ text ++ ", " ++ text' ++ ")").toList =
      "ceil_div".toList ++ '(' :: (text.toList ++ ',' :: ' ' :: (text'.toList ++ [')'])) := by
    simp only [String.toList_append, List.append_assoc]
    rfl
  have hsecond := h'.append rfl scans_closing
  have hfirst := h.append rfl (.char (c := ',') rfl hsecond.space)
  rw [htext]
  exact (scans_symbol rfl).append rfl (.char rfl hfirst)

theorem scans_operation {op : BinOp} (hop : op ≠ .ceilDiv) {text' : String} {us : List Token}
    (h : Scans text.toList ts) (h' : Scans text'.toList us) :
    Scans (text ++ " " ++ op.text ++ " " ++ text').toList (ts ++ .op op :: us) := by
  have htext : (text ++ " " ++ op.text ++ " " ++ text').toList =
      text.toList ++ ' ' :: (op.text.toList ++ ' ' :: text'.toList) := by
    simp only [String.toList_append, List.append_assoc]
    rfl
  have hsign : Scans (op.text.toList ++ ' ' :: text'.toList) (.op op :: us) := by
    cases op with
    | ceilDiv => exact absurd rfl hop
    | div => exact h'.space.div
    | add | sub | mul | mod => exact h'.space.char rfl
  rw [htext]
  exact h.append rfl hsign.space

theorem scans_text {e : SymExpr} (h : e.HasIdentifiers) : Scans e.text.toList e.tokens := by
  unfold text
  induction e with
  | lit a => exact scans_literal a.toInt
  | sym s => exact scans_symbol h.1
  | neg e ih =>
    rw [textWith, String.toList_append]
    exact .char rfl (scans_parenthesize _ (ih h))
  | bin op l r ihl ihr =>
    by_cases hop : op = .ceilDiv
    · subst hop
      exact scans_call (ihl h.1) (ihr h.2)
    · rw [textWith, tokens]
      · exact scans_operation hop (scans_parenthesize _ (ihl h.1)) (scans_parenthesize _ (ihr h.2))
      · exact hop
      · exact hop

end Tokens

def precedenceOf : Level → Nat
  | .sum => 1
  | .product => 3
  | .sign => 4

def level : SymExpr → Level
  | .bin op _ _ => (levelOf? op).getD .sign
  | _ => .sign

theorem precedenceOf_level (e : SymExpr) : precedenceOf e.level = min e.precedence 4 := by
  cases e with
  | bin op l r => cases op <;> rfl
  | _ => rfl

theorem eq_of_precedenceOf_eq {level level' : Level}
    (h : precedenceOf level = precedenceOf level') : level = level' := by
  cases level <;> cases level' <;> first | rfl | cases h

theorem precedenceOf_le (level : Level) : precedenceOf level ≤ 4 := by
  cases level <;> decide

theorem precedenceOf_tighter_le {level : Level} {e : SymExpr}
    (h : precedenceOf level < e.precedence) :
    precedenceOf level.tighter ≤ precedenceOf e.level := by
  have hlevel := precedenceOf_level e
  cases level with
  | sum =>
    -- No level lies between sums and products.
    change 1 < _ at h
    change 3 ≤ _
    have hsum : e.level ≠ .sum := by
      intro hsum
      rw [hsum] at hlevel
      change 1 = _ at hlevel
      omega
    cases hlevel' : e.level with
    | sum => exact absurd hlevel' hsum
    | product | sign => decide
  | product =>
    change 3 < _ at h
    change 4 ≤ _
    omega
  | sign =>
    change 4 < _ at h
    change 4 ≤ _
    omega

theorem precedenceOf_sum_le (level : Level) : precedenceOf .sum ≤ precedenceOf level := by
  cases level <;> decide

theorem exists_levelOf? {op : BinOp} (hop : op ≠ .ceilDiv) : ∃ level, levelOf? op = some level := by
  cases op with
  | ceilDiv => exact absurd rfl hop
  | _ => exact ⟨_, rfl⟩

theorem precedence_bin {op : BinOp} {level : Level} (hop : levelOf? op = some level)
    (l r : SymExpr) : (bin op l r).precedence = precedenceOf level := by
  cases op <;> cases hop <;> rfl

theorem level_of_continues {op : BinOp} {level : Level} {e : SymExpr}
    (h : e.continues op = true) (hop : levelOf? op = some level) :
    e.level = level ∧ e.precedence = precedenceOf level := by
  cases e with
  | bin op' l r =>
    rw [continues, Bool.and_eq_true, beq_iff_eq] at h
    rw [← h.2] at hop
    refine ⟨?_, precedence_bin hop l r⟩
    rw [SymExpr.level, hop]
    rfl
  | _ => cases h

theorem reads_loosen {level level' : Level} {ts : List Token} {a : Formula}
    (h : Reads level ts a) (hlevel : precedenceOf level' ≤ precedenceOf level) :
    Reads level' ts a := by
  cases level with
  | sign =>
    cases level' with
    | sign => exact h
    | product => exact .operand h
    | sum => exact .operand (.operand h)
  | product =>
    cases level' with
    | sign => exact absurd hlevel (by decide)
    | product => exact h
    | sum => exact .operand h
  | sum =>
    cases level' with
    | sum => exact h
    | _ => exact absurd hlevel (by decide)

section Reading

def literal : Int → Formula
  | .ofNat n => .number n
  | .negSucc n => .neg (.number (n + 1))

/-- What the text reads as behind an operand and an operator of its level: the grammar groups to the
left, so the operands of an operation without parentheses go with the operator in front first. -/
def formulaBehind (front : Option (Formula × BinOp)) : SymExpr → Formula
  | .lit a => attach front (literal a.toInt)
  | .sym s => attach front (.name s.name)
  | .neg e => attach front (.neg (e.formulaBehind none))
  | .bin .ceilDiv l r =>
    attach front (.bin .ceilDiv (l.formulaBehind none) (r.formulaBehind none))
  | .bin op l r =>
    let lhs :=
      if l.precedence = (bin op l r).precedence then l.formulaBehind front
      else attach front (l.formulaBehind none)
    if r.continues op then r.formulaBehind (some (lhs, op))
    else .bin op lhs (r.formulaBehind none)

def formula (e : SymExpr) : Formula :=
  e.formulaBehind none

/-- The tokens in front of an operand of the level. -/
def Behind (level : Level) : Option (Formula × BinOp) → List Token → Prop
  | none, us => us = []
  | some (a, op), us =>
    levelOf? op = some level ∧ ∃ ts, Reads level ts a ∧ us = ts ++ [.op op]

variable {level : Level} {front : Option (Formula × BinOp)} {us ts : List Token}

theorem reads_attach {a : Formula} (hfront : Behind level front us)
    (h : Reads level.tighter ts a) : Reads level (us ++ ts) (attach front a) := by
  cases front with
  | none =>
    rw [show us = [] from hfront]
    exact .operand h
  | some front =>
    obtain ⟨hop, ts', hts', rfl⟩ := hfront
    rw [List.append_assoc, List.singleton_append]
    exact .operation hop hts' h

theorem reads_literal (n : Int) : Reads .sign (literalTokens n) (literal n) := by
  cases n with
  | ofNat n => exact .number n
  | negSucc n => exact .neg (.number (n + 1))

variable {e l r : SymExpr}

theorem reads_parens {needed : Bool} {a : Formula} (h : Reads e.level ts a)
    (hneeded : needed = false → precedenceOf level ≤ precedenceOf e.level) :
    Reads level (parens needed ts) a := by
  cases needed with
  | false => exact reads_loosen h (hneeded rfl)
  | true =>
    have hsum : Reads .sum ts a := reads_loosen h (precedenceOf_sum_le e.level)
    exact reads_loosen (.parens hsum) (precedenceOf_le level)

/-- Behind any tokens that may stand in front of an operation of its level, an expression reads as
its formula. -/
def ReadsBehind (e : SymExpr) : Prop :=
  ∀ front us, Behind e.level front us → Reads e.level (us ++ e.tokens) (e.formulaBehind front)

theorem ReadsBehind.reads (h : e.ReadsBehind) : Reads e.level e.tokens e.formula :=
  h none [] rfl

theorem ReadsBehind.left (h : l.ReadsBehind) (hfront : Behind level front us) :
    Reads level (us ++ parens (l.precedence < precedenceOf level) l.tokens)
      (if l.precedence = precedenceOf level then l.formulaBehind front
        else attach front l.formula) := by
  have hprec := precedenceOf_level l
  have hle := precedenceOf_le level
  split
  · next heq =>
    have hlevel : l.level = level := by
      apply eq_of_precedenceOf_eq
      omega
    have hparens : decide (l.precedence < precedenceOf level) = false := by
      apply decide_eq_false
      omega
    rw [hparens, parens, if_neg Bool.false_ne_true, ← hlevel]
    apply h
    rwa [hlevel]
  · next hne =>
    apply reads_attach hfront
    apply reads_parens h.reads
    intro hparens
    have := of_decide_eq_false hparens
    apply precedenceOf_tighter_le
    omega

theorem ReadsBehind.right {op : BinOp} (h : r.ReadsBehind) (hop : levelOf? op = some level)
    {a : Formula} (ha : Reads level us a) :
    Reads level
      (us ++ .op op :: parens (r.precedence < precedenceOf level ||
        (r.precedence == precedenceOf level && !r.continues op)) r.tokens)
      (if r.continues op then r.formulaBehind (some (a, op)) else .bin op a r.formula) := by
  by_cases hcontinues : r.continues op = true
  · obtain ⟨hlevel, hprec⟩ := level_of_continues hcontinues hop
    have hparens : (decide (r.precedence < precedenceOf level) ||
        (r.precedence == precedenceOf level && !r.continues op)) = false := by
      rw [hprec, hcontinues, Bool.not_true, Bool.and_false, Bool.or_false]
      exact decide_eq_false (Nat.lt_irrefl _)
    rw [if_pos hcontinues, hparens, parens, if_neg Bool.false_ne_true]
    rw [← List.singleton_append, ← List.append_assoc, ← hlevel]
    apply h
    rw [hlevel]
    exact ⟨hop, us, ha, rfl⟩
  · rw [if_neg hcontinues]
    apply Reads.operation hop ha
    apply reads_parens h.reads
    intro hparens
    rw [Bool.not_eq_true] at hcontinues
    rw [hcontinues, Bool.not_false, Bool.and_true, Bool.or_eq_false_iff] at hparens
    have hlt := of_decide_eq_false hparens.1
    have hne := ne_of_beq_false hparens.2
    apply precedenceOf_tighter_le
    omega

theorem readsBehind (h : e.HasIdentifiers) : e.ReadsBehind := by
  induction e with
  | lit a =>
    intro front us hfront
    exact reads_attach hfront (reads_literal a.toInt)
  | sym s =>
    intro front us hfront
    exact reads_attach hfront (.name h.2)
  | neg e ih =>
    intro front us hfront
    apply reads_attach hfront
    apply Reads.neg
    apply reads_parens (ih h).reads
    intro hparens
    have := of_decide_eq_false hparens
    rw [precedenceOf_level]
    change 4 ≤ _
    omega
  | bin op l r ihl ihr =>
    intro front us hfront
    by_cases hcall : op = .ceilDiv
    · subst hcall
      have hl := reads_loosen (ihl h.1).reads (precedenceOf_sum_le l.level)
      have hr := reads_loosen (ihr h.2).reads (precedenceOf_sum_le r.level)
      exact reads_attach hfront (.ceilDiv hl hr)
    · obtain ⟨level, hop⟩ := exists_levelOf? hcall
      have hlevel : (bin op l r).level = level := by
        rw [SymExpr.level, hop]
        rfl
      rw [hlevel] at hfront ⊢
      rw [tokens, formulaBehind, precedence_bin hop]
      · rw [← List.append_assoc]
        exact (ihr h.2).right hop ((ihl h.1).left hfront)
      · exact hcall
      · exact hcall

end Reading

section Values

def beginsWithQuotient : SymExpr → Bool
  | .bin .div _ _ | .bin .mod _ _ => true
  | .bin .mul l _ => l.beginsWithQuotient
  | _ => false

/-- No product stands behind another factor and begins with a quotient or a remainder. -/
def KeepsProducts : SymExpr → Prop
  | .lit _ | .sym _ => True
  | .neg e => e.KeepsProducts
  | .bin op l r =>
    l.KeepsProducts ∧ r.KeepsProducts ∧
      (op = .mul → r.continues .mul = true → r.beginsWithQuotient = false)

/-- Operations whose operands may be taken one by one behind what is in front of them. -/
def MayFollow : Option (Formula × BinOp) → SymExpr → Prop
  | none, _ => True
  | some (_, op), e =>
    (op = .add ∧ e.level = .sum) ∨
      (op = .mul ∧ e.level = .product ∧ e.beginsWithQuotient = false)

variable {σ : Assignment} {front : Option (Formula × BinOp)} {e l r : SymExpr} {op : BinOp}
variable {a b : Formula} {u v w : Int}

def evalBehind? (σ : Assignment) : Option (Formula × BinOp) → Int → Option Int
  | none, v => some v
  | some (a, op), v => (a.eval? σ).bind (op.eval? · v)

theorem eval?_literal (n : Int) : (literal n).eval? σ = some n := by
  cases n with
  | ofNat n => rfl
  | negSucc n => rfl

theorem eval?_bin (h : b.eval? σ = some v) :
    (Formula.bin op a b).eval? σ = evalBehind? σ (some (a, op)) v := by
  rw [Formula.eval?, h]
  rfl

theorem eval?_attach (h : a.eval? σ = some v) :
    (attach front a).eval? σ = evalBehind? σ front v := by
  cases front with
  | none => exact h
  | some front => exact eval?_bin h

theorem MayFollow.eval?_assoc {op' : BinOp} (hfront : MayFollow (some (a, op')) (bin op l r))
    (h : op.eval? u v = some w) (t : Int) :
    (op'.eval? t u).bind (op.eval? · v) = op'.eval? t w := by
  obtain ⟨rfl, hlevel⟩ | ⟨rfl, hlevel, hfirst⟩ := hfront
  · cases op with
    | add =>
      cases h
      exact congrArg some (Int.add_assoc t u v)
    | sub =>
      cases h
      exact congrArg some (Int.add_sub_assoc t u v)
    | _ => cases hlevel
  · cases op with
    | mul =>
      cases h
      exact congrArg some (Int.mul_assoc t u v)
    | div | mod => cases hfirst
    | _ => cases hlevel

theorem evalBehind?_bin (hfront : MayFollow front (bin op l r)) (h : op.eval? u v = some w) :
    (evalBehind? σ front u).bind (op.eval? · v) = evalBehind? σ front w := by
  cases front with
  | none => exact h
  | some front =>
    obtain ⟨a, op'⟩ := front
    rw [evalBehind?, evalBehind?, Option.bind_assoc]
    congr
    funext t
    exact hfront.eval?_assoc h t

theorem MayFollow.left (hfront : MayFollow front (bin op l r))
    (hprec : l.precedence = (bin op l r).precedence) : MayFollow front l := by
  have hlevel : l.level = (bin op l r).level := by
    apply eq_of_precedenceOf_eq
    rw [precedenceOf_level, precedenceOf_level, hprec]
  cases front with
  | none => trivial
  | some front =>
    obtain ⟨hop, hsum⟩ | ⟨hop, hproduct, hfirst⟩ := hfront
    · exact .inl ⟨hop, hlevel.trans hsum⟩
    · refine .inr ⟨hop, hlevel.trans hproduct, ?_⟩
      cases op with
      | mul => exact hfirst
      | div | mod => cases hfirst
      | _ => cases hproduct

theorem mayFollow_right (h : (bin op l r).KeepsProducts) (hcontinues : r.continues op = true)
    (a : Formula) : MayFollow (some (a, op)) r := by
  cases op with
  | add => exact .inl ⟨rfl, (level_of_continues hcontinues rfl).1⟩
  | mul => exact .inr ⟨rfl, (level_of_continues hcontinues rfl).1, h.2.2 rfl hcontinues⟩
  | _ => cases r <;> cases hcontinues

theorem eval?_formulaBehind (h : e.KeepsProducts) (hv : e.eval? σ = some v)
    (hfront : MayFollow front e) :
    (e.formulaBehind front).eval? σ = evalBehind? σ front v := by
  induction e generalizing front v with
  | lit a =>
    rw [← Option.some.inj hv]
    exact eval?_attach (eval?_literal a.toInt)
  | sym s =>
    rw [← Option.some.inj hv]
    exact eval?_attach rfl
  | neg e ih =>
    rw [eval?_neg_eq_some_iff] at hv
    obtain ⟨u, hu, rfl⟩ := hv
    have he : (e.formulaBehind none).eval? σ = some u := ih h hu trivial
    apply eval?_attach
    rw [Formula.eval?, he]
    rfl
  | bin op l r ihl ihr =>
    obtain ⟨u, w, hu, hw, hv⟩ := eval?_bin_eq_some_iff.1 hv
    have hl : (l.formulaBehind none).eval? σ = some u := ihl h.1 hu trivial
    have hr : (r.formulaBehind none).eval? σ = some w := ihr h.2.1 hw trivial
    by_cases hcall : op = .ceilDiv
    · subst hcall
      apply eval?_attach
      rw [eval?_bin hr, evalBehind?, hl]
      exact hv
    · have hleft : (if l.precedence = (bin op l r).precedence then l.formulaBehind front
          else attach front (l.formulaBehind none)).eval? σ = evalBehind? σ front u := by
        split
        · next hprec => exact ihl h.1 hu (hfront.left hprec)
        · exact eval?_attach hl
      rw [← evalBehind?_bin hfront hv, ← hleft, formulaBehind]
      · split
        · next hcontinues => exact ihr h.2.1 hw (mayFollow_right h hcontinues _)
        · exact eval?_bin hr
      · exact hcall

end Values

theorem readsText_text {e : SymExpr} (h : e.HasIdentifiers) : ReadsText e.text e.formula := by
  refine ⟨e.tokens, (scans_text h).scan_eq, ?_⟩
  exact reads_loosen (readsBehind h).reads (precedenceOf_sum_le e.level)

theorem exists_readsText_iff {e : SymExpr} (h : e.HasIdentifiers) :
    ∃ a, (∀ b, ReadsText e.text b ↔ b = a) ∧
      (e.KeepsProducts → ∀ σ v, e.eval? σ = some v → a.eval? σ = some v) := by
  refine ⟨e.formula, ?_, ?_⟩
  · intro b
    constructor
    · intro hb
      exact hb.unique (readsText_text h)
    · intro hb
      rw [hb]
      exact readsText_text h
  · intro hproducts σ v hv
    exact eval?_formulaBehind hproducts hv trivial

theorem exists_readsText_iff_nested :
    let e : SymExpr := -(var "n" - (size "k" + (-3 : Int64))) * (var "h" * (size "s" % (2 : Int64)))
    e.HasIdentifiers ∧ e.KeepsProducts ∧
      ∃ a, (∀ b, ReadsText e.text b ↔ b = a) ∧ ∀ σ v, e.eval? σ = some v → a.eval? σ = some v := by
  intro e
  have hnames : e.HasIdentifiers :=
    ⟨⟨⟨rfl, by decide⟩, ⟨rfl, by decide⟩, trivial⟩, ⟨rfl, by decide⟩, ⟨rfl, by decide⟩, trivial⟩
  have hproducts : e.KeepsProducts :=
    ⟨⟨trivial, ⟨trivial, trivial, by decide⟩, by decide⟩,
      ⟨trivial, ⟨trivial, trivial, by decide⟩, by decide⟩, fun _ _ => rfl⟩
  obtain ⟨a, ha, hvalue⟩ := exists_readsText_iff hnames
  exact ⟨hnames, hproducts, a, ha, hvalue hproducts⟩

/-- The product behind `a` is written without parentheses, although it begins with a quotient. -/
theorem eval?_ne_of_readsText_quotient :
    let e := size "a" * (size "b" / size "c" * size "d")
    let σ : Assignment := fun s => if s = "a" ∨ s = "c" then 2 else 1
    e.HasIdentifiers ∧ e.text = "a * b // c * d" ∧ e.eval? σ = some 0 ∧
      ∀ a, ReadsText e.text a → a.eval? σ = some 1 := by
  intro e σ
  have hnames : e.HasIdentifiers :=
    ⟨⟨rfl, by decide⟩, ⟨⟨rfl, by decide⟩, ⟨rfl, by decide⟩⟩, ⟨rfl, by decide⟩⟩
  refine ⟨hnames, rfl, rfl, ?_⟩
  intro a ha
  rw [ha.unique (readsText_text hnames)]
  rfl

end SymExpr

end TensorIR
