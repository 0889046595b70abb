import Mathlib.Logic.Function.Iterate
import TensorIR.Proofs.Formula.Token
import TensorIR.SymExpr.Eval

/-!
Formulas in Python's notation. Products bind more tightly than sums and signs more tightly than
products; sums and products group to the left. A text reads as at most one formula.
-/

namespace TensorIR

inductive Formula where
  | number (value : Nat)
  | name (text : String)
  | neg (operand : Formula)
  | bin (op : BinOp) (lhs rhs : Formula)
  deriving DecidableEq, Repr

namespace Formula

def eval? (σ : Assignment) : Formula → Option Int
  | .number n => some n
  | .name s => some (σ s)
  | .neg a => (a.eval? σ).map (- ·)
  | .bin op a b => do op.eval? (← a.eval? σ) (← b.eval? σ)

inductive Level where
  | sum
  | product
  | sign
  deriving DecidableEq, Repr

def Level.tighter : Level → Level
  | .sum => .product
  | .product => .sign
  | .sign => .sign

def levelOf? : BinOp → Option Level
  | .add | .sub => some .sum
  | .mul | .div | .mod => some .product
  | .ceilDiv => none

/-- The grammar: which formula a list of tokens is, where one of a level is expected. -/
inductive Reads : Level → List Token → Formula → Prop where
  | number (n : Nat) : Reads .sign [.number n] (.number n)
  | name {s : String} (h : s ≠ "ceil_div") : Reads .sign [.name s] (.name s)
  | neg {ts : List Token} {a : Formula} (h : Reads .sign ts a) :
    Reads .sign (.op .sub :: ts) (.neg a)
  | parens {ts : List Token} {a : Formula} (h : Reads .sum ts a) :
    Reads .sign (.opening :: (ts ++ [.closing])) a
  | ceilDiv {ts us : List Token} {a b : Formula} (ha : Reads .sum ts a) (hb : Reads .sum us b) :
    Reads .sign (.name "ceil_div" :: .opening :: (ts ++ .comma :: (us ++ [.closing])))
      (.bin .ceilDiv a b)
  | operand {level : Level} {ts : List Token} {a : Formula} (h : Reads level.tighter ts a) :
    Reads level ts a
  | operation {level : Level} {op : BinOp} {ts us : List Token} {a b : Formula}
    (hop : levelOf? op = some level) (ha : Reads level ts a) (hb : Reads level.tighter us b) :
    Reads level (ts ++ .op op :: us) (.bin op a b)

def ReadsText (text : String) (a : Formula) : Prop :=
  ∃ ts, Token.scan [] text.toList = some ts ∧ Reads .sum ts a

def attach : Option (Formula × BinOp) → Formula → Formula
  | none, b => b
  | some (a, op), b => .bin op a b

/-- What stands before an operand within the innermost parentheses: a sum and a product, each with
the operator behind it, and signs. -/
structure Pending where
  sum : Option (Formula × BinOp)
  product : Option (Formula × BinOp)
  signs : Nat

def Pending.empty : Pending :=
  ⟨none, none, 0⟩

/-- An open parenthesis, with what stands before it. -/
inductive Frame where
  | group (pending : Pending)
  | firstArgument (pending : Pending)
  | secondArgument (pending : Pending) (first : Formula)

inductive State where
  | before (pending : Pending) (frames : List Frame)
  | after (sum : Option (Formula × BinOp)) (product : Formula) (frames : List Frame)
  | called (pending : Pending) (frames : List Frame)

def Pending.supply (pending : Pending) (a : Formula) (frames : List Frame) : State :=
  .after pending.sum (attach pending.product (Nat.iterate neg pending.signs a)) frames

/-- A reader that looks at each token once, from left to right. -/
def step : State → Token → Option State
  | .before pending frames, .number n => some (pending.supply (.number n) frames)
  | .before pending frames, .name s =>
    if s = "ceil_div" then some (.called pending frames)
    else some (pending.supply (.name s) frames)
  | .before pending frames, .op .sub =>
    some (.before { pending with signs := pending.signs + 1 } frames)
  | .before pending frames, .opening => some (.before .empty (.group pending :: frames))
  | .called pending frames, .opening => some (.before .empty (.firstArgument pending :: frames))
  | .after sum product frames, .op op =>
    match levelOf? op with
    | some .sum => some (.before ⟨some (attach sum product, op), none, 0⟩ frames)
    | some .product => some (.before ⟨sum, some (product, op), 0⟩ frames)
    | _ => none
  | .after sum product (.group pending :: frames), .closing =>
    some (pending.supply (attach sum product) frames)
  | .after sum product (.firstArgument pending :: frames), .comma =>
    some (.before .empty (.secondArgument pending (attach sum product) :: frames))
  | .after sum product (.secondArgument pending first :: frames), .closing =>
    some (pending.supply (.bin .ceilDiv first (attach sum product)) frames)
  | _, _ => none

/-- Where the reader gets on tokens that are a formula of a level. -/
def Runs : Level → List Token → Formula → Prop
  | .sign, ts, a =>
    ∀ pending frames, ts.foldlM step (.before pending frames) = some (pending.supply a frames)
  | .product, ts, a =>
    ∀ sum frames, ts.foldlM step (.before ⟨sum, none, 0⟩ frames) = some (.after sum a frames)
  | .sum, ts, a =>
    ∃ sum product, attach sum product = a ∧
      ∀ frames, ts.foldlM step (.before .empty frames) = some (.after sum product frames)

theorem runs_name {s : String} (h : s ≠ "ceil_div") : Runs .sign [.name s] (.name s) := by
  intro pending frames
  rw [List.foldlM_cons, step, if_neg h]
  rfl

theorem Runs.neg {ts : List Token} {a : Formula} (h : Runs .sign ts a) :
    Runs .sign (.op .sub :: ts) (.neg a) := by
  intro pending frames
  exact h { pending with signs := pending.signs + 1 } frames

theorem Runs.parens {ts : List Token} {a : Formula} (h : Runs .sum ts a) :
    Runs .sign (.opening :: (ts ++ [.closing])) a := by
  intro pending frames
  obtain ⟨sum, product, ha, hrun⟩ := h
  rw [List.foldlM_cons]
  change (ts ++ [Token.closing]).foldlM step (.before .empty (.group pending :: frames)) = _
  rw [List.foldlM_append, hrun, ← ha]
  rfl

theorem Runs.ceilDiv {ts us : List Token} {a b : Formula} (ha : Runs .sum ts a)
    (hb : Runs .sum us b) :
    Runs .sign (.name "ceil_div" :: .opening :: (ts ++ .comma :: (us ++ [.closing])))
      (.bin .ceilDiv a b) := by
  intro pending frames
  obtain ⟨sum, product, ha, hfirst⟩ := ha
  obtain ⟨sum', product', hb, hsecond⟩ := hb
  rw [List.foldlM_cons]
  change (ts ++ Token.comma :: (us ++ [Token.closing])).foldlM step
    (.before .empty (.firstArgument pending :: frames)) = _
  rw [List.foldlM_append, hfirst]
  change (us ++ [Token.closing]).foldlM step
    (.before .empty (.secondArgument pending (attach sum product) :: frames)) = _
  rw [List.foldlM_append, hsecond, ← ha, ← hb]
  rfl

theorem Runs.operand {level : Level} {ts : List Token} {a : Formula}
    (h : Runs level.tighter ts a) : Runs level ts a := by
  cases level with
  | sign => exact h
  | product =>
    intro sum frames
    exact h ⟨sum, none, 0⟩ frames
  | sum => exact ⟨none, a, rfl, h none⟩

theorem Runs.operation {level : Level} {op : BinOp} {ts us : List Token} {a b : Formula}
    (hop : levelOf? op = some level) (ha : Runs level ts a) (hb : Runs level.tighter us b) :
    Runs level (ts ++ .op op :: us) (.bin op a b) := by
  cases level with
  | sign => cases op <;> cases hop
  | product =>
    intro sum frames
    rw [List.foldlM_append, ha, Option.bind_eq_bind, Option.bind_some, List.foldlM_cons]
    rw [step, hop]
    exact hb ⟨sum, some (a, op), 0⟩ frames
  | sum =>
    obtain ⟨sum, product, ha, hrun⟩ := ha
    refine ⟨some (a, op), b, rfl, ?_⟩
    intro frames
    rw [List.foldlM_append, hrun, Option.bind_eq_bind, Option.bind_some, List.foldlM_cons]
    rw [step, hop, ha]
    exact hb (some (a, op)) frames

theorem Reads.runs {level : Level} {ts : List Token} {a : Formula} (h : Reads level ts a) :
    Runs level ts a := by
  induction h with
  | number n => exact fun _ _ => rfl
  | name h => exact runs_name h
  | neg _ ih => exact ih.neg
  | parens _ ih => exact ih.parens
  | ceilDiv _ _ iha ihb => exact iha.ceilDiv ihb
  | operand _ ih => exact ih.operand
  | operation hop _ _ iha ihb => exact Runs.operation hop iha ihb

theorem Reads.unique {ts : List Token} {a b : Formula} (ha : Reads .sum ts a)
    (hb : Reads .sum ts b) : a = b := by
  obtain ⟨sum, product, rfl, hrun⟩ := ha.runs
  obtain ⟨sum', product', rfl, hrun'⟩ := hb.runs
  have hstate := (hrun []).symm.trans (hrun' [])
  rw [Option.some.injEq, State.after.injEq] at hstate
  rw [hstate.1, hstate.2.1]

theorem ReadsText.unique {text : String} {a b : Formula} (ha : ReadsText text a)
    (hb : ReadsText text b) : a = b := by
  obtain ⟨ts, hts, ha⟩ := ha
  obtain ⟨us, hus, hb⟩ := hb
  rw [hts, Option.some.injEq] at hus
  rw [← hus] at hb
  exact ha.unique hb

end Formula

end TensorIR
