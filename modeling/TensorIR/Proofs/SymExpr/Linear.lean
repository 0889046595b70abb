import Mathlib.Algebra.GroupWithZero.Nat
import Mathlib.Algebra.Order.BigOperators.Group.List
import Mathlib.Algebra.Order.Group.Nat
import Mathlib.GroupTheory.FreeGroup.Basic
import TensorIR.Proofs.SymExpr.LiteralSum
import TensorIR.Proofs.SymExpr.Weight

/-!
Linear expressions: sums of literals, symbols and composites, which are products, quotients and
remainders, and negations of such sums. An expression has a coefficient for each symbol. Of its
composites also the order counts: sorting brings no two of them together, so they make up a word in
a free group, in which only neighbours cancel. Canonicalization keeps all of this.
-/

namespace TensorIR.SymExpr

variable {e e' l r u v x : SymExpr} {es ds : List SymExpr}

section Parts

/-- What a linear expression has coefficients of. All composites count as one part. -/
inductive Part where
  | symbol (name : String)
  | composite
  | literal
  deriving DecidableEq

/-- A product, quotient or remainder. -/
def IsComposite : SymExpr → Prop
  | .bin op _ _ => op ≠ .add ∧ op ≠ .sub
  | _ => False

def coefficient (p : Part) : SymExpr → Int
  | .lit a => if p = .literal then a.toInt else 0
  | .sym s => if p = .symbol s.name then 1 else 0
  | .neg e => -e.coefficient p
  | .bin .add l r => l.coefficient p + r.coefficient p
  | .bin _ _ _ => if p = .composite then 1 else 0

/-- The number of terms that are this part, whatever their signs; of literals, the sum of their
absolute values. -/
def amount (p : Part) : SymExpr → Nat
  | .lit a => if p = .literal then a.toInt.natAbs else 0
  | .sym s => if p = .symbol s.name then 1 else 0
  | .neg e => e.amount p
  | .bin .add l r => l.amount p + r.amount p
  | .bin _ _ _ => if p = .composite then 1 else 0

def swaps : Setoid SymExpr :=
  ⟨fun a b => a.same b = true, equivalence_same⟩

/-- An expression, but for the order of operands. -/
def Letter : Type :=
  Quotient swaps

def letter (e : SymExpr) : Letter :=
  Quotient.mk swaps e

theorem letter_eq_iff : letter u = letter v ↔ u.same v = true :=
  Quotient.eq (r := swaps)

/-- Negates each letter of a word and leaves it in its place. -/
def opposite : FreeAddGroup Letter →+ FreeAddGroup Letter :=
  FreeAddGroup.lift fun u => -FreeAddGroup.of u

@[simp]
theorem opposite_of (u : Letter) : opposite (FreeAddGroup.of u) = -FreeAddGroup.of u :=
  FreeAddGroup.lift_apply_of

@[simp]
theorem opposite_opposite (w : FreeAddGroup Letter) : opposite (opposite w) = w := by
  have h : opposite.comp opposite = AddMonoidHom.id (FreeAddGroup Letter) := by
    apply FreeAddGroup.ext_hom
    intro u
    simp
  exact DFunLike.congr_fun h w

/-- The composites of a linear expression from left to right, with their signs. -/
def composites : SymExpr → FreeAddGroup Letter
  | .lit _ => 0
  | .sym _ => 0
  | .neg e => opposite e.composites
  | .bin .add l r => l.composites + r.composites
  | .bin op l r => FreeAddGroup.of (letter (.bin op l r))

theorem composites_eq_zero (h : e.amount .composite = 0) : e.composites = 0 := by
  induction e with
  | lit a | sym s => rfl
  | neg e ih => rw [composites, ih h, map_zero]
  | bin op l r ihl ihr =>
    cases op with
    | add =>
      rw [amount, Nat.add_eq_zero_iff] at h
      rw [composites, ihl h.1, ihr h.2, add_zero]
    | _ => simp [amount] at h

/-- Of a single composite there is no order. -/
theorem opposite_composites (h : e.amount .composite ≤ 1) :
    opposite e.composites = -e.composites := by
  induction e with
  | lit a | sym s => simp [composites]
  | neg e ih => rw [composites, ih h, map_neg, ih h]
  | bin op l r ihl ihr =>
    cases op with
    | add =>
      rw [amount] at h
      rw [composites, map_add, ihl (by omega), ihr (by omega)]
      rcases Nat.eq_zero_or_pos (l.amount .composite) with hl | hl
      · rw [composites_eq_zero hl, neg_zero, zero_add, zero_add]
      · rw [composites_eq_zero (e := r) (by omega), neg_zero, add_zero, add_zero]
    | _ => simp [composites]

end Parts

section Shrinks

/-- The coefficients are the same, and so are the composites. -/
structure Alike (e e' : SymExpr) : Prop where
  coefficient_eq (p : Part) : e'.coefficient p = e.coefficient p
  composites_eq : e'.composites = e.composites

/-- Nothing is lost but opposite terms: in addition, no amount is larger. -/
structure Shrinks (e e' : SymExpr) : Prop extends Alike e e' where
  amount_le (p : Part) : e'.amount p ≤ e.amount p

theorem Alike.refl (e : SymExpr) : Alike e e :=
  ⟨fun _ => rfl, rfl⟩

namespace Shrinks

theorem refl (e : SymExpr) : Shrinks e e :=
  ⟨.refl e, fun _ => Nat.le_refl _⟩

theorem trans {e₁ e₂ e₃ : SymExpr} (h : Shrinks e₁ e₂) (h' : Shrinks e₂ e₃) : Shrinks e₁ e₃ :=
  ⟨⟨fun p => (h'.coefficient_eq p).trans (h.coefficient_eq p),
    h'.composites_eq.trans h.composites_eq⟩,
    fun p => Nat.le_trans (h'.amount_le p) (h.amount_le p)⟩

theorem neg (h : Shrinks e e') : Shrinks (neg e) (neg e') :=
  ⟨⟨fun p => congrArg (- ·) (h.coefficient_eq p), congrArg opposite h.composites_eq⟩, h.amount_le⟩

theorem add {l' r' : SymExpr} (hl : Shrinks l l') (hr : Shrinks r r') :
    Shrinks (add l r) (add l' r') := by
  refine ⟨⟨?_, ?_⟩, fun p => Nat.add_le_add (hl.amount_le p) (hr.amount_le p)⟩
  · intro p
    simp only [coefficient, hl.coefficient_eq, hr.coefficient_eq]
  · simp only [composites, hl.composites_eq, hr.composites_eq]

theorem negAdd (l r : SymExpr) :
    Shrinks (SymExpr.neg (SymExpr.add l r)) (SymExpr.add (SymExpr.neg l) (SymExpr.neg r)) := by
  refine ⟨⟨?_, ?_⟩, fun p => Nat.le_refl _⟩
  · intro p
    simp only [coefficient]
    omega
  · simp only [composites, map_add]

theorem negNeg (e : SymExpr) : Shrinks (SymExpr.neg (SymExpr.neg e)) e := by
  refine ⟨⟨?_, ?_⟩, fun p => Nat.le_refl _⟩
  · intro p
    simp only [coefficient]
    omega
  · simp only [composites, opposite_opposite]

theorem negLit {a b : Int64} (h : a.neg? = some b) : Shrinks (SymExpr.neg (lit a)) (lit b) := by
  have hb := Int64.neg?_eq_some_iff.1 h
  refine ⟨⟨?_, ?_⟩, ?_⟩
  · intro p
    simp only [coefficient, hb]
    split <;> rfl
  · simp [composites]
  · intro p
    simp only [amount, hb, Int.natAbs_neg]
    exact Nat.le_refl _

end Shrinks

end Shrinks

section Sums

variable {M : Type} [AddMonoid M] {f : SymExpr → M}

/-- A function of expressions that adds up over sums. -/
structure AddsUp (f : SymExpr → M) : Prop where
  zero : f (lit 0) = 0
  add (l r : SymExpr) : f (add l r) = f l + f r

theorem AddsUp.ofOperands (h : AddsUp f) (es : List SymExpr) :
    f (ofOperands .add (lit 0) es) = (es.map f).sum := by
  cases es with
  | nil => exact h.zero
  | cons e es =>
    rw [SymExpr.ofOperands, List.map_cons, List.sum_cons]
    induction es generalizing e with
    | nil => simp
    | cons d es ih =>
      rw [List.foldl_cons, ih, h.add, List.map_cons, List.sum_cons, add_assoc]

theorem AddsUp.operands (h : AddsUp f) (e : SymExpr) : f e = ((e.operands .add).map f).sum := by
  induction e with
  | bin op l r ihl ihr =>
    unfold SymExpr.operands
    split
    case isTrue hop => rw [hop, h.add, ihl, ihr, List.map_append, List.sum_append]
    case isFalse => simp
  | _ => simp [SymExpr.operands]

theorem sum_map_insertTerm (h : ∀ v ∈ es, u.precedes v = false → f u + f v = f v + f u) :
    ((insertTerm u es).map f).sum = f u + (es.map f).sum := by
  induction es with
  | nil => simp [insertTerm]
  | cons v es ih =>
    rw [List.forall_mem_cons] at h
    unfold insertTerm
    split
    case isTrue => rw [List.map_cons, List.sum_cons]
    case isFalse hprecedes =>
      rw [Bool.not_eq_true] at hprecedes
      rw [List.map_cons, List.sum_cons, ih h.2, List.map_cons, List.sum_cons, ← add_assoc,
        ← h.1 hprecedes, add_assoc]

/-- Sorting moves a term past another one only where their order does not matter. -/
theorem sum_map_sortTerms
    (h : ∀ u ∈ es, ∀ v ∈ es, u.precedes v = false → f u + f v = f v + f u) :
    ((sortTerms es).map f).sum = (es.map f).sum := by
  induction es with
  | nil => rfl
  | cons u es ih =>
    have hu : ∀ v ∈ sortTerms es, u.precedes v = false → f u + f v = f v + f u := by
      intro v hv
      rw [(sortTerms_perm es).mem_iff] at hv
      exact h u List.mem_cons_self v (List.mem_cons_of_mem u hv)
    rw [sortTerms, sum_map_insertTerm hu, List.map_cons, List.sum_cons, ih]
    intro v hv w hw
    exact h v (List.mem_cons_of_mem u hv) w (List.mem_cons_of_mem u hw)

theorem sum_map_cancelOpposites
    (h : ∀ u ∈ es, ∀ v ∈ es, u.isOpposite v = true → f u + f v = 0) :
    ((cancelOpposites es).map f).sum = (es.map f).sum := by
  fun_induction cancelOpposites es with
  | case1 u v es hopposite ih =>
    rw [List.map_cons, List.map_cons, List.sum_cons, List.sum_cons, ← add_assoc,
      h u (by simp) v (by simp) hopposite, zero_add]
    apply ih
    intro a ha b hb
    exact h a (by simp [ha]) b (by simp [hb])
  | case2 u v es _ ih =>
    rw [List.map_cons, List.sum_cons, List.map_cons (l := v :: es), List.sum_cons, ih]
    intro a ha b hb
    exact h a (List.mem_cons_of_mem u ha) b (List.mem_cons_of_mem u hb)
  | case3 => rfl

/-- `cancelOpposites` leaves out terms of a sum, and sorting leaves them all. -/
theorem mem_of_mem_cancelOpposites (h : e ∈ cancelOpposites (sortTerms es)) : e ∈ es := by
  rw [← (sortTerms_perm es).mem_iff]
  exact (cancelOpposites_sublist _).subset h

theorem AddsUp.sumOf (h : AddsUp f)
    (hcomm : ∀ u ∈ es, ∀ v ∈ es, u.precedes v = false → f u + f v = f v + f u)
    (hopposite : ∀ u ∈ es, ∀ v ∈ es, u.isOpposite v = true → f u + f v = 0) :
    f (sumOf es) = (es.map f).sum := by
  rw [SymExpr.sumOf, h.ofOperands, sum_map_cancelOpposites, sum_map_sortTerms hcomm]
  intro u hu v hv
  rw [(sortTerms_perm es).mem_iff] at hu hv
  exact hopposite u hu v hv

theorem AddsUp.sumOf_le {f : SymExpr → Nat} (h : AddsUp f) (es : List SymExpr) :
    f (SymExpr.sumOf es) ≤ (es.map f).sum := by
  rw [SymExpr.sumOf, h.ofOperands, ← ((sortTerms_perm es).map f).sum_eq]
  apply ((cancelOpposites_sublist (sortTerms es)).map f).sum_le_sum
  exact fun n _ => Nat.zero_le n

/-- What holds of sums if it holds of their terms holds of a nest. -/
theorem ofOperands_of_forall {P : SymExpr → Prop} (hzero : P (lit 0))
    (hadd : ∀ l r, P l → P r → P (add l r)) (h : ∀ e ∈ es, P e) :
    P (ofOperands .add (lit 0) es) := by
  cases es with
  | nil => exact hzero
  | cons e es =>
    rw [List.forall_mem_cons] at h
    obtain ⟨he, hes⟩ := h
    rw [ofOperands]
    induction es generalizing e with
    | nil => exact he
    | cons d es ih =>
      rw [List.forall_mem_cons] at hes
      exact ih (add e d) (hadd e d he hes.1) hes.2

end Sums

section Composites

variable {g : SymExpr → SymExpr} {p : Part}

/-- The expression with each composite replaced by what `g` makes of its canonical form. -/
def mapComposites (g : SymExpr → SymExpr) : SymExpr → SymExpr
  | .lit a => .lit a
  | .sym s => .sym s
  | .neg e => .neg (mapComposites g e)
  | .bin .add l r => add (mapComposites g l) (mapComposites g r)
  | e => g e.canonicalize

theorem IsComposite.exists_bin (h : e.IsComposite) :
    ∃ op l r, e = bin op l r ∧ op ≠ .add ∧ op ≠ .sub := by
  cases e with
  | bin op l r => exact ⟨op, l, r, rfl, h⟩
  | _ => exact h.elim

theorem IsComposite.mapComposites_eq (h : e.IsComposite) :
    mapComposites g e = g e.canonicalize := by
  obtain ⟨op, l, r, rfl, hadd, _⟩ := h.exists_bin
  cases op <;> first | rfl | contradiction

theorem IsComposite.operands_eq (h : e.IsComposite) : e.operands .add = [e] := by
  obtain ⟨op, l, r, rfl, hadd, _⟩ := h.exists_bin
  exact operands_bin_ne hadd l r

theorem IsComposite.ne_neg (h : e.IsComposite) (x : SymExpr) : e ≠ neg x := by
  obtain ⟨op, l, r, rfl, _⟩ := h.exists_bin
  exact SymExpr.noConfusion

theorem IsComposite.coefficient_eq (h : e.IsComposite) (p : Part) :
    e.coefficient p = if p = .composite then 1 else 0 := by
  obtain ⟨op, l, r, rfl, hadd, _⟩ := h.exists_bin
  cases op <;> first | rfl | contradiction

theorem IsComposite.amount_eq (h : e.IsComposite) (p : Part) :
    e.amount p = if p = .composite then 1 else 0 := by
  obtain ⟨op, l, r, rfl, hadd, _⟩ := h.exists_bin
  cases op <;> first | rfl | contradiction

theorem IsComposite.composites_eq (h : e.IsComposite) :
    e.composites = FreeAddGroup.of (letter e) := by
  obtain ⟨op, l, r, rfl, hadd, _⟩ := h.exists_bin
  cases op <;> first | rfl | contradiction

theorem IsComposite.of_same (h : e.IsComposite) (hsame : Same e e') : e'.IsComposite := by
  obtain ⟨op, l, r, rfl, hadd, hsub⟩ := h.exists_bin
  cases hsame with
  | straight => exact ⟨hadd, hsub⟩
  | crossed => exact ⟨hadd, hsub⟩

theorem exists_canonicalize_bin {op : BinOp} (hadd : op ≠ .add) (hsub : op ≠ .sub)
    (l r : SymExpr) : ∃ l' r', (bin op l r).canonicalize = bin op l' r' := by
  cases op with
  | add => exact absurd rfl hadd
  | sub => exact absurd rfl hsub
  | mul =>
    rw [canonicalize_mul]
    apply exists_ofOperands_eq_bin
    rw [(sortTerms_perm _).length_eq, List.length_map]
    exact two_le_length_operands l r
  | div => exact ⟨_, _, canonicalize_div l r⟩
  | ceilDiv => exact ⟨_, _, canonicalize_ceilDiv l r⟩
  | mod => exact ⟨_, _, canonicalize_mod l r⟩

theorem IsComposite.canonicalize (h : e.IsComposite) : e.canonicalize.IsComposite := by
  obtain ⟨op, l, r, rfl, hadd, hsub⟩ := h.exists_bin
  obtain ⟨l', r', heq⟩ := exists_canonicalize_bin hadd hsub l r
  rw [heq]
  exact ⟨hadd, hsub⟩

theorem addsUp_coefficient (p : Part) : AddsUp (coefficient p) :=
  ⟨by simp [coefficient], fun _ _ => rfl⟩

theorem addsUp_amount (p : Part) : AddsUp (amount p) :=
  ⟨by simp [amount], fun _ _ => rfl⟩

theorem addsUp_composites : AddsUp composites :=
  ⟨rfl, fun _ _ => rfl⟩

theorem AddsUp.mapComposites {M : Type} [AddMonoid M] {f : SymExpr → M} (h : AddsUp f)
    (g : SymExpr → SymExpr) : AddsUp fun e => f (mapComposites g e) :=
  ⟨h.zero, fun l r => h.add (SymExpr.mapComposites g l) (SymExpr.mapComposites g r)⟩

theorem composites_of_name? {name : String} (h : e.name? = some name) :
    mapComposites g e = e ∧ e.composites = 0 := by
  induction e with
  | sym s => exact ⟨rfl, rfl⟩
  | neg e ih =>
    obtain ⟨heq, hzero⟩ := ih h
    rw [mapComposites, composites, heq, hzero, map_zero]
    exact ⟨rfl, rfl⟩
  | _ => cases h

/-- All terms precede one that is no literal and has no name. -/
theorem precedes_of_name?_eq_none (hvalue : v.value? = none) (hname : v.name? = none)
    (u : SymExpr) : u.precedes v = true := by
  unfold precedes
  split
  · rfl
  · cases hvalue
  · rw [hname]
    cases u.name? <;> rfl

theorem composites_of_not_precedes (h : u.precedes v = false) :
    mapComposites g v = v ∧ v.composites = 0 := by
  cases hvalue : v.value? with
  | some a =>
    cases v with
    | lit b => exact ⟨rfl, rfl⟩
    | _ => cases hvalue
  | none =>
    cases hname : v.name? with
    | some name => exact composites_of_name? hname
    | none =>
      rw [precedes_of_name?_eq_none hvalue hname] at h
      cases h

end Composites

end TensorIR.SymExpr
