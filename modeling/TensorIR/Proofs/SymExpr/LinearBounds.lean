import TensorIR.Proofs.SymExpr.Bounds
import TensorIR.Proofs.SymExpr.Cancellation
import TensorIR.Proofs.SymExpr.FixedPoint

/-!
Intervals of simplified linear expressions. A sum ends in a term with a wide interval, or all its
terms are literals: so its interval is zero alone only if every coefficient is zero and the
composites make up the empty word. The converse holds where all pairs of opposite terms have
cancelled.
-/

namespace TensorIR

namespace Interval

variable {i j : Interval}

/-- The interval holds more than one integer. -/
def Wide (i : Interval) : Prop :=
  i.lo ≠ i.hi

instance (i : Interval) : Decidable i.Wide :=
  inferInstanceAs (Decidable (_ ≠ _))

theorem eq_exactly_zero_iff : i = exactly 0 ↔ i.lo.toInt = 0 ∧ i.hi.toInt = 0 :=
  eq_iff_toInt

theorem Wide.ne_exactly_zero (h : i.Wide) : i ≠ exactly 0 := by
  rintro rfl
  exact h rfl

/-- A sum is zero only where it is exact, so a side that is not one integer never vanishes. -/
theorem Wide.add_ne_exactly_zero (h : i.Wide) (hi : i.lo ≤ i.hi) (hj : j.lo ≤ j.hi) :
    i.add j ≠ exactly 0 := by
  have hne : i.lo.toInt ≠ i.hi.toInt := mt Int64.toInt_inj.1 h
  rw [Int64.le_iff_toInt_le] at hi hj
  rw [Ne, eq_exactly_zero_iff, add, Int64.satAdd, Int64.satAdd, Int64.toInt_ofIntClamp_eq,
    Int64.toInt_ofIntClamp_eq]
  omega

end Interval

namespace SymExpr

variable {C : SymExpr → Prop} {t e e' l r u v : SymExpr} {p : Part} {es : List SymExpr}

section Shape

/-- A term of a sum, but no literal. -/
def Loose (e : SymExpr) : Prop :=
  e.sum? = none ∧ e.value? = none

/-- A sum of literals, a term, or a sum with a term that is no literal on one side. -/
def Resolved (e : SymExpr) : Prop :=
  (∀ p ≠ Part.literal, e.amount p = 0) ∨ Loose e ∨ ∃ l r, e = add l r ∧ (Loose l ∨ Loose r)

theorem operands_eq_of_sum? (h : e.sum? = none) : e.operands .add = [e] := by
  rcases eq_add_or_operands_eq e with ⟨l, r, rfl⟩ | hterm
  · cases h
  · exact hterm

theorem resolved_lit (a : Int64) : Resolved (lit a) :=
  .inl fun _ hp => if_neg hp

theorem Loose.resolved_foldAdd (h : Loose r) (l : SymExpr) : Resolved (foldAdd l r) := by
  unfold foldAdd
  split
  case isTrue => exact .inr (.inl h)
  case isFalse =>
    split
    case isTrue hzero =>
      rw [eq_lit_of_isLit hzero] at h
      cases h.2
    case isFalse =>
      split
      case h_1 hlits =>
        obtain ⟨a, b, c, rfl, rfl, rfl, _⟩ := exists_of_foldLits_add hlits
        cases h.2
      case h_2 =>
        split
        · exact resolved_lit 0
        · exact .inr (.inr ⟨l, r, rfl, .inr h⟩)

theorem Atom.loose (h : Atom (Rested C) u) (hvalue : u.value? = none) : Loose u :=
  ⟨sum?_eq_none h.operands_eq, hvalue⟩

theorem ofOperands_concat {op : BinOp} {unit : SymExpr} (hes : es ≠ []) (u : SymExpr) :
    ofOperands op unit (es ++ [u]) = bin op (ofOperands op unit es) u := by
  cases es with
  | nil => exact absurd rfl hes
  | cons e es =>
    rw [List.cons_append, ofOperands, List.foldl_append]
    rfl

theorem amount_fold_of_literals (h : ∀ u ∈ es, Atom (Rested C) u)
    (hlit : ∀ u ∈ es, u.part = .literal) (hp : p ≠ .literal) :
    (ofOperands .add (lit 0) es).fold.amount p = 0 := by
  have hflat : Flat (Rested C) (ofOperands .add (lit 0) es) :=
    ofOperands_of_forall (Atom.lit 0).flat (fun _ _ hl hr => flat_add_iff.2 ⟨hl, hr⟩)
      fun u hu => (h u hu).flat
  have hzero : ∀ n ∈ es.map (amount p), n = 0 := by
    rw [List.forall_mem_map]
    intro u hu
    have := (h u hu).coefficient_cases hp
    rw [hlit u hu] at this
    exact (this.resolve_right fun h => hp h.1.symm).2.2
  have hle := hflat.fold.2.amount_le p
  rw [(addsUp_amount p).ofOperands, List.sum_eq_zero hzero] at hle
  exact Nat.le_zero.1 hle

/-- The last term decides: sorting brings the literals to the front. -/
theorem resolved_fold_ofOperands (h : ∀ u ∈ es, Atom (Rested C) u)
    (hpairwise : es.Pairwise fun u v => u.part.Before v.part) :
    Resolved (ofOperands .add (lit 0) es).fold := by
  rcases List.eq_nil_or_concat es with rfl | ⟨init, u, rfl⟩
  · exact resolved_lit 0
  rw [List.concat_eq_append] at h hpairwise ⊢
  have hu := h u (by simp)
  cases hvalue : u.value? with
  | none =>
    have hloose := hu.loose hvalue
    cases init with
    | nil =>
      rw [List.nil_append, ofOperands, List.foldl_nil, hu.fold_eq]
      exact .inr (.inl hloose)
    | cons d init =>
      rw [ofOperands_concat (List.cons_ne_nil d init), fold, hu.fold_eq]
      exact hloose.resolved_foldAdd _
  | some a =>
    left
    intro p hp
    apply amount_fold_of_literals h _ hp
    have hlast : u.part = .literal := by
      cases u with
      | lit b => rfl
      | _ => cases hvalue
    rw [List.pairwise_append] at hpairwise
    rw [List.forall_mem_append, List.forall_mem_singleton]
    refine ⟨?_, hlast⟩
    intro v hv
    have hbefore := hpairwise.2.2 v hv u (by simp)
    rw [hlast] at hbefore
    exact hbefore.eq_literal

theorem Flat.resolved_simplifyRound (h : Flat (Rested C) e) : Resolved e.simplifyRound := by
  rw [SymExpr.simplifyRound, h.canonicalize_eq]
  apply resolved_fold_ofOperands
  · intro u hu
    exact h u (mem_of_mem_cancelOpposites hu)
  · exact (ordered_sortTerms _).pairwise.sublist (cancelOpposites_sublist _)

theorem Flat.resolved_iterate (h : Flat (Rested C) e) (n : Nat) :
    Resolved (SymExpr.simplifyRound^[n + 1] e) := by
  induction n generalizing e with
  | zero => exact h.resolved_simplifyRound
  | succ n ih => exact ih h.simplifyRound.1

end Shape

section Bounds

/-- Neither the interval of the term nor that of its negation is a single integer, whatever is known
of its symbols. -/
def Broad (t : SymExpr) : Prop :=
  ∀ u : SymExpr, u.same t = true → u.bounds.Wide ∧ u.bounds.neg.Wide

theorem broad_sym (s : Symbol) : (sym s).Broad := by
  intro u h
  cases same_iff_relation.1 h with
  | @sym s' _ _ =>
    rw [bounds]
    split
    · decide
    · decide

theorem bounds_add_ne (h : l.bounds.Wide ∨ r.bounds.Wide) : (add l r).bounds ≠ .exactly 0 := by
  rw [bounds, BinOp.onIntervals]
  rcases h with h | h
  · exact h.add_ne_exactly_zero (bounds_lo_le_hi l) (bounds_lo_le_hi r)
  · rw [Interval.add_comm]
    exact h.add_ne_exactly_zero (bounds_lo_le_hi r) (bounds_lo_le_hi l)

section Wide

variable (hC : ∀ t, C t → t.Broad)
include hC

theorem Base.broad (h : Base (Rested C) u) : u.Broad := by
  cases h with
  | sym s => exact broad_sym s
  | composite h => exact hC u h.rested.kind

theorem Atom.wide_of_same (h : Atom (Rested C) u) (hloose : Loose u) (hsame : Same e u) :
    e.bounds.Wide := by
  cases h with
  | lit a => cases hloose.2
  | base h => exact (h.broad hC e (same_of_relation hsame)).1
  | neg h =>
    cases hsame with
    | neg hsame => exact (h.broad hC _ (same_of_relation hsame)).2

theorem Loose.wide_of_same (h : Loose u) (hflat : Flat (Rested C) u) (hsame : Same e u) :
    e.bounds.Wide :=
  (hflat.atom_of_operands (operands_eq_of_sum? h.1)).wide_of_same hC h hsame

/-- What is no sum of literals has an interval other than zero. -/
theorem Resolved.bounds_ne (h : Resolved e') (hflat : Flat (Rested C) e') (hsame : Same e e')
    (hp : p ≠ .literal) (hne : e'.amount p ≠ 0) : e.bounds ≠ .exactly 0 := by
  rcases h with hzero | hloose | ⟨l, r, rfl, hloose⟩
  · exact absurd (hzero p hp) hne
  · exact (hloose.wide_of_same hC hflat hsame).ne_exactly_zero
  · rw [flat_add_iff] at hflat
    cases hsame with
    | straight _ hl hr =>
      exact bounds_add_ne
        (hloose.imp (·.wide_of_same hC hflat.1 hl) (·.wide_of_same hC hflat.2 hr))
    | crossed _ hl hr =>
      exact bounds_add_ne
        (hloose.symm.imp (·.wide_of_same hC hflat.2 hl) (·.wide_of_same hC hflat.1 hr))

end Wide

theorem natAbs_coefficient_le (p : Part) (e : SymExpr) : (e.coefficient p).natAbs ≤ e.amount p := by
  induction e with
  | lit a | sym s =>
    simp only [coefficient, amount]
    split <;> simp
  | neg e ih => rwa [coefficient, amount, Int.natAbs_neg]
  | bin op l r ihl ihr =>
    cases op with
    | add =>
      simp only [coefficient, amount]
      omega
    | _ =>
      simp only [coefficient, amount]
      split <;> simp

/--
The sum `c` that is left of literals with the sum `n` and the given sum of absolute values: the
exact one, or it went out of range and the literals that remain cannot bring either back to zero.
-/
def ClampedSum (amount : Nat) (n c : Int) : Prop :=
  c = n ∨ 2 ^ 64 - 2 - amount < c ∧ 2 ^ 64 - 1 - amount < n ∨
    2 ^ 64 - 2 - amount < -c ∧ 2 ^ 64 - 1 - amount < -n

theorem ClampedSum.add {m n : Nat} {x y : Int} {a b : Int64} (ha : ClampedSum m x a.toInt)
    (hb : ClampedSum n y b.toInt) (hx : x.natAbs ≤ m) (hy : y.natAbs ≤ n)
    (hle : m + n ≤ 2 ^ 64 - 2) : ClampedSum (m + n) (x + y) (a.satAdd b).toInt := by
  unfold ClampedSum at *
  rw [Int64.satAdd, Int64.toInt_ofIntClamp_eq]
  omega

theorem Atom.eq_lit (h : Atom (Rested C) u) (hlit : ∀ p ≠ Part.literal, u.amount p = 0) :
    ∃ a, u = SymExpr.lit a := by
  have hbase {v : SymExpr} (h : Base (Rested C) v) : v.part ≠ .literal ∧ v.amount v.part = 1 :=
    ⟨h.part_ne_literal, (h.amount_eq _).trans (if_pos rfl)⟩
  cases h with
  | lit a => exact ⟨a, rfl⟩
  | base h | neg h =>
    have hone := (hbase h).2
    exact absurd (hone.symm.trans (hlit _ (hbase h).1)) Nat.one_ne_zero

/-- Sums of literals that differ in their order only have the same interval. -/
theorem bounds_eq_of_same {e e' : SymExpr} (hsame : Same e e') (hflat : Flat (Rested C) e')
    (hlit : ∀ p ≠ Part.literal, e'.amount p = 0) : e.bounds = e'.bounds := by
  rcases eq_add_or_operands_eq e' with ⟨l, r, rfl⟩ | hterm
  · rw [flat_add_iff] at hflat
    simp only [amount, Nat.add_eq_zero_iff] at hlit
    have hl {d : SymExpr} (h : Same d l) : d.bounds = l.bounds :=
      bounds_eq_of_same h hflat.1 fun p hp => (hlit p hp).1
    have hr {d : SymExpr} (h : Same d r) : d.bounds = r.bounds :=
      bounds_eq_of_same h hflat.2 fun p hp => (hlit p hp).2
    cases hsame with
    | straight _ hsl hsr => rw [bounds, bounds, hl hsl, hr hsr]
    | crossed _ hsl hsr =>
      rw [bounds, bounds, hr hsl, hl hsr]
      apply Interval.add_comm
  · obtain ⟨a, rfl⟩ := (hflat.atom_of_operands hterm).eq_lit hlit
    rw [eq_lit_of_same (same_of_relation hsame)]
termination_by sizeOf e'

theorem exists_bounds_eq_exactly {e : SymExpr} (hflat : Flat (Rested C) e)
    (hlit : ∀ p ≠ Part.literal, e.amount p = 0) (hle : e.amount .literal ≤ 2 ^ 64 - 2) :
    ∃ c, e.bounds = .exactly c ∧
      ClampedSum (e.amount .literal) (e.coefficient .literal) c.toInt := by
  rcases eq_add_or_operands_eq e with ⟨l, r, rfl⟩ | hterm
  · rw [flat_add_iff] at hflat
    simp only [amount, Nat.add_eq_zero_iff] at hlit hle
    obtain ⟨a, ha, hclampeda⟩ :=
      exists_bounds_eq_exactly hflat.1 (fun p hp => (hlit p hp).1) (by omega)
    obtain ⟨b, hb, hclampedb⟩ :=
      exists_bounds_eq_exactly hflat.2 (fun p hp => (hlit p hp).2) (by omega)
    refine ⟨a.satAdd b, ?_, ?_⟩
    · rw [bounds, ha, hb]
      rfl
    · exact hclampeda.add hclampedb (natAbs_coefficient_le _ l) (natAbs_coefficient_le _ r) hle
  · obtain ⟨a, rfl⟩ := (hflat.atom_of_operands hterm).eq_lit hlit
    exact ⟨a, rfl, .inl (if_pos rfl).symm⟩
termination_by sizeOf e

theorem bounds_eq_exactly_zero_iff (hsame : Same e e') (hflat : Flat (Rested C) e')
    (hlit : ∀ p ≠ Part.literal, e'.amount p = 0) (hle : e'.amount .literal ≤ 2 ^ 64 - 2) :
    e.bounds = .exactly 0 ↔ e'.coefficient .literal = 0 := by
  obtain ⟨c, hc, hclamped⟩ := exists_bounds_eq_exactly hflat hlit hle
  have hzero : e.bounds = .exactly 0 ↔ c.toInt = 0 := by
    rw [bounds_eq_of_same hsame hflat hlit, hc, Interval.eq_exactly_zero_iff]
    exact and_self_iff
  have hcoefficient : c.toInt = 0 ↔ e'.coefficient .literal = 0 := by
    unfold ClampedSum at hclamped
    omega
  exact hzero.trans hcoefficient

/-- The interval is zero only if nothing is left, however many terms do not cancel. -/
theorem Resolved.eq_zero_of_bounds (h : Resolved e') (hC : ∀ t, C t → t.Broad)
    (hflat : Flat (Rested C) e') (hsame : Same e e') (hle : e'.amount .literal ≤ 2 ^ 64 - 2)
    (hzero : e.bounds = .exactly 0) : (∀ p, e'.coefficient p = 0) ∧ e'.composites = 0 := by
  have hlit (p : Part) (hp : p ≠ .literal) : e'.amount p = 0 := by
    by_contra hne
    exact h.bounds_ne hC hflat hsame hp hne hzero
  refine ⟨?_, composites_eq_zero (hlit .composite Part.noConfusion)⟩
  intro p
  by_cases hp : p = .literal
  · rw [hp]
    exact (bounds_eq_exactly_zero_iff hsame hflat hlit hle).1 hzero
  · have := natAbs_coefficient_le p e'
    have := hlit p hp
    omega

/-- Where all pairs of opposite terms have cancelled, nothing is left of a sum that is zero. -/
theorem Spread.bounds_eq_zero (h : Spread 0 e') (hflat : Flat (Rested C) e') (hsame : Same e e')
    (hle : e'.amount .literal ≤ 2 ^ 64 - 2) (hcoefficient : ∀ p, e'.coefficient p = 0)
    (hword : e'.composites = 0) : e.bounds = .exactly 0 := by
  have hlit (p : Part) (hp : p ≠ .literal) : e'.amount p = 0 := by
    cases p with
    | literal => exact absurd rfl hp
    | composite => exact Nat.le_zero.1 (h.composite hword)
    | symbol name =>
      have := h.symbol name
      have := hcoefficient (.symbol name)
      omega
  exact (bounds_eq_exactly_zero_iff hsame hflat hlit hle).2 (hcoefficient .literal)

end Bounds

end SymExpr

end TensorIR
