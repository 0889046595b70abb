import TensorIR.Proofs.Interval

/-!
Intervals of expressions. They enclose what an expression comes to if its every operation stops at
the ends of the range, and the exact values of expressions whose parts fit, but for differences that
subtract the least literal.
-/

namespace TensorIR

namespace Interval

def quotient? (round : Int64 → Int64 → Option Int64) (i j : Interval) : Option Interval :=
  match j.single? with
  | some d =>
    if 0 < d then do
      return ⟨← round i.lo d, ← round i.hi d⟩
    else
      some unbounded
  | none => some unbounded

def mod? (i j : Interval) : Option Interval :=
  match j.single? with
  | some d =>
    if 0 < d then
      if 0 ≤ i.lo ∧ i.hi < d then some i else (d.sub? 1).map (⟨0, ·⟩)
    else
      some unbounded
  | none => some unbounded

theorem quotient?_eq_some {round : Int64 → Int64 → Int64} {round? : Int64 → Int64 → Option Int64}
    (h : ∀ {a d : Int64}, a.canDivide d = true → round? a d = some (round a d)) (i j : Interval) :
    i.quotient? round? j = some (i.quotient round j) := by
  unfold quotient? quotient
  cases j.single? with
  | none => rfl
  | some d =>
    dsimp only
    split
    case isTrue hd =>
      rw [h (Int64.canDivide_of_pos i.lo hd), h (Int64.canDivide_of_pos i.hi hd)]
      rfl
    case isFalse => rfl

theorem mod?_eq_some (i j : Interval) : i.mod? j = some (i.mod j) := by
  unfold mod? mod
  cases j.single? with
  | none => rfl
  | some d =>
    dsimp only
    split
    case isTrue hd =>
      split
      · rfl
      · have hsub : d.sub? 1 = some (d - 1) := by
          rw [Int64.sub?_eq_some_iff, toInt_sub_one_of_pos hd, Int64.toInt_one]
        rw [hsub]
        rfl
    case isFalse => rfl

end Interval

/--
`onIntervals` with steps that fail where they leave the range or divide by zero. Sums and products
stop at the ends of the range and do not fail.
-/
def BinOp.onIntervals? : BinOp → Interval → Interval → Option Interval
  | .add, i, j => some (i.add j)
  | .sub, i, j => some (i.add j.neg)
  | .mul, i, j => some (i.mul j)
  | .div, i, j => i.quotient? Int64.floorDivSteps? j
  | .ceilDiv, i, j => i.quotient? Int64.ceilDivSteps? j
  | .mod, i, j => i.mod? j

theorem BinOp.onIntervals?_eq_some (op : BinOp) (i j : Interval) :
    op.onIntervals? i j = some (op.onIntervals i j) := by
  cases op with
  | add => rfl
  | sub => rfl
  | mul => rfl
  | div => exact Interval.quotient?_eq_some Int64.floorDivSteps?_eq_some i j
  | ceilDiv => exact Interval.quotient?_eq_some Int64.ceilDivSteps?_eq_some i j
  | mod => exact Interval.mod?_eq_some i j

namespace SymExpr

/-- `bounds`, failing where a step of the computation would fail. -/
def bounds? : SymExpr → Option Interval
  | .lit a => some (.exactly a)
  | .sym s => some (if s.nonneg then .nonneg else .unbounded)
  | .neg e => e.bounds?.map Interval.neg
  | .bin op l r => do op.onIntervals? (← l.bounds?) (← r.bounds?)

theorem bounds?_eq_some (e : SymExpr) : e.bounds? = some e.bounds := by
  induction e with
  | lit a => rfl
  | sym s => rfl
  | neg e ih =>
    rw [bounds?, ih]
    rfl
  | bin op l r ihl ihr =>
    rw [bounds?, ihl, ihr]
    exact BinOp.onIntervals?_eq_some op l.bounds r.bounds

/-- The value of an expression whose every operation stops at the ends of the range. -/
def saturated (σ : Assignment) : SymExpr → Int64
  | .lit a => a
  | .sym s => Int64.ofIntClamp (σ s.name)
  | .neg e => (e.saturated σ).satNeg
  | .bin op l r => op.saturate (l.saturated σ) (r.saturated σ)

variable {σ : Assignment}

theorem bounds_enclose_saturated {e : SymExpr} (h : e.Respects σ) :
    e.bounds.Encloses (e.saturated σ).toInt := by
  induction e with
  | lit a => exact Interval.encloses_exactly_iff.2 rfl
  | sym s =>
    unfold bounds saturated
    split
    case isTrue hs => exact Interval.encloses_nonneg (h hs)
    case isFalse => apply Interval.encloses_unbounded
  | neg e ih => exact (ih h).neg
  | bin op l r ihl ihr => exact Interval.encloses_onIntervals op (ihl h.1) (ihr h.2)

theorem bounds_lo_le_hi (e : SymExpr) : e.bounds.lo ≤ e.bounds.hi := by
  -- Zeros are an assignment that respects every expression, so the interval encloses something.
  have hzero : e.Respects fun _ => 0 := by
    induction e with
    | lit a => trivial
    | sym s => exact fun _ => Int.le_refl 0
    | neg e ih => exact ih
    | bin op l r ihl ihr => exact ⟨ihl, ihr⟩
  have h := bounds_enclose_saturated hzero
  rw [Int64.le_iff_toInt_le]
  exact Int.le_trans h.1 h.2

def Enclosed (σ : Assignment) (e : SymExpr) : Prop :=
  ∃ v, e.eval? σ = some v ∧ e.bounds.Encloses v

def EnclosedAt (σ : Assignment) : SymExpr → Prop
  | .lit a => (lit a).Enclosed σ
  | .sym s => (sym s).Enclosed σ
  | .neg e => e.EnclosedAt σ ∧ (neg e).Enclosed σ
  | .bin op l r => l.EnclosedAt σ ∧ r.EnclosedAt σ ∧ (bin op l r).Enclosed σ

/-- No part of the expression subtracts the least literal from the negative end of an interval. -/
def SafeAt (σ : Assignment) : SymExpr → Prop
  | .lit _ => True
  | .sym _ => True
  | .neg e => e.SafeAt σ
  | .bin op l r =>
    l.SafeAt σ ∧ r.SafeAt σ ∧
      (op = .sub → r.eval? σ = some Int64.minValue.toInt →
        l.eval? σ = some l.bounds.hi.toInt → 0 ≤ l.bounds.hi)

theorem FitsAt.inRange {e : SymExpr} (h : e.FitsAt σ) : e.InRange σ := by
  cases e with
  | lit a => exact h
  | sym s => exact h
  | neg e => exact h.2
  | bin op l r => exact h.2.2

theorem EnclosedAt.enclosed {e : SymExpr} (h : e.EnclosedAt σ) : e.Enclosed σ := by
  cases e with
  | lit a => exact h
  | sym s => exact h
  | neg e => exact h.2
  | bin op l r => exact h.2.2

theorem Enclosed.encloses {e : SymExpr} {v : Int} (h : e.Enclosed σ) (hv : e.eval? σ = some v) :
    e.bounds.Encloses v := by
  obtain ⟨w, hw, henc⟩ := h
  rw [hw, Option.some.injEq] at hv
  rwa [← hv]

theorem enclosed_sym {s : Symbol} (hr : (sym s).Respects σ) (h : (sym s).InRange σ) :
    (sym s).Enclosed σ := by
  obtain ⟨a, ha⟩ := h
  have henc := bounds_enclose_saturated hr
  rw [eval?, Option.some.injEq] at ha
  rw [saturated, ha, Int64.ofIntClamp_toInt] at henc
  refine ⟨σ s.name, rfl, ?_⟩
  rwa [ha]

theorem enclosed_neg {e : SymExpr} (h : e.Enclosed σ) (he : e.InRange σ)
    (hneg : (neg e).InRange σ) : (neg e).Enclosed σ := by
  obtain ⟨a, ha⟩ := he
  obtain ⟨c, hc⟩ := hneg
  obtain ⟨v, hv, hvc⟩ := eval?_neg_eq_some_iff.1 hc
  rw [ha, Option.some.injEq] at hv
  rw [← hv] at hvc
  have henc := (h.encloses ha).neg
  rw [Int64.satNeg, hvc, Int64.ofIntClamp_toInt] at henc
  exact ⟨c.toInt, hc, henc⟩

theorem enclosed_bin_iff {op : BinOp} {l r : SymExpr} (hl : l.Enclosed σ) (hr : r.Enclosed σ)
    (hl' : l.InRange σ) (hr' : r.InRange σ) (h : (bin op l r).InRange σ) :
    (bin op l r).Enclosed σ ↔
      (op = .sub → r.eval? σ = some Int64.minValue.toInt →
        l.eval? σ = some l.bounds.hi.toInt → 0 ≤ l.bounds.hi) := by
  -- Where both sides are enclosed, what is left to decide is a difference.
  obtain ⟨a, ha⟩ := hl'
  obtain ⟨b, hb⟩ := hr'
  obtain ⟨c, hc⟩ := h
  have henca := hl.encloses ha
  have hencb := hr.encloses hb
  have hop : op.eval? a.toInt b.toInt = some c.toInt := by
    simpa only [eval?, ha, hb, Option.bind_eq_bind, Option.bind_some] using hc
  have hencloses : (bin op l r).Enclosed σ ↔
      (op.onIntervals l.bounds r.bounds).Encloses c.toInt := by
    constructor
    · intro henc
      exact henc.encloses hc
    · intro henc
      exact ⟨c.toInt, hc, henc⟩
  rw [hencloses, ha, hb]
  simp only [Option.some.injEq, Int64.toInt_inj]
  by_cases hsub : op = .sub
  · subst hsub
    simp only [BinOp.eval?, Option.some.injEq] at hop
    simp only [forall_const]
    exact Interval.encloses_sub_iff henca hencb hop.symm
  · have henc := Interval.encloses_onIntervals op henca hencb
    rw [Interval.saturate_eq_of_eval? hsub hop] at henc
    constructor
    · intro _ h
      exact absurd h hsub
    · intro _
      exact henc

theorem enclosedAt_iff_safeAt {e : SymExpr} (h : e.Respects σ) (hfit : e.FitsAt σ) :
    e.EnclosedAt σ ↔ e.SafeAt σ := by
  induction e with
  | lit a =>
    have henc : (lit a).Enclosed σ := ⟨a.toInt, rfl, Interval.encloses_exactly_iff.2 rfl⟩
    constructor
    · intro _
      trivial
    · intro _
      exact henc
  | sym s =>
    constructor
    · intro _
      trivial
    · intro _
      exact enclosed_sym h hfit
  | neg e ih =>
    constructor
    · intro henc
      exact (ih h hfit.1).1 henc.1
    · intro hsafe
      have henc := (ih h hfit.1).2 hsafe
      exact ⟨henc, enclosed_neg henc.enclosed hfit.1.inRange hfit.2⟩
  | bin op l r ihl ihr =>
    obtain ⟨hfl, hfr, hfe⟩ := hfit
    constructor
    · intro ⟨hl, hr, henc⟩
      refine ⟨(ihl h.1 hfl).1 hl, (ihr h.2 hfr).1 hr, ?_⟩
      exact (enclosed_bin_iff hl.enclosed hr.enclosed hfl.inRange hfr.inRange hfe).1 henc
    · intro ⟨hl, hr, hsafe⟩
      have hencl := (ihl h.1 hfl).2 hl
      have hencr := (ihr h.2 hfr).2 hr
      refine ⟨hencl, hencr, ?_⟩
      exact (enclosed_bin_iff hencl.enclosed hencr.enclosed hfl.inRange hfr.inRange hfe).2 hsafe

/--
The computation of an interval never fails and its ends are in order. At an assignment where all
parts of the expression fit, the interval encloses the value if the differences are safe, and they
are safe if and only if the parts are enclosed.
-/
theorem bounds_exact (e : SymExpr) :
    e.bounds? = some e.bounds ∧ e.bounds.lo ≤ e.bounds.hi ∧
      ∀ σ, e.Respects σ → e.FitsAt σ →
        (e.SafeAt σ → e.Enclosed σ) ∧ (e.EnclosedAt σ ↔ e.SafeAt σ) := by
  refine ⟨bounds?_eq_some e, bounds_lo_le_hi e, ?_⟩
  intro σ hr hfit
  have hiff := enclosedAt_iff_safeAt hr hfit
  constructor
  · intro hsafe
    exact (hiff.2 hsafe).enclosed
  · exact hiff

theorem bounds_exact_remainder :
    (mod (size "n") (lit 4)).Enclosed fun _ => 7 := by
  have hn : (size "n").InRange fun _ => 7 := ⟨7, rfl⟩
  have hfour : (lit 4).InRange fun _ => 7 := ⟨4, rfl⟩
  have hmod : (mod (size "n") (lit 4)).InRange fun _ => 7 := ⟨3, rfl⟩
  have hr : (mod (size "n") (lit 4)).Respects fun _ => 7 := ⟨fun _ => by decide, trivial⟩
  apply ((bounds_exact _).2.2 _ hr ⟨hn, hfour, hmod⟩).1
  exact ⟨trivial, trivial, fun h => by cases h⟩

theorem bounds_miss_difference :
    let e := sub (lit (-1)) (lit Int64.minValue)
    (∀ σ, e.Respects σ ∧ e.FitsAt σ ∧ e.eval? σ = some Int64.maxValue.toInt) ∧
      e.bounds.hi < Int64.maxValue := by
  -- The least literal has no negation, so its difference with `-1` lies above the interval.
  constructor
  · intro σ
    have hl : (lit (-1)).InRange σ := ⟨-1, rfl⟩
    have hr : (lit Int64.minValue).InRange σ := ⟨Int64.minValue, rfl⟩
    exact ⟨⟨trivial, trivial⟩, ⟨hl, hr, Int64.maxValue, rfl⟩, rfl⟩
  · decide

end SymExpr

end TensorIR
