import TensorIR.Predicate
import TensorIR.Proofs.SymExpr.DifferenceFree

/-!
What the proof oracle decides. Its verdicts are right about the differences of sides as they come to
if every operation stops at the ends of the range, hence about the sides themselves wherever this
leaves the signs of the differences alone. It does where the simplified differences fit, whether or
not the sides do.
-/

namespace TensorIR

namespace Verdict

variable {P Q : Prop} {v w : Verdict}

/-- The verdict is not wrong about a proposition. -/
def Sound (v : Verdict) (P : Prop) : Prop :=
  (v = .holds → P) ∧ (v = .fails → ¬ P)

theorem Sound.congr (h : v.Sound P) (hPQ : P ↔ Q) : v.Sound Q := by
  unfold Sound
  rw [← hPQ]
  exact h

theorem sound_holds (h : P) : Verdict.holds.Sound P :=
  ⟨fun _ => h, nofun⟩

theorem sound_fails (h : ¬ P) : Verdict.fails.Sound P :=
  ⟨nofun, fun _ => h⟩

theorem sound_unknown : Verdict.unknown.Sound P :=
  ⟨nofun, nofun⟩

theorem Sound.not (h : v.Sound P) : v.not.Sound (¬ P) := by
  cases v with
  | holds => exact sound_fails (not_not_intro (h.1 rfl))
  | fails => exact sound_holds (h.2 rfl)
  | unknown => exact sound_unknown

theorem Sound.and (h : v.Sound P) (h' : w.Sound Q) : (v.and w).Sound (P ∧ Q) := by
  cases v with
  | fails => exact sound_fails fun hPQ => h.2 rfl hPQ.1
  | holds =>
    cases w with
    | holds => exact sound_holds ⟨h.1 rfl, h'.1 rfl⟩
    | fails => exact sound_fails fun hPQ => h'.2 rfl hPQ.2
    | unknown => exact sound_unknown
  | unknown =>
    cases w with
    | holds => exact sound_unknown
    | fails => exact sound_fails fun hPQ => h'.2 rfl hPQ.2
    | unknown => exact sound_unknown

theorem Sound.or (h : v.Sound P) (h' : w.Sound Q) : (v.or w).Sound (P ∨ Q) := by
  cases v with
  | holds => exact sound_holds (.inl (h.1 rfl))
  | fails =>
    cases w with
    | holds => exact sound_holds (.inr (h'.1 rfl))
    | fails => exact sound_fails fun hPQ => hPQ.elim (h.2 rfl) (h'.2 rfl)
    | unknown => exact sound_unknown
  | unknown =>
    cases w with
    | holds => exact sound_holds (.inr (h'.1 rfl))
    | fails => exact sound_unknown
    | unknown => exact sound_unknown

theorem Sound.iff_of_sound (h : v.Sound P) : v.Sound Q ↔ v = .unknown ∨ (P ↔ Q) := by
  constructor
  · intro h'
    cases v with
    | holds => exact .inr ⟨fun _ => h'.1 rfl, fun _ => h.1 rfl⟩
    | fails => exact .inr ⟨fun hP => absurd hP (h.2 rfl), fun hQ => absurd hQ (h'.2 rfl)⟩
    | unknown => exact .inl rfl
  · intro h'
    cases h' with
    | inl hv =>
      rw [hv]
      exact sound_unknown
    | inr hPQ => exact h.congr hPQ

end Verdict

def SameSign (x y : Int) : Prop :=
  (0 < x ↔ 0 < y) ∧ (x < 0 ↔ y < 0)

instance (x y : Int) : Decidable (SameSign x y) :=
  inferInstanceAs (Decidable (_ ∧ _))

namespace Relation

/-- The relations that subtract the left side from the right one. -/
def swapsSides : Relation → Bool
  | .lt | .ge => true
  | .eq | .ne | .le | .gt => false

def difference (rel : Relation) (a b : Int) : Int :=
  if rel.swapsSides then b - a else a - b

/-- The relation between two numbers, read off their difference. -/
def HoldsOf (rel : Relation) (d : Int) : Prop :=
  if rel.swapsSides then rel.Holds 0 d else rel.Holds d 0

theorem holdsOf_difference_iff {rel : Relation} {a b : Int} :
    rel.HoldsOf (rel.difference a b) ↔ rel.Holds a b := by
  cases rel
  all_goals
    simp only [HoldsOf, difference, swapsSides, Holds, if_true, Bool.false_eq_true, if_false]
    omega

theorem holdsOf_congr {rel : Relation} {x y : Int} (h : SameSign x y) :
    rel.HoldsOf x ↔ rel.HoldsOf y := by
  unfold SameSign at h
  cases rel
  all_goals
    simp only [HoldsOf, swapsSides, Holds, if_true, Bool.false_eq_true, if_false]
    omega

def simplifiedDifference (rel : Relation) (l r : SymExpr) : SymExpr :=
  if rel.swapsSides then (SymExpr.sub r l).simplify else (SymExpr.sub l r).simplify

end Relation

namespace Predicate

variable {σ : Assignment}

def Respects (σ : Assignment) : Predicate → Prop
  | .compare _ l r => l.Respects σ ∧ r.Respects σ
  | .and p q => p.Respects σ ∧ q.Respects σ
  | .or p q => p.Respects σ ∧ q.Respects σ
  | .not p => p.Respects σ

def FitsAt (σ : Assignment) : Predicate → Prop
  | .compare _ l r => l.FitsAt σ ∧ r.FitsAt σ
  | .and p q => p.FitsAt σ ∧ q.FitsAt σ
  | .or p q => p.FitsAt σ ∧ q.FitsAt σ
  | .not p => p.FitsAt σ

/-- The meaning of a predicate whose differences stop at the ends of the range. -/
def HoldsSaturated (σ : Assignment) : Predicate → Prop
  | .compare rel l r => rel.HoldsOf ((rel.simplifiedDifference l r).saturated σ).toInt
  | .and p q => p.HoldsSaturated σ ∧ q.HoldsSaturated σ
  | .or p q => p.HoldsSaturated σ ∨ q.HoldsSaturated σ
  | .not p => ¬ p.HoldsSaturated σ

/-- No difference changes its sign by stopping at the ends of the range. -/
def SignsSurvive (σ : Assignment) : Predicate → Prop
  | .compare rel l r =>
    ∀ a b, l.eval? σ = some a → r.eval? σ = some b →
      SameSign ((rel.simplifiedDifference l r).saturated σ).toInt (rel.difference a b)
  | .and p q => p.SignsSurvive σ ∧ q.SignsSurvive σ
  | .or p q => p.SignsSurvive σ ∧ q.SignsSurvive σ
  | .not p => p.SignsSurvive σ

theorem encloses_differenceBounds {l r : SymExpr} (hl : l.Respects σ) (hr : r.Respects σ) :
    (differenceBounds l r).Encloses ((SymExpr.sub l r).simplify.saturated σ).toInt := by
  apply SymExpr.bounds_enclose_saturated
  exact (SymExpr.rewrites_simplify (SymExpr.sub l r)).respects ⟨hl, hr⟩

theorem sound_proveEq {l r : SymExpr} (hl : l.Respects σ) (hr : r.Respects σ) :
    (proveEq l r).Sound (((SymExpr.sub l r).simplify.saturated σ).toInt = 0) := by
  have henc := encloses_differenceBounds hl hr
  unfold Interval.Encloses at henc
  unfold proveEq
  simp only [← Int64.toInt_inj, Int64.lt_iff_toInt_lt, Int64.toInt_zero]
  split
  case isTrue h =>
    apply Verdict.sound_holds
    omega
  case isFalse =>
    split
    case isTrue h =>
      apply Verdict.sound_fails
      omega
    case isFalse => exact Verdict.sound_unknown

theorem sound_proveLt {l r : SymExpr} (hl : l.Respects σ) (hr : r.Respects σ) :
    (proveLt l r).Sound (0 < ((SymExpr.sub r l).simplify.saturated σ).toInt) := by
  have henc := encloses_differenceBounds hr hl
  unfold Interval.Encloses at henc
  unfold proveLt
  simp only [Int64.le_iff_toInt_le, Int64.lt_iff_toInt_lt, Int64.toInt_zero]
  split
  case isTrue h =>
    apply Verdict.sound_holds
    omega
  case isFalse =>
    split
    case isTrue h =>
      apply Verdict.sound_fails
      omega
    case isFalse => exact Verdict.sound_unknown

theorem sound_proveCompare (rel : Relation) {l r : SymExpr} (hl : l.Respects σ)
    (hr : r.Respects σ) :
    (proveCompare rel l r).Sound
      (rel.HoldsOf ((rel.simplifiedDifference l r).saturated σ).toInt) := by
  cases rel with
  | eq => exact sound_proveEq hl hr
  | ne => exact (sound_proveEq hl hr).not
  | lt => exact sound_proveLt hl hr
  | le => exact (sound_proveLt hr hl).not.congr Int.not_lt
  | gt => exact sound_proveLt hr hl
  | ge => exact (sound_proveLt hl hr).not.congr Int.not_lt

theorem sound_prove_saturated {p : Predicate} (h : p.Respects σ) :
    p.prove.Sound (p.HoldsSaturated σ) := by
  induction p with
  | compare rel l r => exact sound_proveCompare rel h.1 h.2
  | and p q ihp ihq => exact (ihp h.1).and (ihq h.2)
  | or p q ihp ihq => exact (ihp h.1).or (ihq h.2)
  | not p ih => exact (ih h).not

theorem holds_compare_iff {rel : Relation} {l r : SymExpr} {a b : Int} (ha : l.eval? σ = some a)
    (hb : r.eval? σ = some b) : (compare rel l r).Holds σ ↔ rel.Holds a b := by
  simp only [Holds, ha, hb, Option.some.injEq, exists_and_left, exists_eq_left']

theorem FitsAt.defined {p : Predicate} (h : p.FitsAt σ) : p.Defined σ := by
  induction p with
  | compare rel l r =>
    obtain ⟨a, ha⟩ := h.1.inRange
    obtain ⟨b, hb⟩ := h.2.inRange
    simp [Defined, ha, hb]
  | and p q ihp ihq => exact ⟨ihp h.1, ihq h.2⟩
  | or p q ihp ihq => exact ⟨ihp h.1, ihq h.2⟩
  | not p ih => exact ih h

theorem holdsSaturated_iff_holds_of_defined {p : Predicate} (hdef : p.Defined σ)
    (h : p.SignsSurvive σ) : p.HoldsSaturated σ ↔ p.Holds σ := by
  induction p with
  | compare rel l r =>
    obtain ⟨a, ha⟩ := Option.isSome_iff_exists.1 hdef.1
    obtain ⟨b, hb⟩ := Option.isSome_iff_exists.1 hdef.2
    rw [holds_compare_iff ha hb, ← Relation.holdsOf_difference_iff]
    exact Relation.holdsOf_congr (h _ _ ha hb)
  | and p q ihp ihq => exact and_congr (ihp hdef.1 h.1) (ihq hdef.2 h.2)
  | or p q ihp ihq => exact or_congr (ihp hdef.1 h.1) (ihq hdef.2 h.2)
  | not p ih => exact not_congr (ih hdef h)

theorem holdsSaturated_iff_holds {p : Predicate} (hfit : p.FitsAt σ) (h : p.SignsSurvive σ) :
    p.HoldsSaturated σ ↔ p.Holds σ :=
  holdsSaturated_iff_holds_of_defined hfit.defined h

section Differences

/-- Every part of the simplified differences that are decided fits; the sides need not fit. -/
def DifferencesFitAt (σ : Assignment) : Predicate → Prop
  | .compare rel l r => (rel.simplifiedDifference l r).FitsAt σ
  | .and p q => p.DifferencesFitAt σ ∧ q.DifferencesFitAt σ
  | .or p q => p.DifferencesFitAt σ ∧ q.DifferencesFitAt σ
  | .not p => p.DifferencesFitAt σ

theorem eval?_simplifiedDifference (rel : Relation) {l r : SymExpr} {a b : Int}
    (ha : l.eval? σ = some a) (hb : r.eval? σ = some b) :
    (rel.simplifiedDifference l r).eval? σ = some (rel.difference a b) := by
  unfold Relation.simplifiedDifference Relation.difference
  split
  all_goals
    apply SymExpr.eval?_simplify
    simp [SymExpr.eval?, BinOp.eval?, ha, hb]

theorem differenceFree_simplifiedDifference (rel : Relation) (l r : SymExpr) :
    (rel.simplifiedDifference l r).DifferenceFree := by
  unfold Relation.simplifiedDifference
  split
  all_goals apply SymExpr.differenceFree_simplify

theorem DifferencesFitAt.signsSurvive {p : Predicate} (h : p.DifferencesFitAt σ) :
    p.SignsSurvive σ := by
  induction p with
  | compare rel l r =>
    intro a b ha hb
    have hexact := eval?_simplifiedDifference rel ha hb
    rw [SymExpr.eval?_eq_saturated (differenceFree_simplifiedDifference rel l r) h] at hexact
    rw [Option.some.inj hexact]
    exact ⟨Iff.rfl, Iff.rfl⟩
  | and p q ihp ihq => exact ⟨ihp h.1, ihq h.2⟩
  | or p q ihp ihq => exact ⟨ihp h.1, ihq h.2⟩
  | not p ih => exact ih h

end Differences

/--
A verdict other than `unknown` is right if and only if stopping at the ends of the range leaves the
truth of the predicate alone. It does where no difference changes its sign, and none does where the
simplified differences fit.
-/
theorem sound_prove_iff {p : Predicate} (h : p.Respects σ) (hfit : p.FitsAt σ) :
    (p.prove.Sound (p.Holds σ) ↔ p.prove = .unknown ∨ (p.HoldsSaturated σ ↔ p.Holds σ)) ∧
      (p.SignsSurvive σ → p.prove.Sound (p.Holds σ)) ∧
      (p.DifferencesFitAt σ → p.SignsSurvive σ) := by
  have hsound := sound_prove_saturated h
  refine ⟨hsound.iff_of_sound, ?_, DifferencesFitAt.signsSurvive⟩
  intro hsigns
  exact hsound.congr (holdsSaturated_iff_holds hfit hsigns)

theorem sound_prove_remainder :
    let p := compare .lt (.mod (.size "n") (.lit 4)) (.lit 4)
    p.prove = .holds ∧ p.prove.Sound (p.Holds fun _ => 7) := by
  have hn : (SymExpr.size "n").InRange fun _ => 7 := ⟨7, rfl⟩
  have hfour : (SymExpr.lit 4).InRange fun _ => 7 := ⟨4, rfl⟩
  have hmod : (SymExpr.mod (.size "n") (.lit 4)).InRange fun _ => 7 := ⟨3, rfl⟩
  intro p
  have hr : p.Respects fun _ => 7 := ⟨⟨fun _ => by decide, trivial⟩, trivial⟩
  have hfit : p.FitsAt fun _ => 7 := ⟨⟨hn, hfour, hmod⟩, hfour⟩
  have hsimplified : Relation.lt.simplifiedDifference (.mod (.size "n") (.lit 4)) (.lit 4) =
      .add (.lit 4) (.neg (.mod (.size "n") (.lit 4))) := by
    decide +kernel
  have hdifference : p.DifferencesFitAt fun _ => 7 := by
    simp only [p, DifferencesFitAt, hsimplified]
    exact ⟨hfour, ⟨⟨hn, hfour, hmod⟩, -3, rfl⟩, 1, rfl⟩
  have hsound := sound_prove_iff hr hfit
  exact ⟨by decide +kernel, hsound.2.1 (hsound.2.2 hdifference)⟩

/--
The least literal and the next one are proved equal: the difference negates the least literal, and
its interval stops one short of the exact value. A literal is proved to differ from itself plus
`1 + -1`: the difference has the terms of the sum, and its partial sums stop at the largest literal.
-/
theorem prove_misjudges_differences :
    let p := compare .eq (.lit (-9223372036854775807)) (.lit Int64.minValue)
    let q := compare .eq (.add (.lit Int64.maxValue) (.add (.lit 1) (.lit (-1))))
      (.lit Int64.maxValue)
    (p.prove = .holds ∧ ∀ σ, p.Respects σ ∧ p.FitsAt σ ∧ ¬ p.Holds σ) ∧
      q.prove = .fails ∧ ∀ σ, q.Respects σ ∧ q.FitsAt σ ∧ q.Holds σ := by
  intro p q
  refine ⟨⟨by decide +kernel, fun σ => ?_⟩, by decide +kernel, fun σ => ?_⟩
  · refine ⟨⟨trivial, trivial⟩, ⟨⟨_, rfl⟩, ⟨_, rfl⟩⟩, ?_⟩
    rw [holds_compare_iff rfl rfl]
    unfold Relation.Holds
    decide
  · have hzero : (SymExpr.add (.lit 1) (.lit (-1))).FitsAt σ := ⟨⟨1, rfl⟩, ⟨-1, rfl⟩, 0, rfl⟩
    refine ⟨⟨⟨trivial, trivial, trivial⟩, trivial⟩,
      ⟨⟨⟨_, rfl⟩, hzero, Int64.maxValue, rfl⟩, ⟨_, rfl⟩⟩, ?_⟩
    rw [holds_compare_iff rfl rfl]
    unfold Relation.Holds
    decide

section Literals

variable {a b : Int64} (ha : 0 ≤ a) (hb : 0 ≤ b)
include ha hb

theorem exists_differenceBounds_lits :
    ∃ c, c.toInt = a.toInt - b.toInt ∧ differenceBounds (.lit a) (.lit b) = .exactly c := by
  rw [Int64.le_iff_toInt_le, Int64.toInt_zero] at ha hb
  have ha' := a.toInt_lt
  have hb' := b.toInt_lt
  have hneg : (Int64.ofInt (-b.toInt)).toInt = -b.toInt := by
    apply Int64.toInt_ofInt_of_le
    · omega
    · omega
  have hsub : (Int64.ofInt (a.toInt - b.toInt)).toInt = a.toInt - b.toInt := by
    apply Int64.toInt_ofInt_of_le
    · omega
    · omega
  refine ⟨_, hsub, ?_⟩
  unfold differenceBounds
  rw [SymExpr.simplify_sub_lits (Int64.neg?_eq_some_iff.2 hneg)]
  · rfl
  · rw [Int64.add?_eq_some_iff, hsub, hneg]
    omega

/-- Literals that are not negative have a difference that fits, so their order is decided. -/
theorem proveLt_lits :
    proveLt (.lit a) (.lit b) = if a < b then .holds else .fails := by
  obtain ⟨c, hc, hbounds⟩ := exists_differenceBounds_lits hb ha
  unfold proveLt
  simp only [hbounds, Interval.exactly, Int64.lt_iff_toInt_lt, Int64.le_iff_toInt_le,
    Int64.toInt_zero, hc]
  split
  case isTrue h =>
    rw [if_pos]
    omega
  case isFalse h =>
    rw [if_pos, if_neg]
    · omega
    · omega

end Literals

/--
Where both sides of each comparison have a value and the simplified differences fit, the verdicts
are right about the exact values.
-/
theorem sound_prove_of_differencesFitAt {p : Predicate} (h : p.Respects σ) (hdef : p.Defined σ)
    (hfit : p.DifferencesFitAt σ) : p.prove.Sound (p.Holds σ) := by
  apply (sound_prove_saturated h).congr
  exact holdsSaturated_iff_holds_of_defined hdef hfit.signsSurvive

theorem sound_prove_beyond_range :
    let large := SymExpr.mul (.size "n") (.lit Int64.maxValue)
    let p := not (and (compare .ge large (.add large (.lit 1)))
      (compare .eq large (.add large (.size "n"))))
    large.eval? (fun _ => 2) = some (2 ^ 64 - 2) ∧ p.prove = .holds ∧ p.Holds fun _ => 2 := by
  intro large p
  have hprove : p.prove = .holds := by decide +kernel
  have hr : p.Respects fun _ => 2 := by
    simp [p, large, Respects, SymExpr.Respects, SymExpr.size]
  have hdef : p.Defined fun _ => 2 := ⟨⟨rfl, rfl⟩, rfl, rfl⟩
  have hge : Relation.ge.simplifiedDifference large (.add large (.lit 1)) = .lit 1 := by
    decide +kernel
  have heq : Relation.eq.simplifiedDifference large (.add large (.size "n")) =
      .neg (.size "n") := by
    decide +kernel
  have hfit : p.DifferencesFitAt fun _ => 2 := by
    simp only [p, DifferencesFitAt, hge, heq]
    exact ⟨⟨1, rfl⟩, ⟨2, rfl⟩, ⟨-2, rfl⟩⟩
  refine ⟨rfl, hprove, ?_⟩
  exact (sound_prove_of_differencesFitAt hr hdef hfit).1 hprove

end Predicate

end TensorIR
