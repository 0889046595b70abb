import TensorIR.Proofs.Predicate
import TensorIR.Proofs.SymExpr.Bounds
import TensorIR.Proofs.SymExpr.MapSymbols

/-!
Assuming that a symbol is not negative. The assumption leaves simplification alone, every operation
on intervals keeps one interval within another, and a verdict that rests on an interval stands for
every interval within it. So an assumption decides more predicates and changes no decision.
-/

namespace TensorIR

namespace Interval

def Within (j i : Interval) : Prop :=
  i.lo ≤ j.lo ∧ j.hi ≤ i.hi

instance (j i : Interval) : Decidable (j.Within i) :=
  inferInstanceAs (Decidable (_ ∧ _))

variable {i j i' j' : Interval} {a b : Int64}

theorem within_of_encloses (hlo : i.Encloses j.lo.toInt) (hhi : i.Encloses j.hi.toInt) :
    j.Within i := by
  constructor
  · exact Int64.le_iff_toInt_le.2 hlo.1
  · exact Int64.le_iff_toInt_le.2 hhi.2

theorem Within.encloses_lo (h : j.Within i) (hj : j.lo ≤ j.hi) : i.Encloses j.lo.toInt := by
  constructor
  · exact Int64.le_iff_toInt_le.1 h.1
  · exact Int64.le_iff_toInt_le.1 (Int64.le_trans hj h.2)

theorem Within.encloses_hi (h : j.Within i) (hj : j.lo ≤ j.hi) : i.Encloses j.hi.toInt := by
  constructor
  · exact Int64.le_iff_toInt_le.1 (Int64.le_trans h.1 hj)
  · exact Int64.le_iff_toInt_le.1 h.2

theorem within_unbounded (j : Interval) : j.Within unbounded :=
  within_of_encloses (encloses_unbounded j.lo) (encloses_unbounded j.hi)

theorem Within.eq_exactly (h : j.Within (exactly a)) (hj : j.lo ≤ j.hi) : j = exactly a := by
  have hlo := encloses_exactly_iff.1 (h.encloses_lo hj)
  have hhi := encloses_exactly_iff.1 (h.encloses_hi hj)
  rw [Int64.toInt_inj] at hlo hhi
  cases j with
  | mk lo hi => exact congrArg₂ Interval.mk hlo hhi

theorem Encloses.min (ha : i.Encloses a.toInt) (hb : i.Encloses b.toInt) :
    i.Encloses (min a b).toInt := by
  unfold Encloses at ha hb ⊢
  rw [Int64.toInt_min]
  omega

theorem Encloses.max (ha : i.Encloses a.toInt) (hb : i.Encloses b.toInt) :
    i.Encloses (max a b).toInt := by
  unfold Encloses at ha hb ⊢
  rw [Int64.toInt_max]
  omega

section Operations

variable (hi : i'.Within i) (hi' : i'.lo ≤ i'.hi) (hj : j'.Within j) (hj' : j'.lo ≤ j'.hi)
include hi hi'

theorem Within.neg : i'.neg.Within i.neg :=
  within_of_encloses (hi.encloses_hi hi').neg (hi.encloses_lo hi').neg

include hj hj'

theorem Within.add : (i'.add j').Within (i.add j) :=
  within_of_encloses ((hi.encloses_lo hi').add (hj.encloses_lo hj'))
    ((hi.encloses_hi hi').add (hj.encloses_hi hj'))

theorem Within.mul : (i'.mul j').Within (i.mul j) := by
  have hll := (hi.encloses_lo hi').mul (hj.encloses_lo hj')
  have hlh := (hi.encloses_lo hi').mul (hj.encloses_hi hj')
  have hhl := (hi.encloses_hi hi').mul (hj.encloses_lo hj')
  have hhh := (hi.encloses_hi hi').mul (hj.encloses_hi hj')
  exact within_of_encloses ((hll.min hlh).min (hhl.min hhh)) ((hll.max hlh).max (hhl.max hhh))

omit hi hi' in
/-- An interval within a single integer is that integer. -/
theorem Within.single? {d : Int64} (h : j.single? = some d) : j'.single? = some d := by
  rw [eq_exactly_of_single? h] at hj
  rw [hj.eq_exactly hj']
  exact if_pos rfl

omit hi' in
theorem Within.quotient {round : Int64 → Int64 → Int64}
    (hmono : ∀ {a b d : Int64}, 0 < d → a.toInt ≤ b.toInt → (round a d).toInt ≤ (round b d).toInt) :
    (i'.quotient round j').Within (i.quotient round j) := by
  rw [quotient.eq_def round i j]
  split
  case h_1 d hd =>
    split
    case isTrue hpos =>
      rw [Interval.quotient, hj.single? hj' hd]
      dsimp only
      rw [if_pos hpos]
      constructor
      · exact Int64.le_iff_toInt_le.2 (hmono hpos (Int64.le_iff_toInt_le.1 hi.1))
      · exact Int64.le_iff_toInt_le.2 (hmono hpos (Int64.le_iff_toInt_le.1 hi.2))
    case isFalse => apply within_unbounded
  case h_2 => apply within_unbounded

omit hi' in
theorem Within.mod : (i'.mod j').Within (i.mod j) := by
  rw [mod.eq_def i j]
  split
  case h_1 d hd =>
    split
    case isTrue hpos =>
      rw [Interval.mod, hj.single? hj' hd]
      dsimp only
      rw [if_pos hpos]
      by_cases hsmall : 0 ≤ i.lo ∧ i.hi < d
      · -- What lies within a small dividend is small.
        have hsmall' : 0 ≤ i'.lo ∧ i'.hi < d :=
          ⟨Int64.le_trans hsmall.1 hi.1, Int64.lt_of_le_of_lt hi.2 hsmall.2⟩
        rwa [if_pos hsmall, if_pos hsmall']
      · rw [if_neg hsmall]
        split
        case isTrue hsmall' =>
          constructor
          · exact hsmall'.1
          · have hhi := Int64.lt_iff_toInt_lt.1 hsmall'.2
            rw [Int64.le_iff_toInt_le, toInt_sub_one_of_pos hpos]
            omega
        case isFalse => exact ⟨Int64.le_refl 0, Int64.le_refl (d - 1)⟩
    case isFalse => apply within_unbounded
  case h_2 => apply within_unbounded

theorem within_onIntervals (op : BinOp) :
    (op.onIntervals i' j').Within (op.onIntervals i j) := by
  cases op with
  | add => exact hi.add hi' hj hj'
  | sub =>
    have hneg : j'.neg.lo ≤ j'.neg.hi := by
      apply Int64.le_iff_toInt_le.2
      apply Int64.toInt_ofIntClamp_mono
      exact Int.neg_le_neg (Int64.le_iff_toInt_le.1 hj')
    exact hi.add hi' (hj.neg hj') hneg
  | mul => exact hi.mul hi' hj hj'
  | div => exact hi.quotient hj hj' floorDiv_mono
  | ceilDiv => exact hi.quotient hj hj' ceilDiv_mono
  | mod => exact hi.mod hj hj'

end Operations

end Interval

namespace Verdict

/-- The verdict `w` repeats `v`, unless `v` leaves the question open. -/
def Sharpens (w v : Verdict) : Prop :=
  v = .unknown ∨ w = v

variable {v w v' w' : Verdict}

theorem Sharpens.not (h : v'.Sharpens v) : v'.not.Sharpens v.not := by
  cases h with
  | inl hv => exact .inl (congrArg Verdict.not hv)
  | inr hv => exact .inr (congrArg Verdict.not hv)

theorem Sharpens.and (hv : v'.Sharpens v) (hw : w'.Sharpens w) :
    (v'.and w').Sharpens (v.and w) := by
  revert hv hw
  unfold Sharpens
  cases v <;> cases w <;> cases v' <;> cases w' <;> decide

theorem Sharpens.or (hv : v'.Sharpens v) (hw : w'.Sharpens w) :
    (v'.or w').Sharpens (v.or w) := by
  revert hv hw
  unfold Sharpens
  cases v <;> cases w <;> cases v' <;> cases w' <;> decide

end Verdict

namespace SymExpr

variable {f : Symbol → Symbol}

theorem bounds_mapSymbols_within (hf : ∀ s, s.nonneg → (f s).nonneg) (e : SymExpr) :
    (e.mapSymbols f).bounds.Within e.bounds := by
  induction e with
  | lit a => exact ⟨Int64.le_refl a, Int64.le_refl a⟩
  | sym s =>
    rw [mapSymbols, bounds, bounds]
    cases hs : s.nonneg with
    | true =>
      rw [hf s hs]
      exact ⟨Int64.le_refl _, Int64.le_refl _⟩
    | false => apply Interval.within_unbounded
  | neg e ih => exact ih.neg (bounds_lo_le_hi _)
  | bin op l r ihl ihr =>
    exact Interval.within_onIntervals ihl (bounds_lo_le_hi _) ihr (bounds_lo_le_hi _) op

end SymExpr

namespace Predicate

def mapSymbols (f : Symbol → Symbol) : Predicate → Predicate
  | .compare rel l r => .compare rel (l.mapSymbols f) (r.mapSymbols f)
  | .and p q => .and (p.mapSymbols f) (q.mapSymbols f)
  | .or p q => .or (p.mapSymbols f) (q.mapSymbols f)
  | .not p => .not (p.mapSymbols f)

variable {f : Symbol → Symbol} (hname : ∀ s, (f s).name = s.name)
  (hnonneg : ∀ s, s.nonneg → (f s).nonneg)
include hname hnonneg

theorem differenceBounds_mapSymbols_within (l r : SymExpr) :
    (differenceBounds (l.mapSymbols f) (r.mapSymbols f)).Within (differenceBounds l r) := by
  have hsub : SymExpr.sub (l.mapSymbols f) (r.mapSymbols f) = (SymExpr.sub l r).mapSymbols f := rfl
  rw [differenceBounds, hsub, SymExpr.simplify_mapSymbols hname]
  exact SymExpr.bounds_mapSymbols_within hnonneg _

theorem proveEq_mapSymbols_sharpens (l r : SymExpr) :
    (proveEq (l.mapSymbols f) (r.mapSymbols f)).Sharpens (proveEq l r) := by
  have hwithin := differenceBounds_mapSymbols_within hname hnonneg l r
  have hordered : (differenceBounds (l.mapSymbols f) (r.mapSymbols f)).lo ≤
      (differenceBounds (l.mapSymbols f) (r.mapSymbols f)).hi := SymExpr.bounds_lo_le_hi _
  unfold Interval.Within at hwithin
  unfold Verdict.Sharpens proveEq
  simp only [← Int64.toInt_inj, Int64.le_iff_toInt_le, Int64.lt_iff_toInt_lt] at hwithin hordered ⊢
  split
  case isTrue h =>
    right
    rw [if_pos]
    omega
  case isFalse =>
    split
    case isTrue h =>
      right
      rw [if_neg, if_pos]
      · omega
      · omega
    case isFalse => exact .inl rfl

theorem proveLt_mapSymbols_sharpens (l r : SymExpr) :
    (proveLt (l.mapSymbols f) (r.mapSymbols f)).Sharpens (proveLt l r) := by
  have hwithin := differenceBounds_mapSymbols_within hname hnonneg r l
  have hordered : (differenceBounds (r.mapSymbols f) (l.mapSymbols f)).lo ≤
      (differenceBounds (r.mapSymbols f) (l.mapSymbols f)).hi := SymExpr.bounds_lo_le_hi _
  unfold Interval.Within at hwithin
  unfold Verdict.Sharpens proveLt
  simp only [Int64.le_iff_toInt_le, Int64.lt_iff_toInt_lt] at hwithin hordered ⊢
  split
  case isTrue h =>
    right
    rw [if_pos]
    omega
  case isFalse =>
    split
    case isTrue h =>
      right
      rw [if_neg, if_pos]
      · omega
      · omega
    case isFalse => exact .inl rfl

theorem prove_mapSymbols_sharpens (p : Predicate) : (p.mapSymbols f).prove.Sharpens p.prove := by
  induction p with
  | compare rel l r =>
    cases rel with
    | eq => exact proveEq_mapSymbols_sharpens hname hnonneg l r
    | ne => exact (proveEq_mapSymbols_sharpens hname hnonneg l r).not
    | lt => exact proveLt_mapSymbols_sharpens hname hnonneg l r
    | le => exact (proveLt_mapSymbols_sharpens hname hnonneg r l).not
    | gt => exact proveLt_mapSymbols_sharpens hname hnonneg r l
    | ge => exact (proveLt_mapSymbols_sharpens hname hnonneg l r).not
  | and p q ihp ihq => exact ihp.and ihq
  | or p q ihp ihq => exact ihp.or ihq
  | not p ih => exact ih.not

end Predicate

/-- The symbol, now known not to be negative if its name is `x`. -/
def Symbol.assumeNonneg (x : String) (s : Symbol) : Symbol :=
  if s.name = x then { s with nonneg := true } else s

theorem Symbol.name_assumeNonneg (x : String) (s : Symbol) : (s.assumeNonneg x).name = s.name := by
  unfold assumeNonneg
  split <;> rfl

theorem Symbol.nonneg_assumeNonneg (x : String) (s : Symbol) (h : s.nonneg) :
    (s.assumeNonneg x).nonneg := by
  unfold assumeNonneg
  split
  · rfl
  · exact h

def SymExpr.assumeNonneg (x : String) : SymExpr → SymExpr :=
  mapSymbols (Symbol.assumeNonneg x)

def Predicate.assumeNonneg (x : String) : Predicate → Predicate :=
  mapSymbols (Symbol.assumeNonneg x)

/--
Assuming that a symbol is not negative changes the result of simplification in nothing but the
symbol, narrows intervals, and keeps every verdict other than `unknown`.
-/
theorem assumeNonneg_sharpens (x : String) :
    (∀ e : SymExpr, (e.assumeNonneg x).simplify = e.simplify.assumeNonneg x ∧
      (e.assumeNonneg x).bounds.Within e.bounds) ∧
    ∀ p : Predicate, p.prove ≠ .unknown → (p.assumeNonneg x).prove = p.prove := by
  have hname := Symbol.name_assumeNonneg x
  have hnonneg := Symbol.nonneg_assumeNonneg x
  constructor
  · intro e
    constructor
    · exact SymExpr.simplify_mapSymbols hname e
    · exact SymExpr.bounds_mapSymbols_within hnonneg e
  · intro p hp
    exact (Predicate.prove_mapSymbols_sharpens hname hnonneg p).resolve_left hp

theorem assumeNonneg_sharpens_remainder :
    let open_ := Predicate.compare .ge (.var "n") (.lit 0)
    let decided := Predicate.compare .lt (.mod (.var "n") (.lit 4)) (.lit 4)
    open_.prove = .unknown ∧ (open_.assumeNonneg "n").prove = .holds ∧
      decided.prove = .holds ∧ (decided.assumeNonneg "n").prove = decided.prove := by
  intro open_ decided
  have hdecided : decided.prove = .holds := by decide +kernel
  refine ⟨by decide +kernel, by decide +kernel, hdecided, ?_⟩
  apply (assumeNonneg_sharpens "n").2
  rw [hdecided]
  decide

end TensorIR
