import TensorIR.Predicate
import TensorIR.Proofs.SymExpr.Bounds
import TensorIR.Proofs.SymExpr.Rounds

/-!
Differences that compare sizes. A size is a literal or a symbol that is not negative. The difference
of two of them, also of one and a multiple of the other, is settled in one round of simplification,
and its interval is the one that it had before, but that a symbol less itself is zero.
-/

namespace TensorIR

namespace Interval

variable {i j : Interval}

theorem mul_comm (i j : Interval) : i.mul j = j.mul i := by
  rw [eq_iff_toInt]
  simp only [Interval.mul, Int64.satMul, Int64.toInt_min, Int64.toInt_max, Int.mul_comm]
  omega

theorem exactly_mul_exactly (a b : Int64) :
    (exactly a).mul (exactly b) = exactly (a.satMul b) := by
  rw [eq_iff_toInt]
  simp only [Interval.mul, exactly, Int64.toInt_min, Int64.toInt_max]
  omega

theorem exactly_zero_add (i : Interval) : (exactly 0).add i = i := by
  simp [Interval.add, Int64.satAdd, exactly]

theorem exactly_zero_mul (i : Interval) : (exactly 0).mul i = exactly 0 := by
  have hzero : Int64.ofIntClamp 0 = 0 := rfl
  rw [eq_iff_toInt]
  simp only [Interval.mul, Int64.satMul, exactly, Int64.toInt_zero, Int.zero_mul, hzero,
    Int64.toInt_min, Int64.toInt_max]
  omega

theorem exactly_one_mul (h : i.lo ≤ i.hi) : (exactly 1).mul i = i := by
  rw [Int64.le_iff_toInt_le] at h
  rw [eq_iff_toInt]
  simp only [Interval.mul, Int64.satMul, exactly, Int64.toInt_one, Int.one_mul,
    Int64.ofIntClamp_toInt, Int64.toInt_min, Int64.toInt_max]
  omega

end Interval

namespace SymExpr

section Folding

theorem bounds_of_foldLits {op : BinOp} (hop : op = .add ∨ op = .mul) {l r e : SymExpr}
    (h : foldLits op l r = some e) : e.bounds = (bin op l r).bounds := by
  unfold foldLits at h
  split at h
  · rw [Option.map_eq_some_iff] at h
    obtain ⟨c, hc, rfl⟩ := h
    rcases hop with rfl | rfl
    · have hsum := Int64.add?_eq_some_iff.1 hc
      simp only [bounds, BinOp.onIntervals, Interval.exactly, Interval.add, Int64.satAdd, ← hsum,
        Int64.ofIntClamp_toInt]
    · have hproduct := Int64.mul?_eq_some_iff.1 hc
      rw [Interval.eq_iff_toInt]
      simp only [bounds, BinOp.onIntervals, Interval.exactly, Interval.mul, Int64.satMul,
        ← hproduct, Int64.ofIntClamp_toInt, Int64.toInt_min, Int64.toInt_max]
      omega
  · cases h

theorem bounds_foldNeg (e : SymExpr) : (foldNeg e).bounds = (neg e).bounds := by
  unfold foldNeg
  split
  · split
    · next b h =>
      rw [Int64.neg?_eq_some_iff] at h
      change Interval.exactly b = (Interval.exactly _).neg
      simp only [Interval.exactly, Interval.neg, Int64.satNeg, ← h, Int64.ofIntClamp_toInt]
    · rfl
  · rfl

theorem bounds_foldMul (l r : SymExpr) : (foldMul l r).bounds = (mul l r).bounds := by
  unfold foldMul
  split
  case isTrue h =>
    rw [Bool.or_eq_true] at h
    cases h with
    | inl h =>
      rw [eq_lit_of_isLit h]
      exact (Interval.exactly_zero_mul r.bounds).symm
    | inr h =>
      rw [eq_lit_of_isLit h]
      exact ((Interval.mul_comm _ _).trans (Interval.exactly_zero_mul l.bounds)).symm
  case isFalse =>
    split
    case isTrue h =>
      rw [eq_lit_of_isLit h]
      exact (Interval.exactly_one_mul (bounds_lo_le_hi r)).symm
    case isFalse =>
      split
      case isTrue h =>
        rw [eq_lit_of_isLit h]
        exact ((Interval.mul_comm _ _).trans (Interval.exactly_one_mul (bounds_lo_le_hi l))).symm
      case isFalse =>
        cases h : foldLits .mul l r with
        | none => rfl
        | some e => exact bounds_of_foldLits (.inr rfl) h

/-- A folded sum keeps its interval, unless it is a term less itself. -/
theorem bounds_foldAdd (l r : SymExpr) :
    (foldAdd l r).bounds = (add l r).bounds ∨
      isOpposite.negates r l = true ∧ foldAdd l r = lit 0 := by
  unfold foldAdd
  split
  case isTrue h =>
    rw [eq_lit_of_isLit h]
    exact .inl (Interval.exactly_zero_add r.bounds).symm
  case isFalse =>
    split
    case isTrue h =>
      rw [eq_lit_of_isLit h]
      exact .inl ((Interval.add_comm _ _).trans (Interval.exactly_zero_add l.bounds)).symm
    case isFalse =>
      split
      case h_1 h => exact .inl (bounds_of_foldLits (.inl rfl) h)
      case h_2 =>
        split
        case isTrue h => exact .inr ⟨h, rfl⟩
        case isFalse => exact .inl rfl

end Folding

section Sizes

/-- A literal that is not negative, or a symbol that is known not to be. -/
inductive IsSize : SymExpr → Prop where
  | lit {a : Int64} (h : 0 ≤ a) : IsSize (lit a)
  | sym {s : Symbol} (h : s.nonneg = true) : IsSize (sym s)

variable {d k : SymExpr} {g : Int64}

theorem IsSize.isTerm (h : k.IsSize) : k.IsTerm := by
  cases h with
  | lit _ => apply isTerm_lit
  | sym _ => apply isTerm_sym

theorem IsSize.ne_neg (h : k.IsSize) (x : SymExpr) : k ≠ neg x := by
  cases h with
  | lit _ => exact nofun
  | sym _ => exact nofun

theorem IsSize.negates_eq_false (h : k.IsSize) (e : SymExpr) :
    isOpposite.negates k e = false := by
  cases h with
  | lit _ => rfl
  | sym _ => rfl

section Term

variable {c : SymExpr} (hd : d.IsTerm) (hc : c.IsTerm) (hneg : ∀ x, c ≠ neg x)
include hd hc hneg

/-- The difference of two terms is a folded sum, unless they cancel. -/
theorem bounds_simplify_sub :
    (sub d c).simplify.bounds = (sub d c).bounds ∨
      d.isOpposite (foldNeg c) = true ∧ (sub d c).simplify = lit 0 := by
  have hv := hc.foldNeg hneg
  have hcanonicalize : (sub d c).canonicalize = sumOf [d, foldNeg c] := by
    rw [canonicalize_sub, hd.canonicalize_eq, hc.canonicalize_eq,
      canonicalize_add_terms hd.operands_eq rfl, hd.canonicalize_eq, hc.canonicalize_neg hneg]
  have hround : (sub d c).simplifyRound = if d.isOpposite (foldNeg c) then lit 0
      else if d.precedes (foldNeg c) then foldAdd d (foldNeg c) else foldAdd (foldNeg c) d := by
    rw [simplifyRound, hcanonicalize, fold_sumOf_pair, hd.fold_eq, hv.fold_eq]
  have hbounds : (add d (foldNeg c)).bounds = (sub d c).bounds :=
    congrArg d.bounds.add (bounds_foldNeg c)
  split at hround
  case isTrue hopposite =>
    refine .inr ⟨hopposite, simplify_of_simplifyRound hround ?_⟩
    rw [(isTerm_lit 0).simplifyRound_eq]
    apply same_refl
  case isFalse hopposite =>
    left
    rw [isOpposite, Bool.or_eq_true, not_or, Bool.not_eq_true, Bool.not_eq_true] at hopposite
    obtain ⟨hvd, hdv⟩ := hopposite
    split at hround
    case isTrue =>
      rw [simplify_of_simplifyRound hround (same_simplifyRound_foldAdd hd hv hdv), ← hbounds]
      rcases bounds_foldAdd d (foldNeg c) with h | ⟨h, _⟩
      · exact h
      · rw [h] at hvd
        cases hvd
    case isFalse =>
      rw [simplify_of_simplifyRound hround (same_simplifyRound_foldAdd hv hd hvd), ← hbounds]
      rcases bounds_foldAdd (foldNeg c) d with h | ⟨h, _⟩
      · rw [h]
        apply Interval.add_comm
      · rw [h] at hdv
        cases hdv

end Term

/-- Literals that are not negative do not cancel, since their negations fold. -/
theorem foldNeg_lit {b : Int64} (hb : 0 ≤ b) : ∃ a, foldNeg (lit b) = lit a := by
  rw [Int64.le_iff_toInt_le, Int64.toInt_zero] at hb
  have hb' := b.toInt_lt
  have hneg : (Int64.ofInt (-b.toInt)).toInt = -b.toInt := by
    apply Int64.toInt_ofInt_of_le
    · omega
    · omega
  refine ⟨Int64.ofInt (-b.toInt), ?_⟩
  rw [foldNeg, Int64.neg?_eq_some_iff.2 hneg]

section Product

theorem canonicalize_lit_mul (a : Int64) {r : SymExpr} (hr : r.IsSize) :
    (mul (lit a) r).canonicalize = mul (lit a) r := by
  have hoperands : (mul (lit a) r).operands .mul = [lit a, r] := by
    cases hr <;> rfl
  rw [canonicalize_mul, hoperands]
  change productOf [(lit a).canonicalize, r.canonicalize] = _
  rw [canonicalize_lit, hr.isTerm.canonicalize_eq]
  rfl

variable {a : Int64} {r c : SymExpr} (ha : 0 ≤ a) (hr : r.IsSize)
include ha hr

theorem foldMul_lit_cases :
    (∃ b, 0 ≤ b ∧ foldMul (lit a) r = lit b) ∨ (∃ s, r = sym s ∧ foldMul (lit a) r = sym s) ∨
      foldMul (lit a) r = mul (lit a) r := by
  unfold foldMul
  split
  case isTrue => exact .inl ⟨0, Int64.le_refl 0, rfl⟩
  case isFalse =>
    split
    case isTrue =>
      cases hr with
      | @lit b hb => exact .inl ⟨b, hb, rfl⟩
      | @sym s _ => exact .inr (.inl ⟨s, rfl, rfl⟩)
    case isFalse =>
      split
      case isTrue => exact .inl ⟨a, ha, rfl⟩
      case isFalse =>
        cases hr with
        | sym _ => exact .inr (.inr rfl)
        | @lit b hb =>
          cases hproduct : a.mul? b with
          | none =>
            refine .inr (.inr ?_)
            simp [foldLits, BinOp.fold?, hproduct]
          | some p =>
            refine .inl ⟨p, ?_, ?_⟩
            · rw [Int64.mul?_eq_some_iff] at hproduct
              rw [Int64.le_iff_toInt_le, Int64.toInt_zero] at ha hb ⊢
              rw [hproduct]
              exact Int.mul_nonneg ha hb
            · simp [foldLits, BinOp.fold?, hproduct]

theorem isTerm_foldMul_lit : (foldMul (lit a) r).IsTerm := by
  rcases foldMul_lit_cases ha hr with ⟨b, _, hfold⟩ | ⟨s, _, hfold⟩ | hfold
  · rw [hfold]
    apply isTerm_lit
  · rw [hfold]
    apply isTerm_sym
  · rw [hfold]
    refine ⟨canonicalize_lit_mul a hr, ?_, rfl⟩
    rw [fold, foldBin, fold, hr.isTerm.fold_eq, hfold]

/-- The product is folded after the difference has become a sum, and it stands behind the size. -/
theorem bounds_simplify_sub_product (hd : d.IsSize) (hc : c.canonicalize = mul (lit a) r) :
    (sub d c).simplify.bounds = (sub d (mul (lit a) r)).bounds ∨
      (∃ s, r = sym s) ∧ (sub d c).simplify = lit 0 := by
  have hterm := isTerm_foldMul_lit ha hr
  have hneg (x : SymExpr) : foldMul (lit a) r ≠ neg x := by
    rcases foldMul_lit_cases ha hr with ⟨b, _, hfold⟩ | ⟨s, _, hfold⟩ | hfold
    · exact fun h => nomatch hfold.symm.trans h
    · exact fun h => nomatch hfold.symm.trans h
    · exact fun h => nomatch hfold.symm.trans h
  have hround : (sub d c).simplifyRound = foldAdd d (foldNeg (foldMul (lit a) r)) := by
    have hnegated : (neg (mul (lit a) r)).canonicalize = neg (mul (lit a) r) := by
      rw [canonicalize_neg, canonicalize_lit_mul a hr]
      rfl
    have hopposite : d.isOpposite (neg (mul (lit a) r)) = false := by
      cases hd <;> rfl
    have hprecedes : d.precedes (neg (mul (lit a) r)) = true := by
      cases hd <;> rfl
    have hfold : (neg (mul (lit a) r)).fold = foldNeg (foldMul (lit a) r) := by
      rw [fold, fold, foldBin, fold, hr.isTerm.fold_eq]
    rw [simplifyRound, canonicalize_sub, hd.isTerm.canonicalize_eq, hc,
      canonicalize_add_terms hd.isTerm.operands_eq rfl, hd.isTerm.canonicalize_eq, hnegated,
      fold_sumOf_pair, hopposite, if_neg Bool.false_ne_true, if_pos hprecedes, hfold,
      hd.isTerm.fold_eq]
  have hsame := same_simplifyRound_foldAdd hd.isTerm (hterm.foldNeg hneg)
    (hd.negates_eq_false (foldNeg (foldMul (lit a) r)))
  rw [simplify_of_simplifyRound hround hsame]
  rcases bounds_foldAdd d (foldNeg (foldMul (lit a) r)) with h | ⟨h, hzero⟩
  · left
    rw [h]
    change d.bounds.add (foldNeg _).bounds = d.bounds.add (mul (lit a) r).bounds.neg
    rw [bounds_foldNeg, ← bounds_foldMul]
    rfl
  · right
    refine ⟨?_, hzero⟩
    rcases foldMul_lit_cases ha hr with ⟨b, hb, hfold⟩ | ⟨s, hs, _⟩ | hfold
    · obtain ⟨n, hn⟩ := foldNeg_lit hb
      rw [hfold, hn] at h
      cases h
    · exact ⟨s, hs⟩
    · rw [hfold] at h
      cases hd <;> cases h

end Product

section Differences

open Predicate (differenceBounds)

variable (hd : d.IsSize) (hk : k.IsSize)
include hd hk

theorem differenceBounds_sizes :
    differenceBounds d k = (sub d k).bounds ∨
      (∃ s, k = sym s) ∧ differenceBounds d k = .exactly 0 := by
  unfold differenceBounds
  rcases bounds_simplify_sub hd.isTerm hk.isTerm hk.ne_neg with h | ⟨hopposite, hzero⟩
  · exact .inl h
  · right
    rw [hzero]
    refine ⟨?_, rfl⟩
    cases hk with
    | @lit b hb =>
      obtain ⟨n, hn⟩ := foldNeg_lit hb
      rw [hn] at hopposite
      cases hd <;> cases hopposite
    | @sym s _ => exact ⟨s, rfl⟩

theorem differenceBounds_mul {g : Int64} (hg : 0 ≤ g) :
    differenceBounds d (mul k (lit g)) = (sub d (mul k (lit g))).bounds ∨
      (∃ s, k = sym s) ∧ differenceBounds d (mul k (lit g)) = .exactly 0 := by
  unfold differenceBounds
  cases hk with
  | @lit b hb =>
    have hc := canonicalize_lit_mul b (.lit hg)
    rcases bounds_simplify_sub_product hb (.lit hg) hd hc with h | ⟨⟨s, hs⟩, _⟩
    · exact .inl h
    · cases hs
  | @sym s hs =>
    have hc : (mul (sym s) (lit g)).canonicalize = mul (lit g) (sym s) := by
      rw [canonicalize_mul]
      change productOf [(sym s).canonicalize, (lit g).canonicalize] = _
      rw [canonicalize_sym, canonicalize_lit]
      rfl
    rcases bounds_simplify_sub_product hg (.sym hs) hd hc with h | ⟨_, hzero⟩
    · left
      rw [h]
      change d.bounds.add ((lit g).bounds.mul (sym s).bounds).neg =
        d.bounds.add ((sym s).bounds.mul (lit g).bounds).neg
      rw [Interval.mul_comm]
    · right
      rw [hzero]
      exact ⟨⟨s, rfl⟩, rfl⟩

end Differences

section Remainder

open Predicate (differenceBounds)

theorem foldMod_lit {g : Int64} (hg : 0 < g) (a : Int64) :
    foldMod (lit a) (lit g) = lit (a.floorMod g) := by
  have hdivide := Int64.canDivide_of_pos a hg
  unfold foldMod
  split
  case isTrue hone =>
    have hmod := Int64.toInt_floorMod hdivide
    rw [isLit, beq_iff_eq] at hone
    rw [hone, Int64.toInt_one, Int.fmod_one, ← Int64.toInt_zero, Int64.toInt_inj] at hmod
    rw [hone, hmod]
  case isFalse => simp [foldLits, BinOp.fold?, hdivide]

theorem foldMod_sym (s : Symbol) (g : Int64) :
    foldMod (sym s) (lit g) = if g = 1 then lit 0 else mod (sym s) (lit g) := by
  simp [foldMod, isLit, foldLits, hasFactor, operands]

theorem isTerm_foldMod {g : Int64} (hg : 0 < g) (hk : k.IsSize) : (foldMod k (lit g)).IsTerm := by
  cases hk with
  | @lit a _ =>
    rw [foldMod_lit hg]
    apply isTerm_lit
  | @sym s _ =>
    rw [foldMod_sym]
    split
    case isTrue => apply isTerm_lit
    case isFalse hone =>
      refine ⟨?_, ?_, rfl⟩
      · rw [canonicalize_mod, canonicalize_sym, canonicalize_lit]
      · rw [fold, foldBin, fold, fold, foldMod_sym, if_neg hone]

/-- A remainder is compared with zero as it is, after folding. -/
theorem differenceBounds_mod {g : Int64} (hg : 0 < g) (hk : k.IsSize) :
    differenceBounds (mod k (lit g)) (lit 0) = (foldMod k (lit g)).bounds := by
  have hround : (sub (mod k (lit g)) (lit 0)).simplifyRound = foldMod k (lit g) := by
    have hmod : (mod k (lit g)).canonicalize = mod k (lit g) := by
      rw [canonicalize_mod, hk.isTerm.canonicalize_eq, canonicalize_lit]
    have hzero : (neg (lit 0)).canonicalize = lit 0 := by
      rw [canonicalize_neg, canonicalize_lit]
      rfl
    have hfold : (mod k (lit g)).fold = foldMod k (lit g) := by
      rw [fold, foldBin, hk.isTerm.fold_eq, fold]
    have hopposite : (mod k (lit g)).isOpposite (lit 0) = false := rfl
    have hprecedes : (mod k (lit g)).precedes (lit 0) = false := rfl
    rw [simplifyRound, canonicalize_sub, hmod, canonicalize_lit, canonicalize_add_terms rfl rfl,
      hmod, hzero, fold_sumOf_pair, hopposite, hprecedes, hfold]
    rfl
  have hsame : (foldMod k (lit g)).simplifyRound.same (foldMod k (lit g)) = true := by
    rw [(isTerm_foldMod hg hk).simplifyRound_eq]
    apply same_refl
  unfold differenceBounds
  rw [simplify_of_simplifyRound hround hsame]

end Remainder

end Sizes

section Saturation

variable {σ : Assignment} {d k : SymExpr} {v : Int}

theorem IsSize.respects (h : k.IsSize) (hσ : ∀ name, 0 ≤ σ name) : k.Respects σ := by
  cases h with
  | lit _ => trivial
  | sym _ => exact fun _ => hσ _

theorem IsSize.nonneg_of_eval? (h : k.IsSize) (hσ : ∀ name, 0 ≤ σ name)
    (hv : k.eval? σ = some v) : 0 ≤ v := by
  cases h with
  | lit ha =>
    rw [eval?_lit, Option.some.injEq] at hv
    rw [Int64.le_iff_toInt_le, Int64.toInt_zero] at ha
    rwa [← hv]
  | sym _ =>
    rw [eval?, Option.some.injEq] at hv
    rw [← hv]
    apply hσ

theorem IsSize.saturated_eq (h : k.IsSize) (hv : k.eval? σ = some v) :
    k.saturated σ = Int64.ofIntClamp v := by
  cases h with
  | lit _ =>
    rw [eval?_lit, Option.some.injEq] at hv
    rw [saturated, ← hv, Int64.ofIntClamp_toInt]
  | sym _ =>
    rw [eval?, Option.some.injEq] at hv
    rw [saturated, hv]

theorem ofIntClamp_mul {n m : Int} (hn : 0 ≤ n) (hm : 0 ≤ m) :
    Int64.ofIntClamp ((Int64.ofIntClamp n).toInt * m) = Int64.ofIntClamp (n * m) := by
  rw [← Int64.toInt_inj, Int64.toInt_ofIntClamp_eq, Int64.toInt_ofIntClamp_eq,
    Int64.toInt_ofIntClamp_eq]
  by_cases hlarge : n ≤ 2 ^ 63 - 1
  · have hclamp : max (-2 ^ 63) (min n (2 ^ 63 - 1)) = n := by omega
    rw [hclamp]
  · have hclamp : max (-2 ^ 63) (min n (2 ^ 63 - 1)) = 2 ^ 63 - 1 := by omega
    rw [hclamp]
    rcases Int.lt_or_eq_of_le hm with hpos | hzero
    · -- Both products reach the end of the range.
      have hend : (2 ^ 63 - 1) * 1 ≤ (2 ^ 63 - 1) * m :=
        Int.mul_le_mul_of_nonneg_left hpos (by omega)
      have hmono : (2 ^ 63 - 1) * m ≤ n * m := Int.mul_le_mul_of_nonneg_right (by omega) hm
      omega
    · rw [← hzero, Int.mul_zero, Int.mul_zero]

theorem IsSize.saturated_mul_eq {g : Int64} (h : k.IsSize) (hσ : ∀ name, 0 ≤ σ name)
    (hg : 0 ≤ g) (hv : k.eval? σ = some v) :
    (SymExpr.mul k (SymExpr.lit g)).saturated σ = Int64.ofIntClamp (v * g.toInt) := by
  have hv' := h.nonneg_of_eval? hσ hv
  rw [Int64.le_iff_toInt_le, Int64.toInt_zero] at hg
  rw [← ofIntClamp_mul hv' hg, ← h.saturated_eq hv]
  rfl

/-- Sides that stop at the same place have a difference of zero. -/
theorem saturated_sub_eq_zero {c : SymExpr} (hd : d.saturated σ = Int64.ofIntClamp v)
    (hc : c.saturated σ = Int64.ofIntClamp v) (hv : 0 ≤ v) :
    ((sub d c).saturated σ).toInt = 0 := by
  change ((d.saturated σ).satAdd (c.saturated σ).satNeg).toInt = 0
  rw [hd, hc, Int64.satAdd, Int64.satNeg, Int64.toInt_ofIntClamp_eq, Int64.toInt_ofIntClamp_eq,
    Int64.toInt_ofIntClamp_eq]
  omega

section Agree

open Predicate (differenceBounds)

variable (hσ : ∀ name, 0 ≤ σ name) (hd : d.IsSize) (hk : k.IsSize)
include hσ hd hk

theorem encloses_differenceBounds_sizes (hdv : d.eval? σ = some v) (hkv : k.eval? σ = some v) :
    (differenceBounds d k).Encloses 0 := by
  rcases differenceBounds_sizes hd hk with h | ⟨_, h⟩
  · have henc := bounds_enclose_saturated (e := sub d k) ⟨hd.respects hσ, hk.respects hσ⟩
    rwa [saturated_sub_eq_zero (hd.saturated_eq hdv) (hk.saturated_eq hkv)
      (hd.nonneg_of_eval? hσ hdv), ← h] at henc
  · rw [h]
    exact Interval.encloses_exactly_iff.2 rfl

theorem encloses_differenceBounds_mul {g : Int64} (hg : 0 ≤ g) {w : Int}
    (hdv : d.eval? σ = some (w * g.toInt)) (hkv : k.eval? σ = some w) :
    (differenceBounds d (mul k (lit g))).Encloses 0 := by
  rcases differenceBounds_mul hd hk hg with h | ⟨_, h⟩
  · have henc := bounds_enclose_saturated (e := sub d (mul k (lit g)))
      ⟨hd.respects hσ, hk.respects hσ, trivial⟩
    rwa [saturated_sub_eq_zero (hd.saturated_eq hdv) (hk.saturated_mul_eq hσ hg hkv)
      (hd.nonneg_of_eval? hσ hdv), ← h] at henc
  · rw [h]
    exact Interval.encloses_exactly_iff.2 rfl

end Agree

theorem encloses_differenceBounds_mod {g : Int64} (hg : 0 < g) (hk : k.IsSize)
    (hkv : k.eval? σ = some v) (hdvd : g.toInt ∣ v) :
    (Predicate.differenceBounds (mod k (lit g)) (lit 0)).Encloses 0 := by
  rw [differenceBounds_mod hg hk]
  cases hk with
  | @lit a _ =>
    rw [eval?_lit, Option.some.injEq] at hkv
    rw [foldMod_lit hg, bounds, Interval.encloses_exactly_iff,
      Int64.toInt_floorMod (Int64.canDivide_of_pos a hg), hkv]
    exact (Int.fmod_eq_zero_of_dvd hdvd).symm
  | @sym s hs =>
    rw [foldMod_sym]
    split
    case isTrue => exact Interval.encloses_exactly_iff.2 rfl
    case isFalse =>
      -- The remainder is in range for every assignment, and that of zero is zero.
      have hrespects : (mod (sym s) (lit g)).Respects fun _ => 0 :=
        ⟨fun _ => Int.le_refl 0, trivial⟩
      have henc := bounds_enclose_saturated hrespects
      have hzero : ((mod (sym s) (lit g)).saturated fun _ => 0).toInt = 0 := by
        change (BinOp.mod.saturate 0 g).toInt = 0
        rw [Interval.saturate_mod hg, Int64.toInt_floorMod (Int64.canDivide_of_pos 0 hg),
          Int64.toInt_zero, Int.zero_fmod]
      rwa [hzero] at henc

section Literals

open Predicate (differenceBounds)

variable {a b g : Int64}

/-- A literal is told from a product of literals, where the product stops at the largest one. -/
theorem encloses_differenceBounds_mul_lits_iff (ha : 0 ≤ a) (hb : 0 ≤ b) (hg : 0 ≤ g) :
    (differenceBounds (lit a) (mul (lit b) (lit g))).Encloses 0 ↔
      a.toInt = min (b.toInt * g.toInt) Int64.maxValue.toInt := by
  rcases differenceBounds_mul (.lit ha) (.lit hb) hg with h | ⟨⟨s, hs⟩, _⟩
  · have hbounds : (sub (lit a) (mul (lit b) (lit g))).bounds =
        .exactly (a.satAdd (b.satMul g).satNeg) := by
      change (Interval.exactly a).add ((Interval.exactly b).mul (Interval.exactly g)).neg = _
      rw [Interval.exactly_mul_exactly]
      rfl
    rw [Int64.le_iff_toInt_le, Int64.toInt_zero] at ha hb hg
    have hproduct := Int.mul_nonneg hb hg
    have hmax : Int64.maxValue.toInt = 2 ^ 63 - 1 := Int64.toInt_maxValue
    have ha' := a.toInt_lt
    rw [h, hbounds, Interval.encloses_exactly_iff, Int64.satAdd, Int64.satNeg, Int64.satMul,
      Int64.toInt_ofIntClamp_eq, Int64.toInt_ofIntClamp_eq, Int64.toInt_ofIntClamp_eq]
    generalize b.toInt * g.toInt = p at *
    omega
  · cases hs

theorem encloses_differenceBounds_mod_lit_iff (hg : 0 < g) (ha : 0 ≤ a) :
    (differenceBounds (mod (lit a) (lit g)) (lit 0)).Encloses 0 ↔ g.toInt ∣ a.toInt := by
  rw [differenceBounds_mod hg (.lit ha), foldMod_lit hg, bounds, Interval.encloses_exactly_iff,
    Int64.toInt_floorMod (Int64.canDivide_of_pos a hg), Int.dvd_iff_fmod_eq_zero]
  exact eq_comm

end Literals

end Saturation

end SymExpr

namespace Predicate

/-- Sides are proved different if and only if the range of their difference leaves out zero. -/
theorem prove_ne_eq_holds_iff {l r : SymExpr} :
    (compare .ne l r).prove = .holds ↔ ¬ (differenceBounds l r).Encloses 0 := by
  change (proveEq l r).not = .holds ↔ _
  unfold proveEq Interval.Encloses
  simp only [← Int64.toInt_inj, Int64.lt_iff_toInt_lt, Int64.toInt_zero]
  split
  case isTrue h =>
    simp only [Verdict.not, reduceCtorEq, false_iff]
    omega
  case isFalse =>
    split
    case isTrue h =>
      simp only [Verdict.not, true_iff]
      omega
    case isFalse h =>
      simp only [Verdict.not, reduceCtorEq, false_iff]
      omega

end Predicate

end TensorIR
