import TensorIR.Proofs.Conv2d.Overflow
import TensorIR.Proofs.SymExpr.LiteralSum

/-!
The sums that the sizes of convolutions are computed by, where all numbers are literals. They are
added up from left to right in an order of their own; a size is found exactly if no sum or product
on the way leaves the range, whatever the size itself.
-/

namespace TensorIR.Conv2d

open SymExpr

section Canonical

variable (attrs : Conv2dAttrs) (axis : SpatialAxis) (a b n k : Int64)

theorem canonicalize_add_lits : (add (lit a) (lit b)).canonicalize = add (lit a) (lit b) := by
  rw [canonicalize_add_terms rfl rfl, canonicalize_lit, canonicalize_lit]
  rfl

/-- A literal times one less than another, with the literal in front. -/
theorem canonicalize_mul_pred :
    (mul (lit a) (add (lit k) (lit (-1)))).canonicalize = mul (lit a) (add (lit k) (lit (-1))) ∧
      (mul (lit a) (sub (lit k) (lit 1))).canonicalize = mul (lit a) (add (lit k) (lit (-1))) ∧
      (mul (sub (lit k) (lit 1)) (lit a)).canonicalize = mul (lit a) (add (lit k) (lit (-1))) := by
  have hsum := canonicalize_add_lits k (-1)
  have hpred : (sub (lit k) (lit 1)).canonicalize = add (lit k) (lit (-1)) := by
    rw [canonicalize_sub_one, canonicalize_lit, hsum]
  refine ⟨?_, ?_, ?_⟩
  · rw [canonicalize_mul]
    change productOf [(lit a).canonicalize, (add (lit k) (lit (-1))).canonicalize] = _
    rw [hsum, canonicalize_lit]
    rfl
  · rw [canonicalize_mul]
    change productOf [(lit a).canonicalize, (sub (lit k) (lit 1)).canonicalize] = _
    rw [hpred, canonicalize_lit]
    rfl
  · rw [canonicalize_mul]
    change productOf [(sub (lit k) (lit 1)).canonicalize, (lit a).canonicalize] = _
    rw [hpred, canonicalize_lit]
    rfl

/-- The places left for a window behind its first one, as a canonical sum. -/
theorem canonicalize_room :
    (lit n + paddingTotal attrs axis - kernelReach attrs axis (lit k) - lit 1).canonicalize =
      [lit (attrs.padding.before axis), lit (attrs.padding.after axis), lit (-1),
        neg (mul (lit (attrs.dilation.get axis)) (add (lit k) (lit (-1))))].foldl add (lit n) := by
  obtain ⟨hreach, hreach', _⟩ := canonicalize_mul_pred (attrs.dilation.get axis) k
  have hneg : (neg (mul (lit (attrs.dilation.get axis)) (add (lit k) (lit (-1))))).canonicalize =
      neg (mul (lit (attrs.dilation.get axis)) (add (lit k) (lit (-1)))) := by
    rw [canonicalize_neg, hreach]
    rfl
  have hpadded : (add (lit n) (paddingTotal attrs axis)).canonicalize =
      [lit (attrs.padding.before axis), lit (attrs.padding.after axis)].foldl add (lit n) := by
    rw [canonicalize_add]
    change sumOf [(lit n).canonicalize, (lit _).canonicalize, (lit _).canonicalize] = _
    rw [canonicalize_lit, canonicalize_lit, canonicalize_lit]
    rfl
  have hroom : (sub (add (lit n) (paddingTotal attrs axis))
        (kernelReach attrs axis (lit k))).canonicalize =
      [lit (attrs.padding.before axis), lit (attrs.padding.after axis),
        neg (mul (lit (attrs.dilation.get axis)) (add (lit k) (lit (-1))))].foldl add (lit n) := by
    rw [canonicalize_sub, hpadded]
    change (add _ (neg (mul (lit (attrs.dilation.get axis))
      (sub (lit k) (lit 1))).canonicalize)).canonicalize = _
    rw [hreach', canonicalize_add]
    change sumOf [(lit n).canonicalize, (lit _).canonicalize, (lit _).canonicalize,
      (neg (mul _ _)).canonicalize] = _
    rw [canonicalize_lit, canonicalize_lit, canonicalize_lit, hneg]
    rfl
  change (sub (sub (add (lit n) (paddingTotal attrs axis)) (kernelReach attrs axis (lit k)))
    (lit 1)).canonicalize = _
  rw [canonicalize_sub_one, hroom, canonicalize_add]
  change sumOf [(lit n).canonicalize, (lit _).canonicalize, (lit _).canonicalize,
      (neg (mul _ _)).canonicalize, (lit (-1)).canonicalize] = _
  rw [canonicalize_lit, canonicalize_lit, canonicalize_lit, canonicalize_lit, hneg]
  rfl

/-- The size of a transposed window sum, whose padding has the opposite sides `before`, `after`. -/
theorem canonicalize_transposedSize (attrs : Conv2dTransposeAttrs) {before after : Int64}
    (hbefore : before.toInt = -(attrs.conv.padding.before axis).toInt)
    (hafter : after.toInt = -(attrs.conv.padding.after axis).toInt) :
    (transposedSize attrs axis (lit n) (lit k)).canonicalize =
      [lit 1,
        add (mul (lit (attrs.conv.strides.get axis)) (add (lit n) (lit (-1))))
          (add (lit before) (lit after)),
        mul (lit (attrs.conv.dilation.get axis)) (add (lit k) (lit (-1)))].foldl add
        (lit (attrs.outputPadding.get axis)) := by
  obtain ⟨_, hreach, _⟩ := canonicalize_mul_pred (attrs.conv.dilation.get axis) k
  obtain ⟨hspread, _, hspread'⟩ := canonicalize_mul_pred (attrs.conv.strides.get axis) n
  have hside {a b : Int64} (h : b.toInt = -a.toInt) : (neg (lit a)).canonicalize = lit b := by
    rw [canonicalize_neg, canonicalize_lit]
    change negateTerm (lit a) = lit b
    rw [negateTerm_eq fun _ => SymExpr.noConfusion, foldNeg, Int64.neg?_eq_some_iff.2 h]
  have hpadding : (neg (add (lit (attrs.conv.padding.before axis))
      (lit (attrs.conv.padding.after axis)))).canonicalize = add (lit before) (lit after) := by
    rw [canonicalize_neg, canonicalize_add_lits]
    change (add (neg (lit _)) (neg (lit _))).canonicalize = _
    rw [canonicalize_add_terms rfl rfl, hside hbefore, hside hafter]
    rfl
  have hcropped : (sub (mul (sub (lit n) (lit 1)) (lit (attrs.conv.strides.get axis)))
        (paddingTotal attrs.conv axis)).canonicalize =
      add (mul (lit (attrs.conv.strides.get axis)) (add (lit n) (lit (-1))))
        (add (lit before) (lit after)) := by
    change (sub _ (add (lit (attrs.conv.padding.before axis))
      (lit (attrs.conv.padding.after axis)))).canonicalize = _
    rw [canonicalize_sub, hspread', canonicalize_add_lits, canonicalize_add_terms rfl rfl, hspread,
      hpadding]
    rfl
  change (add (add (add (sub (mul (sub (lit n) (lit 1)) (lit (attrs.conv.strides.get axis)))
      (paddingTotal attrs.conv axis))
    (mul (lit (attrs.conv.dilation.get axis)) (sub (lit k) (lit 1))))
    (lit (attrs.outputPadding.get axis))) (lit 1)).canonicalize = _
  rw [canonicalize_add]
  change sumOf [(sub _ _).canonicalize, (mul _ _).canonicalize, (lit _).canonicalize,
    (lit 1).canonicalize] = _
  rw [hcropped, hreach, canonicalize_lit, canonicalize_lit]
  rfl

end Canonical

section Products

variable {f k : Int64}

theorem isLitOf_pred (hk : 0 < k) : (foldAdd (lit k) (lit (-1))).IsLitOf (k.toInt - 1) := by
  rw [Int64.lt_iff_toInt_lt, Int64.toInt_zero] at hk
  have hlt := k.toInt_lt
  have hminusOne : (lit (-1)).IsLitOf (-1) := ⟨-1, rfl, rfl⟩
  exact (isLitOf_lit k).foldAdd hminusOne (by omega) (by omega)

theorem mul_pred_nonneg (hf : 1 ≤ f) (hk : 0 < k) : 0 ≤ f.toInt * (k.toInt - 1) := by
  rw [Int64.le_iff_toInt_le, Int64.toInt_one] at hf
  rw [Int64.lt_iff_toInt_lt, Int64.toInt_zero] at hk
  apply Int.mul_nonneg
  · omega
  · omega

/-- A literal times one less than another is a literal, or the product does not fit. -/
theorem foldMul_pred (hf : 1 ≤ f) (hk : 0 < k) :
    (f.toInt * (k.toInt - 1) ≤ Int64.maxValue.toInt ∧
        (foldMul (lit f) (foldAdd (lit k) (lit (-1)))).IsLitOf (f.toInt * (k.toInt - 1))) ∨
      Int64.maxValue.toInt < f.toInt * (k.toInt - 1) ∧ ∃ j, f.mul? j = none ∧
        foldMul (lit f) (foldAdd (lit k) (lit (-1))) = mul (lit f) (lit j) := by
  have hmax : Int64.maxValue.toInt = 2 ^ 63 - 1 := Int64.toInt_maxValue
  have hpred := isLitOf_pred hk
  have hpos := mul_pred_nonneg hf hk
  by_cases hle : f.toInt * (k.toInt - 1) ≤ Int64.maxValue.toInt
  · exact .inl ⟨hle, (isLitOf_lit f).foldMul hpred (by omega) (by omega)⟩
  · obtain ⟨j, hj, hvalue⟩ := hpred
    have hproduct : f.mul? j = none := by
      rw [Option.eq_none_iff_forall_ne_some]
      intro c hc
      have hle' := c.toInt_le
      rw [Int64.mul?_eq_some_iff.1 hc, hvalue] at hle'
      exact hle hle'
    refine .inr ⟨by omega, j, hproduct, ?_⟩
    rw [hj, foldMul_lits, hproduct]
    rfl

theorem summand_foldMul_pred (hf : 1 ≤ f) (hk : 0 < k) :
    (foldMul (lit f) (foldAdd (lit k) (lit (-1)))).Summand := by
  rcases foldMul_pred hf hk with ⟨_, c, hc, _⟩ | ⟨_, j, hproduct, hj⟩
  · rw [hc]
    exact .lit c
  · rw [hj]
    exact .product hproduct

end Products

/-- The padded input and what a window reaches of it are numbers that fit. -/
def RoomFits (attrs : Conv2dAttrs) (axis : SpatialAxis) (input window : Int) : Prop :=
  input + ((attrs.padding.before axis).toInt + (attrs.padding.after axis).toInt) ≤
      Int64.maxValue.toInt ∧
    (attrs.dilation.get axis).toInt * (window - 1) ≤ Int64.maxValue.toInt

section Room

variable {attrs : Conv2dAttrs} {axis : SpatialAxis} {n k : Int64}
  (hdilation : 1 ≤ attrs.dilation.get axis)
  (hpadding : 0 ≤ attrs.padding.before axis ∧ 0 ≤ attrs.padding.after axis)
  (hn : 0 < n) (hk : 0 < k)

/-- The places left for a window behind its first one. -/
def windowRoom (attrs : Conv2dAttrs) (axis : SpatialAxis) (input window : Int) : Int :=
  input + ((attrs.padding.before axis).toInt + (attrs.padding.after axis).toInt)
    - (attrs.dilation.get axis).toInt * (window - 1) - 1

theorem simplifyRound_room (attrs : Conv2dAttrs) (axis : SpatialAxis) (n k : Int64) :
    (lit n + paddingTotal attrs axis - kernelReach attrs axis (lit k) - lit 1).simplifyRound =
      [lit (attrs.padding.before axis), lit (attrs.padding.after axis), lit (-1),
        foldNeg (foldMul (lit (attrs.dilation.get axis)) (foldAdd (lit k) (lit (-1))))].foldl
        foldAdd (lit n) := by
  rw [simplifyRound, canonicalize_room]
  rfl

/-- How far a kernel reaches is a literal, or the product does not fit. -/
theorem neg_reach (hdilation : 1 ≤ attrs.dilation.get axis) (hk : 0 < k) :
    let reach := foldNeg (foldMul (lit (attrs.dilation.get axis)) (foldAdd (lit k) (lit (-1))))
    ((attrs.dilation.get axis).toInt * (k.toInt - 1) ≤ Int64.maxValue.toInt ∧
        reach.IsLitOf (-((attrs.dilation.get axis).toInt * (k.toInt - 1)))) ∨
      Int64.maxValue.toInt < (attrs.dilation.get axis).toInt * (k.toInt - 1) ∧
        reach.Addend ∧ ∀ a, reach ≠ lit a := by
  have hmax : Int64.maxValue.toInt = 2 ^ 63 - 1 := Int64.toInt_maxValue
  have hpos := mul_pred_nonneg hdilation hk
  rcases foldMul_pred hdilation hk with ⟨hle, hlit⟩ | ⟨hlt, j, hproduct, hj⟩
  · exact .inl ⟨hle, hlit.foldNeg (by omega) (by omega)⟩
  · rw [hj]
    exact .inr ⟨hlt, .neg_product hproduct, fun _ => SymExpr.noConfusion⟩

include hdilation hpadding hn hk

theorem roomStuck_of_not_roomFits (h : ¬ RoomFits attrs axis n.toInt k.toInt) :
    RoomStuck (lit n + paddingTotal attrs axis - kernelReach attrs axis (lit k)
      - lit 1).simplifyRound := by
  rw [Int64.le_iff_toInt_le, Int64.le_iff_toInt_le, Int64.toInt_zero] at hpadding
  rw [simplifyRound_room]
  apply Stuck.foldl inert_addend gauge_toInt
  rcases neg_reach hdilation hk with ⟨hle, hlit⟩ | ⟨_, haddend, hne⟩
  · have hpadded : Int64.maxValue.toInt <
        n.toInt + ((attrs.padding.before axis).toInt + (attrs.padding.after axis).toInt) := by
      by_contra hfits
      exact h ⟨by omega, hle⟩
    obtain ⟨c, hc, _⟩ := hlit
    rw [Int64.lt_iff_toInt_lt, Int64.toInt_zero] at hn
    have hnMax := n.toInt_le
    refine ⟨by simp [operands, Addend.lit, hc], .inl ⟨by omega, .inr ⟨hpadding.1, ?_⟩⟩⟩
    by_cases hbefore : Int64.maxValue.toInt - n.toInt < (attrs.padding.before axis).toInt
    · exact .inl hbefore
    · exact .inr ⟨hpadding.2, .inl (by omega)⟩
  · refine ⟨by simp [operands, Addend.lit, haddend], .inr ⟨_, ?_, hne⟩⟩
    simp

theorem isLitOf_room (h : RoomFits attrs axis n.toInt k.toInt) :
    (lit n + paddingTotal attrs axis - kernelReach attrs axis (lit k)
      - lit 1).simplifyRound.IsLitOf (windowRoom attrs axis n.toInt k.toInt) := by
  obtain ⟨hpadded, hreach⟩ := h
  have hmax : Int64.maxValue.toInt = 2 ^ 63 - 1 := Int64.toInt_maxValue
  have hneg := (neg_reach hdilation hk).resolve_right fun hlt => by omega
  have hreachNonneg := mul_pred_nonneg hdilation hk
  rw [Int64.le_iff_toInt_le, Int64.le_iff_toInt_le, Int64.toInt_zero] at hpadding
  rw [Int64.lt_iff_toInt_lt, Int64.toInt_zero] at hn
  have hminusOne : (lit (-1)).IsLitOf (-1) := ⟨-1, rfl, rfl⟩
  have hbefore := (isLitOf_lit n).foldAdd (isLitOf_lit (attrs.padding.before axis))
    (by omega) (by omega)
  have hafter := hbefore.foldAdd (isLitOf_lit (attrs.padding.after axis)) (by omega) (by omega)
  have hlast := hafter.foldAdd hminusOne (by omega) (by omega)
  obtain ⟨c, hc, hvalue⟩ := hlast.foldAdd hneg.2 (by omega) (by omega)
  rw [simplifyRound_room]
  refine ⟨c, hc, ?_⟩
  unfold windowRoom
  omega

end Room

section Count

theorem isLitOf_foldQuotient {f : Int64} (hf : 1 ≤ f) (a : Int64) :
    (foldQuotient .div (lit a) (lit f)).IsLitOf (a.toInt.fdiv f.toInt) := by
  have hop : BinOp.div.isQuotient = true := rfl
  rw [Int64.le_iff_toInt_le, Int64.toInt_one] at hf
  have hpos : 0 < f := by
    rw [Int64.lt_iff_toInt_lt, Int64.toInt_zero]
    omega
  obtain ⟨c, hc⟩ := exists_foldQuotient_lits hop (Int64.canDivide_of_pos a hpos)
  have hdiv : (div (lit a) (lit f)).eval? (fun _ => 0) = some (a.toInt.fdiv f.toInt) :=
    eval?_div_eq_some_iff.2 ⟨_, _, eval?_lit a, eval?_lit f, by omega, rfl⟩
  have hvalue := (rewrites_foldQuotient hop (lit a) (lit f)).eval?_eq_some hdiv
  rw [hc, eval?_lit, Option.some.injEq] at hvalue
  exact ⟨c, hc, hvalue⟩

theorem fdiv_bounds {n d lo hi : Int} (hd : 1 ≤ d) (hlo : lo ≤ n) (hhi : n ≤ hi) (hlo' : lo ≤ 0)
    (hhi' : 0 ≤ hi) : lo ≤ n.fdiv d ∧ n.fdiv d ≤ hi := by
  rw [Int.fdiv_eq_ediv_of_nonneg n (by omega)]
  constructor
  · have hmul : 0 ≤ -lo * (d - 1) := Int.mul_nonneg (by omega) (by omega)
    rw [Int.mul_sub, Int.neg_mul, Int.mul_one] at hmul
    apply Int.le_ediv_of_mul_le
    · omega
    · omega
  · have hmul : 0 ≤ hi * (d - 1) := Int.mul_nonneg (by omega) (by omega)
    rw [Int.mul_sub, Int.mul_one] at hmul
    apply Int.ediv_le_of_le_mul
    · omega
    · omega

variable {attrs : Conv2dAttrs} {axis : SpatialAxis} {n k : Int64}
  (hstride : 1 ≤ attrs.strides.get axis)
include hstride

theorem exists_windowCount {s : SymExpr}
    (h : (outputSize attrs axis (lit n) (lit k)).checkedSimplify? = some s) :
    ∃ m : Int64, s = lit m ∧ m.toInt = windowCount attrs axis n.toInt k.toInt := by
  have hwindow : (lit k).Constant false := trivial
  let σ : Assignment := fun _ => 0
  have hn : (lit n).eval? σ = some n.toInt := eval?_lit n
  exact exists_lit_of_checkedSimplify? (settled_simplify_outputSize hstride (.lit n) hwindow) h
    (eval?_outputSize hstride hn (eval?_lit k))

variable (hdilation : 1 ≤ attrs.dilation.get axis)
  (hpadding : 0 ≤ attrs.padding.before axis ∧ 0 ≤ attrs.padding.after axis)
  (hn : 0 < n) (hk : 0 < k)
include hdilation hpadding hn hk

/-- The places for a window are counted exactly where what the count is made of fits. -/
theorem exists_checkedSimplify?_outputSize_iff :
    (∃ s, (outputSize attrs axis (lit n) (lit k)).checkedSimplify? = some s) ↔
      RoomFits attrs axis n.toInt k.toInt := by
  constructor
  · rintro ⟨s, hs⟩
    obtain ⟨m, rfl, _⟩ := exists_windowCount hstride hs
    by_contra hfits
    have hstuck := roomStuck_of_not_roomFits hdilation hpadding hn hk hfits
    exact hstuck.simplify_count_ne_lit m (checkedSimplify?_eq_some_iff.1 hs).2
  · intro hfits
    have hmax : Int64.maxValue.toInt = 2 ^ 63 - 1 := Int64.toInt_maxValue
    obtain ⟨room, hroom, hvalue⟩ := isLitOf_room hdilation hpadding hn hk hfits
    obtain ⟨hpadded, hreach⟩ := hfits
    have hreachNonneg := mul_pred_nonneg hdilation hk
    have hstride' := hstride
    rw [Int64.le_iff_toInt_le, Int64.toInt_one] at hstride'
    rw [Int64.le_iff_toInt_le, Int64.le_iff_toInt_le, Int64.toInt_zero] at hpadding
    rw [Int64.lt_iff_toInt_lt, Int64.toInt_zero] at hn
    unfold windowRoom at hvalue
    -- One place is left for the first window, so the count fits too.
    have hcount : -Int64.maxValue.toInt ≤ room.toInt.fdiv (attrs.strides.get axis).toInt ∧
        room.toInt.fdiv (attrs.strides.get axis).toInt ≤ Int64.maxValue.toInt - 1 :=
      fdiv_bounds hstride' (by omega) (by omega) (by omega) (by omega)
    obtain ⟨m, hm, _⟩ := (isLitOf_lit 1).foldAdd (isLitOf_foldQuotient hstride room)
      (by rw [Int64.toInt_one]; omega) (by rw [Int64.toInt_one]; omega)
    refine ⟨lit m, checkedSimplify?_of_simplify_lit (simplify_of_simplifyRound_lit ?_)⟩
    rw [← hm, ← hroom]
    exact simplifyRound_count_eq (.inl rfl)

end Count

section Sums

variable {c : Int64} {l r : SymExpr} {m n : Int}

theorem stuck_of_product (hl : l.Summand) (hr : r.Summand)
    {paddings : SymExpr} (hpaddings : ∀ t ∈ paddings.operands .add, t.Summand)
    (h : (∀ a, l ≠ lit a) ∨ ∀ a, r ≠ lit a) :
    Stuck Summand Int64.toInt Int64.maxValue.toInt
      ((foldAdd (foldAdd (lit c) (foldAdd l paddings)) r).operands .add) := by
  have hleft := inert_summand.forall_operands hl
  have hright := inert_summand.forall_operands hr
  have hc := inert_summand.forall_operands (.lit c)
  have hcropped := inert_summand.forall_operands_foldAdd hleft hpaddings
  have hpartial := inert_summand.forall_operands_foldAdd hc hcropped
  refine ⟨inert_summand.forall_operands_foldAdd hpartial hright,
    .inr (inert_summand.exists_operand_foldAdd hpartial hright ?_)⟩
  rcases h with hne | hne
  · obtain ⟨t, ht, hlit⟩ := inert_summand.exists_operand_foldAdd hleft hpaddings
      ⟨l, by simp [(inert_summand.isTerm hl).operands_eq], hne⟩
    obtain ⟨u, hu, hlit⟩ := inert_summand.exists_operand_foldAdd hc hcropped
      ⟨t, List.mem_append_right _ ht, hlit⟩
    exact ⟨u, List.mem_append_left _ hu, hlit⟩
  · exact ⟨r, by simp [(inert_summand.isTerm hr).operands_eq], hne⟩

theorem stuck_of_max_lt (hl : l.IsLitOf m) (hr : r.IsLitOf n) (hc : 0 ≤ c.toInt) (hn : 0 ≤ n)
    (h : Int64.maxValue.toInt < c.toInt + m + n) :
    Stuck Summand Int64.toInt Int64.maxValue.toInt
      ((foldAdd (foldAdd (lit c) l) r).operands .add) := by
  have hmax : Int64.maxValue.toInt = 2 ^ 63 - 1 := Int64.toInt_maxValue
  have hcMax := c.toInt_le
  obtain ⟨a, rfl, rfl⟩ := hl
  obtain ⟨b, rfl, rfl⟩ := hr
  have haMin := a.le_toInt
  have hbMax := b.toInt_le
  by_cases hlt : Int64.maxValue.toInt < c.toInt + a.toInt
  · change Stuck _ _ _ (([lit a, lit b].foldl foldAdd (lit c)).operands .add)
    apply Stuck.foldl inert_summand gauge_toInt
    refine ⟨by simp [operands, Summand.lit], .inl ⟨hc, .inr ⟨?_, .inl ?_⟩⟩⟩
    · omega
    · omega
  · obtain ⟨d, hd, hvalue⟩ := (isLitOf_lit c).foldAdd (isLitOf_lit a) (by omega) (by omega)
    rw [hd]
    change Stuck _ _ _ (([lit b].foldl foldAdd (lit d)).operands .add)
    apply Stuck.foldl inert_summand gauge_toInt
    refine ⟨by simp [operands, Summand.lit], .inl ⟨?_, .inr ⟨hn, .inl ?_⟩⟩⟩
    · omega
    · omega

variable {a b x y : Int64} (hb : b.toInt ≤ 0) (ha : a.toInt ≤ 0)
include hb ha

/-- Both literals are subtracted; what is left makes room for the last one. -/
theorem isLitOf_foldl_pair (hy : 0 ≤ y.toInt) (hpair : b.toInt + a.toInt < -2 ^ 63)
    (hfirst : c.toInt + x.toInt ≤ Int64.maxValue.toInt)
    (hlast : -2 ^ 63 ≤ c.toInt + x.toInt + b.toInt + a.toInt) :
    (([x, b, a, y].map lit).foldl foldAdd (lit c)).IsLitOf
      (c.toInt + x.toInt + b.toInt + a.toInt + y.toInt) := by
  have hmax : Int64.maxValue.toInt = 2 ^ 63 - 1 := Int64.toInt_maxValue
  have hyMax := y.toInt_le
  have hspread := (isLitOf_lit c).foldAdd (isLitOf_lit x) (by omega) (by omega)
  have hcropped := hspread.foldAdd (isLitOf_lit b) (by omega) (by omega)
  have hcropped' := hcropped.foldAdd (isLitOf_lit a) (by omega) (by omega)
  exact hcropped'.foldAdd (isLitOf_lit y) (by omega) (by omega)

theorem stuck_foldl_pair (hc : 0 ≤ c.toInt) (hx : 0 ≤ x.toInt)
    (h : Int64.maxValue.toInt < c.toInt + x.toInt ∨
      c.toInt + x.toInt + b.toInt + a.toInt < -2 ^ 63) :
    ∃ v limit, Gauge v limit ∧
      Stuck Summand v limit ((([x, b, a, y].map lit).foldl foldAdd (lit c)).operands .add) := by
  have hmax : Int64.maxValue.toInt = 2 ^ 63 - 1 := Int64.toInt_maxValue
  have haMin := a.le_toInt
  have hbMin := b.le_toInt
  by_cases hfirst : Int64.maxValue.toInt < c.toInt + x.toInt
  · refine ⟨_, _, gauge_toInt, Stuck.foldl inert_summand gauge_toInt ?_⟩
    refine ⟨by simp [operands, Summand.lit], .inl ⟨by omega, .inr ⟨hx, .inl ?_⟩⟩⟩
    omega
  · have hlast := h.resolve_left hfirst
    have hspread := (isLitOf_lit c).foldAdd (isLitOf_lit x) (by omega) (by omega)
    obtain ⟨d, hd, hvalue⟩ := hspread.foldAdd (isLitOf_lit b) (by omega) (by omega)
    refine ⟨_, _, gauge_neg, ?_⟩
    change Stuck _ _ _ (([lit a, lit y].foldl foldAdd
      (foldAdd (foldAdd (lit c) (lit x)) (lit b))).operands .add)
    rw [hd]
    apply Stuck.foldl inert_summand gauge_neg
    refine ⟨by simp [operands, Summand.lit], .inl ⟨?_, .inr ⟨?_, .inl ?_⟩⟩⟩
    · change 0 ≤ -d.toInt
      omega
    · change 0 ≤ -a.toInt
      omega
    · change 2 ^ 63 - -d.toInt < -a.toInt
      omega

end Sums

/--
What the size of a transposed window is computed from are numbers that fit: both products, the size
itself, and, where the paddings do not fit together, what is left when they are subtracted one by
one.
-/
structure SpreadFits (attrs : Conv2dTransposeAttrs) (axis : SpatialAxis) (input window : Int) :
    Prop where
  spread : (input - 1) * (attrs.conv.strides.get axis).toInt ≤ Int64.maxValue.toInt
  reach : (attrs.conv.dilation.get axis).toInt * (window - 1) ≤ Int64.maxValue.toInt
  total : spreadLength attrs axis input window ≤ Int64.maxValue.toInt
  cropped :
    2 ^ 63 < (attrs.conv.padding.before axis).toInt + (attrs.conv.padding.after axis).toInt →
    (attrs.outputPadding.get axis).toInt + 1
        + (input - 1) * (attrs.conv.strides.get axis).toInt ≤ Int64.maxValue.toInt ∧
      -2 ^ 63 ≤ (attrs.outputPadding.get axis).toInt + 1
        + (input - 1) * (attrs.conv.strides.get axis).toInt
        - ((attrs.conv.padding.before axis).toInt + (attrs.conv.padding.after axis).toInt)

section Spread

variable {attrs : Conv2dTransposeAttrs} {axis : SpatialAxis}
  (hpadding : 0 ≤ attrs.conv.padding.before axis ∧ 0 ≤ attrs.conv.padding.after axis)
  (hadded : 0 ≤ attrs.outputPadding.get axis)
  (hlt : attrs.outputPadding.get axis < attrs.conv.strides.get axis)
include hpadding hadded hlt

theorem exists_simplifyRound_transposedSize (n k : Int64) :
    ∃ c b a : Int64, c.toInt = (attrs.outputPadding.get axis).toInt + 1 ∧
      b.toInt = -(attrs.conv.padding.before axis).toInt ∧
      a.toInt = -(attrs.conv.padding.after axis).toInt ∧
      (transposedSize attrs axis (lit n) (lit k)).simplifyRound =
        foldAdd (foldAdd (lit c)
            (foldAdd (foldMul (lit (attrs.conv.strides.get axis)) (foldAdd (lit n) (lit (-1))))
              (foldAdd (lit b) (lit a))))
          (foldMul (lit (attrs.conv.dilation.get axis)) (foldAdd (lit k) (lit (-1)))) := by
  have hone : (1 : Int64).toInt = 1 := Int64.toInt_one
  rw [Int64.le_iff_toInt_le, Int64.le_iff_toInt_le, Int64.toInt_zero] at hpadding
  rw [Int64.le_iff_toInt_le, Int64.toInt_zero] at hadded
  rw [Int64.lt_iff_toInt_lt] at hlt
  have hstrideLt := (attrs.conv.strides.get axis).toInt_lt
  have hbeforeLt := (attrs.conv.padding.before axis).toInt_lt
  have hafterLt := (attrs.conv.padding.after axis).toInt_lt
  obtain ⟨b, hb⟩ := exists_toInt_eq (n := -(attrs.conv.padding.before axis).toInt)
    (by omega) (by omega)
  obtain ⟨a, ha⟩ := exists_toInt_eq (n := -(attrs.conv.padding.after axis).toInt)
    (by omega) (by omega)
  obtain ⟨c, hc, hvalue⟩ := (isLitOf_lit (attrs.outputPadding.get axis)).foldAdd (isLitOf_lit 1)
    (by omega) (by omega)
  refine ⟨c, b, a, by omega, hb, ha, ?_⟩
  rw [← hc, simplifyRound, canonicalize_transposedSize axis n k attrs hb ha]
  rfl

variable {n k : Int64} (hstride : 1 ≤ attrs.conv.strides.get axis)
  (hdilation : 1 ≤ attrs.conv.dilation.get axis) (hn : 0 < n) (hk : 0 < k)
include hstride hdilation hn hk

theorem isLitOf_simplify_transposedSize (h : SpreadFits attrs axis n.toInt k.toInt) :
    (transposedSize attrs axis (lit n) (lit k)).simplify.IsLitOf
      (spreadLength attrs axis n.toInt k.toInt) := by
  have hmax : Int64.maxValue.toInt = 2 ^ 63 - 1 := Int64.toInt_maxValue
  obtain ⟨hspread, hreach, htotal, hcropped⟩ := h
  obtain ⟨c, b, a, hc, hb, ha, hround⟩ :=
    exists_simplifyRound_transposedSize hpadding hadded hlt n k
  have hspreadNonneg := mul_pred_nonneg hstride hn
  have hreachNonneg := mul_pred_nonneg hdilation hk
  unfold spreadLength at htotal ⊢
  rw [Int.mul_comm (n.toInt - 1)] at hspread htotal hcropped ⊢
  have hspreadLit := ((foldMul_pred hstride hn).resolve_right fun h => by omega).2
  have hreachLit := ((foldMul_pred hdilation hk).resolve_right fun h => by omega).2
  rw [Int64.le_iff_toInt_le, Int64.le_iff_toInt_le, Int64.toInt_zero] at hpadding
  rw [Int64.le_iff_toInt_le, Int64.toInt_zero] at hadded
  by_cases hpair : 2 ^ 63 <
      (attrs.conv.padding.before axis).toInt + (attrs.conv.padding.after axis).toInt
  · obtain ⟨hfirst, hlast⟩ := hcropped hpair
    obtain ⟨x, hx, hxValue⟩ := hspreadLit
    obtain ⟨y, hy, hyValue⟩ := hreachLit
    have hcne : c ≠ 0 := by
      rintro rfl
      rw [Int64.toInt_zero] at hc
      omega
    obtain ⟨r, hr, hvalue⟩ := isLitOf_foldl_pair (c := c) (a := a) (b := b) (x := x) (y := y)
      (by omega) (by omega) (by omega) (by omega) (by omega) (by omega)
    rw [hx, hy, foldAdd_lits_of_lt (by omega)] at hround
    refine ⟨r, simplify_of_second_round_lit ?_, by omega⟩
    rw [hround, (simplifyRound_foldAdd_pair hcne).2, hr]
  · have hpads := (isLitOf_lit b).foldAdd (isLitOf_lit a) (by omega) (by omega)
    have hcropped := hspreadLit.foldAdd hpads (by omega) (by omega)
    have hpartial := (isLitOf_lit c).foldAdd hcropped (by omega) (by omega)
    obtain ⟨r, hr, hvalue⟩ := hpartial.foldAdd hreachLit (by omega) (by omega)
    rw [hr] at hround
    exact ⟨r, simplify_of_simplifyRound_lit hround, by omega⟩

theorem simplify_transposedSize_ne_lit (h : ¬ SpreadFits attrs axis n.toInt k.toInt) (d : Int64) :
    (transposedSize attrs axis (lit n) (lit k)).simplify ≠ lit d := by
  have hmax : Int64.maxValue.toInt = 2 ^ 63 - 1 := Int64.toInt_maxValue
  obtain ⟨c, b, a, hc, hb, ha, hround⟩ :=
    exists_simplifyRound_transposedSize hpadding hadded hlt n k
  have hspread := summand_foldMul_pred hstride hn
  have hreach := summand_foldMul_pred hdilation hk
  have hpaddings : ∀ t ∈ (foldAdd (lit b) (lit a)).operands .add, t.Summand :=
    inert_summand.forall_operands_foldAdd (inert_summand.forall_operands (.lit b))
      (inert_summand.forall_operands (.lit a))
  rcases foldMul_pred hstride hn with ⟨hspreadLe, x, hx, hxValue⟩ | ⟨_, j, _, hj⟩
  case inr =>
    apply Stuck.simplify_ne_lit inert_summand gauge_toInt
    rw [hround]
    apply stuck_of_product hspread hreach hpaddings
    rw [hj]
    exact .inl fun _ => SymExpr.noConfusion
  rcases foldMul_pred hdilation hk with ⟨hreachLe, y, hy, hyValue⟩ | ⟨_, j, _, hj⟩
  case inr =>
    apply Stuck.simplify_ne_lit inert_summand gauge_toInt
    rw [hround]
    apply stuck_of_product hspread hreach hpaddings
    rw [hj]
    exact .inr fun _ => SymExpr.noConfusion
  have hspreadNonneg := mul_pred_nonneg hstride hn
  have hreachNonneg := mul_pred_nonneg hdilation hk
  rw [Int64.le_iff_toInt_le, Int64.le_iff_toInt_le, Int64.toInt_zero] at hpadding
  rw [Int64.le_iff_toInt_le, Int64.toInt_zero] at hadded
  have hcomm : (n.toInt - 1) * (attrs.conv.strides.get axis).toInt =
      (attrs.conv.strides.get axis).toInt * (n.toInt - 1) := Int.mul_comm _ _
  rw [hx, hy] at hround
  by_cases hpair : 2 ^ 63 <
      (attrs.conv.padding.before axis).toInt + (attrs.conv.padding.after axis).toInt
  · have hcne : c ≠ 0 := by
      rintro rfl
      rw [Int64.toInt_zero] at hc
      omega
    rw [foldAdd_lits_of_lt (by omega)] at hround
    obtain ⟨hne, hsecond⟩ := simplifyRound_foldAdd_pair (a := a) (b := b) (x := x) (y := y) hcne
    rw [← hround] at hne hsecond
    have hunfit : Int64.maxValue.toInt < c.toInt + x.toInt ∨
        c.toInt + x.toInt + b.toInt + a.toInt < -2 ^ 63 := by
      by_contra hnone
      apply h
      refine ⟨by omega, hreachLe, ?_, fun _ => ⟨by omega, by omega⟩⟩
      unfold spreadLength
      omega
    obtain ⟨v, limit, hv, hstuck⟩ := stuck_foldl_pair (c := c) (a := a) (b := b) (x := x) (y := y)
      (by omega) (by omega) (by omega) (by omega) hunfit
    rw [← hsecond] at hstuck
    exact hstuck.simplify_ne_lit_of_second_round inert_summand hv hne d
  · apply Stuck.simplify_ne_lit inert_summand gauge_toInt
    rw [hround]
    have hpads := (isLitOf_lit b).foldAdd (isLitOf_lit a) (by omega) (by omega)
    have hcropped := (isLitOf_lit x).foldAdd hpads (by omega) (by omega)
    apply stuck_of_max_lt hcropped (isLitOf_lit y) (by omega) (by omega)
    by_contra htotal
    apply h
    refine ⟨by omega, hreachLe, ?_, fun hlt => absurd hlt hpair⟩
    unfold spreadLength
    omega

theorem exists_checkedSimplify?_transposedSize_iff :
    (∃ s, (transposedSize attrs axis (lit n) (lit k)).checkedSimplify? = some s) ↔
      SpreadFits attrs axis n.toInt k.toInt := by
  constructor
  · rintro ⟨s, hs⟩
    have hlits (a : Int64) : (lit a).Constant true := trivial
    obtain ⟨m, rfl⟩ := eq_lit_of_checkedSimplify?
      (settled_simplify_transposedSize (hlits n) (hlits k)) hs
    by_contra hfits
    exact simplify_transposedSize_ne_lit hpadding hadded hlt hstride hdilation hn hk hfits m
      (checkedSimplify?_eq_some_iff.1 hs).2
  · intro hfits
    obtain ⟨m, hm, _⟩ :=
      isLitOf_simplify_transposedSize hpadding hadded hlt hstride hdilation hn hk hfits
    exact ⟨lit m, checkedSimplify?_of_simplify_lit hm⟩

end Spread

end TensorIR.Conv2d
