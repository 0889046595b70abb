import TensorIR.Proofs.SymExpr.Quotient

/-!
Sums of literals. Their terms are added from left to right and keep their order, so a sum folds to a
literal where the partial sums fit; and where the first terms are not negative and add up to more
than a literal holds, no round of simplification ever finds two of them that fit together.
-/

namespace TensorIR

namespace SymExpr

section Folds

variable {l r e : SymExpr} {m n : Int}

/-- The literal of this integer. -/
def IsLitOf (n : Int) (e : SymExpr) : Prop :=
  ∃ a : Int64, e = lit a ∧ a.toInt = n

theorem isLitOf_lit (a : Int64) : (lit a).IsLitOf a.toInt :=
  ⟨a, rfl, rfl⟩

theorem exists_toInt_eq (hlo : -2 ^ 63 ≤ n) (hhi : n < 2 ^ 63) : ∃ a : Int64, a.toInt = n :=
  ⟨Int64.ofInt n, Int64.toInt_ofInt_of_le hlo hhi⟩

theorem foldAdd_zero (e : SymExpr) : foldAdd e (lit 0) = e := by
  unfold SymExpr.foldAdd
  split
  case isTrue hzero => exact (eq_lit_of_isLit hzero).symm
  case isFalse => rfl

theorem IsLitOf.foldAdd (hl : l.IsLitOf m) (hr : r.IsLitOf n) (hlo : -2 ^ 63 ≤ m + n)
    (hhi : m + n < 2 ^ 63) : (foldAdd l r).IsLitOf (m + n) := by
  obtain ⟨a, rfl, ha⟩ := hl
  obtain ⟨b, rfl, hb⟩ := hr
  obtain ⟨c, hc⟩ := exists_toInt_eq hlo hhi
  simp only [SymExpr.foldAdd, isLit, beq_iff_eq]
  split
  case isTrue hzero =>
    rw [hzero, Int64.toInt_zero] at ha
    exact ⟨b, rfl, by omega⟩
  case isFalse =>
    split
    case isTrue hzero =>
      rw [hzero, Int64.toInt_zero] at hb
      exact ⟨a, rfl, by omega⟩
    case isFalse =>
      have hlits : foldLits .add (lit a) (lit b) = some (lit c) :=
        congrArg (Option.map lit) (Int64.add?_eq_some_iff.2 (by omega))
      rw [hlits]
      exact ⟨c, rfl, hc⟩

theorem IsLitOf.foldMul (hl : l.IsLitOf m) (hr : r.IsLitOf n) (hlo : -2 ^ 63 ≤ m * n)
    (hhi : m * n < 2 ^ 63) : (foldMul l r).IsLitOf (m * n) := by
  obtain ⟨a, rfl, rfl⟩ := hl
  obtain ⟨b, rfl, rfl⟩ := hr
  obtain ⟨c, hc⟩ := exists_toInt_eq hlo hhi
  rw [foldMul_lits, Int64.mul?_eq_some_iff.2 hc]
  exact ⟨c, rfl, hc⟩

theorem IsLitOf.foldNeg (he : e.IsLitOf n) (hlo : -2 ^ 63 ≤ -n) (hhi : -n < 2 ^ 63) :
    (foldNeg e).IsLitOf (-n) := by
  obtain ⟨a, rfl, rfl⟩ := he
  obtain ⟨b, hb⟩ := exists_toInt_eq hlo hhi
  rw [SymExpr.foldNeg, Int64.neg?_eq_some_iff.2 hb]
  exact ⟨b, rfl, hb⟩

theorem checkedSimplify?_of_simplify_lit {a : Int64} (h : e.simplify = lit a) :
    e.checkedSimplify? = some (lit a) := by
  apply checkedSimplify?_eq_some_iff.2
  rw [h]
  exact ⟨rfl, rfl⟩

theorem exists_of_foldLits_add (h : foldLits .add l r = some e) :
    ∃ a b c : Int64, l = lit a ∧ r = lit b ∧ e = lit c ∧ a.add? b = some c := by
  unfold foldLits at h
  split at h
  · rw [Option.map_eq_some_iff] at h
    obtain ⟨c, hc, rfl⟩ := h
    exact ⟨_, _, c, rfl, rfl, rfl, hc⟩
  · cases h

end Folds

section Inert

variable {C : SymExpr → Prop} {e t : SymExpr} {ts : List SymExpr}

/-- Terms that rounds leave alone, and that neither cancel each other nor a sum. -/
structure Inert (C : SymExpr → Prop) : Prop where
  ofLit (a : Int64) : C (lit a)
  isTerm {t : SymExpr} (h : C t) : t.IsTerm
  isOpposite_eq_false {t u : SymExpr} (ht : C t) (hu : C u) : t.isOpposite u = false
  negates_add_eq_false {t : SymExpr} (h : C t) (l r : SymExpr) :
    isOpposite.negates t (add l r) = false

theorem eq_add_or_operands_eq (e : SymExpr) :
    (∃ l r, e = add l r) ∨ e.operands .add = [e] := by
  cases e with
  | bin op l r =>
    by_cases hop : op = .add
    · exact .inl ⟨l, r, by rw [hop]⟩
    · exact .inr (by rw [operands, if_neg hop])
  | _ => exact .inr rfl

variable (hC : Inert C)
include hC

theorem Inert.forall_operands (h : C t) : ∀ u ∈ t.operands .add, C u := by
  rw [(hC.isTerm h).operands_eq]
  exact List.forall_mem_singleton.2 h

theorem Inert.negates_eq_false {l r : SymExpr} (hl : ∀ u ∈ l.operands .add, C u)
    (hr : ∀ u ∈ r.operands .add, C u) : isOpposite.negates r l = false := by
  rcases eq_add_or_operands_eq r with ⟨x, y, rfl⟩ | hright
  · rfl
  rw [hright, List.forall_mem_singleton] at hr
  rcases eq_add_or_operands_eq l with ⟨x, y, rfl⟩ | hleft
  · exact hC.negates_add_eq_false hr x y
  · rw [hleft, List.forall_mem_singleton] at hl
    exact (Bool.or_eq_false_iff.1 (hC.isOpposite_eq_false hr hl)).2

theorem Inert.cancelOpposites_eq (h : ∀ t ∈ ts, C t) : cancelOpposites ts = ts := by
  fun_induction cancelOpposites ts with
  | case1 t u ts hopposite ih =>
    rw [hC.isOpposite_eq_false (h t (by simp)) (h u (by simp))] at hopposite
    cases hopposite
  | case2 t u ts _ ih => rw [ih fun x hx => h x (List.mem_cons_of_mem t hx)]
  | case3 => rfl

/-- A round brings the literals to the front, in their order, and adds from left to right. -/
theorem Inert.simplifyRound_eq (h : ∀ u ∈ e.operands .add, C u)
    (hsort : sortTerms (e.operands .add) = t :: ts) : e.simplifyRound = ts.foldl foldAdd t := by
  rcases eq_add_or_operands_eq e with ⟨l, r, rfl⟩ | hterm
  · have hsorted : ∀ u ∈ t :: ts, C u := by
      intro u hu
      rw [← hsort, (sortTerms_perm _).mem_iff] at hu
      exact h u hu
    have hcanonical : ((add l r).operands .add).map canonicalize = (add l r).operands .add :=
      (List.map_congr_left fun u hu => (hC.isTerm (h u hu)).canonicalize_eq).trans (List.map_id _)
    have hfold : ∀ u ∈ t :: ts, u.fold = u := fun u hu => (hC.isTerm (hsorted u hu)).fold_eq
    rw [List.forall_mem_cons] at hfold
    rw [simplifyRound, canonicalize_add, hcanonical, sumOf, hsort, hC.cancelOpposites_eq hsorted,
      ofOperands, fold_foldl hfold.2, hfold.1]
    rfl
  · rw [hterm, List.forall_mem_singleton] at h
    rw [hterm] at hsort
    cases hsort
    exact (hC.isTerm h).simplifyRound_eq

end Inert

section Summands

/-- What the size of a window subtracts: a literal, or a product of literals that does not fit. -/
inductive Addend : SymExpr → Prop where
  | lit (a : Int64) : Addend (lit a)
  | neg_product {a b : Int64} (h : a.mul? b = none) : Addend (neg (mul (lit a) (lit b)))

theorem inert_addend : Inert Addend where
  ofLit := .lit
  isTerm h := by
    cases h with
    | lit a => exact isTerm_lit a
    | neg_product h =>
      refine ⟨?_, ?_, rfl⟩
      · rw [canonicalize_neg, canonicalize_mul_lits]
        rfl
      · rw [fold, fold, fold, fold, foldBin, foldMul_lits, h]
        rfl
  isOpposite_eq_false ht hu := by cases ht <;> cases hu <;> rfl
  negates_add_eq_false ht l r := by cases ht <;> rfl

/-- What the size of a transposed window adds. -/
inductive Summand : SymExpr → Prop where
  | lit (a : Int64) : Summand (lit a)
  | product {a b : Int64} (h : a.mul? b = none) : Summand (mul (lit a) (lit b))

theorem inert_summand : Inert Summand where
  ofLit := .lit
  isTerm h := by
    cases h with
    | lit a => exact isTerm_lit a
    | product h =>
      refine ⟨canonicalize_mul_lits _ _, ?_, rfl⟩
      rw [fold, fold, fold, foldBin, foldMul_lits, h]
      rfl
  isOpposite_eq_false ht hu := by cases ht <;> cases hu <;> rfl
  negates_add_eq_false ht l r := by cases ht <;> rfl

end Summands

section Stuck

variable {C : SymExpr → Prop} {v : Int64 → Int} {limit room : Int} {l r e : SymExpr}
  {ts : List SymExpr}

/-- A direction in which sums of literals grow, and how far literals reach in it. -/
structure Gauge (v : Int64 → Int) (limit : Int) : Prop where
  add? {a b c : Int64} (h : a.add? b = some c) : v c = v a + v b
  le (a : Int64) : v a ≤ limit

theorem gauge_toInt : Gauge Int64.toInt Int64.maxValue.toInt where
  add? := Int64.add?_eq_some_iff.1
  le a := a.toInt_le

theorem gauge_neg : Gauge (fun a => -a.toInt) (2 ^ 63) where
  add? h := by
    rw [Int64.add?_eq_some_iff.1 h]
    omega
  le a := by
    have hle := a.le_toInt
    omega

theorem Gauge.zero (hv : Gauge v limit) : v 0 = 0 := by
  have hzero : (0 : Int64).add? 0 = some 0 := by decide
  have hadd := hv.add? hzero
  omega

/-- The first terms are literals that only grow the sum, to more than there is room for. -/
def Overfills (v : Int64 → Int) (room : Int) : List SymExpr → Prop
  | lit a :: ts => 0 ≤ v a ∧ (room < v a ∨ Overfills v (room - v a) ts)
  | _ => False

theorem Overfills.of_le {less : Int} (h : Overfills v room ts) (hle : less ≤ room) :
    Overfills v less ts := by
  induction ts generalizing room less with
  | nil => exact h
  | cons t ts ih =>
    cases t with
    | lit a =>
      refine ⟨h.1, h.2.imp ?_ ?_⟩
      · intro hlt
        omega
      · intro hrest
        exact ih hrest (by omega)
    | _ => exact h

theorem Overfills.sortTerms (h : Overfills v room ts) : Overfills v room (sortTerms ts) := by
  induction ts generalizing room with
  | nil => exact h
  | cons t ts ih =>
    cases t with
    | lit a =>
      rw [sortTerms_lit_cons]
      exact ⟨h.1, h.2.imp_right ih⟩
    | _ => exact h.elim

theorem Overfills.of_zero (us : List SymExpr) (h : Overfills v room (us ++ lit 0 :: ts))
    (hzero : v 0 = 0) (hroom : 0 ≤ room) :
    Overfills v room (us ++ ts) := by
  induction us generalizing room with
  | nil =>
    rcases h.2 with hlt | hrest
    · omega
    · rwa [hzero, Int.sub_zero] at hrest
  | cons u us ih =>
    cases u with
    | lit a =>
      rw [List.cons_append] at h ⊢
      refine ⟨h.1, ?_⟩
      by_cases hlt : room < v a
      · exact .inl hlt
      · exact .inr (ih (h.2.resolve_left hlt) (by omega))
    | _ => exact h.elim

theorem Overfills.of_add {a b c : Int64} (hv : Gauge v limit)
    (h : Overfills v limit (lit a :: lit b :: ts)) (hc : a.add? b = some c) :
    Overfills v limit (lit c :: ts) := by
  have ha := hv.le a
  have hle := hv.le c
  have hadd := hv.add? hc
  obtain ⟨hapos, hrest⟩ := h
  obtain ⟨hbpos, hrest⟩ := hrest.resolve_left (by omega)
  refine ⟨by omega, .inr ?_⟩
  rw [hadd, ← Int.sub_sub]
  exact hrest.resolve_left (by omega)

/--
Terms that never add up to a literal: their sum leaves the range on the way, or one of them is no
literal.
-/
structure Stuck (C : SymExpr → Prop) (v : Int64 → Int) (limit : Int) (ts : List SymExpr) :
    Prop where
  inert : ∀ t ∈ ts, C t
  unfit : Overfills v limit ts ∨ ∃ t ∈ ts, ∀ a, t ≠ lit a

theorem Stuck.ne_lit (hv : Gauge v limit) (h : Stuck C v limit (e.operands .add)) (a : Int64) :
    e ≠ lit a := by
  rintro rfl
  rcases h.unfit with hfills | ⟨t, ht, hlit⟩
  · have hle := hv.le a
    rcases hfills.2 with hlt | hrest
    · omega
    · exact hrest
  · exact hlit a (List.mem_singleton.1 ht)

section Sums

variable (hC : Inert C)
include hC

theorem Inert.foldAdd_cases (hl : ∀ u ∈ l.operands .add, C u) (hr : ∀ u ∈ r.operands .add, C u) :
    (l = lit 0 ∧ foldAdd l r = r) ∨ (r = lit 0 ∧ foldAdd l r = l) ∨
      (∃ a b c, l = lit a ∧ r = lit b ∧ foldAdd l r = lit c ∧ a.add? b = some c) ∨
      foldAdd l r = add l r := by
  unfold foldAdd
  split
  case isTrue hzero => exact .inl ⟨eq_lit_of_isLit hzero, rfl⟩
  case isFalse =>
    split
    case isTrue hzero => exact .inr (.inl ⟨eq_lit_of_isLit hzero, rfl⟩)
    case isFalse =>
      split
      case h_1 hlits =>
        obtain ⟨a, b, c, rfl, rfl, rfl, hc⟩ := exists_of_foldLits_add hlits
        exact .inr (.inr (.inl ⟨a, b, c, rfl, rfl, rfl, hc⟩))
      case h_2 =>
        rw [hC.negates_eq_false hl hr]
        exact .inr (.inr (.inr rfl))

theorem Inert.forall_operands_foldAdd (hl : ∀ u ∈ l.operands .add, C u)
    (hr : ∀ u ∈ r.operands .add, C u) : ∀ u ∈ (foldAdd l r).operands .add, C u := by
  rcases hC.foldAdd_cases hl hr with ⟨_, heq⟩ | ⟨_, heq⟩ | ⟨_, _, c, _, _, heq, _⟩ | heq
  · rwa [heq]
  · rwa [heq]
  · rw [heq]
    exact hC.forall_operands (hC.ofLit c)
  · rw [heq, operands_bin_self]
    exact List.forall_mem_append.2 ⟨hl, hr⟩

theorem Inert.exists_operand_foldAdd (hl : ∀ u ∈ l.operands .add, C u)
    (hr : ∀ u ∈ r.operands .add, C u)
    (h : ∃ t ∈ l.operands .add ++ r.operands .add, ∀ a, t ≠ lit a) :
    ∃ t ∈ (foldAdd l r).operands .add, ∀ a, t ≠ lit a := by
  have hlit (a : Int64) : ¬ ∃ t ∈ (lit a).operands .add, ∀ b, t ≠ lit b := by
    rintro ⟨t, ht, hne⟩
    exact hne a (List.mem_singleton.1 ht)
  simp only [List.mem_append, or_and_right, exists_or] at h
  rcases hC.foldAdd_cases hl hr with ⟨rfl, heq⟩ | ⟨rfl, heq⟩ | ⟨a, b, _, rfl, rfl, _, _⟩ | heq
  · rw [heq]
    exact h.resolve_left (hlit 0)
  · rw [heq]
    exact h.resolve_right (hlit 0)
  · exact absurd h (not_or.2 ⟨hlit a, hlit b⟩)
  · simpa only [heq, operands_bin_self, List.mem_append, or_and_right, exists_or] using h

theorem Overfills.foldAdd (hv : Gauge v limit) (hl : ∀ u ∈ l.operands .add, C u)
    (hr : ∀ u ∈ r.operands .add, C u)
    (h : Overfills v limit (l.operands .add ++ (r.operands .add ++ ts))) :
    Overfills v limit ((foldAdd l r).operands .add ++ ts) := by
  have hlimit : 0 ≤ limit := hv.zero ▸ hv.le 0
  rcases hC.foldAdd_cases hl hr with ⟨rfl, heq⟩ | ⟨rfl, heq⟩ | ⟨a, b, c, rfl, rfl, heq, hc⟩ | heq
  · rw [heq]
    exact of_zero [] h hv.zero hlimit
  · rw [heq]
    exact of_zero _ h hv.zero hlimit
  · rw [heq]
    exact h.of_add hv hc
  · rwa [heq, operands_bin_self, List.append_assoc]

/-- The next sum is added to what the terms before it left, or stays behind it. -/
theorem Stuck.foldAdd (hv : Gauge v limit)
    (h : Stuck C v limit (l.operands .add ++ (r.operands .add ++ ts))) :
    Stuck C v limit ((foldAdd l r).operands .add ++ ts) := by
  obtain ⟨hinert, hunfit⟩ := h
  simp only [List.forall_mem_append] at hinert
  obtain ⟨hl, hr, hts⟩ := hinert
  refine ⟨List.forall_mem_append.2 ⟨hC.forall_operands_foldAdd hl hr, hts⟩, ?_⟩
  rcases hunfit with hfills | hterm
  · exact .inl (hfills.foldAdd hC hv hl hr)
  · right
    rw [← List.append_assoc] at hterm
    obtain ⟨t, ht, hlit⟩ := hterm
    rcases List.mem_append.1 ht with ht | ht
    · obtain ⟨u, hu, hlit⟩ := hC.exists_operand_foldAdd hl hr ⟨t, ht, hlit⟩
      exact ⟨u, List.mem_append_left ts hu, hlit⟩
    · exact ⟨t, List.mem_append_right _ ht, hlit⟩

theorem Stuck.foldl (hv : Gauge v limit) (h : Stuck C v limit (e.operands .add ++ ts)) :
    Stuck C v limit ((ts.foldl SymExpr.foldAdd e).operands .add) := by
  induction ts generalizing e with
  | nil => rwa [List.append_nil] at h
  | cons t ts ih =>
    apply ih
    apply Stuck.foldAdd hC hv
    rwa [(hC.isTerm (h.inert t (by simp))).operands_eq]

/-- No round makes the sum fit. -/
theorem Stuck.simplifyRound (hv : Gauge v limit) (h : Stuck C v limit (e.operands .add)) :
    Stuck C v limit (e.simplifyRound.operands .add) := by
  have hmem (t : SymExpr) : t ∈ SymExpr.sortTerms (e.operands .add) ↔ t ∈ e.operands .add :=
    (sortTerms_perm _).mem_iff
  have hsorted : Stuck C v limit (SymExpr.sortTerms (e.operands .add)) := by
    constructor
    · intro t ht
      exact h.inert t ((hmem t).1 ht)
    · refine h.unfit.imp Overfills.sortTerms ?_
      rintro ⟨t, ht, hlit⟩
      exact ⟨t, (hmem t).2 ht, hlit⟩
  cases hsort : SymExpr.sortTerms (e.operands .add) with
  | nil =>
    rw [hsort] at hsorted
    rcases hsorted.unfit with hfills | ⟨t, ht, _⟩
    · exact hfills.elim
    · cases ht
  | cons t ts =>
    rw [hsort] at hsorted
    rw [hC.simplifyRound_eq h.inert hsort]
    apply Stuck.foldl hC hv
    rwa [(hC.isTerm (hsorted.inert t List.mem_cons_self)).operands_eq]

theorem Stuck.simplify_ne_lit (hv : Gauge v limit)
    (h : Stuck C v limit (e.simplifyRound.operands .add)) (a : Int64) : e.simplify ≠ lit a :=
  Stuck.ne_lit hv (simplify_induction (P := fun e => Stuck C v limit (e.operands .add)) h
    fun _ he => he.simplifyRound hC hv) a

/-- Terms may take one more round to get stuck, if there is no literal before it. -/
theorem Stuck.simplify_ne_lit_of_second_round (hv : Gauge v limit)
    (hfirst : ∀ a, e.simplifyRound ≠ lit a)
    (h : Stuck C v limit (e.simplifyRound.simplifyRound.operands .add)) (a : Int64) :
    e.simplify ≠ lit a := by
  have hinvariant : e.simplify = e.simplifyRound ∨ Stuck C v limit (e.simplify.operands .add) := by
    refine simplify_induction
      (P := fun s => s = e.simplifyRound ∨ Stuck C v limit (s.operands .add)) (.inl rfl) ?_
    rintro s (rfl | hs)
    · exact .inr h
    · exact .inr (hs.simplifyRound hC hv)
  rcases hinvariant with heq | hstuck
  · rw [heq]
    exact hfirst a
  · exact hstuck.ne_lit hv a

end Sums

end Stuck

section Literals

variable {e : SymExpr} {a : Int64} {as : List Int64}

theorem sortTerms_map_lit (as : List Int64) : sortTerms (as.map lit) = as.map lit := by
  induction as with
  | nil => rfl
  | cons a as ih => rw [List.map_cons, sortTerms_lit_cons, ih]

theorem simplifyRound_of_operands_lits (as : List Int64) (h : e.operands .add = (a :: as).map lit) :
    e.simplifyRound = (as.map lit).foldl foldAdd (lit a) := by
  have hterms : ∀ u ∈ e.operands .add, Addend u := by
    rw [h, List.forall_mem_map]
    intro b _
    exact .lit b
  apply inert_addend.simplifyRound_eq hterms
  rw [h, sortTerms_map_lit, List.map_cons]

theorem simplify_of_second_round_lit (h : e.simplifyRound.simplifyRound = lit a) :
    e.simplify = lit a := by
  rw [simplify, simplifyRounds]
  rw [h]
  split
  case isTrue hsame =>
    cases he : e.simplifyRound with
    | lit b =>
      rw [he, (isTerm_lit b).simplifyRound_eq] at h
      exact h
    | _ =>
      rw [he] at hsame
      cases hsame
  case isFalse => exact simplifyRounds_lit 6 a

theorem foldAdd_lit_add (l r : SymExpr) :
    foldAdd (lit a) (add l r) = if a = 0 then add l r else add (lit a) (add l r) := by
  by_cases ha : a = 0
  · simp [foldAdd, isLit, ha]
  · simp [foldAdd, isLit, ha, foldLits, isOpposite.negates]

theorem foldAdd_add_lit (l r : SymExpr) :
    foldAdd (add l r) (lit a) = if a = 0 then add l r else add (add l r) (lit a) := by
  by_cases ha : a = 0
  · simp [foldAdd, isLit, ha]
  · simp [foldAdd, isLit, ha, foldLits, isOpposite.negates]

theorem foldAdd_lits_of_lt {b : Int64} (h : a.toInt + b.toInt < -2 ^ 63) :
    foldAdd (lit a) (lit b) = add (lit a) (lit b) := by
  have haMin := a.le_toInt
  have hbMin := b.le_toInt
  rcases inert_addend.foldAdd_cases (inert_addend.forall_operands (.lit a))
    (inert_addend.forall_operands (.lit b)) with
    ⟨hzero, _⟩ | ⟨hzero, _⟩ | ⟨x, y, c, hx, hy, _, hc⟩ | heq
  · cases hzero
    rw [Int64.toInt_zero] at h
    omega
  · cases hzero
    rw [Int64.toInt_zero] at h
    omega
  · cases hx
    cases hy
    have hcMin := c.le_toInt
    rw [Int64.add?_eq_some_iff.1 hc] at hcMin
    omega
  · exact heq

/-- Two literals that are kept apart keep those before and behind them apart, for one round. -/
theorem simplifyRound_foldAdd_pair {b c x y : Int64} (hc : c ≠ 0) :
    let e := foldAdd (foldAdd (lit c) (foldAdd (lit x) (add (lit b) (lit a)))) (lit y)
    (∀ d, e ≠ lit d) ∧ e.simplifyRound = ([x, b, a, y].map lit).foldl foldAdd (lit c) := by
  by_cases hx : x = 0
  · by_cases hy : y = 0
    · simp only [foldAdd_lit_add, foldAdd_add_lit, hc, hx, hy, if_true, if_false]
      refine ⟨fun _ => SymExpr.noConfusion, ?_⟩
      rw [simplifyRound_of_operands_lits [b, a] rfl]
      simp [foldAdd_zero]
    · simp only [foldAdd_lit_add, foldAdd_add_lit, hc, hx, hy, if_true, if_false]
      refine ⟨fun _ => SymExpr.noConfusion, ?_⟩
      rw [simplifyRound_of_operands_lits [b, a, y] rfl]
      simp [foldAdd_zero]
  · by_cases hy : y = 0
    · simp only [foldAdd_lit_add, foldAdd_add_lit, hc, hx, hy, if_true, if_false]
      refine ⟨fun _ => SymExpr.noConfusion, ?_⟩
      rw [simplifyRound_of_operands_lits [x, b, a] rfl]
      simp [foldAdd_zero]
    · simp only [foldAdd_lit_add, foldAdd_add_lit, hc, hx, hy, if_false]
      exact ⟨fun _ => SymExpr.noConfusion, simplifyRound_of_operands_lits [x, b, a, y] rfl⟩

end Literals

section Counts

variable {e n : SymExpr} {f : Int64}

/-- What counts the places of a window has no room for the padded input, or for its reach. -/
abbrev RoomStuck (e : SymExpr) : Prop :=
  Stuck Addend Int64.toInt Int64.maxValue.toInt (e.operands .add)

theorem RoomStuck.one_add (h : RoomStuck e) : RoomStuck (add (lit 1) e) := by
  have hone : (1 : Int64).toInt = 1 := Int64.toInt_one
  unfold RoomStuck
  rw [operands_bin_self]
  constructor
  · exact List.forall_mem_append.2 ⟨inert_addend.forall_operands (.lit 1), h.inert⟩
  · refine h.unfit.imp ?_ ?_
    · intro hfills
      exact ⟨by omega, .inr (hfills.of_le (by omega))⟩
    · rintro ⟨t, ht, hlit⟩
      exact ⟨t, List.mem_append_right _ ht, hlit⟩

theorem RoomStuck.foldAdd_foldQuotient (h : RoomStuck e) (f : Int64) :
    foldAdd (lit 1) (foldQuotient .div e (lit f)) =
      add (lit 1) (if f = 1 then e else div e (lit f)) := by
  have hquotient : foldQuotient .div e (lit f) = if f = 1 then e else div e (lit f) := by
    rcases eq_add_or_operands_eq e with ⟨l, r, rfl⟩ | hterm
    · exact foldQuotient_of_operands (fun _ => SymExpr.noConfusion) rfl fun _ _ h => by cases h
    · have haddend := h.inert e (by simp [hterm])
      cases haddend with
      | lit a => exact absurd rfl (h.ne_lit gauge_toInt a)
      | neg_product _ =>
        exact foldQuotient_of_operands (fun _ => SymExpr.noConfusion) rfl fun _ _ h => by cases h
  have hsum : foldAdd (lit 1) e = add (lit 1) e := by
    rcases inert_addend.foldAdd_cases (inert_addend.forall_operands (.lit 1)) h.inert with
      ⟨hzero, _⟩ | ⟨hzero, _⟩ | ⟨_, b, _, _, hlit, _⟩ | heq
    · cases hzero
    · exact absurd hzero (h.ne_lit gauge_toInt 0)
    · exact absurd hlit (h.ne_lit gauge_toInt b)
    · exact heq
  rw [hquotient]
  split
  · exact hsum
  · rfl

/-- One more than a quotient of such a sum is no literal: the sum stays as it is. -/
theorem RoomStuck.simplify_count_ne_lit (h : RoomStuck n.simplifyRound) (a : Int64) :
    (add (div n (lit f)) (lit 1)).simplify ≠ lit a := by
  have hround {e n : SymExpr}
      (he : e = add (div n (lit f)) (lit 1) ∨ e = add (lit 1) (div n (lit f)))
      (h : RoomStuck n.simplifyRound) :
      RoomStuck e.simplifyRound ∨
        ∃ n, RoomStuck n ∧ e.simplifyRound = add (lit 1) (div n (lit f)) := by
    rw [simplifyRound_count_eq he, h.foldAdd_foldQuotient]
    split
    · exact .inl h.one_add
    · exact .inr ⟨_, h, rfl⟩
  have hinvariant : RoomStuck (add (div n (lit f)) (lit 1)).simplify ∨
      ∃ m, RoomStuck m ∧
        (add (div n (lit f)) (lit 1)).simplify = add (lit 1) (div m (lit f)) := by
    refine simplify_induction
      (P := fun e => RoomStuck e ∨ ∃ m, RoomStuck m ∧ e = add (lit 1) (div m (lit f))) ?_ ?_
    · exact hround (.inl rfl) h
    · rintro e (he | ⟨m, hm, rfl⟩)
      · exact .inl (he.simplifyRound inert_addend gauge_toInt)
      · exact hround (.inr rfl) (hm.simplifyRound inert_addend gauge_toInt)
  rcases hinvariant with h | ⟨m, _, heq⟩
  · exact h.ne_lit gauge_toInt a
  · rw [heq]
    exact SymExpr.noConfusion

end Counts

end SymExpr

end TensorIR
