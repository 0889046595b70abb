import TensorIR.Proofs.SymExpr.Eval

/-!
Rewriting of expressions by the laws of integer arithmetic. A literal comes out of a law only as the
exact value of an operation on literals, or as the neutral or absorbing element of an operation.
Main statements: rewriting keeps the value of an expression that has one, and what an assignment
must respect.
-/

namespace TensorIR

def BinOp.neutral? : BinOp → Option Int64
  | .add => some 0
  | .mul => some 1
  | _ => none

def BinOp.isQuotient : BinOp → Bool
  | .div | .ceilDiv => true
  | _ => false

namespace SymExpr

inductive Law : SymExpr → SymExpr → Prop where
  -- The operands of a nest are grouped and ordered anew.
  | regroup {op : BinOp} {a b : SymExpr} (hop : op.isAssocComm = true)
      (h : (a.operands op).Perm (b.operands op)) : Law a b
  -- A negated literal whose negation fits.
  | foldNeg {a b : Int64} (h : b.toInt = -a.toInt) : Law (neg (lit a)) (lit b)
  -- An operation on literals whose exact result fits.
  | fold {op : BinOp} {a b c : Int64} (h : op.eval? a.toInt b.toInt = some c.toInt) :
      Law (bin op (lit a) (lit b)) (lit c)
  | negNeg (e : SymExpr) : Law (neg (neg e)) e
  | negAdd (l r : SymExpr) : Law (neg (add l r)) (add (neg l) (neg r))
  | subAsAdd (l r : SymExpr) : Law (sub l r) (add l (neg r))
  | subSelf {l r : SymExpr} (h : l.same r = true) : Law (sub l r) (lit 0)
  | addNeg {l r : SymExpr} (h : l.same r = true) : Law (add l (neg r)) (lit 0)
  | subZero (e : SymExpr) : Law (sub e (lit 0)) e
  | mulZero (e : SymExpr) : Law (mul e (lit 0)) (lit 0)
  | dropNeutral {op : BinOp} {u : Int64} (h : op.neutral? = some u) (e : SymExpr) :
      Law (bin op e (lit u)) e
  | putNeutral {op : BinOp} {u : Int64} (h : op.neutral? = some u) (e : SymExpr) :
      Law e (bin op e (lit u))
  | quotientOne {op : BinOp} (hop : op.isQuotient = true) (e : SymExpr) : Law (bin op e (lit 1)) e
  -- A factor that dividend and divisor share; the literal zero is none.
  | cancelFactor {op : BinOp} (hop : op.isQuotient = true) (l r : SymExpr) {a b : SymExpr}
      (h : a.same b = true) (hzero : b.isLit 0 = false) :
      Law (bin op (mul l a) (mul r b)) (bin op l r)
  -- Two divisions in a row by positive literals whose product fits.
  | mergeQuotients {op : BinOp} (hop : op.isQuotient = true) (e : SymExpr) {b c d : Int64}
      (hb : 0 < b) (hc : 0 < c) (h : d.toInt = b.toInt * c.toInt) :
      Law (bin op (bin op e (lit b)) (lit c)) (bin op e (lit d))
  | modOne (e : SymExpr) : Law (mod e (lit 1)) (lit 0)
  | modFactor (e : SymExpr) {a b : SymExpr} (h : a.same b = true) (hzero : b.isLit 0 = false) :
      Law (mod (mul e a) b) (lit 0)

/-- Laws applied one after the other, anywhere in an expression. -/
inductive Rewrites : SymExpr → SymExpr → Prop where
  | refl (e : SymExpr) : Rewrites e e
  | law {a b : SymExpr} (h : Law a b) : Rewrites a b
  | neg {a b : SymExpr} (h : Rewrites a b) : Rewrites (neg a) (neg b)
  | bin (op : BinOp) {a b c d : SymExpr} (hl : Rewrites a c) (hr : Rewrites b d) :
      Rewrites (bin op a b) (bin op c d)
  | trans {a b c : SymExpr} (h : Rewrites a b) (h' : Rewrites b c) : Rewrites a c

section Values

variable {σ : Assignment}

theorem fdiv_mul_right_cancel (n d : Int) {x : Int} (hx : x ≠ 0) :
    (n * x).fdiv (d * x) = n.fdiv d := by
  rw [Int.mul_comm n, Int.mul_comm d]
  rcases Int.lt_or_gt_of_ne hx with hneg | hpos
  · rw [← Int.neg_fdiv_neg, ← Int.neg_mul, ← Int.neg_mul]
    exact Int.mul_fdiv_mul_of_pos n d (Int.neg_pos_of_neg hneg)
  · exact Int.mul_fdiv_mul_of_pos n d hpos

theorem fdiv_fdiv_of_pos (n : Int) {b c : Int} (hb : 0 < b) (hc : 0 < c) :
    (n.fdiv b).fdiv c = n.fdiv (b * c) := by
  rw [Int.fdiv_eq_ediv_of_nonneg n (Int.le_of_lt hb),
    Int.fdiv_eq_ediv_of_nonneg _ (Int.le_of_lt hc),
    Int.fdiv_eq_ediv_of_nonneg n (Int.le_of_lt (Int.mul_pos hb hc))]
  exact Int.ediv_ediv_of_nonneg (Int.le_of_lt hb)

theorem eq_lit_of_isLit {e : SymExpr} {a : Int64} (h : e.isLit a = true) : e = lit a := by
  cases e with
  | lit b =>
    simp only [isLit, beq_iff_eq] at h
    rw [h]
  | _ => simp [isLit] at h

theorem eval?_dropNeutral {op : BinOp} {u : Int64} (h : op.neutral? = some u) (e : SymExpr) :
    (bin op e (lit u)).eval? σ = e.eval? σ := by
  simp only [eval?, Option.bind_eq_bind, Option.bind_some]
  cases op with
  | add =>
    obtain rfl := Option.some.inj h
    simp only [BinOp.eval?, Int64.toInt_zero, Int.add_zero, Option.bind_fun_some]
  | mul =>
    obtain rfl := Option.some.inj h
    simp only [BinOp.eval?, Int64.toInt_one, Int.mul_one, Option.bind_fun_some]
  | _ => simp [BinOp.neutral?] at h

theorem eval?_quotient_eq_some_iff {op : BinOp} (hop : op.isQuotient = true) {l r : SymExpr}
    {v : Int} :
    (bin op l r).eval? σ = some v ↔
      ∃ a b, l.eval? σ = some a ∧ r.eval? σ = some b ∧ b ≠ 0 ∧
        (if op = .div then a.fdiv b else -((-a).fdiv b)) = v := by
  -- What holds of rounding down for all dividends holds of rounding up.
  cases op with
  | div => exact eval?_div_eq_some_iff
  | ceilDiv => exact eval?_ceilDiv_eq_some_iff
  | _ => simp [BinOp.isQuotient] at hop

theorem eval?_cancelFactor {op : BinOp} (hop : op.isQuotient = true) {l r a b : SymExpr}
    (h : a.same b = true) {v : Int} (hv : (bin op (mul l a) (mul r b)).eval? σ = some v) :
    (bin op l r).eval? σ = some v := by
  rw [eval?_quotient_eq_some_iff hop] at hv ⊢
  obtain ⟨_, _, hla, hrb, hne, hv⟩ := hv
  obtain ⟨n, x, hn, hx, rfl⟩ := eval?_mul_eq_some_iff.1 hla
  obtain ⟨d, y, hd, hy, rfl⟩ := eval?_mul_eq_some_iff.1 hrb
  rw [eval?_eq_of_same h, hy, Option.some.injEq] at hx
  subst hx
  obtain ⟨hd0, hy0⟩ := Int.mul_ne_zero_iff.1 hne
  refine ⟨n, d, hn, hd, hd0, ?_⟩
  rwa [fdiv_mul_right_cancel n d hy0, ← Int.neg_mul, fdiv_mul_right_cancel (-n) d hy0] at hv

theorem eval?_mergeQuotients {op : BinOp} (hop : op.isQuotient = true) {e : SymExpr}
    {b c d : Int64} (hb : 0 < b) (hc : 0 < c) (hd : d.toInt = b.toInt * c.toInt) {v : Int}
    (hv : (bin op (bin op e (lit b)) (lit c)).eval? σ = some v) :
    (bin op e (lit d)).eval? σ = some v := by
  have hb' := Int64.lt_iff_toInt_lt.1 hb
  have hc' := Int64.lt_iff_toInt_lt.1 hc
  rw [Int64.toInt_zero] at hb' hc'
  have hd' : d.toInt ≠ 0 := by
    rw [hd]
    exact Int.ne_of_gt (Int.mul_pos hb' hc')
  rw [eval?_quotient_eq_some_iff hop] at hv ⊢
  obtain ⟨q, _, hq, hr, -, rfl⟩ := hv
  obtain ⟨n, _, hn, hr', -, rfl⟩ := (eval?_quotient_eq_some_iff hop).1 hq
  simp only [eval?_lit, Option.some.injEq] at hr hr'
  subst hr hr'
  refine ⟨n, d.toInt, hn, rfl, hd', ?_⟩
  split
  · rw [hd, fdiv_fdiv_of_pos n hb' hc']
  · rw [hd, Int.neg_neg, fdiv_fdiv_of_pos (-n) hb' hc']

theorem Law.eval?_eq_some {a b : SymExpr} (h : Law a b) {v : Int} (hv : a.eval? σ = some v) :
    b.eval? σ = some v := by
  cases h with
  | regroup hop h => exact eval?_of_operands_perm hop h hv
  | foldNeg h =>
    obtain ⟨x, hx, rfl⟩ := eval?_neg_eq_some_iff.1 hv
    rw [eval?_lit, Option.some.injEq] at hx
    rw [eval?_lit, h, hx]
  | fold h =>
    obtain ⟨x, y, hx, hy, hxy⟩ := eval?_bin_eq_some_iff.1 hv
    rw [eval?_lit, Option.some.injEq] at hx hy
    rw [eval?_lit, ← h, hx, hy, hxy]
  | negNeg e =>
    obtain ⟨x, hx, rfl⟩ := eval?_neg_eq_some_iff.1 hv
    obtain ⟨y, hy, rfl⟩ := eval?_neg_eq_some_iff.1 hx
    rw [hy, Int.neg_neg]
  | negAdd l r =>
    obtain ⟨x, hx, rfl⟩ := eval?_neg_eq_some_iff.1 hv
    obtain ⟨y, z, hy, hz, rfl⟩ := eval?_add_eq_some_iff.1 hx
    rw [eval?_add_eq_some_iff]
    refine ⟨-y, -z, eval?_neg_eq_some_iff.2 ⟨y, hy, rfl⟩, eval?_neg_eq_some_iff.2 ⟨z, hz, rfl⟩, ?_⟩
    rw [Int.neg_add]
  | subAsAdd l r =>
    obtain ⟨x, y, hx, hy, rfl⟩ := eval?_sub_eq_some_iff.1 hv
    rw [eval?_add_eq_some_iff]
    refine ⟨x, -y, hx, eval?_neg_eq_some_iff.2 ⟨y, hy, rfl⟩, ?_⟩
    rw [Int.sub_eq_add_neg]
  | subSelf h =>
    obtain ⟨x, y, hx, hy, rfl⟩ := eval?_sub_eq_some_iff.1 hv
    rw [eval?_eq_of_same h, hy, Option.some.injEq] at hx
    rw [eval?_lit, Int64.toInt_zero, hx, Int.sub_self]
  | addNeg h =>
    obtain ⟨x, y, hx, hy, rfl⟩ := eval?_add_eq_some_iff.1 hv
    obtain ⟨z, hz, rfl⟩ := eval?_neg_eq_some_iff.1 hy
    rw [eval?_eq_of_same h, hz, Option.some.injEq] at hx
    rw [eval?_lit, Int64.toInt_zero, hx, Int.add_right_neg]
  | subZero e =>
    obtain ⟨x, y, hx, hy, rfl⟩ := eval?_sub_eq_some_iff.1 hv
    rw [eval?_lit, Int64.toInt_zero, Option.some.injEq] at hy
    rw [hx, ← hy, Int.sub_zero]
  | mulZero e =>
    obtain ⟨x, y, hx, hy, rfl⟩ := eval?_mul_eq_some_iff.1 hv
    rw [eval?_lit, Int64.toInt_zero, Option.some.injEq] at hy
    rw [eval?_lit, Int64.toInt_zero, ← hy, Int.mul_zero]
  | dropNeutral h e => rwa [eval?_dropNeutral h] at hv
  | putNeutral h e => rwa [eval?_dropNeutral h]
  | quotientOne hop e =>
    obtain ⟨x, y, hx, hy, _, rfl⟩ := (eval?_quotient_eq_some_iff hop).1 hv
    rw [eval?_lit, Int64.toInt_one, Option.some.injEq] at hy
    rw [hx, ← hy, Int.fdiv_one, Int.fdiv_one, Int.neg_neg, ite_self]
  | cancelFactor hop l r h _ => exact eval?_cancelFactor hop h hv
  | mergeQuotients hop e hb hc h => exact eval?_mergeQuotients hop hb hc h hv
  | modOne e =>
    obtain ⟨x, y, hx, hy, _, rfl⟩ := eval?_mod_eq_some_iff.1 hv
    rw [eval?_lit, Int64.toInt_one, Option.some.injEq] at hy
    rw [eval?_lit, Int64.toInt_zero, ← hy, Int.fmod_one]
  | modFactor e h _ =>
    obtain ⟨_, y, hea, hy, _, rfl⟩ := eval?_mod_eq_some_iff.1 hv
    obtain ⟨n, x, hn, hx, rfl⟩ := eval?_mul_eq_some_iff.1 hea
    rw [eval?_eq_of_same h, hy, Option.some.injEq] at hx
    rw [eval?_lit, Int64.toInt_zero, hx, Int.mul_fmod_left]

theorem Rewrites.eval?_eq_some {a b : SymExpr} (h : Rewrites a b) {v : Int}
    (hv : a.eval? σ = some v) : b.eval? σ = some v := by
  induction h generalizing v with
  | refl e => exact hv
  | law h => exact h.eval?_eq_some hv
  | neg _ ih =>
    obtain ⟨x, hx, rfl⟩ := eval?_neg_eq_some_iff.1 hv
    exact eval?_neg_eq_some_iff.2 ⟨x, ih hx, rfl⟩
  | bin op _ _ ihl ihr =>
    obtain ⟨x, y, hx, hy, hxy⟩ := eval?_bin_eq_some_iff.1 hv
    exact eval?_bin_eq_some_iff.2 ⟨x, y, ihl hx, ihr hy, hxy⟩
  | trans _ _ ih ih' => exact ih' (ih hv)

end Values

section Assumptions

variable {σ : Assignment}

theorem Law.respects {a b : SymExpr} (h : Law a b) (ha : a.Respects σ) : b.Respects σ := by
  cases h with
  | regroup hop h =>
    rw [respects_iff_operands] at ha ⊢
    intro x hx
    exact ha x (h.mem_iff.2 hx)
  | _ => simp_all [Respects]

theorem Rewrites.respects {a b : SymExpr} (h : Rewrites a b) (ha : a.Respects σ) :
    b.Respects σ := by
  induction h with
  | refl e => exact ha
  | law h => exact h.respects ha
  | neg _ ih => exact ih ha
  | bin op _ _ ihl ihr => exact ⟨ihl ha.1, ihr ha.2⟩
  | trans _ _ ih ih' => exact ih' (ih ha)

end Assumptions

end SymExpr

end TensorIR
