import TensorIR.SymExpr.Basic

/-!
The canonical form of a symbolic expression. Differences become sums with negated terms, a negated
sum becomes the sum of the negated terms, and the terms of each sum and product are put in an order
that brings literals together and opposite terms side by side, where they cancel.

Canonicalization calls itself on sums that it has just built. `weight` bounds these calls: a
negation weighs more than twice its operand, so moving it to the terms of a sum loses weight.
-/

namespace TensorIR.SymExpr

def weight : SymExpr → Nat
  | .lit _ => 1
  | .sym _ => 1
  | .neg e => 2 * e.weight + 1
  | .bin .sub l r => l.weight + 2 * r.weight + 4
  | .bin _ l r => l.weight + r.weight + 2

theorem weight_pos (e : SymExpr) : 0 < e.weight := by
  unfold weight; split <;> omega

theorem weight_bin {op : BinOp} (h : op ≠ .sub) (l r : SymExpr) :
    (bin op l r).weight = l.weight + r.weight + 2 := by
  cases op <;> simp_all [weight]

theorem weight_le_of_mem_operands {op : BinOp} {a e : SymExpr} (h : a ∈ e.operands op) :
    a.weight ≤ e.weight := by
  induction e with
  | bin op' l r ihl ihr =>
    unfold operands at h
    split at h
    · have hw : l.weight + r.weight + 2 ≤ (bin op' l r).weight := by
        cases op' <;> simp only [weight] <;> omega
      rcases List.mem_append.1 h with h | h
      · have := ihl h; omega
      · have := ihr h; omega
    · exact Nat.le_of_eq (congrArg weight (List.mem_singleton.1 h))
  | _ =>
    simp only [operands, List.mem_singleton] at h
    exact Nat.le_of_eq (congrArg weight h)

theorem weight_lt_of_mem_operands {op : BinOp} {a l r : SymExpr}
    (h : a ∈ operands op (bin op l r)) : a.weight < (bin op l r).weight := by
  have hw : l.weight + r.weight + 2 ≤ (bin op l r).weight := by
    cases op <;> simp only [weight] <;> omega
  rw [operands, if_pos rfl] at h
  rcases List.mem_append.1 h with h | h
  · have := weight_le_of_mem_operands h; omega
  · have := weight_le_of_mem_operands h; omega

/-- The weight of a nest over the given terms, and the two units of one operator more. -/
def termsWeight : List SymExpr → Nat
  | [] => 0
  | e :: es => e.weight + 2 + termsWeight es

theorem termsWeight_append (es es' : List SymExpr) :
    termsWeight (es ++ es') = termsWeight es + termsWeight es' := by
  induction es with
  | nil => simp [termsWeight]
  | cons e es ih => simp only [List.cons_append, termsWeight]; omega

theorem termsWeight_perm {es es' : List SymExpr} (h : es.Perm es') :
    termsWeight es = termsWeight es' := by
  induction h with
  | nil => rfl
  | cons e _ ih => simp only [termsWeight, ih]
  | swap e e' _ => simp only [termsWeight]; omega
  | trans _ _ ih ih' => exact ih.trans ih'

theorem termsWeight_operands {op : BinOp} (h : op ≠ .sub) (e : SymExpr) :
    termsWeight (e.operands op) = e.weight + 2 := by
  induction e with
  | bin op' l r ihl ihr =>
    unfold operands
    split
    case isTrue heq =>
      subst heq
      rw [weight_bin h, termsWeight_append]
      omega
    case isFalse => simp [termsWeight]
  | _ => simp [termsWeight, operands]

theorem weight_ofOperands_le {op : BinOp} (h : op ≠ .sub) (a : Int64) {es : List SymExpr}
    {n : Nat} (hes : termsWeight es ≤ n + 2) (hn : 0 < n) :
    (ofOperands op (.lit a) es).weight ≤ n := by
  cases es with
  | nil => exact hn
  | cons e es =>
    have key : (es.foldl (.bin op) e).weight = e.weight + termsWeight es := by
      clear hes
      induction es generalizing e with
      | nil => simp [termsWeight]
      | cons e' es ih =>
        rw [List.foldl_cons, ih, weight_bin h]
        simp only [termsWeight]
        omega
    simp only [ofOperands, key]
    simp only [termsWeight] at hes
    omega

/--
Literals come first, then symbols and negated symbols by name, then all other terms. Terms that
this does not tell apart keep their order.
-/
def precedes (a b : SymExpr) : Bool :=
  match a, b with
  | .lit _, _ => true
  | _, .lit _ => false
  | a, b =>
    match a.name?, b.name? with
    | some n, some m => n ≤ m
    | some _, none => true
    | none, some _ => false
    | none, none => true

def cancelOpposites : List SymExpr → List SymExpr
  | a :: b :: es =>
    if a.isOpposite b then cancelOpposites es else a :: cancelOpposites (b :: es)
  | es => es

theorem termsWeight_cancelOpposites_le (es : List SymExpr) :
    termsWeight (cancelOpposites es) ≤ termsWeight es := by
  fun_induction cancelOpposites es with
  | case1 a b es _ ih =>
    simp only [termsWeight] at ih ⊢
    omega
  | case2 a b es _ ih =>
    simp only [termsWeight] at ih ⊢
    omega
  | case3 => exact Nat.le_refl _

def insertTerm (a : SymExpr) : List SymExpr → List SymExpr
  | [] => [a]
  | b :: es => if a.precedes b then a :: b :: es else b :: insertTerm a es

def sortTerms : List SymExpr → List SymExpr
  | [] => []
  | a :: es => insertTerm a (sortTerms es)

theorem insertTerm_perm (a : SymExpr) (es : List SymExpr) : (insertTerm a es).Perm (a :: es) := by
  induction es with
  | nil => exact List.Perm.refl _
  | cons b es ih =>
    unfold insertTerm
    split
    · exact List.Perm.refl _
    · exact (ih.cons b).trans (List.Perm.swap a b es)

theorem sortTerms_perm (es : List SymExpr) : (sortTerms es).Perm es := by
  induction es with
  | nil => exact List.Perm.refl _
  | cons a es ih => exact (insertTerm_perm a _).trans (ih.cons a)

def sumOf (es : List SymExpr) : SymExpr :=
  ofOperands .add (.lit 0) (cancelOpposites (sortTerms es))

def productOf (es : List SymExpr) : SymExpr :=
  ofOperands .mul (.lit 1) (sortTerms es)

theorem weight_sumOf_le {es : List SymExpr} {n : Nat} (hes : termsWeight es ≤ n + 2)
    (hn : 0 < n) : (sumOf es).weight ≤ n := by
  refine weight_ofOperands_le (by decide) 0 ?_ hn
  refine Nat.le_trans (termsWeight_cancelOpposites_le _) ?_
  rwa [termsWeight_perm (sortTerms_perm es)]

theorem weight_productOf_le {es : List SymExpr} {n : Nat} (hes : termsWeight es ≤ n + 2)
    (hn : 0 < n) : (productOf es).weight ≤ n :=
  weight_ofOperands_le (by decide) 1 (by rwa [termsWeight_perm (sortTerms_perm es)]) hn

theorem termsWeight_attach_map_le (es : List SymExpr)
    (f : { a // a ∈ es } → SymExpr) (hf : ∀ a, (f a).weight ≤ a.1.weight) :
    termsWeight (es.attach.map f) ≤ termsWeight es := by
  conv => rhs; rw [← List.attach_map_subtype_val es]
  generalize es.attach = as
  induction as with
  | nil => exact Nat.le_refl _
  | cons a as ih =>
    have := hf a
    simp only [List.map_cons, termsWeight] at ih ⊢
    omega

def foldNeg : SymExpr → SymExpr
  | .lit a => match a.neg? with
    | some b => .lit b
    | none => .neg (.lit a)
  | e => .neg e

theorem weight_foldNeg_le (e : SymExpr) : (foldNeg e).weight ≤ 2 * e.weight + 1 := by
  unfold foldNeg
  split
  · split <;> simp only [weight] <;> omega
  · exact Nat.le_refl _

def negateTerm : SymExpr → SymExpr
  | .neg e => e
  | e => foldNeg e

theorem weight_negateTerm_le (e : SymExpr) : (negateTerm e).weight ≤ 2 * e.weight + 1 := by
  unfold negateTerm
  split
  · simp only [weight]; omega
  · exact weight_foldNeg_le _

def sum? : SymExpr → Option (SymExpr × SymExpr)
  | .bin .add l r => some (l, r)
  | _ => none

theorem eq_add_of_sum? {e l r : SymExpr} (h : e.sum? = some (l, r)) : e = add l r := by
  unfold sum? at h
  split at h
  · simp_all
  · simp at h

/-- The canonical form, with the bound on its weight that the recursion needs. -/
def canonicalize.go (e : SymExpr) : { r : SymExpr // r.weight ≤ e.weight } :=
  match e with
  | .lit a => ⟨.lit a, Nat.le_refl _⟩
  | .sym s => ⟨.sym s, Nat.le_refl _⟩
  | .neg e =>
    let c := canonicalize.go e
    -- The terms of a negated sum are negated, so that they can cancel in a sum around it.
    match h : c.1.sum? with
    | none => ⟨negateTerm c.1, by
        have := weight_negateTerm_le c.1
        have := c.2
        simp only [weight]; omega⟩
    | some (l, r) =>
      have hlt : (add (.neg l) (.neg r)).weight < (neg e).weight := by
        have := c.2
        rw [eq_add_of_sum? h] at this
        simp only [weight] at this ⊢; omega
      let s := canonicalize.go (.add (.neg l) (.neg r))
      ⟨s.1, Nat.le_trans s.2 (Nat.le_of_lt hlt)⟩
  | .bin .add l r =>
    ⟨sumOf ((operands .add (.add l r)).attach.map fun a => (canonicalize.go a.1).1), by
      refine weight_sumOf_le ?_ (weight_pos _)
      refine Nat.le_trans (termsWeight_attach_map_le _ _ fun a => (canonicalize.go a.1).2) ?_
      exact Nat.le_of_eq (termsWeight_operands (by decide) _)⟩
  | .bin .mul l r =>
    ⟨productOf ((operands .mul (.mul l r)).attach.map fun a => (canonicalize.go a.1).1), by
      refine weight_productOf_le ?_ (weight_pos _)
      refine Nat.le_trans (termsWeight_attach_map_le _ _ fun a => (canonicalize.go a.1).2) ?_
      exact Nat.le_of_eq (termsWeight_operands (by decide) _)⟩
  | .bin .sub l r =>
    let l' := canonicalize.go l
    let r' := canonicalize.go r
    have hlt : (add l'.1 (.neg r'.1)).weight < (sub l r).weight := by
      have := l'.2
      have := r'.2
      simp only [weight]; omega
    let s := canonicalize.go (.add l'.1 (.neg r'.1))
    ⟨s.1, Nat.le_trans s.2 (Nat.le_of_lt hlt)⟩
  | .bin .div l r =>
    let l' := canonicalize.go l
    let r' := canonicalize.go r
    ⟨.div l'.1 r'.1, by have := l'.2; have := r'.2; simp only [weight]; omega⟩
  | .bin .ceilDiv l r =>
    let l' := canonicalize.go l
    let r' := canonicalize.go r
    ⟨.ceilDiv l'.1 r'.1, by have := l'.2; have := r'.2; simp only [weight]; omega⟩
  | .bin .mod l r =>
    let l' := canonicalize.go l
    let r' := canonicalize.go r
    ⟨.mod l'.1 r'.1, by have := l'.2; have := r'.2; simp only [weight]; omega⟩
termination_by e.weight
decreasing_by
  all_goals first
    | exact weight_lt_of_mem_operands a.2
    | (simp only [weight]; omega)
    | exact hlt

def canonicalize (e : SymExpr) : SymExpr :=
  (canonicalize.go e).1

theorem weight_canonicalize_le (e : SymExpr) : e.canonicalize.weight ≤ e.weight :=
  (canonicalize.go e).2

/-- Canonicalization without the bounds on weights. -/
theorem canonicalize_eq (e : SymExpr) :
    e.canonicalize =
      match e with
      | .lit a => .lit a
      | .sym s => .sym s
      | .neg e =>
        match e.canonicalize.sum? with
        | none => negateTerm e.canonicalize
        | some (l, r) => (add (neg l) (neg r)).canonicalize
      | .bin .add l r => sumOf ((operands .add (add l r)).map canonicalize)
      | .bin .mul l r => productOf ((operands .mul (mul l r)).map canonicalize)
      | .bin .sub l r => (add l.canonicalize (neg r.canonicalize)).canonicalize
      | .bin .div l r => div l.canonicalize r.canonicalize
      | .bin .ceilDiv l r => ceilDiv l.canonicalize r.canonicalize
      | .bin .mod l r => mod l.canonicalize r.canonicalize := by
  cases e with
  | lit a => rw [canonicalize, canonicalize.go]
  | sym s => rw [canonicalize, canonicalize.go]
  | neg e =>
    rw [canonicalize, canonicalize.go]
    dsimp only
    split
    case h_1 h => simp only [canonicalize, h]
    case h_2 h => simp only [canonicalize, h]
  | bin op l r =>
    cases op with
    | add =>
      rw [canonicalize, canonicalize.go]
      exact congrArg sumOf (List.attach_map_val (f := canonicalize))
    | mul =>
      rw [canonicalize, canonicalize.go]
      exact congrArg productOf (List.attach_map_val (f := canonicalize))
    | sub | div | ceilDiv | mod =>
      rw [canonicalize, canonicalize.go]
      rfl

@[simp]
theorem canonicalize_lit (a : Int64) : (lit a).canonicalize = lit a :=
  canonicalize_eq (lit a)

@[simp]
theorem canonicalize_sym (s : Symbol) : (sym s).canonicalize = sym s :=
  canonicalize_eq (sym s)

theorem canonicalize_neg (e : SymExpr) :
    (neg e).canonicalize =
      match e.canonicalize.sum? with
      | none => negateTerm e.canonicalize
      | some (l, r) => (add (neg l) (neg r)).canonicalize :=
  canonicalize_eq (neg e)

theorem canonicalize_add (l r : SymExpr) :
    (add l r).canonicalize = sumOf ((operands .add (add l r)).map canonicalize) :=
  canonicalize_eq (add l r)

theorem canonicalize_mul (l r : SymExpr) :
    (mul l r).canonicalize = productOf ((operands .mul (mul l r)).map canonicalize) :=
  canonicalize_eq (mul l r)

theorem canonicalize_sub (l r : SymExpr) :
    (sub l r).canonicalize = (add l.canonicalize (neg r.canonicalize)).canonicalize :=
  canonicalize_eq (sub l r)

theorem canonicalize_div (l r : SymExpr) :
    (div l r).canonicalize = div l.canonicalize r.canonicalize :=
  canonicalize_eq (div l r)

theorem canonicalize_ceilDiv (l r : SymExpr) :
    (ceilDiv l r).canonicalize = ceilDiv l.canonicalize r.canonicalize :=
  canonicalize_eq (ceilDiv l r)

theorem canonicalize_mod (l r : SymExpr) :
    (mod l r).canonicalize = mod l.canonicalize r.canonicalize :=
  canonicalize_eq (mod l r)

end TensorIR.SymExpr
