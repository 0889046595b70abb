import TensorIR.Proofs.SymExpr.Eval
import TensorIR.SymExpr.Simplify

/-!
Changing what is assumed of symbols. Simplification looks at the names of symbols only, so it takes
the same decisions on two expressions that differ in nothing but the other data of their symbols,
and its results differ in the same way.
-/

namespace TensorIR.SymExpr

def mapSymbols (f : Symbol → Symbol) : SymExpr → SymExpr
  | .lit a => .lit a
  | .sym s => .sym (f s)
  | .neg e => .neg (e.mapSymbols f)
  | .bin op l r => .bin op (l.mapSymbols f) (r.mapSymbols f)

variable {f : Symbol → Symbol} {op : BinOp}

section Shape

theorem isLit_mapSymbols (a : Int64) (e : SymExpr) : (e.mapSymbols f).isLit a = e.isLit a := by
  cases e <;> rfl

theorem operands_mapSymbols (e : SymExpr) :
    (e.mapSymbols f).operands op = (e.operands op).map (mapSymbols f) := by
  induction e with
  | bin op' l r ihl ihr =>
    rw [mapSymbols, operands, operands, ihl, ihr]
    split
    · rw [List.map_append]
    · rfl
  | _ => rfl

theorem ofOperands_mapSymbols (unit : SymExpr) (es : List SymExpr) :
    ofOperands op (unit.mapSymbols f) (es.map (mapSymbols f)) =
      (ofOperands op unit es).mapSymbols f := by
  cases es with
  | nil => rfl
  | cons e es =>
    rw [List.map_cons, ofOperands, ofOperands]
    induction es generalizing e with
    | nil => rfl
    | cons d es ih => exact ih (.bin op e d)

theorem sum?_mapSymbols (e : SymExpr) :
    (e.mapSymbols f).sum? = e.sum?.map fun p => (p.1.mapSymbols f, p.2.mapSymbols f) := by
  cases e with
  | bin op l r => cases op <;> rfl
  | _ => rfl

theorem foldNeg_mapSymbols (e : SymExpr) : foldNeg (e.mapSymbols f) = (foldNeg e).mapSymbols f := by
  cases e with
  | lit a =>
    rw [mapSymbols, foldNeg]
    cases a.neg? <;> rfl
  | _ => rfl

theorem negateTerm_mapSymbols (e : SymExpr) :
    negateTerm (e.mapSymbols f) = (negateTerm e).mapSymbols f := by
  cases e with
  | lit a => exact foldNeg_mapSymbols (lit a)
  | sym s => rfl
  | neg e => rfl
  | bin op l r => rfl

theorem foldLits_mapSymbols (l r : SymExpr) :
    foldLits op (l.mapSymbols f) (r.mapSymbols f) = (foldLits op l r).map (mapSymbols f) := by
  cases l with
  | lit a =>
    cases r with
    | lit b =>
      rw [mapSymbols, mapSymbols, foldLits]
      cases op.fold? a b <;> rfl
    | _ => rfl
  | _ => rfl

theorem mergeQuotients_mapSymbols (l r : SymExpr) :
    mergeQuotients op (l.mapSymbols f) (r.mapSymbols f) =
      (mergeQuotients op l r).map (mapSymbols f) := by
  cases r with
  | lit c =>
    cases l with
    | bin op' l b =>
      cases b with
      | lit b =>
        simp only [mapSymbols, mergeQuotients]
        split
        · cases b.mul? c <;> rfl
        · rfl
      | _ => rfl
    | _ => rfl
  | _ =>
    cases l with
    | bin op' l b => cases b <;> rfl
    | _ => rfl

end Shape

section Names

variable (hf : ∀ s, (f s).name = s.name)
include hf

theorem same_mapSymbols (a b : SymExpr) : (a.mapSymbols f).same (b.mapSymbols f) = a.same b := by
  induction a generalizing b with
  | lit x => cases b <;> rfl
  | sym s =>
    cases b with
    | sym t => simp only [mapSymbols, same, hf]
    | _ => rfl
  | neg x ih =>
    cases b with
    | neg y => exact ih y
    | _ => rfl
  | bin op x y ihx ihy =>
    cases b with
    | bin op' z w => simp only [mapSymbols, same, ihx, ihy]
    | _ => rfl

theorem name?_mapSymbols (e : SymExpr) : (e.mapSymbols f).name? = e.name? := by
  induction e with
  | sym s => exact congrArg some (hf s)
  | neg e ih => exact ih
  | _ => rfl

theorem precedes_mapSymbols (a b : SymExpr) :
    (a.mapSymbols f).precedes (b.mapSymbols f) = a.precedes b := by
  have ha := name?_mapSymbols hf a
  have hb := name?_mapSymbols hf b
  cases a with
  | lit x => rfl
  | _ =>
    cases b with
    | lit y => rfl
    | _ =>
      simp only [mapSymbols] at ha hb ⊢
      simp only [precedes, ha, hb]

theorem negates_mapSymbols (a b : SymExpr) :
    isOpposite.negates (a.mapSymbols f) (b.mapSymbols f) = isOpposite.negates a b := by
  cases a with
  | neg x => exact same_mapSymbols hf b x
  | _ => rfl

theorem isOpposite_mapSymbols (a b : SymExpr) :
    (a.mapSymbols f).isOpposite (b.mapSymbols f) = a.isOpposite b := by
  rw [isOpposite, isOpposite, negates_mapSymbols hf, negates_mapSymbols hf]

theorem cancelOpposites_mapSymbols (es : List SymExpr) :
    cancelOpposites (es.map (mapSymbols f)) = (cancelOpposites es).map (mapSymbols f) := by
  fun_induction cancelOpposites es with
  | case1 a b es h ih =>
    rw [List.map_cons, List.map_cons, cancelOpposites, isOpposite_mapSymbols hf, if_pos h, ih]
  | case2 a b es h ih =>
    rw [List.map_cons] at ih
    rw [List.map_cons, List.map_cons, cancelOpposites, isOpposite_mapSymbols hf, if_neg h, ih]
    rfl
  | case3 es h =>
    cases es with
    | nil => rfl
    | cons a es =>
      cases es with
      | nil => rfl
      | cons b es => exact absurd rfl (h a b es)

theorem insertTerm_mapSymbols (a : SymExpr) (es : List SymExpr) :
    insertTerm (a.mapSymbols f) (es.map (mapSymbols f)) =
      (insertTerm a es).map (mapSymbols f) := by
  induction es with
  | nil => rfl
  | cons b es ih =>
    rw [List.map_cons, insertTerm, insertTerm, precedes_mapSymbols hf, ih]
    split <;> rfl

theorem sortTerms_mapSymbols (es : List SymExpr) :
    sortTerms (es.map (mapSymbols f)) = (sortTerms es).map (mapSymbols f) := by
  induction es with
  | nil => rfl
  | cons a es ih => rw [List.map_cons, sortTerms, sortTerms, ih, insertTerm_mapSymbols hf]

theorem sumOf_mapSymbols (es : List SymExpr) :
    sumOf (es.map (mapSymbols f)) = (sumOf es).mapSymbols f := by
  rw [sumOf, sortTerms_mapSymbols hf, cancelOpposites_mapSymbols hf]
  exact ofOperands_mapSymbols (lit 0) _

theorem productOf_mapSymbols (es : List SymExpr) :
    productOf (es.map (mapSymbols f)) = (productOf es).mapSymbols f := by
  rw [productOf, sortTerms_mapSymbols hf]
  exact ofOperands_mapSymbols (lit 1) _

theorem canonicalize_mapSymbols (e : SymExpr) :
    (e.mapSymbols f).canonicalize = e.canonicalize.mapSymbols f := by
  match e with
  | .lit a => rw [mapSymbols, canonicalize_lit, mapSymbols]
  | .sym s => rw [mapSymbols, canonicalize_sym, canonicalize_sym, mapSymbols]
  | .neg e =>
    rw [mapSymbols, canonicalize_neg, canonicalize_neg, canonicalize_mapSymbols e, sum?_mapSymbols]
    cases h : e.canonicalize.sum? with
    | none => exact negateTerm_mapSymbols e.canonicalize
    | some p =>
      have hweight := weight_canonicalize_le e
      rw [eq_add_of_sum? h] at hweight
      have hlt : (add (neg p.1) (neg p.2)).weight < (neg e).weight := by
        simp only [weight] at hweight ⊢
        omega
      exact canonicalize_mapSymbols (add (neg p.1) (neg p.2))
  | .bin .add l r =>
    have hoperands : (operands .add (add l r)).map (fun a => (a.mapSymbols f).canonicalize) =
        (operands .add (add l r)).map fun a => a.canonicalize.mapSymbols f := by
      apply List.map_congr_left
      intro a ha
      have := weight_lt_of_mem_operands ha
      exact canonicalize_mapSymbols a
    have hadd : (mapSymbols f (add l r)) = add (l.mapSymbols f) (r.mapSymbols f) := rfl
    rw [hadd, canonicalize_add, canonicalize_add, ← hadd, operands_mapSymbols, List.map_map,
      ← sumOf_mapSymbols hf, List.map_map]
    exact congrArg sumOf hoperands
  | .bin .mul l r =>
    have hoperands : (operands .mul (mul l r)).map (fun a => (a.mapSymbols f).canonicalize) =
        (operands .mul (mul l r)).map fun a => a.canonicalize.mapSymbols f := by
      apply List.map_congr_left
      intro a ha
      have := weight_lt_of_mem_operands ha
      exact canonicalize_mapSymbols a
    have hmul : (mapSymbols f (mul l r)) = mul (l.mapSymbols f) (r.mapSymbols f) := rfl
    rw [hmul, canonicalize_mul, canonicalize_mul, ← hmul, operands_mapSymbols, List.map_map,
      ← productOf_mapSymbols hf, List.map_map]
    exact congrArg productOf hoperands
  | .bin .sub l r =>
    have hl := weight_canonicalize_le l
    have hr := weight_canonicalize_le r
    have hlt : (add l.canonicalize (neg r.canonicalize)).weight < (sub l r).weight := by
      simp only [weight]
      omega
    rw [mapSymbols, canonicalize_sub, canonicalize_sub, canonicalize_mapSymbols l,
      canonicalize_mapSymbols r]
    exact canonicalize_mapSymbols (add l.canonicalize (neg r.canonicalize))
  | .bin .div l r =>
    rw [mapSymbols, canonicalize_div, canonicalize_div, canonicalize_mapSymbols l,
      canonicalize_mapSymbols r]
    rfl
  | .bin .ceilDiv l r =>
    rw [mapSymbols, canonicalize_ceilDiv, canonicalize_ceilDiv, canonicalize_mapSymbols l,
      canonicalize_mapSymbols r]
    rfl
  | .bin .mod l r =>
    rw [mapSymbols, canonicalize_mod, canonicalize_mod, canonicalize_mapSymbols l,
      canonicalize_mapSymbols r]
    rfl
termination_by e.weight
decreasing_by
  all_goals first
    | assumption
    | (simp only [weight]; omega)

end Names

section Folding

variable (hf : ∀ s, (f s).name = s.name)
include hf

theorem foldAdd_mapSymbols (l r : SymExpr) :
    foldAdd (l.mapSymbols f) (r.mapSymbols f) = (foldAdd l r).mapSymbols f := by
  simp only [foldAdd, isLit_mapSymbols, foldLits_mapSymbols, negates_mapSymbols hf]
  split
  · rfl
  · split
    · rfl
    · cases foldLits .add l r with
      | some e => rfl
      | none =>
        dsimp only [Option.map_none]
        split <;> rfl

theorem foldSub_mapSymbols (l r : SymExpr) :
    foldSub (l.mapSymbols f) (r.mapSymbols f) = (foldSub l r).mapSymbols f := by
  simp only [foldSub, isLit_mapSymbols, foldLits_mapSymbols, same_mapSymbols hf]
  split
  · rfl
  · cases foldLits .sub l r with
    | some e => rfl
    | none =>
      dsimp only [Option.map_none]
      split <;> rfl

omit hf in
theorem foldMul_mapSymbols (l r : SymExpr) :
    foldMul (l.mapSymbols f) (r.mapSymbols f) = (foldMul l r).mapSymbols f := by
  simp only [foldMul, isLit_mapSymbols, foldLits_mapSymbols]
  split
  · rfl
  · split
    · rfl
    · split
      · rfl
      · cases foldLits .mul l r <;> rfl

theorem foldMod_mapSymbols (l r : SymExpr) :
    foldMod (l.mapSymbols f) (r.mapSymbols f) = (foldMod l r).mapSymbols f := by
  have hfactor : (l.mapSymbols f).hasFactor (r.mapSymbols f) = l.hasFactor r := by
    simp only [hasFactor, isLit_mapSymbols, operands_mapSymbols, List.length_map, List.any_map,
      Function.comp_def, same_mapSymbols hf]
  simp only [foldMod, isLit_mapSymbols, foldLits_mapSymbols, hfactor]
  split
  · rfl
  · cases foldLits .mod l r with
    | some e => rfl
    | none =>
      dsimp only [Option.map_none]
      split <;> rfl

theorem cancelFactors_mapSymbols (ns ds : List SymExpr) :
    cancelFactors (ns.map (mapSymbols f)) (ds.map (mapSymbols f)) =
      ((cancelFactors ns ds).1.map (mapSymbols f), (cancelFactors ns ds).2.map (mapSymbols f)) := by
  induction ns generalizing ds with
  | nil => rfl
  | cons n ns ih =>
    have hpartner : (fun d => (n.mapSymbols f).same d && !d.isLit 0) ∘ mapSymbols f =
        fun d => n.same d && !d.isLit 0 := by
      funext d
      simp only [Function.comp_apply, same_mapSymbols hf, isLit_mapSymbols]
    simp only [List.map_cons, cancelFactors, List.any_map, List.eraseP_map, hpartner, ih]
    split <;> rfl

theorem foldQuotient_mapSymbols (op : BinOp) (l r : SymExpr) :
    foldQuotient op (l.mapSymbols f) (r.mapSymbols f) = (foldQuotient op l r).mapSymbols f := by
  have hremove : removeCommonFactors (l.mapSymbols f) (r.mapSymbols f) =
      ((removeCommonFactors l r).1.mapSymbols f, (removeCommonFactors l r).2.mapSymbols f) := by
    simp only [removeCommonFactors, operands_mapSymbols, cancelFactors_mapSymbols hf]
    exact Prod.ext (ofOperands_mapSymbols (lit 1) _) (ofOperands_mapSymbols (lit 1) _)
  unfold foldQuotient
  rw [hremove]
  generalize removeCommonFactors l r = rest
  simp only [isLit_mapSymbols, foldLits_mapSymbols, mergeQuotients_mapSymbols]
  split
  · rfl
  · cases foldLits op rest.1 rest.2 with
    | some e => rfl
    | none => cases mergeQuotients op rest.1 rest.2 <;> rfl

theorem fold_mapSymbols (e : SymExpr) : (e.mapSymbols f).fold = e.fold.mapSymbols f := by
  induction e with
  | lit a => rfl
  | sym s => rfl
  | neg e ih => rw [mapSymbols, fold, fold, ih, foldNeg_mapSymbols]
  | bin op l r ihl ihr =>
    rw [mapSymbols, fold, fold, ihl, ihr]
    cases op with
    | add => exact foldAdd_mapSymbols hf _ _
    | sub => exact foldSub_mapSymbols hf _ _
    | mul => exact foldMul_mapSymbols _ _
    | div => exact foldQuotient_mapSymbols hf .div _ _
    | ceilDiv => exact foldQuotient_mapSymbols hf .ceilDiv _ _
    | mod => exact foldMod_mapSymbols hf _ _

theorem simplifyRound_mapSymbols (e : SymExpr) :
    (e.mapSymbols f).simplifyRound = e.simplifyRound.mapSymbols f := by
  rw [simplifyRound, canonicalize_mapSymbols hf, fold_mapSymbols hf, simplifyRound]

theorem simplifyRounds_mapSymbols (n : Nat) (e : SymExpr) :
    simplifyRounds n (e.mapSymbols f) = (simplifyRounds n e).mapSymbols f := by
  induction n generalizing e with
  | zero => rfl
  | succ n ih =>
    simp only [simplifyRounds, simplifyRound_mapSymbols hf, same_mapSymbols hf]
    split
    · rfl
    · exact ih e.simplifyRound

theorem simplify_mapSymbols (e : SymExpr) :
    (e.mapSymbols f).simplify = e.simplify.mapSymbols f := by
  rw [simplify, simplifyRound_mapSymbols hf, simplifyRounds_mapSymbols hf, simplify]

end Folding

end TensorIR.SymExpr
