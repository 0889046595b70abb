import TensorIR.Proofs.SymExpr.Settling

/-!
How far rounds of simplification cancel in a flat sum at rest. Sorting puts terms of one symbol side
by side, so where a symbol occurs with both signs, two of its terms meet and cancel: a round takes
at least two terms from every symbol that is not yet down to its coefficient. It leaves the
composites in their order, so it takes at least two of them where they make up the empty word.
-/

namespace TensorIR.SymExpr

variable {R C : SymExpr → Prop} {e e' u v w : SymExpr} {p q : Part} {es ds : List SymExpr}
  {name : String}

section Order

def Part.ofName : Option String → Part
  | some name => .symbol name
  | none => .composite

/-- The part that a term belongs to. -/
def part : SymExpr → Part
  | .lit _ => .literal
  | e => .ofName e.name?

/-- The order in which sorting brings the parts. -/
def Part.Before : Part → Part → Prop
  | .literal, _ => True
  | .symbol n, .symbol m => n ≤ m
  | .symbol _, .composite => True
  | .composite, .composite => True
  | _, _ => False

theorem Part.Before.trans {r : Part} (hpq : p.Before q) (hqr : q.Before r) : p.Before r := by
  cases p <;> cases q <;> cases r <;> try trivial
  exact String.le_trans hpq hqr

theorem Part.Before.antisymm (hpq : p.Before q) (hqp : q.Before p) : p = q := by
  cases p <;> cases q <;> try trivial
  rw [String.le_antisymm hpq hqp]

theorem Part.Before.eq_literal (h : p.Before .literal) : p = .literal := by
  cases p with
  | literal => rfl
  | _ => exact h.elim

theorem Part.Before.eq_composite (h : Part.composite.Before p) : p = .composite := by
  cases p with
  | composite => rfl
  | _ => exact h.elim

theorem before_part_iff : u.part.Before v.part ↔ u.precedes v = true := by
  cases u with
  | lit a => simp [part, precedes, Part.Before]
  | _ =>
    simp only [part]
    generalize hn : name? _ = n
    cases v with
    | lit b => cases n <;> simp [precedes, Part.ofName, Part.Before]
    | _ =>
      simp only [precedes, hn]
      generalize name? _ = m
      cases n <;> cases m <;> simp [Part.ofName, Part.Before]

theorem Ordered.pairwise (h : Ordered es) :
    es.Pairwise fun u v => u.part.Before v.part := by
  have : Trans (α := SymExpr) (β := SymExpr) (γ := SymExpr) (fun u v => u.part.Before v.part)
      (fun u v => u.part.Before v.part) (fun u v => u.part.Before v.part) :=
    ⟨fun huv hvw => huv.trans hvw⟩
  apply List.IsChain.pairwise
  exact h.imp fun _ _ => before_part_iff.2

/-- In order, the terms of one part stand side by side. -/
theorem part_eq_of_ordered (h : Ordered (u :: v :: es)) (hw : w ∈ v :: es)
    (hpart : w.part = u.part) : v.part = u.part := by
  have hpairwise := h.pairwise
  rw [List.pairwise_cons, List.pairwise_cons] at hpairwise
  obtain ⟨hu, hv, _⟩ := hpairwise
  rcases List.mem_cons.1 hw with rfl | hw
  · exact hpart
  · have hvu := hv w hw
    rw [hpart] at hvu
    exact hvu.antisymm (hu v (by simp))

end Order

section Signs

theorem IsComposite.part_eq (h : u.IsComposite) : u.part = .composite := by
  obtain ⟨op, l, r, rfl, _⟩ := h.exists_bin
  rfl

theorem Base.coefficient_eq (h : Base R u) (p : Part) :
    u.coefficient p = if u.part = p then 1 else 0 := by
  cases h with
  | sym s => simp only [coefficient, part, name?, Part.ofName, eq_comm]
  | composite h =>
    rw [h.isComposite.coefficient_eq, h.isComposite.part_eq]
    simp only [eq_comm]

theorem Base.amount_eq (h : Base R u) (p : Part) : u.amount p = if u.part = p then 1 else 0 := by
  cases h with
  | sym s => simp only [amount, part, name?, Part.ofName, eq_comm]
  | composite h =>
    rw [h.isComposite.amount_eq, h.isComposite.part_eq]
    simp only [eq_comm]

theorem Base.part_neg (h : Base R u) : (neg u).part = u.part := by
  cases h with
  | sym s => rfl
  | composite h =>
    obtain ⟨op, l, r, rfl, _⟩ := h.isComposite.exists_bin
    rfl

theorem Base.part_ne_literal (h : Base R u) : u.part ≠ .literal := by
  cases h with
  | sym s => exact Part.noConfusion
  | composite h =>
    rw [h.isComposite.part_eq]
    exact Part.noConfusion

/-- Each term counts once for its part, with its sign, and for no other. -/
theorem Atom.coefficient_cases (h : Atom R u) (hp : p ≠ .literal) :
    u.part ≠ p ∧ u.coefficient p = 0 ∧ u.amount p = 0 ∨
      u.part = p ∧ u.amount p = 1 ∧ (u.coefficient p = 1 ∨ u.coefficient p = -1) := by
  cases h with
  | lit a => exact .inl ⟨hp.symm, if_neg hp, if_neg hp⟩
  | base h =>
    rw [h.coefficient_eq, h.amount_eq]
    split
    case isTrue hpart => exact .inr ⟨hpart, rfl, .inl rfl⟩
    case isFalse hpart => exact .inl ⟨hpart, rfl, rfl⟩
  | neg h =>
    rw [coefficient, amount, h.coefficient_eq, h.amount_eq, h.part_neg]
    split
    case isTrue hpart => exact .inr ⟨hpart, rfl, .inr rfl⟩
    case isFalse hpart => exact .inl ⟨hpart, rfl, rfl⟩

theorem Atom.part_eq_iff (h : Atom R u) (hp : p ≠ .literal) : u.part = p ↔ u.coefficient p ≠ 0 := by
  rcases h.coefficient_cases hp with h | h
  · exact iff_of_false h.1 (not_not.2 h.2.1)
  · exact iff_of_true h.1 (by omega)

theorem Base.eq_sym_of_part (h : Base R u) (hpart : u.part = .symbol name) :
    ∃ s : Symbol, u = SymExpr.sym s ∧ s.name = name := by
  cases h with
  | sym s => exact ⟨s, rfl, Part.symbol.inj hpart⟩
  | composite h =>
    rw [h.isComposite.part_eq] at hpart
    cases hpart

/-- A term of a symbol is the symbol, or its negation. -/
theorem Atom.eq_of_part (h : Atom R u) (hpart : u.part = .symbol name) :
    ∃ s : Symbol, s.name = name ∧ (u = sym s ∨ u = SymExpr.neg (sym s)) := by
  cases h with
  | lit a => cases hpart
  | base h =>
    obtain ⟨s, rfl, hname⟩ := h.eq_sym_of_part hpart
    exact ⟨s, hname, .inl rfl⟩
  | neg h =>
    rw [h.part_neg] at hpart
    obtain ⟨s, rfl, hname⟩ := h.eq_sym_of_part hpart
    exact ⟨s, hname, .inr rfl⟩

theorem Atom.isOpposite_of_coefficient (hu : Atom R u) (hv : Atom R v)
    (hne : u.coefficient (.symbol name) ≠ 0)
    (h : v.coefficient (.symbol name) = -u.coefficient (.symbol name)) :
    u.isOpposite v = true := by
  have hp : Part.symbol name ≠ .literal := Part.noConfusion
  obtain ⟨s, hs, hu⟩ := hu.eq_of_part ((hu.part_eq_iff hp).2 hne)
  obtain ⟨s', hs', hv⟩ := hv.eq_of_part ((hv.part_eq_iff hp).2 (by omega))
  -- Terms of one sign have the same coefficient, which is not zero.
  rcases hu with rfl | rfl
  · rcases hv with rfl | rfl
    · simp [coefficient, hs, hs'] at h
    · simp [isOpposite, isOpposite.negates, same, hs, hs']
  · rcases hv with rfl | rfl
    · simp [isOpposite, isOpposite.negates, same, hs, hs']
    · simp [coefficient, hs, hs'] at h

theorem Atom.add_eq_zero_of_isOpposite (hu : Atom (Rested C) u) (hv : Atom (Rested C) v)
    (h : u.isOpposite v = true) :
    (∀ p, u.coefficient p + v.coefficient p = 0) ∧ u.composites + v.composites = 0 := by
  have hzero := (tame_rested C).add_eq_zero_of_isOpposite hu.flat hv.flat h
  rwa [hu.flat.mapComposites_fold, hv.flat.mapComposites_fold] at hzero

end Signs

section Meeting

theorem sum_amount_cancelOpposites_le (p : Part) (es : List SymExpr) :
    ((cancelOpposites es).map (amount p)).sum ≤ (es.map (amount p)).sum := by
  apply ((cancelOpposites_sublist es).map (amount p)).sum_le_sum
  exact fun n _ => Nat.zero_le n

/--
Two terms of a part are taken out of a sum in order, if something holds of it that no tail loses
before two opposite terms of this part meet.
-/
theorem amount_cancelOpposites_of_meet {P : List SymExpr → Prop} (hp : p ≠ .literal)
    (hatom : ∀ u ∈ es, Atom (Rested C) u) (hordered : Ordered es) (h : P es)
    (hnil : ¬ P []) (hsingle : ∀ u, Atom (Rested C) u → ¬ P [u])
    (hskip : ∀ u es, Atom (Rested C) u → u.amount p = 0 → P (u :: es) → P es)
    (hnext : ∀ u v es, (∀ e ∈ u :: v :: es, Atom (Rested C) e) → Ordered (u :: v :: es) →
      ¬ u.isOpposite v = true → P (u :: v :: es) → P (v :: es)) :
    ((cancelOpposites es).map (amount p)).sum + 2 ≤ (es.map (amount p)).sum := by
  fun_induction cancelOpposites es with
  | case1 u v es hopposite ih =>
    rw [List.forall_mem_cons, List.forall_mem_cons] at hatom
    obtain ⟨hu, hv, hatom⟩ := hatom
    have hamountu := hu.coefficient_cases hp
    have hamountv := hv.coefficient_cases hp
    have hzero := (hu.add_eq_zero_of_isOpposite hv hopposite).1 p
    simp only [List.map_cons, List.sum_cons]
    by_cases hnone : u.amount p = 0
    · have hrest := hskip v es hv (by omega) (hskip u (v :: es) hu hnone h)
      have := ih hatom (List.IsChain.of_cons (List.IsChain.of_cons hordered)) hrest
      omega
    · have := sum_amount_cancelOpposites_le p es
      omega
  | case2 u v es hopposite ih =>
    have := ih (List.forall_mem_cons.1 hatom).2 (List.IsChain.of_cons hordered)
      (hnext u v es hatom hordered hopposite h)
    simp only [List.map_cons, List.sum_cons] at this ⊢
    omega
  | case3 es hlength =>
    cases es with
    | nil => exact absurd h hnil
    | cons u es =>
      cases es with
      | nil => exact absurd h (hsingle u (hatom u (by simp)))
      | cons v es => exact absurd rfl (hlength u v es)

end Meeting

section Symbols

/-- Two of the terms are opposite in this part. -/
def Opposed (p : Part) (es : List SymExpr) : Prop :=
  ∃ u ∈ es, ∃ v ∈ es, u.coefficient p ≠ 0 ∧ v.coefficient p = -u.coefficient p

theorem sum_amount_of_sign (hp : p ≠ .literal) (h : ∀ u ∈ es, Atom R u) (sign : Int)
    (hsign : ∀ u ∈ es, u.coefficient p = 0 ∨ u.coefficient p = sign)
    (hunit : sign = 1 ∨ sign = -1) :
    (es.map (coefficient p)).sum = sign * (es.map (amount p)).sum := by
  induction es with
  | nil => simp
  | cons u es ih =>
    rw [List.forall_mem_cons] at h hsign
    have hrest := ih h.2 hsign.2
    have hu := h.1.coefficient_cases hp
    simp only [List.map_cons, List.sum_cons, hrest, Nat.cast_add, Int.mul_add]
    congr 1
    rcases hunit with rfl | rfl <;> omega

theorem opposed_of_lt (hp : p ≠ .literal) (h : ∀ u ∈ es, Atom R u)
    (hlt : (es.map (coefficient p)).sum.natAbs < (es.map (amount p)).sum) : Opposed p es := by
  by_contra hopposed
  -- Without two opposite terms, all of them have the sign of the first that counts.
  have hsame : ∃ sign : Int, (sign = 1 ∨ sign = -1) ∧
      ∀ u ∈ es, u.coefficient p = 0 ∨ u.coefficient p = sign := by
    by_cases hpos : ∃ u ∈ es, u.coefficient p = 1
    · obtain ⟨u, hu, hone⟩ := hpos
      refine ⟨1, .inl rfl, ?_⟩
      intro v hv
      have := (h v hv).coefficient_cases hp
      by_contra hne
      exact hopposed ⟨u, hu, v, hv, by omega, by omega⟩
    · refine ⟨-1, .inr rfl, ?_⟩
      intro v hv
      have := (h v hv).coefficient_cases hp
      by_contra hne
      exact hpos ⟨v, hv, by omega⟩
  obtain ⟨sign, hunit, hsign⟩ := hsame
  have hsum := sum_amount_of_sign hp h sign hsign hunit
  rw [hsum] at hlt
  rcases hunit with rfl | rfl <;> omega

theorem Opposed.tail (h : Opposed p (u :: es)) (hzero : u.coefficient p = 0) : Opposed p es := by
  obtain ⟨v, hv, w, hw, hne, hvw⟩ := h
  refine ⟨v, ?_, w, ?_, hne, hvw⟩
  · rcases List.mem_cons.1 hv with rfl | hv
    · exact absurd hzero hne
    · exact hv
  · rcases List.mem_cons.1 hw with rfl | hw
    · omega
    · exact hw

/-- A term that does not cancel the next one leaves another of its sign to do it. -/
theorem Opposed.next (h : Opposed (.symbol name) (u :: v :: es))
    (hatom : ∀ e ∈ u :: v :: es, Atom R e) (hordered : Ordered (u :: v :: es))
    (hopposite : ¬ u.isOpposite v = true) : Opposed (.symbol name) (v :: es) := by
  have hp : Part.symbol name ≠ .literal := Part.noConfusion
  rw [List.forall_mem_cons] at hatom
  obtain ⟨hu, hatom⟩ := hatom
  have hpartner (w : SymExpr) (hw : w ∈ v :: es) (hne : u.coefficient (.symbol name) ≠ 0)
      (huw : w.coefficient (.symbol name) = -u.coefficient (.symbol name)) :
      Opposed (.symbol name) (v :: es) := by
    have hpartu := (hu.part_eq_iff hp).2 hne
    have hpartw := ((hatom w hw).part_eq_iff hp).2 (by omega)
    have hpartv := part_eq_of_ordered hordered hw (hpartw.trans hpartu.symm)
    have hv := ((hatom v (by simp)).coefficient_cases hp).resolve_left
      fun h => h.1 (hpartv.trans hpartu)
    have hnot : v.coefficient (.symbol name) ≠ -u.coefficient (.symbol name) := fun huv =>
      hopposite (hu.isOpposite_of_coefficient (hatom v (by simp)) hne huv)
    have hu := hu.coefficient_cases hp
    exact ⟨v, by simp, w, hw, by omega, by omega⟩
  obtain ⟨x, hx, y, hy, hne, hxy⟩ := h
  rcases List.mem_cons.1 hx with rfl | hx'
  · rcases List.mem_cons.1 hy with rfl | hy'
    · omega
    · exact hpartner y hy' hne hxy
  · rcases List.mem_cons.1 hy with rfl | hy'
    · exact hpartner x hx' (by omega) (by omega)
    · exact ⟨x, hx', y, hy', hne, hxy⟩

theorem amount_cancelOpposites_of_opposed (h : Opposed (.symbol name) es)
    (hatom : ∀ u ∈ es, Atom (Rested C) u) (hordered : Ordered es) :
    ((cancelOpposites es).map (amount (.symbol name))).sum + 2 ≤
      (es.map (amount (.symbol name))).sum := by
  have hp : Part.symbol name ≠ .literal := Part.noConfusion
  apply amount_cancelOpposites_of_meet hp hatom hordered h
  · rintro ⟨u, hu, _⟩
    cases hu
  · rintro u _ ⟨v, hv, w, hw, hne, hvw⟩
    rw [List.mem_singleton] at hv hw
    subst hv hw
    omega
  · intro u es hu hzero hopposed
    have := hu.coefficient_cases hp
    exact hopposed.tail (by omega)
  · exact fun u v es hatom hordered hopposite h => h.next hatom hordered hopposite

end Symbols

section Words

/-- A composite or its negation, as a letter of a word; nothing for other terms. -/
def signedLetter? : SymExpr → Option (Letter × Bool)
  | .lit _ => none
  | .sym _ => none
  | .neg e => e.signedLetter?.map fun a => (a.1, !a.2)
  | .bin op l r => some (letter (.bin op l r), true)

/-- The composites among the terms. -/
def word (es : List SymExpr) : List (Letter × Bool) :=
  es.filterMap signedLetter?

theorem word_cons_none (h : u.signedLetter? = none) : word (u :: es) = word es :=
  List.filterMap_cons_none h

theorem word_cons_some {a : Letter × Bool} (h : u.signedLetter? = some a) :
    word (u :: es) = a :: word es :=
  List.filterMap_cons_some h

theorem IsComposite.signedLetter?_eq (h : u.IsComposite) :
    u.signedLetter? = some (letter u, true) := by
  obtain ⟨op, l, r, rfl, _⟩ := h.exists_bin
  rfl

theorem IsComposite.signedLetter?_neg (h : u.IsComposite) :
    (neg u).signedLetter? = some (letter u, false) := by
  rw [signedLetter?, h.signedLetter?_eq]
  rfl

/-- What a term gives of a word: nothing, or a letter that is its part. -/
theorem Atom.signedLetter?_cases (h : Atom R u) :
    u.signedLetter? = none ∧ u.amount .composite = 0 ∧ u.composites = 0 ∨
      ∃ a, u.signedLetter? = some a ∧ u.amount .composite = 1 ∧
        u.composites = FreeAddGroup.mk [a] := by
  cases h with
  | lit a => exact .inl ⟨rfl, rfl, rfl⟩
  | base h =>
    cases h with
    | sym s => exact .inl ⟨rfl, rfl, rfl⟩
    | composite h =>
      have h := h.isComposite
      exact .inr ⟨_, h.signedLetter?_eq, h.amount_eq .composite, h.composites_eq⟩
  | neg h =>
    cases h with
    | sym s => exact .inl ⟨rfl, rfl, map_zero opposite⟩
    | composite h =>
      have h := h.isComposite
      refine .inr ⟨_, h.signedLetter?_neg, h.amount_eq .composite, ?_⟩
      rw [composites, h.composites_eq, opposite_of]
      rfl

theorem sum_composites (h : ∀ u ∈ es, Atom R u) :
    (es.map composites).sum = FreeAddGroup.mk (word es) := by
  induction es with
  | nil => rfl
  | cons u es ih =>
    rw [List.forall_mem_cons] at h
    rw [List.map_cons, List.sum_cons, ih h.2]
    rcases h.1.signedLetter?_cases with ⟨hnone, _, hcomposites⟩ | ⟨a, hsome, _, hcomposites⟩
    · rw [word_cons_none hnone, hcomposites, zero_add]
    · rw [word_cons_some hsome, hcomposites]
      rfl

theorem length_word (h : ∀ u ∈ es, Atom R u) :
    (word es).length = (es.map (amount .composite)).sum := by
  induction es with
  | nil => rfl
  | cons u es ih =>
    rw [List.forall_mem_cons] at h
    rw [List.map_cons, List.sum_cons, ← ih h.2]
    rcases h.1.signedLetter?_cases with ⟨hnone, hamount, _⟩ | ⟨a, hsome, hamount, _⟩
    · rw [word_cons_none hnone, hamount, Nat.zero_add]
    · rw [word_cons_some hsome, hamount, List.length_cons, Nat.add_comm]

/-- Letters that cancel stand for opposite terms. -/
theorem Atom.isOpposite_of_letters {a b : Letter × Bool} (hu : Atom R u) (hv : Atom R v)
    (ha : u.signedLetter? = some a) (hb : v.signedLetter? = some b) (hletter : a.1 = b.1)
    (hsign : a.2 ≠ b.2) : u.isOpposite v = true := by
  have hcases (w : SymExpr) (hw : Atom R w) (c : Letter × Bool) (hc : w.signedLetter? = some c) :
      c = (letter w, true) ∨ ∃ x, w = SymExpr.neg x ∧ c = (letter x, false) := by
    cases hw with
    | lit a => cases hc
    | base h =>
      cases h with
      | sym s => cases hc
      | composite h =>
        rw [h.isComposite.signedLetter?_eq, Option.some.injEq] at hc
        exact .inl hc.symm
    | @neg x h =>
      cases h with
      | sym s => cases hc
      | composite h =>
        rw [h.isComposite.signedLetter?_neg, Option.some.injEq] at hc
        exact .inr ⟨x, rfl, hc.symm⟩
  rw [isOpposite, Bool.or_eq_true]
  rcases hcases u hu a ha with rfl | ⟨x, rfl, rfl⟩
  · rcases hcases v hv b hb with rfl | ⟨y, rfl, rfl⟩
    · exact absurd rfl hsign
    · exact .inl (letter_eq_iff.1 hletter)
  · rcases hcases v hv b hb with rfl | ⟨y, rfl, rfl⟩
    · exact .inr (letter_eq_iff.1 hletter.symm)
    · exact absurd rfl hsign

/-- Behind a composite there is none but composites. -/
theorem exists_letter_of_ordered {a : Letter × Bool} (h : Ordered (u :: v :: es))
    (hu : Atom R u) (hv : Atom R v) (ha : u.signedLetter? = some a) :
    ∃ b, v.signedLetter? = some b := by
  have hp : Part.composite ≠ .literal := Part.noConfusion
  have hbefore := before_part_iff.2 (List.isChain_cons_cons.1 h).1
  have hpartu := hu.coefficient_cases hp
  have hpartv := hv.coefficient_cases hp
  rcases hu.signedLetter?_cases with ⟨hnone, _⟩ | ⟨_, _, hamount, _⟩
  · rw [hnone] at ha
    cases ha
  · rw [(hpartu.resolve_left (by omega)).1] at hbefore
    have hcomposite := hbefore.eq_composite
    rcases hv.signedLetter?_cases with ⟨_, hzero, _⟩ | ⟨b, hb, _⟩
    · exact absurd hcomposite (hpartv.resolve_right (by omega)).1
    · exact ⟨b, hb⟩

theorem amount_cancelOpposites_of_not_isReduced (hatom : ∀ u ∈ es, Atom (Rested C) u)
    (hordered : Ordered es) (h : ¬ FreeAddGroup.IsReduced (word es)) :
    ((cancelOpposites es).map (amount .composite)).sum + 2 ≤ (es.map (amount .composite)).sum := by
  apply amount_cancelOpposites_of_meet (P := fun es => ¬ FreeAddGroup.IsReduced (word es))
    Part.noConfusion hatom hordered h
  · exact not_not.2 FreeAddGroup.IsReduced.nil
  · intro u hu
    rw [not_not]
    rcases hu.signedLetter?_cases with ⟨hnone, _⟩ | ⟨a, ha, _⟩
    · rw [word_cons_none hnone]
      exact FreeAddGroup.IsReduced.nil
    · rw [word_cons_some ha]
      exact FreeAddGroup.IsReduced.singleton
  · intro u es hu hzero hword
    rcases hu.signedLetter?_cases with ⟨hnone, _⟩ | ⟨_, _, hamount, _⟩
    · rwa [word_cons_none hnone] at hword
    · omega
  · intro u v es hatom hordered hopposite hword
    have hu := hatom u (by simp)
    have hv := hatom v (by simp)
    rcases hu.signedLetter?_cases with ⟨hnone, _⟩ | ⟨a, ha, _⟩
    · rwa [word_cons_none hnone] at hword
    · obtain ⟨b, hb⟩ := exists_letter_of_ordered hordered hu hv ha
      rw [word_cons_some ha, word_cons_some hb, FreeAddGroup.isReduced_cons_cons] at hword
      rw [word_cons_some hb]
      intro hreduced
      apply hword ⟨_, hreduced⟩
      intro hletter
      by_contra hsign
      exact hopposite (hu.isOpposite_of_letters hv ha hb hletter hsign)

theorem eq_nil_of_isReduced {α : Type} {l : List (α × Bool)} (h : FreeAddGroup.IsReduced l)
    (hzero : FreeAddGroup.mk l = 0) : l = [] := by
  rw [FreeAddGroup.zero_eq_mk, FreeAddGroup.Red.exact] at hzero
  obtain ⟨m, hl, hnil⟩ := hzero
  rw [FreeAddGroup.Red.nil_iff] at hnil
  rw [hnil] at hl
  exact (h.red_iff_eq.1 hl).symm

end Words

section Rounds

theorem Flat.canonicalize_eq (h : Flat (Rested C) e) :
    e.canonicalize = sumOf (e.operands .add) := by
  rcases eq_add_or_operands_eq e with ⟨l, r, rfl⟩ | hterm
  · rw [canonicalize_add]
    congr 1
    conv => rhs; rw [← List.map_id ((add l r).operands .add)]
    exact List.map_congr_left fun u hu => (h u hu).canonicalize_eq
  · rw [hterm, (h.atom_of_operands hterm).canonicalize_eq]
    rfl

theorem Flat.iterate (h : Flat (Rested C) e) (n : Nat) :
    Flat (Rested C) (SymExpr.simplifyRound^[n] e) ∧
      Shrinks e (SymExpr.simplifyRound^[n] e) := by
  induction n generalizing e with
  | zero => exact ⟨h, Shrinks.refl e⟩
  | succ n ih =>
    obtain ⟨hflat, hshrinks⟩ := h.simplifyRound
    obtain ⟨hflat', hshrinks'⟩ := ih hflat
    exact ⟨hflat', hshrinks.trans hshrinks'⟩

/-- What a round cancels of a part, it cancels in the sorted sum. -/
theorem Flat.amount_simplifyRound_le (h : Flat (Rested C) e) (p : Part) :
    e.simplifyRound.amount p ≤
      ((cancelOpposites (sortTerms (e.operands .add))).map (amount p)).sum := by
  have hflat := flat_sumOf fun u hu => (h u hu).flat
  rw [SymExpr.simplifyRound, h.canonicalize_eq]
  exact Nat.le_trans (hflat.fold.2.amount_le p) (Nat.le_of_eq ((addsUp_amount p).ofOperands _))

theorem Flat.atom_sortTerms (h : Flat R e) : ∀ u ∈ sortTerms (e.operands .add), Atom R u :=
  fun u hu => h u ((sortTerms_perm _).mem_iff.1 hu)

/-- A round takes two terms from a symbol that is not down to its coefficient. -/
theorem Flat.amount_simplifyRound_symbol (h : Flat (Rested C) e)
    (hlt : (e.coefficient (.symbol name)).natAbs < e.amount (.symbol name)) :
    e.simplifyRound.amount (.symbol name) + 2 ≤ e.amount (.symbol name) := by
  have hperm := sortTerms_perm (e.operands .add)
  have hle := h.amount_simplifyRound_le (.symbol name)
  rw [(addsUp_coefficient _).operands e, (addsUp_amount _).operands e] at hlt
  rw [(addsUp_amount _).operands e]
  rw [← (hperm.map _).sum_eq] at hlt ⊢
  rw [← (hperm.map (amount _)).sum_eq] at hlt
  have hopposed := opposed_of_lt Part.noConfusion h.atom_sortTerms hlt
  have := amount_cancelOpposites_of_opposed hopposed h.atom_sortTerms (ordered_sortTerms _)
  omega

/-- A round takes two composites if they make up the empty word. -/
theorem Flat.amount_simplifyRound_composite (h : Flat (Rested C) e) (hzero : e.composites = 0)
    (hpos : 0 < e.amount .composite) :
    e.simplifyRound.amount .composite + 2 ≤ e.amount .composite := by
  have hperm := sortTerms_perm (e.operands .add)
  have hle := h.amount_simplifyRound_le .composite
  have hsorted : ((sortTerms (e.operands .add)).map composites).sum = 0 := by
    rw [sum_map_sortTerms, ← addsUp_composites.operands, hzero]
    intro u _ v _ huv
    rw [(composites_of_not_precedes (g := SymExpr.fold) huv).2, add_zero, zero_add]
  rw [(addsUp_amount _).operands e, ← (hperm.map (amount _)).sum_eq] at hpos ⊢
  rw [sum_composites h.atom_sortTerms] at hsorted
  have hreduced : ¬ FreeAddGroup.IsReduced (word (sortTerms (e.operands .add))) := by
    intro hreduced
    have hlength := length_word h.atom_sortTerms
    rw [eq_nil_of_isReduced hreduced hsorted, List.length_nil] at hlength
    omega
  have := amount_cancelOpposites_of_not_isReduced h.atom_sortTerms (ordered_sortTerms _) hreduced
  omega

end Rounds

section Spread

/--
Each symbol is down to its coefficient, but for so many pairs of terms; and there are no more pairs
of composites if these make up the empty word.
-/
structure Spread (pairs : Nat) (e : SymExpr) : Prop where
  symbol (name : String) :
    e.amount (.symbol name) ≤ (e.coefficient (.symbol name)).natAbs + 2 * pairs
  composite (h : e.composites = 0) : e.amount .composite ≤ 2 * pairs

theorem Spread.simplifyRound {pairs : Nat} (h : Spread (pairs + 1) e) (hflat : Flat (Rested C) e) :
    Spread pairs e.simplifyRound := by
  have hshrinks := hflat.simplifyRound.2
  constructor
  · intro name
    have hspread := h.symbol name
    have hle := hshrinks.amount_le (.symbol name)
    rw [hshrinks.coefficient_eq]
    by_cases hlt : (e.coefficient (.symbol name)).natAbs < e.amount (.symbol name)
    · have := hflat.amount_simplifyRound_symbol hlt
      omega
    · omega
  · intro hzero
    rw [hshrinks.composites_eq] at hzero
    have hspread := h.composite hzero
    have hle := hshrinks.amount_le .composite
    by_cases hpos : 0 < e.amount .composite
    · have := hflat.amount_simplifyRound_composite hzero hpos
      omega
    · omega

/-- So many rounds cancel so many pairs of every part. -/
theorem Spread.iterate {pairs : Nat} (h : Spread pairs e) (hflat : Flat (Rested C) e) :
    Spread 0 (SymExpr.simplifyRound^[pairs] e) := by
  induction pairs generalizing e with
  | zero => exact h
  | succ pairs ih => exact ih (h.simplifyRound hflat) hflat.simplifyRound.1

end Spread

end TensorIR.SymExpr
