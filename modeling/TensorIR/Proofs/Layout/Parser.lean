import TensorIR.Layout.Parser
import TensorIR.Proofs.Except

/-!
What is true of every layout that is read from a text: no two axes have the same name, the letters
of axes are upper-case, and factors are positive.
-/

namespace Char

variable {c d : Char}

theorem isUpper_iff_toNat : c.isUpper = true ↔ 65 ≤ c.toNat ∧ c.toNat ≤ 90 := by
  change decide (_ ∧ _) = true ↔ _
  rw [decide_eq_true_iff]
  exact Iff.rfl

theorem isLower_iff_toNat : c.isLower = true ↔ 97 ≤ c.toNat ∧ c.toNat ≤ 122 := by
  change (decide _ && decide _) = true ↔ _
  rw [Bool.and_eq_true, decide_eq_true_iff, decide_eq_true_iff]
  exact Iff.rfl

theorem isLower_of_isAlpha (h : c.isAlpha = true) (hupper : c.isUpper = false) :
    c.isLower = true := by
  change (c.isUpper || c.isLower) = true at h
  rwa [hupper, Bool.false_or] at h

theorem isUpper_toLower_of_isUpper (h : c.isUpper = true) : c.toLower.isUpper = false := by
  have hall : ∀ n : Nat, n ≤ 90 → 65 ≤ n → (Char.ofNat n).toLower.isUpper = false := by
    decide
  rw [isUpper_iff_toNat] at h
  rw [← Char.ofNat_toNat c]
  exact hall c.toNat h.2 h.1

theorem toUpper_toLower_of_isUpper (h : c.isUpper = true) : c.toLower.toUpper = c := by
  have hall : ∀ n : Nat, n ≤ 90 → 65 ≤ n → (Char.ofNat n).toLower.toUpper = Char.ofNat n := by
    decide
  rw [isUpper_iff_toNat] at h
  rw [← Char.ofNat_toNat c]
  exact hall c.toNat h.2 h.1

theorem isUpper_toUpper_of_isLower (h : c.isLower = true) : c.toUpper.isUpper = true := by
  have hall : ∀ n : Nat, n ≤ 122 → 97 ≤ n → (Char.ofNat n).toUpper.isUpper = true := by
    decide
  rw [isLower_iff_toNat] at h
  rw [← Char.ofNat_toNat c]
  exact hall c.toNat h.2 h.1

theorem toLower_toUpper_of_isLower (h : c.isLower = true) : c.toUpper.toLower = c := by
  have hall : ∀ n : Nat, n ≤ 122 → 97 ≤ n → (Char.ofNat n).toUpper.toLower = Char.ofNat n := by
    decide
  rw [isLower_iff_toNat] at h
  rw [← Char.ofNat_toNat c]
  exact hall c.toNat h.2 h.1

theorem ne_toLower_of_isUpper (hc : c.isUpper = true) (hd : d.isUpper = true) : c ≠ d.toLower := by
  intro h
  have := isUpper_toLower_of_isUpper hd
  rw [← h, hc] at this
  exact absurd this (by decide)

theorem eq_of_toLower_eq (hc : c.isUpper = true) (hd : d.isUpper = true)
    (h : c.toLower = d.toLower) : c = d := by
  rw [← toUpper_toLower_of_isUpper hc, h, toUpper_toLower_of_isUpper hd]

end Char

namespace TensorIR

def Axis.WellFormed : Axis → Prop
  | .primal c => c.isUpper = true
  | .inner c f => c.isUpper = true ∧ 0 < f

structure Axis.AllWellFormed (axes : List Axis) : Prop where
  nodup : (axes.map Axis.name).Nodup
  wellFormed : ∀ a ∈ axes, a.WellFormed

namespace Axis

theorem allWellFormed_nil : AllWellFormed [] :=
  ⟨List.nodup_nil, by simp⟩

theorem AllWellFormed.append {axes : List Axis} {a : Axis} (h : AllWellFormed axes)
    (ha : a.WellFormed) (hname : axes.any (·.name == a.name) = false) :
    AllWellFormed (axes ++ [a]) := by
  constructor
  · rw [List.map_append, List.nodup_append]
    refine ⟨h.nodup, List.pairwise_singleton _ _, ?_⟩
    intro x hx y hy hxy
    rw [List.map_singleton, List.mem_singleton] at hy
    rw [List.mem_map] at hx
    obtain ⟨b, hb, rfl⟩ := hx
    rw [List.any_eq_false] at hname
    apply hname b hb
    rw [hxy, hy]
    apply beq_self_eq_true
  · intro b hb
    rw [List.mem_append, List.mem_singleton] at hb
    cases hb with
    | inl hb => exact h.wellFormed b hb
    | inr hb => rwa [hb]

theorem AllWellFormed.of_cons {axes : List Axis} {a : Axis} (h : AllWellFormed (a :: axes)) :
    a.WellFormed ∧ a.name ∉ axes.map Axis.name ∧ AllWellFormed axes := by
  have hnodup := h.nodup
  rw [List.map_cons, List.nodup_cons] at hnodup
  refine ⟨h.wellFormed a List.mem_cons_self, hnodup.1, hnodup.2, ?_⟩
  intro b hb
  exact h.wellFormed b (List.mem_cons_of_mem a hb)

end Axis

namespace Layout

theorem allWellFormed_of_readAxes {layout : String} {axes axes' : List Axis} {size : Option Int64}
    {cs : List Char} (h : readAxes layout axes size cs = .ok axes')
    (haxes : Axis.AllWellFormed axes) : Axis.AllWellFormed axes' := by
  induction cs generalizing axes size with
  | nil =>
    unfold readAxes at h
    split at h
    · cases h
    · cases h
      exact haxes
  | cons c cs ih =>
    unfold readAxes at h
    split at h
    · exact ih h haxes
    · split at h
      · cases h
      · next halpha =>
        split at h
        · cases h
        · next hname =>
          rw [Bool.not_eq_true] at hname
          split at h
          · next hupper =>
            split at h
            · cases h
            · exact ih h (haxes.append hupper hname)
          · next hupper =>
            rw [Bool.not_eq_true] at hupper
            rw [Bool.not_eq_true, Bool.not_eq_false'] at halpha
            have hlower := Char.isLower_of_isAlpha halpha hupper
            split at h
            · next f =>
              split at h
              · next hf =>
                apply ih h
                apply haxes.append
                · exact ⟨Char.isUpper_toUpper_of_isLower hlower, hf⟩
                · rwa [Axis.name, Char.toLower_toUpper_of_isLower hlower]
              · cases h
            · cases h

theorem allWellFormed_of_parse {name : String} {layout : Layout} (h : parse name = .ok layout) :
    Axis.AllWellFormed layout.axes := by
  unfold parse at h
  split at h
  · cases h
  · dsimp only at h
    rw [Except.bind_eq_ok_iff] at h
    obtain ⟨axes, haxes, h⟩ := h
    split at h
    · cases h
    · cases h
      exact allWellFormed_of_readAxes haxes Axis.allWellFormed_nil

end Layout

end TensorIR
