import Mathlib.Data.List.Nodup
import Mathlib.Order.Bounds.Basic
import TensorIR.Proofs.Layout.Conversion

/-!
Conversion between two layouts of the same primal axes, forth and back. A conversion keeps the size
of a primal axis, or fills it up to the next multiple of the factor that the target layout splits it
by; where there is nothing to fill up, converting back gives the shape again.
-/

namespace TensorIR

open SymExpr (ValuesAt)

namespace Layout

theorem isLeast_roundUp {d : Int} (hd : 0 < d) (n : Int) :
    IsLeast {m | d ∣ m ∧ n ≤ m} (-((-n).fdiv d) * d) := by
  rw [Int.fdiv_eq_ediv_of_nonneg (-n) (Int.le_of_lt hd)]
  constructor
  · refine ⟨Int.dvd_mul_left _ _, ?_⟩
    have := Int.ediv_mul_le (-n) (Int.ne_of_gt hd)
    rw [Int.neg_mul]
    omega
  · intro m ⟨⟨k, hk⟩, hm⟩
    have hquotient : -k ≤ -n / d := by
      rw [Int.le_ediv_iff_mul_le hd, Int.neg_mul, Int.mul_comm k d]
      omega
    rw [hk, Int.mul_comm d k]
    apply Int.mul_le_mul_of_nonneg_right
    · omega
    · omega

theorem roundUp_mul {d : Int} (hd : 0 < d) (n : Int) : -((-(n * d)).fdiv d) = n := by
  rw [← Int.neg_mul, Int.mul_fdiv_cancel _ (Int.ne_of_gt hd), Int.neg_neg]

section Axes

variable {axes : List Axis} (h : Axis.AllWellFormed axes) {c : Char}
include h

theorem lookup?_of_mem_zip {α : Type} {a : Axis} {x : α} {xs : List α} (hx : (a, x) ∈ axes.zip xs) :
    lookup? axes xs a.name = some x := by
  induction axes generalizing xs with
  | nil => simp at hx
  | cons b axes ih =>
    obtain ⟨_, hname, haxes⟩ := h.of_cons
    cases xs with
    | nil => simp at hx
    | cons y xs =>
      rw [List.zip_cons_cons, List.mem_cons, Prod.mk.injEq] at hx
      cases hx with
      | inl hx =>
        rw [hx.1, hx.2]
        exact lookup?_cons_of_eq rfl y xs
      | inr hx =>
        rw [lookup?_cons_of_ne, ih haxes hx]
        intro hb
        apply hname
        rw [hb]
        exact List.mem_map_of_mem (List.of_mem_zip hx).1

theorem findSome?_factorFor?_of_split {f : Int64} (hf : .inner c f ∈ axes) :
    axes.findSome? (Axis.factorFor? c) = some f := by
  cases hfactor : axes.findSome? (Axis.factorFor? c) with
  | none =>
    rw [List.findSome?_eq_none_iff] at hfactor
    have := hfactor _ hf
    simp [Axis.factorFor?] at this
  | some g =>
    obtain ⟨a, ha, hg⟩ := List.exists_of_findSome?_eq_some hfactor
    cases a with
    | primal d => cases hg
    | inner d g' =>
      rw [Axis.factorFor?, Option.ite_none_right_eq_some, Option.some.injEq] at hg
      obtain ⟨rfl, rfl⟩ := hg
      have := List.inj_on_of_nodup_map h.nodup ha hf rfl
      simp_all

theorem lookup?_toLower_of_unsplit {α : Type} (hc : c.isUpper = true) (xs : List α)
    (hunsplit : ∀ f, Axis.inner c f ∉ axes) : lookup? axes xs c.toLower = none := by
  apply lookup?_eq_none
  intro hmem
  rw [List.mem_map] at hmem
  obtain ⟨a, ha, hname⟩ := hmem
  cases a with
  | primal d => exact Char.ne_toLower_of_isUpper (h.wellFormed _ ha) hc hname
  | inner d f =>
    obtain rfl := Char.eq_of_toLower_eq (h.wellFormed _ ha).1 hc hname
    exact hunsplit f ha

end Axes

section Sizes

variable {layout : Layout} {c : Char}

theorem mem_primalLetters_iff : c ∈ layout.primalLetters ↔ .primal c ∈ layout.axes := by
  unfold primalLetters
  rw [List.mem_map]
  constructor
  · intro ⟨a, ha, hletter⟩
    rw [List.mem_filter] at ha
    cases a with
    | primal d =>
      rw [← hletter]
      exact ha.1
    | inner d f => simp [Axis.isPrimal] at ha
  · intro hc
    exact ⟨.primal c, List.mem_filter.2 ⟨hc, rfl⟩, rfl⟩

theorem mem_zip_sizes {a : Axis} (ha : a ∈ layout.axes) (size : Char → Int) :
    (a, layout.sizeOfAxis size a) ∈ layout.axes.zip (layout.sizes size) := by
  have hzip : layout.axes.zip (layout.sizes size) =
      layout.axes.map fun a => (a, layout.sizeOfAxis size a) := by
    rw [sizes, List.zip_map_right, List.zip_eq_zipWith, List.zipWith_self, List.map_map]
    rfl
  rw [hzip, List.mem_map]
  exact ⟨a, ha, rfl⟩

theorem exists_mem_zip {α : Type} {a : Axis} (ha : a ∈ layout.axes) {xs : List α}
    (hlength : xs.length = layout.ndim) : ∃ x, (a, x) ∈ layout.axes.zip xs := by
  have hfst : (layout.axes.zip xs).map Prod.fst = layout.axes :=
    List.map_fst_zip (Nat.le_of_eq hlength.symm)
  rw [← hfst, List.mem_map] at ha
  obtain ⟨⟨_, x⟩, hmem, rfl⟩ := ha
  exact ⟨x, hmem⟩

theorem sizeOfAxis_of_unsplit (hunsplit : ∀ f, Axis.inner c f ∉ layout.axes) (size : Char → Int) :
    layout.sizeOfAxis size (.primal c) = size c := by
  have hfactor : layout.axes.findSome? (Axis.factorFor? c) = none := by
    rw [List.findSome?_eq_none_iff]
    intro a ha
    cases a with
    | primal d => rfl
    | inner d f =>
      rw [Axis.factorFor?, if_neg]
      intro hd
      rw [hd] at ha
      exact hunsplit f ha
  rw [sizeOfAxis, hfactor]

variable (h : Axis.AllWellFormed layout.axes)
include h

theorem sizeOfAxis_of_split {f : Int64} (hf : .inner c f ∈ layout.axes) (size : Char → Int) :
    layout.sizeOfAxis size (.primal c) = -((-size c).fdiv f.toInt) := by
  rw [sizeOfAxis, findSome?_factorFor?_of_split h hf]

theorem primalSize_of_unsplit {sizes : List Int} {n : Int}
    (hn : (.primal c, n) ∈ layout.axes.zip sizes)
    (hunsplit : ∀ f, Axis.inner c f ∉ layout.axes) : layout.primalSize sizes c = n := by
  have hc : c.isUpper = true := h.wellFormed _ (List.of_mem_zip hn).1
  have hlookup : lookup? layout.axes sizes c = some n := lookup?_of_mem_zip h hn
  rw [primalSize, prod_filter_letter h hc, hlookup, lookup?_toLower_of_unsplit h hc _ hunsplit]
  exact Int.mul_one n

theorem primalSize_of_split {sizes : List Int} {n m : Int} {f : Int64}
    (hn : (.primal c, n) ∈ layout.axes.zip sizes) (hm : (.inner c f, m) ∈ layout.axes.zip sizes) :
    layout.primalSize sizes c = n * m := by
  have hc : c.isUpper = true := h.wellFormed _ (List.of_mem_zip hn).1
  have houter : lookup? layout.axes sizes c = some n := lookup?_of_mem_zip h hn
  have hinner : lookup? layout.axes sizes c.toLower = some m := lookup?_of_mem_zip h hm
  rw [primalSize, prod_filter_letter h hc, houter, hinner]
  rfl

theorem primalSize_sizes_of_unsplit (hc : c ∈ layout.primalLetters)
    (hunsplit : ∀ f, Axis.inner c f ∉ layout.axes) (size : Char → Int) :
    layout.primalSize (layout.sizes size) c = size c := by
  rw [primalSize_of_unsplit h (mem_zip_sizes (mem_primalLetters_iff.1 hc) size) hunsplit]
  exact sizeOfAxis_of_unsplit hunsplit size

theorem isLeast_primalSize_sizes (hc : c ∈ layout.primalLetters) {f : Int64}
    (hf : .inner c f ∈ layout.axes) (size : Char → Int) :
    IsLeast {m | f.toInt ∣ m ∧ size c ≤ m} (layout.primalSize (layout.sizes size) c) := by
  have hpos := Int64.lt_iff_toInt_lt.1 (h.wellFormed _ hf).2
  rw [primalSize_of_split h (mem_zip_sizes (mem_primalLetters_iff.1 hc) size)
    (mem_zip_sizes hf size), sizeOfAxis_of_split h hf]
  exact isLeast_roundUp hpos (size c)

theorem primalSize_sizes_of_dvd (hc : c ∈ layout.primalLetters) {size : Char → Int}
    (hdvd : ∀ f, .inner c f ∈ layout.axes → f.toInt ∣ size c) :
    layout.primalSize (layout.sizes size) c = size c := by
  by_cases hsplit : ∃ f, Axis.inner c f ∈ layout.axes
  · obtain ⟨f, hf⟩ := hsplit
    apply (isLeast_primalSize_sizes h hc hf size).unique
    refine ⟨⟨hdvd f hf, Int.le_refl _⟩, ?_⟩
    intro m hm
    exact hm.2
  · rw [not_exists] at hsplit
    exact primalSize_sizes_of_unsplit h hc hsplit size

/-- Every sub-axis has the size that the layout declares. -/
def Filled (layout : Layout) (sizes : List Int) : Prop :=
  ∀ c f n, (Axis.inner c f, n) ∈ layout.axes.zip sizes → n = f.toInt

theorem sizeOfAxis_primalSize {sizes : List Int} (hlength : sizes.length = layout.ndim)
    (hfilled : layout.Filled sizes) {a : Axis} {n : Int} (ha : (a, n) ∈ layout.axes.zip sizes) :
    layout.sizeOfAxis (layout.primalSize sizes) a = n := by
  cases a with
  | inner c f => exact (hfilled c f n ha).symm
  | primal c =>
    by_cases hsplit : ∃ f, Axis.inner c f ∈ layout.axes
    · obtain ⟨f, hf⟩ := hsplit
      obtain ⟨m, hm⟩ := exists_mem_zip hf hlength
      have hpos := Int64.lt_iff_toInt_lt.1 (h.wellFormed _ hf).2
      rw [sizeOfAxis_of_split h hf, primalSize_of_split h ha hm, hfilled c f m hm]
      exact roundUp_mul hpos n
    · rw [not_exists] at hsplit
      rw [sizeOfAxis_of_unsplit hsplit, primalSize_of_unsplit h ha hsplit]

theorem sizes_primalSize {sizes : List Int} (hlength : sizes.length = layout.ndim)
    (hfilled : layout.Filled sizes) : layout.sizes (layout.primalSize sizes) = sizes := by
  have hfst : (layout.axes.zip sizes).map Prod.fst = layout.axes :=
    List.map_fst_zip (Nat.le_of_eq hlength.symm)
  have hsnd : (layout.axes.zip sizes).map Prod.snd = sizes :=
    List.map_snd_zip (Nat.le_of_eq hlength)
  calc
    layout.sizes (layout.primalSize sizes)
      = ((layout.axes.zip sizes).map Prod.fst).map
          (layout.sizeOfAxis (layout.primalSize sizes)) := by rw [hfst, Layout.sizes]
    _ = (layout.axes.zip sizes).map Prod.snd := by
      rw [List.map_map]
      apply List.map_congr_left
      intro (a, n) ha
      exact sizeOfAxis_primalSize h hlength hfilled ha
    _ = sizes := hsnd

end Sizes

theorem sizes_congr {layout : Layout} {size size' : Char → Int}
    (h : ∀ c ∈ layout.primalLetters, size c = size' c) :
    layout.sizes size = layout.sizes size' := by
  unfold sizes
  apply List.map_congr_left
  intro a ha
  cases a with
  | inner c f => rfl
  | primal c => rw [sizeOfAxis, sizeOfAxis, h c (mem_primalLetters_iff.2 ha)]

section Letters

variable {src dst : Layout}

theorem nodup_primalLetters (h : Axis.AllWellFormed src.axes) : src.primalLetters.Nodup := by
  have hname : src.primalLetters = (src.axes.filter Axis.isPrimal).map Axis.name := by
    unfold primalLetters
    apply List.map_congr_left
    intro a ha
    cases a with
    | primal c => rfl
    | inner c f => cases (List.mem_filter.1 ha).2
  rw [hname]
  exact h.nodup.sublist (List.filter_sublist.map Axis.name)

theorem mem_primalLetters_of_indexOf? (h : Axis.AllWellFormed dst.axes) {c : Char}
    (hc : c.isUpper = true) (hindex : (dst.indexOf? c).isSome = true) : c ∈ dst.primalLetters := by
  rw [indexOf?, List.findIdx?_isSome, List.any_eq_true] at hindex
  obtain ⟨a, ha, hname⟩ := hindex
  rw [beq_iff_eq] at hname
  cases a with
  | primal d =>
    change d = c at hname
    rwa [mem_primalLetters_iff, ← hname]
  | inner d f => exact absurd hname.symm (Char.ne_toLower_of_isUpper hc (h.wellFormed _ ha).1)

theorem perm_primalLetters_of_between {conversion : LayoutConversion}
    (hsrc : Axis.AllWellFormed src.axes) (hdst : Axis.AllWellFormed dst.axes)
    (h : LayoutConversion.between src dst = .ok conversion) :
    src.primalLetters.Perm dst.primalLetters := by
  unfold LayoutConversion.between at h
  split at h
  · next hletters =>
    rw [Bool.and_eq_true, beq_iff_eq, List.all_eq_true] at hletters
    have hsubset : src.primalLetters ⊆ dst.primalLetters := by
      intro c hc
      have hupper : c.isUpper = true := hsrc.wellFormed _ (mem_primalLetters_iff.1 hc)
      exact mem_primalLetters_of_indexOf? hdst hupper (hletters.2 c hc)
    -- As many distinct letters on both sides, so inclusion is enough.
    apply (List.subperm_of_subset (nodup_primalLetters hsrc) hsubset).perm_of_length_le
    exact Nat.le_of_eq hletters.1.symm
  · cases h

end Letters

section Conversion

variable {src dst : Layout} (hsrc : Axis.AllWellFormed src.axes)
variable (hdst : Axis.AllWellFormed dst.axes)

theorem convert_of_length_eq (src dst : Layout) {shape : List SymExpr}
    (h : shape.length = src.ndim) :
    ∃ dims, convert src dst shape = .ok dims ∧ dims.length = dst.ndim := by
  rw [convert, if_pos h]
  exact ⟨_, rfl, List.length_map _⟩

/-- A conversion gives every shape of the rank of `src` a shape in `dst` whose primal axes have the
same sizes, filled up to the next multiple of the factor where `dst` splits the axis. -/
def KeepsSizes (src dst : Layout) (there : List SymExpr → Except LayoutError (List SymExpr)) :
    Prop :=
  ∀ shape, shape.length = src.ndim →
    ∃ dims, there shape = .ok dims ∧ dims.length = dst.ndim ∧
      ∀ σ values, ValuesAt σ shape values →
        ∃ values', ValuesAt σ dims values' ∧ ∀ c ∈ src.primalLetters,
          ((∀ f, .inner c f ∉ dst.axes) →
            dst.primalSize values' c = src.primalSize values c) ∧
          ∀ f, .inner c f ∈ dst.axes →
            IsLeast {m | f.toInt ∣ m ∧ src.primalSize values c ≤ m} (dst.primalSize values' c)

/-- Conversion there and back gives the shape again, where its sub-axes have the declared sizes and
no axis is filled up. -/
def RoundTrips (src dst : Layout)
    (there back : List SymExpr → Except LayoutError (List SymExpr)) : Prop :=
  ∀ shape, shape.length = src.ndim →
    ∃ dims dims', there shape = .ok dims ∧ back dims = .ok dims' ∧ dims'.length = src.ndim ∧
      ∀ σ values, ValuesAt σ shape values → src.Filled values →
        (∀ c f, .inner c f ∈ dst.axes → f.toInt ∣ src.primalSize values c) →
          ValuesAt σ dims' values

include hsrc hdst

theorem keepsSizes_convert (hletters : src.primalLetters ⊆ dst.primalLetters) :
    KeepsSizes src dst (convert src dst) := by
  intro shape hshape
  obtain ⟨dims, hdims, hlength⟩ := convert_of_length_eq src dst hshape
  refine ⟨dims, hdims, hlength, ?_⟩
  intro σ values hvalues
  refine ⟨_, valuesAt_of_convert hsrc hdst hdims hvalues, ?_⟩
  intro c hc
  constructor
  · intro hunsplit
    exact primalSize_sizes_of_unsplit hdst (hletters hc) hunsplit _
  · intro f hf
    exact isLeast_primalSize_sizes hdst (hletters hc) hf _

theorem roundTrips_convert (hletters : src.primalLetters ⊆ dst.primalLetters) :
    RoundTrips src dst (convert src dst) (convert dst src) := by
  intro shape hshape
  obtain ⟨dims, hdims, hlength⟩ := convert_of_length_eq src dst hshape
  obtain ⟨dims', hdims', hlength'⟩ := convert_of_length_eq dst src hlength
  refine ⟨dims, dims', hdims, hdims', hlength', ?_⟩
  intro σ values hvalues hfilled hdvd
  have hthere := valuesAt_of_convert hsrc hdst hdims hvalues
  have hback := valuesAt_of_convert hdst hsrc hdims' hthere
  have hsizes : src.sizes (dst.primalSize (dst.sizes (src.primalSize values))) = values := by
    calc
      src.sizes (dst.primalSize (dst.sizes (src.primalSize values)))
        = src.sizes (src.primalSize values) := by
        apply sizes_congr
        intro c hc
        exact primalSize_sizes_of_dvd hdst (hletters hc) (hdvd c)
      _ = values := sizes_primalSize hsrc (hvalues.length_eq.symm.trans hshape) hfilled
  rwa [hsizes] at hback

end Conversion

theorem keepsSizes_and_roundTrips {srcName dstName : String} {src dst : Layout}
    (hsrc : parse srcName = .ok src) (hdst : parse dstName = .ok dst)
    {conversion : LayoutConversion}
    (hconversion : LayoutConversion.between src dst = .ok conversion) :
    (KeepsSizes src dst conversion.forward ∧
      RoundTrips src dst conversion.forward conversion.backward) ∧
    (KeepsSizes dst src conversion.backward ∧
      RoundTrips dst src conversion.backward conversion.forward) := by
  have hsrc := allWellFormed_of_parse hsrc
  have hdst := allWellFormed_of_parse hdst
  have hperm := perm_primalLetters_of_between hsrc hdst hconversion
  obtain rfl := LayoutConversion.eq_of_between hconversion
  constructor
  · constructor
    · exact keepsSizes_convert hsrc hdst hperm.subset
    · exact roundTrips_convert hsrc hdst hperm.subset
  · constructor
    · exact keepsSizes_convert hdst hsrc hperm.symm.subset
    · exact roundTrips_convert hdst hsrc hperm.symm.subset

theorem keepsSizes_and_roundTrips_split :
    ∃ src dst conversion, parse "4cNCHW" = .ok src ∧ parse "NH2hWC8c" = .ok dst ∧
      LayoutConversion.between src dst = .ok conversion ∧
      (KeepsSizes src dst conversion.forward ∧
        RoundTrips src dst conversion.forward conversion.backward) ∧
      (KeepsSizes dst src conversion.backward ∧
        RoundTrips dst src conversion.backward conversion.forward) := by
  have hsrc : parse "4cNCHW" =
      .ok ⟨"4cNCHW", [.inner 'C' 4, .primal 'N', .primal 'C', .primal 'H', .primal 'W']⟩ := by
    decide
  have hdst : parse "NH2hWC8c" = .ok ⟨"NH2hWC8c",
      [.primal 'N', .primal 'H', .inner 'H' 2, .primal 'W', .primal 'C', .inner 'C' 8]⟩ := by
    decide
  exact ⟨_, _, _, hsrc, hdst, rfl, keepsSizes_and_roundTrips hsrc hdst rfl⟩

end Layout

end TensorIR
