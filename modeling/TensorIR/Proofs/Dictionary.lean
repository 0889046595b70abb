import Mathlib.Data.List.Induction
import Mathlib.Data.List.Nodup
import Mathlib.Data.List.Sort
import Mathlib.Data.String.Basic
import TensorIR.Dictionary

/-!
Dictionaries as finite maps. Under each key stands what was inserted there last, and the keys stand
in strictly increasing order. A map into which the same entries have been inserted, but which
enumerates them in any other order, is brought to that dictionary by sorting.
-/

namespace TensorIR.Dictionary

variable {α : Type} {key : String} {value : α} {entries entries' : List (String × α)}

def Increasing (entries : List (String × α)) : Prop :=
  entries.Pairwise fun e e' => e.1 < e'.1

section Insert

theorem mem_of_mem_insert {entry : String × α} (h : entry ∈ insert key value entries) :
    entry = (key, value) ∨ entry ∈ entries := by
  induction entries with
  | nil => exact .inl (List.mem_singleton.1 h)
  | cons e entries ih =>
    unfold insert at h
    split at h
    · exact List.mem_cons.1 h
    · split at h
      · exact (List.mem_cons.1 h).imp_right (List.mem_cons_of_mem e)
      · rcases List.mem_cons.1 h with rfl | h
        · exact .inr List.mem_cons_self
        · exact (ih h).imp_right (List.mem_cons_of_mem e)

theorem Increasing.insert (h : Increasing entries) (key : String) (value : α) :
    Increasing (insert key value entries) := by
  induction entries with
  | nil => exact List.pairwise_singleton _ _
  | cons e entries ih =>
    obtain ⟨he, hentries⟩ := List.pairwise_cons.1 h
    unfold Dictionary.insert
    split
    · next hlt =>
      refine List.pairwise_cons.2 ⟨List.forall_mem_cons.2 ⟨hlt, ?_⟩, h⟩
      exact fun e' he' => lt_trans hlt (he e' he')
    · next hle =>
      split
      · next heq => exact List.pairwise_cons.2 ⟨heq ▸ he, hentries⟩
      · next hne =>
        have hlt : e.1 < key := lt_of_le_of_ne (not_lt.1 hle) (Ne.symm hne)
        refine List.pairwise_cons.2 ⟨?_, ih hentries⟩
        intro e' he'
        rcases mem_of_mem_insert he' with rfl | he'
        · exact hlt
        · exact he e' he'

theorem get?_cons (e : String × α) (entries : List (String × α)) (key : String) :
    get? (e :: entries) key = if e.1 = key then some e.2 else get? entries key := by
  unfold get?
  rw [List.find?_cons]
  by_cases h : e.1 = key
  · rw [beq_iff_eq.2 h, if_pos h]
    rfl
  · rw [beq_eq_false_iff_ne.2 h, if_neg h]

theorem get?_insert (key : String) (value : α) (entries : List (String × α)) (k : String) :
    get? (insert key value entries) k = if key = k then some value else get? entries k := by
  induction entries with
  | nil => rw [insert, get?_cons]
  | cons e entries ih =>
    unfold insert
    split
    · rw [get?_cons]
    · split
      · next heq =>
        rw [get?_cons, get?_cons, ← heq]
        split
        · rfl
        · rfl
      · next hne =>
        rw [get?_cons, get?_cons, ih]
        by_cases hk : e.1 = k
        · rw [if_pos hk, if_pos hk, if_neg fun hkey => hne (hkey.trans hk.symm)]
        · rw [if_neg hk, if_neg hk]

end Insert

section Lookup

theorem exists_mem_of_get? (h : get? entries key = some value) :
    ∃ entry ∈ entries, entry.2 = value := by
  rw [get?, Option.map_eq_some_iff] at h
  obtain ⟨entry, hentry, hvalue⟩ := h
  exact ⟨entry, List.mem_of_find?_eq_some hentry, hvalue⟩

theorem get?_map {β : Type} (f : α → β) (entries : List (String × α)) (key : String) :
    get? (entries.map fun e => (e.1, f e.2)) key = (get? entries key).map f := by
  induction entries with
  | nil => rfl
  | cons e entries ih =>
    rw [List.map_cons, get?_cons, get?_cons, ih]
    split
    · rfl
    · rfl

theorem mem_iff_get? (hkeys : (entries.map Prod.fst).Nodup) :
    (key, value) ∈ entries ↔ get? entries key = some value := by
  induction entries with
  | nil => simp [get?]
  | cons e entries ih =>
    rw [List.map_cons, List.nodup_cons] at hkeys
    rw [get?_cons, List.mem_cons, ih hkeys.2]
    by_cases h : e.1 = key
    · have hnone : get? entries key ≠ some value := by
        intro hvalue
        apply hkeys.1
        rw [h]
        exact List.mem_map_of_mem ((ih hkeys.2).2 hvalue)
      rw [if_pos h, ← h, or_iff_left (h ▸ hnone), Option.some.injEq, Prod.ext_iff]
      simp [eq_comm]
    · rw [if_neg h, or_iff_right fun heq => h (congrArg Prod.fst heq).symm]

theorem Increasing.nodup_keys (h : Increasing entries) : (entries.map Prod.fst).Nodup := by
  rw [List.Nodup, List.pairwise_map]
  exact h.imp ne_of_lt

theorem perm_of_get? (hkeys : (entries.map Prod.fst).Nodup) (hkeys' : (entries'.map Prod.fst).Nodup)
    (h : ∀ key, get? entries key = get? entries' key) : entries.Perm entries' := by
  rw [List.perm_ext_iff_of_nodup (.of_map Prod.fst hkeys) (.of_map Prod.fst hkeys')]
  rintro ⟨key, value⟩
  rw [mem_iff_get? hkeys, mem_iff_get? hkeys', h]

end Lookup

section OfList

variable {es es' : List (String × α)}

theorem ofList_concat (es : List (String × α)) (e : String × α) :
    ofList (es ++ [e]) = insert e.1 e.2 (ofList es) := by
  rw [ofList, List.foldl_append]
  rfl

theorem increasing_ofList (es : List (String × α)) : Increasing (ofList es) := by
  induction es using List.reverseRecOn with
  | nil => exact List.Pairwise.nil
  | append_singleton es e ih =>
    rw [ofList_concat]
    exact ih.insert e.1 e.2

/-- What was inserted last is found. -/
theorem get?_ofList (es : List (String × α)) (key : String) :
    get? (ofList es) key = get? es.reverse key := by
  induction es using List.reverseRecOn with
  | nil => rfl
  | append_singleton es e ih =>
    rw [ofList_concat, get?_insert, ih, List.reverse_concat, get?_cons]

theorem mem_ofList_iff : (key, value) ∈ ofList es ↔ get? es.reverse key = some value := by
  rw [mem_iff_get? (increasing_ofList es).nodup_keys, get?_ofList]

/-- The listing has the entries of a map into which `es` have been inserted, in any order. -/
structure Enumerates (listing es : List (String × α)) : Prop where
  nodup_keys : (listing.map Prod.fst).Nodup
  get?_eq : ∀ key, get? listing key = get? es.reverse key

end OfList

section Sorting

variable {β : Type} {es listing : List (String × α)}

theorem insertByKey_eq_orderedInsert (e : String × α) (entries : List (String × α)) :
    insertByKey e entries = entries.orderedInsert (fun e e' => e.1 ≤ e'.1) e := by
  induction entries with
  | nil => rfl
  | cons e' entries ih => rw [insertByKey, List.orderedInsert_cons, ih]

theorem sortByKey_eq_insertionSort (entries : List (String × α)) :
    sortByKey entries = entries.insertionSort fun e e' => e.1 ≤ e'.1 := by
  induction entries with
  | nil => rfl
  | cons e entries ih =>
    rw [List.insertionSort_cons, ← ih, ← insertByKey_eq_orderedInsert]
    rfl

theorem sortByKey_perm (entries : List (String × α)) : (sortByKey entries).Perm entries := by
  rw [sortByKey_eq_insertionSort]
  exact List.perm_insertionSort _ entries

theorem sortByKey_map (f : α → β) (entries : List (String × α)) :
    sortByKey (entries.map fun e => (e.1, f e.2)) =
      (sortByKey entries).map fun e => (e.1, f e.2) := by
  rw [sortByKey_eq_insertionSort, sortByKey_eq_insertionSort]
  symm
  exact List.map_insertionSort _ _ _ entries fun _ _ _ _ => Iff.rfl

theorem increasing_sortByKey (h : (entries.map Prod.fst).Nodup) :
    Increasing (sortByKey entries) := by
  have hsorted : (sortByKey entries).Pairwise fun e e' => e.1 ≤ e'.1 := by
    have : Std.Total fun e e' : String × α => e.1 ≤ e'.1 := ⟨fun e e' => le_total e.1 e'.1⟩
    have : IsTrans (String × α) fun e e' => e.1 ≤ e'.1 := ⟨fun _ _ _ => le_trans⟩
    rw [sortByKey_eq_insertionSort]
    exact List.pairwise_insertionSort _ entries
  have hkeys : (sortByKey entries).Pairwise fun e e' => e.1 ≠ e'.1 := by
    rw [← ((sortByKey_perm entries).map Prod.fst).nodup_iff, List.Nodup, List.pairwise_map] at h
    exact h
  exact (hsorted.and hkeys).imp fun h => lt_of_le_of_ne h.1 h.2

/-- Maps that are equal are brought to the same dictionary. -/
theorem sortByKey_eq_of_get? (hkeys : (entries.map Prod.fst).Nodup)
    (hkeys' : (entries'.map Prod.fst).Nodup) (h : ∀ key, get? entries key = get? entries' key) :
    sortByKey entries = sortByKey entries' := by
  refine List.Perm.eq_of_pairwise ?_ (increasing_sortByKey hkeys) (increasing_sortByKey hkeys') ?_
  · exact fun _ _ _ _ hlt hgt => absurd hgt (lt_asymm hlt)
  · exact ((sortByKey_perm entries).trans (perm_of_get? hkeys hkeys' h)).trans
      (sortByKey_perm entries').symm

theorem Increasing.sortByKey_eq (h : Increasing entries) : sortByKey entries = entries := by
  rw [sortByKey_eq_insertionSort]
  exact (h.imp le_of_lt).insertionSort_eq

theorem Enumerates.sortByKey_eq (h : Enumerates listing es) : sortByKey listing = ofList es := by
  rw [sortByKey_eq_of_get? h.nodup_keys (increasing_ofList es).nodup_keys,
    (increasing_ofList es).sortByKey_eq]
  intro key
  rw [h.get?_eq, get?_ofList]

end Sorting

end TensorIR.Dictionary
