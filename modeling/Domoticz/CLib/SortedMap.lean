import Mathlib.Data.List.DropRight
import Mathlib.Data.List.Sort
import Mathlib.Tactic

/-!
# Maps in the order of their keys

A `std::map` that is written through `m[key]` and gone through from its first entry to its last;
and the stable sort of a `std::list`.

## Main definitions

* `SortedMap` — the maps, with `find?` and `alter`.
* `stableSort` — the sort by a key.

## Main results

* `SortedMap.find?_alter_self` — what is found after an entry was altered.
* `SortedMap.flatMap_entries` — what is gathered from a single entry.
* `filter_stableSort` — a sort leaves entries of the same key in their order.
-/

namespace CLib

/-! ### Maps -/

/-- A `std::map`, by its entries. -/
structure SortedMap (κ α : Type*) [LinearOrder κ] where
  entries : List (κ × α)
  sorted : entries.Pairwise fun e e' => e.1 < e'.1

namespace SortedMap

variable {κ α : Type*} [LinearOrder κ]

/-- The map without entries. -/
def empty : SortedMap κ α := ⟨[], List.Pairwise.nil⟩

/-- `m.find(k)`. -/
def find? (m : SortedMap κ α) (k : κ) : Option α :=
  (m.entries.find? fun e => e.1 == k).map Prod.snd

/-- The entries after `m[k]` was written; what is written may depend on what was there. -/
def alterEntries (k : κ) (f : Option α → α) : List (κ × α) → List (κ × α)
  | [] => [(k, f none)]
  | e :: es =>
      if k < e.1 then (k, f none) :: e :: es
      else if e.1 = k then (k, f (some e.2)) :: es
      else e :: alterEntries k f es

theorem mem_alterEntries {k : κ} {f : Option α → α} {es : List (κ × α)} {e : κ × α}
    (h : e ∈ alterEntries k f es) : e.1 = k ∨ e ∈ es := by
  induction es with
  | nil =>
    rw [alterEntries, List.mem_singleton] at h
    exact Or.inl (congrArg Prod.fst h)
  | cons e' es ih =>
    rw [alterEntries] at h
    split at h
    · rcases List.mem_cons.mp h with rfl | h
      · exact Or.inl rfl
      · exact Or.inr h
    · split at h
      · rcases List.mem_cons.mp h with rfl | h
        · exact Or.inl rfl
        · exact Or.inr (List.mem_cons_of_mem _ h)
      · rcases List.mem_cons.mp h with rfl | h
        · exact Or.inr List.mem_cons_self
        · exact (ih h).imp_right (List.mem_cons_of_mem _)

theorem pairwise_alterEntries {k : κ} {f : Option α → α} {es : List (κ × α)}
    (h : es.Pairwise fun e e' => e.1 < e'.1) :
    (alterEntries k f es).Pairwise fun e e' => e.1 < e'.1 := by
  induction es with
  | nil => exact List.pairwise_singleton _ _
  | cons e es ih =>
    obtain ⟨hfirst, hrest⟩ := List.pairwise_cons.mp h
    rw [alterEntries]
    split
    · next hlt =>
      refine List.pairwise_cons.mpr ⟨List.forall_mem_cons.mpr ⟨hlt, fun e' he' => ?_⟩, h⟩
      exact hlt.trans (hfirst e' he')
    · next hle =>
      split
      · next hk => exact List.pairwise_cons.mpr ⟨fun e' he' => hk ▸ hfirst e' he', hrest⟩
      · next hne =>
        refine List.pairwise_cons.mpr ⟨fun e' he' => ?_, ih hrest⟩
        rcases mem_alterEntries he' with hk | he'
        · rw [hk]
          exact lt_of_le_of_ne (not_lt.mp hle) hne
        · exact hfirst e' he'

/-- `m[k] = f(m[k])`, where `f` is told of an entry that is not there. -/
def alter (m : SortedMap κ α) (k : κ) (f : Option α → α) : SortedMap κ α where
  entries := alterEntries k f m.entries
  sorted := pairwise_alterEntries m.sorted

/-- A key in front of all entries is not found. -/
theorem find?_eq_none_of_lt {es : List (κ × α)} {k : κ} (h : ∀ e ∈ es, k < e.1) :
    es.find? (fun e => e.1 == k) = none := by
  rw [List.find?_eq_none]
  intro e he hk
  exact (h e he).ne' (beq_iff_eq.mp hk)

@[simp] theorem find?_alter_self (m : SortedMap κ α) (k : κ) (f : Option α → α) :
    (m.alter k f).find? k = some (f (m.find? k)) := by
  unfold find? alter
  obtain ⟨es, hsorted⟩ := m
  simp only
  induction es with
  | nil => simp [alterEntries]
  | cons e es ih =>
    obtain ⟨hfirst, hrest⟩ := List.pairwise_cons.mp hsorted
    rw [alterEntries]
    split
    · next hlt =>
      have hnone : (e :: es).find? (fun e => e.1 == k) = none :=
        find?_eq_none_of_lt (List.forall_mem_cons.mpr ⟨hlt, fun e' he' => hlt.trans (hfirst e' he')⟩)
      simp [hnone]
    · split
      · next hk => simp [hk]
      · next hne => simp [hne, ih hrest]

theorem find?_alter_of_ne (m : SortedMap κ α) {k k' : κ} (f : Option α → α) (h : k' ≠ k) :
    (m.alter k f).find? k' = m.find? k' := by
  unfold find? alter
  obtain ⟨es, hsorted⟩ := m
  simp only
  induction es with
  | nil => simp [alterEntries, h.symm]
  | cons e es ih =>
    rw [alterEntries]
    split
    · simp [h.symm]
    · split
      · next hk => simp [hk, h.symm]
      · rw [List.find?_cons, List.find?_cons]
        split
        · rfl
        · exact ih (List.pairwise_cons.mp hsorted).2

/-- An entry is found under its key. -/
theorem find?_of_mem (m : SortedMap κ α) {e : κ × α} (h : e ∈ m.entries) :
    m.find? e.1 = some e.2 := by
  unfold find?
  obtain ⟨es, hsorted⟩ := m
  simp only at h ⊢
  induction es with
  | nil => cases h
  | cons e' es ih =>
    obtain ⟨hfirst, hrest⟩ := List.pairwise_cons.mp hsorted
    rcases List.mem_cons.mp h with rfl | h
    · simp
    · rw [List.find?_cons, beq_false_of_ne (hfirst e h).ne]
      exact ih hrest h

/-- What is gathered from the entry of a single key. -/
theorem flatMap_entries {β : Type*} (m : SortedMap κ α) {k : κ} {f : κ × α → List β}
    (h : ∀ e ∈ m.entries, e.1 ≠ k → f e = []) :
    m.entries.flatMap f = (m.find? k).elim [] fun a => f (k, a) := by
  unfold find?
  obtain ⟨es, hsorted⟩ := m
  simp only at h ⊢
  induction es with
  | nil => rfl
  | cons e es ih =>
    obtain ⟨hfirst, hrest⟩ := List.pairwise_cons.mp hsorted
    obtain ⟨he, hes⟩ := List.forall_mem_cons.mp h
    rw [List.flatMap_cons, List.find?_cons]
    by_cases hk : e.1 = k
    · -- the keys behind it are larger
      have hnil : es.flatMap f = [] := by
        rw [List.flatMap_eq_nil_iff]
        exact fun e' he' => hes e' he' fun hk' => (hfirst e' he').ne (hk.trans hk'.symm)
      rw [hnil, List.append_nil, beq_iff_eq.mpr hk]
      simp [← hk]
    · rw [he hk, List.nil_append, beq_false_of_ne hk, ih hrest hes]

end SortedMap

/-! ### Sorting -/

variable {α β : Type*} [LinearOrder β]

/-- `std::list::sort` with a comparison of keys. -/
def stableSort (key : α → β) (l : List α) : List α := l.mergeSort fun a b => !(key b < key a)

theorem stableSort_perm (key : α → β) (l : List α) : (stableSort key l).Perm l :=
  List.mergeSort_perm l _

/-- The order of a comparison of keys. -/
theorem not_lt_trans (key : α → β) (a b c : α) (hab : (!decide (key b < key a)) = true)
    (hbc : (!decide (key c < key b)) = true) : (!decide (key c < key a)) = true := by
  simp only [Bool.not_eq_true', decide_eq_false_iff_not, not_lt] at *
  exact hab.trans hbc

theorem not_lt_total (key : α → β) (a b : α) :
    ((!decide (key b < key a)) || !decide (key a < key b)) = true := by
  simp only [Bool.or_eq_true, Bool.not_eq_true', decide_eq_false_iff_not, not_lt]
  exact le_total (key a) (key b)

theorem pairwise_stableSort (key : α → β) (l : List α) :
    (stableSort key l).Pairwise fun a b => key a ≤ key b := by
  have hsorted := List.pairwise_mergeSort (not_lt_trans key) (not_lt_total key) l
  refine hsorted.imp fun {a b} hab => ?_
  simpa using hab

/-- A sort leaves entries of the same key in their order. -/
theorem filter_stableSort (key : α → β) (l : List α) {p : α → Bool}
    (h : ∀ a b, p a = true → p b = true → key a = key b) :
    (stableSort key l).filter p = l.filter p := by
  have hsame : (l.filter p).Pairwise fun a b => (!decide (key b < key a)) = true := by
    rw [List.pairwise_filter]
    refine List.pairwise_of_forall fun a b ha hb => ?_
    rw [h a b ha hb]
    simp
  have hsub : (l.filter p).Sublist (stableSort key l) :=
    List.sublist_mergeSort (not_lt_trans key) (not_lt_total key) hsame List.filter_sublist
  have hfilter : (l.filter p).Sublist ((stableSort key l).filter p) := by
    have hsub := hsub.filter p
    rwa [List.filter_filter, show (fun a => p a && p a) = p from funext fun a => Bool.and_self _]
      at hsub
  exact (hfilter.eq_of_length ((stableSort_perm key l).filter p).length_eq.symm).symm

end CLib
