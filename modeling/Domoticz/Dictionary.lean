import Mathlib.Data.List.Nodup
import Mathlib.Tactic

/-!
# Dictionaries

A dictionary of Python: entries with different keys, in the order in which the keys were added.
Setting an item that is there keeps its place, and removing one that is not there is an error.

## Main definitions

* `Dictionary κ α` — entries whose keys differ.
* `setItem`, `delItem`, `modify`, `mapValues`, `filterValues`, `find` — what is done with them.
* `KeyedBy key`, `Distinct id` — values that know their key, and values with different numbers.

## Main results

* `mem_setItem`, `mem_erase`, `mem_modify` — what is in the dictionary afterwards.
* `keyedBy_modify_iff`, `erase_keyed` — dictionaries whose keys can be read off the values.
-/

/-- Entries whose keys differ. -/
structure Dictionary (κ α : Type*) where
  items : List (κ × α)
  nodup : (items.map Prod.fst).Nodup

namespace Dictionary

variable {κ α β : Type*}

instance : Membership (κ × α) (Dictionary κ α) := ⟨fun d e => e ∈ d.items⟩

theorem mem_iff {d : Dictionary κ α} {e : κ × α} : e ∈ d ↔ e ∈ d.items := Iff.rfl

@[ext] theorem ext {d d' : Dictionary κ α} (h : d.items = d'.items) : d = d' := by
  cases d
  cases d'
  cases h
  rfl

/-- A key has one value. -/
theorem value_unique {d : Dictionary κ α} {k : κ} {a b : α} (ha : (k, a) ∈ d) (hb : (k, b) ∈ d) :
    a = b :=
  congrArg Prod.snd (List.inj_on_of_nodup_map d.nodup ha hb rfl)

/-- The dictionary without entries. -/
def empty : Dictionary κ α := ⟨[], List.nodup_nil⟩

@[simp] theorem not_mem_empty (e : κ × α) : e ∉ (empty : Dictionary κ α) := List.not_mem_nil

/-- A key is there. -/
def HasKey (d : Dictionary κ α) (k : κ) : Prop := k ∈ d.items.map Prod.fst

theorem hasKey_iff {d : Dictionary κ α} {k : κ} : d.HasKey k ↔ ∃ a, (k, a) ∈ d := by
  constructor
  · intro h
    obtain ⟨⟨k', a⟩, hmem, rfl⟩ := List.mem_map.mp h
    exact ⟨a, hmem⟩
  · rintro ⟨a, h⟩
    exact List.mem_map.mpr ⟨(k, a), h, rfl⟩

/-- The first entry whose value is as asked for. -/
def find (d : Dictionary κ α) (p : α → Bool) : Option (κ × α) := d.items.find? fun e => p e.2

theorem mem_of_find {d : Dictionary κ α} {p : α → Bool} {e : κ × α} (h : d.find p = some e) :
    e ∈ d := List.mem_of_find?_eq_some h

theorem find_spec {d : Dictionary κ α} {p : α → Bool} {e : κ × α} (h : d.find p = some e) :
    p e.2 = true := List.find?_some (p := fun e : κ × α => p e.2) h

theorem find_eq_none {d : Dictionary κ α} {p : α → Bool} :
    d.find p = none ↔ ∀ e ∈ d, ¬ p e.2 = true := List.find?_eq_none

/-- Where at most one value is as asked for, it is found. -/
theorem find_of_unique {d : Dictionary κ α} {p : α → Bool} {e : κ × α} (he : e ∈ d) (hp : p e.2 = true)
    (h : ∀ e' ∈ d, p e'.2 = true → e' = e) : d.find p = some e := by
  cases hf : d.find p with
  | none => exact absurd hp (find_eq_none.mp hf e he)
  | some e' => rw [h e' (mem_of_find hf) (find_spec hf)]

/-! ### Values -/

/-- Every value is replaced. -/
def mapValues (d : Dictionary κ α) (f : α → β) : Dictionary κ β where
  items := d.items.map fun e => (e.1, f e.2)
  nodup := by
    rw [List.map_map]
    exact d.nodup

@[simp] theorem mem_mapValues {d : Dictionary κ α} {f : α → β} {k : κ} {b : β} :
    (k, b) ∈ d.mapValues f ↔ ∃ a, (k, a) ∈ d ∧ f a = b := by
  constructor
  · intro h
    obtain ⟨⟨k', a⟩, hmem, heq⟩ := List.mem_map.mp h
    cases heq
    exact ⟨a, hmem, rfl⟩
  · rintro ⟨a, h, rfl⟩
    exact List.mem_map.mpr ⟨(k, a), h, rfl⟩

theorem mapValues_eq_self {d : Dictionary κ α} {f : α → α} (h : ∀ e ∈ d, f e.2 = e.2) :
    d.mapValues f = d := by
  refine ext ((List.map_congr_left fun e he => ?_).trans (List.map_id _))
  rw [h e he]
  rfl

/-- The entries whose values are as asked for. -/
def filterValues (d : Dictionary κ α) (p : α → Bool) : Dictionary κ α where
  items := d.items.filter fun e => p e.2
  nodup := d.nodup.sublist (List.filter_sublist.map _)

@[simp] theorem mem_filterValues {d : Dictionary κ α} {p : α → Bool} {e : κ × α} :
    e ∈ d.filterValues p ↔ e ∈ d ∧ p e.2 = true := List.mem_filter

theorem filterValues_eq_self {d : Dictionary κ α} {p : α → Bool} (h : ∀ e ∈ d, p e.2 = true) :
    d.filterValues p = d := ext (List.filter_eq_self.mpr h)

/-! ### Values that know their key -/

/-- Every value stands under its own key. -/
def KeyedBy (d : Dictionary κ α) (key : α → κ) : Prop := ∀ e ∈ d, key e.2 = e.1

/-- No two values have the same number. -/
def Distinct {ι : Type*} (d : Dictionary κ α) (id : α → ι) : Prop :=
  ∀ e ∈ d, ∀ e' ∈ d, id e.2 = id e'.2 → e = e'

section Early

variable {ι : Type*} {d : Dictionary κ α} {key : α → κ} {id : α → ι}

theorem keyedBy_empty : (empty : Dictionary κ α).KeyedBy key := fun e he => absurd he (not_mem_empty e)

theorem distinct_empty : (empty : Dictionary κ α).Distinct id :=
  fun e he => absurd he (not_mem_empty e)

variable [DecidableEq ι]

/-- The value with a number is the one that is found. -/
theorem Distinct.find_eq (h : d.Distinct id) {k : κ} {a : α} (ha : (k, a) ∈ d) {i : ι} (hi : id a = i) :
    (d.find fun b => id b = i) = some (k, a) := by
  refine find_of_unique ha (by simpa using hi) fun e he hid => ?_
  exact h e he _ ha ((by simpa using hid : id e.2 = i).trans hi.symm)

end Early

variable [DecidableEq κ]

/-! ### Items -/

/-- `PyDict_SetItem`. -/
def setItem (d : Dictionary κ α) (k : κ) (a : α) : Dictionary κ α :=
  if h : k ∈ d.items.map Prod.fst then
    { items := d.items.map fun e => if e.1 = k then (k, a) else e
      nodup := by
        have hkeys : (d.items.map fun e => if e.1 = k then (k, a) else e).map Prod.fst =
            d.items.map Prod.fst := by
          rw [List.map_map]
          refine List.map_congr_left fun e _ => ?_
          by_cases he : e.1 = k
          · simp [he]
          · simp [he]
        rw [hkeys]
        exact d.nodup }
  else
    { items := d.items ++ [(k, a)]
      nodup := by
        rw [List.map_append, List.nodup_append]
        refine ⟨d.nodup, List.nodup_singleton _, ?_⟩
        intro x hx y hy
        rw [List.map_singleton, List.mem_singleton] at hy
        intro heq
        have hk : x = k := heq.trans hy
        exact h (hk ▸ hx) }

@[simp] theorem mem_setItem {d : Dictionary κ α} {k : κ} {a : α} {e : κ × α} :
    e ∈ d.setItem k a ↔ e = (k, a) ∨ (e ∈ d ∧ e.1 ≠ k) := by
  unfold setItem
  split
  · next h =>
    constructor
    · intro he
      obtain ⟨e', hmem, heq⟩ := List.mem_map.mp he
      by_cases hk : e'.1 = k
      · rw [if_pos hk] at heq
        exact .inl heq.symm
      · rw [if_neg hk] at heq
        exact .inr (heq ▸ ⟨hmem, hk⟩)
    · rintro (rfl | ⟨he, hk⟩)
      · obtain ⟨a', ha'⟩ := hasKey_iff.mp h
        exact List.mem_map.mpr ⟨(k, a'), ha', if_pos rfl⟩
      · exact List.mem_map.mpr ⟨e, he, if_neg hk⟩
  · next h =>
    constructor
    · intro he
      rcases List.mem_append.mp he with he | he
      · refine .inr ⟨he, ?_⟩
        intro hk
        exact h (hk ▸ List.mem_map_of_mem (f := Prod.fst) he)
      · exact .inl (List.mem_singleton.mp he)
    · rintro (rfl | ⟨he, -⟩)
      · exact List.mem_append_right _ (List.mem_singleton_self _)
      · exact List.mem_append_left _ he

/-- What `PyDict_DelItem` leaves when the key is there. -/
def erase (d : Dictionary κ α) (k : κ) : Dictionary κ α where
  items := d.items.filter fun e => e.1 ≠ k
  nodup := d.nodup.sublist (List.filter_sublist.map _)

@[simp] theorem mem_erase {d : Dictionary κ α} {k : κ} {e : κ × α} :
    e ∈ d.erase k ↔ e ∈ d ∧ e.1 ≠ k := by
  rw [mem_iff, erase, List.mem_filter, decide_eq_true_iff]
  exact Iff.rfl

/-- `PyDict_DelItem`: none is a `KeyError`. -/
def delItem (d : Dictionary κ α) (k : κ) : Option (Dictionary κ α) :=
  if k ∈ d.items.map Prod.fst then some (d.erase k) else none

theorem delItem_of_mem {d : Dictionary κ α} {k : κ} {a : α} (h : (k, a) ∈ d) :
    d.delItem k = some (d.erase k) := if_pos (hasKey_iff.mpr ⟨a, h⟩)

/-- `PyDict_GetItem`. -/
def getItem (d : Dictionary κ α) (k : κ) : Option α := (d.items.find? fun e => e.1 = k).map Prod.snd

theorem getItem_eq_some {d : Dictionary κ α} {k : κ} {a : α} :
    d.getItem k = some a ↔ (k, a) ∈ d := by
  constructor
  · intro h
    obtain ⟨⟨k', a'⟩, hfind, heq⟩ := Option.map_eq_some_iff.mp h
    have hk := List.find?_some hfind
    rw [decide_eq_true_iff] at hk
    cases hk
    cases heq
    exact List.mem_of_find?_eq_some hfind
  · intro h
    cases hf : d.items.find? fun e => e.1 = k with
    | none =>
      have hnone := List.find?_eq_none.mp hf (k, a) h
      simp at hnone
    | some e =>
      have hk := List.find?_some hf
      rw [decide_eq_true_iff] at hk
      have he := List.mem_of_find?_eq_some hf
      obtain ⟨k', a'⟩ := e
      cases hk
      rw [getItem, hf, value_unique he h]
      rfl

/-- An object that is in the dictionary changes. -/
def modify (d : Dictionary κ α) (k : κ) (f : α → α) : Dictionary κ α where
  items := d.items.map fun e => if e.1 = k then (e.1, f e.2) else e
  nodup := by
    have hkeys : (d.items.map fun e => if e.1 = k then (e.1, f e.2) else e).map Prod.fst =
        d.items.map Prod.fst := by
      rw [List.map_map]
      refine List.map_congr_left fun e _ => ?_
      by_cases he : e.1 = k
      · simp [he]
      · simp [he]
    rw [hkeys]
    exact d.nodup

@[simp] theorem mem_modify {d : Dictionary κ α} {k : κ} {f : α → α} {e : κ × α} :
    e ∈ d.modify k f ↔ (∃ a, (k, a) ∈ d ∧ e = (k, f a)) ∨ (e ∈ d ∧ e.1 ≠ k) := by
  constructor
  · intro he
    obtain ⟨⟨k', a⟩, hmem, heq⟩ := List.mem_map.mp he
    by_cases hk : k' = k
    · subst hk
      rw [if_pos rfl] at heq
      exact .inl ⟨a, hmem, heq.symm⟩
    · rw [if_neg hk] at heq
      exact .inr (heq ▸ ⟨hmem, hk⟩)
  · rintro (⟨a, hmem, rfl⟩ | ⟨he, hk⟩)
    · exact List.mem_map.mpr ⟨(k, a), hmem, if_pos rfl⟩
    · exact List.mem_map.mpr ⟨e, he, if_neg hk⟩

/-- A change that only concerns one entry may be made everywhere. -/
theorem modify_eq_mapValues {d : Dictionary κ α} {k : κ} {f g : α → α}
    (hk : ∀ a, (k, a) ∈ d → f a = g a) (hother : ∀ e ∈ d, e.1 ≠ k → g e.2 = e.2) :
    d.modify k f = d.mapValues g := by
  refine ext (List.map_congr_left fun e he => ?_)
  by_cases h : e.1 = k
  · rw [if_pos h, hk e.2 (by rw [← h]; exact he)]
  · rw [if_neg h, hother e he h]

/-- Removing the only value that is not as asked for. -/
theorem erase_eq_filterValues {d : Dictionary κ α} {k : κ} {p : α → Bool}
    (h : ∀ e ∈ d, e.1 ≠ k ↔ p e.2 = true) : d.erase k = d.filterValues p := by
  refine ext (List.filter_congr fun e he => ?_)
  rw [Bool.eq_iff_iff, decide_eq_true_iff]
  exact h e he

/-! ### Values that know their key, when items are set and removed -/

section Keyed

variable {ι : Type*} {d : Dictionary κ α} {key : α → κ} {id : α → ι}

theorem KeyedBy.setItem (h : d.KeyedBy key) (a : α) : (d.setItem (key a) a).KeyedBy key := by
  intro e he
  rcases mem_setItem.mp he with rfl | ⟨he, -⟩
  · rfl
  · exact h e he

theorem KeyedBy.erase (h : d.KeyedBy key) (k : κ) : (d.erase k).KeyedBy key :=
  fun e he => h e (mem_erase.mp he).1

/-- A value that changes keeps its place exactly if its key stays. -/
theorem keyedBy_modify_iff (h : d.KeyedBy key) {k : κ} {a : α} (ha : (k, a) ∈ d) (f : α → α) :
    (d.modify k f).KeyedBy key ↔ key (f a) = key a := by
  have hk : key a = k := h _ ha
  constructor
  · intro hmod
    exact (hmod (k, f a) (mem_modify.mpr (.inl ⟨a, ha, rfl⟩))).trans hk.symm
  · intro hf e he
    rcases mem_modify.mp he with ⟨a', ha', rfl⟩ | ⟨he, -⟩
    · rw [value_unique ha' ha]
      exact hf.trans hk
    · exact h e he

theorem Distinct.setItem (h : d.Distinct id) {a : α} (hnew : ∀ e ∈ d, id e.2 ≠ id a) (k : κ) :
    (d.setItem k a).Distinct id := by
  intro e he e' he' heq
  rcases mem_setItem.mp he with rfl | ⟨he, -⟩
  · rcases mem_setItem.mp he' with rfl | ⟨he', -⟩
    · rfl
    · exact absurd heq.symm (hnew e' he')
  · rcases mem_setItem.mp he' with rfl | ⟨he', -⟩
    · exact absurd heq (hnew e he)
    · exact h e he e' he' heq

theorem Distinct.erase (h : d.Distinct id) (k : κ) : (d.erase k).Distinct id :=
  fun e he e' he' => h e (mem_erase.mp he).1 e' (mem_erase.mp he').1

theorem Distinct.modify (h : d.Distinct id) {f : α → α} (hf : ∀ a, id (f a) = id a) (k : κ) :
    (d.modify k f).Distinct id := by
  intro e he e' he' heq
  rcases mem_modify.mp he with ⟨a, ha, rfl⟩ | ⟨he, hk⟩
  · rcases mem_modify.mp he' with ⟨a', ha', rfl⟩ | ⟨he', hk'⟩
    · rw [value_unique ha ha']
    · rw [hf] at heq
      rw [← h _ ha e' he' heq] at hk'
      exact absurd rfl hk'
  · rcases mem_modify.mp he' with ⟨a', ha', rfl⟩ | ⟨he', -⟩
    · rw [hf] at heq
      rw [h e he _ ha' heq] at hk
      exact absurd rfl hk
    · exact h e he e' he' heq

variable [DecidableEq ι]

/-- Where keys and numbers are as they should be, a value is removed by its key. -/
theorem erase_keyed (hkey : d.KeyedBy key) (hid : d.Distinct id) {k : κ} {a : α} (ha : (k, a) ∈ d) :
    d.erase (key a) = d.filterValues fun b => id b ≠ id a := by
  refine erase_eq_filterValues fun e he => ?_
  rw [decide_eq_true_iff]
  refine not_congr ⟨fun hk => ?_, fun hi => ?_⟩
  · have hk' : e.1 = k := hk.trans (hkey _ ha)
    obtain ⟨k', b⟩ := e
    cases hk'
    rw [value_unique he ha]
  · rw [hid e he _ ha hi]
    exact (hkey _ ha).symm

end Keyed

end Dictionary
