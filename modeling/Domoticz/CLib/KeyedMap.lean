import Mathlib.Data.Option.Basic
import Mathlib.Tactic

/-!
# Maps whose values carry their key

A `std::map` that is only ever written through `m[value.id] = value`, or a table
with a primary key: each value stored knows the key it is stored under.  The
structure carries that invariant, so a value that was looked up never has to be
compared with the key it was looked up by.

## Main definitions

* `KeyedMap key` — the maps, with `insert`, `erase` and `filter`.
-/

namespace CLib

variable {κ α : Type*}

/-- A map from keys to values in which each value stands under its own key. -/
structure KeyedMap (key : α → κ) where
  get : κ → Option α
  keyed : ∀ k v, get k = some v → key v = k

namespace KeyedMap

variable {key : α → κ}

/-- The map without entries. -/
def empty (key : α → κ) : KeyedMap key where
  get _ := none
  keyed _ _ h := by cases h

/-- The entries that satisfy a test. -/
def filter (m : KeyedMap key) (p : α → Bool) : KeyedMap key where
  get k := (m.get k).filter p
  keyed k v h := m.keyed k v (Option.filter_eq_some_iff.mp h).1

@[simp] theorem get_filter (m : KeyedMap key) (p : α → Bool) (k : κ) :
    (m.filter p).get k = (m.get k).filter p := rfl

variable [DecidableEq κ]

/-- `m[key(v)] = v`. -/
def insert (m : KeyedMap key) (v : α) : KeyedMap key where
  get k := if k = key v then some v else m.get k
  keyed k w h := by
    split at h
    · next hk => rw [← Option.some.inj h, hk]
    · exact m.keyed k w h

/-- `m.erase(k)`. -/
def erase (m : KeyedMap key) (k : κ) : KeyedMap key where
  get k' := if k' = k then none else m.get k'
  keyed k' v h := by
    split at h
    · cases h
    · exact m.keyed k' v h

@[simp] theorem get_insert (m : KeyedMap key) (v : α) (k : κ) :
    (m.insert v).get k = if k = key v then some v else m.get k := rfl

@[simp] theorem get_erase (m : KeyedMap key) (k k' : κ) :
    (m.erase k).get k' = if k' = k then none else m.get k' := rfl

end KeyedMap

end CLib
