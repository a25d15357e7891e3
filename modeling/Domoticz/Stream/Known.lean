import Mathlib.Data.List.Infix
import Mathlib.Tactic

/-!
# What a beginning of a known stream holds

The units of a stream are given.  A beginning of the stream, by its length, holds the
first of them complete and a part of the next one.  No property of the encoding is used
but that a unit is not empty.

## Main definitions

* `join` — the stream of a list of units.
* `complete`, `pending` — the units that a beginning holds, and the part of the next one.

## Main results

* `join_complete` — a beginning is its complete units and what is pending.
* `complete_append` — what more of the stream completes.
* `pending_prefix` — what is pending is the beginning of a unit.
-/

namespace Stream.Known

variable {α β : Type} (encode : α → List β)

/-- Units one after the other. -/
def join (l : List α) : List β := (l.map encode).flatten

/-- The units that are complete in a beginning of their stream. -/
def complete : List α → List β → List α
  | [], _ => []
  | a :: l, s =>
      if (encode a).length ≤ s.length then a :: complete l (s.drop (encode a).length) else []

/-- What a beginning of a stream holds behind its complete units. -/
def pending : List α → List β → List β
  | [], s => s
  | a :: l, s =>
      if (encode a).length ≤ s.length then pending l (s.drop (encode a).length) else s

variable {encode}

theorem join_cons (a : α) (l : List α) : join encode (a :: l) = encode a ++ join encode l := rfl

theorem join_append (l₁ l₂ : List α) :
    join encode (l₁ ++ l₂) = join encode l₁ ++ join encode l₂ := by
  rw [join, List.map_append, List.flatten_append]
  rfl

/-- A beginning of a stream, by its first unit. -/
theorem prefix_join_cons {a : α} {l : List α} {s : List β} (h : s <+: join encode (a :: l)) :
    if (encode a).length ≤ s.length then
      ∃ t, s = encode a ++ t ∧ t <+: join encode l
    else s <+: encode a := by
  rw [join_cons] at h
  split
  · next hle =>
    obtain ⟨t, rfl⟩ := List.prefix_of_prefix_length_le (List.prefix_append _ _) h hle
    exact ⟨t, rfl, (List.prefix_append_right_inj _).mp h⟩
  · next hlt =>
    exact List.prefix_of_prefix_length_le h (List.prefix_append _ _) (Nat.le_of_not_le hlt)

theorem complete_cons {a : α} (l : List α) (t : List β) :
    complete encode (a :: l) (encode a ++ t) = a :: complete encode l t := by
  rw [complete, if_pos (by rw [List.length_append]; exact Nat.le_add_right _ _), List.drop_left]

theorem pending_cons {a : α} (l : List α) (t : List β) :
    pending encode (a :: l) (encode a ++ t) = pending encode l t := by
  rw [pending, if_pos (by rw [List.length_append]; exact Nat.le_add_right _ _), List.drop_left]

/-- The units of a stream are those that a beginning completes, and more. -/
theorem exists_rest (l : List α) (s : List β) : ∃ rest, l = complete encode l s ++ rest := by
  induction l generalizing s with
  | nil => exact ⟨[], rfl⟩
  | cons a l ih =>
    rw [complete]
    split
    · obtain ⟨rest, hrest⟩ := ih (s.drop (encode a).length)
      refine ⟨rest, ?_⟩
      rw [List.cons_append, ← hrest]
    · exact ⟨a :: l, rfl⟩

theorem join_complete {l : List α} {s : List β} (h : s <+: join encode l) :
    join encode (complete encode l s) ++ pending encode l s = s := by
  induction l generalizing s with
  | nil => rfl
  | cons a l ih =>
    have hfirst := prefix_join_cons h
    by_cases hle : (encode a).length ≤ s.length
    · rw [if_pos hle] at hfirst
      obtain ⟨t, rfl, ht⟩ := hfirst
      rw [complete_cons, pending_cons, join_cons, List.append_assoc, ih ht]
    · rw [complete, pending, if_neg hle, if_neg hle]
      rfl

/-- More of the stream: what it completes is what it completes behind the complete units. -/
theorem complete_append {l rest : List α} {s : List β} (more : List β)
    (h : s <+: join encode l) (hrest : l = complete encode l s ++ rest) :
    complete encode l (s ++ more) =
        complete encode l s ++ complete encode rest (pending encode l s ++ more) ∧
      pending encode l (s ++ more) = pending encode rest (pending encode l s ++ more) := by
  induction l generalizing s with
  | nil =>
    obtain rfl : rest = [] := (List.append_eq_nil_iff.mp hrest.symm).2
    exact ⟨rfl, rfl⟩
  | cons a l ih =>
    have hfirst := prefix_join_cons h
    by_cases hle : (encode a).length ≤ s.length
    · rw [if_pos hle] at hfirst
      obtain ⟨t, rfl, ht⟩ := hfirst
      rw [complete_cons, List.cons_append] at hrest
      obtain ⟨h₁, h₂⟩ := ih ht (List.cons_inj_right a |>.mp hrest)
      rw [List.append_assoc, complete_cons, complete_cons, pending_cons, pending_cons, h₁, h₂]
      exact ⟨rfl, rfl⟩
    · have hc : complete encode (a :: l) s = [] := by rw [complete, if_neg hle]
      have hp : pending encode (a :: l) s = s := by rw [pending, if_neg hle]
      rw [hc] at hrest ⊢
      rw [hp, hrest]
      exact ⟨rfl, rfl⟩

/-- What is pending is the beginning of a unit. -/
theorem pending_prefix {l : List α} {s : List β} (h : s <+: join encode l) :
    pending encode l s = [] ∨ ∃ a ∈ l, pending encode l s <+: encode a := by
  induction l generalizing s with
  | nil => exact .inl (List.prefix_nil.mp h)
  | cons a l ih =>
    have hfirst := prefix_join_cons h
    by_cases hle : (encode a).length ≤ s.length
    · rw [if_pos hle] at hfirst
      obtain ⟨t, rfl, ht⟩ := hfirst
      rw [pending_cons]
      rcases ih ht with hnil | ⟨b, hb, hpre⟩
      · exact .inl hnil
      · exact .inr ⟨b, List.mem_cons_of_mem a hb, hpre⟩
    · rw [if_neg hle] at hfirst
      rw [pending, if_neg hle]
      exact .inr ⟨a, List.mem_cons_self, hfirst⟩

end Stream.Known
