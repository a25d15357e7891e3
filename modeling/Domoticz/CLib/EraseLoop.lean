import Mathlib.Data.List.Basic
import Mathlib.Tactic

/-!
# Erasing from a vector while indexing it

The loop

    for (size_t i = 0; i < v.size(); i++)
      if (bad(v[i])) { v.erase(v.begin() + i); i = 0; }

restarts after each erasure, but the loop's own `i++` runs before the next test,
so the restart is at index one: the element that an erasure at index zero moves
to the front is never examined.

## Main definitions

* `eraseLoop bad v i` — the loop entered at index `i`.
* `ExaminedRight bad keep v` — at each position the loop examines it decides as
  `keep` does, and a second element it passes over is one to keep.

## Main results

* `eraseLoop_zero` — the closed form of the loop.
* `eraseLoop_eq_filter_iff` — the loop is the filter by `keep` exactly when
  `ExaminedRight` holds.
-/

namespace CLib

variable {α : Type*}

/-- The loop, entered at index `i`. -/
def eraseLoop (bad : α → Bool) (v : List α) (i : ℕ) : List α :=
  if h : i < v.length then
    -- `i = 0` after the erasure, and then the `i++` of the loop
    if bad v[i] then eraseLoop bad (v.eraseIdx i) 1
    else eraseLoop bad v (i + 1)
  else v
termination_by (v.length, v.length - i)
decreasing_by
  · rw [List.length_eraseIdx_of_lt h]
    exact Prod.Lex.left _ _ (by omega)
  · exact Prod.Lex.right _ (by omega)

/-- Entered behind its first element, with the elements before the index already
found good, the loop filters the rest and leaves the first element alone. -/
theorem eraseLoop_examined (bad : α → Bool) (a : α) : ∀ (n : ℕ) (tail good : List α),
    good.length + tail.length = n → (∀ x ∈ good, bad x = false) →
      eraseLoop bad (a :: (good ++ tail)) (good.length + 1)
        = a :: (good ++ tail.filter fun x => !bad x) := by
  intro n
  -- the vector only gets shorter at an erasure, so the induction is on its length,
  -- and inside it on what is still to be examined
  induction n using Nat.strong_induction_on with
  | _ n ih =>
    intro tail
    induction tail with
    | nil =>
      intro good _ _
      rw [eraseLoop, dif_neg (by simp)]
      simp
    | cons x tail ihtail =>
      intro good hn hgood
      have hlt : good.length + 1 < (a :: (good ++ x :: tail)).length := by simp
      have hget : (a :: (good ++ x :: tail))[good.length + 1] = x := by simp
      rw [eraseLoop, dif_pos hlt, hget]
      cases hx : bad x with
      | true =>
        have herase : (a :: (good ++ x :: tail)).eraseIdx (good.length + 1)
            = a :: (good ++ tail) := by
          rw [List.eraseIdx_cons_succ, List.eraseIdx_append_of_length_le (Nat.le_refl _)]
          simp
        have hrec := ih (good ++ tail).length (by simp at hn ⊢; omega) (good ++ tail) [] (by simp)
          (by simp)
        have hfil : good.filter (fun x => !bad x) = good := by
          rw [List.filter_eq_self]
          intro y hy
          simp [hgood y hy]
        rw [if_pos rfl, herase]
        simpa [hx, hfil] using hrec
      | false =>
        have hgood' : ∀ y ∈ good ++ [x], bad y = false := by
          intro y hy
          rcases List.mem_append.mp hy with hy | hy
          · exact hgood y hy
          · rw [List.mem_singleton.mp hy, hx]
        have hrec := ihtail (good ++ [x]) (by simp at hn ⊢; omega) hgood'
        rw [if_neg (by simp)]
        simpa [hx] using hrec

/-- **The closed form of the loop.**  When the first element goes, the second one
takes its place unexamined. -/
theorem eraseLoop_zero (bad : α → Bool) (v : List α) :
    eraseLoop bad v 0 = match v with
      | [] => []
      | [x] => if bad x then [] else [x]
      | x :: y :: rest =>
          if bad x then y :: rest.filter (fun z => !bad z)
          else x :: (y :: rest).filter fun z => !bad z := by
  have hrest : ∀ (a : α) (tail : List α),
      eraseLoop bad (a :: tail) 1 = a :: tail.filter fun z => !bad z := by
    intro a tail
    simpa using eraseLoop_examined bad a tail.length tail [] (by simp) (by simp)
  match v with
  | [] => rw [eraseLoop, dif_neg (by simp)]
  | [x] =>
    rw [eraseLoop, dif_pos (by simp)]
    cases hx : bad x with
    | true =>
      simp only [List.getElem_cons_zero, hx, if_true, List.eraseIdx_cons_zero]
      rw [eraseLoop, dif_neg (by simp)]
    | false => simpa [hx] using hrest x []
  | x :: y :: rest =>
    rw [eraseLoop, dif_pos (by simp)]
    cases hx : bad x with
    | true => simpa [hx] using hrest y rest
    | false => simpa [hx] using hrest x (y :: rest)

/-- Where nothing is bad nothing is erased. -/
theorem eraseLoop_of_good {bad : α → Bool} {v : List α} (h : ∀ x ∈ v, bad x = false) :
    eraseLoop bad v 0 = v := by
  have hfilter : ∀ {l : List α}, (∀ x ∈ l, x ∈ v) → l.filter (fun z => !bad z) = l := by
    intro l hl
    rw [List.filter_eq_self]
    intro x hx
    simp [h x (hl x hx)]
  rw [eraseLoop_zero]
  match v with
  | [] => rfl
  | [x] => simp [h x]
  | x :: y :: rest =>
    simp only [h x (by simp), Bool.false_eq_true, if_false]
    rw [hfilter fun z hz => List.mem_cons_of_mem _ hz]

/-- The loop over images, deciding by the images, gives the images. -/
theorem map_eraseLoop {β : Type*} (g : α → β) (bad : β → Bool) (v : List α) :
    (eraseLoop (fun x => bad (g x)) v 0).map g = eraseLoop bad (v.map g) 0 := by
  rw [eraseLoop_zero, eraseLoop_zero]
  match v with
  | [] => rfl
  | [x] =>
    show ((if bad (g x) then [] else [x]) : List α).map g = if bad (g x) then [] else [g x]
    split <;> rfl
  | x :: y :: rest =>
    show (if bad (g x) then y :: rest.filter (fun z => !bad (g z))
        else x :: (y :: rest).filter fun z => !bad (g z)).map g
      = if bad (g x) then g y :: (rest.map g).filter (fun z => !bad z)
        else g x :: (g y :: rest.map g).filter fun z => !bad z
    have hmap : ∀ l : List α, (l.filter fun z => !bad (g z)).map g
        = (l.map g).filter fun z => !bad z := by
      intro l
      rw [List.filter_map]
      rfl
    split
    · rw [List.map_cons, hmap]
    · rw [List.map_cons, hmap, List.map_cons]

/-- At each position the loop examines it decides as `keep` does; and the second
element, passed over when the first goes, is one to keep. -/
def ExaminedRight (bad keep : α → Bool) : List α → Prop
  | [] => True
  | [x] => keep x = !bad x
  | x :: y :: rest =>
      keep x = !bad x ∧ (if bad x then keep y = true else keep y = !bad y) ∧
        ∀ z ∈ rest, keep z = !bad z

instance (bad keep : α → Bool) : ∀ v, Decidable (ExaminedRight bad keep v)
  | [] => inferInstanceAs (Decidable True)
  | [x] => inferInstanceAs (Decidable (keep x = !bad x))
  | x :: y :: rest => inferInstanceAs (Decidable (keep x = !bad x ∧
      (if bad x then keep y = true else keep y = !bad y) ∧ ∀ z ∈ rest, keep z = !bad z))

/-- Two filters of one list agree exactly when they decide alike on its elements. -/
theorem filter_eq_filter_iff (p q : α → Bool) (l : List α) :
    l.filter p = l.filter q ↔ ∀ x ∈ l, q x = p x := by
  constructor
  · intro h x hx
    have hmem : x ∈ l.filter p ↔ x ∈ l.filter q := by rw [h]
    simp only [List.mem_filter, hx, true_and] at hmem
    cases hp : p x <;> cases hq : q x <;> simp_all
  · intro h
    exact List.filter_congr fun x hx => (h x hx).symm

/-- **The loop is the filter by `keep` exactly when it decides right wherever it
looks.** -/
theorem eraseLoop_eq_filter_iff (bad keep : α → Bool) (v : List α) :
    eraseLoop bad v 0 = v.filter keep ↔ ExaminedRight bad keep v := by
  rw [eraseLoop_zero]
  match v with
  | [] => simp [ExaminedRight]
  | [x] =>
    show (if bad x then [] else [x]) = [x].filter keep ↔ keep x = !bad x
    cases bad x <;> cases hk : keep x <;> simp [hk]
  | x :: y :: rest =>
    show (if bad x then y :: rest.filter (fun z => !bad z)
      else x :: (y :: rest).filter fun z => !bad z) = _ ↔ _
    cases hx : bad x with
    | false =>
      rw [if_neg (by simp)]
      have hfil : x :: (y :: rest).filter (fun z => !bad z)
          = (x :: y :: rest).filter fun z => !bad z := by simp [hx]
      rw [hfil, filter_eq_filter_iff]
      simp [ExaminedRight, hx]
    | true =>
      rw [if_pos rfl]
      simp only [ExaminedRight, hx, if_true, Bool.not_true]
      constructor
      · intro h
        -- the first element goes: were it one to keep, it would be the second one,
        -- and the erased first one would have to turn up again
        have hkx : keep x = false := by
          by_contra hkx
          rw [Bool.not_eq_false] at hkx
          rw [List.filter_cons_of_pos hkx] at h
          injection h with hyx htail
          subst hyx
          rw [List.filter_cons_of_pos hkx] at htail
          have hmem : y ∈ rest.filter fun z => !bad z := htail ▸ List.mem_cons_self
          simp [hx] at hmem
        rw [List.filter_cons_of_neg (by simp [hkx])] at h
        have hky : keep y = true := by
          have hmem : y ∈ (y :: rest).filter keep := h ▸ List.mem_cons_self
          exact (List.mem_filter.mp hmem).2
        rw [List.filter_cons_of_pos hky] at h
        injection h with _ htail
        exact ⟨hkx, hky, (filter_eq_filter_iff _ _ _).mp htail⟩
      · rintro ⟨hkx, hky, hrest⟩
        rw [List.filter_cons_of_neg (by simp [hkx]), List.filter_cons_of_pos hky,
          (filter_eq_filter_iff _ _ _).mpr hrest]

end CLib
