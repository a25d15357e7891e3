import Mathlib.Data.Nat.Basic
import Mathlib.Tactic

/-!
# Loops

A loop is a function of its state: an iteration ends it with a result or leaves another state.

## Main definitions

* `run` — so many iterations at most.
* `Halts` — the loop ends.
* `Steps` — so many iterations lead from a state to another one.

## Main results

* `Steps.halts_iff` — what is done on the way does not matter.
* `not_halts_of_cycle` — a loop that comes back to a state does not end.
* `exists_last_of_run` — a result is that of a last iteration.
-/

namespace CLib.Loop

variable {σ ρ : Type*} (step : σ → ρ ⊕ σ)

/-- The result of the loop, if it ends within so many iterations. -/
def run : ℕ → σ → Option ρ
  | 0, _ => none
  | n + 1, s =>
      match step s with
      | .inl r => some r
      | .inr s' => run n s'

/-- The loop ends. -/
def Halts (s : σ) : Prop := ∃ n r, run step n s = some r

/-- So many iterations lead from a state to another one. -/
inductive Steps : ℕ → σ → σ → Prop
  | zero (s : σ) : Steps 0 s s
  | succ {n : ℕ} {s s' t : σ} : step s = .inr s' → Steps n s' t → Steps (n + 1) s t

variable {step} {n m : ℕ} {s s' t : σ} {r : ρ}

theorem run_succ_of_inl (h : step s = .inl r) (n : ℕ) : run step (n + 1) s = some r := by
  rw [run, h]

theorem run_succ_of_inr (h : step s = .inr s') (n : ℕ) : run step (n + 1) s = run step n s' := by
  rw [run, h]

theorem halts_of_inl (h : step s = .inl r) : Halts step s := ⟨1, r, run_succ_of_inl h 0⟩

theorem halts_iff_of_inr (h : step s = .inr s') : Halts step s ↔ Halts step s' := by
  constructor
  · rintro ⟨n, r, hrun⟩
    cases n with
    | zero => cases hrun
    | succ n =>
      rw [run_succ_of_inr h] at hrun
      exact ⟨n, r, hrun⟩
  · rintro ⟨n, r, hrun⟩
    exact ⟨n + 1, r, (run_succ_of_inr h n).trans hrun⟩

/-- A loop that does not end goes on. -/
theorem exists_inr_of_not_halts (h : ¬ Halts step s) : ∃ s', step s = .inr s' ∧ ¬ Halts step s' := by
  cases hstep : step s with
  | inl r => exact absurd (halts_of_inl hstep) h
  | inr s' => exact ⟨s', rfl, fun hs' => h ((halts_iff_of_inr hstep).mpr hs')⟩

namespace Steps

theorem one (h : step s = .inr s') : Steps step 1 s s' := .succ h (.zero s')

theorem trans (h : Steps step n s s') (h' : Steps step m s' t) : Steps step (n + m) s t := by
  induction h with
  | zero s => rwa [Nat.zero_add]
  | succ hstep _ ih =>
    rw [Nat.succ_add]
    exact .succ hstep (ih h')

/-- What is done on the way does not matter. -/
theorem halts_iff (h : Steps step n s t) : Halts step s ↔ Halts step t := by
  induction h with
  | zero s => exact Iff.rfl
  | succ hstep _ ih => exact (halts_iff_of_inr hstep).trans ih

theorem run_add (h : Steps step n s t) (m : ℕ) : run step (n + m) s = run step m t := by
  induction h with
  | zero s => rw [Nat.zero_add]
  | succ hstep _ ih => rw [Nat.succ_add, run_succ_of_inr hstep, ih]

/-- There is no result on the way. -/
theorem run_eq_none (h : Steps step n s t) (hle : m ≤ n) : run step m s = none := by
  induction h generalizing m with
  | zero s =>
    rw [Nat.le_zero.mp hle]
    rfl
  | succ hstep _ ih =>
    cases m with
    | zero => rfl
    | succ m => rw [run_succ_of_inr hstep, ih (Nat.le_of_succ_le_succ hle)]

end Steps

/-- A loop that comes back to a state does not end. -/
theorem not_halts_of_cycle (h : Steps step n s s) (hpos : 0 < n) : ¬ Halts step s := by
  rintro ⟨m, r, hrun⟩
  induction m using Nat.strong_induction_on with
  | _ m ih =>
    by_cases hle : m ≤ n
    · rw [h.run_eq_none hle] at hrun
      cases hrun
    · obtain ⟨k, rfl⟩ := Nat.exists_eq_add_of_le (Nat.le_of_not_le hle)
      rw [h.run_add] at hrun
      exact ih k (by omega) hrun

/-- A result is that of a last iteration. -/
theorem exists_last_of_run (h : run step n s = some r) :
    ∃ m t, Steps step m s t ∧ step t = .inl r := by
  induction n generalizing s with
  | zero => cases h
  | succ n ih =>
    cases hstep : step s with
    | inl r' =>
      rw [run_succ_of_inl hstep] at h
      cases h
      exact ⟨0, s, .zero s, hstep⟩
    | inr s' =>
      rw [run_succ_of_inr hstep] at h
      obtain ⟨m, t, hsteps, hlast⟩ := ih h
      exact ⟨m + 1, t, .succ hstep hsteps, hlast⟩

end CLib.Loop
