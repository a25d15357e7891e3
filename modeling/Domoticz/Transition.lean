import Mathlib.Data.List.Basic
import Mathlib.Tactic

/-!
# Runs

A system that takes one step for each event.  A statement about the steps of a run is compared
with another one that agrees with it in all states that an invariant allows.

## Main definitions

* `Throughout step P s es` — every step of a run satisfies `P`.

## Main results

* `run_invariant` — what every step keeps holds in the end.
* `throughout_invariant` — the same for a run whose steps all satisfy a condition.
* `forall_prefix_iff` — what holds in every state, by the steps.
* `run_potential` — what every event lowers is low in the end.
* `throughout_congr`, `throughout_congr_of_kept` — statements that agree under an invariant.
-/

namespace Transition

variable {σ ε : Type*} (step : σ → ε → σ)

/-- Every step that is taken from `s` satisfies `P`. -/
def Throughout (P : σ → ε → Prop) : σ → List ε → Prop
  | _, [] => True
  | s, e :: es => P s e ∧ Throughout P (step s e) es

instance throughoutDecidable (P : σ → ε → Prop) [∀ s e, Decidable (P s e)] :
    (s : σ) → (es : List ε) → Decidable (Throughout step P s es)
  | _, [] => .isTrue trivial
  | s, e :: es => @instDecidableAnd _ _ _ (throughoutDecidable P (step s e) es)

variable {step}

/-- An invariant of the steps holds at the end of a run. -/
theorem run_invariant {I : σ → Prop} (hstep : ∀ s e, I s → I (step s e)) {s : σ} (hs : I s)
    (es : List ε) : I (es.foldl step s) := by
  induction es generalizing s with
  | nil => exact hs
  | cons e es ih => exact ih (hstep s e hs)

/-- An invariant of the steps that satisfy `P` holds in all states of a run of such steps. -/
theorem throughout_invariant {I : σ → Prop} {P : σ → ε → Prop}
    (hstep : ∀ s e, I s → P s e → I (step s e)) {s : σ} (hs : I s) {es : List ε}
    (h : Throughout step P s es) : ∀ es', es' <+: es → I (es'.foldl step s) := by
  intro es' hprefix
  induction es' generalizing s es with
  | nil => exact hs
  | cons e es' ih =>
    obtain ⟨rest, rfl⟩ := hprefix
    exact ih (hstep s e hs h.1) h.2 ⟨rest, rfl⟩

/-- A potential that every event lowers by its cost, in a run that ends in `G`. -/
theorem run_potential {I G : σ → Prop} {μ : σ → ℕ} {cost : ε → ℕ}
    (hG : ∀ s e, G (step s e) → G s) (hI : ∀ s e, I s → I (step s e))
    (hμ : ∀ s e, I s → G (step s e) → μ (step s e) ≤ μ s - cost e) {s : σ} (hs : I s)
    {es : List ε} (hend : G (es.foldl step s)) :
    μ (es.foldl step s) ≤ μ s - (es.map cost).sum := by
  induction es generalizing s with
  | nil => exact le_refl _
  | cons e es ih =>
    have hfirst : G (step s e) := by
      clear ih
      rw [List.foldl_cons] at hend
      generalize step s e = t at hend
      induction es generalizing t with
      | nil => exact hend
      | cons e' es ih' => exact hG t e' (ih' (step t e') hend)
    have hrest := ih (hI s e hs) hend
    have hstep := hμ s e hs hfirst
    rw [List.foldl_cons, List.map_cons, List.sum_cons]
    omega

/-- What holds in every state of a run, by the steps that lead to them. -/
theorem forall_prefix_iff {P : σ → Prop} {s : σ} {es : List ε} :
    (∀ done, done <+: es → P (done.foldl step s)) ↔
      P s ∧ Throughout step (fun s e => P (step s e)) s es := by
  induction es generalizing s with
  | nil =>
    constructor
    · intro h
      exact ⟨h [] List.nil_prefix, trivial⟩
    · rintro ⟨hs, -⟩ done hdone
      rw [List.prefix_nil.mp hdone]
      exact hs
  | cons e es ih =>
    constructor
    · intro h
      have hrest : ∀ done, done <+: es → P (done.foldl step (step s e)) := fun done hdone =>
        h (e :: done) (List.cons_prefix_cons.mpr ⟨rfl, hdone⟩)
      exact ⟨h [] List.nil_prefix, ih.mp hrest⟩
    · rintro ⟨hs, he, hrest⟩ done hdone
      cases done with
      | nil => exact hs
      | cons e' done =>
        obtain ⟨rfl, hprefix⟩ := List.cons_prefix_cons.mp hdone
        exact ih.mpr ⟨he, hrest⟩ done hprefix

/-- What steps of `P` keep, and what makes them satisfy `Q`. -/
theorem throughout_of_kept {I : σ → Prop} {P Q : σ → ε → Prop}
    (hstep : ∀ s e, I s → P s e → I (step s e)) (hQ : ∀ s e, I s → P s e → Q s e) {s : σ}
    (hs : I s) {es : List ε} (h : Throughout step P s es) : Throughout step Q s es := by
  induction es generalizing s with
  | nil => trivial
  | cons e es ih => exact ⟨hQ s e hs h.1, ih (hstep s e hs h.1) h.2⟩

/-- The last step of a run. -/
theorem throughout_last {P : σ → ε → Prop} {s : σ} {es : List ε} {e : ε}
    (h : Throughout step P s (es ++ [e])) : P (es.foldl step s) e := by
  induction es generalizing s with
  | nil => exact h.1
  | cons e' es ih => exact ih h.2

/-- Statements that agree in every state of the invariant agree on a run. -/
theorem throughout_congr {I : σ → Prop} {P Q : σ → ε → Prop}
    (hstep : ∀ s e, I s → I (step s e)) (hPQ : ∀ s e, I s → (P s e ↔ Q s e)) {s : σ} (hs : I s)
    (es : List ε) : Throughout step P s es ↔ Throughout step Q s es := by
  induction es generalizing s with
  | nil => exact Iff.rfl
  | cons e es ih => exact and_congr (hPQ s e hs) (ih (hstep s e hs))

/-- Statements that agree in every state of an invariant that they keep agree on a run. -/
theorem throughout_congr_of_kept {I : σ → Prop} {P Q : σ → ε → Prop}
    (hstep : ∀ s e, I s → P s e → I (step s e)) (hPQ : ∀ s e, I s → (P s e ↔ Q s e)) {s : σ}
    (hs : I s) (es : List ε) : Throughout step P s es ↔ Throughout step Q s es := by
  induction es generalizing s with
  | nil => exact Iff.rfl
  | cons e es ih =>
    constructor
    · rintro ⟨hP, hrest⟩
      exact ⟨(hPQ s e hs).mp hP, (ih (hstep s e hs hP)).mp hrest⟩
    · rintro ⟨hQ, hrest⟩
      have hP := (hPQ s e hs).mpr hQ
      exact ⟨hP, (ih (hstep s e hs hP)).mpr hrest⟩

end Transition
