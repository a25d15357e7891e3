import Mathlib.Data.List.Basic

/-!
# Transducers

A machine that reads inputs one after the other and puts something out for each.  A step may
fail to come back, and then nothing that follows is put out.

## Main definitions

* `outputs step s is` — what is put out from the state `s` on.
* `run step s is` — that, and the state that is reached.
* `Alike step s t` — two states that no inputs can tell apart.

## Main results

* `alike_of_simulation` — a relation that the steps keep and that puts out the same.
* `Alike.first` — what is put out for a single input.
-/

namespace Transducer

variable {σ ι ο : Type*} (step : σ → ι → Option (σ × List ο))

/-- What is put out for a list of inputs, if all steps come back. -/
def outputs : σ → List ι → Option (List ο)
  | _, [] => some []
  | s, i :: is => (step s i).bind fun r => (outputs r.1 is).map (r.2 ++ ·)

/-- The state after a list of inputs and what was put out, if all steps come back. -/
def run : σ → List ι → Option (σ × List ο)
  | s, [] => some (s, [])
  | s, i :: is => (step s i).bind fun r => (run r.1 is).map fun q => (q.1, r.2 ++ q.2)

theorem run_concat_iff {s t : σ} {is : List ι} {i : ι} {out : List ο} :
    run step s (is ++ [i]) = some (t, out) ↔ ∃ s' o o', run step s is = some (s', o) ∧
      step s' i = some (t, o') ∧ out = o ++ o' := by
  induction is generalizing s out with
  | nil =>
    simp only [List.nil_append, run, Option.bind_eq_some_iff, Option.map_some, Option.some.injEq,
      Prod.mk.injEq, List.append_nil, Prod.exists]
    constructor
    · rintro ⟨t', o, h, rfl, rfl⟩
      exact ⟨s, [], o, ⟨rfl, rfl⟩, h, rfl⟩
    · rintro ⟨s', o, o', ⟨rfl, rfl⟩, h, rfl⟩
      exact ⟨t, _, h, rfl, rfl⟩
  | cons j is ih =>
    simp only [List.cons_append, run, Option.bind_eq_some_iff, Option.map_eq_some_iff, Prod.mk.injEq,
      Prod.exists]
    constructor
    · rintro ⟨s₁, o₁, hstep, t', o₂, hrun, rfl, rfl⟩
      obtain ⟨s', o, o', hdone, hlast, rfl⟩ := ih.mp hrun
      exact ⟨s', o₁ ++ o, o', ⟨s₁, o₁, hstep, s', o, hdone, rfl, rfl⟩, hlast,
        (List.append_assoc ..).symm⟩
    · rintro ⟨s', o, o', ⟨s₁, o₁, hstep, s'', o₂, hdone, rfl, rfl⟩, hlast, rfl⟩
      exact ⟨s₁, o₁, hstep, t, o₂ ++ o', ih.mpr ⟨_, o₂, o', hdone, hlast, rfl⟩, rfl,
        (List.append_assoc ..).symm⟩

/-- No inputs tell the two states apart. -/
def Alike (s t : σ) : Prop := ∀ is, outputs step s is = outputs step t is

variable {step}

@[simp] theorem Alike.refl (s : σ) : Alike step s s := fun _ => rfl

/-- A simulation: related states take the same steps to related states. -/
theorem alike_of_simulation {R : σ → σ → Prop}
    (hstep : ∀ s t i, R s t → ∃ r : Option (σ × σ × List ο),
      step s i = r.map (fun r => (r.1, r.2.2)) ∧ step t i = r.map (fun r => (r.2.1, r.2.2)) ∧
        ∀ q ∈ r, R q.1 q.2.1) {s t : σ} (h : R s t) : Alike step s t := by
  intro is
  induction is generalizing s t with
  | nil => rfl
  | cons i is ih =>
    obtain ⟨r, hs, ht, hr⟩ := hstep s t i h
    rw [outputs, outputs, hs, ht]
    cases r with
    | none => rfl
    | some q =>
      show (outputs step q.1 is).map _ = (outputs step q.2.1 is).map _
      rw [ih (hr q rfl)]

theorem outputs_singleton (s : σ) (i : ι) : outputs step s [i] = (step s i).map Prod.snd := by
  rw [outputs]
  cases step s i with
  | none => rfl
  | some r => simp [outputs]

theorem Alike.first {s t : σ} (h : Alike step s t) (i : ι) :
    (step s i).map Prod.snd = (step t i).map Prod.snd := by
  rw [← outputs_singleton, ← outputs_singleton]
  exact h [i]

end Transducer
