import Domoticz.Stream.Decoder
import Domoticz.Transducer

/-!
# Prefix codes

When no encoding of a unit is the beginning of another's, a stream can be taken
apart in one way only.  What a prefix of a stream holds complete, and what of it is
the beginning of the next unit, are then facts about the bytes, which a reader with
a step of its own can be compared with after every read.

## Main definitions

* `PrefixCode` — a code that can be taken apart from the front.
* `PrefixCode.decoder` — the decoder that goes with it.
* `steps` — a reader with a step of its own.
* `PrefixCode.Follows` — after every read the reader has delivered what is complete
  and retains what is not.
* `PrefixCode.Tracks` — the same of a reader that may fail to come back, and whose
  deliveries are in a relation to the units.

## Main results

* `PrefixCode.drain_encode` — a stream is taken apart into what it was put together from.
* `PrefixCode.follows_iff` — **a reader follows the stream exactly if each of its steps does.**
* `PrefixCode.tracks_iff` — the same for a reader that may fail to come back.
-/

namespace Stream

variable {α β ε ρ : Type}

/-- A code for `α` over the alphabet `β`. -/
structure PrefixCode (α β : Type) where
  encode : α → List β
  ne_nil : ∀ a, encode a ≠ []
  unique : ∀ {a b s t}, encode a ++ s = encode b ++ t → a = b ∧ s = t

namespace PrefixCode

/-- The unit at the front of a buffer. -/
noncomputable def next (c : PrefixCode α β) (buf : List β) : Option (α × List β) :=
  open Classical in
  if h : ∃ p : α × List β, buf = c.encode p.1 ++ p.2 then some h.choose else none

theorem next_eq_some_iff (c : PrefixCode α β) {buf rest : List β} {a : α} :
    c.next buf = some (a, rest) ↔ buf = c.encode a ++ rest := by
  constructor
  · intro h
    unfold next at h
    split at h
    · next hex =>
      have hc := hex.choose_spec
      rw [Option.some.inj h] at hc
      exact hc
    · cases h
  · intro h
    have hex : ∃ p : α × List β, buf = c.encode p.1 ++ p.2 := ⟨(a, rest), h⟩
    obtain ⟨ha, hrest⟩ := c.unique (hex.choose_spec.symm.trans h)
    rw [next, dif_pos hex]
    exact congrArg some (Prod.ext ha hrest)

theorem next_eq_none_iff (c : PrefixCode α β) {buf : List β} :
    c.next buf = none ↔ ∀ a rest, buf ≠ c.encode a ++ rest := by
  rw [Option.eq_none_iff_forall_ne_some, Prod.forall]
  exact forall₂_congr fun a rest => not_congr c.next_eq_some_iff

theorem next_nil (c : PrefixCode α β) : c.next [] = none :=
  c.next_eq_none_iff.mpr fun a _ h => c.ne_nil a (List.append_eq_nil_iff.mp h.symm).1

/-- What ends inside a unit begins with none. -/
theorem next_of_prefix (c : PrefixCode α β) {buf : List β} {a : α} (h : buf <+: c.encode a)
    (hne : buf ≠ c.encode a) : c.next buf = none := by
  rw [next_eq_none_iff]
  rintro b rest rfl
  obtain ⟨more, hmore⟩ := h
  rw [List.append_assoc] at hmore
  have hunique : c.encode b ++ (rest ++ more) = c.encode a ++ [] := by rw [hmore, List.append_nil]
  obtain ⟨rfl, hnil⟩ := c.unique hunique
  apply hne
  rw [(List.append_eq_nil_iff.mp hnil).1, List.append_nil]

/-- The decoder of a code. -/
noncomputable def decoder (c : PrefixCode α β) : Decoder β α where
  next := c.next
  halts _ := false
  shorter {buf a rest} h := by
    have hlen := congrArg List.length (c.next_eq_some_iff.mp h)
    have hpos := List.length_pos_iff.mpr (c.ne_nil a)
    rw [List.length_append] at hlen
    omega
  stable {buf a rest} h more := by
    rw [c.next_eq_some_iff.mp h, List.append_assoc]
    exact c.next_eq_some_iff.mpr rfl

/-- The units that are complete in a buffer. -/
noncomputable def complete (c : PrefixCode α β) (buf : List β) : List α := (drain c.decoder buf).2

/-- What a buffer holds of a unit that is not complete. -/
noncomputable def pending (c : PrefixCode α β) (buf : List β) : List β :=
  (drain c.decoder buf).1.retained

theorem halted_eq_false (c : PrefixCode α β) (buf : List β) :
    (drain c.decoder buf).1.halted = false := by
  by_contra h
  obtain ⟨a, -, ha⟩ := exists_halts c.decoder buf (by simpa using h)
  cases ha

theorem next_pending (c : PrefixCode α β) (buf : List β) : c.next (c.pending buf) = none :=
  next_drain c.decoder buf (c.halted_eq_false buf)

theorem complete_of_none (c : PrefixCode α β) {buf : List β} (h : c.next buf = none) :
    c.complete buf = [] ∧ c.pending buf = buf := by
  have hd : drain c.decoder buf = (⟨buf, false⟩, []) := drain_of_none h
  exact ⟨congrArg Prod.snd hd, congrArg (fun r => r.1.retained) hd⟩

theorem complete_encode (c : PrefixCode α β) (a : α) (rest : List β) :
    c.complete (c.encode a ++ rest) = a :: c.complete rest ∧
      c.pending (c.encode a ++ rest) = c.pending rest := by
  have hd : drain c.decoder (c.encode a ++ rest) =
      ((drain c.decoder rest).1, a :: (drain c.decoder rest).2) :=
    drain_of_some (d := c.decoder) (c.next_eq_some_iff.mpr rfl)
  exact ⟨congrArg Prod.snd hd, congrArg (fun r => r.1.retained) hd⟩

/-- A stream and the beginning of another unit. -/
theorem drain_encode (c : PrefixCode α β) (l : List α) {tail : List β} (h : c.next tail = none) :
    c.complete ((l.map c.encode).flatten ++ tail) = l ∧
      c.pending ((l.map c.encode).flatten ++ tail) = tail := by
  induction l with
  | nil => exact c.complete_of_none h
  | cons a l ih =>
    obtain ⟨h₁, h₂⟩ := c.complete_encode a ((l.map c.encode).flatten ++ tail)
    rw [List.map_cons, List.flatten_cons, List.append_assoc, h₁, h₂]
    exact ⟨congrArg (a :: ·) ih.1, ih.2⟩

/-- A buffer is its complete units and what is pending. -/
theorem join_complete (c : PrefixCode α β) (buf : List β) :
    ((c.complete buf).map c.encode).flatten ++ c.pending buf = buf := by
  induction h : buf.length using Nat.strong_induction_on generalizing buf with
  | _ n ih =>
    cases hn : c.next buf with
    | none =>
      obtain ⟨h₁, h₂⟩ := c.complete_of_none hn
      rw [h₁, h₂]
      rfl
    | some r =>
      obtain ⟨a, rest⟩ := r
      have hlt := c.decoder.shorter hn
      obtain rfl := c.next_eq_some_iff.mp hn
      obtain ⟨h₁, h₂⟩ := c.complete_encode a rest
      rw [h₁, h₂, List.map_cons, List.flatten_cons, List.append_assoc,
        ih rest.length (h ▸ hlt) rest rfl]

/-- What a stream begins with, and what is behind it. -/
theorem join_eq_append (c : PrefixCode α β) {l units : List α} {rest : List β}
    (h : (units.map c.encode).flatten = (l.map c.encode).flatten ++ rest) :
    ∃ more, units = l ++ more ∧ rest = (more.map c.encode).flatten := by
  induction l generalizing units with
  | nil => exact ⟨units, rfl, h.symm⟩
  | cons a l ih =>
    cases units with
    | nil =>
      simp only [List.map_nil, List.flatten_nil, List.map_cons, List.flatten_cons] at h
      exact absurd (List.append_eq_nil_iff.mp (List.append_eq_nil_iff.mp h.symm).1).1 (c.ne_nil a)
    | cons b units =>
      simp only [List.map_cons, List.flatten_cons, List.append_assoc] at h
      obtain ⟨rfl, hrest⟩ := c.unique h
      obtain ⟨more, rfl, hmore⟩ := ih hrest
      exact ⟨more, rfl, hmore⟩

theorem complete_append (c : PrefixCode α β) (buf more : List β) :
    c.complete (buf ++ more) = c.complete buf ++ c.complete (c.pending buf ++ more) ∧
      c.pending (buf ++ more) = c.pending (c.pending buf ++ more) := by
  have hd := drain_append c.decoder buf more (c.halted_eq_false buf)
  exact ⟨congrArg Prod.snd hd, congrArg (fun r => r.1.retained) hd⟩

end PrefixCode

/-! ### A reader with a step of its own -/

section Steps

-- what a step retains and delivers of a read
variable (step : List β → ρ → List β × List ε)

/-- Reads one after the other, from a reader that retains nothing. -/
def steps (reads : List ρ) : List β × List ε :=
  reads.foldl (fun r read => ((step r.1 read).1, r.2 ++ (step r.1 read).2)) ([], [])

theorem steps_concat (reads : List ρ) (read : ρ) :
    steps step (reads ++ [read]) = ((step (steps step reads).1 read).1,
      (steps step reads).2 ++ (step (steps step reads).1 read).2) := by
  rw [steps, List.foldl_append]
  rfl

namespace PrefixCode

variable (c : PrefixCode α β) (bytes : ρ → List β) (message : α → ε)

/-- After every read the reader has delivered the complete units, and retains the rest. -/
def Follows (reads : List ρ) : Prop :=
  ∀ done, done <+: reads → steps step done =
    (c.pending (done.flatMap bytes), (c.complete (done.flatMap bytes)).map message)

/-- A step with `retained` kept back delivers what the read completes. -/
def StepFollows (retained : List β) (read : ρ) : Prop :=
  step retained read =
    (c.pending (retained ++ bytes read), (c.complete (retained ++ bytes read)).map message)

/-- The induction is on the reads that are done, from their end. -/
theorem follows_iff (reads : List ρ) :
    c.Follows step bytes message reads ↔ ∀ done read, done ++ [read] <+: reads →
      c.StepFollows step bytes message (c.pending (done.flatMap bytes)) read := by
  have happend (done : List ρ) (read : ρ) := c.complete_append (done.flatMap bytes) (bytes read)
  have hflat (done : List ρ) (read : ρ) :
      (done ++ [read]).flatMap bytes = done.flatMap bytes ++ bytes read := by
    rw [List.flatMap_append, List.flatMap_singleton]
  constructor
  · intro h done read hpre
    have hdone := h done ((List.prefix_append done [read]).trans hpre)
    have hread := h (done ++ [read]) hpre
    rw [steps_concat, hdone, hflat, (happend done read).1, (happend done read).2, List.map_append,
      Prod.mk.injEq] at hread
    exact Prod.ext hread.1 (List.append_cancel_left hread.2)
  · intro h done
    induction done using List.reverseRecOn with
    | nil =>
      intro _
      obtain ⟨h₁, h₂⟩ := c.complete_of_none c.next_nil
      rw [List.flatMap_nil, h₁, h₂]
      rfl
    | append_singleton done read ih =>
      intro hpre
      have hstep := h done read hpre
      rw [steps_concat, ih ((List.prefix_append done [read]).trans hpre), hstep, hflat,
        (happend done read).1, (happend done read).2, List.map_append]

end PrefixCode

end Steps

/-! ### A reader that may fail to come back -/

namespace PrefixCode

variable (c : PrefixCode α β) (step : List β → ρ → Option (List β × List ε))
  (bytes : ρ → List β) (R : α → ε → Prop)

/-- After every read the reader has delivered something for each complete unit, and retains
the rest. -/
def Tracks (reads : List ρ) : Prop :=
  ∀ done, done <+: reads → ∃ out,
    Transducer.run step [] done = some (c.pending (done.flatMap bytes), out) ∧
      List.Forall₂ R (c.complete (done.flatMap bytes)) out

/-- A step with `retained` kept back delivers something for each unit that the read completes. -/
def StepTracks (retained : List β) (read : ρ) : Prop :=
  ∃ out, step retained read = some (c.pending (retained ++ bytes read), out) ∧
    List.Forall₂ R (c.complete (retained ++ bytes read)) out

/-- The induction is on the reads that are done, from their end. -/
theorem tracks_iff (reads : List ρ) :
    c.Tracks step bytes R reads ↔ ∀ done read, done ++ [read] <+: reads →
      c.StepTracks step bytes R (c.pending (done.flatMap bytes)) read := by
  have happend (done : List ρ) (read : ρ) := c.complete_append (done.flatMap bytes) (bytes read)
  have hflat (done : List ρ) (read : ρ) :
      (done ++ [read]).flatMap bytes = done.flatMap bytes ++ bytes read := by
    rw [List.flatMap_append, List.flatMap_singleton]
  constructor
  · intro h done read hpre
    obtain ⟨out, hdone, hout⟩ := h done ((List.prefix_append done [read]).trans hpre)
    obtain ⟨out', hread, hout'⟩ := h (done ++ [read]) hpre
    obtain ⟨s, o, o', hrun, hstep, rfl⟩ := (Transducer.run_concat_iff step).mp hread
    rw [hdone] at hrun
    obtain ⟨rfl, rfl⟩ := Prod.mk.inj (Option.some.inj hrun)
    rw [hflat, (happend done read).2] at hstep
    refine ⟨o', hstep, ?_⟩
    -- what was put out before belongs to the units that were complete before
    rw [hflat, (happend done read).1] at hout'
    have hrest := List.forall₂_drop_append _ out o' hout'
    rwa [← hout.length_eq, List.drop_left] at hrest
  · intro h done
    induction done using List.reverseRecOn with
    | nil =>
      intro _
      obtain ⟨h₁, h₂⟩ := c.complete_of_none c.next_nil
      rw [List.flatMap_nil, h₁, h₂]
      exact ⟨[], rfl, .nil⟩
    | append_singleton done read ih =>
      intro hpre
      obtain ⟨out, hdone, hout⟩ := ih ((List.prefix_append done [read]).trans hpre)
      obtain ⟨out', hstep, hout'⟩ := h done read hpre
      rw [hflat, (happend done read).1, (happend done read).2]
      exact ⟨out ++ out', (Transducer.run_concat_iff step).mpr ⟨_, out, out', hdone, hstep, rfl⟩,
        List.rel_append hout hout'⟩

end PrefixCode

end Stream
