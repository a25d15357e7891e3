import Mathlib.Data.List.Basic
import Mathlib.Tactic

/-!
# Decoding a stream that arrives in pieces

A decoder finds one unit at the front of a buffer, or says that the buffer does not
hold a complete one.  A reader keeps the bytes that are not decoded yet and, with
every read, decodes what it can.  When a decoder is *stable*, so that more bytes
behind a complete unit do not change it, the cuts between the reads make no
difference: what is decoded is a function of the bytes alone.

## Main definitions

* `Decoder` — a stable decoder that consumes something with every unit.
* `drain` — decode a buffer as far as it goes.
* `feed`, `run` — the reader, for one read and for a list of them.
* `Division` — a way to cut a stream into reads.

## Main results

* `drain_append` — draining what is retained after more bytes arrived.
* `run_eq_drain` — **the reads deliver what their concatenation does.**
-/

namespace Stream

variable {β ω : Type}

/-- A decoder of units `ω` at the front of a buffer. -/
structure Decoder (β ω : Type) where
  /-- The first unit and what follows it, once the unit is complete. -/
  next : List β → Option (ω × List β)
  /-- Whether nothing is decoded after this unit. -/
  halts : ω → Bool
  shorter : ∀ {buf o rest}, next buf = some (o, rest) → rest.length < buf.length
  stable : ∀ {buf o rest}, next buf = some (o, rest) →
    ∀ more, next (buf ++ more) = some (o, rest ++ more)

/-- What a reader keeps between reads. -/
structure Reader (β : Type) where
  retained : List β := []
  halted : Bool := false
  deriving DecidableEq, Repr

/-! ### One buffer -/

/-- Decode units until one halts, or until what is left holds no complete one. -/
def drain (d : Decoder β ω) (buf : List β) : Reader β × List ω :=
  match h : d.next buf with
  | none => (⟨buf, false⟩, [])
  | some (o, rest) =>
      if d.halts o then (⟨rest, true⟩, [o])
      else
        have := d.shorter h
        ((drain d rest).1, o :: (drain d rest).2)
termination_by buf.length

theorem drain_of_none {d : Decoder β ω} {buf : List β} (h : d.next buf = none) :
    drain d buf = (⟨buf, false⟩, []) := by
  rw [drain]
  split
  · rfl
  · next h' => rw [h] at h'; cases h'

theorem drain_of_some {d : Decoder β ω} {buf rest : List β} {o : ω}
    (h : d.next buf = some (o, rest)) :
    drain d buf = if d.halts o then (⟨rest, true⟩, [o])
      else ((drain d rest).1, o :: (drain d rest).2) := by
  rw [drain]
  split
  · next h' => rw [h] at h'; cases h'
  · next h' => rw [h] at h'; cases h'; rfl

/-- A drained buffer holds no complete unit. -/
theorem next_drain (d : Decoder β ω) (buf : List β) (h : (drain d buf).1.halted = false) :
    d.next (drain d buf).1.retained = none := by
  fun_induction drain d buf with
  | case1 buf hn => exact hn
  | case2 buf o rest hn hh => cases h
  | case3 buf o rest hn hh _ ih => exact ih h

theorem drain_append (d : Decoder β ω) (buf more : List β) (h : (drain d buf).1.halted = false) :
    drain d (buf ++ more) = ((drain d ((drain d buf).1.retained ++ more)).1,
      (drain d buf).2 ++ (drain d ((drain d buf).1.retained ++ more)).2) := by
  fun_induction drain d buf with
  | case1 buf hn => rfl
  | case2 buf o rest hn hh => cases h
  | case3 buf o rest hn hh _ ih =>
    rw [drain_of_some (d.stable hn more), if_neg hh, ih h]
    rfl

theorem drain_append_of_halted (d : Decoder β ω) (buf more : List β)
    (h : (drain d buf).1.halted = true) :
    drain d (buf ++ more) = (⟨(drain d buf).1.retained ++ more, true⟩, (drain d buf).2) := by
  fun_induction drain d buf with
  | case1 buf hn => cases h
  | case2 buf o rest hn hh => rw [drain_of_some (d.stable hn more), if_pos hh]
  | case3 buf o rest hn hh _ ih => rw [drain_of_some (d.stable hn more), if_neg hh, ih h]

/-- Only a unit that halts the decoder halts it. -/
theorem exists_halts (d : Decoder β ω) (buf : List β) (h : (drain d buf).1.halted = true) :
    ∃ o ∈ (drain d buf).2, d.halts o = true := by
  fun_induction drain d buf with
  | case1 buf hn => cases h
  | case2 buf o rest hn hh => exact ⟨o, List.mem_singleton_self o, hh⟩
  | case3 buf o rest hn hh _ ih =>
    obtain ⟨o', ho', hh'⟩ := ih h
    exact ⟨o', List.mem_cons_of_mem o ho', hh'⟩

/-! ### A list of reads -/

/-- One read; after a unit that halts reads are discarded. -/
def feed (d : Decoder β ω) (s : Reader β) (read : List β) : Reader β × List ω :=
  if s.halted then (s, []) else drain d (s.retained ++ read)

/-- Reads one after the other. -/
def run (d : Decoder β ω) (s : Reader β) : List (List β) → Reader β × List ω
  | [] => (s, [])
  | read :: reads =>
      ((run d (feed d s read).1 reads).1, (feed d s read).2 ++ (run d (feed d s read).1 reads).2)

theorem run_of_halted (d : Decoder β ω) (s : Reader β) (h : s.halted = true) (reads : List (List β)) :
    run d s reads = (s, []) := by
  induction reads with
  | nil => rfl
  | cons read reads ih =>
    have hf : feed d s read = (s, []) := if_pos h
    rw [run, hf]
    exact ih

/-- What a reader delivers, whether it halts and, if it does not, what it retains are those
of the concatenation of the reads. -/
theorem run_eq_drain (d : Decoder β ω) (s : Reader β) (reads : List (List β))
    (h : s.halted = false) (hs : d.next s.retained = none) :
    (run d s reads).2 = (drain d (s.retained ++ reads.flatten)).2 ∧
      (run d s reads).1.halted = (drain d (s.retained ++ reads.flatten)).1.halted ∧
        ((run d s reads).1.halted = false →
          (run d s reads).1.retained = (drain d (s.retained ++ reads.flatten)).1.retained) := by
  induction reads generalizing s with
  | nil =>
    have hd : drain d (s.retained ++ [].flatten) = (s, []) := by
      rw [List.flatten_nil, List.append_nil, drain_of_none hs, ← h]
    rw [hd]
    exact ⟨rfl, rfl, fun _ => rfl⟩
  | cons read reads ih =>
    have hf : feed d s read = drain d (s.retained ++ read) := by
      rw [feed, h]
      rfl
    rw [run, hf, List.flatten_cons, ← List.append_assoc]
    cases hh : (drain d (s.retained ++ read)).1.halted with
    | true =>
      rw [run_of_halted d _ hh, drain_append_of_halted d _ _ hh]
      refine ⟨List.append_nil _, hh, fun h' => ?_⟩
      rw [hh] at h'
      cases h'
    | false =>
      obtain ⟨h₁, h₂, h₃⟩ := ih _ hh (next_drain d _ hh)
      rw [drain_append d _ _ hh]
      exact ⟨congrArg ((drain d (s.retained ++ read)).2 ++ ·) h₁, h₂, h₃⟩

/-- A way to cut a stream into reads. -/
structure Division (stream : List β) where
  reads : List (List β)
  flatten_eq : reads.flatten = stream

/-- The whole stream in one read. -/
def Division.whole (stream : List β) : Division stream := ⟨[stream], List.flatten_singleton⟩

end Stream
