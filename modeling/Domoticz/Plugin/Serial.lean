import Domoticz.CLib.Bytes
import Domoticz.Transition

/-!
# Writing to a serial port

What a plugin sends over a serial connection is put into a queue by the plugin's thread, which then
asks the thread of the port to write.  Between these two steps other threads may do the same.  One
write is outstanding at a time; when it is completed, what has been queued since is written in one.
A write that fails leaves its buffer where it is, and a buffer that is there means that a write is
in progress.

## Main definitions

* `AsyncSerial`, `World` — the members that writing uses, and what is around them.
* `doWrite`, `writeEnd` — the handlers of the port's thread.
* `step` — what the threads, the port and the device do, in any order.
* `Sound` — what holds of the queue and the buffer at any time.

## Main results

* `sound_step` — every step keeps it.
* `written_in_order` — **the device gets what was given, in order**, and all of it in the end, unless
  a write fails.
* `nothing_after_failure` — **behind a write that has failed the device gets nothing**, even if the
  port is opened again.
-/

namespace Domoticz.Serial

open CLib Transition

/-! ### The code -/

/-- The members of `AsyncSerialImpl` that writing uses. -/
structure AsyncSerial where
  writeQueue : Bytes := []
  /-- `none` is the null pointer. -/
  writeBuffer : Option Bytes := none

/-- The port, the threads and the device. -/
structure World extends AsyncSerial where
  portOpen : Bool := true
  /-- Threads that have queued something and not posted a handler yet. -/
  queueing : ℕ := 0
  /-- Handlers that wait for the thread of the port. -/
  posted : ℕ := 0
  /-- What an outstanding `async_write` has not transferred yet. -/
  outstanding : Option Bytes := none
  /-- It has been cancelled, and will end with an error if something is left. -/
  cancelled : Bool := false
  /-- What has been given to `write`. -/
  given : Bytes := []
  /-- What the device has got. -/
  device : Bytes := []

namespace World

variable (w : World)

/-- The queue becomes the buffer, which is written. -/
def startWrite : World :=
  { w with
    writeQueue := []
    writeBuffer := some w.writeQueue
    outstanding := some w.writeQueue
    cancelled := false }

/-- `AsyncSerial::doWrite`. -/
def doWrite : World :=
  match w.writeBuffer with
  | none => w.startWrite
  | some _ => w

/-- `AsyncSerial::writeEnd`, without an error. -/
def writeEnd : World :=
  if w.writeQueue = [] then { w with writeBuffer := none, outstanding := none } else w.startWrite

/-- `AsyncSerial::writeEnd`, with an error. -/
def writeFailed : World := { w with outstanding := none, portOpen := false }

end World

/-- What happens. -/
inductive Event
  /-- `AsyncSerial::write` up to the lock's end. -/
  | queue (data : Bytes)
  /-- The rest of `AsyncSerial::write`. -/
  | post
  | doWrite
  /-- The device takes some bytes of the outstanding write. -/
  | transfer (n : ℕ)
  | writeEnd
  | writeFailed
  | doClose
  /-- The end of `AsyncSerial::open`. -/
  | reopen
  deriving DecidableEq

/-- What an event does; what cannot happen now does nothing. -/
def step (w : World) : Event → World
  | .queue data =>
      { w with
        writeQueue := w.writeQueue ++ data
        given := w.given ++ data
        queueing := w.queueing + 1 }
  | .post =>
      if w.queueing = 0 then w else { w with queueing := w.queueing - 1, posted := w.posted + 1 }
  | .doWrite => if w.posted = 0 then w else { w with posted := w.posted - 1 }.doWrite
  | .transfer n =>
      match w.outstanding with
      | none => w
      | some rest =>
          if w.portOpen ∧ ¬ w.cancelled then
            { w with outstanding := some (rest.drop n), device := w.device ++ rest.take n }
          else w
  | .writeEnd => if w.outstanding = some [] then w.writeEnd else w
  | .writeFailed => if w.outstanding = none then w else w.writeFailed
  | .doClose => { w with portOpen := false, cancelled := true }
  -- after `terminate` the thread of the port may not have ended
  | .reopen => { w with portOpen := true }

/-- A port that has just been opened. -/
def start : World := {}

/-! ### What is kept -/

/-- What was given has got to the device, is being written or is in the queue, in this order, and
what is in the queue will be looked at. -/
structure Sound (w : World) : Prop where
  idle : w.writeBuffer = none → w.outstanding = none ∧ w.given = w.device ++ w.writeQueue
  busy : ∀ rest, w.outstanding = some rest →
    w.writeBuffer ≠ none ∧ w.given = w.device ++ (rest ++ w.writeQueue)
  in_order : w.device <+: w.given
  awake : w.writeQueue ≠ [] → w.writeBuffer ≠ none ∨ 0 < w.queueing + w.posted

theorem sound_start : Sound start :=
  ⟨fun _ => ⟨rfl, rfl⟩, nofun, List.prefix_refl _, fun h => absurd rfl h⟩

/-- A write begins that is to bring what the queue holds. -/
theorem Sound.startWrite {w : World} (hgiven : w.given = w.device ++ w.writeQueue) :
    Sound w.startWrite := by
  refine ⟨nofun, ?_, ?_, fun h => absurd rfl h⟩
  · rintro rest ⟨⟩
    refine ⟨Option.some_ne_none _, ?_⟩
    show w.given = w.device ++ (w.writeQueue ++ [])
    rw [hgiven, List.append_nil]
  · show w.device <+: w.given
    rw [hgiven]
    exact List.prefix_append _ _

/-- **Every step keeps the order**, and forgets nobody. -/
theorem sound_step (w : World) (e : Event) (h : Sound w) : Sound (step w e) := by
  cases e with
  | queue data =>
    refine ⟨fun hidle => ?_, fun rest hrest => ?_, ?_, fun _ => .inr ?_⟩
    · obtain ⟨hnone, hgiven⟩ := h.idle hidle
      refine ⟨hnone, ?_⟩
      show w.given ++ data = w.device ++ (w.writeQueue ++ data)
      rw [hgiven, List.append_assoc]
    · obtain ⟨hbuffer, hgiven⟩ := h.busy rest hrest
      refine ⟨hbuffer, ?_⟩
      -- what is given now stands behind all that is still to be written
      show w.given ++ data = w.device ++ (rest ++ (w.writeQueue ++ data))
      rw [hgiven, List.append_assoc, List.append_assoc]
    · exact h.in_order.trans (List.prefix_append _ _)
    · show 0 < w.queueing + 1 + w.posted
      omega
  | post =>
    rw [step]
    split
    · exact h
    · next hne =>
      refine ⟨h.idle, h.busy, h.in_order, fun hqueue => (h.awake hqueue).imp_right fun _ => ?_⟩
      show 0 < w.queueing - 1 + (w.posted + 1)
      omega
  | doWrite =>
    rw [step]
    split
    · exact h
    · cases hbuffer : w.writeBuffer with
      | none =>
        rw [World.doWrite]
        simp only [hbuffer]
        exact Sound.startWrite (h.idle hbuffer).2
      | some b =>
        rw [World.doWrite]
        simp only [hbuffer]
        refine ⟨fun hnone => absurd (hbuffer.symm.trans hnone) (Option.some_ne_none b), h.busy,
          h.in_order, fun _ => .inl ?_⟩
        show w.writeBuffer ≠ none
        rw [hbuffer]
        exact Option.some_ne_none b
  | transfer n =>
    rw [step]
    cases hrest : w.outstanding with
    | none => exact h
    | some rest =>
      obtain ⟨hbuffer, hgiven⟩ := h.busy rest hrest
      dsimp only
      split
      · refine ⟨fun hnone => absurd hnone hbuffer, ?_, ?_, fun _ => .inl hbuffer⟩
        · rintro rest' ⟨⟩
          refine ⟨hbuffer, ?_⟩
          -- the bytes that are transferred move from the buffer to the device
          show w.given = w.device ++ rest.take n ++ (rest.drop n ++ w.writeQueue)
          rw [hgiven, List.append_assoc, ← List.append_assoc (rest.take n), List.take_append_drop]
        · show w.device ++ rest.take n <+: w.given
          rw [hgiven]
          refine List.prefix_append_right_inj _ |>.mpr ?_
          exact (List.take_prefix n rest).trans (List.prefix_append _ _)
      · exact h
  | writeEnd =>
    rw [step]
    split
    · next hrest =>
      obtain ⟨hbuffer, hgiven⟩ := h.busy [] hrest
      rw [List.nil_append] at hgiven
      rw [World.writeEnd]
      split
      · next hempty =>
        exact ⟨fun _ => ⟨rfl, hgiven⟩, nofun, h.in_order, fun hqueue => absurd hempty hqueue⟩
      · -- what was queued in the meantime is written next
        exact Sound.startWrite hgiven
    · exact h
  | writeFailed =>
    rw [step]
    split
    · exact h
    · next hne =>
      obtain ⟨rest, hrest⟩ := Option.ne_none_iff_exists'.mp hne
      obtain ⟨hbuffer, -⟩ := h.busy rest hrest
      exact ⟨fun hnone => absurd hnone hbuffer, nofun, h.in_order, fun _ => .inl hbuffer⟩
  | doClose => exact ⟨h.idle, h.busy, h.in_order, h.awake⟩
  | reopen => exact ⟨h.idle, h.busy, h.in_order, h.awake⟩

/-! ### Runs -/

/-- Nothing is under way any more. -/
structure Quiet (w : World) : Prop where
  queueing : w.queueing = 0
  posted : w.posted = 0
  outstanding : w.outstanding = none

/-- A buffer is there without a write that has it. -/
def Stuck (w : World) : Prop := w.writeBuffer ≠ none ∧ w.outstanding = none

/-- A port gets stuck only by a write that fails. -/
theorem not_stuck_step {w : World} {e : Event} (he : e ≠ .writeFailed) (h : ¬ Stuck w) :
    ¬ Stuck (step w e) := by
  have hstart (w : World) : ¬ Stuck w.startWrite := fun hstuck => Option.some_ne_none _ hstuck.2
  cases e with
  | queue data => exact h
  | post =>
    rw [step]
    split <;> exact h
  | doWrite =>
    rw [step]
    split
    · exact h
    · rw [World.doWrite]
      split
      · exact hstart _
      · exact h
  | transfer n =>
    rw [step]
    split
    · exact h
    · split
      · exact fun hstuck => Option.some_ne_none _ hstuck.2
      · exact h
  | writeEnd =>
    rw [step]
    split
    · rw [World.writeEnd]
      split
      · exact fun hstuck => hstuck.1 rfl
      · exact hstart _
    · exact h
  | writeFailed => exact absurd rfl he
  | doClose => exact h
  | reopen => exact h

/-- **The device gets what was given, in order**; and when nothing is under way any more it has got
all of it, unless a write has failed. -/
theorem written_in_order (es : List Event) :
    (es.foldl step start).device <+: (es.foldl step start).given ∧
      (.writeFailed ∉ es → Quiet (es.foldl step start) →
        (es.foldl step start).device = (es.foldl step start).given) := by
  have hsound : Sound (es.foldl step start) := run_invariant sound_step sound_start es
  refine ⟨hsound.in_order, fun hfailed hquiet => ?_⟩
  have hnot : ¬ Stuck (es.foldl step start) := by
    clear hsound hquiet
    have hbegin : ¬ Stuck start := fun hstuck => hstuck.1 rfl
    generalize start = w at hbegin
    induction es generalizing w with
    | nil => exact hbegin
    | cons e es ih =>
      obtain ⟨he, hes⟩ := not_or.mp (mt List.mem_cons.mpr hfailed)
      exact ih hes _ (not_stuck_step (Ne.symm he) hbegin)
  have hbuffer : (es.foldl step start).writeBuffer = none := by
    by_contra hne
    exact hnot ⟨hne, hquiet.outstanding⟩
  have hqueue : (es.foldl step start).writeQueue = [] := by
    by_contra hne
    have hposted := (hsound.awake hne).resolve_left (not_not.mpr hbuffer)
    rw [hquiet.queueing, hquiet.posted] at hposted
    exact absurd hposted (Nat.lt_irrefl 0)
  rw [(hsound.idle hbuffer).2, hqueue, List.append_nil]

/-- A port that is stuck writes nothing. -/
theorem stuck_step (w : World) (e : Event) (h : Stuck w) :
    Stuck (step w e) ∧ (step w e).device = w.device := by
  obtain ⟨hbuffer, hnone⟩ := h
  obtain ⟨b, hb⟩ := Option.ne_none_iff_exists'.mp hbuffer
  cases e with
  | queue data => exact ⟨⟨hbuffer, hnone⟩, rfl⟩
  | post =>
    rw [step]
    split <;> exact ⟨⟨hbuffer, hnone⟩, rfl⟩
  | doWrite =>
    rw [step]
    split
    · exact ⟨⟨hbuffer, hnone⟩, rfl⟩
    · have hsame : { w with posted := w.posted - 1 }.doWrite =
          { w with posted := w.posted - 1 } := by
        rw [World.doWrite]
        simp only [hb]
      rw [hsame]
      exact ⟨⟨hbuffer, hnone⟩, rfl⟩
  | transfer n =>
    have hsame : step w (.transfer n) = w := by
      rw [step]
      simp only [hnone]
    rw [hsame]
    exact ⟨⟨hbuffer, hnone⟩, rfl⟩
  | writeEnd =>
    rw [step, if_neg (by rw [hnone]; exact nofun)]
    exact ⟨⟨hbuffer, hnone⟩, rfl⟩
  | writeFailed =>
    rw [step, if_pos hnone]
    exact ⟨⟨hbuffer, hnone⟩, rfl⟩
  | doClose => exact ⟨⟨hbuffer, hnone⟩, rfl⟩
  | reopen => exact ⟨⟨hbuffer, hnone⟩, rfl⟩

/-- **Behind a write that has failed the device gets nothing**, whatever is given to the port and
however often it is opened again. -/
theorem nothing_after_failure (es es' : List Event)
    (h : (es.foldl step start).outstanding ≠ none) :
    ((es ++ .writeFailed :: es').foldl step start).device = (es.foldl step start).device := by
  have hsound : Sound (es.foldl step start) := run_invariant sound_step sound_start es
  rw [List.foldl_append, List.foldl_cons]
  generalize es.foldl step start = w at h hsound
  obtain ⟨rest, hrest⟩ := Option.ne_none_iff_exists'.mp h
  have hstuck : Stuck (step w .writeFailed) := by
    rw [step, if_neg h]
    exact ⟨(hsound.busy rest hrest).1, rfl⟩
  have hdevice : (step w .writeFailed).device = w.device := by
    rw [step, if_neg h]
    rfl
  rw [← hdevice]
  generalize step w .writeFailed = w' at hstuck
  exact (run_invariant (fun v e hv => ⟨(stuck_step v e hv.1).1, (stuck_step v e hv.1).2.trans hv.2⟩)
    (I := fun v => Stuck v ∧ v.device = w'.device) ⟨hstuck, rfl⟩ es').2

/-- Two bytes are given to the port again when it has failed with the first of two. -/
theorem nothing_after_failure_reopened :
    ([.queue [1, 2], .post, .doWrite, .transfer 1, .writeFailed, .reopen, .queue [1, 2], .post,
      .doWrite, .transfer 2].foldl step start).device = [1] :=
  nothing_after_failure [.queue [1, 2], .post, .doWrite, .transfer 1]
    [.reopen, .queue [1, 2], .post, .doWrite, .transfer 2] (by decide)

/-- Two threads, of which the second queues before the first has posted. -/
theorem written_in_order_twice :
    let es : List Event := [.queue [1], .queue [2], .post, .doWrite, .transfer 2, .writeEnd, .post,
      .doWrite, .writeEnd]
    (es.foldl step start).device = (es.foldl step start).given :=
  (written_in_order _).2 (by decide) ⟨by decide, by decide, by decide⟩

end Domoticz.Serial
