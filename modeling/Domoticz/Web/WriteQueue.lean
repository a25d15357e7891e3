import Domoticz.CLib.Bytes
import Domoticz.Transition

/-!
# Writing to a connection

A connection of the web server has at most one write outstanding; what is to be written in the
meantime waits in a queue.  When a write completes, `handle_write` starts the next one, and stops
a connection that is not to be kept alive.  It does so whether or not it has just started another
write, so a connection that is not kept alive loses what was queued.

## Main definitions

* `Connection` — the members that writing uses, with what has become of the writes.
* `myWrite`, `handleWrite` — `connection::MyWrite` and `connection::handle_write`.
* `NothingLost` — what has been accepted reaches the socket in order, by one write at a time, and
  `handle_write` has not stopped the connection before.
* `Fits` — the completions that find nothing queued, or a connection that is kept alive.

## Main results

* `Queued.step` — what every event keeps, whether or not something is lost.
* `nothing_lost_iff` — **nothing is lost in exactly the runs whose completions fit.**
* `queued_reply_lost` — a request to close behind one to keep alive.
-/

namespace Domoticz.Server

open CLib Transition

/-! ### The code -/

/-- `connection_type`. -/
inductive ConnectionType
  | http
  | websocket
  | websocket_closing
  deriving DecidableEq

/-- The members of `connection` that writing uses, as they are constructed. -/
structure Connection where
  connection_type : ConnectionType := .http
  keepalive_ : Bool := false
  write_in_progress : Bool := false
  write_buffer : Bytes := []
  writeQ : List Bytes := []
  stopped : Bool := false
  /-- How many calls of `async_write` have not completed.  Each sends what `write_buffer` holds. -/
  outstanding : ℕ := 0
  /-- What `MyWrite` has accepted. -/
  accepted : List Bytes := []
  /-- What has reached the socket. -/
  sent : List Bytes := []
  /-- `handle_write` has stopped the connection with something left to write. -/
  cutOff : Bool := false

/-- `connection::SocketWrite`. -/
def Connection.socketWrite (c : Connection) (buf : Bytes) : Connection :=
  { c with write_in_progress := true, write_buffer := buf, outstanding := c.outstanding + 1 }

/-- What `connection::MyWrite` does under the lock. -/
def Connection.enqueue (c : Connection) (buf : Bytes) : Connection :=
  let c := { c with accepted := c.accepted ++ [buf] }
  if c.write_in_progress then { c with writeQ := c.writeQ ++ [buf] } else c.socketWrite buf

/-- `connection::MyWrite`. -/
def Connection.myWrite (c : Connection) (buf : Bytes) : Connection :=
  -- we dont send data anymore in websocket closing state
  if c.connection_type = .websocket_closing then c else c.enqueue buf

/-- `connection_manager_.stop`, called by `handle_write`. -/
def Connection.stop (c : Connection) : Connection :=
  { c with stopped := true, cutOff := c.cutOff || c.outstanding != 0 || !c.writeQ.isEmpty }

/-- The first half of `connection::handle_write`, without an error. -/
def Connection.writeNext (c : Connection) : Connection :=
  match c.writeQ with
  | buf :: writeQ => { c with writeQ }.socketWrite buf
  | [] => if c.keepalive_ then c else c.stop

/-- `connection::handle_write`. -/
def Connection.handleWrite (c : Connection) (error : Bool) : Connection :=
  let c := { c with write_buffer := [], write_in_progress := false }
  let c := if error then c else c.writeNext
  if !error && c.keepalive_ then c else c.stop

/-- A write completes, and its handler is run. -/
def Connection.complete (c : Connection) (error : Bool) : Connection :=
  if c.outstanding = 0 then c
  else
    let sent := if error then c.sent else c.sent ++ [c.write_buffer]
    { c with outstanding := c.outstanding - 1, sent }.handleWrite error

/-- What writing leaves alone. -/
theorem myWrite_kept (c : Connection) (buf : Bytes) :
    (c.myWrite buf).connection_type = c.connection_type ∧
      (c.myWrite buf).keepalive_ = c.keepalive_ ∧ (c.myWrite buf).stopped = c.stopped := by
  unfold Connection.myWrite Connection.enqueue
  split
  · exact ⟨rfl, rfl, rfl⟩
  · simp only
    split
    · exact ⟨rfl, rfl, rfl⟩
    · exact ⟨rfl, rfl, rfl⟩

/-! ### Runs -/

/-- What happens to a connection.  `handle_read` and the websocket call `MyWrite`, and they set
`keepalive_` and `connection_type`; the writes complete without an error. -/
inductive Event
  | myWrite (buf : Bytes)
  | written
  | keepAlive (keepalive_ : Bool)
  | become (connection_type : ConnectionType)

/-- What an event does to the connection. -/
def step (c : Connection) : Event → Connection
  | .myWrite buf => c.myWrite buf
  | .written => c.complete false
  | .keepAlive keepalive_ => { c with keepalive_ }
  | .become connection_type => { c with connection_type }

/-- What has been accepted has reached the socket, is being written or is queued, in this order
and each once; at most one write is outstanding; and `handle_write` has not stopped the
connection with something left. -/
structure NothingLost (c : Connection) : Prop where
  in_order : c.accepted = c.sent ++ List.replicate c.outstanding c.write_buffer ++ c.writeQ
  one_write : c.outstanding ≤ 1
  not_cutOff : c.cutOff = false

/-- A write that completes finds the queue empty, or the connection is kept alive. -/
def Fits (c : Connection) : Event → Prop
  | .written => c.outstanding = 0 ∨ c.writeQ = [] ∨ c.keepalive_ = true
  | _ => True

/-! ### What every event keeps -/

/-- Accepted buffers are accounted for, and `write_in_progress` says whether a write is
outstanding. -/
structure Queued (c : Connection) : Prop where
  in_order : c.accepted = c.sent ++ List.replicate c.outstanding c.write_buffer ++ c.writeQ
  flag : c.outstanding = if c.write_in_progress then 1 else 0
  idle : c.write_in_progress = false → c.writeQ = []

theorem Queued.stop {c : Connection} (h : Queued c) : Queued c.stop := ⟨h.in_order, h.flag, h.idle⟩

theorem Queued.enqueue {c : Connection} (h : Queued c) (buf : Bytes) : Queued (c.enqueue buf) := by
  obtain ⟨horder, hflag, hidle⟩ := h
  unfold Connection.enqueue
  cases hp : c.write_in_progress with
  | true =>
    refine ⟨?_, ?_, ?_⟩
    · simp [horder]
    · simpa [hp] using hflag
    · simp
  | false =>
    -- nothing is outstanding, and the queue is empty
    simp only [hp, Bool.false_eq_true, if_false] at hflag
    have hqueue := hidle hp
    refine ⟨?_, ?_, ?_⟩
    · simp [Connection.socketWrite, horder, hflag, hqueue]
    · simp [Connection.socketWrite, hflag]
    · simp [Connection.socketWrite]

theorem Queued.myWrite {c : Connection} (h : Queued c) (buf : Bytes) : Queued (c.myWrite buf) := by
  unfold Connection.myWrite
  split
  · exact h
  · exact h.enqueue buf

/-- A queue behind a write that has completed. -/
theorem queued_writeNext {c : Connection} (horder : c.accepted = c.sent ++ c.writeQ)
    (hidle : c.write_in_progress = false) (hout : c.outstanding = 0) : Queued c.writeNext := by
  unfold Connection.writeNext
  split
  · next buf writeQ hq =>
    refine ⟨?_, ?_, ?_⟩
    · simp [Connection.socketWrite, horder, hq, hout]
    · simp [Connection.socketWrite, hout]
    · simp [Connection.socketWrite]
  · next hq =>
    have hkept : Queued c := by
      refine ⟨?_, ?_, fun _ => hq⟩
      · simp [horder, hout]
      · simp [hidle, hout]
    split
    · exact hkept
    · exact hkept.stop

theorem Queued.complete {c : Connection} (h : Queued c) : Queued (c.complete false) := by
  obtain ⟨horder, hflag, hidle⟩ := h
  unfold Connection.complete
  split
  · exact ⟨horder, hflag, hidle⟩
  · next hout =>
    have hone : c.outstanding = 1 := by
      split at hflag
      · exact hflag
      · exact absurd hflag hout
    have hbuffer : List.replicate 1 c.write_buffer = [c.write_buffer] := rfl
    rw [hone, hbuffer] at horder
    have hnext := @queued_writeNext { c with
        outstanding := 0, sent := c.sent ++ [c.write_buffer]
        write_buffer := [], write_in_progress := false } horder rfl rfl
    simp only [Connection.handleWrite, hone, Bool.false_eq_true, if_false, Nat.sub_self]
    split
    · exact hnext
    · exact hnext.stop

/-- What every event keeps. -/
theorem Queued.step {c : Connection} (h : Queued c) (e : Event) : Queued (step c e) := by
  cases e with
  | myWrite buf => exact h.myWrite buf
  | written => exact h.complete
  | keepAlive keepalive_ => exact ⟨h.in_order, h.flag, h.idle⟩
  | become connection_type => exact ⟨h.in_order, h.flag, h.idle⟩

theorem Queued.nothingLost_iff {c : Connection} (h : Queued c) :
    NothingLost c ↔ c.cutOff = false := by
  constructor
  · exact NothingLost.not_cutOff
  · intro hcut
    refine ⟨h.in_order, ?_, hcut⟩
    rw [h.flag]
    split <;> decide

/-! ### When something is lost -/

@[simp] theorem cutOff_myWrite (c : Connection) (buf : Bytes) :
    (c.myWrite buf).cutOff = c.cutOff := by
  unfold Connection.myWrite Connection.enqueue
  split
  · rfl
  · simp only
    split
    · rfl
    · rfl

/-- A completion loses something exactly if it does not fit. -/
theorem cutOff_complete_iff {c : Connection} (h : Queued c) (hcut : c.cutOff = false) :
    (c.complete false).cutOff = false ↔ Fits c .written := by
  have hflag := h.flag
  obtain ⟨_, keepalive_, _, _, writeQ, _, outstanding, _, _, _⟩ := c
  simp only at hcut hflag
  rw [Fits, Connection.complete]
  by_cases hout : outstanding = 0
  · rw [if_pos hout]
    exact iff_of_true hcut (Or.inl hout)
  · have hone : outstanding = 1 := by
      split at hflag
      · exact hflag
      · exact absurd hflag hout
    subst hone hcut
    cases writeQ with
    | nil =>
      cases keepalive_ with
      | true => simp [Connection.handleWrite, Connection.writeNext]
      | false => simp [Connection.handleWrite, Connection.writeNext, Connection.stop]
    | cons buf writeQ =>
      cases keepalive_ with
      | true => simp [Connection.handleWrite, Connection.writeNext, Connection.socketWrite]
      | false =>
        simp [Connection.handleWrite, Connection.writeNext, Connection.socketWrite, Connection.stop]

theorem step_iff {c : Connection} (h : Queued c ∧ c.cutOff = false) (e : Event) :
    NothingLost (step c e) ↔ Fits c e := by
  rw [(h.1.step e).nothingLost_iff]
  cases e with
  | myWrite buf => simp [step, Fits, h.2]
  | written => exact cutOff_complete_iff h.1 h.2
  | keepAlive keepalive_ => exact iff_of_true h.2 trivial
  | become connection_type => exact iff_of_true h.2 trivial

/-- **Nothing is lost in exactly the runs whose completions fit.** -/
theorem nothing_lost_iff (es : List Event) :
    (∀ done, done <+: es → NothingLost (done.foldl step {})) ↔ Throughout step Fits {} es := by
  have hstart : Queued {} := ⟨rfl, rfl, fun _ => rfl⟩
  rw [forall_prefix_iff, and_iff_right (hstart.nothingLost_iff.mpr rfl)]
  refine throughout_congr_of_kept (I := fun c => Queued c ∧ c.cutOff = false) ?_ ?_
    ⟨hstart, rfl⟩ es
  · intro c e h hlost
    exact ⟨h.1.step e, hlost.not_cutOff⟩
  · intro c e h
    exact step_iff h e

/-- A reply to a request to keep alive, and one to the request behind it, which does not ask for
that; then the first write completes. -/
def closingRun : List Event :=
  [.keepAlive true, .myWrite (str "200"), .keepAlive false, .myWrite (str "204"), .written]

/-- The connection is stopped with the second reply still to be written. -/
theorem queued_reply_lost : ¬ ∀ done, done <+: closingRun → NothingLost (done.foldl step {}) := by
  intro h
  exact absurd (h closingRun List.prefix_rfl).not_cutOff (by decide)

end Domoticz.Server
