import Mathlib.Data.List.TakeWhile
import Mathlib.Data.List.Count
import Mathlib.Data.List.Perm.Basic
import Mathlib.Tactic

/-!
# The life of a plugin

`StartHardware` starts the thread of a plugin and queues its initialisation; `Initialise` queues
`onStart`.  `StopHardware` queues `onStop`, after which the thread leaves its loop for `Finalise`.
The thread and those that start and stop it share some flags.  A step writes one of them, so that
the steps of several threads can be mixed.

Time is not kept.  The choices of a step say which delayed messages are not due and whether
`stopTime` is over.

`Initialise` of an interface that is not active any more uses the interpreter without a thread
state, and so does `Stop` of a plugin without an interpreter.  Both end the process.

## Main definitions

* `Plugin` — the flags and the queue.
* `Thread`, `work` — where the thread is, and its next step.
* `Plugin.starts` — how many messages of a start-up are on their way.

## Main results

* `takeReady_perm` — a scan of the queue loses nothing.
-/

namespace Domoticz.LifeCycle

/-! ### Messages -/

/-- The messages of a queue. -/
inductive Message
  | initializeMessage
  | onStart
  | onStop
  | other (m_Delay : Bool)
  deriving DecidableEq, Repr

/-- `m_Delay`. -/
def Message.delayed : Message → Bool
  | .onStop => true
  | .other m_Delay => m_Delay
  | _ => false

/-- The messages of a start-up. -/
def Message.isStart : Message → Bool
  | .initializeMessage | .onStart => true
  | _ => false

/-- The first message that is ready.  The delayed messages in front of it, `skip` of them at
most, are not due and go to the back. -/
def takeReady (skip : ℕ) (queue : List Message) : Option Message × List Message :=
  let waiting := (queue.takeWhile Message.delayed).take skip
  match queue.drop waiting.length with
  | [] => (none, queue)
  | m :: rest => (some m, rest ++ waiting)

/-- Nothing is lost in a scan. -/
theorem takeReady_perm {skip : ℕ} {queue rest : List Message} {m : Message}
    (h : takeReady skip queue = (some m, rest)) : (m :: rest).Perm queue := by
  unfold takeReady at h
  simp only at h
  set waiting := (queue.takeWhile Message.delayed).take skip with hwaiting
  have hprefix : waiting <+: queue := (List.take_prefix _ _).trans (List.takeWhile_prefix _)
  split at h
  · cases h
  · next m' rest' hdrop =>
    cases h
    have hqueue : queue = waiting ++ m :: rest' := by
      rw [← hdrop]
      exact (List.prefix_iff_eq_append.mp hprefix).symm
    rw [hqueue]
    have hcomm : (m :: rest' ++ waiting).Perm (waiting ++ m :: rest') := List.perm_append_comm
    exact hcomm

/-! ### The thread -/

/-- `CPlugin`, as far as its threads share it. -/
structure Plugin where
  m_bIsStarting : Bool := false
  m_bIsStarted : Bool := false
  m_bIsStopping : Bool := false
  /-- Whether there is an interpreter. -/
  m_PyInterpreter : Bool := false
  /-- What `IsStopRequested` finds. -/
  stopRequested : Bool := false
  m_MessageQueue : List Message := []
  deriving DecidableEq, Repr

/-- `MessagePlugin`: a message is queued. -/
def Plugin.MessagePlugin (p : Plugin) (m : Message) : Plugin :=
  { p with m_MessageQueue := p.m_MessageQueue ++ [m] }

/-- `Stop`: the interpreter ends. -/
def Plugin.Stop (p : Plugin) : Plugin := { p with m_PyInterpreter := false, m_bIsStarted := false }

/-- Where the thread is. -/
inductive Thread
  /-- At `IsStopRequested`. -/
  | top
  /-- At the scan of the queue. -/
  | scan
  /-- A message is taken out. -/
  | taken (m : Message)
  /-- In `Initialise`, at the query. -/
  | select
  /-- In `Initialise`, at `MessagePlugin(new onStartCallback(this))`. -/
  | loaded
  /-- At the end of `Initialise` or `Start`, at `m_bIsStarting = false`. -/
  | initialised
  /-- At the end of `Start`, at `MessagePlugin(new InitializeMessage(this))`. -/
  | startFailed
  /-- At `m_bIsStopping`, with `bProcessed`. -/
  | check (processed : Bool)
  /-- In `Finalise`, at `Stop`. -/
  | finalise
  /-- In `Finalise`, at `DeregisterPlugin`. -/
  | deregister
  /-- In `Finalise`, at `m_bIsStarting = false`. -/
  | clearStarting
  /-- In `Finalise`, at `m_bIsStopping = false`. -/
  | clearStopping
  | ended
  /-- The interpreter was used without a thread state; the process is over. -/
  | aborted
  deriving DecidableEq, Repr

/-- What the outside decides in a step. -/
structure Choice where
  /-- The delayed messages that are not due. -/
  skip : ℕ
  /-- Whether the Python code of `Initialise` or `Start` succeeds. -/
  succeeds : Bool
  /-- `Now > stopTime`. -/
  late : Bool
  deriving DecidableEq, Repr

/-- `Message->Process()`. -/
def process (c : Choice) (p : Plugin) : Message → Plugin × Thread
  | .initializeMessage => ({ p with m_bIsStarted := false }, .select)
  | .onStart =>
      -- `Start` begins with `PyErr_Occurred`
      if !p.m_PyInterpreter then (p, .aborted)
      else if c.succeeds then ({ p with m_bIsStarted := true }, .initialised)
      else ({ p with m_bIsStarting := false }, .startFailed)
  | .onStop => ({ p with m_bIsStopping := true }, .check true)
  | .other _ => (p, .check true)

/-- The end of the body of the inner loop. -/
def again (processed : Bool) : Thread := if processed then .scan else .top

/-- A step of the thread; `row` is the `Active` column in the database. -/
def work (row : Option Bool) (c : Choice) (p : Plugin) : Thread → Plugin × Thread
  | .top => (p, if p.stopRequested then .finalise else .scan)
  | .scan =>
      match takeReady c.skip p.m_MessageQueue with
      | (some m, rest) => ({ p with m_MessageQueue := rest }, .taken m)
      | (none, _) => (p, .check false)
  | .taken m =>
      -- without an interpreter the message is dropped
      if p.m_PyInterpreter || p.m_bIsStarting then process c p m else (p, .check true)
  | .select =>
      if row = some true then
        if c.succeeds then ({ p with m_PyInterpreter := true }, .loaded)
        else (p.Stop, .initialised)
      -- `PyErr_Occurred` and `PyEval_SaveThread`, before `PyEval_RestoreThread`
      else (p, .aborted)
  | .loaded => (p.MessagePlugin .onStart, .initialised)
  | .initialised => ({ p with m_bIsStarting := false }, .check true)
  | .startFailed => (p.MessagePlugin .initializeMessage, .check true)
  | .check processed =>
      if p.m_bIsStopping ∧ p.m_MessageQueue = [] ∧ c.late then
        ({ p with stopRequested := true }, again processed)
      else (p, again processed)
  -- `PyEval_AcquireThread(NULL)`
  | .finalise => if p.m_PyInterpreter then (p.Stop, .deregister) else (p, .aborted)
  | .deregister => (p, .clearStarting)
  | .clearStarting => ({ p with m_bIsStarting := false }, .clearStopping)
  | .clearStopping => ({ p with m_bIsStopping := false }, .ended)
  | .ended => (p, .ended)
  | .aborted => (p, .aborted)

/-! ### The start-up -/

/-- The thread is about to handle a message of a start-up. -/
def Thread.starting : Thread → Bool
  | .taken m => m.isStart
  | .select | .loaded | .startFailed => true
  | _ => false

/-- The thread has left the loop. -/
def Thread.leaving : Thread → Bool
  | .finalise | .deregister | .clearStarting | .clearStopping | .ended | .aborted => true
  | _ => false

/-- The thread has taken its plugin out of the map. -/
def Thread.gone : Thread → Bool
  | .clearStarting | .clearStopping | .ended => true
  | _ => false

/-- A thread that has done so only ends. -/
theorem work_gone {row : Option Bool} {c : Choice} {p : Plugin} {t : Thread}
    (h : t.gone = true) : (work row c p t).2.gone = true := by
  cases t <;> first | rfl | cases h

/-- The messages of a start-up that are on their way. -/
def Plugin.starts (p : Plugin) (t : Thread) : ℕ :=
  p.m_MessageQueue.countP Message.isStart + t.starting.toNat

end Domoticz.LifeCycle
