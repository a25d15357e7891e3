import Domoticz.Transition
import Mathlib.Data.List.TakeWhile

/-!
# The work loop of a plugin

`CPlugin::MessagePlugin` puts messages into a queue, and `CPlugin::Do_Work` takes them out.
Any thread may put one in between any two steps of the loop.  A message with a delay that is
met too early goes to the back of the queue.

## Main definitions

* `scan` — the search for the first message that is ready.
* `State`, `Event`, `step` — the queue, the loop and the other threads.
* `Delivered` — no message is lost, doubled or overtaken.

## Main results

* `scan_eq` — what a scan leaves of the queue.
* `delivered_of_run` — messages are delivered in every run.
* `processed_of_work` — a message without a delay is processed after some steps of the loop.
-/

namespace Domoticz.WorkLoop

open Transition

/-! ### Messages -/

/-- `CPluginMessageBase`, as far as the loop looks at it. -/
structure Message where
  delay : Bool
  /-- `m_When`. -/
  due : ℤ
  /-- Whether it is an `onStopCallback`. -/
  isStop : Bool
  deriving DecidableEq, Repr

/-- A message with its number in the order of acceptance. -/
structure Item extends Message where
  number : ℕ
  deriving DecidableEq, Repr

/-- `m_Delay && m_When > Now`. -/
def waiting (now : ℤ) (x : Item) : Bool := x.delay && decide (now < x.due)

/-- The loop over the queue: messages that wait go to the back. -/
def scanFrom (now : ℤ) : ℕ → List Item → Option Item × List Item
  | 0, queue => (none, queue)
  | _ + 1, [] => (none, [])
  | n + 1, x :: queue =>
      if waiting now x then scanFrom now n (queue ++ [x]) else (some x, queue)

/-- The first message that is ready, and the queue that is left. -/
def scan (now : ℤ) (queue : List Item) : Option Item × List Item :=
  scanFrom now queue.length queue

theorem scanFrom_append (now : ℤ) (queue seen : List Item) :
    scanFrom now queue.length (queue ++ seen) =
      match queue.dropWhile (waiting now) with
      | [] => (none, seen ++ queue)
      | x :: rest => (some x, rest ++ seen ++ queue.takeWhile (waiting now)) := by
  induction queue generalizing seen with
  | nil => rw [List.length_nil, scanFrom, List.dropWhile_nil, List.append_nil, List.nil_append]
  | cons x queue ih =>
    rw [List.length_cons, List.cons_append, scanFrom]
    by_cases hx : waiting now x = true
    · rw [if_pos hx, List.append_assoc, ih, List.dropWhile_cons_of_pos hx,
        List.takeWhile_cons_of_pos hx]
      cases queue.dropWhile (waiting now) with
      | nil =>
        simp only
        rw [List.append_assoc, List.singleton_append]
      | cons y rest =>
        simp only
        rw [← List.append_assoc, List.append_assoc, List.singleton_append]
    · rw [if_neg hx, List.dropWhile_cons_of_neg hx, List.takeWhile_cons_of_neg hx]
      simp only [List.append_nil]

/-- A scan that finds nothing leaves the queue as it is; otherwise the messages in front of
the one it takes are behind all others. -/
theorem scan_eq (now : ℤ) (queue : List Item) :
    scan now queue =
      match queue.dropWhile (waiting now) with
      | [] => (none, queue)
      | x :: rest => (some x, rest ++ queue.takeWhile (waiting now)) := by
  have h := scanFrom_append now queue []
  rw [List.append_nil] at h
  rw [scan, h]
  cases queue.dropWhile (waiting now) with
  | nil => rfl
  | cons x rest =>
    simp only
    rw [List.append_nil]

/-! ### The loop -/

/-- Where the loop is. -/
inductive Pc
  /-- At `IsStopRequested`. -/
  | outer
  /-- At the scan of the queue. -/
  | scan
  /-- In `Process`. -/
  | process (x : Item)
  /-- At `m_MessageQueue.size()`, with `bProcessed`. -/
  | check (processed : Bool)
  /-- At `RequestStop`, after so many messages were accepted. -/
  | request (processed : Bool) (seen : ℕ)
  | done
  deriving DecidableEq, Repr

/-- A plugin with its queue. -/
structure State where
  queue : List Item
  /-- The messages of threads in `MessagePlugin` that are not yet in the queue. -/
  pushing : List Message
  clock : ℤ
  now : ℤ
  stopTime : ℤ
  stopRequested : Bool
  isStopping : Bool
  /-- `m_PyInterpreter || m_bIsStarting`. -/
  interpreter : Bool
  pc : Pc
  /-- All messages that were put into the queue. -/
  accepted : List Item
  /-- The messages that were processed, with the time of it. -/
  processed : List (ℤ × Item)
  /-- The messages that were taken without an interpreter. -/
  dropped : List Item

/-- What happens. -/
inductive Event
  /-- A thread enters `MessagePlugin`. -/
  | enter (m : Message)
  /-- A thread that is in it puts its message into the queue. -/
  | push (i : ℕ)
  /-- Time passes. -/
  | elapse (seconds : ℕ)
  /-- `StopHardware` sets `m_bIsStopping`. -/
  | setStopping
  /-- The interpreter ends. -/
  | endInterpreter
  /-- The loop takes a step. -/
  | work
  deriving DecidableEq, Repr

/-- The end of the inner loop. -/
def afterBody (processed : Bool) : Pc := if processed then .scan else .outer

/-- A step of `Do_Work`. -/
def work (s : State) : State :=
  match s.pc with
  | .outer => if s.stopRequested then { s with pc := .done } else { s with now := s.clock, pc := .scan }
  | .scan =>
      match scan s.now s.queue with
      | (some x, queue) => { s with queue, pc := .process x }
      | (none, queue) => { s with queue, pc := .check false }
  | .process x =>
      if s.interpreter then
        { s with
          processed := s.processed ++ [(s.clock, x)]
          stopTime := if x.isStop ∧ s.stopTime = 0 then s.now + 1 else s.stopTime
          isStopping := s.isStopping || x.isStop
          pc := .check true }
      else { s with dropped := s.dropped ++ [x], pc := .check true }
  | .check processed =>
      if s.isStopping ∧ s.queue = [] ∧ s.stopTime < s.now then
        { s with pc := .request processed s.accepted.length }
      else { s with pc := afterBody processed }
  | .request processed _ => { s with stopRequested := true, pc := afterBody processed }
  | .done => s

/-- A message is put into the queue. -/
def accept (s : State) (m : Message) : State :=
  { s with
    queue := s.queue ++ [⟨m, s.accepted.length⟩]
    accepted := s.accepted ++ [⟨m, s.accepted.length⟩] }

/-- What an event does; what cannot happen now does nothing. -/
def step (s : State) : Event → State
  | .enter m => if s.stopRequested then s else { s with pushing := s.pushing ++ [m] }
  | .push i =>
      match s.pushing[i]? with
      | none => s
      | some m => accept { s with pushing := s.pushing.eraseIdx i } m
  | .elapse seconds => { s with clock := s.clock + seconds }
  | .setStopping => { s with isStopping := true }
  | .endInterpreter => { s with interpreter := false }
  | .work => work s

/-- A plugin that was just started. -/
def start (clock : ℤ) (isStopping : Bool) : State where
  queue := []
  pushing := []
  clock
  now := clock
  stopTime := 0
  stopRequested := false
  isStopping
  interpreter := true
  pc := .outer
  accepted := []
  processed := []
  dropped := []

/-- The message that is taken out and not yet processed. -/
def State.inHand (s : State) : List Item :=
  match s.pc with
  | .process x => [x]
  | _ => []

/-! ### What the loop is for -/

/-- The messages that are processed or still to be, in this order. -/
def State.all (s : State) : List Item :=
  s.processed.map Prod.snd ++ s.dropped ++ s.inHand ++ s.queue

/-- Each message is where it should be. -/
structure Delivered (s : State) : Prop where
  /-- Messages without a delay are in the order of acceptance. -/
  ordered : s.all.filter (fun x => !x.delay) = s.accepted.filter fun x => !x.delay
  /-- All messages are there, each once. -/
  once : s.all.Perm s.accepted
  numbered : s.accepted.map Item.number = List.range s.accepted.length
  /-- None was processed too early. -/
  due : ∀ p ∈ s.processed, p.2.delay = true → p.2.due ≤ p.1
  /-- None was lost while there was an interpreter. -/
  kept : s.interpreter = true → s.dropped = []

/-! ### What a step keeps -/

/-- How many messages were accepted when a stop is about to be requested. -/
def Pc.seen? : Pc → Option ℕ
  | .request _ seen => some seen
  | _ => none

/-- What is known of every state of a run. -/
structure Inv (s : State) : Prop extends Delivered s where
  now_le : s.now ≤ s.clock
  ready : ∀ x ∈ s.inHand, waiting s.now x = false
  since : ∀ n, s.pc.seen? = some n → s.accepted.length = n + s.queue.length

theorem inv_start (clock : ℤ) (isStopping : Bool) : Inv (start clock isStopping) where
  ordered := rfl
  once := List.Perm.refl _
  numbered := rfl
  due := List.forall_mem_nil _
  kept _ := rfl
  now_le := le_refl _
  ready := List.forall_mem_nil _
  since _ h := by cases h

/-- What a scan leaves of the messages. -/
theorem scan_cases (now : ℤ) (queue : List Item) :
    (scan now queue = (none, queue) ∧ ∀ x ∈ queue, waiting now x = true) ∨
      ∃ front x rest, queue = front ++ x :: rest ∧ (∀ y ∈ front, waiting now y = true) ∧
        waiting now x = false ∧ scan now queue = (some x, rest ++ front) := by
  rw [scan_eq]
  cases h : queue.dropWhile (waiting now) with
  | nil => exact .inl ⟨rfl, List.dropWhile_eq_nil_iff.mp h⟩
  | cons x rest =>
    refine .inr ⟨queue.takeWhile (waiting now), x, rest, ?_, ?_, ?_, rfl⟩
    · rw [← h, List.takeWhile_append_dropWhile]
    · exact fun y hy => List.mem_takeWhile_imp hy
    · have hne : queue.dropWhile (waiting now) ≠ [] := by
        rw [h]
        exact List.cons_ne_nil _ _
      have hx := List.head_dropWhile_not (waiting now) hne
      simpa only [h, List.head_cons, Bool.not_eq_true] using hx

/-- A message that waits has a delay. -/
theorem delay_of_waiting {now : ℤ} {x : Item} (h : waiting now x = true) : x.delay = true :=
  (Bool.and_eq_true_iff.mp h).1

/-- The messages are the same, and what was done with them is known. -/
theorem Inv.of_same {s s' : State} (h : Inv s) (hall : s'.all = s.all)
    (haccepted : s'.accepted = s.accepted)
    (hdue : ∀ p ∈ s'.processed, p.2.delay = true → p.2.due ≤ p.1)
    (hkept : s'.interpreter = true → s'.dropped = []) (hnow : s'.now ≤ s'.clock)
    (hready : ∀ x ∈ s'.inHand, waiting s'.now x = false)
    (hsince : ∀ n, s'.pc.seen? = some n → s'.accepted.length = n + s'.queue.length) : Inv s' where
  ordered := by rw [hall, haccepted]; exact h.ordered
  once := by rw [hall, haccepted]; exact h.once
  numbered := by rw [haccepted]; exact h.numbered
  due := hdue
  kept := hkept
  now_le := hnow
  ready := hready
  since := hsince

theorem all_accept (s : State) (m : Message) :
    (accept s m).all = s.all ++ [⟨m, s.accepted.length⟩] := by
  rw [State.all, State.all, List.append_assoc _ s.queue]
  rfl

theorem inv_accept {s : State} (h : Inv s) (m : Message) : Inv (accept s m) where
  ordered := by
    show _ = (s.accepted ++ [_]).filter _
    rw [all_accept, List.filter_append, List.filter_append, h.ordered]
  once := by
    rw [all_accept]
    exact h.once.append_right _
  numbered := by
    show (s.accepted ++ [_]).map Item.number = List.range (s.accepted ++ [_]).length
    rw [List.map_append, h.numbered, List.length_append, List.length_singleton, List.range_succ]
    rfl
  due := h.due
  kept := h.kept
  now_le := h.now_le
  ready := h.ready
  since n hpc := by
    have hlen := h.since n hpc
    show (s.accepted ++ [_]).length = n + (s.queue ++ [_]).length
    rw [List.length_append, List.length_append, hlen, List.length_singleton, Nat.add_assoc]

theorem inHand_of_check {s : State} {processed : Bool} (h : s.pc = .check processed) :
    s.inHand = [] := by
  rw [State.inHand, h]

/-- The loop takes a step. -/
theorem inv_work {s : State} (h : Inv s) : Inv (work s) := by
  unfold work
  cases hpc : s.pc with
  | outer =>
    have hhand : s.inHand = [] := by rw [State.inHand, hpc]
    simp only
    split
    · exact h.of_same (by rw [State.all, State.all, hhand]; rfl) rfl h.due h.kept h.now_le
        (List.forall_mem_nil _) (fun _ hr => by cases hr)
    · exact h.of_same (by rw [State.all, State.all, hhand]; rfl) rfl h.due h.kept (le_refl _)
        (List.forall_mem_nil _) (fun _ hr => by cases hr)
  | scan =>
    have hhand : s.inHand = [] := by rw [State.inHand, hpc]
    simp only
    rcases scan_cases s.now s.queue with ⟨hscan, -⟩ | ⟨front, x, rest, hq, hfront, hx, hscan⟩
    · simp only [hscan]
      exact h.of_same (by rw [State.all, State.all, hhand]; rfl) rfl h.due h.kept h.now_le
        (List.forall_mem_nil _) (fun _ hr => by cases hr)
    · simp only [hscan]
      -- only messages with a delay change their places
      have hwaits : front.filter (fun x => !x.delay) = [] := by
        rw [List.filter_eq_nil_iff]
        intro y hy
        rw [delay_of_waiting (hfront y hy)]
        exact Bool.false_ne_true
      have hordered := h.ordered
      have honce := h.once
      rw [State.all, hhand, hq] at hordered honce
      constructor
      · constructor
        · rw [← hordered]
          simp only [State.all, State.inHand, List.filter_append, List.filter_cons, hwaits,
            List.append_nil, List.nil_append, List.filter_nil]
          split <;> simp
        · refine List.Perm.trans ?_ honce
          simp only [State.all, State.inHand, List.append_nil, List.append_assoc,
            List.singleton_append]
          refine List.Perm.append_left _ (List.Perm.append_left _ ?_)
          exact (List.perm_append_comm.cons x).trans List.perm_middle.symm
        · exact h.numbered
        · exact h.due
        · exact h.kept
      · exact h.now_le
      · intro y hy
        rw [List.mem_singleton.mp hy]
        exact hx
      · exact fun _ hr => by cases hr
  | process x =>
    have hhand : s.inHand = [x] := by rw [State.inHand, hpc]
    simp only
    split
    · next hint =>
      have hkept := h.kept hint
      refine h.of_same ?_ rfl (fun p hp hdelay => ?_) h.kept h.now_le (List.forall_mem_nil _)
        (fun _ hr => by cases hr)
      · rw [State.all, State.all, hhand]
        show (s.processed ++ [(s.clock, x)]).map Prod.snd ++ s.dropped ++ [] ++ s.queue = _
        rw [hkept, List.map_append]
        simp only [List.map_cons, List.map_nil, List.append_nil]
      · rcases List.mem_append.mp hp with hp | hp
        · exact h.due p hp hdelay
        · rw [List.mem_singleton.mp hp] at hdelay ⊢
          -- it was ready at an earlier time
          have hready := h.ready x (by rw [hhand]; exact List.mem_singleton_self x)
          rw [waiting, hdelay, Bool.true_and, decide_eq_false_iff_not, not_lt] at hready
          exact hready.trans h.now_le
    · next hint =>
      refine h.of_same ?_ rfl h.due (fun hi => absurd hi hint) h.now_le (List.forall_mem_nil _)
        (fun _ hr => by cases hr)
      rw [State.all, State.all, hhand]
      show _ ++ (s.dropped ++ [x]) ++ [] ++ s.queue = _
      rw [List.append_nil, ← List.append_assoc]
  | check processed =>
    have hhand := inHand_of_check hpc
    simp only
    split
    · next hstop =>
      refine h.of_same (by rw [State.all, State.all, hhand]; rfl) rfl h.due h.kept h.now_le
        (List.forall_mem_nil _) (fun n hr => ?_)
      cases hr
      show s.accepted.length = s.accepted.length + s.queue.length
      rw [hstop.2.1]
      rfl
    · refine h.of_same ?_ rfl h.due h.kept h.now_le ?_ ?_
      · rw [State.all, State.all, hhand]
        cases processed <;> rfl
      · cases processed <;> exact List.forall_mem_nil _
      · intro n hr
        cases processed <;> cases hr
  | request processed seen =>
    have hhand : s.inHand = [] := by rw [State.inHand, hpc]
    refine h.of_same ?_ rfl h.due h.kept h.now_le ?_ ?_
    · rw [State.all, State.all, hhand]
      cases processed <;> rfl
    · cases processed <;> exact List.forall_mem_nil _
    · intro n hr
      cases processed <;> cases hr
  | done => exact h

/-- Every event keeps what is known. -/
theorem inv_step (s : State) (e : Event) (h : Inv s) : Inv (step s e) := by
  cases e with
  | enter m =>
    rw [step]
    split
    · exact h
    · exact h.of_same rfl rfl h.due h.kept h.now_le h.ready h.since
  | push i =>
    rw [step]
    split
    · exact h
    · next m _ =>
      have hsame : Inv { s with pushing := s.pushing.eraseIdx i } :=
        h.of_same rfl rfl h.due h.kept h.now_le h.ready h.since
      exact inv_accept hsame m
  | elapse seconds =>
    have hle : s.clock ≤ s.clock + seconds := by omega
    exact h.of_same rfl rfl h.due h.kept (h.now_le.trans hle) h.ready h.since
  | setStopping => exact h.of_same rfl rfl h.due h.kept h.now_le h.ready h.since
  | endInterpreter =>
    exact h.of_same rfl rfl h.due (fun hi => by cases hi) h.now_le h.ready h.since
  | work => exact inv_work h

/-! ### Progress -/

/-- The interpreter runs, and the loop is not asked to stop. -/
def State.running (s : State) : Prop := s.interpreter = true ∧ s.stopRequested = false

/-- How many steps it is to the next scan, at most. -/
def Pc.rank : Pc → ℕ
  | .outer => 1
  | .scan => 0
  | .process _ => 4
  | .check _ => 3
  | .request _ _ => 2
  | .done => 0

/-- How many steps of the loop it takes to process a message, at most. -/
def stepsLeft (x : Item) (s : State) : ℕ :=
  if x ∈ s.processed.map Prod.snd then 0
  else if x ∈ s.inHand then 1
  else 5 * s.queue.idxOf x + s.pc.rank + 2

/-- What an event takes from it. -/
def cost (e : Event) : ℕ := if e = .work then 1 else 0

theorem interpreter_work (s : State) : (work s).interpreter = s.interpreter := by
  unfold work
  split
  · split <;> rfl
  · split <;> rfl
  · split <;> rfl
  · split <;> rfl
  · rfl
  · rfl

theorem stopRequested_work {s : State} (h : s.stopRequested = true) :
    (work s).stopRequested = true := by
  unfold work
  split
  · split <;> exact h
  · split <;> exact h
  · split <;> exact h
  · split <;> exact h
  · rfl
  · exact h

/-- A plugin that runs did so before. -/
theorem running_of_step {s : State} {e : Event} (h : (step s e).running) : s.running := by
  obtain ⟨hint, hstop⟩ := h
  cases e with
  | enter m =>
    rw [step] at hint hstop
    split at hint
    · next hs =>
      rw [if_pos hs, hs] at hstop
      cases hstop
    · next hs => exact ⟨hint, Bool.eq_false_iff.mpr hs⟩
  | push i =>
    rw [step] at hint hstop
    cases hi : s.pushing[i]? with
    | none =>
      simp only [hi] at hint hstop
      exact ⟨hint, hstop⟩
    | some m =>
      simp only [hi] at hint hstop
      exact ⟨hint, hstop⟩
  | elapse seconds => exact ⟨hint, hstop⟩
  | setStopping => exact ⟨hint, hstop⟩
  | endInterpreter => cases hint
  | work =>
    refine ⟨(interpreter_work s).symm.trans hint, Bool.eq_false_iff.mpr fun hs => ?_⟩
    have hstop' : (work s).stopRequested = false := hstop
    rw [stopRequested_work hs] at hstop'
    cases hstop'

/-- The loop only leaves when it is asked to. -/
def LeavesOnRequest (s : State) : Prop := s.pc = .done → s.stopRequested = true

theorem afterBody_ne_done (processed : Bool) : afterBody processed ≠ .done := by
  cases processed
  · exact Pc.noConfusion
  · exact Pc.noConfusion

theorem leaves_work {s : State} (h : LeavesOnRequest s) : LeavesOnRequest (work s) := by
  unfold work LeavesOnRequest
  split
  · split
    · next hs => exact fun _ => hs
    · exact Pc.noConfusion
  · split <;> exact Pc.noConfusion
  · split <;> exact Pc.noConfusion
  · split
    · exact Pc.noConfusion
    · exact fun hdone => absurd hdone (afterBody_ne_done _)
  · exact fun _ => rfl
  · next hpc => exact fun _ => h hpc

theorem leaves_step (s : State) (e : Event) (h : LeavesOnRequest s) :
    LeavesOnRequest (step s e) := by
  cases e with
  | enter m =>
    rw [step]
    split <;> exact h
  | push i =>
    rw [step]
    split <;> exact h
  | elapse seconds => exact h
  | setStopping => exact h
  | endInterpreter => exact h
  | work => exact leaves_work h

/-- A message without a delay that was put into the queue. -/
structure Tracked (x : Item) (s : State) : Prop where
  inv : Inv s
  leaves : LeavesOnRequest s
  mem : x ∈ s.accepted
  delay : x.delay = false

theorem mem_accepted_step {x : Item} {s : State} (h : x ∈ s.accepted) (e : Event) :
    x ∈ (step s e).accepted := by
  cases e with
  | enter m =>
    rw [step]
    split <;> exact h
  | push i =>
    rw [step]
    split
    · exact h
    · exact List.mem_append_left _ h
  | elapse seconds => exact h
  | setStopping => exact h
  | endInterpreter => exact h
  | work =>
    show x ∈ (work s).accepted
    unfold work
    split
    · split <;> exact h
    · split <;> exact h
    · split <;> exact h
    · split <;> exact h
    · exact h
    · exact h

theorem Tracked.step {x : Item} {s : State} (h : Tracked x s) (e : Event) : Tracked x (step s e) :=
  ⟨inv_step s e h.inv, leaves_step s e h.leaves, mem_accepted_step h.mem e, h.delay⟩

/-- It was processed, is being processed or is still to be. -/
theorem Tracked.cases {x : Item} {s : State} (h : Tracked x s) (hrun : s.interpreter = true) :
    x ∈ s.processed.map Prod.snd ∨ x ∈ s.inHand ∨ x ∈ s.queue := by
  have hmem := h.inv.once.symm.subset h.mem
  rw [State.all, h.inv.kept hrun, List.append_nil, List.mem_append, List.mem_append] at hmem
  tauto

theorem processed_work_mem {x : Item} {s : State} (h : x ∈ s.processed.map Prod.snd) :
    x ∈ (work s).processed.map Prod.snd := by
  unfold work
  split
  · split <;> exact h
  · split <;> exact h
  · split
    · rw [List.map_append]
      exact List.mem_append_left _ h
    · exact h
  · split <;> exact h
  · exact h
  · exact h

theorem stepsLeft_of_mem {x : Item} {s : State} (h : x ∈ s.processed.map Prod.snd) :
    stepsLeft x s = 0 := if_pos h

theorem stepsLeft_of_notMem {x : Item} {s : State} (h : x ∉ s.processed.map Prod.snd)
    (hhand : x ∉ s.inHand) : stepsLeft x s = 5 * s.queue.idxOf x + s.pc.rank + 2 := by
  rw [stepsLeft, if_neg h, if_neg hhand]

theorem stepsLeft_le {x : Item} {t : State} {n : ℕ} (h : x ∉ t.inHand)
    (hle : 5 * t.queue.idxOf x + t.pc.rank + 2 ≤ n) : stepsLeft x t ≤ n := by
  rw [stepsLeft, if_neg h]
  split
  · exact Nat.zero_le _
  · exact hle

theorem stepsLeft_le_one {x : Item} {t : State} (h : x ∈ t.inHand) : stepsLeft x t ≤ 1 := by
  rw [stepsLeft, if_pos h]
  split
  · exact Nat.zero_le _
  · exact le_refl _

/-- The loop comes closer to a message with each step. -/
theorem stepsLeft_work {x : Item} {s : State} (h : Tracked x s) (hrun : (work s).running) :
    stepsLeft x (work s) ≤ stepsLeft x s - 1 := by
  have hbefore : s.running := running_of_step (e := .work) hrun
  have hcases := h.cases hbefore.1
  by_cases hgrows : x ∈ s.processed.map Prod.snd
  · rw [stepsLeft_of_mem (processed_work_mem hgrows)]
    exact Nat.zero_le _
  unfold work at hrun ⊢
  cases hpc : s.pc with
  | outer =>
    simp only [hbefore.2, Bool.false_eq_true, if_false]
    have hhand : x ∉ s.inHand := by
      rw [State.inHand, hpc]
      exact List.not_mem_nil
    rw [stepsLeft_of_notMem hgrows hhand, hpc]
    refine stepsLeft_le List.not_mem_nil ?_
    simp only [Pc.rank]
    omega
  | scan =>
    have hhand : x ∉ s.inHand := by
      rw [State.inHand, hpc]
      exact List.not_mem_nil
    have hqueue : x ∈ s.queue := by tauto
    have hready : ∀ now, waiting now x = false := fun now => by rw [waiting, h.delay, Bool.false_and]
    rcases scan_cases s.now s.queue with ⟨-, hall⟩ | ⟨front, y, rest, hq, hfront, -, hscan⟩
    · have hwait := hall x hqueue
      rw [hready] at hwait
      cases hwait
    · simp only [hscan]
      rw [stepsLeft_of_notMem hgrows hhand, hpc]
      by_cases hxy : x = y
      · refine (stepsLeft_le_one (List.mem_singleton.mpr hxy)).trans ?_
        simp only [Pc.rank]
        omega
      · -- the messages in front of it are at the back now
        have hnot : x ∉ front := by
          intro hx
          have hwait := hfront x hx
          rw [hready] at hwait
          cases hwait
        rw [hq, List.mem_append, List.mem_cons] at hqueue
        have hrest : x ∈ rest := by tauto
        have hnothand : x ∉ [y] := by
          rw [List.mem_singleton]
          exact hxy
        refine stepsLeft_le hnothand ?_
        simp only [Pc.rank]
        rw [hq, List.idxOf_append_of_mem hrest, List.idxOf_append_of_notMem hnot,
          List.idxOf_cons_ne _ (Ne.symm hxy)]
        omega
  | process y =>
    simp only [hbefore.1, if_true]
    by_cases hxy : x = y
    · -- this is the item that is waited for
      subst hxy
      have hmem : x ∈ (s.processed ++ [(s.clock, x)]).map Prod.snd := by
        rw [List.map_append]
        exact List.mem_append_right _ (List.mem_singleton_self x)
      rw [stepsLeft, if_pos hmem]
      exact Nat.zero_le _
    · have hhand : x ∉ s.inHand := by
        rw [State.inHand, hpc, List.mem_singleton]
        exact hxy
      rw [stepsLeft_of_notMem hgrows hhand, hpc]
      refine stepsLeft_le List.not_mem_nil ?_
      simp only [Pc.rank]
      omega
  | check processed =>
    have hhand : x ∉ s.inHand := by
      rw [inHand_of_check hpc]
      exact List.not_mem_nil
    simp only
    rw [stepsLeft_of_notMem hgrows hhand, hpc]
    split
    · refine stepsLeft_le List.not_mem_nil ?_
      simp only [Pc.rank]
      omega
    · cases processed
      · refine stepsLeft_le List.not_mem_nil ?_
        simp only [afterBody, Bool.false_eq_true, if_false, Pc.rank]
        omega
      · refine stepsLeft_le List.not_mem_nil ?_
        simp only [afterBody, if_true, Pc.rank]
        omega
  | request processed seen =>
    simp only [hpc] at hrun
    cases hrun.2
  | done =>
    have hstop := h.leaves hpc
    rw [hbefore.2] at hstop
    cases hstop

/-- No event takes the loop away from a message. -/
theorem stepsLeft_step (x : Item) (s : State) (e : Event) (h : Tracked x s)
    (hrun : (step s e).running) : stepsLeft x (step s e) ≤ stepsLeft x s - cost e := by
  cases e with
  | enter m =>
    rw [step]
    split <;> exact le_refl _
  | push i =>
    have hbefore : s.running := running_of_step hrun
    rw [step]
    split
    · exact le_refl _
    · next m _ =>
      show (if x ∈ s.processed.map Prod.snd then 0 else if x ∈ s.inHand then 1
        else 5 * (s.queue ++ [_]).idxOf x + s.pc.rank + 2) ≤ stepsLeft x s
      split
      · exact Nat.zero_le _
      · next hp =>
        split
        · next hhand =>
          rw [stepsLeft, if_neg hp, if_pos hhand]
        · next hhand =>
          have hqueue : x ∈ s.queue := by
            have hcases := h.cases hbefore.1
            tauto
          rw [stepsLeft_of_notMem hp hhand, List.idxOf_append_of_mem hqueue]
  | elapse seconds => exact le_refl _
  | setStopping => exact le_refl _
  | endInterpreter => exact le_refl _
  | work => exact stepsLeft_work h hrun

/-! ### Delivery -/

/-- The steps of the loop in a run. -/
def workSteps (es : List Event) : ℕ := (es.map cost).sum

/-- After so many steps of the loop a message without a delay is processed. -/
theorem processed_of_work {x : Item} {s : State} (h : Tracked x s) {es : List Event}
    (hrun : (es.foldl step s).running) (hlen : stepsLeft x s ≤ workSteps es) :
    x ∈ (es.foldl step s).processed.map Prod.snd := by
  have hle := run_potential (G := State.running) (fun _ _ => running_of_step)
    (fun _ e ht => ht.step e) (stepsLeft_step x) h hrun
  have hzero : stepsLeft x (es.foldl step s) = 0 := by
    have hsteps : stepsLeft x (es.foldl step s) ≤ stepsLeft x s - workSteps es := hle
    omega
  by_contra hnot
  rw [stepsLeft, if_neg hnot] at hzero
  split at hzero
  · omega
  · omega

/-- A message without a delay is processed after some steps of the loop, unless the plugin is
stopped. -/
def Prompt (s : State) : Prop :=
  ∀ x ∈ s.queue, x.delay = false → ∀ es : List Event, 5 * s.queue.length + 6 ≤ workSteps es →
    (es.foldl step s).running → x ∈ (es.foldl step s).processed.map Prod.snd

/-- The messages are delivered, and a stop is requested when there is none. -/
structure Handles (s : State) (e : Event) : Prop where
  delivered : Delivered s
  prompt : Prompt s
  stops : e = .work → s.pc.seen? ≠ none → s.queue = []

/-- No message was accepted since the loop saw that there is none. -/
def NoneSince (s : State) (e : Event) : Prop :=
  e = .work → ∀ n ∈ s.pc.seen?, s.accepted.length = n

theorem prompt_of_inv {s : State} (h : Inv s) (hleaves : LeavesOnRequest s) : Prompt s := by
  intro x hx hdelay es hlen hrun
  have hmem : x ∈ s.accepted := by
    refine h.once.subset ?_
    rw [State.all]
    exact List.mem_append_right _ hx
  refine processed_of_work ⟨h, hleaves, hmem, hdelay⟩ hrun (le_trans ?_ hlen)
  have hidx := List.idxOf_lt_length_iff.mpr hx
  have hrank : s.pc.rank ≤ 4 := by
    cases s.pc <;> simp only [Pc.rank] <;> omega
  unfold stepsLeft
  split
  · omega
  · split <;> omega

/-- In one state: everything is in order, but a stop may be requested too early. -/
theorem handles_iff (s : State) (e : Event) (h : Inv s ∧ LeavesOnRequest s) :
    Handles s e ↔ NoneSince s e := by
  obtain ⟨hinv, hleaves⟩ := h
  constructor
  · intro hhandles he n hn
    have hnil := hhandles.stops he (by rw [hn]; exact Option.some_ne_none n)
    rw [hinv.since n hn, hnil]
    rfl
  · intro hnone
    refine ⟨hinv.toDelivered, prompt_of_inv hinv hleaves, fun he hseen => ?_⟩
    obtain ⟨n, hn⟩ := Option.ne_none_iff_exists'.mp hseen
    have hlen := hinv.since n hn
    rw [hnone he n hn] at hlen
    exact List.length_eq_zero_iff.mp (by omega)

/-- The queue is handled in a run exactly if no message comes between the look at the queue and
the request to stop. -/
theorem queue_handled_iff (clock : ℤ) (isStopping : Bool) (es : List Event) :
    Throughout step Handles (start clock isStopping) es ↔
      Throughout step NoneSince (start clock isStopping) es :=
  throughout_congr (fun s e h => ⟨inv_step s e h.1, leaves_step s e h.2⟩) handles_iff
    ⟨inv_start clock isStopping, Pc.noConfusion⟩ es

/-- A plugin is stopped, and a message comes when the loop has seen that there is none. -/
def lateMessage : List Event :=
  [.enter ⟨true, 5, true⟩, .push 0, .enter ⟨false, 0, false⟩, .work, .work, .work, .work, .work,
    .work, .elapse 2, .work, .work, .work, .push 0]

/-- The stop is requested, and the message is never processed. -/
theorem stop_requested_early :
    ¬ Throughout step Handles (start 5 false) (lateMessage ++ [.work]) := by
  intro h
  have hnil := (throughout_last h).stops rfl (by decide)
  revert hnil
  decide

end Domoticz.WorkLoop
