import Domoticz.Plugin.LifeCycle
import Domoticz.Transition

/-!
# Restarting a plugin

`RestartPlugin` sets `m_bRestart` and stops the plugin.  At its end the thread of the plugin comes
to `Stop`, which finds `m_bRestart` set and calls `StartHardware`.  That puts a new thread into
`m_thread`.  The old thread is still there, since `CPlugin` neither joins nor detaches it, and the
destructor of a thread that can be joined calls `std::terminate`.  `Restart` of the base class
comes to the same place from the outside.

A call is a list of the steps that it is going to make, each of which reads or writes one field
that the threads share.

## Main definitions

* `CPlugin`, `Op` — the fields, and the steps of the functions.
* `State`, `Event`, `step` — the plugin with all its threads and those that call it.
* `Survived` — what a restart is to lead to.

## Main results

* `started_run` — a thread that can restart the plugin comes behind one in `m_thread`.
* `restart_terminates` — a thread that restarts the plugin ends the process.
* `survives_iff` — **a restart survives in no run that comes to its new thread.**
-/

namespace Domoticz.Restarting

open LifeCycle Transition

/-! ### The functions -/

/-- `CPlugin`, with what a restart reads and writes. -/
structure CPlugin extends Plugin where
  m_bRestart : Bool := false
  /-- There is a thread in `m_thread`. -/
  m_thread : Bool := false
  deriving DecidableEq, Repr

/-- A step of a thread. -/
inductive Op
  /-- A step in `Do_Work` or `Finalise`. -/
  | loop (t : Thread)
  /-- In `StopHardware`, at `while (m_bIsStarting)`. -/
  | awaitStarting
  /-- In `StopHardware`, at `if (m_bIsStarted)`. -/
  | testStarted
  /-- In `StopHardware`, at `MessagePlugin(new onStopCallback(this))`. -/
  | queueStop
  /-- In `StopHardware`, at `m_bIsStopping = true`. -/
  | setStopping
  /-- In `StartHardware`, at `if (m_bIsStarted) StopHardware()`. -/
  | stopFirst
  /-- In `StartHardware`, at `m_bIsStarting = true`. -/
  | setStarting
  /-- In `StartHardware`, at `RequestStart()`. -/
  | requestStart
  /-- In `StartHardware`, at the loop that empties the queue. -/
  | flushQueue
  /-- In `StartHardware`, at `m_thread = std::make_shared<std::thread>(...)`. -/
  | makeThread
  /-- In `StartHardware`, at `MessagePlugin(new InitializeMessage(this))`. -/
  | queueInitialize
  /-- In `Start`, `Stop` or `Restart` of the base class, at `m_bIsStarted = ...`. -/
  | setStarted (b : Bool)
  /-- In `CPlugin::Stop`, at `if (m_bRestart)`. -/
  | testRestart
  /-- In `CPlugin::Stop`, at `m_bRestart = false`. -/
  | clearRestart
  /-- In `RestartPlugin`, at `m_pPlugins.count` and `IsRunning`. -/
  | testRunning
  /-- In `RestartPlugin`, at `RequestRestart`. -/
  | requestRestart
  deriving DecidableEq, Repr

/-- `CPlugin::StopHardware`. -/
def StopHardware : List Op := [.awaitStarting, .testStarted]

/-- `CPlugin::StartHardware`, where the new thread can be made. -/
def StartHardware : List Op :=
  [.stopFirst, .setStarting, .requestStart, .flushQueue, .makeThread, .queueInitialize]

/-- `CDomoticzHardwareBase::Start`. -/
def Start : List Op := StartHardware ++ [.setStarted true]

/-- `CDomoticzHardwareBase::Stop`. -/
def Stop : List Op := StopHardware ++ [.setStarted false]

/-- `CDomoticzHardwareBase::Restart`; `StopHardware` returns true. -/
def Restart : List Op := StopHardware ++ StartHardware ++ [.setStarted true]

/-- `CPluginSystem::RestartPlugin`. -/
def RestartPlugin : List Op := [.testRunning]

/-! ### The threads -/

/-- A plugin, and all threads that use it. -/
structure State where
  plugin : CPlugin
  /-- `m_pPlugins.count(InterfaceID)`. -/
  registered : Bool
  /-- What each thread is still to do. -/
  threads : List (List Op)
  /-- The process is over. -/
  terminated : Bool
  deriving DecidableEq, Repr

/-- The next step of a thread. -/
def State.next (s : State) (i : ℕ) : Option Op := s.threads[i]?.bind List.head?

/-- The flags and the queue have changed. -/
def State.set (s : State) (p : Plugin) : State :=
  { s with plugin := { s.plugin with toPlugin := p } }

/-- The thread calls `CPlugin::Stop`, from `Finalise` or where `Initialise` has failed. -/
def callsStop (row : Option Bool) (c : Choice) : Thread → Bool
  | .finalise => true
  | .select => row = some true && !c.succeeds
  | _ => false

/-- `IsStarted() && !m_bRestart`. -/
def CPlugin.IsRunning (p : CPlugin) : Bool := p.m_bIsStarted && !p.m_bRestart

/-- A step of a thread, and the calls that it makes. -/
def State.exec (s : State) (row : Option Bool) (c : Choice) : Op → State × List Op
  | .loop t =>
      let next := work row c s.plugin.toPlugin t
      ({ s.set next.1 with
          registered := s.registered && t != .deregister
          terminated := next.2 == .aborted },
        if callsStop row c t then [.testRestart, .loop next.2] else [.loop next.2])
  | .awaitStarting => (s, if s.plugin.m_bIsStarting then [.awaitStarting] else [])
  | .testStarted => (s, if s.plugin.m_bIsStarted then [.queueStop, .setStopping] else [])
  | .queueStop => (s.set (s.plugin.MessagePlugin .onStop), [])
  | .setStopping => (s.set { s.plugin.toPlugin with m_bIsStopping := true }, [])
  | .stopFirst => (s, if s.plugin.m_bIsStarted then StopHardware else [])
  | .setStarting => (s.set { s.plugin.toPlugin with m_bIsStarting := true }, [])
  | .requestStart => (s.set { s.plugin.toPlugin with stopRequested := false }, [])
  | .flushQueue => (s.set { s.plugin.toPlugin with m_MessageQueue := [] }, [])
  | .makeThread =>
      -- the thread that was there is destroyed
      if s.plugin.m_thread then ({ s with terminated := true }, [])
      else
        ({ s with
            plugin := { s.plugin with m_thread := true }
            threads := s.threads ++ [[.loop .top]] }, [])
  | .queueInitialize => (s.set (s.plugin.MessagePlugin .initializeMessage), [])
  | .setStarted b => (s.set { s.plugin.toPlugin with m_bIsStarted := b }, [])
  | .testRestart => (s, if s.plugin.m_bRestart then StartHardware ++ [.clearRestart] else [])
  | .clearRestart => ({ s with plugin := { s.plugin with m_bRestart := false } }, [])
  | .testRunning =>
      (s, if s.registered && s.plugin.IsRunning then .requestRestart :: StopHardware else [])
  | .requestRestart => ({ s with plugin := { s.plugin with m_bRestart := true } }, [])

/-- A call from outside. -/
inductive Call
  | stop
  | restartPlugin
  | restart
  deriving DecidableEq, Repr

/-- The steps of a call.  `Restart` is for a plugin that has been started. -/
def Call.ops (p : CPlugin) : Call → List Op
  | .stop => Stop
  | .restartPlugin => RestartPlugin
  | .restart => if p.m_thread then Restart else []

/-- What may happen next. -/
inductive Event
  /-- A thread takes a step. -/
  | run (i : ℕ) (row : Option Bool) (c : Choice)
  /-- A thread begins a call. -/
  | call (f : Call)
  /-- Another thread has a message for the plugin. -/
  | message (m_Delay : Bool)
  deriving DecidableEq, Repr

/-- Thread `i` takes its next step, and the calls stand in front of what is left. -/
def State.runAt (s : State) (i : ℕ) (row : Option Bool) (c : Choice) : State :=
  match s.threads[i]? with
  | some (op :: ops) =>
      let next := s.exec row c op
      { next.1 with threads := next.1.threads.set i (next.2 ++ ops) }
  | _ => s

/-- An event, while the process runs. -/
def State.handle (s : State) : Event → State
  | .run i row c => s.runAt i row c
  | .call f => { s with threads := s.threads ++ [f.ops s.plugin] }
  | .message m_Delay => s.set (s.plugin.MessagePlugin (.other m_Delay))

/-- An event; nothing happens in a process that is over. -/
def step (s : State) (e : Event) : State := if s.terminated then s else s.handle e

/-- `RegisterPlugin`, and thread 0 is about to call `Start`. -/
def State.fresh : State := ⟨{}, true, [Start], false⟩

/-! ### What a restart is for -/

/-- A thread other than the one that started the plugin comes to the new thread. -/
def NewStart (s : State) : Event → Prop
  | .run i _ _ => s.terminated = false ∧ i ≠ 0 ∧ s.next i = some .makeThread
  | _ => False

instance (s : State) : (e : Event) → Decidable (NewStart s e)
  | .run _ _ _ => inferInstanceAs (Decidable (_ ∧ _ ∧ _))
  | .call _ => .isFalse id
  | .message _ => .isFalse id

/-- The initialisation is still to be queued, or is in the queue or taken out of it. -/
def State.Pending (s : State) : Prop :=
  .initializeMessage ∈ s.plugin.m_MessageQueue ∨
    ∃ ops ∈ s.threads, .queueInitialize ∈ ops ∨ .loop (.taken .initializeMessage) ∈ ops

/-- The step calls `Initialise`. -/
def Initialises (s : State) : Event → Prop
  | .run i _ _ =>
      s.next i = some (.loop (.taken .initializeMessage)) ∧
        (s.plugin.m_PyInterpreter = true ∨ s.plugin.m_bIsStarting = true)
  | _ => False

/-- The step is one in `Do_Work` or `Finalise` of a thread before the `n`-th. -/
def OldStep (n : ℕ) (s : State) : Event → Prop
  | .run i _ _ => i < n ∧ ∃ t, s.next i = some (.loop t)
  | _ => False

/-- Another call to stop or restart the plugin. -/
def Event.isCall : Event → Bool
  | .call _ => true
  | _ => false

/-- What a restart is to lead to, in the run behind its new thread.  There were `n` threads. -/
structure Survived (n : ℕ) (s : State) (later : List Event) : Prop where
  alive : ∀ es, es <+: later → (es.foldl step s).terminated = false
  registered : ∀ es, es <+: later → (∀ e ∈ es, e.isCall = false) →
    (es.foldl step s).registered = true
  /-- The initialisation is not thrown away. -/
  initialised : ∀ es, es <+: later → (es.foldl step s).Pending ∨
    ∃ es' e, es' ++ [e] <+: es ∧ Initialises (es'.foldl step s) e
  /-- The threads that were there before have no effect any more. -/
  replaced : ∀ es e, es ++ [e] <+: later → OldStep n (es.foldl step s) e →
    (step (es.foldl step s) e).plugin = (es.foldl step s).plugin ∧
      (step (es.foldl step s) e).registered = (es.foldl step s).registered

/-- Every restart in a run leads to it. -/
def Survives (es : List Event) : Prop :=
  ∀ done e later, es = done ++ e :: later → NewStart (done.foldl step State.fresh) e →
    Survived (done.foldl step State.fresh).threads.length ((done ++ [e]).foldl step State.fresh)
      later

/-! ### Who can restart a plugin -/

/-- A thread `i` that is to make this step was made by `StartHardware`, or was called behind it. -/
def Op.Late (i : ℕ) : Op → Prop
  | .loop _ | .testRestart => True
  | .makeThread => i ≠ 0
  | _ => False

/-- Such threads are there only when `m_thread` has a thread. -/
def Started (s : State) : Prop :=
  ∀ i ops, s.threads[i]? = some ops → ∀ op ∈ ops, Op.Late i op → s.plugin.m_thread = true

/-- The first `Start` is no restart. -/
theorem not_late_start {op : Op} (h : op ∈ Start) : ¬op.Late 0 := by
  simp only [Start, StartHardware, List.cons_append, List.nil_append, List.mem_cons,
    List.not_mem_nil, or_false] at h
  rcases h with rfl | rfl | rfl | rfl | rfl | rfl | rfl <;> simp [Op.Late]

theorem not_late_stopHardware {i : ℕ} {op : Op} (h : op ∈ StopHardware) : ¬op.Late i := by
  simp only [StopHardware, List.mem_cons, List.not_mem_nil, or_false] at h
  rcases h with rfl | rfl <;> exact id

theorem started_fresh : Started State.fresh := by
  intro i ops hops op hop hlate
  obtain ⟨hi, rfl⟩ : i = 0 ∧ Start = ops := by
    cases i with
    | zero => exact ⟨rfl, Option.some.inj hops⟩
    | succ i => cases hops
  subst hi
  exact absurd hlate (not_late_start hop)

/-- A step calls nothing of this kind, unless it is of this kind itself. -/
theorem exec_front {s : State} {row : Option Bool} {c : Choice} {op op' : Op} {i : ℕ}
    (h : op' ∈ (s.exec row c op).2) (hlate : op'.Late i) : op.Late i := by
  cases op with
  | loop _ => trivial
  | testRestart => trivial
  | awaitStarting =>
    obtain ⟨-, hmem⟩ := List.mem_ite_nil_right.mp h
    obtain rfl := List.mem_singleton.mp hmem
    exact hlate
  | testStarted =>
    obtain ⟨-, hmem⟩ := List.mem_ite_nil_right.mp h
    simp only [List.mem_cons, List.not_mem_nil, or_false] at hmem
    rcases hmem with rfl | rfl <;> exact hlate
  | stopFirst =>
    obtain ⟨-, hmem⟩ := List.mem_ite_nil_right.mp h
    exact absurd hlate (not_late_stopHardware hmem)
  | testRunning =>
    obtain ⟨-, hmem⟩ := List.mem_ite_nil_right.mp h
    rcases List.mem_cons.mp hmem with rfl | hmem
    · exact hlate
    · exact absurd hlate (not_late_stopHardware hmem)
  | makeThread =>
    -- there is nothing behind either branch
    simp only [State.exec] at h
    split at h <;> cases h
  | queueStop => cases h
  | setStopping => cases h
  | setStarting => cases h
  | requestStart => cases h
  | flushQueue => cases h
  | queueInitialize => cases h
  | setStarted _ => cases h
  | clearRestart => cases h
  | requestRestart => cases h

/-- `m_thread` keeps its thread, and a new one comes only with it. -/
theorem exec_threads (s : State) (row : Option Bool) (c : Choice) (op : Op) :
    (s.exec row c op).1.threads = s.threads ∧
        (s.exec row c op).1.plugin.m_thread = s.plugin.m_thread ∨
      (s.exec row c op).1.plugin.m_thread = true := by
  by_cases hop : op = .makeThread
  · subst hop
    by_cases hthread : s.plugin.m_thread = true
    · left
      simp [State.exec, hthread]
    · right
      simp [State.exec, hthread]
  · left
    cases op <;> first | exact ⟨rfl, rfl⟩ | exact absurd rfl hop

theorem Started.runAt {s : State} (h : Started s) (i : ℕ) (row : Option Bool) (c : Choice) :
    Started (s.runAt i row c) := by
  unfold State.runAt
  split
  · next op ops hops =>
    intro j ops' hj op' hop' hlate
    rcases exec_threads s row c op with ⟨hthreads, hkept⟩ | hnew
    · refine hkept.trans ?_
      simp only [hthreads] at hj
      by_cases hij : i = j
      · -- the thread that took the step
        subst hij
        obtain ⟨hlt, -⟩ := List.getElem?_eq_some_iff.mp hops
        rw [List.getElem?_set_self hlt] at hj
        obtain rfl := Option.some.inj hj
        rcases List.mem_append.mp hop' with hfront | hrest
        · exact h i _ hops op List.mem_cons_self (exec_front hfront hlate)
        · exact h i _ hops op' (List.mem_cons_of_mem _ hrest) hlate
      · rw [List.getElem?_set_ne hij] at hj
        exact h j ops' hj op' hop' hlate
    · exact hnew
  · exact h

/-- A call from outside restarts a plugin that was started. -/
theorem late_call {p : CPlugin} {f : Call} {i : ℕ} {op : Op} (h : op ∈ f.ops p)
    (hlate : op.Late i) : p.m_thread = true := by
  cases f with
  | stop =>
    rcases List.mem_append.mp h with hstop | hset
    · exact absurd hlate (not_late_stopHardware hstop)
    · obtain rfl := List.mem_singleton.mp hset
      exact absurd hlate id
  | restartPlugin =>
    obtain rfl := List.mem_singleton.mp h
    exact absurd hlate id
  | restart => exact (List.mem_ite_nil_right.mp h).1

theorem Started.step {s : State} (h : Started s) (e : Event) : Started (step s e) := by
  unfold Restarting.step
  split
  · exact h
  · cases e with
    | run i row c => exact h.runAt i row c
    | message m_Delay => exact h
    | call f =>
      intro i ops hops op hop hlate
      by_cases hlt : i < s.threads.length
      · have hold : s.threads[i]? = some ops := (List.getElem?_append_left hlt).symm.trans hops
        exact h i ops hold op hop hlate
      · obtain rfl : f.ops s.plugin = ops := by
          have hlast := (List.getElem?_append_right (not_lt.mp hlt)).symm.trans hops
          exact List.mem_singleton.mp (List.mem_of_getElem? hlast) |>.symm
        exact late_call hop hlate

/-- In every state that is reached, a thread that can restart the plugin comes behind one in
`m_thread`. -/
theorem started_run (es : List Event) : Started (es.foldl step State.fresh) :=
  run_invariant (fun _ e h => h.step e) started_fresh es

/-! ### The new thread -/

/-- Where a restart puts its thread into `m_thread`, the process ends. -/
theorem terminated_of_newStart {s : State} {e : Event} (h : Started s) (hnew : NewStart s e) :
    (step s e).terminated = true := by
  cases e with
  | run i row c =>
    obtain ⟨halive, hi, hnext⟩ := hnew
    obtain ⟨ops, hops, hhead⟩ := Option.bind_eq_some_iff.mp hnext
    cases ops with
    | nil => cases hhead
    | cons op ops =>
      obtain rfl := Option.some.inj hhead
      have hthread : s.plugin.m_thread = true := h i _ hops .makeThread List.mem_cons_self hi
      have hexec : s.exec row c .makeThread = ({ s with terminated := true }, []) := by
        rw [State.exec, if_pos hthread]
      simp only [Restarting.step, halive, State.handle, State.runAt, hops, hexec]
      rfl
  | call f => exact absurd hnew id
  | message m_Delay => exact absurd hnew id

/-- The process runs, and this is what thread `i` is to do. -/
def At (s : State) (i : ℕ) (ops : List Op) : Prop :=
  s.terminated = false ∧ s.threads[i]? = some ops

theorem At.step_eq {s : State} {i : ℕ} {op : Op} {ops : List Op} (h : At s i (op :: ops))
    (row : Option Bool) (c : Choice) :
    step s (.run i row c) =
      { (s.exec row c op).1 with
        threads := (s.exec row c op).1.threads.set i ((s.exec row c op).2 ++ ops) } := by
  have halive : ¬s.terminated = true := by
    rw [h.1]
    exact Bool.false_ne_true
  rw [step, if_neg halive, State.handle, State.runAt, h.2]

/-- A step that makes no thread and goes on is followed by what it calls. -/
theorem At.step {s : State} {i : ℕ} {op : Op} {ops : List Op} (h : At s i (op :: ops))
    (row : Option Bool) (c : Choice) (hthreads : (s.exec row c op).1.threads = s.threads)
    (halive : (s.exec row c op).1.terminated = s.terminated) :
    At (Restarting.step s (.run i row c)) i ((s.exec row c op).2 ++ ops) := by
  obtain ⟨hlt, -⟩ := List.getElem?_eq_some_iff.mp h.2
  rw [h.step_eq row c]
  refine ⟨halive.trans h.1, ?_⟩
  simp only [hthreads]
  exact List.getElem?_set_self hlt

/-- A thread that is asked to restart the plugin ends the process in six of its own steps. -/
theorem restart_terminates {s : State} (hs : Started s) {i : ℕ} (hi : i ≠ 0) {ops : List Op}
    (h : At s i (.testRestart :: ops)) (hrestart : s.plugin.m_bRestart = true)
    (hstopped : s.plugin.m_bIsStarted = false) (row : Option Bool) (c : Choice) :
    ((List.replicate 6 (.run i row c)).foldl step s).terminated = true := by
  have hcall : (s.exec row c .testRestart).2 = StartHardware ++ [.clearRestart] := if_pos hrestart
  have h₁ := h.step row c rfl rfl
  rw [hcall] at h₁
  -- `Stop` has cleared `m_bIsStarted`, so that nothing is stopped first
  have hnone : ((Restarting.step s (.run i row c)).exec row c .stopFirst).2 = [] := by
    rw [h.step_eq row c]
    exact if_neg (by rw [show (s.exec row c .testRestart).1 = s from rfl, hstopped]; simp)
  have h₂ := h₁.step row c rfl rfl
  rw [hnone] at h₂
  have h₃ := h₂.step row c rfl rfl
  have h₄ := h₃.step row c rfl rfl
  have h₅ := h₄.step row c rfl rfl
  exact terminated_of_newStart (((((hs.step _).step _).step _).step _).step _)
    ⟨h₅.1, hi, by rw [State.next, h₅.2]; rfl⟩

/-- **A restart survives in a run only if none comes to its new thread**: there the process
ends. -/
theorem survives_iff (es : List Event) :
    Survives es ↔
      ∀ done e later, es = done ++ e :: later → ¬NewStart (done.foldl step State.fresh) e := by
  constructor
  · intro h done e later heq hnew
    have halive := (h done e later heq hnew).alive [] List.nil_prefix
    have hend := terminated_of_newStart (started_run done) hnew
    rw [List.foldl_nil, List.foldl_append] at halive
    exact Bool.false_ne_true (halive.symm.trans hend)
  · intro h done e later heq hnew
    exact absurd hnew (h done e later heq)

/-- Steps of thread `i`, of a plugin that is active and whose code succeeds. -/
def stepsOf (i n : ℕ) : List Event := List.replicate n (.run i (some true) ⟨0, true, true⟩)

/-- A plugin is started, restarted with `RestartPlugin`, and comes to `StartHardware` in
`Finalise`. -/
def restarting : List Event :=
  stepsOf 0 7 ++ stepsOf 1 13 ++ .call .restartPlugin :: (stepsOf 2 6 ++ stepsOf 1 13)

theorem restart_ends_process : ¬∀ es, Survives es := by
  intro h
  have hsurvived := h (restarting ++ stepsOf 1 1) restarting (.run 1 (some true) ⟨0, true, true⟩) []
    rfl (by decide)
  exact absurd (hsurvived.alive [] List.nil_prefix) (by decide)

end Domoticz.Restarting
