import Domoticz.Plugin.LifeCycle
import Domoticz.Transition

/-!
# The map of plugins

`CPluginSystem::DatabaseUpdate` registers and starts a plugin when its interface becomes active,
and stops it when it does not stay so.  The thread of a plugin takes it out of the map, much
later.  Entries wait in the queue of `CUpdateManager` until its thread publishes them.

An interface that becomes active while the plugin of its last life is still in the map is not
started any more, or is started but does not get into the map.  A stop that comes before `onStart`
is not queued.  An interface that is deactivated before its `Initialise` ends the process.

## Main definitions

* `Interface` — a row, its plugin and what the publisher does with it.
* `State`, `Event`, `step` — all interfaces, the entries and the publisher.
* `Orderly` — the starts and stops that come at a good time.
* `Follows` — an interface is registered and running if its row is active.

## Main results

* `sound_step` — what holds of every interface.
* `registration_follows` — **in an orderly run registration follows the rows.**
* `reactivated_not_registered` — in others it does not.
-/

namespace Domoticz.Registration

open LifeCycle Transition

/-! ### The entries -/

/-- `CUpdateEntry` for the table `Interface`, with whether its `Active` is `1`. -/
inductive Entry
  | insert (bActive : Bool)
  | update (bActive : Bool)
  | delete
  deriving DecidableEq, Repr

/-- The row that an entry tells of. -/
def Entry.row : Entry → Option Bool
  | .insert bActive | .update bActive => some bActive
  | .delete => none

/-- The entry of a write to the row. -/
def entryOf : Option Bool → Option Bool → Option Entry
  | none, none => none
  | none, some bActive => some (.insert bActive)
  | some _, some bActive => some (.update bActive)
  | some _, none => some .delete

/-! ### One interface -/

/-- What the publisher is about to do in `Start` or `Stop`. -/
inductive Publisher
  | idle
  /-- In `StartHardware`, at `MessagePlugin(new InitializeMessage(this))`. -/
  | queueStart
  /-- In `Start`, at `m_bIsStarted = StartHardware()`. -/
  | setStarted
  /-- The same two, for a plugin that did not get into the map. -/
  | queueOther
  | setOther
  /-- In `StopHardware`, at `while (m_bIsStarting)`. -/
  | waiting
  /-- In `StopHardware`, at `if (m_bIsStarted)`. -/
  | testStarted
  /-- In `StopHardware`, at `MessagePlugin(new onStopCallback(this))`. -/
  | queueStop
  /-- In `StopHardware`, at `m_bIsStopping = true`. -/
  | setStopping
  /-- In `Stop`, at `m_bIsStarted = !StopHardware()`. -/
  | clearStarted
  deriving DecidableEq, Repr

/-- A row of the table, with the plugin that was the last to get into the map for it. -/
structure Interface where
  /-- The `Active` column, in the database. -/
  row : Option Bool
  /-- The same, as the entries that were published tell. -/
  last : Option Bool
  /-- `m_pPlugins.count(InterfaceID)`. -/
  registered : Bool
  plugin : Plugin
  thread : Thread
  publisher : Publisher
  /-- The plugins of the row that are not in the map, the last one first. -/
  others : List (Plugin × Thread)
  deriving DecidableEq, Repr

namespace Interface

/-- `RegisterPlugin`, and `Start` up to the new thread. -/
def RegisterPlugin (x : Interface) : Interface :=
  { x with
    registered := true
    plugin := { m_bIsStarting := true }
    thread := .top
    publisher := .queueStart
    others := (x.plugin, x.thread) :: x.others }

/-- The same where the map has a plugin: `insert` leaves it there. -/
def RegisterOther (x : Interface) : Interface :=
  { x with publisher := .queueOther, others := ({ m_bIsStarting := true }, .top) :: x.others }

/-- `DatabaseUpdate`, up to the first step of `Start` or `Stop`. -/
def DatabaseUpdate (x : Interface) (e : Entry) : Interface :=
  let x := { x with last := e.row }
  match e with
  | .insert true => if x.registered then x.RegisterOther else x.RegisterPlugin
  | .insert false => x
  | .update true =>
      if x.registered then { x with plugin := x.plugin.MessagePlugin (.other false) }
      else x.RegisterPlugin
  | .update false | .delete => if x.registered then { x with publisher := .waiting } else x

/-- A step of the publisher in `Start` or `Stop`. -/
def publish (x : Interface) : Interface :=
  match x.publisher with
  | .idle => x
  | .queueStart =>
      { x with plugin := x.plugin.MessagePlugin .initializeMessage, publisher := .setStarted }
  | .setStarted => { x with plugin := { x.plugin with m_bIsStarted := true }, publisher := .idle }
  | .queueOther =>
      { x with
        others := x.others.modifyHead fun y => (y.1.MessagePlugin .initializeMessage, y.2)
        publisher := .setOther }
  | .setOther =>
      { x with
        others := x.others.modifyHead fun y => ({ y.1 with m_bIsStarted := true }, y.2)
        publisher := .idle }
  | .waiting => if x.plugin.m_bIsStarting then x else { x with publisher := .testStarted }
  | .testStarted =>
      { x with publisher := if x.plugin.m_bIsStarted then .queueStop else .clearStarted }
  | .queueStop => { x with plugin := x.plugin.MessagePlugin .onStop, publisher := .setStopping }
  | .setStopping =>
      { x with plugin := { x.plugin with m_bIsStopping := true }, publisher := .clearStarted }
  | .clearStarted =>
      { x with plugin := { x.plugin with m_bIsStarted := false }, publisher := .idle }

/-- A step of the plugin's thread. -/
def work (x : Interface) (c : Choice) : Interface :=
  let (plugin, thread) := LifeCycle.work x.row c x.plugin x.thread
  { x with plugin, thread, registered := x.registered && x.thread != .deregister }

/-- A step of the thread of a plugin that is not in the map.  It too takes the id out of it. -/
def workOther (x : Interface) (i : ℕ) (c : Choice) : Interface :=
  match x.others[i]? with
  | none => x
  | some (plugin, thread) =>
      { x with
        others := x.others.set i (LifeCycle.work x.row c plugin thread)
        registered := x.registered && thread != .deregister }

/-- A thread has ended the process. -/
def aborted (x : Interface) : Bool :=
  x.thread == .aborted || x.others.any fun y => y.2 == .aborted

/-- Another thread has a message for the plugin. -/
def message (x : Interface) (m_Delay : Bool) : Interface :=
  if x.registered then { x with plugin := x.plugin.MessagePlugin (.other m_Delay) } else x

/-- The messages of a start-up that are on their way. -/
def starts (x : Interface) : ℕ :=
  x.plugin.starts x.thread + if x.publisher = .queueStart then 1 else 0

/-- The plugin was told to stop. -/
def Asked (x : Interface) : Prop := x.plugin.m_bIsStopping = true ∨ x.publisher = .setStopping

/-- The plugin is in its loop and has its interpreter. -/
def Running (x : Interface) : Prop :=
  x.plugin.m_PyInterpreter = true ∧ x.plugin.m_bIsStarted = true ∧ x.thread.leaving = false

instance (x : Interface) : Decidable x.Running := inferInstanceAs (Decidable (_ ∧ _ ∧ _))

end Interface

/-! ### All interfaces -/

/-- The plugin system. -/
structure State where
  interfaces : ℕ → Interface
  /-- The entries that were not published yet, with their ids. -/
  entries : List (ℕ × Entry)
  /-- The interface that the publisher is starting or stopping. -/
  publishing : Option ℕ
  /-- The process is over. -/
  aborted : Bool

/-- What can happen next. -/
inductive Event
  /-- The row of an interface is written. -/
  | write (id : ℕ) (row : Option Bool)
  /-- The publisher takes a step. -/
  | publish
  | message (id : ℕ) (m_Delay : Bool)
  /-- The thread of a plugin takes a step. -/
  | work (id : ℕ) (c : Choice)
  /-- The thread of a plugin that is not in the map takes a step. -/
  | workOther (id i : ℕ) (c : Choice)
  deriving DecidableEq, Repr

/-- An interface has changed. -/
def State.set (s : State) (id : ℕ) (x : Interface) : State :=
  { s with interfaces := Function.update s.interfaces id x }

/-- After a step of a plugin's thread. -/
def State.workAt (s : State) (id : ℕ) (x : Interface) : State :=
  { s.set id x with aborted := x.aborted }

/-- After a step of the publisher. -/
def State.publishAt (s : State) (id : ℕ) (x : Interface) : State :=
  { s.set id x with publishing := if x.publisher = .idle then none else some id }

/-- An event, while the process runs. -/
def State.handle (s : State) : Event → State
  | .write id row =>
      match entryOf (s.interfaces id).row row with
      | none => s
      | some e => { s.set id { s.interfaces id with row } with entries := s.entries ++ [(id, e)] }
  | .publish =>
      match s.publishing, s.entries with
      | some id, _ => s.publishAt id (s.interfaces id).publish
      | none, [] => s
      | none, (id, e) :: entries =>
          { s with entries }.publishAt id ((s.interfaces id).DatabaseUpdate e)
  | .message id m_Delay => s.set id ((s.interfaces id).message m_Delay)
  | .work id c => s.workAt id ((s.interfaces id).work c)
  | .workOther id i c => s.workAt id ((s.interfaces id).workOther i c)

/-- An event; nothing happens in a process that is over. -/
def step (s : State) (e : Event) : State := if s.aborted then s else s.handle e

/-- The interfaces that were active when the system was started run. -/
def State.initial (rows : ℕ → Option Bool) : State where
  interfaces id :=
    if rows id = some true then
      ⟨rows id, rows id, true, { m_bIsStarted := true, m_PyInterpreter := true }, .top, .idle, []⟩
    else ⟨rows id, rows id, false, {}, .ended, .idle, []⟩
  entries := []
  publishing := none
  aborted := false

/-! ### What the map is for -/

/-- All events of an interface are handled, and its start and stop are over. -/
structure Settled (s : State) (id : ℕ) : Prop where
  handled : ∀ e ∈ s.entries, e.1 ≠ id
  idle : (s.interfaces id).publisher = .idle
  started : (s.interfaces id).registered = true → (s.interfaces id).starts = 0
  stopped : (s.interfaces id).registered = true → (s.interfaces id).plugin.m_bIsStopping = false

/-- An interface is registered and running exactly if its row is active. -/
def Follows (s : State) : Prop :=
  ∀ id, Settled s id →
    (s.aborted = false ∧ (s.interfaces id).registered = true ∧ (s.interfaces id).Running ↔
      (s.interfaces id).row = some true)

/-- An interface that becomes active is not registered. -/
def Interface.CanStart (x : Interface) (e : Entry) : Prop :=
  e.row = some true → x.last ≠ some true → x.registered = false

/-- A plugin that is to be stopped has had its `onStart`, or is being stopped already. -/
def Interface.CanStop (x : Interface) : Prop :=
  x.publisher = .testStarted → x.plugin.m_bIsStarted = true ∨ x.plugin.m_bIsStopping = true

/-- An interface is active when its plugin is initialised, and its script can be loaded. -/
def Interface.CanInitialise (x : Interface) (c : Choice) : Prop :=
  x.thread = .select → x.row = some true ∧ c.succeeds = true

instance (x : Interface) (e : Entry) : Decidable (x.CanStart e) :=
  inferInstanceAs (Decidable (_ → _ → _))

instance (x : Interface) : Decidable x.CanStop := inferInstanceAs (Decidable (_ → _))

instance (x : Interface) (c : Choice) : Decidable (x.CanInitialise c) :=
  inferInstanceAs (Decidable (_ → _))

/-- What the publisher starts or stops can be. -/
def CanPublish (interfaces : ℕ → Interface) : Option ℕ → List (ℕ × Entry) → Prop
  | some id, _ => (interfaces id).CanStop
  | none, [] => True
  | none, (id, e) :: _ => (interfaces id).CanStart e

instance (interfaces : ℕ → Interface) : (publishing : Option ℕ) →
    (entries : List (ℕ × Entry)) → Decidable (CanPublish interfaces publishing entries)
  | some id, _ => inferInstanceAs (Decidable (interfaces id).CanStop)
  | none, [] => .isTrue trivial
  | none, (id, e) :: _ => inferInstanceAs (Decidable ((interfaces id).CanStart e))

/-- The step starts and stops plugins at a good time. -/
def Orderly (s : State) : Event → Prop
  | .publish => CanPublish s.interfaces s.publishing s.entries
  | .work id c => (s.interfaces id).CanInitialise c
  | _ => True

instance (s : State) : (e : Event) → Decidable (Orderly s e)
  | .publish => inferInstanceAs (Decidable (CanPublish _ _ _))
  | .work id c => inferInstanceAs (Decidable ((s.interfaces id).CanInitialise c))
  | .write _ _ => .isTrue trivial
  | .message _ _ => .isTrue trivial
  | .workOther _ _ _ => .isTrue trivial

/-! ### The entries lead to the row -/

/-- The entries lead from one row to another; only a row that is not there is inserted. -/
def Leads : Option Bool → List Entry → Option Bool → Prop
  | row, [], row' => row = row'
  | row, e :: es, row' => ((∃ bActive, e = .insert bActive) → row = none) ∧ Leads e.row es row'

theorem row_entryOf {old new : Option Bool} {e : Entry} (h : entryOf old new = some e) :
    e.row = new ∧ ((∃ bActive, e = .insert bActive) → old = none) := by
  cases old <;> cases new <;> cases h
  · exact ⟨rfl, fun _ => rfl⟩
  · exact ⟨rfl, fun ⟨_, h⟩ => by cases h⟩
  · exact ⟨rfl, fun ⟨_, h⟩ => by cases h⟩

theorem Leads.append {row old new : Option Bool} {es : List Entry} {e : Entry}
    (h : Leads row es old) (he : entryOf old new = some e) : Leads row (es ++ [e]) new := by
  induction es generalizing row with
  | nil =>
    obtain rfl : row = old := h
    exact ⟨(row_entryOf he).2, (row_entryOf he).1⟩
  | cons _ es ih => exact ⟨h.1, ih h.2⟩

/-! ### The messages of a start-up -/

theorem starts_message {p : Plugin} {t : Thread} (m : Message) :
    (p.MessagePlugin m).starts t = p.starts t + m.isStart.toNat := by
  unfold Plugin.starts Plugin.MessagePlugin
  rw [List.countP_append, List.countP_singleton]
  cases m.isStart <;> simp
  omega

/-- A message that is taken out stays on its way. -/
theorem starts_taken {p : Plugin} {m : Message} {rest : List Message}
    (h : (m :: rest).Perm p.m_MessageQueue) :
    ({ p with m_MessageQueue := rest } : Plugin).starts (.taken m) = p.starts .scan := by
  unfold Plugin.starts
  rw [← h.countP_eq, List.countP_cons]
  show _ + m.isStart.toNat = _ + 0
  cases m.isStart <;> simp

/-! ### The invariant -/

/-- What holds of the thread of a plugin that is in the map. -/
structure InLoop (x : Interface) : Prop where
  alive : x.thread ≠ .clearStarting ∧ x.thread ≠ .clearStopping ∧ x.thread ≠ .ended ∧
    x.thread ≠ .aborted
  starts_le : x.starts ≤ 1
  /-- `Initialise` will not be dropped. -/
  initializes : .initializeMessage ∈ x.plugin.m_MessageQueue ∨
    x.thread = .taken .initializeMessage ∨ x.thread = .select ∨ x.publisher = .queueStart →
      x.plugin.m_bIsStarting = true ∨ x.plugin.m_PyInterpreter = true
  /-- Nor will `Start`. -/
  onStart : .onStart ∈ x.plugin.m_MessageQueue ∨ x.thread = .taken .onStart ∨
    x.thread = .loaded ∨ x.thread = .startFailed ∨ x.thread = .initialised →
      x.plugin.m_PyInterpreter = true
  /-- A plugin that is not being started has its interpreter until it leaves. -/
  started : x.starts = 0 → x.thread ≠ .deregister → x.plugin.m_PyInterpreter = true
  leaves : x.plugin.stopRequested = true ∨ x.thread.leaving = true →
    x.plugin.m_bIsStopping = true ∧ x.starts = 0

/-- What holds of a plugin that is in the map. -/
structure Kept (x : Interface) : Prop extends InLoop x where
  waited : x.publisher = .testStarted ∨ x.publisher = .queueStop ∨ x.publisher = .setStopping ∨
    x.publisher = .clearStarted → x.plugin.m_bIsStarting = false
  told : .onStop ∈ x.plugin.m_MessageQueue ∨ x.thread = .taken .onStop → x.Asked
  /-- A plugin is told to stop only if its row is not active. -/
  asked : x.Asked → x.last ≠ some true
  /-- Then it is told to, or will be. -/
  inactive : x.last ≠ some true →
    x.Asked ∨ x.publisher = .waiting ∨ x.publisher = .testStarted ∨ x.publisher = .queueStop
  runs : x.starts = 0 → x.Asked ∨ x.plugin.m_bIsStarted = true

/-- What holds of the plugins that are not in the map: they have left it. -/
structure Left (x : Interface) : Prop where
  last : x.registered = false → x.thread.gone = true
  others : ∀ y ∈ x.others, y.2.gone = true
  publisher : x.publisher ≠ .queueOther ∧ x.publisher ≠ .setOther

/-- What holds of an interface with the entries that are to come. -/
structure Inv (x : Interface) (pending : List Entry) : Prop where
  leads : Leads x.last pending x.row
  registered : x.last = some true → x.registered = true
  starting : x.publisher = .queueStart ∨ x.publisher = .setStarted → x.last = some true
  stopping : x.publisher = .waiting ∨ x.publisher = .testStarted ∨ x.publisher = .queueStop ∨
    x.publisher = .setStopping ∨ x.publisher = .clearStarted → x.last ≠ some true
  kept : x.registered = true → Kept x
  left : Left x

/-! ### What the steps keep -/

theorem Inv.write {x : Interface} {pending : List Entry} {row : Option Bool} {e : Entry}
    (h : Inv x pending) (he : entryOf x.row row = some e) :
    Inv { x with row } (pending ++ [e]) where
  leads := h.leads.append he
  registered := h.registered
  starting := h.starting
  stopping := h.stopping
  kept hreg := { h.kept hreg with }
  left := { h.left with }

/-- Another thread does not disturb the one of the plugin. -/
theorem InLoop.of_same {x x' : Interface} (h : InLoop x) (hthread : x'.thread = x.thread)
    (hstarts : x'.starts = x.starts)
    (hqueue : ∀ m, m.isStart = true → m ∈ x'.plugin.m_MessageQueue →
      m ∈ x.plugin.m_MessageQueue ∨ x.publisher = .queueStart ∧ m = .initializeMessage)
    (hpublisher : x'.publisher = .queueStart → x.publisher = .queueStart)
    (hstarting : x'.plugin.m_bIsStarting = x.plugin.m_bIsStarting)
    (hpy : x'.plugin.m_PyInterpreter = x.plugin.m_PyInterpreter)
    (hstopping : x.plugin.m_bIsStopping = true → x'.plugin.m_bIsStopping = true)
    (hrequest : x'.plugin.stopRequested = x.plugin.stopRequested) : InLoop x' where
  alive := hthread ▸ h.alive
  starts_le := hstarts ▸ h.starts_le
  initializes := by
    rw [hstarting, hpy, hthread]
    rintro (hin | ht | ht | hp)
    · rcases hqueue _ rfl hin with hin | ⟨hp, -⟩
      · exact h.initializes (.inl hin)
      · exact h.initializes (.inr (.inr (.inr hp)))
    · exact h.initializes (.inr (.inl ht))
    · exact h.initializes (.inr (.inr (.inl ht)))
    · exact h.initializes (.inr (.inr (.inr (hpublisher hp))))
  onStart := by
    rw [hpy, hthread]
    rintro (hin | ht)
    · rcases hqueue _ rfl hin with hin | ⟨-, hm⟩
      · exact h.onStart (.inl hin)
      · cases hm
    · exact h.onStart (.inr ht)
  started := by
    rw [hpy, hthread, hstarts]
    exact h.started
  leaves := by
    rw [hrequest, hthread, hstarts]
    intro hleaves
    exact (h.leaves hleaves).imp_left hstopping

/-- A message that has nothing to do with starts and stops changes nothing. -/
theorem Kept.message {x : Interface} (h : Kept x) (m_Delay : Bool) :
    Kept { x with plugin := x.plugin.MessagePlugin (.other m_Delay) } := by
  have hstarts : Interface.starts { x with plugin := x.plugin.MessagePlugin (.other m_Delay) } =
      x.starts := congrArg (· + _) (starts_message _)
  have hqueue (m : Message) (hm : m.isStart = true)
      (hin : m ∈ x.plugin.m_MessageQueue ++ [.other m_Delay]) : m ∈ x.plugin.m_MessageQueue := by
    rcases List.mem_append.mp hin with hin | hin
    · exact hin
    · rw [List.mem_singleton.mp hin] at hm
      cases hm
  exact
    { toInLoop := h.toInLoop.of_same rfl hstarts (fun m hm hin => .inl (hqueue m hm hin)) id rfl
        rfl id rfl
      waited := h.waited
      told := by
        rintro (hin | ht)
        · rcases List.mem_append.mp hin with hin | hin
          · exact h.told (.inl hin)
          · cases List.mem_singleton.mp hin
        · exact h.told (.inr ht)
      asked := h.asked
      inactive := h.inactive
      runs := fun hnone => h.runs (hstarts ▸ hnone) }

theorem Inv.message {x : Interface} {pending : List Entry} (h : Inv x pending) (m_Delay : Bool) :
    Inv (x.message m_Delay) pending := by
  unfold Interface.message
  split
  · exact { h with kept := fun hreg => (h.kept hreg).message m_Delay, left := { h.left with } }
  · exact h

/-! ### The publisher -/

/-- A plugin that was just registered. -/
theorem kept_registerPlugin {x : Interface} (h : x.last = some true) :
    Kept x.RegisterPlugin where
  alive := by simp [Interface.RegisterPlugin]
  starts_le := le_refl _
  initializes _ := .inl rfl
  onStart hin := by rcases hin with hin | hin | hin | hin | hin <;> cases hin
  started hnone := by cases hnone
  leaves ht := by rcases ht with ht | ht <;> cases ht
  waited hp := by rcases hp with hp | hp | hp | hp <;> cases hp
  told hin := by rcases hin with hin | hin <;> cases hin
  asked hasked := by rcases hasked with hasked | hasked <;> cases hasked
  inactive hlast := absurd h hlast
  runs hnone := by cases hnone

theorem inv_registerPlugin {x : Interface} {pending : List Entry} (h : x.last = some true)
    (hleads : Leads x.last pending x.row) (hleft : Left x) (hreg : x.registered = false) :
    Inv x.RegisterPlugin pending where
  leads := hleads
  registered _ := rfl
  starting _ := h
  stopping hp := by rcases hp with hp | hp | hp | hp | hp <;> cases hp
  kept _ := kept_registerPlugin h
  left :=
    { last := fun hno => by cases hno
      others := List.forall_mem_cons.mpr ⟨hleft.last hreg, hleft.others⟩
      publisher := by simp [Interface.RegisterPlugin] }

/-- A plugin is found in the map by an entry whose row is not active. -/
theorem Kept.waiting {x : Interface} {last : Option Bool} (h : Kept x)
    (hidle : x.publisher = .idle) (hlast : last ≠ some true) :
    Kept { x with last, publisher := .waiting } := by
  have hstarts : Interface.starts { x with last, publisher := .waiting } = x.starts := by
    simp [Interface.starts, hidle]
  exact
    { toInLoop := h.toInLoop.of_same rfl hstarts (fun _ _ hin => .inl hin)
        (fun hp => by cases hp) rfl rfl id rfl
      waited := fun hp => by rcases hp with hp | hp | hp | hp <;> cases hp
      told := fun hin => by simpa [Interface.Asked, hidle] using h.told hin
      asked := fun _ => hlast
      inactive := fun _ => .inr (.inl rfl)
      runs := fun hnone => by
        rcases h.runs (hstarts ▸ hnone) with (hasked | hp) | hstarted
        · exact .inl (.inl hasked)
        · rw [hidle] at hp
          cases hp
        · exact .inr hstarted }

/-- An entry is published. -/
theorem Inv.databaseUpdate {x : Interface} {pending : List Entry} {e : Entry}
    (h : Inv x (e :: pending)) (hidle : x.publisher = .idle) (hstart : x.CanStart e) :
    Inv (x.DatabaseUpdate e) pending := by
  obtain ⟨hinsert, hleads⟩ := h.leads
  -- the row was not active, and is not
  have hinactive (hrow : e.row ≠ some true) (hlast : x.last ≠ some true) :
      Inv { x with last := e.row } pending :=
    { leads := hleads
      registered := fun hact => absurd hact hrow
      starting := fun hp => absurd (h.starting hp) hlast
      stopping := fun _ => hrow
      kept := fun hreg =>
        { h.kept hreg with
          asked := fun _ => hrow
          inactive := fun _ => (h.kept hreg).inactive hlast }
      left := { h.left with } }
  have hstop (hrow : e.row ≠ some true) :
      Inv (if x.registered then { x with last := e.row, publisher := .waiting }
        else { x with last := e.row }) pending := by
    by_cases hreg : x.registered = true
    · rw [if_pos hreg]
      exact
        { leads := hleads
          registered := fun hact => absurd hact hrow
          starting := fun hp => by rcases hp with hp | hp <;> cases hp
          stopping := fun _ => hrow
          kept := fun _ => (h.kept hreg).waiting hidle hrow
          left := { h.left with publisher := by simp } }
    · rw [if_neg hreg]
      exact hinactive hrow fun hlast => hreg (h.registered hlast)
  cases e with
  | insert bActive =>
    have hlast : x.last ≠ some true := by
      rw [hinsert ⟨bActive, rfl⟩]
      simp
    cases bActive with
    | false => exact hinactive (by simp [Entry.row]) hlast
    | true =>
      have hreg := hstart rfl hlast
      have hregister : x.DatabaseUpdate (.insert true) =
          Interface.RegisterPlugin { x with last := some true } :=
        if_neg (by rw [hreg]; simp)
      rw [hregister]
      exact inv_registerPlugin rfl hleads { h.left with } hreg
  | update bActive =>
    cases bActive with
    | false => exact hstop (by simp [Entry.row])
    | true =>
      by_cases hreg : x.registered = true
      · have hmessage : x.DatabaseUpdate (.update true) =
            { x with last := some true, plugin := x.plugin.MessagePlugin (.other false) } :=
          if_pos hreg
        rw [hmessage]
        -- the row was active before
        have hlast : x.last = some true := by
          by_contra hne
          rw [hstart rfl hne] at hreg
          cases hreg
        have hkept : Kept { x with last := some true } :=
          { h.kept hreg with
            asked := fun hasked => absurd hlast ((h.kept hreg).asked hasked)
            inactive := fun hne => absurd rfl hne }
        exact
          { leads := hleads
            registered := fun _ => hreg
            starting := fun _ => rfl
            stopping := fun hp => absurd hlast (h.stopping hp)
            kept := fun _ => hkept.message false
            left := { h.left with } }
      · have hregister : x.DatabaseUpdate (.update true) =
            Interface.RegisterPlugin { x with last := some true } := if_neg hreg
        rw [hregister]
        exact inv_registerPlugin rfl hleads { h.left with } (Bool.eq_false_of_not_eq_true hreg)
  | delete => exact hstop (by simp [Entry.row])

/-- The publisher queues `InitializeMessage`. -/
theorem Kept.queueStart {x : Interface} (h : Kept x) (hp : x.publisher = .queueStart)
    (hlast : x.last = some true) :
    Kept { x with
      plugin := x.plugin.MessagePlugin .initializeMessage, publisher := .setStarted } := by
  have hstarts : Interface.starts { x with
      plugin := x.plugin.MessagePlugin .initializeMessage, publisher := .setStarted } =
      x.starts := by
    simp [Interface.starts, starts_message, hp, Message.isStart]
  have hqueue (m : Message) (hin : m ∈ x.plugin.m_MessageQueue ++ [.initializeMessage]) :
      m ∈ x.plugin.m_MessageQueue ∨ x.publisher = .queueStart ∧ m = .initializeMessage :=
    (List.mem_append.mp hin).imp_right fun hm => ⟨hp, List.mem_singleton.mp hm⟩
  exact
    { toInLoop := h.toInLoop.of_same rfl hstarts (fun m _ hin => hqueue m hin)
        (fun hp => by cases hp) rfl rfl id rfl
      waited := fun hp => by rcases hp with hp | hp | hp | hp <;> cases hp
      told := by
        intro hin
        have hold := h.told (by simpa [Plugin.MessagePlugin] using hin)
        simpa [Interface.Asked, hp, Plugin.MessagePlugin] using hold
      asked := fun hasked => by
        rcases hasked with hasked | hasked
        · exact h.asked (.inl hasked)
        · cases hasked
      inactive := fun hne => absurd hlast hne
      runs := fun hnone => by
        rcases h.runs (hstarts ▸ hnone) with hasked | hstarted
        · exact absurd hlast (h.asked hasked)
        · exact .inr hstarted }

/-- A step that leaves the queue as it is, and `m_bIsStarted` and `m_bIsStopping` if they are
set, as far as anything depends on them. -/
theorem Kept.of_flags {x : Interface} (h : Kept x) {started stopping : Bool}
    {publisher : Publisher} (hold : x.publisher ≠ .queueStart)
    (hnew : publisher ≠ .queueStart)
    (hstopping : x.plugin.m_bIsStopping = true → stopping = true)
    (hwaited : publisher = .testStarted ∨ publisher = .queueStop ∨ publisher = .setStopping ∨
      publisher = .clearStarted → x.plugin.m_bIsStarting = false)
    (hasked : x.Asked ↔ stopping = true ∨ publisher = .setStopping)
    (hinactive : x.last ≠ some true → x.Asked ∨ publisher = .waiting ∨ publisher = .testStarted ∨
      publisher = .queueStop)
    (hruns : x.plugin.m_bIsStarted = true → x.Asked ∨ started = true) :
    Kept { x with
      plugin := { x.plugin with m_bIsStarted := started, m_bIsStopping := stopping }
      publisher } := by
  have hstarts : Interface.starts { x with
      plugin := { x.plugin with m_bIsStarted := started, m_bIsStopping := stopping }
      publisher } = x.starts := by
    simp [Interface.starts, Plugin.starts, hold, hnew]
  exact
    { toInLoop := h.toInLoop.of_same rfl hstarts (fun _ _ hin => .inl hin)
        (fun hp => absurd hp hnew) rfl rfl hstopping rfl
      waited := hwaited
      told := fun hin => hasked.mp (h.told hin)
      asked := fun hnow => h.asked (hasked.mpr hnow)
      inactive := fun hlast => (hinactive hlast).imp_left hasked.mp
      runs := fun hnone => by
        rw [hstarts] at hnone
        rcases h.runs hnone with hnow | hstarted
        · exact .inl (hasked.mp hnow)
        · exact (hruns hstarted).imp_left hasked.mp }

/-- The publisher queues `onStop`. -/
theorem Kept.queueStop {x : Interface} (h : Kept x) (hp : x.publisher = .queueStop)
    (hlast : x.last ≠ some true) :
    Kept { x with plugin := x.plugin.MessagePlugin .onStop, publisher := .setStopping } := by
  have hstarts : Interface.starts { x with
      plugin := x.plugin.MessagePlugin .onStop, publisher := .setStopping } = x.starts := by
    simp [Interface.starts, starts_message, hp, Message.isStart]
  have hqueue (m : Message) (hm : m.isStart = true)
      (hin : m ∈ x.plugin.m_MessageQueue ++ [.onStop]) : m ∈ x.plugin.m_MessageQueue := by
    rcases List.mem_append.mp hin with hin | hin
    · exact hin
    · rw [List.mem_singleton.mp hin] at hm
      cases hm
  exact
    { toInLoop := h.toInLoop.of_same rfl hstarts (fun m hm hin => .inl (hqueue m hm hin))
        (fun hp => by cases hp) rfl rfl id rfl
      waited := fun _ => h.waited (.inr (.inl hp))
      told := fun _ => .inr rfl
      asked := fun _ => hlast
      inactive := fun _ => .inl (.inr rfl)
      runs := fun _ => .inl (.inr rfl) }

/-- The publisher takes a step in `Start` or `Stop`. -/
theorem Inv.publish {x : Interface} {pending : List Entry} (h : Inv x pending)
    (hstop : x.CanStop) : Inv x.publish pending := by
  cases hp : x.publisher with
  | idle =>
    have hstep : x.publish = x := by
      unfold Interface.publish
      rw [hp]
    rw [hstep]
    exact h
  | queueStart =>
    have hlast := h.starting (.inl hp)
    have hstep : x.publish = { x with
        plugin := x.plugin.MessagePlugin .initializeMessage, publisher := .setStarted } := by
      unfold Interface.publish
      rw [hp]
    rw [hstep]
    exact
      { leads := h.leads
        registered := h.registered
        starting := fun _ => hlast
        stopping := fun hp => by rcases hp with hp | hp | hp | hp | hp <;> cases hp
        kept := fun hreg => (h.kept hreg).queueStart hp hlast
        left := { h.left with publisher := by simp } }
  | setStarted =>
    have hlast := h.starting (.inr hp)
    have hstep : x.publish = { x with
        plugin := { x.plugin with m_bIsStarted := true }, publisher := .idle } := by
      unfold Interface.publish
      rw [hp]
    rw [hstep]
    exact
      { leads := h.leads
        registered := h.registered
        starting := fun hp => by rcases hp with hp | hp <;> cases hp
        stopping := fun hp => by rcases hp with hp | hp | hp | hp | hp <;> cases hp
        kept := fun hreg => (h.kept hreg).of_flags (by simp [hp]) (by simp) id (by simp)
          (by simp [Interface.Asked, hp]) (fun hne => absurd hlast hne) fun _ => .inr rfl
        left := { h.left with publisher := by simp } }
  | queueOther => exact absurd hp h.left.publisher.1
  | setOther => exact absurd hp h.left.publisher.2
  | waiting =>
    have hlast := h.stopping (.inl hp)
    by_cases hstarting : x.plugin.m_bIsStarting = true
    · have hstep : x.publish = x := by
        unfold Interface.publish
        rw [hp]
        exact if_pos hstarting
      rw [hstep]
      exact h
    · have hstep : x.publish = { x with publisher := .testStarted } := by
        unfold Interface.publish
        rw [hp]
        exact if_neg hstarting
      rw [hstep]
      exact
        { leads := h.leads
          registered := h.registered
          starting := fun hp => by rcases hp with hp | hp <;> cases hp
          stopping := fun _ => hlast
          kept := fun hreg => (h.kept hreg).of_flags (by simp [hp]) (by simp) id
            (fun _ => Bool.eq_false_of_not_eq_true hstarting) (by simp [Interface.Asked, hp])
            (fun _ => .inr (.inr (.inl rfl))) .inr
          left := { h.left with publisher := by simp } }
  | testStarted =>
    have hlast := h.stopping (.inr (.inl hp))
    by_cases hstarted : x.plugin.m_bIsStarted = true
    · have hstep : x.publish = { x with publisher := .queueStop } := by
        unfold Interface.publish
        rw [hp]
        simp [hstarted]
      rw [hstep]
      exact
        { leads := h.leads
          registered := h.registered
          starting := fun hp => by rcases hp with hp | hp <;> cases hp
          stopping := fun _ => hlast
          kept := fun hreg => (h.kept hreg).of_flags (by simp [hp]) (by simp) id
            (fun _ => (h.kept hreg).waited (.inl hp)) (by simp [Interface.Asked, hp])
            (fun _ => .inr (.inr (.inr rfl))) .inr
          left := { h.left with publisher := by simp } }
    · have hstep : x.publish = { x with publisher := .clearStarted } := by
        unfold Interface.publish
        rw [hp]
        simp [hstarted]
      rw [hstep]
      -- the plugin is being stopped already
      have hnow : x.Asked := .inl ((hstop hp).resolve_left hstarted)
      exact
        { leads := h.leads
          registered := h.registered
          starting := fun hp => by rcases hp with hp | hp <;> cases hp
          stopping := fun _ => hlast
          kept := fun hreg => (h.kept hreg).of_flags (by simp [hp]) (by simp) id
            (fun _ => (h.kept hreg).waited (.inl hp)) (by simp [Interface.Asked, hp])
            (fun _ => .inl hnow) .inr
          left := { h.left with publisher := by simp } }
  | queueStop =>
    have hlast := h.stopping (.inr (.inr (.inl hp)))
    have hstep : x.publish = { x with
        plugin := x.plugin.MessagePlugin .onStop, publisher := .setStopping } := by
      unfold Interface.publish
      rw [hp]
    rw [hstep]
    exact
      { leads := h.leads
        registered := h.registered
        starting := fun hp => by rcases hp with hp | hp <;> cases hp
        stopping := fun _ => hlast
        kept := fun hreg => (h.kept hreg).queueStop hp hlast
        left := { h.left with publisher := by simp } }
  | setStopping =>
    have hlast := h.stopping (.inr (.inr (.inr (.inl hp))))
    have hstep : x.publish = { x with
        plugin := { x.plugin with m_bIsStopping := true }, publisher := .clearStarted } := by
      unfold Interface.publish
      rw [hp]
    rw [hstep]
    exact
      { leads := h.leads
        registered := h.registered
        starting := fun hp => by rcases hp with hp | hp <;> cases hp
        stopping := fun _ => hlast
        kept := fun hreg => (h.kept hreg).of_flags (by simp [hp]) (by simp) (fun _ => rfl)
          (fun _ => (h.kept hreg).waited (.inr (.inr (.inl hp)))) (by simp [Interface.Asked, hp])
          (fun _ => .inl (.inr hp)) .inr
        left := { h.left with publisher := by simp } }
  | clearStarted =>
    have hlast := h.stopping (.inr (.inr (.inr (.inr hp))))
    have hstep : x.publish = { x with
        plugin := { x.plugin with m_bIsStarted := false }, publisher := .idle } := by
      unfold Interface.publish
      rw [hp]
    rw [hstep]
    have hnow (hreg : x.registered = true) : x.Asked := by
      simpa [hp] using (h.kept hreg).inactive hlast
    exact
      { leads := h.leads
        registered := h.registered
        starting := fun hp => by rcases hp with hp | hp <;> cases hp
        stopping := fun hp => by rcases hp with hp | hp | hp | hp | hp <;> cases hp
        kept := fun hreg => (h.kept hreg).of_flags (by simp [hp]) (by simp) id (by simp)
          (by simp [Interface.Asked, hp])
          (fun _ => .inl (hnow hreg)) fun _ => .inl (hnow hreg)
        left := { h.left with publisher := by simp } }

/-! ### The thread of the plugin -/

theorem work_eq {x : Interface} {c : Choice} {plugin : Plugin} {thread : Thread}
    (h : LifeCycle.work x.row c x.plugin x.thread = (plugin, thread))
    (ht : x.thread ≠ .deregister) : x.work c = { x with plugin, thread } := by
  unfold Interface.work
  simp [h, ht]

/-- What a step of the thread must keep. -/
theorem Kept.of_work {x : Interface} {plugin : Plugin} {thread : Thread} (h : Kept x)
    (hloop : InLoop { x with plugin, thread })
    (hwaited : x.plugin.m_bIsStarting = false → plugin.m_bIsStarting = false)
    (htold : .onStop ∈ plugin.m_MessageQueue ∨ thread = .taken .onStop → x.Asked)
    (hasked : Interface.Asked { x with plugin, thread } ↔ x.Asked)
    (hruns : Interface.starts { x with plugin, thread } = 0 →
      x.Asked ∨ plugin.m_bIsStarted = true) : Kept { x with plugin, thread } where
  toInLoop := hloop
  waited hp := hwaited (h.waited hp)
  told hin := hasked.mpr (htold hin)
  asked hnow := h.asked (hasked.mp hnow)
  inactive hlast := (h.inactive hlast).imp_left hasked.mpr
  runs hnone := (hruns hnone).imp_left hasked.mpr

/-- The thread goes on, and nothing else changes. -/
theorem Kept.goes {x : Interface} {thread : Thread} (h : Kept x)
    (hold : x.thread.starting = false ∧ x.thread ≠ .deregister) (hnew : thread.starting = false)
    (hthread : thread ≠ .taken .onStop ∧ thread ≠ .initialised ∧ thread ≠ .clearStarting ∧
      thread ≠ .clearStopping ∧ thread ≠ .ended ∧ thread ≠ .aborted)
    (hleaves : thread.leaving = true →
      x.plugin.stopRequested = true ∨ x.thread.leaving = true) :
    Kept { x with thread } := by
  have hstarts : Interface.starts { x with thread } = x.starts := by
    unfold Interface.starts Plugin.starts
    rw [hold.1, hnew]
  have hne (t : Thread) (ht : t.starting = true) : thread ≠ t := by
    rintro rfl
    rw [hnew] at ht
    cases ht
  show Kept { x with plugin := x.plugin, thread }
  refine h.of_work
    { alive := hthread.2.2
      starts_le := hstarts ▸ h.starts_le
      initializes := ?_
      onStart := ?_
      started := fun hnone _ => h.started (hstarts ▸ hnone) hold.2
      leaves := ?_ } id ?_ Iff.rfl fun hnone => h.runs (hstarts ▸ hnone)
  · rintro (hin | ht | ht | hp)
    · exact h.initializes (.inl hin)
    · exact absurd ht (hne _ rfl)
    · exact absurd ht (hne _ rfl)
    · exact h.initializes (.inr (.inr (.inr hp)))
  · rintro (hin | ht | ht | ht | ht)
    · exact h.onStart (.inl hin)
    · exact absurd ht (hne _ rfl)
    · exact absurd ht (hne _ rfl)
    · exact absurd ht (hne _ rfl)
    · exact absurd ht hthread.2.1
  · intro ht
    rw [hstarts]
    exact h.leaves (ht.elim .inl hleaves)
  · rintro (hin | ht)
    · exact h.told (.inl hin)
    · exact absurd ht hthread.1

/-- A message is taken out. -/
theorem Kept.takes {x : Interface} {m : Message} {rest : List Message} (h : Kept x)
    (ht : x.thread = .scan) (hperm : (m :: rest).Perm x.plugin.m_MessageQueue) :
    Kept { x with plugin := { x.plugin with m_MessageQueue := rest }, thread := .taken m } := by
  have hstarts : Interface.starts { x with
      plugin := { x.plugin with m_MessageQueue := rest }, thread := .taken m } = x.starts := by
    unfold Interface.starts
    rw [ht]
    exact congrArg (· + _) (starts_taken hperm)
  have hqueue {m' : Message} (hin : m' ∈ rest ∨ Thread.taken m = .taken m') :
      m' ∈ x.plugin.m_MessageQueue := by
    rcases hin with hin | heq
    · exact hperm.subset (List.mem_cons_of_mem _ hin)
    · cases heq
      exact hperm.subset List.mem_cons_self
  refine h.of_work
    { alive := by simp
      starts_le := hstarts ▸ h.starts_le
      initializes := ?_
      onStart := ?_
      started := fun hnone _ => h.started (hstarts ▸ hnone) (by rw [ht]; simp)
      leaves := ?_ } id (fun hin => h.told (.inl (hqueue hin))) Iff.rfl
    fun hnone => h.runs (hstarts ▸ hnone)
  · rintro (hin | ht | ht | hp)
    · exact h.initializes (.inl (hqueue (.inl hin)))
    · exact h.initializes (.inl (hqueue (.inr ht)))
    · cases ht
    · exact h.initializes (.inr (.inr (.inr hp)))
  · rintro (hin | ht | ht | ht | ht)
    · exact h.onStart (.inl (hqueue (.inl hin)))
    · exact h.onStart (.inl (hqueue (.inr ht)))
    · cases ht
    · cases ht
    · cases ht
  · rintro (hrequest | hleaving)
    · rw [hstarts]
      exact h.leaves (.inl hrequest)
    · cases hleaving

/-- The start-up that is on its way is the only one. -/
theorem Kept.only {x : Interface} (h : Kept x)
    (ht : x.thread.starting = true) :
    x.plugin.m_MessageQueue.countP Message.isStart = 0 ∧ x.publisher ≠ .queueStart ∧
      x.starts = 1 := by
  have hle := h.starts_le
  unfold Interface.starts Plugin.starts at hle ⊢
  rw [ht, Bool.toNat_true] at hle ⊢
  split at hle
  · omega
  · next hp =>
    rw [if_neg hp]
    exact ⟨by omega, hp, by omega⟩

theorem notMem_of_countP {q : List Message} (h : q.countP Message.isStart = 0) :
    .initializeMessage ∉ q ∧ .onStart ∉ q := by
  rw [List.countP_eq_zero] at h
  exact ⟨fun hin => h _ hin rfl, fun hin => h _ hin rfl⟩

/-- A start-up goes on in the thread: `Initialise` and `Start` take their steps. -/
theorem Kept.proceeds {x : Interface} {plugin : Plugin} {thread : Thread} (h : Kept x)
    (hold : x.thread.starting = true) (hcount : plugin.starts thread = 1)
    (hthread : thread.leaving = false ∧ ∀ m, thread ≠ .taken m)
    (hinit : .initializeMessage ∈ plugin.m_MessageQueue ∨ thread = .select →
      plugin.m_bIsStarting = true ∨ plugin.m_PyInterpreter = true)
    (hstart : .onStart ∈ plugin.m_MessageQueue ∨ thread = .loaded ∨ thread = .startFailed ∨
      thread = .initialised → plugin.m_PyInterpreter = true)
    (hstop : .onStop ∈ plugin.m_MessageQueue → .onStop ∈ x.plugin.m_MessageQueue)
    (hstarting : x.plugin.m_bIsStarting = false → plugin.m_bIsStarting = false)
    (hstopping : plugin.m_bIsStopping = x.plugin.m_bIsStopping)
    (hrequest : plugin.stopRequested = x.plugin.stopRequested) :
    Kept { x with plugin, thread } := by
  obtain ⟨-, hp, hone⟩ := h.only hold
  -- the thread is the one that starts, and no other does
  have hstarts : Interface.starts { x with plugin, thread } = 1 := by
    unfold Interface.starts
    rw [hcount, if_neg hp]
  have hsome : Interface.starts { x with plugin, thread } ≠ 0 := by
    rw [hstarts]
    exact one_ne_zero
  refine h.of_work
    { alive := ?_
      starts_le := hstarts.le
      initializes := ?_
      onStart := ?_
      started := fun hnone => absurd hnone hsome
      leaves := ?_ } hstarting ?_ ?_ fun hnone => absurd hnone hsome
  · refine ⟨?_, ?_, ?_, ?_⟩ <;> rintro rfl <;> cases hthread.1
  · rintro (hin | ht | ht | hp')
    · exact hinit (.inl hin)
    · exact absurd ht (hthread.2 _)
    · exact hinit (.inr ht)
    · exact absurd hp' hp
  · rintro (hin | ht | ht)
    · exact hstart (.inl hin)
    · exact absurd ht (hthread.2 _)
    · exact hstart (.inr ht)
  · rintro (hrequest' | hleaving)
    · have hnone := (h.leaves (.inl (hrequest ▸ hrequest'))).2
      rw [hone] at hnone
      cases hnone
    · rw [hthread.1] at hleaving
      cases hleaving
  · rintro (hin | ht)
    · exact h.told (.inl (hstop hin))
    · exact absurd ht (hthread.2 _)
  · unfold Interface.Asked
    rw [hstopping]

/-- `Start` has succeeded. -/
theorem Kept.over {x : Interface} (h : Kept x) (hold : x.thread.starting = true)
    (hpy : x.plugin.m_PyInterpreter = true) :
    Kept { x with plugin := { x.plugin with m_bIsStarted := true }, thread := .initialised } := by
  obtain ⟨hcount, hp, hone⟩ := h.only hold
  obtain ⟨hfirst, -⟩ := notMem_of_countP hcount
  have hstarts : Interface.starts { x with
      plugin := { x.plugin with m_bIsStarted := true }, thread := .initialised } = 0 := by
    unfold Interface.starts Plugin.starts
    rw [if_neg hp, hcount]
    rfl
  refine h.of_work
    { alive := by simp
      starts_le := by rw [hstarts]; exact Nat.zero_le 1
      initializes := ?_
      onStart := fun _ => hpy
      started := fun _ _ => hpy
      leaves := ?_ } id ?_ Iff.rfl fun _ => .inr rfl
  · rintro (hin | ht | ht | hp')
    · exact absurd hin hfirst
    · cases ht
    · cases ht
    · exact absurd hp' hp
  · rintro (hrequest | hleaving)
    · have hnone := (h.leaves (.inl hrequest)).2
      rw [hone] at hnone
      cases hnone
    · cases hleaving
  · rintro (hin | ht)
    · exact h.told (.inl hin)
    · cases ht

/-- The end of `Initialise` and of `Start`. -/
theorem Kept.initialised_check {x : Interface} (h : Kept x) (ht : x.thread = .initialised) :
    Kept { x with
      plugin := { x.plugin with m_bIsStarting := false }, thread := .check true } := by
  have hstarts : Interface.starts { x with
      plugin := { x.plugin with m_bIsStarting := false }, thread := .check true } = x.starts := by
    unfold Interface.starts Plugin.starts
    rw [ht]
    rfl
  -- what is still on its way has its interpreter
  have hpy : x.plugin.m_PyInterpreter = true := h.onStart (.inr (.inr (.inr (.inr ht))))
  refine h.of_work
    { alive := by simp
      starts_le := hstarts ▸ h.starts_le
      initializes := fun _ => .inr hpy
      onStart := fun _ => hpy
      started := fun _ _ => hpy
      leaves := ?_ } (fun _ => rfl) ?_ Iff.rfl fun hnone => h.runs (hstarts ▸ hnone)
  · rintro (hrequest | hleaving)
    · rw [hstarts]
      exact h.leaves (.inl hrequest)
    · cases hleaving
  · rintro (hin | ht)
    · exact h.told (.inl hin)
    · cases ht

/-- The plugin was told to stop, and the thread comes to know or leaves. -/
theorem Kept.stops {x : Interface} {plugin : Plugin} {thread : Thread} (h : Kept x)
    (hnow : x.Asked) (hold : x.thread.starting = false ∧ x.thread ≠ .deregister)
    (hnew : thread.starting = false)
    (hthread : thread ≠ .initialised ∧ thread ≠ .clearStarting ∧ thread ≠ .clearStopping ∧
      thread ≠ .ended ∧ thread ≠ .aborted ∧ ∀ m, thread ≠ .taken m)
    (hqueue : plugin.m_MessageQueue = x.plugin.m_MessageQueue)
    (hstarting : plugin.m_bIsStarting = x.plugin.m_bIsStarting)
    (hpy : plugin.m_PyInterpreter = x.plugin.m_PyInterpreter ∨
      thread = .deregister ∧ x.starts = 0)
    (hasked : Interface.Asked { x with plugin, thread })
    (hleaves : plugin.stopRequested = true ∨ thread.leaving = true →
      plugin.m_bIsStopping = true ∧ x.starts = 0) :
    Kept { x with plugin, thread } := by
  have hstarts : Interface.starts { x with plugin, thread } = x.starts := by
    unfold Interface.starts Plugin.starts
    rw [hold.1, hnew]
    show (List.countP _ plugin.m_MessageQueue + _) + _ = _
    rw [hqueue]
  have hne (t : Thread) (ht : t.starting = true) : thread ≠ t := by
    rintro rfl
    rw [hnew] at ht
    cases ht
  -- where something is on its way the interpreter stays
  have hsome (hpos : x.starts ≠ 0) : plugin.m_PyInterpreter = x.plugin.m_PyInterpreter :=
    hpy.resolve_right fun hnone => hpos hnone.2
  have hcount (hpos : x.plugin.m_MessageQueue.countP Message.isStart ≠ 0) : x.starts ≠ 0 := by
    unfold Interface.starts Plugin.starts
    omega
  refine h.of_work
    { alive := ⟨hthread.2.1, hthread.2.2.1, hthread.2.2.2.1, hthread.2.2.2.2.1⟩
      starts_le := hstarts ▸ h.starts_le
      initializes := ?_
      onStart := ?_
      started := ?_
      leaves := fun hl => hstarts ▸ hleaves hl } (fun hf => hstarting ▸ hf) (fun _ => hnow)
    (iff_of_true hasked hnow) fun _ => .inl hnow
  · rintro (hin | ht | ht | hp)
    · replace hin : Message.initializeMessage ∈ x.plugin.m_MessageQueue := hqueue ▸ hin
      show plugin.m_bIsStarting = true ∨ plugin.m_PyInterpreter = true
      rw [hstarting, hsome (hcount fun hnone => (notMem_of_countP hnone).1 hin)]
      exact h.initializes (.inl hin)
    · exact absurd ht (hne _ rfl)
    · exact absurd ht (hne _ rfl)
    · show plugin.m_bIsStarting = true ∨ plugin.m_PyInterpreter = true
      rw [hstarting, hsome (by rw [Interface.starts, if_pos hp]; omega)]
      exact h.initializes (.inr (.inr (.inr hp)))
  · rintro (hin | ht | ht | ht | ht)
    · replace hin : Message.onStart ∈ x.plugin.m_MessageQueue := hqueue ▸ hin
      show plugin.m_PyInterpreter = true
      rw [hsome (hcount fun hnone => (notMem_of_countP hnone).2 hin)]
      exact h.onStart (.inl hin)
    · exact absurd ht (hne _ rfl)
    · exact absurd ht (hne _ rfl)
    · exact absurd ht (hne _ rfl)
    · exact absurd ht hthread.1
  · intro hnone ht
    rcases hpy with heq | ⟨heq, -⟩
    · exact heq.trans (h.started (hstarts ▸ hnone) hold.2)
    · exact absurd heq ht

theorem again_cases (processed : Bool) : again processed = .scan ∨ again processed = .top := by
  cases processed
  · exact .inr rfl
  · exact .inl rfl

/-- `Message->Process()`. -/
theorem Kept.process {x : Interface} (h : Kept x) (c : Choice) {m : Message}
    (ht : x.thread = .taken m) {plugin : Plugin} {thread : Thread}
    (heq : LifeCycle.process c x.plugin m = (plugin, thread)) :
    Kept { x with plugin, thread } := by
  cases m with
  | initializeMessage =>
    cases heq
    have hold : x.thread.starting = true := by rw [ht]; rfl
    -- the message was the only one that the start is waited for with
    have hnone := (h.only hold).1
    refine h.proceeds hold ?_ ⟨rfl, by simp⟩ (fun _ => h.initializes (.inr (.inl ht))) ?_ id id rfl
      rfl
    · show x.plugin.m_MessageQueue.countP Message.isStart + 1 = 1
      rw [hnone]
    · rintro (hin | ht | ht | ht)
      · exact absurd hin (notMem_of_countP hnone).2
      · cases ht
      · cases ht
      · cases ht
  | onStart =>
    have hold : x.thread.starting = true := by rw [ht]; rfl
    have hnone := (h.only hold).1
    have hpy := h.onStart (.inr (.inl ht))
    by_cases hsucceeds : c.succeeds = true
    · have hproc : LifeCycle.process c x.plugin .onStart =
          ({ x.plugin with m_bIsStarted := true }, .initialised) := by
        simp [LifeCycle.process, hpy, hsucceeds]
      rw [hproc] at heq
      cases heq
      exact h.over hold hpy
    · have hproc : LifeCycle.process c x.plugin .onStart =
          ({ x.plugin with m_bIsStarting := false }, .startFailed) := by
        simp [LifeCycle.process, hpy, hsucceeds]
      rw [hproc] at heq
      cases heq
      refine h.proceeds hold ?_ ⟨rfl, by simp⟩ (fun _ => .inr hpy) (fun _ => hpy) id (fun _ => rfl)
        rfl rfl
      show x.plugin.m_MessageQueue.countP Message.isStart + 1 = 1
      rw [hnone]
  | onStop =>
    cases heq
    have hnow := h.told (.inr ht)
    refine h.stops hnow (by rw [ht]; simp [Thread.starting, Message.isStart]) rfl (by simp) rfl rfl
      (.inl rfl) (.inl rfl) ?_
    rintro (hrequest | hleaving)
    · exact ⟨rfl, (h.leaves (.inl hrequest)).2⟩
    · cases hleaving
  | other m_Delay =>
    cases heq
    exact h.goes (by rw [ht]; simp [Thread.starting, Message.isStart]) rfl (by simp)
      fun hleaving => by cases hleaving

/-- A step of the thread before it takes the plugin out of the map. -/
theorem Kept.work {x : Interface} (h : Kept x)
    (hstart : x.publisher = .queueStart → x.last = some true) {c : Choice}
    (hc : x.CanInitialise c) (hne : x.thread ≠ .deregister) : Kept (x.work c) := by
  have hwork {plugin : Plugin} {thread : Thread}
      (heq : LifeCycle.work x.row c x.plugin x.thread = (plugin, thread))
      (hkept : Kept { x with plugin, thread }) : Kept (x.work c) := by
    rw [work_eq heq hne]
    exact hkept
  cases ht : x.thread with
  | top =>
    have hold : x.thread.starting = false := by rw [ht]; rfl
    by_cases hrequest : x.plugin.stopRequested = true
    · exact hwork (by rw [ht, LifeCycle.work, if_pos hrequest])
        (h.goes ⟨hold, hne⟩ rfl (by simp) fun _ => .inl hrequest)
    · exact hwork (by rw [ht, LifeCycle.work, if_neg hrequest])
        (h.goes ⟨hold, hne⟩ rfl (by simp) fun hleaving => by cases hleaving)
  | scan =>
    cases htake : takeReady c.skip x.plugin.m_MessageQueue with
    | mk message rest =>
      cases message with
      | none =>
        exact hwork (by rw [ht, LifeCycle.work, htake])
          (h.goes ⟨by rw [ht]; rfl, hne⟩ rfl (by simp) fun hleaving => by cases hleaving)
      | some m =>
        exact hwork (by rw [ht, LifeCycle.work, htake]) (h.takes ht (takeReady_perm htake))
  | taken m =>
    by_cases hpy : (x.plugin.m_PyInterpreter || x.plugin.m_bIsStarting) = true
    · cases hproc : LifeCycle.process c x.plugin m with
      | mk plugin thread =>
        exact hwork (by rw [ht, LifeCycle.work, if_pos hpy, hproc]) (h.process c ht hproc)
    · have hdropped : m.isStart = false := by
        rw [Bool.or_eq_true, or_comm] at hpy
        cases m with
        | initializeMessage => exact absurd (h.initializes (.inr (.inl ht))) hpy
        | onStart => exact absurd (.inr (h.onStart (.inr (.inl ht)))) hpy
        | onStop => rfl
        | other => rfl
      exact hwork (by rw [ht, LifeCycle.work, if_neg hpy])
        (h.goes ⟨by rw [ht]; exact hdropped, hne⟩ rfl (by simp)
          fun hleaving => by cases hleaving)
  | select =>
    have hold : x.thread.starting = true := by rw [ht]; rfl
    have hnone := (h.only hold).1
    obtain ⟨hrow, hsucceeds⟩ := hc ht
    have heq : LifeCycle.work x.row c x.plugin x.thread =
        ({ x.plugin with m_PyInterpreter := true }, .loaded) := by
      rw [ht, LifeCycle.work, if_pos hrow, if_pos hsucceeds]
    refine hwork heq
      (h.proceeds hold ?_ ⟨rfl, by simp⟩ (fun _ => .inr rfl) (fun _ => rfl) id id rfl rfl)
    show x.plugin.m_MessageQueue.countP Message.isStart + 1 = 1
    rw [hnone]
  | loaded =>
    have hold : x.thread.starting = true := by rw [ht]; rfl
    have hnone := (h.only hold).1
    have hpy := h.onStart (.inr (.inr (.inl ht)))
    have heq : LifeCycle.work x.row c x.plugin x.thread =
        (x.plugin.MessagePlugin .onStart, .initialised) := by rw [ht]; rfl
    refine hwork heq (h.proceeds hold ?_ ⟨rfl, by simp⟩ (fun _ => .inr hpy)
      (fun _ => hpy) ?_ id rfl rfl)
    · rw [starts_message, Plugin.starts, hnone]
      rfl
    · simp [Plugin.MessagePlugin]
  | initialised => exact hwork (by rw [ht]; rfl) (h.initialised_check ht)
  | startFailed =>
    have hold : x.thread.starting = true := by rw [ht]; rfl
    have hnone := (h.only hold).1
    have hpy := h.onStart (.inr (.inr (.inr (.inl ht))))
    have heq : LifeCycle.work x.row c x.plugin x.thread =
        (x.plugin.MessagePlugin .initializeMessage, .check true) := by rw [ht]; rfl
    refine hwork heq (h.proceeds hold ?_ ⟨rfl, by simp⟩ (fun _ => .inr hpy)
      (fun _ => hpy) ?_ id rfl rfl)
    · rw [starts_message, Plugin.starts, hnone]
      rfl
    · simp [Plugin.MessagePlugin]
  | check processed =>
    have hold : x.thread.starting = false := by rw [ht]; rfl
    by_cases hend : x.plugin.m_bIsStopping = true ∧ x.plugin.m_MessageQueue = [] ∧ c.late = true
    · have hnow : x.Asked := .inl hend.1
      have hzero : x.starts = 0 := by
        -- a plugin whose start is not queued yet is not told to stop
        have hp : x.publisher ≠ .queueStart := fun hp => h.asked hnow (hstart hp)
        unfold Interface.starts Plugin.starts
        rw [if_neg hp, hend.2.1, ht]
        rfl
      refine hwork (by rw [ht, LifeCycle.work, if_pos hend]) ?_
      rcases again_cases processed with heq | heq <;> rw [heq] <;>
        exact h.stops hnow ⟨hold, hne⟩ rfl (by simp) rfl rfl (.inl rfl) (.inl hend.1)
          fun _ => ⟨hend.1, hzero⟩
    · refine hwork (by rw [ht, LifeCycle.work, if_neg hend]) ?_
      rcases again_cases processed with heq | heq <;> rw [heq] <;>
        exact h.goes ⟨hold, hne⟩ rfl (by simp) fun hleaving => by cases hleaving
  | finalise =>
    have hleaves := h.leaves (.inr (by rw [ht]; rfl))
    have hpy := h.started hleaves.2 hne
    have heq : LifeCycle.work x.row c x.plugin x.thread = (x.plugin.Stop, .deregister) := by
      rw [ht, LifeCycle.work, if_pos hpy]
    exact hwork heq (h.stops (.inl hleaves.1) ⟨by rw [ht]; rfl, hne⟩ rfl (by simp) rfl rfl
      (.inr ⟨rfl, hleaves.2⟩) (.inl hleaves.1) fun _ => hleaves)
  | deregister => exact absurd ht hne
  | clearStarting => exact absurd ht h.alive.1
  | clearStopping => exact absurd ht h.alive.2.1
  | ended => exact absurd ht h.alive.2.2.1
  | aborted => exact absurd ht h.alive.2.2.2

/-- A step of the thread. -/
theorem Inv.work {x : Interface} {pending : List Entry} (h : Inv x pending) {c : Choice}
    (hc : x.CanInitialise c) : Inv (x.work c) pending := by
  have hregistered : (x.work c).registered = (x.registered && x.thread != .deregister) := rfl
  by_cases hgoes : x.registered = true ∧ x.thread ≠ .deregister
  · obtain ⟨hreg, hne⟩ := hgoes
    have hstays : (x.work c).registered = true := by simp [hregistered, hreg, hne]
    exact
      { leads := h.leads
        registered := fun _ => hstays
        starting := h.starting
        stopping := h.stopping
        kept := fun _ => (h.kept hreg).work (fun hp => h.starting (.inl hp)) hc hne
        left := { h.left with last := fun hout => by rw [hstays] at hout; cases hout } }
  · -- the plugin is not in the map, or goes out of it
    have hout : (x.work c).registered = false := by
      rw [hregistered]
      simpa [bne_iff_ne] using hgoes
    have hlast : x.last ≠ some true := by
      intro hlast
      have hreg := h.registered hlast
      have ht : x.thread = .deregister := by
        by_contra hne
        exact hgoes ⟨hreg, hne⟩
      have hleaves := (h.kept hreg).leaves (.inr (by rw [ht]; rfl))
      exact (h.kept hreg).asked (.inl hleaves.1) hlast
    have hgone : (x.work c).thread.gone = true := by
      by_cases hreg : x.registered = true
      · have ht : x.thread = .deregister := by
          by_contra hne
          exact hgoes ⟨hreg, hne⟩
        show (LifeCycle.work x.row c x.plugin x.thread).2.gone = true
        rw [ht]
        rfl
      · exact work_gone (h.left.last (Bool.eq_false_of_not_eq_true hreg))
    exact
      { leads := h.leads
        registered := fun hact => absurd hact hlast
        starting := h.starting
        stopping := h.stopping
        kept := fun hreg => by
          rw [hout] at hreg
          cases hreg
        left := { h.left with last := fun _ => hgone } }

/-- A step of a plugin that is not in the map. -/
theorem Inv.workOther {x : Interface} {pending : List Entry} (h : Inv x pending) (i : ℕ)
    (c : Choice) : Inv (x.workOther i c) pending := by
  unfold Interface.workOther
  cases hi : x.others[i]? with
  | none => exact h
  | some y =>
    obtain ⟨plugin, thread⟩ := y
    have hgone : thread.gone = true := h.left.others _ (List.mem_of_getElem? hi)
    have hne : (thread != .deregister) = true := by
      cases thread <;> first | rfl | cases hgone
    simp only [hne, Bool.and_true]
    have hothers (y : Plugin × Thread)
        (hy : y ∈ x.others.set i (LifeCycle.work x.row c plugin thread)) : y.2.gone = true := by
      rcases List.mem_or_eq_of_mem_set hy with hold | rfl
      · exact h.left.others y hold
      · exact work_gone hgone
    exact
      { h with
        kept := fun hreg => { h.kept hreg with }
        left := { h.left with others := hothers } }

/-- No thread has ended the process. -/
theorem Inv.not_aborted {x : Interface} {pending : List Entry} (h : Inv x pending) :
    x.aborted = false := by
  have hne {t : Thread} (hgone : t.gone = true) : (t == .aborted) = false := by
    cases t <;> first | rfl | cases hgone
  unfold Interface.aborted
  rw [Bool.or_eq_false_iff, List.any_eq_false]
  constructor
  · cases hreg : x.registered with
    | true => exact beq_eq_false_iff_ne.mpr (h.kept hreg).alive.2.2.2
    | false => exact hne (h.left.last hreg)
  · intro y hy
    rw [hne (h.left.others y hy)]
    exact Bool.false_ne_true

/-! ### All interfaces -/

/-- The entries of one interface that were not published yet. -/
def State.pending (s : State) (id : ℕ) : List Entry :=
  (s.entries.filter fun e => e.1 = id).map Prod.snd

/-- Every interface is as it should be, and the publisher is busy with one of them at most. -/
structure Sound (s : State) : Prop where
  runs : s.aborted = false
  inv (id : ℕ) : Inv (s.interfaces id) (s.pending id)
  publishing (id : ℕ) : (s.interfaces id).publisher ≠ .idle → s.publishing = some id

theorem sound_initial (rows : ℕ → Option Bool) : Sound (.initial rows) where
  runs := rfl
  inv id := by
    by_cases hrow : rows id = some true
    · have hinterface : (State.initial rows).interfaces id = ⟨rows id, rows id, true,
          { m_bIsStarted := true, m_PyInterpreter := true }, .top, .idle, []⟩ := if_pos hrow
      rw [hinterface]
      exact
        { leads := rfl
          registered := fun _ => rfl
          starting := fun _ => hrow
          stopping := fun hp => by rcases hp with hp | hp | hp | hp | hp <;> cases hp
          kept := fun _ =>
            { alive := by simp
              starts_le := Nat.zero_le 1
              initializes := fun _ => .inr rfl
              onStart := fun _ => rfl
              started := fun _ _ => rfl
              leaves := fun hleaves => by rcases hleaves with hl | hl <;> cases hl
              waited := fun _ => rfl
              told := fun hin => by rcases hin with hin | hin <;> cases hin
              asked := fun hasked => by rcases hasked with hasked | hasked <;> cases hasked
              inactive := fun hne => absurd hrow hne
              runs := fun _ => .inr rfl }
          left :=
            { last := fun hno => by cases hno
              others := by simp
              publisher := by simp } }
    · have hinterface : (State.initial rows).interfaces id =
          ⟨rows id, rows id, false, {}, .ended, .idle, []⟩ := if_neg hrow
      rw [hinterface]
      exact
        { leads := rfl
          registered := fun hact => absurd hact hrow
          starting := fun hp => by rcases hp with hp | hp <;> cases hp
          stopping := fun _ => hrow
          kept := fun hreg => by cases hreg
          left :=
            { last := fun _ => rfl
              others := by simp
              publisher := by simp } }
  publishing id hbusy := by
    refine absurd ?_ hbusy
    show (if rows id = some true then _ else _ : Interface).publisher = .idle
    split <;> rfl

theorem sound_set {s : State} (h : Sound s) {id : ℕ} {x : Interface}
    (hinv : Inv x (s.pending id)) (hp : x.publisher = (s.interfaces id).publisher) :
    Sound (s.set id x) := by
  refine ⟨h.runs, ?_, ?_⟩
  · intro id'
    by_cases heq : id' = id
    · subst heq
      simpa [State.set, State.pending] using hinv
    · simpa [State.set, State.pending, Function.update_of_ne heq] using h.inv id'
  · intro id' hbusy
    refine h.publishing id' fun hidle => hbusy ?_
    by_cases heq : id' = id
    · subst heq
      simpa [State.set, hp] using hidle
    · simpa [State.set, Function.update_of_ne heq] using hidle

/-- The publisher takes a step at an interface; it was not busy with another one. -/
theorem sound_publishAt {s : State} {id : ℕ} {x : Interface} (hinv : Inv x (s.pending id))
    (hothers : ∀ id', id' ≠ id → Inv (s.interfaces id') (s.pending id') ∧
      (s.interfaces id').publisher = .idle) (hruns : s.aborted = false) :
    Sound (s.publishAt id x) := by
  refine ⟨hruns, ?_, ?_⟩
  · intro id'
    by_cases heq : id' = id
    · subst heq
      simpa [State.publishAt, State.set, State.pending] using hinv
    · simpa [State.publishAt, State.set, State.pending, Function.update_of_ne heq]
        using (hothers id' heq).1
  · intro id' hbusy
    by_cases heq : id' = id
    · subst heq
      have hbusy' : x.publisher ≠ .idle := by
        simpa [State.publishAt, State.set] using hbusy
      exact if_neg hbusy'
    · refine absurd ?_ hbusy
      simpa [State.publishAt, State.set, Function.update_of_ne heq] using (hothers id' heq).2

/-- A plugin's thread takes a step. -/
theorem sound_workAt {s : State} (h : Sound s) {id : ℕ} {x : Interface}
    (hinv : Inv x (s.pending id)) (hp : x.publisher = (s.interfaces id).publisher) :
    Sound (s.workAt id x) :=
  { sound_set h hinv hp with runs := hinv.not_aborted }

theorem sound_step (s : State) (e : Event) (h : Sound s) (he : Orderly s e) :
    Sound (step s e) := by
  have hruns : step s e = s.handle e := if_neg (by rw [h.runs]; simp)
  rw [hruns]
  cases e with
  | write id row =>
    cases hentry : entryOf (s.interfaces id).row row with
    | none =>
      have hstep : s.handle (.write id row) = s := by
        simp only [State.handle, hentry]
      rw [hstep]
      exact h
    | some e =>
      have hstep : s.handle (.write id row) =
          { s.set id { s.interfaces id with row } with entries := s.entries ++ [(id, e)] } := by
        simp only [State.handle, hentry]
      rw [hstep]
      refine ⟨h.runs, ?_, ?_⟩
      · intro id'
        -- another interface does not see the row
        by_cases heq : id' = id
        · subst heq
          simpa [State.set, State.pending, List.filter_append] using (h.inv id').write hentry
        · simpa [State.set, State.pending, List.filter_append, Function.update_of_ne heq,
            Ne.symm heq] using h.inv id'
      · intro id' hbusy
        refine h.publishing id' fun hidle => hbusy ?_
        by_cases heq : id' = id
        · subst heq
          simpa [State.set] using hidle
        · simpa [State.set, Function.update_of_ne heq] using hidle
  | publish =>
    replace he : CanPublish s.interfaces s.publishing s.entries := he
    cases hpublishing : s.publishing with
    | some id =>
      have hstep : s.handle .publish = s.publishAt id (s.interfaces id).publish := by
        simp only [State.handle, hpublishing]
      rw [hpublishing] at he
      rw [hstep]
      refine sound_publishAt ((h.inv id).publish he) (fun id' hne => ⟨h.inv id', ?_⟩) h.runs
      by_contra hbusy
      have hsame := h.publishing id' hbusy
      rw [hpublishing] at hsame
      exact hne (Option.some.inj hsame).symm
    | none =>
      -- the publisher serves one entry at a time
      have hidle (id : ℕ) : (s.interfaces id).publisher = .idle := by
        by_contra hbusy
        have hsome := h.publishing id hbusy
        rw [hpublishing] at hsome
        cases hsome
      cases hentries : s.entries with
      | nil =>
        have hstep : s.handle .publish = s := by
          simp only [State.handle, hpublishing, hentries]
        rw [hstep]
        exact h
      | cons entry entries =>
        obtain ⟨id, e⟩ := entry
        have hstep : s.handle .publish =
            { s with entries }.publishAt id ((s.interfaces id).DatabaseUpdate e) := by
          simp only [State.handle, hpublishing, hentries]
        rw [hpublishing, hentries] at he
        rw [hstep]
        -- the entry leaves the queue of its own interface only
        have hpending (id' : ℕ) : s.pending id' =
            (if id = id' then [e] else []) ++ ({ s with entries } : State).pending id' := by
          unfold State.pending
          rw [hentries, List.filter_cons]
          by_cases heq : id = id' <;> simp [heq]
        refine sound_publishAt ?_ (fun id' hne => ⟨?_, hidle id'⟩) h.runs
        · have hinv := h.inv id
          rw [hpending, if_pos rfl] at hinv
          exact hinv.databaseUpdate (hidle id) he
        · have hinv := h.inv id'
          rw [hpending, if_neg (Ne.symm hne)] at hinv
          exact hinv
  | message id m_Delay =>
    refine sound_set h ((h.inv id).message m_Delay) ?_
    unfold Interface.message
    split <;> rfl
  | work id c => exact sound_workAt h ((h.inv id).work he) rfl
  | workOther id i c =>
    refine sound_workAt h ((h.inv id).workOther i c) ?_
    unfold Interface.workOther
    split <;> rfl

theorem Sound.follows {s : State} (h : Sound s) : Follows s := by
  intro id hsettled
  have hinv := h.inv id
  have hrow : (s.interfaces id).last = (s.interfaces id).row := by
    have hnone : s.pending id = [] := by
      unfold State.pending
      rw [List.map_eq_nil_iff, List.filter_eq_nil_iff]
      intro e he
      simpa using hsettled.handled e he
    have hleads := hinv.leads
    rw [hnone] at hleads
    exact hleads
  rw [← hrow]
  -- a plugin whose start and stop are over was not told to stop
  have hnot (hreg : (s.interfaces id).registered = true) : ¬ (s.interfaces id).Asked := by
    rintro (hstopping | hp)
    · rw [hsettled.stopped hreg] at hstopping
      cases hstopping
    · rw [hsettled.idle] at hp
      cases hp
  constructor
  · rintro ⟨-, hreg, -⟩
    by_contra hlast
    rcases (hinv.kept hreg).inactive hlast with hasked | hp | hp | hp
    · exact hnot hreg hasked
    · rw [hsettled.idle] at hp
      cases hp
    · rw [hsettled.idle] at hp
      cases hp
    · rw [hsettled.idle] at hp
      cases hp
  · intro hlast
    have hreg := hinv.registered hlast
    have hkept := hinv.kept hreg
    have hstays : (s.interfaces id).thread.leaving = false := by
      by_contra hleaving
      have hleaves := hkept.leaves (.inr (Bool.eq_true_of_not_eq_false hleaving))
      exact hnot hreg (.inl hleaves.1)
    have hpy : (s.interfaces id).plugin.m_PyInterpreter = true := by
      refine hkept.started (hsettled.started hreg) fun ht => ?_
      rw [ht] at hstays
      cases hstays
    exact ⟨h.runs, hreg, hpy, (hkept.runs (hsettled.started hreg)).resolve_left (hnot hreg),
      hstays⟩

/-- All delayed messages are due, and what is tried succeeds. -/
def ready : Choice := ⟨0, true, true⟩

/-- The same, before `stopTime`. -/
def early : Choice := ⟨0, true, false⟩

/-- An interface is inserted and started. -/
def inserted : List Event :=
  [.write 1 (some true), .publish, .publish, .publish] ++ List.replicate 12 (.work 1 ready)

/-- One interface is running. -/
def one : State := .initial fun id => if id = 1 then some true else none

/-- It is deactivated, and activated again before its plugin is stopped. -/
def reactivated : List Event :=
  .write 1 (some false) :: List.replicate 6 .publish ++ [.write 1 (some true), .publish] ++
    List.replicate 9 (.work 1 early) ++ List.replicate 12 (.work 1 ready)

/-- Deactivated before `Initialise` asks for its row, an interface ends the process. -/
example : ((([.write 1 (some true), .publish, .publish, .write 1 (some false)] : List Event) ++
    List.replicate 4 (Event.work 1 ready)).foldl step (.initial fun _ => none)).aborted = true := by
  decide

end Domoticz.Registration
