import Domoticz.Transition
import Domoticz.Web.Push

/-!
# The publisher of updates

SQLite calls a hook for each row that changes.  `CUpdateManager::callback` puts an entry into a
queue for it, and a thread takes the entries from the queue and calls the subscribers.

The hook asks `pDB == "main"`, which compares where the texts stand.  An entry gets its columns,
their types and their values in one loop over the columns, and a `NULL` in the first column ends
it between the types and the values.  Subscribers are called one after the other, and one that
throws ends that for the entry.

## Main definitions

* `callback` — `CUpdateManager::callback`, the entry for an invocation of the hook.
* `getFieldValue`, `InRange` — how the subscribers index an entry.
* `State`, `step` — the queue, the thread and the subscribers, over any interleaving.
* `Right` — entries, order and lengths are as they should be.
* `Meets` — the events after which they are.

## Main results

* `lengths_callback_iff` — the lists of an entry have one length unless a row begins with `NULL`.
* `published_works` — what waits is published, whichever subscribers throw.
* `right_iff_meets` — **everything is right exactly if every event meets the condition.**
* `elsewhere_dropped` — a change that is not queued.
-/

namespace Domoticz.UpdatePublisher

open CLib

/-! ### The hook -/

/-- A C string: where it stands and what it says. -/
structure CString where
  address : ℕ
  text : Bytes

/-- A column of a row of the `SELECT`; the text is that of `sqlite3_column_text`. -/
structure Cell where
  name : Bytes
  isInteger : Bool
  text : Option Bytes

/-- `SQLITE_DELETE`. -/
def SQLITE_DELETE : ℤ := 9

/-- `SQLITE_INSERT`. -/
def SQLITE_INSERT : ℤ := 18

/-- `SQLITE_UPDATE`. -/
def SQLITE_UPDATE : ℤ := 23

/-- The arguments of the hook, and what the `SELECT` of the row answers, if it can be prepared. -/
structure Hook where
  iAction : ℤ
  pDB : CString
  pTable : Bytes
  iRowIdx : ℤ
  rows : Option (List (List Cell))

/-- An invocation by SQLite for the database that is called `main`. -/
structure Invocation extends Hook where
  documented : iAction = SQLITE_DELETE ∨ iAction = SQLITE_INSERT ∨ iAction = SQLITE_UPDATE
  main : pDB.text = str "main"

/-- The action of an entry. -/
def actionOf (iAction : ℤ) : Option Bytes :=
  if iAction = SQLITE_INSERT then some (str "Insert")
  else if iAction = SQLITE_UPDATE then some (str "Update")
  else if iAction = SQLITE_DELETE then some (str "Delete")
  else none

/-- The loop over the columns of a row; `first` is `col == 0`. -/
def loadRow (first : Bool) (pEntry : UpdateEntry) : List Cell → UpdateEntry
  | [] => pEntry
  | cell :: cells =>
      let type := if cell.isInteger then str "INTEGER" else str "TEXT"
      let pEntry := { pEntry with
        columns := pEntry.columns ++ [cell.name]
        columnTypes := pEntry.columnTypes ++ [type] }
      match cell.text with
      -- the value of the first column is missing, and so are the other columns
      | none => if first then pEntry
          else loadRow false { pEntry with values := pEntry.values ++ [[]] } cells
      | some value => loadRow false { pEntry with values := pEntry.values ++ [value] } cells

/-- `CUpdateManager::callback`: the entry that is queued.  The text `"main"` of the code stands
at `literal`. -/
def callback (literal : ℕ) (h : Hook) : Option UpdateEntry :=
  if h.pDB.address = literal then
    (actionOf h.iAction).map fun action =>
      let pEntry : UpdateEntry := { action, table := h.pTable, rowIdx := h.iRowIdx }
      if h.iAction ≠ SQLITE_DELETE then (h.rows.getD []).foldl (loadRow true) pEntry
      else pEntry
  else none

/-! ### The lists of an entry -/

/-- The three lists of an entry have one length. -/
def Lengths (e : UpdateEntry) : Prop :=
  e.columnTypes.length = e.columns.length ∧ e.values.length = e.columns.length

/-- A row whose first column is `NULL`. -/
def StartsNull (row : List Cell) : Prop := ∃ cell, row.head? = some cell ∧ cell.text = none

/-- What a row adds to the lists of an entry. -/
theorem loadRow_lengths (first : Bool) (pEntry : UpdateEntry) (row : List Cell) :
    (loadRow first pEntry row).columns.length + pEntry.columnTypes.length =
        (loadRow first pEntry row).columnTypes.length + pEntry.columns.length ∧
      (first = false → (loadRow first pEntry row).columns.length + pEntry.values.length =
        (loadRow first pEntry row).values.length + pEntry.columns.length) := by
  induction row generalizing first pEntry with
  | nil => exact ⟨Nat.add_comm _ _, fun _ => Nat.add_comm _ _⟩
  | cons cell cells ih =>
    rw [loadRow]
    cases cell.text with
    | none =>
      cases first with
      | true =>
        simp only [if_true, List.length_append, List.length_singleton]
        exact ⟨by omega, fun h => absurd h (by decide)⟩
      | false =>
        have hrest := ih false { pEntry with
          columns := pEntry.columns ++ [cell.name]
          columnTypes := pEntry.columnTypes ++
            [if cell.isInteger then str "INTEGER" else str "TEXT"]
          values := pEntry.values ++ [[]] }
        simp only [List.length_append, List.length_singleton, forall_const] at hrest
        simp only [Bool.false_eq_true, if_false]
        omega
    | some value =>
      have hrest := ih false { pEntry with
        columns := pEntry.columns ++ [cell.name]
        columnTypes := pEntry.columnTypes ++
          [if cell.isInteger then str "INTEGER" else str "TEXT"]
        values := pEntry.values ++ [value] }
      simp only [List.length_append, List.length_singleton, forall_const] at hrest
      simp only
      omega

/-- A row lacks one value if it starts with `NULL`, and none otherwise. -/
theorem loadRow_values (pEntry : UpdateEntry) (row : List Cell) :
    (StartsNull row → (loadRow true pEntry row).columns.length + pEntry.values.length =
        (loadRow true pEntry row).values.length + pEntry.columns.length + 1) ∧
      (¬ StartsNull row → (loadRow true pEntry row).columns.length + pEntry.values.length =
        (loadRow true pEntry row).values.length + pEntry.columns.length) := by
  cases row with
  | nil =>
    refine ⟨?_, fun _ => Nat.add_comm _ _⟩
    rintro ⟨cell, hcell, -⟩
    cases hcell
  | cons cell cells =>
    rw [loadRow]
    cases hcell : cell.text with
    | none =>
      refine ⟨fun _ => ?_, fun h => absurd ⟨cell, rfl, hcell⟩ h⟩
      simp only [if_true, List.length_append, List.length_singleton]
      omega
    | some value =>
      refine ⟨?_, fun _ => ?_⟩
      · rintro ⟨cell', hcell', hnone⟩
        rw [← Option.some.inj hcell', hcell] at hnone
        cases hnone
      · have hrest := (loadRow_lengths false { pEntry with
          columns := pEntry.columns ++ [cell.name]
          columnTypes := pEntry.columnTypes ++
            [if cell.isInteger then str "INTEGER" else str "TEXT"]
          values := pEntry.values ++ [value] } cells).2 rfl
        simp only [List.length_append, List.length_singleton] at hrest
        simp only
        omega

/-- The rows of a `SELECT` leave the values short by the number of rows that start with `NULL`. -/
theorem loadRows_lengths (pEntry : UpdateEntry) (rows : List (List Cell)) :
    let e := rows.foldl (loadRow true) pEntry
    e.columns.length + pEntry.columnTypes.length =
        e.columnTypes.length + pEntry.columns.length ∧
      e.values.length + pEntry.columns.length ≤ e.columns.length + pEntry.values.length ∧
      (e.values.length + pEntry.columns.length = e.columns.length + pEntry.values.length ↔
        ∀ row ∈ rows, ¬ StartsNull row) := by
  induction rows generalizing pEntry with
  | nil =>
    simp only [List.foldl_nil, List.not_mem_nil, false_implies, implies_true, iff_true]
    omega
  | cons row rows ih =>
    obtain ⟨htypes, hle, hiff⟩ := ih (loadRow true pEntry row)
    have hrow := (loadRow_lengths true pEntry row).1
    obtain ⟨hnull, hother⟩ := loadRow_values pEntry row
    simp only [List.foldl_cons, List.forall_mem_cons]
    by_cases hstarts : StartsNull row
    · have hvalues := hnull hstarts
      refine ⟨by omega, by omega, iff_of_false (by omega) fun h => h.1 hstarts⟩
    · have hvalues := hother hstarts
      refine ⟨by omega, by omega, ?_⟩
      rw [and_iff_right hstarts, ← hiff]
      omega

/-- The lists of an entry have one length unless a row begins with `NULL`. -/
theorem lengths_callback_iff {literal : ℕ} {h : Hook} {e : UpdateEntry}
    (he : callback literal h = some e) :
    Lengths e ↔ (h.iAction ≠ SQLITE_DELETE → ∀ row ∈ h.rows.getD [], ¬ StartsNull row) := by
  unfold callback at he
  split at he
  · obtain ⟨action, -, rfl⟩ := Option.map_eq_some_iff.mp he
    split
    · next hdelete =>
      obtain ⟨htypes, -, hiff⟩ := loadRows_lengths
        { action, table := h.pTable, rowIdx := h.iRowIdx } (h.rows.getD [])
      simp only [List.length_nil, Nat.add_zero] at htypes hiff
      rw [forall_prop_of_true hdelete, ← hiff, Lengths, and_iff_right htypes.symm]
    · next hdelete => exact iff_of_true ⟨rfl, rfl⟩ fun h => absurd h hdelete
  · cases he

/-! ### The subscribers' indices -/

/-- `GetFieldValue`; none where `m_Values` is indexed out of range. -/
def getFieldValue (fieldName : Bytes) (pEntry : UpdateEntry) : Option Bytes :=
  match pEntry.columns.findIdx? (· == fieldName) with
  | none => some []
  | some i => pEntry.values[i]?

/-- `CWebsocket::DatabaseUpdate` indexes the types and the values in range, with some fields. -/
def InRange (vFields : List Bytes) (pEntry : UpdateEntry) : Prop :=
  ∀ j c, pEntry.columns[j]? = some c → c ∈ vFields →
    j < pEntry.columnTypes.length ∧ j < pEntry.values.length

theorem getFieldValue_isSome {e : UpdateEntry} (h : Lengths e) (fieldName : Bytes) :
    (getFieldValue fieldName e).isSome = true := by
  unfold getFieldValue
  cases hfind : e.columns.findIdx? (· == fieldName) with
  | none => rfl
  | some i =>
    obtain ⟨hi, -⟩ := List.findIdx?_eq_some_iff_getElem.mp hfind
    rw [← h.2] at hi
    show (e.values[i]?).isSome = true
    rw [List.getElem?_eq_getElem hi]
    rfl

theorem inRange_of_lengths {e : UpdateEntry} (h : Lengths e) (vFields : List Bytes) :
    InRange vFields e := by
  intro j c hc _
  obtain ⟨hj, -⟩ := List.getElem?_eq_some_iff.mp hc
  exact ⟨h.1 ▸ hj, h.2 ▸ hj⟩

/-! ### The queue and its thread -/

/-- An entry that is handed to the subscribers: those it was handed to, and those it is still to
be handed to, or was not. -/
structure Publication where
  entry : UpdateEntry
  handed : List ℕ := []
  remaining : List ℕ

/-- Where the thread of the publisher is. -/
inductive Thread
  | running
  | stopping
  | joined
  deriving DecidableEq

/-- The manager after `Start`, with what happened so far.  A subscriber is known by the number of
its connection. -/
structure State where
  UpdateEntryQueue : List UpdateEntry := []
  slots : List ℕ := []
  connections : ℕ := 0
  current : Option Publication := none
  thread : Thread := .running
  invocations : List Invocation := []
  queued : List UpdateEntry := []
  published : List Publication := []

/-- What can happen next. -/
inductive Event
  | hook (invocation : Invocation)
  | connect
  | disconnect (slot : ℕ)
  /-- The thread dequeues, calls a subscriber that throws or not, or is done with an entry. -/
  | work (throws : Bool)
  | requestStop
  /-- What `Stop` does when the thread has ended. -/
  | flush

/-- The thread dequeues an entry, for the subscribers that are connected. -/
def dequeue (s : State) : State :=
  match s.thread with
  | .running =>
      match s.UpdateEntryQueue with
      | [] => s
      | e :: queue =>
          { s with UpdateEntryQueue := queue, current := some { entry := e, remaining := s.slots } }
  | _ => { s with thread := .joined }

/-- The thread calls the next subscriber.  An exception leaves the signal, and the entry is not
handed to the others. -/
def publish (throws : Bool) (s : State) (p : Publication) : State :=
  match p.remaining with
  | [] => { s with current := none, published := s.published ++ [p] }
  | slot :: remaining =>
      let p := { p with handed := p.handed ++ [slot], remaining }
      if throws then { s with current := none, published := s.published ++ [p] }
      else { s with current := some p }

/-- A step of the thread: with the entry it has, or to the next one. -/
def work (throws : Bool) (s : State) : State :=
  match s.current with
  | none => dequeue s
  | some p => publish throws s p

/-- A subscriber that has gone is not called any more. -/
def Publication.without (slot : ℕ) (p : Publication) : Publication :=
  { p with remaining := p.remaining.filter (· ≠ slot) }

/-- What an event does; the hook queues under the mutex. -/
def step (literal : ℕ) (s : State) : Event → State
  | .hook i =>
      let pEntry := (callback literal i.toHook).toList
      { s with
        UpdateEntryQueue := s.UpdateEntryQueue ++ pEntry
        queued := s.queued ++ pEntry
        invocations := s.invocations ++ [i] }
  | .connect => { s with slots := s.slots ++ [s.connections], connections := s.connections + 1 }
  | .disconnect slot =>
      { s with slots := s.slots.filter (· ≠ slot), current := s.current.map (.without slot) }
  | .work throws => work throws s
  | .requestStop => if s.thread = .running then { s with thread := .stopping } else s
  | .flush => if s.thread = .joined then { s with UpdateEntryQueue := [] } else s

/-! ### What waits is published -/

/-- The entries that are queued and not done with. -/
def waiting (s : State) : List UpdateEntry :=
  (s.current.map Publication.entry).toList ++ s.UpdateEntryQueue

/-- The steps that the thread needs for them, at most. -/
def pending (s : State) : ℕ :=
  (match s.current with
    | none => 0
    | some p => p.remaining.length + 1) + s.UpdateEntryQueue.length * (s.slots.length + 2)

/-- The entries of some publications, in order. -/
def entries (published : List Publication) : List UpdateEntry := published.map Publication.entry

/-- A step of the thread keeps the order and the other entries. -/
theorem entries_work (throws : Bool) (s : State) :
    entries (work throws s).published ++ waiting (work throws s) =
      entries s.published ++ waiting s := by
  unfold work
  split
  · next hcurrent =>
    unfold dequeue
    split
    · split
      · rfl
      · next e queue hqueue => simp [waiting, hcurrent, hqueue]
    · rfl
  · next p hcurrent =>
    unfold publish
    split
    · simp [entries, waiting, hcurrent]
    · split
      · simp [entries, waiting, hcurrent]
      · simp [waiting, hcurrent]

/-- While it runs it comes closer to the end, whether a subscriber throws or not. -/
theorem pending_work {s : State} (hrunning : s.thread = .running) (throws : Bool) :
    (work throws s).thread = .running ∧ pending (work throws s) ≤ pending s - 1 := by
  unfold work
  split
  · next hcurrent =>
    unfold dequeue
    rw [hrunning]
    simp only
    split
    · next hqueue =>
      refine ⟨hrunning, ?_⟩
      simp [pending, hcurrent, hqueue]
    · next e queue hqueue =>
      refine ⟨rfl, ?_⟩
      simp only [pending, hcurrent, hqueue, List.length_cons, Nat.succ_mul]
      omega
  · next p hcurrent =>
    unfold publish
    split
    · refine ⟨hrunning, ?_⟩
      simp only [pending, hcurrent]
      omega
    · next slot remaining hremaining =>
      split
      · refine ⟨hrunning, ?_⟩
        simp only [pending, hcurrent]
        omega
      · refine ⟨hrunning, ?_⟩
        simp only [pending, hcurrent, hremaining, List.length_cons]
        omega

theorem waiting_of_pending {s : State} (h : pending s = 0) : waiting s = [] := by
  obtain ⟨hcurrent, hqueue⟩ := Nat.add_eq_zero_iff.mp h
  have hnone : s.current = none := by
    cases hsome : s.current with
    | none => rfl
    | some p =>
      rw [hsome] at hcurrent
      cases hcurrent
  have hnil : s.UpdateEntryQueue = [] := by
    rcases Nat.mul_eq_zero.mp hqueue with hlength | hslots
    · exact List.length_eq_zero_iff.mp hlength
    · cases hslots
  rw [waiting, hnone, hnil]
  rfl

/-- What waits is published if the thread gets its turns, whichever subscribers throw. -/
theorem published_works (literal : ℕ) {s : State} (hrunning : s.thread = .running)
    {throws : List Bool} (h : pending s ≤ throws.length) :
    entries ((throws.map Event.work).foldl (step literal) s).published =
      entries s.published ++ waiting s := by
  induction throws generalizing s with
  | nil =>
    rw [waiting_of_pending (Nat.le_zero.mp h), List.append_nil]
    rfl
  | cons t throws ih =>
    obtain ⟨hrunning', hpending⟩ := pending_work hrunning t
    rw [List.length_cons] at h
    rw [List.map_cons, List.foldl_cons, step, ih hrunning' (by omega), entries_work]

/-! ### Everything is right -/

/-- The entry that an invocation stands for. -/
def EntryFor (i : Invocation) (e : UpdateEntry) : Prop :=
  actionOf i.iAction = some e.action ∧ e.table = i.pTable ∧ e.rowIdx = i.iRowIdx

/-- There is one entry for each invocation, in order; each is published or waits, in order; it is
handed to every subscriber, and to none twice; and it can be indexed. -/
structure Right (s : State) : Prop where
  queued : List.Forall₂ EntryFor s.invocations s.queued
  inOrder : entries s.published ++ waiting s = s.queued
  handed : ∀ p ∈ s.published, p.remaining = []
  once : ∀ p ∈ s.published, p.handed.Nodup
  lengths : ∀ e ∈ s.queued, Lengths e
  inRange : ∀ e ∈ s.queued, (∀ vFields, InRange vFields e) ∧
    ∀ fieldName, (getFieldValue fieldName e).isSome = true

/-- An event after which that is so: the hook gets the text `"main"` of the code itself, and no
row that begins with `NULL`; only the last subscriber throws; and nothing waits when the manager
stops. -/
def Meets (literal : ℕ) (s : State) : Event → Prop
  | .hook i => i.pDB.address = literal ∧
      (i.iAction ≠ SQLITE_DELETE → ∀ row ∈ i.rows.getD [], ¬ StartsNull row)
  | .work throws => throws = true → ∀ p, s.current = some p → p.remaining.length ≤ 1
  | .flush => s.thread = .joined → s.UpdateEntryQueue = []
  | _ => True

/-- Connections are numbered, and an entry is handed to each once. -/
structure Numbered (s : State) : Prop where
  slots : s.slots.Nodup
  below : ∀ slot ∈ s.slots, slot < s.connections
  current : ∀ p, s.current = some p → (p.handed ++ p.remaining).Nodup
  published : ∀ p ∈ s.published, p.handed.Nodup

theorem numbered_publish {s : State} {p : Publication} (h : Numbered s)
    (hp : s.current = some p) (throws : Bool) : Numbered (publish throws s p) := by
  have hnodup := h.current p hp
  have hdone (p' : Publication) (hp' : p'.handed.Nodup) :
      ∀ q ∈ s.published ++ [p'], q.handed.Nodup := by
    rw [List.forall_mem_append, List.forall_mem_singleton]
    exact ⟨h.published, hp'⟩
  unfold publish
  split
  · exact ⟨h.slots, h.below, fun q => nofun, hdone p hnodup.of_append_left⟩
  · next slot remaining hremaining =>
    rw [hremaining, List.append_cons] at hnodup
    split
    · exact ⟨h.slots, h.below, fun q => nofun, hdone _ hnodup.of_append_left⟩
    · refine ⟨h.slots, h.below, fun q hq => ?_, h.published⟩
      rw [← Option.some.inj hq]
      exact hnodup

theorem numbered_step (literal : ℕ) (s : State) (e : Event) (h : Numbered s) :
    Numbered (step literal s e) := by
  cases e with
  | hook i => exact ⟨h.slots, h.below, h.current, h.published⟩
  | connect =>
    refine ⟨?_, fun slot hslot => ?_, h.current, h.published⟩
    · -- a slot is numbered by its connection
      have hfresh : s.connections ∉ s.slots := fun hmem => Nat.lt_irrefl _ (h.below _ hmem)
      show (s.slots ++ [s.connections]).Nodup
      rw [← List.concat_eq_append]
      exact h.slots.concat hfresh
    · rcases List.mem_append.mp hslot with hold | hnew
      · exact Nat.lt_succ_of_lt (h.below slot hold)
      · rw [List.mem_singleton.mp hnew]
        exact Nat.lt_succ_self _
  | disconnect slot =>
    refine ⟨h.slots.filter _, fun x hx => h.below x (List.mem_of_mem_filter hx), fun q hq => ?_,
      h.published⟩
    obtain ⟨p, hp, rfl⟩ := Option.map_eq_some_iff.mp hq
    exact (h.current p hp).sublist (List.filter_sublist.append_left _)
  | work throws =>
    show Numbered (work throws s)
    unfold work
    split
    · unfold dequeue
      split
      · split
        · exact h
        · refine ⟨h.slots, h.below, fun q hq => ?_, h.published⟩
          rw [← Option.some.inj hq]
          exact h.slots
      · exact ⟨h.slots, h.below, h.current, h.published⟩
    · next p hp => exact numbered_publish h hp throws
  | requestStop =>
    show Numbered (if _ then _ else _)
    split
    · exact ⟨h.slots, h.below, h.current, h.published⟩
    · exact h
  | flush =>
    show Numbered (if _ then _ else _)
    split
    · exact ⟨h.slots, h.below, h.current, h.published⟩
    · exact h

/-- Indexing is no condition of its own. -/
theorem Right.mk' {s : State} (hnumbered : Numbered s)
    (queued : List.Forall₂ EntryFor s.invocations s.queued)
    (inOrder : entries s.published ++ waiting s = s.queued)
    (handed : ∀ p ∈ s.published, p.remaining = []) (lengths : ∀ e ∈ s.queued, Lengths e) :
    Right s where
  queued := queued
  inOrder := inOrder
  handed := handed
  once := hnumbered.published
  lengths := lengths
  inRange e he :=
    ⟨inRange_of_lengths (lengths e he), getFieldValue_isSome (lengths e he)⟩

/-- The hook that gets the text of the code queues an entry for its invocation. -/
theorem callback_of_address {literal : ℕ} {i : Invocation} (h : i.pDB.address = literal) :
    ∃ e, callback literal i.toHook = some e ∧ EntryFor i e := by
  -- the columns are filled in, and the rest of the entry stays
  have hload (pEntry : UpdateEntry) (first : Bool) (row : List Cell) :
      (loadRow first pEntry row).action = pEntry.action ∧
        (loadRow first pEntry row).table = pEntry.table ∧
        (loadRow first pEntry row).rowIdx = pEntry.rowIdx := by
    induction row generalizing first pEntry with
    | nil => exact ⟨rfl, rfl, rfl⟩
    | cons cell cells ih =>
      rw [loadRow]
      cases cell.text with
      | none =>
        simp only
        split
        · exact ⟨rfl, rfl, rfl⟩
        · exact ih _ _
      | some value => exact ih _ _
  have hrows (pEntry : UpdateEntry) (rows : List (List Cell)) :
      (rows.foldl (loadRow true) pEntry).action = pEntry.action ∧
        (rows.foldl (loadRow true) pEntry).table = pEntry.table ∧
        (rows.foldl (loadRow true) pEntry).rowIdx = pEntry.rowIdx := by
    induction rows generalizing pEntry with
    | nil => exact ⟨rfl, rfl, rfl⟩
    | cons row rows ih =>
      obtain ⟨haction, htable, hrow⟩ := ih (loadRow true pEntry row)
      obtain ⟨haction', htable', hrow'⟩ := hload pEntry true row
      rw [List.foldl_cons, haction, htable, hrow]
      exact ⟨haction', htable', hrow'⟩
  -- the hook is called for three operations
  obtain ⟨action, haction⟩ : ∃ action, actionOf i.iAction = some action := by
    rcases i.documented with heq | heq | heq
    · exact ⟨str "Delete", by rw [heq]; rfl⟩
    · exact ⟨str "Insert", by rw [heq]; rfl⟩
    · exact ⟨str "Update", by rw [heq]; rfl⟩
  rw [callback, if_pos h, haction, Option.map_some]
  refine ⟨_, rfl, ?_⟩
  simp only
  split
  · obtain ⟨haction', htable, hrow⟩ := hrows
      { action, table := i.pTable, rowIdx := i.iRowIdx } (i.rows.getD [])
    refine ⟨?_, htable, hrow⟩
    rw [haction, haction']
  · exact ⟨haction, rfl, rfl⟩

theorem right_hook {literal : ℕ} {s : State} (hnumbered : Numbered s) (h : Right s)
    (i : Invocation) : Right (step literal s (.hook i)) ↔ Meets literal s (.hook i) := by
  have hnumbered' := numbered_step literal s (.hook i) hnumbered
  constructor
  · intro hright
    have hqueued : List.Forall₂ EntryFor (s.invocations ++ [i])
        (s.queued ++ (callback literal i.toHook).toList) := hright.queued
    have hlength := hqueued.length_eq
    rw [List.length_append, List.length_append, h.queued.length_eq] at hlength
    cases hcallback : callback literal i.toHook with
    | none =>
      rw [hcallback] at hlength
      simp at hlength
    | some e =>
      have haddress : i.pDB.address = literal := by
        by_contra hne
        rw [callback, if_neg hne] at hcallback
        cases hcallback
      refine ⟨haddress, (lengths_callback_iff hcallback).mp (hright.lengths e ?_)⟩
      show e ∈ s.queued ++ (callback literal i.toHook).toList
      rw [hcallback]
      exact List.mem_append_right _ List.mem_cons_self
  · rintro ⟨haddress, hrows⟩
    obtain ⟨e, he, hentry⟩ := callback_of_address haddress
    have hstep : step literal s (.hook i) = { s with
        UpdateEntryQueue := s.UpdateEntryQueue ++ [e]
        queued := s.queued ++ [e]
        invocations := s.invocations ++ [i] } := by
      rw [step, he]
      rfl
    rw [hstep] at hnumbered' ⊢
    refine Right.mk' hnumbered' ?_ ?_ h.handed ?_
    · exact List.rel_append h.queued (.cons hentry .nil)
    · rw [← h.inOrder]
      simp only [waiting, List.append_assoc]
    · rw [List.forall_mem_append, List.forall_mem_singleton]
      exact ⟨h.lengths, (lengths_callback_iff he).mpr hrows⟩

theorem right_work {literal : ℕ} {s : State} (hnumbered : Numbered s) (h : Right s)
    (throws : Bool) : Right (step literal s (.work throws)) ↔ Meets literal s (.work throws) := by
  have hnumbered' : Numbered (work throws s) := numbered_step literal s (.work throws) hnumbered
  have hentries : entries (work throws s).published ++ waiting (work throws s) = s.queued := by
    rw [entries_work, h.inOrder]
  -- the thread does not queue
  have hkept : (work throws s).invocations = s.invocations ∧
      (work throws s).queued = s.queued := by
    unfold work dequeue publish
    split
    · split
      · split
        · exact ⟨rfl, rfl⟩
        · exact ⟨rfl, rfl⟩
      · exact ⟨rfl, rfl⟩
    · split
      · exact ⟨rfl, rfl⟩
      · split
        · exact ⟨rfl, rfl⟩
        · exact ⟨rfl, rfl⟩
  have hright : Right (work throws s) ↔ ∀ p ∈ (work throws s).published, p.remaining = [] := by
    refine ⟨Right.handed, fun hhanded => Right.mk' hnumbered' ?_ ?_ hhanded ?_⟩
    · rw [hkept.1, hkept.2]
      exact h.queued
    · rw [hentries, hkept.2]
    · rw [hkept.2]
      exact h.lengths
  show Right (work throws s) ↔ _
  rw [hright, Meets]
  unfold work
  split
  · next hcurrent =>
    refine iff_of_true ?_ fun _ p hp => ?_
    · unfold dequeue
      split
      · split
        · exact h.handed
        · exact h.handed
      · exact h.handed
    · rw [hcurrent] at hp
      cases hp
  · next p hcurrent =>
    -- the condition is about the entry that the thread has
    have hone : (throws = true → ∀ p, s.current = some p → p.remaining.length ≤ 1) ↔
        (throws = true → p.remaining.length ≤ 1) := by
      rw [hcurrent]
      constructor
      · intro h' ht
        exact h' ht p rfl
      · intro h' ht q hq
        rw [← Option.some.inj hq]
        exact h' ht
    rw [hone]
    unfold publish
    split
    · next hremaining =>
      refine iff_of_true ?_ fun _ => ?_
      · rw [List.forall_mem_append, List.forall_mem_singleton]
        exact ⟨h.handed, hremaining⟩
      · rw [hremaining]
        exact Nat.zero_le _
    · next slot remaining hremaining =>
      split
      · next hthrows =>
        -- the entry is given up with the subscribers that are left
        rw [List.forall_mem_append, List.forall_mem_singleton, and_iff_right h.handed,
          forall_prop_of_true hthrows, hremaining, List.length_cons, Nat.succ_le_succ_iff,
          Nat.le_zero, List.length_eq_zero_iff]
      · next hthrows => exact iff_of_true h.handed fun ht => absurd ht hthrows

theorem right_flush {literal : ℕ} {s : State} (hnumbered : Numbered s) (h : Right s) :
    Right (step literal s .flush) ↔ Meets literal s .flush := by
  have hnumbered' := numbered_step literal s .flush hnumbered
  by_cases hjoined : s.thread = .joined
  · have hstep : step literal s .flush = { s with UpdateEntryQueue := [] } := if_pos hjoined
    rw [hstep] at hnumbered' ⊢
    rw [Meets, forall_prop_of_true hjoined]
    have hwaiting := h.inOrder
    constructor
    · intro hright
      have hdropped := hright.inOrder
      simp only [waiting, List.append_nil] at hdropped
      rw [waiting, ← List.append_assoc, hdropped] at hwaiting
      exact List.append_right_eq_self.mp hwaiting
    · intro hempty
      refine Right.mk' hnumbered' h.queued ?_ h.handed h.lengths
      rw [← hwaiting]
      simp only [waiting, hempty]
  · have hstep : step literal s .flush = s := if_neg hjoined
    rw [hstep]
    exact iff_of_true h fun hj => absurd hj hjoined

/-- One event. -/
theorem right_step {literal : ℕ} {s : State} (hnumbered : Numbered s) (h : Right s) (e : Event) :
    Right (step literal s e) ↔ Meets literal s e := by
  have hnumbered' := numbered_step literal s e hnumbered
  cases e with
  | hook i => exact right_hook hnumbered h i
  | connect =>
    exact iff_of_true ⟨h.queued, h.inOrder, h.handed, h.once, h.lengths, h.inRange⟩ trivial
  | disconnect slot =>
    refine iff_of_true (Right.mk' hnumbered' h.queued ?_ h.handed h.lengths) trivial
    rw [step, ← h.inOrder, waiting, waiting, Option.map_map]
    rfl
  | work throws => exact right_work hnumbered h throws
  | requestStop =>
    refine iff_of_true ?_ trivial
    show Right (if _ then _ else _)
    split
    · exact ⟨h.queued, h.inOrder, h.handed, h.once, h.lengths, h.inRange⟩
    · exact h
  | flush => exact right_flush hnumbered h

/-- **Everything is right**, in every state of a run of the hook, the thread, the subscribers and
`Stop`, **exactly if every event meets the condition.**  And in each state with the thread
running, right or not, what waits is published if the thread gets its turns, whichever
subscribers throw. -/
theorem right_iff_meets (literal : ℕ) (es : List Event) :
    ((∀ done, done <+: es → Right (done.foldl (step literal) {})) ↔
        Transition.Throughout (step literal) (Meets literal) {} es) ∧
      ∀ s, s = es.foldl (step literal) {} → s.thread = .running →
        ∀ throws : List Bool, pending s ≤ throws.length →
          entries ((throws.map Event.work).foldl (step literal) s).published =
            entries s.published ++ waiting s := by
  have hstart : Numbered {} :=
    ⟨List.nodup_nil, List.forall_mem_nil _, fun p => nofun, List.forall_mem_nil _⟩
  have hright : Right {} :=
    Right.mk' hstart .nil rfl (List.forall_mem_nil _) (List.forall_mem_nil _)
  refine ⟨?_, fun s _ hrunning throws h => published_works literal hrunning h⟩
  rw [Transition.forall_prefix_iff, and_iff_right hright]
  have hstep (s : State) (e : Event) (h : Numbered s ∧ Right s) :
      Right (step literal s e) ↔ Meets literal s e := right_step h.1 h.2 e
  refine Transition.throughout_congr_of_kept (fun s e h hP => ?_) hstep ⟨hstart, hright⟩ es
  exact ⟨numbered_step literal s e h.1, hP⟩

/-- An insertion whose `"main"` stands in the text of the library. -/
def elsewhere : Invocation where
  iAction := SQLITE_INSERT
  pDB := ⟨2, str "main"⟩
  pTable := str "Device"
  iRowIdx := 1
  rows := some [[⟨str "DeviceID", true, some (str "1")⟩, ⟨str "Name", false, some (str "x")⟩]]
  documented := .inr (.inl rfl)
  main := rfl

/-- A change that is not queued. -/
theorem elsewhere_dropped :
    ([Event.hook elsewhere].foldl (step 1) {}).queued = [] ∧
      ¬ ∀ done, done <+: [Event.hook elsewhere] → Right (done.foldl (step 1) {}) := by
  have hqueued : ([Event.hook elsewhere].foldl (step 1) {}).queued = [] := rfl
  refine ⟨hqueued, fun h => ?_⟩
  have hlength := (h _ (List.prefix_refl _)).queued.length_eq
  rw [hqueued] at hlength
  cases hlength

/-- A row whose first column is `NULL` leaves an entry that cannot be indexed. -/
example : (callback 2 { elsewhere with
    rows := some [[⟨str "DeviceID", false, none⟩, ⟨str "Name", false, none⟩]] }).bind
      (getFieldValue (str "DeviceID")) = none := by
  decide

end Domoticz.UpdatePublisher
