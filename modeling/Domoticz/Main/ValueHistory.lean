import Domoticz.Main.ExpiredData
import Domoticz.Transition

/-!
# The history of values

A trigger records the changes of a value in its history, at most one in so many seconds.  It
compares the time with the largest one in the history, and there is none when the history was
purged.  The comparison with `NULL` is not true, so nothing is recorded any more.

## Main definitions

* `insertValue`, `updateValue` — the statements, with their triggers.
* `ValueEvent`, `step` — inserts, updates and runs of `RemoveExpiredData`.
* `Recorded` — an update is recorded as it should be.
* `Remains` — something remains of the history of a value that changes.

## Main results

* `maxTimestamp_eq` — the largest time is that of the latest row.
* `history_complete_iff` — **the history is complete exactly if something always remains.**
* `history_stays_empty` — what was purged stays empty.
-/

namespace Domoticz

open CLib Sql Transition

/-! ### The triggers -/

/-- `'Value "' || Name || '"'`. -/
def nameText (name : Option Bytes) : Option Bytes :=
  name.map fun n => str "Value " ++ 0x22 :: n ++ [0x22]

/-- The message for a new value. -/
def createdMessage (row : ValueRow) : Option Bytes :=
  (nameText row.name).map fun t => t ++ str " created."

/-- The message for a value that changed. -/
def updatedMessage (old new : ValueRow) : Option Bytes :=
  (nameText new.name).bind fun t => old.value.bind fun v => new.value.map fun v' =>
    t ++ str " updated from " ++ 0x22 :: v ++ 0x22 :: str " to " ++ 0x22 :: v' ++ 0x22 :: str "."

/-- What both triggers do. -/
def recordValue (db : Database) (now id : ℤ) (value message : Option Bytes) : Database :=
  { db.setLog .valueLog ((db.log .valueLog).insert ⟨id, message⟩) with
    valueHistory := db.valueHistory.insert ⟨id, value, now⟩ }

/-- `INSERT INTO Value`, with `ValueAfterInsertTrigger`. -/
def insertValue (now : ℤ) (row : ValueRow) (db : Database) : Database :=
  recordValue { db with values := db.values.insert row } now (db.values.seq + 1) row.value
    (createdMessage row)

/-- `SELECT max(Timestamp) FROM ValueHistory WHERE ValueID = id`. -/
def maxTimestamp (db : Database) (id : ℤ) : Option ℤ :=
  ((db.historyOf id).map fun r => r.2.timestamp).max?

/-- The condition of `ValueAfterUpdateTrigger`; with a `NULL` it is not true. -/
def afterUpdate (now : ℤ) (db : Database) (id : ℤ) (old new : ValueRow) : Bool :=
  match old.value, new.value, maxTimestamp db id with
  | some v, some v', some latest => v != v' && decide (new.retentionInterval ≤ now - latest)
  | _, _, _ => false

/-- `UPDATE Value .. WHERE ValueID = id`, with `ValueAfterUpdateTrigger`. -/
def updateValue (now id : ℤ) (new : ValueRow) (db : Database) : Database :=
  match db.values.get? id with
  | none => db
  | some old =>
      let db' := { db with values := db.values.set id new }
      if afterUpdate now db id old new then
        recordValue db' now id new.value (updatedMessage old new)
      else db'

/-! ### The events -/

/-- What happens to the values. -/
inductive ValueEvent
  | insert (row : ValueRow)
  | update (id : ℤ) (new : ValueRow)
  | removeExpiredData
  deriving DecidableEq, Repr

/-- The database, the main worker and `CURRENT_TIMESTAMP`. -/
structure HistoryState where
  db : Database
  worker : MainWorker
  clock : ℤ

/-- A database without rows. -/
def HistoryState.initial (clock : ℤ) : HistoryState where
  db := ⟨[], [], Table.empty, fun _ => Table.empty, Table.empty, fun _ => none⟩
  worker := {}
  clock

/-- An event, some seconds after the one before. -/
def step (s : HistoryState) (e : ℕ × ValueEvent) : HistoryState :=
  let now := s.clock + e.1
  match e.2 with
  | .insert row => { s with db := insertValue now row s.db, clock := now }
  | .update id new => { s with db := updateValue now id new s.db, clock := now }
  | .removeExpiredData =>
      let (db, worker) := removeExpiredData now s.db s.worker
      ⟨db, worker, now⟩

/-! ### What the history is for -/

/-- The time is over in which a change is not recorded. -/
def Due (now : ℤ) (db : Database) (id : ℤ) (new : ValueRow) : Prop :=
  ∀ r ∈ (db.historyOf id).getLast?, new.retentionInterval ≤ now - r.2.timestamp

instance (now : ℤ) (db : Database) (id : ℤ) (new : ValueRow) : Decidable (Due now db id new) := by
  unfold Due
  infer_instance

/-- The history after an update of a value. -/
def recordedHistory (now : ℤ) (db : Database) (id : ℤ) (old new : ValueRow) :
    List (ℤ × HistoryRow) :=
  if old.value ≠ new.value ∧ Due now db id new then
    db.historyOf id ++ [(db.valueHistory.seq + 1, ⟨id, new.value, now⟩)]
  else db.historyOf id

/-- An update records a change that is due, and nothing else. -/
def Recorded (s : HistoryState) (e : ℕ × ValueEvent) : Prop :=
  match e.2 with
  | .update id new => ∀ old ∈ s.db.values.get? id,
      (step s e).db.historyOf id = recordedHistory (s.clock + e.1) s.db id old new
  | _ => True

/-- A value that changes has a row in its history, and is not and was not `NULL` if the change
is due. -/
def Remains (s : HistoryState) (e : ℕ × ValueEvent) : Prop :=
  match e.2 with
  | .update id new => ∀ old ∈ s.db.values.get? id, old.value ≠ new.value →
      s.db.historyOf id ≠ [] ∧
        (Due (s.clock + e.1) s.db id new → old.value ≠ none ∧ new.value ≠ none)
  | _ => True

/-! ### The order of the history -/

/-- The rows of the history are in the order of their times. -/
structure InOrder (s : HistoryState) : Prop where
  ordered : s.db.valueHistory.rows.Pairwise fun r r' => r.2.timestamp ≤ r'.2.timestamp
  le_clock : ∀ r ∈ s.db.valueHistory.rows, r.2.timestamp ≤ s.clock

theorem inOrder_initial (clock : ℤ) : InOrder (.initial clock) :=
  ⟨List.Pairwise.nil, List.forall_mem_nil _⟩

/-- Rows may go. -/
theorem InOrder.of_sublist {s s' : HistoryState} (h : InOrder s) (hclock : s.clock ≤ s'.clock)
    (hrows : s'.db.valueHistory.rows.Sublist s.db.valueHistory.rows) : InOrder s' :=
  ⟨h.ordered.sublist hrows, fun r hr => (h.le_clock r (hrows.subset hr)).trans hclock⟩

/-- A row of the present may come. -/
theorem InOrder.of_insert {s s' : HistoryState} {id : ℤ} {value : Option Bytes} (h : InOrder s)
    (hclock : s.clock ≤ s'.clock)
    (hrows : s'.db.valueHistory = s.db.valueHistory.insert ⟨id, value, s'.clock⟩) :
    InOrder s' := by
  have hpast : ∀ r ∈ s.db.valueHistory.rows, r.2.timestamp ≤ s'.clock :=
    fun r hr => (h.le_clock r hr).trans hclock
  constructor
  · rw [hrows, Table.rows_insert, List.pairwise_append]
    refine ⟨h.ordered, List.pairwise_singleton _ _, fun r hr r' hr' => ?_⟩
    rw [List.mem_singleton.mp hr']
    exact hpast r hr
  · intro r hr
    rw [hrows, Table.rows_insert] at hr
    rcases List.mem_append.mp hr with hr | hr
    · exact hpast r hr
    · rw [List.mem_singleton.mp hr]

/-- The history after an update: a new row, if the condition of the trigger holds. -/
theorem valueHistory_updateValue (now : ℤ) (new : ValueRow) {id : ℤ} {old : ValueRow} {db : Database}
    (hold : db.values.get? id = some old) :
    (updateValue now id new db).valueHistory =
      if afterUpdate now db id old new then db.valueHistory.insert ⟨id, new.value, now⟩
      else db.valueHistory := by
  unfold updateValue
  simp only [hold]
  split <;> rfl

theorem rows_removeExpiredData_sublist (now : ℤ) (db : Database) (w : MainWorker) :
    (removeExpiredData now db w).1.valueHistory.rows.Sublist db.valueHistory.rows := by
  unfold removeExpiredData
  split
  · exact List.Sublist.refl _
  · next e redList _ =>
    unfold purge
    split
    · exact List.Sublist.refl _
    · exact List.Sublist.refl _
    · exact List.Sublist.refl _
    · exact List.filter_sublist

/-- Every event keeps the order, since the time does not go back. -/
theorem inOrder_step (s : HistoryState) (e : ℕ × ValueEvent) (h : InOrder s) : InOrder (step s e) := by
  obtain ⟨elapsed, e⟩ := e
  have hclock : s.clock ≤ s.clock + elapsed := by omega
  cases e with
  | insert row => exact h.of_insert hclock rfl
  | update id new =>
    cases hold : s.db.values.get? id with
    | none =>
      refine h.of_sublist hclock ?_
      show (updateValue (s.clock + elapsed) id new s.db).valueHistory.rows.Sublist _
      rw [updateValue, hold]
    | some old =>
      by_cases hfires : afterUpdate (s.clock + elapsed) s.db id old new = true
      · have hrows := valueHistory_updateValue (s.clock + elapsed) new hold
        rw [if_pos hfires] at hrows
        exact h.of_insert hclock hrows
      · refine h.of_sublist hclock ?_
        show (updateValue (s.clock + elapsed) id new s.db).valueHistory.rows.Sublist _
        rw [valueHistory_updateValue _ _ hold, if_neg hfires]
  | removeExpiredData => exact h.of_sublist hclock (rows_removeExpiredData_sublist _ _ _)

/-- The largest of ordered times is the last one. -/
theorem max?_of_pairwise {l : List ℤ} (h : l.Pairwise (· ≤ ·)) : l.max? = l.getLast? := by
  rcases List.eq_nil_or_concat l with rfl | ⟨front, last, rfl⟩
  · rfl
  · rw [List.concat_eq_append] at h ⊢
    rw [List.getLast?_concat, List.max?_eq_some_iff]
    refine ⟨List.mem_append_right _ List.mem_cons_self, fun b hb => ?_⟩
    rcases List.mem_append.mp hb with hb | hb
    · exact (List.pairwise_append.mp h).2.2 b hb last List.mem_cons_self
    · exact (List.mem_singleton.mp hb).le

/-- The largest time of a value is that of its latest row. -/
theorem maxTimestamp_eq {s : HistoryState} (h : InOrder s) (id : ℤ) :
    maxTimestamp s.db id = ((s.db.historyOf id).getLast?).map fun r => r.2.timestamp := by
  have hordered : ((s.db.historyOf id).map fun r => r.2.timestamp).Pairwise (· ≤ ·) := by
    rw [List.pairwise_map]
    exact h.ordered.filter _
  rw [maxTimestamp, max?_of_pairwise hordered, List.getLast?_map]

/-! ### The changes that are recorded -/

/-- The trigger fires for a change that is due, if there is no `NULL`. -/
theorem afterUpdate_iff {s : HistoryState} (h : InOrder s) (now id : ℤ) (old new : ValueRow) :
    afterUpdate now s.db id old new = true ↔
      (old.value ≠ new.value ∧ Due now s.db id new) ∧
        s.db.historyOf id ≠ [] ∧ old.value ≠ none ∧ new.value ≠ none := by
  unfold afterUpdate Due
  rw [maxTimestamp_eq h]
  cases hlast : (s.db.historyOf id).getLast? with
  | none =>
    have hnil : s.db.historyOf id = [] := List.getLast?_eq_none_iff.mp hlast
    refine iff_of_false ?_ fun hr => hr.2.1 hnil
    cases old.value <;> cases new.value <;> exact Bool.false_ne_true
  | some r =>
    have hne : s.db.historyOf id ≠ [] := by
      intro hnil
      rw [hnil] at hlast
      cases hlast
    cases hold : old.value with
    | none => simp
    | some v =>
      cases hnew : new.value with
      | none => simp
      | some v' => simp [hne]

/-- The rows of a value after an update. -/
theorem historyOf_updateValue {now id : ℤ} {old new : ValueRow} {db : Database}
    (hold : db.values.get? id = some old) :
    (updateValue now id new db).historyOf id =
      if afterUpdate now db id old new then
        db.historyOf id ++ [(db.valueHistory.seq + 1, ⟨id, new.value, now⟩)]
      else db.historyOf id := by
  unfold Database.historyOf
  rw [valueHistory_updateValue _ _ hold]
  split
  · rw [Table.rows_insert, List.filter_append, List.filter_singleton, beq_self_eq_true]
    rfl
  · rfl

/-- One event: what is recorded is right exactly if something remains. -/
theorem recorded_iff (s : HistoryState) (e : ℕ × ValueEvent) (h : InOrder s) :
    Recorded s e ↔ Remains s e := by
  obtain ⟨elapsed, e⟩ := e
  cases e with
  | insert row => exact Iff.rfl
  | removeExpiredData => exact Iff.rfl
  | update id new =>
    refine forall₂_congr fun old hold => ?_
    show (updateValue (s.clock + elapsed) id new s.db).historyOf id = _ ↔ _
    rw [historyOf_updateValue hold, recordedHistory]
    have hfires := afterUpdate_iff h (s.clock + elapsed) id old new
    have hgrows (r : ℤ × HistoryRow) : s.db.historyOf id ≠ s.db.historyOf id ++ [r] := by
      intro heq
      have hlen := congrArg List.length heq
      rw [List.length_append, List.length_singleton] at hlen
      omega
    by_cases hdue : old.value ≠ new.value ∧ Due (s.clock + elapsed) s.db id new
    · rw [if_pos hdue]
      by_cases hf : afterUpdate (s.clock + elapsed) s.db id old new = true
      · have hall := (hfires.mp hf).2
        rw [if_pos hf]
        exact iff_of_true rfl fun _ => ⟨hall.1, fun _ => hall.2⟩
      · rw [if_neg hf]
        refine iff_of_false (hgrows _) fun hremains => hf ?_
        obtain ⟨hne, hnull⟩ := hremains hdue.1
        exact hfires.mpr ⟨hdue, hne, hnull hdue.2⟩
    · rw [if_neg hdue, if_neg (fun hf => hdue (hfires.mp hf).1)]
      refine iff_of_true rfl fun hchanged => ⟨fun hnil => hdue ⟨hchanged, ?_⟩, fun hd => ?_⟩
      · -- without a row everything is due
        intro r hr
        rw [hnil] at hr
        cases hr
      · exact absurd ⟨hchanged, hd⟩ hdue

/-- The history is complete exactly if something always remains. -/
theorem history_complete_iff (start : ℤ) (events : List (ℕ × ValueEvent)) :
    Throughout step Recorded (.initial start) events ↔
      Throughout step Remains (.initial start) events :=
  throughout_congr inOrder_step recorded_iff (inOrder_initial start) events

/-! ### A history that is empty -/

/-- A value is there, and its history is not. -/
def Emptied (id : ℤ) (s : HistoryState) : Prop :=
  id ≤ s.db.values.seq ∧ s.db.historyOf id = []

theorem historyOf_insert_of_ne {db db' : Database} {id id' now : ℤ} {value : Option Bytes}
    (hrows : db'.valueHistory = db.valueHistory.insert ⟨id', value, now⟩) (hne : id' ≠ id) :
    db'.historyOf id = db.historyOf id := by
  unfold Database.historyOf
  rw [hrows, Table.rows_insert, List.filter_append, List.filter_singleton]
  have hother : (id' == id) = false := beq_eq_false_iff_ne.mpr hne
  simp only [hother, cond_false, List.append_nil]

theorem emptied_step (id : ℤ) (s : HistoryState) (e : ℕ × ValueEvent) (h : Emptied id s) :
    Emptied id (step s e) := by
  obtain ⟨elapsed, e⟩ := e
  obtain ⟨hle, hnil⟩ := h
  cases e with
  | insert row =>
    -- the key of a new value is larger
    refine ⟨hle.trans (Int.le_add_one le_rfl), ?_⟩
    have hne : s.db.values.seq + 1 ≠ id := by omega
    exact (historyOf_insert_of_ne rfl hne).trans hnil
  | update id' new =>
    show _ ∧ (updateValue (s.clock + elapsed) id' new s.db).historyOf id = []
    cases hold : s.db.values.get? id' with
    | none =>
      have hself : updateValue (s.clock + elapsed) id' new s.db = s.db := by
        rw [updateValue, hold]
      exact ⟨by simp only [step, hself]; exact hle, by rw [hself]; exact hnil⟩
    | some old =>
      have hseq : (step s (elapsed, .update id' new)).db.values.seq = s.db.values.seq := by
        simp only [step, updateValue, hold]
        split <;> rfl
      refine ⟨hseq ▸ hle, ?_⟩
      have hrows := valueHistory_updateValue (s.clock + elapsed) new hold
      by_cases hid : id' = id
      · subst hid
        -- there is no largest time
        have hfires : afterUpdate (s.clock + elapsed) s.db id' old new = false := by
          unfold afterUpdate maxTimestamp
          rw [hnil]
          cases old.value <;> cases new.value <;> rfl
        rw [historyOf_updateValue hold, hfires, hnil]
        rfl
      · split at hrows
        · exact (historyOf_insert_of_ne hrows hid).trans hnil
        · unfold Database.historyOf at hnil ⊢
          rw [hrows]
          exact hnil
  | removeExpiredData =>
    have hseq : (removeExpiredData (s.clock + elapsed) s.db s.worker).1.values = s.db.values := by
      unfold removeExpiredData
      split
      · rfl
      · unfold purge
        split <;> rfl
    refine ⟨hseq ▸ hle, List.eq_nil_of_subset_nil fun r hr => ?_⟩
    rw [← hnil]
    obtain ⟨hr, hvalue⟩ := List.mem_filter.mp hr
    exact List.mem_filter.mpr ⟨(rows_removeExpiredData_sublist _ _ _).subset hr, hvalue⟩

/-- Once it is empty, the history of a value stays so, whatever its value is set to. -/
theorem history_stays_empty {id : ℤ} {s : HistoryState} (h : Emptied id s)
    (events : List (ℕ × ValueEvent)) : (events.foldl step s).db.historyOf id = [] :=
  (run_invariant (emptied_step id) h events).2

/-- A value that keeps no days, and changes a second after its history was purged. -/
def purgedEvents : List (ℕ × ValueEvent) :=
  [(0, .insert ⟨some [], some (str "1"), some 0, 0⟩), (0, .removeExpiredData),
    (0, .removeExpiredData), (1, .removeExpiredData),
    (0, .update 1 ⟨some [], some (str "2"), some 0, 0⟩)]

/-- The change is not recorded. -/
theorem change_not_recorded : ¬ Throughout step Recorded (.initial 0) purgedEvents := by
  intro h
  have hupdate := h.2.2.2.2.1
  revert hupdate
  show ¬ ∀ old ∈ some (⟨some [], some (str "1"), some 0, 0⟩ : ValueRow), _
  intro hupdate
  have hrows := hupdate _ rfl
  revert hrows
  decide

end Domoticz
