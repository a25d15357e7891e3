import Domoticz.CLib.Bytes
import Domoticz.Sql.Table

/-!
# Removing expired data

Every few minutes `MainWorker::RemoveExpiredData` takes one entry from a list of objects and
trims the log of that object, or the history of that value.  The three statements that trim a
log are written by hand; the one for devices compares the `DeviceID` of a row with the keys of
rows.

## Main definitions

* `Database`, `MainWorker` — what the function works on.
* `removeExpiredData` — `MainWorker::RemoveExpiredData`.
* `LeavesNewest` — what it is for.
* `Spared` — no device loses the wrong rows.

## Main results

* `leavesNewest_iff` — **a purge keeps the newest rows and touches nothing else exactly
  under `Spared`.**
* `other_device_purged` — a device loses its log to that of another one.
-/

namespace Domoticz

open CLib Sql

/-! ### The database -/

/-- A row of `InterfaceLog`, `DeviceLog` or `ValueLog`; the times are left out. -/
structure LogRow where
  /-- `InterfaceID`, `DeviceID` or `ValueID`. -/
  ownerID : ℤ
  message : Option Bytes
  deriving DecidableEq, Repr

/-- A row of `Value`. -/
structure ValueRow where
  name : Option Bytes
  value : Option Bytes
  retentionDays : Option ℤ
  retentionInterval : ℤ
  deriving DecidableEq, Repr

/-- A row of `ValueHistory`, its time in seconds. -/
structure HistoryRow where
  valueID : ℤ
  value : Option Bytes
  timestamp : ℤ
  deriving DecidableEq, Repr

/-- The tables of logs. -/
inductive LogTable
  | interfaceLog
  | deviceLog
  | valueLog
  deriving DecidableEq, Repr

/-- The tables that are purged, and what is read for it. -/
structure Database where
  /-- The keys of `Interface`. -/
  interfaces : List ℤ
  /-- The keys of `Device`. -/
  devices : List ℤ
  values : Table ValueRow
  log : LogTable → Table LogRow
  valueHistory : Table HistoryRow
  /-- The rows `InterfaceLogRows`, `DeviceLogRows` and `ValueLogRows` of `Preference`. -/
  logRows : LogTable → Option ℕ

/-- The tables with one log replaced. -/
def Database.setLog (db : Database) (log : LogTable) (t : Table LogRow) : Database :=
  { db with log := Function.update db.log log t }

/-- The rows of a value in the history. -/
def Database.historyOf (db : Database) (id : ℤ) : List (ℤ × HistoryRow) :=
  db.valueHistory.rows.filter fun r => r.2.valueID == id

/-! ### The list -/

/-- The kinds of entries that a purge goes through. -/
inductive RedEntryType
  | interfaceLog
  | deviceLog
  | valueLog
  | valueHistory
  deriving DecidableEq, Repr

/-- `redEntry`; the name is only logged. -/
structure RedEntry where
  type : RedEntryType
  id : ℤ
  /-- The days of a value's history. -/
  extra : Option ℤ := none
  deriving DecidableEq, Repr

/-- The log that an entry is about. -/
def RedEntry.log? (e : RedEntry) : Option LogTable :=
  match e.type with
  | .interfaceLog => some .interfaceLog
  | .deviceLog => some .deviceLog
  | .valueLog => some .valueLog
  | .valueHistory => none

/-- The part of `MainWorker` that removes data.  The numbers of rows are kept as texts, which
SQLite reads as numbers again. -/
structure MainWorker where
  redList : List RedEntry := []
  rowsToKeep : LogTable → ℕ := fun
    | .interfaceLog => 1000
    | .deviceLog => 500
    | .valueLog => 100

/-- The entries of a new list. -/
def redEntries (db : Database) : List RedEntry :=
  (db.interfaces.map fun id => ⟨.interfaceLog, id, none⟩) ++
    (db.devices.map fun id => ⟨.deviceLog, id, none⟩) ++
    db.values.rows.flatMap fun r =>
      [⟨.valueLog, r.1, none⟩, ⟨.valueHistory, r.1, r.2.retentionDays⟩]

/-- `RemoveExpiredData` for an empty list: the list and the numbers of rows are read again, and
a number without a preference becomes one. -/
def refill (db : Database) (w : MainWorker) : Database × MainWorker :=
  let rowsToKeep log := (db.logRows log).getD (w.rowsToKeep log)
  ({ db with logRows := fun log => some (rowsToKeep log) },
    { redList := redEntries db, rowsToKeep })

/-! ### The statements -/

/-- The rows of a log that belong to an object. -/
def ownedBy (id : ℤ) (r : ℤ × LogRow) : Bool := r.2.ownerID == id

/-- `DELETE FROM Log WHERE LogID IN (SELECT LogID FROM Log WHERE ID = id ..)`. -/
def purgeLog (t : Table LogRow) (id : ℤ) (n : ℕ) : Table LogRow :=
  t.delete fun r => (t.older (ownedBy id) n).contains r.1

/-- `DELETE FROM DeviceLog WHERE DeviceID IN (SELECT DeviceLogID FROM DeviceLog ..)`. -/
def purgeDeviceLog (t : Table LogRow) (id : ℤ) (n : ℕ) : Table LogRow :=
  t.delete fun r => (t.older (ownedBy id) n).contains r.2.ownerID

/-- `datetime('now', '-N days')`; there is no such time for a negative number. -/
def daysBefore (now : ℤ) (days : Option ℤ) : Option ℤ :=
  (days.filter fun d => 0 ≤ d).map fun d => now - d * 86400

/-- `DELETE FROM ValueHistory WHERE ValueID = id AND Timestamp < datetime('now', ..)`. -/
def purgeHistory (t : Table HistoryRow) (now id : ℤ) (days : Option ℤ) : Table HistoryRow :=
  t.delete fun r => r.2.valueID == id && (daysBefore now days).any fun limit => r.2.timestamp < limit

/-- The statement for an entry. -/
def purge (now : ℤ) (db : Database) (w : MainWorker) (e : RedEntry) : Database :=
  match e.type with
  | .interfaceLog =>
      db.setLog .interfaceLog
        (purgeLog (db.log .interfaceLog) e.id (w.rowsToKeep .interfaceLog))
  | .deviceLog =>
      db.setLog .deviceLog (purgeDeviceLog (db.log .deviceLog) e.id (w.rowsToKeep .deviceLog))
  | .valueLog =>
      db.setLog .valueLog (purgeLog (db.log .valueLog) e.id (w.rowsToKeep .valueLog))
  | .valueHistory => { db with valueHistory := purgeHistory db.valueHistory now e.id e.extra }

/-- `MainWorker::RemoveExpiredData` at some time. -/
def removeExpiredData (now : ℤ) (db : Database) (w : MainWorker) : Database × MainWorker :=
  match w.redList with
  | [] => refill db w
  | e :: redList => (purge now db w e, { w with redList })

/-! ### What it is for -/

/-- A log in which an object has only its newest rows left. -/
structure Trims (t : Table LogRow) (id : ℤ) (n : ℕ) (t' : Table LogRow) : Prop where
  kept : t'.rows.filter (ownedBy id) = newest n (t.rows.filter (ownedBy id))
  others : t'.rows.filter (fun r => !ownedBy id r) = t.rows.filter fun r => !ownedBy id r

/-- The next entry's log is trimmed, and nothing else is touched. -/
structure LeavesNewest (w : MainWorker) (db db' : Database) : Prop where
  trimmed : ∀ e ∈ w.redList.head?, ∀ log ∈ e.log?,
    Trims (db.log log) e.id (w.rowsToKeep log) (db'.log log)
  untouched : ∀ log, (∀ e ∈ w.redList.head?, e.log? ≠ some log) → db'.log log = db.log log
  history : ∀ id, (∀ e ∈ w.redList.head?, e.type = .valueHistory → e.id ≠ id) →
    db'.historyOf id = db.historyOf id
  objects : db'.interfaces = db.interfaces ∧ db'.devices = db.devices ∧ db'.values = db.values

/-- If the next entry is of a device that has more rows than are kept, then no rows are kept,
its `DeviceID` is the key of one of its rows, and no other device has the key of such a row. -/
def Spared (w : MainWorker) (db : Database) : Prop :=
  ∀ e ∈ w.redList.head?, e.type = .deviceLog →
    ((db.log .deviceLog).rows.filter (ownedBy e.id)).length ≤ w.rowsToKeep .deviceLog ∨
      (w.rowsToKeep .deviceLog = 0 ∧
        (∃ r ∈ (db.log .deviceLog).rows.filter (ownedBy e.id), r.1 = e.id) ∧
        ∀ r ∈ (db.log .deviceLog).rows.filter (ownedBy e.id), ∀ r' ∈ (db.log .deviceLog).rows,
          r'.2.ownerID = r.1 → r'.2.ownerID = e.id)

/-! ### The logs -/

theorem purgeLog_trims (t : Table LogRow) (id : ℤ) (n : ℕ) : Trims t id n (purgeLog t id n) :=
  ⟨t.filter_delete_older (ownedBy id) n, t.filter_not_delete_older (ownedBy id) n⟩

theorem ownerID_of_mem {t : Table LogRow} {id : ℤ} {r : ℤ × LogRow}
    (h : r ∈ t.rows.filter (ownedBy id)) : r.2.ownerID = id :=
  eq_of_beq (List.mem_filter.mp h).2

/-- The rows of the device itself go all or not at all. -/
theorem filter_purgeDeviceLog (t : Table LogRow) (id : ℤ) (n : ℕ) :
    (purgeDeviceLog t id n).rows.filter (ownedBy id) =
      if id ∈ t.older (ownedBy id) n then [] else t.rows.filter (ownedBy id) := by
  rw [purgeDeviceLog, Table.rows_delete, List.filter_comm]
  split
  · next hid =>
    rw [List.filter_eq_nil_iff]
    intro r hr
    rw [ownerID_of_mem hr, List.contains_iff_mem.mpr hid]
    exact Bool.false_ne_true
  · next hid =>
    rw [List.filter_eq_self]
    intro r hr
    rw [ownerID_of_mem hr, Bool.not_eq_true', Bool.eq_false_iff, ne_eq, List.contains_iff_mem]
    exact hid

theorem purgeDeviceLog_trims_iff (t : Table LogRow) (id : ℤ) (n : ℕ) :
    Trims t id n (purgeDeviceLog t id n) ↔
      (t.rows.filter (ownedBy id)).length ≤ n ∨
        (n = 0 ∧ (∃ r ∈ t.rows.filter (ownedBy id), r.1 = id) ∧
          ∀ r ∈ t.rows.filter (ownedBy id), ∀ r' ∈ t.rows,
            r'.2.ownerID = r.1 → r'.2.ownerID = id) := by
  constructor
  · rintro ⟨hkept, hothers⟩
    refine or_iff_not_imp_left.mpr fun hlen => ?_
    rw [filter_purgeDeviceLog] at hkept
    -- the own rows are all gone, since some of them have to go
    have hlength := congrArg List.length hkept
    rw [length_newest] at hlength
    split at hlength
    · next hid =>
      rw [List.length_nil] at hlength
      have hn : n = 0 := by omega
      subst hn
      refine ⟨rfl, (t.mem_older_zero (ownedBy id) id).mp hid, fun r hr r' hr' hkey => ?_⟩
      by_contra hne
      have hmem : r' ∈ t.rows.filter fun r => !ownedBy id r := by
        refine List.mem_filter.mpr ⟨hr', ?_⟩
        rw [Bool.not_eq_true', ownedBy, beq_eq_false_iff_ne]
        exact hne
      rw [← hothers] at hmem
      have hleft := (List.mem_filter.mp (List.mem_of_mem_filter hmem)).2
      rw [Bool.not_eq_true', Bool.eq_false_iff, ne_eq, List.contains_iff_mem] at hleft
      exact hleft ((t.mem_older_zero (ownedBy id) r'.2.ownerID).mpr ⟨r, hr, hkey.symm⟩)
    · omega
  · intro h
    rcases h with hlen | ⟨rfl, hid, hothers⟩
    · -- no key is old
      have hnil := (t.older_eq_nil_iff (ownedBy id) n).mpr hlen
      have hself : (purgeDeviceLog t id n).rows = t.rows := by
        rw [purgeDeviceLog, Table.rows_delete, hnil, List.filter_eq_self]
        exact fun _ _ => rfl
      exact ⟨by rw [hself, newest_of_length_le hlen], by rw [hself]⟩
    · refine ⟨?_, ?_⟩
      · rw [filter_purgeDeviceLog, if_pos ((t.mem_older_zero (ownedBy id) id).mpr hid), newest_zero]
      · rw [purgeDeviceLog, Table.rows_delete, List.filter_comm, List.filter_eq_self]
        intro r hr
        obtain ⟨hr, hnot⟩ := List.mem_filter.mp hr
        rw [Bool.not_eq_true', Bool.eq_false_iff, ne_eq, List.contains_iff_mem]
        intro hold
        obtain ⟨r', hr', hkey⟩ := (t.mem_older_zero (ownedBy id) r.2.ownerID).mp hold
        have hown := hothers r' hr' r hr hkey.symm
        rw [ownedBy, hown, beq_self_eq_true] at hnot
        cases hnot

/-! ### The frame -/

theorem historyOf_purgeHistory (db : Database) (now id : ℤ) (days : Option ℤ) {id' : ℤ}
    (h : id ≠ id') :
    ({ db with valueHistory := purgeHistory db.valueHistory now id days } : Database).historyOf id' =
      db.historyOf id' := by
  unfold Database.historyOf purgeHistory
  rw [Table.rows_delete, List.filter_comm, List.filter_eq_self]
  intro r hr
  have hid : r.2.valueID = id' := eq_of_beq (List.mem_filter.mp hr).2
  have hne : (r.2.valueID == id) = false := by
    rw [hid, beq_eq_false_iff_ne]
    exact h.symm
  rw [hne, Bool.false_and]
  rfl

/-- A statement for a log does what it should exactly if it trims that log. -/
theorem leavesNewest_setLog_iff {w : MainWorker} {db : Database} {e : RedEntry}
    {redList : List RedEntry} {log : LogTable} (hw : w.redList = e :: redList)
    (hlog : e.log? = some log) (t : Table LogRow) :
    LeavesNewest w db (db.setLog log t) ↔ Trims (db.log log) e.id (w.rowsToKeep log) t := by
  have hhead : w.redList.head? = some e := by rw [hw, List.head?_cons]
  have hself : (db.setLog log t).log log = t := Function.update_self ..
  constructor
  · intro h
    have htrims := h.trimmed e hhead log hlog
    rwa [hself] at htrims
  · intro h
    refine ⟨fun e' he' log' hlog' => ?_, fun log' hother => ?_, fun _ _ => rfl, rfl, rfl, rfl⟩
    · rw [hhead] at he'
      obtain rfl := Option.some.inj he'
      rw [hlog] at hlog'
      obtain rfl := Option.some.inj hlog'
      rwa [hself]
    · refine Function.update_of_ne ?_ _ _
      rintro rfl
      exact hother e hhead hlog

/-- A purge keeps the newest rows and touches nothing else exactly if the devices are spared. -/
theorem leavesNewest_iff (now : ℤ) (w : MainWorker) (db : Database) :
    LeavesNewest w db (removeExpiredData now db w).1 ↔ Spared w db := by
  unfold removeExpiredData Spared
  cases hw : w.redList with
  | nil =>
    have hhead : w.redList.head? = none := by rw [hw, List.head?_nil]
    refine iff_of_true ⟨?_, fun _ _ => rfl, fun _ _ => rfl, rfl, rfl, rfl⟩ ?_
    · intro e he
      rw [hhead] at he
      cases he
    · intro e he
      cases he
  | cons e redList =>
    have hhead : w.redList.head? = some e := by rw [hw, List.head?_cons]
    -- one entry of the list is worked off in a pass
    have hspared {P : RedEntry → Prop} : (∀ e' ∈ (e :: redList).head?, P e') ↔ P e := by
      rw [List.head?_cons]
      exact ⟨fun h => h e rfl, fun h e' he' => Option.some.inj he' ▸ h⟩
    rw [hspared]
    simp only
    unfold purge
    cases htype : e.type with
    | interfaceLog =>
      have hlog : e.log? = some .interfaceLog := by rw [RedEntry.log?, htype]
      simp only
      rw [leavesNewest_setLog_iff hw hlog]
      exact iff_of_true (purgeLog_trims _ _ _) (fun h => by cases h)
    | deviceLog =>
      have hlog : e.log? = some .deviceLog := by rw [RedEntry.log?, htype]
      simp only
      rw [leavesNewest_setLog_iff hw hlog, purgeDeviceLog_trims_iff]
      exact ⟨fun h _ => h, fun h => h trivial⟩
    | valueLog =>
      have hlog : e.log? = some .valueLog := by rw [RedEntry.log?, htype]
      simp only
      rw [leavesNewest_setLog_iff hw hlog]
      exact iff_of_true (purgeLog_trims _ _ _) (fun h => by cases h)
    | valueHistory =>
      have hlog : e.log? = none := by rw [RedEntry.log?, htype]
      refine iff_of_true ⟨?_, fun _ _ => rfl, fun id hid => ?_, rfl, rfl, rfl⟩ (fun h => by cases h)
      · intro e' he' log hlog'
        rw [hhead] at he'
        obtain rfl := Option.some.inj he'
        rw [hlog] at hlog'
        cases hlog'
      · exact historyOf_purgeHistory db now e.id e.extra (hid e hhead htype)

/-! ### A failure -/

/-- Device 1 has two rows and keeps one; the older has the key of device 2. -/
def twoDevices : Database where
  interfaces := []
  devices := [1, 2]
  values := Table.empty
  log
    | .deviceLog =>
      ⟨[(2, ⟨1, none⟩), (3, ⟨2, none⟩), (4, ⟨1, none⟩)], 4, by decide, by decide⟩
    | _ => Table.empty
  valueHistory := Table.empty
  logRows _ := some 1

/-- The purge of the one deletes the log of the other. -/
theorem other_device_purged : ¬ LeavesNewest ⟨[⟨.deviceLog, 1, none⟩], fun _ => 1⟩ twoDevices
    (removeExpiredData 0 twoDevices ⟨[⟨.deviceLog, 1, none⟩], fun _ => 1⟩).1 := by
  intro h
  have hothers := (h.trimmed _ rfl .deviceLog rfl).others
  revert hothers
  decide

end Domoticz
