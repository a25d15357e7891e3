import Domoticz.CLib.Number
import Domoticz.Transition

/-!
# Accepting new hardware

Whether new hardware is accepted is a preference.  `AllowNewHardwareTimer` accepts it for some
minutes, and the thread of the SQL helper then restores what was before.  `OpenDatabase` reads the
preference, but looks at the text only after it has read two others into the same variable.

## Main definitions

* `openDatabase`, `allowNewHardwareTimer`, `doWork` — the functions of `CSQLHelper`.
* `Consistent`, `Restored` — what is asked of a state, and of the end of the timer.
* `Kept` — what is asked of a run.
* `Clear` — every time the database is opened, the last text read happens to be right.

## Main results

* `restored_of_expired` — the end of the timer restores what was before the first call.
* `accept_kept_iff` — **a run keeps what is asked exactly if it is clear.**
* `fresh_refused` — a new database.
-/

namespace Domoticz.AcceptNewHardware

open CLib Transition

/-! ### Preferences -/

/-- The database. -/
structure Database where
  /-- There is a table `Interface`. -/
  hasInterface : Bool
  /-- The table `Preference`: the text that a query finds for a name. -/
  preference : Bytes → Option Bytes

/-- `CSQLHelper::UpdatePreferencesVar`. -/
def Database.updatePreferencesVar (db : Database) (Name Value : Bytes) : Database :=
  { db with preference := Function.update db.preference Name (some Value) }

/-- `CSQLHelper::GetPreferencesVar`: the value, and the database, in which a default is stored. -/
def Database.getPreferencesVar (db : Database) (Name Default : Bytes) : Bytes × Database :=
  match db.preference Name with
  | none => (Default, db.updatePreferencesVar Name Default)
  | some Value => (Value, db)

/-- `CSQLHelper::GetPreferencesVar` of a number. -/
def Database.getPreferencesInt (db : Database) (Name : Bytes) (Default : ℤ) : ℤ × Database :=
  match db.preference Name with
  | none => (Default, db.updatePreferencesVar Name (decimal Default))
  | some Value => (atoi (cstr Value), db)

/-! ### The SQL helper -/

/-- `CSQLHelper`, with a database that is open, and the values that the constructor sets. -/
structure CSQLHelper where
  m_dbase : Database
  m_bAcceptNewHardware : Bool := true
  m_bAcceptHardwareTimerActive : Bool := false
  m_iAcceptHardwareTimerCounter : Float32.Model := .ofNat 0
  m_bPreviousAcceptNewHardware : Bool := false

/-- `DB_VERSION`, which a new database is given. -/
def DB_VERSION : ℤ := 1

/-- The preferences that `OpenDatabase` reads before the longitude. -/
def Database.readPreferences (db : Database) : Database :=
  let db := db.updatePreferencesVar (str "DB_Version") (decimal DB_VERSION)
  let db := (db.getPreferencesVar (str "Title") (str "Domoticz")).2
  let db := (db.getPreferencesVar (str "UseAutoUpdate") (str "True")).2
  let db := (db.getPreferencesVar (str "UseAutoBackup") (str "True")).2
  let db := (db.getPreferencesVar (str "Language") (str "en")).2
  let db := (db.getPreferencesInt (str "AuthenticationMethod") 0).2
  let db := (db.getPreferencesVar (str "AcceptNewHardware") (str "True")).2
  (db.getPreferencesVar (str "Latitude") (str "-37.000000")).2

/-- The version of the database, which is zero before there are tables. -/
def Database.dbversion (db : Database) : ℤ × Database :=
  if db.hasInterface then db.getPreferencesInt (str "DB_Version") 0 else (0, db)

/-- `CSQLHelper::OpenDatabase`, for a file that SQLite opens: nothing if it returns `false`, as the
database is of a newer version.  `sValue` holds the longitude when it is compared. -/
def CSQLHelper.openDatabase (s : CSQLHelper) : Option CSQLHelper :=
  if DB_VERSION < s.m_dbase.dbversion.1 then none
  else
    let db := ({ s.m_dbase.dbversion.2 with hasInterface := true } : Database).readPreferences
    let sValue := db.getPreferencesVar (str "Longitude") (str "145.000000")
    some { s with m_dbase := sValue.2, m_bAcceptNewHardware := sValue.1 == str "True" }

/-- `timer_resolution_hz`, the passes of `Do_Work` in a second. -/
def timer_resolution_hz : ℕ := 25

/-- A round of `CSQLHelper::Do_Work`. -/
def CSQLHelper.doWork (s : CSQLHelper) : CSQLHelper :=
  if s.m_bAcceptHardwareTimerActive then
    -- `1. / timer_resolution_hz` as a `float`
    let counter := s.m_iAcceptHardwareTimerCounter.sub (.ofScientific 4 (-2))
    let s := { s with m_iAcceptHardwareTimerCounter := counter }
    if counter ≤ ((Float32.Model.ofNat 1).div (.ofNat timer_resolution_hz)).div (.ofNat 2) then
      { s with
        m_bAcceptHardwareTimerActive := false
        m_bAcceptNewHardware := s.m_bPreviousAcceptNewHardware
        m_dbase := s.m_dbase.updatePreferencesVar (str "AcceptNewHardware")
          (if s.m_bPreviousAcceptNewHardware then str "True" else str "False") }
    else s
  else s

/-- `CSQLHelper::AllowNewHardwareTimer`. -/
def CSQLHelper.allowNewHardwareTimer (s : CSQLHelper) (iTotMinutes : Int32) : CSQLHelper :=
  { s with
    m_iAcceptHardwareTimerCounter := (Float32.Model.ofInt32 iTotMinutes).mul (.ofNat 60)
    m_bPreviousAcceptNewHardware :=
      if s.m_bAcceptHardwareTimerActive = false then s.m_bAcceptNewHardware
      else s.m_bPreviousAcceptNewHardware
    m_bAcceptNewHardware := true
    m_bAcceptHardwareTimerActive := true }

/-! ### Runs -/

/-- What happens to the SQL helper. -/
inductive Event
  /-- `OpenDatabase`, after the thread was stopped. -/
  | openDatabase
  /-- A new process, that opens the same database. -/
  | restart
  | allowNewHardwareTimer (iTotMinutes : Int32)
  /-- A round of the thread. -/
  | tick

/-- The SQL helper of a new process, if the database is not of a newer version. -/
def start (db : Database) : Option CSQLHelper := ({ m_dbase := db } : CSQLHelper).openDatabase

/-- What an event does to the helper; what throws leaves it as it is. -/
def step (s : CSQLHelper) : Event → CSQLHelper
  | .openDatabase => s.openDatabase.getD s
  | .restart => (start s.m_dbase).getD s
  | .allowNewHardwareTimer iTotMinutes => s.allowNewHardwareTimer iTotMinutes
  | .tick => s.doWork

/-- The state after some events. -/
def run (s : CSQLHelper) (es : List Event) : CSQLHelper := es.foldl step s

/-- The preference that is stored. -/
def Database.acceptNewHardware (db : Database) : Bool :=
  db.preference (str "AcceptNewHardware") == some (str "True")

/-- What is asked of a state. -/
structure Consistent (s : CSQLHelper) : Prop where
  inactive : s.m_bAcceptHardwareTimerActive = false →
    s.m_bAcceptNewHardware = s.m_dbase.acceptNewHardware
  active : s.m_bAcceptHardwareTimerActive = true → s.m_bAcceptNewHardware = true

/-- The value of a state is that of an earlier one, and is stored. -/
structure Restored (earlier s : CSQLHelper) : Prop where
  memory : s.m_bAcceptNewHardware = earlier.m_bAcceptNewHardware
  database : s.m_dbase.preference (str "AcceptNewHardware") =
    some (if earlier.m_bAcceptNewHardware then str "True" else str "False")

/-- Some events, a call of `AllowNewHardwareTimer` and what comes later. -/
def called (done : List Event) (iTotMinutes : Int32) (later : List Event) : List Event :=
  done ++ .allowNewHardwareTimer iTotMinutes :: later

/-- What is asked of a run.  A timer that is started by a call, and goes on until a round of the
thread ends it, restores what was before that call. -/
structure Kept (s : CSQLHelper) (es : List Event) : Prop where
  consistent : ∀ done, done <+: es → Consistent (run s done)
  restored : ∀ (done : List Event) (iTotMinutes : Int32) (overlapping : List Event),
    called done iTotMinutes (overlapping ++ [.tick]) <+: es →
    (run s done).m_bAcceptHardwareTimerActive = false →
    (∀ later, later <+: overlapping →
      (run s (called done iTotMinutes later)).m_bAcceptHardwareTimerActive = true) →
    (run s (called done iTotMinutes
      (overlapping ++ [.tick]))).m_bAcceptHardwareTimerActive = false →
    Restored (run s done) (run s (called done iTotMinutes (overlapping ++ [.tick])))

/-- The longitude that `OpenDatabase` reads is `True`. -/
def Database.TrueLongitude (db : Database) : Prop :=
  (db.preference (str "Longitude")).getD (str "145.000000") = str "True"

/-- The longitude is `True` exactly if the preference is, or is missing. -/
def Database.Agrees (db : Database) : Prop :=
  db.TrueLongitude ↔ (db.preference (str "AcceptNewHardware")).getD (str "True") = str "True"

/-- The database can be opened: when the timer is active, the longitude is `True`. -/
def StepClear (s : CSQLHelper) : Event → Prop
  | .openDatabase =>
      if s.m_bAcceptHardwareTimerActive then s.m_dbase.TrueLongitude else s.m_dbase.Agrees
  | .restart => s.m_dbase.Agrees
  | .allowNewHardwareTimer _ => True
  | .tick => True

/-- So it is whenever the database is opened. -/
def Clear (db : Database) (es : List Event) : Prop :=
  ∀ s ∈ start db, db.Agrees ∧ Throughout step StepClear s es

/-! ### What the functions do -/

theorem fst_getPreferencesVar (db : Database) (Name Default : Bytes) :
    (db.getPreferencesVar Name Default).1 = (db.preference Name).getD Default := by
  unfold Database.getPreferencesVar
  cases db.preference Name with
  | none => rfl
  | some Value => rfl

/-- A preference that is read is there afterwards. -/
theorem preference_getPreferencesVar (db : Database) (Name Default name : Bytes) :
    (db.getPreferencesVar Name Default).2.preference name =
      if name = Name then some ((db.preference Name).getD Default) else db.preference name := by
  unfold Database.getPreferencesVar
  cases h : db.preference Name with
  | none => exact Function.update_apply _ _ _ _
  | some Value =>
    by_cases hname : name = Name
    · rw [if_pos hname, hname, Option.getD_some]
      exact h
    · rw [if_neg hname]

theorem preference_getPreferencesInt (db : Database) (Name name : Bytes) (Default : ℤ) :
    (db.getPreferencesInt Name Default).2.preference name =
      if name = Name then some ((db.preference Name).getD (decimal Default))
      else db.preference name := by
  unfold Database.getPreferencesInt
  cases h : db.preference Name with
  | none => exact Function.update_apply _ _ _ _
  | some Value =>
    by_cases hname : name = Name
    · rw [if_pos hname, hname, Option.getD_some]
      exact h
    · rw [if_neg hname]

@[simp] theorem preference_updatePreferencesVar (db : Database) (Name Value name : Bytes) :
    (db.updatePreferencesVar Name Value).preference name =
      if name = Name then some Value else db.preference name :=
  Function.update_apply _ _ _ _

/-- What is stored after the preferences were read. -/
theorem readPreferences_spec (db : Database) :
    db.readPreferences.preference (str "AcceptNewHardware") =
        some ((db.preference (str "AcceptNewHardware")).getD (str "True")) ∧
      db.readPreferences.preference (str "Longitude") = db.preference (str "Longitude") ∧
      db.readPreferences.preference (str "DB_Version") = some (decimal DB_VERSION) := by
  refine ⟨?_, ?_, ?_⟩
  · simp +decide only [Database.readPreferences, preference_getPreferencesVar,
      preference_getPreferencesInt, preference_updatePreferencesVar, if_false, if_true]
  · simp +decide only [Database.readPreferences, preference_getPreferencesVar,
      preference_getPreferencesInt, preference_updatePreferencesVar, if_false]
  · simp +decide only [Database.readPreferences, preference_getPreferencesVar,
      preference_getPreferencesInt, preference_updatePreferencesVar, if_false, if_true]

/-- What `OpenDatabase` leaves, if it opens the database. -/
structure Opened (s s' : CSQLHelper) : Prop where
  accept : s'.m_bAcceptNewHardware = true ↔ s.m_dbase.TrueLongitude
  timer : s'.m_bAcceptHardwareTimerActive = s.m_bAcceptHardwareTimerActive
  previous : s'.m_bPreviousAcceptNewHardware = s.m_bPreviousAcceptNewHardware
  stored : s'.m_dbase.preference (str "AcceptNewHardware") =
    some ((s.m_dbase.preference (str "AcceptNewHardware")).getD (str "True"))
  version : s'.m_dbase.preference (str "DB_Version") = some (decimal DB_VERSION)

/-- Other preferences are as they were after the version was read. -/
theorem preference_dbversion (db : Database) {name : Bytes} (h : name ≠ str "DB_Version") :
    db.dbversion.2.preference name = db.preference name := by
  unfold Database.dbversion
  split
  · rw [preference_getPreferencesInt, if_neg h]
  · rfl

theorem opened_of_openDatabase {s s' : CSQLHelper} (h : s.openDatabase = some s') :
    Opened s s' := by
  have haccept := @preference_dbversion s.m_dbase (str "AcceptNewHardware") (by decide)
  have hlong := @preference_dbversion s.m_dbase (str "Longitude") (by decide)
  unfold CSQLHelper.openDatabase at h
  split at h
  · cases h
  · obtain ⟨hstored, hlongitude, hnew⟩ :=
      readPreferences_spec { s.m_dbase.dbversion.2 with hasInterface := true }
    cases h
    refine ⟨?_, rfl, rfl, ?_, ?_⟩
    · rw [fst_getPreferencesVar, hlongitude, beq_iff_eq, Database.TrueLongitude, ← hlong]
    · rw [preference_getPreferencesVar, if_neg (by decide), hstored, ← haccept]
    · rw [preference_getPreferencesVar, if_neg (by decide), hnew]

/-- A database that was opened once is not refused. -/
theorem exists_openDatabase {s : CSQLHelper}
    (h : s.m_dbase.preference (str "DB_Version") = some (decimal DB_VERSION)) :
    ∃ s', s.openDatabase = some s' := by
  have hversion : ¬ DB_VERSION < s.m_dbase.dbversion.1 := by
    unfold Database.dbversion Database.getPreferencesInt
    rw [h]
    split
    · change ¬ DB_VERSION < atoi (cstr (decimal DB_VERSION))
      decide
    · change ¬ DB_VERSION < 0
      decide
  rw [CSQLHelper.openDatabase, if_neg hversion]
  exact ⟨_, rfl⟩

/-- What a round of the thread does: nothing but count, or it ends the timer. -/
theorem doWork_cases (s : CSQLHelper) :
    (s.doWork.m_bAcceptHardwareTimerActive = s.m_bAcceptHardwareTimerActive ∧
      s.doWork.m_bAcceptNewHardware = s.m_bAcceptNewHardware ∧
      s.doWork.m_bPreviousAcceptNewHardware = s.m_bPreviousAcceptNewHardware ∧
      s.doWork.m_dbase = s.m_dbase) ∨
    (s.m_bAcceptHardwareTimerActive = true ∧ s.doWork.m_bAcceptHardwareTimerActive = false ∧
      s.doWork.m_bAcceptNewHardware = s.m_bPreviousAcceptNewHardware ∧
      s.doWork.m_dbase = s.m_dbase.updatePreferencesVar (str "AcceptNewHardware")
        (if s.m_bPreviousAcceptNewHardware then str "True" else str "False")) := by
  unfold CSQLHelper.doWork
  split
  · next hactive =>
    simp only
    split
    · exact .inr ⟨hactive, rfl, rfl, rfl⟩
    · exact .inl ⟨rfl, rfl, rfl, rfl⟩
  · exact .inl ⟨rfl, rfl, rfl, rfl⟩

/-! ### The flag and the preference -/

/-- The text that is stored for a flag is read as the flag. -/
theorem acceptNewHardware_of_preference {db : Database} {accept : Bool}
    (h : db.preference (str "AcceptNewHardware") =
      some (if accept then str "True" else str "False")) : db.acceptNewHardware = accept := by
  rw [Database.acceptNewHardware, h]
  cases accept with
  | false => decide
  | true => decide

/-- After a database was opened. -/
theorem consistent_of_opened_iff {s s' : CSQLHelper} (h : Opened s s') :
    Consistent s' ↔ if s.m_bAcceptHardwareTimerActive then s.m_dbase.TrueLongitude
      else s.m_dbase.Agrees := by
  by_cases hactive : s.m_bAcceptHardwareTimerActive = true
  · rw [if_pos hactive, ← h.accept]
    constructor
    · intro hs
      exact hs.active (h.timer.trans hactive)
    · intro haccept
      refine ⟨?_, ?_⟩
      · intro hinactive
        rw [h.timer, hactive] at hinactive
        cases hinactive
      · intro _
        exact haccept
  · -- the flag says whether the longitude is `True`, and the preference was given its default
    have hinactive : s'.m_bAcceptHardwareTimerActive = false := by
      rw [h.timer]
      exact Bool.eq_false_of_not_eq_true hactive
    have hstored : s'.m_dbase.acceptNewHardware = true ↔
        (s.m_dbase.preference (str "AcceptNewHardware")).getD (str "True") = str "True" := by
      rw [Database.acceptNewHardware, h.stored, beq_iff_eq, Option.some.injEq]
    rw [if_neg hactive, Database.Agrees, ← h.accept, ← hstored, ← Bool.eq_iff_iff]
    constructor
    · intro hs
      exact hs.inactive hinactive
    · intro heq
      refine ⟨?_, ?_⟩
      · intro _
        exact heq
      · intro hs
        rw [hinactive] at hs
        cases hs

/-- A consistent state whose database was opened. -/
structure Invariant (s : CSQLHelper) : Prop where
  consistent : Consistent s
  version : s.m_dbase.preference (str "DB_Version") = some (decimal DB_VERSION)

/-- The version stays. -/
theorem version_step {s : CSQLHelper}
    (h : s.m_dbase.preference (str "DB_Version") = some (decimal DB_VERSION)) (e : Event) :
    (step s e).m_dbase.preference (str "DB_Version") = some (decimal DB_VERSION) := by
  cases e with
  | openDatabase =>
    obtain ⟨s', hs'⟩ := exists_openDatabase h
    rw [step, hs', Option.getD_some]
    exact (opened_of_openDatabase hs').version
  | restart =>
    obtain ⟨s', hs'⟩ := @exists_openDatabase { m_dbase := s.m_dbase } h
    rw [step, start, hs', Option.getD_some]
    exact (opened_of_openDatabase hs').version
  | allowNewHardwareTimer => exact h
  | tick =>
    rw [step]
    rcases doWork_cases s with ⟨-, -, -, hdb⟩ | ⟨-, -, -, hdb⟩
    · rw [hdb]
      exact h
    · rw [hdb, preference_updatePreferencesVar, if_neg (by decide)]
      exact h

/-- A step from a consistent state leads to one exactly if it is clear. -/
theorem consistent_step_iff {s : CSQLHelper} (h : Invariant s) (e : Event) :
    Consistent (step s e) ↔ StepClear s e := by
  cases e with
  | openDatabase =>
    obtain ⟨s', hs'⟩ := exists_openDatabase h.version
    rw [step, hs', Option.getD_some]
    exact consistent_of_opened_iff (opened_of_openDatabase hs')
  | restart =>
    obtain ⟨s', hs'⟩ := @exists_openDatabase { m_dbase := s.m_dbase } h.version
    rw [step, start, hs', Option.getD_some]
    exact consistent_of_opened_iff (opened_of_openDatabase hs')
  | allowNewHardwareTimer =>
    refine iff_of_true ⟨?_, ?_⟩ trivial
    · intro hs
      cases hs
    · intro _
      rfl
  | tick =>
    refine iff_of_true ?_ trivial
    rw [step]
    rcases doWork_cases s with ⟨htimer, haccept, -, hdb⟩ | ⟨-, htimer, haccept, hdb⟩
    · refine ⟨?_, ?_⟩
      · intro hs
        rw [haccept, hdb]
        exact h.consistent.inactive (htimer ▸ hs)
      · intro hs
        rw [haccept]
        exact h.consistent.active (htimer ▸ hs)
    · refine ⟨?_, ?_⟩
      · intro _
        rw [haccept]
        refine (acceptNewHardware_of_preference ?_).symm
        rw [hdb, preference_updatePreferencesVar, if_pos rfl]
      · intro hs
        rw [htimer] at hs
        cases hs

/-! ### The end of the timer -/

/-- While the timer is active the value that is to be restored stays. -/
theorem previous_step {s : CSQLHelper} (hs : s.m_bAcceptHardwareTimerActive = true) (e : Event)
    (h : (step s e).m_bAcceptHardwareTimerActive = true) :
    (step s e).m_bPreviousAcceptNewHardware = s.m_bPreviousAcceptNewHardware := by
  cases e with
  | openDatabase =>
    rw [step]
    cases hopen : s.openDatabase with
    | none => rfl
    | some s' => exact (opened_of_openDatabase hopen).previous
  | restart =>
    rw [step] at h ⊢
    cases hopen : start s.m_dbase with
    | none => rfl
    | some s' =>
      rw [hopen, Option.getD_some, (opened_of_openDatabase hopen).timer] at h
      cases h
  | allowNewHardwareTimer iTotMinutes =>
    rw [step, CSQLHelper.allowNewHardwareTimer, if_neg]
    rw [hs]
    exact Bool.noConfusion
  | tick =>
    rw [step] at h ⊢
    rcases doWork_cases s with ⟨-, -, hprevious, -⟩ | ⟨-, htimer, -, -⟩
    · exact hprevious
    · rw [htimer] at h
      cases h

theorem run_append (s : CSQLHelper) (es es' : List Event) :
    run s (es ++ es') = run (run s es) es' := List.foldl_append

theorem run_called (s : CSQLHelper) (done : List Event) (iTotMinutes : Int32)
    (later : List Event) : run s (called done iTotMinutes later) =
      run (run s done) (.allowNewHardwareTimer iTotMinutes :: later) :=
  run_append s done (.allowNewHardwareTimer iTotMinutes :: later)

theorem previous_run {s : CSQLHelper} (es : List Event)
    (h : ∀ es', es' <+: es → (run s es').m_bAcceptHardwareTimerActive = true) :
    (run s es).m_bPreviousAcceptNewHardware = s.m_bPreviousAcceptNewHardware := by
  -- by the last event, before which the timer was active
  induction es using List.reverseRecOn with
  | nil => rfl
  | append_singleton es e ih =>
    have hes := ih fun es' hes' => h es' (hes'.trans (List.prefix_append es [e]))
    have hstep := h (es ++ [e]) (List.prefix_refl _)
    rw [run_append] at hstep ⊢
    rw [← hes]
    exact previous_step (h es (List.prefix_append es [e])) e hstep

/-- **The end of the timer restores what was before the first call.** -/
theorem restored_of_expired {s : CSQLHelper} {iTotMinutes : Int32} {overlapping : List Event}
    (hs : s.m_bAcceptHardwareTimerActive = false)
    (hactive : ∀ es, es <+: overlapping →
      (run s (.allowNewHardwareTimer iTotMinutes :: es)).m_bAcceptHardwareTimerActive = true)
    (hexpired : (run s (.allowNewHardwareTimer iTotMinutes ::
      (overlapping ++ [.tick]))).m_bAcceptHardwareTimerActive = false) :
    Restored s (run s (.allowNewHardwareTimer iTotMinutes :: (overlapping ++ [.tick]))) := by
  have hcall : (step s (.allowNewHardwareTimer iTotMinutes)).m_bPreviousAcceptNewHardware =
      s.m_bAcceptNewHardware := by
    rw [step, CSQLHelper.allowNewHardwareTimer, if_pos hs]
  have hprevious := (previous_run overlapping hactive).trans hcall
  have hend := hactive overlapping (List.prefix_refl _)
  have hrun : run s (.allowNewHardwareTimer iTotMinutes :: (overlapping ++ [.tick])) =
      (run s (.allowNewHardwareTimer iTotMinutes :: overlapping)).doWork :=
    run_append s (.allowNewHardwareTimer iTotMinutes :: overlapping) [.tick]
  change (run s (.allowNewHardwareTimer iTotMinutes :: overlapping)).m_bPreviousAcceptNewHardware
    = s.m_bAcceptNewHardware at hprevious
  rw [hrun] at hexpired ⊢
  rcases doWork_cases (run s (.allowNewHardwareTimer iTotMinutes :: overlapping)) with
    ⟨htimer, -, -, -⟩ | ⟨-, -, haccept, hdb⟩
  · rw [htimer, hend] at hexpired
    cases hexpired
  · refine ⟨by rw [haccept, hprevious], ?_⟩
    rw [hdb, preference_updatePreferencesVar, if_pos rfl, hprevious]

/-! ### Main results -/

/-- The states of a run are consistent exactly if its steps are clear. -/
theorem kept_iff {s : CSQLHelper}
    (hversion : s.m_dbase.preference (str "DB_Version") = some (decimal DB_VERSION))
    (es : List Event) : Kept s es ↔ Consistent s ∧ Throughout step StepClear s es := by
  have hconsistent : (∀ done, done <+: es → Consistent (run s done)) ↔
      Consistent s ∧ Throughout step StepClear s es := by
    refine forall_prefix_iff.trans (and_congr_right fun hs => ?_)
    refine throughout_congr_of_kept (I := Invariant) ?_ ?_ ⟨hs, hversion⟩ es
    · intro s e h hstep
      exact ⟨hstep, version_step h.version e⟩
    · intro s e h
      exact consistent_step_iff h e
  rw [← hconsistent]
  constructor
  · intro h
    exact h.consistent
  · intro h
    refine ⟨h, ?_⟩
    intro done iTotMinutes overlapping _ hdone hactive hexpired
    rw [run_called] at hexpired ⊢
    refine restored_of_expired hdone ?_ hexpired
    intro later hlater
    rw [← run_called]
    exact hactive later hlater

/-- **A run keeps what is asked exactly if it is clear.** -/
theorem accept_kept_iff (db : Database) (es : List Event) :
    (∀ s ∈ start db, Kept s es) ↔ Clear db es := by
  refine forall_congr' fun s => forall_congr' fun hs => ?_
  have hopened := opened_of_openDatabase (Option.mem_def.mp hs)
  rw [kept_iff hopened.version, consistent_of_opened_iff hopened]
  rfl

/-- A new database. -/
def fresh : Database := { hasInterface := false, preference := fun _ => none }

/-- The preference says that new hardware is accepted, and it is refused. -/
theorem fresh_refused :
    (∃ s ∈ start fresh, s.m_bAcceptNewHardware = false ∧ s.m_dbase.acceptNewHardware = true) ∧
      ¬ ∀ s ∈ start fresh, Kept s [] := by
  obtain ⟨s, hs⟩ : ∃ s, start fresh = some s := Option.isSome_iff_exists.mp (by decide)
  have hopened := opened_of_openDatabase hs
  have haccept : s.m_bAcceptNewHardware = false := by
    rw [Bool.eq_false_iff]
    intro h
    have hlongitude : str "145.000000" = str "True" := hopened.accept.mp h
    exact absurd hlongitude (by decide)
  have hstored : s.m_dbase.acceptNewHardware = true := by
    rw [Database.acceptNewHardware, hopened.stored]
    decide
  refine ⟨⟨s, hs, haccept, hstored⟩, ?_⟩
  intro h
  have heq := ((h s hs).consistent [] List.nil_prefix).inactive hopened.timer
  change s.m_bAcceptNewHardware = s.m_dbase.acceptNewHardware at heq
  rw [haccept, hstored] at heq
  cases heq

end Domoticz.AcceptNewHardware
