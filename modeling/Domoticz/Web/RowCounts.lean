import Domoticz.Main.SQLHelper
import Domoticz.Transition
import Domoticz.Web.Rest

/-!
# The rows a statement changed

`execute_sql` has its statement executed and then asks `SELECT changes()`, and so does the handler
of a `DELETE` request.  These are two accesses to a connection that all threads share: the lock of
`query` is held for one query at a time, and a `CSQLStatement` takes no lock.  What `changes()`
answers is about the last statement of any thread that was counted.

SQLite itself is a parameter, with what its documentation says of `changes()`: a statement that
inserts, updates or deletes sets it when it completes, and one of another kind does not.  Nothing
is said of a statement that fails.

## Main definitions

* `Sqlite`, `Outcome` — the database engine, and what becomes of a statement.
* `execute`, `executeSqlCount`, `deleteReply` — a statement, and what is made of its count.
* `step` — a thread's next access to the connection.
* `Undisturbed` — the steps that change no other count, and that are counted themselves.

## Main results

* `counts_own` — **in a run of undisturbed steps every count is that of its own statement.**
* `foreign_count` — two threads, one of which is told the count of the other.
-/

namespace Domoticz.RowCounts

open CLib Transition

/-! ### The connection -/

/-- What becomes of a statement that is executed. -/
inductive Outcome
  /-- It inserted, updated or deleted rows, and completed. -/
  | changed (rows : ℕ)
  /-- It completed, and is of another kind. -/
  | done
  /-- It failed, and may have set what `changes()` answers. -/
  | failed (changes : Option ℤ)

/-- `SQLITE_DONE`. -/
def Outcome.isDone : Outcome → Bool
  | .failed _ => false
  | _ => true

/-- The rows that were inserted, updated or deleted by a statement. -/
def Outcome.rows : Outcome → ℕ
  | .changed rows => rows
  | _ => 0

/-- What `changes()` answers afterwards, which is a C `int`. -/
def Outcome.changes (before : ℤ) : Outcome → ℤ
  | .changed rows => toInt32 rows
  | .done => before
  | .failed changes => changes.getD before

/-- The database engine, with databases in `σ`. -/
structure Sqlite (σ : Type*) where
  /-- `sqlite3_prepare` succeeds. -/
  prepare : σ → Bytes → Bool
  /-- `sqlite3_bind_text` succeeds for the parameter of this number. -/
  bind : σ → Bytes → ℕ → Bytes → Bool
  /-- `sqlite3_step` of a statement with its parameters. -/
  step : σ → Bytes → List Bytes → Outcome × σ
  /-- `SELECT changes();` has its row. -/
  answers : σ → Bool

/-- The connection of `CSQLHelper`. -/
structure Connection (σ : Type*) where
  db : σ
  changes : ℤ

variable {σ : Type*} (sqlite : Sqlite σ)

/-- A statement that is prepared, gets its parameters and is executed: a `CSQLStatement`, or with
no parameters a `query`.  The first error ends it. -/
def execute (c : Connection σ) (sSQL : Bytes) (values : List Bytes) : Outcome × Connection σ :=
  let params := values.map SQLHelper.addParameter
  if sqlite.prepare c.db sSQL && params.zipIdx.all fun p => sqlite.bind c.db sSQL (p.2 + 1) p.1 then
    let r := sqlite.step c.db sSQL params
    (r.1, ⟨r.2, r.1.changes c.changes⟩)
  else (.failed none, c)

/-- `safe_query("SELECT changes();")`. -/
def queryChanges (c : Connection σ) : List (List Bytes) :=
  if sqlite.answers c.db then [[decimal c.changes]] else []

/-- What `execute_sql` returns. -/
def executeSqlCount (result : List (List Bytes)) : ℤ :=
  let text := (result.headD []).headD []
  if result = [] ∨ text = str "0" then 0 else atoi (cstr text)

/-- The reply of `CRESTRequest::DELETE`, and its `Count`. -/
def deleteReply (result : List (List Bytes)) : Status × ℤ :=
  if result = [] then (.notFound, 0) else (.noContent, atoi (cstr ((result.headD []).headD [])))

/-! ### Threads -/

/-- What a thread does with the connection. -/
inductive Call
  | execute_sql (sSQL : Bytes) (values : List Bytes)
  | DELETE (content_length : ℤ) (table : Bytes) (key : ℤ)
  /-- A statement without a count. -/
  | query (szQuery : Bytes)

/-- The statement of a call; a `DELETE` with a body has none. -/
def Call.statement : Call → Option (Bytes × List Bytes)
  | .execute_sql sSQL values => some (sSQL, values)
  | .DELETE content_length table key =>
      if content_length ≠ 0 then none else some (deleteSql table key, [])
  | .query szQuery => some (szQuery, [])

/-- A call between its statement and its `SELECT changes();`. -/
structure Waiting where
  /-- What is made of the rows of the query. -/
  count : List (List Bytes) → ℤ
  /-- The rows of its own statement. -/
  own : ℕ

/-- Whether a call asks for the count, after its own statement.  `DELETE` does not look at what
became of it. -/
def Call.waits : Call → Outcome → Option Waiting
  | .execute_sql _ _, o => if o.isDone then some ⟨executeSqlCount, o.rows⟩ else none
  | .DELETE _ _ _, o => some ⟨fun result => (deleteReply result).2, o.rows⟩
  | .query _, _ => none

/-- A count that a call reports, beside that of its own statement. -/
structure Report where
  count : ℤ
  own : ℕ
  deriving DecidableEq

/-- What a call reports without asking for the count. -/
def Call.reports : Call → Outcome → List Report
  | .execute_sql _ _, o => if o.isDone then [] else [⟨0, o.rows⟩]
  | _, _ => []

/-- A thread: the calls it has still to make, and the one it is in. -/
structure Thread where
  calls : List Call
  waiting : Option Waiting := none

/-- The connection that the threads share, what each of them has still to do, and what was reported.
-/
structure System (ι σ : Type*) where
  connection : Connection σ
  threads : ι → Thread
  reports : List Report := []

variable {ι : Type*} [DecidableEq ι]

/-- Threads before their first call, on a connection that may have been used. -/
def System.start (connection : Connection σ) (calls : ι → List Call) : System ι σ where
  connection
  threads i := ⟨calls i, none⟩

/-- The statement of a call of thread `i`. -/
def System.begin (s : System ι σ) (i : ι) (call : Call) (rest : List Call) : System ι σ :=
  match call.statement with
  | none => { s with threads := Function.update s.threads i ⟨rest, none⟩ }
  | some (sSQL, values) =>
    let r := execute sqlite s.connection sSQL values
    { connection := r.2
      threads := Function.update s.threads i ⟨rest, call.waits r.1⟩
      reports := s.reports ++ call.reports r.1 }

/-- Thread `i` accesses the connection: it executes a statement, or asks for the count. -/
def step (s : System ι σ) (i : ι) : System ι σ :=
  match (s.threads i).waiting with
  | some w =>
    { s with
      threads := Function.update s.threads i ⟨(s.threads i).calls, none⟩
      reports := s.reports ++ [⟨w.count (queryChanges sqlite s.connection), w.own⟩] }
  | none =>
    match (s.threads i).calls with
    | [] => s
    | call :: rest => s.begin sqlite i call rest

/-! ### What is asked of a step -/

/-- A statement leaves the number of its rows with `changes()`: it changed rows, and their number
is an `int`; or it did not, and there was zero. -/
def Counted (before : ℤ) : Outcome → Prop
  | .changed rows => rows < 2 ^ 31
  | .done => before = 0
  | .failed changes => changes.getD before = 0

/-- A statement that thread `i` is about to execute changes no other thread's count, and is counted
if its own count is asked for. -/
def StatementUndisturbed (s : System ι σ) (i : ι) (call : Call) (o : Outcome) : Prop :=
  ((∀ j, j ≠ i → (s.threads j).waiting = none) ∨
      o.changes s.connection.changes = s.connection.changes) ∧
    (call.waits o ≠ none → Counted s.connection.changes o)

/-- What is asked of the next step of thread `i`.  The query for the count has its row, unless
there are no rows to count. -/
def Undisturbed (s : System ι σ) (i : ι) : Prop :=
  match (s.threads i).waiting with
  | some w => sqlite.answers s.connection.db = true ∨ w.own = 0
  | none => ∀ call ∈ (s.threads i).calls.head?, ∀ p ∈ call.statement,
      StatementUndisturbed s i call (execute sqlite s.connection p.1 p.2).1

/-! ### Counts -/

/-- `execute_sql` reads the number it is given. -/
theorem executeSqlCount_decimal (z : ℤ) :
    executeSqlCount [[decimal z]] = atoi (cstr (decimal z)) := by
  simp only [executeSqlCount, List.headD_cons, List.cons_ne_nil, false_or]
  by_cases htext : decimal z = str "0"
  · have hzero : atoi (cstr (str "0")) = 0 := by decide
    rw [if_pos htext, htext, hzero]
  · rw [if_neg htext]

theorem executeSqlCount_changes {z : ℤ} (hz : -2 ^ 31 ≤ z ∧ z < 2 ^ 31) :
    executeSqlCount [[decimal z]] = z := by
  rw [executeSqlCount_decimal, atoi_decimal hz]

theorem deleteReply_changes {z : ℤ} (hz : -2 ^ 31 ≤ z ∧ z < 2 ^ 31) :
    deleteReply [[decimal z]] = (.noContent, z) := by
  simp only [deleteReply, List.headD_cons, List.cons_ne_nil, if_false, atoi_decimal hz]

/-- What is counted is with `changes()`. -/
theorem Counted.changes_eq {before : ℤ} {o : Outcome} (h : Counted before o) :
    o.changes before = o.rows ∧ o.rows < 2 ^ 31 := by
  cases o with
  | changed rows =>
    have hrows : rows < 2 ^ 31 := h
    exact ⟨(toInt32_nat_eq_self_iff rows).mpr hrows, hrows⟩
  | done => exact ⟨h, Nat.two_pow_pos 31⟩
  | failed changes => exact ⟨h, Nat.two_pow_pos 31⟩

/-- A call that asks for the count reads its text, or nothing. -/
structure Waiting.Reads (w : Waiting) : Prop where
  number : ∀ z : ℤ, -2 ^ 31 ≤ z ∧ z < 2 ^ 31 → w.count [[decimal z]] = z
  nothing : w.count [] = 0

theorem Call.waits_reads {call : Call} {o : Outcome} {w : Waiting} (h : call.waits o = some w) :
    w.Reads ∧ w.own = o.rows := by
  cases call with
  | execute_sql sSQL values =>
    rw [Call.waits] at h
    split at h
    · obtain rfl := Option.some.inj h
      exact ⟨⟨fun z hz => executeSqlCount_changes hz, rfl⟩, rfl⟩
    · cases h
  | DELETE content_length table key =>
    obtain rfl := Option.some.inj h
    exact ⟨⟨fun z hz => congrArg Prod.snd (deleteReply_changes hz), rfl⟩, rfl⟩
  | query szQuery => cases h

/-- What is reported without a query is zero, of a statement that failed. -/
theorem Call.reports_right {call : Call} {o : Outcome} {r : Report} (h : r ∈ call.reports o) :
    r.count = r.own := by
  cases call with
  | execute_sql sSQL values =>
    rw [Call.reports] at h
    cases o with
    | changed rows => simp [Outcome.isDone] at h
    | done => simp [Outcome.isDone] at h
    | failed changes =>
      obtain rfl := List.mem_singleton.mp h
      rfl
  | DELETE content_length table key => cases h
  | query szQuery => cases h

/-- The calls that wait have their number with `changes()`, and all reports are right. -/
structure Inv (s : System ι σ) : Prop where
  waiting : ∀ i, ∀ w ∈ (s.threads i).waiting,
    w.Reads ∧ s.connection.changes = w.own ∧ w.own < 2 ^ 31
  reports : ∀ r ∈ s.reports, r.count = r.own

/-- What `changes()` answers after a statement. -/
theorem changes_execute (c : Connection σ) (sSQL : Bytes) (values : List Bytes) :
    (execute sqlite c sSQL values).2.changes =
      (execute sqlite c sSQL values).1.changes c.changes := by
  rw [execute]
  split
  · rfl
  · rfl

/-- Thread `i` goes on, and the others keep their numbers. -/
theorem Inv.update {s : System ι σ} (h : Inv s) {i : ι} {t : Thread} {c : Connection σ}
    {rs : List Report}
    (hothers : (∀ j, j ≠ i → (s.threads j).waiting = none) ∨ c.changes = s.connection.changes)
    (hself : ∀ w ∈ t.waiting, w.Reads ∧ c.changes = w.own ∧ w.own < 2 ^ 31)
    (hreports : ∀ r ∈ rs, r.count = r.own) :
    Inv ⟨c, Function.update s.threads i t, s.reports ++ rs⟩ := by
  constructor
  · intro j w hw
    replace hw : w ∈ (Function.update s.threads i t j).waiting := hw
    by_cases hj : j = i
    · subst hj
      rw [Function.update_self] at hw
      exact hself w hw
    · rw [Function.update_of_ne hj] at hw
      obtain ⟨hreads, hchanges, hlt⟩ := h.waiting j w hw
      refine ⟨hreads, ?_, hlt⟩
      rcases hothers with hnone | hsame
      · rw [hnone j hj] at hw
        cases hw
      · exact hsame.trans hchanges
  · intro r hr
    rcases List.mem_append.mp hr with hr | hr
    · exact h.reports r hr
    · exact hreports r hr

theorem inv_begin {s : System ι σ} (h : Inv s) {i : ι} {call : Call} (rest : List Call)
    (hu : ∀ p ∈ call.statement,
      StatementUndisturbed s i call (execute sqlite s.connection p.1 p.2).1) :
    Inv (s.begin sqlite i call rest) := by
  rw [System.begin]
  cases hstatement : call.statement with
  | none =>
    have hkept : Inv ⟨s.connection, Function.update s.threads i ⟨rest, none⟩, s.reports ++ []⟩ :=
      h.update (.inr rfl) (by simp) (by simp)
    rw [List.append_nil] at hkept
    exact hkept
  | some p =>
    obtain ⟨hothers, hown⟩ := hu p hstatement
    have hchanges := changes_execute sqlite s.connection p.1 p.2
    apply h.update
    · exact hothers.imp_right hchanges.trans
    · -- its own count
      intro w hw
      obtain ⟨hreads, hrows⟩ := Call.waits_reads hw
      have hcounted := (hown (Option.ne_none_iff_exists'.mpr ⟨w, hw⟩)).changes_eq
      rw [hrows]
      exact ⟨hreads, hchanges.trans hcounted.1, hcounted.2⟩
    · intro r hr
      exact Call.reports_right hr

/-- An undisturbed step reports a count that is right. -/
theorem inv_step {s : System ι σ} (h : Inv s) {i : ι} (hu : Undisturbed sqlite s i) :
    Inv (step sqlite s i) := by
  rw [Undisturbed] at hu
  rw [step]
  cases hi : (s.threads i).waiting with
  | none =>
    simp only [hi] at hu ⊢
    cases hcalls : (s.threads i).calls with
    | nil => exact h
    | cons call rest =>
      rw [hcalls] at hu
      exact inv_begin sqlite h rest (hu call rfl)
  | some w =>
    simp only [hi] at hu ⊢
    obtain ⟨hreads, hchanges, hlt⟩ := h.waiting i w hi
    apply h.update
    · exact .inr rfl
    · intro w' hw'
      cases hw'
    · intro r hr
      obtain rfl := List.mem_singleton.mp hr
      rw [queryChanges]
      by_cases hanswers : sqlite.answers s.connection.db = true
      · rw [if_pos hanswers, hreads.number _ (by omega), hchanges]
      · rw [if_neg hanswers, hreads.nothing, hu.resolve_left hanswers]
        rfl

/-- **In a run of undisturbed steps every count is that of its own statement.** -/
theorem counts_own (connection : Connection σ) (calls : ι → List Call) {schedule : List ι}
    (h : Throughout (step sqlite) (Undisturbed sqlite) (System.start connection calls) schedule) :
    ∀ done, done <+: schedule →
      ∀ r ∈ (done.foldl (step sqlite) (System.start connection calls)).reports,
        r.count = r.own := by
  have hstart : Inv (System.start connection calls) := by
    constructor
    · intro i w hw
      cases hw
    · intro r hr
      cases hr
  intro done hdone
  have hstep (s : System ι σ) (i : ι) (hs : Inv s) (hu : Undisturbed sqlite s i) :
      Inv (step sqlite s i) := inv_step sqlite hs hu
  exact (throughout_invariant hstep hstart h done hdone).reports

/-! ### Two threads -/

/-- A request that inserts a row, and a thread that empties a table of 500 rows. -/
def insertText : Bytes := str "INSERT INTO Interface (Name) VALUES (?);"

/-- A statement that deletes many rows. -/
def emptyText : Bytes := str "DELETE FROM DeviceLog;"

/-- A database in which these two statements succeed. -/
def logDatabase : Sqlite Unit where
  prepare := fun _ _ => true
  bind := fun _ _ _ _ => true
  step := fun _ sSQL _ => (if sSQL = emptyText then .changed 500 else .changed 1, ())
  answers := fun _ => true

/-- Two threads, of which one deletes and the other inserts. -/
def twoThreads : System Bool Unit :=
  .start ⟨(), 0⟩ fun i =>
    if i then [.query emptyText] else [.execute_sql insertText [str "New"]]

/-- The table is emptied after the count of the insertion. -/
theorem counts_own_inTurn :
    ([false, false, true].foldl (step logDatabase) twoThreads).reports ≠ [] ∧
      ∀ r ∈ ([false, false, true].foldl (step logDatabase) twoThreads).reports,
        r.count = r.own := by
  refine ⟨by decide, counts_own logDatabase ⟨(), 0⟩ _ ?_ _ (List.prefix_refl _)⟩
  have hcount : (1 : ℕ) < 2 ^ 31 := by decide
  refine ⟨?_, Or.inl rfl, ?_, trivial⟩
  · rintro call ⟨⟩ p ⟨⟩
    refine ⟨Or.inl ?_, fun _ => hcount⟩
    rintro (_ | _) hj
    · exact absurd rfl hj
    · rfl
  · rintro call ⟨⟩ p ⟨⟩
    refine ⟨Or.inl ?_, fun hwaits => absurd rfl hwaits⟩
    rintro (_ | _) hj
    · rfl
    · exact absurd rfl hj

/-- The table is emptied between the insertion and its `SELECT changes();`. -/
theorem foreign_count :
    ([false, true, false].foldl (step logDatabase) twoThreads).reports = [⟨500, 1⟩] := by
  decide

end Domoticz.RowCounts
