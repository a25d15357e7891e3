import Domoticz.Web.ReplyFraming

/-!
# Replies to requests that change rows

`POST`, `PUT` and `PATCH` reply by what `execute_sql` returns, which is zero for a statement that
fails.  `DELETE` does not look at what becomes of its statement: it takes what `changes()` answers
for the rows it deleted, and replies `not_found` when the query has no row.  But `changes()` always
has one; it is zero when there was no row to delete, and that of an earlier statement when the
statement could not be prepared.

A run is a sequence of requests that have reached their handlers, with other statements on the same
connection in between.  The rows a request changed are those of its own statement; what triggers
change is not among them.

## Main definitions

* `Modification`, `perform` — a request, and what its handler does.
* `Truthful` — a reply that tells what the request changed.
* `Right` — the requests that are answered so.

## Main results

* `modified_truthful_iff`, `removed_truthful_iff` — the two kinds of replies.
* `truthful_run_iff` — **the replies of a run tell the truth exactly if all its requests are
  right.**
* `missing_row` — a row that did not exist, deleted with success.
-/

namespace Domoticz.Modifications

open CLib RowCounts ReplyFraming Transition

/-! ### The requests -/

/-- The methods that change a table. -/
inductive Verb
  | POST
  | PUT
  | PATCH
  | DELETE
  deriving DecidableEq

/-- A request that has reached its handler, with the object that was made for it. -/
structure Modification where
  verb : Verb
  req : Request
  access : DataAccess

/-- The status of a reply, and its `Count` if it has one. -/
structure Answer where
  status : Status
  count : Option ℤ
  deriving DecidableEq

variable {D : Type} {σ : Type*} (dbl : Doubles D) (parse : Bytes → Option (Json D))
  (sqlite : Sqlite σ)

/-- What the handler of the verb does up to its statement. -/
def Modification.action (m : Modification) : RestAction :=
  match m.verb with
  | .POST => post dbl parse m.req m.access
  | .PUT => put dbl parse m.req m.access
  | .PATCH => patch dbl parse m.req m.access
  | .DELETE => delete m.req m.access

/-- What a request leads to. -/
structure Effect (σ : Type*) where
  answer : Answer
  /-- The rows that its statement inserted, updated or deleted. -/
  rows : ℕ
  connection : Connection σ

/-- A request that is answered, or left alone, before its statement. -/
def refused (status : Status) (c : Connection σ) : Effect σ := ⟨⟨status, none⟩, 0, c⟩

/-- What `execute_sql` returns for a statement. -/
def iRowCount (r : Outcome × Connection σ) : ℤ :=
  if r.1.isDone then executeSqlCount (queryChanges sqlite r.2) else 0

/-- `POST`, `PUT` and `PATCH` after their statement. -/
def modified (r : Outcome × Connection σ) : Effect σ where
  answer := ⟨modificationReply (iRowCount sqlite r), some (iRowCount sqlite r)⟩
  rows := r.1.rows
  connection := r.2

/-- `DELETE` after its statement. -/
def removed (r : Outcome × Connection σ) : Effect σ where
  answer :=
    let reply := deleteReply (queryChanges sqlite r.2)
    ⟨reply.1, some reply.2⟩
  rows := r.1.rows
  connection := r.2

/-- The handler of a request.  The dispatcher has set the status to `ok`. -/
def perform (c : Connection σ) (m : Modification) : Effect σ :=
  match m.action dbl parse with
  | .nothing => refused .ok c
  | .reply status => refused status c
  | .insert fields values =>
      modified sqlite (execute sqlite c (insertSql m.access.table fields) values)
  | .update fields timestamp values =>
      modified sqlite
        (execute sqlite c (updateSql m.access.table fields timestamp m.access.tableKey) values)
  | .remove => removed sqlite (execute sqlite c (deleteSql m.access.table m.access.tableKey) [])

/-- What can happen to the connection next. -/
inductive Event
  | request (m : Modification)
  /-- A statement of another part of the program. -/
  | statement (sSQL : Bytes) (values : List Bytes)

/-- What an event makes of the connection. -/
def step (c : Connection σ) : Event → Connection σ
  | .request m => (perform dbl parse sqlite c m).connection
  | .statement sSQL values => (execute sqlite c sSQL values).2

/-! ### The reply of the page -/

/-- What the handler of a request finds, with the counts of its own statement. -/
def found (e : Environment D) (c : Connection σ) (m : Modification) : Environment D :=
  let sSQL := ((m.action e.doubles e.parse).sql m.access).getD []
  let values := match m.action e.doubles e.parse with
    | .insert _ values => values
    | .update _ _ values => values
    | _ => []
  let r := execute sqlite c sSQL values
  { e with iRowCount := iRowCount sqlite r, changes := queryChanges sqlite r.2 }

/-- The reply of the page has the status of `perform`, and its `Count` for content. -/
theorem actionReply_found (e : Environment D) {rep : Reply} (hrep : rep.status = .ok)
    (c : Connection σ) (m : Modification) :
    let rep' := actionReply (found sqlite e c m) rep (m.action e.doubles e.parse)
    let answer := (perform e.doubles e.parse sqlite c m).answer
    rep'.status = answer.status ∧ ∀ n ∈ answer.count, rep'.content = write e (countRoot n) := by
  rw [found, perform]
  cases m.action e.doubles e.parse with
  | nothing => exact ⟨hrep, fun n hn => by cases hn⟩
  | reply status => exact ⟨rfl, fun n hn => by cases hn⟩
  | insert fields values => exact ⟨rfl, fun n hn => by cases hn; rfl⟩
  | update fields timestamp values => exact ⟨rfl, fun n hn => by cases hn; rfl⟩
  | remove => exact ⟨rfl, fun n hn => by cases hn; rfl⟩

/-! ### What a reply says -/

/-- The statuses of success. -/
def isSuccess : Status → Bool
  | .ok => true
  | .created => true
  | .accepted => true
  | .noContent => true
  | _ => false

/-- The reply to a request that changed so many rows, of a table with or without a row of that
key. -/
structure Truthful (verb : Verb) (existed : Bool) (rows : ℕ) (a : Answer) : Prop where
  count : a.count = some (rows : ℤ)
  success : isSuccess a.status = true ↔ ∃ n ∈ a.count, 0 < n
  notFound : verb = .DELETE → (a.status = .notFound ↔ existed = false)

/-- `execute_sql` returns the rows of the statement: it failed; or it changed rows, `changes()` is
answered, and their number is an `int`; or it is of another kind, and zero was left with
`changes()` before it. -/
def ModifiedRight (before : ℤ) (r : Outcome × Connection σ) : Prop :=
  match r.1 with
  | .changed rows => if sqlite.answers r.2.db then rows < 2 ^ 31 else rows = 0
  | .done => sqlite.answers r.2.db = true → atoi (cstr (decimal before)) = 0
  | .failed _ => True

/-- The row was there and the statement deleted it; or it was not, and `changes()` is not
answered. -/
def RemovedRight (existed : Bool) (r : Outcome × Connection σ) : Prop :=
  if sqlite.answers r.2.db then
    existed = true ∧ ∃ rows, r.1 = .changed rows ∧ 0 < rows ∧ rows < 2 ^ 31
  else existed = false ∧ r.1.rows = 0

variable (hasRow : σ → Bytes → ℤ → Bool)

/-- What is asked of a request: it gets to its statement, with the outcome above. -/
def RequestRight (c : Connection σ) (m : Modification) : Prop :=
  match m.action dbl parse with
  | .nothing => False
  | .reply _ => False
  | .insert fields values =>
      ModifiedRight sqlite c.changes
        (execute sqlite c (insertSql m.access.table fields) values)
  | .update fields timestamp values =>
      ModifiedRight sqlite c.changes
        (execute sqlite c (updateSql m.access.table fields timestamp m.access.tableKey) values)
  | .remove =>
      RemovedRight sqlite (hasRow c.db m.access.table m.access.tableKey)
        (execute sqlite c (deleteSql m.access.table m.access.tableKey) [])

/-- The reply to a request tells what it changed. -/
def Told (c : Connection σ) : Event → Prop
  | .request m =>
      Truthful m.verb (hasRow c.db m.access.table m.access.tableKey)
        (perform dbl parse sqlite c m).rows (perform dbl parse sqlite c m).answer
  | .statement _ _ => True

/-- The reply to a request tells what has happened to the table. -/
def Right (c : Connection σ) : Event → Prop
  | .request m => RequestRight dbl parse sqlite hasRow c m
  | .statement _ _ => True

/-! ### The verbs -/

/-- The actions of a verb: rows are deleted by `DELETE` and by no other one, and what is refused is
answered by an error. -/
def OfVerb (verb : Verb) : RestAction → Prop
  | .nothing => True
  | .reply status => isSuccess status = false
  | .insert _ _ => verb ≠ .DELETE
  | .update _ _ _ => verb ≠ .DELETE
  | .remove => verb = .DELETE

theorem isSuccess_getFieldsAndValues {root : Option (Json D)} {da : DataAccess} {status : Status}
    (h : getFieldsAndValues dbl root da = .error status) : isSuccess status = false := by
  rcases getFieldsAndValues_error h with rfl | rfl
  · rfl
  · rfl

theorem ofVerb_post {verb : Verb} (hverb : verb ≠ .DELETE) (req : Request) (da : DataAccess) :
    OfVerb verb (post dbl parse req da) := by
  rw [post]
  split
  · trivial
  · split
    · next herror => exact isSuccess_getFieldsAndValues dbl herror
    · exact hverb

theorem ofVerb_modify {verb : Verb} (hverb : verb ≠ .DELETE) (req : Request) (da : DataAccess) :
    OfVerb verb (modify dbl parse req da) := by
  rw [modify]
  split
  · trivial
  · split
    · next herror => exact isSuccess_getFieldsAndValues dbl herror
    · exact hverb

theorem ofVerb_delete (req : Request) (da : DataAccess) : OfVerb .DELETE (delete req da) := by
  rw [delete]
  split
  · rfl
  · rfl

theorem Modification.ofVerb_action (m : Modification) : OfVerb m.verb (m.action dbl parse) := by
  obtain ⟨verb, req, access⟩ := m
  cases verb with
  | POST => exact ofVerb_post dbl parse (fun h => by cases h) req access
  | PUT => exact ofVerb_modify dbl parse (fun h => by cases h) req access
  | PATCH => exact ofVerb_modify dbl parse (fun h => by cases h) req access
  | DELETE => exact ofVerb_delete req access

/-- **A request that is refused changes nothing, and is answered by an error.** -/
theorem perform_refused {m : Modification} {status : Status}
    (h : m.action dbl parse = .reply status) (c : Connection σ) :
    perform dbl parse sqlite c m = refused status c ∧ isSuccess status = false := by
  have hverb := m.ofVerb_action dbl parse
  rw [h] at hverb
  refine ⟨?_, hverb⟩
  rw [perform, h]

/-- A reply without a `Count` does not tell it. -/
theorem not_truthful_refused {verb : Verb} {existed : Bool} {rows : ℕ} {status : Status} :
    ¬ Truthful verb existed rows ⟨status, none⟩ := by
  intro h
  have hcount : none = some (rows : ℤ) := h.count
  cases hcount

/-! ### `POST`, `PUT` and `PATCH` -/

theorem iRowCount_eq_iff {before : ℤ} {r : Outcome × Connection σ}
    (hchanges : r.2.changes = r.1.changes before) :
    iRowCount sqlite r = r.1.rows ↔ ModifiedRight sqlite before r := by
  obtain ⟨o, c⟩ := r
  replace hchanges : c.changes = o.changes before := hchanges
  have hnone : executeSqlCount [] = 0 := rfl
  cases o with
  | changed rows =>
    simp only [iRowCount, queryChanges, hchanges, Outcome.isDone, if_true, ModifiedRight,
      Outcome.rows, Outcome.changes]
    by_cases hanswers : sqlite.answers c.db = true
    · rw [if_pos hanswers, if_pos hanswers, executeSqlCount_changes (toInt32_bounds rows),
        toInt32_nat_eq_self_iff]
    · rw [if_neg hanswers, if_neg hanswers, hnone]
      omega
  | done =>
    simp only [iRowCount, queryChanges, hchanges, Outcome.isDone, if_true, ModifiedRight,
      Outcome.rows, Outcome.changes]
    by_cases hanswers : sqlite.answers c.db = true
    · rw [if_pos hanswers, executeSqlCount_decimal]
      exact ⟨fun h _ => h, fun h => h hanswers⟩
    · rw [if_neg hanswers]
      exact iff_of_true hnone fun h => absurd h hanswers
  | failed changes => exact iff_of_true rfl trivial

/-- The reply says the count, and success exactly if it is not zero. -/
theorem truthful_modification_iff {verb : Verb} (hverb : verb ≠ .DELETE) (existed : Bool) (rows : ℕ)
    (n : ℤ) : Truthful verb existed rows ⟨modificationReply n, some n⟩ ↔ n = rows := by
  constructor
  · intro h
    exact Option.some.inj h.count
  · rintro rfl
    refine ⟨rfl, ?_, fun h => absurd h hverb⟩
    rw [modificationReply]
    by_cases hrows : rows = 0
    · subst hrows
      simp [isSuccess]
    · rw [if_neg (by omega)]
      refine iff_of_true rfl ⟨rows, rfl, ?_⟩
      omega

theorem modified_truthful_iff {verb : Verb} (hverb : verb ≠ .DELETE) (existed : Bool) {before : ℤ}
    {r : Outcome × Connection σ} (hchanges : r.2.changes = r.1.changes before) :
    Truthful verb existed (modified sqlite r).rows (modified sqlite r).answer ↔
      ModifiedRight sqlite before r := by
  rw [modified, truthful_modification_iff hverb, iRowCount_eq_iff sqlite hchanges]

/-! ### `DELETE` -/

/-- `DELETE` says success with every count. -/
theorem truthful_deletion_iff (existed : Bool) (rows : ℕ) (n : ℤ) :
    Truthful .DELETE existed rows ⟨.noContent, some n⟩ ↔ n = rows ∧ 0 < rows ∧ existed = true := by
  constructor
  · intro h
    have hcount : n = rows := Option.some.inj h.count
    obtain ⟨m, hm, hpos⟩ := h.success.mp rfl
    obtain rfl := Option.some.inj hm
    refine ⟨hcount, by omega, ?_⟩
    have hfound := (h.notFound rfl).not.mp (by simp)
    simpa using hfound
  · rintro ⟨rfl, hpos, rfl⟩
    refine ⟨rfl, iff_of_true rfl ⟨rows, rfl, by omega⟩, ?_⟩
    intro _
    exact iff_of_false (by simp) (by simp)

theorem truthful_notFound_iff (existed : Bool) (rows : ℕ) :
    Truthful .DELETE existed rows ⟨.notFound, some 0⟩ ↔ existed = false ∧ rows = 0 := by
  constructor
  · intro h
    have hcount : (0 : ℤ) = rows := Option.some.inj h.count
    exact ⟨(h.notFound rfl).mp rfl, by omega⟩
  · rintro ⟨rfl, rfl⟩
    exact ⟨rfl, iff_of_false (by simp [isSuccess]) (by simp), fun _ => iff_of_true rfl rfl⟩

theorem removed_truthful_iff (existed : Bool) {before : ℤ} {r : Outcome × Connection σ}
    (hchanges : r.2.changes = r.1.changes before) :
    Truthful .DELETE existed (removed sqlite r).rows (removed sqlite r).answer ↔
      RemovedRight sqlite existed r := by
  obtain ⟨o, c⟩ := r
  replace hchanges : c.changes = o.changes before := hchanges
  simp only [removed, RemovedRight, queryChanges]
  by_cases hanswers : sqlite.answers c.db = true
  · rw [if_pos hanswers, if_pos hanswers]
    simp only [deleteReply, List.cons_ne_nil, if_false, List.headD_cons, truthful_deletion_iff]
    cases o with
    | changed rows =>
      replace hchanges : c.changes = toInt32 rows := hchanges
      rw [hchanges, atoi_decimal (toInt32_bounds rows), Outcome.rows, toInt32_nat_eq_self_iff]
      constructor
      · rintro ⟨hlt, hpos, hexisted⟩
        exact ⟨hexisted, rows, rfl, hpos, hlt⟩
      · rintro ⟨hexisted, rows', hrows, hpos, hlt⟩
        obtain rfl := Outcome.changed.inj hrows
        exact ⟨hlt, hpos, hexisted⟩
    | done =>
      refine iff_of_false (fun h => absurd h.2.1 (Nat.lt_irrefl 0)) ?_
      rintro ⟨-, rows, hrows, -⟩
      cases hrows
    | failed changes =>
      refine iff_of_false (fun h => absurd h.2.1 (Nat.lt_irrefl 0)) ?_
      rintro ⟨-, rows, hrows, -⟩
      cases hrows
  · rw [if_neg hanswers, if_neg hanswers]
    exact truthful_notFound_iff existed o.rows

/-- A deletion that cannot be prepared is answered with success, and the count of an earlier
statement. -/
theorem removed_unprepared {c : Connection σ} {sSQL : Bytes}
    (hprepare : sqlite.prepare c.db sSQL = false) (hanswers : sqlite.answers c.db = true) :
    (removed sqlite (execute sqlite c sSQL [])).answer =
      ⟨.noContent, some (atoi (cstr (decimal c.changes)))⟩ := by
  have hexecute : execute sqlite c sSQL [] = (.failed none, c) := by
    simp [execute, hprepare]
  rw [hexecute]
  simp only [removed, queryChanges, hanswers, if_true, deleteReply, List.cons_ne_nil, if_false,
    List.headD_cons]

/-! ### Runs -/

/-- A request is answered truthfully exactly if it is right. -/
theorem told_iff (c : Connection σ) (ev : Event) :
    Told dbl parse sqlite hasRow c ev ↔ Right dbl parse sqlite hasRow c ev := by
  cases ev with
  | statement sSQL values => exact Iff.rfl
  | request m =>
    have hverb := m.ofVerb_action dbl parse
    rw [Told, Right, perform, RequestRight]
    cases haction : m.action dbl parse with
    | nothing => exact iff_of_false not_truthful_refused id
    | reply status => exact iff_of_false not_truthful_refused id
    | insert fields values =>
      rw [haction] at hverb
      exact modified_truthful_iff sqlite hverb _ (changes_execute sqlite c _ _)
    | update fields timestamp values =>
      rw [haction] at hverb
      exact modified_truthful_iff sqlite hverb _ (changes_execute sqlite c _ _)
    | remove =>
      rw [haction] at hverb
      have hdelete : m.verb = .DELETE := hverb
      rw [hdelete]
      exact removed_truthful_iff sqlite _ (changes_execute sqlite c _ _)

/-- **The replies of a run tell the truth exactly if all its requests are right.** -/
theorem truthful_run_iff (start : Connection σ) (events : List Event) :
    Throughout (step dbl parse sqlite) (Told dbl parse sqlite hasRow) start events ↔
      Throughout (step dbl parse sqlite) (Right dbl parse sqlite hasRow) start events :=
  throughout_congr (I := fun _ => True) (fun _ _ _ => trivial)
    (fun c ev _ => told_iff dbl parse sqlite hasRow c ev) trivial events

/-! ### A row that is not there -/

/-- A database with the devices of these keys, which can be deleted. -/
def devices : Sqlite (List ℤ) where
  prepare := fun _ _ => true
  bind := fun _ _ _ _ => true
  step := fun keys sSQL _ =>
    let left := keys.filter fun key => sSQL != deleteSql (str "Device") key
    (.changed (keys.length - left.length), left)
  answers := fun _ => true

/-- A table of devices with the given keys. -/
def hasDevice (keys : List ℤ) (table : Bytes) (key : ℤ) : Bool :=
  table == str "Device" && keys.contains key

/-- `DELETE /API/Devices/8`. -/
def deleteEight : Modification where
  verb := .DELETE
  req := { method := str "DELETE", uri := str "/API/Devices/8" }
  access := { verb := str "DELETE", table := str "Device", tableKey := 8 }

/-- There is no such device, and the deletion is answered with success and a `Count` of zero. -/
theorem missing_row :
    hasDevice [7] deleteEight.access.table deleteEight.access.tableKey = false ∧
      (perform noDoubles (fun _ => none) devices ⟨[7], 0⟩ deleteEight).answer =
        ⟨.noContent, some 0⟩ ∧
      ¬ Throughout (step noDoubles (fun _ => none) devices)
        (Told noDoubles (fun _ => none) devices hasDevice) ⟨[7], 0⟩ [.request deleteEight] := by
  have hanswer : (perform noDoubles (fun _ => none) devices ⟨[7], 0⟩ deleteEight).answer =
      ⟨.noContent, some 0⟩ := by decide
  refine ⟨by decide, hanswer, ?_⟩
  rintro ⟨htold, -⟩
  obtain ⟨n, hn, hpos⟩ := htold.success.mp (by rw [hanswer]; rfl)
  rw [hanswer] at hn
  obtain rfl := Option.some.inj hn
  exact absurd hpos (by decide)

end Domoticz.Modifications
