import Domoticz.Web.FieldFilter
import Domoticz.Web.RestRoute

/-!
# Pushing updates to subscribers

A websocket client subscribes to tables and is sent each change of a row.  Which
columns it is sent is decided when it subscribes, by the same rights as those of
a `GET` over REST.  The two part where the REST interface has a handler of its
own, which drops the tokens of sessions, and for a deleted row, whose primary key
is sent unasked.

## Main definitions

* `handle` — `CWebsocket::Handle`, the packets of a client.
* `databaseUpdate` — `CWebsocket::DatabaseUpdate`, what is pushed.
* `visibleColumns` — the columns a `GET` of a table returns.
* `PushVisible` — only visible columns are pushed.
* `PushCondition` — the updates for which that is so.

## Main results

* `subscribed_run` — every subscription holds the fields its table had to offer.
* `pushVisible_iff` — **only visible columns are pushed exactly under
  `PushCondition`.**
* `token_pushed` — the token of a new session is pushed.
-/

namespace Domoticz

open CLib

variable {D : Type}

/-! ### Subscriptions -/

/-- `structSubscription`. -/
structure Subscription where
  sTable : Bytes
  vFields : List Bytes
  deriving DecidableEq, Repr

/-- The access configuration, with the columns the table `Session` is created with. -/
structure PushConfig extends AccessConfig where
  session : (tableInfo (str "Session")).map ColumnInfo.name =
    [str "SessionID", str "AuthToken", str "UserID", str "RoleID", str "Expiry"]

/-- The rights of a websocket's user to read a table. -/
def readAccess (cfg : AccessConfig) (table : Bytes) : Bool × DataAccess :=
  ({ user := str "Admin", table, verb := str "GET" } : DataAccess).userHasAccess cfg

/-- What a subscription to a table captures, if the user may read it. -/
def capturedFields (cfg : AccessConfig) (table : Bytes) : Option (List Bytes) :=
  if (readAccess cfg table).1 then some (readAccess cfg table).2.stripForbiddenFields.getValidFields
  else none

/-- The part of `Handle` that unsubscribes: the first subscription goes. -/
def unsubscribe (name : Bytes) (subs : List Subscription) : List Subscription :=
  if name = [] then subs else subs.eraseP fun s => s.sTable == name

/-- The part of `Handle` that subscribes; the table is the name without its last byte. -/
def subscribe (cfg : AccessConfig) (name : Bytes) (subs : List Subscription) :
    List Subscription :=
  if name = [] then subs
  else match capturedFields cfg name.dropLast with
    | some vFields => subs ++ [⟨name, vFields⟩]
    | none => subs

/-- `CWebsocket::Handle` for a packet, from its parse: whether it returns, and the
subscriptions it leaves. -/
def handle (dbl : Doubles D) (cfg : AccessConfig) (subs : List Subscription)
    (packet : Option (Json D)) : Bool × List Subscription :=
  match packet with
  | none => (true, subs)
  | some value =>
      match (value.member? (str "unsubscribe")).bind (Json.asString? dbl) with
      | none => (false, subs)
      | some sUnsubscribe =>
          let subs := unsubscribe sUnsubscribe subs
          match (value.member? (str "subscribe")).bind (Json.asString? dbl) with
          | none => (false, subs)
          | some sSubscribe => (true, subscribe cfg sSubscribe subs)

/-- The subscriptions after some packets. -/
def subscriptionsAfter (dbl : Doubles D) (cfg : AccessConfig) (packets : List (Option (Json D))) :
    List Subscription :=
  packets.foldl (fun subs packet => (handle dbl cfg subs packet).2) []

/-! ### Updates -/

/-- `CUpdateEntry`.  The three lists belong together; the values may be cut short. -/
structure UpdateEntry where
  action : Bytes
  table : Bytes
  rowIdx : ℤ
  columns : List Bytes := []
  columnTypes : List Bytes := []
  values : List Bytes := []

/-- A value in the JSON that is pushed. -/
inductive PushValue
  | int (i : ℤ)
  | text (s : Bytes)
  deriving DecidableEq, Repr

/-- The value of column `j`. -/
def UpdateEntry.pushValue (e : UpdateEntry) (j : ℕ) : PushValue :=
  let value := e.values.getD j []
  if e.columnTypes.getD j [] = str "INTEGER" then .int (atoi value) else .text value

/-- The row `CWebsocket::DatabaseUpdate` pushes, as the members of its JSON object, if
there is a subscription to the table. -/
def databaseUpdate (subs : List Subscription) (e : UpdateEntry) :
    Option (List (Bytes × PushValue)) :=
  (subs.find? fun s => s.sTable == e.table ++ str "s").map fun s =>
    if e.columns ≠ [] then
      (e.columns.zipIdx.filter fun c => s.vFields.contains c.1).map fun c => (c.1, e.pushValue c.2)
    else
      -- for delete actions set the primary key to a negative value to signal front end; the product
      -- has 64 bits
      [(e.table ++ str "ID", .int (Int.bmod (e.rowIdx * -1) (2 ^ 64)))]

/-! ### Visibility -/

/-- The columns a `GET` of a table returns to the same user. -/
def visibleColumns (cfg : AccessConfig) (table : Bytes) : List Bytes :=
  let o := restObject (str "GET") ⟨table, 0, [], 0⟩
  let access := o.access.userHasAccess cfg
  if access.1 then (getFields o.isSession access.2).getValidFields else []

/-- What is pushed for an update is visible. -/
def PushVisible (cfg : AccessConfig) (subs : List Subscription) (e : UpdateEntry) : Prop :=
  ∀ row, databaseUpdate subs e = some row → ∀ m ∈ row, m.1 ∈ visibleColumns cfg e.table

/-- With a subscription to its table, an update without columns is one of a table whose
primary key is visible; and an update of a session that has a token meets a configuration
that hides tokens and not the session's id in front of them. -/
def PushCondition (cfg : AccessConfig) (subs : List Subscription) (e : UpdateEntry) : Prop :=
  (∃ s ∈ subs, s.sTable = e.table ++ str "s") →
    (e.columns = [] → e.table ++ str "ID" ∈ visibleColumns cfg e.table) ∧
      (e.table = str "Session" → str "AuthToken" ∈ e.columns →
        contains (readAccess cfg (str "Session")).2.dontGETFields (str "AuthToken") = true ∧
          contains (readAccess cfg (str "Session")).2.dontGETFields (str "SessionID") = false)

/-! ### What a subscription holds -/

/-- Every subscription holds what its table had to offer. -/
def Subscribed (cfg : AccessConfig) (subs : List Subscription) : Prop :=
  ∀ s ∈ subs, capturedFields cfg s.sTable.dropLast = some s.vFields

theorem subscribed_unsubscribe {cfg : AccessConfig} {subs : List Subscription} (name : Bytes)
    (h : Subscribed cfg subs) : Subscribed cfg (unsubscribe name subs) := by
  intro s hs
  rw [unsubscribe] at hs
  split at hs
  · exact h s hs
  · exact h s (List.mem_of_mem_eraseP hs)

theorem subscribed_subscribe {cfg : AccessConfig} {subs : List Subscription} (name : Bytes)
    (h : Subscribed cfg subs) : Subscribed cfg (subscribe cfg name subs) := by
  intro s hs
  rw [subscribe] at hs
  split at hs
  · exact h s hs
  · split at hs
    · next vFields hfields =>
      rcases List.mem_append.mp hs with hs | hs
      · exact h s hs
      · rw [List.mem_singleton.mp hs]
        exact hfields
    · exact h s hs

theorem subscribed_handle {dbl : Doubles D} {cfg : AccessConfig} {subs : List Subscription}
    (packet : Option (Json D)) (h : Subscribed cfg subs) :
    Subscribed cfg (handle dbl cfg subs packet).2 := by
  unfold handle
  split
  · exact h
  · split
    · exact h
    · simp only
      split
      · exact subscribed_unsubscribe _ h
      · exact subscribed_subscribe _ (subscribed_unsubscribe _ h)

/-- **Every subscription holds the fields its table had to offer**, whatever packets the
client has sent. -/
theorem subscribed_run (dbl : Doubles D) (cfg : AccessConfig) (packets : List (Option (Json D))) :
    Subscribed cfg (subscriptionsAfter dbl cfg packets) := by
  have hfold : ∀ (packets : List (Option (Json D))) (subs : List Subscription),
      Subscribed cfg subs →
        Subscribed cfg (packets.foldl (fun subs packet => (handle dbl cfg subs packet).2) subs) := by
    intro packets
    induction packets with
    | nil => exact fun _ h => h
    | cons packet packets ih => exact fun subs h => ih _ (subscribed_handle packet h)
  exact hfold packets [] (fun s hs => absurd hs (by simp))

/-! ### Captured and visible columns -/

theorem readAccess_eq (cfg : AccessConfig) (table : Bytes) :
    (restObject (str "GET") ⟨table, 0, [], 0⟩).access.userHasAccess cfg = readAccess cfg table := rfl

/-- Access that is granted comes with the columns of the table. -/
theorem validFields_readAccess {cfg : AccessConfig} {table : Bytes}
    (h : (readAccess cfg table).1 = true) :
    (readAccess cfg table).2.validFields = cfg.tableInfo table ∧
      (readAccess cfg table).2.verb = str "GET" := by
  unfold readAccess DataAccess.userHasAccess at h ⊢
  split at h
  · cases h
  · split at h
    · simp_all
    · cases h

/-- For every table but one, what is captured is what is visible. -/
theorem captured_eq_visible {cfg : AccessConfig} {table : Bytes} {fields : List Bytes}
    (hne : table ≠ str "Session") (h : capturedFields cfg table = some fields) :
    visibleColumns cfg table = fields := by
  have hsession : (restObject (str "GET") ⟨table, 0, [], 0⟩).isSession = false := by
    simpa [restObject] using hne
  simp only [visibleColumns, readAccess_eq, hsession, getFields]
  rw [capturedFields] at h
  split at h
  · next hok =>
    cases h
    rw [if_pos hok]
    rfl
  · cases h

/-- The names that are left after stripping for a `GET`. -/
theorem getValidFields_strip (da : DataAccess) (hv : da.verb = str "GET")
    (hne : [] ∉ da.getValidFields) :
    da.stripForbiddenFields.getValidFields
      = eraseLoop (contains da.dontGETFields) da.getValidFields 0 := by
  rw [DataAccess.getValidFields, validFields_get hv]
  by_cases hd : da.dontGETFields = []
  · rw [if_pos hd, hd]
    refine (eraseLoop_of_good fun name hname => ?_).symm
    rw [← Bool.not_eq_true, contains_iff_isInfix, List.infix_nil]
    rintro rfl
    exact hne hname
  · rw [if_neg hd]
    exact map_eraseLoop ColumnInfo.name (contains da.dontGETFields) da.validFields

/-- Stripping five names, and stripping them without the second one: what the first has
beyond the other is the second name, unless it is to be hidden and the name in front of
it is not. -/
theorem eraseLoop_second (hide : Bytes → Bool) {s a u r e : Bytes} (hs : a ≠ s) (hu : a ≠ u)
    (hr : a ≠ r) (he : a ≠ e) :
    (∀ c ∈ eraseLoop hide [s, a, u, r, e] 0, c ≠ a → c ∈ eraseLoop hide [s, u, r, e] 0) ∧
      a ∉ eraseLoop hide [s, u, r, e] 0 ∧
      (a ∈ eraseLoop hide [s, a, u, r, e] 0 ↔ ¬ (hide a = true ∧ hide s = false)) := by
  rw [eraseLoop_zero, eraseLoop_zero]
  cases hhs : hide s with
  | true =>
    simp only [hhs, if_true]
    refine ⟨fun c hc hca => ?_, ?_, ?_⟩
    · rcases List.mem_cons.mp hc with rfl | hc
      · exact absurd rfl hca
      · obtain ⟨hmem, hgood⟩ := List.mem_filter.mp hc
        rcases List.mem_cons.mp hmem with rfl | hmem
        · exact List.mem_cons_self
        · exact List.mem_cons_of_mem _ (List.mem_filter.mpr ⟨hmem, hgood⟩)
    · simp [hu, hr, he]
    · simp
  | false =>
    simp only [hhs, Bool.false_eq_true, if_false]
    refine ⟨fun c hc hca => ?_, ?_, ?_⟩
    · rcases List.mem_cons.mp hc with rfl | hc
      · exact List.mem_cons_self
      · obtain ⟨hmem, hgood⟩ := List.mem_filter.mp hc
        rcases List.mem_cons.mp hmem with rfl | hmem
        · exact absurd rfl hca
        · exact List.mem_cons_of_mem _ (List.mem_filter.mpr ⟨hmem, hgood⟩)
    · simp [hs, hu, hr, he]
    · simp [hs]

/-- **For the table of sessions**, what is captured beyond what is visible is the token,
unless the configuration hides it and does not hide the column in front of it. -/
theorem captured_session {cfg : PushConfig} {fields : List Bytes}
    (h : capturedFields cfg.toAccessConfig (str "Session") = some fields) :
    (∀ c ∈ fields, c ≠ str "AuthToken" →
        c ∈ visibleColumns cfg.toAccessConfig (str "Session")) ∧
      str "AuthToken" ∉ visibleColumns cfg.toAccessConfig (str "Session") ∧
      (str "AuthToken" ∈ fields ↔
        ¬ (contains (readAccess cfg.toAccessConfig (str "Session")).2.dontGETFields
            (str "AuthToken") = true ∧
          contains (readAccess cfg.toAccessConfig (str "Session")).2.dontGETFields
            (str "SessionID") = false)) := by
  rw [capturedFields] at h
  split at h
  case isFalse => cases h
  case isTrue hok =>
    injection h with h
    subst h
    obtain ⟨hfields, hverb⟩ := validFields_readAccess hok
    have hsession : (restObject (str "GET") ⟨str "Session", 0, [], 0⟩).isSession = true := by decide
    simp only [visibleColumns, readAccess_eq, hsession, getFields, if_pos hok, if_true]
    generalize readAccess cfg.toAccessConfig (str "Session") = r at hok hfields hverb ⊢
    have hnames : r.2.getValidFields =
        [str "SessionID", str "AuthToken", str "UserID", str "RoleID", str "Expiry"] := by
      rw [DataAccess.getValidFields, hfields]
      exact cfg.session
    have herased : r.2.eraseAuthToken.getValidFields =
        [str "SessionID", str "UserID", str "RoleID", str "Expiry"] := by
      have hmap : r.2.eraseAuthToken.getValidFields
          = r.2.getValidFields.eraseP fun c => c == str "AuthToken" := by
        rw [DataAccess.getValidFields, DataAccess.getValidFields, List.eraseP_map]
        rfl
      rw [hmap, hnames]
      decide
    have hfull := getValidFields_strip r.2 hverb (by rw [hnames]; decide)
    have hrest := getValidFields_strip r.2.eraseAuthToken hverb (by rw [herased]; decide)
    rw [hnames] at hfull
    rw [herased] at hrest
    rw [hfull, hrest]
    exact eraseLoop_second _ (by decide) (by decide) (by decide) (by decide)

/-! ### When only visible columns are pushed -/

/-- The names that are pushed for an update with columns are those that were captured. -/
theorem mem_pushed {s : Subscription} {e : UpdateEntry} {c : Bytes} :
    (∃ m ∈ (e.columns.zipIdx.filter fun c => s.vFields.contains c.1).map fun c => (c.1, e.pushValue c.2),
      m.1 = c) ↔ c ∈ e.columns ∧ c ∈ s.vFields := by
  constructor
  · rintro ⟨m, hm, rfl⟩
    obtain ⟨x, hx, rfl⟩ := List.mem_map.mp hm
    obtain ⟨hmem, hfields⟩ := List.mem_filter.mp hx
    exact ⟨List.fst_mem_of_mem_zipIdx hmem, by simpa using hfields⟩
  · rintro ⟨hc, hfields⟩
    obtain ⟨j, hj, rfl⟩ := List.mem_iff_getElem.mp hc
    refine ⟨(e.columns[j], e.pushValue j), List.mem_map.mpr ⟨(e.columns[j], j), ?_, rfl⟩, rfl⟩
    exact List.mem_filter.mpr ⟨List.mem_zipIdx_iff_getElem?.mpr (by simp), by simpa using hfields⟩

/-- **Only visible columns are pushed exactly under `PushCondition`**, after any packets
of the client. -/
theorem pushVisible_iff (dbl : Doubles D) (cfg : PushConfig) (packets : List (Option (Json D)))
    (e : UpdateEntry) :
    PushVisible cfg.toAccessConfig (subscriptionsAfter dbl cfg.toAccessConfig packets) e ↔
      PushCondition cfg.toAccessConfig (subscriptionsAfter dbl cfg.toAccessConfig packets) e := by
  have hsubs := subscribed_run dbl cfg.toAccessConfig packets
  generalize subscriptionsAfter dbl cfg.toAccessConfig packets = subs at hsubs ⊢
  unfold PushVisible PushCondition databaseUpdate
  cases hfind : subs.find? fun s => s.sTable == e.table ++ str "s" with
  | none =>
    have hnone : ¬ ∃ s ∈ subs, s.sTable = e.table ++ str "s" := by
      rintro ⟨s, hs, hname⟩
      exact absurd hname (by simpa using List.find?_eq_none.mp hfind s hs)
    simp [hnone]
  | some s =>
    have hmem := List.mem_of_find?_eq_some hfind
    have hname : s.sTable = e.table ++ str "s" := by simpa using List.find?_some hfind
    have hsome : ∃ s ∈ subs, s.sTable = e.table ++ str "s" := ⟨s, hmem, hname⟩
    -- the fields that were captured are those of a `GET` of the table
    have hcaptured : capturedFields cfg.toAccessConfig e.table = some s.vFields := by
      have h := hsubs s hmem
      rw [hname] at h
      simpa [str] using h
    simp only [hsome, forall_const, Option.map_some, Option.some.injEq, forall_eq']
    by_cases hcols : e.columns = []
    · simp [hcols]
    · have hpush : (∀ m ∈ (e.columns.zipIdx.filter fun c => s.vFields.contains c.1).map
          fun c => (c.1, e.pushValue c.2), m.1 ∈ visibleColumns cfg.toAccessConfig e.table) ↔
          ∀ c, c ∈ e.columns → c ∈ s.vFields → c ∈ visibleColumns cfg.toAccessConfig e.table := by
        constructor
        · intro h c hc hf
          obtain ⟨m, hm, rfl⟩ := mem_pushed.mpr ⟨hc, hf⟩
          exact h m hm
        · intro h m hm
          obtain ⟨hc, hf⟩ := mem_pushed.mp ⟨m, hm, rfl⟩
          exact h m.1 hc hf
      simp only [ne_eq, hcols, not_false_eq_true, if_true, false_implies, true_and]
      rw [hpush]
      by_cases hsession : e.table = str "Session"
      · rw [hsession] at hcaptured ⊢
        -- the columns of the sessions that are hidden are captured all the same
        obtain ⟨hothers, htoken, hfield⟩ := captured_session hcaptured
        constructor
        · intro h _ hc
          by_contra hcond
          exact htoken (h _ hc (hfield.mpr hcond))
        · intro h c hc hf
          by_cases hca : c = str "AuthToken"
          · subst hca
            exact absurd (h rfl hc) (hfield.mp hf)
          · exact hothers c hf hca
      · rw [captured_eq_visible hsession hcaptured]
        simp [hsession]

/-- The columns of the table `Session`. -/
def sessionColumns : List ColumnInfo :=
  let column cid name type : ColumnInfo := ⟨str cid, str name, str type, str "1", [], str "0"⟩
  [column "0" "SessionID" "TEXT", column "1" "AuthToken" "TEXT", column "2" "UserID" "INTEGER",
    column "3" "RoleID" "INTEGER", column "4" "Expiry" "TEXT"]

/-- The rights of the administrator of a new installation to the sessions. -/
def installedConfig : PushConfig where
  users := [⟨str "Admin", str "3"⟩]
  tableAccess := [⟨str "Session", str "3", str "1", str "1", str "1", str "0", str "1", [], [], []⟩]
  tableInfo table := if table = str "Session" then sessionColumns else []
  session := by decide

/-- The update of a new session. -/
def newSessionEntry : UpdateEntry where
  action := str "Insert"
  table := str "Session"
  rowIdx := 1
  columns := [str "SessionID", str "AuthToken", str "UserID", str "RoleID", str "Expiry"]
  columnTypes := [str "TEXT", str "TEXT", str "INTEGER", str "INTEGER", str "TEXT"]
  values := [str "abc", str "0cc1", str "1", str "3", str "2020-01-01 00:00:00"]

/-- After a subscription to the sessions, the token of a new session is pushed. -/
theorem token_pushed :
    ¬ PushVisible installedConfig.toAccessConfig
      (subscriptionsAfter (⟨fun _ => none, fun _ => (), fun _ => []⟩ : Doubles Unit)
        installedConfig.toAccessConfig
        [some (.object [(str "subscribe", .string (str "Sessions"))])]) newSessionEntry := by
  intro h
  have hsubs : subscriptionsAfter (⟨fun _ => none, fun _ => (), fun _ => []⟩ : Doubles Unit)
      installedConfig.toAccessConfig [some (.object [(str "subscribe", .string (str "Sessions"))])]
        = [⟨str "Sessions", newSessionEntry.columns⟩] := by decide
  rw [hsubs] at h
  have hvisible : visibleColumns installedConfig.toAccessConfig (str "Session") =
      [str "SessionID", str "UserID", str "RoleID", str "Expiry"] := by decide
  have hpushed := h _ rfl (str "AuthToken", .text (str "0cc1")) (by decide)
  rw [show newSessionEntry.table = str "Session" from rfl, hvisible] at hpushed
  exact absurd hpushed (by decide)

end Domoticz
