import Domoticz.Json
import Domoticz.Web.DataAccess
import Domoticz.Web.Reply

/-!
# Modifying rows over REST

The handlers of `CRESTRequest` that change rows: the JSON body is unpacked into
columns and values, checked against the columns that are left after stripping,
and bound to the parameters of one SQL statement.

A handler is modelled up to the statement it hands to the database; what it
replies then depends on the number of rows the database reports.

## Main definitions

* `getFieldsAndValues` — the body as columns and values.
* `insertSql`, `updateSql`, `deleteSql` — the statements.
* `post`, `put`, `patch`, `delete` — the handlers up to their statement.
* `modificationReply` — the reply to a row count.

## Main results

* `getFieldsAndValues_valid` — only valid columns are written, never the primary
  key or the time stamp, one value for each.
-/

namespace Domoticz

open CLib

variable {D : Type}

/-! ### The body -/

/-- The text a value is bound as; arrays, objects and null have none. -/
def valueText (dbl : Doubles D) (v : Json D) : Option Bytes :=
  match v with
  | .string s => some (cstr s)
  | .bool b =>
      match v.asInt? dbl with
      | some i => some (decimal i)
      | none => some (decimal (if b then 1 else 0))
  | _ =>
      match v.asInt? dbl with
      | some i => some (decimal i)
      | none => (v.asDouble? dbl).map dbl.toText

/-- The members of the body that are written: primary key and time stamp are
skipped, and so is what is not a valid column. -/
def isWritten (da : DataAccess) (m : Bytes × Json D) : Bool :=
  m.1 != da.table ++ str "ID" && m.1 != str "Timestamp" && da.validFields.any fun f => f.name == m.1

/-- `CRESTRequest::getFieldsAndValues`, from the body's parse.  The error is the
stock reply it leaves behind. -/
def getFieldsAndValues (dbl : Doubles D) (root : Option (Json D)) (da : DataAccess) :
    Except Status (List Bytes × List Bytes) :=
  match root with
  | none => .error .badRequest
  | some root =>
      let written := root.members.filter (isWritten da)
      let fields := written.map (·.1)
      let values := written.filterMap fun m => valueText dbl m.2
      if fields.length ≠ values.length then .error .badRequest
      else if fields = [] then .error .notAllowed
      else .ok (fields, values)

/-- **Only valid columns are written**, never the primary key or the time stamp,
and there is one value for each column. -/
theorem getFieldsAndValues_valid {dbl : Doubles D} {root : Option (Json D)} {da : DataAccess}
    {fields values : List Bytes} (h : getFieldsAndValues dbl root da = .ok (fields, values)) :
    fields ≠ [] ∧ fields.length = values.length ∧
      ∀ name ∈ fields, name ∈ da.getValidFields ∧ name ≠ da.table ++ str "ID" ∧
        name ≠ str "Timestamp" := by
  cases root with
  | none => simp [getFieldsAndValues] at h
  | some root =>
    simp only [getFieldsAndValues] at h
    split at h
    · cases h
    · next hlen =>
      split at h
      · cases h
      · next hne =>
        cases h
        refine ⟨hne, by simpa using hlen, fun name hname => ?_⟩
        obtain ⟨m, hm, rfl⟩ := List.mem_map.mp hname
        have hw := (List.mem_filter.mp hm).2
        simp only [isWritten, Bool.and_eq_true, bne_iff_ne, ne_eq, List.any_eq_true,
          beq_iff_eq] at hw
        obtain ⟨⟨hid, hts⟩, f, hf, hfm⟩ := hw
        exact ⟨List.mem_map.mpr ⟨f, hf, hfm⟩, hid, hts⟩

/-- No value is left out exactly if their number is that of the entries. -/
theorem map_some_filterMap_iff {α β : Type*} {l : List α} {g : α → Option β} :
    (l.filterMap g).map some = l.map g ↔ (l.filterMap g).length = l.length := by
  constructor
  · intro h
    have hlength := congrArg List.length h
    rwa [List.length_map, List.length_map] at hlength
  · intro h
    induction l with
    | nil => rfl
    | cons a l ih =>
      have hle := List.length_filterMap_le g l
      cases ha : g a with
      | none =>
        rw [List.filterMap_cons_none ha, List.length_cons] at h
        omega
      | some b =>
        rw [List.filterMap_cons_some ha, List.length_cons, List.length_cons] at h
        rw [List.filterMap_cons_some ha, List.map_cons, List.map_cons, ha, ih (by omega)]

/-- The columns are those of the members that are written, with the texts of their values. -/
theorem getFieldsAndValues_eq_ok_iff {dbl : Doubles D} {root : Json D} {da : DataAccess}
    {fields values : List Bytes} :
    getFieldsAndValues dbl (some root) da = .ok (fields, values) ↔
      fields = (root.members.filter (isWritten da)).map Prod.fst ∧ fields ≠ [] ∧
        values.map some = (root.members.filter (isWritten da)).map fun m => valueText dbl m.2 := by
  unfold getFieldsAndValues
  simp only [List.length_map]
  constructor
  · intro h
    split at h
    · cases h
    · next hlen =>
      split at h
      · cases h
      · next hne =>
        cases h
        exact ⟨rfl, hne, map_some_filterMap_iff.mpr (not_not.mp hlen).symm⟩
  · rintro ⟨rfl, hne, hvalues⟩
    have hlen := congrArg List.length hvalues
    rw [List.length_map, List.length_map] at hlen
    have heq : (root.members.filter (isWritten da)).filterMap (fun m => valueText dbl m.2) =
        values := by
      calc (root.members.filter (isWritten da)).filterMap (fun m => valueText dbl m.2)
          = ((root.members.filter (isWritten da)).map fun m => valueText dbl m.2).filterMap id := by
            rw [List.filterMap_map, Function.id_comp]
        _ = values := by rw [← hvalues, List.filterMap_map, Function.id_comp, List.filterMap_some]
    rw [heq, if_neg (not_not.mpr hlen.symm), if_neg hne]

/-! ### The statements -/

/-- `INSERT INTO <table> (<fields>) VALUES (?, ...);` -/
def insertSql (table : Bytes) (fields : List Bytes) : Bytes :=
  str "INSERT INTO " ++ table ++ str " (" ++ (str ", ").intercalate fields ++ str ") VALUES (" ++
    (str ", ").intercalate (fields.map fun _ => str "?") ++ str ");"

/-- The condition that selects a row by its primary key. -/
def keyCondition (table : Bytes) (op : String) (key : ℤ) : Bytes :=
  table ++ str "ID" ++ str op ++ decimal key

/-- `UPDATE <table> SET <field>=?, ... WHERE <table>ID=<key>; ` -/
def updateSql (table : Bytes) (fields : List Bytes) (timestamp : Bool) (key : ℤ) : Bytes :=
  str "UPDATE " ++ table ++ str " SET " ++
    (str ", ").intercalate (fields.map fun f => f ++ str "=?") ++
    (if timestamp then str ", Timestamp=CURRENT_TIMESTAMP" else []) ++
    str " WHERE " ++ keyCondition table "=" key ++ str "; "

/-- The columns `updateSql` sets: those it binds and, to the present, the time stamp. -/
def assignedColumns (fields : List Bytes) (timestamp : Bool) : List Bytes :=
  fields ++ if timestamp then [str "Timestamp"] else []

/-- `DELETE FROM <table> WHERE <table>ID = <key>;` -/
def deleteSql (table : Bytes) (key : ℤ) : Bytes :=
  str "DELETE FROM " ++ table ++ str " WHERE " ++ keyCondition table " = " key ++ str ";"

/-- What a handler does: it returns without touching the reply, leaves a stock
reply, or has a statement executed with its bound values. -/
inductive RestAction
  | nothing
  | reply (status : Status)
  | insert (fields values : List Bytes)
  | update (fields : List Bytes) (timestamp : Bool) (values : List Bytes)
  | remove
  deriving DecidableEq, Repr

/-- The statement of an action, for the object's table and key. -/
def RestAction.sql (da : DataAccess) : RestAction → Option Bytes
  | .insert fields _ => some (insertSql da.table fields)
  | .update fields ts _ => some (updateSql da.table fields ts da.tableKey)
  | .remove => some (deleteSql da.table da.tableKey)
  | _ => none

/-! ### The handlers -/

section Handlers

variable (dbl : Doubles D) (parse : Bytes → Option (Json D))

/-- `CRESTRequest::POST`. -/
def post (req : Request) (da : DataAccess) : RestAction :=
  if req.contentLength = 0 then .nothing
  else match getFieldsAndValues dbl (parse req.content) da with
    | .error s => .reply s
    | .ok (fields, values) => .insert fields values

/-- The body `CRESTRequest::PUT` and `CRESTRequest::PATCH` share.  Whether there
is a time stamp is asked before the columns are stripped. -/
def modify (req : Request) (da : DataAccess) : RestAction :=
  if req.contentLength = 0 then .nothing
  else match getFieldsAndValues dbl (parse req.content) da.stripForbiddenFields with
    | .error s => .reply s
    | .ok (fields, values) => .update fields da.hasTimestamp values

/-- `CRESTRequest::PUT`. -/
def put (req : Request) (da : DataAccess) : RestAction := modify dbl parse req da

/-- `CRESTRequest::PATCH`. -/
def patch (req : Request) (da : DataAccess) : RestAction := modify dbl parse req da

/-- `CRESTRequest::DELETE`. -/
def delete (req : Request) (_da : DataAccess) : RestAction :=
  if req.contentLength ≠ 0 then .reply .badRequest else .remove

end Handlers

/-- The status of the reply to `POST`, `PUT` and `PATCH`, from the row count the
database reports. -/
def modificationReply (rowCount : ℤ) : Status :=
  if rowCount = 0 then .badRequest else .created

/-- What an update binds and whether it sets the time stamp. -/
theorem modify_update {dbl : Doubles D} {parse : Bytes → Option (Json D)} {req : Request}
    {da : DataAccess} {fields values : List Bytes} {ts : Bool}
    (h : modify dbl parse req da = .update fields ts values) :
    fields ≠ [] ∧ (∀ name ∈ fields, name ∈ da.stripForbiddenFields.getValidFields ∧
      name ≠ da.table ++ str "ID") ∧ ts = da.hasTimestamp := by
  unfold modify at h
  split at h
  · cases h
  · split at h
    · cases h
    · next hget =>
      cases h
      obtain ⟨hne, -, hvalid⟩ := getFieldsAndValues_valid hget
      refine ⟨hne, fun name hname => ⟨(hvalid name hname).1, ?_⟩, rfl⟩
      have hid := (hvalid name hname).2.1
      rwa [DataAccess.table_stripForbiddenFields] at hid

/-- **An update binds only columns that are left after stripping.** -/
theorem modify_fields {dbl : Doubles D} {parse : Bytes → Option (Json D)} {req : Request}
    {da : DataAccess} {fields values : List Bytes} {ts : Bool}
    (h : modify dbl parse req da = .update fields ts values) :
    ∀ name ∈ fields, name ∈ da.stripForbiddenFields.getValidFields :=
  fun name hname => ((modify_update h).2.1 name hname).1

end Domoticz
