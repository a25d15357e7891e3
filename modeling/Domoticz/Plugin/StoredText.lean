import Domoticz.Plugin.Insert
import Domoticz.Web.Rest

/-!
# Texts that are stored and read again

A text is written by `Value.update()`, `Device.update()` and the handlers of the REST page.  Each
makes a C string of it, and all of them have it bound by `CSQLStatement::AddParameter`, which takes
off the delimiters that are supplied with it.  It is read again by `CSQLHelper::query` and
`refresh()`.

What SQLite stores for a text depends on the column: a `TEXT` column keeps it, and one for numbers
makes a number of a numeral.

## Main definitions

* `Column`, `Statement` — a column, and a statement with its parameters.
* `CValue_update`, `CDevice_update`, `restStatement` — what the three paths have executed.
* `update`, `insert`, `select` — the statements on a table.
* `Returns`, `Unchanged` — what comes back of a text on each path.
* `undelimited` — a text without the quotes around it.

## Main results

* `assign_of_mem` — what a statement assigns to a field.
* `returns_undelimited` — **a text comes back without the pair of quotes around it.**
* `unchanged_iff` — it comes back as it was exactly if it has no delimiters and the column keeps it.
* `quotes_lost` — a text in quotes.
-/

namespace Domoticz.StoredText

open CLib SQLHelper Sql PythonJson

/-! ### Statements -/

/-- A text without a NUL. -/
structure Text where
  bytes : Bytes
  noNul : 0 ∉ bytes

/-- A column, by the text that SQLite has for a text that was bound: the same, or that of a
number. -/
structure Column where
  convert : Bytes → Bytes
  number : ∀ s, convert s = s ∨ ∀ b ∈ (convert s).head?, b ≠ 0x27 ∧ b ≠ 0x22
  noNul : ∀ s, 0 ∉ s → 0 ∉ convert s

/-- A `TEXT` column. -/
def Column.text : Column where
  convert := id
  number _ := Or.inl rfl
  noNul _ h := h

/-- A row, by the texts of its columns. -/
abbrev Row := Bytes → Option Bytes

/-- The columns of a table. -/
abbrev Schema := Bytes → Column

/-- The fields that a statement assigns, with the parameters, and whether it sets the time. -/
structure Statement where
  fields : List Bytes
  values : List Bytes
  timestamp : Bool

section Table

variable (schema : Schema) (now : Bytes)

/-- A parameter is bound for a field. -/
def assignField (row : Row) (p : Bytes × Bytes) : Row :=
  Function.update row p.1 (some ((schema p.1).convert (addParameter p.2)))

/-- The row after a statement. -/
def Statement.assign (st : Statement) (row : Row) : Row :=
  let row := (st.fields.zip st.values).foldl (assignField schema) row
  if st.timestamp then Function.update row (str "Timestamp") (some now) else row

/-- `execute_sql` of an `UPDATE` of the row with a key. -/
def update (st : Statement) (key : ℤ) (t : Table Row) : Table Row :=
  match t.get? key with
  | none => t
  | some row => t.set key (st.assign schema now row)

/-- `execute_sql` of an `INSERT`. -/
def insert (defaults : Row) (st : Statement) (t : Table Row) : Table Row :=
  t.insert (st.assign schema now defaults)

end Table

/-- `safe_query` of some columns of the row with a key: the values of the row. -/
def select (columns : List Bytes) (key : ℤ) (t : Table Row) : List Bytes :=
  (t.get? key).elim [] fun row => rowValues true (columns.map row)

/-! ### The paths -/

/-- `CValue_update`; there is no statement where the object has no text. -/
def CValue_update (pyObjectStr : PyObject → Option PyStr) (Value : PyObject) : Option Statement :=
  let pChars := match Value with
    | .none => some (str "None")
    | .str s => stdString s
    | o => (pyObjectStr o).bind stdString
  pChars.map fun pChars => { fields := [str "Value"], values := [pChars], timestamp := true }

/-- `CDevice_update`; `none` if it throws. -/
def CDevice_update (Address : PyObject) (Active : Bool) : Option Statement :=
  ((unicode? (some Address)).bind stdString).map fun sAddress =>
    { fields := [str "Address", str "Active"]
      values := [sAddress, decimal Active.toInt]
      timestamp := true }

/-- The statement of a handler of the REST page. -/
def restStatement : RestAction → Option Statement
  | .insert fields values => some { fields, values, timestamp := false }
  | .update fields timestamp values => some { fields, values, timestamp }
  | _ => none

/-- The columns that `CValue_refresh` reads. -/
def valueColumns : List Bytes :=
  [str "DeviceID", str "Name", str "InternalID", str "UnitID", str "Value", str "Debug",
    str "Timestamp"]

/-- The columns that `CDevice_refresh` reads. -/
def deviceColumns : List Bytes :=
  [str "InterfaceID", str "Name", str "InternalID", str "Address", str "Debug", str "Enabled",
    str "Active", str "Timestamp"]

/-- What comes of a text: `read` in the `TEXT` columns of the objects, and `rest` in a column that
it is written to over REST. -/
structure Returns (column : Column) (t : Text) (read rest : Bytes) : Prop where
  /-- `Value.update()`, and `safe_query` or `refresh()`. -/
  value : ∀ (schema : Schema) (now : Bytes) (pyObjectStr : PyObject → Option PyStr)
    (table : Table Row) (ValueID : ℤ) (row : Row) (s : PyStr),
    schema (str "Value") = .text → asUTF8 s = some t.bytes → table.get? ValueID = some row →
      row (str "DeviceID") ≠ none →
        ∃ st, CValue_update pyObjectStr (.str s) = some st ∧
          select [str "Value"] ValueID (update schema now st ValueID table) = [read] ∧
          ((select valueColumns ValueID (update schema now st ValueID table))[4]?).bind decodeUTF8 =
            decodeUTF8 read
  /-- `Device.update()`, and `safe_query` or `refresh()`. -/
  device : ∀ (schema : Schema) (now : Bytes) (Active : Bool) (table : Table Row) (DeviceID : ℤ)
    (row : Row) (s : PyStr),
    schema (str "Address") = .text → asUTF8 s = some t.bytes → table.get? DeviceID = some row →
      row (str "InterfaceID") ≠ none →
        ∃ st, CDevice_update (.str s) Active = some st ∧
          select [str "Address"] DeviceID (update schema now st DeviceID table) = [read] ∧
          ((select deviceColumns DeviceID
            (update schema now st DeviceID table))[3]?).bind decodeUTF8 = decodeUTF8 read
  /-- `PUT` and `PATCH`, and `safe_query`. -/
  modified : ∀ (schema : Schema) (now : Bytes) (dbl : Doubles UInt64)
    (parse : Bytes → Option (Json UInt64)) (req : Request) (da : DataAccess)
    (members : List (Bytes × Json UInt64)) (field : Bytes) (st : Statement) (table : Table Row)
    (key : ℤ) (row : Row),
    parse req.content = some (.object members) → (members.map Prod.fst).Nodup →
      (field, .string t.bytes) ∈ members → schema field = column →
        (restStatement (put dbl parse req da) = some st ∨
          restStatement (patch dbl parse req da) = some st) →
          field ∈ st.fields → table.get? key = some row →
            select [field] key (update schema now st key table) = [rest]
  /-- `POST`, and `safe_query`. -/
  inserted : ∀ (schema : Schema) (now : Bytes) (dbl : Doubles UInt64)
    (parse : Bytes → Option (Json UInt64)) (req : Request) (da : DataAccess)
    (members : List (Bytes × Json UInt64)) (field : Bytes) (st : Statement) (table : Table Row)
    (defaults : Row),
    parse req.content = some (.object members) → (members.map Prod.fst).Nodup →
      (field, .string t.bytes) ∈ members → schema field = column →
        restStatement (post dbl parse req da) = some st → field ∈ st.fields →
          select [field] (table.seq + 1) (insert schema now defaults st table) = [rest]

/-- The text comes back as it was. -/
def Unchanged (column : Column) (t : Text) : Prop := Returns column t t.bytes t.bytes

/-- A text without the pair of quotes around it; a single quote is none. -/
def undelimited (text : Bytes) : Bytes :=
  if Delimited text ∧ 2 ≤ text.length then text.tail.dropLast else text

/-! ### What a statement assigns -/

section Assign

variable {schema : Schema} {now : Bytes}

theorem foldl_assignField_of_notMem {ps : List (Bytes × Bytes)} {name : Bytes}
    (h : name ∉ ps.map Prod.fst) (row : Row) :
    ps.foldl (assignField schema) row name = row name := by
  induction ps generalizing row with
  | nil => rfl
  | cons p ps ih =>
    rw [List.map_cons, List.mem_cons, not_or] at h
    rw [List.foldl_cons, ih h.2, assignField, Function.update_of_ne h.1]

theorem foldl_assignField_of_mem {ps : List (Bytes × Bytes)} (hnodup : (ps.map Prod.fst).Nodup)
    {p : Bytes × Bytes} (h : p ∈ ps) (row : Row) :
    ps.foldl (assignField schema) row p.1 =
      some ((schema p.1).convert (addParameter p.2)) := by
  induction ps generalizing row with
  | nil => cases h
  | cons q ps ih =>
    rw [List.map_cons, List.nodup_cons] at hnodup
    rw [List.foldl_cons]
    rcases List.mem_cons.mp h with rfl | h
    · rw [foldl_assignField_of_notMem hnodup.1, assignField, Function.update_self]
    · exact ih hnodup.2 h _

variable {st : Statement}

/-- A field that is assigned once has what its column makes of its parameter. -/
theorem assign_of_mem (hlength : st.fields.length = st.values.length) (hnodup : st.fields.Nodup)
    {field value : Bytes} (h : (field, value) ∈ st.fields.zip st.values)
    (htime : field ≠ str "Timestamp") (row : Row) :
    st.assign schema now row field = some ((schema field).convert (addParameter value)) := by
  have hfst : ((st.fields.zip st.values).map Prod.fst).Nodup := by
    rwa [List.map_fst_zip hlength.le]
  have hfield := @foldl_assignField_of_mem schema _ hfst _ h row
  unfold Statement.assign
  split
  · rw [Function.update_of_ne htime, hfield]
  · exact hfield

/-- The other fields are as they were. -/
theorem assign_of_notMem (hlength : st.fields.length = st.values.length) {name : Bytes}
    (h : name ∉ st.fields) (htime : name ≠ str "Timestamp") (row : Row) :
    st.assign schema now row name = row name := by
  have hfst : name ∉ (st.fields.zip st.values).map Prod.fst := by
    rwa [List.map_fst_zip hlength.le]
  have hname := @foldl_assignField_of_notMem schema _ _ hfst row
  unfold Statement.assign
  split
  · rw [Function.update_of_ne htime, hname]
  · exact hname

theorem select_update {t : Table Row} {key : ℤ} {row : Row} (h : t.get? key = some row)
    (columns : List Bytes) : select columns key (update schema now st key t) =
      rowValues true (columns.map (st.assign schema now row)) := by
  rw [select, update, h]
  simp only
  rw [Table.get?_set h, Option.elim_some]

theorem select_insert (t : Table Row) (defaults : Row) (columns : List Bytes) :
    select columns (t.seq + 1) (insert schema now defaults st t) =
      rowValues true (columns.map (st.assign schema now defaults)) := by
  rw [select, insert, Table.get?_insert, Option.elim_some]

end Assign

/-! ### What comes back -/

/-- What is bound of a text has no NUL. -/
theorem zero_notMem_addParameter (t : Text) : 0 ∉ addParameter t.bytes := fun h =>
  t.noNul ((addParameter_sublist _).subset h)

/-- A text comes back exactly if it has no delimiters and the column keeps it. -/
theorem convert_addParameter_eq_self_iff (column : Column) (t : Text) :
    column.convert (addParameter t.bytes) = t.bytes ↔
      ¬ Delimited t.bytes ∧ column.convert t.bytes = t.bytes := by
  rw [← addParameter_eq_self_iff]
  constructor
  · intro h
    rcases column.number (addParameter t.bytes) with hkept | hnumber
    · have hself : addParameter t.bytes = t.bytes := hkept.symm.trans h
      rw [hself] at h
      exact ⟨hself, h⟩
    · -- a number does not begin with a delimiter
      rw [h] at hnumber
      have hself : addParameter t.bytes = t.bytes := by
        rw [addParameter_eq_self_iff]
        rintro (⟨hhead, -⟩ | ⟨hhead, -⟩)
        · exact (hnumber _ hhead).1 rfl
        · exact (hnumber _ hhead).2 rfl
      rw [hself] at h
      exact ⟨hself, h⟩
  · rintro ⟨hself, hkept⟩
    rw [hself, hkept]

/-- Of a text that is not a single quote the pair of quotes is taken off. -/
theorem addParameter_eq_undelimited {text : Bytes} (h : text ≠ [0x27] ∧ text ≠ [0x22]) :
    addParameter text = undelimited text := by
  by_cases hdelimited : Delimited text
  · have hlength : 2 ≤ text.length := by
      cases text with
      | nil => exact absurd hdelimited (by decide)
      | cons b text =>
        cases text with
        | nil =>
          rcases hdelimited with ⟨hhead, -⟩ | ⟨hhead, -⟩
          · exact absurd (congrArg Option.toList hhead) h.1
          · exact absurd (congrArg Option.toList hhead) h.2
        | cons c text => exact Nat.le_add_left 2 text.length
    rw [addParameter, if_pos hdelimited, undelimited, if_pos ⟨hdelimited, hlength⟩,
      List.dropLast_eq_take, List.length_tail, List.drop_one, Nat.sub_sub]
  · rw [addParameter, if_neg hdelimited, undelimited, if_neg fun hand => hdelimited hand.1]

/-- The statement of a handler, and the members that it was made of. -/
theorem parameters_of_ok {dbl : Doubles UInt64} {da : DataAccess}
    {members : List (Bytes × Json UInt64)} {fields values : List Bytes}
    (h : getFieldsAndValues dbl (some (.object members)) da = .ok (fields, values))
    (hnodup : (members.map Prod.fst).Nodup) {field text : Bytes}
    (hmem : (field, .string text) ∈ members) (hfield : field ∈ fields) :
    fields.length = values.length ∧ fields.Nodup ∧ (field, cstr text) ∈ fields.zip values ∧
      field ≠ str "Timestamp" := by
  obtain ⟨-, hlength, hvalid⟩ := getFieldsAndValues_valid h
  obtain ⟨rfl, -, hvalues⟩ := getFieldsAndValues_eq_ok_iff.mp h
  obtain ⟨m, hm, rfl⟩ := List.mem_map.mp hfield
  have hsame : m = (m.1, .string text) :=
    List.inj_on_of_nodup_map hnodup (List.mem_of_mem_filter hm) hmem rfl
  refine ⟨hlength, hnodup.sublist (List.filter_sublist.map _), ?_, (hvalid _ hfield).2.2⟩
  obtain ⟨i, hi⟩ := List.mem_iff_getElem?.mp hm
  have hvalue := congrArg (fun l => l[i]?) hvalues
  simp only [List.getElem?_map] at hvalue
  rw [hi, Option.map_some, hsame] at hvalue
  obtain ⟨value, hvalue, htext⟩ := Option.map_eq_some_iff.mp hvalue
  obtain rfl := Option.some.inj htext
  refine List.mem_of_getElem? (i := i) (List.getElem?_zip_eq_some.mpr ⟨?_, hvalue⟩)
  rw [List.getElem?_map, hi, Option.map_some]

/-- The parameters of a statement of the REST page. -/
theorem ok_of_modify {dbl : Doubles UInt64} {parse : Bytes → Option (Json UInt64)} {req : Request}
    {da : DataAccess} {st : Statement} (h : restStatement (modify dbl parse req da) = some st) :
    getFieldsAndValues dbl (parse req.content) da.stripForbiddenFields =
      .ok (st.fields, st.values) := by
  unfold modify at h
  split at h
  · cases h
  · split at h
    · cases h
    · next hok =>
      cases h
      exact hok

theorem ok_of_post {dbl : Doubles UInt64} {parse : Bytes → Option (Json UInt64)} {req : Request}
    {da : DataAccess} {st : Statement} (h : restStatement (post dbl parse req da) = some st) :
    getFieldsAndValues dbl (parse req.content) da = .ok (st.fields, st.values) := by
  unfold post at h
  split at h
  · cases h
  · split at h
    · cases h
    · next hok =>
      cases h
      exact hok

/-- The row of a single field. -/
theorem rowValues_singleton (value : Bytes) : rowValues true [some value] = [cstr value] := rfl

/-- What is read of a field whose parameter is a text. -/
theorem rowValues_assign {schema : Schema} {now : Bytes} {st : Statement} {field : Bytes} {t : Text}
    (hlength : st.fields.length = st.values.length) (hfields : st.fields.Nodup)
    (hzip : (field, t.bytes) ∈ st.fields.zip st.values) (htime : field ≠ str "Timestamp")
    (row : Row) : rowValues true ([field].map (st.assign schema now row)) =
      [(schema field).convert (addParameter t.bytes)] := by
  have hzero := (schema field).noNul _ (zero_notMem_addParameter t)
  rw [List.map_singleton, assign_of_mem hlength hfields hzip htime, rowValues_singleton,
    cstr_of_notMem hzero]

/-- What is read of a field that a statement of the REST page has assigned. -/
theorem rowValues_rest {schema : Schema} {now : Bytes} {dbl : Doubles UInt64} {da : DataAccess}
    {members : List (Bytes × Json UInt64)} {st : Statement}
    (h : getFieldsAndValues dbl (some (.object members)) da = .ok (st.fields, st.values))
    (hnodup : (members.map Prod.fst).Nodup) {field : Bytes} {t : Text}
    (hmem : (field, .string t.bytes) ∈ members) (hfield : field ∈ st.fields) (row : Row) :
    rowValues true ([field].map (st.assign schema now row)) =
      [(schema field).convert (addParameter t.bytes)] := by
  obtain ⟨hlength, hfields, hzip, htime⟩ := parameters_of_ok h hnodup hmem hfield
  rw [cstr_of_notMem t.noNul] at hzip
  exact rowValues_assign hlength hfields hzip htime row

/-- What `refresh()` reads, if the first column is not assigned and not `NULL`. -/
theorem select_refresh {schema : Schema} {now : Bytes} {st : Statement} {field first : Bytes}
    {t : Text} (hlength : st.fields.length = st.values.length) (hfields : st.fields.Nodup)
    (hzip : (field, t.bytes) ∈ st.fields.zip st.values) (htime : field ≠ str "Timestamp")
    {table : Table Row} {key : ℤ} {row : Row} (hrow : table.get? key = some row)
    {columns : List Bytes} {i : ℕ} (hfirst : columns.head? = some first) (hnull : row first ≠ none)
    (hnot : first ∉ st.fields) (hfirsttime : first ≠ str "Timestamp")
    (hindex : columns[i]? = some field) :
    (select columns key (update schema now st key table))[i]? =
      some ((schema field).convert (addParameter t.bytes)) := by
  have hhead : (columns.map (st.assign schema now row)).head? ≠ some none := by
    rw [List.head?_map, hfirst, Option.map_some, assign_of_notMem hlength hnot hfirsttime]
    exact fun h => hnull (Option.some.inj h)
  have hzero := (schema field).noNul _ (zero_notMem_addParameter t)
  rw [select_update hrow, rowValues_eq hhead, List.map_map, List.getElem?_map, hindex,
    Option.map_some, Function.comp_apply, assign_of_mem hlength hfields hzip htime, column,
    Option.getD_some, cstr_of_notMem hzero]

/-! ### The paths -/

/-- The `std::string` of a text without a NUL. -/
theorem stdString_of_text {s : PyStr} {t : Text} (h : asUTF8 s = some t.bytes) :
    stdString s = some t.bytes := by
  rw [stdString, h, Option.map_some, cstr_of_notMem t.noNul]

/-- What the paths make of a text. -/
theorem returns_addParameter (column : Column) (t : Text) :
    Returns column t (addParameter t.bytes) (column.convert (addParameter t.bytes)) where
  value schema now pyObjectStr table ValueID row s hcolumn htext hrow hnull := by
    -- the statement that writes the value, which is read with its column's conversion
    let st : Statement := { fields := [str "Value"], values := [t.bytes], timestamp := true }
    have hst : CValue_update pyObjectStr (.str s) = some st := by
      rw [CValue_update, stdString_of_text htext]
      rfl
    have hfields : st.fields.Nodup := List.nodup_singleton _
    have hzip : (str "Value", t.bytes) ∈ st.fields.zip st.values := List.mem_cons_self
    have hfirst : valueColumns.head? = some (str "DeviceID") := rfl
    have hnot : str "DeviceID" ∉ [str "Value"] := by decide
    refine ⟨st, hst, ?_, ?_⟩
    · rw [select_update hrow, rowValues_assign rfl hfields hzip (by decide), hcolumn]
      rfl
    · rw [select_refresh rfl hfields hzip (by decide) hrow hfirst hnull hnot (by decide) rfl, hcolumn]
      rfl
  device schema now Active table DeviceID row s hcolumn htext hrow hnull := by
    let st : Statement :=
      { fields := [str "Address", str "Active"]
        values := [t.bytes, decimal Active.toInt]
        timestamp := true }
    have hst : CDevice_update (.str s) Active = some st := by
      rw [CDevice_update, unicode?, Option.bind_some, stdString_of_text htext]
      rfl
    have hfields : st.fields.Nodup := by
      show [str "Address", str "Active"].Nodup
      decide
    have hzip : (str "Address", t.bytes) ∈ st.fields.zip st.values := List.mem_cons_self
    have hfirst : deviceColumns.head? = some (str "InterfaceID") := rfl
    have hnot : str "InterfaceID" ∉ [str "Address", str "Active"] := by decide
    refine ⟨st, hst, ?_, ?_⟩
    · rw [select_update hrow, rowValues_assign rfl hfields hzip (by decide), hcolumn]
      rfl
    · rw [select_refresh rfl hfields hzip (by decide) hrow hfirst hnull hnot (by decide) rfl, hcolumn]
      rfl
  modified schema now dbl parse req da members field st table key row hparse hnodup hmem hcolumn
      haction hfield hrow := by
    have hok := ok_of_modify (haction.elim id id)
    rw [hparse] at hok
    rw [select_update hrow, rowValues_rest hok hnodup hmem hfield, hcolumn]
  inserted schema now dbl parse req da members field st table defaults hparse hnodup hmem hcolumn
      haction hfield := by
    have hok := ok_of_post haction
    rw [hparse] at hok
    rw [select_insert, rowValues_rest hok hnodup hmem hfield, hcolumn]

/-- **A text comes back without the pair of quotes around it**, unless it is a single quote. -/
theorem returns_undelimited (column : Column) (t : Text)
    (h : t.bytes ≠ [0x27] ∧ t.bytes ≠ [0x22]) :
    Returns column t (undelimited t.bytes) (column.convert (undelimited t.bytes)) := by
  rw [← addParameter_eq_undelimited h]
  exact returns_addParameter column t

/-! ### Texts that come back as they were -/

/-- A `POST` of a single text. -/
def posted : Request := { method := str "POST", contentLength := 1 }

/-- The fields of a table of names. -/
def names : DataAccess := { table := str "Unit", validFields := [⟨[], str "Name", [], [], [], []⟩] }

/-- What is read of a text that was posted. -/
theorem rest_eq {column : Column} {t : Text} {read rest : Bytes} (h : Returns column t read rest) :
    rest = column.convert (addParameter t.bytes) := by
  let root : Json UInt64 := .object [(str "Name", .string t.bytes)]
  let st : Statement := { fields := [str "Name"], values := [cstr t.bytes], timestamp := false }
  have hpost : restStatement (post doubles (fun _ => some root) posted names) = some st := rfl
  have hmem : (str "Name", Json.string t.bytes) ∈
      [(str "Name", (Json.string t.bytes : Json UInt64))] := List.mem_cons_self
  have hselect := h.inserted (fun _ => column) [] doubles (fun _ => some root) posted names
    [(str "Name", .string t.bytes)] (str "Name") st .empty (fun _ => none) rfl
    (List.nodup_singleton _) hmem rfl hpost List.mem_cons_self
  have hok := ok_of_post hpost
  rw [select_insert, rowValues_rest hok (List.nodup_singleton _) hmem List.mem_cons_self]
    at hselect
  exact (List.cons.inj hselect).1.symm

/-- A text comes back as it was exactly if it has no delimiters and the column keeps it. -/
theorem unchanged_iff (column : Column) (t : Text) :
    Unchanged column t ↔ ¬ Delimited t.bytes ∧ column.convert t.bytes = t.bytes := by
  rw [← convert_addParameter_eq_self_iff]
  constructor
  · exact fun h => (rest_eq h).symm
  · intro h
    have hplain : ¬ Delimited t.bytes := ((convert_addParameter_eq_self_iff column t).mp h).1
    have hreturns := returns_addParameter column t
    rwa [h, (addParameter_eq_self_iff _).mpr hplain] at hreturns

/-- A text in quotes. -/
def quoted : Text := ⟨str "'on'", by decide⟩

/-- It comes back without them. -/
theorem quotes_lost :
    addParameter quoted.bytes = str "on" ∧ ¬ Unchanged .text quoted := by
  have hbound : addParameter quoted.bytes = str "on" := by decide
  refine ⟨hbound, fun h => ?_⟩
  have hself := rest_eq h
  rw [hbound] at hself
  exact absurd hself (by decide)

/-- What comes back of it. -/
theorem returns_quoted : (quoted.bytes ≠ [0x27] ∧ quoted.bytes ≠ [0x22]) ∧
    Returns .text quoted (str "on") (str "on") :=
  ⟨by decide, returns_undelimited .text quoted (by decide)⟩

end Domoticz.StoredText
