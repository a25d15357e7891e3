import Domoticz.JsonRoundTrip
import Domoticz.Web.Integers

/-!
# The documents of the server

A client gets the rows of a table in the content of a `GET`, and the rows that change in the text
messages of its websocket.  Both are documents that `FastWriter` writes.  Whoever reads them finds
the rows of the query and the values of the update.

## Main definitions

* `cell?` — what is found in a column of a row of a document.
* `pushRoot` — the document of an update.

## Main results

* `isMade_resultRoot`, `isMade_pushRoot` — the documents are such that they are read as they are.
* `rows_of_get` — **a client reads the rows of the query.**
* `push_as_get` — **what is pushed reads like what a `GET` would bring.**
-/

namespace Domoticz.Documents

open CLib JsonReader JsonWriter Subscriptions Integers
open ReplyFraming (rowObject resultRoot Environment getReply)

/-! ### Reading a document -/

/-- The rows under a name. -/
def rows (root : Value) (name : Bytes) : List Value :=
  match root.member? name with
  | some (.array items) => items
  | _ => []

/-- What is found in a column of a row. -/
def cell? (root : Value) (name : Bytes) (i : ℕ) (column : Bytes) : Option Value :=
  (rows root name)[i]?.bind fun row => row.member? column

/-! ### Members in order -/

theorem setMember_eq (name : Bytes) (v : Value) (members : List (Bytes × Value)) :
    ReplyFraming.setMember name v members = setMember name v members := by
  induction members with
  | nil => rfl
  | cons m members ih =>
    rw [ReplyFraming.setMember, setMember, ih]

theorem areMade_nil (levels : ℕ) : AreMade levels [] :=
  ⟨List.Pairwise.nil, List.forall_mem_nil _⟩

/-- Members that are set one after the other. -/
theorem areMade_foldl {α : Type*} {levels : ℕ} (name : α → Bytes) {value : α → Value}
    (hvalue : ∀ a, IsMade levels (value a)) (l : List α) {members : List (Bytes × Value)}
    (h : AreMade levels members) :
    AreMade levels
      (l.foldl (fun members a => ReplyFraming.setMember (name a) (value a) members) members) := by
  induction l generalizing members with
  | nil => exact h
  | cons a l ih =>
    rw [List.foldl_cons, setMember_eq]
    exact ih (h.setMember (hvalue a) (name a))

theorem isMade_int {z : ℤ} (hz : -2 ^ 31 ≤ z ∧ z < 2 ^ 31) (levels : ℕ) :
    IsMade (levels + 1) (.int z) :=
  ⟨⟨by omega, by omega⟩, if_pos (by omega)⟩

theorem isMade_string (s : Bytes) (levels : ℕ) : IsMade (levels + 1) (.string s) := ⟨trivial, rfl⟩

theorem isMade_fieldValue (field : ColumnInfo) (text : Bytes) (levels : ℕ) :
    IsMade (levels + 1) (fieldValue field text) := by
  unfold fieldValue
  split
  · exact isMade_int (toInt32_bounds _) levels
  · exact isMade_string text levels

/-! ### The document of a `GET` -/

/-- `sOutputName`. -/
def outputName (da : DataAccess) : Bytes :=
  if da.tableKey = 0 then da.table ++ str "s" else da.table

section Get

variable {da : DataAccess} {result : List (List Bytes)}

theorem isMade_rowObject (validFields : List ColumnInfo) (row : List Bytes) (levels : ℕ) :
    IsMade (levels + 2) (rowObject validFields row) :=
  isMade_object (areMade_foldl (fun p : Bytes × ColumnInfo => p.2.name)
    (fun p => isMade_fieldValue p.2 p.1 levels) _ (areMade_nil _))

/-- The document of a `GET` is one that the reader makes. -/
theorem isMade_resultRoot (da : DataAccess) (result : List (List Bytes)) :
    IsMade stackLimit (resultRoot da result) := by
  have hcount : AreMade 999 [(str "Count", .string (decimal result.length))] :=
    (areMade_nil 999).setMember (isMade_string _ 998) (str "Count")
  unfold resultRoot
  dsimp only
  split
  · exact @isMade_object 999 _ hcount
  · refine @isMade_object 999 _ ?_
    rw [setMember_eq]
    refine hcount.setMember (isMade_array ?_) _
    intro v hv
    obtain ⟨row, -, rfl⟩ := List.mem_map.mp hv
    exact isMade_rowObject da.validFields row 996

theorem rows_resultRoot (hname : outputName da ≠ str "Count") :
    rows (resultRoot da result) (outputName da) = result.map (rowObject da.validFields) := by
  by_cases hnil : result = []
  · have hmember : (resultRoot da result : Value).member? (outputName da) = some .null := by
      rw [resultRoot, if_pos hnil, Json.member?, List.lookup_cons, beq_false_of_ne hname]
      rfl
    rw [rows, hmember, hnil]
    rfl
  · have hmember : (resultRoot da result : Value).member? (outputName da) =
        some (.array (result.map (rowObject da.validFields))) := by
      rw [resultRoot, if_neg hnil, Json.member?]
      exact congrArg (fun o : Option Value => some (o.getD .null)) (lookup_setMember_self _)
    rw [rows, hmember]

theorem cell?_resultRoot (hname : outputName da ≠ str "Count")
    (hfields : (da.validFields.map ColumnInfo.name).Nodup) {i j : ℕ} {row : List Bytes}
    {f : ColumnInfo} {text : Bytes} (hrow : result[i]? = some row)
    (hf : da.validFields[j]? = some f) (htext : row[j]? = some text) :
    cell? (resultRoot da result) (outputName da) i f.name = some (fieldValue f text) := by
  rw [cell?, rows_resultRoot hname, List.getElem?_map, hrow]
  exact member?_rowObject hfields hf htext

end Get

/-- **A client that reads the content of a `GET` finds the rows of the query**, and in them what was
in the columns. -/
theorem rows_of_get {e : Environment UInt64} (hwriter : e.writeValue = FastWriter.writeValue {})
    {req : Request} (hempty : req.contentLength = 0) {o : RestObject} {da : DataAccess}
    (hda : getFields o.isSession o.access = da) (hname : outputName da ≠ str "Count")
    (hfields : (da.validFields.map ColumnInfo.name).Nodup) :
    ∃ root, parse (getReply e req o).content = .ok root ∧
      (rows root (outputName da)).length = e.result.length ∧
      ∀ (i j : ℕ) (row : List Bytes) (f : ColumnInfo) (text : Bytes),
        e.result[i]? = some row → da.validFields[j]? = some f →
        row[j]? = some text → cell? root (outputName da) i f.name = some (fieldValue f text) := by
  have hcontent : (getReply e req o).content = FastWriter.write {} (resultRoot da e.result) := by
    rw [getReply, if_neg (not_not.mpr hempty), hda]
    show e.writeValue _ ++ [10] = _
    rw [hwriter]
    rfl
  obtain ⟨hwritable, hcanonical⟩ := isMade_resultRoot da e.result
  refine ⟨resultRoot da e.result, ?_, ?_, ?_⟩
  · rw [hcontent, FastWriter.parse_write rfl hwritable, hcanonical]
  · rw [rows_resultRoot hname, List.length_map]
  · intro i j row f text hrow hf htext
    exact cell?_resultRoot hname hfields hrow hf htext

/-- The columns of the interfaces. -/
def interfaceColumns : List ColumnInfo :=
  [⟨str "0", str "InterfaceID", str "INTEGER", str "1", [], str "1"⟩,
    ⟨str "1", str "Name", str "TEXT", str "0", [], str "0"⟩]

/-- A server with one interface, whose users may read it. -/
def interfaceEnvironment : Environment UInt64 where
  webem := { crypto := { md5 := fun s => s, base64Decode := fun s => s } }
  cfg := {
    users := [⟨str "Admin", str "1"⟩]
    tableAccess := [⟨str "Interface", str "1", str "1", str "1", str "1", str "1", str "1", [],
      str "*", str "*"⟩]
    tableInfo := fun _ => interfaceColumns }
  doubles := ⟨Double.toIntegral, Double.ofInt, Double.toText⟩
  parse := fun document => (parse document).toOption
  writeValue := FastWriter.writeValue {}
  result := [[str "7", str "\"Front\" door"]]
  iRowCount := 0
  changes := []
  useGzip := false
  gzip := fun s => s
  max_requests := 20
  read_timeout := 0

/-- The object of the interfaces in a `GET`. -/
def interfaceObject : RestObject where
  isSession := false
  access := { table := str "Interface", verb := str "GET", validFields := interfaceColumns }

theorem rows_of_get_interface :
    ∃ root, parse (getReply interfaceEnvironment {} interfaceObject).content = .ok root ∧
      cell? root (str "Interfaces") 0 (str "Name") = some (.string (str "\"Front\" door")) := by
  obtain ⟨root, hparse, -, hcells⟩ := @rows_of_get interfaceEnvironment rfl {} rfl interfaceObject
    interfaceObject.access (by decide) (by decide) (by decide)
  exact ⟨root, hparse, hcells 0 1 _ _ _ rfl rfl rfl⟩

/-! ### The document of an update -/

/-- A value as it is pushed. -/
def json : PushValue → Value
  | .int i => .int i
  | .text s => .string s

/-- What `CWebsocket::DatabaseUpdate` writes: no row, if none of its columns may be returned. -/
def pushRoot (e : UpdateEntry) (row : List (Bytes × PushValue)) : Value :=
  let count := [(str "Count", .int 1)]
  .object (if row = [] then count
    else ReplyFraming.setMember (e.table ++ str "s") (.array [.object
      (row.foldl (fun members m => ReplyFraming.setMember m.1 (json m.2) members) [])]) count)

section Push

variable {e : UpdateEntry} {vFields : List Bytes}

/-- The values that are pushed for an update with columns. -/
theorem isMade_pushValue (e : UpdateEntry) (j levels : ℕ) :
    IsMade (levels + 1) (json (e.pushValue j)) := by
  unfold UpdateEntry.pushValue
  dsimp only
  split
  · exact isMade_int (toInt32_bounds _) levels
  · exact isMade_string _ levels

theorem isMade_pushRoot (hcolumns : e.columns ≠ []) :
    IsMade stackLimit (pushRoot e (rowOf vFields e)) := by
  have hcount : AreMade 999 [(str "Count", .int 1)] :=
    (areMade_nil 999).setMember (isMade_int (by decide) 998) (str "Count")
  have hrow : AreMade 997 ((rowOf vFields e).foldl
      (fun members m => ReplyFraming.setMember m.1 (json m.2) members) []) := by
    rw [rowOf, if_pos hcolumns, List.foldl_map]
    exact areMade_foldl Prod.fst (fun c => isMade_pushValue e c.2 996) _ (areMade_nil _)
  unfold pushRoot
  dsimp only
  split
  · exact @isMade_object 999 _ hcount
  · refine @isMade_object 999 _ ?_
    rw [setMember_eq]
    refine hcount.setMember (isMade_array ?_) _
    intro v hv
    obtain rfl := List.mem_singleton.mp hv
    exact isMade_object hrow

/-- Members with different names, set one after the other. -/
theorem lookup_foldl_json {row : List (Bytes × PushValue)} (hnames : (row.map Prod.fst).Nodup)
    {m : Bytes × PushValue} (h : m ∈ row) :
    (row.foldl (fun members m => ReplyFraming.setMember m.1 (json m.2) members) []).lookup m.1 =
      some (json m.2) := by
  induction row using List.reverseRecOn with
  | nil => cases h
  | append_singleton row m' ih =>
    rw [List.foldl_concat]
    rw [List.map_append, List.nodup_append] at hnames
    rcases List.mem_append.mp h with h | h
    · have hne := hnames.2.2 _ (List.mem_map_of_mem h) _ (List.mem_singleton_self m'.1)
      rw [lookup_setMember_of_ne hne]
      exact ih hnames.1 h
    · obtain rfl := List.mem_singleton.mp h
      exact lookup_setMember_self _

theorem nodup_rowOf (hnames : e.columns.Nodup) (hcolumns : e.columns ≠ []) :
    ((rowOf vFields e).map Prod.fst).Nodup := by
  have hsub := (List.filter_sublist (p := fun c => vFields.contains c.1)
    (l := e.columns.zipIdx)).map Prod.fst
  rw [List.zipIdx_map_fst] at hsub
  rw [rowOf, if_pos hcolumns, List.map_map]
  exact hnames.sublist hsub

/-- What is found in a column of the row that is pushed. -/
theorem cell?_pushRoot (hnames : e.columns.Nodup) {k : ℕ} {name : Bytes}
    (hname : e.columns[k]? = some name) (hfield : name ∈ vFields) :
    cell? (pushRoot e (rowOf vFields e)) (e.table ++ str "s") 0 name =
      some (json (e.pushValue k)) := by
  have hcolumns : e.columns ≠ [] := List.ne_nil_of_mem (List.mem_of_getElem? hname)
  have hmem : (name, e.pushValue k) ∈ rowOf vFields e := by
    rw [rowOf, if_pos hcolumns]
    refine List.mem_map.mpr ⟨(name, k), List.mem_filter.mpr ⟨?_, ?_⟩, rfl⟩
    · exact List.mem_zipIdx_iff_getElem?.mpr hname
    · exact List.contains_iff_mem.mpr hfield
  have hlookup := lookup_foldl_json (nodup_rowOf hnames hcolumns) hmem
  have hmember : (pushRoot e (rowOf vFields e)).member? (e.table ++ str "s") =
      some (.array [.object ((rowOf vFields e).foldl
        (fun members m => ReplyFraming.setMember m.1 (json m.2) members) [])]) := by
    rw [pushRoot, if_neg (List.ne_nil_of_mem hmem), Json.member?]
    exact congrArg (fun o : Option Value => some (o.getD .null)) (lookup_setMember_self _)
  rw [cell?, rows, hmember]
  exact congrArg (fun o : Option Value => some (o.getD .null)) hlookup

end Push

/-- An update tells what is in a row of a table. -/
structure TellsRow (e : UpdateEntry) (da : DataAccess) (row : List Bytes) : Prop where
  names : e.columns.Nodup
  length : row.length = da.validFields.length
  /-- A column of both has the type of the table and the text of the row. -/
  agree : ∀ (j k : ℕ) (f : ColumnInfo) (text : Bytes), da.validFields[j]? = some f →
    row[j]? = some text → e.columns[k]? = some f.name →
      e.columnTypes[k]? = some f.type ∧ e.values[k]? = some text ∧ 0 ∉ text

/-- **What is pushed reads like what a `GET` would bring**: whoever subscribed to a table reads the
same in the columns of an update as in those of the row. -/
theorem push_as_get {da : DataAccess} (hkey : da.tableKey = 0)
    (hfields : (da.validFields.map ColumnInfo.name).Nodup) {result : List (List Bytes)} {i : ℕ}
    {row : List Bytes} (hrow : result[i]? = some row) {e : UpdateEntry} (htable : e.table = da.table)
    (hcolumns : e.columns ≠ []) (htells : TellsRow e da row) {subs : List Subscription}
    {s : Subscription} (hs : subs.find? (fun s => s.sTable == e.table ++ str "s") = some s) :
    ∃ pushed got r, databaseUpdate subs e = some r ∧
      parse (FastWriter.write {} (pushRoot e r)) = .ok pushed ∧
      parse (FastWriter.write {} (resultRoot da result)) = .ok got ∧
      ∀ f ∈ da.validFields, f.name ∈ s.vFields → f.name ∈ e.columns →
        ∃ v, cell? pushed (da.table ++ str "s") 0 f.name = some v ∧
          cell? got (da.table ++ str "s") i f.name = some v := by
  have hupdate : databaseUpdate subs e = some (rowOf s.vFields e) := by
    rw [databaseUpdate, hs]
    rfl
  have houtput : outputName da = da.table ++ str "s" := if_pos hkey
  have hcount : da.table ++ str "s" ≠ str "Count" := by
    intro h
    have hlast := congrArg List.getLast? h
    rw [show str "s" = [115] from rfl, List.getLast?_concat] at hlast
    cases hlast
  obtain ⟨hwritable, hcanonical⟩ := isMade_resultRoot da result
  obtain ⟨hpushed, hpushed'⟩ := @isMade_pushRoot e s.vFields hcolumns
  refine ⟨_, _, _, hupdate, FastWriter.parse_write rfl hpushed, FastWriter.parse_write rfl hwritable,
    fun f hf hfield hcolumn => ?_⟩
  obtain ⟨j, hj⟩ := List.getElem?_of_mem hf
  obtain ⟨k, hk⟩ := List.getElem?_of_mem hcolumn
  have hlt : j < row.length := by
    rw [htells.length]
    exact (List.getElem?_eq_some_iff.mp hj).1
  have htext := List.getElem?_eq_getElem hlt
  obtain ⟨htype, hvalue, hzero⟩ := htells.agree j k f _ hj htext hk
  have hget := @cell?_resultRoot da result (houtput ▸ hcount) hfields i j row f _ hrow hj htext
  have hpush := @cell?_pushRoot e s.vFields htells.names k f.name hk hfield
  rw [hpushed', hcanonical]
  refine ⟨fieldValue f row[j], ?_, houtput ▸ hget⟩
  rw [← htable, hpush, UpdateEntry.pushValue, List.getD_eq_getElem?_getD,
    List.getD_eq_getElem?_getD, htype, hvalue, fieldValue, cstr_of_notMem hzero]
  refine congrArg some ?_
  dsimp only [Option.getD_some]
  split <;> rfl

/-- The name of the interface has changed. -/
def interfaceEntry : UpdateEntry where
  action := str "Update"
  table := str "Interface"
  rowIdx := 7
  columns := [str "InterfaceID", str "Name"]
  columnTypes := [str "INTEGER", str "TEXT"]
  values := [str "7", str "Back door"]

theorem tellsRow_interface :
    TellsRow interfaceEntry interfaceObject.access [str "7", str "Back door"] := by
  refine ⟨by decide, rfl, ?_⟩
  intro j k f text hf htext hk
  have hj : j < 2 := (List.getElem?_eq_some_iff.mp htext).1
  have hk' : k < 2 := (List.getElem?_eq_some_iff.mp hk).1
  interval_cases j <;> interval_cases k <;> cases hf <;> cases htext <;> revert hk <;> decide

theorem push_as_get_interface :
    ∃ pushed got r,
      databaseUpdate [⟨str "Interfaces", [str "Name"]⟩] interfaceEntry = some r ∧
      parse (FastWriter.write {} (pushRoot interfaceEntry r)) = .ok pushed ∧
      parse (FastWriter.write {}
        (resultRoot interfaceObject.access [[str "7", str "Back door"]])) = .ok got ∧
      ∀ f ∈ interfaceColumns, f.name ∈ [str "Name"] → f.name ∈ interfaceEntry.columns →
        ∃ v, cell? pushed (str "Interfaces") 0 f.name = some v ∧
          cell? got (str "Interfaces") 0 f.name = some v :=
  @push_as_get interfaceObject.access rfl (by decide) [[str "7", str "Back door"]] 0
    [str "7", str "Back door"] rfl interfaceEntry rfl (by decide) tellsRow_interface
    [⟨str "Interfaces", [str "Name"]⟩] ⟨str "Interfaces", [str "Name"]⟩ rfl

end Domoticz.Documents
