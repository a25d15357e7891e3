import Domoticz.Main.SQLHelper
import Domoticz.Plugin.Python
import Domoticz.Web.ReplyFraming
import Domoticz.Web.Subscriptions

/-!
# Integers on their way to a client

The value of a column arrives as the text that SQLite makes of it.  `GET` and `DatabaseUpdate` make
a number of it again with `atoi`, which has 32 bits where the column has 64.  The key of a row that
was deleted does not take this way; it is negated as a number of 64 bits.

## Main definitions

* `SqliteInteger` — the integers of the database.
* `Faithful` — what is asked of an integer and of the key of a row that was deleted.

## Main results

* `member?_rowObject` — what a `GET` writes for a column.
* `lookup_rowOf` — what is pushed for a column.
* `integers_kept_iff` — **an integer is written and pushed right exactly if it has 32 bits, and a key
  exactly if it can be negated.**
* `count_resultRoot` — the count of a `GET`.
* `time_stamp_cut` — an integer that needs more.
-/

namespace Domoticz.Integers

open CLib ReplyFraming Subscriptions

/-- An integer that SQLite stores, a `sqlite3_int64`. -/
structure SqliteInteger where
  val : ℤ
  lower : -2 ^ 63 ≤ val
  upper : val < 2 ^ 63

/-- `sqlite3_column_text`. -/
def SqliteInteger.columnText (v : SqliteInteger) : Bytes := decimal v.val

/-- What is asked of an integer in a column that is one, and of the key of a row that was
deleted. -/
structure Faithful (v rowId : SqliteInteger) : Prop where
  /-- A `GET` writes it. -/
  emitted : ∀ (validFields : List ColumnInfo) (row : List Bytes) (i : ℕ) (field : ColumnInfo),
    (validFields.map ColumnInfo.name).Nodup → validFields[i]? = some field →
      field.type = str "INTEGER" → row[i]? = some v.columnText →
        (rowObject validFields row : Json UInt64).member? field.name = some (.int v.val)
  /-- `DatabaseUpdate` pushes it. -/
  pushed : ∀ (subs : List Subscription) (s : Subscription) (e : UpdateEntry) (j : ℕ) (name : Bytes),
    subs.find? (fun s => s.sTable == e.table ++ str "s") = some s → e.columns.Nodup →
      e.columns[j]? = some name → name ∈ s.vFields → e.columnTypes[j]? = some (str "INTEGER") →
        e.values[j]? = some v.columnText →
          ∃ row, databaseUpdate subs e = some row ∧ row.lookup name = some (.int v.val)
  /-- `DatabaseUpdate` pushes the key with the opposite sign. -/
  deleted : ∀ (subs : List Subscription) (s : Subscription) (e : UpdateEntry),
    subs.find? (fun s => s.sTable == e.table ++ str "s") = some s → e.columns = [] →
      e.rowIdx = rowId.val →
        databaseUpdate subs e = some [(e.table ++ str "ID", .int (-rowId.val))]

/-! ### Members -/

section Members

variable {D : Type} {name name' : Bytes} {v : Json D}

theorem lookup_setMember_self (ms : List (Bytes × Json D)) :
    (setMember name v ms).lookup name = some v := by
  induction ms with
  | nil => rw [setMember, List.lookup_cons_self]
  | cons p ps ih =>
    rw [setMember]
    split
    · rw [List.lookup_cons_self]
    · next hne =>
      split
      · rw [List.lookup_cons_self]
      · rw [List.lookup_cons, beq_false_of_ne hne]
        exact ih

theorem lookup_setMember_of_ne (h : name' ≠ name) (ms : List (Bytes × Json D)) :
    (setMember name v ms).lookup name' = ms.lookup name' := by
  have hfirst (ps : List (Bytes × Json D)) : ((name, v) :: ps).lookup name' = ps.lookup name' := by
    rw [List.lookup_cons, beq_false_of_ne h]
  induction ms with
  | nil => exact hfirst []
  | cons p ps ih =>
    rw [setMember]
    split
    · next heq =>
      rw [hfirst, List.lookup_cons, beq_false_of_ne (heq ▸ h)]
    · split
      · exact hfirst _
      · rw [List.lookup_cons, List.lookup_cons, ih]

end Members

/-! ### A row of a `GET` -/

/-- The value that is written for a column. -/
def fieldValue {D : Type} (field : ColumnInfo) (text : Bytes) : Json D :=
  if field.type = str "INTEGER" then .int (atoi (cstr text)) else .string text

theorem map_snd_zip_sublist {α β : Type*} (l : List α) (l' : List β) :
    ((l.zip l').map Prod.snd).Sublist l' := by
  induction l generalizing l' with
  | nil => exact List.nil_sublist _
  | cons a l ih =>
    cases l' with
    | nil => exact List.Sublist.refl _
    | cons b l' => exact (ih l').cons_cons b

/-- The members that are written one after the other. -/
theorem lookup_foldl_setMember {D : Type} {ps : List (Bytes × ColumnInfo)}
    (hnames : (ps.map fun p => p.2.name).Nodup) {p : Bytes × ColumnInfo} (h : p ∈ ps) :
    (ps.foldl (fun members p => setMember p.2.name (fieldValue p.2 p.1 : Json D) members)
      []).lookup p.2.name = some (fieldValue p.2 p.1) := by
  induction ps using List.reverseRecOn with
  | nil => cases h
  | append_singleton ps q ih =>
    rw [List.foldl_concat]
    rw [List.map_append, List.nodup_append] at hnames
    rcases List.mem_append.mp h with h | h
    · have hne := hnames.2.2 _ (List.mem_map_of_mem h) _ (List.mem_singleton_self q.2.name)
      rw [lookup_setMember_of_ne hne]
      exact ih hnames.1 h
    · obtain rfl := List.mem_singleton.mp h
      exact lookup_setMember_self _

/-- What a `GET` writes for a column. -/
theorem member?_rowObject {D : Type} {validFields : List ColumnInfo} {row : List Bytes} {i : ℕ}
    {field : ColumnInfo} {text : Bytes} (hnames : (validFields.map ColumnInfo.name).Nodup)
    (hfield : validFields[i]? = some field) (htext : row[i]? = some text) :
    (rowObject validFields row : Json D).member? field.name = some (fieldValue field text) := by
  have hmem : (text, field) ∈ row.zip validFields :=
    List.mem_of_getElem? (List.getElem?_zip_eq_some.mpr ⟨htext, hfield⟩)
  have hzip : ((row.zip validFields).map fun p => p.2.name).Nodup := by
    have hsub := (map_snd_zip_sublist row validFields).map ColumnInfo.name
    rw [List.map_map] at hsub
    exact hnames.sublist hsub
  have hlookup := lookup_foldl_setMember (D := D) hzip hmem
  rw [rowObject, Json.member?]
  exact congrArg (fun o => some (o.getD .null)) hlookup

/-! ### A row that is pushed -/

/-- What is pushed for a column. -/
theorem lookup_rowOf {vFields : List Bytes} {e : UpdateEntry} {j : ℕ} {name : Bytes}
    (hnames : e.columns.Nodup) (hname : e.columns[j]? = some name) (hfield : name ∈ vFields) :
    (rowOf vFields e).lookup name = some (e.pushValue j) := by
  have hne : e.columns ≠ [] := List.ne_nil_of_mem (List.mem_of_getElem? hname)
  have hmem : (name, e.pushValue j) ∈ rowOf vFields e := by
    rw [rowOf, if_pos hne]
    refine List.mem_map.mpr ⟨(name, j), List.mem_filter.mpr ⟨?_, ?_⟩, rfl⟩
    · exact List.mem_zipIdx_iff_getElem?.mpr hname
    · exact List.contains_iff_mem.mpr hfield
  have hnodup : ((rowOf vFields e).map Prod.fst).Nodup := by
    have hsub : ((e.columns.zipIdx.filter fun c => vFields.contains c.1).map Prod.fst).Sublist
        e.columns := by
      have hsub := (List.filter_sublist (p := fun c => vFields.contains c.1)
        (l := e.columns.zipIdx)).map Prod.fst
      rwa [List.zipIdx_map_fst] at hsub
    rw [rowOf, if_pos hne, List.map_map]
    exact hnames.sublist hsub
  exact lookup_of_mem hnodup hmem

/-- The value that is pushed for an integer. -/
theorem pushValue_eq {e : UpdateEntry} {j : ℕ} {text : Bytes}
    (htype : e.columnTypes[j]? = some (str "INTEGER")) (hvalue : e.values[j]? = some text) :
    e.pushValue j = .int (atoi text) := by
  rw [UpdateEntry.pushValue, List.getD_eq_getElem?_getD, List.getD_eq_getElem?_getD, htype, hvalue]
  exact if_pos rfl

/-! ### Integers -/

theorem cstr_columnText (v : SqliteInteger) : cstr v.columnText = v.columnText :=
  cstr_of_notMem (notMem_decimal v.val (by decide) (by decide))

theorem fieldValue_integer {D : Type} {field : ColumnInfo} (h : field.type = str "INTEGER")
    {v : SqliteInteger} : (fieldValue field v.columnText : Json D) = .int (atoi v.columnText) := by
  rw [fieldValue, if_pos h, cstr_columnText]

/-- An integer is made of its text exactly if it has 32 bits. -/
theorem atoi_columnText_iff (v : SqliteInteger) :
    atoi v.columnText = v.val ↔ -2 ^ 31 ≤ v.val ∧ v.val < 2 ^ 31 := by
  rw [← cstr_columnText]
  exact atoi_decimal_eq_self_iff v.val

/-- A key can be negated unless it is the smallest one. -/
theorem bmod_neg_iff (rowId : SqliteInteger) :
    Int.bmod (rowId.val * -1) (2 ^ 64) = -rowId.val ↔ rowId.val ≠ -2 ^ 63 := by
  have hlower := rowId.lower
  have hupper := rowId.upper
  rw [Int.mul_neg_one]
  constructor
  · intro h hsmallest
    rw [hsmallest] at h
    exact absurd h (by decide)
  · intro h
    exact Int.bmod_eq_of_le (by omega) (by omega)

/-- A table with a single column. -/
def field : ColumnInfo := ⟨str "0", str "Value", str "INTEGER", str "0", [], str "0"⟩

/-- A subscription to a table of that name. -/
def subscription : Subscription := ⟨str "Values", [str "Value"]⟩

/-- **An integer is written and pushed right exactly if it has 32 bits, and a key exactly if it can
be negated.** -/
theorem integers_kept_iff (v rowId : SqliteInteger) :
    Faithful v rowId ↔ (-2 ^ 31 ≤ v.val ∧ v.val < 2 ^ 31) ∧ rowId.val ≠ -2 ^ 63 := by
  rw [← atoi_columnText_iff, ← bmod_neg_iff]
  constructor
  · intro h
    have hemitted := h.emitted [field] [v.columnText] 0 field (List.nodup_singleton _) rfl rfl rfl
    have hwritten : (rowObject [field] [v.columnText] : Json UInt64).member? field.name =
        some (fieldValue field v.columnText) :=
      member?_rowObject (i := 0) (List.nodup_singleton _) rfl rfl
    rw [hwritten, fieldValue_integer rfl, Option.some.injEq] at hemitted
    let e : UpdateEntry := { action := str "Delete", table := str "Value", rowIdx := rowId.val }
    have hdeleted := h.deleted [subscription] subscription e rfl rfl rfl
    have hpushed : databaseUpdate [subscription] e =
        some [(str "ValueID", .int (Int.bmod (rowId.val * -1) (2 ^ 64)))] := rfl
    rw [hpushed, Option.some.injEq] at hdeleted
    exact ⟨Json.int.inj hemitted,
      PushValue.int.inj (congrArg Prod.snd (List.cons.inj hdeleted).1)⟩
  · rintro ⟨hv, hkey⟩
    refine ⟨?_, ?_, ?_⟩
    · intro validFields row i field hnames hfield htype hrow
      rw [member?_rowObject hnames hfield hrow, fieldValue_integer htype, hv]
    · intro subs s e j name hfind hnames hname hfield htype hvalue
      refine ⟨rowOf s.vFields e, by rw [databaseUpdate, hfind]; rfl, ?_⟩
      rw [lookup_rowOf hnames hname hfield, pushValue_eq htype hvalue, hv]
    · intro subs s e hfind hcolumns hrow
      rw [databaseUpdate, hfind, Option.map_some, if_neg (not_not.mpr hcolumns), hrow, hkey]

/-- The second after the last one of 2038 that an `int` can tell. -/
def timeStamp : SqliteInteger := ⟨2 ^ 31, by decide, by decide⟩

/-- It is written with the wrong sign. -/
theorem time_stamp_cut :
    (rowObject [field] [timeStamp.columnText] : Json UInt64).member? (str "Value") =
        some (.int (-2 ^ 31)) ∧
      ¬ Faithful timeStamp timeStamp := by
  have hatoi : atoi timeStamp.columnText = -2 ^ 31 := by
    rw [← cstr_columnText]
    exact (atoi_cstr_decimal _).trans (by decide)
  have hwritten : (rowObject [field] [timeStamp.columnText] : Json UInt64).member? field.name =
      some (.int (-2 ^ 31)) := by
    have hfield : field.type = str "INTEGER" := rfl
    rw [← hatoi, ← fieldValue_integer hfield]
    exact member?_rowObject (i := 0) (List.nodup_singleton _) rfl rfl
  refine ⟨hwritten, fun h => ?_⟩
  have hemitted := h.emitted [field] [timeStamp.columnText] 0 field (List.nodup_singleton _)
    rfl rfl rfl
  rw [hwritten] at hemitted
  exact absurd (Json.int.inj (Option.some.inj hemitted)) (by decide)

/-! ### The count -/

/-- The count of a `GET` is that of its rows. -/
theorem count_resultRoot {D : Type} (da : DataAccess) (result : List (List Bytes))
    (h : str "Count" ≠ if da.tableKey = 0 then da.table ++ str "s" else da.table) :
    (resultRoot da result : Json D).member? (str "Count") =
      some (.string (SQLHelper.count result)) := by
  unfold resultRoot
  simp only [Json.member?]
  split
  · rw [List.lookup_cons_self]
    rfl
  · rw [lookup_setMember_of_ne h, List.lookup_cons_self]
    rfl

end Domoticz.Integers
