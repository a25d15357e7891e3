import Domoticz.CLib.Number

/-!
# Texts on their way into the database and back

A value is bound to a statement with `CSQLStatement::AddParameter`, which takes off delimiters that
stand around it, and read from a row with `CSQLHelper::query`.

## Main definitions

* `addParameter`, `column` — what is bound and what is read.
* `Delimited` — the texts that are not bound as they are.
* `ResultSet`, `query` — what SQLite answers, and what is made of it.
* `ReturnsEvery`, `ReturnsBegun` — every row is returned, or those that do not begin with a `NULL`.

## Main results

* `addParameter_eq_self_iff` — the others are.
* `returns_begun` — **every row is returned that does not begin with a `NULL`.**
* `query_eq_map_iff` — these are all rows exactly if none begins with a `NULL`.
* `row_lost` — one that does.
-/

namespace Domoticz.SQLHelper

open CLib

/-- A text begins and ends with a delimiter, which may be the same byte. -/
def Delimited (sText : Bytes) : Prop :=
  (sText.head? = some 0x27 ∧ sText.getLast? = some 0x27) ∨
    (sText.head? = some 0x22 ∧ sText.getLast? = some 0x22)

instance (sText : Bytes) : Decidable (Delimited sText) := inferInstanceAs (Decidable (_ ∨ _))

/-- `CSQLStatement::AddParameter`: the text that is bound.  Of a single delimiter nothing is left,
as the count for `substr` is then the largest one. -/
def addParameter (pParam : Bytes) : Bytes :=
  if Delimited pParam then (pParam.drop 1).take (pParam.length - 2) else pParam

/-- What `CSQLHelper::query` returns of a column; a `NULL` that is not in the first column is an
empty text. -/
def column (value : Option Bytes) : Bytes := cstr (value.getD [])

theorem addParameter_sublist (pParam : Bytes) : (addParameter pParam).Sublist pParam := by
  unfold addParameter
  split
  · exact (List.take_sublist _ _).trans (List.drop_sublist _ _)
  · exact List.Sublist.refl _

/-- A text is bound as it is exactly if it has no delimiters. -/
theorem addParameter_eq_self_iff (pParam : Bytes) :
    addParameter pParam = pParam ↔ ¬ Delimited pParam := by
  constructor
  · intro h hdelimited
    have hpos : 0 < pParam.length := by
      apply List.length_pos_iff.mpr
      rintro rfl
      exact absurd hdelimited (by decide)
    have hlength := congrArg List.length h
    rw [addParameter, if_pos hdelimited, List.length_take, List.length_drop] at hlength
    omega
  · intro h
    exact if_neg h

/-! ### Queries -/

/-- The rows that SQLite produces for a `SELECT`; a column that is `NULL` has no text. -/
structure ResultSet where
  cols : ℕ
  rows : List (List (Option Bytes))
  pos_cols : 0 < cols
  length_row : ∀ row ∈ rows, row.length = cols

/-- The loop over the columns of a row; `first` is `col == 0`. -/
def rowValues (first : Bool) : List (Option Bytes) → List Bytes
  | [] => []
  | none :: cells => if first then [] else [] :: rowValues false cells
  | some value :: cells => cstr value :: rowValues false cells

/-- `CSQLHelper::query`, for a statement that can be prepared. -/
def query (rs : ResultSet) : List (List Bytes) :=
  (rs.rows.map (rowValues true)).filter fun values => values ≠ []

/-- `root["Count"]` of a `GET`, which is a text. -/
def count (result : List (List Bytes)) : Bytes := decimal result.length

/-- A list for each row, with an entry for each column; and so the count of a `GET` is the number of
rows. -/
structure ReturnsEvery (rs : ResultSet) : Prop where
  rows : query rs = rs.rows.map fun row => row.map column
  width : ∀ values ∈ query rs, values.length = rs.cols
  count : count (query rs) = decimal rs.rows.length

/-- The rows that do not begin with a `NULL`. -/
def ResultSet.begun (rs : ResultSet) : List (List (Option Bytes)) :=
  rs.rows.filter fun row => row.head? ≠ some none

/-- The same, of these rows. -/
structure ReturnsBegun (rs : ResultSet) : Prop where
  rows : query rs = rs.begun.map fun row => row.map column
  width : ∀ values ∈ query rs, values.length = rs.cols
  count : count (query rs) = decimal rs.begun.length

theorem rowValues_false (row : List (Option Bytes)) : rowValues false row = row.map column := by
  induction row with
  | nil => rfl
  | cons cell row ih =>
    cases cell with
    | none =>
      rw [rowValues, if_neg Bool.false_ne_true, ih]
      rfl
    | some value =>
      rw [rowValues, ih]
      rfl

/-- A row that begins with a `NULL` has no values. -/
theorem rowValues_eq_nil_iff {row : List (Option Bytes)} (h : row ≠ []) :
    rowValues true row = [] ↔ row.head? = some none := by
  cases row with
  | nil => exact absurd rfl h
  | cons cell row =>
    cases cell with
    | none => exact iff_of_true rfl rfl
    | some value => exact iff_of_false (List.cons_ne_nil _ _) fun h => by cases h

/-- Another row has the values of all its columns. -/
theorem rowValues_eq {row : List (Option Bytes)} (h : row.head? ≠ some none) :
    rowValues true row = row.map column := by
  cases row with
  | nil => rfl
  | cons cell row =>
    cases cell with
    | none => exact absurd rfl h
    | some value =>
      rw [rowValues, rowValues_false]
      rfl

/-- The query has the values of the rows that do not begin with a `NULL`. -/
theorem query_eq (rs : ResultSet) : query rs = rs.begun.map fun row => row.map column := by
  have hbegun : rs.rows.filter ((fun values => decide (values ≠ [])) ∘ rowValues true) =
      rs.begun := by
    refine List.filter_congr fun row hrow => ?_
    have hne : row ≠ [] := by
      have hlength := rs.length_row row hrow
      have hpos := rs.pos_cols
      rintro rfl
      rw [List.length_nil] at hlength
      omega
    rw [Function.comp_apply, decide_eq_decide, ne_eq, ne_eq, rowValues_eq_nil_iff hne]
  rw [query, List.filter_map, hbegun]
  refine List.map_congr_left fun row hrow => rowValues_eq ?_
  simpa using (List.mem_filter.mp hrow).2

/-- **Every row is returned that does not begin with a `NULL`.** -/
theorem returns_begun (rs : ResultSet) : ReturnsBegun rs := by
  refine ⟨query_eq rs, fun values hvalues => ?_, by rw [count, query_eq, List.length_map]⟩
  rw [query_eq] at hvalues
  obtain ⟨row, hrow, rfl⟩ := List.mem_map.mp hvalues
  rw [List.length_map, rs.length_row row (List.mem_of_mem_filter hrow)]

/-- These are all of them exactly if none begins with a `NULL`. -/
theorem query_eq_map_iff (rs : ResultSet) :
    (query rs = rs.rows.map fun row => row.map column) ↔ ∀ row ∈ rs.rows, row.head? ≠ some none := by
  have hbegun : rs.begun = rs.rows ↔ ∀ row ∈ rs.rows, row.head? ≠ some none := by
    rw [ResultSet.begun, List.filter_eq_self]
    simp only [decide_eq_true_eq]
  rw [query_eq, ← hbegun]
  constructor
  · intro h
    have hlength := congrArg List.length h
    rw [List.length_map, List.length_map] at hlength
    exact List.filter_sublist.eq_of_length hlength
  · exact fun h => by rw [h]

/-- A row of two columns, the first of which is `NULL`. -/
def nullFirst : ResultSet where
  cols := 2
  rows := [[none, some (str "1")]]
  pos_cols := by decide
  length_row := by decide

/-- The row is left out. -/
theorem row_lost : query nullFirst = [] ∧ ¬ ReturnsEvery nullFirst := by
  refine ⟨by decide, fun h => ?_⟩
  exact (query_eq_map_iff nullFirst).mp h.rows _ List.mem_cons_self rfl

end Domoticz.SQLHelper
