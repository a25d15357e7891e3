import Mathlib.Data.List.DropRight
import Mathlib.Data.List.Sort
import Mathlib.Tactic

/-!
# Tables with an automatic key

A table whose key is an `INTEGER PRIMARY KEY AUTOINCREMENT`.  Its rows stand in the order of
their keys, and a key is never used again.

## Main definitions

* `Table` — the tables, with `insert`, `insertAll`, `delete`, `get?`, `maxKey` and `set`.
* `newest` — the last rows of a list.
* `Table.older` — the keys of all but the newest rows of a selection.

## Main results

* `Table.filter_delete_older` — without these keys the newest rows are left.
* `Table.get?_insertAll` — a row is found whatever is inserted behind it.
* `Table.maxKey_insertAll` — the largest key of a selection, behind an insert that it selects.
-/

namespace Sql

variable {α : Type*}

/-- The rows of a table by ascending key, and the largest key that was ever used. -/
structure Table (α : Type*) where
  rows : List (ℤ × α)
  seq : ℤ
  sorted : rows.Pairwise fun r r' => r.1 < r'.1
  le_seq : ∀ r ∈ rows, r.1 ≤ seq

/-- The last `n` of some rows. -/
def newest {β : Type*} (n : ℕ) (rows : List β) : List β := rows.drop (rows.length - n)

theorem newest_of_length_le {β : Type*} {n : ℕ} {rows : List β} (h : rows.length ≤ n) :
    newest n rows = rows := by
  rw [newest, Nat.sub_eq_zero_of_le h, List.drop_zero]

theorem newest_zero {β : Type*} (rows : List β) : newest 0 rows = [] := by
  rw [newest, Nat.sub_zero, List.drop_length]

theorem length_newest {β : Type*} (n : ℕ) (rows : List β) :
    (newest n rows).length = min n rows.length := by
  rw [newest, List.length_drop]
  omega

namespace Table

/-- The table without rows. -/
def empty : Table α := ⟨[], 0, List.Pairwise.nil, List.forall_mem_nil _⟩

/-- `INSERT`, with the next key. -/
def insert (t : Table α) (a : α) : Table α where
  rows := t.rows ++ [(t.seq + 1, a)]
  seq := t.seq + 1
  sorted := by
    rw [List.pairwise_append]
    refine ⟨t.sorted, List.pairwise_singleton _ _, fun r hr r' hr' => ?_⟩
    rw [List.mem_singleton.mp hr']
    exact Int.lt_add_one_of_le (t.le_seq r hr)
  le_seq r hr := by
    rcases List.mem_append.mp hr with hr | hr
    · exact (t.le_seq r hr).trans (Int.le_add_one le_rfl)
    · rw [List.mem_singleton.mp hr]

/-- `DELETE` of the rows that satisfy a condition. -/
def delete (t : Table α) (p : ℤ × α → Bool) : Table α where
  rows := t.rows.filter fun r => !p r
  seq := t.seq
  sorted := t.sorted.filter _
  le_seq r hr := t.le_seq r (List.mem_of_mem_filter hr)

/-- Several `INSERT`s. -/
def insertAll (t : Table α) (as : List α) : Table α := as.foldl insert t

/-- `SELECT MAX(key) WHERE p`. -/
def maxKey (t : Table α) (p : α → Bool) : Option ℤ :=
  ((t.rows.filter fun r => p r.2).map Prod.fst).max?

/-- The row with a key. -/
def get? (t : Table α) (key : ℤ) : Option α :=
  (t.rows.find? fun r => r.1 == key).map Prod.snd

/-- `UPDATE` of the row with a key. -/
def set (t : Table α) (key : ℤ) (a : α) : Table α where
  rows := t.rows.map fun r => if r.1 = key then (r.1, a) else r
  seq := t.seq
  sorted := by
    rw [List.pairwise_map]
    refine t.sorted.imp fun {r r'} hlt => ?_
    have hkey (r : ℤ × α) : (if r.1 = key then (r.1, a) else r).1 = r.1 := by
      split <;> rfl
    rw [hkey, hkey]
    exact hlt
  le_seq r hr := by
    obtain ⟨r', hr', rfl⟩ := List.mem_map.mp hr
    split
    · exact t.le_seq r' hr'
    · exact t.le_seq r' hr'

/-- `SELECT key WHERE p ORDER BY key DESC LIMIT -1 OFFSET n`. -/
def older (t : Table α) (p : ℤ × α → Bool) (n : ℕ) : List ℤ :=
  ((t.rows.filter p).reverse.drop n).map Prod.fst

@[simp] theorem rows_insert (t : Table α) (a : α) :
    (t.insert a).rows = t.rows ++ [(t.seq + 1, a)] := rfl

@[simp] theorem rows_delete (t : Table α) (p : ℤ × α → Bool) :
    (t.delete p).rows = t.rows.filter fun r => !p r := rfl

@[simp] theorem insertAll_nil (t : Table α) : t.insertAll [] = t := rfl

theorem insertAll_append (t : Table α) (as bs : List α) :
    t.insertAll (as ++ bs) = (t.insertAll as).insertAll bs := List.foldl_append

theorem insertAll_cons (t : Table α) (a : α) (as : List α) :
    t.insertAll (a :: as) = (t.insert a).insertAll as := rfl

theorem seq_insertAll (t : Table α) (as : List α) :
    (t.insertAll as).seq = t.seq + as.length := by
  induction as generalizing t with
  | nil => exact (Int.add_zero _).symm
  | cons a as ih =>
    rw [insertAll_cons, ih, insert, List.length_cons]
    push_cast
    ring

theorem length_insertAll (t : Table α) (as : List α) :
    (t.insertAll as).rows.length = t.rows.length + as.length := by
  induction as generalizing t with
  | nil => rfl
  | cons a as ih =>
    rw [insertAll_cons, ih, rows_insert, List.length_append, List.length_singleton,
      List.length_cons]
    omega

/-- What is inserted comes behind the rows that are there, with larger keys. -/
theorem exists_rows_insertAll (t : Table α) (as : List α) :
    ∃ rows, (t.insertAll as).rows = t.rows ++ rows ∧ rows.map Prod.snd = as ∧
      ∀ r ∈ rows, t.seq < r.1 := by
  induction as generalizing t with
  | nil => exact ⟨[], (List.append_nil _).symm, rfl, List.forall_mem_nil _⟩
  | cons a as ih =>
    obtain ⟨rows, hrows, hsnd, hkeys⟩ := ih (t.insert a)
    refine ⟨(t.seq + 1, a) :: rows, ?_, congrArg (a :: ·) hsnd, ?_⟩
    · rw [insertAll_cons, hrows, rows_insert, List.append_assoc]
      rfl
    · refine List.forall_mem_cons.mpr ⟨Int.lt_succ _, fun r hr => ?_⟩
      exact (Int.lt_succ _).trans (hkeys r hr)

/-- A row is found whatever is inserted behind it. -/
theorem get?_insertAll {t : Table α} {key : ℤ} {a : α} (h : t.get? key = some a) (as : List α) :
    (t.insertAll as).get? key = some a := by
  obtain ⟨rows, hrows, -⟩ := exists_rows_insertAll t as
  obtain ⟨r, hr, rfl⟩ := Option.map_eq_some_iff.mp h
  rw [get?, hrows, List.find?_append, hr]
  rfl

/-- The row that was inserted is found. -/
theorem get?_insert (t : Table α) (a : α) : (t.insert a).get? (t.seq + 1) = some a := by
  have hnone : t.rows.find? (fun r => r.1 == t.seq + 1) = none := by
    rw [List.find?_eq_none]
    intro r hr
    have hle := t.le_seq r hr
    rw [beq_iff_eq]
    omega
  rw [get?, rows_insert, List.find?_append, hnone, Option.none_or, List.find?_singleton]
  simp

/-- The row that was updated is found. -/
theorem get?_set {t : Table α} {key : ℤ} {b : α} (h : t.get? key = some b) (a : α) :
    (t.set key a).get? key = some a := by
  have hkey (r : ℤ × α) : (if r.1 = key then (r.1, a) else r).1 = r.1 := by
    split <;> rfl
  obtain ⟨r, hr, -⟩ := Option.map_eq_some_iff.mp h
  have hfound := List.find?_some hr
  rw [beq_iff_eq] at hfound
  have hfind : (t.set key a).rows.find? (fun r => r.1 == key) = some (r.1, a) := by
    rw [set, List.find?_map]
    simp only [Function.comp_def, hkey, hr, Option.map_some, hfound, if_true]
  rw [get?, hfind, Option.map_some]

theorem maxKey_eq_some_iff {t : Table α} {p : α → Bool} {key : ℤ} :
    t.maxKey p = some key ↔
      (∃ a, (key, a) ∈ t.rows ∧ p a = true) ∧ ∀ r ∈ t.rows, p r.2 = true → r.1 ≤ key := by
  rw [maxKey, List.max?_eq_some_iff]
  simp only [List.mem_map, List.mem_filter, Prod.exists, exists_and_right, exists_eq_right,
    forall_exists_index, and_imp, Prod.forall]

/-- The largest key of a selection, behind an insert that it selects: that of the last insert
that is selected. -/
theorem maxKey_insertAll (t : Table α) {p : α → Bool} {a : α} (ha : p a = true) (as : List α) :
    ((t.insert a).insertAll as).maxKey p =
      some (t.seq + 1 + ((as.rdropWhile fun b => !p b).length : ℤ)) := by
  induction as using List.reverseRecOn with
  | nil =>
    refine maxKey_eq_some_iff.mpr ⟨⟨a, ?_, ha⟩, fun r hr _ => ?_⟩
    · simp
    · rw [List.rdropWhile_nil, List.length_nil, Int.natCast_zero, add_zero]
      exact (t.insert a).le_seq r hr
  | append_singleton as b ih =>
    have hrows : ((t.insert a).insertAll (as ++ [b])).rows =
        ((t.insert a).insertAll as).rows ++ [(((t.insert a).insertAll as).seq + 1, b)] := by
      rw [insertAll_append]
      rfl
    cases hb : p b with
    | true =>
      rw [List.rdropWhile_concat_neg _ _ _ (by simp [hb])]
      have hkey : t.seq + 1 + ((as ++ [b]).length : ℤ) = ((t.insert a).insertAll as).seq + 1 := by
        rw [seq_insertAll, List.length_append, List.length_singleton, insert]
        push_cast
        ring
      rw [hkey]
      refine maxKey_eq_some_iff.mpr ⟨⟨b, ?_, hb⟩, fun r hr _ => ?_⟩
      · rw [hrows]
        exact List.mem_append_right _ (List.mem_singleton.mpr rfl)
      · rw [insertAll_append] at hr
        exact (((t.insert a).insertAll as).insert b).le_seq r hr
    | false =>
      rw [List.rdropWhile_concat_pos _ _ _ (by simp [hb]), ← ih, maxKey, maxKey, hrows,
        List.filter_append]
      simp [hb]

theorem nodup_keys (t : Table α) : (t.rows.map Prod.fst).Nodup := by
  rw [List.Nodup, List.pairwise_map]
  exact t.sorted.imp fun h => h.ne

theorem mem_older (t : Table α) (p : ℤ × α → Bool) (n : ℕ) (key : ℤ) :
    key ∈ t.older p n ↔
      ∃ r ∈ (t.rows.filter p).take ((t.rows.filter p).length - n), r.1 = key := by
  rw [older, List.drop_reverse, List.mem_map]
  simp only [List.mem_reverse]

/-- Every key that is older belongs to a selected row. -/
theorem exists_of_mem_older {t : Table α} {p : ℤ × α → Bool} {n : ℕ} {key : ℤ}
    (h : key ∈ t.older p n) : ∃ r ∈ t.rows.filter p, r.1 = key := by
  obtain ⟨r, hr, hkey⟩ := (mem_older t p n key).mp h
  exact ⟨r, List.mem_of_mem_take hr, hkey⟩

theorem older_eq_nil_iff (t : Table α) (p : ℤ × α → Bool) (n : ℕ) :
    t.older p n = [] ↔ (t.rows.filter p).length ≤ n := by
  rw [older, List.map_eq_nil_iff, List.drop_eq_nil_iff, List.length_reverse]

theorem mem_older_zero (t : Table α) (p : ℤ × α → Bool) (key : ℤ) :
    key ∈ t.older p 0 ↔ ∃ r ∈ t.rows.filter p, r.1 = key := by
  rw [mem_older, Nat.sub_zero, List.take_length]

/-- What is left of a selection without its older keys; the keys are different. -/
theorem filter_delete_older (t : Table α) (p : ℤ × α → Bool) (n : ℕ) :
    (t.delete fun r => (t.older p n).contains r.1).rows.filter p =
      newest n (t.rows.filter p) := by
  have hnodup : ((t.rows.filter p).map Prod.fst).Nodup :=
    t.nodup_keys.sublist (List.filter_sublist.map Prod.fst)
  rw [rows_delete, List.filter_comm]
  have hmem (r : ℤ × α) : (t.older p n).contains r.1 = true ↔
      ∃ r' ∈ (t.rows.filter p).take ((t.rows.filter p).length - n), r'.1 = r.1 := by
    rw [List.contains_iff_mem, mem_older]
  set rows := t.rows.filter p
  have hsplit := List.take_append_drop (rows.length - n) rows
  rw [newest]
  rw [← hsplit, List.map_append, List.nodup_append] at hnodup
  conv_lhs => rw [← hsplit]
  rw [List.filter_append, List.filter_eq_nil_iff.mpr, List.filter_eq_self.mpr, List.nil_append]
  · intro r hr
    rw [Bool.not_eq_true', Bool.eq_false_iff, ne_eq, hmem]
    rintro ⟨r', hr', heq⟩
    exact hnodup.2.2 r'.1 (List.mem_map_of_mem hr') r.1 (List.mem_map_of_mem hr) heq
  · intro r hr
    rw [(hmem r).mpr ⟨r, hr, rfl⟩]
    exact Bool.false_ne_true

/-- The other rows have other keys. -/
theorem filter_not_delete_older (t : Table α) (p : ℤ × α → Bool) (n : ℕ) :
    (t.delete fun r => (t.older p n).contains r.1).rows.filter (fun r => !p r) =
      t.rows.filter fun r => !p r := by
  rw [rows_delete, List.filter_comm, List.filter_eq_self]
  intro r hr
  obtain ⟨hr, hp⟩ := List.mem_filter.mp hr
  rw [Bool.not_eq_true', Bool.eq_false_iff, ne_eq, List.contains_iff_mem]
  intro hkey
  obtain ⟨r', hr', heq⟩ := exists_of_mem_older hkey
  obtain ⟨hr', hp'⟩ := List.mem_filter.mp hr'
  have hsame : r' = r := List.inj_on_of_nodup_map t.nodup_keys hr' hr heq
  rw [hsame] at hp'
  rw [hp'] at hp
  cases hp

end Table

end Sql
