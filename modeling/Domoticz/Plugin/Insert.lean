import Domoticz.Main.SQLHelper
import Domoticz.Plugin.PythonJson
import Domoticz.Sql.Table

/-!
# Inserting the objects of a plugin

`CDevice_insert` and `CValue_insert` make a row of an object, and then ask for the largest number of
the rows with its name and its parent, to know which one it was.  `refresh` reads the row again.

The guard lets an object with the number 1 through.  The name that is asked for is the one of the
object, while the row has it without delimiters; and rows of the same name that other threads
insert in between have larger numbers.

## Main definitions

* `Object`, `Mapping` — an object, and what the functions do with its attributes.
* `Mapping.insert`, `Mapping.refresh` — the functions, with the inserts of other threads in between.
* `CDevice_insert`, `CDevice_refresh`, `CValue_insert`, `CValue_refresh` — those of the source.
* `Right` — what is asked of an insert.
* `Meets` — when that is so.

## Main results

* `maxKey_execute` — the number that is found.
* `readBack_iff` — the texts that come back as they were.
* `Lawful.meets_iff` — one kind of object.
* `own_row_iff` — **a Device or a Value is bound to its own row exactly under `Meets`.**
* `inserted_again` — an object with the number 1.
-/

namespace Domoticz.Insert

open CLib SQLHelper PythonJson Sql

/-! ### Objects and rows -/

/-- A `CDevice` or a `CValue`, with its `DeviceID` or `ValueID`.  The pointer to its parent, which
an insert sets, is left out. -/
structure Object (α : Type) where
  pPlugin : Bool
  ID : ℤ
  attributes : α

/-- What the functions do with the attributes of an object. -/
structure Mapping (α ρ : Type) where
  /-- The row that is inserted, with its texts as they are bound; `none` if a `std::string` is made
  of a null pointer. -/
  row : α → Option ρ
  /-- The row satisfies the foreign keys. -/
  accepts : ρ → Bool
  /-- The condition of the query for the number. -/
  selects : α → ρ → Bool
  /-- The attributes that are read of a row; `none` if a text is no UTF-8, and the pointer null. -/
  load : ρ → Option α

/-- A table of the database; SQLite begins with the number 1. -/
structure Stored (ρ : Type) extends Table ρ where
  seq_nonneg : 0 ≤ seq

/-- What comes of `insert()`. -/
structure Inserted (α ρ : Type) where
  object : Object α
  table : Table ρ
  iRowCount : ℕ

namespace Mapping

variable {α ρ : Type} (M : Mapping α ρ)

/-- The statement succeeds: there is a number left for the row, and it is accepted. -/
def Takes (t : Table ρ) (r : ρ) : Prop := M.accepts r = true ∧ t.seq + 1 < 2 ^ 63

instance (t : Table ρ) (r : ρ) : Decidable (M.Takes t r) := inferInstanceAs (Decidable (_ ∧ _))

/-- `execute_sql`, and the inserts of other threads before the query that follows; whichever of
them is the last one when `changes()` is read, it has changed one row. -/
def execute (t : Table ρ) (r : ρ) (others : List ρ) : Table ρ × ℕ :=
  if M.Takes t r then ((t.insert r).insertAll others, 1) else (t.insertAll others, 0)

/-- The number that the query finds; where there is no row it has no result. -/
def numbered (table : Table ρ) (self : Object α) : Object α :=
  match table.maxKey (M.selects self.attributes) with
  | none => self
  | some key => { self with ID := atoi (cstr (decimal key)) }

/-- `CDevice_insert` and `CValue_insert`; `none` if they throw. -/
def insert (others : List ρ) (t : Table ρ) (self : Object α) : Option (Inserted α ρ) :=
  if self.pPlugin = true ∧ self.ID ≤ 1 then
    (M.row self.attributes).map fun r =>
      let (table, iRowCount) := M.execute t r others
      { object := if iRowCount = 0 then self else M.numbered table self, table, iRowCount }
  else some { object := self, table := t.insertAll others, iRowCount := 0 }

/-- `CDevice_refresh` and `CValue_refresh`. -/
def refresh (t : Table ρ) (self : Object α) : Option (Object α) :=
  if self.pPlugin = true ∧ 1 ≤ self.ID then
    match t.get? (toInt32 self.ID) with
    | none => some self
    | some r => (M.load r).map fun attributes => { self with attributes }
  else some self

end Mapping

/-! ### Columns -/

/-- A text as it is bound. -/
def stored (s : PyStr) : Option Bytes := (stdString s).map addParameter

/-- `PyUnicode_FromString` of a column. -/
def readBack (value : Option Bytes) : Option PyStr := decodeUTF8 (column value)

/-- `atoi` of a column. -/
def readNumber (value : ℤ) : ℤ := atoi (cstr (decimal value))

/-- `atoi(..) ? true : false` of a column, which may be `NULL`. -/
def readFlag (value : Option ℤ) : Bool := readNumber (value.getD 0) ≠ 0

/-- The number of a flag. -/
def flag (b : Bool) : Option ℤ := some b.toInt

/-- `InterfaceID = %d AND Name = '%q'`, and the same for a Value: of a `long` the format takes an
`int`. -/
def nameMatches (parent : ℤ) (Name : PyStr) (rowParent : ℤ) (rowName : Option Bytes) : Bool :=
  match stdString Name with
  | none => false
  | some sName => rowParent == toInt32 parent && rowName == some sName

/-! ### Devices -/

/-- The attributes of a `CDevice`; a plugin may assign any object to `Address`. -/
structure DeviceAttributes where
  InterfaceID : ℤ
  Name : PyStr
  InternalID : PyStr
  Address : PyObject
  Debug : Bool
  Enabled : Bool
  Active : Bool
  Timestamp : PyStr

/-- A row of `Device`. -/
structure DeviceRow where
  InterfaceID : ℤ
  Name : Option Bytes
  InternalID : Option Bytes
  Address : Option Bytes
  Debug : Option ℤ
  Enabled : Option ℤ
  Active : Option ℤ
  Timestamp : Option Bytes

/-- The row of a Device; its time is `CURRENT_TIMESTAMP`. -/
def deviceRow (now : Bytes) (a : DeviceAttributes) : Option DeviceRow :=
  (stored a.Name).bind fun Name => (stored a.InternalID).bind fun InternalID =>
    (unicode? (some a.Address)).bind fun s => (stored s).map fun Address =>
      { InterfaceID := a.InterfaceID
        Name := some Name
        InternalID := some InternalID
        Address := some Address
        Debug := flag a.Debug
        Enabled := flag a.Enabled
        Active := flag a.Active
        Timestamp := some now }

/-- The attributes of a row of `Device`. -/
def loadDevice (r : DeviceRow) : Option DeviceAttributes :=
  (readBack r.Name).bind fun Name => (readBack r.InternalID).bind fun InternalID =>
    (readBack r.Address).bind fun Address => (readBack r.Timestamp).map fun Timestamp =>
      { InterfaceID := readNumber r.InterfaceID
        Name
        InternalID
        Address := .str Address
        Debug := readFlag r.Debug
        Enabled := readFlag r.Enabled
        Active := readFlag r.Active
        Timestamp }

/-- A Device, whose `InterfaceID` is that of an Interface. -/
def deviceMapping (now : Bytes) (interfaces : List ℤ) : Mapping DeviceAttributes DeviceRow where
  row := deviceRow now
  accepts r := interfaces.contains r.InterfaceID
  selects a r := nameMatches a.InterfaceID a.Name r.InterfaceID r.Name
  load := loadDevice

/-- `CDevice_insert`. -/
def CDevice_insert (now : Bytes) (interfaces : List ℤ) :
    List DeviceRow → Table DeviceRow → Object DeviceAttributes →
      Option (Inserted DeviceAttributes DeviceRow) :=
  (deviceMapping now interfaces).insert

/-- `CDevice_refresh`. -/
def CDevice_refresh (now : Bytes) (interfaces : List ℤ) :
    Table DeviceRow → Object DeviceAttributes → Option (Object DeviceAttributes) :=
  (deviceMapping now interfaces).refresh

/-! ### Values -/

/-- The attributes of a `CValue`; a plugin may assign any object to `Value`. -/
structure ValueAttributes where
  DeviceID : ℤ
  Name : PyStr
  InternalID : PyStr
  UnitID : ℤ
  Value : PyObject
  Debug : Bool
  Timestamp : PyStr

/-- A row of `Value`, without the columns of the retention. -/
structure ValueRow where
  DeviceID : ℤ
  Name : Option Bytes
  InternalID : Option Bytes
  UnitID : ℤ
  Value : Option Bytes
  Debug : Option ℤ
  Timestamp : Option Bytes

/-- The text of a `Value`; `PyObject_Str` may fail. -/
def valueText (pyObjectStr : PyObject → Option PyStr) (Value : PyObject) : Option Bytes :=
  match Value with
  | .str s => stdString s
  | o =>
      match pyObjectStr o with
      | some s => stdString s
      | none => some []

/-- The row of a Value. -/
def valueRow (pyObjectStr : PyObject → Option PyStr) (now : Bytes) (a : ValueAttributes) :
    Option ValueRow :=
  (stored a.Name).bind fun Name => (stored a.InternalID).bind fun InternalID =>
    (valueText pyObjectStr a.Value).map fun text =>
      { DeviceID := a.DeviceID
        Name := some Name
        InternalID := some InternalID
        UnitID := a.UnitID
        Value := some (addParameter text)
        Debug := flag a.Debug
        Timestamp := some now }

/-- The attributes of a row of `Value`. -/
def loadValue (r : ValueRow) : Option ValueAttributes :=
  (readBack r.Name).bind fun Name => (readBack r.InternalID).bind fun InternalID =>
    (readBack r.Value).bind fun Value => (readBack r.Timestamp).map fun Timestamp =>
      { DeviceID := readNumber r.DeviceID
        Name
        InternalID
        UnitID := readNumber r.UnitID
        Value := .str Value
        Debug := readFlag r.Debug
        Timestamp }

/-- A Value, whose `DeviceID` and `UnitID` are those of a Device and of a Unit. -/
def valueMapping (pyObjectStr : PyObject → Option PyStr) (now : Bytes) (devices units : List ℤ) :
    Mapping ValueAttributes ValueRow where
  row := valueRow pyObjectStr now
  accepts r := devices.contains r.DeviceID && units.contains r.UnitID
  selects a r := nameMatches a.DeviceID a.Name r.DeviceID r.Name
  load := loadValue

/-- `CValue_insert`. -/
def CValue_insert (pyObjectStr : PyObject → Option PyStr) (now : Bytes) (devices units : List ℤ) :
    List ValueRow → Table ValueRow → Object ValueAttributes →
      Option (Inserted ValueAttributes ValueRow) :=
  (valueMapping pyObjectStr now devices units).insert

/-- `CValue_refresh`. -/
def CValue_refresh (pyObjectStr : PyObject → Option PyStr) (now : Bytes) (devices units : List ℤ) :
    Table ValueRow → Object ValueAttributes → Option (Object ValueAttributes) :=
  (valueMapping pyObjectStr now devices units).refresh

/-! ### The row of an object -/

section Row

variable {α ρ : Type}

/-- The number of an object is that of a row. -/
def Bound (t : Table ρ) (self : Object α) : Prop := (t.get? self.ID).isSome

/-- Inserting an object that is bound changes nothing.  An insert of another one that succeeds makes
one row, to which the object is bound and from which it is refreshed without a change, whatever
other threads insert in between and afterwards. -/
structure Right (insert : List ρ → Table ρ → Object α → Option (Inserted α ρ))
    (refresh : Table ρ → Object α → Option (Object α)) (t : Table ρ) (others later : List ρ)
    (obj : Object α) : Prop where
  bound : Bound t obj → ∃ i, insert others t obj = some i ∧ i.object = obj ∧
    i.table = t.insertAll others
  unbound : ¬ Bound t obj → ∀ i, insert others t obj = some i → i.iRowCount ≠ 0 →
    ∃ r, i.table = (t.insert r).insertAll others ∧ i.object.ID = t.seq + 1 ∧
      refresh (i.table.insertAll later) i.object = some i.object

/-- How many inserts of other threads there are up to the last one that is selected. -/
def overtaken (selects : ρ → Bool) (others : List ρ) : ℕ :=
  (others.rdropWhile fun r => !selects r).length

/-- The condition: for an object that the guard lets through, if it is bound, the row is not
accepted; and if it is not bound, and the row is accepted, then its number is an `int`, the
attributes are kept, and no row of the same name and parent is inserted in between, but for a
multiple of 2 to the 32. -/
structure Meets (M : Mapping α ρ) (Kept : α → Prop) (t : Table ρ) (others : List ρ)
    (obj : Object α) : Prop where
  bound : obj.pPlugin = true → obj.ID ≤ 1 → Bound t obj →
    ∃ r, M.row obj.attributes = some r ∧ ¬ M.Takes t r
  unbound : obj.pPlugin = true → obj.ID ≤ 1 → ¬ Bound t obj →
    ∀ r, M.row obj.attributes = some r → M.Takes t r →
      t.seq + 1 < 2 ^ 31 ∧ Kept obj.attributes ∧
        2 ^ 32 ∣ overtaken (M.selects obj.attributes) others ∧
          t.seq + 1 + overtaken (M.selects obj.attributes) others < 2 ^ 63

end Row

/-- A text that is stored and read as it is: it has UTF-8 without a NUL, and no delimiters. -/
def Plain (s : PyStr) : Prop := ∃ b, asUTF8 s = some b ∧ 0 ∉ b ∧ ¬ Delimited b

/-- A number that is an `int`. -/
def IsInt (i : ℤ) : Prop := -2 ^ 31 ≤ i ∧ i < 2 ^ 31

/-- A Device that a row brings back. -/
structure DeviceKept (now : Bytes) (a : DeviceAttributes) : Prop where
  InterfaceID : IsInt a.InterfaceID
  Name : Plain a.Name
  InternalID : Plain a.InternalID
  Address : ∃ s, a.Address = .str s ∧ Plain s
  /-- The time of the object is that of the row. -/
  Timestamp : asUTF8 a.Timestamp = some (cstr now)

/-- A Value that a row brings back. -/
structure ValueKept (now : Bytes) (a : ValueAttributes) : Prop where
  DeviceID : IsInt a.DeviceID
  Name : Plain a.Name
  InternalID : Plain a.InternalID
  UnitID : IsInt a.UnitID
  Value : ∃ s, a.Value = .str s ∧ Plain s
  Timestamp : asUTF8 a.Timestamp = some (cstr now)

/-! ### One kind of object -/

/-- A row brings the attributes back exactly if they are kept, and is then selected by them. -/
structure Lawful {α ρ : Type} (M : Mapping α ρ) (Kept : α → Prop) : Prop where
  load_iff : ∀ a r, M.row a = some r → (M.load r = some a ↔ Kept a)
  selects : ∀ a r, M.row a = some r → Kept a → M.selects a r = true

section Generic

variable {α ρ : Type} {M : Mapping α ρ} {Kept : α → Prop} (others later : List ρ) (t : Table ρ)
  (self : Object α)

/-- What an insert can do. -/
theorem insert_cases :
    (¬ (self.pPlugin = true ∧ self.ID ≤ 1) ∧
      M.insert others t self = some ⟨self, t.insertAll others, 0⟩) ∨
    ((self.pPlugin = true ∧ self.ID ≤ 1) ∧ M.row self.attributes = none ∧
      M.insert others t self = none) ∨
    ((self.pPlugin = true ∧ self.ID ≤ 1) ∧ ∃ r, M.row self.attributes = some r ∧ ¬ M.Takes t r ∧
      M.insert others t self = some ⟨self, t.insertAll others, 0⟩) ∨
    ((self.pPlugin = true ∧ self.ID ≤ 1) ∧ ∃ r, M.row self.attributes = some r ∧ M.Takes t r ∧
      M.insert others t self = some ⟨M.numbered ((t.insert r).insertAll others) self,
        (t.insert r).insertAll others, 1⟩) := by
  unfold Mapping.insert
  by_cases hguard : self.pPlugin = true ∧ self.ID ≤ 1
  · rw [if_pos hguard]
    cases hrow : M.row self.attributes with
    | none => exact .inr (.inl ⟨hguard, rfl, rfl⟩)
    | some r =>
      by_cases htakes : M.Takes t r
      · refine .inr (.inr (.inr ⟨hguard, r, rfl, htakes, ?_⟩))
        simp only [Option.map_some, Mapping.execute, if_pos htakes, Nat.one_ne_zero, if_false]
      · refine .inr (.inr (.inl ⟨hguard, r, rfl, htakes, ?_⟩))
        simp only [Option.map_some, Mapping.execute, if_neg htakes, if_true]
  · exact .inl ⟨hguard, if_neg hguard⟩

@[simp] theorem numbered_pPlugin : (M.numbered t self).pPlugin = self.pPlugin := by
  unfold Mapping.numbered
  split
  · rfl
  · rfl

@[simp] theorem numbered_attributes : (M.numbered t self).attributes = self.attributes := by
  unfold Mapping.numbered
  split
  · rfl
  · rfl

/-- The number of an object is an `int` once it was asked for. -/
theorem numbered_lt (h : self.ID ≤ 1) : (M.numbered t self).ID < 2 ^ 31 := by
  unfold Mapping.numbered
  split
  · show self.ID < 2 ^ 31
    omega
  · exact (toInt32_bounds _).2

/-- The number that is found for a row that its attributes select. -/
theorem numbered_of_selects {r : ρ} (h : M.selects self.attributes r = true) :
    (M.numbered ((t.insert r).insertAll others) self).ID = toInt32 (clampLong
      (t.seq + 1 + overtaken (M.selects self.attributes) others)) := by
  rw [Mapping.numbered, Table.maxKey_insertAll t h others]
  exact atoi_cstr_decimal _

/-- Reading the row that was inserted. -/
theorem refresh_own {r : ρ} {o : Object α} (hpPlugin : o.pPlugin = true) (hID : o.ID = t.seq + 1)
    (hpos : 0 ≤ t.seq) (hint : t.seq + 1 < 2 ^ 31) :
    M.refresh (((t.insert r).insertAll others).insertAll later) o =
      (M.load r).map fun attributes => { o with attributes } := by
  have hself : toInt32 o.ID = t.seq + 1 := by
    rw [hID, toInt32_eq_self_iff]
    omega
  have hrow := Table.get?_insertAll (Table.get?_insertAll (t.get?_insert r) others) later
  have hguard : o.pPlugin = true ∧ 1 ≤ o.ID := ⟨hpPlugin, by omega⟩
  rw [Mapping.refresh, if_pos hguard, hself, hrow]

/-- What was inserted is the object's own row. -/
theorem Lawful.taken_iff (h : Lawful M Kept) {r : ρ} (hrow : M.row self.attributes = some r)
    (hguard : self.pPlugin = true ∧ self.ID ≤ 1) (hpos : 0 ≤ t.seq) :
    ((M.numbered ((t.insert r).insertAll others) self).ID = t.seq + 1 ∧
      M.refresh (((t.insert r).insertAll others).insertAll later)
        (M.numbered ((t.insert r).insertAll others) self) =
          some (M.numbered ((t.insert r).insertAll others) self)) ↔
    t.seq + 1 < 2 ^ 31 ∧ Kept self.attributes ∧
      2 ^ 32 ∣ overtaken (M.selects self.attributes) others ∧
        t.seq + 1 + overtaken (M.selects self.attributes) others < 2 ^ 63 := by
  set o := M.numbered ((t.insert r).insertAll others) self with ho
  have hpPlugin : o.pPlugin = true := (numbered_pPlugin _ _).trans hguard.1
  have hattributes : o.attributes = self.attributes := numbered_attributes _ _
  constructor
  · rintro ⟨hID, hrefresh⟩
    have hint : t.seq + 1 < 2 ^ 31 := by
      rw [← hID]
      exact numbered_lt _ _ hguard.2
    rw [refresh_own others later t hpPlugin hID hpos hint] at hrefresh
    obtain ⟨a, hload, heq⟩ := Option.map_eq_some_iff.mp hrefresh
    have ha : a = self.attributes := (congrArg Object.attributes heq).trans hattributes
    rw [ha] at hload
    have hkept := (h.load_iff _ _ hrow).mp hload
    rw [ho, numbered_of_selects others t self (h.selects _ _ hrow hkept)] at hID
    obtain ⟨-, hdvd, hfits⟩ := (toInt32_clampLong_add_iff (by omega) _).mp hID
    exact ⟨hint, hkept, hdvd, hfits⟩
  · rintro ⟨hint, hkept, hdvd, hfits⟩
    have hID : o.ID = t.seq + 1 := by
      rw [ho, numbered_of_selects others t self (h.selects _ _ hrow hkept)]
      exact (toInt32_clampLong_add_iff (by omega) _).mpr ⟨hint, hdvd, hfits⟩
    refine ⟨hID, ?_⟩
    rw [refresh_own others later t hpPlugin hID hpos hint, (h.load_iff _ _ hrow).mpr hkept,
      ← hattributes]
    rfl

/-- With the row there is one row more. -/
theorem insertAll_insert_ne (r : ρ) : (t.insert r).insertAll others ≠ t.insertAll others := by
  intro h
  have hlength := congrArg (fun t : Table ρ => t.rows.length) h
  simp only [Table.length_insertAll, Table.rows_insert, List.length_append, List.length_singleton]
    at hlength
  omega

/-- An object of one kind is bound to its own row exactly if the condition is met. -/
theorem Lawful.meets_iff (h : Lawful M Kept) (hpos : 0 ≤ t.seq) :
    Right M.insert M.refresh t others later self ↔ Meets M Kept t others self := by
  rcases insert_cases (M := M) others t self with ⟨hguard, hinsert⟩ | hcase
  · -- the guard does not let it through
    constructor
    · intro _
      exact ⟨fun hp hID => absurd ⟨hp, hID⟩ hguard, fun hp hID => absurd ⟨hp, hID⟩ hguard⟩
    · intro _
      refine ⟨fun _ => ⟨_, hinsert, rfl, rfl⟩, fun _ i hi hcount => ?_⟩
      rw [hinsert] at hi
      cases hi
      exact absurd rfl hcount
  rcases hcase with ⟨hguard, hrow, hinsert⟩ | ⟨hguard, r, hrow, htakes, hinsert⟩ |
    ⟨hguard, r, hrow, htakes, hinsert⟩
  · -- there is no row, and the function throws
    constructor
    · intro hright
      refine ⟨fun _ _ hbound => ?_, fun _ _ _ r hr => ?_⟩
      · obtain ⟨i, hi, -⟩ := hright.bound hbound
        rw [hinsert] at hi
        cases hi
      · rw [hrow] at hr
        cases hr
    · intro hmeets
      refine ⟨fun hbound => ?_, fun _ i hi => ?_⟩
      · obtain ⟨r, hr, -⟩ := hmeets.bound hguard.1 hguard.2 hbound
        rw [hrow] at hr
        cases hr
      · rw [hinsert] at hi
        cases hi
  · -- the row is not accepted
    constructor
    · intro _
      refine ⟨fun _ _ _ => ⟨r, hrow, htakes⟩, fun _ _ _ r' hr' htakes' => ?_⟩
      obtain rfl := Option.some.inj (hrow.symm.trans hr')
      exact absurd htakes' htakes
    · intro _
      refine ⟨fun _ => ⟨_, hinsert, rfl, rfl⟩, fun _ i hi hcount => ?_⟩
      rw [hinsert] at hi
      cases hi
      exact absurd rfl hcount
  · -- there is a new row
    constructor
    · intro hright
      refine ⟨fun _ _ hbound => ?_, fun _ _ hunbound r' hr' _ => ?_⟩
      · obtain ⟨i, hi, -, htable⟩ := hright.bound hbound
        rw [hinsert] at hi
        cases hi
        exact absurd htable (insertAll_insert_ne others t r)
      · obtain ⟨-, -, hID, hrefresh⟩ := hright.unbound hunbound _ hinsert Nat.one_ne_zero
        exact (h.taken_iff others later t self hrow hguard hpos).mp ⟨hID, hrefresh⟩
    · intro hmeets
      refine ⟨fun hbound => ?_, fun hunbound i hi _ => ?_⟩
      · obtain ⟨r', hr', hno⟩ := hmeets.bound hguard.1 hguard.2 hbound
        obtain rfl := Option.some.inj (hrow.symm.trans hr')
        exact absurd htakes hno
      · have hown := hmeets.unbound hguard.1 hguard.2 hunbound r hrow htakes
        rw [hinsert] at hi
        cases hi
        exact ⟨r, rfl, (h.taken_iff others later t self hrow hguard hpos).mpr hown⟩

end Generic

/-! ### Devices and Values -/

/-- A text comes back exactly if it is plain. -/
theorem readBack_iff {s : PyStr} {b : Bytes} (h : stdString s = some b) :
    readBack (some (addParameter b)) = some s ↔ Plain s := by
  obtain ⟨u, hu, rfl⟩ := Option.map_eq_some_iff.mp h
  have hzero : 0 ∉ addParameter (cstr u) := fun hmem =>
    zero_notMem_cstr u ((addParameter_sublist _).subset hmem)
  rw [readBack, column, Option.getD_some, cstr_of_notMem hzero, decodeUTF8_eq_some_iff, hu,
    Option.some.injEq]
  constructor
  · intro heq
    have hlength := congrArg List.length heq
    have hle := (addParameter_sublist (cstr u)).length_le
    have hprefix : cstr u <+: u := List.takeWhile_prefix _
    have hself : cstr u = u := by
      apply hprefix.eq_of_length
      exact Nat.le_antisymm hprefix.length_le (hlength ▸ hle)
    rw [hself] at heq
    exact ⟨u, hu, (cstr_eq_self_iff u).mp hself, (addParameter_eq_self_iff u).mp heq.symm⟩
  · rintro ⟨b, hb, hz, hd⟩
    obtain rfl := Option.some.inj (hu.symm.trans hb)
    rw [cstr_of_notMem hz, (addParameter_eq_self_iff u).mpr hd]

theorem stored_readBack_iff {s : PyStr} {v : Bytes} (h : stored s = some v) :
    readBack (some v) = some s ↔ Plain s := by
  obtain ⟨b, hb, rfl⟩ := Option.map_eq_some_iff.mp h
  exact readBack_iff hb

theorem readNumber_eq_self_iff (i : ℤ) : readNumber i = i ↔ IsInt i := atoi_decimal_eq_self_iff i

theorem readFlag_flag (b : Bool) : readFlag (flag b) = b := by cases b <;> decide

/-- What is read of the time of the row. -/
theorem readBack_time_iff (now : Bytes) (s : PyStr) :
    readBack (some now) = some s ↔ asUTF8 s = some (cstr now) := decodeUTF8_eq_some_iff

/-- A plain name is found under its parent. -/
theorem nameMatches_of_plain {parent : ℤ} {Name : PyStr} {v : Bytes} (hparent : IsInt parent)
    (hname : Plain Name) (hv : stored Name = some v) :
    nameMatches parent Name parent (some v) = true := by
  obtain ⟨b, hb, hz, hd⟩ := hname
  have hstd : stdString Name = some b := by
    rw [stdString, hb, Option.map_some, cstr_of_notMem hz]
  have hstored : stored Name = some b := by
    rw [stored, hstd, Option.map_some, (addParameter_eq_self_iff b).mpr hd]
  obtain rfl := Option.some.inj (hstored.symm.trans hv)
  rw [nameMatches, hstd]
  simp only [toInt32_eq_self_iff.mpr hparent, beq_self_eq_true, Bool.and_self]

theorem unicode?_eq_some {o : PyObject} {s : PyStr} (h : unicode? (some o) = some s) :
    o = .str s := by
  cases o with
  | str s' =>
    cases h
    rfl
  | _ => cases h

theorem device_lawful (now : Bytes) (interfaces : List ℤ) :
    Lawful (deviceMapping now interfaces) (DeviceKept now) := by
  -- the columns of the row that is written
  have hrow {a : DeviceAttributes} {r : DeviceRow} (h : deviceRow now a = some r) :
      ∃ Name InternalID s Address, stored a.Name = some Name ∧
        stored a.InternalID = some InternalID ∧ a.Address = .str s ∧ stored s = some Address ∧
          r = ⟨a.InterfaceID, some Name, some InternalID, some Address, flag a.Debug,
            flag a.Enabled, flag a.Active, some now⟩ := by
    obtain ⟨Name, hName, h⟩ := Option.bind_eq_some_iff.mp h
    obtain ⟨InternalID, hInternalID, h⟩ := Option.bind_eq_some_iff.mp h
    obtain ⟨s, hs, h⟩ := Option.bind_eq_some_iff.mp h
    obtain ⟨Address, hAddress, rfl⟩ := Option.map_eq_some_iff.mp h
    exact ⟨Name, InternalID, s, Address, hName, hInternalID, unicode?_eq_some hs, hAddress, rfl⟩
  constructor
  · intro a r h
    obtain ⟨Name, InternalID, s, Address, hName, hInternalID, hs, hAddress, rfl⟩ := hrow h
    have hName' := stored_readBack_iff hName
    have hInternalID' := stored_readBack_iff hInternalID
    have hAddress' := stored_readBack_iff hAddress
    constructor
    · intro hload
      -- what is loaded is read back column by column
      obtain ⟨Name', hn, hload⟩ := Option.bind_eq_some_iff.mp hload
      obtain ⟨InternalID', hi, hload⟩ := Option.bind_eq_some_iff.mp hload
      obtain ⟨Address', ha, hload⟩ := Option.bind_eq_some_iff.mp hload
      obtain ⟨Timestamp', ht, heq⟩ := Option.map_eq_some_iff.mp hload
      rw [← heq] at hs hName' hInternalID' ⊢
      have hstr : Address' = s := by injection hs
      rw [← hstr] at hAddress'
      have hparent : readNumber a.InterfaceID = a.InterfaceID :=
        congrArg DeviceAttributes.InterfaceID heq
      refine ⟨?_, hName'.mp hn, hInternalID'.mp hi, ⟨_, rfl, hAddress'.mp ha⟩, ?_⟩
      · show IsInt (readNumber a.InterfaceID)
        rw [hparent]
        exact (readNumber_eq_self_iff _).mp hparent
      · exact (readBack_time_iff now _).mp ht
    · intro hkept
      obtain ⟨s', hs', hplain⟩ := hkept.Address
      obtain rfl : s = s' := by
        rw [hs] at hs'
        injection hs'
      show loadDevice _ = _
      simp only [loadDevice, hName'.mpr hkept.Name, hInternalID'.mpr hkept.InternalID,
        hAddress'.mpr hplain, (readBack_time_iff now _).mpr hkept.Timestamp, Option.bind_some,
        Option.map_some, (readNumber_eq_self_iff _).mpr hkept.InterfaceID, readFlag_flag, ← hs]
  · intro a r h hkept
    obtain ⟨Name, InternalID, s, Address, hName, -, -, -, rfl⟩ := hrow h
    exact nameMatches_of_plain hkept.InterfaceID hkept.Name hName

theorem value_lawful (pyObjectStr : PyObject → Option PyStr) (now : Bytes)
    (devices units : List ℤ) :
    Lawful (valueMapping pyObjectStr now devices units) (ValueKept now) := by
  have hrow {a : ValueAttributes} {r : ValueRow} (h : valueRow pyObjectStr now a = some r) :
      ∃ Name InternalID text, stored a.Name = some Name ∧ stored a.InternalID = some InternalID ∧
        valueText pyObjectStr a.Value = some text ∧
          r = ⟨a.DeviceID, some Name, some InternalID, a.UnitID, some (addParameter text),
            flag a.Debug, some now⟩ := by
    obtain ⟨Name, hName, h⟩ := Option.bind_eq_some_iff.mp h
    obtain ⟨InternalID, hInternalID, h⟩ := Option.bind_eq_some_iff.mp h
    obtain ⟨text, htext, rfl⟩ := Option.map_eq_some_iff.mp h
    exact ⟨Name, InternalID, text, hName, hInternalID, htext, rfl⟩
  constructor
  · intro a r h
    obtain ⟨Name, InternalID, text, hName, hInternalID, htext, rfl⟩ := hrow h
    have hName' := stored_readBack_iff hName
    have hInternalID' := stored_readBack_iff hInternalID
    constructor
    · intro hload
      obtain ⟨Name', hn, hload⟩ := Option.bind_eq_some_iff.mp hload
      obtain ⟨InternalID', hi, hload⟩ := Option.bind_eq_some_iff.mp hload
      obtain ⟨Value', hv, hload⟩ := Option.bind_eq_some_iff.mp hload
      obtain ⟨Timestamp', ht, heq⟩ := Option.map_eq_some_iff.mp hload
      have hparent : readNumber a.DeviceID = a.DeviceID := congrArg ValueAttributes.DeviceID heq
      have hunit : readNumber a.UnitID = a.UnitID := congrArg ValueAttributes.UnitID heq
      rw [← heq] at htext hName' hInternalID' ⊢
      refine ⟨?_, hName'.mp hn, hInternalID'.mp hi, ?_, ⟨_, rfl, (readBack_iff htext).mp hv⟩, ?_⟩
      · show IsInt (readNumber a.DeviceID)
        rw [hparent]
        exact (readNumber_eq_self_iff _).mp hparent
      · show IsInt (readNumber a.UnitID)
        rw [hunit]
        exact (readNumber_eq_self_iff _).mp hunit
      · exact (readBack_time_iff now _).mp ht
    · intro hkept
      obtain ⟨s, hs, hplain⟩ := hkept.Value
      rw [hs] at htext
      show loadValue _ = _
      simp only [loadValue, hName'.mpr hkept.Name, hInternalID'.mpr hkept.InternalID,
        (readBack_iff htext).mpr hplain, (readBack_time_iff now _).mpr hkept.Timestamp,
        Option.bind_some, Option.map_some, (readNumber_eq_self_iff _).mpr hkept.DeviceID,
        (readNumber_eq_self_iff _).mpr hkept.UnitID, readFlag_flag, ← hs]
  · intro a r h hkept
    obtain ⟨Name, InternalID, text, hName, -, -, rfl⟩ := hrow h
    exact nameMatches_of_plain hkept.DeviceID hkept.Name hName

/-- **An insert binds a Device or a Value to its own row, and one that is bound is left alone,
exactly if the condition is met.** -/
theorem own_row_iff (pyObjectStr : PyObject → Option PyStr) (now : Bytes)
    (interfaces devices units : List ℤ) :
    (∀ (t : Stored DeviceRow) (others later : List DeviceRow) (obj : Object DeviceAttributes),
      Right (CDevice_insert now interfaces) (CDevice_refresh now interfaces) t.toTable others later
          obj ↔
        Meets (deviceMapping now interfaces) (DeviceKept now) t.toTable others obj) ∧
    ∀ (t : Stored ValueRow) (others later : List ValueRow) (obj : Object ValueAttributes),
      Right (CValue_insert pyObjectStr now devices units)
          (CValue_refresh pyObjectStr now devices units) t.toTable others later obj ↔
        Meets (valueMapping pyObjectStr now devices units) (ValueKept now) t.toTable others
          obj := by
  constructor
  · intro t others later obj
    exact (device_lawful now interfaces).meets_iff others later t.toTable obj t.seq_nonneg
  · intro t others later obj
    exact (value_lawful pyObjectStr now devices units).meets_iff others later t.toTable obj
      t.seq_nonneg

/-- A lamp of the interface 1. -/
def lamp (Name : String) : DeviceAttributes where
  InterfaceID := 1
  Name := pyStr Name
  InternalID := pyStr "lamp"
  Address := .str (pyStr "1.2.3.4")
  Debug := false
  Enabled := true
  Active := false
  Timestamp := pyStr "2024-01-01 00:00:00"

/-- The row of the lamp. -/
def lampRow : DeviceRow where
  InterfaceID := 1
  Name := some (str "Lamp")
  InternalID := some (str "lamp")
  Address := some (str "1.2.3.4")
  Debug := some 0
  Enabled := some 1
  Active := some 0
  Timestamp := some (str "2024-01-01 00:00:00")

/-- A lamp with the number 1 is inserted again; one with a delimited name is not found; and one is
mistaken for that of another thread. -/
theorem inserted_again :
    ¬ Right (CDevice_insert (str "2024-01-01 00:00:00") [1])
        (CDevice_refresh (str "2024-01-01 00:00:00") [1]) (Table.empty.insert lampRow) [] []
        ⟨true, 1, lamp "Lamp"⟩ ∧
    ¬ Right (CDevice_insert (str "2024-01-01 00:00:00") [1])
        (CDevice_refresh (str "2024-01-01 00:00:00") [1]) (Table.empty.insert lampRow) [] []
        ⟨true, -1, lamp "'Lamp'"⟩ ∧
    ¬ Right (CDevice_insert (str "2024-01-01 00:00:00") [1])
        (CDevice_refresh (str "2024-01-01 00:00:00") [1]) (Table.empty.insert lampRow) [lampRow] []
        ⟨true, -1, lamp "Lamp"⟩ := by
  have hlawful := device_lawful (str "2024-01-01 00:00:00") [1]
  have hrow (Name : String) (h : stored (pyStr Name) = some (str "Lamp")) :
      deviceRow (str "2024-01-01 00:00:00") (lamp Name) = some lampRow := by
    show (stored (pyStr Name)).bind _ = _
    rw [h]
    rfl
  have htakes : (deviceMapping (str "2024-01-01 00:00:00") [1]).Takes
      (Table.empty.insert lampRow) lampRow := by decide
  have hunbound (a : DeviceAttributes) :
      ¬ Bound (Table.empty.insert lampRow) (⟨true, -1, a⟩ : Object DeviceAttributes) :=
    Bool.false_ne_true
  refine ⟨fun h => ?_, fun h => ?_, fun h => ?_⟩
  · have hmeets := (hlawful.meets_iff _ _ _ _ (by decide)).mp h
    obtain ⟨r, hr, hno⟩ := hmeets.bound rfl (by decide) rfl
    obtain rfl : lampRow = r := Option.some.inj ((hrow "Lamp" (by decide)).symm.trans hr)
    exact hno htakes
  · have hmeets := (hlawful.meets_iff _ _ _ _ (by decide)).mp h
    obtain ⟨-, hkept, -⟩ := hmeets.unbound rfl (by decide) (hunbound _) lampRow
      (hrow "'Lamp'" (by decide)) htakes
    obtain ⟨b, hb, -, hd⟩ := hkept.Name
    obtain rfl : str "'Lamp'" = b := Option.some.inj (Eq.trans (by decide) hb)
    exact absurd (by decide) hd
  · have hmeets := (hlawful.meets_iff _ _ _ _ (by decide)).mp h
    obtain ⟨-, -, hdvd, -⟩ := hmeets.unbound rfl (by decide) (hunbound _) lampRow
      (hrow "Lamp" (by decide)) htakes
    exact absurd hdvd (by decide)

end Domoticz.Insert
