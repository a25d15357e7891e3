import Mathlib.Data.PNat.Basic
import Domoticz.Dictionary

/-!
# Devices and Values in Python

An interface shows its Devices to the plugin as a dictionary of objects, and each Device its Values.
The dictionaries are keyed by `InternalID`, while the callbacks carry the row's number.  The objects
take over the columns of their rows when they are made and when they are refreshed.  A text that is
not UTF-8 becomes a null pointer, which an object can hold, but which the process does not survive as
a key, nor where a reference to it is taken.

## Main definitions

* `DeviceRow`, `ValueRow`, `Database` — the tables.
* `CDevice`, `CValue` — the objects.
* `addDeviceToDict`, `addValueToDict`, `refresh` — the functions of the objects.
* `Callback`, `processLocked` — the callbacks for Devices and Values.
-/

namespace Domoticz.Objects

/-! ### The tables -/

/-- The number of a row.  It is positive, so that the guards for an object without one hold. -/
abbrev RowID := ℕ+

/-- What `PyUnicode_FromString` makes of a text; none is the null pointer that it returns for bytes
that are not UTF-8. -/
abbrev PyText := Option String

/-- The columns of `Device` that an object takes over. -/
structure DeviceColumns where
  InterfaceID : RowID
  Name : PyText
  InternalID : PyText
  Address : PyText
  Debug : Bool
  Enabled : Bool
  Active : Bool
  Timestamp : PyText
  deriving DecidableEq

/-- No text of the columns is null. -/
def DeviceColumns.isWhole (c : DeviceColumns) : Bool :=
  [c.Name, c.InternalID, c.Address, c.Timestamp].all Option.isSome

/-- A row of the table of devices. -/
structure DeviceRow where
  DeviceID : RowID
  columns : DeviceColumns
  deriving DecidableEq

/-- The columns of `Value` that an object takes over. -/
structure ValueColumns where
  DeviceID : RowID
  Name : PyText
  InternalID : PyText
  UnitID : RowID
  Value : PyText
  Debug : Bool
  Timestamp : PyText
  deriving DecidableEq

/-- No text of the columns is null. -/
def ValueColumns.isWhole (c : ValueColumns) : Bool :=
  [c.Name, c.InternalID, c.Value, c.Timestamp].all Option.isSome

/-- A row of the table of values. -/
structure ValueRow where
  ValueID : RowID
  columns : ValueColumns
  deriving DecidableEq

/-- The two tables, in the order of their keys. -/
structure Database where
  devices : List DeviceRow
  values : List ValueRow
  devices_sorted : devices.Pairwise (·.DeviceID < ·.DeviceID)
  values_sorted : values.Pairwise (·.ValueID < ·.ValueID)

/-- The row of a Device. -/
def Database.device (db : Database) (DeviceID : RowID) : Option DeviceColumns :=
  (db.devices.find? (·.DeviceID = DeviceID)).map DeviceRow.columns

/-- The row of a Value. -/
def Database.value (db : Database) (ValueID : RowID) : Option ValueColumns :=
  (db.values.find? (·.ValueID = ValueID)).map ValueRow.columns

/-- `SELECT ValueID FROM Value WHERE (DeviceID==%d) ORDER BY ValueID ASC`. -/
def Database.valuesOf (db : Database) (DeviceID : RowID) : List RowID :=
  (db.values.filter (·.columns.DeviceID = DeviceID)).map ValueRow.ValueID

/-! ### The objects -/

/-- `CValue`; without columns it is as `CValue_new` leaves it. -/
structure CValue where
  ValueID : RowID
  columns : Option ValueColumns
  deriving DecidableEq

/-- `InternalID` of an object; a fresh one has the empty text. -/
def CValue.InternalID (v : CValue) : PyText := v.columns.elim (some "") ValueColumns.InternalID

/-- `CValue::Copy` takes a reference to each text. -/
def CValue.copies (v : CValue) : Bool := v.columns.all ValueColumns.isWhole

/-- `CDevice`; without columns it is as `CDevice_new` leaves it. -/
structure CDevice where
  DeviceID : RowID
  columns : Option DeviceColumns
  Values : Dictionary PyText CValue

/-- `InternalID` of an object; a fresh one has the empty text. -/
def CDevice.InternalID (d : CDevice) : PyText := d.columns.elim (some "") DeviceColumns.InternalID

/-- `CDevice::Copy` takes a reference to each text, and puts the Values into a new dictionary. -/
def CDevice.copies (d : CDevice) : Bool :=
  d.columns.all DeviceColumns.isWhole && d.Values.items.all fun e => e.2.InternalID.isSome

/-- `CValue_refresh`: without a row the object stays as it is. -/
def CValue.refresh (db : Database) (v : CValue) : CValue :=
  { v with columns := (db.value v.ValueID).or v.columns }

/-- `CDevice_refresh`. -/
def CDevice.refresh (db : Database) (d : CDevice) : CDevice :=
  { d with columns := (db.device d.DeviceID).or d.columns }

/-- `CValue_init`, with the row's number as `lObjectID`. -/
def loadValue (db : Database) (ValueID : RowID) : CValue := CValue.refresh db ⟨ValueID, none⟩

/-- `CDevice::AddValueToDict`; none if the process ends. -/
def addValueToDict (db : Database) (Values : Dictionary PyText CValue) (ValueID : RowID) :
    Option (Dictionary PyText CValue) :=
  if (loadValue db ValueID).InternalID = none then none
  else some (Values.setItem (loadValue db ValueID).InternalID (loadValue db ValueID))

/-- The Values whose objects `CDevice_init` makes.  After a text that is not UTF-8 an exception is
set, with which the call for the first of them fails. -/
def valuesToLoad (db : Database) (DeviceID : RowID) : List RowID :=
  if (db.device DeviceID).all DeviceColumns.isWhole then db.valuesOf DeviceID
  else (db.valuesOf DeviceID).tail

/-- The Values that `CDevice_init` loads. -/
def loadValues (db : Database) (DeviceID : RowID) : Option (Dictionary PyText CValue) :=
  (valuesToLoad db DeviceID).foldlM (addValueToDict db) .empty

/-- What `CDevice_init` writes with `CDevice_update`, besides the time. -/
structure Written where
  DeviceID : RowID
  Address : String
  Active : Bool
  deriving DecidableEq

/-- `CDevice_update` asks for the UTF-8 of the address and of the name. -/
def DeviceColumns.updates (c : DeviceColumns) : Bool := c.Address.isSome && c.Name.isSome

/-- `CDevice_init`, with the row's number as `lObjectID`; none if the process ends.  A Device is
inactive during startup. -/
def loadDevice (db : Database) (DeviceID : RowID) : Option CDevice :=
  if (db.device DeviceID).all fun c => !c.Active || c.updates then
    (loadValues db DeviceID).map fun Values =>
      ⟨DeviceID, (db.device DeviceID).map fun c => { c with Active := false }, Values⟩
  else none

/-- The update that `CDevice_init` makes of an active Device. -/
def loadWritten (db : Database) (DeviceID : RowID) : Option Written :=
  (db.device DeviceID).bind fun c =>
    if c.Active then c.Address.map fun Address => ⟨DeviceID, Address, false⟩ else none

/-- `CInterface::AddDeviceToDict`; none if the process ends. -/
def addDeviceToDict (db : Database) (Devices : Dictionary PyText CDevice) (DeviceID : RowID) :
    Option (Dictionary PyText CDevice) :=
  (loadDevice db DeviceID).bind fun pDevice =>
    if pDevice.InternalID = none then none else some (Devices.setItem pDevice.InternalID pDevice)

/-- `CInterface::FindDevice`, with the key it is found under. -/
def findDevice (Devices : Dictionary PyText CDevice) (DeviceID : RowID) :
    Option (PyText × CDevice) :=
  Devices.find fun d => d.DeviceID = DeviceID

/-- `CDevice::FindValue`. -/
def CDevice.findValue (d : CDevice) (ValueID : RowID) : Option (PyText × CValue) :=
  d.Values.find fun v => v.ValueID = ValueID

/-! ### The callbacks -/

/-- The messages about the rows of an interface. -/
inductive Callback
  | onCreateDevice (DeviceID : RowID)
  | onUpdateDevice (DeviceID : RowID)
  | onDeleteDevice (DeviceID : RowID)
  | onCreateValue (DeviceID ValueID : RowID)
  | onUpdateValue (DeviceID ValueID : RowID)
  | onDeleteValue (ValueID : RowID)
  deriving DecidableEq

/-- What a callback does before it calls Python. -/
structure Processed where
  Devices : Dictionary PyText CDevice
  written : Option Written := none
  keyError : Bool := false

/-- Some object of a Device's Values changes. -/
def CDevice.withValues (f : Dictionary PyText CValue → Dictionary PyText CValue) (d : CDevice) :
    CDevice :=
  { d with Values := f d.Values }

/-- The `InternalID` that `onDeleteValueCallback` finds in a Device: that of an object with the
number which is a key, too, or a null pointer, with which the process ends. -/
def CDevice.keyToDelete (d : CDevice) (ValueID : RowID) : Option PyText :=
  (d.Values.find fun v => v.ValueID = ValueID ∧
    (v.InternalID = none ∨ (d.Values.getItem v.InternalID).isSome)).map fun e => e.2.InternalID

/-- The search of `onDeleteValueCallback` over all Devices. -/
def searchValue (Devices : Dictionary PyText CDevice) (ValueID : RowID) : Option (PyText × PyText) :=
  Devices.items.findSome? fun e => (e.2.keyToDelete ValueID).map fun key => (e.1, key)

/-- `ProcessLocked` of the callbacks; none if the process ends. -/
def processLocked (db : Database) (Devices : Dictionary PyText CDevice) :
    Callback → Option Processed
  | .onCreateDevice DeviceID =>
      match findDevice Devices DeviceID with
      | some _ => some { Devices }
      | none => (addDeviceToDict db Devices DeviceID).map fun Devices =>
          { Devices, written := loadWritten db DeviceID }
  | .onUpdateDevice DeviceID =>
      match findDevice Devices DeviceID with
      | none => some { Devices }
      | some (key, m_Target) =>
          if m_Target.copies then some { Devices := Devices.modify key (CDevice.refresh db) }
          else none
  | .onDeleteDevice DeviceID =>
      match findDevice Devices DeviceID with
      | none => some { Devices }
      | some (_, m_Target) =>
          if m_Target.InternalID = none then none
          else match Devices.delItem m_Target.InternalID with
            | none => some { Devices, keyError := true }
            | some Devices => some { Devices }
  | .onCreateValue DeviceID ValueID =>
      match findDevice Devices DeviceID with
      | none => some { Devices }
      | some (key, pDevice) =>
          match pDevice.findValue ValueID with
          | some _ => some { Devices }
          | none => (addValueToDict db pDevice.Values ValueID).map fun Values =>
              { Devices := Devices.modify key (CDevice.withValues fun _ => Values) }
  | .onUpdateValue DeviceID ValueID =>
      match findDevice Devices DeviceID with
      | none => some { Devices }
      | some (key, pDevice) =>
          match pDevice.findValue ValueID with
          | none => some { Devices }
          | some (valueKey, m_Target) =>
              if m_Target.copies then
                some
                  { Devices := Devices.modify key
                      (CDevice.withValues fun Values => Values.modify valueKey (CValue.refresh db)) }
              else none
  | .onDeleteValue ValueID =>
      match searchValue Devices ValueID with
      | none => some { Devices }
      | some (key, internalID) =>
          if internalID = none then none
          else
            some
              { Devices :=
                  Devices.modify key (CDevice.withValues fun Values => Values.erase internalID) }

end Domoticz.Objects
