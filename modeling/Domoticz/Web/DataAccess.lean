import Domoticz.CLib.EraseLoop
import Domoticz.CLib.Number

/-!
# Access to the tables

`CDataAccess` stands between the database and everything that exports its rows:
it looks up what a user may do with a table, fetches the table's columns and
strips those that the configuration forbids for the verb.

The configuration of a table names columns in a comma separated text.  The
stripping loop searches that text for the column's name, so it finds every name
that occurs in the text, listed or not.

## Main definitions

* `ColumnInfo`, `AccessConfig` — the structure of the tables and the rights.
* `DataAccess.userHasAccess` — the lookup of the rights and the columns.
* `DataAccess.stripForbiddenFields` — the stripping loop.
* `fieldList`, `isListed` — the elements of a comma separated list.
-/

namespace Domoticz

open CLib

/-- One row of `pragma table_info`. -/
structure ColumnInfo where
  cid : Bytes
  name : Bytes
  type : Bytes
  notnull : Bytes
  dfltValue : Bytes
  pk : Bytes
  deriving DecidableEq, Repr

/-- A row of the table `TableAccess`. -/
structure TableAccessRow where
  name : Bytes
  roleID : Bytes
  canGET : Bytes
  canPOST : Bytes
  canPUT : Bytes
  canPATCH : Bytes
  canDELETE : Bytes
  dontGETFields : Bytes
  putFields : Bytes
  patchFields : Bytes

/-- A row of the table `User`. -/
structure UserRow where
  username : Bytes
  roleID : Bytes

/-- The part of the database that governs access. -/
structure AccessConfig where
  users : List UserRow
  tableAccess : List TableAccessRow
  /-- `pragma table_info`. -/
  tableInfo : Bytes → List ColumnInfo

/-- The column `Can<verb>`.  Column names are compared without regard to case. -/
def TableAccessRow.can (row : TableAccessRow) (verb : Bytes) : Option Bytes :=
  if upper verb = str "GET" then some row.canGET
  else if upper verb = str "POST" then some row.canPOST
  else if upper verb = str "PUT" then some row.canPUT
  else if upper verb = str "PATCH" then some row.canPATCH
  else if upper verb = str "DELETE" then some row.canDELETE
  else none

/-- `CDataAccess`. -/
structure DataAccess where
  user : Bytes := []
  verb : Bytes := []
  table : Bytes := []
  tableKey : ℤ := 0
  parent : Bytes := []
  parentKey : ℤ := 0
  dontGETFields : Bytes := []
  putFields : Bytes := []
  patchFields : Bytes := []
  validFields : List ColumnInfo := []
  deriving DecidableEq, Repr

namespace DataAccess

/-- `setTable`. -/
def setTable (da : DataAccess) (table : Bytes) (tableKey : ℤ) : DataAccess :=
  { da with table, tableKey }

/-- `setParent`. -/
def setParent (da : DataAccess) (parent : Bytes) (parentKey : ℤ) : DataAccess :=
  { da with parent, parentKey }

/-- The rows of `TableAccess` for the role of the user and the table. -/
def accessRows (cfg : AccessConfig) (da : DataAccess) : List TableAccessRow :=
  cfg.tableAccess.filter fun t =>
    t.name == da.table && cfg.users.any fun u => u.username == da.user && u.roleID == t.roleID

/-- `UserHasAccess`: the answer, and the object with the rights and the columns
it read. -/
def userHasAccess (cfg : AccessConfig) (da : DataAccess) : Bool × DataAccess :=
  match accessRows cfg da with
  | [] => (false, da)
  | row :: _ =>
      if row.can da.verb = some (str "1") then
        let da := { da with
          putFields := row.putFields
          patchFields := row.patchFields
          dontGETFields := row.dontGETFields
          -- by default all fields are eligible to be returned
          validFields := cfg.tableInfo da.table }
        (!da.validFields.isEmpty, da)
      else (false, da)

/-- `hasTimestamp`. -/
def hasTimestamp (da : DataAccess) : Bool :=
  da.validFields.any fun f => f.name == str "Timestamp"

/-- The stripping loop of one branch of `StripForbiddenFields`. -/
def strip (forbidden : ColumnInfo → Bool) (da : DataAccess) : DataAccess :=
  { da with validFields := eraseLoop forbidden da.validFields 0 }

/-- `StripForbiddenFields`. -/
def stripForbiddenFields (da : DataAccess) : DataAccess :=
  if da.verb = str "PUT" ∧ da.putFields ≠ str "*" then
    strip (fun f => !contains da.putFields f.name) da
  else if da.verb = str "PATCH" ∧ da.patchFields ≠ str "*" then
    strip (fun f => !contains da.patchFields f.name) da
  else if da.verb = str "GET" ∧ da.dontGETFields ≠ [] then
    strip (fun f => contains da.dontGETFields f.name) da
  else da

/-- `GetValidFields`. -/
def getValidFields (da : DataAccess) : List Bytes := da.validFields.map (·.name)

/-! ### What stripping leaves alone -/

@[simp] theorem table_stripForbiddenFields (da : DataAccess) :
    da.stripForbiddenFields.table = da.table := by
  unfold stripForbiddenFields
  split
  · rfl
  · split
    · rfl
    · split <;> rfl

end DataAccess

/-! ### Comma separated lists -/

/-- The elements of a comma separated list of column names. -/
def fieldList (config : Bytes) : List Bytes :=
  if config = [] then [] else config.splitOn (chr ',')

/-- The name of the column is an element of the list. -/
def isListed (config : Bytes) (f : ColumnInfo) : Bool := (fieldList config).contains f.name

end Domoticz
