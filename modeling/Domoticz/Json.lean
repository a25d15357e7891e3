import Domoticz.CLib.Number

/-!
# JSON values

The values of the JSON library the program is built with, and the conversions
its callers use.  A floating-point number is kept abstract: `Doubles D` lists
the operations on the type `D` of doubles that the callers rely on.

The type tests are wider than the constructors.  `isInt` also holds of an
unsigned or a floating-point value that is a 32-bit integer, and `isDouble` of
every number.
-/

namespace Domoticz

open CLib

/-- The operations on floating-point numbers the callers use. -/
structure Doubles (D : Type) where
  /-- The integer a double is equal to, if there is one. -/
  toIntegral : D → Option ℤ
  /-- The double nearest to an integer. -/
  ofInt : ℤ → D
  /-- `std::to_string`. -/
  toText : D → Bytes

/-- Doubles of which nothing is asked. -/
def noDoubles : Doubles Unit := ⟨fun _ => none, fun _ => (), fun _ => []⟩

/-- A `Json::Value`. -/
inductive Json (D : Type)
  | null
  | int (i : ℤ)
  | uint (n : ℕ)
  | real (d : D)
  | string (s : Bytes)
  | bool (b : Bool)
  | array (items : List (Json D))
  /-- The members in the order of their names, each name once. -/
  | object (members : List (Bytes × Json D))

namespace Json

variable {D : Type}

/-- `minInt` to `maxInt`. -/
def inInt (i : ℤ) : Bool := -2147483648 ≤ i && i ≤ 2147483647

/-- `asInt()` of a value that passes `isInt()`. -/
def asInt? (dbl : Doubles D) : Json D → Option ℤ
  | .int i => if inInt i then some i else none
  | .uint n => if n ≤ 2147483647 then some n else none
  | .real d => (dbl.toIntegral d).filter inInt
  | _ => none

/-- `asDouble()` of a value that passes `isDouble()`. -/
def asDouble? (dbl : Doubles D) : Json D → Option D
  | .int i => some (dbl.ofInt i)
  | .uint n => some (dbl.ofInt n)
  | .real d => some d
  | _ => none

/-- What iterating over a value yields: the members of an object, and the items
of an array under the empty name. -/
def members : Json D → List (Bytes × Json D)
  | .object ms => ms
  | .array items => items.map fun v => ([], v)
  | _ => []

/-- `asString()`, which raises an exception for arrays and objects. -/
def asString? (dbl : Doubles D) : Json D → Option Bytes
  | .null => some []
  | .string s => some s
  | .bool b => some (if b then str "true" else str "false")
  | .int i => some (decimal i)
  | .uint n => some (decimal n)
  | .real d => some (dbl.toText d)
  | .array _ => none
  | .object _ => none

/-- `value[name]`: a missing member is null, and a value that is neither an
object nor null raises an exception. -/
def member? (name : Bytes) : Json D → Option (Json D)
  | .null => some .null
  | .object ms => some ((ms.lookup name).getD .null)
  | _ => none

end Json

end Domoticz
