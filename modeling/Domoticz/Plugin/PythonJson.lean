import Domoticz.JsonReader
import Domoticz.Main.SQLHelper
import Domoticz.Plugin.Message

/-!
# Python objects and JSON

`PythontoJSON` and `JSONtoPython` of `CPluginProtocolJSON`, and the `Configuration` of an
`Interface`, which is stored with the one and loaded with the other.

## Main definitions

* `PythontoJSON`, `JSONtoPython`, `fromText` — the two directions.
* `translated`, `translate` — the second one with its exception and its crash.
* `CInterface_update`, `CInterface_refresh` — storing and loading.
* `same` — equality of objects.
* `Configuration` — the objects in question.
-/

namespace Domoticz.PythonJson

open CLib JsonReader

/-! ### Writing -/

/-- `'"' + s + '"'`. -/
def quote (s : Bytes) : Bytes := 0x22 :: (s ++ [0x22])

/-- `sJson[sJson.length() - 1] = c`. -/
def setLast (c : UInt8) (sJson : Bytes) : Bytes := sJson.dropLast ++ [c]

mutual

/-- What `PythontoJSON` writes; the `std::string` of a null pointer throws. -/
def PythontoJSON : PyObject → Option Bytes
  | .str s => (stdString s).map quote
  | .bool b => some (if b then str "true" else str "false")
  | .int i => some (decimal (asLong i))
  | .bytes s => some (quote (cstr s))
  | .bytearray s => some (quote (cstr s))
  | .float d => some (Double.toText d)
  | .dict entries =>
      (entryTexts entries).map fun s => setLast (chr '\x7d') (str "\x7b " ++ s)
  | .list items => (itemTexts items).map fun s => setLast (chr ']') (str "[ " ++ s)
  | .tuple items => (itemTexts items).map fun s => setLast (chr ']') (str "[ " ++ s)
  | .none => some []

/-- The items of a list, with a comma behind each. -/
def itemTexts : List PyObject → Option Bytes
  | [] => some []
  | x :: items =>
      (PythontoJSON x).bind fun s => (itemTexts items).map fun t => s ++ chr ',' :: t

/-- The entries of a dictionary, with a comma behind each. -/
def entryTexts : List (PyStr × PyObject) → Option Bytes
  | [] => some []
  | (key, value) :: entries =>
      (stdString key).bind fun k => (PythontoJSON value).bind fun s =>
        (entryTexts entries).map fun t => quote k ++ str " :" ++ s ++ chr ',' :: t

end

/-! ### Reading -/

/-- `PyUnicode_FromString` and `Py_BuildValue("s#", ..)`: null if the text is not UTF-8. -/
def decodeUTF8 (s : Bytes) : Option PyStr :=
  (String.fromUTF8? ⟨s.toArray⟩).map fun t => t.toList.map .char

/-- `asUInt()` of a value that passes `isUInt()`. -/
def asUInt? : Value → Option ℤ
  | .int i => if 0 ≤ i ∧ i ≤ 4294967295 then some i else none
  | .uint n => if n ≤ 4294967295 then some n else none
  | .real d => (Double.toIntegral d).filter fun i => 0 ≤ i ∧ i ≤ 4294967295
  | _ => none

/-- The operations of the JSON library on doubles. -/
def doubles : Doubles UInt64 := ⟨Double.toIntegral, Double.ofInt, Double.toText⟩

/-- A number: unsigned, signed or else floating. -/
def ofNumber (v : Value) : Option PyObject :=
  match asUInt? v with
  | some i => some (.int i)
  | none =>
      match Json.asInt? doubles v with
      | some i => some (.int i)
      | none => (Json.asDouble? doubles v).map .float

theorem ofNumber_ne_none {v : Value} {d : UInt64} (h : Json.asDouble? doubles v = some d) :
    ofNumber v ≠ none := by
  unfold ofNumber
  split
  · exact Option.some_ne_none _
  · split
    · exact Option.some_ne_none _
    · rw [h]
      exact Option.some_ne_none _

/-- An item of a list that is no container; there is no case for `isBool`. -/
def ofItem (v : Value) : Option PyObject :=
  match ofNumber v with
  | some x => some x
  | none => (Json.asString? doubles v).bind fun s => (decodeUTF8 s).map .str

/-- A member of an object that is no container. -/
def ofMember (v : Value) : Option PyObject :=
  match v with
  | .bool b => some (.bool b)
  | _ => ofItem v

/-- Whether a value is an array or an object. -/
def isContainer : Value → Bool
  | .array _ => true
  | .object _ => true
  | _ => false

/-- `PyDict_SetItem`. -/
def setItem (key : PyStr) (value : PyObject) : PyDict → PyDict
  | [] => [(key, value)]
  | (key', value') :: entries =>
      if key' = key then (key', value) :: entries else (key', value') :: setItem key value entries

mutual

/-- `JSONtoPython`; nothing is made of a value that is no container.  A text that is not UTF-8
leaves a hole in a list and crashes for a dictionary; neither is a Python object. -/
def JSONtoPython : Value → Option PyObject
  | .array items => (listItems items).map .list
  | .object members => (dictEntries [] members).map .dict
  | _ => none

/-- The items of an array as the items of a list. -/
def listItems : List Value → Option (List PyObject)
  | [] => some []
  | v :: items =>
      (if isContainer v then JSONtoPython v else ofItem v).bind fun x =>
        (listItems items).map (x :: ·)

/-- The members, added to the entries that are there. -/
def dictEntries (entries : PyDict) : List (Bytes × Value) → Option PyDict
  | [] => some entries
  | (name, v) :: members =>
      (decodeUTF8 (cstr name)).bind fun key =>
        (if isContainer v then JSONtoPython v else ofMember v).bind fun x =>
          dictEntries (setItem key x entries) members

end

mutual

/-- A null object gets into a dictionary, for a name or a text that is not UTF-8. -/
def crashes : Value → Bool
  | .array items => itemsCrash items
  | .object members => membersCrash members
  | _ => false

/-- Whether one of the items ends the process. -/
def itemsCrash : List Value → Bool
  | [] => false
  | v :: items => crashes v || itemsCrash items

/-- Whether one of the members ends the process. -/
def membersCrash : List (Bytes × Value) → Bool
  | [] => false
  | (name, v) :: members =>
      (decodeUTF8 (cstr name)).isNone || (!isContainer v && (ofMember v).isNone) || crashes v ||
        membersCrash members

end

/-- What comes of `JSONtoPython` where it makes no Python object. -/
def translated (v : Value) : Except Halt Translated :=
  match JSONtoPython v with
  | some x => .ok (.object x)
  | none => if crashes v then .error .stuck else .ok .unset

/-- Whether a value is an object. -/
def isObject : Value → Bool
  | .object _ => true
  | _ => false

/-- `JSONtoPython` of a text, as a protocol calls it. -/
def translate (sData : Bytes) : Except Halt Translated :=
  match parse sData with
  | .error e => if e = .stackLimit then .error .threw else .ok (.object (.dict []))
  | .ok root => if isObject root then translated root else .ok (.object (.dict []))

/-- `JSONtoPython` of a text: an empty dictionary if it is not read as an object. -/
def fromText (sData : Bytes) : Option PyObject :=
  match parse sData with
  | .error .syntaxError => some (.dict [])
  | .error .stackLimit => none
  | .ok (.object members) => JSONtoPython (.object members)
  | .ok _ => some (.dict [])

/-! ### Storing and loading -/

/-- A row of the table `Interface`, as a query returns it. -/
structure InterfaceRow where
  Name : Bytes
  Configuration : Bytes
  Debug : Bytes
  Active : Bytes

/-- The fields of an interface that are converted. -/
structure CInterface where
  Name : Option PyStr
  Configuration : PyObject
  Debug : Bool
  Active : Bool

/-- The row after an update. -/
def CInterface_update (self : CInterface) (row : InterfaceRow) : Option InterfaceRow :=
  (PythontoJSON self.Configuration).map fun sConfig =>
    { row with
      Configuration := SQLHelper.addParameter sConfig
      Active := SQLHelper.addParameter (decimal self.Active.toInt) }

/-- The object after a refresh.  A column is read up to its first NUL. -/
def CInterface_refresh (row : InterfaceRow) : Option CInterface :=
  (fromText (cstr row.Configuration)).map fun config =>
    { Name := decodeUTF8 (cstr row.Name)
      Configuration := config
      Debug := atoi row.Debug ≠ 0
      Active := atoi row.Active ≠ 0 }

theorem translated_eq_object_iff {v : Value} {x : PyObject} :
    translated v = .ok (.object x) ↔ JSONtoPython v = some x := by
  unfold translated
  cases JSONtoPython v with
  | some y => simp
  | none =>
    cases crashes v with
    | true => simp
    | false => simp

/-- The two ways to say what becomes of a text agree on its object. -/
theorem translate_eq_object_iff {sData : Bytes} {x : PyObject} :
    translate sData = .ok (.object x) ↔ fromText sData = some x := by
  unfold translate fromText
  cases parse sData with
  | error e => cases e <;> simp [eq_comm]
  | ok root =>
    cases root with
    | object members => exact translated_eq_object_iff
    | _ => simp [isObject, eq_comm]

theorem isContainer_of_isObject {v : Value} (h : isObject v = true) : isContainer v = true := by
  cases v with
  | object members => rfl
  | _ => cases h

/-- A translation crashes, but raises no exception. -/
theorem translated_ne_threw (v : Value) : translated v ≠ .error .threw := by
  unfold translated
  cases JSONtoPython v with
  | some x =>
    intro h
    cases h
  | none =>
    simp only
    split
    · intro h
      cases h
    · intro h
      cases h

/-! ### Equality -/

mutual

/-- The same object: of the same type and with the same parts, dictionaries in any order. -/
def same : PyObject → PyObject → Bool
  | .none, .none => true
  | .bool b, .bool b' => b == b'
  | .int i, .int i' => i == i'
  | .float d, .float d' => d == d'
  | .str s, .str s' => s == s'
  | .bytes s, .bytes s' => s == s'
  | .bytearray s, .bytearray s' => s == s'
  | .list items, .list items' => sameItems items items'
  | .tuple items, .tuple items' => sameItems items items'
  | .dict entries, .dict entries' =>
      entries.length == entries'.length && sameEntries entries entries'
  | _, _ => false

/-- Whether two lists have the same items. -/
def sameItems : List PyObject → List PyObject → Bool
  | [], [] => true
  | x :: items, y :: items' => same x y && sameItems items items'
  | _, _ => false

/-- Every entry is among the others. -/
def sameEntries : PyDict → PyDict → Bool
  | [], _ => true
  | (key, x) :: entries, entries' =>
      (match entries'.lookup key with
        | some y => same x y
        | none => false) && sameEntries entries entries'

end

/-- The keys of every dictionary in an object are different. -/
inductive Distinct : PyObject → Prop
  | none : Distinct .none
  | bool {b : Bool} : Distinct (.bool b)
  | int {i : ℤ} : Distinct (.int i)
  | float {d : UInt64} : Distinct (.float d)
  | str {s : PyStr} : Distinct (.str s)
  | bytes {s : Bytes} : Distinct (.bytes s)
  | bytearray {s : Bytes} : Distinct (.bytearray s)
  | list {items : List PyObject} : (∀ x ∈ items, Distinct x) → Distinct (.list items)
  | tuple {items : List PyObject} : (∀ x ∈ items, Distinct x) → Distinct (.tuple items)
  | dict {entries : PyDict} : (entries.map Prod.fst).Nodup → (∀ e ∈ entries, Distinct e.2) →
      Distinct (.dict entries)

/-- A Python object as a `Configuration`. -/
structure Configuration where
  object : PyObject
  distinct : Distinct object

/-- What was written is read as the same object. -/
def RoundTrips (c : Configuration) : Prop :=
  ∃ text w, PythontoJSON c.object = some text ∧ fromText text = some w ∧ same c.object w = true

/-- An update and a refresh leave the configuration of an interface unchanged. -/
def Survives (c : Configuration) : Prop :=
  ∀ (self : CInterface) (row : InterfaceRow), self.Configuration = c.object →
    ∃ row' self', CInterface_update self row = some row' ∧ CInterface_refresh row' = some self' ∧
      same self.Configuration self'.Configuration = true

/-! ### Texts -/

/-- A `str` of characters. -/
theorem asUTF8_chars (chars : List Char) :
    asUTF8 (chars.map .char) = some (chars.flatMap String.utf8EncodeChar) := by
  induction chars with
  | nil => rfl
  | cons c chars ih =>
    rw [List.map_cons, asUTF8, ih, List.flatMap_cons]
    rfl

theorem utf8Encode_eq_iff (chars : List Char) (b : Bytes) :
    chars.utf8Encode = ⟨b.toArray⟩ ↔ chars.flatMap String.utf8EncodeChar = b := by
  rw [← utf8Encode_eq, ByteArray.mk.injEq]
  refine ⟨fun h => ?_, fun h => congrArg List.toArray h⟩
  have hlist := congrArg Array.toList h
  rwa [List.toList_toArray, List.toList_toArray] at hlist

/-- A text is decoded to what it is the UTF-8 of. -/
theorem decodeUTF8_eq_some_iff {b : Bytes} {s : PyStr} :
    decodeUTF8 b = some s ↔ asUTF8 s = some b := by
  constructor
  · intro h
    obtain ⟨t, ht, rfl⟩ := Option.map_eq_some_iff.mp h
    obtain ⟨hvalid, heq⟩ := Option.dite_none_right_eq_some.mp ht
    have hbytes : t.toList.utf8Encode = ⟨b.toArray⟩ := by
      rw [String.utf8Encode_toList, ← Option.some.inj heq]
      rfl
    rw [asUTF8_chars, (utf8Encode_eq_iff _ b).mp hbytes]
  · intro h
    obtain ⟨chars, rfl, hchars⟩ := exists_chars h
    have hbytes := (utf8Encode_eq_iff chars b).mpr hchars
    have hvalid : ByteArray.IsValidUTF8 ⟨b.toArray⟩ := by
      rw [← hbytes]
      exact ByteArray.isValidUTF8_utf8Encode
    have hstring : String.fromUTF8 ⟨b.toArray⟩ hvalid = String.ofList chars := by
      apply String.toByteArray_inj.mp
      rw [String.toByteArray_ofList, hbytes]
      rfl
    rw [decodeUTF8, String.fromUTF8?, dif_pos hvalid, hstring, Option.map_some, String.toList_ofList]

end Domoticz.PythonJson
