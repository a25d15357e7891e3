import Mathlib.Data.List.GetD
import Domoticz.CLib.Bytes

/-!
# Python objects of a plugin

What a plugin passes to `Send`, as the protocols read it with the C API of Python.  A
`str` is a list of code points; `PyUnicode_AsUTF8` has no text for one with a surrogate,
and the `std::string` made of it ends at the first NUL.

## Main definitions

* `CodePoint`, `PyStr`, `asUTF8`, `stdString` — texts.
* `PyObject`, `PyDict` — objects.
* `Payload` — the objects that are taken for a payload.
* `asLong`, `byteOf` — numbers.

## Main results

* `exists_asUTF8_cstr` — a text up to its first NUL is a text.
-/

namespace Domoticz

open CLib

/-! ### Texts -/

/-- A code point of a `str`; a surrogate stands for itself. -/
inductive CodePoint
  | char (c : Char)
  | surrogate (n : Fin 2048)
  deriving DecidableEq

/-- A `str`: its code points. -/
abbrev PyStr := List CodePoint

/-- A `str` without surrogates. -/
def pyStr (s : String) : PyStr := s.toList.map .char

/-- `PyUnicode_AsUTF8`: a surrogate has no UTF-8, and then the pointer is null. -/
def asUTF8 : PyStr → Option Bytes
  | [] => some []
  | .char c :: s => (asUTF8 s).map (String.utf8EncodeChar c ++ ·)
  | .surrogate _ :: _ => none

/-- `std::string(PyUnicode_AsUTF8(..))`: of a null pointer it throws. -/
def stdString (s : PyStr) : Option Bytes := (asUTF8 s).map cstr

theorem stdString_of_notMem {s : PyStr} {b : Bytes} (h : asUTF8 s = some b) (hz : 0 ∉ b) :
    stdString s = some b := by
  rw [stdString, h, Option.map_some, cstr_of_notMem hz]

/-- The NUL of a text. -/
def nul : CodePoint := .char (Char.ofNat 0)

/-- The bytes of a code point besides its first. -/
def CodePoint.extra : CodePoint → ℕ
  | .char c => c.utf8Size - 1
  | .surrogate _ => 0

theorem zero_notMem_utf8EncodeChar {c : Char} (h : c.val.toNat ≠ 0) :
    0 ∉ String.utf8EncodeChar c := by
  have hbyte {n : ℕ} (hpos : 0 < n) (hlt : n < 256) : (0 : UInt8) ≠ UInt8.ofNat n := by
    intro heq
    have hn := congrArg UInt8.toNat heq
    rw [UInt8.toNat_ofNat', Nat.mod_eq_of_lt hlt] at hn
    exact hpos.ne hn
  unfold String.utf8EncodeChar
  simp only
  split
  · rw [List.mem_singleton]
    exact hbyte (by omega) (by omega)
  · split
    · simp only [List.mem_cons, List.not_mem_nil, or_false, not_or]
      exact ⟨hbyte (by omega) (by omega), hbyte (by omega) (by omega)⟩
    · split
      · simp only [List.mem_cons, List.not_mem_nil, or_false, not_or]
        exact ⟨hbyte (by omega) (by omega), hbyte (by omega) (by omega),
          hbyte (by omega) (by omega)⟩
      · simp only [List.mem_cons, List.not_mem_nil, or_false, not_or]
        exact ⟨hbyte (by omega) (by omega), hbyte (by omega) (by omega),
          hbyte (by omega) (by omega), hbyte (by omega) (by omega)⟩

theorem utf8EncodeChar_zero {c : Char} (h : c.val.toNat = 0) : String.utf8EncodeChar c = [0] := by
  unfold String.utf8EncodeChar
  rw [h]
  rfl

theorem char_eq_nul_iff (c : Char) : CodePoint.char c = nul ↔ c.val.toNat = 0 := by
  rw [nul, CodePoint.char.injEq]
  constructor
  · rintro rfl
    rfl
  · intro h
    apply Char.ext
    apply UInt32.toNat_inj.mp
    exact h

/-- What is in front of the first NUL of a text. -/
theorem asUTF8_takeWhile {s : PyStr} {b : Bytes} (h : asUTF8 s = some b) :
    asUTF8 (s.takeWhile (· ≠ nul)) = some (cstr b) := by
  induction s generalizing b with
  | nil =>
    cases h
    rfl
  | cons x s ih =>
    cases x with
    | surrogate n => cases h
    | char c =>
      obtain ⟨rest, hrest, rfl⟩ := Option.map_eq_some_iff.mp h
      by_cases hc : c.val.toNat = 0
      · have hnul := (char_eq_nul_iff c).mpr hc
        rw [List.takeWhile_cons_of_neg (by simpa using hnul), utf8EncodeChar_zero hc]
        rfl
      · have hnul : CodePoint.char c ≠ nul := fun heq => hc ((char_eq_nul_iff c).mp heq)
        rw [List.takeWhile_cons_of_pos (by simpa using hnul), asUTF8, ih hrest,
          cstr_append, if_neg (zero_notMem_utf8EncodeChar hc)]
        rfl

/-- A text up to its first NUL is a text. -/
theorem exists_asUTF8_cstr {s : PyStr} {b : Bytes} (h : asUTF8 s = some b) :
    ∃ s', asUTF8 s' = some (cstr b) :=
  ⟨_, asUTF8_takeWhile h⟩

/-- The characters of a text. -/
theorem exists_chars {s : PyStr} {b : Bytes} (h : asUTF8 s = some b) :
    ∃ chars : List Char, s = chars.map .char ∧ chars.flatMap String.utf8EncodeChar = b := by
  induction s generalizing b with
  | nil =>
    cases h
    exact ⟨[], rfl, rfl⟩
  | cons x s ih =>
    cases x with
    | surrogate n => cases h
    | char c =>
      obtain ⟨rest, hrest, rfl⟩ := Option.map_eq_some_iff.mp h
      obtain ⟨chars, rfl, rfl⟩ := ih hrest
      exact ⟨c :: chars, rfl, rfl⟩

theorem utf8Encode_eq (chars : List Char) :
    ByteArray.mk (chars.flatMap String.utf8EncodeChar).toArray = chars.utf8Encode := by
  apply ByteArray.ext
  exact List.data_toByteArray.symm

/-- Different texts have different bytes. -/
theorem asUTF8_injective {s t : PyStr} {b : Bytes} (hs : asUTF8 s = some b)
    (ht : asUTF8 t = some b) : s = t := by
  obtain ⟨chars, rfl, hchars⟩ := exists_chars hs
  obtain ⟨chars', rfl, hchars'⟩ := exists_chars ht
  have hencode : chars.utf8Encode = chars'.utf8Encode := by
    rw [← utf8Encode_eq, ← utf8Encode_eq, hchars, hchars']
  rw [← String.toByteArray_ofList, ← String.toByteArray_ofList, String.toByteArray_inj] at hencode
  rw [String.ofList_injective hencode]

/-- The bytes of a text are UTF-8. -/
theorem validateUTF8_of_asUTF8 {s : PyStr} {b : Bytes} (h : asUTF8 s = some b) :
    (ByteArray.mk b.toArray).validateUTF8 = true := by
  obtain ⟨chars, -, rfl⟩ := exists_chars h
  rw [utf8Encode_eq, ByteArray.validateUTF8_eq_true_iff]
  exact ByteArray.isValidUTF8_utf8Encode

/-- What is ASCII is UTF-8. -/
theorem validateUTF8_of_ascii {s : Bytes} (h : ∀ b ∈ s, b < 128) :
    (ByteArray.mk s.toArray).validateUTF8 = true := by
  have hall : ∀ n < 128, String.utf8EncodeChar (Char.ofNat n) = [UInt8.ofNat n] := by decide
  have hbyte (b : UInt8) (hb : b < 128) :
      String.utf8EncodeChar (Char.ofNat b.toNat) = [b] := by
    rw [hall b.toNat hb, UInt8.ofNat_toNat]
  obtain ⟨chars, hchars⟩ : ∃ chars : List Char, chars.flatMap String.utf8EncodeChar = s := by
    refine ⟨s.map fun b => Char.ofNat b.toNat, ?_⟩
    induction s with
    | nil => rfl
    | cons b s ih =>
      obtain ⟨hb, hs⟩ := List.forall_mem_cons.mp h
      rw [List.map_cons, List.flatMap_cons, hbyte b hb, ih hs]
      rfl
  rw [← hchars, utf8Encode_eq, ByteArray.validateUTF8_eq_true_iff]
  exact ByteArray.isValidUTF8_utf8Encode

/-- A text has a byte for each code point, and those besides. -/
theorem length_asUTF8 {s : PyStr} {b : Bytes} (h : asUTF8 s = some b) :
    b.length = s.length + (s.map CodePoint.extra).sum := by
  induction s generalizing b with
  | nil =>
    cases h
    rfl
  | cons x s ih =>
    cases x with
    | surrogate n => cases h
    | char c =>
      obtain ⟨rest, hrest, rfl⟩ := Option.map_eq_some_iff.mp h
      have hlength := String.length_utf8EncodeChar c
      have hpos := c.utf8Size_pos
      have htail := ih hrest
      rw [List.length_append, List.map_cons, List.sum_cons, List.length_cons, CodePoint.extra]
      omega

/-- A code point has at least one byte. -/
theorem length_le_of_asUTF8 {s : PyStr} {b : Bytes} (h : asUTF8 s = some b) :
    s.length ≤ b.length := by
  rw [length_asUTF8 h]
  exact Nat.le_add_right _ _

/-! ### Entries -/

section Lookup

variable {α β γ : Type} [BEq α]

theorem mem_of_lookup [LawfulBEq α] {l : List (α × β)} {a : α} {b : β}
    (h : l.lookup a = some b) : (a, b) ∈ l := by
  obtain ⟨front, rest, rfl, -⟩ := List.lookup_eq_some_iff.mp h
  exact List.mem_append_right _ List.mem_cons_self

/-- An entry is looked up if its key is that of no other. -/
theorem lookup_of_mem [LawfulBEq α] {l : List (α × β)} (hnodup : (l.map Prod.fst).Nodup)
    {e : α × β} (h : e ∈ l) : l.lookup e.1 = some e.2 := by
  obtain ⟨front, rest, rfl⟩ := List.append_of_mem h
  refine List.lookup_eq_some_iff.mpr ⟨front, rest, rfl, fun p hp => ?_⟩
  rw [List.map_append, List.nodup_append] at hnodup
  have hne := hnodup.2.2 p.1 (List.mem_map_of_mem hp) e.1 List.mem_cons_self
  exact bne_iff_ne.mpr (Ne.symm hne)

theorem lookup_map_snd (f : β → γ) (l : List (α × β)) (a : α) :
    (l.map fun e => (e.1, f e.2)).lookup a = (l.lookup a).map f := by
  induction l with
  | nil => rfl
  | cons e l ih =>
    obtain ⟨key, value⟩ := e
    rw [List.map_cons, List.lookup_cons, List.lookup_cons]
    cases a == key with
    | true => rfl
    | false => exact ih

end Lookup

/-! ### Objects -/

/-- A Python object; a dictionary by the entries whose keys are texts. -/
inductive PyObject
  | none
  | bool (b : Bool)
  | int (i : ℤ)
  /-- A `float`, by the 64 bits of the double. -/
  | float (d : UInt64)
  | str (s : PyStr)
  | bytes (s : Bytes)
  | bytearray (s : Bytes)
  | list (items : List PyObject)
  | tuple (items : List PyObject)
  | dict (entries : List (PyStr × PyObject))

/-- A dictionary with texts for keys, in the order of insertion. -/
abbrev PyDict := List (PyStr × PyObject)

/-- `PyDict_GetItemString`. -/
def getItemString (d : PyDict) (key : String) : Option PyObject := d.lookup (pyStr key)

/-- `PyLong_AsLong` of an integer: -1 if it is no `long`. -/
def asLong (i : ℤ) : ℤ := if -2 ^ 63 ≤ i ∧ i < 2 ^ 63 then i else -1

/-- The value of an object that passes `PyLong_Check`, which `True` and `False` do. -/
def long? : Option PyObject → Option ℤ
  | some (.int i) => some (asLong i)
  | some (.bool b) => some b.toInt
  | _ => .none

/-- An object that passes `PyUnicode_Check`. -/
def unicode? : Option PyObject → Option PyStr
  | some (.str s) => some s
  | _ => .none

/-- A payload. -/
inductive Payload
  | str (s : PyStr)
  | bytes (s : Bytes)
  | bytearray (s : Bytes)

/-- The object of a payload. -/
def Payload.object : Payload → PyObject
  | .str s => .str s
  | .bytes s => .bytes s
  | .bytearray s => .bytearray s

/-- The bytes of a payload; a text with a surrogate has none. -/
def Payload.content : Payload → Option Bytes
  | .str s => asUTF8 s
  | .bytes s => some s
  | .bytearray s => some s

/-- The narrowing conversion to `byte`. -/
def byteOf (i : ℤ) : UInt8 := UInt8.ofNat (i % 256).toNat

theorem toNat_byteOf (i : ℤ) : ((byteOf i).toNat : ℤ) = i % 256 := by
  have hpos := Int.emod_nonneg i (show (256 : ℤ) ≠ 0 by decide)
  have hlt := Int.emod_lt_of_pos i (show (0 : ℤ) < 256 by decide)
  rw [byteOf, UInt8.toNat_ofNat']
  omega

end Domoticz
