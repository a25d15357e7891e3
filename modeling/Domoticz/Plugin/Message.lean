import Mathlib.Data.Nat.Bitwise
import Domoticz.Plugin.Python

/-!
# Messages to a plugin

The protocols of the plugin system turn the bytes of a connection into `onMessage`
callbacks, most of them with a Python dictionary.

## Main definitions

* `Halt` — how a function ends that does not return.
* `Translated` — what is made of a JSON text.
* `PyValue`, `Dict`, `buildString` — the Python objects that are built.
* `PluginEvent` — what a protocol queues for its plugin.
* `byteAt` — reading the buffer of a protocol, which may go past its end.
* `number`, `bigEndian`, `beBytes` — numbers in network order.
-/

namespace Domoticz

open CLib

/-- How a function that does not return normally ends. -/
inductive Halt
  /-- It throws an exception, which the work loop of the plugin catches. -/
  | threw
  /-- It does not come back: an endless loop, or a null object in a dictionary. -/
  | stuck
  deriving DecidableEq

/-- What `JSONtoPython` makes of a text. -/
inductive Translated
  | object (x : PyObject)
  /-- An object with a list in it of which a place is not set. -/
  | unset

/-- A Python object. -/
inductive PyValue
  | int (i : ℤ)
  | bool (b : Bool)
  /-- A `str`, by its UTF-8. -/
  | text (s : Bytes)
  | bytes (s : Bytes)
  | list (l : List PyValue)
  | dict (d : List (Bytes × PyValue))
  /-- What was made of a JSON text. -/
  | json (t : Translated)

/-- The UTF-8 of a `str`. -/
def PyValue.text? : PyValue → Option Bytes
  | .text s => some s
  | _ => none

/-- A Python dictionary, in the order its keys were added. -/
abbrev Dict := List (Bytes × PyValue)

/-- Bytes that `Py_BuildValue("s#", ..)` makes a text of; of all others it makes none. -/
def isUTF8 (s : Bytes) : Bool := (ByteArray.mk s.toArray).validateUTF8

/-- `Py_BuildValue("s", s.c_str())`: a text up to the first NUL, unless it is not UTF-8. -/
def buildString (s : Bytes) : Option PyValue :=
  if (ByteArray.mk (cstr s).toArray).validateUTF8 then some (.text (cstr s)) else none

theorem buildString_of_ascii {s : Bytes} (h : ∀ b ∈ s, b < 128) :
    buildString s = some (.text (cstr s)) :=
  if_pos (validateUTF8_of_ascii fun b hb => h b ((List.takeWhile_prefix _).subset hb))

theorem buildString_of_asUTF8 {s : PyStr} {b : Bytes} (h : asUTF8 s = some b) :
    buildString b = some (.text (cstr b)) := by
  obtain ⟨s', hs'⟩ := exists_asUTF8_cstr h
  exact if_pos (validateUTF8_of_asUTF8 hs')

/-- What a protocol queues with `MessagePlugin`. -/
inductive PluginEvent
  /-- `onMessageCallback` with a dictionary. -/
  | onMessage (data : Dict)
  /-- `DisconnectedEvent`. -/
  | disconnected

theorem PluginEvent.onMessage_ne_disconnected (data : Dict) :
    PluginEvent.onMessage data ≠ .disconnected := nofun

/-! ### Bytes of a packet -/

/-- The byte an iterator or an index points to.  The code does not always compare it with
the end of the buffer, so `stray` says what lies behind. -/
def byteAt (stray : ℕ → UInt8) (buf : Bytes) (it : ℕ) : UInt8 := buf.getD it (stray it)

theorem byteAt_append (stray : ℕ → UInt8) (more : Bytes) {buf : Bytes} {it : ℕ}
    (h : it < buf.length) : byteAt stray (buf ++ more) it = byteAt stray buf it :=
  List.getD_append _ _ _ _ h

theorem byteAt_of_drop (stray : ℕ → UInt8) {buf s : Bytes} {b : UInt8} {it : ℕ}
    (h : buf.drop it = b :: s) : byteAt stray buf it = b ∧ buf.drop (it + 1) = s := by
  have hb : buf[it]? = some b := by rw [← List.head?_drop, h, List.head?_cons]
  refine ⟨?_, ?_⟩
  · rw [byteAt, List.getD_eq_getElem?_getD, hb, Option.getD_some]
  · rw [← List.drop_drop, h, List.drop_one, List.tail_cons]

theorem getElem?_eq_byteAt (stray : ℕ → UInt8) {buf : Bytes} {it : ℕ} (h : it < buf.length) :
    buf[it]? = some (byteAt stray buf it) := by
  rw [byteAt, List.getD_eq_getElem _ _ h, List.getElem?_eq_getElem h]

theorem drop_eq_byteAt_cons (stray : ℕ → UInt8) {buf : Bytes} {it : ℕ} (h : it < buf.length) :
    buf.drop it = byteAt stray buf it :: buf.drop (it + 1) := by
  rw [List.drop_eq_getElem_cons h, byteAt, List.getD_eq_getElem _ _ h]

theorem toNat_and_127 (b : UInt8) : (b &&& 127).toNat = b.toNat % 128 := by
  rw [UInt8.toNat_and]
  exact Nat.and_two_pow_sub_one_eq_mod _ 7

theorem and_128_eq_zero_iff (b : UInt8) : b &&& 128 = 0 ↔ b.toNat < 128 := by
  have hb := b.toNat_lt
  rw [← UInt8.toNat_inj, UInt8.toNat_and]
  show b.toNat &&& 2 ^ 7 = 0 ↔ b.toNat < 128
  rw [Nat.and_two_pow, Nat.testBit_eq_decide_div_mod_eq]
  by_cases hn : b.toNat < 128
  · have hbit : b.toNat / 128 % 2 = 0 := by omega
    simp [hbit, hn]
  · have hbit : b.toNat / 128 % 2 = 1 := by omega
    simp [hbit, hn]

theorem or_128 {n : ℕ} (h : n < 128) : UInt8.ofNat n ||| 128 = UInt8.ofNat (n + 128) := by
  rw [← UInt8.toNat_inj, UInt8.toNat_or, UInt8.toNat_ofNat', UInt8.toNat_ofNat',
    Nat.mod_eq_of_lt (show n < 2 ^ 8 by omega), Nat.mod_eq_of_lt (show n + 128 < 2 ^ 8 by omega)]
  have hor := Nat.two_pow_add_eq_or_of_lt (i := 7) (b := n) h 1
  show n ||| 128 = n + 128
  rw [Nat.or_comm, Nat.add_comm]
  exact hor.symm

/-- `(*it++ << 8) + *it++`: a number of two bytes, most significant first. -/
def number (high low : UInt8) : ℕ := high.toNat * 256 + low.toNat

/-- The two bytes of a number. -/
def bigEndian (n : UInt16) : Bytes := [UInt8.ofNat (n.toNat / 256), UInt8.ofNat (n.toNat % 256)]

theorem number_bigEndian (n : UInt16) :
    number (UInt8.ofNat (n.toNat / 256)) (UInt8.ofNat (n.toNat % 256)) = n.toNat := by
  have hn := n.toNat_lt
  simp only [number, UInt8.toNat_ofNat']
  omega

@[simp] theorem length_bigEndian (n : UInt16) : (bigEndian n).length = 2 := rfl

/-- A number in `k` bytes, most significant first. -/
def beBytes : ℕ → ℕ → Bytes
  | 0, _ => []
  | k + 1, n => beBytes k (n / 256) ++ [UInt8.ofNat (n % 256)]

@[simp] theorem length_beBytes (k n : ℕ) : (beBytes k n).length = k := by
  induction k generalizing n with
  | zero => rfl
  | succ k ih => rw [beBytes, List.length_append, ih, List.length_singleton]

theorem beBytes_injective {k m n : ℕ} (hm : m < 256 ^ k) (hn : n < 256 ^ k)
    (h : beBytes k m = beBytes k n) : m = n := by
  induction k generalizing m n with
  | zero =>
    rw [pow_zero] at hm hn
    omega
  | succ k ih =>
    rw [pow_succ] at hm hn
    obtain ⟨hhigh, hlow⟩ := List.append_inj' h rfl
    have hdiv := ih (Nat.div_lt_of_lt_mul (by rwa [mul_comm] at hm))
      (Nat.div_lt_of_lt_mul (by rwa [mul_comm] at hn)) hhigh
    have hmod := congrArg UInt8.toNat (List.singleton_inj.mp hlow)
    rw [UInt8.toNat_ofNat', UInt8.toNat_ofNat'] at hmod
    omega

theorem beBytes_number (high low : UInt8) : beBytes 2 (number high low) = [high, low] := by
  have hh := high.toNat_lt
  have hl := low.toNat_lt
  have h₁ : number high low % 256 = low.toNat := by
    rw [number]
    omega
  have h₂ : number high low / 256 % 256 = high.toNat := by
    rw [number]
    omega
  simp [beBytes, h₁, h₂]

theorem number_beBytes {n : ℕ} (h : n < 2 ^ 16) :
    number (UInt8.ofNat (n / 256 % 256)) (UInt8.ofNat (n % 256)) = n := by
  simp only [number, UInt8.toNat_ofNat']
  omega

theorem number_lt (high low : UInt8) : number high low < 2 ^ 16 := by
  have hh := high.toNat_lt
  have hl := low.toNat_lt
  rw [number]
  omega

end Domoticz
