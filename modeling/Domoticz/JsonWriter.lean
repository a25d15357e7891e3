import Domoticz.CLib.General
import Domoticz.JsonSpelling
import Mathlib.Data.Bool.AllAny

/-!
# Writing JSON

`Json::FastWriter` in `json_writer.cpp`, and the reader on what it writes.  A value has no comments
here; `FastWriter` writes none.

## Main definitions

* `valueToQuotedStringN`, `valueToString` — strings and numbers.
* `FastWriter`, `writeValue`, `write` — values.
* `Writable` — a value that can be written and read again.
* `canonical` — the value with the integer types that the reader chooses.

## Main results

* `spells_writeValue` — what is written is a text of the grammar.
* `parse_write` — what is written is read as the same value.
-/

namespace Domoticz.JsonWriter

open CLib JsonReader Text

/-! ### Scalars -/

/-- `uintToString`: the digits of a number in front of what is there. -/
def uintToString (value : ℕ) (current : Bytes) : Bytes :=
  let current := UInt8.ofNat (value % 10 + 48) :: current
  if value / 10 = 0 then current else uintToString (value / 10) current

/-- `valueToString(LargestInt)`. -/
def valueToString (value : ℤ) : Bytes :=
  if value = -2 ^ 63 then chr '-' :: uintToString (2 ^ 63 - 1 + 1) []
  else if value < 0 then chr '-' :: uintToString (-value).toNat []
  else uintToString value.toNat []

/-- `valueToString(LargestUInt)`. -/
def valueToStringUInt (value : ℕ) : Bytes := uintToString value []

/-- `valueToString(double)`. -/
def valueToStringReal (value : UInt64) : Bytes :=
  if Double.isFinite value then
    let buffer := Double.general value
    if chr '.' ∉ buffer ∧ chr 'e' ∉ buffer then buffer ++ str ".0" else buffer
  else
    match Double.unpack value with
    | .infinity .negative => str "-1e+9999"
    | .infinity .positive => str "1e+9999"
    | _ => str "null"

/-- `isControlCharacter`. -/
def isControlCharacter (c : UInt8) : Bool := 0 < c && c ≤ 0x1F

/-- A digit of `std::hex` and `std::uppercase`. -/
def hexDigit (n : ℕ) : UInt8 := if n < 10 then UInt8.ofNat (n + 48) else UInt8.ofNat (n + 55)

/-- What the loop of `valueToQuotedStringN` writes of a byte. -/
def escapeByte (c : UInt8) : Bytes :=
  if c = 0x22 then [0x5C, 0x22]
  else if c = 0x5C then [0x5C, 0x5C]
  else if c = 0x08 then [0x5C, chr 'b']
  else if c = 0x0C then [0x5C, chr 'f']
  else if c = 0x0A then [0x5C, chr 'n']
  else if c = 0x0D then [0x5C, chr 'r']
  else if c = 0x09 then [0x5C, chr 't']
  else if isControlCharacter c ∨ c = 0 then
    [0x5C, chr 'u', chr '0', chr '0', hexDigit (c.toNat / 16), hexDigit (c.toNat % 16)]
  else [c]

/-- The bytes that the search in `valueToQuotedStringN` stops at. -/
def needsEscape (c : UInt8) : Bool :=
  [0x22, 0x5C, 0x08, 0x0C, 0x0A, 0x0D, 0x09].contains c || isControlCharacter c || c == 0

/-- `valueToQuotedStringN`. -/
def valueToQuotedStringN (value : Bytes) : Bytes :=
  if value.any needsEscape then 0x22 :: (value.flatMap escapeByte ++ [0x22])
  else 0x22 :: (value ++ [0x22])

/-! ### Values -/

/-- The settings of a writer. -/
structure FastWriter where
  yamlCompatiblityEnabled : Bool := false
  dropNullPlaceholders : Bool := false
  omitEndingLineFeed : Bool := false

namespace FastWriter

variable (w : FastWriter)

mutual

/-- `FastWriter::writeValue`. -/
def writeValue : Value → Bytes
  | .null => if w.dropNullPlaceholders then [] else str "null"
  | .int value => valueToString value
  | .uint value => valueToStringUInt value
  | .real value => valueToStringReal value
  | .string value => valueToQuotedStringN value
  | .bool value => if value then str "true" else str "false"
  | .array items => chr '[' :: (writeItems true items ++ [chr ']'])
  | .object members => chr '\x7b' :: (writeMembers true members ++ [chr '\x7d'])

/-- The loop over the items; a comma is written in front of each but the first. -/
def writeItems (first : Bool) : List Value → Bytes
  | [] => []
  | value :: items =>
      (if first then [] else [chr ',']) ++ (writeValue value ++ writeItems false items)

/-- The loop over the members. -/
def writeMembers (first : Bool) : List (Bytes × Value) → Bytes
  | [] => []
  | (name, value) :: members =>
      (if first then [] else [chr ',']) ++ (valueToQuotedStringN name ++
        ((if w.yamlCompatiblityEnabled then str ": " else str ":") ++
          (writeValue value ++ writeMembers false members)))

end

/-- `FastWriter::write`. -/
def write (root : Value) : Bytes :=
  w.writeValue root ++ if w.omitEndingLineFeed then [] else [0x0A]

end FastWriter

/-! ### What is read again -/

/-- A value of at most so many levels that can be written and read: its integers have 64 bits,
its doubles are finite, and its members are in the order of their names. -/
def Writable : ℕ → Value → Prop
  | 0, _ => False
  | _ + 1, .int i => -2 ^ 63 ≤ i ∧ i < 2 ^ 63
  | _ + 1, .uint n => n < 2 ^ 64
  | _ + 1, .real d => Double.isFinite d = true
  | levels + 1, .array items => ∀ v ∈ items, Writable levels v
  | levels + 1, .object members =>
      (members.map Prod.fst).Pairwise (· < ·) ∧ ∀ m ∈ members, Writable levels m.2
  | _ + 1, _ => True

mutual

/-- A value with the integer types that the reader chooses. -/
def canonical : Value → Value
  | .int i => if i ≤ 2 ^ 31 - 1 then .int i else .uint i.toNat
  | .uint n => if n ≤ 2 ^ 31 - 1 then .int n else .uint n
  | .array items => .array (canonicalItems items)
  | .object members => .object (canonicalMembers members)
  | v => v

/-- The items of an array as they are read back. -/
def canonicalItems : List Value → List Value
  | [] => []
  | v :: items => canonical v :: canonicalItems items

/-- The members of an object as they are read back. -/
def canonicalMembers : List (Bytes × Value) → List (Bytes × Value)
  | [] => []
  | (name, v) :: members => (name, canonical v) :: canonicalMembers members

end

/-! ### Strings -/

/-- A byte that is written for itself. -/
theorem escapeByte_of_not {c : UInt8} (h : needsEscape c = false) :
    escapeByte c = [c] ∧ 0x20 ≤ c ∧ c ≠ 0x22 ∧ c ≠ 0x5C := by
  have hall : ∀ n < 256, needsEscape (UInt8.ofNat n) = false →
      escapeByte (UInt8.ofNat n) = [UInt8.ofNat n] ∧ 0x20 ≤ UInt8.ofNat n ∧
        UInt8.ofNat n ≠ 0x22 ∧ UInt8.ofNat n ≠ 0x5C := by decide +kernel
  have hc := hall c.toNat c.toNat_lt
  rw [UInt8.ofNat_toNat] at hc
  exact hc h

/-- A byte that is escaped: by a letter or by its number. -/
theorem escapeByte_of_needs {c : UInt8} (h : needsEscape c = true) :
    (∃ e, escapeByte c = [0x5C, e] ∧ (e, c) ∈ escapes) ∨
      ∃ k : Char, Escaped k (escapeByte c) ∧ String.utf8EncodeChar k = [c] := by
  have hall : ∀ n < 256, needsEscape (UInt8.ofNat n) = true →
      (escapes.any fun e =>
          escapeByte (UInt8.ofNat n) = [0x5C, e.1] ∧ e.2 = UInt8.ofNat n) = true ∨
        (escapeByte (UInt8.ofNat n) = 0x5C :: 0x75 :: (escapeByte (UInt8.ofNat n)).drop 2 ∧
          ((escapeByte (UInt8.ofNat n)).drop 2).length = 4 ∧
          ((escapeByte (UInt8.ofNat n)).drop 2).all (CLib.isDigit 16) = true ∧
          digitsValue 16 ((escapeByte (UInt8.ofNat n)).drop 2) = (Char.ofNat n).toNat ∧
          String.utf8EncodeChar (Char.ofNat n) = [UInt8.ofNat n]) := by decide +kernel
  have hc := hall c.toNat c.toNat_lt
  rw [UInt8.ofNat_toNat] at hc
  rcases hc h with hany | ⟨htext, hlen, hhex, hvalue, hutf⟩
  · obtain ⟨e, he, htext, rfl⟩ := List.any_iff_exists_prop.mp hany
    exact .inl ⟨e.1, htext, he⟩
  · refine .inr ⟨Char.ofNat c.toNat, ?_, hutf⟩
    rw [htext]
    exact .unit ⟨hlen, List.all_eq_true.mp hhex, hvalue⟩

/-- What is written between the quotes of a string. -/
theorem quoted_flatMap (value : Bytes) : Quoted (value.flatMap escapeByte) value := by
  induction value with
  | nil => exact .nil
  | cons c value ih =>
    rw [List.flatMap_cons]
    cases hc : needsEscape c with
    | false =>
      obtain ⟨htext, hle, hquote, hbackslash⟩ := escapeByte_of_not hc
      rw [htext]
      exact .plain hle hquote hbackslash ih
    | true =>
      rcases escapeByte_of_needs hc with ⟨e, htext, he⟩ | ⟨k, htext, hutf⟩
      · rw [htext]
        exact .letter he ih
      · have hchar := Quoted.char htext ih
        rwa [hutf] at hchar

/-- The two ways of `valueToQuotedStringN` write the same. -/
theorem valueToQuotedStringN_eq (value : Bytes) :
    valueToQuotedStringN value = quoted (value.flatMap escapeByte) := by
  unfold valueToQuotedStringN
  split
  · rfl
  · next h =>
    rw [Bool.not_eq_true, List.any_eq_false] at h
    have hself : value.flatMap escapeByte = value.flatMap fun c => [c] := by
      refine List.flatMap_congr fun c hc => ?_
      exact (escapeByte_of_not (Bool.not_eq_true _ ▸ h c hc)).1
    rw [hself, List.flatMap_singleton']
    rfl

/-! ### Numbers -/

theorem uintToString_eq (value : ℕ) (current : Bytes) :
    uintToString value current = (Nat.toDigits 10 value).map chr ++ current := by
  have hdigit : ∀ d < 10, UInt8.ofNat (d + 48) = chr d.digitChar := by decide
  induction value using Nat.strong_induction_on generalizing current with
  | _ value ih =>
    rw [uintToString]
    split
    · next h =>
      have hlt : value < 10 := by omega
      rw [Nat.toDigits_of_lt_base hlt, Nat.mod_eq_of_lt hlt, hdigit value hlt]
      rfl
    · next h =>
      have hdigits : Nat.toDigits 10 value =
          Nat.toDigits 10 (value / 10) ++ [(value % 10).digitChar] :=
        Nat.toDigits_of_base_le (by decide) (by omega)
      rw [ih _ (by omega), hdigit _ (Nat.mod_lt _ (by decide)), hdigits, List.map_append,
        List.append_assoc]
      rfl

theorem valueToString_eq (value : ℤ) : valueToString value = decimal value := by
  have hnat (n : ℕ) : uintToString n [] = (Nat.toDigits 10 n).map chr := by
    rw [uintToString_eq, List.append_nil]
  unfold valueToString
  split
  · next h =>
    subst h
    rw [hnat]
    rfl
  · cases value with
    | ofNat n =>
      rw [if_neg (by simp), hnat]
      rfl
    | negSucc n =>
      rw [if_pos (Int.negSucc_lt_zero n), hnat]
      rfl

/-- The text of an integer. -/
def integerText (negative : Bool) (n : ℕ) : NumberText where
  negative := negative
  whole := (Nat.toDigits 10 n).map chr
  fraction := []
  exponent := []
  isWhole := numeral_toDigits n
  isFraction := .none
  isExponent := .none

theorem value_integerText {negative : Bool} {n : ℕ}
    (h : n ≤ if negative then 2 ^ 63 else 2 ^ 64 - 1) : (integerText negative n).value =
      some (if negative then .int (-n) else if n ≤ 2 ^ 31 - 1 then .int n else .uint n) := by
  have hn : digitsValue 10 (integerText negative n).whole = n := digitsValue_toDigits n
  have hinteger : (integerText negative n).isInteger := ⟨rfl, rfl, hn.trans_le h⟩
  rw [NumberText.value, if_pos hinteger, hn]
  rfl

theorem spells_int (levels : ℕ) {i : ℤ} (h : -2 ^ 63 ≤ i ∧ i < 2 ^ 63) :
    Spells (levels + 1) (.value (canonical (.int i))) (valueToString i) := by
  rw [valueToString_eq]
  cases i with
  | ofNat n =>
    have hbytes : (integerText false n).bytes = decimal (.ofNat n) :=
      (List.append_nil _).trans rfl
    rw [← hbytes]
    refine .number _ ?_
    have hlt : n < 2 ^ 63 := Int.ofNat_lt.mp h.2
    have hlimit : n ≤ 2 ^ 64 - 1 := by omega
    rw [value_integerText hlimit, canonical]
    simp only [Bool.false_eq_true, if_false, Int.ofNat_eq_natCast]
    by_cases hle : n ≤ 2 ^ 31 - 1
    · rw [if_pos hle, if_pos (by omega)]
    · rw [if_neg hle, if_neg (by omega)]
      rfl
  | negSucc n =>
    have hbytes : (integerText true (n + 1)).bytes = decimal (.negSucc n) :=
      congrArg (chr '-' :: ·) (List.append_nil _)
    rw [← hbytes]
    refine .number _ ?_
    have hle : n + 1 ≤ 2 ^ 63 := by
      have hlow := h.1
      rw [Int.negSucc_eq] at hlow
      omega
    have hneg : Int.negSucc n ≤ 2 ^ 31 - 1 := by
      rw [Int.negSucc_eq]
      omega
    rw [value_integerText hle, canonical, if_pos hneg]
    rfl

theorem spells_uint (levels : ℕ) {n : ℕ} (h : n < 2 ^ 64) :
    Spells (levels + 1) (.value (canonical (.uint n))) (valueToStringUInt n) := by
  have hbytes : (integerText false n).bytes = valueToStringUInt n := by
    rw [valueToStringUInt, uintToString_eq]
    exact congrArg (_ ++ ·) rfl
  rw [← hbytes]
  refine .number _ ?_
  have hlimit : n ≤ 2 ^ 64 - 1 := by omega
  rw [value_integerText hlimit, canonical]
  rfl

/-- The text of a number that `%g` writes. -/
def numberText (negative : Bool) (t : Double.Decimal) : NumberText where
  negative := negative
  whole := t.whole
  fraction := Double.point t.fraction
  exponent := t.exponentBytes
  isWhole := t.isWhole
  isFraction := by
    unfold Double.point
    split
    · exact .none
    · next hne => exact .digits ⟨hne, t.isFraction⟩
  isExponent := by
    unfold Double.Decimal.exponentBytes
    split
    · exact .none
    · next x _ =>
      obtain ⟨sign, ds, hx, hsign, hds⟩ := Double.exists_exponentText x
      rw [hx]
      have hmem : [sign] ∈ [[], [chr '+'], [chr '-']] := by rcases hsign with rfl | rfl <;> decide
      exact .digits (.inl rfl) hmem hds

theorem bytes_numberText (negative : Bool) (t : Double.Decimal) :
    (numberText negative t).bytes = (if negative then [chr '-'] else []) ++ t.bytes := by
  cases negative <;> rfl

/-- A whole number with a fraction of zero. -/
def withZero (t : Double.Decimal) : Double.Decimal :=
  { t with fraction := str "0", isFraction := rfl }

theorem value_withZero {t : Double.Decimal} (h : t.fraction = []) :
    (withZero t).value = t.value := by
  have hmantissa : (withZero t).mantissa = t.mantissa * 10 := by
    have hconcat := digitsValue_concat 10 t.whole (chr '0')
    rw [Double.Decimal.mantissa, Double.Decimal.mantissa, h, List.append_nil]
    exact hconcat
  have hpower : (withZero t).power = t.power - 1 := by
    rw [Double.Decimal.power, Double.Decimal.power, h]
    show t.exponent.getD 0 - 1 = t.exponent.getD 0 - 0 - 1
    omega
  rw [Double.Decimal.value, Double.Decimal.value, hmantissa, hpower, zpow_sub_one₀ (by norm_num)]
  push_cast
  field_simp

/-- The text of a finite double is that of a number with a fraction or an exponent, and it is read
as this double. -/
theorem exists_realText {d : UInt64} (h : Double.isFinite d = true) : ∃ n : NumberText,
    n.bytes = valueToStringReal d ∧ ¬ (n.fraction = [] ∧ n.exponent = []) ∧
      Double.readDouble n.bytes = some d := by
  obtain ⟨negative, t, hgeneral, hread⟩ := Double.exists_general h
  -- the digits hold no point and no exponent
  have hdigit {b : UInt8} (hb : CLib.isDigit 10 b = false) : b ∉ t.whole := fun hmem => by
    rw [List.all_eq_true.mp t.isWhole.2 b hmem] at hb
    cases hb
  have hnumber := bytes_numberText negative
  have hminus : chr '.' ∉ (if negative then [chr '-'] else []) ∧
      chr 'e' ∉ (if negative then [chr '-'] else []) := by cases negative <;> decide
  rw [valueToStringReal, if_pos h]
  generalize (if negative then [chr '-'] else []) = sign at hgeneral hread hnumber hminus
  rw [hgeneral]
  simp only
  by_cases hplain : t.fraction = [] ∧ t.exponent = none
  · -- a whole number is written with a fraction of zero
    have hbytes : t.bytes = t.whole := by
      rw [Double.Decimal.bytes, Double.Decimal.exponentBytes, hplain.1, hplain.2]
      exact List.append_nil _
    have hbytes' : (withZero t).bytes = t.whole ++ str ".0" := by
      show t.whole ++ (str ".0" ++ t.exponentBytes) = _
      rw [Double.Decimal.exponentBytes, hplain.2, List.append_nil]
    refine ⟨numberText negative (withZero t), ?_, fun h => List.cons_ne_nil _ _ h.1, ?_⟩
    · have hpoint : chr '.' ∉ t.whole := hdigit rfl
      have he : chr 'e' ∉ t.whole := hdigit rfl
      rw [hnumber, hbytes, hbytes', if_pos, List.append_assoc]
      simp [hpoint, he, hminus]
    · rw [hnumber]
      exact hread _ (value_withZero hplain.1)
  · -- a point or an exponent is there already, and nothing is added
    refine ⟨numberText negative t, ?_, ?_, ?_⟩
    · rw [hnumber, if_neg]
      rintro ⟨hpoint, he⟩
      simp only [Double.Decimal.bytes, List.mem_append, not_or] at hpoint he
      apply hplain
      constructor
      · by_contra hne
        refine hpoint.2.2.1 ?_
        rw [Double.point, if_neg hne]
        exact List.mem_cons_self
      · cases hx : t.exponent with
        | none => rfl
        | some x =>
          refine absurd ?_ he.2.2.2
          rw [Double.Decimal.exponentBytes, hx]
          exact List.mem_cons_self
    · rintro ⟨hf, he⟩
      apply hplain
      constructor
      · by_contra hne
        have hf' : Double.point t.fraction = [] := hf
        rw [Double.point, if_neg hne] at hf'
        cases hf'
      · cases hx : t.exponent with
        | none => rfl
        | some x =>
          have he' : t.exponentBytes = [] := he
          rw [Double.Decimal.exponentBytes, hx] at he'
          cases he'
    · rw [hnumber]
      exact hread t rfl

theorem spells_real (levels : ℕ) {d : UInt64} (h : Double.isFinite d = true) :
    Spells (levels + 1) (.value (.real d)) (valueToStringReal d) := by
  obtain ⟨n, hn, hparts, hread⟩ := exists_realText h
  rw [← hn]
  refine .number n ?_
  rw [NumberText.value, if_neg fun hinteger => hparts ⟨hinteger.1, hinteger.2.1⟩, hread]
  rfl

/-! ### Values -/

theorem isSpace_nil : IsSpace [] := fun _ hb => absurd hb List.not_mem_nil

theorem isSpace_blank : IsSpace [0x20] := by
  intro b hb
  rw [List.mem_singleton.mp hb]
  rfl

theorem canonicalItems_eq (items : List Value) : canonicalItems items = items.map canonical := by
  induction items with
  | nil => rfl
  | cons v items ih => rw [canonicalItems, ih]; rfl

theorem canonicalMembers_eq (members : List (Bytes × Value)) :
    canonicalMembers members = members.map fun m => (m.1, canonical m.2) := by
  induction members with
  | nil => rfl
  | cons m members ih => rw [canonicalMembers, ih]; rfl

/-- A name behind all others. -/
theorem setMember_last {name : Bytes} {v : Value} {members : List (Bytes × Value)}
    (h : ∀ m ∈ members, m.1 < name) : setMember name v members = members ++ [(name, v)] := by
  induction members with
  | nil => rfl
  | cons m members ih =>
    obtain ⟨hlt, hmembers⟩ := List.forall_mem_cons.mp h
    have hne : name ≠ m.1 := by
      rintro rfl
      exact List.lt_irrefl _ hlt
    rw [setMember, if_neg hne, if_neg (List.lt_asymm hlt), ih hmembers]
    rfl

/-- Members in the order of their names stay as they are. -/
theorem collect_of_pairwise {members ms : List (Bytes × Value)}
    (h : ((members ++ ms).map Prod.fst).Pairwise (· < ·)) : collect members ms = members ++ ms := by
  induction ms generalizing members with
  | nil => rw [List.append_nil]; rfl
  | cons m ms ih =>
    have hlast : ∀ m' ∈ members, m'.1 < m.1 := by
      rw [List.map_append, List.pairwise_append] at h
      intro m' hm'
      exact h.2.2 _ (List.mem_map_of_mem hm') _ List.mem_cons_self
    have happend : members ++ m :: ms = members ++ [m] ++ ms := by simp
    rw [happend] at h ⊢
    rw [← ih h, collect, collect, List.foldl_cons, setMember_last hlast]

namespace FastWriter

variable {w : FastWriter}

theorem writeItems_false (items : List Value) (hne : items ≠ []) :
    w.writeItems false items = chr ',' :: w.writeItems true items := by
  cases items with
  | nil => exact absurd rfl hne
  | cons v items => rfl

theorem writeMembers_false (members : List (Bytes × Value)) (hne : members ≠ []) :
    w.writeMembers false members = chr ',' :: w.writeMembers true members := by
  cases members with
  | nil => exact absurd rfl hne
  | cons m members => rfl

section

variable {levels : ℕ}

/-- The items with commas between them; the induction is on the items. -/
theorem spells_items {items : List Value}
    (h : ∀ v ∈ items, Spells levels (.value (canonical v)) (w.writeValue v)) (hne : items ≠ []) :
    Spells levels (.items (canonicalItems items)) (w.writeItems true items) := by
  induction items with
  | nil => exact absurd rfl hne
  | cons v items ih =>
    obtain ⟨hv, hitems⟩ := List.forall_mem_cons.mp h
    cases items with
    | nil => exact .item isSpace_nil hv isSpace_nil
    | cons v' items =>
      have hrest := ih hitems (List.cons_ne_nil v' items)
      rw [writeItems, writeItems_false _ (List.cons_ne_nil v' items), canonicalItems]
      exact .items isSpace_nil hv isSpace_nil hrest

/-- What stands behind the name of a member. -/
theorem exists_colon : ∃ ws, IsSpace ws ∧
    (if w.yamlCompatiblityEnabled then str ": " else str ":") = chr ':' :: ws := by
  cases w.yamlCompatiblityEnabled with
  | true => exact ⟨[0x20], isSpace_blank, rfl⟩
  | false => exact ⟨[], isSpace_nil, rfl⟩

theorem spells_members {members : List (Bytes × Value)}
    (h : ∀ m ∈ members, Spells levels (.value (canonical m.2)) (w.writeValue m.2))
    (hne : members ≠ []) :
    Spells levels (.members (canonicalMembers members)) (w.writeMembers true members) := by
  obtain ⟨ws, hws, hcolon⟩ := @exists_colon w
  induction members with
  | nil => exact absurd rfl hne
  | cons m members ih =>
    obtain ⟨name, v⟩ := m
    obtain ⟨hv, hmembers⟩ := List.forall_mem_cons.mp h
    have hname := quoted_flatMap name
    rw [writeMembers, hcolon, valueToQuotedStringN_eq, canonicalMembers]
    cases members with
    | nil => exact .member isSpace_nil hname isSpace_nil hws hv isSpace_nil
    | cons m members =>
      have hrest := ih hmembers (List.cons_ne_nil m members)
      rw [writeMembers_false _ (List.cons_ne_nil m members)]
      exact .members isSpace_nil hname isSpace_nil hws hv isSpace_nil hrest

end

/-- What is written is a text of the grammar; the induction is on the levels. -/
theorem spells_writeValue (hnull : w.dropNullPlaceholders = false) {levels : ℕ} {v : Value}
    (h : Writable levels v) : Spells levels (.value (canonical v)) (w.writeValue v) := by
  induction levels generalizing v with
  | zero => exact absurd h id
  | succ levels ih =>
    cases v with
    | null =>
      rw [writeValue, hnull]
      exact .null
    | int i => exact spells_int levels h
    | uint n => exact spells_uint levels h
    | real d => exact spells_real levels h
    | string s =>
      rw [writeValue, valueToQuotedStringN_eq]
      exact .string (quoted_flatMap s)
    | bool b =>
      rw [writeValue]
      exact .bool b
    | array items =>
      rw [writeValue, canonical]
      by_cases hne : items = []
      · subst hne
        exact .emptyArray isSpace_nil
      · exact .array (spells_items (fun v hv => ih (h v hv)) hne)
    | object members =>
      rw [writeValue, canonical]
      by_cases hne : members = []
      · subst hne
        exact .emptyObject isSpace_nil
      · have hnames : ((canonicalMembers members).map Prod.fst).Pairwise (· < ·) := by
          rw [canonicalMembers_eq, List.map_map]
          exact h.1
        have hobject := Spells.object (spells_members (w := w) (fun m hm => ih (h.2 m hm)) hne)
        rwa [@collect_of_pairwise [] _ hnames] at hobject

/-- **What is written is read as the same value**, up to the types of its integers. -/
theorem parse_write (hnull : w.dropNullPlaceholders = false) {v : Value}
    (h : Writable stackLimit v) : parse (w.write v) = .ok (canonical v) := by
  have hend : Stops (if w.omitEndingLineFeed then [] else [0x0A]) := by
    cases w.omitEndingLineFeed with
    | true => exact fun c hc => absurd hc (by simp)
    | false =>
      intro c hc
      obtain rfl := Option.some.inj hc
      exact ⟨rfl, by decide, by decide, by decide⟩
  exact @parse_of_spells _ _ [] _ (spells_writeValue hnull h) isSpace_nil hend

end FastWriter

end Domoticz.JsonWriter
