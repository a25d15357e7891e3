import Domoticz.JsonOutcome
import Domoticz.JsonWorth
import Mathlib.Data.Bool.AllAny

/-!
# The documents of a value

The texts of the JSON grammar, each with what it denotes: a string its bytes, the escapes of
characters beyond ASCII their UTF-8, a number without fraction and exponent an integer of 64
bits if there is one, every other number the nearest double.  The reader takes each of these
texts for what it denotes.

## Main definitions

* `Quoted` — what may stand between the quotes of a string.
* `NumberText` — the texts of numbers.
* `Spells` — values, items and members, with the levels that they may be nested.

## Main results

* `decodeString_quoted`, `decodeNumber_bytes` — strings and numbers.
* `parse_of_spells` — **a document is read as the value it denotes.**
-/

namespace Domoticz.JsonReader

open CLib Text

/-! ### Characters -/

/-- Four hexadecimal digits of a code unit. -/
structure CodeUnit (digits : Bytes) (unit : ℕ) : Prop where
  length_eq : digits.length = 4
  hex : ∀ b ∈ digits, CLib.isDigit 16 b = true
  value_eq : digitsValue 16 digits = unit

/-- A character by its code units in UTF-16. -/
inductive Escaped (c : Char) : Bytes → Prop
  | unit {digits : Bytes} : CodeUnit digits c.toNat → Escaped c (0x5C :: 0x75 :: digits)
  | pair {high low : Bytes} : CodeUnit high (0xD800 + (c.toNat - 0x10000) / 0x400) →
      CodeUnit low (0xDC00 + (c.toNat - 0x10000) % 0x400) → 0x10000 ≤ c.toNat →
      Escaped c (0x5C :: 0x75 :: high ++ 0x5C :: 0x75 :: low)

/-- What may stand between the quotes of a string, and the string. -/
inductive Quoted : Bytes → Bytes → Prop
  | nil : Quoted [] []
  | plain {b : UInt8} {raw s : Bytes} : 0x20 ≤ b → b ≠ 0x22 → b ≠ 0x5C → Quoted raw s →
      Quoted (b :: raw) (b :: s)
  /-- A backslash and a letter. -/
  | letter {e b : UInt8} {raw s : Bytes} : (e, b) ∈ escapes → Quoted raw s →
      Quoted (0x5C :: e :: raw) (b :: s)
  | char {c : Char} {text raw s : Bytes} : Escaped c text → Quoted raw s →
      Quoted (text ++ raw) (String.utf8EncodeChar c ++ s)

theorem CodeUnit.exists_digits {digits : Bytes} {unit : ℕ} (h : CodeUnit digits unit) :
    ∃ a b c d, digits = [a, b, c, d] ∧ ∀ s,
      decodeUnicodeEscapeSequence (digits ++ s) = some (unit, s) := by
  obtain ⟨hlen, hhex, hvalue⟩ := h
  match digits, hlen with
  | [a, b, c, d], _ =>
    refine ⟨a, b, c, d, rfl, fun s => ?_⟩
    simp only [List.forall_mem_cons] at hhex
    obtain ⟨ha, hb, hc, hd, -⟩ := hhex
    show (if _ then some (digitsValue 16 [a, b, c, d], s) else none) = _
    rw [if_pos ⟨ha, hb, hc, hd⟩, hvalue]

theorem toNat_char_lt (c : Char) : c.toNat < 0xD800 ∨ 0xDFFF < c.toNat ∧ c.toNat < 0x110000 :=
  c.valid

/-- The encoding of a character. -/
theorem codePointToUTF8_eq (c : Char) : codePointToUTF8 c.toNat = String.utf8EncodeChar c := by
  have hbits (k a n : ℕ) : 2 ^ k * a ||| ((2 ^ k - 1) &&& n) = n % 2 ^ k + 2 ^ k * a := by
    rw [Nat.and_comm, Nat.and_two_pow_sub_one_eq_mod, Nat.add_comm,
      Nat.two_pow_add_eq_or_of_lt (Nat.mod_lt _ (Nat.two_pow_pos k))]
  have htail (n : ℕ) : 0x80 ||| (0x3F &&& n) = n % 0x40 + 0x80 := hbits 6 2 n
  have hlead₂ (n : ℕ) : 0xC0 ||| (0x1F &&& n) = n % 0x20 + 0xC0 := hbits 5 6 n
  have hlead₃ (n : ℕ) : 0xE0 ||| (0xF &&& n) = n % 0x10 + 0xE0 := hbits 4 14 n
  have hlead₄ (n : ℕ) : 0xF0 ||| (0x7 &&& n) = n % 0x08 + 0xF0 := hbits 3 30 n
  have hlt : c.val.toNat < 0xD800 ∨ 0xDFFF < c.val.toNat ∧ c.val.toNat < 0x110000 := c.valid
  show codePointToUTF8 c.val.toNat = _
  unfold codePointToUTF8 String.utf8EncodeChar
  simp only [htail, hlead₂, hlead₃, hlead₄, Nat.shiftRight_eq_div_pow]
  split_ifs
  · rfl
  · rfl
  · rfl
  · rfl
  · omega

/-- The two code units of a character. -/
theorem surrogates_eq {n : ℕ} (hn : 0x10000 ≤ n) (hlt : n < 0x110000) :
    0x10000 + (((0xD800 + (n - 0x10000) / 0x400) &&& 0x3FF) <<< 10) +
      ((0xDC00 + (n - 0x10000) % 0x400) &&& 0x3FF) = n := by
  have hand (m : ℕ) : m &&& 0x3FF = m % 2 ^ 10 := Nat.and_two_pow_sub_one_eq_mod m 10
  rw [hand, hand, Nat.shiftLeft_eq]
  omega

/-- A character that is escaped is read, and the rest behind it. -/
theorem decodeUnicodeCodePoint_of_escaped {c : Char} {text : Bytes} (h : Escaped c text) (s : Bytes) :
    decodeUnicodeCodePoint (text.drop 2 ++ s) = some (c.toNat, s) := by
  have hchar := toNat_char_lt c
  cases h with
  | unit hunit =>
    obtain ⟨-, -, -, -, -, hread⟩ := hunit.exists_digits
    rw [List.drop_succ_cons, List.drop_succ_cons, List.drop_zero, decodeUnicodeCodePoint, hread]
    dsimp only
    rw [if_neg (by omega)]
  | pair hhigh hlow hc =>
    obtain ⟨-, -, -, -, -, hread⟩ := hhigh.exists_digits
    obtain ⟨-, -, -, -, -, hread'⟩ := hlow.exists_digits
    rw [List.cons_append, List.cons_append, List.drop_succ_cons, List.drop_succ_cons,
      List.drop_zero, List.append_assoc, decodeUnicodeCodePoint, hread]
    dsimp only [List.cons_append]
    rw [if_pos (by omega)]
    show Option.map _ (decodeUnicodeEscapeSequence (_ ++ s)) = _
    rw [hread', Option.map_some, surrogates_eq hc (by omega)]

/-! ### Strings -/

/-- A string ends with the quote behind it. -/
theorem readString_quoted {raw s : Bytes} (h : Quoted raw s) (t : Bytes) :
    readString (raw ++ 0x22 :: t) = some (raw, t) := by
  have hstep {b : UInt8} {u : Bytes} (hq : b ≠ 0x22) (hb : b ≠ 0x5C)
      (hu : readString (u ++ 0x22 :: t) = some (u, t)) :
      readString (b :: u ++ 0x22 :: t) = some (b :: u, t) := by
    obtain ⟨d, w, hw⟩ : ∃ d w, u ++ 0x22 :: t = d :: w := by
      cases u with
      | nil => exact ⟨_, _, rfl⟩
      | cons d u => exact ⟨_, _, rfl⟩
    rw [List.cons_append, hw, readString, if_neg hb, if_neg hq, ← hw, hu]
    rfl
  have hescape (e : UInt8) {u : Bytes} (hu : readString (u ++ 0x22 :: t) = some (u, t)) :
      readString (0x5C :: e :: u ++ 0x22 :: t) = some (0x5C :: e :: u, t) := by
    rw [List.cons_append, List.cons_append, readString, if_pos rfl, hu]
    rfl
  have hdigits {digits u : Bytes} {unit : ℕ} (hunit : CodeUnit digits unit)
      (hu : readString (u ++ 0x22 :: t) = some (u, t)) :
      readString (digits ++ u ++ 0x22 :: t) = some (digits ++ u, t) := by
    have hplain {b : UInt8} (hb : CLib.isDigit 16 b = true) : b ≠ 0x22 ∧ b ≠ 0x5C := by
      constructor <;> (rintro rfl; exact absurd hb (by decide))
    obtain ⟨a, b, c, d, rfl, -⟩ := hunit.exists_digits
    have hall := hunit.hex
    simp only [List.forall_mem_cons] at hall
    obtain ⟨ha, hb, hc, hd, -⟩ := hall
    exact hstep (hplain ha).1 (hplain ha).2 (hstep (hplain hb).1 (hplain hb).2
      (hstep (hplain hc).1 (hplain hc).2 (hstep (hplain hd).1 (hplain hd).2 hu)))
  induction h with
  | nil => cases t <;> rfl
  | plain _ hq hb _ ih => exact hstep hq hb ih
  | letter _ _ ih => exact hescape _ ih
  | char htext _ ih =>
    cases htext with
    | unit hunit => exact hescape _ (hdigits hunit ih)
    | pair hhigh hlow _ =>
      have hsecond := hescape 0x75 (hdigits hlow ih)
      have hfirst := hescape 0x75 (hdigits hhigh hsecond)
      simpa only [List.append_assoc, List.cons_append] using hfirst

theorem lookup_escapes {e b : UInt8} (h : (e, b) ∈ escapes) : escapes.lookup e = some b := by
  have hall : ∀ p ∈ escapes, escapes.lookup p.1 = some p.2 :=
    List.all_iff_forall_prop.mp (by decide)
  exact hall _ h

/-- What stands between the quotes is read as the string. -/
theorem decodeString_quoted {raw s : Bytes} (h : Quoted raw s) : decodeString raw = some s := by
  induction h with
  | nil => rw [decodeString]
  | plain _ hq hb _ ih =>
    unfold decodeString
    simp only [hq, hb, if_false, ih, Option.map_some]
  | letter he _ ih => rw [decodeString_escape, lookup_escapes he, ih]; rfl
  | @char c text raw s htext _ ih =>
    obtain ⟨u, rfl⟩ : ∃ u, text = 0x5C :: 0x75 :: u := by
      cases htext with
      | unit _ => exact ⟨_, rfl⟩
      | pair _ _ _ => exact ⟨_, rfl⟩
    have hread := decodeUnicodeCodePoint_of_escaped htext raw
    rw [List.drop_succ_cons, List.drop_succ_cons, List.drop_zero] at hread
    have hnone : escapes.lookup 0x75 = none := rfl
    rw [List.cons_append, List.cons_append, decodeString_escape, hnone]
    show (decodeUnicodeCodePoint (u ++ raw)).bind _ = _
    rw [hread, Option.bind_some, ih, codePointToUTF8_eq]
    rfl

/-- The token of a string. -/
theorem tokenOf_quoted {raw s : Bytes} (h : Quoted raw s) (t : Bytes) :
    tokenOf 0x22 (raw ++ 0x22 :: t) = (.string raw, t) := by
  have hlookup : punctuation.lookup 0x22 = none := rfl
  unfold tokenOf
  rw [hlookup]
  simp only [if_true, readString_quoted h]

/-! ### Numbers -/

/-- A text in front of which every number ends. -/
def Stops (s : Bytes) : Prop :=
  ∀ c ∈ s.head?, isDigit c = false ∧ c ≠ chr '.' ∧ c ≠ chr 'e' ∧ c ≠ chr 'E'

/-- Nothing, or a point and digits. -/
inductive Fraction : Bytes → Prop
  | none : Fraction []
  | digits {ds : Bytes} : Numeral ds → Fraction (chr '.' :: ds)

/-- Nothing, or an exponent. -/
inductive Exponent : Bytes → Prop
  | none : Exponent []
  | digits {e : UInt8} {sign ds : Bytes} : e = chr 'e' ∨ e = chr 'E' →
      sign ∈ [[], [chr '+'], [chr '-']] → Numeral ds → Exponent (e :: (sign ++ ds))

/-- The text of a number, by its parts. -/
structure NumberText where
  negative : Bool
  whole : Bytes
  fraction : Bytes
  exponent : Bytes
  isWhole : Numeral whole
  isFraction : Fraction fraction
  isExponent : Exponent exponent

namespace NumberText

/-- What is behind the sign. -/
def unsigned (n : NumberText) : Bytes := n.whole ++ (n.fraction ++ n.exponent)

/-- The number as it is spelled. -/
def bytes (n : NumberText) : Bytes := if n.negative then chr '-' :: n.unsigned else n.unsigned

/-- The greatest integer of that sign. -/
def limit (n : NumberText) : ℕ := if n.negative then 2 ^ 63 else 2 ^ 64 - 1

/-- Whether the number is an integer of 64 bits. -/
def isInteger (n : NumberText) : Prop :=
  n.fraction = [] ∧ n.exponent = [] ∧ digitsValue 10 n.whole ≤ n.limit

instance (n : NumberText) : Decidable n.isInteger := inferInstanceAs (Decidable (_ ∧ _ ∧ _))

/-- What the text denotes, if it is not too large. -/
def value (n : NumberText) : Option Value :=
  if n.isInteger then
    let i := digitsValue 10 n.whole
    some (if n.negative then .int (-i) else if i ≤ 2 ^ 31 - 1 then .int i else .uint i)
  else (Double.readDouble n.bytes).map .real

end NumberText

theorem Stops.dropWhile {ds t : Bytes} (hds : ds.all isDigit = true)
    (ht : ∀ c ∈ t.head?, isDigit c = false) : (ds ++ t).dropWhile isDigit = t := by
  rw [List.dropWhile_append_of_pos (List.all_eq_true.mp hds)]
  cases t with
  | nil => rfl
  | cons c t => exact List.dropWhile_cons_of_neg (by rw [ht c rfl]; exact Bool.false_ne_true)

theorem readExponent_append {exponent rest : Bytes} (h : Exponent exponent) (hrest : Stops rest) :
    readExponent (exponent ++ rest) = rest := by
  have hstop : ∀ c ∈ rest.head?, isDigit c = false := fun c hc => (hrest c hc).1
  cases h with
  | none =>
    cases rest with
    | nil => rfl
    | cons c rest =>
      obtain ⟨-, -, he, hE⟩ := hrest c rfl
      exact if_neg (not_or.mpr ⟨he, hE⟩)
  | @digits e sign ds he hsign hds =>
    have hdrop : (readSign (sign ++ (ds ++ rest))).dropWhile isDigit = rest := by
      simp only [List.mem_cons, List.not_mem_nil, or_false] at hsign
      rcases hsign with rfl | rfl | rfl
      · obtain ⟨b, u, rfl⟩ := List.exists_cons_of_ne_nil hds.1
        have hall := hds.2
        rw [List.all_cons, Bool.and_eq_true] at hall
        have hb : ¬ (b = chr '+' ∨ b = chr '-') := by
          rintro (rfl | rfl) <;> exact absurd hall.1 (by decide)
        rw [List.nil_append, List.cons_append, readSign, if_neg hb, ← List.cons_append]
        exact Stops.dropWhile hds.2 hstop
      · exact Stops.dropWhile hds.2 hstop
      · exact Stops.dropWhile hds.2 hstop
    rw [List.cons_append, readExponent, if_pos he, List.append_assoc, hdrop]

/-- The digits behind the first byte of a number, and what may follow them. -/
theorem readNumber_parts {ds fraction exponent rest : Bytes} (hds : ds.all isDigit = true)
    (hfraction : Fraction fraction) (hexponent : Exponent exponent) (hrest : Stops rest) :
    readNumber (ds ++ (fraction ++ exponent) ++ rest) = rest := by
  have hstop : ∀ c ∈ (exponent ++ rest).head?, isDigit c = false ∧ c ≠ chr '.' := by
    cases hexponent with
    | none => exact fun c hc => ⟨(hrest c hc).1, (hrest c hc).2.1⟩
    | digits he _ _ =>
      intro c hc
      obtain rfl := Option.some.inj hc
      rcases he with rfl | rfl <;> exact ⟨rfl, by decide⟩
  rw [readNumber, List.append_assoc, List.append_assoc]
  cases hfraction with
  | none =>
    rw [List.nil_append, Stops.dropWhile hds fun c hc => (hstop c hc).1]
    have hnone : readFraction (exponent ++ rest) = exponent ++ rest := by
      cases h : exponent ++ rest with
      | nil => rfl
      | cons c t =>
        rw [h] at hstop
        exact if_neg (hstop c rfl).2
    rw [hnone, readExponent_append hexponent hrest]
  | @digits fs hfs =>
    have hpoint : ∀ c ∈ (chr '.' :: fs ++ (exponent ++ rest)).head?, isDigit c = false := by
      intro c hc
      obtain rfl := Option.some.inj hc
      rfl
    rw [Stops.dropWhile hds hpoint, List.cons_append, readFraction, if_pos rfl,
      Stops.dropWhile hfs.2 fun c hc => (hstop c hc).1, readExponent_append hexponent hrest]

/-- The token of a number. -/
theorem tokenOf_bytes (n : NumberText) : ∃ c u, n.bytes = c :: u ∧
    (isDigit c = true ∨ c = chr '-') ∧ ∀ rest, Stops rest →
      tokenOf c (u ++ rest) = (.number (c :: u), rest) := by
  obtain ⟨negative, whole, fraction, exponent, hwhole, hfraction, hexponent⟩ := n
  cases negative with
  | true =>
    refine ⟨chr '-', whole ++ (fraction ++ exponent), rfl, .inr rfl, fun rest hrest => ?_⟩
    exact tokenOf_number (.inr rfl) (readNumber_parts hwhole.2 hfraction hexponent hrest)
  | false =>
    obtain ⟨c, w, rfl⟩ := List.exists_cons_of_ne_nil hwhole.1
    have hall := hwhole.2
    rw [List.all_cons, Bool.and_eq_true] at hall
    refine ⟨c, w ++ (fraction ++ exponent), rfl, .inl hall.1, fun rest hrest => ?_⟩
    exact tokenOf_number (.inl hall.1) (readNumber_parts hall.2 hfraction hexponent hrest)

/-! #### What a number denotes -/

/-- A text that is not all digits is no integer. -/
theorem decodeDigits_notDigit {c : UInt8} (hc : isDigit c = false) (maxIntegerValue value : ℕ)
    (ds t : Bytes) : decodeDigits maxIntegerValue value (ds ++ c :: t) = none := by
  induction ds generalizing value with
  | nil => rw [List.nil_append, decodeDigits, hc]; rfl
  | cons d ds ih =>
    rw [List.cons_append, decodeDigits]
    split
    · simp only
      split
      · rfl
      · exact ih _
    · rfl

theorem le_foldl_digits (ds : Bytes) (n : ℕ) :
    n * 10 ^ ds.length ≤ ds.foldl (fun acc b => acc * 10 + (digitValue b).getD 0) n := by
  induction ds generalizing n with
  | nil => simp
  | cons b ds ih =>
    rw [List.length_cons, pow_succ, List.foldl_cons]
    refine le_trans ?_ (ih _)
    calc n * (10 ^ ds.length * 10) = n * 10 * 10 ^ ds.length := by ring
      _ ≤ (n * 10 + (digitValue b).getD 0) * 10 ^ ds.length := Nat.mul_le_mul_right _ (by omega)

theorem digitValue_le {b : UInt8} (h : isDigit b = true) : (digitValue b).getD 0 ≤ 9 := by
  rw [isDigit, CLib.isDigit] at h
  cases hb : digitValue b with
  | none => exact Nat.zero_le _
  | some d =>
    rw [hb] at h
    have hd : d < 10 := by simpa using h
    exact Nat.le_of_lt_succ hd

/-- Digits are read exactly if the number is in range. -/
theorem decodeDigits_eq_ite {maxIntegerValue : ℕ} (hmax : 10 ≤ maxIntegerValue) {ds : Bytes}
    (h : ds.all isDigit = true) {value : ℕ} (hvalue : value ≤ maxIntegerValue) :
    decodeDigits maxIntegerValue value ds =
      if ds.foldl (fun acc b => acc * 10 + (digitValue b).getD 0) value ≤ maxIntegerValue then
        some (ds.foldl (fun acc b => acc * 10 + (digitValue b).getD 0) value)
      else none := by
  induction ds generalizing value with
  | nil => rw [List.foldl_nil, if_pos hvalue]; rfl
  | cons c ds ih =>
    rw [List.all_cons, Bool.and_eq_true] at h
    have hdigit := digitValue_le h.1
    have hgrows := le_foldl_digits ds (value * 10 + (digitValue c).getD 0)
    have hpos : 1 ≤ 10 ^ ds.length := Nat.one_le_pow _ _ (by decide)
    rw [decodeDigits, if_pos h.1, List.foldl_cons]
    simp only
    split
    · next hcond =>
      rw [if_neg]
      obtain ⟨hthreshold, hover | hmore | hlast⟩ := hcond
      · have hle := Nat.le_mul_of_pos_right (value * 10 + (digitValue c).getD 0) hpos
        omega
      · have hten : 10 ^ 1 ≤ 10 ^ ds.length :=
          Nat.pow_le_pow_right (by decide) (List.length_pos_iff.mpr hmore)
        have hle := Nat.mul_le_mul_left (value * 10 + (digitValue c).getD 0) hten
        omega
      · have hle := Nat.le_mul_of_pos_right (value * 10 + (digitValue c).getD 0) hpos
        omega
    · next hcond => exact ih h.2 (by omega)

/-- A fraction or an exponent starts with no digit. -/
theorem NumberText.exists_notDigit (n : NumberText) (h : ¬ (n.fraction = [] ∧ n.exponent = [])) :
    ∃ c t, n.fraction ++ n.exponent = c :: t ∧ isDigit c = false := by
  obtain ⟨negative, whole, fraction, exponent, hwhole, hfraction, hexponent⟩ := n
  cases hfraction with
  | digits _ => exact ⟨_, _, rfl, rfl⟩
  | none =>
    cases hexponent with
    | none => exact absurd ⟨rfl, rfl⟩ h
    | digits he _ _ =>
      refine ⟨_, _, rfl, ?_⟩
      rcases he with rfl | rfl <;> rfl

/-- A number stands for its value. -/
theorem decodeNumber_bytes (n : NumberText) : decodeNumber n.bytes = n.value := by
  have hsign : (decide (n.bytes.head? = some (chr '-'))) = n.negative := by
    unfold NumberText.bytes
    cases n.negative with
    | true => rfl
    | false =>
      obtain ⟨c, w, hw⟩ := List.exists_cons_of_ne_nil n.isWhole.1
      have hall := n.isWhole.2
      rw [hw, List.all_cons, Bool.and_eq_true] at hall
      rw [decide_eq_false_iff_not, NumberText.unsigned, hw]
      intro hhead
      obtain rfl := Option.some.inj hhead
      exact absurd hall.1 (by decide)
  have hdrop : (if n.negative then n.bytes.drop 1 else n.bytes) = n.unsigned := by
    unfold NumberText.bytes
    cases n.negative <;> rfl
  have hlimit : 10 ≤ n.limit := by
    unfold NumberText.limit
    split <;> decide
  unfold decodeNumber
  simp only [hsign, hdrop]
  rw [← NumberText.limit, NumberText.value, NumberText.unsigned]
  by_cases hparts : n.fraction = [] ∧ n.exponent = []
  · rw [hparts.1, hparts.2, List.append_nil, List.append_nil,
      decodeDigits_eq_ite hlimit n.isWhole.2 (Nat.zero_le _), ← digitsValue]
    by_cases hle : digitsValue 10 n.whole ≤ n.limit
    · rw [if_pos hle, if_pos ⟨hparts.1, hparts.2, hle⟩]
      cases n.negative with
      | true => rfl
      | false =>
        simp only [Bool.false_eq_true, if_false]
        split <;> rfl
    · rw [if_neg hle, if_neg fun h => hle h.2.2]
  · obtain ⟨c, t, hct, hc⟩ := n.exists_notDigit hparts
    rw [if_neg fun h => hparts ⟨h.1, h.2.1⟩, hct, decodeDigits_notDigit hc]

/-! ### Values -/

/-- The members of an object; of two members with one name the last one stays. -/
def collect (members : List (Bytes × Value)) (ms : List (Bytes × Value)) : List (Bytes × Value) :=
  ms.foldl (fun members m => setMember m.1 m.2 members) members

/-- What a text of the grammar denotes. -/
inductive Meaning
  | value (v : Value)
  /-- Items with commas between them. -/
  | items (vs : List Value)
  /-- Names with their values, and commas between them. -/
  | members (ms : List (Bytes × Value))

/-- A string with its quotes. -/
def quoted (raw : Bytes) : Bytes := 0x22 :: (raw ++ [0x22])

/-- The texts of the grammar that denote something, of at most so many levels. -/
inductive Spells : ℕ → Meaning → Bytes → Prop
  | null {levels : ℕ} : Spells (levels + 1) (.value .null) (str "null")
  | bool {levels : ℕ} (b : Bool) :
      Spells (levels + 1) (.value (.bool b)) (if b then str "true" else str "false")
  | number {levels : ℕ} (n : NumberText) {v : Value} : n.value = some v →
      Spells (levels + 1) (.value v) n.bytes
  | string {levels : ℕ} {raw s : Bytes} : Quoted raw s →
      Spells (levels + 1) (.value (.string s)) (quoted raw)
  | emptyArray {levels : ℕ} {ws : Bytes} : IsSpace ws →
      Spells (levels + 1) (.value (.array [])) (chr '[' :: (ws ++ [chr ']']))
  | array {levels : ℕ} {vs : List Value} {text : Bytes} : Spells levels (.items vs) text →
      Spells (levels + 1) (.value (.array vs)) (chr '[' :: (text ++ [chr ']']))
  | emptyObject {levels : ℕ} {ws : Bytes} : IsSpace ws →
      Spells (levels + 1) (.value (.object [])) (chr '\x7b' :: (ws ++ [chr '\x7d']))
  | object {levels : ℕ} {ms : List (Bytes × Value)} {text : Bytes} :
      Spells levels (.members ms) text →
      Spells (levels + 1) (.value (.object (collect [] ms))) (chr '\x7b' :: (text ++ [chr '\x7d']))
  | item {levels : ℕ} {v : Value} {ws₁ text ws₂ : Bytes} : IsSpace ws₁ →
      Spells levels (.value v) text → IsSpace ws₂ →
      Spells levels (.items [v]) (ws₁ ++ (text ++ ws₂))
  | items {levels : ℕ} {v : Value} {vs : List Value} {ws₁ text ws₂ texts : Bytes} : IsSpace ws₁ →
      Spells levels (.value v) text → IsSpace ws₂ → Spells levels (.items vs) texts →
      Spells levels (.items (v :: vs)) (ws₁ ++ (text ++ (ws₂ ++ chr ',' :: texts)))
  | member {levels : ℕ} {v : Value} {name raw ws₁ ws₂ ws₃ text ws₄ : Bytes} : IsSpace ws₁ →
      Quoted raw name → IsSpace ws₂ → IsSpace ws₃ → Spells levels (.value v) text → IsSpace ws₄ →
      Spells levels (.members [(name, v)])
        (ws₁ ++ (quoted raw ++ (ws₂ ++ chr ':' :: (ws₃ ++ (text ++ ws₄)))))
  | members {levels : ℕ} {v : Value} {ms : List (Bytes × Value)}
      {name raw ws₁ ws₂ ws₃ text ws₄ texts : Bytes} : IsSpace ws₁ → Quoted raw name →
      IsSpace ws₂ → IsSpace ws₃ → Spells levels (.value v) text → IsSpace ws₄ →
      Spells levels (.members ms) texts →
      Spells levels (.members ((name, v) :: ms))
        (ws₁ ++ (quoted raw ++ (ws₂ ++ chr ':' :: (ws₃ ++ (text ++ (ws₄ ++ chr ',' :: texts))))))

/-- White space may follow the last item or member; the induction is on the derivation. -/
theorem Spells.append_space {levels : ℕ} {m : Meaning} {text : Bytes} (h : Spells levels m text)
    (hm : ∀ v, m ≠ .value v) {ws : Bytes} (hws : IsSpace ws) : Spells levels m (text ++ ws) := by
  induction h with
  | item hws₁ htext hws₂ =>
    rw [List.append_assoc, List.append_assoc]
    exact .item hws₁ htext (List.forall_mem_append.mpr ⟨hws₂, hws⟩)
  | items hws₁ htext hws₂ _ _ ih =>
    simp only [List.append_assoc, List.cons_append]
    exact .items hws₁ htext hws₂ (ih (by simp))
  | member hws₁ hraw hws₂ hws₃ htext hws₄ =>
    simp only [List.append_assoc, List.cons_append]
    exact .member hws₁ hraw hws₂ hws₃ htext (List.forall_mem_append.mpr ⟨hws₄, hws⟩)
  | members hws₁ hraw hws₂ hws₃ htext hws₄ _ _ ih =>
    simp only [List.append_assoc, List.cons_append]
    exact .members hws₁ hraw hws₂ hws₃ htext hws₄ (ih (by simp))
  | _ => exact absurd rfl (hm _)

/-- A text that starts with neither white space nor the end of a list. -/
def Opens (text : Bytes) : Prop := ∃ c t, text = c :: t ∧ isWhitespace c = false ∧ c ≠ chr ']'

theorem Opens.dropWhile {text ws : Bytes} (h : Opens text) (hws : IsSpace ws) (rest : Bytes) :
    (ws ++ (text ++ rest)).dropWhile isWhitespace = text ++ rest := by
  obtain ⟨c, t, rfl, hspace, -⟩ := h
  rw [List.dropWhile_append_of_pos hws]
  exact dropWhile_of_solid hspace _

theorem dropWhile_space {ws t : Bytes} {c : UInt8} (hws : IsSpace ws)
    (hc : isWhitespace c = false) : (ws ++ c :: t).dropWhile isWhitespace = c :: t := by
  rw [List.dropWhile_append_of_pos hws]
  exact dropWhile_of_solid hc t

/-- White space and a comma or a bracket end a number. -/
theorem stops_space {ws t : Bytes} {c : UInt8} (hws : IsSpace ws)
    (hc : c = chr ',' ∨ c = chr ']' ∨ c = chr '\x7d') : Stops (ws ++ c :: t) := by
  intro d hd
  cases ws with
  | nil =>
    obtain rfl := Option.some.inj hd
    rcases hc with rfl | rfl | rfl <;> exact ⟨rfl, by decide, by decide, by decide⟩
  | cons w ws =>
    obtain rfl := Option.some.inj hd
    have hspace := hws w List.mem_cons_self
    simp only [isWhitespace, Bool.or_eq_true, beq_iff_eq] at hspace
    rcases hspace with ((rfl | rfl) | rfl) | rfl <;> exact ⟨rfl, by decide, by decide, by decide⟩

/-- How a text is read. -/
def IsRead (levels : ℕ) : Meaning → Bytes → Prop
  | .value v, text => Opens text ∧ ∀ ws rest, IsSpace ws → Stops rest →
      outcome (readValue levels (ws ++ (text ++ rest))) = some (v, rest)
  | .items vs, text => (∃ ws t, text = ws ++ t ∧ IsSpace ws ∧ Opens t) ∧ ∀ rest,
      outcome (readElements (readValue levels) (text ++ chr ']' :: rest)) = some (vs, rest)
  | .members ms, text => ∀ last members rest,
      outcome (readMembers (readValue levels) last members (text ++ chr '\x7d' :: rest)) =
        some (collect members ms, rest)

/-! #### Tokens -/

/-- A value that is a single token. -/
theorem isRead_of_token {levels : ℕ} {v : Value} {c : UInt8} {u : Bytes} (token : Token)
    (hopens : Opens (c :: u))
    (htoken : ∀ rest, Stops rest → tokenOf c (u ++ rest) = (token, rest)) (hne : token ≠ .comment)
    (hv : ∀ rest, valueOf levels token rest = some (v, rest)) :
    IsRead (levels + 1) (.value v) (c :: u) := by
  refine ⟨hopens, fun ws rest hws hrest => ?_⟩
  rw [outcome_readValue_of_cons levels (hopens.dropWhile hws rest) (htoken rest hrest) hne, hv]

/-- A byte that is a token, behind white space. -/
theorem skipComments_space {ws t : Bytes} {c : UInt8} {token : Token} (hws : IsSpace ws)
    (hspace : isWhitespace c = false) (hc : punctuation.lookup c = some token)
    (hne : token ≠ .comment) :
    (skipComments (ws ++ c :: t)).token = token ∧ (skipComments (ws ++ c :: t)).rest = t :=
  skipComments_punctuation (dropWhile_space hws hspace) hc hne

section

variable (element : (s : Bytes) → Except Failure (Parsed Value s)) {ws : Bytes}

theorem behindItem_comma (hws : IsSpace ws) (v : Value) (t : Bytes) :
    behindItem element v (ws ++ chr ',' :: t) =
      (outcome (readElements element t)).map fun q => (v :: q.1, q.2) := by
  obtain ⟨htoken, hrest⟩ := @skipComments_space ws t (chr ',') _ hws rfl rfl (by decide)
  rw [behindItem, htoken, hrest]

theorem behindItem_end (hws : IsSpace ws) (v : Value) (t : Bytes) :
    behindItem element v (ws ++ chr ']' :: t) = some ([v], t) := by
  obtain ⟨htoken, hrest⟩ := @skipComments_space ws t (chr ']') _ hws rfl rfl (by decide)
  rw [behindItem, htoken, hrest]

theorem behindMember_comma (hws : IsSpace ws) (name : Bytes) (members : List (Bytes × Value))
    (t : Bytes) : behindMember element name members (ws ++ chr ',' :: t) =
      outcome (readMembers element name members t) := by
  obtain ⟨htoken, hrest⟩ := @skipComments_space ws t (chr ',') _ hws rfl rfl (by decide)
  rw [behindMember_separator element htoken, hrest]

theorem behindMember_end (hws : IsSpace ws) (name : Bytes) (members : List (Bytes × Value))
    (t : Bytes) : behindMember element name members (ws ++ chr '\x7d' :: t) =
      some (members, t) := by
  obtain ⟨htoken, hrest⟩ := @skipComments_space ws t (chr '\x7d') _ hws rfl rfl (by decide)
  rw [behindMember_objectEnd element htoken, hrest]

end

/-- The name of a member and its colon. -/
theorem outcome_readName_quoted {last ws₁ ws₂ raw name : Bytes} (hws₁ : IsSpace ws₁)
    (hraw : Quoted raw name) (hws₂ : IsSpace ws₂) (rest : Bytes) :
    outcome (readName last (ws₁ ++ (quoted raw ++ (ws₂ ++ chr ':' :: rest)))) =
      some (some name, rest) := by
  have htoken := tokenOf_quoted hraw (ws₂ ++ chr ':' :: rest)
  have hdrop : (ws₁ ++ (quoted raw ++ (ws₂ ++ chr ':' :: rest))).dropWhile isWhitespace =
      0x22 :: (raw ++ 0x22 :: (ws₂ ++ chr ':' :: rest)) := by
    have hquoted : quoted raw ++ (ws₂ ++ chr ':' :: rest) =
        0x22 :: (raw ++ 0x22 :: (ws₂ ++ chr ':' :: rest)) := by
      rw [quoted, List.cons_append, List.append_assoc]
      rfl
    rw [hquoted]
    exact dropWhile_space hws₁ rfl
  obtain ⟨hname, hbehind⟩ := skipComments_of_cons hdrop (by rw [htoken]; simp)
  rw [htoken] at hname hbehind
  dsimp only at hname hbehind
  obtain ⟨hcolon, hrest⟩ := readToken_of_cons
    (@dropWhile_space ws₂ rest (chr ':') hws₂ rfl)
  rw [← hbehind] at hcolon hrest
  exact outcome_readName hname (decodeString_quoted hraw) hcolon hrest

/-- A member, its colon and its value, and then what follows them. -/
theorem outcome_readMembers_quoted {levels : ℕ} {v : Value} {name raw ws₁ ws₂ ws₃ text : Bytes}
    (hws₁ : IsSpace ws₁) (hraw : Quoted raw name) (hws₂ : IsSpace ws₂) (hws₃ : IsSpace ws₃)
    (htext : IsRead levels (.value v) text) (last : Bytes) (members : List (Bytes × Value))
    {rest : Bytes} (hrest : Stops rest) :
    outcome (readMembers (readValue levels) last members
        (ws₁ ++ (quoted raw ++ (ws₂ ++ chr ':' :: (ws₃ ++ (text ++ rest)))))) =
      behindMember (readValue levels) name (setMember name v members) rest := by
  rw [outcome_readMembers, outcome_readName_quoted hws₁ hraw hws₂, Option.bind_some]
  dsimp only
  rw [htext.2 _ _ hws₃ hrest, Option.bind_some]

/-! #### The grammar -/

/-- The grammar is read; the induction is on the derivation. -/
theorem Spells.isRead {levels : ℕ} {m : Meaning} {text : Bytes} (h : Spells levels m text) :
    IsRead levels m text := by
  induction h with
  | null =>
    exact isRead_of_token .null ⟨_, _, rfl, rfl, by decide⟩ (fun rest _ => rfl)
      (by decide) fun rest => rfl
  | bool b =>
    cases b with
    | true =>
      exact isRead_of_token .true ⟨_, _, rfl, rfl, by decide⟩ (fun rest _ => rfl)
        (by decide) fun rest => rfl
    | false =>
      exact isRead_of_token .false ⟨_, _, rfl, rfl, by decide⟩ (fun rest _ => rfl)
        (by decide) fun rest => rfl
  | number n hv =>
    -- a number begins with a digit or a minus, so no space or bracket is taken for it
    obtain ⟨c, u, hcu, hc, htoken⟩ := tokenOf_bytes n
    have hne {b : UInt8} (hb : isDigit b = false) (hminus : b ≠ chr '-') : c ≠ b := by
      rintro rfl
      rcases hc with hc | hc
      · rw [hb] at hc
        cases hc
      · exact hminus hc
    have hspace : isWhitespace c = false := by
      simp only [isWhitespace, Bool.or_eq_false_iff, beq_eq_false_iff_ne]
      exact ⟨⟨⟨hne rfl (by decide), hne rfl (by decide)⟩, hne rfl (by decide)⟩,
        hne rfl (by decide)⟩
    rw [hcu]
    refine isRead_of_token (.number (c :: u)) ⟨c, u, rfl, hspace, hne rfl (by decide)⟩ htoken
      (by simp) fun rest => ?_
    rw [valueOf, ← hcu, decodeNumber_bytes, hv, Option.map_some]
  | @string levels raw s hraw =>
    refine isRead_of_token (.string raw) ⟨_, _, rfl, rfl, by decide⟩ (fun rest _ => ?_) (by simp)
      fun rest => ?_
    · rw [List.append_assoc]
      exact tokenOf_quoted hraw rest
    · rw [valueOf, decodeString_quoted hraw, Option.map_some]
  | @emptyArray levels ws hws =>
    refine ⟨⟨_, _, rfl, rfl, by decide⟩, fun ws' rest hws' _ => ?_⟩
    have hdrop := dropWhile_space (t := ws ++ [chr ']'] ++ rest) (c := chr '[') hws' rfl
    have hinner : (ws ++ [chr ']'] ++ rest).dropWhile isWhitespace = chr ']' :: rest := by
      rw [List.append_assoc]
      exact dropWhile_space hws rfl
    rw [List.cons_append, @outcome_readValue_of_cons levels _ _ _ _ .arrayBegin hdrop rfl
      (by decide), valueOf, outcome_readArray_nil _ hinner]
    rfl
  | @array levels vs text _ ih =>
    obtain ⟨⟨ws, t, rfl, hws, c, u, rfl, hspace, hc⟩, hread⟩ := ih
    refine ⟨⟨_, _, rfl, rfl, by decide⟩, fun ws' rest hws' _ => ?_⟩
    have hdrop := dropWhile_space (t := ws ++ c :: u ++ [chr ']'] ++ rest) (c := chr '[') hws' rfl
    -- behind the bracket, the space is skipped up to the first item
    have hinner : (ws ++ c :: u ++ [chr ']'] ++ rest).dropWhile isWhitespace =
        c :: (u ++ chr ']' :: rest) := by
      rw [List.append_assoc, List.append_assoc]
      exact dropWhile_space hws hspace
    have hread' : outcome (readElements (readValue levels) (ws ++ c :: u ++ [chr ']'] ++ rest)) =
        some (vs, rest) := by
      rw [List.append_assoc]
      exact hread rest
    rw [List.cons_append, @outcome_readValue_of_cons levels _ _ _ _ .arrayBegin hdrop rfl
      (by decide), valueOf, outcome_readArray _ hinner hc, hread']
    rfl
  | @emptyObject levels ws hws =>
    refine ⟨⟨_, _, rfl, rfl, by decide⟩, fun ws' rest hws' _ => ?_⟩
    have hdrop := dropWhile_space (t := ws ++ [chr '\x7d'] ++ rest) (c := chr '\x7b') hws' rfl
    have hinner : ws ++ [chr '\x7d'] ++ rest = ws ++ chr '\x7d' :: rest := List.append_assoc _ _ _
    obtain ⟨htoken, hrest⟩ := @skipComments_space ws rest (chr '\x7d') _ hws rfl rfl (by decide)
    rw [List.cons_append, @outcome_readValue_of_cons levels _ _ _ _ .objectBegin hdrop rfl
      (by decide), valueOf, hinner, outcome_readMembers, outcome_readName_nil htoken, hrest]
    rfl
  | @object levels ms text _ ih =>
    refine ⟨⟨_, _, rfl, rfl, by decide⟩, fun ws' rest hws' _ => ?_⟩
    have hdrop := dropWhile_space (t := text ++ [chr '\x7d'] ++ rest) (c := chr '\x7b') hws' rfl
    have hinner : text ++ [chr '\x7d'] ++ rest = text ++ chr '\x7d' :: rest :=
      List.append_assoc _ _ _
    rw [List.cons_append, @outcome_readValue_of_cons levels _ _ _ _ .objectBegin hdrop rfl
      (by decide), valueOf, hinner, ih]
    rfl
  | @item levels v ws₁ text ws₂ hws₁ _ hws₂ ih =>
    refine ⟨⟨ws₁, text ++ ws₂, rfl, hws₁, ?_⟩, fun rest => ?_⟩
    · obtain ⟨c, t, rfl, hspace, hc⟩ := ih.1
      exact ⟨c, t ++ ws₂, rfl, hspace, hc⟩
    · rw [List.append_assoc, List.append_assoc, outcome_readElements,
        ih.2 _ _ hws₁ (stops_space hws₂ (.inr (.inl rfl))), Option.bind_some,
        behindItem_end _ hws₂]
  | @items levels v vs ws₁ text ws₂ texts hws₁ _ hws₂ _ ih ihs =>
    refine ⟨⟨ws₁, _, rfl, hws₁, ?_⟩, fun rest => ?_⟩
    · obtain ⟨c, t, rfl, hspace, hc⟩ := ih.1
      exact ⟨c, _, rfl, hspace, hc⟩
    · rw [List.append_assoc, List.append_assoc, List.append_assoc, List.cons_append,
        outcome_readElements, ih.2 _ _ hws₁ (stops_space hws₂ (.inl rfl)), Option.bind_some,
        behindItem_comma _ hws₂, ihs.2]
      rfl
  | member hws₁ hraw hws₂ hws₃ _ hws₄ ih =>
    -- the members in front have been read, and `last` says whether a name is needed
    intro last members rest
    rw [List.append_assoc, List.append_assoc, List.append_assoc, List.cons_append,
      List.append_assoc, List.append_assoc,
      outcome_readMembers_quoted hws₁ hraw hws₂ hws₃ ih last members
        (stops_space hws₄ (.inr (.inr rfl))), behindMember_end _ hws₄]
    rfl
  | members hws₁ hraw hws₂ hws₃ _ hws₄ _ ih ihs =>
    intro last members rest
    rw [List.append_assoc, List.append_assoc, List.append_assoc, List.cons_append,
      List.append_assoc, List.append_assoc, List.append_assoc, List.cons_append,
      outcome_readMembers_quoted hws₁ hraw hws₂ hws₃ ih last members
        (stops_space hws₄ (.inl rfl)), behindMember_comma _ hws₄, ihs]
    rfl

/-- **A document is read as the value it denotes**, whatever follows it. -/
theorem parse_of_spells {v : Value} {text ws rest : Bytes}
    (h : Spells stackLimit (.value v) text) (hws : IsSpace ws) (hrest : Stops rest) :
    parse (ws ++ (text ++ rest)) = .ok v := by
  have hread := parse_eq (ws ++ (text ++ rest))
  rw [h.isRead.2 ws rest hws hrest, Option.map_some] at hread
  cases hparse : parse (ws ++ (text ++ rest)) with
  | error e =>
    rw [hparse] at hread
    cases hread
  | ok v' =>
    rw [hparse] at hread
    obtain rfl := Option.some.inj hread
    rfl

end Domoticz.JsonReader
