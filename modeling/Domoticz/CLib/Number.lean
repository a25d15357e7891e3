import Domoticz.CLib.Bytes
import Mathlib.Data.Nat.Digits.Defs

/-!
# Numbers in byte strings

The conversions of the C library between texts and machine integers: `strtol`
with its white space, sign, `0x` prefix and saturation at the ends of a 64-bit
`long`, the narrowing of a `long` to an `int`, `atoi` as the two together, and
the decimal text `std::to_string` writes.

## Main definitions

* `strtol base s` — the number read and the unread rest of `s`.
* `toInt32`, `atoi` — the narrowing conversion, and `atoi` through it.
* `decimal` — `std::to_string` of an integer.
* `Numeral s` — `s` is a nonempty run of decimal digits.

## Main results

* `strtol_numeral` — a numeral is read to its end.
* `strtol_decimal` — the decimal text of an integer is read up to its end.
* `strtol_sixteen` — hexadecimal digits are read up to their end.
* `atoi_decimal` — the decimal text of an `int` is read back.
* `toInt32_eq_self_iff` — narrowing keeps exactly the 32-bit values.
* `decimal_injective` — the decimal text determines the integer.
-/

namespace CLib

/-- `isspace` in the C locale. -/
def isSpace (b : UInt8) : Bool := b == chr ' ' || (9 ≤ b && b ≤ 13)

/-- The value of a digit, letters counting on from ten. -/
def digitValue (b : UInt8) : Option ℕ :=
  if chr '0' ≤ b ∧ b ≤ chr '9' then some (b.toNat - 48)
  else if chr 'a' ≤ b ∧ b ≤ chr 'z' then some (b.toNat - 87)
  else if chr 'A' ≤ b ∧ b ≤ chr 'Z' then some (b.toNat - 55)
  else none

/-- Whether a byte is a digit of the base. -/
def isDigit (base : ℕ) (b : UInt8) : Bool := (digitValue b).any (· < base)

/-- The number a run of digits denotes. -/
def digitsValue (base : ℕ) (ds : Bytes) : ℕ :=
  ds.foldl (fun acc b => acc * base + (digitValue b).getD 0) 0

/-- A `long`: values past its ends are replaced by the end. -/
def clampLong (z : ℤ) : ℤ := max (-2 ^ 63) (min (2 ^ 63 - 1) z)

/-- An optional sign: whether it is a minus, and what follows it. -/
def takeSign : Bytes → Bool × Bytes
  | b :: s => if b = chr '-' then (true, s) else if b = chr '+' then (false, s) else (false, b :: s)
  | [] => (false, [])

/-- The `0x` a base-16 number may start with, if a digit follows it. -/
def skipHexPrefix (base : ℕ) : Bytes → Bytes
  | z :: x :: d :: s =>
      if base = 16 ∧ z = chr '0' ∧ toUpper x = chr 'X' ∧ isDigit 16 d then d :: s
      else z :: x :: d :: s
  | s => s

/-- `strtol(s, &rest, base)`: the number read and the unread rest, which is all
of `s` when no digit was found. -/
def strtol (base : ℕ) (s : Bytes) : ℤ × Bytes :=
  let signed := takeSign (s.dropWhile isSpace)
  let body := skipHexPrefix base signed.2
  let ds := body.takeWhile (isDigit base)
  if ds = [] then (0, s)
  else
    let n : ℤ := digitsValue base ds
    (clampLong (if signed.1 then -n else n), body.dropWhile (isDigit base))

/-- The conversion of a `long` to a 32-bit `int`. -/
def toInt32 (z : ℤ) : ℤ := Int.bmod z (2 ^ 32)

/-- `atoi(s)`. -/
def atoi (s : Bytes) : ℤ := toInt32 (strtol 10 s).1

/-- `std::to_string` of an integer. -/
def decimal : ℤ → Bytes
  | .ofNat n => (Nat.toDigits 10 n).map chr
  | .negSucc n => chr '-' :: (Nat.toDigits 10 (n + 1)).map chr

theorem takeSign_suffix (s : Bytes) : (takeSign s).2 <:+ s := by
  cases s with
  | nil => exact List.suffix_refl _
  | cons b s =>
    rw [takeSign]
    split
    · exact List.suffix_cons b s
    · split
      · exact List.suffix_cons b s
      · exact List.suffix_refl _

theorem skipHexPrefix_suffix (base : ℕ) (s : Bytes) : skipHexPrefix base s <:+ s := by
  match s with
  | [] => exact List.suffix_refl _
  | [_] => exact List.suffix_refl _
  | [_, _] => exact List.suffix_refl _
  | z :: x :: d :: s =>
    rw [skipHexPrefix]
    split
    · exact ⟨[z, x], rfl⟩
    · exact List.suffix_refl _

/-- What `strtol` leaves unread is a tail of its text. -/
theorem strtol_rest_suffix (base : ℕ) (s : Bytes) : (strtol base s).2 <:+ s := by
  unfold strtol
  simp only
  split
  · exact List.suffix_refl _
  · refine (List.dropWhile_suffix _).trans ?_
    refine (skipHexPrefix_suffix base _).trans ?_
    exact (takeSign_suffix _).trans (List.dropWhile_suffix _)

theorem toInt32_bounds (z : ℤ) : -2 ^ 31 ≤ toInt32 z ∧ toInt32 z < 2 ^ 31 := by
  have hlow := Int.le_bmod (x := z) (m := 2 ^ 32) (by decide)
  have hhigh := Int.bmod_lt (x := z) (m := 2 ^ 32) (by decide)
  rw [toInt32]
  omega

theorem toInt32_eq_self_iff {z : ℤ} : toInt32 z = z ↔ -2 ^ 31 ≤ z ∧ z < 2 ^ 31 := by
  constructor
  · intro h
    have hbounds := toInt32_bounds z
    rwa [h] at hbounds
  · intro h
    exact Int.bmod_eq_of_le (by norm_num; omega) (by norm_num; omega)

theorem toInt32_nat_eq_self_iff (n : ℕ) : toInt32 n = n ↔ n < 2 ^ 31 := by
  rw [toInt32_eq_self_iff]
  omega

/-! ### Numerals -/

/-- A decimal numeral: digits only, and at least one. -/
def Numeral (s : Bytes) : Prop := s ≠ [] ∧ s.all (isDigit 10) = true

instance (s : Bytes) : Decidable (Numeral s) := inferInstanceAs (Decidable (_ ∧ _))

theorem isDigit_ten_iff {b : UInt8} : isDigit 10 b = true ↔ chr '0' ≤ b ∧ b ≤ chr '9' := by
  unfold isDigit digitValue
  have h0 : chr '0' = 48 := rfl
  have h9 : chr '9' = 57 := rfl
  have ha : chr 'a' = 97 := rfl
  have hz : chr 'z' = 122 := rfl
  have hA : chr 'A' = 65 := rfl
  have hZ : chr 'Z' = 90 := rfl
  rw [h0, h9, ha, hz, hA, hZ]
  simp only [UInt8.le_iff_toNat_le]
  split
  · next h => simp at h ⊢; omega
  · next h =>
    split
    · next h' => simp at h h' ⊢; omega
    · next h' =>
      split
      · next h'' => simp at h h'' ⊢; omega
      · simp at h ⊢; omega

theorem isSpace_of_isDigit {b : UInt8} (h : isDigit 10 b = true) : isSpace b = false := by
  rw [isDigit_ten_iff] at h
  have h0 : chr '0' = 48 := rfl
  have hs : chr ' ' = 32 := rfl
  rw [h0] at h
  unfold isSpace
  rw [hs]
  simp only [UInt8.le_iff_toNat_le] at h
  have hne : ¬ b = 32 := by rintro rfl; simp at h
  simp only [Bool.or_eq_false_iff, beq_eq_false_iff_ne, ne_eq, hne, not_false_eq_true, true_and]
  simp only [Bool.and_eq_false_iff, decide_eq_false_iff_not, UInt8.le_iff_toNat_le]
  simp at h ⊢
  omega

theorem cstr_of_numeral {s : Bytes} (h : Numeral s) : cstr s = s := by
  refine cstr_of_notMem fun h0 => ?_
  exact absurd (List.all_eq_true.mp h.2 0 h0) (by decide)

theorem skipHexPrefix_ten (s : Bytes) : skipHexPrefix 10 s = s := by
  match s with
  | [] => rfl
  | [_] => rfl
  | [_, _] => rfl
  | _ :: _ :: _ :: _ => simp [skipHexPrefix]

/-- What is read of a text whose sign is in front of a numeral. -/
theorem strtol_of_takeSign {s ds rest : Bytes} {negative : Bool}
    (hs : takeSign (s.dropWhile isSpace) = (negative, ds ++ rest)) (h : Numeral ds)
    (hrest : ∀ b ∈ rest.head?, isDigit 10 b = false) :
    strtol 10 s = (clampLong (if negative then -(digitsValue 10 ds : ℤ) else digitsValue 10 ds),
      rest) := by
  have hall := List.all_eq_true.mp h.2
  have htake : (ds ++ rest).takeWhile (isDigit 10) = ds := by
    rw [List.takeWhile_append_of_pos hall]
    cases rest with
    | nil => exact List.append_nil _
    | cons r rest => rw [List.takeWhile_cons_of_neg (by simp [hrest r rfl]), List.append_nil]
  have hdrop : (ds ++ rest).dropWhile (isDigit 10) = rest := by
    rw [List.dropWhile_append_of_pos hall]
    cases rest with
    | nil => rfl
    | cons r rest => rw [List.dropWhile_cons_of_neg (by simp [hrest r rfl])]
  simp only [strtol, hs, skipHexPrefix_ten, htake, hdrop, if_neg h.1]

/-- Digits are no space and no sign. -/
theorem takeSign_digits {ds : Bytes} (h : Numeral ds) (rest : Bytes) :
    takeSign ((ds ++ rest).dropWhile isSpace) = (false, ds ++ rest) := by
  obtain ⟨hne, hall⟩ := h
  obtain ⟨b, t, rfl⟩ := List.exists_cons_of_ne_nil hne
  have hb : isDigit 10 b = true := List.all_eq_true.mp hall b List.mem_cons_self
  have hm : ¬ b = chr '-' := by
    rintro rfl
    exact absurd hb (by decide)
  have hp : ¬ b = chr '+' := by
    rintro rfl
    exact absurd hb (by decide)
  rw [List.cons_append, List.dropWhile_cons_of_neg (by simp [isSpace_of_isDigit hb]), takeSign,
    if_neg hm, if_neg hp]

/-- **A numeral is read to its end**, and is worth its digits. -/
theorem strtol_numeral {s : Bytes} (h : Numeral s) :
    strtol 10 s = (clampLong (digitsValue 10 s), []) := by
  have hsign := takeSign_digits h []
  have hend : ∀ b ∈ ([] : Bytes).head?, isDigit 10 b = false := by simp
  rw [List.append_nil] at hsign
  have hs : takeSign (s.dropWhile isSpace) = (false, s ++ []) := by
    rw [hsign, List.append_nil]
  exact strtol_of_takeSign hs h hend

/-! ### Hexadecimal numbers -/

theorem le_toNat_of_isDigit {base : ℕ} {b : UInt8} (h : isDigit base b = true) : 48 ≤ b.toNat := by
  by_contra hlt
  have h0 : ¬ chr '0' ≤ b := fun h0 => hlt (UInt8.le_iff_toNat_le.mp h0)
  have ha : ¬ chr 'a' ≤ b := fun ha =>
    hlt ((by decide : 48 ≤ (chr 'a').toNat).trans (UInt8.le_iff_toNat_le.mp ha))
  have hA : ¬ chr 'A' ≤ b := fun hA =>
    hlt ((by decide : 48 ≤ (chr 'A').toNat).trans (UInt8.le_iff_toNat_le.mp hA))
  simp [isDigit, digitValue, h0, ha, hA] at h

theorem isSpace_of_le {b : UInt8} (h : 48 ≤ b.toNat) : isSpace b = false := by
  have hs32 : chr ' ' = 32 := rfl
  have hne : ¬ b = 32 := by
    rintro rfl
    simp at h
  simp only [isSpace, hs32, Bool.or_eq_false_iff, beq_eq_false_iff_ne, ne_eq, hne,
    not_false_eq_true, true_and, Bool.and_eq_false_iff, decide_eq_false_iff_not,
    UInt8.le_iff_toNat_le]
  right
  simp
  omega

/-- No digit is the `x` of a prefix. -/
theorem toUpper_ne_of_isDigit {b : UInt8} (h : isDigit 16 b = true) : toUpper b ≠ chr 'X' := by
  intro hX
  have hcase : b = chr 'X' ∨ b = chr 'x' := by
    have ha : chr 'a' = 97 := rfl
    have hz : chr 'z' = 122 := rfl
    have hX' : chr 'X' = 88 := rfl
    have hx' : chr 'x' = 120 := rfl
    unfold toUpper at hX
    rw [ha, hz, hX'] at hX
    rw [hX', hx']
    split at hX
    · next hr =>
      right
      have hsub := congrArg UInt8.toNat hX
      rw [UInt8.le_iff_toNat_le, UInt8.le_iff_toNat_le] at hr
      rw [← UInt8.toNat_inj]
      simp [UInt8.toNat_sub] at hsub hr ⊢
      omega
    · exact .inl hX
  rcases hcase with rfl | rfl
  · exact absurd h (by decide)
  · exact absurd h (by decide)

/-- Hexadecimal digits are read up to a byte that is neither a digit nor the `x` of a prefix. -/
theorem strtol_sixteen {ds rest : Bytes} (hne : ds ≠ []) (hall : ∀ b ∈ ds, isDigit 16 b = true)
    (hrest : ∀ b ∈ rest.head?, isDigit 16 b = false ∧ toUpper b ≠ chr 'X') :
    strtol 16 (ds ++ rest) = (clampLong (digitsValue 16 ds), rest) := by
  obtain ⟨b, t, rfl⟩ := List.exists_cons_of_ne_nil hne
  have hb := hall b List.mem_cons_self
  have hspace : (b :: t ++ rest).dropWhile isSpace = b :: t ++ rest := by
    rw [List.cons_append,
      List.dropWhile_cons_of_neg (by simp [isSpace_of_le (le_toNat_of_isDigit hb)])]
  have hsign : takeSign (b :: t ++ rest) = (false, b :: t ++ rest) := by
    have hm : ¬ b = chr '-' := by
      rintro rfl
      exact absurd hb (by decide)
    have hp : ¬ b = chr '+' := by
      rintro rfl
      exact absurd hb (by decide)
    simp [takeSign, hm, hp]
  -- the digit behind the first one is no `x`, so no prefix is skipped
  have hsecond : ∀ x ∈ (t ++ rest).head?, toUpper x ≠ chr 'X' := by
    intro x hx
    cases t with
    | nil => exact (hrest x hx).2
    | cons y t =>
      obtain rfl : y = x := by simpa using hx
      exact toUpper_ne_of_isDigit (hall y (by simp))
  have hbody : skipHexPrefix 16 (b :: t ++ rest) = b :: t ++ rest := by
    rw [List.cons_append]
    cases hs : t ++ rest with
    | nil => rfl
    | cons x s =>
      cases s with
      | nil => rfl
      | cons d s =>
        have hx := hsecond x (by rw [hs]; rfl)
        rw [skipHexPrefix, if_neg fun h => hx h.2.2.1]
  -- the digits end where the rest begins
  have htake : (b :: t ++ rest).takeWhile (isDigit 16) = b :: t := by
    rw [List.takeWhile_append_of_pos hall]
    cases rest with
    | nil => exact List.append_nil _
    | cons r rest => rw [List.takeWhile_cons_of_neg (by simp [(hrest r rfl).1]), List.append_nil]
  have hdrop : (b :: t ++ rest).dropWhile (isDigit 16) = rest := by
    rw [List.dropWhile_append_of_pos hall]
    cases rest with
    | nil => rfl
    | cons r rest => rw [List.dropWhile_cons_of_neg (by simp [(hrest r rfl).1])]
  rw [strtol]
  simp only [hspace, hsign, hbody, htake, hdrop, if_neg (List.cons_ne_nil b t), Bool.false_eq_true,
    if_false]

/-! ### Decimal texts -/

theorem digitValue_digitChar {d : ℕ} (h : d < 16) :
    digitValue (chr d.digitChar) = some d := by
  have hall : ∀ d < 16, digitValue (chr (Nat.digitChar d)) = some d := by decide
  exact hall d h

theorem digitsValue_concat (base : ℕ) (ds : Bytes) (b : UInt8) :
    digitsValue base (ds ++ [b]) = digitsValue base ds * base + (digitValue b).getD 0 := by
  rw [digitsValue, List.foldl_append]
  rfl

/-- A number has less than the base to the number of its digits. -/
theorem digitsValue_lt {base : ℕ} {ds : Bytes} (h : ∀ b ∈ ds, isDigit base b = true) :
    digitsValue base ds < base ^ ds.length := by
  induction ds using List.reverseRecOn with
  | nil => exact Nat.one_pos
  | append_singleton ds b ih =>
    obtain ⟨hds, hb⟩ := List.forall_mem_append.mp h
    have hlt := ih hds
    obtain ⟨d, hd, hdigit⟩ : ∃ d, digitValue b = some d ∧ d < base := by
      simpa [isDigit, Option.any_eq_true] using hb
    rw [digitsValue_concat, hd, List.length_append, List.length_singleton, pow_succ, Option.getD_some]
    calc digitsValue base ds * base + d < (digitsValue base ds + 1) * base := by linarith
      _ ≤ base ^ ds.length * base := Nat.mul_le_mul_right base hlt

section Digits

variable {base : ℕ} (hone : 1 < base) (hbase : base ≤ 16)

include hone hbase

/-- Writing a number and reading the digits back gives the number. -/
theorem digitsValue_toDigits_of_le (n : ℕ) :
    digitsValue base ((Nat.toDigits base n).map chr) = n := by
  induction n using Nat.strong_induction_on with
  | _ n ih =>
    by_cases hlt : n < base
    · rw [Nat.toDigits_of_lt_base hlt, List.map_singleton, ← List.nil_append [chr n.digitChar],
        digitsValue_concat, digitValue_digitChar (by omega)]
      change 0 * base + n = n
      rw [Nat.zero_mul, Nat.zero_add]
    · have hlow := Nat.mod_lt n (show 0 < base by omega)
      rw [Nat.toDigits_of_base_le hone (by omega), List.map_append, List.map_singleton,
        digitsValue_concat, ih _ (Nat.div_lt_self (by omega) hone),
        digitValue_digitChar (by omega)]
      exact Nat.div_add_mod' n base

/-- The bytes of a number are digits. -/
theorem isDigit_toDigits (n : ℕ) :
    ∀ b ∈ (Nat.toDigits base n).map chr, isDigit base b = true := by
  have hdigit {d : ℕ} (hd : d < base) : isDigit base (chr d.digitChar) = true := by
    rw [isDigit, digitValue_digitChar (by omega), Option.any_some]
    exact decide_eq_true hd
  induction n using Nat.strong_induction_on with
  | _ n ih =>
    by_cases hlt : n < base
    · rw [Nat.toDigits_of_lt_base hlt, List.map_singleton]
      exact List.forall_mem_singleton.mpr (hdigit hlt)
    · rw [Nat.toDigits_of_base_le hone (by omega), List.map_append, List.map_singleton,
        List.forall_mem_append]
      exact ⟨ih _ (Nat.div_lt_self (by omega) hone),
        List.forall_mem_singleton.mpr (hdigit (Nat.mod_lt n (by omega)))⟩

end Digits

/-- Writing a number in decimal and reading the digits back gives the number. -/
theorem digitsValue_toDigits (n : ℕ) : digitsValue 10 ((Nat.toDigits 10 n).map chr) = n :=
  digitsValue_toDigits_of_le (by decide) (by decide) n

/-- The decimal text of a natural number is a numeral. -/
theorem numeral_toDigits (n : ℕ) : Numeral ((Nat.toDigits 10 n).map chr) := by
  refine ⟨by simp, List.all_eq_true.mpr ?_⟩
  exact isDigit_toDigits (by decide) (by decide) n

/-- **Different integers have different decimal texts.** -/
theorem decimal_injective : Function.Injective decimal := by
  have hsign : ∀ n m : ℕ, (Nat.toDigits 10 n).map chr ≠ chr '-' :: (Nat.toDigits 10 m).map chr := by
    intro n m h
    have hall := (numeral_toDigits n).2
    rw [h] at hall
    exact absurd (List.all_eq_true.mp hall _ List.mem_cons_self) (by decide)
  intro a b h
  cases a with
  | ofNat n =>
    cases b with
    | ofNat m =>
      have hnm := congrArg (digitsValue 10) h
      rw [decimal, decimal, digitsValue_toDigits, digitsValue_toDigits] at hnm
      rw [hnm]
    | negSucc m => exact absurd h (hsign n (m + 1))
  | negSucc n =>
    cases b with
    | ofNat m => exact absurd h.symm (hsign m (n + 1))
    | negSucc m =>
      have hnm := congrArg (digitsValue 10) (List.cons.inj h).2
      rw [digitsValue_toDigits, digitsValue_toDigits] at hnm
      rw [Nat.succ.inj hnm]

/-- The decimal text of an integer is read up to a byte that is no digit. -/
theorem strtol_decimal (z : ℤ) {rest : Bytes} (hrest : ∀ b ∈ rest.head?, isDigit 10 b = false) :
    strtol 10 (decimal z ++ rest) = (clampLong z, rest) := by
  cases z with
  | ofNat n =>
    have hnum := numeral_toDigits n
    rw [decimal, strtol_of_takeSign (takeSign_digits hnum rest) hnum hrest, digitsValue_toDigits]
    rfl
  | negSucc n =>
    have hnum := numeral_toDigits (n + 1)
    have hsign : takeSign ((decimal (Int.negSucc n) ++ rest).dropWhile isSpace) =
        (true, (Nat.toDigits 10 (n + 1)).map chr ++ rest) := rfl
    rw [strtol_of_takeSign hsign hnum hrest, digitsValue_toDigits]
    rfl

/-- The bytes of a number are digits, and a sign. -/
theorem notMem_decimal {c : UInt8} (z : ℤ) (hdigit : isDigit 10 c = false) (hsign : c ≠ chr '-') :
    c ∉ decimal z := by
  have hdigits (n : ℕ) : c ∉ (Nat.toDigits 10 n).map chr := by
    intro h
    have hc := List.all_eq_true.mp (numeral_toDigits n).2 c h
    rw [hdigit] at hc
    cases hc
  cases z with
  | ofNat n => exact hdigits n
  | negSucc n =>
    rw [decimal, List.mem_cons, not_or]
    exact ⟨hsign, hdigits (n + 1)⟩

/-- `atoi` of the decimal text of an integer. -/
theorem atoi_cstr_decimal (z : ℤ) : atoi (cstr (decimal z)) = toInt32 (clampLong z) := by
  have hend : ∀ b ∈ ([] : Bytes).head?, isDigit 10 b = false := by simp
  have hread := strtol_decimal z hend
  rw [List.append_nil] at hread
  rw [cstr_of_notMem (notMem_decimal z (by decide) (by decide)), atoi, hread]

/-- Exactly the numbers of 32 bits are read back. -/
theorem atoi_decimal_eq_self_iff (z : ℤ) :
    atoi (cstr (decimal z)) = z ↔ -2 ^ 31 ≤ z ∧ z < 2 ^ 31 := by
  rw [atoi_cstr_decimal]
  constructor
  · intro h
    have hbounds := toInt32_bounds (clampLong z)
    rwa [h] at hbounds
  · intro h
    have hlong : clampLong z = z := by
      unfold clampLong
      omega
    rw [hlong, toInt32_eq_self_iff.mpr h]

/-- `atoi` of the decimal text of an `int`. -/
theorem atoi_decimal {z : ℤ} (hz : -2 ^ 31 ≤ z ∧ z < 2 ^ 31) : atoi (cstr (decimal z)) = z :=
  (atoi_decimal_eq_self_iff z).mpr hz

theorem decimal_ne_nil (z : ℤ) : decimal z ≠ [] := by
  cases z with
  | ofNat n => exact (numeral_toDigits n).1
  | negSucc n => exact List.cons_ne_nil _ _

theorem clampLong_nat (n : ℕ) : clampLong n = min (2 ^ 63 - 1) (n : ℤ) := by
  unfold clampLong
  omega

/-- A natural number survives the way through a `long` into an `int` exactly when
it is below `2 ^ 31`. -/
theorem toInt32_clampLong_nat_iff {n : ℕ} : toInt32 (clampLong n) = n ↔ n < 2 ^ 31 := by
  rw [clampLong_nat]
  by_cases hn : (n : ℤ) ≤ 2 ^ 63 - 1
  · rw [min_eq_right hn, toInt32_nat_eq_self_iff]
  · rw [min_eq_left (by omega)]
    have hend : toInt32 (2 ^ 63 - 1) = -1 := by decide
    rw [hend]
    omega

/-- A number that is converted to an `int` is its own low part if nothing is added but a multiple
of 2 to the 32. -/
theorem toInt32_clampLong_add_iff {n : ℤ} (hn : 0 ≤ n) (m : ℕ) :
    toInt32 (clampLong (n + m)) = n ↔ n < 2 ^ 31 ∧ 2 ^ 32 ∣ m ∧ n + m < 2 ^ 63 := by
  by_cases hfits : n + m < 2 ^ 63
  · have hlong : clampLong (n + m) = n + m := by
      unfold clampLong
      omega
    rw [hlong, toInt32, Int.bmod_def]
    split
    · omega
    · omega
  · have hlong : clampLong (n + m) = 2 ^ 63 - 1 := by
      unfold clampLong
      omega
    have hend : toInt32 (2 ^ 63 - 1) = -1 := by decide
    rw [hlong, hend]
    omega

end CLib
