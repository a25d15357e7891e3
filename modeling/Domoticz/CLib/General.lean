import Domoticz.CLib.Nearest

/-!
# Doubles with seventeen digits

The text of `%.17g`: the digits that the number is nearest to, without the zeros at their end, as
a decimal fraction or with an exponent.

## Main definitions

* `decimalExponent`, `significant` — the digits and the exponent.
* `general` — the text.
* `Decimal` — the decimal numbers that it writes.

## Main results

* `significant_spec` — the digits are off by at most a half of the last one.
* `exists_general` — **the text is read as the double again.**
-/

namespace CLib.Double

open Float.Model (UnpackedFloat)
open Float.Model.UnpackedFloat (Sign)

/-- The exponent of the greatest power of ten that is not greater than a quotient. -/
def decimalExponent (num den : ℕ) : ℤ :=
  if den ≤ num then Nat.log 10 (num / den) else -(Nat.clog 10 ((den + num - 1) / num) : ℤ)

/-- Seventeen digits of a quotient, and the exponent of the first one. -/
def significant (num den : ℕ) : ℕ × ℤ :=
  let x := decimalExponent num den
  let n :=
    if x ≤ 16 then roundEven (num * 10 ^ (16 - x).toNat) den
    else roundEven num (den * 10 ^ (x - 16).toNat)
  if n = 10 ^ 17 then (10 ^ 16, x + 1) else (n, x)

/-- Digits without the zeros at their end. -/
def stripZeros (ds : Bytes) : Bytes := (ds.reverse.dropWhile (· == chr '0')).reverse

/-- A point and digits, if there are any. -/
def point (ds : Bytes) : Bytes := if ds = [] then [] else chr '.' :: ds

/-- At least two digits and a sign. -/
def exponentText (x : ℤ) : Bytes :=
  (if x < 0 then [chr '-'] else [chr '+']) ++ (if x.natAbs < 10 then [chr '0'] else []) ++
    digits x.natAbs

/-- The digits of a number with the exponent of the first one, as `%g` writes them. -/
def generalDigits (ds : Bytes) (x : ℤ) : Bytes :=
  if -4 ≤ x ∧ x < 17 then
    if 0 ≤ x then ds.take (x.toNat + 1) ++ point (stripZeros (ds.drop (x.toNat + 1)))
    else chr '0' :: point (List.replicate (-x - 1).toNat (chr '0') ++ stripZeros ds)
  else ds.take 1 ++ point (stripZeros (ds.drop 1)) ++ chr 'e' :: exponentText x

/-- The text of a finite double in the format `%.17g`. -/
def general (d : UInt64) : Bytes :=
  match unpack d with
  | .finite s m e _ =>
      let r := if 0 ≤ e then significant (m * 2 ^ e.toNat) 1 else significant m (2 ^ (-e).toNat)
      signText s ++ generalDigits (digits r.1) r.2
  | .zero s => signText s ++ str "0"
  | .infinity s => signText s ++ str "inf"
  | .notANumber => str "nan"

/-! ### The digits -/

section Digits

variable {num den : ℕ}

theorem abs_roundEven_sub_le (n : ℕ) {d : ℕ} (hd : 0 < d) : |(roundEven n d : ℚ) - n / d| ≤ 1 / 2 := by
  have hpos : (0 : ℚ) < d := by exact_mod_cast hd
  have hsum : (n : ℚ) = d * (n / d : ℕ) + (n % d : ℕ) := by exact_mod_cast (Nat.div_add_mod n d).symm
  have hlt : ((n % d : ℕ) : ℚ) < d := by exact_mod_cast Nat.mod_lt n hd
  have hnonneg : (0 : ℚ) ≤ (n % d : ℕ) := Nat.cast_nonneg _
  have hbelow : (n : ℚ) / d - (n / d : ℕ) = (n % d : ℕ) / d := by
    rw [sub_eq_iff_eq_add, div_add' _ _ _ hpos.ne', div_left_inj' hpos.ne', hsum]
    ring
  unfold roundEven
  split
  · next h =>
    have hle : (2 : ℚ) * (n % d : ℕ) ≤ d := by exact_mod_cast (by omega : 2 * (n % d) ≤ d)
    rw [abs_sub_comm, hbelow, abs_of_nonneg (div_nonneg hnonneg hpos.le), div_le_iff₀ hpos]
    linarith
  · next h =>
    have hle : (d : ℚ) ≤ 2 * (n % d : ℕ) := by exact_mod_cast (by omega : d ≤ 2 * (n % d))
    have habove : ((n / d : ℕ) : ℚ) + 1 - n / d = (d - (n % d : ℕ)) / d := by
      rw [sub_div, ← hbelow, div_self hpos.ne']
      ring
    rw [Nat.cast_add, Nat.cast_one, habove, abs_of_nonneg (div_nonneg (by linarith) hpos.le),
      div_le_iff₀ hpos]
    linarith

/-- The power of ten at a quotient. -/
theorem decimalExponent_spec (hnum : 0 < num) (hden : 0 < den) :
    (10 : ℚ) ^ decimalExponent num den ≤ num / den ∧
      (num / den : ℚ) < 10 ^ (decimalExponent num den + 1) := by
  have hnum' : (0 : ℚ) < num := by exact_mod_cast hnum
  have hden' : (0 : ℚ) < den := by exact_mod_cast hden
  rw [le_div_iff₀ hden', div_lt_iff₀ hden']
  unfold decimalExponent
  split
  · next h =>
    have hpos : 0 < num / den := Nat.div_pos h hden
    have hlow := Nat.pow_log_le_self 10 hpos.ne'
    have hhigh := Nat.lt_pow_succ_log_self (b := 10) (by decide) (num / den)
    -- a quotient of at least one, by its whole part
    generalize Nat.log 10 (num / den) = k at hlow hhigh
    rw [Nat.le_div_iff_mul_le hden] at hlow
    rw [Nat.div_lt_iff_lt_mul hden] at hhigh
    constructor
    · exact_mod_cast hlow
    · exact_mod_cast hhigh
  · next h =>
    rw [not_le] at h
    have htwo : 1 < (den + num - 1) / num := by
      show 2 ≤ _
      rw [Nat.le_div_iff_mul_le hnum]
      omega
    have hlow := Nat.le_pow_clog (b := 10) (by decide) ((den + num - 1) / num)
    have hhigh := Nat.pow_pred_clog_lt_self (b := 10) (by decide) htwo
    have hpos := Nat.clog_pos (b := 10) (by decide) htwo
    -- a quotient below one, by its reciprocal, rounded up
    generalize Nat.clog 10 ((den + num - 1) / num) = k at hlow hhigh hpos
    obtain ⟨k, rfl⟩ := Nat.exists_eq_succ_of_ne_zero hpos.ne'
    rw [Nat.pred_succ, ← Nat.succ_le_iff, Nat.le_div_iff_mul_le hnum, Nat.succ_mul] at hhigh
    have hle : den ≤ 10 ^ (k + 1) * num := by
      have hlt := Nat.lt_succ_of_le hlow
      rw [Nat.div_lt_iff_lt_mul hnum, Nat.succ_mul, Nat.succ_eq_add_one] at hlt
      omega
    have hlow' : (den : ℚ) ≤ 10 ^ (k + 1) * num := by exact_mod_cast hle
    have hhigh' : (10 : ℚ) ^ k * num < den := by exact_mod_cast (by omega : 10 ^ k * num < den)
    have hten : (0 : ℚ) < 10 ^ (k + 1) := by positivity
    have hten' : (0 : ℚ) < 10 ^ k := by positivity
    have hexp : -((k.succ : ℕ) : ℤ) + 1 = -(k : ℤ) := by push_cast; ring
    rw [hexp, zpow_neg, zpow_neg, zpow_natCast, zpow_natCast]
    constructor
    · rwa [inv_mul_le_iff₀ hten]
    · rwa [lt_inv_mul_iff₀ hten']

/-- Seventeen digits, which are off by at most a half of the last one. -/
theorem significant_spec (hnum : 0 < num) (hden : 0 < den) :
    10 ^ 16 ≤ (significant num den).1 ∧ (significant num den).1 < 10 ^ 17 ∧
      |((significant num den).1 : ℚ) * 10 ^ ((significant num den).2 - 16) - num / den| *
        (2 * 10 ^ 16) ≤ num / den := by
  obtain ⟨hlow, hhigh⟩ := decimalExponent_spec hnum hden
  have hden' : (0 : ℚ) < den := by exact_mod_cast hden
  unfold significant
  dsimp only
  generalize decimalExponent num den = x at hlow hhigh
  have hten : (0 : ℚ) < 10 ^ (x - 16) := by positivity
  have hsplit : (10 : ℚ) ^ x = 10 ^ (16 : ℤ) * 10 ^ (x - 16) := by
    rw [← zpow_add₀ (by norm_num)]
    congr 1
    ring
  have hsplit' : (10 : ℚ) ^ (x + 1) = 10 ^ (17 : ℤ) * 10 ^ (x - 16) := by
    rw [← zpow_add₀ (by norm_num)]
    congr 1
    ring
  -- the quotient in units of the last digit is rounded
  obtain ⟨n, hn, hround⟩ : ∃ n, (if x ≤ 16 then roundEven (num * 10 ^ (16 - x).toNat) den
      else roundEven num (den * 10 ^ (x - 16).toNat)) = n ∧
        |(n : ℚ) - num / den / 10 ^ (x - 16)| ≤ 1 / 2 := by
    refine ⟨_, rfl, ?_⟩
    split
    · next hx =>
      obtain ⟨k, hk⟩ : ∃ k : ℕ, x = 16 - k := ⟨(16 - x).toNat, by omega⟩
      have hround := abs_roundEven_sub_le (num * 10 ^ (16 - x).toNat) hden
      have hquotient : (num : ℚ) / den / 10 ^ (x - 16) =
          ((num * 10 ^ (16 - x).toNat : ℕ) : ℚ) / den := by
        have hkx : (16 - x).toNat = k := by omega
        have hkx' : x - 16 = -(k : ℤ) := by omega
        rw [hkx, hkx', zpow_neg, zpow_natCast, div_inv_eq_mul]
        push_cast
        ring
      rwa [hquotient]
    · next hx =>
      obtain ⟨k, hk⟩ : ∃ k : ℕ, x = 16 + k := ⟨(x - 16).toNat, by omega⟩
      have hround := abs_roundEven_sub_le num
        (show 0 < den * 10 ^ (x - 16).toNat from Nat.mul_pos hden (by positivity))
      have hquotient : (num : ℚ) / den / 10 ^ (x - 16) =
          (num : ℚ) / ((den * 10 ^ (x - 16).toNat : ℕ) : ℚ) := by
        have hkx : (x - 16).toNat = k := by omega
        have hkx' : x - 16 = (k : ℤ) := by omega
        rw [hkx, hkx', zpow_natCast, div_div]
        push_cast
        rfl
      rwa [hquotient]
  rw [hn]
  rw [hsplit, ← le_div_iff₀ hten] at hlow
  rw [hsplit', ← div_lt_iff₀ hten] at hhigh
  have hvalue : (num : ℚ) / den = num / den / 10 ^ (x - 16) * 10 ^ (x - 16) :=
    (div_mul_cancel₀ _ hten.ne').symm
  generalize hq : (num : ℚ) / den / 10 ^ (x - 16) = q at hlow hhigh hround hvalue
  obtain ⟨hround₁, hround₂⟩ := abs_le.mp hround
  have hlow' : (10 : ℚ) ^ 16 ≤ q := by exact_mod_cast hlow
  have hhigh' : q < (10 : ℚ) ^ 17 := by exact_mod_cast hhigh
  have hge : 10 ^ 16 ≤ n := by
    have hcast : ((10 ^ 16 : ℕ) : ℚ) < n + 1 := by push_cast; linarith
    have hnat : 10 ^ 16 < n + 1 := by exact_mod_cast hcast
    omega
  have hle : n ≤ 10 ^ 17 := by
    have hcast : (n : ℚ) < ((10 ^ 17 : ℕ) : ℚ) + 1 := by push_cast; linarith
    have hnat : n < 10 ^ 17 + 1 := by exact_mod_cast hcast
    omega
  have herror : |(n : ℚ) * 10 ^ (x - 16) - num / den| * (2 * 10 ^ 16) ≤ num / den := by
    rw [hvalue, ← sub_mul, abs_mul, abs_of_pos hten, mul_right_comm]
    refine mul_le_mul_of_nonneg_right ?_ hten.le
    linarith
  split
  · next hmax =>
    refine ⟨le_rfl, by norm_num, ?_⟩
    have hsame : ((10 ^ 16 : ℕ) : ℚ) * 10 ^ (x + 1 - 16) = n * 10 ^ (x - 16) := by
      have hexp : x + 1 - 16 = x - 16 + 1 := by ring
      rw [hmax, hexp, zpow_add_one₀ (by norm_num)]
      push_cast
      ring
    rw [hsame]
    exact herror
  · next hmax => exact ⟨hge, by omega, herror⟩

end Digits

/-! ### The text -/

/-- A decimal number without a sign, as `%g` writes it. -/
structure Decimal where
  whole : Bytes
  fraction : Bytes
  exponent : Option ℤ
  isWhole : Numeral whole
  isFraction : fraction.all (CLib.isDigit 10) = true

namespace Decimal

/-- The exponent as it is printed, if there is one. -/
def exponentBytes (t : Decimal) : Bytes :=
  match t.exponent with
  | none => []
  | some x => chr 'e' :: exponentText x

/-- The whole number as it is printed. -/
def bytes (t : Decimal) : Bytes := t.whole ++ (point t.fraction ++ t.exponentBytes)

/-- The digits without the point, as a number. -/
def mantissa (t : Decimal) : ℕ := digitsValue 10 (t.whole ++ t.fraction)

/-- The exponent of the last digit. -/
def power (t : Decimal) : ℤ := t.exponent.getD 0 - t.fraction.length

/-- The number that is printed. -/
def value (t : Decimal) : ℚ := t.mantissa * 10 ^ t.power

end Decimal

theorem all_stripZeros {ds : Bytes} (h : ds.all (CLib.isDigit 10) = true) :
    (stripZeros ds).all (CLib.isDigit 10) = true := by
  rw [List.all_eq_true] at h ⊢
  intro b hb
  rw [stripZeros, List.mem_reverse] at hb
  exact h b (List.mem_reverse.mp ((List.dropWhile_sublist _).subset hb))

theorem exists_exponentText (x : ℤ) : ∃ sign ds, exponentText x = sign :: ds ∧
    (sign = chr '+' ∨ sign = chr '-') ∧ Numeral ds := by
  obtain ⟨hne, hall⟩ : Numeral (digits x.natAbs) := numeral_toDigits _
  have hds : Numeral ((if x.natAbs < 10 then [chr '0'] else []) ++ digits x.natAbs) := by
    refine ⟨List.append_ne_nil_of_right_ne_nil _ hne, ?_⟩
    rw [List.all_append, hall, Bool.and_true]
    split <;> rfl
  rw [exponentText, List.append_assoc]
  split
  · exact ⟨_, _, rfl, .inr rfl, hds⟩
  · exact ⟨_, _, rfl, .inl rfl, hds⟩

theorem exponent?_exponentText (x : ℤ) : exponent? (chr 'e' :: exponentText x) = some x := by
  have hpad (n : ℕ) : digitsValue 10 ((if n < 10 then [chr '0'] else []) ++ digits n) = n := by
    split
    · exact digitsValue_toDigits n
    · exact digitsValue_toDigits n
  have hnumeral (n : ℕ) : Numeral ((if n < 10 then [chr '0'] else []) ++ digits n) := by
    obtain ⟨hne, hall⟩ : Numeral (digits n) := numeral_toDigits n
    refine ⟨List.append_ne_nil_of_right_ne_nil _ hne, ?_⟩
    rw [List.all_append, hall, Bool.and_true]
    split <;> rfl
  rw [exponent?, if_pos (.inl rfl), exponentText, List.append_assoc]
  split
  · next h =>
    have hsign (t : Bytes) : takeSign ([chr '-'] ++ t) = (true, t) := rfl
    rw [hsign, if_pos (hnumeral _), if_pos rfl, hpad]
    congr 1
    omega
  · next h =>
    have hsign (t : Bytes) : takeSign ([chr '+'] ++ t) = (false, t) := rfl
    rw [hsign, if_pos (hnumeral _), if_neg Bool.false_ne_true, hpad]
    congr 1
    omega

theorem digitsValue_append (ds t : Bytes) :
    digitsValue 10 (ds ++ t) = digitsValue 10 ds * 10 ^ t.length + digitsValue 10 t := by
  induction t using List.reverseRecOn with
  | nil => simp [digitsValue]
  | append_singleton t b ih =>
    rw [← List.append_assoc, digitsValue_concat, ih, digitsValue_concat, List.length_append,
      List.length_singleton, pow_succ]
    ring

theorem digitsValue_zeros (k : ℕ) : digitsValue 10 (List.replicate k (chr '0')) = 0 := by
  induction k with
  | zero => rfl
  | succ k ih => rw [List.replicate_succ', digitsValue_concat, ih]; rfl

/-- The zeros at the end do not count behind a point. -/
theorem value_stripZeros (ds t : Bytes) (x : ℤ) :
    (digitsValue 10 (ds ++ stripZeros t) : ℚ) * 10 ^ (x - (stripZeros t).length) =
      digitsValue 10 (ds ++ t) * 10 ^ (x - t.length) := by
  obtain ⟨k, hk⟩ : ∃ k, t = stripZeros t ++ List.replicate k (chr '0') := by
    have hsplit := List.takeWhile_append_dropWhile (p := (· == chr '0')) (l := t.reverse)
    have hzeros : t.reverse.takeWhile (· == chr '0') =
        List.replicate (t.reverse.takeWhile (· == chr '0')).length (chr '0') :=
      List.eq_replicate_of_mem fun b hb => by simpa using List.mem_takeWhile_imp hb
    refine ⟨(t.reverse.takeWhile (· == chr '0')).length, ?_⟩
    have hrev := congrArg List.reverse hsplit
    rw [List.reverse_reverse, List.reverse_append, hzeros, List.reverse_replicate] at hrev
    exact hrev.symm
  generalize stripZeros t = u at hk
  subst hk
  rw [← List.append_assoc, digitsValue_append (ds ++ u), digitsValue_zeros, List.length_append,
    List.length_replicate]
  have hexp : x - ((u.length + k : ℕ) : ℤ) = x - u.length - k := by push_cast; ring
  rw [hexp, zpow_sub₀ (by norm_num) _ (k : ℤ), zpow_natCast]
  push_cast
  field_simp
  ring

/-- The digits of a number with the exponent of the first one make up this number. -/
theorem exists_decimal {ds : Bytes} (h : Numeral ds) (hlen : ds.length = 17) (x : ℤ) :
    ∃ t : Decimal, generalDigits ds x = t.bytes ∧
      t.value = digitsValue 10 ds * 10 ^ (x - 16) := by
  obtain ⟨hne, hall⟩ := h
  have htake (k : ℕ) : Numeral (ds.take (k + 1)) := by
    refine ⟨?_, ?_⟩
    · obtain ⟨d, ds, rfl⟩ := List.exists_cons_of_ne_nil hne
      exact List.cons_ne_nil _ _
    · rw [List.all_eq_true] at hall ⊢
      exact fun b hb => hall b (List.mem_of_mem_take hb)
  have hdrop (k : ℕ) : (stripZeros (ds.drop k)).all (CLib.isDigit 10) = true := by
    apply all_stripZeros
    rw [List.all_eq_true] at hall ⊢
    exact fun b hb => hall b (List.mem_of_mem_drop hb)
  -- the zeros at the end are left out, and the point is put in behind `k` digits
  have hvalue (k : ℕ) (y : ℤ) : (digitsValue 10 (ds.take k ++ stripZeros (ds.drop k)) : ℚ) *
      10 ^ (y - (stripZeros (ds.drop k)).length) =
        digitsValue 10 ds * 10 ^ (y - (17 - k : ℕ)) := by
    rw [value_stripZeros, List.take_append_drop, List.length_drop, hlen]
  unfold generalDigits
  split
  · split
    · next hx hnonneg =>
      refine ⟨⟨_, _, none, htake x.toNat, hdrop (x.toNat + 1)⟩, ?_, ?_⟩
      · rw [Decimal.bytes, Decimal.exponentBytes, List.append_nil]
      · refine (hvalue (x.toNat + 1) 0).trans ?_
        congr 2
        omega
    · next hx hneg =>
      -- a small number has zeros behind its point
      have hzeros (k : ℕ) : (List.replicate k (chr '0')).all (CLib.isDigit 10) = true := by
        rw [List.all_eq_true]
        intro b hb
        rw [List.eq_of_mem_replicate hb]
        rfl
      refine ⟨⟨[chr '0'], List.replicate (-x - 1).toNat (chr '0') ++ stripZeros ds, none,
        by decide, ?_⟩, ?_, ?_⟩
      · rw [List.all_append, hzeros, all_stripZeros hall]
        rfl
      · rw [Decimal.bytes, Decimal.exponentBytes, List.append_nil]
        rfl
      · have hmantissa : digitsValue 10 ([chr '0'] ++
            (List.replicate (-x - 1).toNat (chr '0') ++ stripZeros ds)) =
            digitsValue 10 (stripZeros ds) := by
          rw [digitsValue_append, digitsValue_append, digitsValue_zeros]
          simp [digitsValue, digitValue, chr]
        have hsame := value_stripZeros [] ds (x + 1)
        rw [List.nil_append, List.nil_append, hlen] at hsame
        show (digitsValue 10 _ : ℚ) * 10 ^ (0 - ((List.replicate (-x - 1).toNat (chr '0') ++
          stripZeros ds).length : ℤ)) = _
        have hexp : 0 - ((List.replicate (-x - 1).toNat (chr '0') ++ stripZeros ds).length : ℤ) =
            x + 1 - (stripZeros ds).length := by
          rw [List.length_append, List.length_replicate]
          omega
        rw [hmantissa, hexp, hsame]
        congr 2
        omega
  · refine ⟨⟨_, _, some x, htake 0, hdrop 1⟩, ?_, ?_⟩
    · rw [Decimal.bytes, Decimal.exponentBytes, List.append_assoc]
    · exact hvalue 1 x

/-- How a decimal number is read. -/
theorem readDouble_decimal (negative : Bool) (t : Decimal) :
    readDouble ((if negative then [chr '-'] else []) ++ t.bytes) =
      if isFinite (withSign negative (.ofScientific t.mantissa t.power)) then
        some (withSign negative (.ofScientific t.mantissa t.power))
      else none := by
  obtain ⟨whole, fraction, exponent, hwhole, hfraction⟩ := t
  -- the sign, the digits, the point and the exponent are read one after the other
  have hsign (u : Bytes) : takeSign ((if negative then [chr '-'] else []) ++ (whole ++ u)) =
      (negative, whole ++ u) := by
    cases negative with
    | true => rfl
    | false =>
      obtain ⟨b, w, rfl⟩ := List.exists_cons_of_ne_nil hwhole.1
      have hb : CLib.isDigit 10 b = true := List.all_eq_true.mp hwhole.2 b List.mem_cons_self
      have hsigns : b ≠ chr '-' ∧ b ≠ chr '+' := by
        constructor <;> (rintro rfl; exact absurd hb (by decide))
      show takeSign (b :: (w ++ u)) = _
      rw [takeSign, if_neg hsigns.1, if_neg hsigns.2]
      rfl
  have hstop (ds : Bytes) (hds : ds.all (CLib.isDigit 10) = true) (u : Bytes)
      (hu : ∀ b ∈ u.head?, CLib.isDigit 10 b = false) :
      (ds ++ u).takeWhile (CLib.isDigit 10) = ds ∧ (ds ++ u).dropWhile (CLib.isDigit 10) = u := by
    rw [List.takeWhile_append_of_pos (List.all_eq_true.mp hds),
      List.dropWhile_append_of_pos (List.all_eq_true.mp hds)]
    cases u with
    | nil => simp
    | cons b u =>
      have hb := hu b rfl
      simp [hb]
  have hexponent : exponent? (Decimal.exponentBytes ⟨whole, fraction, exponent, hwhole, hfraction⟩) =
      some (exponent.getD 0) := by
    cases exponent with
    | none => rfl
    | some x => exact exponent?_exponentText x
  have he : ∀ b ∈ (Decimal.exponentBytes ⟨whole, fraction, exponent, hwhole, hfraction⟩).head?,
      CLib.isDigit 10 b = false ∧ b ≠ chr '.' := by
    intro b hb
    cases exponent with
    | none => cases hb
    | some x =>
      obtain rfl := Option.some.inj hb
      exact ⟨rfl, by decide⟩
  rw [Decimal.bytes, readDouble]
  dsimp only
  rw [hsign]
  dsimp only
  -- of the exponent only this much is needed from here on
  generalize Decimal.exponentBytes ⟨whole, fraction, exponent, hwhole, hfraction⟩ = tail
    at hexponent he ⊢
  have hpoint : ∀ b ∈ (point fraction ++ tail).head?, CLib.isDigit 10 b = false := by
    intro b hb
    unfold point at hb
    split at hb
    · exact (he b hb).1
    · obtain rfl := Option.some.inj hb
      rfl
  obtain ⟨hwhole', htail⟩ := hstop whole hwhole.2 _ hpoint
  have htake : takeFraction (point fraction ++ tail) = (fraction, tail) := by
    unfold point
    split
    · next hnil =>
      subst hnil
      cases tail with
      | nil => rfl
      | cons b tail => rw [List.nil_append, takeFraction, if_neg (he b rfl).2]
    · obtain ⟨h₁, h₂⟩ := hstop fraction hfraction tail fun b hb => (he b hb).1
      rw [List.cons_append, takeFraction, if_pos rfl, h₁, h₂]
  rw [hwhole', htail, htake, if_neg fun h => hwhole.1 h.1]
  dsimp only
  rw [hexponent, Option.bind_some]
  rfl

theorem length_digits {n k : ℕ} (hlow : 10 ^ k ≤ n) (hhigh : n < 10 ^ (k + 1)) :
    (digits n).length = k + 1 := by
  have hle : (digits n).length ≤ k + 1 := by
    rw [digits, List.length_map]
    exact Nat.toDigits_length 10 n (k + 1) k.succ_pos hhigh
  have hdigits : ∀ b ∈ digits n, CLib.isDigit 10 b = true :=
    List.all_eq_true.mp (numeral_toDigits n).2
  have hvalue : n < 10 ^ (digits n).length := by
    have hlt := digitsValue_lt hdigits
    rwa [digits, digitsValue_toDigits] at hlt
  have hlt : k < (digits n).length := (Nat.pow_lt_pow_iff_right (by decide)).mp (hlow.trans_lt hvalue)
  omega

/-- The zeros of a sign. -/
theorem eq_of_unpack_zero {d : UInt64} {s : Sign} (h : unpack d = .zero s) (k : ℤ) :
    withSign (s == .negative) (.ofScientific 0 k) = d := by
  have hcomponents := packComponents_unpack d.toBitVec
  have hzero : Float.Model.ofScientific 0 k = .pack (.zero .positive) := by
    rw [Float.Model.ofScientific, UnpackedFloat.ofScientific, dif_pos rfl]
  unfold unpack UnpackedFloat.unpack at h
  dsimp only at h
  split at h
  · split at h <;> cases h
  · split at h
    · next hexponent =>
      split at h
      · next hmantissa =>
        injection h with hs
        rw [hs, hexponent, hmantissa] at hcomponents
        rw [hzero]
        apply UInt64.toBitVec_inj.mp
        rw [← hcomponents]
        cases s <;> decide
      · cases h
    · cases h

/-- **A finite double is read from what is written**, and from every decimal number with this
value. -/
theorem exists_general {d : UInt64} (h : isFinite d = true) : ∃ (negative : Bool) (t : Decimal),
    general d = (if negative then [chr '-'] else []) ++ t.bytes ∧
      ∀ t' : Decimal, t'.value = t.value →
        readDouble ((if negative then [chr '-'] else []) ++ t'.bytes) = some d := by
  have hsign (s : Sign) : signText s = if s == .negative then [chr '-'] else [] := by
    cases s <;> rfl
  have hread {negative : Bool} {t' : Decimal}
      (heq : withSign negative (.ofScientific t'.mantissa t'.power) = d) :
      readDouble ((if negative then [chr '-'] else []) ++ t'.bytes) = some d := by
    rw [readDouble_decimal, heq, if_pos h]
  cases hd : unpack d with
  | infinity s =>
    rw [isFinite, hd] at h
    cases h
  | notANumber =>
    rw [isFinite, hd] at h
    cases h
  | zero s =>
    have hzero : (⟨str "0", [], none, by decide, rfl⟩ : Decimal).mantissa = 0 := rfl
    refine ⟨s == .negative, ⟨str "0", [], none, by decide, rfl⟩, ?_, fun t' ht' => hread ?_⟩
    · rw [← hsign, general, hd]
      rfl
    · have hzero' : t'.mantissa = 0 := by
        rw [Decimal.value, Decimal.value, hzero, Nat.cast_zero, zero_mul, mul_eq_zero,
          Nat.cast_eq_zero] at ht'
        exact ht'.resolve_right (by positivity)
      rw [hzero']
      exact eq_of_unpack_zero hd _
  | finite s m e hm =>
    -- the number as a quotient
    obtain ⟨num, den, hnum, hden, hquotient, hr⟩ : ∃ num den : ℕ, 0 < num ∧ 0 < den ∧
        (num / den : ℚ) = m * 2 ^ e ∧
        (if 0 ≤ e then significant (m * 2 ^ e.toNat) 1 else significant m (2 ^ (-e).toNat)) =
          significant num den := by
      by_cases he : 0 ≤ e
      · obtain ⟨k, rfl⟩ : ∃ k : ℕ, e = k := ⟨e.toNat, by omega⟩
        refine ⟨m * 2 ^ k, 1, by positivity, one_pos, ?_, if_pos he⟩
        push_cast
        rw [div_one, zpow_natCast]
      · obtain ⟨k, rfl⟩ : ∃ k : ℕ, e = -k := ⟨(-e).toNat, by omega⟩
        refine ⟨m, 2 ^ k, hm, by positivity, ?_, ?_⟩
        · push_cast
          rw [zpow_neg, zpow_natCast, div_eq_mul_inv]
        · rw [if_neg he, neg_neg, Int.toNat_natCast]
    obtain ⟨hlow, hhigh, herror⟩ := significant_spec hnum hden
    have hpos : (0 : ℚ) < m * 2 ^ e := mul_pos (by exact_mod_cast hm) (zpow_two_pos e)
    obtain ⟨t, ht, hvalue⟩ := exists_decimal (numeral_toDigits (significant num den).1)
      (length_digits hlow hhigh) (significant num den).2
    refine ⟨s == .negative, t, ?_, fun t' ht' => hread ?_⟩
    · rw [← hsign, general, hd]
      dsimp only
      rw [hr]
      exact congrArg _ ht
    · have hsame : t'.value = (significant num den).1 * 10 ^ ((significant num den).2 - 16) := by
        rw [ht', hvalue, digitsValue_toDigits]
      rw [hquotient, ← hsame] at herror
      have hnear : Near (t'.mantissa * 10 ^ t'.power) m e := by
        show |t'.value - m * 2 ^ e| * 2 ^ 54 < m * 2 ^ e
        linarith
      have hmantissa : 0 < t'.mantissa := by
        apply Nat.pos_of_ne_zero
        intro hzero
        have hge : (10 : ℚ) ^ 16 ≤ (significant num den).1 := by exact_mod_cast hlow
        have hvalue' : t'.value = 0 := by rw [Decimal.value, hzero, Nat.cast_zero, zero_mul]
        rw [hvalue', zero_sub, abs_neg, abs_of_pos hpos] at herror
        linarith
      exact ofScientific_eq hd hmantissa hnear

example : general 0x3FB999999999999A = str "0.10000000000000001" ∧
    general 0x4059000000000000 = str "100" ∧ general 0x4480F0CF064DD592 = str "1e+22" ∧
    general 0xBE7AD7F29ABCAF48 = str "-9.9999999999999995e-08" := by
  decide +kernel

end CLib.Double
