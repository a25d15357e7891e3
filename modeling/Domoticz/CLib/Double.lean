import Domoticz.CLib.Number

/-!
# Doubles and their texts

A `double` is given by its 64 bits.  `std::to_string` writes it with six decimals, and
`operator>>` of a stream reads the nearest double.

## Main definitions

* `toText` — `std::to_string`.
* `readDouble` — `operator>>` on a text that holds nothing else.
* `toIntegral`, `ofInt` — whole numbers.

## Main results

* `exists_parts` — the parts of the text of a finite double.
-/

namespace CLib.Double

open Float.Model (UnpackedFloat)
open Float.Model.UnpackedFloat (Sign)

/-- Sign, mantissa and exponent. -/
def unpack (d : UInt64) : UnpackedFloat := .unpack Float.Model.Format.binary64 d.toBitVec

/-- `std::isfinite`. -/
def isFinite (d : UInt64) : Bool := (unpack d).isFinite

/-! ### Writing -/

/-- The whole number nearest to a quotient, the even one of two. -/
def roundEven (n d : ℕ) : ℕ :=
  if 2 * (n % d) < d ∨ (2 * (n % d) = d ∧ n / d % 2 = 0) then n / d else n / d + 1

/-- The millionths of `m * 2 ^ e`. -/
def millionths (m : ℕ) (e : ℤ) : ℕ :=
  if 0 ≤ e then m * 2 ^ e.toNat * 10 ^ 6 else roundEven (m * 10 ^ 6) (2 ^ (-e).toNat)

/-- The digits of a number. -/
def digits (n : ℕ) : Bytes := (Nat.toDigits 10 n).map chr

/-- Millionths, with a point in front of the last six digits. -/
def fixed (n : ℕ) : Bytes :=
  digits (n / 10 ^ 6) ++ chr '.' :: (digits (10 ^ 6 + n % 10 ^ 6)).drop 1

/-- The sign that is printed. -/
def signText : Sign → Bytes
  | .negative => [chr '-']
  | .positive => []

/-- `std::to_string(d)`. -/
def toText (d : UInt64) : Bytes :=
  match unpack d with
  | .infinity s => signText s ++ str "inf"
  | .notANumber => if d < 0x8000000000000000 then str "nan" else str "-nan"
  | .zero s => signText s ++ fixed 0
  | .finite s m e _ => signText s ++ fixed (millionths m e)

/-- The parts of the text of a finite double. -/
theorem exists_parts {d : UInt64} (h : isFinite d = true) : ∃ s whole fraction,
    toText d = signText s ++ (whole ++ chr '.' :: fraction) ∧ Numeral whole ∧
      fraction.all (CLib.isDigit 10) = true := by
  have hfixed (n : ℕ) : ∃ whole fraction, fixed n = whole ++ chr '.' :: fraction ∧
      Numeral whole ∧ fraction.all (CLib.isDigit 10) = true := by
    refine ⟨_, _, rfl, numeral_toDigits _, ?_⟩
    rw [List.all_eq_true]
    intro b hb
    exact List.all_eq_true.mp (numeral_toDigits _).2 b (List.mem_of_mem_drop hb)
  unfold isFinite at h
  unfold toText
  cases hd : unpack d with
  | infinity s =>
    rw [hd] at h
    cases h
  | notANumber =>
    rw [hd] at h
    cases h
  | zero s =>
    obtain ⟨whole, fraction, heq, hwhole, hfraction⟩ := hfixed 0
    exact ⟨s, whole, fraction, congrArg (signText s ++ ·) heq, hwhole, hfraction⟩
  | finite s m e hm =>
    obtain ⟨whole, fraction, heq, hwhole, hfraction⟩ := hfixed (millionths m e)
    exact ⟨s, whole, fraction, congrArg (signText s ++ ·) heq, hwhole, hfraction⟩

/-! ### Reading -/

/-- The exponent of a decimal number, with its `e`; zero if there is none. -/
def exponent? : Bytes → Option ℤ
  | [] => some 0
  | e :: s =>
      if e = chr 'e' ∨ e = chr 'E' then
        if Numeral (takeSign s).2 then
          some (if (takeSign s).1 then -(digitsValue 10 (takeSign s).2 : ℤ)
            else digitsValue 10 (takeSign s).2)
        else none
      else none

/-- The fraction of a decimal number, and what is behind it. -/
def takeFraction : Bytes → Bytes × Bytes
  | [] => ([], [])
  | b :: s =>
      if b = chr '.' then (s.takeWhile (CLib.isDigit 10), s.dropWhile (CLib.isDigit 10))
      else ([], b :: s)

/-- The bits of a double with a sign. -/
def withSign (negative : Bool) (d : Float.Model) : UInt64 :=
  if negative then d.neg.toBits else d.toBits

/-- `is >> value` for a stream that holds the text of a number: the nearest double.  It fails
if there is no digit, or the number is too large. -/
def readDouble (s : Bytes) : Option UInt64 :=
  let signed := takeSign s
  let whole := signed.2.takeWhile (CLib.isDigit 10)
  let fraction := takeFraction (signed.2.dropWhile (CLib.isDigit 10))
  if whole = [] ∧ fraction.1 = [] then none
  else
    (exponent? fraction.2).bind fun e =>
      let d := withSign signed.1
        (.ofScientific (digitsValue 10 (whole ++ fraction.1)) (e - fraction.1.length))
      if isFinite d then some d else none

theorem isFinite_of_readDouble {s : Bytes} {d : UInt64} (h : readDouble s = some d) :
    isFinite d = true := by
  unfold readDouble at h
  simp only at h
  split at h
  · cases h
  · obtain ⟨e, -, he⟩ := Option.bind_eq_some_iff.mp h
    obtain ⟨hfinite, heq⟩ := Option.ite_none_right_eq_some.mp he
    rw [← Option.some.inj heq]
    exact hfinite

/-! ### Whole numbers -/

/-- The integer a double is equal to, if there is one. -/
def toIntegral (d : UInt64) : Option ℤ :=
  let signed (s : Sign) (n : ℕ) : ℤ := match s with
    | .negative => -n
    | .positive => n
  match unpack d with
  | .zero _ => some 0
  | .finite s m e _ =>
      if 0 ≤ e then some (signed s (m * 2 ^ e.toNat))
      else if m % 2 ^ (-e).toNat = 0 then some (signed s (m / 2 ^ (-e).toNat))
      else none
  | _ => none

/-- The double nearest to an integer. -/
def ofInt (i : ℤ) : UInt64 := withSign (i < 0) (.ofScientific i.natAbs 0)

/-- A tenth is kept with six decimals, a ten-millionth is not. -/
example : readDouble (str "0.100000") = some 0x3FB999999999999A ∧
    toText 0x3FB999999999999A = str "0.100000" ∧ toText 0x3E7AD7F29ABCAF48 = str "0.000000" := by
  decide +kernel

end CLib.Double
