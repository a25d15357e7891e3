import Mathlib
import Domoticz.CLib.Double

/-!
# The nearest double

A decimal number is read as a double whenever it is closer to it than the fifty-fourth bit.

## Main definitions

* `Canonical` — mantissa and exponent of a finite double.
* `Approximates` — what the bits behind a mantissa say of a number.

## Main results

* `roundedMantissa_eq` — a mantissa is rounded to the nearest number.
* `ofScientific_eq` — **a decimal number near a double is read as this double.**
-/

namespace CLib.Double

open Float.Model (UnpackedFloat Format totalExponent)
open Float.Model.UnpackedFloat

/-! ### The bits behind a mantissa -/

/-- The part of a number behind its mantissa: none, less than a half, a half, or more. -/
def Approximates (em : ExtendedMantissa) (v : ℚ) : Prop :=
  match em.roundBit, em.stickyBit with
  | false, false => v = em.mantissa
  | false, true => em.mantissa < v ∧ v < em.mantissa + 1 / 2
  | true, false => v = em.mantissa + 1 / 2
  | true, true => em.mantissa + 1 / 2 < v ∧ v < em.mantissa + 1

section

variable {em : ExtendedMantissa} {v : ℚ}

theorem Approximates.mem_Ico (h : Approximates em v) : (em.mantissa : ℚ) ≤ v ∧ v < em.mantissa + 1 := by
  obtain ⟨m, r, s⟩ := em
  cases r <;> cases s <;> simp only [Approximates] at h ⊢ <;> constructor <;> linarith

/-- A bit of the mantissa goes behind it. -/
theorem Approximates.shiftRightOne (h : Approximates em v) :
    Approximates em.shiftRightOne (v / 2) := by
  obtain ⟨m, r, s⟩ := em
  obtain ⟨q, hq⟩ : ∃ q, m = 2 * q ∨ m = 2 * q + 1 := ⟨m / 2, by omega⟩
  rcases hq with rfl | rfl
  · have hdiv : 2 * q / 2 = q := by omega
    have hmod : (2 * q % 2 != 0) = false := by simp
    cases r <;> cases s <;>
      simp only [Approximates, ExtendedMantissa.shiftRightOne, hdiv, hmod, Bool.or_false,
        Bool.or_true, Nat.cast_mul, Nat.cast_ofNat] at h ⊢
    · linarith
    · constructor <;> linarith
    · constructor <;> linarith
    · constructor <;> linarith
  · have hdiv : (2 * q + 1) / 2 = q := by omega
    have hmod : ((2 * q + 1) % 2 != 0) = true := by simp
    cases r <;> cases s <;>
      simp only [Approximates, ExtendedMantissa.shiftRightOne, hdiv, hmod, Bool.or_false,
        Bool.or_true, Nat.cast_add, Nat.cast_mul, Nat.cast_ofNat, Nat.cast_one] at h ⊢
    · linarith
    · constructor <;> linarith
    · constructor <;> linarith
    · constructor <;> linarith

theorem Approximates.shiftRight (h : Approximates em v) (k : ℕ) :
    Approximates (em >>> k) (v / 2 ^ k) := by
  show Approximates (k.repeat ExtendedMantissa.shiftRightOne em) (v / 2 ^ k)
  induction k with
  | zero => simpa [Nat.repeat] using h
  | succ k ih =>
    rw [pow_succ, ← div_div]
    exact ih.shiftRightOne

/-- A mantissa is rounded to the nearest number. -/
theorem roundedMantissa_eq (h : Approximates em v) {n : ℕ} (hn : |v - n| < 1 / 2) :
    em.roundedMantissa = n := by
  have hround : |(em.roundedMantissa : ℚ) - v| ≤ 1 / 2 := by
    obtain ⟨m, r, s⟩ := em
    rw [abs_le]
    cases r <;> cases s <;>
      simp only [Approximates, ExtendedMantissa.roundedMantissa, ExtendedMantissa.accuracy,
        Accuracy.roundToNearestEven, Nat.cast_add, Nat.cast_one] at h ⊢
    · constructor <;> linarith
    · constructor <;> linarith
    · have hle : ((m % 2 : ℕ) : ℚ) ≤ 1 := by exact_mod_cast (by omega : m % 2 ≤ 1)
      have hpos : (0 : ℚ) ≤ ((m % 2 : ℕ) : ℚ) := Nat.cast_nonneg _
      constructor <;> linarith
    · constructor <;> linarith
  have hlt : |((em.roundedMantissa : ℤ) - n : ℚ)| < 1 := by
    have htriangle := abs_sub_le (em.roundedMantissa : ℚ) v n
    push_cast
    linarith
  have habs : |(em.roundedMantissa : ℤ) - n| < 1 := by exact_mod_cast hlt
  have hzero := Int.abs_lt_one_iff.mp habs
  omega

/-- The remainder of a division says what is behind the quotient. -/
theorem approximates_div (num : ℕ) {den : ℕ} (hden : 0 < den) :
    Approximates (.ofMantissaAndAccuracy (num / den) (accuracyOfFraction (num % den) den))
      (num / den) := by
  have hpos : (0 : ℚ) < den := by exact_mod_cast hden
  have hlt : num % den < den := Nat.mod_lt _ hden
  have hsum : (num : ℚ) / den = (num / den : ℕ) + (num % den : ℕ) / den := by
    have heq : (den : ℚ) * (num / den : ℕ) + (num % den : ℕ) = num := by
      exact_mod_cast Nat.div_add_mod num den
    rw [← heq]
    field_simp
  rw [hsum]
  generalize num / den = q
  generalize num % den = r at hlt
  have hfrac (c : ℚ) : (r : ℚ) / den < c ↔ (r : ℚ) < c * den := div_lt_iff₀ hpos
  unfold accuracyOfFraction
  split
  · next h =>
    subst h
    simp [ExtendedMantissa.ofMantissaAndAccuracy, Approximates]
  · next h =>
    have hr : (0 : ℚ) < r := by exact_mod_cast Nat.pos_of_ne_zero h
    have hratio : (0 : ℚ) < r / den := div_pos hr hpos
    have hone : (r : ℚ) / den < 1 := by
      rw [hfrac, one_mul]
      exact_mod_cast hlt
    rcases lt_trichotomy (2 * r) den with hcmp | hcmp | hcmp
    · have hhalf : (r : ℚ) / den < 1 / 2 := by
        have hcast : (2 : ℚ) * r < den := by exact_mod_cast hcmp
        rw [hfrac]
        linarith
      rw [compare_lt_iff_lt.mpr hcmp]
      simp only [ExtendedMantissa.ofMantissaAndAccuracy, Approximates]
      constructor <;> linarith
    · have hhalf : (r : ℚ) / den = 1 / 2 := by
        have hcast : (2 : ℚ) * r = den := by exact_mod_cast hcmp
        rw [div_eq_div_iff hpos.ne' two_ne_zero]
        linarith
      rw [compare_eq_iff_eq.mpr hcmp]
      simp only [ExtendedMantissa.ofMantissaAndAccuracy, Approximates]
      linarith
    · have hhalf : 1 / 2 < (r : ℚ) / den := by
        have hcast : (den : ℚ) < 2 * r := by exact_mod_cast hcmp
        rw [lt_div_iff₀ hpos]
        linarith
      rw [compare_gt_iff_gt.mpr hcmp]
      simp only [ExtendedMantissa.ofMantissaAndAccuracy, Approximates]
      constructor <;> linarith

end

/-! ### Rounding to 53 bits -/

/-- Mantissa and exponent of a finite double other than zero. -/
structure Canonical (m : ℕ) (e : ℤ) : Prop where
  pos : 0 < m
  lt : m < 2 ^ 53
  le_exponent : -1074 ≤ e
  exponent_le : e ≤ 971
  normal : -1074 < e → 2 ^ 52 ≤ m

/-- A number that is closer to a double than the fifty-fourth bit. -/
def Near (v : ℚ) (m : ℕ) (e : ℤ) : Prop := |v - m * 2 ^ e| * 2 ^ 54 < m * 2 ^ e

theorem zpow_two_pos (e : ℤ) : (0 : ℚ) < 2 ^ e := by positivity

theorem lt_of_zpow_lt {a b : ℤ} (h : (2 : ℚ) ^ a < 2 ^ b) : a < b :=
  (zpow_lt_zpow_iff_right₀ one_lt_two).mp h

section

variable {v : ℚ} {m : ℕ} {e : ℤ}

/-- The bounds of a number near a double, in units of its last bit. -/
theorem Near.bounds (h : Near v m e) :
    (m : ℚ) * (1 - 1 / 2 ^ 54) < v / 2 ^ e ∧ v / 2 ^ e < m * (1 + 1 / 2 ^ 54) := by
  have hpos := zpow_two_pos e
  obtain ⟨hlow, hhigh⟩ := abs_lt.mp ((lt_div_iff₀ (by positivity)).mpr h)
  rw [lt_div_iff₀ hpos, div_lt_iff₀ hpos]
  constructor <;> linarith

theorem targetExponent_eq (n : ℕ) (x : ℤ) :
    Format.binary64.targetExponent (totalExponent n x) = max (n.log2 + x - 52) (-1074) := by
  show max ((n.log2 : ℤ) + 1 + x - ((1 + 52 : ℕ) : ℤ)) (3 - 2 ^ (11 - 1) - ((1 + 52 : ℕ) : ℤ)) = _
  omega

/-- The exponent that a number near a double is rounded at: the one of the double, or one less
just below a power of two. -/
theorem targetExponent_of_near (hc : Canonical m e) (h : Near v m e) {n : ℕ} {x : ℤ}
    (hn : (n : ℚ) ≤ v / 2 ^ x ∧ v / 2 ^ x < n + 1)
    (hx : x ≤ Format.binary64.targetExponent (totalExponent n x)) :
    Format.binary64.targetExponent (totalExponent n x) = e ∨
      Format.binary64.targetExponent (totalExponent n x) = e - 1 ∧ m = 2 ^ 52 := by
  obtain ⟨hlow, hhigh⟩ := h.bounds
  obtain ⟨hpos, hlt, hle, -, hnormal⟩ := hc
  rw [targetExponent_eq] at hx ⊢
  have hx₀ := zpow_two_pos x
  have he₀ := zpow_two_pos e
  have hm : (m : ℚ) ≤ 2 ^ 53 - 1 := by
    have hcast : m + 1 ≤ 2 ^ 53 := hlt
    have hcast' : ((m + 1 : ℕ) : ℚ) ≤ ((2 ^ 53 : ℕ) : ℚ) := Nat.cast_le.mpr hcast
    push_cast at hcast'
    linarith
  rw [lt_div_iff₀ he₀] at hlow
  rw [div_lt_iff₀ he₀] at hhigh
  rw [le_div_iff₀ hx₀, div_lt_iff₀ hx₀] at hn
  -- the number is below two powers of two
  have hbelow : v < 2 ^ (53 + e) := by
    rw [zpow_add₀ two_ne_zero]
    refine hhigh.trans ((mul_lt_mul_iff_left₀ he₀).mpr ?_)
    have hbound : (m : ℚ) * (1 + 1 / 2 ^ 54) < 2 ^ 53 := by linarith
    exact_mod_cast hbound
  have hupper : v < 2 ^ ((n.log2 : ℤ) + 1 + x) := by
    have hlog : n + 1 ≤ 2 ^ (n.log2 + 1) := Nat.lt_log2_self
    have hcast : ((n : ℚ) + 1) ≤ 2 ^ ((n.log2 : ℤ) + 1) := by exact_mod_cast hlog
    rw [zpow_add₀ two_ne_zero]
    exact hn.2.trans_le (mul_le_mul_of_nonneg_right hcast hx₀.le)
  have hle' : max ((n.log2 : ℤ) + x - 52) (-1074) ≤ e := by
    rcases Nat.eq_zero_or_pos n with rfl | hn₀
    · rw [Nat.log2_zero] at hx ⊢
      omega
    · have hlog : (2 : ℚ) ^ (n.log2 : ℤ) ≤ n := by exact_mod_cast Nat.log2_self_le hn₀.ne'
      have hlt' : (2 : ℚ) ^ ((n.log2 : ℤ) + x) < 2 ^ (53 + e) := by
        rw [zpow_add₀ two_ne_zero]
        exact (mul_le_mul_of_nonneg_right hlog hx₀.le).trans_lt (hn.1.trans_lt hbelow)
      have hlog' := lt_of_zpow_lt hlt'
      omega
  by_cases hsub : e = -1074
  · left
    omega
  have hm' : (2 : ℚ) ^ 52 ≤ m := by exact_mod_cast hnormal (by omega)
  have habove : (2 : ℚ) ^ (51 + e) < v := by
    rw [zpow_add₀ two_ne_zero]
    refine lt_trans ((mul_lt_mul_iff_left₀ he₀).mpr ?_) hlow
    linarith
  have hge := lt_of_zpow_lt (habove.trans hupper)
  by_cases heq : max ((n.log2 : ℤ) + x - 52) (-1074) = e
  · exact .inl heq
  · refine .inr ⟨by omega, ?_⟩
    have hexp : (n.log2 : ℤ) + 1 + x = 52 + e := by omega
    rw [hexp, zpow_add₀ two_ne_zero] at hupper
    have hlt' := (mul_lt_mul_iff_left₀ he₀).mp (hlow.trans hupper)
    have hlt'' : (m : ℚ) < 2 ^ 52 + 1 := by linarith
    have hnat : m < 2 ^ 52 + 1 := by exact_mod_cast hlt''
    have hnat' := hnormal (by omega)
    omega

/-- A number near a double is rounded to it. -/
theorem roundWithAccuracy_eq (s : Sign) (hc : Canonical m e) (h : Near v m e) {n : ℕ} {x : ℤ}
    {accuracy : Accuracy}
    (hn : Approximates (.ofMantissaAndAccuracy n accuracy) (v / 2 ^ x))
    (hx : x ≤ Format.binary64.targetExponent (totalExponent n x)) :
    roundWithAccuracy .binary64 s n x accuracy = .finite s m e hc.pos := by
  have hmantissa : (ExtendedMantissa.ofMantissaAndAccuracy n accuracy).mantissa = n := by
    cases accuracy with
    | exact => rfl
    | inexact o => cases o <;> rfl
  have htarget := targetExponent_of_near hc h (hmantissa ▸ hn.mem_Ico) hx
  obtain ⟨hlow, hhigh⟩ := h.bounds
  generalize ht : Format.binary64.targetExponent (totalExponent n x) = t at htarget hx
  -- the mantissa is shifted by `k` bits in front of the rounding
  obtain ⟨k, hk⟩ : ∃ k : ℕ, t = x + k := ⟨(t - x).toNat, by omega⟩
  have hkx : (t - x).toNat = k := by omega
  have hshift := hn.shiftRight k
  rw [div_div, ← zpow_natCast, ← zpow_add₀ two_ne_zero, ← hk] at hshift
  have hfirst : shiftToTargetExponent .binary64 n x accuracy =
      (ExtendedMantissa.ofMantissaAndAccuracy n accuracy >>> k, t) := by
    simp only [shiftToTargetExponent, shiftToExponent, ht, hkx, ← hk]
  have hmlt : (m : ℚ) < 2 ^ 53 := by exact_mod_cast hc.lt
  have hmpos : (0 : ℚ) < m := by exact_mod_cast hc.pos
  have hle := hc.le_exponent
  rw [roundWithAccuracy, hfirst]
  dsimp only
  rcases htarget with rfl | ⟨rfl, rfl⟩
  · have hrounded : (ExtendedMantissa.ofMantissaAndAccuracy n accuracy >>> k).roundedMantissa = m := by
      refine roundedMantissa_eq hshift (abs_lt.mpr ⟨?_, ?_⟩) <;> linarith
    -- the rounded mantissa fits, and the second shift does nothing
    have hlog : m.log2 < 53 := (Nat.log2_lt hc.pos.ne').mpr hc.lt
    have hsecond : shiftToTargetExponent .binary64 m t .exact = (⟨m, false, false⟩, t) := by
      have hzero : (Format.binary64.targetExponent (totalExponent m t) - t).toNat = 0 := by
        rw [targetExponent_eq]
        omega
      simp only [shiftToTargetExponent, shiftToExponent, hzero]
      rw [Nat.cast_zero, add_zero]
      rfl
    rw [hrounded, hsecond]
    exact dif_neg hc.pos.ne'
  · -- the mantissa has a bit too many after rounding
    have hrounded : (ExtendedMantissa.ofMantissaAndAccuracy n accuracy >>> k).roundedMantissa =
        2 ^ 53 := by
      have hdouble : v / 2 ^ (e - 1) = v / 2 ^ e * 2 := by
        rw [zpow_sub_one₀ two_ne_zero]
        field_simp
      rw [hdouble] at hshift
      push_cast at hlow hhigh
      refine roundedMantissa_eq hshift (abs_lt.mpr ⟨?_, ?_⟩) <;> push_cast <;> linarith
    have hsecond : shiftToTargetExponent .binary64 (2 ^ 53) (e - 1) .exact =
        (⟨2 ^ 52, false, false⟩, e) := by
      have hone : (Format.binary64.targetExponent (totalExponent (2 ^ 53) (e - 1)) -
          (e - 1)).toNat = 1 := by
        rw [targetExponent_eq, Nat.log2_two_pow]
        omega
      simp only [shiftToTargetExponent, shiftToExponent, hone]
      rw [Nat.cast_one, sub_add_cancel]
      rfl
    rw [hrounded, hsecond]
    rfl

/-! ### Decimal numbers -/

theorem near_bounds (hc : Canonical m e) (h : Near v m e) : (2 : ℚ) ^ (e - 1) < v ∧ v < 2 ^ (1024 : ℤ) := by
  obtain ⟨hlow, hhigh⟩ := h.bounds
  have he₀ := zpow_two_pos e
  have hone : (1 : ℚ) ≤ m := by exact_mod_cast hc.pos
  have hmlt : (m : ℚ) ≤ 2 ^ 53 - 1 := by
    have hcast : ((m + 1 : ℕ) : ℚ) ≤ ((2 ^ 53 : ℕ) : ℚ) := Nat.cast_le.mpr hc.lt
    push_cast at hcast
    linarith
  rw [lt_div_iff₀ he₀] at hlow
  rw [div_lt_iff₀ he₀] at hhigh
  constructor
  · rw [zpow_sub_one₀ two_ne_zero, mul_comm]
    refine lt_trans ((mul_lt_mul_iff_left₀ he₀).mpr ?_) hlow
    linarith
  · have hexp : (2 : ℚ) ^ e ≤ 2 ^ (971 : ℤ) := zpow_le_zpow_right₀ one_le_two hc.exponent_le
    have hbound : (m : ℚ) * (1 + 1 / 2 ^ 54) < 2 ^ (53 : ℤ) := by
      have hcast : (m : ℚ) * (1 + 1 / 2 ^ 54) < 2 ^ 53 := by linarith
      exact_mod_cast hcast
    calc v < (m : ℚ) * (1 + 1 / 2 ^ 54) * 2 ^ e := hhigh
      _ ≤ 2 ^ (53 : ℤ) * 2 ^ (971 : ℤ) := mul_le_mul hbound.le hexp he₀.le (by positivity)
      _ = 2 ^ (1024 : ℤ) := by rw [← zpow_add₀ two_ne_zero]; norm_num

/-- The exponents of ten that keep a number near a double are in the range that is read. -/
theorem exponent_of_near {n : ℕ} {k : ℤ} (hn : 0 < n) (hc : Canonical m e)
    (h : Near (n * 10 ^ k) m e) : k ≤ 2048 ∧ -(2048 + n.log2 : ℤ) ≤ k := by
  obtain ⟨hlow, hhigh⟩ := near_bounds hc h
  have hone : (1 : ℚ) ≤ n := by exact_mod_cast hn
  have hle := hc.le_exponent
  constructor
  · by_contra hk
    have hten : (2 : ℚ) ^ k ≤ 10 ^ k := by
      obtain ⟨k', rfl⟩ : ∃ k' : ℕ, k = k' := ⟨k.toNat, by omega⟩
      rw [zpow_natCast, zpow_natCast]
      exact pow_le_pow_left₀ (by norm_num) (by norm_num) k'
    have hten₀ : (0 : ℚ) < 10 ^ k := by positivity
    have hlt : (2 : ℚ) ^ k < 2 ^ (1024 : ℤ) := by
      refine hten.trans_lt (lt_of_le_of_lt ?_ hhigh)
      exact le_mul_of_one_le_left hten₀.le hone
    have hlt' := lt_of_zpow_lt hlt
    omega
  · by_contra hk
    have hlog : (n : ℚ) < 2 ^ ((n.log2 : ℤ) + 1) := by exact_mod_cast Nat.lt_log2_self
    have hten : (10 : ℚ) ^ k ≤ 2 ^ k := by
      obtain ⟨k', rfl⟩ : ∃ k' : ℕ, k = -k' := ⟨(-k).toNat, by omega⟩
      rw [zpow_neg, zpow_neg, zpow_natCast, zpow_natCast]
      exact inv_anti₀ (by positivity) (pow_le_pow_left₀ (by norm_num) (by norm_num) k')
    have hlt : (2 : ℚ) ^ (e - 1) < 2 ^ ((n.log2 : ℤ) + 1 + k) := by
      rw [zpow_add₀ two_ne_zero]
      refine hlow.trans_le (mul_le_mul hlog.le hten (by positivity) (by positivity))
    have hlt' := lt_of_zpow_lt hlt
    omega

/-- The quotient of the division has a bit more than the mantissa, or the least exponent. -/
theorem le_targetExponent_div {n d : ℕ} (hn : 0 < n) (hd : 0 < d) {x : ℤ}
    (hx : x = min 0 (Format.binary64.targetExponent (totalExponent n 0 - totalExponent d 0))) :
    x ≤ Format.binary64.targetExponent (totalExponent ((n <<< (-x).toNat) / d) x) := by
  rw [targetExponent_eq]
  have htarget : Format.binary64.targetExponent (totalExponent n 0 - totalExponent d 0) =
      max ((n.log2 : ℤ) - d.log2 - 53) (-1074) := by
    show max ((n.log2 : ℤ) + 1 + 0 - (d.log2 + 1 + 0) - ((1 + 52 : ℕ) : ℤ))
      (3 - 2 ^ (11 - 1) - ((1 + 52 : ℕ) : ℤ)) = _
    omega
  rw [htarget] at hx
  by_cases hmin : x ≤ -1074
  · omega
  -- the quotient has more than 52 bits
  have hquotient : 2 ^ 52 ≤ n <<< (-x).toNat / d := by
    have hlogn := Nat.log2_self_le hn.ne'
    have hlogd : d < 2 ^ (d.log2 + 1) := Nat.lt_log2_self
    rw [Nat.le_div_iff_mul_le hd, Nat.shiftLeft_eq]
    calc 2 ^ 52 * d ≤ 2 ^ 52 * 2 ^ (d.log2 + 1) := Nat.mul_le_mul_left _ hlogd.le
      _ = 2 ^ (52 + (d.log2 + 1)) := (pow_add _ _ _).symm
      _ ≤ 2 ^ (n.log2 + (-x).toNat) := Nat.pow_le_pow_right (by decide) (by omega)
      _ = 2 ^ n.log2 * 2 ^ (-x).toNat := pow_add _ _ _
      _ ≤ n * 2 ^ (-x).toNat := Nat.mul_le_mul_right _ hlogn
  have hlog := (Nat.le_log2 (by omega)).mpr hquotient
  omega

theorem div_finite {n d : ℕ} (hn : 0 < n) (hd : 0 < d) :
    UnpackedFloat.div .binary64 (.finite .positive n 0 hn) (.finite .positive d 0 hd) =
      let x := min 0 (Format.binary64.targetExponent (totalExponent n 0 - totalExponent d 0))
      roundWithAccuracy .binary64 .positive (n <<< (-x).toNat / d) x
        (accuracyOfFraction (n <<< (-x).toNat % d) d) := by
  simp only [UnpackedFloat.div, divCore, sub_zero, zero_sub]
  rfl

/-- A decimal number near a double is rounded to it. -/
theorem unpackedOfScientific_eq {n : ℕ} {k : ℤ} (hn : 0 < n) (hc : Canonical m e)
    (h : Near (n * 10 ^ k) m e) :
    UnpackedFloat.ofScientific .binary64 n k = .finite .positive m e hc.pos := by
  obtain ⟨hle, hge⟩ := exponent_of_near hn hc h
  unfold UnpackedFloat.ofScientific
  rw [dif_neg hn.ne', if_neg (by show ¬ k > 2 ^ 11; omega),
    if_neg (by show ¬ k < -(2 ^ 11 + (n.log2 : ℤ)); omega)]
  split
  · next hk =>
    obtain ⟨k, rfl⟩ : ∃ k' : ℕ, k = k' := ⟨k.toNat, by omega⟩
    refine roundWithAccuracy_eq _ hc h ?_ ?_
    · show (n * 10 ^ (k : ℤ) / 2 ^ (-53 + 0 : ℤ) : ℚ) = ((n <<< 53 * 10 ^ (k : ℤ).toNat : ℕ) : ℚ)
      rw [Nat.shiftLeft_eq, Int.toNat_natCast, add_zero, zpow_neg, div_inv_eq_mul]
      push_cast
      rw [zpow_natCast]
      ring
    · rw [targetExponent_eq]
      have hlarge : 2 ^ 53 ≤ n <<< 53 * 10 ^ (k : ℤ).toNat := by
        rw [Nat.shiftLeft_eq]
        exact Nat.le_mul_of_pos_right _ (by positivity) |>.trans' (Nat.le_mul_of_pos_left _ hn)
      have hlog := (Nat.le_log2 (by omega)).mpr hlarge
      show (-53 + 0 : ℤ) ≤ max (((n <<< 53 * 10 ^ (k : ℤ).toNat).log2 : ℤ) + (-53 + 0) - 52) _
      omega
  · next hk =>
    obtain ⟨k, rfl⟩ : ∃ k' : ℕ, k = -k' := ⟨(-k).toNat, by omega⟩
    have hd : 0 < 10 ^ (- -(k : ℤ)).toNat := by positivity
    rw [div_finite hn hd]
    have hx := le_targetExponent_div hn hd rfl
    have hle := min_le_left 0 (Format.binary64.targetExponent
      (totalExponent n 0 - totalExponent (10 ^ (- -(k : ℤ)).toNat) 0))
    dsimp only
    generalize min 0 (Format.binary64.targetExponent
      (totalExponent n 0 - totalExponent (10 ^ (- -(k : ℤ)).toNat) 0)) = x at hx hle ⊢
    refine roundWithAccuracy_eq _ hc h ?_ hx
    obtain ⟨x, rfl⟩ : ∃ x' : ℕ, x = -x' := ⟨(-x).toNat, by omega⟩
    have hvalue : (n * 10 ^ (-(k : ℤ)) / 2 ^ (-(x : ℤ)) : ℚ) =
        ((n <<< (- -(x : ℤ)).toNat : ℕ) : ℚ) / ((10 ^ (- -(k : ℤ)).toNat : ℕ) : ℚ) := by
      rw [Nat.shiftLeft_eq, neg_neg, neg_neg, Int.toNat_natCast, Int.toNat_natCast, zpow_neg,
        zpow_neg, zpow_natCast, zpow_natCast, div_inv_eq_mul]
      push_cast
      field_simp
    rw [hvalue]
    exact approximates_div _ hd

end

/-! ### The bits of a double -/

theorem unpackSign_packComponents (sign : Sign) (exponent : BitVec 11) (mantissa : BitVec 52) :
    Sign.ofBitVec (unpackSign (packComponents .binary64 sign exponent mantissa)) = sign := by
  have hsign : unpackSign (packComponents .binary64 sign exponent mantissa) = sign.toBitVec := by
    ext i hi
    obtain rfl : i = 0 := by omega
    simp only [unpackSign, packComponents, BitVec.extractLsb, BitVec.getElem_cast,
      BitVec.getElem_extractLsb']
    rw [BitVec.getLsbD_append, if_neg (by decide), BitVec.getLsbD_append, if_neg (by decide)]
    rfl
  rw [hsign]
  cases sign <;> rfl

/-- The parts of the bits put together again. -/
theorem packComponents_unpack (b : BitVec Format.binary64.numBits) :
    packComponents .binary64 (Sign.ofBitVec (unpackSign b)) (unpackExponent b)
      (unpackMantissa b) = b := by
  have hsign (v : BitVec 1) : (Sign.ofBitVec v).toBitVec = v := by
    revert v
    decide
  rw [packComponents, hsign]
  ext i hi
  simp only [unpackSign, unpackExponent, unpackMantissa, BitVec.extractLsb]
  grind

section

variable {m : ℕ} {e : ℤ}

theorem log2_eq_of_normal (h : 2 ^ 52 ≤ m) (hlt : m < 2 ^ 53) : m.log2 = 52 := by
  have hge := (Nat.le_log2 (by omega)).mpr h
  have hle := (Nat.log2_lt (by omega)).mpr hlt
  omega

/-- What a canonical number is packed to. -/
theorem pack_of_canonical (s : Sign) (hc : Canonical m e) :
    UnpackedFloat.pack .binary64 (.finite s m e hc.pos) =
      packComponents .binary64 s (if 2 ^ 52 ≤ m then BitVec.ofNat 11 (e + 1075).toNat else 0)
        (BitVec.ofNat 52 m) := by
  obtain ⟨hpos, hlt, hle, hexp, hnormal⟩ := hc
  have hbias : (e + (Format.binary64.exponentBias : ℕ) +
      (Format.binary64.mantissaBitsWithoutImplicit : ℕ)).toNat = (e + 1075).toNat := by
    show (e + ((2 ^ (11 - 1) - 1 : ℕ) : ℤ) + (52 : ℕ)).toNat = _
    congr 1
    omega
  rw [UnpackedFloat.pack]
  simp only [hbias]
  rw [if_neg (by show ¬ 2 ^ 11 ≤ (e + 1075).toNat + 1; omega)]
  by_cases hm : 2 ^ 52 ≤ m
  · rw [if_pos hm, if_pos (by rw [log2_eq_of_normal hm hlt]; rfl)]
  · have hlog := (Nat.log2_lt hpos.ne').mpr (not_le.mp hm)
    rw [if_neg hm, if_neg (by show ¬ m.log2 + 1 = 1 + 52; omega)]
    rfl

theorem toNat_append_one (v : BitVec 52) : (1#1 ++ v).toNat = 2 ^ 52 + v.toNat := by
  rw [BitVec.toNat_append, ← Nat.shiftLeft_add_eq_or_of_lt v.isLt]
  rfl

/-- Packing is undone. -/
theorem unpack_pack (s : Sign) (hc : Canonical m e) :
    (Float.Model.pack (.finite s m e hc.pos)).unpack = .finite s m e hc.pos := by
  show UnpackedFloat.unpack .binary64 (UnpackedFloat.pack .binary64 (.finite s m e hc.pos)) = _
  rw [pack_of_canonical s hc, UnpackedFloat.unpack]
  simp only [unpackMantissa_packComponents, unpackExponent_packComponents,
    unpackSign_packComponents]
  obtain ⟨hpos, hlt, hle, hexp, hnormal⟩ := hc
  by_cases hm : 2 ^ 52 ≤ m
  · have hexponent : (BitVec.ofNat 11 (e + 1075).toNat).toNat = (e + 1075).toNat :=
      Nat.mod_eq_of_lt (by omega)
    -- the exponent is neither that of the infinities nor that of the small numbers
    have hones : BitVec.ofNat 11 (e + 1075).toNat ≠ -1#11 := by
      intro h
      have heq := congrArg BitVec.toNat h
      rw [hexponent] at heq
      have hval : (-1#11 : BitVec 11).toNat = 2047 := rfl
      omega
    have hzero : BitVec.ofNat 11 (e + 1075).toNat ≠ 0#11 := by
      intro h
      have heq := congrArg BitVec.toNat h
      rw [hexponent] at heq
      have hval : (0#11 : BitVec 11).toNat = 0 := rfl
      omega
    have hmantissa : (1#1 ++ BitVec.ofNat 52 m).toNat = m := by
      rw [toNat_append_one, BitVec.toNat_ofNat]
      omega
    rw [if_pos hm]
    simp only [hones, hzero, if_false, hmantissa, hexponent]
    congr 1
    show ((e + 1075).toNat : ℤ) - (((2 ^ (11 - 1) - 1 : ℕ) : ℤ) + (52 : ℕ)) = e
    omega
  · -- a small number, which has no hidden bit
    have hmantissa : (BitVec.ofNat 52 m).toNat = m := Nat.mod_eq_of_lt (by omega)
    have hzero : BitVec.ofNat 52 m ≠ 0#52 := by
      intro h
      have heq := congrArg BitVec.toNat h
      rw [hmantissa] at heq
      have hval : (0#52 : BitVec 52).toNat = 0 := rfl
      omega
    have hones : (0 : BitVec 11) ≠ -1#11 := by decide
    rw [if_neg hm]
    simp only [hones, hzero, if_false, dif_neg, not_false_eq_true, hmantissa]
    rw [if_pos (show (0 : BitVec 11) = 0#11 from rfl)]
    congr 1
    show ((0 : ℕ) : ℤ) - (((2 ^ (11 - 1) - 1 : ℕ) : ℤ) + (52 : ℕ)) + 1 = e
    omega

/-- A finite double is canonical, and unpacking is undone. -/
theorem canonical_of_unpack {d : UInt64} {s : Sign} {hm : 0 < m}
    (h : unpack d = .finite s m e hm) :
    Canonical m e ∧ (Float.Model.pack (.finite s m e hm)).toBits = d := by
  have hcomponents := packComponents_unpack d.toBitVec
  have hbits (hc : Canonical m e) (hpack : packComponents .binary64 s
      (if 2 ^ 52 ≤ m then BitVec.ofNat 11 (e + 1075).toNat else 0) (BitVec.ofNat 52 m) =
      d.toBitVec) : (Float.Model.pack (.finite s m e hm)).toBits = d := by
    apply UInt64.toBitVec_inj.mp
    exact (pack_of_canonical s hc).trans hpack
  unfold unpack UnpackedFloat.unpack at h
  dsimp only at h
  split at h
  · split at h <;> cases h
  · next hones =>
    split at h
    · next hzero =>
      split at h
      · cases h
      · next hne =>
        -- a subnormal number
        injection h with hs hm' he
        rw [hs, hzero] at hcomponents
        rw [hzero] at he
        generalize @unpackMantissa .binary64 d.toBitVec = v at hcomponents hm'
        have hvlt : v.toNat < 2 ^ 52 := v.isLt
        have he' : -1074 = e := he
        subst hm' he'
        have hc : Canonical v.toNat (-1074) := ⟨hm, by omega, le_rfl, by omega, by omega⟩
        refine ⟨hc, hbits hc ?_⟩
        rw [if_neg (by omega), BitVec.ofNat_toNat, BitVec.setWidth_eq]
        exact hcomponents
    · next hzero =>
      injection h with hs hm' he
      rw [hs] at hcomponents
      rw [toNat_append_one] at hm'
      generalize @unpackMantissa .binary64 d.toBitVec = v at hcomponents hm'
      generalize @unpackExponent .binary64 d.toBitVec = x at hcomponents he hones hzero
      have hvlt : v.toNat < 2 ^ 52 := v.isLt
      have hxlt : x.toNat < 2 ^ 11 := x.isLt
      have hxne : x.toNat ≠ 0 := fun h => hzero (BitVec.eq_of_toNat_eq h)
      have hxne' : x.toNat ≠ 2047 := fun h => hones (BitVec.eq_of_toNat_eq h)
      have he' : (x.toNat : ℤ) - 1075 = e := he
      subst hm' he'
      have hc : Canonical (2 ^ 52 + v.toNat) (x.toNat - 1075) :=
        ⟨hm, by omega, by omega, by omega, by omega⟩
      refine ⟨hc, hbits hc ?_⟩
      have hexponent : ((x.toNat : ℤ) - 1075 + 1075).toNat = x.toNat := by omega
      have hmantissa : BitVec.ofNat 52 (2 ^ 52 + v.toNat) = v := by
        apply BitVec.eq_of_toNat_eq
        rw [BitVec.toNat_ofNat]
        omega
      rw [if_pos (by omega), hexponent, hmantissa, BitVec.ofNat_toNat, BitVec.setWidth_eq]
      exact hcomponents

/-- **A decimal number near a double is read as this double.** -/
theorem ofScientific_eq {d : UInt64} {s : Sign} {hm : 0 < m} (h : unpack d = .finite s m e hm)
    {n : ℕ} {k : ℤ} (hn : 0 < n) (hnear : Near (n * 10 ^ k) m e) :
    withSign (s == .negative) (.ofScientific n k) = d := by
  obtain ⟨hc, hbits⟩ := canonical_of_unpack h
  have hunpacked := unpackedOfScientific_eq hn hc hnear
  rw [withSign, Float.Model.ofScientific, hunpacked, ← hbits]
  cases s with
  | positive => rfl
  | negative =>
    rw [if_pos (by rfl), Float.Model.neg, unpack_pack _ hc]
    rfl

end

end CLib.Double
