import Mathlib.Algebra.Order.Round
import Mathlib.Tactic

/-!
# Whole parts and rounding

`modf` and `round` of the C library, over a field in which numbers have a floor.  `round` takes a
number in the middle away from zero, and Mathlib's one upwards; they agree from zero on.

## Main definitions

* `modf`, `roundAway` — `modf` and `std::round`.

## Main results

* `modf_of_nonneg`, `roundAway_of_nonneg` — both from zero on.
* `round_mul_eq` — a multiple is rounded by its fraction.
* `abs_round_add_sub_le` — what is added moves the result by no more.
-/

namespace CLib

variable {α : Type*} [Field α] [LinearOrder α] [FloorRing α]

/-- `modf`: the fraction and the whole part, both with the sign of the number. -/
def modf (x : α) : α × ℤ :=
  let whole := if 0 ≤ x then ⌊x⌋ else ⌈x⌉
  (x - whole, whole)

/-- `std::round`. -/
def roundAway (x : α) : ℤ := if 0 ≤ x then ⌊x + 1 / 2⌋ else ⌈x - 1 / 2⌉

theorem modf_of_nonneg {x : α} (h : 0 ≤ x) : modf x = (Int.fract x, ⌊x⌋) := by
  simp only [modf, if_pos h, Int.fract]

variable [IsStrictOrderedRing α]

theorem roundAway_of_nonneg {x : α} (h : 0 ≤ x) : roundAway x = round x := by
  rw [roundAway, if_pos h, round_eq]

/-- The whole part of a number is not rounded. -/
theorem round_mul_eq (n : ℕ) (x : α) :
    round (n * x) = n * ⌊x⌋ + round (n * Int.fract x) := by
  have hx : (n * x : α) = ((n * ⌊x⌋ : ℤ) : α) + n * Int.fract x := by
    rw [Int.fract]
    push_cast
    ring
  rw [hx, round_intCast_add]

theorem round_mono {x y : α} (h : x ≤ y) : round x ≤ round y := by
  rw [round_eq, round_eq]
  apply Int.floor_le_floor
  linarith

/-- A number of less than `n` moves the result by at most `n`. -/
theorem abs_round_add_sub_le (x : α) {y : α} {n : ℤ} (h : |y| ≤ n) :
    |round (x + y) - round x| ≤ n := by
  obtain ⟨hlow, hhigh⟩ := abs_le.mp h
  have hle : round (x + y) ≤ round x + n := by
    rw [← round_add_intCast]
    exact round_mono (by linarith)
  have hge : round x - n ≤ round (x + y) := by
    rw [← round_sub_intCast]
    exact round_mono (by linarith)
  rw [abs_le]
  constructor
  · linarith
  · linarith

end CLib
