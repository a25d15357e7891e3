import Domoticz.CLib.Bytes

/-!
# Sums in one's complement

The words of a text are the pairs of its bytes, the first of a pair in front; a byte that is left
over is padded with a zero.  Their sum in one's complement adds the carry at the other end.

## Main definitions

* `wordSum`, `onesSum` — the sum of the words, and that in one's complement.

## Main results

* `onesSum_eq_iff` — the sum in one's complement is all ones exactly for the multiples of 65535.
* `onesSum_set_ne` — **the sum tells when a single byte is changed.**
-/

namespace CLib

/-- The sum of the big-endian words; the last one is filled with a zero byte. -/
def wordSum : Bytes → ℕ
  | a :: b :: s => a.toNat * 256 + b.toNat + wordSum s
  | [a] => a.toNat * 256
  | [] => 0

/-- The sum of two words, with the carry at the other end. -/
def onesAdd (m n : ℕ) : ℕ := if m + n < 65536 then m + n else m + n - 65535

/-- The ones' complement sum of the words. -/
def onesSum : Bytes → ℕ
  | a :: b :: s => onesAdd (a.toNat * 256 + b.toNat) (onesSum s)
  | [a] => a.toNat * 256
  | [] => 0

theorem wordSum_le (s : Bytes) : wordSum s ≤ 65535 * ((s.length + 1) / 2) := by
  induction s using wordSum.induct with
  | case1 a b s ih =>
    have ha := a.toNat_lt
    have hb := b.toNat_lt
    rw [wordSum, List.length_cons, List.length_cons]
    omega
  | case2 a =>
    have ha := a.toNat_lt
    rw [wordSum, List.length_singleton]
    omega
  | case3 => exact Nat.zero_le _

/-- The sum in one's complement is that of the words, up to multiples of 65535. -/
theorem onesSum_spec (s : Bytes) : onesSum s ≤ 65535 ∧ onesSum s % 65535 = wordSum s % 65535 ∧
    (onesSum s = 0 ↔ wordSum s = 0) := by
  induction s using wordSum.induct with
  | case1 a b s ih =>
    obtain ⟨hle, hmod, hzero⟩ := ih
    have ha := a.toNat_lt
    have hb := b.toNat_lt
    rw [onesSum, wordSum, onesAdd]
    split <;> omega
  | case2 a =>
    have ha := a.toNat_lt
    rw [onesSum, wordSum]
    omega
  | case3 => exact ⟨Nat.zero_le _, rfl, Iff.rfl⟩

theorem onesSum_eq_iff (s : Bytes) : onesSum s = 65535 ↔ wordSum s % 65535 = 0 ∧ wordSum s ≠ 0 := by
  obtain ⟨hle, hmod, hzero⟩ := onesSum_spec s
  omega

/-- What a byte counts for, by its position. -/
def weight (i : ℕ) : ℕ := if i % 2 = 0 then 256 else 1

theorem weight_add_two (i : ℕ) : weight (i + 2) = weight i := by
  rw [weight, weight, Nat.add_mod_right]

/-- A byte is replaced. -/
theorem wordSum_set {s : Bytes} {i : ℕ} {a : UInt8} (h : s[i]? = some a) (b : UInt8) :
    wordSum (s.set i b) + weight i * a.toNat = wordSum s + weight i * b.toNat := by
  induction s using wordSum.induct generalizing i with
  | case1 c d s ih =>
    rcases i with _ | _ | i
    · obtain rfl := Option.some.inj h
      show b.toNat * 256 + d.toNat + wordSum s + 256 * c.toNat =
        c.toNat * 256 + d.toNat + wordSum s + 256 * b.toNat
      omega
    · obtain rfl := Option.some.inj h
      show c.toNat * 256 + b.toNat + wordSum s + 1 * d.toNat =
        c.toNat * 256 + d.toNat + wordSum s + 1 * b.toNat
      omega
    · have hrest := @ih i h
      show c.toNat * 256 + d.toNat + wordSum (s.set i b) + weight (i + 2) * a.toNat =
        c.toNat * 256 + d.toNat + wordSum s + weight (i + 2) * b.toNat
      rw [weight_add_two]
      omega
  | case2 c =>
    rcases i with _ | i
    · obtain rfl := Option.some.inj h
      show b.toNat * 256 + 256 * c.toNat = c.toNat * 256 + 256 * b.toNat
      omega
    · cases h
  | case3 => cases h

/-- **A sum that is all ones is so no more when a byte is changed.** -/
theorem onesSum_set_ne {s : Bytes} (hs : onesSum s = 65535) {i : ℕ} {a b : UInt8}
    (h : s[i]? = some a) (hne : a ≠ b) : onesSum (s.set i b) ≠ 65535 := by
  intro hset
  have hsum := wordSum_set h b
  have hmod := ((onesSum_eq_iff s).mp hs).1
  have hmod' := ((onesSum_eq_iff _).mp hset).1
  have ha := a.toNat_lt
  have hb := b.toNat_lt
  have hneq : a.toNat ≠ b.toNat := fun heq => hne (UInt8.toNat_inj.mp heq)
  unfold weight at hsum
  split at hsum <;> omega

end CLib
