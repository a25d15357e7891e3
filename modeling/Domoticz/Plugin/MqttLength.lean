import Domoticz.Plugin.MqttOutbound

/-!
# The length of an MQTT packet

The loop of `ProcessOutbound` that writes a Remaining Length goes on while there is something
left of it, for up to four bytes.  The loop of `ProcessInbound` gives up when the multiplier
has become too large for a next byte, and it does so before it looks whether there is a next
byte.  So it never gets through with four.

## Main definitions

* `LengthCarried` — the length is read as it was written, from just its own bytes.
* `LongRejected` — a length of more than four bytes is not read.

## Main results

* `length_encodeLength` — the number of bytes of a length.
* `length_carried_iff` — **a length is carried exactly if it has at most three bytes.**
* `two_mebibytes_refused` — the first length of four bytes.
-/

namespace Domoticz.Mqtt

open CLib

/-- A Remaining Length, behind the first byte of a packet and in front of any bytes, is read as
it was written; and it takes one to four bytes, of which none is left over. -/
def LengthCarried (n : ℕ) : Prop :=
  (∀ (stray : ℕ → UInt8) (header : UInt8) (rest : Bytes),
    readLength (byteAt stray (header :: (remainingLength n ++ rest))) 4 1 0 1 =
      some (n, 1 + (remainingLength n).length)) ∧
    1 ≤ (remainingLength n).length ∧ (remainingLength n).length ≤ 4

/-- A field of more than four bytes, all but the last of which announce another one, is
malformed. -/
def LongRejected : Prop :=
  ∀ (stray : ℕ → UInt8) (header : UInt8) (field rest : Bytes) (last : UInt8), 4 ≤ field.length →
    (∀ b ∈ field, 128 ≤ b) →
    readLength (byteAt stray (header :: (field ++ last :: rest))) 4 1 0 1 = none

/-- The number of bytes of a length; the induction is on the bound. -/
theorem length_encodeLength {k n : ℕ} (h : n < 128 ^ (k + 1)) :
    1 ≤ (encodeLength n).length ∧ (encodeLength n).length ≤ k + 1 := by
  induction k generalizing n with
  | zero =>
    rw [encodeLength_of_lt (by omega)]
    exact ⟨le_refl _, le_refl _⟩
  | succ k ih =>
    by_cases hn : n < 128
    · rw [encodeLength_of_lt hn]
      exact ⟨le_refl _, Nat.le_add_left _ _⟩
    · have hdiv : n / 128 < 128 ^ (k + 1) := by
        rw [Nat.div_lt_iff_lt_mul (by decide), ← pow_succ]
        exact h
      have hrest := (ih hdiv).2
      rw [encodeLength_of_le (by omega), List.length_cons]
      omega

/-- Four bytes that announce another one are too many; the induction is on the passes that
are left, of which the multiplier has used up the others. -/
theorem readLength_of_continued {byte : ℕ → UInt8} {f it len multiplier : ℕ}
    (hm : multiplier * 128 ^ f = 128 ^ 3) (hb : ∀ i ≤ f, 128 ≤ byte (it + i)) :
    readLength byte (f + 1) it len multiplier = none := by
  induction f generalizing it len multiplier with
  | zero =>
    rw [readLength]
    exact if_pos (by omega)
  | succ f ih =>
    have hmore : byte it &&& 128 ≠ 0 := by
      rw [Ne, and_128_eq_zero_iff, not_lt]
      exact UInt8.le_iff_toNat_le.mp (hb 0 (Nat.zero_le _))
    have hnext : ∀ i ≤ f, 128 ≤ byte (it + 1 + i) := by
      intro i hi
      have h := hb (i + 1) (Nat.succ_le_succ hi)
      rwa [← Nat.add_assoc, Nat.add_right_comm] at h
    have hrest : readLength byte (f + 1) (it + 1) (len + (byte it &&& 127).toNat * multiplier)
        (multiplier * 128) = none := ih (by rw [mul_assoc, ← pow_succ']; exact hm) hnext
    rw [readLength]
    simp only [if_pos hmore, hrest, ite_self]

theorem longRejected : LongRejected := by
  intro stray header field rest last hlen hall
  refine readLength_of_continued rfl fun i hi => ?_
  have hlt : i < field.length := by omega
  have hbyte : byteAt stray (header :: (field ++ last :: rest)) (1 + i) = field[i] := by
    rw [byteAt, Nat.add_comm, List.getD_cons_succ, List.getD_append _ _ _ _ hlt,
      List.getD_eq_getElem _ _ hlt]
  rw [hbyte]
  exact hall _ (List.getElem_mem hlt)

/-- A length is carried, and longer fields are rejected, exactly for the lengths that take at
most three bytes. -/
theorem length_carried_iff (n : ℕ) : LengthCarried n ∧ LongRejected ↔ n < 2097152 := by
  constructor
  · rintro ⟨⟨hread, -⟩, -⟩
    by_contra hle
    have hnone : readLength (byteAt (fun _ => 0) (0 :: (remainingLength n ++ []))) 4 1 0 1 = none :=
      readLength_of_le _ rfl (not_lt.mp hle) (by rw [remainingLength_eq]; rfl)
    rw [hread] at hnone
    cases hnone
  · intro hn
    obtain ⟨hpos, hlen⟩ := length_encodeLength (k := 2) hn
    refine ⟨⟨fun stray header rest => ?_, ?_⟩, longRejected⟩
    · have hdrop : (header :: (remainingLength n ++ rest)).drop 1 = encodeLength n ++ rest := by
        rw [remainingLength_eq]
        rfl
      rw [readLength_encodeLength stray rfl hn (by decide) hdrop, remainingLength_eq, Nat.zero_add,
        Nat.mul_one]
    · rw [remainingLength_eq]
      omega

/-- A packet of 2 MiB is written with a length that is not read. -/
theorem two_mebibytes_refused :
    2097152 ≤ 268435455 ∧ ¬(LengthCarried 2097152 ∧ LongRejected) := by
  refine ⟨by decide, fun h => ?_⟩
  have hnone : readLength (byteAt (fun _ => 0) (0 :: (remainingLength 2097152 ++ []))) 4 1 0 1 =
      none := readLength_of_le _ rfl (le_refl (128 ^ 3)) (by rw [remainingLength_eq]; rfl)
  rw [h.1.1] at hnone
  cases hnone

end Domoticz.Mqtt
