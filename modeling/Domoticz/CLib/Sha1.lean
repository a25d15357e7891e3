import Domoticz.CLib.Bytes
import Mathlib.Data.List.GetD

/-!
# The secure hash algorithm with 160 bits

A message is padded to blocks of 64 bytes.  A block is sixteen words, from which a schedule of
eighty is made, and eighty rounds mix them into five words.

## Main definitions

* `schedule`, `round`, `compress` — what is done with a block.
* `pad`, `hashBlocks`, `sha1` — the hash of a message.

## Main results

* `schedule_congr`, `compress_congr` — what a block is compressed to depends on sixteen words.
* `hashBlocks_add`, `hashBlocks_append` — blocks one after the other.
* `word_append`, `word_replicate`, `word_lengthBytes` — the words of the parts of a text.
* `length_pad` — the number of blocks.
-/

namespace CLib.Sha1

/-- The five words. -/
@[ext] structure Words where
  a : UInt32
  b : UInt32
  c : UInt32
  d : UInt32
  e : UInt32
  deriving DecidableEq, Repr

/-- The word rotated to the left by `n` bits. -/
def rotl (x n : UInt32) : UInt32 := (x <<< n) ||| (x >>> (32 - n))

/-- `Ch`: each bit of `x` chooses between those of `y` and `z`. -/
def ch (x y z : UInt32) : UInt32 := (x &&& y) ^^^ (~~~x &&& z)

/-- `Parity`. -/
def parity (x y z : UInt32) : UInt32 := x ^^^ y ^^^ z

/-- `Maj`: the bit that most of the three have. -/
def maj (x y z : UInt32) : UInt32 := (x &&& y) ^^^ (x &&& z) ^^^ (y &&& z)

/-- The function of a round. -/
def f (t : ℕ) : UInt32 → UInt32 → UInt32 → UInt32 :=
  if t < 20 then ch else if t < 40 then parity else if t < 60 then maj else parity

/-- The constant of a round. -/
def constant (t : ℕ) : UInt32 :=
  if t < 20 then 0x5a827999 else if t < 40 then 0x6ed9eba1 else if t < 60 then 0x8f1bbcdc
  else 0xca62c1d6

/-- The message schedule of a block. -/
def schedule (M : ℕ → UInt32) (t : ℕ) : UInt32 :=
  if t < 16 then M t
  else rotl (schedule M (t - 3) ^^^ schedule M (t - 8) ^^^ schedule M (t - 14) ^^^
    schedule M (t - 16)) 1

/-- One round: the step of the working words for the word `t` of the schedule. -/
def round (M : ℕ → UInt32) (t : ℕ) (v : Words) : Words where
  a := rotl v.a 5 + f t v.b v.c v.d + v.e + constant t + schedule M t
  b := v.a
  c := rotl v.b 30
  d := v.c
  e := v.d

/-- The first rounds. -/
def rounds (M : ℕ → UInt32) (n : ℕ) (v : Words) : Words :=
  (List.range n).foldl (fun v t => round M t v) v

/-- Word for word. -/
def Words.add (v w : Words) : Words := ⟨v.a + w.a, v.b + w.b, v.c + w.c, v.d + w.d, v.e + w.e⟩

/-- The hash of one block: its eighty rounds, added to the words in front of it. -/
def compress (H : Words) (M : ℕ → UInt32) : Words := H.add (rounds M 80 H)

/-- A word of a text, which is zero behind the end. -/
def word (s : Bytes) (k : ℕ) : UInt32 :=
  ((s.getD (4 * k) 0).toUInt32 <<< 24) ||| ((s.getD (4 * k + 1) 0).toUInt32 <<< 16) |||
    ((s.getD (4 * k + 2) 0).toUInt32 <<< 8) ||| (s.getD (4 * k + 3) 0).toUInt32

/-- A number of 64 bits, the highest byte in front. -/
def lengthBytes (n : ℕ) : Bytes := (List.range 8).map fun i => UInt8.ofNat (n / 256 ^ (7 - i))

/-- The message with the bit behind it, the zeros and its length in bits, in whole blocks. -/
def pad (m : Bytes) : Bytes :=
  m ++ 0x80 :: (List.replicate ((119 - m.length % 64) % 64) 0 ++ lengthBytes (8 * m.length))

/-- So many blocks. -/
def hashBlocks : ℕ → Words → Bytes → Words
  | 0, H, _ => H
  | n + 1, H, s => hashBlocks n (compress H (word s)) (s.drop 64)

/-- The words in front of the first block. -/
def initial : Words := ⟨0x67452301, 0xefcdab89, 0x98badcfe, 0x10325476, 0xc3d2e1f0⟩

/-- The bytes of a word, the highest first. -/
def wordBytes (x : UInt32) : Bytes :=
  [(x >>> 24).toUInt8, (x >>> 16).toUInt8, (x >>> 8).toUInt8, x.toUInt8]

/-- The bytes of the five words. -/
def digest (H : Words) : Bytes :=
  wordBytes H.a ++ wordBytes H.b ++ wordBytes H.c ++ wordBytes H.d ++ wordBytes H.e

/-- The digest of a message. -/
def sha1 (m : Bytes) : Bytes := digest (hashBlocks ((pad m).length / 64) initial (pad m))

/-! ### A block -/

section Block

variable {M M' : ℕ → UInt32}

theorem schedule_of_lt {t : ℕ} (h : t < 16) : schedule M t = M t := by
  rw [schedule, if_pos h]

theorem schedule_of_le {t : ℕ} (h : 16 ≤ t) : schedule M t =
    rotl (schedule M (t - 3) ^^^ schedule M (t - 8) ^^^ schedule M (t - 14) ^^^
      schedule M (t - 16)) 1 := by
  rw [schedule, if_neg (Nat.not_lt.mpr h)]

/-- The schedule depends on the sixteen words of the block. -/
theorem schedule_congr (h : ∀ k < 16, M k = M' k) (t : ℕ) : schedule M t = schedule M' t := by
  induction t using Nat.strong_induction_on with
  | _ t ih =>
    by_cases ht : t < 16
    · rw [schedule_of_lt ht, schedule_of_lt ht, h t ht]
    · have hle := Nat.not_lt.mp ht
      rw [schedule_of_le hle, schedule_of_le hle, ih (t - 3) (by omega), ih (t - 8) (by omega),
        ih (t - 14) (by omega), ih (t - 16) (by omega)]

theorem rounds_succ (M : ℕ → UInt32) (n : ℕ) (v : Words) :
    rounds M (n + 1) v = round M n (rounds M n v) := by
  rw [rounds, List.range_succ, List.foldl_append]
  rfl

theorem compress_congr (h : ∀ k < 16, M k = M' k) (H : Words) : compress H M = compress H M' := by
  have hround : (fun v t => round M t v) = fun v t => round M' t v := by
    funext v t
    rw [round, round, schedule_congr h]
  rw [compress, compress, rounds, rounds, hround]

end Block

/-! ### Blocks -/

theorem hashBlocks_add (k n : ℕ) (H : Words) (s : Bytes) :
    hashBlocks (k + n) H s = hashBlocks n (hashBlocks k H s) (s.drop (64 * k)) := by
  induction k generalizing H s with
  | zero => rw [Nat.zero_add, hashBlocks, Nat.mul_zero, List.drop_zero]
  | succ k ih =>
    rw [Nat.succ_add, hashBlocks, hashBlocks, ih, List.drop_drop]
    congr 2
    omega

/-- A word in the front part of a text. -/
theorem word_append {s : Bytes} {k : ℕ} (h : 4 * k + 4 ≤ s.length) (t : Bytes) :
    word (s ++ t) k = word s k := by
  have hfront {i : ℕ} (hi : i < s.length) : (s ++ t).getD i 0 = s.getD i 0 :=
    List.getD_append s t 0 i hi
  rw [word, word, hfront (by omega), hfront (by omega), hfront (by omega), hfront (by omega)]

/-- What follows the blocks does not matter. -/
theorem hashBlocks_append {n : ℕ} {s : Bytes} (h : 64 * n ≤ s.length) (H : Words) (t : Bytes) :
    hashBlocks n H (s ++ t) = hashBlocks n H s := by
  induction n generalizing H s with
  | zero => rfl
  | succ n ih =>
    have hwords : compress H (word (s ++ t)) = compress H (word s) :=
      compress_congr (fun k hk => word_append (by omega) t) H
    rw [hashBlocks, hashBlocks, hwords, List.drop_append_of_le_length (by omega)]
    refine ih ?_ _
    rw [List.length_drop]
    omega

/-- Zeros behind the end are there anyway. -/
theorem word_replicate (s : Bytes) (z k : ℕ) : word (s ++ List.replicate z 0) k = word s k := by
  have hsame (i : ℕ) : (s ++ List.replicate z 0).getD i 0 = s.getD i 0 := by
    rcases Nat.lt_or_ge i s.length with hlt | hge
    · exact List.getD_append s _ 0 i hlt
    · rw [List.getD_append_right s _ 0 i hge, List.getD_eq_default s 0 hge]
      rcases Nat.lt_or_ge (i - s.length) z with hin | hout
      · exact List.getD_replicate 0 hin
      · exact List.getD_eq_default _ _ (by rw [List.length_replicate]; exact hout)
  rw [word, word, hsame, hsame, hsame, hsame]

/-- A word behind the front part. -/
theorem word_append_right {s : Bytes} {j : ℕ} (h : s.length = 4 * j) (t : Bytes) (k : ℕ) :
    word (s ++ t) (j + k) = word t k := by
  have hbehind (i : ℕ) : (s ++ t).getD (4 * (j + k) + i) 0 = t.getD (4 * k + i) 0 := by
    rw [List.getD_append_right s t 0 _ (by omega)]
    congr 1
    omega
  have hfirst := hbehind 0
  rw [Nat.add_zero, Nat.add_zero] at hfirst
  rw [word, word, hfirst, hbehind, hbehind, hbehind]

/-- Four bytes of a number. -/
theorem toUInt32_or (a b c d : ℕ) :
    ((UInt8.ofNat a).toUInt32 <<< 24 ||| (UInt8.ofNat b).toUInt32 <<< 16 |||
      (UInt8.ofNat c).toUInt32 <<< 8 ||| (UInt8.ofNat d).toUInt32).toNat =
      a % 256 * 2 ^ 24 + (b % 256 * 2 ^ 16 + (c % 256 * 2 ^ 8 + d % 256)) := by
  have hd : d % 2 ^ 8 < 2 ^ 8 := Nat.mod_lt _ (by decide)
  have hc : (c % 256) <<< 8 + d % 2 ^ 8 < 2 ^ 16 := by
    rw [Nat.shiftLeft_eq]
    omega
  have hb : (b % 256) <<< 16 + ((c % 256) <<< 8 + d % 2 ^ 8) < 2 ^ 24 := by
    rw [Nat.shiftLeft_eq]
    omega
  rw [UInt32.or_assoc, UInt32.or_assoc]
  have hmod (x i : ℕ) (h : x % 256 * 2 ^ i < 2 ^ 32) :
      (x % 2 ^ 8) <<< i % 2 ^ 32 = (x % 256) <<< i := by
    rw [Nat.shiftLeft_eq, Nat.shiftLeft_eq]
    exact Nat.mod_eq_of_lt h
  simp only [UInt32.toNat_or, UInt32.toNat_shiftLeft, UInt8.toNat_toUInt32, UInt8.toNat_ofNat',
    UInt32.reduceToNat, Nat.reduceMod]
  rw [hmod a 24 (by omega), hmod b 16 (by omega), hmod c 8 (by omega),
    ← Nat.shiftLeft_add_eq_or_of_lt hd, ← Nat.shiftLeft_add_eq_or_of_lt hc,
    ← Nat.shiftLeft_add_eq_or_of_lt hb, Nat.shiftLeft_eq, Nat.shiftLeft_eq, Nat.shiftLeft_eq]
  rfl

/-- A number of 32 bits is the second word of its eight bytes. -/
theorem word_lengthBytes {n : ℕ} (h : n < 2 ^ 32) :
    word (lengthBytes n) 0 = 0 ∧ word (lengthBytes n) 1 = UInt32.ofNat n := by
  have hbytes : lengthBytes n = [UInt8.ofNat (n / 256 ^ 7), UInt8.ofNat (n / 256 ^ 6),
      UInt8.ofNat (n / 256 ^ 5), UInt8.ofNat (n / 256 ^ 4), UInt8.ofNat (n / 256 ^ 3),
      UInt8.ofNat (n / 256 ^ 2), UInt8.ofNat (n / 256), UInt8.ofNat n] := by
    simp [lengthBytes, List.range_succ]
  have hhigh {k : ℕ} (hk : 4 ≤ k) : n / 256 ^ k = 0 := by
    have hpow := Nat.pow_le_pow_right (show 0 < 256 by decide) hk
    exact Nat.div_eq_of_lt (h.trans_le hpow)
  rw [hbytes, hhigh (by decide), hhigh (by decide), hhigh (by decide), hhigh le_rfl]
  refine ⟨by simp [word], ?_⟩
  apply UInt32.toNat_inj.mp
  refine (toUInt32_or _ _ _ _).trans ?_
  rw [UInt32.toNat_ofNat']
  omega

theorem length_lengthBytes (n : ℕ) : (lengthBytes n).length = 8 := by
  rw [lengthBytes, List.length_map, List.length_range]

/-- The padding fills one block or two. -/
theorem length_pad (m : Bytes) :
    (pad m).length = 64 * (m.length / 64 + if m.length % 64 < 56 then 1 else 2) := by
  rw [pad, List.length_append, List.length_cons, List.length_append, List.length_replicate,
    length_lengthBytes]
  split <;> omega

end CLib.Sha1
