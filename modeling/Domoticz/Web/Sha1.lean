import Domoticz.CLib.Sha1
import Mathlib.Tactic

/-!
# The hash of the websocket handshake

`sha1::calc` works on a buffer of eighty numbers, which is used again for every block.  Full blocks
are loaded word by word; the bytes of the last one are put into a cleared buffer one after the
other, and so is the bit behind them.  The number of bits is written as one number of 32 bits.

## Main definitions

* `innerHash`, `calcHash` — the functions of `sha1.hpp`.
* `Ran` — what the registers and the buffer hold after some rounds.
* `Loaded` — the buffer holds the words of some bytes.

## Main results

* `innerHash_eq` — a block is compressed as it should be.
* `loaded_orByte` — one byte more.
* `calcHash_blocks` — what is hashed for a message of any length.
* `calcHash_eq` — **the hash is that of the standard**, for messages of less than half a gigabyte.
-/

namespace Domoticz.Sha1

open CLib CLib.Sha1

/-! ### The code -/

/-- `rol`. -/
def rol (value steps : UInt32) : UInt32 := (value <<< steps) ||| (value >>> (32 - steps))

/-- `w`, with eighty numbers. -/
abbrev Buffer := List UInt32

/-- `clearWBuffert`. -/
def clearWBuffert (buffert : Buffer) : Buffer := List.replicate 16 0 ++ buffert.drop 16

/-- `sha1macro`, one round with its function and constant. -/
def sha1macro (func : UInt32 → UInt32 → UInt32 → UInt32) (val : UInt32) (w : Buffer) (round : ℕ)
    (r : Words) : Words :=
  let t := rol r.a 5 + func r.b r.c r.d + r.e + val + w.getD round 0
  ⟨t, r.a, rol r.b 30, r.c, r.d⟩

/-- A number that is made of the ones before. -/
def expand (w : Buffer) (round : ℕ) : Buffer :=
  w.set round (rol (w.getD (round - 3) 0 ^^^ w.getD (round - 8) 0 ^^^ w.getD (round - 14) 0 ^^^
    w.getD (round - 16) 0) 1)

/-- One of the loops of `innerHash`, with so many rounds. -/
def loop (expanding : Bool) (func : UInt32 → UInt32 → UInt32 → UInt32) (val : UInt32)
    (first n : ℕ) (s : Words × Buffer) : Words × Buffer :=
  (List.range' first n).foldl (fun s round =>
    let w := if expanding then expand s.2 round else s.2
    ( sha1macro func val w round s.1, w)) s

/-- `innerHash`: the eighty rounds of a block. -/
def innerHash (result : Words) (w : Buffer) : Words × Buffer :=
  let choice (b c d : UInt32) := (b &&& c) ||| (~~~b &&& d)
  let odd (b c d : UInt32) := b ^^^ c ^^^ d
  let most (b c d : UInt32) := (b &&& c) ||| (b &&& d) ||| (c &&& d)
  let s := loop false choice 0x5a827999 0 16 (result, w)
  let s := loop true choice 0x5a827999 16 4 s
  let s := loop true odd 0x6ed9eba1 20 20 s
  let s := loop true most 0x8f1bbcdc 40 20 s
  let s := loop true odd 0xca62c1d6 60 20 s
  (result.add s.1, s.2)

/-- "This line will swap endian on big endian and keep endian on little endian." -/
def blockWord (sarray : Bytes) (roundPos : ℕ) : UInt32 :=
  (sarray.getD (4 * roundPos + 3) 0).toUInt32 |||
    ((sarray.getD (4 * roundPos + 2) 0).toUInt32 <<< 8) |||
    ((sarray.getD (4 * roundPos + 1) 0).toUInt32 <<< 16) |||
    ((sarray.getD (4 * roundPos) 0).toUInt32 <<< 24)

/-- The words of a full block. -/
def load (w : Buffer) (sarray : Bytes) : Buffer :=
  (List.range 16).foldl (fun w roundPos => w.set roundPos (blockWord sarray roundPos)) w

/-- The full blocks, and what is left behind them. -/
def fullBlocks : ℕ → Bytes → Words → Buffer → Bytes × Words × Buffer
  | 0, sarray, result, w => (sarray, result, w)
  | n + 1, sarray, result, w =>
      let r := innerHash result (load w sarray)
      fullBlocks n (sarray.drop 64) r.1 r.2

/-- `w[i >> 2] |= x << ((3 - (i & 3)) << 3)`. -/
def orByte (w : Buffer) (i : ℕ) (x : UInt32) : Buffer :=
  w.set (i / 4) (w.getD (i / 4) 0 ||| (x <<< UInt32.ofNat ((3 - i % 4) * 8)))

/-- The order of the bytes in the result. -/
def hashBytes (result : Words) : Bytes :=
  (List.range 20).map fun hashByte =>
    (([result.a, result.b, result.c, result.d, result.e].getD (hashByte / 4) 0 >>>
      UInt32.ofNat ((3 - hashByte % 4) * 8)) &&& 0xff).toUInt8

/-- What is done when the last byte and the bit behind it are in the buffer. -/
def finish (endCurrentBlock bytelength : ℕ) (result : Words) (w : Buffer) : Words :=
  let r := if 56 ≤ endCurrentBlock then
      let r := innerHash result w
      (r.1, clearWBuffert r.2)
    else (result, w)
  (innerHash r.1 (r.2.set 15 (UInt32.ofNat (bytelength * 2 ^ 3)))).1

/-- `calc`; the buffer has not been set. -/
def calcHash (w : Buffer) (src : Bytes) : Bytes :=
  let full := fullBlocks (src.length / 64) src initial w
  let last := full.1
  let w := last.zipIdx.foldl (fun w p => orByte w p.2 p.1.toUInt32) (clearWBuffert full.2.2)
  let w := orByte w last.length 0x80
  hashBytes (finish last.length src.length full.2.1 w)

/-! ### Rounds -/

theorem choice_eq (b c d : UInt32) : (b &&& c) ||| (~~~b &&& d) = ch b c d := by
  apply UInt32.toBitVec_inj.mp
  simp only [ch, UInt32.toBitVec_or, UInt32.toBitVec_and, UInt32.toBitVec_not, UInt32.toBitVec_xor]
  ext i hi
  simp only [BitVec.getElem_or, BitVec.getElem_and, BitVec.getElem_not, BitVec.getElem_xor]
  cases b.toBitVec[i] <;> simp

theorem most_eq (b c d : UInt32) : (b &&& c) ||| (b &&& d) ||| (c &&& d) = maj b c d := by
  apply UInt32.toBitVec_inj.mp
  simp only [maj, UInt32.toBitVec_or, UInt32.toBitVec_and, UInt32.toBitVec_xor]
  ext i hi
  simp only [BitVec.getElem_or, BitVec.getElem_and, BitVec.getElem_xor]
  cases b.toBitVec[i] <;> cases c.toBitVec[i] <;> simp

theorem getD_set {w : Buffer} {i : ℕ} (hi : i < w.length) (x : UInt32) (k : ℕ) :
    (w.set i x).getD k 0 = if i = k then x else w.getD k 0 := by
  rw [List.getD_eq_getElem?_getD, List.getElem?_set, List.getD_eq_getElem?_getD]
  split
  · next => rw [Option.getD_some]
  · next => rfl

section Rounds

variable {M : ℕ → UInt32} {H : Words}

/-- What the registers and the buffer hold after `t` rounds. -/
structure Ran (M : ℕ → UInt32) (H : Words) (t : ℕ) (s : Words × Buffer) : Prop where
  words : s.1 = rounds M t H
  length : s.2.length = 80
  schedule : ∀ k, k < 16 ∨ k < t → s.2.getD k 0 = schedule M k

/-- A loop that does what the standard says of its rounds. -/
structure Fits (expanding : Bool) (func : UInt32 → UInt32 → UInt32 → UInt32) (val : UInt32)
    (t : ℕ) : Prop where
  expanding_iff : expanding = true ↔ 16 ≤ t
  func_eq : ∀ x y z, func x y z = f t x y z
  val_eq : val = constant t

theorem expand_spec {t : ℕ} {s : Words × Buffer} (ht : 16 ≤ t) (hlt : t < 80) (h : Ran M H t s) :
    (expand s.2 t).length = 80 ∧
      ∀ k, k < t + 1 → (expand s.2 t).getD k 0 = CLib.Sha1.schedule M k := by
  have hlen : t < s.2.length := by
    rw [h.length]
    exact hlt
  refine ⟨by rw [expand, List.length_set, h.length], fun k hk => ?_⟩
  rw [expand, getD_set hlen]
  split
  · next heq =>
    subst heq
    rw [schedule_of_le ht, h.schedule _ (.inr (by omega)), h.schedule _ (.inr (by omega)),
      h.schedule _ (.inr (by omega)), h.schedule _ (.inr (by omega))]
    rfl
  · exact h.schedule k (.inr (by omega))

/-- **A round.** -/
theorem ran_step {expanding : Bool} {func : UInt32 → UInt32 → UInt32 → UInt32} {val : UInt32}
    {t : ℕ} {s : Words × Buffer} (hlt : t < 80) (hfits : Fits expanding func val t)
    (h : Ran M H t s) :
    let w := if expanding then expand s.2 t else s.2
    Ran M H (t + 1) ( sha1macro func val w t s.1, w) := by
  intro w
  have hw : w.length = 80 ∧ ∀ k, k < 16 ∨ k < t + 1 → w.getD k 0 = CLib.Sha1.schedule M k := by
    by_cases ht : 16 ≤ t
    · obtain ⟨hlen, hwords⟩ := expand_spec ht hlt h
      have hexpand : w = expand s.2 t := if_pos (hfits.expanding_iff.mpr ht)
      rw [hexpand]
      exact ⟨hlen, fun k hk => hwords k (by omega)⟩
    · have hsame : w = s.2 := if_neg (mt hfits.expanding_iff.mp ht)
      rw [hsame]
      exact ⟨h.length, fun k hk => h.schedule k (by omega)⟩
  refine ⟨?_, hw.1, hw.2⟩
  show sha1macro func val w t s.1 = rounds M (t + 1) H
  rw [rounds_succ, ← h.words, sha1macro, hfits.func_eq, hfits.val_eq, hw.2 t (by omega)]
  rfl

/-- The rounds of a loop. -/
theorem ran_loop {expanding : Bool} {func : UInt32 → UInt32 → UInt32 → UInt32} {val : UInt32}
    {first n : ℕ} (hle : first + n ≤ 80)
    (hfits : ∀ t, first ≤ t → t < first + n → Fits expanding func val t) {s : Words × Buffer}
    (h : Ran M H first s) : Ran M H (first + n) (loop expanding func val first n s) := by
  induction n generalizing first s with
  | zero => exact h
  | succ n ih =>
    have hfirst := ran_step (by omega) (hfits first le_rfl (by omega)) h
    have hrest := ih (by omega) (fun t ht ht' => hfits t (by omega) (by omega)) hfirst
    rw [Nat.add_right_comm] at hrest
    exact hrest

section Loops

variable {expanding : Bool} {t : ℕ}

theorem fits_choice (h : expanding = true ↔ 16 ≤ t) (ht : t < 20) :
    Fits expanding (fun b c d => (b &&& c) ||| (~~~b &&& d)) 0x5a827999 t where
  expanding_iff := h
  func_eq x y z := by rw [choice_eq, f, if_pos ht]
  val_eq := by rw [constant, if_pos ht]

theorem fits_odd (h : expanding = true ↔ 16 ≤ t) (hle : 20 ≤ t) (ht : t < 40) :
    Fits expanding (fun b c d => b ^^^ c ^^^ d) 0x6ed9eba1 t where
  expanding_iff := h
  func_eq x y z := by rw [f, if_neg (by omega), if_pos ht, parity]
  val_eq := by rw [constant, if_neg (by omega), if_pos ht]

theorem fits_most (h : expanding = true ↔ 16 ≤ t) (hle : 40 ≤ t) (ht : t < 60) :
    Fits expanding (fun b c d => (b &&& c) ||| (b &&& d) ||| (c &&& d)) 0x8f1bbcdc t where
  expanding_iff := h
  func_eq x y z := by rw [most_eq, f, if_neg (by omega), if_neg (by omega), if_pos ht]
  val_eq := by rw [constant, if_neg (by omega), if_neg (by omega), if_pos ht]

theorem fits_last (h : expanding = true ↔ 16 ≤ t) (hle : 60 ≤ t) :
    Fits expanding (fun b c d => b ^^^ c ^^^ d) 0xca62c1d6 t where
  expanding_iff := h
  func_eq x y z := by rw [f, if_neg (by omega), if_neg (by omega), if_neg (by omega), parity]
  val_eq := by rw [constant, if_neg (by omega), if_neg (by omega), if_neg (by omega)]

end Loops

/-- **A block is compressed as the standard says**, and the buffer keeps its length. -/
theorem innerHash_eq {w : Buffer} (hw : w.length = 80) (hM : ∀ k < 16, w.getD k 0 = M k) :
    (innerHash H w).1 = compress H M ∧ (innerHash H w).2.length = 80 := by
  have h₀ : Ran M H 0 (H, w) :=
    ⟨rfl, hw, fun k hk => by rw [schedule_of_lt (by omega)]; exact hM k (by omega)⟩
  have h₁ : Ran M H (0 + 16) (loop false _ _ 0 16 _) :=
    ran_loop (by decide) (fun t _ ht => fits_choice (by simp; omega) (by omega)) h₀
  have h₂ : Ran M H (16 + 4) (loop true _ _ 16 4 _) :=
    ran_loop (by decide) (fun t _ ht => fits_choice (by simp; omega) (by omega)) h₁
  have h₃ : Ran M H (20 + 20) (loop true _ _ 20 20 _) :=
    ran_loop (by decide) (fun t _ ht => fits_odd (by simp; omega) (by omega) (by omega)) h₂
  have h₄ : Ran M H (40 + 20) (loop true _ _ 40 20 _) :=
    ran_loop (by decide) (fun t _ ht => fits_most (by simp; omega) (by omega) (by omega)) h₃
  have h₅ : Ran M H (60 + 20) (loop true _ _ 60 20 _) :=
    ran_loop (by decide) (fun t _ ht => fits_last (by simp; omega) (by omega)) h₄
  have hwords : _ = rounds M 80 H := h₅.words
  have hlength := h₅.length
  rw [compress, ← hwords]
  unfold innerHash
  dsimp only
  exact ⟨rfl, hlength⟩

end Rounds

/-! ### Full blocks -/

theorem foldl_set (g : ℕ → UInt32) {w : Buffer} {n : ℕ} (hn : n ≤ w.length) :
    let v := (List.range n).foldl (fun w k => w.set k (g k)) w
    v.length = w.length ∧ ∀ k < n, v.getD k 0 = g k := by
  induction n with
  | zero => exact ⟨rfl, fun k hk => absurd hk (Nat.not_lt_zero k)⟩
  | succ n ih =>
    obtain ⟨hlen, hget⟩ := ih (by omega)
    rw [List.range_succ, List.foldl_append]
    refine ⟨by rw [List.foldl_cons, List.foldl_nil, List.length_set, hlen], fun k hk => ?_⟩
    rw [List.foldl_cons, List.foldl_nil, getD_set (by omega)]
    split
    · next heq => rw [heq]
    · next hne => exact hget k (by omega)

theorem blockWord_eq (s : Bytes) (k : ℕ) : blockWord s k = word s k := by
  have hswap (a b c d : UInt32) : a ||| b ||| c ||| d = d ||| c ||| b ||| a := by ac_rfl
  rw [blockWord, word, hswap]

theorem load_spec {w : Buffer} (hw : w.length = 80) (s : Bytes) :
    (load w s).length = 80 ∧ ∀ k < 16, (load w s).getD k 0 = word s k := by
  obtain ⟨hlen, hget⟩ := foldl_set (blockWord s) (w := w) (n := 16) (by omega)
  rw [load]
  exact ⟨hlen.trans hw, fun k hk => (hget k hk).trans (blockWord_eq s k)⟩

theorem fullBlocks_eq (n : ℕ) (s : Bytes) (H : Words) {w : Buffer} (hw : w.length = 80) :
    ∃ w', w'.length = 80 ∧ fullBlocks n s H w = (s.drop (64 * n), hashBlocks n H s, w') := by
  induction n generalizing s H w with
  | zero => exact ⟨w, hw, rfl⟩
  | succ n ih =>
    obtain ⟨hlen, hget⟩ := load_spec hw s
    obtain ⟨hhash, hlen'⟩ := innerHash_eq (H := H) hlen hget
    obtain ⟨w', hw', h⟩ := ih (s.drop 64) (innerHash H (load w s)).1 hlen'
    refine ⟨w', hw', ?_⟩
    rw [fullBlocks, h, hhash, List.drop_drop, hashBlocks, Nat.mul_succ, Nat.add_comm 64]

/-! ### The last block -/

/-- The buffer holds the words of these bytes, and zeros behind them. -/
structure Loaded (p : Bytes) (w : Buffer) : Prop where
  length : w.length = 80
  words : ∀ k < 16, w.getD k 0 = word p k

theorem loaded_clear {w : Buffer} (hw : w.length = 80) : Loaded [] (clearWBuffert w) where
  length := by rw [clearWBuffert, List.length_append, List.length_replicate, List.length_drop, hw]
  words k hk := by
    have hfront : (clearWBuffert w).getD k 0 = (List.replicate 16 (0 : UInt32)).getD k 0 :=
      List.getD_append _ _ _ _ (by rw [List.length_replicate]; exact hk)
    rw [hfront, List.getD_replicate _ hk]
    simp [word]

theorem getD_concat (p : Bytes) (x : UInt8) (m : ℕ) :
    (p ++ [x]).getD m 0 = if m = p.length then x else p.getD m 0 := by
  rcases Nat.lt_trichotomy m p.length with hlt | heq | hgt
  · rw [List.getD_append _ _ _ _ hlt, if_neg hlt.ne]
  · rw [heq, if_pos rfl, List.getD_append_right _ _ _ _ le_rfl, Nat.sub_self]
    rfl
  · rw [if_neg hgt.ne', List.getD_eq_default _ _ hgt.le, List.getD_eq_default]
    rw [List.length_append, List.length_singleton]
    exact hgt

/-- A byte more is a part of the word it is in. -/
theorem word_concat (p : Bytes) (x : UInt8) :
    word (p ++ [x]) (p.length / 4) =
      word p (p.length / 4) ||| (x.toUInt32 <<< UInt32.ofNat ((3 - p.length % 4) * 8)) := by
  obtain ⟨q, hq⟩ : ∃ q, q = p.length / 4 := ⟨_, rfl⟩
  have hbehind {m : ℕ} (h : p.length ≤ m) : p.getD m 0 = 0 := List.getD_eq_default _ _ h
  have hmod : p.length % 4 = 0 ∨ p.length % 4 = 1 ∨ p.length % 4 = 2 ∨ p.length % 4 = 3 := by
    omega
  simp only [word, getD_concat, ← hq]
  rcases hmod with h | h | h | h
  · rw [if_pos (by omega), if_neg (by omega), if_neg (by omega), if_neg (by omega),
      hbehind (m := 4 * q) (by omega), hbehind (m := 4 * q + 1) (by omega),
      hbehind (m := 4 * q + 2) (by omega), hbehind (m := 4 * q + 3) (by omega), h]
    simp
  · rw [if_neg (by omega), if_pos (by omega), if_neg (by omega), if_neg (by omega),
      hbehind (m := 4 * q + 1) (by omega), hbehind (m := 4 * q + 2) (by omega),
      hbehind (m := 4 * q + 3) (by omega), h]
    simp
  · rw [if_neg (by omega), if_neg (by omega), if_pos (by omega), if_neg (by omega),
      hbehind (m := 4 * q + 2) (by omega), hbehind (m := 4 * q + 3) (by omega), h]
    simp
  · rw [if_neg (by omega), if_neg (by omega), if_neg (by omega), if_pos (by omega),
      hbehind (m := 4 * q + 3) (by omega), h]
    simp

theorem loaded_orByte {p : Bytes} {w : Buffer} (hp : p.length < 64) (h : Loaded p w)
    (x : UInt8) : Loaded (p ++ [x]) (orByte w p.length x.toUInt32) where
  length := by rw [orByte, List.length_set, h.length]
  words k hk := by
    have hlen : p.length / 4 < w.length := by
      rw [h.length]
      omega
    rw [orByte, getD_set hlen]
    split
    · next heq => rw [← heq, word_concat, h.words _ (by omega)]
    · next hne =>
      rw [h.words k hk]
      simp only [word, getD_concat]
      rw [if_neg (by omega), if_neg (by omega), if_neg (by omega), if_neg (by omega)]

/-- The bytes of the last block are put in one after the other. -/
theorem loaded_zipIdx {w : Buffer} (hw : w.length = 80) {p : Bytes} (hp : p.length < 64) :
    Loaded p (p.zipIdx.foldl (fun w q => orByte w q.2 q.1.toUInt32) (clearWBuffert w)) := by
  induction p using List.reverseRecOn with
  | nil => exact loaded_clear hw
  | append_singleton p x ih =>
    rw [List.length_append, List.length_singleton] at hp
    rw [List.zipIdx_append, List.foldl_append, Nat.zero_add]
    exact loaded_orByte (by omega) (ih (by omega)) x

/-- The block with the number of bits. -/
theorem loaded_length {p : Bytes} {w : Buffer} (hp : p.length ≤ 56) (h : Loaded p w) {n : ℕ}
    (hn : n < 2 ^ 32) : ∀ k < 16, (w.set 15 (UInt32.ofNat n)).getD k 0 =
      word (p ++ List.replicate (56 - p.length) 0 ++ lengthBytes n) k := by
  intro k hk
  have hfront : (p ++ List.replicate (56 - p.length) 0).length = 4 * 14 := by
    rw [List.length_append, List.length_replicate]
    omega
  obtain ⟨hhigh, hlow⟩ := word_lengthBytes hn
  rw [getD_set (by rw [h.length]; decide)]
  split
  · next heq =>
    rw [← heq]
    exact (word_append_right hfront _ 1 |>.trans hlow).symm
  · next hne =>
    rw [h.words k hk]
    rcases Nat.lt_or_ge k 14 with hlt | hge
    · rw [word_append (by omega), word_replicate]
    · have hk14 : k = 14 := by omega
      have hzero : word (p ++ List.replicate (56 - p.length) 0 ++ lengthBytes n) 14 = 0 :=
        (word_append_right hfront _ 0).trans hhigh
      have hbehind : word p 14 = word [] 14 := by
        simp only [word, List.getD_eq_default p 0 (show p.length ≤ 4 * 14 by omega),
          List.getD_eq_default p 0 (show p.length ≤ 4 * 14 + 1 by omega),
          List.getD_eq_default p 0 (show p.length ≤ 4 * 14 + 2 by omega),
          List.getD_eq_default p 0 (show p.length ≤ 4 * 14 + 3 by omega)]
        rfl
      rw [hk14, hzero, hbehind]
      decide

/-! ### The hash -/

theorem hashWord_eq (x : UInt32) :
    ((List.range 4).map fun i => ((x >>> UInt32.ofNat ((3 - i) * 8)) &&& 0xff).toUInt8) =
      wordBytes x := by
  have hlow (y : UInt32) : (y &&& 0xff).toUInt8 = y.toUInt8 := by
    apply UInt8.toNat_inj.mp
    rw [UInt32.toNat_toUInt8, UInt32.toNat_toUInt8, UInt32.toNat_and]
    exact (congrArg (· % 2 ^ 8) (Nat.and_two_pow_sub_one_eq_mod y.toNat 8)).trans
      (Nat.mod_mod _ _)
  have hzero : x >>> UInt32.ofNat 0 = x := UInt32.shiftRight_zero
  simp only [hlow]
  exact congrArg (fun y => [(x >>> 24).toUInt8, (x >>> 16).toUInt8, (x >>> 8).toUInt8, y])
    (congrArg UInt32.toUInt8 hzero)

theorem hashBytes_eq (H : Words) : hashBytes H = digest H := by
  rw [digest, ← hashWord_eq, ← hashWord_eq, ← hashWord_eq, ← hashWord_eq, ← hashWord_eq]
  rfl

/-- What is hashed behind the full blocks. -/
def tail (rest : Bytes) (bits : ℕ) : Bytes :=
  rest ++ 0x80 :: (List.replicate ((119 - rest.length) % 64) 0 ++ lengthBytes bits)

theorem sha1_eq (m : Bytes) : sha1 m = digest (hashBlocks (if m.length % 64 < 56 then 1 else 2)
    (hashBlocks (m.length / 64) initial m)
    (tail (m.drop (64 * (m.length / 64))) (8 * m.length))) := by
  have hblocks : (pad m).length / 64 = m.length / 64 + if m.length % 64 < 56 then 1 else 2 := by
    rw [length_pad, Nat.mul_div_cancel_left _ (by decide)]
  have hrest : (m.drop (64 * (m.length / 64))).length = m.length % 64 := by
    rw [List.length_drop]
    omega
  have hfull : 64 * (m.length / 64) ≤ m.length := Nat.mul_div_le _ _
  rw [sha1, hblocks, hashBlocks_add, pad, hashBlocks_append hfull,
    List.drop_append_of_le_length hfull, tail, hrest]

/-- One block with the number of bits, or two. -/
theorem finish_eq {rest : Bytes} (hrest : rest.length < 64) (n : ℕ)
    {w : Buffer} (h : Loaded (rest ++ [0x80]) w) (H : Words) :
    finish rest.length n H w =
      hashBlocks (if rest.length < 56 then 1 else 2) H (tail rest (8 * n % 2 ^ 32)) := by
  obtain ⟨bits, hbits, hn, htruncated⟩ : ∃ bits, bits < 2 ^ 32 ∧ 8 * n % 2 ^ 32 = bits ∧
      UInt32.ofNat (n * 2 ^ 3) = UInt32.ofNat bits := by
    refine ⟨_, Nat.mod_lt _ (by decide), rfl, UInt32.toNat_inj.mp ?_⟩
    rw [UInt32.toNat_ofNat', UInt32.toNat_ofNat', Nat.mod_mod, Nat.mul_comm n]
    rfl
  have hlen : (rest ++ [0x80]).length = rest.length + 1 := List.length_append
  have htail : tail rest bits = (rest ++ [0x80]) ++
      List.replicate ((119 - rest.length) % 64) 0 ++ lengthBytes bits := by
    rw [tail, List.append_assoc, List.append_assoc, List.singleton_append]
  rw [finish, htruncated, hn, htail]
  by_cases hfits : rest.length < 56
  · have hz : (119 - rest.length) % 64 = 56 - (rest ++ [0x80]).length := by
      rw [hlen]
      omega
    have hwords := loaded_length (by omega) h hbits
    rw [if_neg (by omega), if_pos hfits, hz, hashBlocks, hashBlocks,
      (innerHash_eq (by rw [List.length_set, h.length]) hwords).1]
  · have hz : (119 - rest.length) % 64 = (63 - rest.length) + 56 := by omega
    have hfull : ((rest ++ [0x80]) ++ List.replicate (63 - rest.length) 0).length = 64 * 1 := by
      rw [List.length_append, hlen, List.length_replicate]
      omega
    have hsplit : (rest ++ [0x80]) ++ List.replicate ((119 - rest.length) % 64) 0 ++
        lengthBytes bits = ((rest ++ [0x80]) ++ List.replicate (63 - rest.length) 0) ++
          (List.replicate 56 0 ++ lengthBytes bits) := by
      rw [hz, List.replicate_add, ← List.append_assoc, List.append_assoc]
    have hfirst : compress H (word ((rest ++ [0x80]) ++ List.replicate (63 - rest.length) 0 ++
        (List.replicate 56 0 ++ lengthBytes bits))) = compress H (word (rest ++ [0x80])) :=
      compress_congr (fun k hk => by rw [word_append (by omega), word_replicate]) H
    obtain ⟨hhash, hlen'⟩ := innerHash_eq (H := H) h.length h.words
    have hwords := loaded_length (Nat.zero_le _) (loaded_clear hlen') hbits
    rw [if_neg hfits, hsplit, hashBlocks, hashBlocks, hashBlocks, hfirst,
      List.drop_left' hfull, if_pos (by omega), ← hhash]
    exact (innerHash_eq (by rw [List.length_set, (loaded_clear hlen').length]) hwords).1

/-- The number of bits is one of 32 bits, whatever the length. -/
theorem calcHash_blocks {w : Buffer} (hw : w.length = 80) (src : Bytes) :
    calcHash w src = digest (hashBlocks (if src.length % 64 < 56 then 1 else 2)
      (hashBlocks (src.length / 64) initial src)
      (tail (src.drop (64 * (src.length / 64))) (8 * src.length % 2 ^ 32))) := by
  obtain ⟨w', hw', hfull⟩ := fullBlocks_eq (src.length / 64) src initial hw
  have hrest : (src.drop (64 * (src.length / 64))).length = src.length % 64 := by
    rw [List.length_drop]
    omega
  have hlast : (src.drop (64 * (src.length / 64))).length < 64 := by
    rw [hrest]
    exact Nat.mod_lt _ (by decide)
  have hloaded := loaded_orByte hlast (loaded_zipIdx hw' hlast) 0x80
  have hblocks := finish_eq hlast src.length hloaded (hashBlocks (src.length / 64) initial src)
  rw [calcHash, hfull, hashBytes_eq, ← hrest, ← hblocks]
  rfl

/-- **The hash is that of the standard**, if the number of bits is one of 32 bits. -/
theorem calcHash_eq {w : Buffer} (hw : w.length = 80) {src : Bytes} (h : src.length < 2 ^ 29) :
    calcHash w src = sha1 src := by
  have hbits : 8 * src.length < 2 ^ 32 := by omega
  rw [calcHash_blocks hw, sha1_eq, Nat.mod_eq_of_lt hbits]

theorem calcHash_abc : calcHash (List.replicate 80 0) (str "abc") = sha1 (str "abc") :=
  calcHash_eq List.length_replicate (by decide)

end Domoticz.Sha1
