import Mathlib.Data.List.Infix
import Mathlib.Data.List.TakeWhile
import Mathlib.Tactic

/-!
# Byte strings

The C++ program keeps its texts in `std::string` and its wire data in
`std::vector<byte>`.  Both are sequences of bytes, so both are `Bytes` here.
The string members the program uses are total functions on `Bytes`, except for
`substr`, which raises `std::out_of_range` when it starts behind the end of the
string; a raised exception is `none`.

`std::string::npos` is `none` in a search result.  The idiom
`s.substr(s.find_first_of(c) + 1)` does not fail when `c` is missing: `npos + 1`
is zero and the whole string comes back.  That idiom is `past`.

## Main definitions

* `chr`, `str` — the bytes of a character and of a text.
* `find`, `findFrom`, `contains` — substring search.
* `upTo`, `past` — the part before the first occurrence of a byte, and the rest.
* `upToLast` — the part before the last occurrence.
* `substr?` — `substr` with its exception.

## Main results

* `contains_iff_isInfix` — the search succeeds exactly on the substrings.
* `isInfix_of_mem_splitOn` — the fields of a separated list are substrings of it.
-/

namespace CLib

/-- A C++ byte string. -/
abbrev Bytes := List UInt8

/-- The byte of a character of the source text. -/
def chr (c : Char) : UInt8 := UInt8.ofNat c.toNat

/-- The bytes of a text of the source. -/
def str (s : String) : Bytes := s.toList.map chr

/-- What a `const char*` shows of a string: everything before the first NUL. -/
def cstr (s : Bytes) : Bytes := s.takeWhile (· != 0)

theorem cstr_of_notMem {s : Bytes} (h : 0 ∉ s) : cstr s = s := by
  rw [cstr, List.takeWhile_eq_self_iff]
  intro b hb
  have : b ≠ 0 := fun h0 => h (h0 ▸ hb)
  simpa using this

theorem cstr_eq_self_iff (s : Bytes) : cstr s = s ↔ 0 ∉ s := by
  constructor
  · intro h hmem
    rw [← h] at hmem
    have hz := List.mem_takeWhile_imp hmem
    simp at hz
  · exact cstr_of_notMem

/-- A text and what is behind it: nothing, or a NUL. -/
theorem exists_cstr_append (s : Bytes) :
    ∃ rest, s = cstr s ++ rest ∧ 0 ∉ cstr s ∧ (rest = [] ∨ ∃ t, rest = 0 :: t) := by
  induction s with
  | nil => exact ⟨[], rfl, List.not_mem_nil, .inl rfl⟩
  | cons b s ih =>
    by_cases hb : b = 0
    · subst hb
      exact ⟨0 :: s, rfl, List.not_mem_nil, .inr ⟨s, rfl⟩⟩
    · obtain ⟨rest, hs, hz, hrest⟩ := ih
      have hcstr : cstr (b :: s) = b :: cstr s :=
        List.takeWhile_cons_of_pos (by rw [bne_iff_ne]; exact hb)
      refine ⟨rest, ?_, ?_, hrest⟩
      · rw [hcstr, List.cons_append, ← hs]
      · rw [hcstr, List.mem_cons, not_or]
        exact ⟨Ne.symm hb, hz⟩

theorem zero_notMem_cstr (s : Bytes) : 0 ∉ cstr s := by
  obtain ⟨-, -, h, -⟩ := exists_cstr_append s
  exact h

theorem length_cstr_le (s : Bytes) : (cstr s).length ≤ s.length :=
  (List.takeWhile_prefix _).length_le

/-! ### Searching -/

/-- `s.find(needle)`: the first position `needle` occurs at. -/
def find (needle : Bytes) : Bytes → Option ℕ
  | [] => if needle.isEmpty then some 0 else none
  | b :: s => if needle.isPrefixOf (b :: s) then some 0 else (find needle s).map (· + 1)

/-- `s.find(needle, pos)`. -/
def findFrom (needle s : Bytes) (pos : ℕ) : Option ℕ :=
  if pos ≤ s.length then (find needle (s.drop pos)).map (· + pos) else none

/-- `s.find(needle) != std::string::npos`. -/
def contains (s needle : Bytes) : Bool := (find needle s).isSome

theorem contains_iff_isInfix {s needle : Bytes} : contains s needle = true ↔ needle <:+: s := by
  unfold contains
  induction s with
  | nil =>
    rw [List.infix_nil, find]
    split
    · next h => simpa using h
    · next h => simpa using h
  | cons b s ih =>
    rw [find, List.infix_cons_iff]
    split
    · next h => simp [List.isPrefixOf_iff_prefix.mp h]
    · next h =>
      have hp : ¬ needle <+: b :: s := fun hp => h (List.isPrefixOf_iff_prefix.mpr hp)
      simpa [hp] using ih

/-- The fields of a separated list are substrings of it. -/
theorem isInfix_of_mem_splitOn {s field : Bytes} {sep : UInt8} (h : field ∈ s.splitOn sep) :
    field <:+: s := by
  obtain ⟨as, bs, hab⟩ := List.append_of_mem h
  have hs : [sep].intercalate (s.splitOn sep) = s := List.intercalate_splitOn sep
  rw [← hs, hab]
  exact infix_intercalate as bs
where
  infix_intercalate (as bs : List Bytes) :
      field <:+: [sep].intercalate (as ++ field :: bs) := by
    induction as with
    | nil =>
      cases bs with
      | nil => simp
      | cons b bs => exact ⟨[], sep :: [sep].intercalate (b :: bs), by simp [List.intercalate]⟩
    | cons a as ih =>
      obtain ⟨x, xs, hx⟩ : ∃ x xs, as ++ field :: bs = x :: xs := by
        cases as with
        | nil => exact ⟨field, bs, rfl⟩
        | cons x xs => exact ⟨x, xs ++ field :: bs, rfl⟩
      rw [hx] at ih
      rw [List.cons_append, hx]
      have : [sep].intercalate (a :: x :: xs) = (a ++ [sep]) ++ [sep].intercalate (x :: xs) := by
        simp [List.intercalate]
      rw [this]
      exact ih.trans (List.suffix_append _ _).isInfix

/-- `s.find(needle) == 0`. -/
theorem find_eq_zero_iff {s needle : Bytes} : find needle s = some 0 ↔ needle <+: s := by
  cases s with
  | nil => simp [find]
  | cons b s =>
    rw [find]
    by_cases h : needle <+: b :: s
    · simp [List.isPrefixOf_iff_prefix.mpr h, h]
    · have hfalse : needle.isPrefixOf (b :: s) = false := by
        rw [← Bool.not_eq_true, List.isPrefixOf_iff_prefix]
        exact h
      simp [hfalse, h]

/-- A single byte is found at the front exactly when it stands there. -/
theorem find_singleton_eq_zero {c : UInt8} {s : Bytes} :
    find [c] s = some 0 ↔ s.head? = some c := by
  cases s with
  | nil => simp [find]
  | cons b s =>
    rw [find]
    by_cases hb : c = b
    · simp [hb]
    · simp [hb, Ne.symm hb]

/-- Where a text is found, it fits. -/
theorem find_add_length_le {s needle : Bytes} {pos : ℕ} (h : find needle s = some pos) :
    pos + needle.length ≤ s.length := by
  induction s generalizing pos with
  | nil =>
    rw [find] at h
    split at h
    · next hn =>
      obtain rfl : needle = [] := by simpa using hn
      cases h
      simp
    · cases h
  | cons b s ih =>
    rw [find] at h
    split at h
    · next hn =>
      cases h
      have := (List.isPrefixOf_iff_prefix.mp hn).length_le
      omega
    · obtain ⟨pos', hpos, rfl⟩ := Option.map_eq_some_iff.mp h
      have := ih hpos
      rw [List.length_cons]
      omega

/-- The parts of a text in front of and behind the first occurrence of another. -/
def cut (needle s : Bytes) : Option (Bytes × Bytes) :=
  (find needle s).map fun pos => (s.take pos, s.drop (pos + needle.length))

theorem length_of_cut {s needle front rest : Bytes} (h : cut needle s = some (front, rest)) :
    front.length + needle.length + rest.length = s.length := by
  obtain ⟨pos, hpos, hcut⟩ := Option.map_eq_some_iff.mp h
  cases hcut
  have := find_add_length_le hpos
  rw [List.length_take, List.length_drop]
  omega

/-! ### Slicing -/

/-- `s.substr(0, s.find_first_of(c))`: everything before the first `c`, or the
whole string. -/
def upTo (c : UInt8) (s : Bytes) : Bytes := s.takeWhile (· != c)

/-- `s.substr(s.find_first_of(c) + 1)`: everything after the first `c`.  Without
a `c` the position is `npos + 1`, which is zero, and the whole string is left. -/
def past (c : UInt8) (s : Bytes) : Bytes :=
  match s.dropWhile (· != c) with
  | [] => s
  | _ :: t => t

theorem upTo_append_cons {c : UInt8} {s : Bytes} (t : Bytes) (h : c ∉ s) :
    upTo c (s ++ c :: t) = s := by
  have hs : ∀ b ∈ s, (b != c) = true := fun b hb => bne_iff_ne.mpr fun hbc => h (hbc ▸ hb)
  rw [upTo, List.takeWhile_append_of_pos hs, List.takeWhile_cons_of_neg (by simp), List.append_nil]

/-- What is read of two texts as a C string. -/
theorem cstr_append (s t : Bytes) : cstr (s ++ t) = if 0 ∈ s then cstr s else s ++ cstr t := by
  by_cases hs : 0 ∈ s
  · obtain ⟨front, rest, rfl, hfront⟩ := List.eq_append_cons_of_mem hs
    have hcut (u : Bytes) : cstr (front ++ 0 :: u) = front := upTo_append_cons u hfront
    rw [if_pos hs, List.append_assoc, List.cons_append, hcut, hcut]
  · have hall : ∀ b ∈ s, (b != 0) = true := by
      intro b hb
      rw [bne_iff_ne]
      rintro rfl
      exact hs hb
    rw [if_neg hs, cstr, List.takeWhile_append_of_pos hall, cstr]

theorem upTo_of_notMem {c : UInt8} {s : Bytes} (h : c ∉ s) : upTo c s = s :=
  List.takeWhile_eq_self_iff.mpr fun _ hb => bne_iff_ne.mpr fun hbc => h (hbc ▸ hb)

theorem upTo_prefix (c : UInt8) {s t : Bytes} (h : s <+: t) : upTo c s <+: upTo c t := by
  obtain ⟨more, rfl⟩ := h
  induction s with
  | nil => exact List.nil_prefix
  | cons b s ih =>
    unfold upTo at ih ⊢
    cases hb : b != c with
    | true =>
      simp only [List.cons_append, List.takeWhile_cons, hb, if_true]
      exact List.cons_prefix_cons.mpr ⟨rfl, ih⟩
    | false =>
      simp only [List.takeWhile_cons, hb, Bool.false_eq_true, if_false]
      exact List.nil_prefix

theorem past_append_cons {c : UInt8} {s : Bytes} (t : Bytes) (h : c ∉ s) :
    past c (s ++ c :: t) = t := by
  have hs : ∀ b ∈ s, (b != c) = true := fun b hb => bne_iff_ne.mpr fun hbc => h (hbc ▸ hb)
  rw [past, List.dropWhile_append_of_pos hs, List.dropWhile_cons_of_neg (by simp)]

theorem past_of_notMem {c : UInt8} {s : Bytes} (h : c ∉ s) : past c s = s := by
  have hs : s.dropWhile (· != c) = [] :=
    List.dropWhile_eq_nil_iff.mpr fun b hb => bne_iff_ne.mpr fun hbc => h (hbc ▸ hb)
  rw [past, hs]

theorem length_past_le (c : UInt8) (s : Bytes) : (past c s).length ≤ s.length := by
  have hle := (List.dropWhile_suffix (l := s) (· != c)).length_le
  unfold past
  cases hd : s.dropWhile (· != c) with
  | nil => exact le_refl _
  | cons b t =>
    rw [hd, List.length_cons] at hle
    exact Nat.le_of_succ_le hle

theorem length_past_lt {c : UInt8} {s : Bytes} (h : c ∈ s) : (past c s).length < s.length := by
  obtain ⟨front, t, rfl, hc⟩ := List.eq_append_cons_of_mem h
  rw [past_append_cons t hc, List.length_append, List.length_cons]
  omega

/-- `s.substr(0, s.find_last_of(c))`. -/
def upToLast (c : UInt8) (s : Bytes) : Bytes :=
  match s.reverse.dropWhile (· != c) with
  | [] => s
  | _ :: t => t.reverse

/-- `s.substr(pos, len)`; a start behind the end raises `std::out_of_range`. -/
def substr? (s : Bytes) (pos len : ℕ) : Option Bytes :=
  if pos ≤ s.length then some ((s.drop pos).take len) else none

/-- `s.substr(pos)`. -/
def substrFrom? (s : Bytes) (pos : ℕ) : Option Bytes :=
  if pos ≤ s.length then some (s.drop pos) else none

/-- `toupper` in the C locale. -/
def toUpper (b : UInt8) : UInt8 := if chr 'a' ≤ b ∧ b ≤ chr 'z' then b - 32 else b

/-- `tolower` in the C locale. -/
def toLower (b : UInt8) : UInt8 := if chr 'A' ≤ b ∧ b ≤ chr 'Z' then b + 32 else b

/-- `stdupper`. -/
def upper (s : Bytes) : Bytes := s.map toUpper

/-- `boost::icontains`. -/
def icontains (s needle : Bytes) : Bool := contains (upper s) (upper needle)

end CLib
