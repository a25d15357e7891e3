import Domoticz.CLib.Bytes

/-!
# The first occurrence of a text

`find` gives the first position of a text in another.  Here the position is taken
apart into what stands in front of it, what is there and what is behind.

## Main results

* `exists_find_le` — a search stops at the latest where the text stands.
* `not_isInfix_take_of_find` — before it, the text does not occur.
* `find_of_not_isInfix` — where the text stands for the first time it is found.
* `cut_singleton_eq_some_iff` — the parts of a text around its first separator.
-/

namespace CLib

theorem exists_find_le {s needle : Bytes} {pos : ℕ} (hpos : pos ≤ s.length)
    (h : needle <+: s.drop pos) : ∃ first ≤ pos, find needle s = some first := by
  induction s generalizing pos with
  | nil =>
    rw [List.drop_nil, List.prefix_nil] at h
    exact ⟨0, Nat.zero_le _, by rw [find, h]; rfl⟩
  | cons b s ih =>
    rw [find]
    by_cases hp : needle <+: b :: s
    · exact ⟨0, Nat.zero_le _, if_pos (List.isPrefixOf_iff_prefix.mpr hp)⟩
    · cases pos with
      | zero => exact absurd h hp
      | succ pos =>
        obtain ⟨first, hle, hfirst⟩ := ih (Nat.le_of_succ_le_succ hpos) h
        refine ⟨first + 1, Nat.succ_le_succ hle, ?_⟩
        rw [if_neg (mt List.isPrefixOf_iff_prefix.mp hp), hfirst]
        rfl

theorem prefix_drop_of_find {s needle : Bytes} {pos : ℕ} (h : find needle s = some pos) :
    needle <+: s.drop pos := by
  induction s generalizing pos with
  | nil =>
    rw [find] at h
    split at h
    · next hn =>
      rw [List.isEmpty_iff.mp hn]
      exact List.nil_prefix
    · cases h
  | cons b s ih =>
    rw [find] at h
    split at h
    · next hp =>
      cases h
      exact List.isPrefixOf_iff_prefix.mp hp
    · obtain ⟨pos', hpos, rfl⟩ := Option.map_eq_some_iff.mp h
      exact ih hpos

/-- Up to the last byte of the first occurrence there is none. -/
theorem not_isInfix_take_of_find {s needle : Bytes} {pos : ℕ} (h : find needle s = some pos)
    {n : ℕ} (hn : n < pos + needle.length) : ¬ needle <:+: s.take n := by
  rintro ⟨front, rest, ht⟩
  have hlen := congrArg List.length ht
  rw [List.length_append, List.length_append, List.length_take] at hlen
  have hs : front ++ needle ++ (rest ++ s.drop n) = s := by
    rw [← List.append_assoc, ht, List.take_append_drop]
  have hfront : needle <+: s.drop front.length := by
    rw [← hs, List.append_assoc, List.drop_left]
    exact List.prefix_append _ _
  obtain ⟨first, hle, hfirst⟩ := exists_find_le (by omega) hfront
  rw [h] at hfirst
  cases hfirst
  omega

theorem find_eq_none_iff {s needle : Bytes} : find needle s = none ↔ ¬ needle <:+: s := by
  rw [← contains_iff_isInfix, contains, Bool.not_eq_true, Option.isSome_eq_false_iff,
    Option.isNone_iff_eq_none]

/-- The first occurrence of a text, by what is in front of its last byte. -/
theorem find_of_not_isInfix {front needle : Bytes} {last : UInt8} (rest : Bytes)
    (h : ¬ needle ++ [last] <:+: front ++ needle) :
    find (needle ++ [last]) (front ++ needle ++ last :: rest) = some front.length := by
  have hhere : needle ++ [last] <+: (front ++ needle ++ last :: rest).drop front.length := by
    rw [List.append_assoc, List.drop_left, List.append_cons needle last rest]
    exact List.prefix_append _ _
  have hlen : front.length ≤ (front ++ needle ++ last :: rest).length := by
    simp only [List.length_append]
    omega
  obtain ⟨first, hle, hfirst⟩ := exists_find_le hlen hhere
  rcases hle.eq_or_lt with rfl | hlt
  · exact hfirst
  -- an earlier one would lie in front of the last byte
  · exfalso
    apply h
    obtain ⟨behind, hb⟩ := prefix_drop_of_find hfirst
    have hsplit : (front ++ needle ++ last :: rest).take first ++ (needle ++ [last]) ++ behind =
        front ++ needle ++ last :: rest := by
      rw [List.append_assoc, hb, List.take_append_drop]
    have hpre : (front ++ needle ++ last :: rest).take first ++ (needle ++ [last]) <+:
        front ++ needle := by
      refine List.prefix_of_prefix_length_le ⟨behind, hsplit⟩ (List.prefix_append _ _) ?_
      simp only [List.length_append, List.length_take, List.length_singleton]
      omega
    exact (List.suffix_append _ _).isInfix.trans hpre.isInfix

/-- What is found at the front of a text does not depend on what is behind it. -/
theorem find_append_iff {s needle : Bytes} {pos : ℕ} (t : Bytes)
    (h : pos + needle.length ≤ s.length) :
    find needle (s ++ t) = some pos ↔ find needle s = some pos := by
  have hfront {n : ℕ} (hn : n + needle.length ≤ s.length) :
      needle <+: (s ++ t).drop n ↔ needle <+: s.drop n := by
    rw [List.drop_append_of_le_length (by omega)]
    refine ⟨fun hpre => ?_, fun hpre => hpre.trans (List.prefix_append _ _)⟩
    refine List.prefix_of_prefix_length_le hpre (List.prefix_append _ _) ?_
    rw [List.length_drop]
    omega
  have hlen : s.length ≤ (s ++ t).length := by
    rw [List.length_append]
    exact Nat.le_add_right _ _
  constructor
  · intro hfind
    obtain ⟨first, hle, hfirst⟩ :=
      exists_find_le (by omega) ((hfront h).mp (prefix_drop_of_find hfind))
    have hpre := (hfront (n := first) (by omega)).mpr (prefix_drop_of_find hfirst)
    obtain ⟨first', hle', hfirst'⟩ := exists_find_le (by omega) hpre
    rw [hfind] at hfirst'
    cases hfirst'
    rwa [Nat.le_antisymm hle hle'] at hfirst
  · intro hfind
    obtain ⟨first, hle, hfirst⟩ :=
      exists_find_le (by omega) ((hfront h).mpr (prefix_drop_of_find hfind))
    have hpre := (hfront (n := first) (by omega)).mp (prefix_drop_of_find hfirst)
    obtain ⟨first', hle', hfirst'⟩ := exists_find_le (by omega) hpre
    rw [hfind] at hfirst'
    cases hfirst'
    rwa [Nat.le_antisymm hle hle'] at hfirst

theorem find_singleton_eq_none {c : UInt8} {s : Bytes} : find [c] s = none ↔ c ∉ s := by
  rw [find_eq_none_iff]
  refine not_congr ⟨fun h => h.subset (List.mem_singleton_self c), fun h => ?_⟩
  obtain ⟨front, rest, rfl⟩ := List.append_of_mem h
  exact ⟨front, rest, by rw [List.append_assoc]; rfl⟩

/-- A byte behind a text without it. -/
theorem find_singleton_append {c : UInt8} {s : Bytes} (rest : Bytes) (h : c ∉ s) :
    find [c] (s ++ c :: rest) = some s.length := by
  have hfind := @find_of_not_isInfix s [] c rest
  rw [List.append_nil] at hfind
  exact hfind fun hin => h (hin.subset (List.mem_singleton_self c))

/-! ### Texts without a byte -/

theorem prefix_of_prefix_append_cons {needle s t : Bytes} {c : UInt8} (hc : c ∉ needle)
    (h : needle <+: s ++ c :: t) : needle <+: s := by
  have hs : s ++ [c] <+: s ++ c :: t := ⟨t, by simp⟩
  rcases List.prefix_or_prefix_of_prefix h hs with hle | hle
  · rcases List.prefix_concat_iff.mp hle with rfl | hle
    · exact absurd (List.mem_append_right s (List.mem_singleton_self c)) hc
    · exact hle
  · exact absurd (hle.subset (List.mem_append_right s (List.mem_singleton_self c))) hc

/-- A text without `c` is found on one of the sides of a `c`. -/
theorem isInfix_append_cons_iff {needle s t : Bytes} {c : UInt8} (hc : c ∉ needle) :
    needle <:+: s ++ c :: t ↔ needle <:+: s ∨ needle <:+: t := by
  constructor
  · intro h
    induction s with
    | nil =>
      rcases List.infix_cons_iff.mp h with hfront | hbehind
      · exact Or.inl (prefix_of_prefix_append_cons hc hfront).isInfix
      · exact Or.inr hbehind
    | cons b s ih =>
      rcases List.infix_cons_iff.mp h with hfront | hbehind
      · exact Or.inl (prefix_of_prefix_append_cons (s := b :: s) hc hfront).isInfix
      · refine (ih hbehind).imp_left fun hs => ?_
        exact hs.trans (List.suffix_cons b s).isInfix
  · rintro (h | h)
    · exact h.trans (List.prefix_append s (c :: t)).isInfix
    · exact h.trans ((List.suffix_cons c t).trans (List.suffix_append s (c :: t))).isInfix

/-! ### Separators -/

/-- The parts of a text around the first separator. -/
theorem cut_singleton {c : UInt8} {front : Bytes} (h : c ∉ front) (rest : Bytes) :
    cut [c] (front ++ c :: rest) = some (front, rest) := by
  rw [cut, find_singleton_append rest h, Option.map_some, List.take_left, List.length_singleton,
    ← List.drop_drop, List.drop_left]
  rfl

theorem cut_singleton_eq_none_iff {c : UInt8} {s : Bytes} : cut [c] s = none ↔ c ∉ s := by
  rw [cut, Option.map_eq_none_iff, find_singleton_eq_none]

/-- A text with a separator is cut. -/
theorem cut_singleton_eq_some_iff {c : UInt8} {s front rest : Bytes} :
    cut [c] s = some (front, rest) ↔ s = front ++ c :: rest ∧ c ∉ front := by
  constructor
  · intro h
    have hmem : c ∈ s := by
      by_contra hnot
      rw [cut_singleton_eq_none_iff.mpr hnot] at h
      cases h
    obtain ⟨front', rest', rfl, hfront⟩ := List.eq_append_cons_of_mem hmem
    rw [cut_singleton hfront] at h
    cases h
    exact ⟨rfl, hfront⟩
  · rintro ⟨rfl, hfront⟩
    exact cut_singleton hfront rest

/-- The members of a list have no separator. -/
theorem notMem_of_mem_splitOn {c : UInt8} {s m : Bytes} (h : m ∈ s.splitOn c) : c ∉ m := by
  induction hn : s.length using Nat.strong_induction_on generalizing s with
  | _ n ih =>
    by_cases hc : c ∈ s
    · obtain ⟨front, rest, rfl, hfront⟩ := List.eq_append_cons_of_mem hc
      rw [List.splitOn_append_cons_self_of_not_mem hfront, List.mem_cons] at h
      rcases h with rfl | h
      · exact hfront
      · rw [List.length_append, List.length_cons] at hn
        exact ih rest.length (by omega) h rfl
    · rw [List.splitOn_eq_singleton hc, List.mem_singleton] at h
      rwa [h]

/-! ### A search from a position on -/

/-- The search, by what is behind the position. -/
theorem findFrom_eq_cut {needle s : Bytes} {pos : ℕ} (h : pos ≤ s.length) :
    findFrom needle s pos = (cut needle (s.drop pos)).map fun c => pos + c.1.length := by
  rw [findFrom, if_pos h, cut, Option.map_map]
  cases hfind : find needle (s.drop pos) with
  | none => rfl
  | some n =>
    have hle := find_add_length_le hfind
    simp only [Option.map_some, Function.comp_apply, List.length_take, Option.some.injEq]
    omega

/-- What is in front of and behind the first occurrence is what the positions give. -/
theorem cut_drop {needle s front rest : Bytes} {pos : ℕ}
    (h : cut needle (s.drop pos) = some (front, rest)) :
    (s.drop pos).take front.length = front ∧
      s.drop (pos + front.length + needle.length) = rest := by
  obtain ⟨n, hn, hcut⟩ := Option.map_eq_some_iff.mp h
  obtain ⟨rfl, rfl⟩ := Prod.mk.inj hcut
  have hle := find_add_length_le hn
  have hlength : ((s.drop pos).take n).length = n := by
    rw [List.length_take]
    omega
  refine ⟨by rw [hlength], ?_⟩
  rw [hlength, List.drop_drop, Nat.add_assoc]

end CLib
