import Domoticz.Web.Dispatch

/-!
# Percent decoding

`url_decode` takes a text from the left, a byte at a time, or a percent sign with the two bytes
behind it.  It leaves these two to `std::hex`, which is satisfied with less than two digits: a sign
or a blank may stand in front of the digit, and anything behind it.

## Main definitions

* `Piece`, `pieces` — a text, divided the way `url_decode` does.
* `WellFormed` — every percent sign is followed by two hexadecimal digits.
* `percentDecoded` — the text with the bytes that its triples denote.
* `Encodes` — the texts that percent encoding makes of another.
* `Decodes` — what is asked of `url_decode`.

## Main results

* `urlDecode_fst`, `urlDecode_snd` — `url_decode` by pieces.
* `readHex_isSome_iff` — the pairs of bytes that are read.
* `decoding_iff` — **decoding is right exactly if a text that is not well-formed has a piece that
  cannot be read.**
* `signed_digit` — a sign and a digit.
-/

namespace Domoticz

open CLib

/-! ### Pieces -/

/-- What `url_decode` takes at once. -/
inductive Piece
  | plain (c : UInt8)
  /-- A percent sign and the two bytes behind it. -/
  | escape (a b : UInt8)
  /-- A percent sign with less than two bytes behind it, and these. -/
  | cutOff
  deriving DecidableEq, Repr

/-- The pieces of a text. -/
def pieces : Bytes → List Piece
  | [] => []
  | c :: a :: b :: s =>
      if c = chr '%' then .escape a b :: pieces s else .plain c :: pieces (a :: b :: s)
  | c :: s => if c = chr '%' then [.cutOff] else .plain c :: pieces s

namespace Piece

/-- The piece is no percent sign, or one with two hexadecimal digits. -/
def Proper : Piece → Prop
  | plain _ => True
  | escape a b => isDigit 16 a = true ∧ isDigit 16 b = true
  | cutOff => False

/-- `std::hex` is content with what is behind the percent sign. -/
def Readable : Piece → Prop
  | plain _ => True
  | escape a b => (readHex [a, b]).isSome = true
  | cutOff => False

instance : DecidablePred Proper
  | plain _ => isTrue trivial
  | escape _ _ => inferInstanceAs (Decidable (_ ∧ _))
  | cutOff => isFalse id

instance : DecidablePred Readable
  | plain _ => isTrue trivial
  | escape _ _ => inferInstanceAs (Decidable (_ = _))
  | cutOff => isFalse id

/-- The byte that `url_decode` writes for a piece. -/
def written : Piece → UInt8
  | plain c => if c = chr '+' then chr ' ' else c
  | escape a b => UInt8.ofInt ((readHex [a, b]).getD 0)
  | cutOff => 0

/-- The byte that a piece stands for. -/
def denoted : Piece → UInt8
  | plain c => if c = chr '+' then chr ' ' else c
  | escape a b => UInt8.ofNat (digitsValue 16 [a, b])
  | cutOff => 0

end Piece

/-- Every percent sign is followed by two hexadecimal digits. -/
def WellFormed (s : Bytes) : Prop :=
  ∀ rest, chr '%' :: rest <:+ s →
    ∃ a b tail, rest = a :: b :: tail ∧ isDigit 16 a = true ∧ isDigit 16 b = true

/-- A text with each triple replaced by the byte it denotes, and each plus sign by a blank. -/
def percentDecoded (s : Bytes) : Bytes := (pieces s).map Piece.denoted

/-- A text is a percent encoding of another: the bytes that are escaped are chosen freely, besides
the percent and the plus sign, and so is the case of their digits.  A blank may be a plus sign. -/
inductive Encodes : Bytes → Bytes → Prop
  | nil : Encodes [] []
  | plain {c : UInt8} {s e : Bytes} : c ≠ chr '%' → c ≠ chr '+' → Encodes s e →
      Encodes (c :: s) (c :: e)
  | blank {s e : Bytes} : Encodes s e → Encodes (chr ' ' :: s) (chr '+' :: e)
  | escape {c a b : UInt8} {s e : Bytes} : digitValue a = some (c.toNat / 16) →
      digitValue b = some (c.toNat % 16) → Encodes s e → Encodes (c :: s) (chr '%' :: a :: b :: e)

/-- What is asked of `url_decode` for a text. -/
structure Decodes (s : Bytes) : Prop where
  accepts : (urlDecode s).1 = true ↔ WellFormed s
  output : WellFormed s → (urlDecode s).2 = percentDecoded s
  inverts : ∀ t, Encodes t s → urlDecode s = (true, t)

/-! ### One piece at a time -/

theorem pieces_plain {c : UInt8} (hc : c ≠ chr '%') (s : Bytes) :
    pieces (c :: s) = .plain c :: pieces s := by
  rcases s with _ | ⟨a, _ | ⟨b, s⟩⟩
  · exact if_neg hc
  · rw [pieces, if_neg hc]
    rintro a' b' s' ⟨⟩
  · rw [pieces, if_neg hc]

theorem pieces_escape (a b : UInt8) (s : Bytes) :
    pieces (chr '%' :: a :: b :: s) = .escape a b :: pieces s := by
  rw [pieces, if_pos rfl]

theorem pieces_short {s : Bytes} (h : s.length < 2) : pieces (chr '%' :: s) = [.cutOff] := by
  rcases s with _ | ⟨a, _ | ⟨b, s⟩⟩
  · rfl
  · rfl
  · rw [List.length_cons, List.length_cons] at h
    omega

theorem urlDecode_plain {c : UInt8} (hc : c ≠ chr '%') (s : Bytes) :
    urlDecode (c :: s) = ((urlDecode s).1, (Piece.plain c).written :: (urlDecode s).2) := by
  rcases s with _ | ⟨a, _ | ⟨b, s⟩⟩
  · simp [urlDecode, hc, Piece.written]
  · simp [urlDecode, hc, Piece.written]
  · rw [urlDecode, if_neg hc]
    rfl

theorem urlDecode_escape (a b : UInt8) (s : Bytes) :
    urlDecode (chr '%' :: a :: b :: s) =
      if (Piece.escape a b).Readable then
        ((urlDecode s).1, (Piece.escape a b).written :: (urlDecode s).2)
      else (false, []) := by
  rw [urlDecode, if_pos rfl]
  cases hread : readHex [a, b] with
  | none => rw [if_neg (by simp [Piece.Readable, hread])]
  | some value =>
    rw [if_pos (by simp [Piece.Readable, hread]), Piece.written, hread]
    rfl

theorem urlDecode_short {s : Bytes} (h : s.length < 2) : urlDecode (chr '%' :: s) = (false, []) := by
  rcases s with _ | ⟨a, _ | ⟨b, s⟩⟩
  · rfl
  · rfl
  · rw [List.length_cons, List.length_cons] at h
    omega

/-- An induction along the pieces of a text. -/
@[elab_as_elim]
theorem pieces_induction {motive : Bytes → Prop} (s : Bytes) (nil : motive [])
    (plain : ∀ c s, c ≠ chr '%' → motive s → motive (c :: s))
    (escape : ∀ a b s, motive s → motive (chr '%' :: a :: b :: s))
    (cutOff : ∀ s, s.length < 2 → motive (chr '%' :: s)) : motive s := by
  induction hn : s.length using Nat.strong_induction_on generalizing s with
  | _ n ih =>
    rcases s with _ | ⟨c, s⟩
    · exact nil
    rw [List.length_cons] at hn
    by_cases hc : c = chr '%'
    · subst hc
      rcases s with _ | ⟨a, _ | ⟨b, s⟩⟩
      · exact cutOff [] (by decide)
      · exact cutOff [a] (Nat.lt_succ_self 1)
      · rw [List.length_cons, List.length_cons] at hn
        exact escape a b s (ih _ (by omega) s rfl)
    · exact plain c s hc (ih _ (by omega) s rfl)

/-- `url_decode` succeeds exactly if it can read every piece. -/
theorem urlDecode_fst (s : Bytes) :
    (urlDecode s).1 = true ↔ ∀ p ∈ pieces s, p.Readable := by
  induction s using pieces_induction with
  | nil => simp [urlDecode, pieces]
  | plain c s hc ih =>
    rw [urlDecode_plain hc, pieces_plain hc, List.forall_mem_cons, ← ih]
    exact (and_iff_right trivial).symm
  | escape a b s ih =>
    rw [urlDecode_escape, pieces_escape, List.forall_mem_cons]
    by_cases hread : (Piece.escape a b).Readable
    · rw [if_pos hread, and_iff_right hread]
      exact ih
    · rw [if_neg hread]
      exact iff_of_false Bool.false_ne_true fun h => hread h.1
  | cutOff s hs =>
    rw [urlDecode_short hs, pieces_short hs]
    exact iff_of_false Bool.false_ne_true fun h => h _ List.mem_cons_self

/-- Then it has written the byte of each. -/
theorem urlDecode_snd {s : Bytes} (h : ∀ p ∈ pieces s, p.Readable) :
    (urlDecode s).2 = (pieces s).map Piece.written := by
  induction s using pieces_induction with
  | nil => rfl
  | plain c s hc ih =>
    rw [pieces_plain hc, List.forall_mem_cons] at h
    rw [urlDecode_plain hc, pieces_plain hc, List.map_cons, ih h.2]
  | escape a b s ih =>
    rw [pieces_escape, List.forall_mem_cons] at h
    rw [urlDecode_escape, pieces_escape, if_pos h.1, List.map_cons, ih h.2]
  | cutOff s hs =>
    rw [pieces_short hs] at h
    exact absurd (h _ List.mem_cons_self) id

/-! ### Well-formed texts -/

theorem suffix_cons_iff {c d : UInt8} {rest s : Bytes} (hne : c ≠ d) :
    c :: rest <:+ d :: s ↔ c :: rest <:+ s := by
  rw [List.suffix_cons_iff]
  refine or_iff_right fun h => hne ?_
  exact (List.cons.inj h).1

theorem percent_ne_of_isDigit {b : UInt8} (h : isDigit 16 b = true) : chr '%' ≠ b := by
  rintro rfl
  exact absurd h (by decide)

/-- A text is well-formed exactly if its pieces are proper. -/
theorem wellFormed_iff (s : Bytes) : WellFormed s ↔ ∀ p ∈ pieces s, p.Proper := by
  induction s using pieces_induction with
  | nil =>
    refine iff_of_true (fun rest h => ?_) (List.forall_mem_nil _)
    cases List.suffix_nil.mp h
  | plain c s hc ih =>
    rw [pieces_plain hc, List.forall_mem_cons, ← ih, WellFormed]
    simp only [suffix_cons_iff hc.symm]
    exact (and_iff_right trivial).symm
  | escape a b s ih =>
    rw [pieces_escape, List.forall_mem_cons, ← ih]
    constructor
    · intro h
      obtain ⟨a', b', tail, heq, hdigits⟩ := h _ (List.suffix_refl _)
      cases heq
      refine ⟨hdigits, fun rest hrest => h rest ?_⟩
      exact hrest.trans (List.suffix_append [chr '%', a, b] s)
    · rintro ⟨hproper, h⟩ rest hrest
      rcases List.suffix_cons_iff.mp hrest with heq | hrest
      · exact ⟨a, b, s, (List.cons.inj heq).2, hproper⟩
      · rw [suffix_cons_iff (percent_ne_of_isDigit hproper.1),
          suffix_cons_iff (percent_ne_of_isDigit hproper.2)] at hrest
        exact h rest hrest
  | cutOff s hs =>
    rw [pieces_short hs]
    refine iff_of_false (fun h => ?_) fun h => h _ List.mem_cons_self
    obtain ⟨a, b, tail, rfl, -⟩ := h _ (List.suffix_refl _)
    rw [List.length_cons, List.length_cons] at hs
    omega

/-! ### What is read of two bytes -/

theorem takeSign_of_isDigit {a : UInt8} (ha : isDigit 16 a = true) (s : Bytes) :
    takeSign ((a :: s).dropWhile isSpace) = (false, a :: s) := by
  have hminus : a ≠ chr '-' := by
    rintro rfl
    exact absurd ha (by decide)
  have hplus : a ≠ chr '+' := by
    rintro rfl
    exact absurd ha (by decide)
  rw [List.dropWhile_cons_of_neg (by simp [isSpace_of_le (le_toNat_of_isDigit ha)]), takeSign,
    if_neg hminus, if_neg hplus]

/-- A digit in front is read, and the next byte if it is one. -/
theorem strtol_digit {a : UInt8} (ha : isDigit 16 a = true) (b : UInt8) :
    strtol 16 [a, b] =
      (clampLong (digitsValue 16 (a :: [b].takeWhile (isDigit 16))), [b].dropWhile (isDigit 16)) := by
  have hbody : skipHexPrefix 16 [a, b] = [a, b] := rfl
  simp only [strtol, takeSign_of_isDigit ha, hbody, List.takeWhile_cons_of_pos ha,
    List.dropWhile_cons_of_pos ha]
  exact if_neg (List.cons_ne_nil _ _)

/-- Behind a blank or a sign a digit is read, and nothing else. -/
theorem strtol_not_digit {a : UInt8} (ha : isDigit 16 a = false) (b : UInt8) :
    (strtol 16 [a, b]).2 =
      if (isSpace a = true ∨ a = chr '+' ∨ a = chr '-') ∧ isDigit 16 b = true then []
      else [a, b] := by
  have hhead (h : ¬ (isSpace a = true ∨ a = chr '+' ∨ a = chr '-')) :
      takeSign ([a, b].dropWhile isSpace) = (false, [a, b]) := by
    obtain ⟨hspace, hplus, hminus⟩ := not_or.mp h |>.imp_right not_or.mp
    rw [List.dropWhile_cons_of_neg hspace, takeSign, if_neg hminus, if_neg hplus]
  by_cases hfront : isSpace a = true ∨ a = chr '+' ∨ a = chr '-'
  · have hbody : (takeSign ([a, b].dropWhile isSpace)).2 = [b] ∨
        (takeSign ([a, b].dropWhile isSpace)).2 = [] ∧ isDigit 16 b = false := by
      by_cases hspace : isSpace a = true
      · rw [List.dropWhile_cons_of_pos hspace]
        by_cases hb : isDigit 16 b = true
        · exact .inl (congrArg Prod.snd (takeSign_of_isDigit hb []))
        · have hb' := Bool.eq_false_iff.mpr hb
          by_cases hspace' : isSpace b = true
          · rw [List.dropWhile_cons_of_pos hspace']
            exact .inr ⟨rfl, hb'⟩
          · rw [List.dropWhile_cons_of_neg hspace', takeSign]
            split
            · exact .inr ⟨rfl, hb'⟩
            · split
              · exact .inr ⟨rfl, hb'⟩
              · exact .inl rfl
      · rcases hfront.resolve_left hspace with rfl | rfl
        · exact .inl rfl
        · exact .inl rfl
    have hsingle : skipHexPrefix 16 [b] = [b] := rfl
    rcases hbody with hbody | ⟨hbody, hb⟩
    · simp only [strtol, hbody, hsingle]
      by_cases hb : isDigit 16 b = true
      · rw [List.takeWhile_cons_of_pos hb, List.dropWhile_cons_of_pos hb,
          if_neg (List.cons_ne_nil _ _)]
        exact (if_pos (And.intro hfront hb)).symm
      · rw [List.takeWhile_cons_of_neg hb, if_pos rfl, if_neg fun h => hb h.2]
    · rw [if_neg fun h => ne_true_of_eq_false hb h.2]
      simp only [strtol, hbody]
      rfl
  · rw [if_neg fun h => hfront h.1]
    have hbody : skipHexPrefix 16 [a, b] = [a, b] := rfl
    simp only [strtol, hhead hfront, hbody, List.takeWhile_cons_of_neg (ne_true_of_eq_false ha)]
    rfl

/-- Two hexadecimal digits are read as their number. -/
theorem readHex_digits {a b : UInt8} (ha : isDigit 16 a = true) (hb : isDigit 16 b = true) :
    readHex [a, b] = some (digitsValue 16 [a, b] : ℤ) := by
  have hupper : ¬ (upper [a, b] = str "0X" ∨ (strtol 16 [a, b]).2 = [a, b]) := by
    rw [strtol_digit ha, List.dropWhile_cons_of_pos hb]
    rintro (h | h)
    · exact toUpper_ne_of_isDigit hb (List.cons.inj (List.cons.inj h).2).1
    · cases h
  have hlt : digitsValue 16 [a, b] < 16 ^ 2 :=
    digitsValue_lt (List.forall_mem_cons.mpr ⟨ha, List.forall_mem_singleton.mpr hb⟩)
  have hlong : clampLong (digitsValue 16 [a, b]) = digitsValue 16 [a, b] := by
    rw [clampLong_nat]
    omega
  rw [readHex, if_neg hupper, strtol_digit ha, List.takeWhile_cons_of_pos hb, List.takeWhile_nil,
    hlong]

/-- What is read of two bytes: a digit in front, if it is not the zero of a `0x`; or behind a blank
or a sign. -/
theorem readHex_isSome_iff (a b : UInt8) : (readHex [a, b]).isSome = true ↔
    isDigit 16 a = true ∧ upper [a, b] ≠ str "0X" ∨
      (isSpace a = true ∨ a = chr '+' ∨ a = chr '-') ∧ isDigit 16 b = true := by
  have hsome : (readHex [a, b]).isSome = true ↔
      upper [a, b] ≠ str "0X" ∧ (strtol 16 [a, b]).2 ≠ [a, b] := by
    rw [readHex]
    split
    · next h => exact iff_of_false Bool.false_ne_true fun hne => h.elim hne.1 hne.2
    · next h => exact iff_of_true rfl (not_or.mp h)
  rw [hsome]
  cases ha : isDigit 16 a with
  | true =>
    have hlength : ([b].dropWhile (isDigit 16)).length ≤ 1 := (List.dropWhile_suffix _).length_le
    have hne : (strtol 16 [a, b]).2 ≠ [a, b] := by
      rw [strtol_digit ha]
      intro h
      rw [show [b].dropWhile (isDigit 16) = [a, b] from h] at hlength
      exact absurd hlength (Nat.not_succ_le_self 1)
    have hfront : ¬ (isSpace a = true ∨ a = chr '+' ∨ a = chr '-') := by
      rintro (h | rfl | rfl)
      · rw [isSpace_of_le (le_toNat_of_isDigit ha)] at h
        cases h
      · exact absurd ha (by decide)
      · exact absurd ha (by decide)
    rw [and_iff_left hne, and_iff_right rfl, or_iff_left fun h => hfront h.1]
  | false =>
    rw [strtol_not_digit ha]
    constructor
    · rintro ⟨-, h⟩
      by_contra hread
      exact h (if_neg fun hfront => hread (.inr hfront))
    · intro h
      replace h := h.resolve_left fun hdigit => Bool.false_ne_true hdigit.1
      rw [if_pos h]
      refine ⟨fun hupper => ?_, (List.cons_ne_nil _ _).symm⟩
      -- no digit is an `x`
      exact toUpper_ne_of_isDigit h.2 (List.cons.inj (List.cons.inj hupper).2).1

/-! ### Right decoding -/

theorem Piece.Proper.readable {p : Piece} (h : p.Proper) : p.Readable := by
  cases p with
  | plain c => exact trivial
  | escape a b => exact Option.isSome_of_eq_some (readHex_digits h.1 h.2)
  | cutOff => exact h

theorem Piece.Proper.written_eq {p : Piece} (h : p.Proper) : p.written = p.denoted := by
  cases p with
  | plain c => rfl
  | escape a b =>
    rw [written, denoted, readHex_digits h.1 h.2, Option.getD_some, UInt8.ofInt, ← UInt8.toNat_inj]
    simp
    omega
  | cutOff => exact h.elim

/-- The digits of a byte. -/
theorem digits_of_byte {c a b : UInt8} (ha : digitValue a = some (c.toNat / 16))
    (hb : digitValue b = some (c.toNat % 16)) :
    (Piece.escape a b).Proper ∧ (Piece.escape a b).denoted = c := by
  have hc := c.toNat_lt
  refine ⟨⟨?_, ?_⟩, ?_⟩
  · simp [isDigit, ha]
    omega
  · simp [isDigit, hb]
    omega
  · have hvalue : digitsValue 16 [a, b] = c.toNat := by
      simp only [digitsValue, List.foldl_cons, List.foldl_nil, ha, hb, Option.getD_some]
      omega
    rw [Piece.denoted, hvalue]
    exact UInt8.ofNat_toNat

/-- An encoding is well-formed, and its decoding the text it is one of. -/
theorem Encodes.proper {t s : Bytes} (h : Encodes t s) :
    (∀ p ∈ pieces s, p.Proper) ∧ percentDecoded s = t := by
  induction h with
  | nil => exact ⟨List.forall_mem_nil _, rfl⟩
  | plain hpercent hplus _ ih =>
    rw [percentDecoded, pieces_plain hpercent, List.forall_mem_cons, List.map_cons, Piece.denoted,
      if_neg hplus]
    exact ⟨⟨trivial, ih.1⟩, congrArg _ ih.2⟩
  | blank _ ih =>
    rw [percentDecoded, pieces_plain (by decide), List.forall_mem_cons, List.map_cons,
      Piece.denoted, if_pos rfl]
    exact ⟨⟨trivial, ih.1⟩, congrArg _ ih.2⟩
  | escape ha hb _ ih =>
    obtain ⟨hproper, hdenoted⟩ := digits_of_byte ha hb
    rw [percentDecoded, pieces_escape, List.forall_mem_cons, List.map_cons, hdenoted]
    exact ⟨⟨hproper, ih.1⟩, congrArg _ ih.2⟩

/-- A well-formed text is decoded. -/
theorem urlDecode_of_wellFormed {s : Bytes} (h : WellFormed s) :
    urlDecode s = (true, percentDecoded s) := by
  have hproper := (wellFormed_iff s).mp h
  have hreadable : ∀ p ∈ pieces s, p.Readable := fun p hp => (hproper p hp).readable
  refine Prod.ext ((urlDecode_fst s).mpr hreadable) ?_
  rw [urlDecode_snd hreadable]
  exact List.map_congr_left fun p hp => (hproper p hp).written_eq

/-- **Decoding is right exactly if a text that is not well-formed has a piece that cannot be
read.** -/
theorem decoding_iff (s : Bytes) :
    Decodes s ↔ ((∃ p ∈ pieces s, ¬ p.Proper) → ∃ p ∈ pieces s, ¬ p.Readable) := by
  have hproper : (∃ p ∈ pieces s, ¬ p.Proper) ↔ ¬ WellFormed s := by
    rw [wellFormed_iff]
    push Not
    rfl
  have hreadable : (∃ p ∈ pieces s, ¬ p.Readable) ↔ ¬ (urlDecode s).1 = true := by
    rw [urlDecode_fst]
    push Not
    rfl
  rw [hproper, hreadable]
  constructor
  · intro h hwell hok
    exact hwell (h.accepts.mp hok)
  · intro h
    refine ⟨⟨not_imp_not.mp h, fun hwell => ?_⟩, fun hwell => ?_, fun t ht => ?_⟩
    · rw [urlDecode_of_wellFormed hwell]
    · rw [urlDecode_of_wellFormed hwell]
    · obtain ⟨hall, htext⟩ := ht.proper
      rw [urlDecode_of_wellFormed ((wellFormed_iff s).mpr hall), htext]

/-- A minus sign and a digit are read as a byte. -/
theorem signed_digit : urlDecode (str "%-4") = (true, [0xFC]) ∧ ¬ Decodes (str "%-4") := by
  refine ⟨by decide, fun h => ?_⟩
  obtain ⟨a, b, tail, heq, ha, -⟩ := h.accepts.mp (by decide) _ (List.suffix_refl _)
  cases heq
  exact absurd ha (by decide)

end Domoticz
