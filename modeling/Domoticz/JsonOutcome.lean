import Domoticz.JsonReader

/-!
# What a reader makes of a text

`readValue` and its loops give with every value a proof that something was read.  Here
they are seen through `outcome`, the value and what is behind it, and each of them gets the
equation that its caller rewrites with.

## Main definitions

* `outcome` — what was read and what is behind it.
* `valueOf` — what is read from a token on.
* `Delimited` — a text that starts with what ends a value.

## Main results

* `outcome_readValue`, `outcome_readElements`, `outcome_readMembers` — the equations.
* `readString_append`, `readNumber_append`, `decodeDigits_eq` — strings and numbers.
-/

namespace Domoticz.JsonReader

open CLib Text

/-- What was read and what is behind it, if it was read. -/
def outcome {α : Type} {s : Bytes} : Except Failure (Parsed α s) → Option (α × Bytes)
  | .error _ => none
  | .ok p => some (p.value, p.rest)

@[simp] theorem outcome_error {α : Type} {s : Bytes} (e : Failure) :
    outcome (.error e : Except Failure (Parsed α s)) = none := rfl

@[simp] theorem outcome_ok {α : Type} {s : Bytes} (p : Parsed α s) :
    outcome (.ok p) = some (p.value, p.rest) := rfl

/-! ### Tokens -/

/-- A text that starts with a comma or a closing bracket. -/
def Delimited (s : Bytes) : Prop :=
  ∃ c t, s = c :: t ∧ (c = chr ',' ∨ c = chr ']' ∨ c = chr '\x7d')

theorem skipComments_of_cons {s t : Bytes} {c : UInt8} (h : s.dropWhile isWhitespace = c :: t)
    (hne : (tokenOf c t).1 ≠ .comment) :
    (skipComments s).token = (tokenOf c t).1 ∧ (skipComments s).rest = (tokenOf c t).2 := by
  have hread := readToken_of_cons h
  rw [skipComments_of_ne (by rw [hread.1]; exact hne)]
  exact hread

/-- A token of a single byte. -/
theorem skipComments_punctuation {s t : Bytes} {c : UInt8} {token : Token}
    (h : s.dropWhile isWhitespace = c :: t) (hc : punctuation.lookup c = some token)
    (hne : token ≠ .comment) : (skipComments s).token = token ∧ (skipComments s).rest = t := by
  have htoken : tokenOf c t = (token, t) := by
    unfold tokenOf
    rw [hc]
  have hskip := skipComments_of_cons h (by rw [htoken]; exact hne)
  rwa [htoken] at hskip

/-- Nothing is skipped in front of a byte that is no white space. -/
theorem dropWhile_of_solid {c : UInt8} (hc : isWhitespace c = false) (t : Bytes) :
    (c :: t).dropWhile isWhitespace = c :: t :=
  List.dropWhile_cons_of_neg (by rw [hc]; exact Bool.false_ne_true)

/-! ### Values -/

/-- What is read from a token on; `rest` is behind the token. -/
def valueOf (levels : ℕ) : Token → Bytes → Option (Value × Bytes)
  | .objectBegin, rest =>
      (outcome (readMembers (readValue levels) [] [] rest)).map fun r => (.object r.1, r.2)
  | .arrayBegin, rest =>
      (outcome (readArray (readValue levels) rest)).map fun r => (.array r.1, r.2)
  | .number text, rest => (decodeNumber text).map fun v => (v, rest)
  | .string raw, rest => (decodeString raw).map fun s => (.string s, rest)
  | .true, rest => some (.bool true, rest)
  | .false, rest => some (.bool false, rest)
  | .null, rest => some (.null, rest)
  | _, _ => none

theorem valueOf_of_not_proper {levels : ℕ} {token : Token} {rest : Bytes}
    (h : ¬ token.isProper = true) : valueOf levels token rest = none := by
  cases token with
  | endOfStream => rfl
  | error => rfl
  | _ => exact absurd rfl h

theorem outcome_readValue (levels : ℕ) (s : Bytes) :
    outcome (readValue (levels + 1) s) =
      valueOf levels (skipComments s).token (skipComments s).rest := by
  rw [readValue]
  split
  · -- the cases of the token are those of the reader
    split
    · next h =>
      conv_rhs => rw [h, valueOf]
      cases readMembers (readValue levels) [] [] (skipComments s).rest <;> rfl
    · next h =>
      conv_rhs => rw [h, valueOf]
      cases readArray (readValue levels) (skipComments s).rest <;> rfl
    · next text h =>
      conv_rhs => rw [h, valueOf]
      cases decodeNumber text <;> rfl
    · next raw h =>
      conv_rhs => rw [h, valueOf]
      cases decodeString raw <;> rfl
    · next h =>
      conv_rhs => rw [h, valueOf]
      rfl
    · next h =>
      conv_rhs => rw [h, valueOf]
      rfl
    · next h =>
      conv_rhs => rw [h, valueOf]
      rfl
    · next hobject harray hnumber hstring htrue hfalse hnull =>
      rw [outcome_error]
      unfold valueOf
      split
      · next h => exact absurd h hobject
      · next h => exact absurd h harray
      · next text h => exact absurd h (hnumber text)
      · next raw h => exact absurd h (hstring raw)
      · next h => exact absurd h htrue
      · next h => exact absurd h hfalse
      · next h => exact absurd h hnull
      · rfl
  · next hproper => rw [outcome_error, valueOf_of_not_proper hproper]

/-- What is read from a byte on that starts no comment. -/
theorem outcome_readValue_of_cons (levels : ℕ) {s t rest : Bytes} {c : UInt8} {token : Token}
    (h : s.dropWhile isWhitespace = c :: t) (htoken : tokenOf c t = (token, rest))
    (hne : token ≠ .comment) :
    outcome (readValue (levels + 1) s) = valueOf levels token rest := by
  obtain ⟨ht, hr⟩ := skipComments_of_cons h (by rw [htoken]; exact hne)
  rw [outcome_readValue, ht, hr, htoken]

section Loops

variable (element : (s : Bytes) → Except Failure (Parsed Value s))

/-- What the loop of `readArray` makes of the separator behind an item. -/
def behindItem (v : Value) (rest : Bytes) : Option (List Value × Bytes) :=
  match (skipComments rest).token with
  | .arraySeparator =>
      (outcome (readElements element (skipComments rest).rest)).map fun q => (v :: q.1, q.2)
  | .arrayEnd => some ([v], (skipComments rest).rest)
  | _ => none

theorem outcome_readElements (s : Bytes) :
    outcome (readElements element s) =
      (outcome (element s)).bind fun p => behindItem element p.1 p.2 := by
  rw [readElements]
  cases element s with
  | error e => rfl
  | ok p =>
    rw [outcome_ok, Option.bind_some, behindItem]
    dsimp only
    split
    · next h =>
      conv_rhs => rw [h]
      cases readElements element (skipComments p.rest).rest <;> rfl
    · split
      · next h =>
        conv_rhs => rw [h]
        rfl
      · next hsep hend =>
        split
        · next h => exact absurd h hsep
        · next h => exact absurd h hend
        · rfl

theorem outcome_readArray_nil {s t : Bytes} (h : s.dropWhile isWhitespace = chr ']' :: t) :
    outcome (readArray element s) = some ([], t) := by
  unfold readArray
  split
  · next b rest hb =>
    rw [h] at hb
    obtain ⟨rfl, rfl⟩ := List.cons.inj hb
    rfl
  · next hb =>
    rw [h] at hb
    cases hb

theorem outcome_readArray {s t : Bytes} {c : UInt8} (h : s.dropWhile isWhitespace = c :: t)
    (hc : c ≠ chr ']') :
    outcome (readArray element s) = outcome (readElements element s) := by
  unfold readArray
  split
  · next b rest hb =>
    rw [h] at hb
    obtain ⟨rfl, rfl⟩ := List.cons.inj hb
    rw [if_neg hc]
  · rfl

theorem outcome_readName {last s rest raw name : Bytes}
    (htoken : (skipComments s).token = .string raw) (hname : decodeString raw = some name)
    (hcolon : (readToken (skipComments s).rest).token = .memberSeparator)
    (hrest : (readToken (skipComments s).rest).rest = rest) :
    outcome (readName last s) = some (some name, rest) := by
  unfold readName
  simp only
  split
  · next h =>
    rw [htoken] at h
    cases h
  · next raw' h =>
    rw [htoken] at h
    obtain rfl := Token.string.inj h
    rw [hname]
    simp only [hcolon, dite_true, outcome, hrest]
  · next h => exact absurd htoken (h raw)

theorem outcome_readName_nil {s : Bytes} (htoken : (skipComments s).token = .objectEnd) :
    outcome (readName [] s) = some (none, (skipComments s).rest) := by
  unfold readName
  simp only
  split
  · rfl
  · next h =>
    rw [htoken] at h
    cases h
  · next hend _ => exact absurd htoken hend

/-- What the loop of `readObject` makes of the separator behind a member. -/
def behindMember (name : Bytes) (members : List (Bytes × Value)) (rest : Bytes) :
    Option (List (Bytes × Value) × Bytes) :=
  if (skipComments rest).token = .objectEnd then some (members, (skipComments rest).rest)
  else if (skipComments rest).token = .arraySeparator ∨ (readToken rest).token = .comment then
    outcome (readMembers element name members (skipComments rest).rest)
  else none

theorem behindMember_separator {name rest : Bytes} {members : List (Bytes × Value)}
    (h : (skipComments rest).token = .arraySeparator) :
    behindMember element name members rest =
      outcome (readMembers element name members (skipComments rest).rest) := by
  have hend : (skipComments rest).token ≠ .objectEnd := by
    rw [h]
    simp
  rw [behindMember, if_neg hend, if_pos (.inl h)]

theorem behindMember_objectEnd {name rest : Bytes} {members : List (Bytes × Value)}
    (h : (skipComments rest).token = .objectEnd) :
    behindMember element name members rest = some (members, (skipComments rest).rest) := by
  rw [behindMember, if_pos h]

theorem outcome_readMembers (last : Bytes) (members : List (Bytes × Value)) (s : Bytes) :
    outcome (readMembers element last members s) =
      (outcome (readName last s)).bind fun p =>
        match p.1 with
        | none => some (members, p.2)
        | some name => (outcome (element p.2)).bind fun q =>
            behindMember element name (setMember name q.1 members) q.2 := by
  rw [readMembers]
  cases readName last s with
  | error e => rfl
  | ok p =>
    obtain ⟨name, rest, hrest⟩ := p
    cases name with
    | none => rfl
    | some name =>
      rw [outcome_ok, Option.bind_some]
      dsimp only
      cases element rest with
      | error e => rfl
      | ok q =>
        rw [outcome_ok, Option.bind_some, behindMember]
        dsimp only
        split
        · rfl
        · split
          · cases readMembers element name (setMember name q.value members)
              (skipComments q.rest).rest <;> rfl
          · rfl

end Loops

theorem parse_eq (document : Bytes) :
    (parse document).toOption = (outcome (readValue stackLimit document)).map Prod.fst := by
  unfold parse
  cases readValue stackLimit document <;> rfl

/-! ### Strings -/

/-- A string without escapes, up to its quote. -/
theorem readString_append {s : Bytes} (hquote : 0x22 ∉ s) (hbackslash : 0x5C ∉ s) (t : Bytes) :
    readString (s ++ 0x22 :: t) = some (s, t) := by
  induction s with
  | nil => cases t <;> rfl
  | cons c s ih =>
    obtain ⟨hq, hqs⟩ := not_or.mp (mt List.mem_cons.mpr hquote)
    obtain ⟨hb, hbs⟩ := not_or.mp (mt List.mem_cons.mpr hbackslash)
    obtain ⟨d, u, hu⟩ : ∃ d u, s ++ 0x22 :: t = d :: u := by
      cases s with
      | nil => exact ⟨_, _, rfl⟩
      | cons d s => exact ⟨_, _, rfl⟩
    rw [List.cons_append, hu, readString, if_neg (Ne.symm hb), if_neg (Ne.symm hq), ← hu,
      ih hqs hbs]
    rfl

/-- A string without escapes stands for itself. -/
theorem decodeString_self {s : Bytes} (hquote : 0x22 ∉ s) (hbackslash : 0x5C ∉ s) :
    decodeString s = some s := by
  induction s with
  | nil => rw [decodeString]
  | cons c s ih =>
    obtain ⟨hq, hqs⟩ := not_or.mp (mt List.mem_cons.mpr hquote)
    obtain ⟨hb, hbs⟩ := not_or.mp (mt List.mem_cons.mpr hbackslash)
    unfold decodeString
    simp only [Ne.symm hq, Ne.symm hb, if_false, ih hqs hbs, Option.map_some]

/-- The token of a string without escapes. -/
theorem tokenOf_quote {s : Bytes} (hquote : 0x22 ∉ s) (hbackslash : 0x5C ∉ s) (t : Bytes) :
    tokenOf 0x22 (s ++ 0x22 :: t) = (.string s, t) := by
  have hlookup : punctuation.lookup 0x22 = none := rfl
  unfold tokenOf
  rw [hlookup]
  simp only [if_true, readString_append hquote hbackslash]

/-! ### Numbers -/

/-- Digits up to the end of a value. -/
theorem dropWhile_digits {ds : Bytes} (h : ds.all isDigit = true) {c : UInt8} {t : Bytes}
    (hc : isDigit c = false) : (ds ++ c :: t).dropWhile isDigit = c :: t := by
  rw [List.dropWhile_append_of_pos (List.all_eq_true.mp h),
    List.dropWhile_cons_of_neg (by rw [hc]; exact Bool.false_ne_true)]

theorem Delimited.notDigit {s : Bytes} (h : Delimited s) :
    ∃ c t, s = c :: t ∧ isDigit c = false ∧ readFraction s = s ∧ readExponent s = s := by
  obtain ⟨c, t, rfl, rfl | rfl | rfl⟩ := h
  · exact ⟨_, t, rfl, rfl, rfl, rfl⟩
  · exact ⟨_, t, rfl, rfl, rfl, rfl⟩
  · exact ⟨_, t, rfl, rfl, rfl, rfl⟩

/-- The digits behind the first byte of an integer. -/
theorem readNumber_append {ds rest : Bytes} (h : ds.all isDigit = true) (hrest : Delimited rest) :
    readNumber (ds ++ rest) = rest := by
  obtain ⟨c, t, rfl, hc, hfraction, hexponent⟩ := hrest.notDigit
  rw [readNumber, dropWhile_digits h hc, hfraction, hexponent]

/-- The digits behind the first byte of a number with a point. -/
theorem readNumber_point {ds fraction rest : Bytes} (h : ds.all isDigit = true)
    (hfraction : fraction.all isDigit = true) (hrest : Delimited rest) :
    readNumber (ds ++ chr '.' :: fraction ++ rest) = rest := by
  obtain ⟨c, t, rfl, hc, -, hexponent⟩ := hrest.notDigit
  have hpoint : isDigit (chr '.') = false := rfl
  rw [List.append_assoc, List.cons_append, readNumber, dropWhile_digits h hpoint, readFraction,
    if_pos rfl, dropWhile_digits hfraction hc, hexponent]

theorem tokenOf_number {c : UInt8} {u rest : Bytes} (hc : isDigit c = true ∨ c = chr '-')
    (hu : readNumber (u ++ rest) = rest) : tokenOf c (u ++ rest) = (.number (c :: u), rest) := by
  have hne {b : UInt8} (hb : isDigit b = false) (hminus : b ≠ chr '-') : c ≠ b := by
    rintro rfl
    rcases hc with hc | hc
    · rw [hb] at hc
      cases hc
    · exact hminus hc
  have hlookup : punctuation.lookup c = none := by
    rw [List.lookup_eq_none_iff]
    intro p hp
    have hall : punctuation.all (fun p => !isDigit p.1 && p.1 != chr '-') = true := rfl
    have hp' := List.all_eq_true.mp hall p hp
    simp only [Bool.and_eq_true, Bool.not_eq_true', bne_iff_ne] at hp'
    exact bne_iff_ne.mpr (hne hp'.1 hp'.2)
  have htake : (u ++ rest).take ((u ++ rest).length - rest.length) = u := by
    rw [List.length_append, Nat.add_sub_cancel, List.take_left]
  unfold tokenOf
  simp only [hlookup, hne (b := 0x22) rfl (by decide), hne (b := chr '/') rfl (by decide), if_false,
    hc, if_true, hu, htake]

/-- The digits of a number that is far from the greatest. -/
theorem decodeDigits_eq {maxIntegerValue : ℕ} {ds : Bytes} (h : ds.all isDigit = true) (value : ℕ)
    (hlt : ds.foldl (fun acc b => acc * 10 + (digitValue b).getD 0) value < maxIntegerValue / 10) :
    decodeDigits maxIntegerValue value ds =
      some (ds.foldl (fun acc b => acc * 10 + (digitValue b).getD 0) value) := by
  induction ds generalizing value with
  | nil => rfl
  | cons c ds ih =>
    rw [List.all_cons, Bool.and_eq_true] at h
    have hgrows (l : Bytes) (n : ℕ) :
        n ≤ l.foldl (fun acc b => acc * 10 + (digitValue b).getD 0) n := by
      induction l generalizing n with
      | nil => exact le_refl _
      | cons b l ih' =>
        have hstep : n ≤ n * 10 + (digitValue b).getD 0 := by omega
        exact le_trans hstep (ih' _)
    rw [List.foldl_cons] at hlt ⊢
    have hvalue := hgrows ds (value * 10 + (digitValue c).getD 0)
    unfold decodeDigits
    rw [if_pos h.1]
    simp only
    rw [if_neg (by omega)]
    exact ih h.2 _ hlt

/-- A number with a point is no integer. -/
theorem decodeDigits_point (maxIntegerValue value : ℕ) (ds fraction : Bytes) :
    decodeDigits maxIntegerValue value (ds ++ chr '.' :: fraction) = none := by
  induction ds generalizing value with
  | nil => rfl
  | cons c ds ih =>
    rw [List.cons_append, decodeDigits]
    split
    · simp only
      split
      · rfl
      · exact ih _
    · rfl

end Domoticz.JsonReader
