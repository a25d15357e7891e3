import Domoticz.JsonReader

/-!
# What a document is worth

A quote, a backslash or a NUL in a string of a value costs the document a backslash at
least, and a backslash costs it two or, as a number, one and the letter of a hexadecimal
digit.  So a document in which these bytes stand for themselves cannot be read as a value
with the same strings.

## Main definitions

* `cost`, `worth` — the price of a byte in a document and its value in a string.
* `worthOf` — the value of all strings of a value.
* `Nests` — a value of at most so many levels.

## Main results

* `readValue_worth` — a value is worth no more than the document it is read from costs.
* `readValue_nests` — a value that is read is not nested too deep.
-/

namespace Domoticz.JsonReader

open CLib

/-! ### Bytes -/

/-- The price of a byte of a document: one for a backslash, a NUL and the hexadecimal digit of
a backslash. -/
def costByte (b : UInt8) : ℕ :=
  if b = 0x5C ∨ b = 0 ∨ b = chr 'c' ∨ b = chr 'C' then 1 else 0

/-- The value of a byte of a string. -/
def worthByte (b : UInt8) : ℕ :=
  if b = 0x5C then 2 else if b = 0x22 ∨ b = 0 ∨ b = chr 'c' ∨ b = chr 'C' then 1 else 0

/-- What a text costs. -/
def cost (s : Bytes) : ℕ := (s.map costByte).sum

/-- What a text is worth. -/
def worth (s : Bytes) : ℕ := (s.map worthByte).sum

@[simp] theorem cost_nil : cost [] = 0 := rfl

@[simp] theorem worth_nil : worth [] = 0 := rfl

@[simp] theorem cost_cons (b : UInt8) (s : Bytes) : cost (b :: s) = costByte b + cost s := by
  rw [cost, List.map_cons, List.sum_cons]
  rfl

@[simp] theorem worth_cons (b : UInt8) (s : Bytes) : worth (b :: s) = worthByte b + worth s := by
  rw [worth, List.map_cons, List.sum_cons]
  rfl

@[simp] theorem cost_append (s t : Bytes) : cost (s ++ t) = cost s + cost t := by
  rw [cost, List.map_append, List.sum_append]
  rfl

@[simp] theorem worth_append (s t : Bytes) : worth (s ++ t) = worth s + worth t := by
  rw [worth, List.map_append, List.sum_append]
  rfl

theorem cost_le_of_sublist {s t : Bytes} (h : s.Sublist t) : cost s ≤ cost t :=
  (h.map costByte).sum_le_sum fun _ _ => Nat.zero_le _

theorem cost_le_of_suffix {s t : Bytes} (h : s <:+ t) : cost s ≤ cost t :=
  cost_le_of_sublist h.sublist

/-- What costs more in a string than it is worth in a document is a mark. -/
theorem worthByte_of_ne {b : UInt8} (hbackslash : b ≠ 0x5C) (hquote : b ≠ 0x22) :
    worthByte b = costByte b := by
  unfold worthByte costByte
  rw [if_neg hbackslash]
  simp only [hbackslash, hquote, false_or]

theorem costByte_le_worthByte (b : UInt8) : costByte b ≤ worthByte b := by
  unfold worthByte costByte
  split_ifs with h₁ h₂ h₃
  · omega
  · omega
  · tauto
  · omega
  · omega
  · omega

/-! ### Strings -/

/-- A byte of a character beyond ASCII is worth nothing. -/
theorem worthByte_of_testBit {n : ℕ} (h : n.testBit 7 = true) : worthByte (UInt8.ofNat n) = 0 := by
  have hne {b : UInt8} (hb : b.toNat.testBit 7 = false) : UInt8.ofNat n ≠ b := by
    rintro rfl
    rw [UInt8.toNat_ofNat', Nat.testBit_mod_two_pow, h] at hb
    cases hb
  unfold worthByte
  rw [if_neg (hne rfl), if_neg]
  rintro (h | h | h | h)
  · exact hne rfl h
  · exact hne rfl h
  · exact hne rfl h
  · exact hne rfl h

theorem worth_codePointToUTF8_le (cp : ℕ) :
    worth (codePointToUTF8 cp) ≤ if cp = 92 then 2 else 1 := by
  have hbit (k n : ℕ) (hk : k.testBit 7 = true) : worthByte (UInt8.ofNat (k ||| n)) = 0 := by
    apply worthByte_of_testBit
    rw [Nat.testBit_or, hk, Bool.true_or]
  unfold codePointToUTF8
  split_ifs
  · next hle h92 =>
    subst h92
    decide
  · next hle hne =>
    rw [worth_cons, worth_nil, worthByte, if_neg]
    · split <;> omega
    · intro heq
      have hn := congrArg UInt8.toNat heq
      rw [UInt8.toNat_ofNat', Nat.mod_eq_of_lt (by omega)] at hn
      exact hne hn
  all_goals
    simp only [worth_cons, worth_nil, hbit _ _ (show Nat.testBit 0xC0 7 = true from rfl),
      hbit _ _ (show Nat.testBit 0x80 7 = true from rfl),
      hbit _ _ (show Nat.testBit 0xE0 7 = true from rfl),
      hbit _ _ (show Nat.testBit 0xF0 7 = true from rfl)]
    omega

/-- The last digit of a backslash by its number. -/
theorem costByte_of_digitValue {d : UInt8} (h : digitValue d = some 12) : costByte d = 1 := by
  unfold digitValue at h
  have hof {n : ℕ} (hn : d.toNat = n) (hlt : n < 256) : d = UInt8.ofNat n := by
    rw [← hn, UInt8.ofNat_toNat]
  split_ifs at h with h₁ h₂ h₃
  · have hle := UInt8.le_iff_toNat_le.mp h₁.2
    have hn := Option.some.inj h
    have h57 : (chr '9').toNat = 57 := rfl
    omega
  · have hle := UInt8.le_iff_toNat_le.mp h₂.1
    have hn := Option.some.inj h
    have h97 : (chr 'a').toNat = 97 := rfl
    rw [hof (n := 99) (by omega) (by omega)]
    rfl
  · have hle := UInt8.le_iff_toNat_le.mp h₃.1
    have hn := Option.some.inj h
    have h65 : (chr 'A').toNat = 65 := rfl
    rw [hof (n := 67) (by omega) (by omega)]
    rfl

theorem worth_escapeSequence_le {s rest : Bytes} {unicode : ℕ}
    (h : decodeUnicodeEscapeSequence s = some (unicode, rest)) :
    worth (codePointToUTF8 unicode) + cost rest ≤ 1 + cost s ∧ cost rest ≤ cost s ∧
      unicode < 0x10000 := by
  unfold decodeUnicodeEscapeSequence at h
  split at h
  · next a b c d s =>
    obtain ⟨⟨ha, hb, hc, hd⟩, heq⟩ := Option.ite_none_right_eq_some.mp h
    obtain ⟨rfl, rfl⟩ := Prod.mk.inj (Option.some.inj heq)
    have hdigit {x : UInt8} (hx : CLib.isDigit 16 x = true) :
        ∃ n, digitValue x = some n ∧ n < 16 := by
      unfold CLib.isDigit at hx
      cases hn : digitValue x with
      | none =>
        rw [hn] at hx
        cases hx
      | some n =>
        rw [hn] at hx
        exact ⟨n, rfl, of_decide_eq_true hx⟩
    obtain ⟨a', ha', hla⟩ := hdigit ha
    obtain ⟨b', hb', hlb⟩ := hdigit hb
    obtain ⟨c', hc', hlc⟩ := hdigit hc
    obtain ⟨d', hd', hld⟩ := hdigit hd
    have hvalue : digitsValue 16 [a, b, c, d] = ((a' * 16 + b') * 16 + c') * 16 + d' := by
      simp only [digitsValue, List.foldl_cons, List.foldl_nil, ha', hb', hc', hd', Option.getD_some]
      omega
    have hworth := worth_codePointToUTF8_le (digitsValue 16 [a, b, c, d])
    simp only [cost_cons]
    refine ⟨?_, by omega, by omega⟩
    by_cases h92 : digitsValue 16 [a, b, c, d] = 92
    · rw [if_pos h92] at hworth
      have hcost := costByte_of_digitValue (d := d) (by rw [hd']; congr 1; omega)
      omega
    · rw [if_neg h92] at hworth
      omega
  · cases h

theorem worth_codePoint_le {s rest : Bytes} {unicode : ℕ}
    (h : decodeUnicodeCodePoint s = some (unicode, rest)) :
    worth (codePointToUTF8 unicode) + cost rest ≤ 1 + cost s := by
  unfold decodeUnicodeCodePoint at h
  split at h
  · cases h
  · next u t ht =>
    obtain ⟨hworth, hcost, -⟩ := worth_escapeSequence_le ht
    split at h
    · split at h
      · next t =>
        obtain ⟨⟨v, rest'⟩, hr, heq⟩ := Option.map_eq_some_iff.mp h
        obtain ⟨rfl, rfl⟩ := Prod.mk.inj heq
        obtain ⟨-, hcost', -⟩ := worth_escapeSequence_le hr
        -- a pair is beyond ASCII
        have hpair := worth_codePointToUTF8_le
          (0x10000 + ((u &&& 0x3FF) <<< 10) + (v &&& 0x3FF))
        rw [if_neg (by omega)] at hpair
        simp only [cost_cons] at hcost
        show worth (codePointToUTF8 (0x10000 + ((u &&& 0x3FF) <<< 10) + (v &&& 0x3FF))) +
          cost rest' ≤ _
        omega
      · cases h
    · obtain ⟨rfl, rfl⟩ := Prod.mk.inj (Option.some.inj h)
      exact hworth

theorem worth_escapes {e b : UInt8} (h : escapes.lookup e = some b) :
    worthByte b ≤ 1 + costByte e := by
  have hall : escapes.all (fun p => decide (worthByte p.2 ≤ 1 + costByte p.1)) = true := rfl
  obtain ⟨front, rest, heq, -⟩ := List.lookup_eq_some_iff.mp h
  have hmem : (e, b) ∈ escapes := by
    rw [heq]
    exact List.mem_append_right _ List.mem_cons_self
  exact of_decide_eq_true (List.all_eq_true.mp hall _ hmem)

/-- What a backslash and the bytes behind it are decoded to. -/
theorem decodeString_escape (e : UInt8) (s : Bytes) :
    decodeString (0x5C :: e :: s) =
      ((escapes.lookup e).map fun b => (decodeString s).map (b :: ·)).getD
        (if e = chr 'u' then (decodeUnicodeCodePoint s).bind fun r =>
          (decodeString r.2).map (codePointToUTF8 r.1 ++ ·)
        else none) := by
  rw [decodeString, if_neg (by decide), if_pos rfl]
  cases escapes.lookup e with
  | some b => rfl
  | none =>
    simp only [Option.map_none, Option.getD_none]
    by_cases hu : e = chr 'u'
    · rw [if_pos hu, if_pos hu]
      cases decodeUnicodeCodePoint s <;> rfl
    · rw [if_neg hu, if_neg hu]

/-- A string is worth no more than what it is decoded from. -/
theorem worth_decodeString_le {raw decoded : Bytes} (h : decodeString raw = some decoded) :
    worth decoded ≤ cost raw := by
  induction hlen : raw.length using Nat.strong_induction_on generalizing raw decoded with
  | h n ih =>
    subst hlen
    cases raw with
    | nil =>
      rw [decodeString] at h
      cases h
      exact le_refl _
    | cons c s =>
      by_cases hquote : c = 0x22
      · unfold decodeString at h
        simp only [hquote, if_true] at h
        cases h
        exact Nat.zero_le _
      · by_cases hbackslash : c = 0x5C
        · subst hbackslash
          have hcost : costByte 92 = 1 := rfl
          cases s with
          | nil =>
            simp [decodeString] at h
          | cons e s =>
            rw [decodeString_escape] at h
            cases hb : escapes.lookup e with
            | some b =>
              rw [hb] at h
              obtain ⟨rest, hrest, rfl⟩ := Option.map_eq_some_iff.mp h
              have hescape := worth_escapes hb
              have htail := ih s.length (by simp only [List.length_cons]; omega) hrest rfl
              simp only [worth_cons, cost_cons]
              omega
            | none =>
              rw [hb] at h
              obtain ⟨hu, hbind⟩ := Option.ite_none_right_eq_some.mp h
              obtain ⟨⟨unicode, rest⟩, hunicode, hmap⟩ := Option.bind_eq_some_iff.mp hbind
              obtain ⟨tail, htail, rfl⟩ := Option.map_eq_some_iff.mp hmap
              have hworth := worth_codePoint_le hunicode
              have hshorter := length_decodeUnicodeCodePoint hunicode
              have hrest : worth tail ≤ cost rest :=
                ih rest.length (by simp only [List.length_cons]; omega) htail rfl
              simp only [worth_append, cost_cons]
              omega
        · unfold decodeString at h
          simp only [hquote, hbackslash, if_false] at h
          obtain ⟨rest, hrest, rfl⟩ := Option.map_eq_some_iff.mp h
          have htail := ih s.length (by simp only [List.length_cons]; omega) hrest rfl
          rw [worth_cons, cost_cons, worthByte_of_ne hbackslash hquote]
          omega

/-- A string and what is behind it cost no more than the text that they are read from. -/
theorem cost_readString {s raw rest : Bytes} (h : readString s = some (raw, rest)) :
    cost raw + cost rest ≤ cost s := by
  fun_induction readString s generalizing raw rest with
  | case1 => cases h
  | case2 => cases h; exact Nat.zero_le _
  | case3 => cases h
  | case4 d s ih =>
    obtain ⟨⟨raw', rest'⟩, hr, heq⟩ := Option.map_eq_some_iff.mp h
    obtain ⟨rfl, rfl⟩ := Prod.mk.inj heq
    have hle := ih hr
    simp only [cost_cons]
    omega
  | case5 d s _ =>
    obtain ⟨rfl, rfl⟩ := Prod.mk.inj (Option.some.inj h)
    simp only [cost_cons, cost_nil]
    omega
  | case6 c d s _ _ ih =>
    obtain ⟨⟨raw', rest'⟩, hr, heq⟩ := Option.map_eq_some_iff.mp h
    obtain ⟨rfl, rfl⟩ := Prod.mk.inj heq
    have hle := ih hr
    simp only [cost_cons] at hle ⊢
    omega

/-! ### Values -/

mutual

/-- What the strings and names of a value are worth. -/
def worthOf : Value → ℕ
  | .string s => worth s
  | .array items => worthItems items
  | .object members => worthMembers members
  | _ => 0

/-- What the items of an array are worth. -/
def worthItems : List Value → ℕ
  | [] => 0
  | v :: items => worthOf v + worthItems items

/-- What the members of an object are worth. -/
def worthMembers : List (Bytes × Value) → ℕ
  | [] => 0
  | (name, v) :: members => worth name + worthOf v + worthMembers members

end

/-- A value of at most so many levels with finite numbers. -/
def Nests : ℕ → Value → Prop
  | 0, _ => False
  | _ + 1, .real d => Double.isFinite d = true
  | levels + 1, .array items => ∀ v ∈ items, Nests levels v
  | levels + 1, .object members => ∀ m ∈ members, Nests levels m.2
  | _ + 1, _ => True

/-- What is read from a text at some level. -/
structure Sound (levels : ℕ) {s : Bytes} (p : Parsed Value s) : Prop where
  worth_le : worthOf p.value + cost p.rest ≤ cost s
  nests : Nests levels p.value

theorem worth_setMember_le (name : Bytes) (v : Value) (members : List (Bytes × Value)) :
    worthMembers (setMember name v members) ≤ worth name + worthOf v + worthMembers members := by
  induction members with
  | nil => exact le_refl _
  | cons m members ih =>
    obtain ⟨name', v'⟩ := m
    rw [setMember]
    split_ifs with heq hlt
    · subst heq
      simp only [worthMembers]
      omega
    · exact le_refl _
    · simp only [worthMembers]
      omega

theorem mem_setMember {name : Bytes} {v : Value} {members : List (Bytes × Value)}
    {m : Bytes × Value} (h : m ∈ setMember name v members) : m = (name, v) ∨ m ∈ members := by
  induction members with
  | nil => exact .inl (List.mem_singleton.mp h)
  | cons m' members ih =>
    obtain ⟨name', v'⟩ := m'
    rw [setMember] at h
    split_ifs at h
    · rcases List.mem_cons.mp h with rfl | h
      · exact .inl rfl
      · exact .inr (List.mem_cons_of_mem _ h)
    · rcases List.mem_cons.mp h with rfl | h
      · exact .inl rfl
      · exact .inr h
    · rcases List.mem_cons.mp h with rfl | h
      · exact .inr List.mem_cons_self
      · exact (ih h).imp id (List.mem_cons_of_mem _)

theorem forall_mem_setMember {levels : ℕ} {name : Bytes} {v : Value}
    {members : List (Bytes × Value)} (hmembers : ∀ m ∈ members, Nests levels m.2)
    (hv : Nests levels v) : ∀ m ∈ setMember name v members, Nests levels m.2 := by
  intro m hm
  rcases mem_setMember hm with rfl | hm
  · exact hv
  · exact hmembers m hm

/-! ### Tokens -/

theorem cost_rest_le {s : Bytes} (r : Read s) : cost r.rest ≤ cost s := cost_le_of_suffix r.suffix

/-- The tokens of the tables are no strings. -/
theorem punctuation_ne_string {c : UInt8} {token : Token} (h : punctuation.lookup c = some token)
    (raw : Bytes) : token ≠ .string raw := by
  obtain ⟨front, rest, heq, -⟩ := List.lookup_eq_some_iff.mp h
  have hmem : (c, token) ∈ punctuation := by
    rw [heq]
    exact List.mem_append_right _ List.mem_cons_self
  rintro rfl
  simp [punctuation] at hmem

theorem literals_ne_string {c : UInt8} {pattern : Bytes} {token : Token}
    (h : literals.lookup c = some (pattern, token)) (raw : Bytes) : token ≠ .string raw := by
  obtain ⟨front, rest, heq, -⟩ := List.lookup_eq_some_iff.mp h
  have hmem : (c, pattern, token) ∈ literals := by
    rw [heq]
    exact List.mem_append_right _ List.mem_cons_self
  rintro rfl
  simp [literals] at hmem

/-- What a string token and what is behind it cost. -/
theorem cost_tokenOf {c : UInt8} {s raw : Bytes} (h : (tokenOf c s).1 = .string raw) :
    cost raw + cost (tokenOf c s).2 ≤ cost s := by
  unfold tokenOf at h ⊢
  cases hp : punctuation.lookup c with
  | some token =>
    simp only [hp] at h
    exact absurd h (punctuation_ne_string hp raw)
  | none =>
    simp only [hp] at h ⊢
    by_cases hquote : c = 0x22
    · simp only [hquote, if_true] at h ⊢
      cases hs : readString s with
      | none =>
        simp only [hs] at h
        cases h
      | some r =>
        simp only [hs] at h ⊢
        obtain rfl := Token.string.inj h
        exact cost_readString hs
    · -- no other token is a string
      exfalso
      simp only [hquote, if_false] at h
      by_cases hslash : c = chr '/'
      · simp only [hslash, if_true] at h
        cases hc : readComment s with
        | none =>
          simp only [hc] at h
          cases h
        | some rest =>
          simp only [hc] at h
          cases h
      simp only [hslash, if_false] at h
      by_cases hnumber : isDigit c = true ∨ c = chr '-'
      · simp only [hnumber, if_true] at h
        cases h
      simp only [hnumber, if_false] at h
      cases hl : literals.lookup c with
      | none =>
        simp only [hl] at h
        split at h
        · cases h
        · cases h
      | some l =>
        simp only [hl] at h
        split at h
        · exact literals_ne_string hl raw h
        · cases h

theorem cost_readToken {s raw : Bytes} (h : (readToken s).token = .string raw) :
    cost raw + cost (readToken s).rest ≤ cost s := by
  cases ht : s.dropWhile Text.isWhitespace with
  | nil =>
    rw [readToken_of_nil ht] at h
    cases h
  | cons c t =>
    obtain ⟨htoken, hrest⟩ := readToken_of_cons ht
    rw [htoken] at h
    rw [hrest]
    refine (cost_tokenOf h).trans (cost_le_of_suffix ?_)
    exact (List.suffix_cons c t).trans (ht ▸ List.dropWhile_suffix _)

theorem cost_skipComments {s raw : Bytes} (h : (skipComments s).token = .string raw) :
    cost raw + cost (skipComments s).rest ≤ cost s := by
  fun_induction skipComments s with
  | case1 s hc _ _ ih => exact (ih h).trans (cost_rest_le (readToken s))
  | case2 s _ => exact cost_readToken h

/-! ### Reading -/

section Loops

variable {element : (s : Bytes) → Except Failure (Parsed Value s)} {levels : ℕ}

theorem worth_readElements_le (hall : ∀ s p, element s = .ok p → Sound levels p) {s : Bytes}
    {p : Parsed (List Value) s} (h : readElements element s = .ok p) :
    worthItems p.value + cost p.rest ≤ cost s ∧ ∀ v ∈ p.value, Nests levels v := by
  fun_induction readElements element s with
  | case1 => cases h
  | case2 => cases h
  | case3 =>
    rename_i s first hfirst separator _ _ q hq ih
    obtain ⟨hworth, hnests⟩ := hall s first hfirst
    obtain ⟨hrest, hitems⟩ := ih hq
    have hsep := cost_rest_le separator
    cases h
    refine ⟨?_, List.forall_mem_cons.mpr ⟨hnests, hitems⟩⟩
    simp only [worthItems]
    omega
  | case4 s first hfirst separator _ =>
    obtain ⟨hworth, hnests⟩ := hall s first hfirst
    have hsep := cost_rest_le separator
    cases h
    refine ⟨?_, List.forall_mem_cons.mpr ⟨hnests, List.forall_mem_nil _⟩⟩
    simp only [worthItems]
    omega
  | case5 => cases h

theorem worth_readArray_le (hall : ∀ s p, element s = .ok p → Sound levels p) {s : Bytes}
    {p : Parsed (List Value) s} (h : readArray element s = .ok p) :
    worthItems p.value + cost p.rest ≤ cost s ∧ ∀ v ∈ p.value, Nests levels v := by
  unfold readArray at h
  split at h
  · next b rest hb =>
    split at h
    · cases h
      have hsuffix : rest <:+ s :=
        (List.suffix_cons b rest).trans (hb ▸ List.dropWhile_suffix _)
      have hle := cost_le_of_suffix hsuffix
      exact ⟨by simpa only [worthItems, Nat.zero_add] using hle, List.forall_mem_nil _⟩
    · exact worth_readElements_le hall h
  · exact worth_readElements_le hall h

/-- What is left behind the name of a member. -/
theorem worth_readName_le {last s : Bytes} {p : Parsed (Option Bytes) s}
    (h : readName last s = .ok p) : worth (p.value.getD []) + cost p.rest ≤ cost s := by
  unfold readName at h
  simp only at h
  split at h
  · split at h
    · cases h
      exact (Nat.zero_add _).trans_le (cost_rest_le (skipComments s))
    · cases h
  · next raw hraw =>
    split at h
    · cases h
    · next name hname =>
      split at h
      · cases h
        have hworth := worth_decodeString_le hname
        have htoken := cost_skipComments hraw
        have hcolon := cost_rest_le (readToken (skipComments s).rest)
        show worth name + cost (readToken (skipComments s).rest).rest ≤ cost s
        omega
      · cases h
  · cases h

theorem worth_readMembers_le (hall : ∀ s p, element s = .ok p → Sound levels p) {last s : Bytes}
    {members : List (Bytes × Value)} {p : Parsed (List (Bytes × Value)) s}
    (hmembers : ∀ m ∈ members, Nests levels m.2)
    (h : readMembers element last members s = .ok p) :
    worthMembers p.value + cost p.rest ≤ worthMembers members + cost s ∧
      ∀ m ∈ p.value, Nests levels m.2 := by
  fun_induction readMembers element last members s with
  | case1 => cases h
  | case2 last members s rest hlt hname =>
    have hle := worth_readName_le hname
    cases h
    simp only [Option.getD_none, worth_nil, Nat.zero_add] at hle
    exact ⟨Nat.add_le_add_left hle _, hmembers⟩
  | case3 => cases h
  | case4 =>
    rename_i last members s name rest _ hname first hfirst comma _
    have hle := worth_readName_le hname
    obtain ⟨hworth, hnests⟩ := hall rest first hfirst
    have hset := worth_setMember_le name first.value members
    have hcomma := cost_rest_le comma
    cases h
    refine ⟨?_, forall_mem_setMember hmembers hnests⟩
    simp only [Option.getD_some] at hle
    show worthMembers (setMember name first.value members) + cost comma.rest ≤ _
    omega
  | case5 => cases h
  | case6 =>
    rename_i last members s name rest _ hname first hfirst comma _ _ _ _ q hq ih
    have hle := worth_readName_le hname
    obtain ⟨hworth, hnests⟩ := hall rest first hfirst
    have hset := worth_setMember_le name first.value members
    have hcomma := cost_rest_le comma
    obtain ⟨hrest, hall'⟩ := ih (forall_mem_setMember hmembers hnests) hq
    cases h
    refine ⟨?_, hall'⟩
    simp only [Option.getD_some] at hle
    show worthMembers q.value + cost q.rest ≤ _
    omega
  | case7 => cases h

end Loops

theorem decodeNumber_sound {text : Bytes} {v : Value} (h : decodeNumber text = some v)
    (levels : ℕ) : worthOf v = 0 ∧ Nests (levels + 1) v := by
  unfold decodeNumber at h
  simp only at h
  split at h
  · obtain ⟨d, hd, rfl⟩ := Option.map_eq_some_iff.mp h
    exact ⟨rfl, Double.isFinite_of_readDouble hd⟩
  · split_ifs at h
    · cases h
      exact ⟨rfl, trivial⟩
    · cases h
      exact ⟨rfl, trivial⟩
    · cases h
      exact ⟨rfl, trivial⟩

/-- Every value that is read is sound; the induction is on the levels that are left. -/
theorem readValue_sound (levels : ℕ) (s : Bytes) (p : Parsed Value s)
    (h : readValue levels s = .ok p) : Sound levels p := by
  induction levels generalizing s with
  | zero => cases h
  | succ levels ih =>
    -- the comments in front are worth nothing
    have hrest := cost_rest_le (skipComments s)
    unfold readValue at h
    simp only at h
    split at h
    · split at h
      · split at h
        · cases h
        · next q hq =>
          obtain ⟨hworth, hall⟩ := worth_readMembers_le ih (List.forall_mem_nil _) hq
          cases h
          simp only [worthMembers] at hworth
          exact ⟨by simp only [worthOf]; omega, hall⟩
      · split at h
        · cases h
        · next q hq =>
          obtain ⟨hworth, hall⟩ := worth_readArray_le ih hq
          cases h
          exact ⟨by simp only [worthOf]; omega, hall⟩
      · split at h
        · next value hvalue =>
          cases h
          obtain ⟨hzero, hnests⟩ := decodeNumber_sound hvalue levels
          exact ⟨by simp only [hzero]; omega, hnests⟩
        · cases h
      · next raw htoken =>
        split at h
        · next decoded hdecoded =>
          cases h
          have hworth := worth_decodeString_le hdecoded
          have hcost := cost_skipComments htoken
          exact ⟨by simp only [worthOf]; omega, trivial⟩
        · cases h
      · cases h
        exact ⟨by simp only [worthOf]; omega, trivial⟩
      · cases h
        exact ⟨by simp only [worthOf]; omega, trivial⟩
      · cases h
        exact ⟨by simp only [worthOf]; omega, trivial⟩
      · cases h
    · cases h

/-- A document that is read. -/
theorem parse_sound {document : Bytes} {v : Value} (h : parse document = .ok v) :
    worthOf v ≤ cost document ∧ Nests stackLimit v := by
  unfold parse at h
  split at h
  · cases h
  · next p hp =>
    obtain ⟨hworth, hnests⟩ := readValue_sound stackLimit document p hp
    cases h
    exact ⟨by omega, hnests⟩

end Domoticz.JsonReader
