import Domoticz.CLib.Double
import Domoticz.Json
import Domoticz.Text.Lexical

/-!
# Reading JSON

`Json::Reader::parse` in `json_reader.cpp`, for a reader with the default features.  What
it does with comments, the offsets it keeps and the texts of its errors are left out; a
comment is skipped, and after an error nothing but the failure is seen.

## Main definitions

* `Token`, `Read`, `readToken` — tokens.
* `decodeString`, `decodeNumber` — what they stand for.
* `readValue`, `parse` — values.
-/

namespace Domoticz.JsonReader

open CLib Text

/-- A value of a document; its real numbers are doubles. -/
abbrev Value := Json UInt64

/-! ### Tokens -/

/-- What `readToken` reads. -/
inductive Token
  | objectBegin
  | objectEnd
  | arrayBegin
  | arrayEnd
  /-- A string, by what stands between its quotes. -/
  | string (raw : Bytes)
  | number (text : Bytes)
  | true
  | false
  | null
  | arraySeparator
  | memberSeparator
  | comment
  | endOfStream
  | error
  deriving DecidableEq, Repr

/-- A token that something is read with. -/
def Token.isProper (t : Token) : Bool := t != .endOfStream && t != .error

/-- What `readToken` leaves of a text. -/
structure Read (s : Bytes) where
  token : Token
  rest : Bytes
  suffix : rest <:+ s
  shorter : token.isProper = true → rest.length < s.length

/-- The tokens of a single byte. -/
def punctuation : List (UInt8 × Token) :=
  [(chr '\x7b', .objectBegin), (chr '\x7d', .objectEnd), (chr '[', .arrayBegin),
    (chr ']', .arrayEnd), (chr ',', .arraySeparator), (chr ':', .memberSeparator)]

/-- The literals, by their first byte and the rest of them. -/
def literals : List (UInt8 × Bytes × Token) :=
  [(chr 't', str "rue", .true), (chr 'f', str "alse", .false), (chr 'n', str "ull", .null)]

/-- The bytes of a string up to its closing quote, and what is behind it.  A backslash takes
the next byte with it. -/
def readString : Bytes → Option (Bytes × Bytes)
  | [] => none
  | [c] => if c = 0x22 then some ([], []) else none
  | c :: d :: s =>
      if c = 0x5C then (readString s).map fun r => (c :: d :: r.1, r.2)
      else if c = 0x22 then some ([], d :: s)
      else (readString (d :: s)).map fun r => (c :: r.1, r.2)

/-- `Reader::match` of a digit; also what `readNumber` takes for one. -/
def isDigit (b : UInt8) : Bool := CLib.isDigit 10 b

/-- What is behind a fractional part, if there is one. -/
def readFraction : Bytes → Bytes
  | [] => []
  | b :: s => if b = chr '.' then s.dropWhile isDigit else b :: s

/-- What is behind a sign, if there is one. -/
def readSign : Bytes → Bytes
  | [] => []
  | b :: s => if b = chr '+' ∨ b = chr '-' then s else b :: s

/-- What is behind an exponential part, if there is one. -/
def readExponent : Bytes → Bytes
  | [] => []
  | b :: s => if b = chr 'e' ∨ b = chr 'E' then (readSign s).dropWhile isDigit else b :: s

/-- What is behind a number; its first byte is read already. -/
def readNumber (s : Bytes) : Bytes := readExponent (readFraction (s.dropWhile isDigit))

/-- What is behind the end of a `/*` comment. -/
def readCStyleComment : Bytes → Option Bytes
  | [] => none
  -- the last byte of the document is not looked at by the loop
  | [c] => if c = chr '/' then some [] else none
  | c :: d :: s => if c = chr '*' ∧ d = chr '/' then some s else readCStyleComment (d :: s)

/-- What is behind a line feed, if there is one. -/
def readLineFeed : Bytes → Bytes
  | [] => []
  | b :: s => if b = 0x0A then s else b :: s

/-- What is behind the end of the line of a `//` comment. -/
def readCppStyleComment : Bytes → Bytes
  | [] => []
  | c :: s =>
      if c = 0x0A then s
      else if c = 0x0D then readLineFeed s
      else readCppStyleComment s

/-- What is behind a comment; its first `/` is read already. -/
def readComment : Bytes → Option Bytes
  | [] => none
  | c :: s =>
      if c = chr '*' then readCStyleComment s
      else if c = chr '/' then some (readCppStyleComment s)
      else none

/-- What is left behind a `/` that starts no comment: a `/*` without an end takes everything. -/
def behindSlash : Bytes → Bytes
  | [] => []
  | c :: s => if c = chr '*' then [] else s

/-! #### What the readers leave -/

theorem readString_suffix {s raw rest : Bytes} (h : readString s = some (raw, rest)) :
    rest <:+ s := by
  fun_induction readString s generalizing raw rest with
  | case1 => cases h
  | case2 => cases h; exact List.nil_suffix
  | case3 => cases h
  | case4 d s ih =>
    obtain ⟨⟨raw', rest'⟩, hr, heq⟩ := Option.map_eq_some_iff.mp h
    cases heq
    exact (ih hr).trans ((List.suffix_cons d s).trans (List.suffix_cons _ _))
  | case5 d s _ =>
    cases h
    exact List.suffix_cons _ _
  | case6 c d s _ _ ih =>
    obtain ⟨⟨raw', rest'⟩, hr, heq⟩ := Option.map_eq_some_iff.mp h
    cases heq
    exact (ih hr).trans (List.suffix_cons c _)

theorem readFraction_suffix (s : Bytes) : readFraction s <:+ s := by
  fun_cases readFraction s with
  | case1 => exact List.suffix_refl _
  | case2 s => exact (List.dropWhile_suffix _).trans (List.suffix_cons _ s)
  | case3 => exact List.suffix_refl _

theorem readSign_suffix (s : Bytes) : readSign s <:+ s := by
  fun_cases readSign s with
  | case1 => exact List.suffix_refl _
  | case2 b s => exact List.suffix_cons b s
  | case3 => exact List.suffix_refl _

theorem readNumber_suffix (s : Bytes) : readNumber s <:+ s := by
  have hexponent (s : Bytes) : readExponent s <:+ s := by
    fun_cases readExponent s with
    | case1 => exact List.suffix_refl _
    | case2 b s =>
      exact (List.dropWhile_suffix _).trans ((readSign_suffix s).trans (List.suffix_cons b s))
    | case3 => exact List.suffix_refl _
  exact (hexponent _).trans ((readFraction_suffix _).trans (List.dropWhile_suffix _))

theorem readCStyleComment_suffix {s rest : Bytes} (h : readCStyleComment s = some rest) :
    rest <:+ s := by
  fun_induction readCStyleComment s with
  | case1 => cases h
  | case2 => cases h; exact List.nil_suffix
  | case3 => cases h
  | case4 =>
    cases h
    exact (List.suffix_cons _ _).trans (List.suffix_cons _ _)
  | case5 c d s _ ih => exact (ih h).trans (List.suffix_cons c _)

theorem readLineFeed_suffix (s : Bytes) : readLineFeed s <:+ s := by
  fun_cases readLineFeed s with
  | case1 => exact List.suffix_refl _
  | case2 s => exact List.suffix_cons _ s
  | case3 => exact List.suffix_refl _

theorem readCppStyleComment_suffix (s : Bytes) : readCppStyleComment s <:+ s := by
  fun_induction readCppStyleComment s with
  | case1 => exact List.suffix_refl _
  | case2 s => exact List.suffix_cons _ s
  | case3 s => exact (readLineFeed_suffix s).trans (List.suffix_cons _ s)
  | case4 c s _ _ ih => exact ih.trans (List.suffix_cons c s)

theorem readComment_suffix {s rest : Bytes} (h : readComment s = some rest) : rest <:+ s := by
  unfold readComment at h
  split at h
  · cases h
  · next c s =>
    split at h
    · exact (readCStyleComment_suffix h).trans (List.suffix_cons c s)
    · split at h
      · cases h
        exact (readCppStyleComment_suffix s).trans (List.suffix_cons c s)
      · cases h

theorem behindSlash_suffix (s : Bytes) : behindSlash s <:+ s := by
  fun_cases behindSlash s with
  | case1 => exact List.suffix_refl _
  | case2 s => exact List.nil_suffix
  | case3 c s => exact List.suffix_cons c s

/-! #### Reading a token -/

/-- The token that starts with `c`, and what is behind it; `s` is behind `c`.  A string without
its closing quote takes everything. -/
def tokenOf (c : UInt8) (s : Bytes) : Token × Bytes :=
  match punctuation.lookup c with
  | some token => (token, s)
  | none =>
      if c = 0x22 then
        match readString s with
        | some (raw, rest) => (.string raw, rest)
        | none => (.error, [])
      else if c = chr '/' then
        match readComment s with
        | some rest => (.comment, rest)
        | none => (.error, behindSlash s)
      else if isDigit c ∨ c = chr '-' then
        (.number (c :: s.take (s.length - (readNumber s).length)), readNumber s)
      else
        match literals.lookup c with
        | some (pattern, token) =>
            if pattern <+: s then (token, s.drop pattern.length) else (.error, s)
        | none => if c = 0 then (.endOfStream, s) else (.error, s)

theorem tokenOf_suffix (c : UInt8) (s : Bytes) : (tokenOf c s).2 <:+ s := by
  unfold tokenOf
  split
  · exact List.suffix_refl _
  · split
    · split
      · next h => exact readString_suffix h
      · exact List.nil_suffix
    · split
      · split
        · next h => exact readComment_suffix h
        · exact behindSlash_suffix s
      · split
        · exact readNumber_suffix s
        · split
          · split
            · exact List.drop_suffix _ _
            · exact List.suffix_refl _
          · split <;> exact List.suffix_refl _

/-- `readToken`. -/
def readToken (s : Bytes) : Read s :=
  match h : s.dropWhile isWhitespace with
  | [] => ⟨.endOfStream, [], List.nil_suffix, fun hproper => by cases hproper⟩
  | c :: t =>
      have hsuffix : (tokenOf c t).2 <:+ t := tokenOf_suffix c t
      have hs : c :: t <:+ s := h ▸ List.dropWhile_suffix _
      ⟨(tokenOf c t).1, (tokenOf c t).2, hsuffix.trans ((List.suffix_cons c t).trans hs),
        fun _ => Nat.lt_of_lt_of_le (Nat.lt_succ_of_le hsuffix.length_le) hs.length_le⟩

theorem readToken_of_cons {s t : Bytes} {c : UInt8} (h : s.dropWhile isWhitespace = c :: t) :
    (readToken s).token = (tokenOf c t).1 ∧ (readToken s).rest = (tokenOf c t).2 := by
  unfold readToken
  split
  · next h' =>
    rw [h] at h'
    cases h'
  · next c' t' h' =>
    rw [h] at h'
    cases h'
    exact ⟨rfl, rfl⟩

theorem readToken_of_nil {s : Bytes} (h : s.dropWhile isWhitespace = []) :
    (readToken s).token = .endOfStream := by
  unfold readToken
  split
  · rfl
  · next h' =>
    rw [h] at h'
    cases h'

/-- `readToken` until it is no comment. -/
def skipComments (s : Bytes) : Read s :=
  if h : (readToken s).token = .comment then
    have hlt := (readToken s).shorter (h ▸ rfl)
    let r := skipComments (readToken s).rest
    ⟨r.token, r.rest, r.suffix.trans (readToken s).suffix,
      fun hproper => (r.shorter hproper).trans hlt⟩
  else readToken s
termination_by s.length

theorem skipComments_of_ne {s : Bytes} (h : (readToken s).token ≠ .comment) :
    skipComments s = readToken s := by
  rw [skipComments, dif_neg h]

/-- Behind a comment something was read, whatever comes then. -/
theorem skipComments_shorter {s : Bytes} (h : (readToken s).token = .comment) :
    (skipComments s).rest.length < s.length := by
  rw [skipComments, dif_pos h]
  exact Nat.lt_of_le_of_lt (skipComments (readToken s).rest).suffix.length_le
    ((readToken s).shorter (h ▸ rfl))

/-! ### What tokens stand for -/

/-- `decodeUnicodeEscapeSequence`: four hexadecimal digits. -/
def decodeUnicodeEscapeSequence : Bytes → Option (ℕ × Bytes)
  | a :: b :: c :: d :: s =>
      if CLib.isDigit 16 a ∧ CLib.isDigit 16 b ∧ CLib.isDigit 16 c ∧ CLib.isDigit 16 d then
        some (digitsValue 16 [a, b, c, d], s)
      else none
  | _ => none

/-- `decodeUnicodeCodePoint`: the second half of a surrogate pair may be any code unit. -/
def decodeUnicodeCodePoint (s : Bytes) : Option (ℕ × Bytes) :=
  match decodeUnicodeEscapeSequence s with
  | none => none
  | some (unicode, s) =>
      if 0xD800 ≤ unicode ∧ unicode ≤ 0xDBFF then
        match s with
        | 0x5C :: 0x75 :: s =>
            (decodeUnicodeEscapeSequence s).map fun r =>
              (0x10000 + ((unicode &&& 0x3FF) <<< 10) + (r.1 &&& 0x3FF), r.2)
        | _ => none
      else some (unicode, s)

/-- `codePointToUTF8`; nothing is written above `0x10FFFF`. -/
def codePointToUTF8 (cp : ℕ) : Bytes :=
  if cp ≤ 0x7F then [UInt8.ofNat cp]
  else if cp ≤ 0x7FF then
    [UInt8.ofNat (0xC0 ||| (0x1F &&& (cp >>> 6))), UInt8.ofNat (0x80 ||| (0x3F &&& cp))]
  else if cp ≤ 0xFFFF then
    [UInt8.ofNat (0xE0 ||| (0xF &&& (cp >>> 12))), UInt8.ofNat (0x80 ||| (0x3F &&& (cp >>> 6))),
      UInt8.ofNat (0x80 ||| (0x3F &&& cp))]
  else if cp ≤ 0x10FFFF then
    [UInt8.ofNat (0xF0 ||| (0x7 &&& (cp >>> 18))), UInt8.ofNat (0x80 ||| (0x3F &&& (cp >>> 12))),
      UInt8.ofNat (0x80 ||| (0x3F &&& (cp >>> 6))), UInt8.ofNat (0x80 ||| (0x3F &&& cp))]
  else []

/-- The letters behind a backslash, and what they stand for. -/
def escapes : List (UInt8 × UInt8) :=
  [(0x22, 0x22), (chr '/', chr '/'), (0x5C, 0x5C), (chr 'b', 0x08), (chr 'f', 0x0C),
    (chr 'n', 0x0A), (chr 'r', 0x0D), (chr 't', 0x09)]

theorem length_decodeUnicodeEscapeSequence {s rest : Bytes} {unicode : ℕ}
    (h : decodeUnicodeEscapeSequence s = some (unicode, rest)) : rest.length < s.length := by
  unfold decodeUnicodeEscapeSequence at h
  split at h
  · next a b c d s =>
    obtain ⟨-, heq⟩ := Option.ite_none_right_eq_some.mp h
    cases heq
    simp only [List.length_cons]
    omega
  · cases h

theorem length_decodeUnicodeCodePoint {s rest : Bytes} {unicode : ℕ}
    (h : decodeUnicodeCodePoint s = some (unicode, rest)) : rest.length < s.length := by
  unfold decodeUnicodeCodePoint at h
  split at h
  · cases h
  · next u t ht =>
    have hlen := length_decodeUnicodeEscapeSequence ht
    split at h
    · split at h
      · next t =>
        obtain ⟨⟨v, rest'⟩, hr, heq⟩ := Option.map_eq_some_iff.mp h
        cases heq
        have hlen' : rest'.length < t.length := length_decodeUnicodeEscapeSequence hr
        simp only [List.length_cons] at hlen
        show rest'.length < _
        omega
      · cases h
    · cases h
      exact hlen

/-- `decodeString`, of what stands between the quotes. -/
def decodeString (raw : Bytes) : Option Bytes :=
  match raw with
  | [] => some []
  | c :: s =>
      if c = 0x22 then some []
      else if c = 0x5C then
        match s with
        | [] => none
        | e :: s =>
            match escapes.lookup e with
            | some b => (decodeString s).map (b :: ·)
            | none =>
                if e = chr 'u' then
                  match h : decodeUnicodeCodePoint s with
                  | some (unicode, rest) =>
                      have := length_decodeUnicodeCodePoint h
                      (decodeString rest).map (codePointToUTF8 unicode ++ ·)
                  | none => none
                else none
      else (decodeString s).map (c :: ·)
termination_by raw.length

/-- The digits of an integer up to `maxIntegerValue`. -/
def decodeDigits (maxIntegerValue : ℕ) : ℕ → Bytes → Option ℕ
  | value, [] => some value
  | value, c :: s =>
      if isDigit c then
        let digit := (digitValue c).getD 0
        if value ≥ maxIntegerValue / 10 ∧
            (value > maxIntegerValue / 10 ∨ s ≠ [] ∨ digit > maxIntegerValue % 10) then none
        else decodeDigits maxIntegerValue (value * 10 + digit) s
      else none

/-- `decodeNumber`: a number that is no integer of 64 bits is a double. -/
def decodeNumber (text : Bytes) : Option Value :=
  let isNegative : Bool := text.head? = some (chr '-')
  let maxIntegerValue : ℕ := if isNegative then 2 ^ 63 else 2 ^ 64 - 1
  match decodeDigits maxIntegerValue 0 (if isNegative then text.drop 1 else text) with
  | none => (Double.readDouble text).map .real
  | some value =>
      if isNegative then some (.int (-value))
      else if value ≤ 2 ^ 31 - 1 then some (.int value)
      else some (.uint value)

/-! ### Values -/

/-- Why a document is not read. -/
inductive Failure
  /-- `parse` returns false. -/
  | syntaxError
  /-- The exception for a document that is nested too deep. -/
  | stackLimit
  deriving DecidableEq, Repr

/-- What was read from the front of a text, and what is behind it. -/
structure Parsed (α : Type) (s : Bytes) where
  value : α
  rest : Bytes
  shorter : rest.length < s.length

/-- `value[name] = member`, for members in the order of their names. -/
def setMember (name : Bytes) (member : Value) : List (Bytes × Value) → List (Bytes × Value)
  | [] => [(name, member)]
  | (name', member') :: members =>
      if name = name' then (name, member) :: members
      else if name < name' then (name, member) :: (name', member') :: members
      else (name', member') :: setMember name member members

section Loops

-- what reads a value one level down
variable (element : (s : Bytes) → Except Failure (Parsed Value s))

/-- The loop of `readArray`. -/
def readElements (s : Bytes) : Except Failure (Parsed (List Value) s) :=
  match element s with
  | .error e => .error e
  | .ok p =>
      let separator := skipComments p.rest
      if hsep : separator.token = .arraySeparator then
        have hlt := (separator.shorter (hsep ▸ rfl)).trans p.shorter
        match readElements separator.rest with
        | .error e => .error e
        | .ok q => .ok ⟨p.value :: q.value, q.rest, q.shorter.trans hlt⟩
      else if hend : separator.token = .arrayEnd then
        .ok ⟨[p.value], separator.rest, (separator.shorter (hend ▸ rfl)).trans p.shorter⟩
      else .error .syntaxError
termination_by s.length

/-- The name of a member up to its colon; none at the end of the object.  The end is taken
only while the last name is empty, as it is at the start. -/
def readName (last s : Bytes) : Except Failure (Parsed (Option Bytes) s) :=
  let tokenName := skipComments s
  match htoken : tokenName.token with
  | .objectEnd =>
      if last = [] then .ok ⟨none, tokenName.rest, tokenName.shorter (by rw [htoken]; rfl)⟩
      else .error .syntaxError
  | .string raw =>
      match decodeString raw with
      | none => .error .syntaxError
      | some name =>
          let colon := readToken tokenName.rest
          if hcolon : colon.token = .memberSeparator then
            .ok ⟨some name, colon.rest, (colon.shorter (by rw [hcolon]; rfl)).trans
              (tokenName.shorter (by rw [htoken]; rfl))⟩
          else .error .syntaxError
  | _ => .error .syntaxError

/-- The loop of `readObject`.  Behind a comment every token but the end of the object is taken
for the comma, an error or the end of the document too. -/
def readMembers (last : Bytes) (members : List (Bytes × Value)) (s : Bytes) :
    Except Failure (Parsed (List (Bytes × Value)) s) :=
  match readName last s with
  | .error e => .error e
  | .ok ⟨none, rest, hrest⟩ => .ok ⟨members, rest, hrest⟩
  | .ok ⟨some name, rest, hrest⟩ =>
      match element rest with
      | .error e => .error e
      | .ok p =>
          let comma := skipComments p.rest
          if hend : comma.token = .objectEnd then
            .ok ⟨setMember name p.value members, comma.rest,
              ((comma.shorter (hend ▸ rfl)).trans p.shorter).trans hrest⟩
          else if hcomma : comma.token = .arraySeparator ∨ (readToken p.rest).token = .comment then
            have hread : comma.rest.length < p.rest.length :=
              hcomma.elim (fun h => comma.shorter (h ▸ rfl)) skipComments_shorter
            have hlt := (hread.trans p.shorter).trans hrest
            match readMembers name (setMember name p.value members) comma.rest with
            | .error e => .error e
            | .ok q => .ok ⟨q.value, q.rest, q.shorter.trans hlt⟩
          else .error .syntaxError
termination_by s.length

/-- `readArray`; an empty array has no comment in it. -/
def readArray (s : Bytes) : Except Failure (Parsed (List Value) s) :=
  match h : s.dropWhile isWhitespace with
  | b :: rest =>
      have hlt : rest.length < s.length := by
        have hle := (List.dropWhile_suffix (l := s) isWhitespace).length_le
        rw [h] at hle
        exact hle
      if b = chr ']' then .ok ⟨[], rest, hlt⟩ else readElements element s
  | [] => readElements element s

end Loops

/-- `readValue`, with the number of levels that are left. -/
def readValue : ℕ → (s : Bytes) → Except Failure (Parsed Value s)
  | 0, _ => .error .stackLimit
  | levels + 1, s =>
      let t := skipComments s
      if hproper : t.token.isProper = true then
        match t.token with
        | .objectBegin =>
            match readMembers (readValue levels) [] [] t.rest with
            | .error e => .error e
            | .ok p => .ok ⟨.object p.value, p.rest, p.shorter.trans (t.shorter hproper)⟩
        | .arrayBegin =>
            match readArray (readValue levels) t.rest with
            | .error e => .error e
            | .ok p => .ok ⟨.array p.value, p.rest, p.shorter.trans (t.shorter hproper)⟩
        | .number text =>
            match decodeNumber text with
            | some value => .ok ⟨value, t.rest, t.shorter hproper⟩
            | none => .error .syntaxError
        | .string raw =>
            match decodeString raw with
            | some s => .ok ⟨.string s, t.rest, t.shorter hproper⟩
            | none => .error .syntaxError
        | .true => .ok ⟨.bool true, t.rest, t.shorter hproper⟩
        | .false => .ok ⟨.bool false, t.rest, t.shorter hproper⟩
        | .null => .ok ⟨.null, t.rest, t.shorter hproper⟩
        | _ => .error .syntaxError
      else .error .syntaxError

/-- `stackLimit_g`. -/
def stackLimit : ℕ := 1000

/-- `parse`; what is behind the value is not looked at. -/
def parse (document : Bytes) : Except Failure Value :=
  match readValue stackLimit document with
  | .error e => .error e
  | .ok p => .ok p.value

end Domoticz.JsonReader
