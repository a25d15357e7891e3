import Domoticz.Stream.PrefixCode
import Domoticz.Text.Lexical

/-!
# JSON objects in a byte stream

The grammar of JSON, as the bytes that its symbols derive.  A text that follows an
object can be told from it: outside the strings the brackets of an object nest, and
the object ends with the bracket that closes its first one.  So objects with white
space in front of each are a prefix code.

## Main definitions

* `Symbol`, `Derives` — the grammar.
* `closing` — what stands behind the bracket that closes the open ones.
* `Balanced` — a text without effect on the open brackets.
* `Object`, `Spaced`, `code` — objects, with the white space in front of them.

## Main results

* `Derives.balanced` — what the grammar derives is balanced.
* `Object.unique` — no object is the beginning of another.
-/

namespace Text.Json

open CLib

/-! ### The grammar -/

/-- An optional sign, a whole number without leading zeros, a fraction and an exponent. -/
structure IsNumber (s : Bytes) : Prop where
  parts : ∃ sign whole fraction exponent, s = sign ++ whole ++ fraction ++ exponent ∧
    (sign = [] ∨ sign = str "-") ∧
    (IsDigits whole ∧ (whole.head? = some 0x30 → whole = str "0")) ∧
    (fraction = [] ∨ ∃ digits, IsDigits digits ∧ fraction = str "." ++ digits) ∧
    (exponent = [] ∨ ∃ e ∈ [str "e", str "E", str "e+", str "E+", str "e-", str "E-"],
      ∃ digits, IsDigits digits ∧ exponent = e ++ digits)

/-- What may stand between the quotes of a string. -/
inductive Chars : Bytes → Prop
  | nil : Chars []
  /-- A byte for itself: no control character, no quote and no backslash. -/
  | plain {b : UInt8} {s : Bytes} : 0x20 ≤ b → b ≠ 0x22 → b ≠ 0x5C → Chars s → Chars (b :: s)
  /-- A backslash and one of the letters that may follow it. -/
  | escape {b : UInt8} {s : Bytes} :
      b ∈ [0x22, 0x5C, 0x2F, 0x62, 0x66, 0x6E, 0x72, 0x74] → Chars s → Chars (0x5C :: b :: s)
  /-- A code unit of UTF-16 by its number. -/
  | unicode {a b c d : UInt8} {s : Bytes} : isHexDigit a → isHexDigit b → isHexDigit c →
      isHexDigit d → Chars s → Chars (0x5C :: 0x75 :: a :: b :: c :: d :: s)

/-- A string with its quotes. -/
def quoted (s : Bytes) : Bytes := 0x22 :: s ++ [0x22]

/-- What the grammar derives texts from. -/
inductive Symbol
  | value
  /-- A value with white space around it. -/
  | element
  /-- Names with their elements, separated by commas. -/
  | members
  | elements
  | object
  deriving DecidableEq, Repr

/-- The texts a symbol derives. -/
inductive Derives : Symbol → Bytes → Prop
  | literal {s : Bytes} : s ∈ [str "true", str "false", str "null"] → Derives .value s
  | number {s : Bytes} : IsNumber s → Derives .value s
  | string {s : Bytes} : Chars s → Derives .value (quoted s)
  | emptyArray {ws : Bytes} : IsSpace ws → Derives .value (0x5B :: ws ++ [0x5D])
  | array {s : Bytes} : Derives .elements s → Derives .value (0x5B :: s ++ [0x5D])
  | value {s : Bytes} : Derives .object s → Derives .value s
  | element {ws₁ s ws₂ : Bytes} : IsSpace ws₁ → Derives .value s → IsSpace ws₂ →
      Derives .element (ws₁ ++ s ++ ws₂)
  | lastElement {s : Bytes} : Derives .element s → Derives .elements s
  | elements {s t : Bytes} : Derives .element s → Derives .elements t →
      Derives .elements (s ++ 0x2C :: t)
  | lastMember {ws₁ name ws₂ s : Bytes} : IsSpace ws₁ → Chars name → IsSpace ws₂ →
      Derives .element s → Derives .members (ws₁ ++ quoted name ++ ws₂ ++ 0x3A :: s)
  | members {ws₁ name ws₂ s t : Bytes} : IsSpace ws₁ → Chars name → IsSpace ws₂ →
      Derives .element s → Derives .members t →
      Derives .members (ws₁ ++ quoted name ++ ws₂ ++ 0x3A :: s ++ 0x2C :: t)
  | emptyObject {ws : Bytes} : IsSpace ws → Derives .object (0x7B :: ws ++ [0x7D])
  | object {s : Bytes} : Derives .members s → Derives .object (0x7B :: s ++ [0x7D])

/-! ### Brackets -/

/-- Where in a text a byte stands. -/
inductive Place
  | outside
  | string
  /-- Behind a backslash in a string. -/
  | escaped

/-- What stands behind the bracket that closes the last of `depth + 1` open ones. -/
def closing : ℕ → Place → Bytes → Option Bytes
  | _, _, [] => none
  | depth, .escaped, _ :: s => closing depth .string s
  | depth, .string, b :: s =>
      if b = 0x22 then closing depth .outside s
      else if b = 0x5C then closing depth .escaped s
      else closing depth .string s
  | depth, .outside, b :: s =>
      if b = 0x22 then closing depth .string s
      else if b = 0x7B ∨ b = 0x5B then closing (depth + 1) .outside s
      else if b = 0x7D ∨ b = 0x5D then
        match depth with
        | 0 => some s
        | depth + 1 => closing depth .outside s
      else closing depth .outside s

/-- The end of a bracket pair that may not be the last one. -/
def afterClosing (depth : ℕ) (s : Bytes) : Option Bytes :=
  if depth = 0 then some s else closing (depth - 1) .outside s

theorem closing_outside (depth : ℕ) (b : UInt8) (s : Bytes) :
    closing depth .outside (b :: s) =
      if b = 0x22 then closing depth .string s
      else if b = 0x7B ∨ b = 0x5B then closing (depth + 1) .outside s
      else if b = 0x7D ∨ b = 0x5D then afterClosing depth s
      else closing depth .outside s := by
  cases depth <;> rfl

/-- A text after which the same brackets are open as before it. -/
def Balanced (s : Bytes) : Prop :=
  ∀ depth rest, closing depth .outside (s ++ rest) = closing depth .outside rest

/-- The quote and the brackets. -/
def isMark (b : UInt8) : Bool := b == 0x22 || b == 0x7B || b == 0x5B || b == 0x7D || b == 0x5D

theorem Balanced.append {s t : Bytes} (hs : Balanced s) (ht : Balanced t) : Balanced (s ++ t) := by
  intro depth rest
  rw [List.append_assoc, hs, ht]

theorem balanced_of_notMark {s : Bytes} (h : ∀ b ∈ s, isMark b = false) : Balanced s := by
  intro depth rest
  induction s with
  | nil => rfl
  | cons b s ih =>
    obtain ⟨hb, hs⟩ := List.forall_mem_cons.mp h
    rw [← ih hs, List.cons_append, closing_outside]
    simp only [isMark, Bool.or_eq_false_iff, beq_eq_false_iff_ne, ne_eq] at hb
    obtain ⟨⟨⟨⟨h₁, h₂⟩, h₃⟩, h₄⟩, h₅⟩ := hb
    rw [if_neg h₁, if_neg (not_or.mpr ⟨h₂, h₃⟩), if_neg (not_or.mpr ⟨h₄, h₅⟩)]

/-- A bracket, a balanced text and the bracket that closes it. -/
theorem Balanced.bracketed {s : Bytes} (h : Balanced s) {left right : UInt8}
    (hleft : left = 0x7B ∨ left = 0x5B) (hright : right = 0x7D ∨ right = 0x5D) :
    Balanced (left :: s ++ [right]) := by
  have hl : left ≠ 0x22 := by rcases hleft with rfl | rfl <;> decide
  have hr : right ≠ 0x22 ∧ ¬ (right = 0x7B ∨ right = 0x5B) := by
    rcases hright with rfl | rfl <;> decide
  intro depth rest
  rw [List.append_assoc, List.cons_append, closing_outside, if_neg hl, if_pos hleft, h,
    List.singleton_append, closing_outside, if_neg hr.1, if_neg hr.2, if_pos hright]
  rfl

/-- A string ends with the quote behind it. -/
theorem closing_chars {s : Bytes} (h : Chars s) (depth : ℕ) (rest : Bytes) :
    closing depth .string (s ++ rest) = closing depth .string rest := by
  have hhex {b : UInt8} (hb : isHexDigit b = true) : b ≠ 0x22 ∧ b ≠ 0x5C := by
    constructor <;> (rintro rfl; exact absurd hb (by decide))
  induction h with
  | nil => rfl
  | plain _ hquote hbackslash _ ih =>
    rw [List.cons_append, closing, if_neg hquote, if_neg hbackslash, ih]
  | escape _ _ ih => exact ih
  | unicode ha hb hc hd _ ih =>
    rw [← ih]
    simp only [List.cons_append, closing, hhex ha, hhex hb, hhex hc, hhex hd, if_false]
    rfl

theorem balanced_quoted {s : Bytes} (h : Chars s) : Balanced (quoted s) := by
  intro depth rest
  rw [quoted, List.append_assoc, List.cons_append, closing_outside, if_pos rfl, closing_chars h]
  rfl

theorem notMark_of_isWhitespace {b : UInt8} (h : isWhitespace b = true) : isMark b = false := by
  simp only [isWhitespace, Bool.or_eq_true, beq_iff_eq] at h
  rcases h with ((rfl | rfl) | rfl) | rfl <;> rfl

theorem balanced_space {ws : Bytes} (h : IsSpace ws) : Balanced ws :=
  balanced_of_notMark fun b hb => notMark_of_isWhitespace (h b hb)

theorem notMark_of_isDigit {b : UInt8} (h : isDigit b = true) : isMark b = false := by
  have hne {c : UInt8} (hc : isDigit c = false) : (b == c) = false := by
    rw [beq_eq_false_iff_ne]
    rintro rfl
    rw [h] at hc
    cases hc
  simp only [isMark, hne (c := 0x22) rfl, hne (c := 0x7B) rfl, hne (c := 0x5B) rfl,
    hne (c := 0x7D) rfl, hne (c := 0x5D) rfl, Bool.or_false]

theorem balanced_digits {s : Bytes} (h : IsDigits s) : Balanced s :=
  balanced_of_notMark fun b hb => notMark_of_isDigit (h.2 b hb)

/-- A text of the grammar that has no marks. -/
theorem balanced_str {s : Bytes} (h : s.all (fun b => !isMark b) = true) : Balanced s :=
  balanced_of_notMark fun b hb => by simpa using List.all_eq_true.mp h b hb

theorem IsNumber.balanced {s : Bytes} (h : IsNumber s) : Balanced s := by
  obtain ⟨sign, whole, fraction, exponent, rfl, hsign, ⟨hwhole, -⟩, hfraction, hexponent⟩ := h.parts
  refine ((Balanced.append ?_ (balanced_digits hwhole)).append ?_).append ?_
  · rcases hsign with rfl | rfl <;> exact balanced_str rfl
  · rcases hfraction with rfl | ⟨digits, hdigits, rfl⟩
    · exact balanced_str rfl
    · exact Balanced.append (balanced_str rfl) (balanced_digits hdigits)
  · rcases hexponent with rfl | ⟨e, he, digits, hdigits, rfl⟩
    · exact balanced_str rfl
    · refine Balanced.append (balanced_str ?_) (balanced_digits hdigits)
      simp only [List.mem_cons, List.not_mem_nil, or_false] at he
      rcases he with rfl | rfl | rfl | rfl | rfl | rfl <;> rfl

/-- What the grammar derives is balanced; the induction is on the derivation. -/
theorem Derives.balanced {x : Symbol} {s : Bytes} (h : Derives x s) : Balanced s := by
  have hcomma : Balanced [0x2C] := balanced_str rfl
  have hcolon : Balanced [0x3A] := balanced_str rfl
  induction h with
  | literal hs =>
    simp only [List.mem_cons, List.not_mem_nil, or_false] at hs
    rcases hs with rfl | rfl | rfl <;> exact balanced_str rfl
  | number hs => exact hs.balanced
  | string hs => exact balanced_quoted hs
  | emptyArray hws => exact (balanced_space hws).bracketed (.inr rfl) (.inr rfl)
  | array _ ih => exact ih.bracketed (.inr rfl) (.inr rfl)
  | value _ ih => exact ih
  | element hws₁ _ hws₂ ih => exact ((balanced_space hws₁).append ih).append (balanced_space hws₂)
  | lastElement _ ih => exact ih
  | elements _ _ ihs iht => exact ihs.append (hcomma.append iht)
  | lastMember hws₁ hname hws₂ _ ih =>
    exact (((balanced_space hws₁).append (balanced_quoted hname)).append (balanced_space hws₂)).append
      (hcolon.append ih)
  | members hws₁ hname hws₂ _ _ ihs iht =>
    exact ((((balanced_space hws₁).append (balanced_quoted hname)).append (balanced_space hws₂)).append
      (hcolon.append ihs)).append (hcomma.append iht)
  | emptyObject hws => exact (balanced_space hws).bracketed (.inl rfl) (.inl rfl)
  | object _ ih => exact ih.bracketed (.inl rfl) (.inl rfl)

/-! ### Objects -/

/-- The text of an object. -/
structure Object where
  text : Bytes
  derives : Derives .object text

namespace Object

theorem ext_text {o o' : Object} (h : o.text = o'.text) : o = o' := by
  cases o
  cases o'
  cases h
  rfl

/-- Braces around a balanced text. -/
theorem exists_inner (o : Object) : ∃ inner, o.text = 0x7B :: inner ++ [0x7D] ∧ Balanced inner := by
  obtain ⟨text, h⟩ := o
  cases h with
  | emptyObject hws => exact ⟨_, rfl, (balanced_space hws)⟩
  | object hs => exact ⟨_, rfl, hs.balanced⟩

theorem text_ne_nil (o : Object) : o.text ≠ [] := by
  obtain ⟨inner, h, -⟩ := o.exists_inner
  rw [h]
  exact List.cons_ne_nil _ _

/-- An object ends with the brace that closes its first one. -/
theorem closing_text (o : Object) (rest : Bytes) :
    closing 0 .outside ((o.text ++ rest).drop 1) = some rest := by
  obtain ⟨inner, h, hinner⟩ := o.exists_inner
  rw [h, List.cons_append, List.cons_append, List.drop_one, List.tail_cons, List.append_assoc, hinner]
  rfl

/-- No object is the beginning of another. -/
theorem unique {o o' : Object} {rest rest' : Bytes} (h : o.text ++ rest = o'.text ++ rest') :
    o = o' ∧ rest = rest' := by
  have hrest : rest = rest' := by
    rw [← Option.some_inj, ← o.closing_text rest, ← o'.closing_text rest', h]
  rw [hrest] at h
  exact ⟨ext_text (List.append_cancel_right h), hrest⟩

end Object

/-- An object with the white space in front of it. -/
structure Spaced where
  space : Bytes
  isSpace : IsSpace space
  object : Object

namespace Spaced

/-- A document with the space in front of it. -/
def text (i : Spaced) : Bytes := i.space ++ i.object.text

theorem text_eq (i : Spaced) : ∃ s, i.object.text = 0x7B :: s := by
  obtain ⟨inner, h, -⟩ := i.object.exists_inner
  exact ⟨_, h⟩

/-- White space ends where an object starts. -/
theorem space_unique {ws ws' s s' : Bytes} (hws : IsSpace ws) (hws' : IsSpace ws')
    (h : ws ++ 0x7B :: s = ws' ++ 0x7B :: s') : ws = ws' ∧ s = s' := by
  have hfront {w t : Bytes} (hw : IsSpace w) : (w ++ 0x7B :: t).takeWhile isWhitespace = w := by
    rw [List.takeWhile_append_of_pos hw, List.takeWhile_cons_of_neg (by decide), List.append_nil]
  have heq : ws = ws' := by rw [← hfront (t := s) hws, h, hfront hws']
  rw [heq] at h
  exact ⟨heq, (List.cons_eq_cons.mp (List.append_cancel_left h)).2⟩

theorem unique {i j : Spaced} {rest rest' : Bytes} (h : i.text ++ rest = j.text ++ rest') :
    i = j ∧ rest = rest' := by
  obtain ⟨s, hs⟩ := i.text_eq
  obtain ⟨t, ht⟩ := j.text_eq
  rw [text, text, List.append_assoc, List.append_assoc, hs, ht] at h
  obtain ⟨hspace, hbehind⟩ := space_unique i.isSpace j.isSpace h
  have hobject : i.object.text ++ rest = j.object.text ++ rest' := by
    rw [hs, ht]
    exact congrArg (0x7B :: ·) hbehind
  obtain ⟨ho, hrest⟩ := Object.unique hobject
  refine ⟨?_, hrest⟩
  cases i
  cases j
  cases hspace
  cases ho
  rfl

end Spaced

/-- Objects and the white space in front of them, one after the other. -/
def code : Stream.PrefixCode Spaced UInt8 where
  encode := Spaced.text
  ne_nil i h := i.object.text_ne_nil (List.append_eq_nil_iff.mp h).2
  unique := Spaced.unique

end Text.Json
