import Domoticz.Plugin.HttpOutbound
import Mathlib.Data.List.DropRight

/-!
# The length that a plugin declares over HTTP

`CPluginProtocolHTTP::ProcessOutbound` declares the length of the data, in a header or in front of
a chunk, before it appends the data.  Of bytes the two are the same, as long as an `int` can count
them.  For a text the length is that of its code points, and what is appended is its UTF-8 up to
the first NUL: the two agree if what the other bytes of the code points add is what the NUL takes
away.

## Main definitions

* `Sending` — a dictionary with data, for which a length is written.
* `Sending.Declared` — the length is the number of the bytes that follow.
* `Counted` — when that is so.

## Main results

* `exists_front` — what is sent, from the length on.
* `sizeLine_cancel` — a length is found again at the beginning of its line.
* `length_declared_iff` — **the length is right exactly for data that is `Counted`.**
* `one_declared_of_two` — a text of one code point and two bytes.
-/

namespace Domoticz.Http

open CLib

/-! ### A message with a length -/

/-- A dictionary with data, for which a length is written: what comes before has bytes, and there is
a chunk, or no length among the headers. -/
structure Sending (parameters : Parameters) (info : Tm) where
  entries : PyDict
  data : Payload
  data_eq : getItemString entries "Data" = some data.object
  start : Bytes
  start_eq : startLines parameters info entries = some (some start)
  supplied : (getItemString entries "Verb").isSome ∨ (getItemString entries "Status").isSome →
    (suppliedLines (getItemString entries "Headers")).isSome
  generates : (getItemString entries "Chunk").isSome ∨
    headerItem (getItemString entries "Headers") "Content-Length" = none

/-- The line with the size of a chunk; or the header with the length, and the blank line. -/
def sizeLine (brChunk : Bool) (n : ℕ) : Bytes :=
  if brChunk then endLine (hex n)
  else endLine (headerLine (str "Content-Length") (decimal n)) ++ [CR, LF]

/-- What follows the data. -/
def dataEnd (brChunk : Bool) : Bytes := if brChunk then [CR, LF] else []

/-- A line begins behind these bytes. -/
def AtLine (front : Bytes) : Prop := front = [] ∨ ∃ f, front = f ++ [CR, LF]

namespace Sending

variable {parameters : Parameters} {info : Tm} (s : Sending parameters info)

/-- Whether a chunk is sent. -/
def brChunk : Bool := (getItemString s.entries "Chunk").isSome

/-- A line declares as many bytes as are appended of the data, and a chunk is ended. -/
def Declared : Prop :=
  ∃ front body, AtLine front ∧ dataBytes (some s.data.object) = some body ∧
    processOutbound parameters info (some (.dict s.entries)) =
      some (front ++ sizeLine s.brChunk body.length ++ body ++ dataEnd s.brChunk)

end Sending

/-! ### The condition -/

/-- A text without surrogates, whose code points in front of the first NUL have as many bytes
besides their first as there are code points from the NUL on; or bytes that an `int` counts. -/
def Counted : Payload → Prop
  | .str s => (∀ n, .surrogate n ∉ s) ∧
      ((s.takeWhile (· ≠ nul)).map CodePoint.extra).sum = (s.dropWhile (· ≠ nul)).length
  | .bytes s => s.length < 2 ^ 31
  | .bytearray s => s.length < 2 ^ 31

/-- A text without surrogates has bytes. -/
theorem isSome_asUTF8_iff (s : PyStr) : (asUTF8 s).isSome ↔ ∀ n, .surrogate n ∉ s := by
  induction s with
  | nil => simp [asUTF8]
  | cons x s ih =>
    cases x with
    | surrogate n =>
      refine iff_of_false Bool.false_ne_true fun h => ?_
      exact h n List.mem_cons_self
    | char c =>
      rw [asUTF8, Option.isSome_map, ih]
      simp

/-- How many bytes of a text are in front of its first NUL. -/
theorem length_cstr_asUTF8 {s : PyStr} {b : Bytes} (h : asUTF8 s = some b) :
    (cstr b).length = (s.takeWhile (· ≠ nul)).length +
      ((s.takeWhile (· ≠ nul)).map CodePoint.extra).sum :=
  length_asUTF8 (asUTF8_takeWhile h)

/-- As many bytes are appended as are declared. -/
theorem counted_iff_dataLength (data : Payload) :
    Counted data ↔ ∃ body, dataBytes (some data.object) = some body ∧
      dataLength data.object = body.length := by
  have hcopied (s : Bytes) : s.length < 2 ^ 31 ↔
      ∃ body, some (copied s) = some body ∧ s.length = body.length := by
    rw [← copied_eq_self_iff]
    constructor
    · intro h
      exact ⟨s, congrArg some h, rfl⟩
    · rintro ⟨body, hbody, hlength⟩
      obtain rfl := Option.some.inj hbody
      rw [copied, List.length_take] at hlength
      rw [copied, List.take_of_length_le]
      omega
  cases data with
  | bytes s => exact hcopied s
  | bytearray s => exact hcopied s
  | str s =>
    rw [Counted, ← isSome_asUTF8_iff]
    cases hb : asUTF8 s with
    | none => simp [Payload.object, dataBytes, stdString, hb]
    | some b =>
      have hlength := length_cstr_asUTF8 hb
      have hsplit := congrArg List.length (s.takeWhile_append_dropWhile (p := (· ≠ nul)))
      rw [List.length_append] at hsplit
      simp only [Payload.object, dataBytes, stdString, hb, Option.isSome_some, true_and,
        Option.map_some, Option.some.injEq, exists_eq_left', dataLength, hlength, ← hsplit]
      omega

/-! ### What comes before the length -/

theorem AtLine.append {front rest : Bytes} (hfront : AtLine front) (hrest : AtLine rest) :
    AtLine (front ++ rest) := by
  rcases hrest with rfl | ⟨f, rfl⟩
  · rwa [List.append_nil]
  · exact .inr ⟨front ++ f, (List.append_assoc _ _ _).symm⟩

theorem atLine_endLine (line : Bytes) : AtLine (endLine line) := .inr ⟨line, rfl⟩

theorem atLine_defaultLine (brHeaders : Option PyObject) (name : String) (value : Bytes) :
    AtLine (defaultLine brHeaders name value) := by
  unfold defaultLine
  split
  · exact .inl rfl
  · exact atLine_endLine _

theorem atLine_authorization {parameters : Parameters} {brHeaders : Option PyObject} {auth : Bytes}
    (h : authorization parameters brHeaders = some auth) : AtLine auth := by
  unfold authorization at h
  split at h
  · exact .inl (Option.some.inj h).symm
  · obtain ⟨User, -, hPass⟩ := Option.bind_eq_some_iff.mp h
    obtain ⟨Pass, -, rfl⟩ := Option.map_eq_some_iff.mp hPass
    cases credentials User Pass with
    | none => exact .inl rfl
    | some text => exact atLine_endLine _

theorem atLine_startLines {parameters : Parameters} {info : Tm} {d : PyDict} {start : Bytes}
    (h : startLines parameters info d = some (some start)) : AtLine start := by
  unfold startLines at h
  simp only at h
  split at h
  · obtain ⟨lines, hrequest, heq⟩ := Option.map_eq_some_iff.mp h
    obtain rfl := Option.some.inj heq
    obtain ⟨verb, -, hrest⟩ := Option.bind_eq_some_iff.mp hrequest
    obtain ⟨sHttpURL, -, hlines⟩ := Option.bind_eq_some_iff.mp hrest
    obtain ⟨auth, hauth, rfl⟩ := Option.map_eq_some_iff.mp hlines
    refine ((atLine_endLine _).append (atLine_authorization hauth)).append ?_
    exact atLine_defaultLine _ _ _
  · cases h
  · split at h
    · obtain ⟨lines, hresponse, heq⟩ := Option.map_eq_some_iff.mp h
      obtain rfl := Option.some.inj heq
      obtain ⟨status, -, rfl⟩ := Option.map_eq_some_iff.mp hresponse
      refine ((atLine_endLine _).append ?_).append (atLine_defaultLine _ _ _)
      split
      · exact atLine_defaultLine _ _ _
      · exact .inl rfl
    · cases h
    · split at h
      · exact .inl (Option.some.inj (Option.some.inj h)).symm
      · cases h

/-- Texts that end their lines do so one after the other. -/
theorem atLine_concatTexts {α : Type} {text : α → Option Bytes} {xs : List α} {s : Bytes}
    (h : concatTexts text xs = some s) (hline : ∀ x ∈ xs, ∀ t ∈ text x, AtLine t) : AtLine s := by
  induction xs generalizing s with
  | nil => exact .inl (Option.some.inj h).symm
  | cons x xs ih =>
    obtain ⟨hx, hxs⟩ := List.forall_mem_cons.mp hline
    obtain ⟨t, ht, hrest⟩ := Option.bind_eq_some_iff.mp h
    obtain ⟨rest, hconcat, rfl⟩ := Option.map_eq_some_iff.mp hrest
    exact (hx t ht).append (ih hconcat hxs)

theorem atLine_valueLine {sKey : Bytes} {value : PyObject} {s : Bytes}
    (h : valueLine sKey value = some s) : AtLine s := by
  unfold valueLine at h
  split at h
  · obtain ⟨sValue, -, rfl⟩ := Option.map_eq_some_iff.mp h
    exact atLine_endLine _
  · obtain rfl := Option.some.inj h
    exact atLine_endLine _
  · obtain rfl := Option.some.inj h
    exact atLine_endLine _
  · exact .inl (Option.some.inj h).symm

theorem atLine_suppliedLines {brHeaders : Option PyObject} {supplied : Bytes}
    (h : suppliedLines brHeaders = some supplied) : AtLine supplied := by
  unfold suppliedLines at h
  split at h
  · refine atLine_concatTexts h fun header _ t ht => ?_
    obtain ⟨sKey, -, hvalue⟩ := Option.bind_eq_some_iff.mp ht
    split at hvalue
    · exact atLine_concatTexts hvalue fun item _ t ht => atLine_valueLine ht
    · exact atLine_valueLine hvalue
  · exact .inl (Option.some.inj h).symm

/-- What is sent, from the length on. -/
theorem Sending.exists_front {parameters : Parameters} {info : Tm} (s : Sending parameters info) :
    ∃ front, AtLine front ∧ processOutbound parameters info (some (.dict s.entries)) =
      (dataBytes (some s.data.object)).map fun body =>
        front ++ sizeLine s.brChunk (dataLength s.data.object) ++ body ++ dataEnd s.brChunk := by
  have hstart := atLine_startLines s.start_eq
  cases hchunk : (getItemString s.entries "Chunk").isSome with
  | true =>
    -- the size stands behind the headers, or alone
    by_cases hblock : (getItemString s.entries "Verb").isSome ∨
        (getItemString s.entries "Status").isSome
    · obtain ⟨supplied, hsupplied⟩ := Option.isSome_iff_exists.mp (s.supplied hblock)
      refine ⟨s.start ++ (supplied ++ defaultLine (getItemString s.entries "Headers")
        "Transfer-Encoding" (str "chunked") ++ [CR, LF]), ?_, ?_⟩
      · refine hstart.append (AtLine.append ?_ (atLine_endLine []))
        exact (atLine_suppliedLines hsupplied).append (atLine_defaultLine _ _ _)
      · simp only [processOutbound, s.start_eq, Option.bind_some, if_pos hblock, headerBlock,
          hsupplied, Option.map_some, s.data_eq, hchunk, if_true, List.append_nil, sizeLine,
          dataEnd, brChunk, Option.getD_some]
    · refine ⟨s.start, hstart, ?_⟩
      simp only [processOutbound, s.start_eq, Option.bind_some, if_neg hblock, s.data_eq, hchunk,
        if_true, List.append_nil, sizeLine, dataEnd, brChunk, Option.map_some, Option.getD_some]
  | false =>
    have hlength : headerItem (getItemString s.entries "Headers") "Content-Length" = none := by
      have hgenerates := s.generates
      rw [hchunk] at hgenerates
      exact hgenerates.resolve_left Bool.false_ne_true
    have hblock : (getItemString s.entries "Verb").isSome ∨
        (getItemString s.entries "Status").isSome := by
      by_contra hnone
      simp only [not_or, Bool.not_eq_true, Option.isSome_eq_false_iff, Option.isNone_iff_eq_none]
        at hnone
      have hstart := s.start_eq
      simp only [startLines, hnone, hchunk, Bool.false_eq_true, if_false] at hstart
      cases hstart
    obtain ⟨supplied, hsupplied⟩ := Option.isSome_iff_exists.mp (s.supplied hblock)
    refine ⟨s.start ++ supplied, hstart.append (atLine_suppliedLines hsupplied), ?_⟩
    simp only [processOutbound, s.start_eq, Option.bind_some, if_pos hblock, headerBlock, hsupplied,
      Option.map_some, s.data_eq, hchunk, Bool.false_eq_true, if_false, List.append_nil, sizeLine,
      dataEnd, brChunk, defaultLine, hlength, Option.isSome_none, List.append_assoc]

/-! ### The length is found again -/

/-- The last line is what is behind the last line feed. -/
theorem endLine_cancel {front front' line line' : Bytes} (rest : Bytes) (hfront : AtLine front)
    (hfront' : AtLine front') (hline : LF ∉ line) (hline' : LF ∉ line')
    (h : front ++ endLine line ++ rest = front' ++ endLine line' ++ rest) : line = line' := by
  have hlast {f l : Bytes} (hf : AtLine f) (hl : LF ∉ l) :
      (f ++ l).rtakeWhile (· != LF) = l := by
    have hall : ∀ b ∈ l.reverse, (b != LF) = true := by
      intro b hb
      rw [bne_iff_ne]
      rintro rfl
      exact hl (List.mem_reverse.mp hb)
    rw [List.rtakeWhile, List.reverse_append, List.takeWhile_append_of_pos hall]
    rcases hf with rfl | ⟨f, rfl⟩
    · simp
    · simp
  have hboth : front ++ line = front' ++ line' := by
    have hrest := List.append_cancel_right h
    rw [endLine, endLine, ← List.append_assoc, ← List.append_assoc] at hrest
    exact List.append_cancel_right hrest
  rw [← hlast hfront hline, hboth, hlast hfront' hline']

theorem LF_notMem_hex (n : ℕ) : LF ∉ hex n := fun h =>
  absurd (isDigit_toDigits (by decide) (by decide) n LF h) (by decide)

theorem hex_injective : Function.Injective hex := fun n m h => by
  have hn := congrArg (digitsValue 16) h
  rwa [hex, hex, digitsValue_toDigits_of_le (by decide) (by decide),
    digitsValue_toDigits_of_le (by decide) (by decide)] at hn

/-- A length is found again at the beginning of its line. -/
theorem sizeLine_cancel {front front' : Bytes} {brChunk : Bool} {n m : ℕ} (rest : Bytes)
    (hfront : AtLine front) (hfront' : AtLine front')
    (h : front ++ sizeLine brChunk n ++ rest = front' ++ sizeLine brChunk m ++ rest) : n = m := by
  cases brChunk with
  | true =>
    apply hex_injective
    exact endLine_cancel rest hfront hfront' (LF_notMem_hex n) (LF_notMem_hex m) h
  | false =>
    have hline (k : ℕ) : LF ∉ headerLine (str "Content-Length") (decimal k) := by
      simp only [headerLine, List.mem_append, not_or]
      exact ⟨⟨by decide, by decide⟩, notMem_decimal k (by decide) (by decide)⟩
    have heq : headerLine (str "Content-Length") (decimal n) =
        headerLine (str "Content-Length") (decimal m) := by
      refine endLine_cancel ([CR, LF] ++ rest) hfront hfront' (hline n) (hline m) ?_
      simpa [sizeLine, List.append_assoc] using h
    have hdecimal := decimal_injective (List.append_cancel_left heq)
    exact Int.ofNat.inj hdecimal

/-! ### The number that is written -/

namespace Sending

variable {parameters : Parameters} {info : Tm} (s : Sending parameters info)

/-- The length is right if as many bytes are appended as are counted. -/
theorem declared_iff_dataLength : s.Declared ↔ ∃ body, dataBytes (some s.data.object) = some body ∧
    dataLength s.data.object = body.length := by
  obtain ⟨front, hfront, hsent⟩ := s.exists_front
  constructor
  · rintro ⟨front', body, hfront', hbody, hbytes⟩
    rw [hsent, hbody, Option.map_some] at hbytes
    have hsame := Option.some.inj hbytes
    rw [List.append_assoc _ body, List.append_assoc _ body] at hsame
    exact ⟨body, hbody, sizeLine_cancel _ hfront hfront' hsame⟩
  · rintro ⟨body, hbody, hlength⟩
    refine ⟨front, body, hfront, hbody, ?_⟩
    rw [hsent, hbody, Option.map_some, hlength]

end Sending

/-- **The length is right exactly for a text whose further bytes are as many as the code points
that a NUL cuts off, and for bytes that an `int` counts.** -/
theorem length_declared_iff {parameters : Parameters} {info : Tm} (s : Sending parameters info) :
    s.Declared ↔ Counted s.data := by
  rw [s.declared_iff_dataLength, counted_iff_dataLength]

/-- A request with the text `é`. -/
def accented : Sending ⟨[], []⟩ epoch where
  entries := [(pyStr "Verb", .str (pyStr "POST")), (pyStr "Data", .str (pyStr "é"))]
  data := .str (pyStr "é")
  data_eq := rfl
  start := str "POST / HTTP/1.1\r\nUser-Agent: Domoticz/1.0\r\n"
  start_eq := by rfl
  supplied _ := rfl
  generates := .inr rfl

/-- One byte is declared for a text of two. -/
theorem one_declared_of_two :
    processOutbound ⟨[], []⟩ epoch (some (.dict accented.entries)) =
        some (str "POST / HTTP/1.1\r\nUser-Agent: Domoticz/1.0\r\nContent-Length: 1\r\n\r\n" ++
          [0xC3, 0xA9]) ∧
      ¬ accented.Declared := by
  refine ⟨by decide, fun h => ?_⟩
  obtain ⟨body, hbody, hlength⟩ := accented.declared_iff_dataLength.mp h
  obtain rfl : [0xC3, 0xA9] = body := Option.some.inj hbody
  cases hlength

end Domoticz.Http
