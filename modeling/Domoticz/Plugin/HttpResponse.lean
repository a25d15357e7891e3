import Domoticz.Plugin.Http
import Domoticz.Plugin.JsonFaithful

/-!
# Responses to a plugin

A well-formed response, and what `ProcessInbound` makes of it when all of it is there.

## Main definitions

* `Field`, `Chunk`, `Body`, `Response` — a well-formed response and its bytes.
* `Response.IsMessage` — what is to be delivered.
* `Response.delivered` — what is delivered, when an earlier response has left `m_JSON`.

## Main results

* `chunkLoop_body` — the loop over the chunks collects them.
* `attempt_bytes`, `attempt_delivers` — the parse of a whole response.
* `read_eq_none_iff`, `Response.framed_iff` — the headers that are read as they are meant.
-/

namespace Domoticz.Http

open CLib

/-! ### Well-formed responses -/

/-- A header field: its name, and everything between the colon and the end of the line. -/
structure Field where
  name : Bytes
  value : Bytes
  name_ne : name ≠ []
  name_ok : CR ∉ name ∧ LF ∉ name ∧ chr ':' ∉ name
  value_ok : CR ∉ value ∧ LF ∉ value

/-- The line of a header, without what ends it. -/
def Field.line (f : Field) : Bytes := f.name ++ chr ':' :: f.value

/-- What the code takes for the text of a header: it skips the byte behind the colon. -/
def Field.text (f : Field) : Bytes := f.value.drop 1

/-- The bytes of some fields. -/
def lines : List Field → Bytes
  | [] => []
  | f :: fields => f.line ++ CR :: LF :: lines fields

/-- What may follow a chunk size: nothing, or an extension after white space or a semicolon. -/
structure Extension (ext : Bytes) : Prop where
  head : ∀ b ∈ ext.head?, b = chr ';' ∨ b = chr ' ' ∨ b = 9
  ok : CR ∉ ext ∧ LF ∉ ext

/-- A chunk that is not the last. -/
structure Chunk where
  size : Bytes
  ext : Bytes
  data : Bytes
  size_ne : size ≠ []
  size_hex : ∀ b ∈ size, isDigit 16 b = true
  size_eq : digitsValue 16 size = data.length
  ext_ok : Extension ext
  data_ne : data ≠ []
  data_lt : data.length < 2 ^ 63

/-- The line of a size. -/
def Chunk.line (c : Chunk) : Bytes := c.size ++ c.ext

/-- The bytes of some chunks. -/
def chunkBytes : List Chunk → Bytes
  | [] => []
  | c :: chunks => c.line ++ CR :: LF :: (c.data ++ CR :: LF :: chunkBytes chunks)

/-- The zero chunk, with the trailers behind it. -/
structure LastChunk where
  zeros : Bytes
  ext : Bytes
  trailers : List Field
  zeros_ne : zeros ≠ []
  zeros_eq : ∀ b ∈ zeros, b = chr '0'
  ext_ok : Extension ext

/-- The bytes of the last chunk, with its trailers and the blank line. -/
def LastChunk.bytes (last : LastChunk) : Bytes :=
  last.zeros ++ last.ext ++ CR :: LF :: (lines last.trailers ++ [CR, LF])

/-- The body of a response. -/
inductive Body
  | length (content : Bytes)
  | chunked (chunks : List Chunk) (last : LastChunk)

/-- The bytes behind the headers. -/
def Body.bytes : Body → Bytes
  | .length content => content
  | .chunked chunks last => chunkBytes chunks ++ last.bytes

/-- What the body says. -/
def Body.content : Body → Bytes
  | .length content => content
  | .chunked chunks _ => (chunks.map Chunk.data).flatten

/-- A field value without the white space around it. -/
def trim (value : Bytes) : Bytes :=
  let blank (b : UInt8) : Bool := b == chr ' ' || b == 9
  ((value.dropWhile blank).reverse.dropWhile blank).reverse

/-- The element behind the last comma. -/
def lastElement (value : Bytes) : Bytes :=
  trim ((value.reverse.takeWhile (· != chr ',')).reverse)

/-- The headers announce the body: either its length, or that it comes in chunks. -/
def Declares (fields : List Field) : Body → Prop
  | .length content =>
      (∃ f ∈ fields, upper f.name = str "CONTENT-LENGTH") ∧
        (∀ f ∈ fields, upper f.name = str "CONTENT-LENGTH" →
          Numeral (trim f.value) ∧ digitsValue 10 (trim f.value) = content.length) ∧
        ∀ f ∈ fields, upper f.name ≠ str "TRANSFER-ENCODING"
  | .chunked _ _ =>
      (∃ f ∈ fields, upper f.name = str "TRANSFER-ENCODING" ∧
        lastElement (upper f.value) = str "CHUNKED") ∧
        ∀ f ∈ fields, upper f.name ≠ str "CONTENT-LENGTH"

/-- A response of HTTP/1.x. -/
structure Response where
  minor : UInt8
  status : Bytes
  reason : Bytes
  fields : List Field
  body : Body
  minor_ok : isDigit 10 minor = true
  status_ok : status.length = 3 ∧ ∀ b ∈ status, isDigit 10 b = true
  reason_ok : CR ∉ reason ∧ LF ∉ reason
  declared : Declares fields body

namespace Response

variable (r : Response)

/-- The first line. -/
def statusLine : Bytes :=
  str "HTTP/1." ++ r.minor :: chr ' ' :: (r.status ++ chr ' ' :: r.reason)

/-- The response up to some of its headers. -/
def front (done : List Field) : Bytes := r.statusLine ++ CR :: LF :: lines done

/-- The response up to its body. -/
def head : Bytes := r.front r.fields ++ [CR, LF]

/-- All bytes of a response. -/
def bytes : Bytes := r.head ++ r.body.bytes

/-- Whether the content is said to be JSON. -/
def declaresJson : Bool :=
  r.fields.any fun f =>
    upper f.name == str "CONTENT-TYPE" && contains f.text (str "application/json")

/-- The complete body as a value: what it says if it comes with its length and is JSON, and its
bytes otherwise. -/
def Gives (value : PyValue) : Prop :=
  match r.body with
  | .length content =>
      if r.declaresJson then ∃ t, value = .json t ∧ PythonJson.Conveys content t
      else value = .bytes content
  | .chunked _ _ => value = .bytes r.body.content

/-- What is to be delivered: the status, and the complete body, if there is one. -/
def IsMessage (data : Dict) : Prop :=
  ∃ m_Headers value, data = responseDict r.status m_Headers (dataEntry r.body.content value) ∧
    (r.body.content ≠ [] → r.Gives value)

end Response

/-- The length and the encoding of the body are read as they are meant. -/
def Response.Framed (r : Response) : Prop :=
  match r.body with
  | .length content => ∃ done f more, r.fields = done ++ f :: more ∧
      upper f.name = str "CONTENT-LENGTH" ∧ (∀ g ∈ more, upper g.name ≠ str "CONTENT-LENGTH") ∧
      atoi f.text = content.length
  | .chunked _ _ => ∃ f ∈ r.fields, upper f.name = str "TRANSFER-ENCODING" ∧
      upper f.text = str "CHUNKED"

/-- The headers can be read and say what they mean. -/
structure Response.Legible (r : Response) : Prop where
  /-- Every header has something behind its colon. -/
  value_ne : ∀ f ∈ r.fields, f.value ≠ []
  /-- The text of the first header of a name is UTF-8, if the name is. -/
  text : ∀ done f more, r.fields = done ++ f :: more → buildString f.name ≠ none →
    (∀ g ∈ done, cstr g.name ≠ cstr f.name) → buildString f.text ≠ none
  framed : r.Framed

/-- Content that is JSON, and comes with its length, is an object of which nothing is lost. -/
def Response.Translatable (r : Response) : Prop :=
  r.declaresJson = true → match r.body with
    | .length content => content = [] ∨ PythonJson.Conveyed content
    | .chunked _ _ => True

/-- Content that is taken for JSON, because of the response or of an earlier one, is translated
without an exception and without a crash. -/
def Response.Passes (r : Response) (m_JSON : Bool) : Prop :=
  m_JSON = true ∨ r.declaresJson = true → match r.body with
    | .length content => content = [] ∨ ∃ t, PythonJson.translate content = .ok t
    | .chunked _ _ => True

/-- Content that is not JSON does not follow JSON; `m_JSON` is what earlier responses left. -/
def Response.Plain (r : Response) (m_JSON : Bool) : Prop :=
  m_JSON = true → r.declaresJson = true ∨ (match r.body with
    | .length content => content = []
    | .chunked _ _ => True)

/-! ### The loop over the headers -/

/-- The loop over the headers, on whole fields. -/
def HeaderState.read (st : HeaderState) : List Field → HeaderState × Option Halt
  | [] => (st, none)
  | f :: fields =>
      if f.value = [] then (st, some .threw)
      else match st.add f.name f.text with
        | (st, none) => st.read fields
        | halted => halted

/-- What the code reads in the headers of a response. -/
def Response.reading (r : Response) : HeaderState × Option Halt :=
  ({ m_JSON := false } : HeaderState).read r.fields

theorem extractLines_field (st : HeaderState) (f : Field) (rest : Bytes) :
    extractLines st (f.line ++ CR :: LF :: rest) =
      if f.value = [] then (st, .error .threw)
      else match st.add f.name f.text with
        | (st, none) => extractLines st rest
        | (st, some halt) => (st, .error halt) := by
  have hcr : CR ∉ f.line := by
    simp only [Field.line, List.mem_append, List.mem_cons, not_or]
    exact ⟨f.name_ok.1, by decide, f.value_ok.1⟩
  have hlf : LF ∉ f.line ++ [CR] := by
    simp only [Field.line, List.mem_append, List.mem_cons, List.mem_nil_iff, not_or]
    exact ⟨⟨f.name_ok.2.1, by decide, f.value_ok.2⟩, by decide, not_false⟩
  have hline : upTo CR (f.line ++ CR :: LF :: rest) = f.line := upTo_append_cons _ hcr
  have hname : upTo (chr ':') f.line = f.name := upTo_append_cons _ f.name_ok.2.2
  have hcolon : f.line.contains (chr ':') = true := by simp [Field.line]
  have hpast : past LF (f.line ++ CR :: LF :: rest) = rest := by
    have h := past_append_cons rest hlf
    rwa [List.append_assoc] at h
  have hstart : ¬ ((f.line ++ CR :: LF :: rest).isEmpty ∨
      (f.line ++ CR :: LF :: rest).head? = some CR) := by
    obtain ⟨b, s, hb⟩ := List.exists_cons_of_ne_nil f.name_ne
    have hbcr : b ≠ CR := fun h => f.name_ok.1 (by rw [hb, h]; exact List.mem_cons_self)
    simp [Field.line, hb, hbcr]
  have hmem : LF ∈ f.line ++ CR :: LF :: rest := by simp
  rw [extractLines, if_neg hstart]
  simp only [hline, hcolon, if_true, hname, hpast, hmem, dif_pos]
  by_cases hv : f.value = []
  · have hsub : substrFrom? f.line (f.name.length + 2) = none := by
      rw [substrFrom?, if_neg]
      simp [Field.line, hv]
    rw [hsub, if_pos hv]
  · have hsub : substrFrom? f.line (f.name.length + 2) = some f.text := by
      have hpos := List.length_pos_iff.mpr hv
      rw [substrFrom?, if_pos]
      · simp [Field.line, Field.text]
      · rw [Field.line, List.length_append, List.length_cons]
        omega
    simp only [hsub, if_neg hv]
    cases st.add f.name f.text with
    | mk st' halt =>
      cases halt with
      | none => rfl
      | some halt => rfl

theorem extractLines_lines (st : HeaderState) (fields : List Field) (rest : Bytes) :
    extractLines st (lines fields ++ rest) = match st.read fields with
      | (st, none) => extractLines st rest
      | (st, some halt) => (st, .error halt) := by
  induction fields generalizing st with
  | nil => rfl
  | cons f fields ih =>
    rw [lines, List.append_assoc, List.cons_append, List.cons_append, extractLines_field,
      HeaderState.read]
    split
    · rfl
    · cases st.add f.name f.text with
      | mk st' halt =>
        cases halt with
        | none => exact ih st'
        | some halt => rfl

/-! ### The loop over the chunks -/

theorem strtol_line {ds ext : Bytes} (hne : ds ≠ []) (hhex : ∀ b ∈ ds, isDigit 16 b = true)
    (hext : Extension ext) : (strtol 16 (ds ++ ext)).1 = clampLong (digitsValue 16 ds) := by
  rw [strtol_sixteen hne hhex]
  intro b hb
  rcases hext.head b hb with rfl | rfl | rfl
  · decide
  · decide
  · decide

theorem Chunk.head_line (c : Chunk) (t : Bytes) : (c.line ++ t).head? ≠ some CR := by
  obtain ⟨b, s, hb⟩ := List.exists_cons_of_ne_nil c.size_ne
  have hhex := c.size_hex b (by rw [hb]; exact List.mem_cons_self)
  rw [Chunk.line, hb]
  intro h
  obtain rfl : b = CR := Option.some.inj h
  exact absurd hhex (by decide)

theorem Chunk.notMem_line (c : Chunk) : CR ∉ c.line ∧ LF ∉ c.line := by
  have hdigit (b : UInt8) (h : isDigit 16 b = false) : b ∉ c.size := fun hb => by
    rw [c.size_hex b hb] at h
    cases h
  simp only [Chunk.line, List.mem_append, not_or]
  exact ⟨⟨hdigit CR (by decide), c.ext_ok.ok.1⟩, hdigit LF (by decide), c.ext_ok.ok.2⟩

theorem Chunk.chunkSize_line (c : Chunk) (rest : Bytes) :
    chunkSize (c.line ++ CR :: rest) = c.data.length := by
  have hlt := c.data_lt
  rw [chunkSize, upTo_append_cons _ c.notMem_line.1, Chunk.line,
    strtol_line c.size_ne c.size_hex c.ext_ok, c.size_eq, clampLong_nat]
  omega

theorem Chunk.past_line (c : Chunk) (rest : Bytes) :
    past LF (c.line ++ CR :: LF :: rest) = rest := by
  have hlf : LF ∉ c.line ++ [CR] := by
    simp only [List.mem_append, List.mem_singleton, not_or]
    exact ⟨c.notMem_line.2, by decide⟩
  have h := past_append_cons rest hlf
  rwa [List.append_assoc] at h

/-- A pass at the start of a chunk. -/
theorem chunkLoop_start (p : Bytes) {t : Bytes} (hne : t ≠ []) (hcr : t.head? ≠ some CR) :
    chunkLoop p t = if chunkSize t = 0 then some p
      else if chunkSize t < 0 ∨ (past LF t).length ≤ (chunkSize t).toNat then none
      else chunkLoop (p ++ (past LF t).take (chunkSize t).toNat)
        ((past LF t).drop (chunkSize t).toNat) := by
  have hstart : chunkStart t = t := if_neg hcr
  have hstop : ¬ (t.isEmpty ∨ t = [CR, LF]) := by
    rintro (h | rfl)
    · exact hne (List.isEmpty_iff.mp h)
    · exact hcr rfl
  rw [chunkLoop, if_neg hstop]
  simp only [hstart]

/-- The end of line behind the data of a chunk is skipped. -/
theorem chunkLoop_crlf (p : Bytes) {t : Bytes} (hcr : t.head? ≠ some CR) :
    chunkLoop p (CR :: LF :: t) = chunkLoop p t := by
  by_cases hne : t = []
  · subst hne
    rw [chunkLoop, if_pos (.inr rfl), chunkLoop, if_pos (.inl rfl)]
  · have hstart : chunkStart (CR :: LF :: t) = t := rfl
    have hstart' : chunkStart t = t := if_neg hcr
    have hstop : ¬ ((CR :: LF :: t).isEmpty ∨ CR :: LF :: t = [CR, LF]) := by simp [hne]
    have hstop' : ¬ (t.isEmpty ∨ t = [CR, LF]) := by
      rintro (h | rfl)
      · exact hne (List.isEmpty_iff.mp h)
      · exact hcr rfl
    rw [chunkLoop, if_neg hstop]
    conv_rhs => rw [chunkLoop, if_neg hstop']
    simp only [hstart, hstart']

/-- A whole chunk is added to the payload. -/
theorem chunkLoop_chunk (p : Bytes) (c : Chunk) {t : Bytes} (hcr : t.head? ≠ some CR) :
    chunkLoop p (c.line ++ CR :: LF :: (c.data ++ CR :: LF :: t)) = chunkLoop (p ++ c.data) t := by
  have hpos := List.length_pos_iff.mpr c.data_ne
  have hne : c.line ++ CR :: LF :: (c.data ++ CR :: LF :: t) ≠ [] := by simp
  rw [chunkLoop_start p hne (c.head_line _), c.chunkSize_line, c.past_line, if_neg (by omega),
    if_neg, Int.toNat_natCast, List.take_left, List.drop_left, chunkLoop_crlf _ hcr]
  rw [Int.toNat_natCast, List.length_append, List.length_cons]
  omega

theorem head_chunkBytes (chunks : List Chunk) {t : Bytes} (hcr : t.head? ≠ some CR) :
    (chunkBytes chunks ++ t).head? ≠ some CR := by
  cases chunks with
  | nil => exact hcr
  | cons c chunks =>
    rw [chunkBytes, List.append_assoc]
    exact c.head_line _

/-- Whole chunks are added to the payload. -/
theorem chunkLoop_chunks (p : Bytes) (chunks : List Chunk) {t : Bytes} (hcr : t.head? ≠ some CR) :
    chunkLoop p (chunkBytes chunks ++ t) = chunkLoop (p ++ (chunks.map Chunk.data).flatten) t := by
  induction chunks generalizing p with
  | nil => rw [List.map_nil, List.flatten_nil, List.append_nil]; rfl
  | cons c chunks ih =>
    have hbytes : chunkBytes (c :: chunks) ++ t =
        c.line ++ CR :: LF :: (c.data ++ CR :: LF :: (chunkBytes chunks ++ t)) := by
      simp [chunkBytes]
    rw [hbytes, chunkLoop_chunk p c (head_chunkBytes chunks hcr), ih, List.map_cons,
      List.flatten_cons, List.append_assoc]

/-- Up to the last byte of its data a chunk is waited for. -/
theorem chunkLoop_data (p : Bytes) (c : Chunk) {t : Bytes} (ht : t <+: c.data) :
    chunkLoop p (c.line ++ CR :: LF :: t) = none := by
  have hpos := List.length_pos_iff.mpr c.data_ne
  have hne : c.line ++ CR :: LF :: t ≠ [] := by simp
  rw [chunkLoop_start p hne (c.head_line _), c.chunkSize_line, c.past_line, if_neg (by omega),
    if_pos (.inr (by rw [Int.toNat_natCast]; exact ht.length_le))]

/-- A carriage return behind the data of a chunk is taken for the last chunk. -/
theorem chunkLoop_data_cr (p : Bytes) (c : Chunk) :
    chunkLoop p (c.line ++ CR :: LF :: (c.data ++ [CR])) = some (p ++ c.data) := by
  have hpos := List.length_pos_iff.mpr c.data_ne
  have hne : c.line ++ CR :: LF :: (c.data ++ [CR]) ≠ [] := by simp
  have hcr : chunkLoop (p ++ c.data) [CR] = some (p ++ c.data) := by
    have hsize : chunkSize (chunkStart [CR]) = 0 := by decide
    rw [chunkLoop, if_neg (by decide)]
    simp only [hsize, if_true]
  rw [chunkLoop_start p hne (c.head_line _), c.chunkSize_line, c.past_line, if_neg (by omega),
    if_neg, Int.toNat_natCast, List.take_left, List.drop_left, hcr]
  rw [Int.toNat_natCast, List.length_append, List.length_singleton]
  omega

theorem digitsValue_zeros {zeros : Bytes} (h : ∀ b ∈ zeros, b = chr '0') :
    digitsValue 16 zeros = 0 := by
  unfold digitsValue
  induction zeros with
  | nil => rfl
  | cons b zeros ih =>
    obtain rfl := h b List.mem_cons_self
    exact ih fun b hb => h b (List.mem_cons_of_mem _ hb)

theorem Extension.of_prefix {ext t : Bytes} (h : Extension ext) (ht : t <+: ext) : Extension t := by
  refine ⟨fun b hb => ?_, fun hmem => h.ok.1 (ht.subset hmem), fun hmem => h.ok.2 (ht.subset hmem)⟩
  obtain ⟨more, rfl⟩ := ht
  cases t with
  | nil => cases hb
  | cons x t => exact h.head b hb

/-- The beginning of the last chunk counts as the last chunk. -/
theorem LastChunk.chunkSize_prefix (last : LastChunk) {t : Bytes} (hne : t ≠ [])
    (ht : t <+: last.bytes) : t.head? ≠ some CR ∧ chunkSize t = 0 := by
  obtain ⟨z, zeros, hz⟩ := List.exists_cons_of_ne_nil last.zeros_ne
  have hz0 : z = chr '0' := last.zeros_eq z (by rw [hz]; exact List.mem_cons_self)
  have hcr : CR ∉ last.zeros ++ last.ext := by
    rw [List.mem_append, not_or]
    exact ⟨fun h => absurd (last.zeros_eq CR h) (by decide), last.ext_ok.ok.1⟩
  obtain ⟨b, s, rfl⟩ := List.exists_cons_of_ne_nil hne
  have hb : b = chr '0' := by
    rw [LastChunk.bytes, hz] at ht
    exact (List.cons_prefix_cons.mp ht).1.trans hz0
  have hu : upTo CR (b :: s) <+: last.zeros ++ last.ext := by
    have h := upTo_prefix CR ht
    rwa [LastChunk.bytes, upTo_append_cons _ hcr] at h
  have hune : upTo CR (b :: s) ≠ [] := by
    rw [hb, upTo, List.takeWhile_cons_of_pos (by decide)]
    exact List.cons_ne_nil _ _
  refine ⟨?_, ?_⟩
  · rw [hb]
    exact fun h => absurd (Option.some.inj h) (by decide)
  · have hdigit (x : UInt8) (hx : x = chr '0') : isDigit 16 x = true := by
      rw [hx]
      decide
    have hempty : Extension [] := ⟨by simp, List.not_mem_nil, List.not_mem_nil⟩
    rw [chunkSize]
    rcases List.prefix_or_prefix_of_prefix hu (List.prefix_append last.zeros last.ext) with h | h
    · have hzeros : ∀ x ∈ upTo CR (b :: s), x = chr '0' := fun x hx => last.zeros_eq x (h.subset hx)
      have hs := strtol_line hune (fun x hx => hdigit x (hzeros x hx)) hempty
      rw [List.append_nil, digitsValue_zeros hzeros] at hs
      exact hs
    · obtain ⟨ext', hext⟩ := h
      rw [← hext] at hu ⊢
      rw [strtol_line last.zeros_ne (fun x hx => hdigit x (last.zeros_eq x hx))
        (last.ext_ok.of_prefix ((List.prefix_append_right_inj _).mp hu)),
        digitsValue_zeros last.zeros_eq]
      rfl

theorem LastChunk.chunkLoop_prefix (p : Bytes) (last : LastChunk) {t : Bytes} (hne : t ≠ [])
    (ht : t <+: last.bytes) : chunkLoop p t = some p := by
  obtain ⟨hcr, hsize⟩ := last.chunkSize_prefix hne ht
  rw [chunkLoop_start p hne hcr, if_pos hsize]

/-- A body in chunks. -/
theorem chunkLoop_body (chunks : List Chunk) (last : LastChunk) :
    chunkLoop [] (chunkBytes chunks ++ last.bytes) = some (chunks.map Chunk.data).flatten := by
  have hne : last.bytes ≠ [] := by simp [LastChunk.bytes]
  obtain ⟨hcr, -⟩ := last.chunkSize_prefix hne (List.prefix_refl _)
  rw [chunkLoop_chunks [] chunks hcr, last.chunkLoop_prefix _ hne (List.prefix_refl _)]
  rfl

/-! ### Reading the headers -/

/-- A header that says that the content is JSON. -/
def jsonHeader (name text : Bytes) : Bool :=
  upper name == str "CONTENT-TYPE" && contains text (str "application/json")

theorem note_withJson (st : HeaderState) (m_JSON : Bool) (name text : Bytes) :
    { st with m_JSON }.note name text =
      { st.note name text with m_JSON := m_JSON || jsonHeader name text } := by
  have hdistinct (s : String) (hs : str s ≠ str "CONTENT-TYPE") (h : upper name = str s) :
      jsonHeader name text = false := by
    simp [jsonHeader, h, hs]
  unfold HeaderState.note
  split
  · next h => rw [hdistinct _ (by decide) h, Bool.or_false]
  · split
    · next h => rw [hdistinct _ (by decide) h, Bool.or_false]
    · split
      · next h => simp [jsonHeader, h]
      · next h =>
        have hj : jsonHeader name text = false := by
          rw [← Bool.not_eq_true, jsonHeader, Bool.and_eq_true, beq_iff_eq]
          exact h
        rw [hj, Bool.or_false]

theorem add_withJson (st : HeaderState) (m_JSON : Bool) (name text : Bytes) :
    { st with m_JSON }.add name text =
      ({ (st.add name text).1 with m_JSON := m_JSON || jsonHeader name text },
        (st.add name text).2) := by
  unfold HeaderState.add
  rw [note_withJson]
  simp only
  cases addHeader (st.note name text).m_Headers name text with
  | none => rfl
  | some headers => rfl

/-- Whether some of the headers say that the content is JSON. -/
def jsonFields (fields : List Field) : Bool := fields.any fun f => jsonHeader f.name f.text

/-- Reading headers, but for `m_JSON`, does not depend on `m_JSON`. -/
theorem read_withJson (st : HeaderState) (m_JSON : Bool) (fields : List Field)
    (h : (st.read fields).2 = none) :
    { st with m_JSON }.read fields =
      ({ (st.read fields).1 with m_JSON := m_JSON || jsonFields fields }, none) := by
  induction fields generalizing st m_JSON with
  | nil => rw [jsonFields, List.any_nil, Bool.or_false]; rfl
  | cons f fields ih =>
    rw [HeaderState.read] at h ⊢
    split
    · next hv =>
      rw [if_pos hv] at h
      cases h
    · next hv =>
      rw [if_neg hv] at h
      rw [add_withJson, HeaderState.read, if_neg hv]
      cases hadd : st.add f.name f.text with
      | mk st' halt =>
        rw [hadd] at h
        cases halt with
        | some halt => cases h
        | none =>
          refine (ih st' _ h).trans ?_
          rw [jsonFields, jsonFields, List.any_cons, Bool.or_assoc]

theorem read_append (st : HeaderState) (done more : List Field)
    (h : (st.read (done ++ more)).2 = none) : (st.read done).2 = none := by
  induction done generalizing st with
  | nil => rfl
  | cons f done ih =>
    rw [List.cons_append, HeaderState.read] at h
    rw [HeaderState.read]
    split
    · next hv =>
      rw [if_pos hv] at h
      cases h
    · next hv =>
      rw [if_neg hv] at h
      cases hadd : st.add f.name f.text with
      | mk st' halt =>
        rw [hadd] at h
        cases halt with
        | some halt => cases h
        | none => exact ih st' h

/-! ### One parse -/

theorem Response.notMem_statusLine (r : Response) : CR ∉ r.statusLine ∧ LF ∉ r.statusLine := by
  have hdigit (b : UInt8) (h : isDigit 10 b = false) : b ≠ r.minor ∧ b ∉ r.status := by
    constructor
    · rintro rfl
      rw [r.minor_ok] at h
      cases h
    · intro hb
      rw [r.status_ok.2 b hb] at h
      cases h
  obtain ⟨hcr, hlf⟩ := r.reason_ok
  obtain ⟨hcr₁, hcr₂⟩ := hdigit CR (by decide)
  obtain ⟨hlf₁, hlf₂⟩ := hdigit LF (by decide)
  simp only [Response.statusLine, List.mem_append, List.mem_cons, not_or]
  exact ⟨⟨by decide, hcr₁, by decide, hcr₂, by decide, hcr⟩,
    by decide, hlf₁, by decide, hlf₂, by decide, hlf⟩

theorem Response.take_front (r : Response) (done : List Field) (t : Bytes) :
    (r.front done ++ t).take 4 = str "HTTP" := rfl

theorem Response.status_front (r : Response) (done : List Field) (t : Bytes) :
    upTo (chr ' ') (past (chr ' ') (upTo CR (r.front done ++ t))) = r.status := by
  have hline : upTo CR (r.front done ++ t) = r.statusLine := by
    rw [Response.front, List.append_assoc]
    exact upTo_append_cons _ r.notMem_statusLine.1
  have hminor : chr ' ' ∉ str "HTTP/1." ++ [r.minor] := by
    rw [List.mem_append, List.mem_singleton, not_or]
    refine ⟨by decide, fun h => ?_⟩
    have hok := r.minor_ok
    rw [← h] at hok
    exact absurd hok (by decide)
  have hstatus : chr ' ' ∉ r.status := fun h => absurd (r.status_ok.2 _ h) (by decide)
  have hpast : past (chr ' ') r.statusLine = r.status ++ chr ' ' :: r.reason := by
    have h := past_append_cons (r.status ++ chr ' ' :: r.reason) hminor
    rwa [List.append_assoc] at h
  rw [hline, hpast, upTo_append_cons _ hstatus]

theorem Response.extractHeaders_front (r : Response) (m_JSON : Bool) (done : List Field)
    (t : Bytes) :
    extractHeaders m_JSON (r.front done ++ t) = extractLines { m_JSON } (lines done ++ t) := by
  have hlf : LF ∉ r.statusLine ++ [CR] := by
    rw [List.mem_append, List.mem_singleton, not_or]
    exact ⟨r.notMem_statusLine.2, by decide⟩
  have hpast : past LF (r.front done ++ t) = lines done ++ t := by
    have h := past_append_cons (lines done ++ t) hlf
    simpa [Response.front] using h
  rw [extractHeaders, hpast]

/-- What the code has read behind the last header. -/
def Response.state (r : Response) (m_JSON : Bool) : HeaderState :=
  { r.reading.1 with m_JSON := m_JSON || r.declaresJson }

theorem Response.read_fields {r : Response} (h : r.reading.2 = none) (m_JSON : Bool) :
    ({ m_JSON } : HeaderState).read r.fields = (r.state m_JSON, none) :=
  read_withJson { m_JSON := false } m_JSON r.fields h

/-- Some of the headers are read like all of them. -/
theorem Response.read_done {r : Response} {done more : List Field} (h : r.reading.2 = none)
    (hf : r.fields = done ++ more) (m_JSON : Bool) :
    ∃ st, ({ m_JSON } : HeaderState).read done = (st, none) ∧
      (st.m_JSON = true → m_JSON = true ∨ r.declaresJson = true) := by
  rw [Response.reading, hf] at h
  refine ⟨_, read_withJson { m_JSON := false } m_JSON done (read_append _ done more h), fun hj => ?_⟩
  rcases (Bool.or_eq_true _ _).mp hj with hj | hj
  · exact .inl hj
  · refine .inr ?_
    have hall : r.declaresJson = jsonFields r.fields := rfl
    rw [hall, hf, jsonFields, List.any_append, Bool.or_eq_true]
    exact .inl hj

/-- The parse of what has arrived behind some headers. -/
theorem attempt_front (r : Response) {m_JSON : Bool}
    {done : List Field} {st : HeaderState} (t : Bytes)
    (h : ({ m_JSON } : HeaderState).read done = (st, none)) :
    (∀ st' halt, extractLines st t = (st', .error halt) →
      attempt false m_JSON (r.front done ++ t) = (st'.m_JSON, .halts halt)) ∧
    ∀ st' sData, extractLines st t = (st', .ok sData) →
      attempt false m_JSON (r.front done ++ t) =
        (st'.m_JSON, processBody false r.status st' sData) := by
  have hextract : extractHeaders m_JSON (r.front done ++ t) = extractLines st t := by
    rw [r.extractHeaders_front, extractLines_lines, h]
  rw [attempt, if_pos (r.take_front done t), attemptResponse, r.status_front, hextract]
  constructor
  · intro st' halt hlines
    rw [hlines]
  · intro st' sData hlines
    rw [hlines]

/-- Headers that halt the loop. -/
theorem attempt_front_halts (r : Response) {m_JSON : Bool}
    {st : HeaderState} {halt : Halt} (t : Bytes)
    (h : ({ m_JSON } : HeaderState).read r.fields = (st, some halt)) :
    attempt false m_JSON (r.front r.fields ++ t) = (st.m_JSON, .halts halt) := by
  rw [attempt, if_pos (r.take_front r.fields t), attemptResponse, r.extractHeaders_front,
    extractLines_lines, h]

/-! ### The parse of a response -/

/-- The code has read how long the body is, or that it is in chunks. -/
def Response.Measured (r : Response) : Prop :=
  match r.body with
  | .length content => r.reading.1.m_ContentLength = content.length
  | .chunked _ _ => r.reading.1.m_Chunked = true

/-- What no field sets is as before. -/
theorem read_keeps {α : Type} (g : HeaderState → α) {fields : List Field}
    (hheaders : ∀ (st : HeaderState) (m_Headers : Dict), g { st with m_Headers } = g st)
    (hnote : ∀ (st : HeaderState), ∀ f ∈ fields, g (st.note f.name f.text) = g st)
    (st : HeaderState) : g (st.read fields).1 = g st := by
  induction fields generalizing st with
  | nil => rfl
  | cons f fields ih =>
    have hadd : g (st.add f.name f.text).1 = g st := by
      rw [← hnote st f List.mem_cons_self]
      unfold HeaderState.add
      simp only
      split
      · rfl
      · exact hheaders _ _
    rw [HeaderState.read]
    split
    · rfl
    · cases h : st.add f.name f.text with
      | mk st' halt =>
        rw [h] at hadd
        cases halt with
        | none => exact (ih (fun st f hf => hnote st f (List.mem_cons_of_mem _ hf)) st').trans hadd
        | some halt => exact hadd

theorem note_chunked (st : HeaderState) {name : Bytes} (text : Bytes)
    (h : upper name ≠ str "TRANSFER-ENCODING") : (st.note name text).m_Chunked = st.m_Chunked := by
  unfold HeaderState.note
  rw [if_neg h]
  split
  · rfl
  · split
    · rfl
    · rfl

theorem note_contentLength (st : HeaderState) {name : Bytes} (text : Bytes)
    (h : upper name ≠ str "CONTENT-LENGTH") :
    (st.note name text).m_ContentLength = st.m_ContentLength := by
  unfold HeaderState.note
  rw [if_neg h]
  split
  · rfl
  · split
    · rfl
    · rfl

/-- A body that comes with its length is not taken for one in chunks. -/
theorem Response.chunked_eq_false {r : Response} {content : Bytes} (hb : r.body = .length content) :
    r.reading.1.m_Chunked = false := by
  have hdecl := r.declared
  rw [hb] at hdecl
  exact read_keeps HeaderState.m_Chunked (fun _ _ => rfl)
    (fun st f hf => note_chunked st f.text (hdecl.2.2 f hf)) _

theorem Response.status_isEmpty (r : Response) : r.status.isEmpty = false := by
  have h := r.status_ok.1
  rw [List.isEmpty_eq_false_iff]
  intro hnil
  rw [hnil] at h
  cases h

/-- A carriage return is no JSON, but it can be translated. -/
theorem exists_bodyEntry_cr (m_JSON : Bool) :
    ∃ entry, bodyEntry m_JSON (past LF [CR]) = .ok entry := by
  have hpast : past LF [CR] = [CR] := by decide
  have hend : (JsonReader.readToken [CR]).token = .endOfStream :=
    JsonReader.readToken_of_nil (by decide)
  have hskip : JsonReader.skipComments [CR] = JsonReader.readToken [CR] :=
    JsonReader.skipComments_of_ne (by rw [hend]; decide)
  have hparse : JsonReader.parse [CR] = .error .syntaxError := by
    have hread : JsonReader.readValue (999 + 1) [CR] = .error .syntaxError := by
      rw [JsonReader.readValue, dif_neg (by rw [hskip, hend]; decide)]
    rw [JsonReader.parse, JsonReader.stackLimit, hread]
  have htranslate : PythonJson.translate [CR] = .ok (.object (.dict [])) := by
    rw [PythonJson.translate, hparse]
    rfl
  rw [hpast, bodyEntry, if_neg (by decide), htranslate]
  cases m_JSON with
  | true => exact ⟨_, rfl⟩
  | false => exact ⟨_, rfl⟩

theorem Response.buildString_status (r : Response) : buildString r.status ≠ none := by
  rw [buildString_of_ascii]
  · exact Option.some_ne_none _
  · intro b hb
    have hdigit := r.status_ok.2 b hb
    rw [isDigit_ten_iff] at hdigit
    exact UInt8.lt_of_le_of_lt hdigit.2 (by decide)

/-- A response as it is delivered; `m_JSON` is what earlier responses left. -/
def Response.delivered (r : Response) (m_JSON : Bool) : Except Halt Dict :=
  (match r.body with
    | .length content => bodyEntry (m_JSON || r.declaresJson) content
    | .chunked _ _ => .ok (dataEntry r.body.content (.bytes r.body.content))).map
      (responseDict r.status r.reading.1.m_Headers)

section Parse

variable (r : Response) (m_JSON : Bool)

/-- The parse behind the headers. -/
theorem attempt_fields (h : r.reading.2 = none) {t : Bytes} (ht : t = [] ∨ t.head? = some CR) :
    attempt false m_JSON (r.front r.fields ++ t) =
      (m_JSON || r.declaresJson, processBody false r.status (r.state m_JSON) t) := by
  have hstop : extractLines (r.state m_JSON) t = (r.state m_JSON, .ok t) := by
    rw [extractLines, if_pos]
    rcases ht with rfl | ht
    · exact .inl rfl
    · exact .inr ht
  exact (attempt_front r t (Response.read_fields h m_JSON)).2 _ _ hstop

theorem attempt_head (h : r.reading.2 = none) (t : Bytes) :
    attempt false m_JSON (r.head ++ t) = (m_JSON || r.declaresJson,
      processBody false r.status (r.state m_JSON) (CR :: LF :: t)) := by
  rw [Response.head, List.append_assoc]
  exact attempt_fields r m_JSON h (.inr rfl)

variable {r}

/-- A body not in chunks is delivered when what follows the headers is as long as they say. -/
theorem processBody_length (h : r.reading.1.m_Chunked = false) (s : Bytes) (hs : s ≠ []) :
    processBody false r.status (r.state m_JSON) s =
      if r.reading.1.m_ContentLength = (past LF s).length then
        .ofDict ((bodyEntry (m_JSON || r.declaresJson) (past LF s)).map
          (responseDict r.status r.reading.1.m_Headers))
      else .waits := by
  have hempty : ¬ s.isEmpty = true := by
    rw [List.isEmpty_iff]
    exact hs
  have hchunked : (r.state m_JSON).m_Chunked = false := h
  unfold processBody
  rw [if_neg hempty]
  simp only [r.status_isEmpty, hchunked, Bool.false_eq_true, if_false, or_false, queueResponse,
    r.buildString_status]
  rfl

/-- A body in chunks is delivered when the last of them is found. -/
theorem processBody_chunked (h : r.reading.1.m_Chunked = true) (s : Bytes) (hs : s ≠ []) :
    processBody false r.status (r.state m_JSON) s =
      match chunkLoop [] (past LF s) with
      | none => .waits
      | some sPayload => .delivers (responseDict r.status r.reading.1.m_Headers
          (dataEntry sPayload (.bytes sPayload))) := by
  have hempty : ¬ s.isEmpty = true := by
    rw [List.isEmpty_iff]
    exact hs
  have hchunked : (r.state m_JSON).m_Chunked = true := h
  unfold processBody
  rw [if_neg hempty]
  simp only [r.status_isEmpty, hchunked, Bool.false_eq_true, if_false, if_true, queueResponse,
    r.buildString_status]
  rfl

theorem past_blank (t : Bytes) : past LF (CR :: LF :: t) = t :=
  past_append_cons (s := [CR]) t (by decide)

/-- The parse of a whole response. -/
theorem attempt_bytes (h : r.reading.2 = none) (hmeasured : r.Measured) :
    attempt false m_JSON r.bytes =
      (m_JSON || r.declaresJson, .ofDict (r.delivered m_JSON)) := by
  rw [Response.bytes, attempt_head r m_JSON h]
  unfold Response.Measured at hmeasured
  unfold Response.delivered
  cases hb : r.body with
  | length content =>
    rw [hb] at hmeasured
    have hlen : r.reading.1.m_ContentLength = (Body.length content).bytes.length := hmeasured
    rw [processBody_length m_JSON (Response.chunked_eq_false hb) _
      (List.cons_ne_nil _ _), past_blank,
      if_pos hlen]
    rfl
  | chunked chunks last =>
    rw [hb] at hmeasured
    rw [processBody_chunked m_JSON hmeasured _ (List.cons_ne_nil _ _), past_blank,
      Body.bytes, chunkLoop_body]
    rfl

end Parse

/-! ### What the headers must be like -/

theorem lookup_eq_none_iff_notMem (d : Dict) (key : Bytes) :
    d.lookup key = none ↔ key ∉ d.map Prod.fst := by
  rw [List.lookup_eq_none_iff, List.mem_map]
  constructor
  · rintro h ⟨e, he, rfl⟩
    exact absurd (h e he) (by rw [bne_self_eq_false]; exact Bool.false_ne_true)
  · intro h e he
    rw [bne_iff_ne]
    rintro rfl
    exact h ⟨e, he, rfl⟩

/-- A text ends at its first NUL. -/
theorem buildString_congr {s t : Bytes} (h : cstr s = cstr t) : buildString s = buildString t := by
  rw [buildString, buildString, h]

theorem addHeader_eq_none_iff (m_Headers : Dict) (name text : Bytes) :
    addHeader m_Headers name text = none ↔ cstr name ∉ m_Headers.map Prod.fst ∧
      buildString name ≠ none ∧ buildString text = none := by
  rw [← lookup_eq_none_iff_notMem]
  unfold addHeader
  cases m_Headers.lookup (cstr name) with
  | none =>
    simp only
    split
    · next hname => simp only [reduceCtorEq, hname, ne_eq, not_true, false_and, and_false]
    · next hname => simp only [Option.map_eq_none_iff, ne_eq, hname, not_false_iff, true_and]
  | some prev => simp only [reduceCtorEq, false_and]

/-- The names of the headers that are there, and the new one. -/
theorem mem_addHeader {m_Headers m_Headers' : Dict} {name text : Bytes}
    (h : addHeader m_Headers name text = some m_Headers') (key : Bytes) :
    key ∈ m_Headers'.map Prod.fst ↔
      key ∈ m_Headers.map Prod.fst ∨ (key = cstr name ∧ buildString name ≠ none) := by
  have hlookup := lookup_eq_none_iff_notMem m_Headers (cstr name)
  unfold addHeader at h
  cases hl : m_Headers.lookup (cstr name) with
  | none =>
    simp only [hl] at h
    split at h
    · next hname =>
      rw [Option.some.inj h]
      exact (or_iff_left fun hkey => hkey.2 hname).symm
    · next hname =>
      obtain ⟨value, -, rfl⟩ := Option.map_eq_some_iff.mp h
      rw [List.map_append, List.mem_append, List.map_singleton, List.mem_singleton,
        and_iff_left hname]
  | some prev =>
    simp only [hl, Option.some.injEq] at h
    rw [hl] at hlookup
    have hmem : cstr name ∈ m_Headers.map Prod.fst := by
      by_contra hnot
      exact absurd (hlookup.mpr hnot) (Option.some_ne_none _)
    have hkeys : m_Headers'.map Prod.fst = m_Headers.map Prod.fst := by
      rw [← h, List.map_map]
      refine List.map_congr_left fun e he => ?_
      rw [Function.comp_apply]
      split
      · rfl
      · rfl
    rw [hkeys]
    constructor
    · exact .inl
    · rintro (hkey | ⟨rfl, -⟩)
      · exact hkey
      · exact hmem

theorem note_headers (st : HeaderState) (name text : Bytes) :
    (st.note name text).m_Headers = st.m_Headers := by
  unfold HeaderState.note
  split
  · rfl
  · split
    · rfl
    · split
      · rfl
      · rfl

/-- Several headers, from their names and texts. -/
def HeaderState.addAll (st : HeaderState) : List (Bytes × Bytes) → HeaderState × Option Halt
  | [] => (st, none)
  | e :: es =>
      match st.add e.1 e.2 with
      | (st, none) => st.addAll es
      | halted => halted

/-- Headers can be added if the text is UTF-8 where it becomes a value by itself. -/
theorem addAll_eq_none_iff (st : HeaderState) (es : List (Bytes × Bytes)) :
    (st.addAll es).2 = none ↔
      ∀ done e more, es = done ++ e :: more → cstr e.1 ∉ st.m_Headers.map Prod.fst →
        buildString e.1 ≠ none → (∀ g ∈ done, cstr g.1 ≠ cstr e.1) → buildString e.2 ≠ none := by
  induction es generalizing st with
  | nil =>
    refine iff_of_true rfl fun done e more h => ?_
    exact absurd h.symm (by simp)
  | cons e es ih =>
    rw [HeaderState.addAll]
    unfold HeaderState.add
    simp only [note_headers]
    cases hadd : addHeader st.m_Headers e.1 e.2 with
    | none =>
      obtain ⟨hkey, hname, htext⟩ := (addHeader_eq_none_iff _ _ _).mp hadd
      refine iff_of_false nofun fun h => ?_
      exact h [] e es rfl hkey hname nofun htext
    | some m_Headers =>
      refine (ih _).trans ?_
      have hkeys := mem_addHeader hadd
      have htext : cstr e.1 ∉ st.m_Headers.map Prod.fst → buildString e.1 ≠ none →
          buildString e.2 ≠ none := fun hkey hname hnone => by
        rw [(addHeader_eq_none_iff _ _ _).mpr ⟨hkey, hname, hnone⟩] at hadd
        cases hadd
      constructor
      · intro htexts done g more hsplit hkey hname hdone
        cases done with
        | nil =>
          obtain ⟨rfl, -⟩ := List.cons.inj hsplit
          exact htext hkey hname
        | cons e' done =>
          obtain ⟨rfl, hsplit'⟩ := List.cons.inj hsplit
          obtain ⟨he, hdone'⟩ := List.forall_mem_cons.mp hdone
          refine htexts done g more hsplit' (fun hmem => ?_) hname hdone'
          rcases (hkeys _).mp hmem with hmem | ⟨heq, -⟩
          · exact hkey hmem
          · exact he heq.symm
      · intro htexts done g more hsplit hkey hname hdone
        rw [hkeys, not_or] at hkey
        refine htexts (e :: done) g more (by rw [hsplit]; rfl) hkey.1 hname ?_
        refine List.forall_mem_cons.mpr ⟨fun heq => hkey.2 ⟨heq.symm, ?_⟩, hdone⟩
        rw [buildString_congr heq]
        exact hname

/-- The names and texts of some fields. -/
def headers (fields : List Field) : List (Bytes × Bytes) := fields.map fun f => (f.name, f.text)

/-- The fields are read one after the other, if there is something behind each colon. -/
theorem read_eq_addAll {fields : List Field} (h : ∀ f ∈ fields, f.value ≠ []) (st : HeaderState) :
    st.read fields = st.addAll (headers fields) := by
  induction fields generalizing st with
  | nil => rfl
  | cons f fields ih =>
    obtain ⟨hv, hvalues⟩ := List.forall_mem_cons.mp h
    rw [HeaderState.read, if_neg hv, headers, List.map_cons, HeaderState.addAll]
    cases st.add f.name f.text with
    | mk st' halt =>
      cases halt with
      | none => exact ih hvalues st'
      | some halt => rfl

theorem value_ne_of_read {st : HeaderState} {fields : List Field}
    (h : (st.read fields).2 = none) : ∀ f ∈ fields, f.value ≠ [] := by
  induction fields generalizing st with
  | nil => exact List.forall_mem_nil _
  | cons f fields ih =>
    rw [HeaderState.read] at h
    split at h
    · cases h
    · next hv =>
      refine List.forall_mem_cons.mpr ⟨hv, ?_⟩
      cases hadd : st.add f.name f.text with
      | mk st' halt =>
        rw [hadd] at h
        cases halt with
        | none => exact ih h
        | some halt => cases h

/-- Headers can be read if there is something behind each colon, and the text is UTF-8 where it
becomes a value by itself. -/
theorem read_eq_none_iff (st : HeaderState) (fields : List Field) :
    (st.read fields).2 = none ↔ (∀ f ∈ fields, f.value ≠ []) ∧
      ∀ done f more, fields = done ++ f :: more → cstr f.name ∉ st.m_Headers.map Prod.fst →
        buildString f.name ≠ none → (∀ g ∈ done, cstr g.name ≠ cstr f.name) →
          buildString f.text ≠ none := by
  have hsplit : (∀ done e more, headers fields = done ++ e :: more →
      cstr e.1 ∉ st.m_Headers.map Prod.fst → buildString e.1 ≠ none →
        (∀ g ∈ done, cstr g.1 ≠ cstr e.1) → buildString e.2 ≠ none) ↔
      ∀ done f more, fields = done ++ f :: more → cstr f.name ∉ st.m_Headers.map Prod.fst →
        buildString f.name ≠ none → (∀ g ∈ done, cstr g.name ≠ cstr f.name) →
          buildString f.text ≠ none := by
    constructor
    · rintro h done f more rfl hkey hname hdone
      refine h (headers done) (f.name, f.text) (headers more) ?_ hkey hname ?_
      · rw [headers, List.map_append, List.map_cons]
        rfl
      · intro e he
        obtain ⟨g, hg, rfl⟩ := List.mem_map.mp he
        exact hdone g hg
    · intro h done e more heq hkey hname hdone
      obtain ⟨done', rest, rfl, rfl, hrest⟩ := List.map_eq_append_iff.mp heq
      obtain ⟨f, more', rfl, rfl, rfl⟩ := List.map_eq_cons_iff.mp hrest
      exact h done' f more' rfl hkey hname fun g hg =>
        hdone (g.name, g.text) (List.mem_map_of_mem hg)
  rw [← hsplit, ← addAll_eq_none_iff]
  constructor
  · intro h
    have hvalues := value_ne_of_read h
    rw [read_eq_addAll hvalues] at h
    exact ⟨hvalues, h⟩
  · rintro ⟨hvalues, h⟩
    rw [read_eq_addAll hvalues]
    exact h

theorem read_append_eq (st : HeaderState) (done more : List Field)
    (h : (st.read done).2 = none) : st.read (done ++ more) = (st.read done).1.read more := by
  induction done generalizing st with
  | nil => rfl
  | cons f done ih =>
    rw [HeaderState.read] at h
    rw [List.cons_append, HeaderState.read, HeaderState.read]
    by_cases hv : f.value = []
    · rw [if_pos hv] at h
      cases h
    · rw [if_neg hv] at h ⊢
      rw [if_neg hv]
      cases hadd : st.add f.name f.text with
      | mk st' halt =>
        rw [hadd] at h
        cases halt with
        | some halt => cases h
        | none => exact ih st' h

/-- The last header that tells the length decides. -/
theorem read_contentLength {st : HeaderState} {done more : List Field} {f : Field}
    (h : (st.read (done ++ f :: more)).2 = none) (hname : upper f.name = str "CONTENT-LENGTH")
    (hmore : ∀ g ∈ more, upper g.name ≠ str "CONTENT-LENGTH") :
    (st.read (done ++ f :: more)).1.m_ContentLength = atoi f.text := by
  have hdone := read_append st done (f :: more) h
  rw [read_append_eq st done _ hdone] at h ⊢
  rw [HeaderState.read] at h ⊢
  by_cases hv : f.value = []
  · rw [if_pos hv] at h
    cases h
  · rw [if_neg hv] at h ⊢
    have hlen : ((st.read done).1.add f.name f.text).1.m_ContentLength = atoi f.text := by
      unfold HeaderState.add HeaderState.note
      rw [if_pos hname]
      simp only
      split
      · rfl
      · rfl
    cases hadd : (st.read done).1.add f.name f.text with
    | mk st' halt =>
      rw [hadd] at h hlen
      cases halt with
      | some halt => cases h
      | none =>
        exact (read_keeps HeaderState.m_ContentLength (fun _ _ => rfl)
          (fun st g hg => note_contentLength st g.text (hmore g hg)) st').trans hlen

/-- One header that tells that the body is in chunks suffices. -/
theorem read_chunked {st : HeaderState} {fields : List Field} (h : (st.read fields).2 = none) :
    (st.read fields).1.m_Chunked = true ↔ st.m_Chunked = true ∨
      ∃ f ∈ fields, upper f.name = str "TRANSFER-ENCODING" ∧ upper f.text = str "CHUNKED" := by
  induction fields generalizing st with
  | nil => simp [HeaderState.read]
  | cons f fields ih =>
    rw [HeaderState.read] at h ⊢
    by_cases hv : f.value = []
    · rw [if_pos hv] at h
      cases h
    · rw [if_neg hv] at h ⊢
      have hflag : (st.add f.name f.text).1.m_Chunked = true ↔ st.m_Chunked = true ∨
          (upper f.name = str "TRANSFER-ENCODING" ∧ upper f.text = str "CHUNKED") := by
        have hadd : (st.add f.name f.text).1.m_Chunked = (st.note f.name f.text).m_Chunked := by
          unfold HeaderState.add
          simp only
          split
          · rfl
          · rfl
        rw [hadd]
        by_cases hname : upper f.name = str "TRANSFER-ENCODING"
        · have hother : ¬ upper f.name = str "CONTENT-LENGTH" := by
            rw [hname]
            decide
          rw [HeaderState.note, if_neg hother, if_pos hname]
          simp [hname]
        · rw [note_chunked st f.text hname]
          simp [hname]
      cases hadd : st.add f.name f.text with
      | mk st' halt =>
        rw [hadd] at h hflag
        cases halt with
        | some halt => cases h
        | none => rw [ih h, hflag, List.exists_mem_cons_iff, or_assoc]

theorem exists_last_field {fields : List Field} {p : Field → Prop} (h : ∃ f ∈ fields, p f) :
    ∃ done f more, fields = done ++ f :: more ∧ p f ∧ ∀ g ∈ more, ¬ p g := by
  induction fields with
  | nil =>
    obtain ⟨f, hf, -⟩ := h
    cases hf
  | cons f fields ih =>
    by_cases hrest : ∃ g ∈ fields, p g
    · obtain ⟨done, g, more, rfl, hg, hmore⟩ := ih hrest
      exact ⟨f :: done, g, more, rfl, hg, hmore⟩
    · rw [List.exists_mem_cons_iff] at h
      exact ⟨[], f, fields, rfl, h.resolve_right hrest, fun g hg hp => hrest ⟨g, hg, hp⟩⟩

theorem Response.framed_iff {r : Response} (h : r.reading.2 = none) : r.Framed ↔ r.Measured := by
  have hdecl := r.declared
  unfold Response.Framed Response.Measured
  cases hb : r.body with
  | length content =>
    rw [hb] at hdecl
    constructor
    · rintro ⟨done, f, more, hf, hname, hmore, hlen⟩
      show r.reading.1.m_ContentLength = content.length
      rw [← hlen]
      unfold Response.reading at h ⊢
      rw [hf] at h ⊢
      exact read_contentLength h hname hmore
    · intro hmeasured
      have hlen : r.reading.1.m_ContentLength = content.length := hmeasured
      obtain ⟨done, f, more, hf, hname, hmore⟩ := exists_last_field hdecl.1
      refine ⟨done, f, more, hf, hname, hmore, ?_⟩
      rw [← hlen]
      unfold Response.reading at h ⊢
      rw [hf] at h ⊢
      exact (read_contentLength h hname hmore).symm
  | chunked chunks last =>
    refine Iff.symm ((read_chunked h).trans ?_)
    exact or_iff_right Bool.false_ne_true

/-- What makes a response legible. -/
theorem Response.legible_iff (r : Response) : r.Legible ↔ r.reading.2 = none ∧ r.Measured := by
  have hread := read_eq_none_iff { m_JSON := false } r.fields
  constructor
  · intro h
    have hnone : r.reading.2 = none :=
      hread.mpr ⟨h.value_ne,
        fun done f more hf _ hname hdone => h.text done f more hf hname hdone⟩
    exact ⟨hnone, (Response.framed_iff hnone).mp h.framed⟩
  · rintro ⟨hnone, hmeasured⟩
    obtain ⟨hvalues, htexts⟩ := hread.mp hnone
    exact ⟨hvalues,
      fun done f more hf hname hdone => htexts done f more hf List.not_mem_nil hname hdone,
      (Response.framed_iff hnone).mpr hmeasured⟩

/-! ### What is delivered -/

/-- A whole response is delivered exactly if its headers can be read and are read as they are
meant. -/
theorem attempt_delivers {r : Response} {m_JSON : Bool} {data : Dict}
    (h : (attempt false m_JSON r.bytes).2 = .delivers data) :
    r.reading.2 = none ∧ r.Measured := by
  have hbytes : r.bytes = r.front r.fields ++ (CR :: LF :: r.body.bytes) := by
    rw [Response.bytes, Response.head, List.append_assoc]
    rfl
  have hread : r.reading.2 = none := by
    cases hf : ({ m_JSON } : HeaderState).read r.fields with
    | mk st halt =>
      cases halt with
      | none =>
        have hnone : (({ m_JSON } : HeaderState).read r.fields).2 = none := by rw [hf]
        -- whether JSON was declared before does not matter here
        have hfalse := read_withJson { m_JSON } false r.fields hnone
        exact congrArg Prod.snd hfalse
      | some halt =>
        rw [hbytes, attempt_front_halts r _ hf] at h
        cases h
  refine ⟨hread, ?_⟩
  rw [Response.bytes, attempt_head r m_JSON hread] at h
  cases hc : r.reading.1.m_Chunked with
  | true =>
    unfold Response.Measured
    cases hb : r.body with
    | length content =>
      rw [Response.chunked_eq_false hb] at hc
      cases hc
    | chunked chunks last => exact hc
  | false =>
    rw [processBody_length m_JSON hc _ (List.cons_ne_nil _ _), past_blank] at h
    by_cases hlen : r.reading.1.m_ContentLength = r.body.bytes.length
    · unfold Response.Measured
      cases hb : r.body with
      | length content =>
        rw [hb] at hlen
        exact hlen
      | chunked chunks last =>
        have hdecl := r.declared
        rw [hb] at hdecl
        -- a body in chunks has no length, which would have to be that of the bytes
        have hnone : r.reading.1.m_ContentLength = -1 :=
          read_keeps HeaderState.m_ContentLength (fun _ _ => rfl)
            (fun st f hf => note_contentLength st f.text (hdecl.2 f hf)) _
        omega
    · rw [if_neg hlen] at h
      cases h

theorem dataEntry_inj {payload : Bytes} {v w : PyValue} :
    dataEntry payload v = dataEntry payload w ↔ payload = [] ∨ v = w := by
  unfold dataEntry
  by_cases h : payload = []
  · simp [h]
  · simp [h]

theorem responseDict_inj {m_Status m_Status' : Bytes} {m_Headers m_Headers' data data' : Dict}
    (h : responseDict m_Status m_Headers data = responseDict m_Status' m_Headers' data') :
    data = data' := by
  injection h with _ h
  injection h

/-- The body of a response that comes with its length, as JSON or as bytes. -/
theorem bodyEntry_eq_ok_iff {m_JSON : Bool} {sData : Bytes} {data : Dict} :
    bodyEntry m_JSON sData = .ok data ↔ ∃ value, data = dataEntry sData value ∧
      (sData ≠ [] → if m_JSON then ∃ t, value = .json t ∧ PythonJson.translate sData = .ok t
        else value = .bytes sData) := by
  unfold bodyEntry dataEntry
  by_cases hnil : sData = []
  · subst hnil
    exact ⟨fun h => ⟨.bytes [], (Except.ok.inj h).symm, fun h => absurd rfl h⟩, fun ⟨_, h, _⟩ => by
      rw [h]; rfl⟩
  · rw [if_neg (mt List.isEmpty_iff.mp hnil)]
    simp only [mt List.isEmpty_iff.mp hnil, ne_eq, hnil, not_false_iff, forall_const,
      Bool.false_eq_true, if_false]
    cases m_JSON with
    | true =>
      cases PythonJson.translate sData with
      | error halt => simp [Except.map]
      | ok t => simp [Except.map, eq_comm]
    | false => simp [eq_comm]

theorem map_eq_ok_iff {ε α β : Type} {f : α → β} {e : Except ε α} {b : β} :
    e.map f = .ok b ↔ ∃ a, e = .ok a ∧ f a = b := by
  cases e with
  | error e => simp [Except.map]
  | ok a => simp [Except.map]

/-- A response is queued if its status is UTF-8 and its entry for the body could be built. -/
theorem queueResponse_delivers_iff {m_Status : Bytes} {m_Headers d : Dict}
    {made : Except Halt Dict} : queueResponse m_Status m_Headers made = .delivers d ↔
      buildString m_Status ≠ none ∧
        ∃ data, made = .ok data ∧ responseDict m_Status m_Headers data = d := by
  unfold queueResponse
  by_cases hstatus : buildString m_Status = none
  · rw [if_pos hstatus]
    refine iff_of_false ?_ fun h => h.1 hstatus
    intro h
    cases h
  · rw [if_neg hstatus, Result.ofDict_eq_delivers_iff, map_eq_ok_iff]
    exact (and_iff_right hstatus).symm

/-- A response is delivered unless its content is taken for JSON and not translated. -/
theorem Response.delivered_eq_ok_iff (r : Response) (m_JSON : Bool) {data : Dict} :
    r.delivered m_JSON = .ok data ↔
      ∃ value, data = responseDict r.status r.reading.1.m_Headers (dataEntry r.body.content value) ∧
        (r.body.content ≠ [] → match r.body with
          | .length content => if m_JSON || r.declaresJson then
              ∃ t, value = .json t ∧ PythonJson.translate content = .ok t else value = .bytes content
          | .chunked _ _ => value = .bytes r.body.content) := by
  unfold Response.delivered
  cases hb : r.body with
  | length content =>
    simp only [map_eq_ok_iff, bodyEntry_eq_ok_iff, Body.content]
    constructor
    · rintro ⟨entry, ⟨value, rfl, hvalue⟩, rfl⟩
      exact ⟨value, rfl, hvalue⟩
    · rintro ⟨value, rfl, hvalue⟩
      exact ⟨_, ⟨value, rfl, hvalue⟩, rfl⟩
  | chunked chunks last =>
    simp only [map_eq_ok_iff, Except.ok.injEq, exists_eq_left']
    constructor
    · rintro rfl
      exact ⟨_, rfl, fun _ => rfl⟩
    · rintro ⟨value, rfl, hvalue⟩
      by_cases hnil : (Body.chunked chunks last).content = []
      · rw [hnil]
        rfl
      · rw [hvalue hnil]

theorem Response.exists_delivered_iff (r : Response) (m_JSON : Bool) :
    (∃ data, r.delivered m_JSON = .ok data) ↔ r.Passes m_JSON := by
  simp only [r.delivered_eq_ok_iff]
  unfold Response.Passes
  rw [← Bool.or_eq_true]
  cases hb : r.body with
  | chunked chunks last => exact iff_of_true ⟨_, .bytes _, rfl, fun _ => rfl⟩ fun _ => trivial
  | length content =>
    simp only [Body.content]
    constructor
    · rintro ⟨data, value, -, hvalue⟩ hj
      by_cases hnil : content = []
      · exact .inl hnil
      · have h := hvalue hnil
        rw [if_pos hj] at h
        obtain ⟨t, -, ht⟩ := h
        exact .inr ⟨t, ht⟩
    · intro h
      by_cases hj : (m_JSON || r.declaresJson) = true
      · rcases h hj with hnil | ⟨t, ht⟩
        · exact ⟨_, .bytes content, rfl, fun hne => absurd hnil hne⟩
        · exact ⟨_, .json t, rfl, fun _ => by rw [if_pos hj]; exact ⟨t, rfl, ht⟩⟩
      · exact ⟨_, .bytes content, rfl, fun _ => by rw [if_neg hj]⟩

/-- Whole content is delivered exactly if it is not taken for JSON because something before it was,
and can be translated if it is JSON itself. -/
theorem Response.delivered_isMessage_iff (r : Response) (m_JSON : Bool) :
    (∃ data, r.delivered m_JSON = .ok data ∧ r.IsMessage data) ↔
      r.Plain m_JSON ∧ r.Translatable := by
  -- the value for a content that is not empty
  have hvalue : (∃ data, r.delivered m_JSON = .ok data ∧ r.IsMessage data) ↔
      (r.body.content ≠ [] → ∃ value, (match r.body with
        | .length content => if m_JSON || r.declaresJson then
            ∃ t, value = .json t ∧ PythonJson.translate content = .ok t else value = .bytes content
        | .chunked _ _ => value = .bytes r.body.content) ∧ r.Gives value) := by
    simp only [r.delivered_eq_ok_iff, Response.IsMessage]
    constructor
    · rintro ⟨data, ⟨value, rfl, hvalue⟩, m_Headers, value', heq, hgives⟩ hne
      rcases dataEntry_inj.mp (responseDict_inj heq) with hnil | rfl
      · exact absurd hnil hne
      · exact ⟨value, hvalue hne, hgives hne⟩
    · intro h
      by_cases hnil : r.body.content = []
      · exact ⟨_, ⟨.bytes [], rfl, fun hne => absurd hnil hne⟩, _, .bytes [], rfl,
          fun hne => absurd hnil hne⟩
      · obtain ⟨value, hvalue, hgives⟩ := h hnil
        exact ⟨_, ⟨value, rfl, fun _ => hvalue⟩, _, value, rfl, fun _ => hgives⟩
  rw [hvalue]
  unfold Response.Plain Response.Translatable Response.Gives
  cases hb : r.body with
  | chunked chunks last =>
    exact iff_of_true (fun _ => ⟨_, rfl, rfl⟩) ⟨fun _ => .inr trivial, fun _ => trivial⟩
  | length content =>
    simp only [Body.content]
    by_cases hnil : content = []
    · exact iff_of_true (fun hne => absurd hnil hne) ⟨fun _ => .inr hnil, fun _ => .inl hnil⟩
    · rw [imp_iff_right hnil]
      simp only [hnil, false_or, or_false, ← PythonJson.exists_conveys_iff]
      cases hj : r.declaresJson with
      | true =>
        simp only [Bool.or_true, if_true, implies_true, true_and, forall_const]
        constructor
        · rintro ⟨value, ⟨t, rfl, ht⟩, t', heq, hconveys⟩
          cases heq
          exact ⟨t, ht, hconveys⟩
        · rintro ⟨t, ht, hconveys⟩
          exact ⟨.json t, ⟨t, rfl, ht⟩, t, rfl, hconveys⟩
      | false =>
        cases m_JSON with
        | true =>
          simp only [Bool.or_false, if_true, Bool.false_eq_true, if_false]
          refine iff_of_false ?_ fun h => absurd (h.1 trivial) not_false
          rintro ⟨value, ⟨t, rfl, -⟩, heq⟩
          cases heq
        | false =>
          simp only [Bool.or_false, Bool.false_eq_true, if_false, false_imp_iff, and_self, iff_true]
          exact ⟨_, rfl⟩

end Domoticz.Http
