import Domoticz.Plugin.HttpHeaders
import Domoticz.Web.SessionLife

/-!
# What a plugin sends over HTTP

`CPluginProtocolHTTP::ProcessOutbound` makes a request of a dictionary with a `Verb`, a response of
one with a `Status`, and a chunk of one with a `Chunk`.  It adds the headers that are missing: the
credentials and the user agent to a request, the date and the server to a response, and the length
to whatever has `Data`.

The length of a `str` is the number of its code points.  The credentials are written without the
blank that `ExtractHeaders` skips.

## Main definitions

* `Parameters`, `Tm` — what is read besides the dictionary.
* `processOutbound` — `CPluginProtocolHTTP::ProcessOutbound`.
* `Outgoing` — a dictionary that is a request or a response, with texts for headers.
* `Outgoing.added`, `Outgoing.body` — the headers that are added to it, and what is sent of its
  data.

## Main results

* `processOutbound_request`, `processOutbound_response` — the bytes, line by line.
-/

namespace Domoticz.Http

open CLib

/-! ### What is read besides the dictionary -/

/-- The credentials in `Parameters`, empty where there are none. -/
structure Parameters where
  Username : PyStr
  Password : PyStr

/-- What `gmtime` makes of the time. -/
structure Tm where
  tm_sec : Fin 61
  tm_min : Fin 60
  tm_hour : Fin 24
  tm_mday : Fin 32
  tm_mon : Fin 12
  tm_year : ℤ
  tm_wday : Fin 7

/-- Midnight of the first of January 1970. -/
def epoch : Tm where
  tm_sec := 0
  tm_min := 0
  tm_hour := 0
  tm_mday := 1
  tm_mon := 0
  tm_year := 70
  tm_wday := 4

/-- `%d`, `%H`, `%M` and `%S`. -/
def twoDigits (n : ℕ) : Bytes := decimal (n / 10 : ℕ) ++ decimal (n % 10 : ℕ)

/-- `%a`. -/
def dayName (wday : Fin 7) : Bytes :=
  str ((["Sun", "Mon", "Tue", "Wed", "Thu", "Fri", "Sat"] : List String).getD wday "")

/-- `%b`. -/
def monthName (mon : Fin 12) : Bytes :=
  str ((["Jan", "Feb", "Mar", "Apr", "May", "Jun", "Jul", "Aug", "Sep", "Oct", "Nov", "Dec"] :
    List String).getD mon "")

/-- `strftime` for `%a, %d %b %Y %H:%M:%S GMT`. -/
def httpDate (info : Tm) : Bytes :=
  dayName info.tm_wday ++ str ", " ++ twoDigits info.tm_mday ++ str " " ++
    monthName info.tm_mon ++ str " " ++ decimal (info.tm_year + 1900) ++ str " " ++
    twoDigits info.tm_hour ++ str ":" ++ twoDigits info.tm_min ++ str ":" ++
    twoDigits info.tm_sec ++ str " GMT"

/-- Whether the line of the date fits into `szDate`. -/
def dateFits (info : Tm) : Bool :=
  (str "Date: " ++ httpDate info ++ str "\r\n").length < 100

/-! ### The encoder -/

/-- `PyDict_GetItemString` of the headers; what is no dictionary has no items. -/
def headerItem (brHeaders : Option PyObject) (name : String) : Option PyObject :=
  match brHeaders with
  | some (.dict entries) => getItemString entries name
  | _ => none

/-- A line, and what ends it. -/
def endLine (line : Bytes) : Bytes := line ++ [CR, LF]

/-- The line of a header. -/
def headerLine (sKey sValue : Bytes) : Bytes := sKey ++ str ": " ++ sValue

/-- The text that is encoded, if there are any credentials. -/
def credentials (User Pass : Bytes) : Option Bytes :=
  if User.isEmpty ∧ Pass.isEmpty then none else some (User ++ str ":" ++ Pass)

/-- The line of the credentials, which lacks a blank. -/
def authorizationLine (auth : Bytes) : Bytes := str "Authorization:Basic " ++ base64Encode auth

/-- What is written of the credentials. -/
def authorization (parameters : Parameters) (brHeaders : Option PyObject) : Option Bytes :=
  if (headerItem brHeaders "Authorization:Basic").isSome then some []
  else
    (stdString parameters.Username).bind fun User =>
      (stdString parameters.Password).map fun Pass =>
        ((credentials User Pass).map fun auth => endLine (authorizationLine auth)).getD []

/-- A line that is added if the header is not supplied. -/
def defaultLine (brHeaders : Option PyObject) (name : String) (value : Bytes) : Bytes :=
  if (headerItem brHeaders name).isSome then [] else endLine (headerLine (str name) value)

/-- The beginning of a request. -/
def requestLines (parameters : Parameters) (brHeaders brURL : Option PyObject) (brVerb : PyStr) :
    Option Bytes :=
  (stdString brVerb).bind fun verb =>
    (stdString ((unicode? brURL).getD (pyStr "/"))).bind fun sHttpURL =>
      (authorization parameters brHeaders).map fun auth =>
        endLine (upper verb ++ str " " ++ sHttpURL ++ str " HTTP/1.1") ++ auth ++
          defaultLine brHeaders "User-Agent" (str "Domoticz/1.0")

/-- The beginning of a response. -/
def responseLines (info : Tm) (brHeaders : Option PyObject) (brStatus : PyStr) : Option Bytes :=
  (stdString brStatus).map fun status =>
    endLine (str "HTTP/1.1 " ++ status) ++
      (if dateFits info then defaultLine brHeaders "Date" (httpDate info) else []) ++
      defaultLine brHeaders "Server" (str "Domoticz/1.0")

/-- The beginning of what is sent.  It is ignored if it is `some none`. -/
def startLines (parameters : Parameters) (info : Tm) (m_Object : PyDict) : Option (Option Bytes) :=
  let brHeaders := getItemString m_Object "Headers"
  match getItemString m_Object "Verb" with
  | some (.str brVerb) =>
      (requestLines parameters brHeaders (getItemString m_Object "URL") brVerb).map some
  | some _ => some none
  | none =>
      match getItemString m_Object "Status" with
      | some (.str brStatus) => (responseLines info brHeaders brStatus).map some
      | some _ => some none
      | none => if (getItemString m_Object "Chunk").isSome then some (some []) else some none

/-- The texts of some objects, one after the other; `none` if one of them throws. -/
def concatTexts {α : Type} (text : α → Option Bytes) : List α → Option Bytes
  | [] => some []
  | x :: xs => (text x).bind fun s => (concatTexts text xs).map (s ++ ·)

/-- The line of one value of a header. -/
def valueLine (sKey : Bytes) : PyObject → Option Bytes
  | .str value => (stdString value).map fun sValue => endLine (headerLine sKey sValue)
  | .bytes pBytes => some (endLine (headerLine sKey (cstr pBytes)))
  | .bytearray pByteArray => some (endLine (headerLine sKey (cstr pByteArray)))
  | _ => some []

/-- The lines of a header. -/
def headerLines (header : PyStr × PyObject) : Option Bytes :=
  (stdString header.1).bind fun sKey =>
    match header.2 with
    | .list items => concatTexts (valueLine sKey) items
    | value => valueLine sKey value

/-- The lines of the headers that are supplied. -/
def suppliedLines : Option PyObject → Option Bytes
  | some (.dict brHeaders) => concatTexts headerLines brHeaders
  | _ => some []

/-- The length that is declared: code points of a text. -/
def dataLength : PyObject → ℕ
  | .str s => s.length
  | .bytes s => s.length
  | .bytearray s => s.length
  | _ => 0

/-- The headers and the blank line behind them. -/
def headerBlock (brHeaders brData : Option PyObject) (brChunk : Bool) : Option Bytes :=
  (suppliedLines brHeaders).map fun supplied =>
    supplied ++
      (match brData with
        | some data =>
            if brChunk then []
            else defaultLine brHeaders "Content-Length" (decimal (dataLength data))
        | none => []) ++
      (if brChunk then defaultLine brHeaders "Transfer-Encoding" (str "chunked") else []) ++
      [CR, LF]

/-- `std::hex`. -/
def hex (n : ℕ) : Bytes := (Nat.toDigits 16 n).map chr

/-- The bytes that a loop with an `int` copies. -/
def copied (s : Bytes) : Bytes := s.take (toInt32 s.length).toNat

/-- What is written of the data. -/
def dataBytes : Option PyObject → Option Bytes
  | some (.str s) => stdString s
  | some (.bytes s) => some (copied s)
  | some (.bytearray s) => some (copied s)
  | _ => some []

/-- `CPluginProtocolHTTP::ProcessOutbound`; `none` when a text has no UTF-8, of which a
`std::string` cannot be made. -/
def processOutbound (parameters : Parameters) (info : Tm) (m_Object : Option PyObject) :
    Option Bytes :=
  match m_Object with
  | some (.dict d) =>
      let brHeaders := getItemString d "Headers"
      let brData := getItemString d "Data"
      let brChunk := (getItemString d "Chunk").isSome
      (startLines parameters info d).bind fun
        | none => some []
        | some start =>
            (if (getItemString d "Verb").isSome ∨ (getItemString d "Status").isSome then
              headerBlock brHeaders brData brChunk else some []).bind fun block =>
              (dataBytes brData).map fun data =>
                start ++ block ++
                  (if brChunk then endLine (hex ((brData.map dataLength).getD 0)) else []) ++
                  data ++ (if brChunk then [CR, LF] else [])
  | _ => some []

/-! ### Requests and responses -/

/-- What a dictionary begins with. -/
inductive Start
  | request (verb : PyStr) (url : Option PyStr)
  | response (status : PyStr)

/-- A dictionary has the entries of a request, whose verb is upper-case and whose URL is free of
blanks and control characters, or those of a response. -/
def Start.Holds (d : PyDict) : Start → Prop
  | .request verb url =>
      getItemString d "Verb" = some (.str verb) ∧ getItemString d "URL" = url.map .str ∧
        (∀ b, asUTF8 verb = some b → upper b = b) ∧
        ∀ u ∈ url, ∀ b, asUTF8 u = some b → ∀ c ∈ b, 32 < c ∧ c ≠ 127
  | .response status =>
      getItemString d "Verb" = none ∧ getItemString d "Status" = some (.str status)

/-- A dictionary with a verb or a status, with texts for headers and any data. -/
structure Outgoing where
  entries : PyDict
  start : Start
  headers : List (PyStr × PyStr)
  data : Option Payload
  start_ok : start.Holds entries
  headers_ok : getItemString entries "Headers" =
      some (.dict (headers.map fun h => (h.1, .str h.2))) ∨
    getItemString entries "Headers" = none ∧ headers = []
  keys_nodup : (headers.map Prod.fst).Nodup
  data_ok : getItemString entries "Data" = data.map Payload.object
  chunk_ok : getItemString entries "Chunk" = none

namespace Outgoing

variable (m : Outgoing)

/-- Whether a header is supplied. -/
def supplies (name : String) : Bool := (m.headers.lookup (pyStr name)).isSome

/-- The headers that are supplied, in bytes. -/
def texts : List (Bytes × Bytes) :=
  m.headers.filterMap fun h =>
    (asUTF8 h.1).bind fun name => (asUTF8 h.2).map fun text => (name, text)

/-- A header that is added unless it is supplied. -/
def default (name : String) (value : Bytes) : List (Bytes × Bytes) :=
  if m.supplies name then [] else [(str name, value)]

/-- The credentials that are added. -/
def addedAuthorization (parameters : Parameters) : Option Bytes :=
  if m.supplies "Authorization:Basic" then none
  else (stdString parameters.Username).bind fun User =>
    (stdString parameters.Password).bind fun Pass => credentials User Pass

/-- The other headers that are added in front of those that are supplied. -/
def addedFront (info : Tm) : List (Bytes × Bytes) :=
  match m.start with
  | .request _ _ => m.default "User-Agent" (str "Domoticz/1.0")
  | .response _ =>
      (if dateFits info then m.default "Date" (httpDate info) else []) ++
        m.default "Server" (str "Domoticz/1.0")

/-- The length that is added behind them. -/
def addedLength : List (Bytes × Bytes) :=
  match m.data with
  | some data => m.default "Content-Length" (decimal (dataLength data.object))
  | none => []

/-- All headers that are added, as they are meant. -/
def added (parameters : Parameters) (info : Tm) : List (Bytes × Bytes) :=
  (match m.start with
    | .request _ _ => (m.addedAuthorization parameters).toList.map fun auth =>
        (str "Authorization", str "Basic " ++ base64Encode auth)
    | .response _ => []) ++ m.addedFront info ++ m.addedLength

/-- The bytes of the data; none at all where there is no data. -/
def content : Option Bytes :=
  match m.data with
  | none => some []
  | some data => data.content

/-- What is sent of the data. -/
def body : Option Bytes := dataBytes (m.data.map Payload.object)

/-- The headers that are sent, without the credentials. -/
def sent (info : Tm) : List (Bytes × Bytes) := m.addedFront info ++ m.texts ++ m.addedLength

end Outgoing

/-- A header whose name and text are taken apart where they were put together. -/
def Clean (h : PyStr × PyStr) : Prop :=
  ∃ name text, asUTF8 h.1 = some name ∧ asUTF8 h.2 = some text ∧
    (0 ∉ name ∧ CR ∉ name ∧ chr ':' ∉ name) ∧ 0 ∉ text ∧ CR ∉ text

/-! ### The bytes -/

/-- The lines of some headers. -/
def block (es : List (Bytes × Bytes)) : Bytes := es.flatMap fun e => endLine (headerLine e.1 e.2)

theorem block_append (es es' : List (Bytes × Bytes)) : block (es ++ es') = block es ++ block es' :=
  List.flatMap_append

theorem concatTexts_headerLines {headers : List (PyStr × PyStr)}
    (h : ∀ e ∈ headers, Clean e) :
    concatTexts headerLines (headers.map fun e => (e.1, .str e.2)) =
      some (block (headers.filterMap fun e =>
        (asUTF8 e.1).bind fun name => (asUTF8 e.2).map fun text => (name, text))) := by
  induction headers with
  | nil => rfl
  | cons e headers ih =>
    obtain ⟨⟨name, text, hname, htext, ⟨hzname, -⟩, hztext, -⟩, hrest⟩ := List.forall_mem_cons.mp h
    have hline : headerLines (e.1, .str e.2) = some (endLine (headerLine name text)) := by
      rw [headerLines, stdString_of_notMem hname hzname]
      simp only [Option.bind_some, valueLine, stdString_of_notMem htext hztext, Option.map_some]
    rw [List.map_cons, concatTexts, hline, ih hrest, List.filterMap_cons, hname, htext]
    rfl

namespace Outgoing

variable {m : Outgoing}

theorem headerItem_eq (name : String) :
    (headerItem (getItemString m.entries "Headers") name).isSome = m.supplies name := by
  rcases m.headers_ok with h | ⟨h, hnil⟩
  · rw [h, headerItem, getItemString, lookup_map_snd PyObject.str, Option.isSome_map]
    rfl
  · rw [h, supplies, hnil]
    rfl

theorem defaultLine_eq (name : String) (value : Bytes) :
    defaultLine (getItemString m.entries "Headers") name value = block (m.default name value) := by
  rw [defaultLine, headerItem_eq, default]
  split
  · rfl
  · exact (List.append_nil _).symm

theorem suppliedLines_eq (h : ∀ e ∈ m.headers, Clean e) :
    suppliedLines (getItemString m.entries "Headers") = some (block m.texts) := by
  rcases m.headers_ok with hdict | ⟨hnone, hnil⟩
  · rw [hdict]
    exact concatTexts_headerLines h
  · rw [hnone, texts, hnil]
    rfl

theorem headerBlock_eq (h : ∀ e ∈ m.headers, Clean e) :
    headerBlock (getItemString m.entries "Headers") (m.data.map Payload.object) false =
      some (block (m.texts ++ m.addedLength) ++ [CR, LF]) := by
  unfold headerBlock addedLength
  rw [suppliedLines_eq h, block_append]
  cases m.data with
  | none => simp [block]
  | some data => simp [defaultLine_eq]

/-- The credentials that are written. -/
def writtenAuthorization (m : Outgoing) (parameters : Parameters) : Bytes :=
  ((m.addedAuthorization parameters).map fun auth => endLine (authorizationLine auth)).getD []

/-- What is sent for a request. -/
theorem processOutbound_request {parameters : Parameters} (info : Tm) {verb : PyStr}
    {url : Option PyStr} {v u : Bytes} (hstart : m.start = .request verb url)
    (hv : stdString verb = some v) (hu : stdString (url.getD (pyStr "/")) = some u)
    (h : ∀ e ∈ m.headers, Clean e) :
    processOutbound parameters info (some (.dict m.entries)) =
      (authorization parameters (getItemString m.entries "Headers")).bind fun auth =>
        m.body.map fun body =>
          endLine (upper v ++ str " " ++ u ++ str " HTTP/1.1") ++ auth ++
            block (m.sent info) ++ [CR, LF] ++ body := by
  have hok := m.start_ok
  rw [hstart] at hok
  obtain ⟨hverb, hurl, -⟩ := hok
  have hunicode : unicode? (url.map PyObject.str) = url := by
    cases url with
    | none => rfl
    | some url => rfl
  have hstartLines : startLines parameters info m.entries =
      (authorization parameters (getItemString m.entries "Headers")).map fun auth =>
        some (endLine (upper v ++ str " " ++ u ++ str " HTTP/1.1") ++ auth ++
          block (m.addedFront info)) := by
    rw [startLines, hverb, hurl]
    simp only [requestLines, hv, Option.bind_some, hunicode, hu, defaultLine_eq, addedFront, hstart,
      Option.map_map]
    rfl
  have hchunk := m.chunk_ok
  simp only [processOutbound, hstartLines, hverb, Option.isSome_some, true_or, if_true, hchunk,
    Option.isSome_none, m.data_ok, headerBlock_eq h, Option.bind_some, Bool.false_eq_true, if_false,
    Option.bind_map, sent, block_append]
  cases authorization parameters (getItemString m.entries "Headers") with
  | none => rfl
  | some auth =>
    simp only [Option.bind_some, Function.comp_apply, body]
    cases dataBytes (m.data.map Payload.object) with
    | none => rfl
    | some body => simp [List.append_assoc]

/-- What is sent for a response. -/
theorem processOutbound_response (parameters : Parameters) (info : Tm) {status : PyStr} {s : Bytes}
    (hstart : m.start = .response status) (hs : stdString status = some s)
    (h : ∀ e ∈ m.headers, Clean e) :
    processOutbound parameters info (some (.dict m.entries)) =
      m.body.map fun body => endLine (str "HTTP/1.1 " ++ s) ++ block (m.sent info) ++ [CR, LF] ++
        body := by
  have hok := m.start_ok
  rw [hstart] at hok
  obtain ⟨hverb, hstatus⟩ := hok
  have hstartLines : startLines parameters info m.entries =
      some (some (endLine (str "HTTP/1.1 " ++ s) ++ block (m.addedFront info))) := by
    rw [startLines, hverb, hstatus]
    simp only [responseLines, hs, Option.map_some, defaultLine_eq, addedFront, hstart, block_append]
    split
    · simp [List.append_assoc]
    · simp [block]
  have hchunk := m.chunk_ok
  simp only [processOutbound, hstartLines, hstatus, Option.isSome_some, or_true, if_true, hchunk,
    Option.isSome_none, m.data_ok, headerBlock_eq h, Option.bind_some, Bool.false_eq_true, if_false,
    sent, block_append, body]
  cases dataBytes (m.data.map Payload.object) with
  | none => rfl
  | some body => simp [List.append_assoc]

theorem authorization_eq {parameters : Parameters} {auth : Bytes}
    (h : authorization parameters (getItemString m.entries "Headers") = some auth) :
    auth = m.writtenAuthorization parameters := by
  rw [authorization, headerItem_eq] at h
  unfold writtenAuthorization addedAuthorization
  split at h
  · next hsupplied =>
    rw [if_pos hsupplied]
    cases h
    rfl
  · next hsupplied =>
    rw [if_neg hsupplied]
    obtain ⟨User, hUser, hbind⟩ := Option.bind_eq_some_iff.mp h
    obtain ⟨Pass, hPass, rfl⟩ := Option.map_eq_some_iff.mp hbind
    rw [hUser, hPass]
    rfl

end Outgoing

/-! ### What is sent can be taken apart -/

/-- A header whose name and text are found as they were written. -/
structure Sendable (e : Bytes × Bytes) : Prop where
  name : 0 ∉ e.1 ∧ CR ∉ e.1 ∧ chr ':' ∉ e.1
  text : 0 ∉ e.2 ∧ CR ∉ e.2
  utf8 : (ByteArray.mk e.1.toArray).validateUTF8 = true ∧
    (ByteArray.mk e.2.toArray).validateUTF8 = true

/-- A text of visible characters and blanks. -/
def Printable (s : Bytes) : Prop := ∀ b ∈ s, 32 ≤ b ∧ b < 127

instance Printable.decidable (s : Bytes) : Decidable (Printable s) :=
  List.decidableBAll (fun b => 32 ≤ b ∧ b < 127) s

theorem printable_append {s t : Bytes} : Printable (s ++ t) ↔ Printable s ∧ Printable t :=
  List.forall_mem_append

theorem Printable.notMem {s : Bytes} (h : Printable s) {b : UInt8} (hb : b < 32) : b ∉ s :=
  fun hmem => absurd hb (UInt8.not_lt.mpr (h b hmem).1)

theorem Printable.validateUTF8 {s : Bytes} (h : Printable s) :
    (ByteArray.mk s.toArray).validateUTF8 = true :=
  validateUTF8_of_ascii fun b hb => UInt8.lt_trans (h b hb).2 (by decide)

theorem printable_decimal (z : ℤ) : Printable (decimal z) := by
  intro b hb
  by_contra hnot
  refine notMem_decimal z ?_ ?_ hb
  · rw [← Bool.not_eq_true, isDigit_ten_iff]
    rintro ⟨hlow, hhigh⟩
    exact hnot ⟨UInt8.le_trans (by decide) hlow, UInt8.lt_of_le_of_lt hhigh (by decide)⟩
  · rintro rfl
    exact hnot (by decide)

theorem printable_httpDate (info : Tm) : Printable (httpDate info) := by
  have hday : ∀ wday, Printable (dayName wday) := by decide
  have hmonth : ∀ mon, Printable (monthName mon) := by decide
  simp only [httpDate, twoDigits, printable_append, printable_decimal, hday, hmonth, and_true,
    true_and]
  decide

theorem sendable_of_printable {e : Bytes × Bytes} (hname : Printable e.1) (hcolon : chr ':' ∉ e.1)
    (htext : Printable e.2) : Sendable e where
  name := ⟨hname.notMem (by decide), hname.notMem (by decide), hcolon⟩
  text := ⟨htext.notMem (by decide), htext.notMem (by decide)⟩
  utf8 := ⟨hname.validateUTF8, htext.validateUTF8⟩

theorem Clean.sendable {h : PyStr × PyStr} (hclean : Clean h) :
    ∃ e, asUTF8 h.1 = some e.1 ∧ asUTF8 h.2 = some e.2 ∧ Sendable e := by
  obtain ⟨name, text, hname, htext, hnames, htexts⟩ := hclean
  exact ⟨(name, text), hname, htext, hnames, htexts, validateUTF8_of_asUTF8 hname,
    validateUTF8_of_asUTF8 htext⟩

namespace Outgoing

variable {m : Outgoing}

theorem mem_texts {e : Bytes × Bytes} :
    e ∈ m.texts ↔ ∃ h ∈ m.headers, asUTF8 h.1 = some e.1 ∧ asUTF8 h.2 = some e.2 := by
  rw [texts, List.mem_filterMap]
  refine exists_congr fun h => and_congr_right fun _ => ?_
  obtain ⟨name, text⟩ := e
  cases asUTF8 h.1 with
  | none => simp
  | some name' =>
    cases asUTF8 h.2 with
    | none => simp
    | some text' => simp

theorem mem_default {name : String} {value : Bytes} {e : Bytes × Bytes}
    (h : e ∈ m.default name value) : e = (str name, value) ∧ m.supplies name = false := by
  unfold default at h
  split at h
  · cases h
  · next hsupplies => exact ⟨List.mem_singleton.mp h, Bool.eq_false_iff.mpr hsupplies⟩

theorem sublist_default (name : String) (value : Bytes) :
    ((m.default name value).map Prod.fst).Sublist [str name] := by
  unfold default
  split
  · exact List.nil_sublist _
  · exact List.Sublist.refl _

/-- What is added in front and behind is one of a few headers, and not supplied. -/
theorem mem_addedFront {info : Tm} {e : Bytes × Bytes} (h : e ∈ m.addedFront info) :
    ∃ name ∈ (["User-Agent", "Date", "Server"] : List String), e.1 = str name ∧ Printable e.2 ∧
      m.supplies name = false := by
  unfold addedFront at h
  split at h
  · obtain ⟨rfl, hsupplies⟩ := mem_default h
    exact ⟨"User-Agent", by decide, rfl, by decide, hsupplies⟩
  · rcases List.mem_append.mp h with h | h
    · split at h
      · obtain ⟨rfl, hsupplies⟩ := mem_default h
        exact ⟨"Date", by decide, rfl, printable_httpDate info, hsupplies⟩
      · cases h
    · obtain ⟨rfl, hsupplies⟩ := mem_default h
      exact ⟨"Server", by decide, rfl, by decide, hsupplies⟩

theorem mem_addedLength {e : Bytes × Bytes} (h : e ∈ m.addedLength) :
    e.1 = str "Content-Length" ∧ Printable e.2 ∧ m.supplies "Content-Length" = false := by
  unfold addedLength at h
  split at h
  · next data hdata =>
    obtain ⟨rfl, hsupplies⟩ := mem_default h
    exact ⟨rfl, printable_decimal (dataLength data.object), hsupplies⟩
  · cases h

theorem sendable_sent {info : Tm} (hclean : ∀ h ∈ m.headers, Clean h) :
    ∀ e ∈ m.sent info, Sendable e := by
  intro e he
  rcases List.mem_append.mp he with he | he
  · rcases List.mem_append.mp he with he | he
    · obtain ⟨name, hmem, hname, htext, -⟩ := mem_addedFront he
      have hall : ∀ name ∈ (["User-Agent", "Date", "Server"] : List String),
          Printable (str name) ∧ chr ':' ∉ str name := by decide
      obtain ⟨hprintable, hcolon⟩ := hall name hmem
      rw [← hname] at hprintable hcolon
      exact sendable_of_printable hprintable hcolon htext
    · obtain ⟨h, hh, hname, htext⟩ := mem_texts.mp he
      obtain ⟨e', hname', htext', hsendable⟩ := (hclean h hh).sendable
      have heq : e' = e := Prod.ext (Option.some.inj (hname'.symm.trans hname))
        (Option.some.inj (htext'.symm.trans htext))
      rwa [← heq]
  · obtain ⟨hname, htext, -⟩ := mem_addedLength he
    refine sendable_of_printable ?_ ?_ htext
    · rw [hname]
      decide
    · rw [hname]
      decide

/-- What is not supplied is none of the texts. -/
theorem notMem_texts {name : String} (hname : asUTF8 (pyStr name) = some (str name))
    (h : m.supplies name = false) : str name ∉ m.texts.map Prod.fst := by
  intro hmem
  obtain ⟨e, he, heq⟩ := List.mem_map.mp hmem
  obtain ⟨⟨key, value⟩, hh, hkey, -⟩ := mem_texts.mp he
  rw [heq] at hkey
  obtain rfl : key = pyStr name := asUTF8_injective hkey hname
  rw [supplies, lookup_of_mem m.keys_nodup hh] at h
  cases h

theorem nodup_texts : (m.texts.map Prod.fst).Nodup := by
  rw [List.Nodup, List.pairwise_map]
  have hkeys := m.keys_nodup
  rw [List.Nodup, List.pairwise_map] at hkeys
  refine hkeys.filterMap _ fun h h' hne e he e' he' heq => hne ?_
  obtain ⟨name, hname, hsome⟩ := Option.bind_eq_some_iff.mp he
  obtain ⟨name', hname', hsome'⟩ := Option.bind_eq_some_iff.mp he'
  obtain ⟨text, -, rfl⟩ := Option.map_eq_some_iff.mp hsome
  obtain ⟨text', -, rfl⟩ := Option.map_eq_some_iff.mp hsome'
  obtain rfl : name = name' := heq
  exact asUTF8_injective hname hname'

theorem nodup_addedFront (info : Tm) : ((m.addedFront info).map Prod.fst).Nodup := by
  unfold addedFront
  split
  · exact (sublist_default _ _).nodup (List.nodup_singleton _)
  · have hdate : ((if dateFits info then m.default "Date" (httpDate info) else []).map
        Prod.fst).Sublist [str "Date"] := by
      split
      · exact sublist_default _ _
      · exact List.nil_sublist _
    rw [List.map_append]
    exact (hdate.append (sublist_default "Server" _)).nodup (by decide)

theorem nodup_addedLength : (m.addedLength.map Prod.fst).Nodup := by
  unfold addedLength
  split
  · exact (sublist_default _ _).nodup (List.nodup_singleton _)
  · exact List.nodup_nil

/-- No header is sent twice. -/
theorem nodup_sent (info : Tm) : ((m.sent info).map Prod.fst).Nodup := by
  have hfixed : ∀ name ∈ (["User-Agent", "Date", "Server"] : List String),
      asUTF8 (pyStr name) = some (str name) ∧ str name ≠ str "Content-Length" := by decide
  have hlength : asUTF8 (pyStr "Content-Length") = some (str "Content-Length") := by decide
  rw [sent, List.map_append, List.map_append, List.nodup_append, List.nodup_append]
  refine ⟨⟨nodup_addedFront info, nodup_texts, ?_⟩, nodup_addedLength, ?_⟩
  · intro a ha b hb heq
    obtain ⟨e, he, rfl⟩ := List.mem_map.mp ha
    obtain ⟨name, hmem, hname, -, hsupplies⟩ := mem_addedFront he
    rw [← heq, hname] at hb
    exact notMem_texts (hfixed name hmem).1 hsupplies hb
  · intro a ha b hb heq
    obtain ⟨e, he, rfl⟩ := List.mem_map.mp hb
    obtain ⟨hname, -, hsupplies⟩ := mem_addedLength he
    rw [heq, hname] at ha
    rcases List.mem_append.mp ha with ha | ha
    · obtain ⟨e', he', heq'⟩ := List.mem_map.mp ha
      obtain ⟨name, hmem, hname', -⟩ := mem_addedFront he'
      exact (hfixed name hmem).2 (hname'.symm.trans heq')
    · exact notMem_texts hlength hsupplies ha

end Outgoing

/-! ### What is sent of the data -/

/-- All of the data is sent: a text without NUL, or less than two gigabytes. -/
def Entire : Payload → Prop
  | .str s => ∃ b, asUTF8 s = some b ∧ 0 ∉ b
  | .bytes s => s.length < 2 ^ 31
  | .bytearray s => s.length < 2 ^ 31

theorem copied_eq_self_iff (s : Bytes) : copied s = s ↔ s.length < 2 ^ 31 := by
  have hbound := (toInt32_bounds s.length).2
  rw [copied, List.take_eq_self_iff]
  constructor
  · intro h
    omega
  · intro h
    rw [(toInt32_nat_eq_self_iff _).mpr h]
    omega

/-- What is sent of the data is not more than the data, and is the data if it is all of it. -/
theorem Outgoing.body_spec {m : Outgoing} {body content : Bytes} (hbody : m.body = some body)
    (hcontent : m.content = some content) :
    body.length ≤ content.length ∧ (body = content ↔ ∀ data ∈ m.data, Entire data) := by
  unfold Outgoing.body at hbody
  unfold Outgoing.content at hcontent
  have hcopied (s : Bytes) : (copied s).length ≤ s.length := by
    rw [copied, List.length_take]
    exact Nat.min_le_right _ _
  cases hdata : m.data with
  | none =>
    rw [hdata] at hbody hcontent
    cases hbody
    cases hcontent
    exact ⟨Nat.le_refl _, iff_of_true rfl (by nofun)⟩
  | some data =>
    rw [hdata] at hbody hcontent
    simp only [Option.mem_some_iff, forall_eq']
    cases data with
    | str s =>
      have hutf8 : asUTF8 s = some content := hcontent
      have hcstr : stdString s = some body := hbody
      rw [stdString, hutf8, Option.map_some, Option.some.injEq] at hcstr
      rw [← hcstr, cstr_eq_self_iff, Entire, hutf8]
      exact ⟨length_cstr_le content, by simp⟩
    | bytes s =>
      have hbody' : copied s = body := Option.some.inj hbody
      have hself : s = content := Option.some.inj hcontent
      rw [← hbody', ← hself, copied_eq_self_iff, Entire]
      exact ⟨hcopied s, Iff.rfl⟩
    | bytearray s =>
      have hbody' : copied s = body := Option.some.inj hbody
      have hself : s = content := Option.some.inj hcontent
      rw [← hbody', ← hself, copied_eq_self_iff, Entire]
      exact ⟨hcopied s, Iff.rfl⟩

/-- Data that is sent entirely has bytes. -/
theorem Outgoing.exists_body {m : Outgoing} (h : ∀ data ∈ m.data, Entire data) :
    ∃ content, m.content = some content ∧ m.body = some content := by
  have hboth : ∃ body content, m.body = some body ∧ m.content = some content := by
    unfold Outgoing.body Outgoing.content
    cases hdata : m.data with
    | none => exact ⟨[], [], rfl, rfl⟩
    | some data =>
      rw [hdata] at h
      cases data with
      | str s =>
        obtain ⟨b, hb, -⟩ := h _ rfl
        exact ⟨cstr b, b, congrArg (Option.map cstr) hb, hb⟩
      | bytes s => exact ⟨_, s, rfl, rfl⟩
      | bytearray s => exact ⟨_, s, rfl, rfl⟩
  obtain ⟨body, content, hbody, hcontent⟩ := hboth
  rw [(Outgoing.body_spec hbody hcontent).2.mpr h] at hbody
  exact ⟨content, hcontent, hbody⟩

end Domoticz.Http
