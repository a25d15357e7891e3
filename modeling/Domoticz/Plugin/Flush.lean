import Domoticz.JsonReader
import Domoticz.Plugin.HttpExtraction
import Domoticz.Plugin.Reconnect
import Domoticz.Plugin.WebSocketDecoding

/-!
# What is left when a connection ends

`ConnectionDisconnect` and `DisconnectEvent` call `Flush` on the protocol object, so that the
plugin is given what is left in its buffer.  Most protocols queue the buffer as it is.  `Flush` of
HTTP, which WebSocket inherits, is a read of no bytes: it queues what the parser finds complete,
and clears the rest.

## Main definitions

* `Http.Brings`, `WebSocket.Brings`, `Brings` — a message with all of the payload in a buffer.
* `Flushes` — all that was left in a buffer has been delivered when the connection ends.
* `Http.Flushable`, `WebSocket.Flushable`, `Protocol.Flushable` — the buffers for which it is so.

## Main results

* `chunkLoop_eq_iff` — the chunks up to the last one.
* `flushes_iff` — **all that is left is delivered exactly if it can be flushed.**
* `chunk_lost` — the beginning of a body in chunks.
-/

namespace Domoticz

open CLib

/-! ### HTTP -/

namespace Http

/-- The data of the chunks of a body, as far as it has arrived. -/
def chunkData (sData : Bytes) : Bytes :=
  if _ : LF ∈ chunkStart sData ∧ 0 < chunkSize (chunkStart sData) then
    let rest := past LF (chunkStart sData)
    let n := (chunkSize (chunkStart sData)).toNat
    if rest.length ≤ n then rest else rest.take n ++ chunkData (rest.drop n)
  else []
termination_by sData.length
decreasing_by
  have hlt : (past LF (chunkStart sData)).length < (chunkStart sData).length :=
    length_past_lt (And.left ‹_›)
  have hle : (chunkStart sData).length ≤ sData.length := by
    unfold chunkStart
    split
    · exact length_past_le _ _
    · exact le_refl _
  simp only [List.length_drop]
  omega

/-- The last chunk has arrived, and every chunk in front of it with the line of its size. -/
inductive Finished : Bytes → Prop
  | last {sData : Bytes} : sData ≠ [] → sData ≠ [CR, LF] → chunkSize (chunkStart sData) = 0 →
      Finished sData
  | more {sData : Bytes} : LF ∈ chunkStart sData → 0 < chunkSize (chunkStart sData) →
      (chunkSize (chunkStart sData)).toNat < (past LF (chunkStart sData)).length →
      Finished ((past LF (chunkStart sData)).drop (chunkSize (chunkStart sData)).toNat) →
      Finished sData

/-- The bytes of the body that have arrived. -/
def bodyData (b : Bytes) : Bytes :=
  if declaredChunked (bufferHeaders b) then chunkData (taken b)
  else if LF ∈ remainder (past LF b) then taken b else []

/-- What `m_Status` is taken to be. -/
def statusOf (b : Bytes) : Bytes := upTo (chr ' ') (past (chr ' ') (upTo CR b))

/-- The first line of a request, without the protocol. -/
def requestWords (b : Bytes) : Bytes := upToLast (chr ' ') (upTo CR b)

/-- `sURL`. -/
def requestURL? (b : Bytes) : Option Bytes := urlOf? (requestWords b)

/-- A body as it may be given: as bytes, or as what it is in JSON. -/
def Given (body : Bytes) (value : PyValue) : Prop :=
  value = .bytes body ∨ ∃ t, value = .json t ∧ PythonJson.Conveys body t

/-- A message has the headers and the body in a buffer, and the status of a response, the verb and
the URL of a request. -/
def Brings (m_JSON : Bool) (b : Bytes) (d : Dict) : Prop :=
  ∃ st, ({ m_JSON } : HeaderState).addAll (bufferHeaders b) = (st, none) ∧
    if b.take 4 = str "HTTP" then
      ∃ value, d = responseDict (statusOf b) st.m_Headers (dataEntry (bodyData b) value) ∧
        Given (bodyData b) value
    else
      ∃ sURL, requestURL? b = some sURL ∧
        d = [(str "Verb", .text (cstr (upTo (chr ' ') (requestWords b)))),
          (str "URL", .text (cstr sURL)), (str "Headers", .dict st.m_Headers)] ++
          dataEntry ((remainder (past LF b)).drop 2) (.bytes ((remainder (past LF b)).drop 2))

/-- A response of which enough is there: a status, the empty line behind the headers, the last of
the chunks if there are any, and if the body is JSON all of it, with nothing that the translation
loses. -/
structure ResponseArrived (m_JSON : Bool) (b : Bytes) : Prop where
  status : statusOf b ≠ []
  text : buildString (statusOf b) ≠ none
  blank : remainder (past LF b) ≠ []
  chunks : declaredChunked (bufferHeaders b) = true → Finished (taken b)
  plain : declaredChunked (bufferHeaders b) = false → LF ∈ remainder (past LF b) ∧
    ((m_JSON || declaresJson (bufferHeaders b)) = true → taken b ≠ [] →
      PythonJson.Conveyed (taken b))

/-- A request of which enough is there: two spaces in its first line, and the empty line. -/
structure RequestArrived (b : Bytes) : Prop where
  spaces : chr ' ' ∈ requestWords b
  verb : buildString (upTo (chr ' ') (requestWords b)) ≠ none
  url : ∀ sURL, requestURL? b = some sURL → buildString sURL ≠ none
  blank : (remainder (past LF b)).take 2 = [CR, LF]

/-- The headers can be read, and enough of the message is there. -/
structure Flushable (m_JSON : Bool) (b : Bytes) : Prop where
  whole : Whole (past LF b)
  text : ∀ done e more, bufferHeaders b = done ++ e :: more → buildString e.1 ≠ none →
    (∀ g ∈ done, cstr g.1 ≠ cstr e.1) → buildString e.2 ≠ none
  response : b.take 4 = str "HTTP" → ResponseArrived m_JSON b
  request : b.take 4 ≠ str "HTTP" → RequestArrived b

theorem length_chunkStart_le (sData : Bytes) : (chunkStart sData).length ≤ sData.length := by
  unfold chunkStart
  split
  · exact length_past_le _ _
  · exact le_refl _

/-- The payload grows by each chunk. -/
theorem prefix_of_chunkLoop {acc sData payload : Bytes} (h : chunkLoop acc sData = some payload) :
    acc <+: payload := by
  fun_induction chunkLoop acc sData with
  | case1 => cases h
  | case2 =>
    cases h
    exact List.prefix_rfl
  | case3 => cases h
  | case4 acc sData _ n rest _ _ ih => exact (List.prefix_append _ _).trans (ih h)

theorem chunkData_of_le {sData : Bytes} (h : chunkSize (chunkStart sData) ≤ 0) :
    chunkData sData = [] := by
  rw [chunkData, dif_neg]
  exact fun hpos => absurd hpos.2 (not_lt.mpr h)

/-- The loop finds the last chunk, and the data in front of it. -/
theorem chunkLoop_eq_iff (acc sData : Bytes) :
    chunkLoop acc sData = some (acc ++ chunkData sData) ↔ Finished sData := by
  induction hn : sData.length using Nat.strong_induction_on generalizing acc sData with
  | _ n ih =>
    rw [chunkLoop]
    by_cases hstop : sData.isEmpty ∨ sData = [CR, LF]
    · rw [if_pos hstop]
      refine iff_of_false (fun h => by cases h) fun h => ?_
      -- nothing is left to begin a chunk with
      have hstart : chunkStart sData = [] := by
        rcases hstop with hempty | rfl
        · rw [List.isEmpty_iff.mp hempty]
          rfl
        · rfl
      cases h with
      | last hne hblank => exact hstop.elim (fun h => hne (List.isEmpty_iff.mp h)) hblank
      | more hlf =>
        rw [hstart] at hlf
        cases hlf
    · rw [if_neg hstop]
      have hne : sData ≠ [] := fun h => hstop (.inl (List.isEmpty_iff.mpr h))
      have hblank : sData ≠ [CR, LF] := fun h => hstop (.inr h)
      simp only
      by_cases hzero : chunkSize (chunkStart sData) = 0
      · rw [if_pos hzero, chunkData_of_le hzero.le, List.append_nil]
        exact iff_of_true rfl (.last hne hblank hzero)
      rw [if_neg hzero]
      by_cases hpart : chunkSize (chunkStart sData) < 0 ∨
          (past LF (chunkStart sData)).length ≤ (chunkSize (chunkStart sData)).toNat
      · rw [if_pos hpart]
        refine iff_of_false (fun h => by cases h) fun h => ?_
        cases h with
        | last _ _ h => exact hzero h
        | more _ hpos hlt => omega
      rw [if_neg hpart]
      obtain ⟨hpos, hlt⟩ := not_or.mp hpart
      -- the rest behind the data is shorter
      have hdrop : ((past LF (chunkStart sData)).drop
          (chunkSize (chunkStart sData)).toNat).length < n := by
        have hpast := length_past_le LF (chunkStart sData)
        have hstart := length_chunkStart_le sData
        rw [List.length_drop]
        omega
      by_cases hlf : LF ∈ chunkStart sData
      · have hdata : chunkData sData = (past LF (chunkStart sData)).take
            (chunkSize (chunkStart sData)).toNat ++ chunkData ((past LF (chunkStart sData)).drop
              (chunkSize (chunkStart sData)).toNat) := by
          rw [chunkData, dif_pos ⟨hlf, by omega⟩]
          exact if_neg hlt
        rw [hdata, ← List.append_assoc, ih _ hdrop _ _ rfl]
        refine ⟨fun h => .more hlf (by omega) (by omega) h, fun h => ?_⟩
        cases h with
        | last _ _ h => exact absurd h hzero
        | more _ _ _ h => exact h
      · -- a size without its line feed is counted as data as well
        rw [chunkData, dif_neg (fun h => hlf h.1), List.append_nil]
        refine iff_of_false (fun h => ?_) fun h => ?_
        · have hle := (prefix_of_chunkLoop h).length_le
          rw [List.length_append, List.length_take] at hle
          omega
        · cases h with
          | last _ _ h => exact hzero h
          | more h => exact hlf h

/-! ### A read of no bytes -/

section Arrived

variable {m_JSON : Bool} {b : Bytes} {st : HeaderState}

/-- What is carried of a response, by its entry for the body. -/
theorem brings_response_iff (hb : b.take 4 = str "HTTP")
    (hadd : ({ m_JSON } : HeaderState).addAll (bufferHeaders b) = (st, none)) {data : Dict} :
    Brings m_JSON b (responseDict (statusOf b) st.m_Headers data) ↔
      ∃ value, data = dataEntry (bodyData b) value ∧ Given (bodyData b) value := by
  simp only [Brings, hadd, Prod.mk.injEq, and_true, exists_eq_left', if_pos hb, responseDict,
    List.append_cancel_left_eq]

theorem dataEntry_of_ne_nil {payload : Bytes} {value : PyValue} (h : payload ≠ []) :
    dataEntry payload value = [(str "Data", value)] :=
  if_neg (mt List.isEmpty_iff.mp h)

/-- Nothing but the bytes may be given as bytes. -/
theorem bytes_given_iff {body payload : Bytes} :
    (∃ value, dataEntry payload (.bytes payload) = dataEntry body value ∧
      Given body value) ↔ payload = body := by
  constructor
  · rintro ⟨value, heq, hvalue⟩
    by_cases hpayload : payload = []
    · by_cases hbody : body = []
      · rw [hpayload, hbody]
      · rw [hpayload, dataEntry_of_ne_nil hbody] at heq
        cases heq
    · by_cases hbody : body = []
      · rw [hbody, dataEntry_of_ne_nil hpayload] at heq
        cases heq
      · rw [dataEntry_of_ne_nil hpayload, dataEntry_of_ne_nil hbody] at heq
        obtain rfl : PyValue.bytes payload = value :=
          congrArg Prod.snd (List.cons.inj heq).1
        rcases hvalue with hvalue | ⟨t, hvalue, -⟩
        · exact PyValue.bytes.inj hvalue
        · cases hvalue
  · rintro rfl
    exact ⟨.bytes payload, rfl, .inl rfl⟩

/-- A body is given as it comes, and one that is taken for JSON exactly if nothing is lost of it. -/
theorem bodyEntry_given_iff {isJson : Bool} {body : Bytes} :
    (∃ entry, bodyEntry isJson body = .ok entry ∧
      ∃ value, entry = dataEntry body value ∧ Given body value) ↔
        (isJson = true → body ≠ [] → PythonJson.Conveyed body) := by
  simp only [bodyEntry_eq_ok_iff]
  by_cases hbody : body = []
  · refine iff_of_true ⟨_, ⟨.bytes body, rfl, fun hne => absurd hbody hne⟩, .bytes body, rfl, .inl rfl⟩
      fun _ hne => absurd hbody hne
  simp only [ne_eq, hbody, not_false_iff, forall_const]
  cases isJson with
  | false =>
    exact iff_of_true ⟨_, ⟨.bytes body, rfl, rfl⟩, .bytes body, rfl, .inl rfl⟩ nofun
  | true =>
    simp only [if_true, forall_const, ← PythonJson.exists_conveys_iff]
    constructor
    · rintro ⟨entry, ⟨value, rfl, t, rfl, ht⟩, value', heq, hgiven⟩
      obtain rfl : value' = .json t := ((dataEntry_inj.mp heq).resolve_left hbody).symm
      rcases hgiven with hbytes | ⟨t', heq', hconveys⟩
      · cases hbytes
      · cases heq'
        exact ⟨t, ht, hconveys⟩
    · rintro ⟨t, ht, hconveys⟩
      exact ⟨_, ⟨.json t, rfl, t, rfl, ht⟩, .json t, rfl, .inr ⟨t, rfl, hconveys⟩⟩

theorem taken_ne_nil (h : remainder (past LF b) ≠ []) (hlf : LF ∉ remainder (past LF b)) :
    taken b ≠ [] := by
  rw [taken, past_of_notMem hlf]
  exact h

/-- A response that is queued carries what it should by its entry for the body. -/
theorem queued_brings_iff (hb : b.take 4 = str "HTTP")
    (hadd : ({ m_JSON } : HeaderState).addAll (bufferHeaders b) = (st, none))
    {made : Except Halt Dict} :
    (∃ d, queueResponse (statusOf b) st.m_Headers made = .delivers d ∧ Brings m_JSON b d) ↔
      buildString (statusOf b) ≠ none ∧ ∃ data, made = .ok data ∧
        ∃ value, data = dataEntry (bodyData b) value ∧ Given (bodyData b) value := by
  simp only [queueResponse_delivers_iff]
  constructor
  · rintro ⟨d, ⟨htext, data, hmade, rfl⟩, hbrings⟩
    exact ⟨htext, data, hmade, (brings_response_iff hb hadd).mp hbrings⟩
  · rintro ⟨htext, data, hmade, hgiven⟩
    exact ⟨_, ⟨htext, data, hmade, rfl⟩, (brings_response_iff hb hadd).mpr hgiven⟩

/-- The parse of a response whose headers are read. -/
theorem attempt_response_iff (hb : b.take 4 = str "HTTP")
    (hst : extractHeaders m_JSON b = (st, .ok (remainder (past LF b))))
    (hadd : ({ m_JSON } : HeaderState).addAll (bufferHeaders b) = (st, none)) :
    (∃ d, (attempt true m_JSON b).2 = .delivers d ∧
      Brings m_JSON b d) ↔ ResponseArrived m_JSON b := by
  obtain ⟨-, hchunked⟩ := addAll_noted hadd
  have hjson : st.m_JSON = (m_JSON || declaresJson (bufferHeaders b)) := addAll_json hadd
  have hattempt : (attempt true m_JSON b).2 =
      processBody true (statusOf b) st (remainder (past LF b)) := by
    rw [attempt, if_pos hb, attemptResponse, hst]
    rfl
  rw [Bool.false_or] at hchunked
  rw [hattempt, processBody]
  by_cases hblank : remainder (past LF b) = []
  · rw [if_pos (List.isEmpty_iff.mpr hblank)]
    exact iff_of_false (fun h => by obtain ⟨d, hd, -⟩ := h; cases hd) fun h => h.blank hblank
  rw [if_neg (mt List.isEmpty_iff.mp hblank)]
  simp only
  by_cases hstatus : statusOf b = []
  · rw [if_pos (List.isEmpty_iff.mpr hstatus)]
    exact iff_of_false (fun h => by obtain ⟨d, hd, -⟩ := h; cases hd) fun h => h.status hstatus
  rw [if_neg (mt List.isEmpty_iff.mp hstatus), ← taken, hchunked]
  cases hdeclared : declaredChunked (bufferHeaders b) with
  | true =>
    -- the body is that of the chunks, which must have come to their end
    have hbody : bodyData b = chunkData (taken b) := if_pos hdeclared
    have hloop : chunkLoop [] (taken b) = some (chunkData (taken b)) ↔ Finished (taken b) :=
      chunkLoop_eq_iff [] (taken b)
    have harrived : ResponseArrived m_JSON b ↔
        buildString (statusOf b) ≠ none ∧ Finished (taken b) :=
      ⟨fun h => ⟨h.text, h.chunks hdeclared⟩, fun h =>
        ⟨hstatus, h.1, hblank, fun _ => h.2, fun hnot => by rw [hdeclared] at hnot; cases hnot⟩⟩
    rw [harrived, ← hloop, if_pos rfl]
    cases chunkLoop [] (taken b) with
    | none => exact iff_of_false (fun h => by obtain ⟨d, hd, -⟩ := h; cases hd) fun h => by cases h.2
    | some sPayload =>
      simp only [queued_brings_iff hb hadd, Except.ok.injEq, exists_eq_left', bytes_given_iff, hbody,
        Option.some.injEq]
  | false =>
    -- at the end of a connection the length is not asked for
    have hbody : bodyData b = if LF ∈ remainder (past LF b) then taken b else [] := by
      rw [bodyData, hdeclared]
      rfl
    have harrived : ResponseArrived m_JSON b ↔ buildString (statusOf b) ≠ none ∧
        LF ∈ remainder (past LF b) ∧
          (st.m_JSON = true → taken b ≠ [] → PythonJson.Conveyed (taken b)) := by
      rw [hjson]
      exact ⟨fun h => ⟨h.text, h.plain hdeclared⟩, fun h =>
        ⟨hstatus, h.1, hblank, fun hyes => (by rw [hdeclared] at hyes; cases hyes), fun _ => h.2⟩⟩
    rw [harrived, if_neg Bool.false_ne_true, if_pos (.inr trivial), queued_brings_iff hb hadd]
    refine and_congr_right fun _ => ?_
    by_cases hlf : LF ∈ remainder (past LF b)
    · rw [hbody, if_pos hlf, and_iff_right hlf]
      exact bodyEntry_given_iff
    · rw [hbody, if_neg hlf]
      refine iff_of_false ?_ fun h => hlf h.1
      rintro ⟨entry, hentry, value, heq, -⟩
      obtain ⟨value', rfl, -⟩ := bodyEntry_eq_ok_iff.mp hentry
      rw [dataEntry_of_ne_nil (taken_ne_nil hblank hlf)] at heq
      cases heq

/-- The URL is behind the first space. -/
theorem requestURL?_ne_none_iff : requestURL? b ≠ none ↔ chr ' ' ∈ requestWords b := by
  have hlength : (upTo (chr ' ') (requestWords b)).length + 1 ≤ (requestWords b).length ↔
      chr ' ' ∈ requestWords b := by
    constructor
    · intro hle
      by_contra hnot
      rw [upTo_of_notMem hnot] at hle
      omega
    · intro hmem
      obtain ⟨front, rest, heq, hnot⟩ := List.eq_append_cons_of_mem hmem
      rw [heq, upTo_append_cons rest hnot, List.length_append, List.length_cons]
      omega
  rw [← hlength, requestURL?, urlOf?]
  simp only [substr?]
  split
  · next h => exact iff_of_true (Option.some_ne_none _) h
  · next h => exact iff_of_false (fun hne => hne rfl) h

/-- The parse of a request whose headers are read. -/
theorem attempt_request_iff (hb : b.take 4 ≠ str "HTTP")
    (hst : extractHeaders m_JSON b = (st, .ok (remainder (past LF b))))
    (hadd : ({ m_JSON } : HeaderState).addAll (bufferHeaders b) = (st, none)) :
    (∃ d, (attempt true m_JSON b).2 = .delivers d ∧
      Brings m_JSON b d) ↔ RequestArrived b := by
  have hurl := @requestURL?_ne_none_iff b
  simp only [Brings, hadd, Prod.mk.injEq, and_true, exists_eq_left', if_neg hb]
  rw [attempt, if_neg hb, attemptRequest, hst]
  simp only
  by_cases hblank : (remainder (past LF b)).take 2 = [CR, LF]
  · rw [if_pos hblank, if_pos (.inr (.inr trivial)), ← requestWords]
    simp only [Result.ofDict_eq_delivers_iff, requestDict_eq_ok_iff]
    constructor
    · rintro ⟨d, ⟨hverb, sURL, hsome, hbuild, -⟩, -⟩
      refine ⟨hurl.mp ?_, hverb, fun sURL' hsome' => ?_, hblank⟩
      · rw [requestURL?, hsome]
        exact Option.some_ne_none _
      · rw [requestURL?, hsome] at hsome'
        cases hsome'
        exact hbuild
    · intro h
      obtain ⟨sURL, hsome⟩ := Option.ne_none_iff_exists'.mp (hurl.mpr h.spaces)
      exact ⟨_, ⟨h.verb, sURL, hsome, h.url sURL hsome, rfl⟩, sURL, hsome, rfl⟩
  · rw [if_neg hblank]
    exact iff_of_false (fun h => by obtain ⟨d, hd, -⟩ := h; cases hd) fun h => hblank h.blank

/-- A read of no bytes makes a message with all that is carried exactly of what can be flushed. -/
theorem attempt_flush_iff : (∃ d, (attempt true m_JSON b).2 = .delivers d ∧
    Brings m_JSON b d) ↔ Flushable m_JSON b := by
  by_cases hok : ∃ st rest, extractHeaders m_JSON b = (st, .ok rest)
  · obtain ⟨st, rest, hst⟩ := hok
    obtain ⟨hwhole, hadd, rfl⟩ := (extractLines_ok_iff _ _ _ _).mp hst
    obtain ⟨-, htext⟩ := (extractHeaders_ok_iff m_JSON b).mp ⟨st, _, hst⟩
    by_cases hb : b.take 4 = str "HTTP"
    · rw [attempt_response_iff hb hst hadd]
      exact ⟨fun h => ⟨hwhole, htext, fun _ => h, fun hne => absurd hb hne⟩, fun h => h.response hb⟩
    · rw [attempt_request_iff hb hst hadd]
      exact ⟨fun h => ⟨hwhole, htext, fun heq => absurd heq hb, fun _ => h⟩, fun h => h.request hb⟩
  · refine iff_of_false ?_ fun h => hok ((extractHeaders_ok_iff m_JSON b).mpr ⟨h.whole, h.text⟩)
    rintro ⟨d, hd, -⟩
    unfold attempt attemptResponse attemptRequest at hd
    cases hextract : extractHeaders m_JSON b with
    | mk st result =>
      rw [hextract] at hd
      cases result with
      | error halt =>
        split at hd
        · cases hd
        · cases hd
      | ok rest => exact hok ⟨st, rest, hextract⟩

end Arrived

end Http

/-! ### WebSocket -/

namespace WebSocket

/-- The payload of a frame without its mask. -/
def Frame.plain (f : Frame) : Bytes := f.mask.elim f.payload fun m => unmask m.bytes f.payload

/-- The bytes of a frame in front of its payload. -/
def Frame.header (f : Frame) : Bytes :=
  f.first :: f.second :: (f.field.extended f.payload.length ++ maskBytes f.mask)

/-- Bytes that have no payload: frames without one, and the beginning of a header. -/
inductive NoPayload : Bytes → Prop
  | header (f : Frame) {bytes : Bytes} : bytes <+: f.header → NoPayload bytes
  | frame (f : Frame) {rest : Bytes} : f.payload = [] → NoPayload rest →
      NoPayload (f.encode ++ rest)

/-- The entry of a payload, as bytes, as a text, or as the code of a close. -/
inductive Shows : Option PyValue → Bytes → Prop
  | none : Shows none []
  | bytes (payload : Bytes) : Shows (some (.bytes payload)) payload
  | text (payload : Bytes) : Shows (some (.text payload)) payload
  | code (high low : UInt8) : Shows (some (.int (number high low))) [high, low]

/-- A message has all of the payload in a buffer: there is payload in one frame only. -/
def Brings (m_sRetainedData : Bytes) (d : Dict) : Prop :=
  ∃ (f : Frame) (rest : Bytes), m_sRetainedData = f.encode ++ rest ∧ NoPayload rest ∧
    Shows (d.lookup (str "Payload")) f.plain

/-- A frame, whose length does not have 64 bits, and nothing of another payload.  If its key
begins with a zero, the key leaves the payload as it is; and if it is a text, then it has no
NUL behind something that is UTF-8. -/
def Flushable (m_sRetainedData : Bytes) : Prop :=
  ∃ (f : Frame) (rest : Bytes), m_sRetainedData = f.encode ++ rest ∧ NoPayload rest ∧
    f.field ≠ .sixtyFour ∧
    (∀ m, f.mask = some m → m.bytes.getD 0 0 = 0 → unmask m.bytes f.payload = f.payload) ∧
    (f.first &&& 0x0F = 0x01 → 0 ∈ f.plain →
      (ByteArray.mk (cstr f.plain).toArray).validateUTF8 = false)

theorem lookup_payload (bFinish : Bool) (lMaskingKey : ℕ) (iOpCode : UInt8) (vPayload : Bytes) :
    (dataDict bFinish lMaskingKey iOpCode vPayload).lookup (str "Payload") =
      (handledPayload iOpCode vPayload).or
        (if vPayload.isEmpty then none else some (.bytes vPayload)) := by
  have hnames : (str "Payload" == str "Finish") = false ∧ (str "Payload" == str "Mask") = false ∧
      (str "Payload" == str "Operation") = false := ⟨rfl, rfl, rfl⟩
  obtain ⟨hfinish, hmask, hoperation⟩ := hnames
  unfold dataDict
  generalize (handledPayload iOpCode vPayload).or
    (if vPayload.isEmpty then none else some (.bytes vPayload)) = entry
  have hentry : (entry.elim [] fun payload => [(str "Payload", payload)]).lookup (str "Payload") =
      entry := by
    cases entry with
    | none => rfl
    | some payload => simp
  have hfront (front : Dict) (h : front.lookup (str "Payload") = none) :
      (front ++ entry.elim [] fun payload => [(str "Payload", payload)]).lookup (str "Payload") =
        entry := by
    rw [List.lookup_append, h, hentry, Option.none_or]
  apply hfront
  split
  · split
    · simp [List.lookup_cons, List.lookup_nil, hfinish, hmask, hoperation]
    · simp [List.lookup_cons, List.lookup_nil, hfinish, hoperation]
  · split
    · simp [List.lookup_cons, List.lookup_nil, hoperation]
    · split
      · simp [List.lookup_cons, List.lookup_nil, hoperation]
      · split
        · simp [List.lookup_cons, List.lookup_nil, hfinish, hmask]
        · simp [List.lookup_cons, List.lookup_nil, hfinish]

/-- What is taken for the payload. -/
def Frame.received (f : Frame) : Bytes :=
  if ((maskBytes f.mask).getD 0 0).toNat ≠ 0 then unmask (maskBytes f.mask) f.payload else f.payload

theorem received_eq_plain_iff (f : Frame) : f.received = f.plain ↔
    ∀ m, f.mask = some m → m.bytes.getD 0 0 = 0 → unmask m.bytes f.payload = f.payload := by
  rw [Frame.received, Frame.plain]
  cases f.mask with
  | none => exact iff_of_true rfl nofun
  | some m =>
    have hbytes : maskBytes (some m) = m.bytes := rfl
    rw [hbytes, Option.elim_some]
    by_cases hzero : m.bytes.getD 0 0 = 0
    · rw [hzero, if_neg (by decide)]
      refine ⟨fun heq m' hm' _ => ?_, fun hall => (hall m rfl hzero).symm⟩
      rw [← Option.some.inj hm']
      exact heq.symm
    · have hnat : (m.bytes.getD 0 0).toNat ≠ 0 := fun h0 => hzero (UInt8.toNat_inj.mp h0)
      rw [if_pos hnat]
      refine iff_of_true rfl fun m' hm' h0 => ?_
      rw [← Option.some.inj hm'] at h0
      exact absurd h0 hzero

theorem length_received (f : Frame) : f.received.length = f.plain.length := by
  have hplain : f.plain.length = f.payload.length := by
    rw [Frame.plain]
    cases f.mask with
    | none => rfl
    | some m => exact length_unmask _ _
  rw [hplain, Frame.received]
  split
  · exact length_unmask _ _
  · rfl

theorem shows_text_iff {s payload : Bytes} : Shows (some (.text s)) payload ↔ s = payload :=
  ⟨fun h => by cases h; rfl, fun h => h ▸ .text s⟩

theorem shows_bytes_iff {s payload : Bytes} : Shows (some (.bytes s)) payload ↔ s = payload :=
  ⟨fun h => by cases h; rfl, fun h => h ▸ .bytes s⟩

theorem shows_rest_iff {v payload : Bytes} (hlen : v.length = payload.length) :
    Shows (if v.isEmpty then none else some (.bytes v)) payload ↔ v = payload := by
  cases v with
  | nil =>
    obtain rfl : payload = [] := List.eq_nil_of_length_eq_zero hlen.symm
    exact iff_of_true .none rfl
  | cons b v => exact shows_bytes_iff

/-- The entry shows the payload if it is what was received, and no text ends in front of it. -/
theorem shows_iff {iOpCode : UInt8} {v payload : Bytes} (hlen : v.length = payload.length) :
    Shows ((handledPayload iOpCode v).or (if v.isEmpty then none else some (.bytes v))) payload ↔
      v = payload ∧ (iOpCode = 0x01 → 0 ∈ payload →
        (ByteArray.mk (cstr payload).toArray).validateUTF8 = false) := by
  unfold handledPayload
  by_cases htext : iOpCode = 0x01
  · rw [if_pos htext, buildString]
    cases hvalid : (ByteArray.mk (cstr v).toArray).validateUTF8 with
    | true =>
      rw [if_pos rfl, Option.some_or, shows_text_iff]
      constructor
      · intro heq
        have hv : cstr v = v :=
          (List.takeWhile_prefix _).eq_of_length (by rw [hlen, ← heq]; rfl)
        refine ⟨hv.symm.trans heq, fun _ hzero => ?_⟩
        rw [← heq] at hzero
        exact absurd hzero (zero_notMem_cstr v)
      · rintro ⟨rfl, hzero⟩
        refine cstr_of_notMem fun hmem => ?_
        rw [hzero htext hmem] at hvalid
        cases hvalid
    | false =>
      rw [if_neg Bool.false_ne_true, Option.none_or, shows_rest_iff hlen]
      exact ⟨fun h => ⟨h, fun _ _ => h ▸ hvalid⟩, And.left⟩
  · rw [if_neg htext, and_iff_left fun h => absurd h htext]
    by_cases hclose : iOpCode = 0x08 ∧ v.length = 2
    · rw [if_pos hclose, Option.some_or]
      constructor
      · intro h
        generalize hcode : (number (v.getD 0 0) (v.getD 1 0) : ℤ) = code at h
        cases h with
        | code high low => exact number_injective hclose.2 rfl (Int.natCast_inj.mp hcode)
      · rintro rfl
        obtain ⟨high, low, rfl⟩ := List.length_eq_two.mp hclose.2
        exact .code high low
    · rw [if_neg hclose, Option.none_or]
      exact shows_rest_iff hlen

theorem shows_contents_iff (f : Frame) : Shows (f.contents.lookup (str "Payload")) f.plain ↔
    (∀ m, f.mask = some m → m.bytes.getD 0 0 = 0 → unmask m.bytes f.payload = f.payload) ∧
      (f.first &&& 0x0F = 0x01 → 0 ∈ f.plain →
        (ByteArray.mk (cstr f.plain).toArray).validateUTF8 = false) := by
  have hcontents : f.contents.lookup (str "Payload") =
      (handledPayload (f.first &&& 0x0F) f.received).or
        (if f.received.isEmpty then none else some (.bytes f.received)) := lookup_payload ..
  rw [hcontents, shows_iff (length_received f), received_eq_plain_iff]

/-- A read of no bytes queues a message with all of the payload exactly of what can be flushed. -/
theorem flush_iff (m_sRetainedData : Bytes) (e : ReadEvent) :
    (∃ d, (processInbound m_sRetainedData { e with m_Buffer := [] }).2 = [.onMessage d] ∧
      Brings m_sRetainedData d) ↔ Flushable m_sRetainedData := by
  have hempty : processWholeMessage e.strayBuffer [] = .incomplete := rfl
  have hframe (f : Frame) (rest : Bytes) (heq : m_sRetainedData = f.encode ++ rest) :
      processWholeMessage e.strayRetained (m_sRetainedData ++ []) =
        if f.field = .sixtyFour then .cleared else .message f.contents rest := by
    rw [List.append_nil, heq, processWholeMessage_encode]
  simp only [processInbound, hempty]
  constructor
  · rintro ⟨d, hd, f, rest, heq, hrest, hshows⟩
    rw [hframe f rest heq] at hd
    by_cases hfield : f.field = .sixtyFour
    · rw [if_pos hfield] at hd
      cases hd
    · rw [if_neg hfield] at hd
      cases hd
      exact ⟨f, rest, heq, hrest, hfield, (shows_contents_iff f).mp hshows⟩
  · rintro ⟨f, rest, heq, hrest, hfield, hshows⟩
    refine ⟨f.contents, ?_, f, rest, heq, hrest, (shows_contents_iff f).mpr hshows⟩
    rw [hframe f rest heq, if_neg hfield]

end WebSocket

/-! ### Connections -/

namespace Connection

open WebSocket (ReadEvent)

/-- The buffer of a protocol. -/
def Protocol.m_sRetainedData : Protocol → Bytes
  | .raw => []
  | .line m_sRetainedData => m_sRetainedData
  | .json m_sRetainedData => m_sRetainedData
  | .xml state => state.m_sRetainedData
  | .http p => p.m_sRetainedData
  | .mqtt p _ => p.m_sRetainedData
  | .ws m_sRetainedData => m_sRetainedData

/-- `CPlugin::ConnectionDisconnect`; none when it does not come back.  `asyncDisconnect` is what
`AsyncDisconnect` returns; what the transport queues of itself is left out. -/
def connectionDisconnect (c : CConnection) (asyncDisconnect : Bool) (e : ReadEvent) :
    Option (CConnection × List Queued) :=
  let pTransport := if asyncDisconnect then c.pTransport else none
  match c.pProtocol with
  | none => some (⟨none, pTransport⟩, [])
  | some pProtocol =>
      (pProtocol.flush e).map fun f =>
        if f.threw then (⟨some f.pProtocol, c.pTransport⟩, f.queued)
        else (⟨some f.pProtocol, pTransport⟩, f.queued)

/-- A message with all of the payload in the buffer. -/
def Brings : Protocol → Queued → Prop
  | .http p, .event (.onMessage d) => Http.Brings p.m_JSON p.m_sRetainedData d
  | .http _, _ => False
  | .ws m_sRetainedData, .event (.onMessage d) => WebSocket.Brings m_sRetainedData d
  | .ws _, _ => False
  | p, .buffer data => data = p.m_sRetainedData
  | _, _ => False

/-- What is queued and left when a connection ends: one message with what was in the buffer,
none if it was empty, in front of what is due then, and an empty buffer. -/
structure Told (p : Protocol) (due : List Queued) (queued : List Queued)
    (pProtocol : Option Protocol) : Prop where
  empty : p.m_sRetainedData = [] → queued = due
  message : p.m_sRetainedData ≠ [] → ∃ m, Brings p m ∧ queued = m :: due
  cleared : ∃ q, pProtocol = some q ∧ q.m_sRetainedData = []

/-- The plugin is told of what is left, by `DisconnectEvent` and by `ConnectionDisconnect`. -/
def Flushes (p : Protocol) : Prop :=
  ∀ (pTransport : Option Transport) (e : ReadEvent),
    (∀ bNotifyPlugin, ∃ c queued,
      disconnectEvent ⟨some p, pTransport⟩ bNotifyPlugin e = some (c, queued) ∧
        Told p
          (if pTransport.isSome ∧ bNotifyPlugin then [.onDisconnect] else []) queued c.pProtocol) ∧
    ∀ asyncDisconnect, ∃ c queued,
      connectionDisconnect ⟨some p, pTransport⟩ asyncDisconnect e = some (c, queued) ∧
        Told p [] queued c.pProtocol

/-- The buffers that can be flushed. -/
def Protocol.Flushable : Protocol → Prop
  | .http p => p.m_sRetainedData = [] ∨ Http.Flushable p.m_JSON p.m_sRetainedData
  | .ws m_sRetainedData => m_sRetainedData = [] ∨ WebSocket.Flushable m_sRetainedData
  | _ => True

/-- An exception leaves the buffer as it is. -/
theorem not_cleared_of_threw {p : Protocol} {e : ReadEvent} {f : Flushed}
    (h : p.flush e = some f) (hthrew : f.threw = true) :
    f.pProtocol.m_sRetainedData ≠ [] := by
  cases p with
  | http p =>
    have hflush : flushHttp p = some f := h
    unfold flushHttp at hflush
    split at hflush
    · cases hflush
      cases hthrew
    · next hne =>
      split at hflush
      · cases hflush
      · cases hflush
        exact mt List.isEmpty_iff.mpr hne
      · cases hflush
        cases hthrew
      · cases hflush
        cases hthrew
  | _ =>
    cases h
    cases hthrew

theorem Told.append {p : Protocol} {queued : List Queued} {q : Option Protocol}
    (h : Told p [] queued q) (due : List Queued) :
    Told p due (queued ++ due) q where
  empty := fun hempty => by rw [h.empty hempty, List.nil_append]
  message := by
    intro hne
    obtain ⟨m, hm, rfl⟩ := h.message hne
    exact ⟨m, hm, rfl⟩
  cleared := h.cleared

/-- The two functions do what `Flush` does. -/
theorem flushes_iff_flush (p : Protocol) : Flushes p ↔
    ∀ e, ∃ f : Flushed, p.flush e = some f ∧ f.threw = false ∧
      Told p [] f.queued (some f.pProtocol) := by
  constructor
  · intro h e
    obtain ⟨c, queued, hdisconnect, htold⟩ := (h none e).2 false
    obtain ⟨f, hflush, heq⟩ := Option.map_eq_some_iff.mp hdisconnect
    cases hthrew : f.threw with
    | true =>
      rw [hthrew, if_pos rfl] at heq
      cases heq
      obtain ⟨q, hq, hcleared⟩ := htold.cleared
      cases hq
      exact absurd hcleared (not_cleared_of_threw hflush hthrew)
    | false =>
      rw [hthrew, if_neg Bool.false_ne_true] at heq
      cases heq
      exact ⟨f, hflush, hthrew, htold⟩
  · intro h pTransport e
    obtain ⟨f, hflush, hthrew, htold⟩ := h e
    refine ⟨fun bNotifyPlugin => ?_, fun asyncDisconnect => ?_⟩
    · refine ⟨⟨some f.pProtocol, none⟩, _, ?_, htold.append _⟩
      simp only [disconnectEvent, hflush, Option.map_some, hthrew, Bool.false_eq_true, if_false]
    · refine ⟨⟨some f.pProtocol, if asyncDisconnect then pTransport else none⟩, f.queued, ?_, htold⟩
      simp only [connectionDisconnect, hflush, Option.map_some, hthrew, Bool.false_eq_true,
        if_false]

/-- `Flush` of the base class. -/
theorem told_flushBuffer {p cleared : Protocol} (hcleared : cleared.m_sRetainedData = [])
    (hbrings : ∀ m_sRetainedData, p.m_sRetainedData = m_sRetainedData →
      Brings p (.buffer m_sRetainedData)) :
    Told p [] (flushBuffer p.m_sRetainedData cleared).queued (some cleared)
      where
  empty := fun hempty => if_pos (List.isEmpty_iff.mpr hempty)
  message := fun hne =>
    ⟨.buffer p.m_sRetainedData, hbrings _ rfl, if_neg (mt List.isEmpty_iff.mp hne)⟩
  cleared := ⟨cleared, rfl, hcleared⟩

theorem flushes_http_iff (p : Http.Protocol) : Flushes (.http p) ↔
    (Protocol.http p).Flushable := by
  have hflush (e : ReadEvent) : (Protocol.http p).flush e =
      flushHttp p := rfl
  simp only [flushes_iff_flush, hflush, Protocol.Flushable]
  by_cases hempty : p.m_sRetainedData = []
  · refine iff_of_true (fun _ => ⟨⟨.http p, [], false⟩, ?_, rfl, ?_⟩) (.inl hempty)
    · rw [flushHttp, if_pos (List.isEmpty_iff.mpr hempty)]
    · exact ⟨fun _ => rfl, fun hne => absurd hempty hne, ⟨_, rfl, hempty⟩⟩
  · rw [or_iff_right hempty, ← Http.attempt_flush_iff]
    unfold flushHttp
    rw [if_neg (mt List.isEmpty_iff.mp hempty)]
    constructor
    · intro h
      obtain ⟨f, hf, hthrew, htold⟩ := h ⟨[], fun _ => 0, fun _ => 0⟩
      obtain ⟨m, hm, hqueued⟩ := htold.message hempty
      split at hf
      · cases hf
      · cases hf
        cases hthrew
      · cases hf
        cases hqueued
      · next heq =>
        cases hf
        cases hqueued
        exact ⟨_, congrArg Prod.snd heq, hm⟩
    · rintro ⟨d, hd, hbrings⟩ e
      cases hattempt : Http.attempt true p.m_JSON p.m_sRetainedData with
      | mk m_JSON result =>
        rw [hattempt] at hd
        cases hd
        refine ⟨_, rfl, rfl, fun h => absurd h hempty, fun _ => ⟨_, ?_, rfl⟩, ⟨_, rfl, rfl⟩⟩
        exact hbrings

theorem flushes_ws_iff (m_sRetainedData : Bytes) : Flushes
    (.ws m_sRetainedData) ↔ (Protocol.ws m_sRetainedData).Flushable := by
  simp only [flushes_iff_flush, Protocol.Flushable]
  by_cases hempty : m_sRetainedData = []
  · refine iff_of_true (fun e => ⟨_, rfl, rfl, fun _ => ?_, fun hne => absurd hempty hne,
      ⟨_, rfl, rfl⟩⟩) (.inl hempty)
    exact if_pos (List.isEmpty_iff.mpr hempty)
  · rw [or_iff_right hempty]
    have hnot : ¬ m_sRetainedData.isEmpty = true := mt List.isEmpty_iff.mp hempty
    constructor
    · intro h
      obtain ⟨f, hf, -, htold⟩ := h ⟨[], fun _ => 0, fun _ => 0⟩
      cases hf
      obtain ⟨m, hm, hqueued⟩ := htold.message hempty
      rw [if_neg hnot] at hqueued
      obtain ⟨event, hevent, rfl⟩ := List.map_eq_singleton_iff.mp hqueued
      cases event with
      | onMessage d => exact (WebSocket.flush_iff _ _).mp ⟨d, hevent, hm⟩
      | disconnected => cases hm
    · intro h e
      obtain ⟨d, hd, hbrings⟩ := (WebSocket.flush_iff m_sRetainedData e).mpr h
      refine ⟨_, rfl, rfl, fun h => absurd h hempty, fun _ => ⟨.event (.onMessage d), hbrings, ?_⟩,
        ⟨_, rfl, rfl⟩⟩
      simp only [if_neg hnot, hd]
      rfl

/-- **All that is left is delivered exactly if it can be flushed:** for HTTP the message is there
to a certain point, and for WebSocket it is one frame. -/
theorem flushes_iff (p : Protocol) : Flushes p ↔ p.Flushable := by
  cases p with
  | http p => exact flushes_http_iff p
  | ws m_sRetainedData => exact flushes_ws_iff m_sRetainedData
  | raw =>
    refine iff_of_true ((flushes_iff_flush _).mpr fun e => ?_) trivial
    exact ⟨_, rfl, rfl, fun _ => rfl, fun hne => absurd rfl hne, ⟨_, rfl, rfl⟩⟩
  | line m_sRetainedData =>
    refine iff_of_true ((flushes_iff_flush _).mpr fun e => ?_) trivial
    exact ⟨_, rfl, rfl, told_flushBuffer rfl fun _ h => h.symm⟩
  | json m_sRetainedData =>
    refine iff_of_true ((flushes_iff_flush _).mpr fun e => ?_) trivial
    exact ⟨_, rfl, rfl, told_flushBuffer rfl fun _ h => h.symm⟩
  | xml state =>
    refine iff_of_true ((flushes_iff_flush _).mpr fun e => ?_) trivial
    exact ⟨_, rfl, rfl, told_flushBuffer rfl fun _ h => h.symm⟩
  | mqtt p m_PacketID =>
    refine iff_of_true ((flushes_iff_flush _).mpr fun e => ?_) trivial
    exact ⟨_, rfl, rfl, told_flushBuffer rfl fun _ h => h.symm⟩

/-- A response in chunks of which three bytes of five have arrived. -/
def chunkBegun : Bytes :=
  str "HTTP/1.1 200 OK\r\nTransfer-Encoding: chunked\r\n\r\n5\r\nhel"

/-- The three bytes are cleared. -/
theorem chunk_lost : ¬ ∀ p, Flushes p := by
  intro h
  have hline : past Http.LF chunkBegun = str "Transfer-Encoding: chunked\r\n\r\n5\r\nhel" := rfl
  have hnext : past Http.LF (str "Transfer-Encoding: chunked\r\n\r\n5\r\nhel") =
      str "\r\n5\r\nhel" := rfl
  have hlf : Http.LF ∈ str "Transfer-Encoding: chunked\r\n\r\n5\r\nhel" := by decide
  have hremainder : Http.remainder (past Http.LF chunkBegun) = str "\r\n5\r\nhel" := by
    rw [hline, Http.remainder, if_neg (by decide), dif_pos hlf, hnext, Http.remainder,
      if_pos (by decide)]
  have hheaders : Http.bufferHeaders chunkBegun = [(str "Transfer-Encoding", str "chunked")] := by
    rw [Http.bufferHeaders, hline, Http.passes, if_neg (by decide), dif_pos hlf, hnext,
      Http.passes, if_pos (by decide)]
    rfl
  have htaken : Http.taken chunkBegun = str "5\r\nhel" := by
    rw [Http.taken, hremainder]
    rfl
  have hsize : Http.chunkSize (Http.chunkStart (str "5\r\nhel")) = 5 := by decide
  rcases (flushes_http_iff ⟨chunkBegun, false⟩).mp (h _) with hempty | hflushable
  · cases hempty
  · have hchunks := (hflushable.response rfl).chunks (by rw [hheaders]; decide)
    rw [htaken] at hchunks
    cases hchunks with
    | last _ _ hzero =>
      rw [hsize] at hzero
      cases hzero
    | more _ _ hlt =>
      rw [hsize] at hlt
      exact absurd hlt (by decide)

end Connection

end Domoticz
