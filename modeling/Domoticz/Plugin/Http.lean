import Domoticz.Plugin.PythonJson

/-!
# The HTTP protocol of plugins

`CPluginProtocolHTTP::ProcessInbound` appends a read to what it retained and parses
all of it from the start: the first line, the headers, and the body as far as it
is there.  When it finds the message complete it queues it and clears what it
retained; otherwise it waits for the next read and starts again.

The parse has two more ways to end.  `substr` throws when it starts behind the end
of its string, and the JSON reader of a text that is nested too deep, which the work loop
of the plugin catches; what was retained stays.  And `ExtractHeaders` moves to the next
line with `pData->substr(pData->find_first_of('\n') + 1)`, which stays where it is when
there is no line feed yet; then the loop never ends.  A text that is not UTF-8 is a null
object, and a dictionary that is given one crashes.

## Main definitions

* `HeaderState`, `extractLines` — `ExtractHeaders`.
* `chunkLoop` — the loop over the chunks.
* `attempt` — one parse of the retained data.
* `processInbound`, `runs` — `CPluginProtocolHTTP::ProcessInbound`, for one read and for many.

## Main results

* `runs_retained` — reads that deliver nothing are retained.
-/

namespace Domoticz.Http

open CLib

/-- The carriage return. -/
def CR : UInt8 := 13

/-- The line feed. -/
def LF : UInt8 := 10

/-! ### Headers -/

/-- What `ExtractHeaders` finds. -/
structure HeaderState where
  m_ContentLength : ℤ := -1
  m_Chunked : Bool := false
  m_JSON : Bool
  m_Headers : Dict := []

/-- The flags a header sets. -/
def HeaderState.note (st : HeaderState) (sHeaderName sHeaderText : Bytes) : HeaderState :=
  if upper sHeaderName = str "CONTENT-LENGTH" then { st with m_ContentLength := atoi sHeaderText }
  else if upper sHeaderName = str "TRANSFER-ENCODING" then
    { st with m_Chunked := st.m_Chunked || upper sHeaderText == str "CHUNKED" }
  else if upper sHeaderName = str "CONTENT-TYPE" ∧ contains sHeaderText (str "application/json") then
    { st with m_JSON := true }
  else st

/-- The entry of a header in `m_Headers`; several of one name are a list.  A name that is not
UTF-8 is no key.  A text that is not is a null object, which a list refuses and a dictionary does
not survive. -/
def addHeader (m_Headers : Dict) (sHeaderName sHeaderText : Bytes) : Option Dict :=
  match m_Headers.lookup (cstr sHeaderName) with
  | some prev =>
      let list := (match prev with
        | .list l => l
        | v => [v]) ++ (buildString sHeaderText).toList
      some (m_Headers.map fun e => if e.1 = cstr sHeaderName then (e.1, .list list) else e)
  | none =>
      if buildString sHeaderName = none then some m_Headers
      else (buildString sHeaderText).map fun text => m_Headers ++ [(cstr sHeaderName, text)]

/-- One header, from its name and its text. -/
def HeaderState.add (st : HeaderState) (sHeaderName sHeaderText : Bytes) :
    HeaderState × Option Halt :=
  let st := st.note sHeaderName sHeaderText
  match addHeader st.m_Headers sHeaderName sHeaderText with
  | none => (st, some .stuck)
  | some m_Headers => ({ st with m_Headers }, none)

/-- The loop of `ExtractHeaders`: it stops in front of a carriage return and at the end. -/
def extractLines (st : HeaderState) (pData : Bytes) : HeaderState × Except Halt Bytes :=
  if pData.isEmpty ∨ pData.head? = some CR then (st, .ok pData)
  else
    let sHeaderLine := upTo CR pData
    let sHeaderName := if sHeaderLine.contains (chr ':') then upTo (chr ':') sHeaderLine else pData
    match substrFrom? sHeaderLine (sHeaderName.length + 2) with
    | none => (st, .error .threw)
    | some sHeaderText =>
        match st.add sHeaderName sHeaderText with
        | (st, some halt) => (st, .error halt)
        | (st, none) =>
            -- without a line feed the next pass finds the same line again
            if _ : LF ∈ pData then extractLines st (past LF pData) else (st, .error .stuck)
termination_by pData.length
decreasing_by exact length_past_lt ‹_›

/-- `CPluginProtocolHTTP::ExtractHeaders`. -/
def extractHeaders (m_JSON : Bool) (pData : Bytes) : HeaderState × Except Halt Bytes :=
  extractLines { m_JSON } (past LF pData)

/-! ### Chunks -/

/-- The start of a chunk: what follows the line feed if there is a carriage return. -/
def chunkStart (sData : Bytes) : Bytes := if sData.head? = some CR then past LF sData else sData

/-- The size in front of a chunk. -/
def chunkSize (sData : Bytes) : ℤ := (strtol 16 (upTo CR sData)).1

/-- The loop over the chunks: the payload when the last chunk was found.  A negative size
is a large `size_t`. -/
def chunkLoop (sPayload sData : Bytes) : Option Bytes :=
  if sData.isEmpty ∨ sData = [CR, LF] then none
  else
    let m_RemainingChunk := chunkSize (chunkStart sData)
    let rest := past LF (chunkStart sData)
    if m_RemainingChunk = 0 then some sPayload
    else if m_RemainingChunk < 0 ∨ rest.length ≤ m_RemainingChunk.toNat then none
    else chunkLoop (sPayload ++ rest.take m_RemainingChunk.toNat) (rest.drop m_RemainingChunk.toNat)
termination_by sData.length
decreasing_by
  have hle : (past LF (chunkStart sData)).length ≤ sData.length := by
    refine (length_past_le _ _).trans ?_
    unfold chunkStart
    split
    · exact length_past_le _ _
    · exact le_refl _
  have hrest : rest.length = (past LF (chunkStart sData)).length := rfl
  simp only [List.length_drop]
  omega

/-! ### Messages -/

/-- The entry for a payload, if there is one. -/
def dataEntry (payload : Bytes) (value : PyValue) : Dict :=
  if payload.isEmpty then [] else [(str "Data", value)]

/-- The dictionary of a response. -/
def responseDict (m_Status : Bytes) (m_Headers : Dict) (data : Dict) : Dict :=
  [(str "Status", .text (cstr m_Status)), (str "Headers", .dict m_Headers)] ++ data

/-- How one parse of the retained data ends. -/
inductive Result
  | waits
  | halts (halt : Halt)
  | delivers (pDataDict : Dict)

/-- A dictionary is queued, if it could be built. -/
def Result.ofDict : Except Halt Dict → Result
  | .error halt => .halts halt
  | .ok pDataDict => .delivers pDataDict

/-- The entry for the body of a response that comes with its length. -/
def bodyEntry (m_JSON : Bool) (sData : Bytes) : Except Halt Dict :=
  if sData.isEmpty then .ok []
  else if m_JSON then (PythonJson.translate sData).map fun t => [(str "Data", .json t)]
  else .ok [(str "Data", .bytes sData)]

/-- A response is queued; its status is set first. -/
def queueResponse (m_Status : Bytes) (m_Headers : Dict) (data : Except Halt Dict) : Result :=
  if buildString m_Status = none then .halts .stuck
  else .ofDict (data.map (responseDict m_Status m_Headers))

/-- The part of `ProcessInbound` for the body of a response, with the line behind the headers
in front of it; `flush` is an empty read. -/
def processBody (flush : Bool) (m_Status : Bytes) (st : HeaderState) (sData : Bytes) : Result :=
  if sData.isEmpty then .waits
  else
    let sData := past LF sData
    if m_Status.isEmpty then .waits
    else if st.m_Chunked then
      match chunkLoop [] sData with
      | none => .waits
      | some sPayload =>
          queueResponse m_Status st.m_Headers (.ok (dataEntry sPayload (.bytes sPayload)))
    else if st.m_ContentLength = sData.length ∨ flush then
      queueResponse m_Status st.m_Headers (bodyEntry st.m_JSON sData)
    else .waits

/-- The part of `ProcessInbound` for a response. -/
def attemptResponse (flush m_JSON : Bool) (sData : Bytes) :
    Bool × Result :=
  let m_Status := upTo (chr ' ') (past (chr ' ') (upTo CR sData))
  match extractHeaders m_JSON sData with
  | (st, .error halt) => (st.m_JSON, .halts halt)
  | (st, .ok sData) => (st.m_JSON, processBody flush m_Status st sData)

/-- The URL of a request: what stands behind the verb, up to the next blank. -/
def urlOf? (sFirstLine : Bytes) : Option Bytes :=
  let sVerb := upTo (chr ' ') sFirstLine
  substr? sFirstLine (sVerb.length + 1)
    ((findFrom [chr ' '] sFirstLine (sVerb.length + 1)).getD sFirstLine.length)

/-- The dictionary of a request.  The verb is set before the `substr` for the URL. -/
def requestDict (sFirstLine : Bytes) (m_Headers : Dict) (sPayload : Bytes) : Except Halt Dict :=
  let sVerb := upTo (chr ' ') sFirstLine
  if buildString sVerb = none then .error .stuck
  else
    match urlOf? sFirstLine with
    | none => .error .threw
    | some sURL =>
        if buildString sURL = none then .error .stuck
        else .ok ([(str "Verb", .text (cstr sVerb)), (str "URL", .text (cstr sURL)),
          (str "Headers", .dict m_Headers)] ++ dataEntry sPayload (.bytes sPayload))

/-- The part of `ProcessInbound` for a request. -/
def attemptRequest (flush m_JSON : Bool) (sData : Bytes) : Bool × Result :=
  let sFirstLine := upToLast (chr ' ') (upTo CR sData)
  match extractHeaders m_JSON sData with
  | (st, .error halt) => (st.m_JSON, .halts halt)
  | (st, .ok sData) =>
      if sData.take 2 = [CR, LF] then
        let sPayload := sData.drop 2
        if st.m_ContentLength = -1 ∨ st.m_ContentLength = sPayload.length ∨ flush then
          (st.m_JSON, .ofDict (requestDict sFirstLine st.m_Headers sPayload))
        else (st.m_JSON, .waits)
      else (st.m_JSON, .waits)

/-- One parse of the retained data: what becomes of `m_JSON`, and how it ends. -/
def attempt (flush m_JSON : Bool) (sData : Bytes) : Bool × Result :=
  if sData.take 4 = str "HTTP" then attemptResponse flush m_JSON sData
  else attemptRequest flush m_JSON sData

/-! ### What is queued -/

theorem Result.ofDict_eq_delivers_iff {made : Except Halt Dict} {data : Dict} :
    Result.ofDict made = .delivers data ↔ made = .ok data := by
  cases made with
  | error halt =>
    constructor
    · intro h
      cases h
    · intro h
      cases h
  | ok data' =>
    constructor
    · intro h
      cases h
      rfl
    · intro h
      cases h
      rfl

theorem Result.ofDict_ne_waits (made : Except Halt Dict) : Result.ofDict made ≠ .waits := by
  cases made with
  | error halt =>
    intro h
    cases h
  | ok data =>
    intro h
    cases h

theorem queueResponse_ne_waits (m_Status : Bytes) (m_Headers : Dict) (data : Except Halt Dict) :
    queueResponse m_Status m_Headers data ≠ .waits := by
  unfold queueResponse
  split
  · intro h
    cases h
  · exact Result.ofDict_ne_waits _

/-- A request is given when its verb and its URL are there and are UTF-8. -/
theorem requestDict_eq_ok_iff (sFirstLine : Bytes) (m_Headers : Dict) (sPayload : Bytes)
    (data : Dict) : requestDict sFirstLine m_Headers sPayload = .ok data ↔
      buildString (upTo (chr ' ') sFirstLine) ≠ none ∧
        ∃ sURL, urlOf? sFirstLine = some sURL ∧ buildString sURL ≠ none ∧
          data = [(str "Verb", .text (cstr (upTo (chr ' ') sFirstLine))),
            (str "URL", .text (cstr sURL)), (str "Headers", .dict m_Headers)] ++
              dataEntry sPayload (.bytes sPayload) := by
  unfold requestDict
  simp only
  by_cases hverb : buildString (upTo (chr ' ') sFirstLine) = none
  · rw [if_pos hverb]
    refine iff_of_false ?_ fun h => h.1 hverb
    intro h
    cases h
  · rw [if_neg hverb, and_iff_right hverb]
    cases hurl : urlOf? sFirstLine with
    | none =>
      refine iff_of_false ?_ ?_
      · intro h
        cases h
      · rintro ⟨sURL, hsome, -⟩
        cases hsome
    | some sURL =>
      simp only [Option.some.injEq, exists_eq_left']
      by_cases hnone : buildString sURL = none
      · rw [if_pos hnone]
        refine iff_of_false ?_ fun h => h.1 hnone
        intro h
        cases h
      · rw [if_neg hnone, Except.ok.injEq, eq_comm, and_iff_right hnone]

/-! ### Reads -/

/-- What of `CPluginProtocolHTTP` lasts from one read to the next; the other members are set
anew.  Nothing sets `m_JSON` to `false`. -/
structure Protocol where
  m_sRetainedData : Bytes := []
  m_JSON : Bool := false

/-- `CPluginProtocolHTTP::ProcessInbound`, as the work loop of the plugin sees it; `none`
when it does not come back. -/
def processInbound (p : Protocol) (read : Bytes) :
    Option (Protocol × List PluginEvent) :=
  let sData := p.m_sRetainedData ++ read
  match attempt read.isEmpty p.m_JSON sData with
  | (_, .halts .stuck) => none
  | (m_JSON, .halts .threw) => some (⟨sData, m_JSON⟩, [])
  | (m_JSON, .waits) => some (⟨sData, m_JSON⟩, [])
  | (m_JSON, .delivers pDataDict) => some (⟨[], m_JSON⟩, [.onMessage pDataDict])

/-- The reads of a connection, one after the other. -/
def runs (p : Protocol) :
    List Bytes → Option (Protocol × List PluginEvent)
  | [] => some (p, [])
  | read :: reads => do
      let (p, events) ← processInbound p read
      let (p, events') ← runs p reads
      return (p, events ++ events')

/-! ### What reads do -/

/-- A read is retained, or a message is delivered and nothing is. -/
theorem processInbound_cases {p q : Protocol} {read : Bytes}
    {events : List PluginEvent} (h : processInbound p read = some (q, events)) :
    (events = [] ∧ q.m_sRetainedData = p.m_sRetainedData ++ read) ∨
      ((∃ data, events = [.onMessage data]) ∧ q.m_sRetainedData = []) := by
  unfold processInbound at h
  cases ha : attempt read.isEmpty p.m_JSON (p.m_sRetainedData ++ read) with
  | mk m_JSON result =>
    simp only [ha] at h
    cases result with
    | waits =>
      cases h
      exact .inl ⟨rfl, rfl⟩
    | halts halt =>
      cases halt with
      | threw =>
        cases h
        exact .inl ⟨rfl, rfl⟩
      | stuck => cases h
    | delivers data =>
      cases h
      exact .inr ⟨⟨data, rfl⟩, rfl⟩

theorem runs_cons_iff {p q : Protocol} {read : Bytes}
    {reads : List Bytes} {events : List PluginEvent} :
    runs p (read :: reads) = some (q, events) ↔
      ∃ p' e e', processInbound p read = some (p', e) ∧
        runs p' reads = some (q, e') ∧ events = e ++ e' := by
  simp only [runs, Option.bind_eq_bind, Option.bind_eq_some_iff, Prod.exists, Option.pure_def,
    Option.some.injEq, Prod.mk.injEq]
  constructor
  · rintro ⟨p', e, hread, q', e', hreads, rfl, rfl⟩
    exact ⟨p', e, e', hread, hreads, rfl⟩
  · rintro ⟨p', e, e', hread, hreads, rfl⟩
    exact ⟨p', e, hread, q, e', hreads, rfl, rfl⟩

theorem runs_append_iff {p q : Protocol} {done rest : List Bytes}
    {events : List PluginEvent} :
    runs p (done ++ rest) = some (q, events) ↔
      ∃ p' e e', runs p done = some (p', e) ∧
        runs p' rest = some (q, e') ∧ events = e ++ e' := by
  induction done generalizing p events with
  | nil =>
    constructor
    · intro h
      exact ⟨p, [], events, rfl, h, rfl⟩
    · rintro ⟨p', e, e', hdone, hrest, rfl⟩
      cases hdone
      exact hrest
  | cons read done ih =>
    rw [List.cons_append, runs_cons_iff]
    constructor
    · rintro ⟨p₁, e₁, e₂, hread, hreads, rfl⟩
      obtain ⟨p₂, e₃, e₄, hdone, hrest, rfl⟩ := ih.mp hreads
      exact ⟨p₂, e₁ ++ e₃, e₄, runs_cons_iff.mpr ⟨p₁, e₁, e₃, hread, hdone, rfl⟩, hrest,
        (List.append_assoc ..).symm⟩
    · rintro ⟨p₂, e, e₄, hdone, hrest, rfl⟩
      obtain ⟨p₁, e₁, e₃, hread, hdone', rfl⟩ := runs_cons_iff.mp hdone
      exact ⟨p₁, e₁, e₃ ++ e₄, hread, ih.mpr ⟨p₂, e₃, e₄, hdone', hrest, rfl⟩,
        List.append_assoc ..⟩

/-- Reads that deliver nothing are retained. -/
theorem runs_retained {p q : Protocol} {reads : List Bytes}
    (h : runs p reads = some (q, [])) :
    q.m_sRetainedData = p.m_sRetainedData ++ reads.flatten := by
  induction reads generalizing p with
  | nil =>
    cases h
    exact (List.append_nil _).symm
  | cons read reads ih =>
    obtain ⟨p', e, e', hread, hreads, hnil⟩ := runs_cons_iff.mp h
    obtain ⟨rfl, rfl⟩ := List.append_eq_nil_iff.mp hnil.symm
    rcases processInbound_cases hread with ⟨-, hret⟩ | ⟨⟨data, hdata⟩, -⟩
    · rw [ih hreads, hret, List.flatten_cons, List.append_assoc]
    · cases hdata

/-- When a run delivers one message and retains nothing, its reads are retained up to the
last byte. -/
theorem runs_done {p q : Protocol} {done rest : List Bytes}
    {event : PluginEvent} (h : runs p (done ++ rest) = some (q, [event]))
    (hq : q.m_sRetainedData = []) (hrest : rest.flatten ≠ []) :
    ∃ m_JSON, runs p done = some (⟨p.m_sRetainedData ++ done.flatten, m_JSON⟩, []) ∧
      runs ⟨p.m_sRetainedData ++ done.flatten, m_JSON⟩ rest = some (q, [event]) := by
  obtain ⟨p', e, e', hdone, hrun, hevents⟩ := runs_append_iff.mp h
  cases e with
  | nil =>
    have hret := runs_retained hdone
    obtain ⟨ret, m_JSON⟩ := p'
    obtain rfl : ret = p.m_sRetainedData ++ done.flatten := hret
    exact ⟨m_JSON, hdone, by rw [hrun, hevents]; rfl⟩
  | cons x e =>
    obtain rfl : e' = [] := (List.append_eq_nil_iff.mp (List.cons.inj hevents).2.symm).2
    have hret := runs_retained hrun
    rw [hq] at hret
    exact absurd (List.append_eq_nil_iff.mp hret.symm).2 hrest

/-! ### The flag `m_JSON` -/

theorem note_json (st : HeaderState) (name text : Bytes) (h : st.m_JSON = true) :
    (st.note name text).m_JSON = true := by
  unfold HeaderState.note
  split
  · exact h
  · split
    · exact h
    · split
      · rfl
      · exact h

theorem add_json (st : HeaderState) (name text : Bytes) :
    (st.add name text).1.m_JSON = (st.note name text).m_JSON := by
  unfold HeaderState.add
  simp only
  split
  · rfl
  · rfl

theorem extractLines_json (st : HeaderState) (pData : Bytes) (h : st.m_JSON = true) :
    (extractLines st pData).1.m_JSON = true := by
  fun_induction extractLines st pData with
  | case1 => exact h
  | case2 => exact h
  | case3 st pData _ line name text _ st' halt hadd =>
    have hj := add_json st name text
    rw [hadd] at hj
    exact hj.trans (note_json st name text h)
  | case4 st pData _ line name text _ st' hadd hlf ih =>
    have hj := add_json st name text
    rw [hadd] at hj
    exact ih (hj.trans (note_json st name text h))
  | case5 st pData _ line name text _ st' hadd hlf =>
    have hj := add_json st name text
    rw [hadd] at hj
    exact hj.trans (note_json st name text h)

theorem attempt_json (flush : Bool) (sData : Bytes) :
    (attempt flush true sData).1 = true := by
  have hj : (extractHeaders true sData).1.m_JSON = true := extractLines_json _ _ rfl
  unfold attempt
  split
  · unfold attemptResponse
    cases he : extractHeaders true sData with
    | mk st result =>
      rw [he] at hj
      cases result with
      | error halt => exact hj
      | ok rest => exact hj
  · unfold attemptRequest
    cases he : extractHeaders true sData with
    | mk st result =>
      rw [he] at hj
      cases result with
      | error halt => exact hj
      | ok rest =>
        simp only
        split
        · split
          · exact hj
          · exact hj
        · exact hj

/-- Once set, `m_JSON` stays set. -/
theorem runs_json {p q : Protocol} {reads : List Bytes}
    {events : List PluginEvent} (h : runs p reads = some (q, events))
    (hp : p.m_JSON = true) : q.m_JSON = true := by
  induction reads generalizing p events with
  | nil =>
    cases h
    exact hp
  | cons read reads ih =>
    obtain ⟨p', e, e', hread, hreads, -⟩ := runs_cons_iff.mp h
    refine ih hreads ?_
    have hj := attempt_json read.isEmpty (p.m_sRetainedData ++ read)
    unfold processInbound at hread
    rw [hp] at hread
    cases ha : attempt read.isEmpty true (p.m_sRetainedData ++ read) with
    | mk m_JSON result =>
      rw [ha] at hj
      simp only [ha] at hread
      cases result with
      | waits =>
        cases hread
        exact hj
      | halts halt =>
        cases halt with
        | threw =>
          cases hread
          exact hj
        | stuck => cases hread
      | delivers data =>
        cases hread
        exact hj

end Domoticz.Http
