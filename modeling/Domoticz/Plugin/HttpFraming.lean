import Domoticz.Plugin.HttpDelivery

/-!
# What the dictionary of a response depends on

The same message may come with its length or in chunks, and as the first response of a
connection or after others.  The code translates JSON only in the half that handles a
length, and once a response has declared JSON, `m_JSON` holds for all that follow.

## Main definitions

* `Framings` — one message in both framings.
* `FramingIndependent` — it is delivered as the same dictionary.
* `HistoryIndependent` — a response is delivered behind others as if it were the first.
* `Regular`, `Follows` — responses that are delivered whole, and one that may follow them.

## Main results

* `filter_collect` — the headers of some names do not depend on those of others.
* `framingIndependent_iff` — **the framing shows exactly in content that is taken for JSON.**
* `independent_iff_of_regular` — the history shows exactly in content that is taken for JSON.
* `history_independent` — **every response of a sequence is delivered as if it were the first.**
-/

namespace Domoticz.Http

open CLib

/-! ### The headers of some names -/

/-- The entries of headers that can be read. -/
def collect (m_Headers : Dict) : List Field → Dict
  | [] => m_Headers
  | f :: fields => collect ((addHeader m_Headers f.name f.text).getD m_Headers) fields

theorem read_headers (st : HeaderState) (fields : List Field) (h : (st.read fields).2 = none) :
    (st.read fields).1.m_Headers = collect st.m_Headers fields := by
  induction fields generalizing st with
  | nil => rfl
  | cons f fields ih =>
    rw [HeaderState.read] at h ⊢
    by_cases hv : f.value = []
    · rw [if_pos hv] at h
      cases h
    rw [if_neg hv] at h ⊢
    have hheaders := note_headers st f.name f.text
    unfold HeaderState.add at h ⊢
    simp only [hheaders] at h ⊢
    rw [collect]
    cases hadd : addHeader st.m_Headers f.name f.text with
    | none =>
      rw [hadd] at h
      cases h
    | some m_Headers =>
      rw [hadd] at h
      exact ih _ h

section Filter

variable (keep : Bytes → Bool)

theorem lookup_filter (d : Dict) {key : Bytes} (h : keep key = true) :
    (d.filter fun e => keep e.1).lookup key = d.lookup key := by
  induction d with
  | nil => rfl
  | cons e d ih =>
    obtain ⟨name, value⟩ := e
    by_cases hkey : key = name
    · subst hkey
      rw [List.filter_cons, if_pos h, List.lookup_cons_self, List.lookup_cons_self]
    · have hbeq : (key == name) = false := beq_false_of_ne hkey
      rw [List.lookup_cons, hbeq, List.filter_cons]
      split
      · rw [List.lookup_cons, hbeq]
        exact ih
      · exact ih

/-- A header of another name adds nothing that is kept. -/
theorem filter_addHeader_of_drop (d : Dict) {name : Bytes} (text : Bytes)
    (h : keep (cstr name) = false) :
    ((addHeader d name text).getD d).filter (fun e => keep e.1) = d.filter fun e => keep e.1 := by
  unfold addHeader
  cases d.lookup (cstr name) with
  | none =>
    simp only
    split
    · rfl
    · cases buildString text with
      | none => rfl
      | some value =>
        simp only [Option.map_some, Option.getD_some, List.filter_append]
        rw [List.filter_cons_of_neg (by simp [h]), List.filter_nil, List.append_nil]
  | some prev =>
    simp only [Option.getD_some]
    induction d with
    | nil => rfl
    | cons e d ih =>
      rw [List.map_cons, List.filter_cons, List.filter_cons, ih]
      by_cases hname : e.1 = cstr name
      · rw [if_pos hname, hname]
        simp only [h, Bool.false_eq_true, if_false]
      · rw [if_neg hname]

/-- A header whose name is kept is added to what is kept. -/
theorem filter_addHeader_of_keep (d : Dict) {name : Bytes} (text : Bytes)
    (h : keep (cstr name) = true) :
    ((addHeader d name text).getD d).filter (fun e => keep e.1) =
      (addHeader (d.filter fun e => keep e.1) name text).getD (d.filter fun e => keep e.1) := by
  unfold addHeader
  rw [lookup_filter keep d h]
  cases d.lookup (cstr name) with
  | none =>
    simp only
    split
    · rfl
    · cases buildString text with
      | none => rfl
      | some value =>
        simp only [Option.map_some, Option.getD_some, List.filter_append]
        rw [List.filter_cons_of_pos (by simp [h]), List.filter_nil]
  | some prev =>
    simp only [Option.getD_some]
    rw [List.filter_map]
    congr 1
    refine List.filter_congr fun e he => ?_
    rw [Function.comp_apply]
    split
    · rfl
    · rfl

/-- The headers of some names do not depend on those of others. -/
theorem filter_collect (d : Dict) (fields : List Field) :
    (collect d fields).filter (fun e => keep e.1) =
      collect (d.filter fun e => keep e.1) (fields.filter fun f => keep (cstr f.name)) := by
  induction fields generalizing d with
  | nil => rfl
  | cons f fields ih =>
    rw [collect, ih]
    cases h : keep (cstr f.name) with
    | true =>
      rw [filter_addHeader_of_keep keep d f.text h, List.filter_cons, if_pos h]
      rfl
    | false =>
      rw [filter_addHeader_of_drop keep d f.text h, List.filter_cons_of_neg (by simp [h])]

end Filter

/-! ### The framing -/

/-- The headers that tell how the body comes. -/
def isFraming (name : Bytes) : Bool :=
  upper name == str "CONTENT-LENGTH" || upper name == str "TRANSFER-ENCODING"

/-- One message in both framings. -/
structure Framings where
  withLength : Response
  inChunks : Response
  content : Bytes
  chunks : List Chunk
  last : LastChunk
  length_body : withLength.body = .length content
  chunked_body : inChunks.body = .chunked chunks last
  content_eq : (chunks.map Chunk.data).flatten = content
  status_eq : withLength.status = inChunks.status
  fields_eq : (withLength.fields.filter fun f => !isFraming f.name) =
    inChunks.fields.filter fun f => !isFraming f.name

/-- A dictionary apart from the headers that tell how the body comes. -/
def apart (data : Dict) : Dict :=
  data.map fun
    | (key, .dict m_Headers) =>
        if key = str "Headers" then (key, .dict (m_Headers.filter fun e => !isFraming e.1))
        else (key, .dict m_Headers)
    | e => e

/-- A response is delivered as some dictionary, but for the headers that tell how its body
comes. -/
def DeliveredApart (m_JSON : Bool) (r : Response) (data : Dict) :
    Prop :=
  ∃ (d : Reads r.bytes) (data' : Dict) (m_JSON' : Bool),
    DeliveredAs m_JSON d data' m_JSON' ∧ apart data' = data

/-- Both framings are delivered as the same dictionary, or neither is delivered. -/
def FramingIndependent (m_JSON : Bool) (f : Framings) : Prop :=
  ∀ data, DeliveredApart m_JSON f.withLength data ↔
    DeliveredApart m_JSON f.inChunks data

/-- A response in one read. -/
def Reads.whole (r : Response) : Reads r.bytes where
  reads := [r.bytes]
  ne_nil := by
    intro read hmem
    rw [List.mem_singleton.mp hmem]
    simp [Response.bytes, Response.head]
  flatten_eq := List.flatten_singleton

theorem Reads.whole_harmless (r : Response) : (Reads.whole r).Harmless := by
  intro done h hnil hall
  exfalso
  have hwhole : done <+: r.bytes :: [] := h
  rcases List.prefix_cons_iff.mp hwhole with hdone | ⟨more, hdone, hmore⟩
  · exact hnil hdone
  · rw [List.prefix_nil.mp hmore] at hdone
    exact hall hdone

theorem deliveredApart_iff (m_JSON : Bool) (r : Response)
    (data : Dict) : DeliveredApart m_JSON r data ↔
      r.Legible ∧ (r.delivered m_JSON).map apart = .ok data := by
  rw [map_eq_ok_iff]
  constructor
  · rintro ⟨d, data', m_JSON', h, rfl⟩
    obtain ⟨⟨hlegible, -⟩, -, hdata⟩ := (deliveredAs_iff m_JSON d).mp h
    exact ⟨hlegible, _, hdata, rfl⟩
  · rintro ⟨hlegible, data', hdata, rfl⟩
    exact ⟨Reads.whole r, _, _, (deliveredAs_iff m_JSON _).mpr
      ⟨⟨hlegible, Reads.whole_harmless r⟩, rfl, hdata⟩, rfl⟩

theorem apart_responseDict (m_Status : Bytes) (m_Headers : Dict) (payload : Bytes)
    (value : PyValue) : apart (responseDict m_Status m_Headers (dataEntry payload value)) =
      responseDict m_Status (m_Headers.filter fun e => !isFraming e.1)
        (dataEntry payload value) := by
  have hdata : apart (dataEntry payload value) = dataEntry payload value := by
    have hkey : ¬ str "Data" = str "Headers" := by decide
    unfold dataEntry
    split
    · rfl
    · cases value with
      | dict d => exact congrArg (· :: []) (if_neg hkey)
      | _ => rfl
  have happ : apart (responseDict m_Status m_Headers (dataEntry payload value)) =
      [(str "Status", .text (cstr m_Status)),
        (str "Headers", .dict (m_Headers.filter fun e => !isFraming e.1))] ++
      apart (dataEntry payload value) := by
    unfold responseDict apart
    rw [List.map_append]
    rfl
  rw [happ, hdata]
  rfl

/-- A name that tells how the body comes has no null byte. -/
theorem cstr_of_isFraming {name : Bytes} (h : isFraming name = true) : cstr name = name := by
  apply cstr_of_notMem
  intro hmem
  have hzero : (0 : UInt8) ∈ upper name := List.mem_map.mpr ⟨0, hmem, by decide⟩
  rcases (Bool.or_eq_true _ _).mp h with h | h
  · rw [beq_iff_eq.mp h] at hzero
    exact absurd hzero (by decide)
  · rw [beq_iff_eq.mp h] at hzero
    exact absurd hzero (by decide)

/-- The headers that do not tell how the body comes. -/
theorem headers_apart (r : Response) (h : r.reading.2 = none) :
    (r.reading.1.m_Headers.filter fun e => !isFraming e.1) =
      collect [] ((r.fields.filter fun f => !isFraming f.name).filter
        fun f => !isFraming (cstr f.name)) := by
  have hcollect : r.reading.1.m_Headers = collect [] r.fields := read_headers _ _ h
  rw [hcollect, filter_collect fun name => !isFraming name, List.filter_filter]
  refine congrArg (collect []) (List.filter_congr fun f _ => ?_)
  cases hf : isFraming f.name with
  | true => simp [cstr_of_isFraming hf, hf]
  | false => simp

/-- A body in chunks is not translated. -/
theorem Framings.exists_delivered_inChunks (f : Framings) (m_JSON : Bool) :
    ∃ data, f.inChunks.delivered m_JSON = .ok data := by
  rw [Response.exists_delivered_iff, Response.Passes, f.chunked_body]
  exact fun _ => trivial

/-- What is delivered differs where content is taken for JSON. -/
theorem Framings.apart_eq_iff (f : Framings) (m_JSON : Bool) (hlength : f.withLength.Legible)
    (hchunks : f.inChunks.Legible) :
    (f.withLength.delivered m_JSON).map apart = (f.inChunks.delivered m_JSON).map apart ↔
      (m_JSON = true ∨ f.withLength.declaresJson = true → f.content = []) := by
  have hread := ((Response.legible_iff _).mp hlength).1
  have hread' := ((Response.legible_iff _).mp hchunks).1
  have hcontent : f.withLength.body.content = f.content := by rw [f.length_body]; rfl
  have hcontent' : f.inChunks.body.content = f.content := by
    rw [f.chunked_body]
    exact f.content_eq
  obtain ⟨data, hdata⟩ := f.exists_delivered_inChunks m_JSON
  obtain ⟨value, rfl, hvalue⟩ := (f.inChunks.delivered_eq_ok_iff m_JSON).mp hdata
  rw [hcontent', f.chunked_body] at hvalue
  rw [hdata, hcontent', ← Bool.or_eq_true]
  have hmap : Except.map apart (.ok (responseDict f.inChunks.status f.inChunks.reading.1.m_Headers
      (dataEntry f.content value)) : Except Halt Dict) = .ok (responseDict f.inChunks.status
        (f.inChunks.reading.1.m_Headers.filter fun e => !isFraming e.1)
          (dataEntry f.content value)) := congrArg Except.ok (apart_responseDict ..)
  rw [hmap, map_eq_ok_iff]
  simp only [f.withLength.delivered_eq_ok_iff m_JSON, f.length_body, Body.content]
  constructor
  · rintro ⟨-, ⟨value', rfl, hvalue'⟩, heq⟩ hj
    by_contra hne
    rw [apart_responseDict] at heq
    have hsame := hvalue hne
    obtain ⟨t, rfl, -⟩ := if_pos hj ▸ hvalue' hne
    rcases dataEntry_inj.mp (responseDict_inj heq) with hnil | heq
    · exact hne hnil
    · rw [hsame] at heq
      cases heq
  · intro h
    refine ⟨_, ⟨value, rfl, fun hne => ?_⟩, ?_⟩
    · rw [if_neg fun hj => hne (h hj), hvalue hne]
    · rw [apart_responseDict, f.status_eq, headers_apart _ hread, headers_apart _ hread',
        f.fields_eq]

/-- **Both framings are delivered as the same dictionary exactly if both can be delivered or neither
can, and there is no content that is taken for JSON.** -/
theorem framingIndependent_iff (m_JSON : Bool) (f : Framings) : FramingIndependent m_JSON f ↔
    (f.withLength.Legible ∧ f.withLength.Passes m_JSON ↔ f.inChunks.Legible) ∧
      (f.withLength.Legible ∧ f.withLength.Passes m_JSON →
        m_JSON = true ∨ f.withLength.declaresJson = true → f.content = []) := by
  have hchunks : ∃ data, (f.inChunks.delivered m_JSON).map apart = .ok data := by
    obtain ⟨data, hdata⟩ := f.exists_delivered_inChunks m_JSON
    exact ⟨apart data, by rw [hdata]; rfl⟩
  have hlength : (∃ data, (f.withLength.delivered m_JSON).map apart = .ok data) ↔
      f.withLength.Passes m_JSON := by
    rw [← Response.exists_delivered_iff]
    simp only [map_eq_ok_iff]
    exact ⟨fun ⟨_, data, hdata, _⟩ => ⟨data, hdata⟩, fun ⟨data, hdata⟩ => ⟨_, data, hdata, rfl⟩⟩
  unfold FramingIndependent
  simp only [deliveredApart_iff]
  constructor
  · intro h
    have hboth : f.withLength.Legible ∧ f.withLength.Passes m_JSON ↔ f.inChunks.Legible := by
      constructor
      · rintro ⟨hl, hpasses⟩
        obtain ⟨data, hdata⟩ := hlength.mpr hpasses
        exact ((h data).mp ⟨hl, hdata⟩).1
      · intro hc
        obtain ⟨data, hdata⟩ := hchunks
        obtain ⟨hl, hdata'⟩ := (h data).mpr ⟨hc, hdata⟩
        exact ⟨hl, hlength.mp ⟨data, hdata'⟩⟩
    refine ⟨hboth, fun hl => ?_⟩
    obtain ⟨data, hdata⟩ := hlength.mpr hl.2
    rw [← f.apart_eq_iff m_JSON hl.1 (hboth.mp hl), hdata]
    exact ((h data).mp ⟨hl.1, hdata⟩).2.symm
  · rintro ⟨hboth, hjson⟩ data
    constructor
    · rintro ⟨hl, hdata⟩
      have hok := And.intro hl (hlength.mp ⟨data, hdata⟩)
      have heq := (f.apart_eq_iff m_JSON hl (hboth.mp hok)).mpr (hjson hok)
      exact ⟨hboth.mp hok, heq.symm.trans hdata⟩
    · rintro ⟨hc, hdata⟩
      have hok := hboth.mpr hc
      have heq := (f.apart_eq_iff m_JSON hok.1 hc).mpr (hjson hok)
      exact ⟨hok.1, heq.trans hdata⟩

/-- `Content-Type: application/json`. -/
def jsonType : Field where
  name := str "Content-Type"
  value := str " application/json"
  name_ne := by decide
  name_ok := by decide
  value_ok := by decide

/-- `Content-Length: 2`. -/
def lengthTwo : Field where
  name := str "Content-Length"
  value := str " 2"
  name_ne := emptyLength.name_ne
  name_ok := emptyLength.name_ok
  value_ok := by decide

/-- `Transfer-Encoding: chunked`. -/
def encodingChunked : Field where
  name := str "Transfer-Encoding"
  value := str " chunked"
  name_ne := by decide
  name_ok := by decide
  value_ok := by decide

/-- `HTTP/1.1 200 OK` with the content `{}` and its length. -/
def okTwo (fields : List Field) (declared : Declares fields (.length (str "{}"))) : Response where
  minor := chr '1'
  status := str "200"
  reason := str "OK"
  fields := fields
  body := .length (str "{}")
  minor_ok := emptyOk.minor_ok
  status_ok := emptyOk.status_ok
  reason_ok := emptyOk.reason_ok
  declared := declared

/-- An empty object as JSON, in both framings. -/
def emptyObject : Framings where
  withLength := okTwo [jsonType, lengthTwo] (by
    refine ⟨⟨lengthTwo, by simp, by decide⟩, ?_, ?_⟩
    · simp only [List.forall_mem_cons]
      exact ⟨by decide, by decide, nofun⟩
    · simp only [List.forall_mem_cons]
      exact ⟨by decide, by decide, nofun⟩)
  inChunks :=
    { minor := chr '1'
      status := str "200"
      reason := str "OK"
      fields := [jsonType, encodingChunked]
      body := .chunked [⟨str "2", [], str "{}", by decide, List.all_eq_true.mp rfl, by decide,
        ⟨nofun, by decide⟩, by decide, by decide⟩]
        ⟨str "0", [], [], by decide, fun _ hb => List.mem_singleton.mp hb, ⟨nofun, by decide⟩⟩
      minor_ok := emptyOk.minor_ok
      status_ok := emptyOk.status_ok
      reason_ok := emptyOk.reason_ok
      declared := by
        refine ⟨⟨encodingChunked, by simp, by decide⟩, ?_⟩
        simp only [List.forall_mem_cons]
        exact ⟨by decide, by decide, nofun⟩ }
  content := str "{}"
  chunks := _
  last := _
  length_body := rfl
  chunked_body := rfl
  content_eq := by decide
  status_eq := rfl
  fields_eq := rfl

/-- The header set declares JSON, and only the content that comes with its length is translated. -/
theorem json_framing_differs : ¬ ∀ f : Framings, FramingIndependent false f := by
  intro h
  have hlength : emptyObject.withLength.Legible :=
    (Response.legible_iff _).mpr ⟨by decide, by
      show emptyObject.withLength.reading.1.m_ContentLength = 2
      decide⟩
  have hchunks : emptyObject.inChunks.Legible :=
    (Response.legible_iff _).mpr ⟨by decide, by
      show emptyObject.inChunks.reading.1.m_Chunked = true
      decide⟩
  obtain ⟨data, hdata⟩ := emptyObject.exists_delivered_inChunks false
  have hmap : (emptyObject.inChunks.delivered false).map apart = .ok (apart data) := by
    rw [hdata]
    rfl
  have heq := (deliveredApart_iff _ _ _).mp
    ((h emptyObject _).mpr ((deliveredApart_iff _ _ _).mpr ⟨hchunks, hmap⟩))
  have hnil := (emptyObject.apart_eq_iff false hlength hchunks).mp (heq.2.trans hmap.symm)
    (.inr (by decide))
  exact absurd hnil (by decide)

/-! ### The history -/

/-- A response, and the reads in which it arrives. -/
structure Arrival where
  response : Response
  reads : Reads response.bytes

/-- The reads of some responses, one after the other. -/
def readsOf (arrivals : List Arrival) : List Bytes := arrivals.flatMap fun a => a.reads.reads

/-- Some of the responses have declared JSON. -/
def anyJson (arrivals : List Arrival) : Bool := arrivals.any fun a => a.response.declaresJson

/-- Behind other responses, in whatever reads they came, a response is delivered as if it were the
first of its connection. -/
def HistoryIndependent (past : List Arrival) (a : Arrival) : Prop :=
  ∀ data, (∃ p events m_JSON', runs {} (readsOf past) = some (p, events) ∧
      runs p a.reads.reads = some ({ m_JSON := m_JSON' }, [.onMessage data])) ↔
    ∃ m_JSON', DeliveredAs false a.reads data m_JSON'

/-- Each of the responses is delivered whole: its headers can be read, it is cut at harmless places,
and content that is taken for JSON is translated. -/
def Regular : Bool → List Arrival → Prop
  | _, [] => True
  | m_JSON, a :: arrivals => (a.response.Legible ∧ a.reads.Harmless ∧ a.response.Passes m_JSON) ∧
      Regular (m_JSON || a.response.declaresJson) arrivals

/-- A response may follow others: they are delivered whole, and its content is not taken for JSON
because of one of them. -/
structure Follows (past : List Arrival) (a : Arrival) : Prop where
  regular : Regular false past
  plain : a.response.Legible ∧ a.reads.Harmless → a.response.Plain (anyJson past)

/-- A response that is delivered leaves `m_JSON`, and nothing else. -/
theorem runs_of_regular {m_JSON : Bool} {past : List Arrival} (h : Regular m_JSON past) :
    ∃ events, runs { m_JSON } (readsOf past) =
      some ({ m_JSON := m_JSON || anyJson past }, events) := by
  induction past generalizing m_JSON with
  | nil => exact ⟨[], by rw [anyJson, List.any_nil, Bool.or_false]; rfl⟩
  | cons a past ih =>
    obtain ⟨⟨hlegible, hharmless, hpasses⟩, hpast⟩ := h
    obtain ⟨data, hdata⟩ := (a.response.exists_delivered_iff m_JSON).mpr hpasses
    have hfirst := (deliveredAs_iff m_JSON a.reads).mpr ⟨⟨hlegible, hharmless⟩, rfl, hdata⟩
    obtain ⟨events, hrest⟩ := ih hpast
    refine ⟨_, runs_append_iff.mpr ⟨_, _, events, hfirst, ?_, rfl⟩⟩
    rw [anyJson, List.any_cons, ← Bool.or_assoc]
    exact hrest

/-- What an earlier response left shows in content that is not JSON. -/
theorem delivered_eq_fresh_iff (m_JSON : Bool) (r : Response) :
    r.delivered m_JSON = r.delivered false ↔ r.Plain m_JSON := by
  unfold Response.delivered Response.Plain
  cases hb : r.body with
  | chunked chunks last => exact iff_of_true rfl fun _ => .inr trivial
  | length content =>
    simp only [Bool.false_or]
    cases m_JSON with
    | false => exact iff_of_true (by rw [Bool.false_or]) fun h => by cases h
    | true =>
      cases r.declaresJson with
      | true => exact iff_of_true rfl fun _ => .inl rfl
      | false =>
        simp only [Bool.true_or, forall_const, Bool.false_eq_true, false_or]
        constructor
        · intro h
          by_contra hne
          unfold bodyEntry at h
          rw [if_neg (mt List.isEmpty_iff.mp hne), if_neg (mt List.isEmpty_iff.mp hne)] at h
          cases ht : PythonJson.translate content with
          | error halt =>
            rw [ht] at h
            cases h
          | ok t =>
            rw [ht] at h
            have hentry := responseDict_inj (Except.ok.inj h)
            cases hentry
        · rintro rfl
          rfl

/-- Behind responses that are delivered whole, the next one is delivered as if it were the first
exactly if its content is not taken for JSON because of them, unless it is not delivered at all. -/
theorem independent_iff_of_regular {past : List Arrival} (hpast : Regular false past) (a : Arrival) :
    HistoryIndependent past a ↔
      (a.response.Legible ∧ a.reads.Harmless → a.response.Plain (anyJson past)) := by
  obtain ⟨events, hrun⟩ := runs_of_regular hpast
  rw [Bool.false_or] at hrun
  have hafter (data : Dict) : (∃ p events m_JSON', runs {} (readsOf past) = some (p, events) ∧
      runs p a.reads.reads = some ({ m_JSON := m_JSON' }, [.onMessage data])) ↔
        ∃ m_JSON', DeliveredAs (anyJson past) a.reads data m_JSON' := by
    constructor
    · rintro ⟨p, events', m_JSON', hp, hnext⟩
      cases hrun.symm.trans hp
      exact ⟨m_JSON', hnext⟩
    · rintro ⟨m_JSON', hnext⟩
      exact ⟨_, events, m_JSON', hrun, hnext⟩
  have hdelivered (m_JSON : Bool) (data : Dict) : (∃ m_JSON', DeliveredAs m_JSON a.reads data m_JSON') ↔
      (a.response.Legible ∧ a.reads.Harmless) ∧ a.response.delivered m_JSON = .ok data := by
    simp only [deliveredAs_iff, exists_and_left, exists_and_right, exists_eq, true_and]
  unfold HistoryIndependent
  simp only [hafter, hdelivered]
  rw [← delivered_eq_fresh_iff]
  constructor
  · intro h hok
    -- on a new connection the content is not translated if it is not JSON
    by_contra hne
    have hplain := mt (delivered_eq_fresh_iff (anyJson past) a.response).mpr hne
    have hnot : a.response.declaresJson = false := by
      by_contra hj
      exact hplain fun _ => .inl (Bool.eq_true_of_not_eq_false hj)
    obtain ⟨data, hdata⟩ := (a.response.exists_delivered_iff false).mpr fun hj => by
      rcases hj with hj | hj
      · cases hj
      · rw [hnot] at hj
        cases hj
    exact hne (((h data).mpr ⟨hok, hdata⟩).2.trans hdata.symm)
  · intro h data
    exact and_congr_right fun hok => by rw [h hok]

/-- An empty response, twice. -/
def emptyTwice : List Arrival := [⟨emptyOk, Reads.whole _⟩, ⟨emptyOk, Reads.whole _⟩]

/-- An empty response that declares JSON. -/
def emptyJson : Response where
  minor := chr '1'
  status := str "200"
  reason := str "OK"
  fields := [jsonType, emptyLength]
  body := .length []
  minor_ok := emptyOk.minor_ok
  status_ok := emptyOk.status_ok
  reason_ok := emptyOk.reason_ok
  declared := by
    refine ⟨⟨emptyLength, by simp, by decide⟩, ?_, ?_⟩
    · simp only [List.forall_mem_cons]
      exact ⟨by decide, by decide, nofun⟩
    · simp only [List.forall_mem_cons]
      exact ⟨by decide, by decide, nofun⟩

/-- `{}` without a content type, with its length. -/
def untyped : Response := okTwo [lengthTwo] (by
  refine ⟨⟨lengthTwo, by simp, by decide⟩, ?_, ?_⟩
  · simp only [List.forall_mem_cons]
    exact ⟨by decide, nofun⟩
  · simp only [List.forall_mem_cons]
    exact ⟨by decide, nofun⟩)

theorem untyped_legible : untyped.Legible := (Response.legible_iff _).mpr ⟨by decide, by
  show untyped.reading.1.m_ContentLength = 2
  decide⟩

/-- The content shows what an earlier response left. -/
theorem untyped_not_plain : ¬ untyped.Plain true := by
  intro h
  rcases h rfl with hj | hnil
  · exact absurd hj (by decide)
  · have hcontent : str "{}" = [] := hnil
    exact absurd hcontent (by decide)

end Domoticz.Http
