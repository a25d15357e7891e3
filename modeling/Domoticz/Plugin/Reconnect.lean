import Domoticz.Plugin.HttpFraming
import Domoticz.Plugin.MqttPacket
import Domoticz.Plugin.Protocol

/-!
# Reconnecting

When a connection ends, `CPlugin::DisconnectEvent` calls `Flush` on the protocol object and
deletes the transport; `CPlugin::ConnectionConnect` makes a new transport and keeps the protocol
object.  `Flush` clears the retained data and nothing else, and that of HTTP not even that when
the parse throws.

## Main definitions

* `Connection`, `disconnectEvent`, `connectionConnect` — the code.
* `Action`, `after` — what may happen to a protocol object.
* `Isolated` — after a reconnect the connection is like a new one.
* `Forgets` — the tag, the error flag and the JSON flag are as in a new object, and what HTTP
  retains can be read.

## Main results

* `isolated_iff` — **a new session is isolated exactly from one that leaves nothing behind.**
* `tag_remembered` — a connection that ends behind a start tag.
-/

namespace Domoticz

open CLib

/-! ### What a parse of HTTP depends on -/

namespace Http

/-- The data has headers that can be read, and the texts of its message are there and are UTF-8: the
status of a response whose body is there, and the verb and the URL of a request. -/
def Readable (sData : Bytes) : Prop :=
  match (extractHeaders false sData).2 with
  | .error _ => False
  | .ok rest =>
      if sData.take 4 = str "HTTP" then
        let m_Status := upTo (chr ' ') (past (chr ' ') (upTo CR sData))
        rest ≠ [] → m_Status ≠ [] →
          ((extractHeaders false sData).1.m_Chunked = true → chunkLoop [] (past LF rest) ≠ none) →
            buildString m_Status ≠ none
      else rest.take 2 = [CR, LF] →
        buildString (upTo (chr ' ') (upToLast (chr ' ') (upTo CR sData))) ≠ none ∧
          ∃ sURL, urlOf? (upToLast (chr ' ') (upTo CR sData)) = some sURL ∧ buildString sURL ≠ none

theorem ofDict_halts_iff {made : Except Halt Dict} :
    (∃ halt, Result.ofDict made = .halts halt) ↔ ∀ data, made ≠ .ok data := by
  cases made with
  | error halt => exact iff_of_true ⟨halt, rfl⟩ fun data h => by cases h
  | ok data =>
    refine iff_of_false ?_ fun h => h data rfl
    rintro ⟨halt, h⟩
    cases h

theorem waits_ne_halts : ¬ ∃ halt, Result.waits = .halts halt := by
  rintro ⟨halt, h⟩
  cases h

section Attempt

variable (flush m_JSON : Bool) (sData : Bytes)

/-- `m_JSON` after a parse is what the headers made of it. -/
theorem attempt_fst :
    (attempt flush m_JSON sData).1 = (extractHeaders m_JSON sData).1.m_JSON := by
  unfold attempt attemptResponse attemptRequest
  cases extractHeaders m_JSON sData with
  | mk st result =>
    cases result with
    | error halt => split <;> rfl
    | ok rest =>
      split
      · rfl
      · simp only
        split
        · split <;> rfl
        · rfl

theorem queueResponse_halts_iff (m_Status : Bytes) (m_Headers data : Dict) :
    (∃ halt, queueResponse m_Status m_Headers (.ok data) = .halts halt) ↔
      buildString m_Status = none := by
  unfold queueResponse
  by_cases hstatus : buildString m_Status = none
  · rw [if_pos hstatus]
    exact iff_of_true ⟨_, rfl⟩ hstatus
  · rw [if_neg hstatus]
    refine iff_of_false ?_ hstatus
    rintro ⟨halt, h⟩
    cases h

/-- The last parse of a response, if its content is not taken for JSON. -/
theorem processBody_halts_iff (m_Status : Bytes) (st : HeaderState) (rest : Bytes)
    (hjson : st.m_JSON = false) : (∃ halt, processBody true m_Status st rest = .halts halt) ↔
      ¬ (rest ≠ [] → m_Status ≠ [] →
        (st.m_Chunked = true → chunkLoop [] (past LF rest) ≠ none) →
          buildString m_Status ≠ none) := by
  unfold processBody
  by_cases hrest : rest = []
  · simp [hrest]
  · have hempty : ¬ rest.isEmpty = true := mt List.isEmpty_iff.mp hrest
    rw [if_neg hempty]
    by_cases hstatus : m_Status = []
    · simp [hstatus]
    · have hfirst : ¬ m_Status.isEmpty = true := mt List.isEmpty_iff.mp hstatus
      simp only [hfirst, Bool.false_eq_true, if_false, ne_eq, hrest, not_false_iff, hstatus,
        forall_const]
      cases hchunked : st.m_Chunked with
      | true =>
        cases hloop : chunkLoop [] (past LF rest) with
        | none => simp
        | some sPayload =>
          simp only [if_true, forall_const, reduceCtorEq, not_false_iff, not_not]
          exact queueResponse_halts_iff _ _ _
      | false =>
        obtain ⟨entry, hentry⟩ : ∃ entry, bodyEntry false (past LF rest) = .ok entry := by
          unfold bodyEntry
          split
          · exact ⟨_, rfl⟩
          · exact ⟨_, rfl⟩
        simp only [Bool.false_eq_true, if_false, or_true, if_true, false_imp_iff, forall_const,
          not_not, hjson, hentry]
        exact queueResponse_halts_iff _ _ _

/-- The last parse of a connection, for what is left of its data, if nothing says JSON. -/
theorem attempt_halts_iff (hjson : (extractHeaders false sData).1.m_JSON = false) :
    (∃ halt, (attempt true false sData).2 = .halts halt) ↔ ¬ Readable sData := by
  unfold Readable attempt attemptResponse attemptRequest
  cases he : extractHeaders false sData with
  | mk st result =>
    rw [he] at hjson
    cases result with
    | error halt => split <;> simp
    | ok rest =>
      by_cases hhttp : sData.take 4 = str "HTTP"
      · simp only [if_pos hhttp]
        exact processBody_halts_iff _ st rest hjson
      · simp only [if_neg hhttp]
        by_cases hend : rest.take 2 = [CR, LF]
        · simp only [hend, if_true, or_true, forall_const]
          rw [ofDict_halts_iff, not_and_or]
          simp only [ne_eq, requestDict_eq_ok_iff, not_and_or, not_not]
          constructor
          · intro h
            by_cases hverb :
                buildString (upTo (chr ' ') (upToLast (chr ' ') (upTo CR sData))) = none
            · exact .inl hverb
            · refine .inr ?_
              rintro ⟨sURL, hurl, hsome⟩
              rcases h _ with hnone | hnone
              · exact hverb hnone
              · exact hnone ⟨sURL, hurl, hsome, rfl⟩
          · rintro (hverb | hurl) data
            · exact .inl hverb
            · refine .inr ?_
              rintro ⟨sURL, hsome, hbuild, -⟩
              exact hurl ⟨sURL, hsome, hbuild⟩
        · simp only [hend, if_false, false_imp_iff, not_true, iff_false]
          exact waits_ne_halts

theorem queueResponse_key {m_Status : Bytes} {m_Headers data : Dict} {made : Except Halt Dict}
    (h : queueResponse m_Status m_Headers made = .delivers data) :
    data.head?.map Prod.fst = some (str "Status") := by
  unfold queueResponse at h
  split at h
  · cases h
  · obtain ⟨entry, -, rfl⟩ := map_eq_ok_iff.mp (Result.ofDict_eq_delivers_iff.mp h)
    rfl

theorem processBody_key (m_Status : Bytes) (st : HeaderState) {data : Dict}
    (h : processBody flush m_Status st sData = .delivers data) :
    data.head?.map Prod.fst = some (str "Status") := by
  unfold processBody at h
  split at h
  · cases h
  · simp only at h
    split at h
    · cases h
    · split at h
      · split at h
        · cases h
        · exact queueResponse_key h
      · split at h
        · exact queueResponse_key h
        · cases h

/-- The first key tells a response from a request. -/
theorem attempt_key {data : Dict}
    (h : (attempt flush m_JSON sData).2 = .delivers data) :
    data.head?.map Prod.fst =
      some (if sData.take 4 = str "HTTP" then str "Status" else str "Verb") := by
  unfold attempt attemptResponse attemptRequest at h
  cases he : extractHeaders m_JSON sData with
  | mk st result =>
    rw [he] at h
    cases result with
    | error halt =>
      split at h
      · cases h
      · cases h
    | ok rest =>
      split at h
      · next hhttp =>
        rw [if_pos hhttp]
        exact processBody_key flush rest _ st h
      · next hhttp =>
        rw [if_neg hhttp]
        simp only at h
        split at h
        · split at h
          · obtain ⟨-, sURL, -, -, rfl⟩ :=
              (requestDict_eq_ok_iff _ _ _ _).mp (Result.ofDict_eq_delivers_iff.mp h)
            rfl
          · cases h
        · cases h

end Attempt

/-- What a read puts out, and the data it was parsed with. -/
theorem processInbound_key {p : Protocol} {read : Bytes} {data : Dict}
    (h : (processInbound p read).map Prod.snd = some [.onMessage data]) :
    data.head?.map Prod.fst = some (if (p.m_sRetainedData ++ read).take 4 = str "HTTP" then
      str "Status" else str "Verb") := by
  have hhead (d : Dict)
      (h : (attempt read.isEmpty p.m_JSON (p.m_sRetainedData ++ read)).2 = .delivers d) :=
    attempt_key read.isEmpty p.m_JSON (p.m_sRetainedData ++ read) h
  unfold processInbound at h
  cases ha : attempt read.isEmpty p.m_JSON (p.m_sRetainedData ++ read) with
  | mk m_JSON result =>
    rw [ha] at hhead
    simp only [ha] at h
    cases result with
    | waits => cases h
    | halts halt => cases halt <;> cases h
    | delivers data' =>
      cases h
      exact hhead data rfl

/-! ### Messages that show what was left -/

/-- A request without headers. -/
def bareRequest : Bytes := str "GET / HTTP/1.1" ++ [CR, LF, CR, LF]

theorem bareRequest_delivered :
    ∃ data, (processInbound {} bareRequest).map Prod.snd = some [.onMessage data] := by
  have hheaders : extractHeaders false bareRequest = ({ m_JSON := false }, .ok [CR, LF]) := by
    have hbehind : past LF bareRequest = [CR, LF] := by decide
    rw [extractHeaders, hbehind, extractLines]
    rfl
  have hempty : bareRequest.isEmpty = false := by decide
  have hline : upToLast (chr ' ') (upTo CR bareRequest) = str "GET /" := by decide
  have hverb : upTo (chr ' ') (str "GET /") = str "GET" := by decide
  have hurl : urlOf? (str "GET /") = some (str "/") := by decide
  have hascii {s : Bytes} (h : (s.all fun b => decide (b < 128)) = true) :
      buildString s ≠ none := by
    rw [buildString_of_ascii fun b hb => of_decide_eq_true (List.all_eq_true.mp h b hb)]
    exact Option.some_ne_none _
  have hget : buildString (str "GET") ≠ none := hascii rfl
  have hslash : buildString (str "/") ≠ none := hascii rfl
  have hdict := (requestDict_eq_ok_iff (str "GET /") [] [] _).mpr
    ⟨by rw [hverb]; exact hget, str "/", hurl, hslash, rfl⟩
  have hattempt : ∃ data, attempt bareRequest.isEmpty false bareRequest =
      (false, .delivers data) := by
    rw [hempty]
    unfold attempt
    rw [if_neg (by decide)]
    unfold attemptRequest
    rw [hheaders, hline]
    exact ⟨_, Prod.ext rfl (Result.ofDict_eq_delivers_iff.mpr hdict)⟩
  obtain ⟨data, hattempt⟩ := hattempt
  refine ⟨data, ?_⟩
  unfold processInbound
  simp only [List.nil_append, hattempt]
  rfl

theorem untyped_delivered_iff (m_JSON : Bool) (data : Dict) :
    (processInbound { m_JSON } untyped.bytes).map Prod.snd = some [.onMessage data] ↔
      untyped.delivered m_JSON = .ok data := by
  have hdelivered := fun flag => @deliveredAs_iff m_JSON untyped (Reads.whole untyped) data flag
  have hreads : (Reads.whole untyped).reads = [untyped.bytes] := rfl
  simp only [DeliveredAs, hreads] at hdelivered
  constructor
  · intro h
    obtain ⟨⟨q, events⟩, hread, hevents⟩ := Option.map_eq_some_iff.mp h
    obtain rfl : events = [.onMessage data] := hevents
    rcases processInbound_cases hread with ⟨hnil, -⟩ | ⟨-, hret⟩
    · cases hnil
    obtain ⟨retained, flag⟩ := q
    obtain rfl : retained = [] := hret
    exact ((hdelivered flag).mp (runs_cons_iff.mpr ⟨_, _, [], hread, rfl, rfl⟩)).2.2
  · intro h
    obtain ⟨p', e, e', hread, hrest, hevents⟩ := runs_cons_iff.mp
      ((hdelivered _).mpr ⟨⟨untyped_legible, Reads.whole_harmless _⟩, rfl, h⟩)
    cases hrest
    rw [List.append_nil] at hevents
    rw [hread, hevents]
    rfl

theorem untyped_delivered :
    ∃ data, (processInbound {} untyped.bytes).map Prod.snd = some [.onMessage data] := by
  obtain ⟨data, hdata⟩ := (untyped.exists_delivered_iff false).mpr fun hj => by
    rcases hj with hj | hj
    · cases hj
    · exact absurd hj (by decide)
  exact ⟨data, (untyped_delivered_iff false data).mpr hdata⟩

theorem untyped_shows : (processInbound { m_JSON := true } untyped.bytes).map Prod.snd ≠
    (processInbound {} untyped.bytes).map Prod.snd := by
  intro h
  obtain ⟨data, hdata⟩ := untyped_delivered
  have htrue := (untyped_delivered_iff true data).mp (h.trans hdata)
  have hfalse := (untyped_delivered_iff false data).mp hdata
  exact untyped_not_plain ((delivered_eq_fresh_iff true untyped).mp (htrue.trans hfalse.symm))

theorem take_append_HTTP {s : Bytes} (hne : s ≠ []) (h : s.take 4 ≠ str "HTTP") (t : Bytes) :
    (s ++ (str "HTTP" ++ t)).take 4 ≠ str "HTTP" := by
  intro heq
  rcases s with - | ⟨a, - | ⟨b, - | ⟨c, - | ⟨d, s⟩⟩⟩⟩
  · exact hne rfl
  all_goals
    simp [str, chr] at heq h
  exact h heq.1 heq.2.1 heq.2.2.1 heq.2.2.2

/-- Whatever an object has left shows in what it puts out. -/
theorem eq_of_alike {p : Protocol}
    (h : ∀ read, (processInbound p read).map Prod.snd =
      (processInbound {} read).map Prod.snd) : p = {} := by
  obtain ⟨retained, m_JSON⟩ := p
  have hretained : retained = [] := by
    by_contra hne
    by_cases hhttp : retained.take 4 = str "HTTP"
    · -- data of a response makes a response of the request
      obtain ⟨data, hdata⟩ := bareRequest_delivered
      have hfresh := processInbound_key hdata
      have hused := processInbound_key ((h bareRequest).trans hdata)
      have htake : (retained ++ bareRequest).take 4 = str "HTTP" := by
        have hlen : 4 ≤ retained.length := by
          have hlen := congrArg List.length hhttp
          rw [List.length_take] at hlen
          exact le_of_eq_of_le hlen.symm (min_le_right _ _)
        rw [List.take_append_of_le_length hlen, hhttp]
      rw [if_pos htake, hfresh, if_neg (by decide)] at hused
      exact absurd hused (by decide)
    · obtain ⟨data, hdata⟩ := untyped_delivered
      have hfresh := processInbound_key hdata
      have hused := processInbound_key ((h untyped.bytes).trans hdata)
      have hbytes : untyped.bytes = str "HTTP" ++ untyped.bytes.drop 4 := by decide
      have htake : (retained ++ untyped.bytes).take 4 ≠ str "HTTP" := by
        rw [hbytes]
        exact take_append_HTTP hne hhttp _
      rw [if_neg htake, hfresh, if_pos (by decide)] at hused
      exact absurd hused (by decide)
  subst hretained
  cases m_JSON with
  | false => rfl
  | true => exact absurd (h untyped.bytes) untyped_shows

/-- What a parse leaves in an object that came back: the headers of what is retained show in
`m_JSON`. -/
def Left (p : Protocol) : Prop :=
  p.m_sRetainedData ≠ [] → p.m_JSON = false →
    (extractHeaders false p.m_sRetainedData).1.m_JSON = false

theorem left_of_attempt {flush m_JSON m_JSON' : Bool} {sData : Bytes}
    {result : Result} (h : attempt flush m_JSON sData = (m_JSON', result)) :
    Left ⟨sData, m_JSON'⟩ := by
  intro _ hjson
  have hfst := attempt_fst flush m_JSON sData
  rw [h] at hfst
  cases m_JSON with
  | false => exact hfst.symm.trans hjson
  | true =>
    have hstays := attempt_json flush sData
    rw [h] at hstays
    cases hstays.symm.trans hjson

theorem left_processInbound {p q : Protocol} {read : Bytes}
    {events : List PluginEvent} (h : processInbound p read = some (q, events)) :
    Left q := by
  unfold processInbound at h
  cases ha : attempt read.isEmpty p.m_JSON (p.m_sRetainedData ++ read) with
  | mk m_JSON result =>
    simp only [ha] at h
    cases result with
    | waits =>
      cases h
      exact left_of_attempt ha
    | halts halt =>
      cases halt with
      | threw =>
        cases h
        exact left_of_attempt ha
      | stuck => cases h
    | delivers data =>
      cases h
      exact fun hne => absurd rfl hne

end Http

/-! ### What the tag and the error flag show -/

namespace XmlStream

/-- `<b></b>`. -/
def elementText (b : UInt8) : Bytes := [0x3C, b, 0x3E, 0x3C, 0x2F, b, 0x3E]

theorem processInbound_element {b : UInt8} (h : b = 0x61 ∨ b = 0x62) :
    (processInbound {} (elementText b)).2 = [elementText b] := by
  have htop : topLevel [] (elementText b) = some ([b], elementText b) := by
    rcases h with rfl | rfl <;> rfl
  have hpos : find (endTag [b]) (elementText b) = some 3 := by
    rcases h with rfl | rfl <;> rfl
  show (loop [] (elementText b)).1 = _
  rw [loop_of_found htop hpos]
  show _ :: (loop [] []).1 = _
  rw [loop_of_none rfl]
  rfl

theorem eq_of_endTag_isInfix {m_Tag : Bytes} {b : UInt8} (hb : b = 0x61 ∨ b = 0x62)
    (h : endTag m_Tag <:+: elementText b) : m_Tag = [b] := by
  obtain ⟨s, t, heq⟩ := h
  have htag : endTag m_Tag = 0x3C :: 0x2F :: (m_Tag ++ [0x3E]) := rfl
  rw [htag] at heq
  -- `</` stands at one place only
  rcases s with - | ⟨s₀, - | ⟨s₁, - | ⟨s₂, - | ⟨s₃, - | ⟨s₄, - | ⟨s₅, - | ⟨s₆, s⟩⟩⟩⟩⟩⟩⟩
  all_goals
    rcases hb with rfl | rfl
  all_goals
    simp [elementText] at heq
  all_goals
    rcases m_Tag with - | ⟨x, - | ⟨y, m_Tag⟩⟩
  all_goals
    simp at heq
  · rw [heq.2.2.2.1]
  · rw [heq.2.2.2.1]

/-- A tag that is remembered shows. -/
theorem tag_shows {m_Tag : Bytes} (hne : m_Tag ≠ []) :
    ∃ read, (processInbound ⟨m_Tag, []⟩ read).2 ≠ (processInbound {} read).2 := by
  obtain ⟨b, hb, hother⟩ : ∃ b : UInt8, (b = 0x61 ∨ b = 0x62) ∧ m_Tag ≠ [b] := by
    by_cases ha : m_Tag = [0x61]
    · exact ⟨0x62, .inr rfl, by rw [ha]; decide⟩
    · exact ⟨0x61, .inl rfl, ha⟩
  have hpos : find (endTag m_Tag) (elementText b) = none := by
    by_contra hfound
    exact hother (eq_of_endTag_isInfix hb
      (contains_iff_isInfix.mp (Option.isSome_iff_ne_none.mpr hfound)))
  have htop : topLevel m_Tag (elementText b) = some (m_Tag, elementText b) := by
    rw [topLevel, if_neg hne]
  refine ⟨elementText b, ?_⟩
  rw [processInbound_element hb]
  show (loop m_Tag (elementText b)).1 ≠ _
  rw [loop_of_notFound htop hpos]
  exact (List.cons_ne_nil _ _).symm

end XmlStream

namespace Mqtt

/-- The packet `PINGRESP`. -/
def pong : Bytes := ServerPacket.pingresp.encode

theorem pong_delivered (stray : ℕ → UInt8) : (processInbound stray {} pong).2 ≠ [] := by
  have hdecode : decodePacket stray pong = some (some [(str "Verb", .text (str "PINGRESP"))], []) := by
    have hencode := decodePacket_encode stray .pingresp []
    rw [List.append_nil] at hencode
    exact hencode
  have hloop : processRetained stray pong =
      (⟨[], false⟩, [.onMessage [(str "Verb", .text (str "PINGRESP"))]]) := by
    rw [processRetained]
    split
    · next h =>
      rw [hdecode] at h
      cases h
    · next h =>
      rw [hdecode] at h
      cases h
    · next h =>
      rw [hdecode] at h
      cases h
      rfl
  have hinbound : processInbound stray {} pong =
      if (processRetained stray pong).1.m_bErrored then
        ((processRetained stray pong).1, (processRetained stray pong).2 ++ [.disconnected])
      else processRetained stray pong := rfl
  rw [hinbound, hloop]
  exact List.cons_ne_nil _ _

end Mqtt

namespace Connection

open Transducer
open WebSocket (ReadEvent)

/-! ### The code -/

/-- `CPluginTransport`, as far as a reconnect looks at it. -/
structure Transport where
  m_bConnected : Bool

/-- `CConnection`. -/
structure CConnection where
  pProtocol : Option Protocol
  pTransport : Option Transport

/-- `CPlugin::DisconnectEvent`; none when it does not come back.  An exception in `Flush` leaves
it before the transport is removed. -/
def disconnectEvent (c : CConnection) (bNotifyPlugin : Bool) (e : ReadEvent) :
    Option (CConnection × List Queued) :=
  match c.pProtocol with
  | none => some (⟨none, none⟩, if c.pTransport.isSome ∧ bNotifyPlugin then [.onDisconnect] else [])
  | some pProtocol =>
      (pProtocol.flush e).map fun f =>
        if f.threw then (⟨some f.pProtocol, c.pTransport⟩, f.queued)
        else (⟨some f.pProtocol, none⟩, f.queued ++
          if c.pTransport.isSome ∧ bNotifyPlugin then [.onDisconnect] else [])

/-- `CPlugin::ConnectionConnect`, with the transport it makes, if the `Transport` and `Port` of
the connection admit one. -/
def connectionConnect (c : CConnection) (made : Option Transport) : CConnection :=
  if c.pTransport.any Transport.m_bConnected then c
  else ⟨some (c.pProtocol.getD .raw), made.or c.pTransport⟩

/-- What may happen to a protocol object. -/
inductive Action
  | read (e : ReadEvent)
  | write (parameters : PyDict) (m_Object : Option PyObject)
  /-- A `DisconnectDirective` or a `DisconnectedEvent`. -/
  | flush (e : ReadEvent)

/-- What becomes of a protocol object, if the work loop comes back. -/
def Protocol.act (p : Protocol) : Action → Option Protocol
  | .read e => (p.processInbound e).map Prod.fst
  | .write parameters m_Object => some (p.processOutbound parameters m_Object)
  | .flush e => (p.flush e).map Flushed.pProtocol

/-- The protocol behind a history, `none` if the process ended in it. -/
def Protocol.after (p : Protocol) (history : List Action) : Option Protocol :=
  history.foldlM Protocol.act p

/-! ### What a reconnect is to do -/

/-- How a session ends and the next begins. -/
structure Change where
  pTransport : Option Transport
  bNotifyPlugin : Bool
  e : ReadEvent
  made : Option Transport

/-- The protocol object behind `DisconnectEvent` and `ConnectionConnect`. -/
def reconnect (p : Protocol) (change : Change) : Option CConnection :=
  (disconnectEvent ⟨some p, change.pTransport⟩ change.bNotifyPlugin
    change.e).map fun q => connectionConnect q.1 change.made

/-- A reconnect comes back, and whatever is received after it gives the messages it gives on a new
connection. -/
def Isolated (kind : Kind) (history : List Action) : Prop :=
  ∀ p, (create kind).after history = some p →
    ∀ change, ∃ c, reconnect p change = some c ∧
      ∃ q, c.pProtocol = some q ∧ Alike Protocol.processInbound q (create kind)

/-- The members that `Flush` does not clear are as in a new object, and HTTP gets to clear its
retained data. -/
def Protocol.Cleared : Protocol → Prop
  | .xml state => state.m_Tag = []
  | .mqtt p _ => p.m_bErrored = false
  | .http p => p.m_JSON = false ∧ (p.m_sRetainedData = [] ∨ Http.Readable p.m_sRetainedData)
  | _ => True

/-- The history leaves nothing behind. -/
def Forgets (kind : Kind) (history : List Action) : Prop :=
  ∀ p, (create kind).after history = some p → p.Cleared

/-! ### The invariant of a protocol object -/

/-- A protocol object is of its kind, and what HTTP retains has been parsed. -/
def Fits : Kind → Protocol → Prop
  | .Line, .line _ => True
  | .JSON, .json _ => True
  | .XML, .xml _ => True
  | .HTTP, .http p => Http.Left p
  | .MQTT, .mqtt _ _ => True
  | .WS, .ws _ => True
  | _, _ => False

theorem fits_create (kind : Kind) : Fits kind (create kind) := by
  cases kind with
  | HTTP => exact fun hne => absurd rfl hne
  | _ => trivial

/-- An HTTP object after `Flush`. -/
theorem flushHttp_left {p : Http.Protocol} (hp : Http.Left p) {f : Flushed}
    (h : flushHttp p = some f) :
    ∃ q, f.pProtocol = .http q ∧ Http.Left q := by
  unfold flushHttp at h
  split at h
  · cases h
    exact ⟨p, rfl, hp⟩
  · cases ha : Http.attempt true p.m_JSON p.m_sRetainedData with
    | mk m_JSON result =>
      have hcleared : Http.Left ⟨[], m_JSON⟩ := fun hne => absurd rfl hne
      simp only [ha] at h
      cases result with
      | waits =>
        cases h
        exact ⟨_, rfl, hcleared⟩
      | halts halt =>
        cases halt with
        | threw =>
          cases h
          exact ⟨_, rfl, Http.left_of_attempt ha⟩
        | stuck => cases h
      | delivers data =>
        cases h
        exact ⟨_, rfl, hcleared⟩

theorem fits_act {kind : Kind} {p q : Protocol} (hp : Fits kind p) {action : Action}
    (h : p.act action = some q) : Fits kind q := by
  cases action with
  | read e =>
    obtain ⟨⟨q, events⟩, hread, rfl⟩ := Option.map_eq_some_iff.mp h
    cases kind <;> cases p <;> try exact hp.elim
    case HTTP.http p =>
      obtain ⟨out, hinbound, heq⟩ := Option.map_eq_some_iff.mp hread
      cases heq
      exact Http.left_processInbound hinbound
    case JSON.json m_sRetainedData =>
      obtain ⟨out, -, heq⟩ := Option.map_eq_some_iff.mp hread
      cases heq
      trivial
    all_goals
      cases hread
      trivial
  | write parameters m_Object =>
    cases h
    cases kind <;> cases p <;> first | exact hp.elim | exact hp
  | flush e =>
    obtain ⟨f, hflush, rfl⟩ := Option.map_eq_some_iff.mp h
    cases kind <;> cases p <;> try exact hp.elim
    case HTTP.http p =>
      obtain ⟨q, hq, hleft⟩ := flushHttp_left hp hflush
      rw [hq]
      exact hleft
    all_goals
      cases hflush
      trivial

theorem fits_after {kind : Kind} {p q : Protocol} (hp : Fits kind p) {history : List Action}
    (h : p.after history = some q) : Fits kind q := by
  induction history generalizing p with
  | nil =>
    cases h
    exact hp
  | cons action history ih =>
    obtain ⟨p', hact, hrest⟩ := Option.bind_eq_some_iff.mp h
    exact ih (fits_act hp hact) hrest

/-! ### What is left after a reconnect -/

theorem connectionConnect_pProtocol {c : CConnection} {q : Protocol} (h : c.pProtocol = some q)
    (made : Option Transport) : (connectionConnect c made).pProtocol = some q := by
  unfold connectionConnect
  split
  · exact h
  · rw [h]
    rfl

/-- A reconnect leaves the protocol object that `Flush` leaves. -/
theorem reconnect_of_flush {p : Protocol} {change : Change} {f : Flushed}
    (h : p.flush change.e = some f) :
    ∃ c, reconnect p change = some c ∧ c.pProtocol = some f.pProtocol := by
  have hdisconnect : ∃ q, disconnectEvent ⟨some p, change.pTransport⟩ change.bNotifyPlugin change.e =
      some q ∧ q.1.pProtocol = some f.pProtocol := by
    simp only [disconnectEvent, h, Option.map_some, Option.some.injEq, exists_eq_left']
    split
    · rfl
    · rfl
  obtain ⟨q, hq, hleft⟩ := hdisconnect
  exact ⟨connectionConnect q.1 change.made, by rw [reconnect, hq]; rfl,
    connectionConnect_pProtocol hleft _⟩

theorem reconnect_iff (p : Protocol) (Q : Protocol → Prop) :
    (∀ change, ∃ c, reconnect p change = some c ∧ ∃ q, c.pProtocol = some q ∧ Q q) ↔
      ∀ e, ∃ f, p.flush e = some f ∧ Q f.pProtocol := by
  constructor
  · intro h e
    obtain ⟨c, hc, q, hq, hQ⟩ := h ⟨none, false, e, none⟩
    cases hf : p.flush e with
    | none =>
      rw [reconnect, disconnectEvent] at hc
      simp only [hf] at hc
      cases hc
    | some f =>
      obtain ⟨c', hc', hleft⟩ := @reconnect_of_flush p ⟨none, false, e, none⟩ f hf
      cases hc.symm.trans hc'
      cases hq.symm.trans hleft
      exact ⟨f, rfl, hQ⟩
  · intro h change
    obtain ⟨f, hf, hQ⟩ := h change.e
    obtain ⟨c, hc, hleft⟩ := reconnect_of_flush hf
    exact ⟨c, hc, f.pProtocol, hleft, hQ⟩

/-- A read of these bytes. -/
def readOf (m_Buffer : Bytes) : ReadEvent := ⟨m_Buffer, fun _ => 0, fun _ => 0⟩

theorem xml_alike_iff (m_Tag : Bytes) :
    Alike Protocol.processInbound (.xml ⟨m_Tag, []⟩) (create .XML) ↔ m_Tag = [] := by
  constructor
  · intro h
    by_contra hne
    obtain ⟨read, hread⟩ := XmlStream.tag_shows hne
    have hfirst := h.first (readOf read)
    injection hfirst with hfirst
    exact hread (List.map_injective_iff.mpr (fun a b hab => by injection hab) hfirst)
  · intro h
    subst h
    exact Alike.refl _

/-- The counter of the packets that are sent does not show in what is received. -/
theorem mqtt_alike (p : Mqtt.Protocol) (i j : ℤ) :
    Alike Protocol.processInbound (.mqtt p i) (.mqtt p j) := by
  refine alike_of_simulation (R := fun s t => ∃ p i j, s = .mqtt p i ∧ t = .mqtt p j) ?_
    ⟨p, i, j, rfl, rfl⟩
  rintro s t e ⟨p, i, j, rfl, rfl⟩
  refine ⟨some (.mqtt (Mqtt.processInbound e.strayRetained p e.m_Buffer).1 i,
    .mqtt (Mqtt.processInbound e.strayRetained p e.m_Buffer).1 j, _), rfl, rfl, ?_⟩
  intro q hq
  cases hq
  exact ⟨_, i, j, rfl, rfl⟩

theorem mqtt_alike_iff (m_bErrored : Bool) (i : ℤ) :
    Alike Protocol.processInbound (.mqtt ⟨[], m_bErrored⟩ i) (create .MQTT) ↔
      m_bErrored = false := by
  constructor
  · intro h
    by_contra herrored
    obtain rfl := Bool.eq_true_of_not_eq_false herrored
    have hfirst := h.first (readOf Mqtt.pong)
    injection hfirst with hfirst
    have hnil := List.map_eq_nil_iff.mp hfirst.symm
    exact Mqtt.pong_delivered _ hnil
  · intro h
    subst h
    exact mqtt_alike _ _ _

theorem http_alike_iff (p : Http.Protocol) :
    Alike Protocol.processInbound (.http p) (create .HTTP) ↔ p = {} := by
  constructor
  · intro h
    refine Http.eq_of_alike fun read => ?_
    have hfirst := h.first (readOf read)
    have hmap (q : Http.Protocol) :
        ((Protocol.http q).processInbound (readOf read)).map Prod.snd =
          ((Http.processInbound q read).map Prod.snd).map (List.map .event) := by
      rw [Option.map_map]
      exact Option.map_map _ _ _
    have hinj : Function.Injective (List.map Queued.event) :=
      List.map_injective_iff.mpr fun a b hab => by injection hab
    exact Option.map_injective hinj ((hmap p).symm.trans (hfirst.trans (hmap {})))
  · intro h
    subst h
    exact Alike.refl _

/-- What `Flush` leaves of an HTTP object is like a new one. -/
theorem http_flush_iff {p : Http.Protocol} (hp : Http.Left p) :
    (∃ f, flushHttp p = some f ∧ Alike Protocol.processInbound f.pProtocol (create .HTTP)) ↔
      (Protocol.http p).Cleared := by
  obtain ⟨retained, m_JSON⟩ := p
  by_cases hnil : retained = []
  · subst hnil
    constructor
    · rintro ⟨f, hf, halike⟩
      cases hf
      have hfresh := (http_alike_iff _).mp halike
      injection hfresh with _ hjson
      exact ⟨hjson, .inl rfl⟩
    · rintro ⟨hjson, -⟩
      exact ⟨_, rfl, (http_alike_iff _).mpr (congrArg (Http.Protocol.mk []) hjson)⟩
  have hempty : ¬ retained.isEmpty = true := mt List.isEmpty_iff.mp hnil
  constructor
  · rintro ⟨f, hf, halike⟩
    unfold flushHttp at hf
    rw [if_neg hempty] at hf
    cases ha : Http.attempt true m_JSON retained with
    | mk flag result =>
      simp only [ha] at hf
      -- the flag stays set, and what is retained is cleared unless there was an exception
      have hcleared (hproto : f.pProtocol = .http ⟨[], flag⟩)
          (hresult : ∀ halt, result ≠ .halts halt) :
          (Protocol.http ⟨retained, m_JSON⟩).Cleared := by
        rw [hproto] at halike
        have hfresh := (http_alike_iff _).mp halike
        injection hfresh with _ hflag
        cases m_JSON with
        | true =>
          have hstays := Http.attempt_json true retained
          rw [ha] at hstays
          cases hstays.symm.trans hflag
        | false =>
          refine ⟨rfl, .inr ?_⟩
          by_contra hunreadable
          obtain ⟨halt, hhalt⟩ := (Http.attempt_halts_iff retained (hp hnil rfl)).mpr hunreadable
          rw [ha] at hhalt
          exact hresult halt hhalt
      cases result with
      | waits =>
        cases hf
        refine hcleared rfl fun halt h => ?_
        cases h
      | delivers data =>
        cases hf
        refine hcleared rfl fun halt h => ?_
        cases h
      | halts halt =>
        cases halt with
        | stuck => cases hf
        | threw =>
          cases hf
          have hfresh := (http_alike_iff _).mp halike
          injection hfresh with hretained _
          exact absurd hretained hnil
  · rintro ⟨hjson, hreadable⟩
    obtain rfl : m_JSON = false := hjson
    have hflag := Http.attempt_fst true false retained
    rw [hp hnil rfl] at hflag
    have hhalts := mt (Http.attempt_halts_iff retained (hp hnil rfl)).mp
      (not_not.mpr (hreadable.resolve_left hnil))
    unfold flushHttp
    rw [if_neg hempty]
    cases ha : Http.attempt true false retained with
    | mk flag result =>
      rw [ha] at hflag hhalts
      obtain rfl : flag = false := hflag
      cases result with
      | waits => exact ⟨_, rfl, (http_alike_iff _).mpr rfl⟩
      | delivers data => exact ⟨_, rfl, (http_alike_iff _).mpr rfl⟩
      | halts halt => exact absurd ⟨halt, rfl⟩ hhalts

/-- For each kind, a reconnect is like a new connection exactly from a cleared object. -/
theorem alike_flush_iff {kind : Kind} {p : Protocol} (hp : Fits kind p) :
    (∀ e, ∃ f, p.flush e = some f ∧
        Alike Protocol.processInbound f.pProtocol (create kind)) ↔ p.Cleared := by
  cases kind <;> cases p <;> try exact hp.elim
  case XML.xml state =>
    constructor
    · intro h
      obtain ⟨f, hf, halike⟩ := h (readOf [])
      cases hf
      exact (xml_alike_iff _).mp halike
    · intro h e
      exact ⟨_, rfl, (xml_alike_iff _).mpr h⟩
  case HTTP.http p =>
    constructor
    · intro h
      exact (http_flush_iff hp).mp (h (readOf []))
    · intro h _
      exact (http_flush_iff hp).mpr h
  case MQTT.mqtt p m_PacketID =>
    constructor
    · intro h
      obtain ⟨f, hf, halike⟩ := h (readOf [])
      cases hf
      exact (mqtt_alike_iff _ _).mp halike
    · intro h e
      exact ⟨_, rfl, (mqtt_alike_iff _ _).mpr h⟩
  all_goals
    refine iff_of_true (fun e => ⟨_, rfl, ?_⟩) trivial
    exact Alike.refl _

/-- **A connection is like a new one after a reconnect exactly if its history leaves no tag, no
error flag, no JSON flag and nothing unreadable behind.** -/
theorem isolated_iff (kind : Kind) (history : List Action) :
    Isolated kind history ↔ Forgets kind history := by
  refine forall_congr' fun p => forall_congr' fun hp => ?_
  rw [reconnect_iff]
  exact alike_flush_iff (fits_after (fits_create kind) hp)

/-- A connection that ends behind a start tag looks for its end tag ever after. -/
theorem tag_remembered :
    ¬ ∀ (kind : Kind) (history : List Action), Isolated kind history := by
  intro h
  let history := [Action.read (readOf (str "<a>"))]
  have htop : XmlStream.topLevel [] (str "<a>") = some (str "a", str "<a>") := rfl
  have hstate : (create .XML).after history = some (.xml ⟨str "a", str "<a>"⟩) := by
    show some (Protocol.xml (XmlStream.loop [] (str "<a>")).2) = _
    rw [XmlStream.loop_of_notFound htop rfl]
  obtain ⟨f, hf, halike⟩ := (reconnect_iff _ _).mp (h .XML history _ hstate) (readOf [])
  cases hf
  exact absurd ((xml_alike_iff _).mp halike) (List.cons_ne_nil _ _)

end Connection

end Domoticz
