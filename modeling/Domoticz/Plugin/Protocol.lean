import Domoticz.Transducer
import Domoticz.Plugin.Http
import Domoticz.Plugin.WebSocket
import Domoticz.Plugin.JsonStream
import Domoticz.Plugin.MqttOutbound
import Domoticz.Plugin.XmlStream

/-!
# The protocol object of a connection

A `Connection` of a plugin keeps one protocol object, made when its `Protocol` is set.
Each protocol has members of its own, which last from one read to the next.

## Main definitions

* `Line.loop` — the loop of `CPluginProtocolLine::ProcessInbound`.
* `Kind`, `Protocol`, `create` — the protocols and what is made for them.
* `Protocol.processInbound`, `Protocol.processOutbound` — what a read and a write do to them.
* `Protocol.flush` — `Flush`, when a connection ends.
-/

namespace Domoticz

open CLib

namespace Line

open Http (CR LF)

/-- What is behind a line that ends here: `\r\n` is one terminator. -/
def behind (sData : Bytes) : Bytes := if sData.head? = some LF then sData.tail else sData

/-- The loop of `CPluginProtocolLine::ProcessInbound`: the lines, and the residual. -/
def loop (sData : Bytes) : List Bytes × Bytes :=
  if _ : CR ∈ sData then
    let sRest := behind (sData.drop ((upTo CR sData).length + 1))
    (upTo CR sData :: (loop sRest).1, (loop sRest).2)
  else ([], sData)
termination_by sData.length
decreasing_by
  all_goals
    have hne : 0 < sData.length := List.length_pos_of_mem ‹_›
    have hle (s : Bytes) : (behind s).length ≤ s.length := by
      unfold behind
      split
      · rw [List.length_tail]
        omega
      · exact le_refl _
    have hrest := hle (sData.drop ((upTo CR sData).length + 1))
    rw [List.length_drop] at hrest
    omega

end Line

namespace Connection

open WebSocket (ReadEvent)

/-- The protocols, but for their secure variants and `ICMP`. -/
inductive Kind
  | Line
  | JSON
  | XML
  | HTTP
  | MQTT
  | WS
  deriving DecidableEq

/-- A protocol object. -/
inductive Protocol
  /-- `CPluginProtocol` itself. -/
  | raw
  | line (m_sRetainedData : Bytes)
  | json (m_sRetainedData : Bytes)
  | xml (state : XmlStream.State)
  | http (p : Http.Protocol)
  | mqtt (p : Mqtt.Protocol) (m_PacketID : ℤ)
  /-- `m_JSON`, which this class inherits, is neither set nor read. -/
  | ws (m_sRetainedData : Bytes)

/-- `CPluginProtocol::Create`. -/
def create : Kind → Protocol
  | .Line => .line []
  | .JSON => .json []
  | .XML => .xml {}
  | .HTTP => .http {}
  | .MQTT => .mqtt {} 1
  | .WS => .ws []

/-- What is queued for the plugin. -/
inductive Queued
  /-- `onMessageCallback` with a buffer. -/
  | buffer (data : Bytes)
  /-- `onMessageCallback` with a text. -/
  | text (sData : Bytes)
  /-- `onMessageCallback` with what `JSONtoPython` made of a text. -/
  | python (pMessage : Translated)
  /-- `onMessageCallback` with a dictionary, or `DisconnectedEvent`. -/
  | event (e : PluginEvent)
  /-- `onDisconnectCallback`. -/
  | onDisconnect

/-- What the JSON protocol queues. -/
def Queued.ofJson : JsonStream.Event → Queued
  | .message pMessage => .python pMessage
  | .data sData => .text sData

/-- `ProcessInbound`, as the work loop of the plugin sees it; none when it does not come back. -/
def Protocol.processInbound (p : Protocol) (e : ReadEvent) : Option (Protocol × List Queued) :=
  match p with
  | .raw => some (.raw, [.buffer e.m_Buffer])
  | .line m_sRetainedData =>
      let lines := Line.loop (m_sRetainedData ++ e.m_Buffer)
      some (.line lines.2, lines.1.map .buffer)
  | .json m_sRetainedData =>
      (JsonStream.processInbound JsonReader.parse m_sRetainedData e.m_Buffer).map fun q =>
        (.json q.1, q.2.map .ofJson)
  | .xml state =>
      let q := XmlStream.processInbound state e.m_Buffer
      some (.xml q.1, q.2.map .text)
  | .http p =>
      (Http.processInbound p e.m_Buffer).map fun q => (.http q.1, q.2.map .event)
  | .mqtt p m_PacketID =>
      let q := Mqtt.processInbound e.strayRetained p e.m_Buffer
      some (.mqtt q.1 m_PacketID, q.2.map .event)
  | .ws m_sRetainedData =>
      let q := WebSocket.processInbound m_sRetainedData e
      some (.ws q.1, q.2.map .event)

/-- What `ProcessOutbound` does to the members.  Only MQTT has a counter of its own. -/
def Protocol.processOutbound (p : Protocol) (parameters : PyDict) (m_Object : Option PyObject) :
    Protocol :=
  match p with
  | .mqtt p m_PacketID => .mqtt p (Mqtt.processOutbound parameters m_PacketID m_Object).2
  | p => p

/-- What comes of a `Flush`. -/
structure Flushed where
  pProtocol : Protocol
  queued : List Queued
  /-- It ended with an exception. -/
  threw : Bool

/-- `CPluginProtocol::Flush`, for protocols that keep nothing else of their retained data. -/
def flushBuffer (m_sRetainedData : Bytes) (cleared : Protocol) : Flushed :=
  ⟨cleared, if m_sRetainedData.isEmpty then [] else [.buffer m_sRetainedData], false⟩

/-- `CPluginProtocolHTTP::Flush`.  An exception leaves it before the data is cleared. -/
def flushHttp (p : Http.Protocol) : Option Flushed :=
  if p.m_sRetainedData.isEmpty then some ⟨.http p, [], false⟩
  else
    match Http.attempt true p.m_JSON p.m_sRetainedData with
    | (_, .halts .stuck) => none
    | (m_JSON, .halts .threw) => some ⟨.http { p with m_JSON }, [], true⟩
    | (m_JSON, .waits) => some ⟨.http ⟨[], m_JSON⟩, [], false⟩
    | (m_JSON, .delivers pDataDict) =>
        some ⟨.http ⟨[], m_JSON⟩, [.event (.onMessage pDataDict)], false⟩

/-- `Flush`.  The read without a buffer that HTTP and WebSocket make of it carries what the
memory behind the buffers holds. -/
def Protocol.flush (p : Protocol) (e : ReadEvent) : Option Flushed :=
  match p with
  | .raw => some ⟨.raw, [], false⟩
  | .line m_sRetainedData => some (flushBuffer m_sRetainedData (.line []))
  | .json m_sRetainedData => some (flushBuffer m_sRetainedData (.json []))
  | .xml state =>
      some (flushBuffer state.m_sRetainedData (.xml { state with m_sRetainedData := [] }))
  | .mqtt p m_PacketID =>
      some (flushBuffer p.m_sRetainedData (.mqtt { p with m_sRetainedData := [] } m_PacketID))
  | .http p => flushHttp p
  | .ws m_sRetainedData =>
      some ⟨.ws [], if m_sRetainedData.isEmpty then []
        else (WebSocket.processInbound m_sRetainedData { e with m_Buffer := [] }).2.map .event, false⟩

end Connection

end Domoticz
