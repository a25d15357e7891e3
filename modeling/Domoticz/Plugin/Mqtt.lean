import Domoticz.Plugin.Message
import Domoticz.Stream.Decoder

/-!
# The MQTT protocol of plugins

`CPluginProtocolMQTT::ProcessInbound` appends a read to what it retained and decodes
packets until one is incomplete.  A packet is a header byte, the Remaining Length in
groups of seven bits, and that many bytes.  The loop is a stable decoder, so the
cuts between the reads do not matter.

## Main definitions

* `parsePacket` — the switch over the packet types.
* `decodePacket` — one pass of the loop.
* `processInbound` — `CPluginProtocolMQTT::ProcessInbound`.
* `receive` — the reads of a connection, as far as the process gets.
* `decoder` — the loop as a stable decoder.

## Main results

* `runs_eq_run` — the protocol simulates the reader of its decoder.
* `runs_eq_drain` — **the reads deliver what their concatenation does.**
-/

namespace Domoticz.Mqtt

open CLib Stream

/-! ### The packet types -/

/-- `MQTT_CONNACK`. -/
def MQTT_CONNACK : UInt8 := (2 : UInt8) <<< 4

/-- `MQTT_PUBLISH`. -/
def MQTT_PUBLISH : UInt8 := (3 : UInt8) <<< 4

/-- `MQTT_PUBACK`. -/
def MQTT_PUBACK : UInt8 := (4 : UInt8) <<< 4

/-- `MQTT_PUBREC`. -/
def MQTT_PUBREC : UInt8 := (5 : UInt8) <<< 4

/-- `MQTT_PUBREL`. -/
def MQTT_PUBREL : UInt8 := (6 : UInt8) <<< 4

/-- `MQTT_PUBCOMP`. -/
def MQTT_PUBCOMP : UInt8 := (7 : UInt8) <<< 4

/-- `MQTT_SUBACK`. -/
def MQTT_SUBACK : UInt8 := (9 : UInt8) <<< 4

/-- `MQTT_UNSUBACK`. -/
def MQTT_UNSUBACK : UInt8 := (11 : UInt8) <<< 4

/-- `MQTT_PINGRESP`. -/
def MQTT_PINGRESP : UInt8 := (13 : UInt8) <<< 4

/-! ### One packet -/

/-- The texts of `CONNACK`; the switch is over the first byte of the packet, the
acknowledge flags. -/
def connackDescription (b : UInt8) : Bytes :=
  if b = 0 then str "Connection Accepted"
  else if b = 1 then str "Connection Refused, unacceptable protocol version"
  else if b = 2 then str "Connection Refused, identifier rejected"
  else if b = 3 then str "Connection Refused, Server unavailable"
  else if b = 4 then str "Connection Refused, bad user name or password"
  else if b = 5 then str "Connection Refused, not authorized"
  else str "Unknown status returned"

/-- The texts of the return codes of a `SUBACK`. -/
def subackDescription (status : UInt8) : Bytes :=
  if status = 0x00 then str "Success - Maximum QoS 0"
  else if status = 0x01 then str "Success - Maximum QoS 1"
  else if status = 0x02 then str "Success - Maximum QoS 2"
  else if status = 0x80 then str "Failure"
  else str "Unknown status returned"

/-- The entry of a topic in a `SUBACK`. -/
def subackTopic (status : UInt8) : PyValue :=
  .dict [(str "Status", .int status.toNat), (str "Description", .text (subackDescription status))]

/-- The packets that carry a packet identifier and nothing else. -/
def parseAcknowledgement (verb : String) (flags : UInt8) (packet : Bytes) : Option Dict :=
  if flags ≠ 0 then none
  else if packet.length = 2 then
    some [(str "Verb", .text (str verb)),
      (str "PacketIdentifier", .int (number (packet.getD 0 0) (packet.getD 1 0)))]
  else none

/-- `case MQTT_CONNACK`. -/
def parseConnack (flags : UInt8) (packet : Bytes) : Option Dict :=
  if flags ≠ 0 then none
  else if packet.length = 2 then
    some [(str "Verb", .text (str "CONNACK")),
      (str "Description", .text (connackDescription (packet.getD 0 0))),
      (str "Status", .int (packet.getD 1 0).toNat)]
  else none

/-- `case MQTT_SUBACK`.  The identifier is read before the checks; of a packet that is
too short for it nothing is delivered. -/
def parseSuback (flags : UInt8) (packet : Bytes) : Option Dict :=
  if flags ≠ 0 then none
  else if 3 ≤ packet.length then
    some [(str "Verb", .text (str "SUBACK")),
      (str "PacketIdentifier", .int (number (packet.getD 0 0) (packet.getD 1 0))),
      (str "Topics", .list ((packet.drop 2).map subackTopic))]
  else none

/-- `case MQTT_PUBLISH`.  The length of the topic is read before the check, which a packet
too short for it fails.  A topic that is not UTF-8 is no text: see `ends`. -/
def parsePublish (flags : UInt8) (packet : Bytes) : Option Dict :=
  let iQoS := (flags &&& 0x06) >>> 1
  let topicLen := number (packet.getD 0 0) (packet.getD 1 0)
  if packet.length < topicLen + 2 + (if iQoS ≠ 0 then 2 else 0) then none
  else
    let it := 2 + topicLen
    some ([(str "Verb", .text (str "PUBLISH")),
        (str "DUP", .int ((flags &&& 0x08) >>> 3).toNat),
        (str "QoS", .int iQoS.toNat),
        (str "Retain", .bool (flags &&& 0x01 ≠ 0)),
        (str "Topic", .text ((packet.drop 2).take topicLen))] ++
      (if iQoS ≠ 0 then
        [(str "PacketIdentifier", .int (number (packet.getD it 0) (packet.getD (it + 1) 0))),
          (str "Payload", .bytes (packet.drop (it + 2)))]
      else [(str "Payload", .bytes (packet.drop it))]))

/-- `case MQTT_PINGRESP`. -/
def parsePingresp (flags : UInt8) (packet : Bytes) : Option Dict :=
  if flags ≠ 0 then none
  else if packet.length ≠ 0 then none
  else some [(str "Verb", .text (str "PINGRESP"))]

/-- The switch over the packet type: the dictionary, or `none` when it sets `m_bErrored`. -/
def parsePacket (header : UInt8) (packet : Bytes) : Option Dict :=
  let bResponseType := header &&& 0xF0
  let flags := header &&& 0x0F
  if bResponseType = MQTT_CONNACK then parseConnack flags packet
  else if bResponseType = MQTT_SUBACK then parseSuback flags packet
  else if bResponseType = MQTT_PUBACK then parseAcknowledgement "PUBACK" flags packet
  else if bResponseType = MQTT_PUBREC then parseAcknowledgement "PUBREC" flags packet
  else if bResponseType = MQTT_PUBCOMP then parseAcknowledgement "PUBCOMP" flags packet
  else if bResponseType = MQTT_PUBLISH then parsePublish flags packet
  else if bResponseType = MQTT_UNSUBACK then parseAcknowledgement "UNSUBACK" flags packet
  else if bResponseType = MQTT_PINGRESP then parsePingresp flags packet
  else none

/-! ### The loop -/

/-- The loop over the Remaining Length: its value and where the iterator stands, or `none`
when it is found malformed.  The fourth pass always ends at the check. -/
def readLength (byte : ℕ → UInt8) (passes it iRemainingLength multiplier : ℕ) : Option (ℕ × ℕ) :=
  match passes with
  | 0 => none
  | passes + 1 =>
      let encodedByte := byte it
      let iRemainingLength := iRemainingLength + (encodedByte &&& 127).toNat * multiplier
      let multiplier := multiplier * 128
      if 128 * 128 * 128 < multiplier then none
      else if encodedByte &&& 128 ≠ 0 then
        readLength byte passes (it + 1) iRemainingLength multiplier
      else some (iRemainingLength, it + 1)

/-- One pass of the loop over the retained data: the dictionary if there is one, and the
data behind the packet; or `none` if the pass returns. -/
def decodePacket (stray : ℕ → UInt8) (buf : Bytes) : Option (Option Dict × Bytes) :=
  let header := byteAt stray buf 0
  match readLength (byteAt stray buf) 4 1 0 1 with
  | none => none
  | some (iRemainingLength, it) =>
      if (buf.length : ℤ) - it < iRemainingLength then none
      else some (parsePacket header ((buf.drop it).take iRemainingLength),
        buf.drop (it + iRemainingLength))

/-- `CPluginProtocolMQTT`. -/
structure Protocol where
  m_sRetainedData : Bytes := []
  m_bErrored : Bool := false
  deriving DecidableEq, Repr

theorem readLength_it {byte : ℕ → UInt8} {passes it len multiplier n j : ℕ}
    (h : readLength byte passes it len multiplier = some (n, j)) : it < j := by
  induction passes generalizing it len multiplier with
  | zero => cases h
  | succ passes ih =>
    simp only [readLength] at h
    split at h
    · cases h
    · split at h
      · exact Nat.lt_of_succ_lt (ih h)
      · cases h
        exact Nat.lt_succ_self it

/-- A pass that does not return erases something. -/
theorem length_decodePacket {stray : ℕ → UInt8} {buf rest : Bytes} {c : Option Dict}
    (h : decodePacket stray buf = some (c, rest)) : rest.length < buf.length := by
  unfold decodePacket at h
  cases hr : readLength (byteAt stray buf) 4 1 0 1 with
  | none => simp [hr] at h
  | some r =>
    obtain ⟨n, it⟩ := r
    have hit := readLength_it hr
    simp only [hr] at h
    split at h
    · cases h
    · next hlen =>
      cases h
      rw [List.length_drop]
      omega

/-- The loop over the retained data, up to a packet that is not complete or in error. -/
def processRetained (stray : ℕ → UInt8) (buf : Bytes) : Protocol × List PluginEvent :=
  match h : decodePacket stray buf with
  | none => (⟨buf, false⟩, [])
  | some (none, rest) => (⟨rest, true⟩, [])
  | some (some pMqttDict, rest) =>
      if rest.isEmpty then (⟨rest, false⟩, [.onMessage pMqttDict])
      else
        have := length_decodePacket h
        ((processRetained stray rest).1, .onMessage pMqttDict :: (processRetained stray rest).2)
termination_by buf.length

/-- `CPluginProtocolMQTT::ProcessInbound`. -/
def processInbound (stray : ℕ → UInt8) (p : Protocol) (read : Bytes) : Protocol × List PluginEvent :=
  if p.m_bErrored then (p, [])
  else
    let r := processRetained stray (p.m_sRetainedData ++ read)
    if r.1.m_bErrored then (r.1, r.2 ++ [.disconnected]) else r

/-- The reads of a connection. -/
def runs (stray : ℕ → UInt8) (p : Protocol) : List Bytes → Protocol × List PluginEvent
  | [] => (p, [])
  | read :: reads =>
      ((runs stray (processInbound stray p read).1 reads).1,
        (processInbound stray p read).2 ++ (runs stray (processInbound stray p read).1 reads).2)

/-- A message that the process does not survive.  Of a topic that is not UTF-8 `Py_BuildValue`
makes a null object, which `AddStringToDict` hands to `PyDict_SetItem`. -/
def ends : PluginEvent → Bool
  | .onMessage data => (data.lookup (str "Topic")).any fun topic => topic.text?.any (!isUTF8 ·)
  | .disconnected => false

/-- The reads of a connection, one after the other: the protocol object, unless the process has
ended, and what was queued until then. -/
def receive (stray : ℕ → UInt8) (p : Protocol) : List Bytes → Option Protocol × List PluginEvent
  | [] => (some p, [])
  | read :: reads =>
      let r := processInbound stray p read
      if r.2.any ends then (none, r.2.takeWhile fun e => !ends e)
      else ((receive stray r.1 reads).1, r.2 ++ (receive stray r.1 reads).2)

/-- What is received, if nothing ends the process, is what the reads give. -/
theorem receive_eq (stray : ℕ → UInt8) (p : Protocol) (reads : List Bytes) :
    receive stray p reads =
      if (runs stray p reads).2.any ends then
        (none, (runs stray p reads).2.takeWhile fun e => !ends e)
      else (some (runs stray p reads).1, (runs stray p reads).2) := by
  induction reads generalizing p with
  | nil => rfl
  | cons read reads ih =>
    rw [receive, runs, List.any_append, ih]
    dsimp only
    cases hread : (processInbound stray p read).2.any ends with
    | true =>
      -- the process ends within this read
      obtain ⟨e, he, hends⟩ := List.any_eq_true.mp hread
      rw [Bool.true_or, if_pos rfl, if_pos rfl, List.takeWhile_append, if_neg]
      intro hlength
      have hall := List.takeWhile_eq_self_iff.mp
        ((List.takeWhile_prefix _).eq_of_length hlength) e he
      rw [hends] at hall
      cases hall
    | false =>
      have hall : ∀ e ∈ (processInbound stray p read).2, (!ends e) = true := fun e he => by
        rw [Bool.not_eq_true', ← Bool.not_eq_true]
        intro hends
        exact Bool.false_ne_true (hread.symm.trans (List.any_eq_true.mpr ⟨e, he, hends⟩))
      rw [Bool.false_or, if_neg Bool.false_ne_true]
      split
      · next hrest => rw [List.takeWhile_append_of_pos hall]
      · rfl

/-! ### The loop is a stable decoder -/

theorem readLength_congr {byte byte' : ℕ → UInt8} {passes it len multiplier n j : ℕ}
    (h : readLength byte passes it len multiplier = some (n, j))
    (hb : ∀ i < j, byte' i = byte i) : readLength byte' passes it len multiplier = some (n, j) := by
  induction passes generalizing it len multiplier with
  | zero => cases h
  | succ passes ih =>
    have hit := hb it (readLength_it h)
    simp only [readLength] at h ⊢
    rw [hit]
    split at h
    · cases h
    · next hm =>
      rw [if_neg hm]
      split at h
      · next hc => rw [if_pos hc, ih h]
      · next hc => rw [if_neg hc, h]

/-- What a pass found, from the Remaining Length and the bytes behind it. -/
theorem decodePacket_eq_some {stray : ℕ → UInt8} {buf rest : Bytes} {c : Option Dict} :
    decodePacket stray buf = some (c, rest) ↔
      ∃ n it, readLength (byteAt stray buf) 4 1 0 1 = some (n, it) ∧ it + n ≤ buf.length ∧
        c = parsePacket (byteAt stray buf 0) ((buf.drop it).take n) ∧ rest = buf.drop (it + n) := by
  unfold decodePacket
  cases hr : readLength (byteAt stray buf) 4 1 0 1 with
  | none => simp
  | some r =>
    obtain ⟨n, it⟩ := r
    simp only [Option.some.injEq, Prod.mk.injEq]
    constructor
    · intro h
      split at h
      · cases h
      · next hlen =>
        cases h
        exact ⟨n, it, ⟨rfl, rfl⟩, by omega, rfl, rfl⟩
    · rintro ⟨n', it', ⟨rfl, rfl⟩, hlen, rfl, rfl⟩
      rw [if_neg (by omega)]

theorem decodePacket_append {stray : ℕ → UInt8} {buf rest : Bytes} {c : Option Dict}
    (h : decodePacket stray buf = some (c, rest)) (more : Bytes) :
    decodePacket stray (buf ++ more) = some (c, rest ++ more) := by
  obtain ⟨n, it, hr, hlen, rfl, rfl⟩ := decodePacket_eq_some.mp h
  have hit := readLength_it hr
  refine decodePacket_eq_some.mpr ⟨n, it, ?_, ?_, ?_, ?_⟩
  · exact readLength_congr hr fun i hi => byteAt_append stray more (by omega)
  · rw [List.length_append]
    omega
  · rw [byteAt_append stray more (by omega), List.drop_append_of_le_length (by omega),
      List.take_append_of_le_length (by rw [List.length_drop]; omega)]
  · rw [List.drop_append_of_le_length hlen]

/-- The loop as a decoder; a packet in error halts it. -/
def decoder (stray : ℕ → UInt8) : Decoder UInt8 (Option Dict) where
  next := decodePacket stray
  halts := Option.isNone
  shorter := length_decodePacket
  stable := decodePacket_append

/-- What is queued for a packet. -/
def eventOf : Option Dict → PluginEvent
  | some pMqttDict => .onMessage pMqttDict
  | none => .disconnected

theorem decodePacket_nil (stray : ℕ → UInt8) : decodePacket stray [] = none := by
  by_contra h
  obtain ⟨⟨c, rest⟩, h⟩ := Option.ne_none_iff_exists'.mp h
  exact absurd (length_decodePacket h) (Nat.not_lt_zero _)

/-- The state of the protocol as a reader's. -/
def Protocol.reader (p : Protocol) : Reader UInt8 := ⟨p.m_sRetainedData, p.m_bErrored⟩

theorem drain_error {stray : ℕ → UInt8} {buf rest : Bytes}
    (h : decodePacket stray buf = some (none, rest)) :
    drain (decoder stray) buf = (⟨rest, true⟩, [none]) := by
  rw [drain_of_some (d := decoder stray) h]
  rfl

theorem drain_packet {stray : ℕ → UInt8} {buf rest : Bytes} {pMqttDict : Dict}
    (h : decodePacket stray buf = some (some pMqttDict, rest)) :
    drain (decoder stray) buf =
      ((drain (decoder stray) rest).1, some pMqttDict :: (drain (decoder stray) rest).2) := by
  rw [drain_of_some (d := decoder stray) h]
  rfl

/-- The loop with the event behind it. -/
theorem processRetained_eq_drain (stray : ℕ → UInt8) (buf : Bytes) :
    (processRetained stray buf).1.reader = (drain (decoder stray) buf).1 ∧
      (if (processRetained stray buf).1.m_bErrored then
          (processRetained stray buf).2 ++ [.disconnected] else (processRetained stray buf).2) =
        (drain (decoder stray) buf).2.map eventOf := by
  fun_induction processRetained stray buf with
  | case1 buf h =>
    have hd : drain (decoder stray) buf = (⟨buf, false⟩, []) := drain_of_none h
    rw [hd]
    exact ⟨rfl, rfl⟩
  | case2 buf rest h =>
    rw [drain_error h]
    exact ⟨rfl, rfl⟩
  | case3 buf pMqttDict rest h he =>
    have hrest : rest = [] := List.isEmpty_iff.mp he
    subst hrest
    have hd : drain (decoder stray) [] = (⟨[], false⟩, []) := drain_of_none (decodePacket_nil stray)
    rw [drain_packet h, hd]
    exact ⟨rfl, rfl⟩
  | case4 buf pMqttDict rest h he _ ih =>
    obtain ⟨h₁, h₂⟩ := ih
    rw [drain_packet h, List.map_cons, ← h₂]
    refine ⟨h₁, ?_⟩
    split
    · rfl
    · rfl

theorem processInbound_eq_feed (stray : ℕ → UInt8) (p : Protocol) (read : Bytes) :
    (processInbound stray p read).1.reader = (feed (decoder stray) p.reader read).1 ∧
      (processInbound stray p read).2 = (feed (decoder stray) p.reader read).2.map eventOf := by
  unfold processInbound feed
  cases he : p.m_bErrored with
  | true =>
    have hh : p.reader.halted = true := he
    simp [hh]
  | false =>
    have hh : p.reader.halted = false := he
    obtain ⟨h₁, h₂⟩ := processRetained_eq_drain stray (p.m_sRetainedData ++ read)
    simp only [hh, Bool.false_eq_true, if_false]
    refine ⟨?_, ?_⟩
    · split
      · exact h₁
      · exact h₁
    · rw [apply_ite Prod.snd]
      exact h₂

/-- The protocol simulates the reader of its decoder. -/
theorem runs_eq_run (stray : ℕ → UInt8) (p : Protocol) (reads : List Bytes) :
    (runs stray p reads).1.reader = (Stream.run (decoder stray) p.reader reads).1 ∧
      (runs stray p reads).2 = (Stream.run (decoder stray) p.reader reads).2.map eventOf := by
  induction reads generalizing p with
  | nil => exact ⟨rfl, rfl⟩
  | cons read reads ih =>
    obtain ⟨h₁, h₂⟩ := processInbound_eq_feed stray p read
    obtain ⟨ih₁, ih₂⟩ := ih (processInbound stray p read).1
    rw [h₁] at ih₁ ih₂
    refine ⟨ih₁, ?_⟩
    rw [runs, Stream.run, List.map_append, h₂, ih₂]

/-- What is delivered is a function of the bytes, and so is what is retained unless there
was an error. -/
theorem runs_eq_drain (stray : ℕ → UInt8) (reads : List Bytes) :
    (runs stray {} reads).2 = (drain (decoder stray) reads.flatten).2.map eventOf ∧
      ((drain (decoder stray) reads.flatten).1.halted = false →
        (runs stray {} reads).1.m_sRetainedData = (drain (decoder stray) reads.flatten).1.retained) := by
  obtain ⟨h₁, h₂⟩ := runs_eq_run stray {} reads
  obtain ⟨ho, hh, hr⟩ :=
    run_eq_drain (decoder stray) {} reads rfl (decodePacket_nil stray)
  refine ⟨?_, fun hd => ?_⟩
  · rw [h₂]
    exact congrArg (List.map eventOf) ho
  · exact (congrArg Reader.retained h₁).trans (hr (hh.trans hd))

end Domoticz.Mqtt
