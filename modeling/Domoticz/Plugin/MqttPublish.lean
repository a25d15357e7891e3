import Domoticz.Plugin.MqttOutbound

/-!
# The round trip of a `PUBLISH`

A plugin publishes a message, and the packet comes back.  The length of the topic is not
checked, of the quality of service two bits are taken, and of the payload types `bytes` is
not among those that are looked at.

## Main definitions

* `PublishRequest` — what a plugin passes to `Send`.
* `RoundTrips` — it comes back as it was sent, or nothing is sent.
* `Faithful` — the requests for which that is so.

## Main results

* `processOutbound_publish` — the packet of a request.
* `runs_publish` — what comes of it.
* `publish_roundTrips_iff` — **a request round-trips exactly if it is faithful.**
* `bytes_payload_dropped` — a payload of type `bytes`.
-/

namespace Domoticz.Mqtt

open CLib Stream

/-! ### Requests -/

/-- A message to publish. -/
structure PublishRequest where
  topic : PyStr
  payload : Payload
  qos : ℤ
  retain : Bool
  dup : Bool
  packetIdentifier : Option ℤ

namespace PublishRequest

variable (r : PublishRequest)

/-- The dictionary that is passed to `Send`. -/
def dict : PyDict :=
  [(pyStr "Verb", .str (pyStr "PUBLISH")), (pyStr "Topic", .str r.topic),
    (pyStr "Payload", r.payload.object), (pyStr "QoS", .int r.qos),
    (pyStr "Retain", .bool r.retain), (pyStr "Duplicate", .bool r.dup)] ++
  r.packetIdentifier.elim [] fun i => [(pyStr "PacketIdentifier", .int i)]

/-- The packet identifier of the message: that of the request, or else the next. -/
def identifier (m_PacketID : ℤ) : Option ℤ :=
  if r.qos = 0 then none else some (r.packetIdentifier.getD m_PacketID)

/-- The topic is a UTF-8 text of at most 65535 bytes, and the quality of service 0, 1 or 2. -/
def InRange : Prop :=
  (∃ topic, asUTF8 r.topic = some topic ∧ topic.length ≤ 65535) ∧ 0 ≤ r.qos ∧ r.qos ≤ 2

end PublishRequest

/-- The message as it is to come back. -/
def published (dup retain : Bool) (qos : ℤ) (topic : Bytes) (identifier : Option ℤ)
    (payload : Bytes) : Dict :=
  [(str "Verb", .text (str "PUBLISH")), (str "DUP", .int (if dup then 1 else 0)),
    (str "QoS", .int qos), (str "Retain", .bool retain), (str "Topic", .text topic)] ++
  identifier.elim [] (fun i => [(str "PacketIdentifier", .int i)]) ++
  [(str "Payload", .bytes payload)]

/-- The bytes behind the fixed header. -/
def bodyLength (topic : Bytes) (identifier : Option ℤ) (payload : Bytes) : ℕ :=
  topic.length + 2 + (if identifier.isSome then 2 else 0) + payload.length

/-- A request in range whose payload has bytes the protocol admits is sent and comes back as one
message with its topic, payload, quality of service, flags and packet identifier; one that is not
in range is not sent. -/
structure RoundTrips (stray : ℕ → UInt8) (parameters : PyDict) (m_PacketID : ℤ)
    (r : PublishRequest) : Prop where
  comes_back : ∀ topic payload, r.InRange → asUTF8 r.topic = some topic →
    r.payload.content = some payload →
    bodyLength topic (r.identifier m_PacketID) payload ≤ 268435455 →
    ∃ packet, (processOutbound parameters m_PacketID (some (.dict r.dict))).1 = some packet ∧
      runs stray {} [packet] = ({}, [.onMessage
        (published r.dup r.retain r.qos topic (r.identifier m_PacketID) payload)])
  not_sent : ¬ r.InRange → ∀ packet,
    (processOutbound parameters m_PacketID (some (.dict r.dict))).1 = some packet → packet = []

/-- A payload of type `str` is sent up to its first NUL, one of type `bytes` not at all. -/
def Survives (p : Payload) (payload : Bytes) : Prop :=
  match p with
  | .str _ => 0 ∉ payload
  | .bytes _ => payload = []
  | .bytearray _ => True

/-- What survives: the topic and a text have no NUL, a payload of type `bytes` is empty, the
packet identifier is one of the protocol's, and the Remaining Length takes at most three bytes. -/
structure Faithful (r : PublishRequest) (m_PacketID : ℤ) (topic payload : Bytes) : Prop where
  topic_ok : 0 ∉ topic
  payload_ok : Survives r.payload payload
  identifier_ok : ∀ i, r.identifier m_PacketID = some i → 0 ≤ i ∧ i ≤ 65535
  length_lt : bodyLength topic (r.identifier m_PacketID) payload < 128 ^ 3

/-! ### The packet -/

/-- What the code takes for the payload. -/
def payloadSent : Payload → Option Bytes
  | .str s => stdString s
  | .bytes _ => some []
  | .bytearray s => some s

theorem payloadOf_object (p : Payload) :
    payloadOf (some p.object) = match payloadSent p with
      | some b => .ok b
      | none => .error .threw := by
  cases p with
  | str s => rfl
  | bytes s => rfl
  | bytearray s => rfl

/-- The identifier that is written. -/
def PublishRequest.written (r : PublishRequest) (m_PacketID : ℤ) : Option ℤ :=
  if asLong r.qos = 0 then none else some ((r.packetIdentifier.map asLong).getD m_PacketID)

section Packet

variable (parameters : PyDict) (m_PacketID : ℤ) (r : PublishRequest)

theorem getItemString_dict :
    getItemString r.dict "Verb" = some (.str (pyStr "PUBLISH")) ∧
      getItemString r.dict "Topic" = some (.str r.topic) ∧
      getItemString r.dict "Payload" = some r.payload.object ∧
      getItemString r.dict "QoS" = some (.int r.qos) ∧
      getItemString r.dict "Retain" = some (.bool r.retain) ∧
      getItemString r.dict "Duplicate" = some (.bool r.dup) ∧
      getItemString r.dict "PacketIdentifier" = r.packetIdentifier.map .int := by
  refine ⟨rfl, rfl, rfl, rfl, rfl, rfl, ?_⟩
  unfold PublishRequest.dict
  cases r.packetIdentifier with
  | none => rfl
  | some i => rfl

theorem asLong_eq_zero_iff (i : ℤ) : asLong i = 0 ↔ i = 0 := by
  unfold asLong
  split
  · exact Iff.rfl
  · next h => omega

theorem publishByte0_dict : publishByte0 r.dict = publishHeader r.dup r.retain (asLong r.qos) := by
  obtain ⟨-, -, -, hqos, hretain, hdup, -⟩ := getItemString_dict r
  unfold publishByte0 publishQoS publishHeader
  rw [hqos, hretain, hdup]
  cases r.dup with
  | false =>
    cases r.retain with
    | false => rfl
    | true => rfl
  | true =>
    cases r.retain with
    | false => rfl
    | true => rfl

theorem packetIdentifier_dict : (packetIdentifier m_PacketID r.dict).1 =
    (r.packetIdentifier.map asLong).getD m_PacketID := by
  obtain ⟨-, -, -, -, -, -, hid⟩ := getItemString_dict r
  unfold packetIdentifier
  rw [hid]
  cases r.packetIdentifier with
  | none => rfl
  | some i => rfl

theorem publishIdentifier_dict {topic : Bytes} (ht : stdString r.topic = some topic) :
    (publishIdentifier m_PacketID r.dict).1 = r.written m_PacketID := by
  obtain ⟨-, htopic, -, hqos, -, -, -⟩ := getItemString_dict r
  have hq : publishQoS r.dict = asLong r.qos := by
    unfold publishQoS
    rw [hqos]
    rfl
  unfold publishIdentifier PublishRequest.written
  rw [htopic]
  simp only [unicode?, Option.bind_some, ht, hq]
  by_cases h : asLong r.qos = 0
  · rw [if_neg (not_not.mpr h), if_pos h]
  · rw [if_pos h, if_neg h, packetIdentifier_dict]

/-- What is written behind the fixed header. -/
def PublishRequest.body (topic payload : Bytes) : Bytes :=
  pushBackStringWLen topic ++ ((r.written m_PacketID).elim [] fun i => pushBackNumber (toInt32 i)) ++
    payload

/-- The packet of a request. -/
theorem processOutbound_publish {topic payload : Bytes} (ht : stdString r.topic = some topic)
    (hp : payloadSent r.payload = some payload) :
    (processOutbound parameters m_PacketID (some (.dict r.dict))).1 =
      some (publishHeader r.dup r.retain (asLong r.qos) ::
        (encodeLength (r.body m_PacketID topic payload).length ++ r.body m_PacketID topic payload)) := by
  obtain ⟨hverb, htopic, hpayload, -, -, -, -⟩ := getItemString_dict r
  have hstd : stdString (pyStr "PUBLISH") = some (str "PUBLISH") := by decide
  have hbranch : publish (r.written m_PacketID) r.dict = .ok
      { retVal := [publishHeader r.dup r.retain (asLong r.qos)]
        vVariableHeader := pushBackStringWLen topic ++
          (r.written m_PacketID).elim [] fun i => pushBackNumber (toInt32 i)
        vPayload := payload } := by
    unfold publish
    rw [htopic, hpayload, payloadOf_object, hp, publishByte0_dict]
    simp only [unicode?, text, ht]
    rfl
  have hverbs : verbBranch parameters m_PacketID r.dict (str "PUBLISH") =
      (publish (r.written m_PacketID) r.dict, (publishIdentifier m_PacketID r.dict).2) := by
    rw [← publishIdentifier_dict m_PacketID r ht]
    rfl
  unfold processOutbound
  simp only [hverb, hstd, hverbs, hbranch]
  rw [assemble, remainingLength_eq, ← List.length_append]
  simp [PublishRequest.body]

/-- A text with a surrogate is not sent. -/
theorem processOutbound_throws (h : stdString r.topic = none ∨ payloadSent r.payload = none) :
    (processOutbound parameters m_PacketID (some (.dict r.dict))).1 = none := by
  obtain ⟨hverb, htopic, hpayload, -, -, -, -⟩ := getItemString_dict r
  have hstd : stdString (pyStr "PUBLISH") = some (str "PUBLISH") := by decide
  have hbranch (i : Option ℤ) : publish i r.dict = .error .threw := by
    unfold publish
    rw [htopic, hpayload, payloadOf_object]
    simp only [unicode?, text]
    cases ht : stdString r.topic with
    | none => rfl
    | some topic =>
      rcases h with h | h
      · rw [ht] at h
        cases h
      · rw [h]
        rfl
  have hverbs : verbBranch parameters m_PacketID r.dict (str "PUBLISH") =
      (publish (publishIdentifier m_PacketID r.dict).1 r.dict,
        (publishIdentifier m_PacketID r.dict).2) := rfl
  unfold processOutbound
  simp only [hverb, hstd, hverbs, hbranch]

end Packet

/-! ### What comes back -/

theorem publishHeader_bits {qos : ℤ} (dup retain : Bool) (h : qos = 0 ∨ qos = 1 ∨ qos = 2) :
    let header := publishHeader dup retain qos
    header &&& 0xF0 = MQTT_PUBLISH ∧ (header &&& 0x0F &&& 0x06) >>> 1 = byteOf qos ∧
      ((header &&& 0x0F &&& 0x08) >>> 3).toNat = (if dup then 1 else 0) ∧
        decide (header &&& 0x0F &&& 0x01 ≠ 0) = retain := by
  revert dup retain
  rcases h with rfl | rfl | rfl
  · decide
  · decide
  · decide

/-- A text is the UTF-8 of a string. -/
theorem exists_name {s : PyStr} {topic : Bytes} (h : asUTF8 s = some topic) :
    ∃ name : String, utf8 name = topic := by
  obtain ⟨chars, -, rfl⟩ := exists_chars h
  refine ⟨String.ofList chars, ?_⟩
  rw [utf8, String.toUTF8_eq_toByteArray, String.toByteArray_ofList]
  exact List.toList_data_toByteArray

theorem exists_topic {s : PyStr} {topic : Bytes} (h : stdString s = some topic)
    (hlen : topic.length ≤ 65535) :
    ∃ t : Topic, utf8 t.name = topic ∧ pushBackStringWLen topic = bigEndian t.size ++ topic := by
  obtain ⟨full, hfull, rfl⟩ := Option.map_eq_some_iff.mp h
  obtain ⟨s', hs'⟩ := exists_asUTF8_cstr hfull
  obtain ⟨name, hname⟩ := exists_name hs'
  have hlt : (utf8 name).length < 2 ^ 16 := by
    rw [hname]
    omega
  refine ⟨⟨name, hlt⟩, hname, ?_⟩
  rw [pushBackStringWLen, pushBackNumber_natCast (by omega), bigEndian, Topic.size,
    UInt16.toNat_ofNat', Nat.mod_eq_of_lt hlt, hname]

/-- The packet is read as it was written. -/
theorem parsePacket_published (m_PacketID : ℤ) (r : PublishRequest) {topic : Bytes}
    (payload : Bytes) (ht : stdString r.topic = some topic) (hlen : topic.length ≤ 65535)
    (hq : r.qos = 0 ∨ r.qos = 1 ∨ r.qos = 2) :
    parsePacket (publishHeader r.dup r.retain r.qos) (r.body m_PacketID topic payload) =
      some (published r.dup r.retain r.qos topic ((r.written m_PacketID).map wireIdentifier)
        payload) := by
  obtain ⟨t, rfl, htopic⟩ := exists_topic ht hlen
  obtain ⟨htype, hqos, hdup, hretain⟩ := publishHeader_bits r.dup r.retain hq
  have hparse (body : Bytes) : parsePacket (publishHeader r.dup r.retain r.qos) body =
      parsePublish (publishHeader r.dup r.retain r.qos &&& 0x0F) body := by
    simp only [parsePacket, htype]
    rfl
  have hzero : asLong r.qos = 0 ↔ r.qos = 0 := asLong_eq_zero_iff r.qos
  rw [hparse, PublishRequest.body, htopic, List.append_assoc, List.append_assoc]
  by_cases h0 : r.qos = 0
  · -- without acknowledgement no identifier is written, nor read
    have hnone : r.written m_PacketID = none := if_pos (hzero.mpr h0)
    have hflags : (publishHeader r.dup r.retain r.qos &&& 0x0F &&& 0x06) >>> 1 = 0 := by
      rw [hqos, h0]
      rfl
    rw [hnone, Option.elim_none, List.nil_append, parsePublish_atMostOnce hflags, hdup, hretain, h0]
    cases r.dup with
    | false => rfl
    | true => rfl
  · obtain ⟨i, hi⟩ : ∃ i, r.written m_PacketID = some i := ⟨_, if_neg (mt hzero.mp h0)⟩
    obtain ⟨n, hn⟩ := exists_pushBackNumber i
    -- the two bytes are read as the number that they were written from
    have hwire : wireIdentifier i = n.toNat := by
      have hbytes := hn
      rw [pushBackNumber, bigEndian, List.cons.injEq, List.cons.injEq] at hbytes
      rw [wireIdentifier, hbytes.1, hbytes.2.1, number_bigEndian]
    have hbyte : ((byteOf r.qos).toNat : ℤ) = r.qos := by
      rw [toNat_byteOf]
      omega
    have hflags : (publishHeader r.dup r.retain r.qos &&& 0x0F &&& 0x06) >>> 1 ≠ 0 := by
      rw [hqos]
      intro hb
      rw [hb] at hbyte
      exact h0 hbyte.symm
    rw [hi, Option.elim_some, hn, parsePublish_identified hflags, hdup, hretain, hqos, hbyte,
      Option.map_some, hwire]
    cases r.dup with
    | false => rfl
    | true => rfl

/-- One packet in one read. -/
theorem runs_packet {stray : ℕ → UInt8} {packet : Bytes} {data : Dict}
    (h : decodePacket stray packet = some (some data, [])) :
    runs stray {} [packet] = ({}, [.onMessage data]) := by
  have hretained : processRetained stray packet = (⟨[], false⟩, [.onMessage data]) := by
    rw [processRetained]
    split
    · next h' => rw [h] at h'; cases h'
    · next h' => rw [h] at h'; cases h'
    · next h' =>
      rw [h] at h'
      cases h'
      rfl
  have hread : processInbound stray {} packet = (⟨[], false⟩, [.onMessage data]) := by
    unfold processInbound
    simp only [List.nil_append, hretained, Bool.false_eq_true, if_false]
  simp only [runs, hread]
  rfl

/-- A read without a packet that is complete. -/
theorem runs_pending {stray : ℕ → UInt8} {packet : Bytes} (h : decodePacket stray packet = none) :
    (runs stray {} [packet]).2 = [] := by
  have hretained : processRetained stray packet = (⟨packet, false⟩, []) := by
    rw [processRetained]
    split
    · rfl
    · next h' => rw [h] at h'; cases h'
    · next h' => rw [h] at h'; cases h'
  have hread : processInbound stray {} packet = (⟨packet, false⟩, []) := by
    unfold processInbound
    simp only [List.nil_append, hretained, Bool.false_eq_true, if_false]
  simp only [runs, hread]
  rfl

/-- What comes of a packet in one read. -/
theorem runs_publish (stray : ℕ → UInt8) (m_PacketID : ℤ) (r : PublishRequest) {topic : Bytes}
    (payload : Bytes) (ht : stdString r.topic = some topic) (hlen : topic.length ≤ 65535)
    (hq : r.qos = 0 ∨ r.qos = 1 ∨ r.qos = 2) {packet : Bytes}
    (hpacket : packet = publishHeader r.dup r.retain r.qos ::
      (encodeLength (r.body m_PacketID topic payload).length ++ r.body m_PacketID topic payload)) :
    ((r.body m_PacketID topic payload).length < 128 ^ 3 → runs stray {} [packet] = ({}, [.onMessage
      (published r.dup r.retain r.qos topic ((r.written m_PacketID).map wireIdentifier)
        payload)])) ∧
      (128 ^ 3 ≤ (r.body m_PacketID topic payload).length → (runs stray {} [packet]).2 = []) := by
  have hdecode := decodePacket_wire stray (publishHeader r.dup r.retain r.qos)
    (r.body m_PacketID topic payload) []
  rw [List.append_nil, ← hpacket, parsePacket_published m_PacketID r payload ht hlen hq] at hdecode
  constructor
  · intro h
    rw [if_pos h] at hdecode
    exact runs_packet hdecode
  · intro h
    rw [if_neg (not_lt.mpr h)] at hdecode
    exact runs_pending hdecode

/-! ### The round trip -/

theorem length_body (m_PacketID : ℤ) (r : PublishRequest) (topic payload : Bytes) :
    (r.body m_PacketID topic payload).length =
      bodyLength topic (r.written m_PacketID) payload := by
  rw [PublishRequest.body, List.length_append, List.length_append, length_pushBackStringWLen,
    bodyLength]
  cases r.written m_PacketID with
  | none => rfl
  | some i => rfl

theorem published_inj {dup retain : Bool} {qos : ℤ} {topic topic' payload payload' : Bytes}
    {identifier identifier' : Option ℤ}
    (h : published dup retain qos topic identifier payload =
      published dup retain qos topic' identifier' payload') :
    topic = topic' ∧ identifier = identifier' ∧ payload = payload' := by
  unfold published at h
  cases identifier with
  | none =>
    cases identifier' with
    | none =>
      simp only [Option.elim_none, List.append_nil, List.cons_append, List.nil_append,
        List.cons.injEq, Prod.mk.injEq, PyValue.text.injEq, PyValue.bytes.injEq, true_and,
        and_true] at h
      exact ⟨h.1, rfl, h.2⟩
    | some j =>
      have hlength := congrArg List.length h
      simp at hlength
  | some i =>
    cases identifier' with
    | none =>
      have hlength := congrArg List.length h
      simp at hlength
    | some j =>
      simp only [Option.elim_some, List.cons_append, List.nil_append, List.cons.injEq,
        Prod.mk.injEq, PyValue.text.injEq, PyValue.bytes.injEq, PyValue.int.injEq, true_and,
        and_true] at h
      exact ⟨h.1, congrArg some h.2.1, h.2.2⟩

theorem qos_cases {qos : ℤ} (h : 0 ≤ qos ∧ qos ≤ 2) : qos = 0 ∨ qos = 1 ∨ qos = 2 := by omega

/-- The identifier that is written is the one of the message, as a `long`. -/
theorem written_eq_iff (m_PacketID : ℤ) (r : PublishRequest) :
    (r.written m_PacketID).map wireIdentifier = r.identifier m_PacketID ↔
      ∀ i, r.identifier m_PacketID = some i → 0 ≤ i ∧ i ≤ 65535 := by
  unfold PublishRequest.written PublishRequest.identifier
  simp only [asLong_eq_zero_iff]
  by_cases h0 : r.qos = 0
  · rw [if_pos h0, if_pos h0]
    exact iff_of_true rfl nofun
  rw [if_neg h0, if_neg h0, Option.map_some, Option.some.injEq]
  simp only [Option.some.injEq, forall_eq']
  have hlong {i : ℤ} (h : 0 ≤ i ∧ i ≤ 65535) : asLong i = i := if_pos (by omega)
  cases r.packetIdentifier with
  | none =>
    simp only [Option.map_none, Option.getD_none]
    constructor
    · intro h
      have hb := wireIdentifier_bounds m_PacketID
      rwa [h] at hb
    · exact wireIdentifier_of_le
  | some i =>
    simp only [Option.map_some, Option.getD_some]
    constructor
    · intro h
      have hb := wireIdentifier_bounds (asLong i)
      rwa [h] at hb
    · intro h
      rw [hlong h]
      exact wireIdentifier_of_le h

/-- What is taken for the payload is the payload. -/
theorem sent_eq_iff {p : Payload} {payload sent : Bytes} (hc : p.content = some payload)
    (hs : payloadSent p = some sent) : sent = payload ↔ Survives p payload := by
  cases p with
  | str s =>
    have hs' : (asUTF8 s).map cstr = some sent := hs
    have hc' : asUTF8 s = some payload := hc
    rw [hc', Option.map_some, Option.some.injEq] at hs'
    rw [← hs']
    exact cstr_eq_self_iff payload
  | bytes s =>
    have hs' : some [] = some sent := hs
    rw [Option.some.injEq] at hs'
    rw [← hs']
    exact eq_comm
  | bytearray s =>
    have hs' : some s = some sent := hs
    have hc' : some s = some payload := hc
    rw [Option.some.injEq] at hs' hc'
    exact iff_of_true (hs'.symm.trans hc') trivial

theorem exists_sent {p : Payload} {payload : Bytes} (hc : p.content = some payload) :
    ∃ sent, payloadSent p = some sent := by
  cases p with
  | str s =>
    have hc' : asUTF8 s = some payload := hc
    refine ⟨cstr payload, ?_⟩
    rw [payloadSent, stdString, hc']
    rfl
  | bytes s => exact ⟨[], rfl⟩
  | bytearray s => exact ⟨s, rfl⟩

/-- A request in range comes back as it was sent exactly if all of it survives. -/
theorem comes_back_iff (stray : ℕ → UInt8) (parameters : PyDict) (m_PacketID : ℤ)
    (r : PublishRequest) {topic payload : Bytes} (ht : asUTF8 r.topic = some topic)
    (hc : r.payload.content = some payload) (hlen : topic.length ≤ 65535)
    (hq : r.qos = 0 ∨ r.qos = 1 ∨ r.qos = 2) :
    (∃ packet, (processOutbound parameters m_PacketID (some (.dict r.dict))).1 = some packet ∧
      runs stray {} [packet] = ({}, [.onMessage
        (published r.dup r.retain r.qos topic (r.identifier m_PacketID) payload)])) ↔
      Faithful r m_PacketID topic payload := by
  have htopic : stdString r.topic = some (cstr topic) := by rw [stdString, ht, Option.map_some]
  have hlen' : (cstr topic).length ≤ 65535 := (length_cstr_le topic).trans hlen
  obtain ⟨sent, hsent⟩ := exists_sent hc
  have hlong : asLong r.qos = r.qos := if_pos (by omega)
  have hout := processOutbound_publish parameters m_PacketID r htopic hsent
  rw [hlong, length_body] at hout
  obtain ⟨hshort, hlarge⟩ := runs_publish stray m_PacketID r sent htopic hlen' hq rfl
  rw [length_body] at hshort hlarge
  have hsome : (r.written m_PacketID).isSome = (r.identifier m_PacketID).isSome := by
    unfold PublishRequest.written PublishRequest.identifier
    simp only [asLong_eq_zero_iff]
    split
    · rfl
    · rfl
  constructor
  · rintro ⟨packet, hpacket, hrun⟩
    rw [hout, Option.some.injEq] at hpacket
    rw [← hpacket] at hrun
    -- a packet that is too long is not delivered
    have hlt : bodyLength (cstr topic) (r.written m_PacketID) sent < 128 ^ 3 := by
      by_contra hge
      have hnil := hlarge (not_lt.mp hge)
      rw [hrun] at hnil
      cases hnil
    rw [hshort hlt, Prod.mk.injEq, List.cons.injEq, PluginEvent.onMessage.injEq] at hrun
    obtain ⟨htopic', hid, hpayload⟩ := published_inj hrun.2.1
    refine ⟨(cstr_eq_self_iff topic).mp htopic', (sent_eq_iff hc hsent).mp hpayload,
      (written_eq_iff m_PacketID r).mp hid, ?_⟩
    rw [bodyLength, htopic', hpayload, hsome] at hlt
    exact hlt
  · rintro ⟨hzero, hpayload, hid, hlt⟩
    have htopic' := (cstr_eq_self_iff topic).mpr hzero
    obtain rfl := (sent_eq_iff hc hsent).mpr hpayload
    have hlt' : bodyLength (cstr topic) (r.written m_PacketID) sent < 128 ^ 3 := by
      rw [bodyLength, htopic', hsome]
      exact hlt
    refine ⟨_, hout, ?_⟩
    rw [hshort hlt', htopic', (written_eq_iff m_PacketID r).mpr hid]

theorem sent_of_content_none {p : Payload} (h : p.content = none) : payloadSent p = none := by
  cases p with
  | str s =>
    have h' : asUTF8 s = none := h
    rw [payloadSent, stdString, h']
    rfl
  | bytes s => cases h
  | bytearray s => cases h

/-- **A request comes back as it was sent, or is not sent, exactly if what is in range survives
and what is not has a text with a surrogate.** -/
theorem publish_roundTrips_iff (stray : ℕ → UInt8) (parameters : PyDict) (m_PacketID : ℤ)
    (r : PublishRequest) : RoundTrips stray parameters m_PacketID r ↔
      (r.InRange → ∀ topic payload, asUTF8 r.topic = some topic → r.payload.content = some payload →
        bodyLength topic (r.identifier m_PacketID) payload ≤ 268435455 →
        Faithful r m_PacketID topic payload) ∧
      (¬ r.InRange → asUTF8 r.topic = none ∨ r.payload.content = none) := by
  have hfaithful {topic payload : Bytes} (hr : r.InRange) (ht : asUTF8 r.topic = some topic)
      (hc : r.payload.content = some payload) :=
    comes_back_iff stray parameters m_PacketID r ht hc
      (by
        obtain ⟨⟨topic', ht', hlen⟩, -⟩ := hr
        rw [ht, Option.some.injEq] at ht'
        rw [ht']
        exact hlen)
      (qos_cases hr.2)
  constructor
  · rintro ⟨hback, hnot⟩
    refine ⟨fun hr topic payload ht hc hadm => ?_, fun hr => ?_⟩
    · exact (hfaithful hr ht hc).mp (hback topic payload hr ht hc hadm)
    · by_contra hnone
      rw [not_or] at hnone
      obtain ⟨topic, ht⟩ := Option.ne_none_iff_exists'.mp hnone.1
      obtain ⟨payload, hc⟩ := Option.ne_none_iff_exists'.mp hnone.2
      obtain ⟨sent, hsent⟩ := exists_sent hc
      have htopic : stdString r.topic = some (cstr topic) := by rw [stdString, ht, Option.map_some]
      cases hnot hr _ (processOutbound_publish parameters m_PacketID r htopic hsent)
  · rintro ⟨hrange, hother⟩
    refine ⟨fun topic payload hr ht hc hadm => ?_, fun hr packet hpacket => ?_⟩
    · exact (hfaithful hr ht hc).mpr (hrange hr topic payload ht hc hadm)
    · have hthrows : stdString r.topic = none ∨ payloadSent r.payload = none := by
        rcases hother hr with ht | hc
        · exact .inl (by rw [stdString, ht]; rfl)
        · exact .inr (sent_of_content_none hc)
      rw [processOutbound_throws parameters m_PacketID r hthrows] at hpacket
      cases hpacket

/-- The payload `b"on"` is sent as no payload. -/
theorem bytes_payload_dropped :
    ¬ ∀ (stray : ℕ → UInt8) (parameters : PyDict) (m_PacketID : ℤ) (r : PublishRequest),
      RoundTrips stray parameters m_PacketID r := by
  intro h
  let r : PublishRequest := ⟨pyStr "lamp", .bytes (str "on"), 0, false, false, none⟩
  have ht : asUTF8 r.topic = some (str "lamp") := by decide
  have hback := (h (fun _ => 0) [] 1 r).comes_back (str "lamp") (str "on")
    ⟨⟨_, ht, by decide⟩, by decide, by decide⟩ ht rfl (by decide)
  have hfaithful := (comes_back_iff (fun _ => 0) [] 1 r ht rfl (by decide) (.inl rfl)).mp hback
  exact absurd hfaithful.payload_ok (by
    show ¬ str "on" = []
    decide)

end Domoticz.Mqtt
