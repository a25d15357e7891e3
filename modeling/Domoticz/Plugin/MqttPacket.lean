import Domoticz.Plugin.Mqtt

/-!
# The packets of an MQTT server

What an MQTT 3.1.1 server sends, and what the plugin is given of it.  Two kinds of
packets are lost.  The check of the multiplier is made before the continuation bit
is looked at, so a Remaining Length of four bytes never gets through.  And `PUBREL`,
which a broker sends for every message of quality of service 2, is not among the
packet types of the switch.

## Main definitions

* `ServerPacket`, `encode` — what a server sends.
* `contents` — the dictionary of a packet.
* `Decodes` — every packet is delivered, once and in order, and nothing retained.
* `Decodable` — the packets for which that is so.

## Main results

* `readLength_encodeLength` — a Remaining Length of up to three bytes is read.
* `decodePacket_encode` — what becomes of one packet.
* `decodes_iff` — **a stream is decoded exactly if all its packets are decodable.**
* `release_and_large_packet_lost` — a `PUBREL` and a message of 2 MiB.
-/

namespace Domoticz.Mqtt

open CLib Stream

/-! ### What a server sends -/

/-- The UTF-8 of a text. -/
def utf8 (s : String) : Bytes := s.toUTF8.data.toList

/-- The name of a topic: a UTF-8 text whose length fits into two bytes. -/
structure Topic where
  name : String
  length_lt : (utf8 name).length < 2 ^ 16

/-- The quality of service of a message; a packet identifier comes with all but the first. -/
inductive QoS
  | atMostOnce
  | atLeastOnce (dup : Bool) (packetIdentifier : UInt16)
  | exactlyOnce (dup : Bool) (packetIdentifier : UInt16)

/-- A return code of a `SUBACK`. -/
inductive SubackCode
  | granted (qos : Fin 3)
  | failure

/-- The packets of an MQTT 3.1.1 server. -/
inductive ServerPacket
  | connack (sessionPresent : Bool) (returnCode : Fin 6)
  | publish (qos : QoS) (retain : Bool) (topic : Topic) (payload : Bytes)
  | puback (packetIdentifier : UInt16)
  | pubrec (packetIdentifier : UInt16)
  | pubrel (packetIdentifier : UInt16)
  | pubcomp (packetIdentifier : UInt16)
  | suback (packetIdentifier : UInt16) (code : SubackCode) (codes : List SubackCode)
  | unsuback (packetIdentifier : UInt16)
  | pingresp

/-- The byte of a return code. -/
def SubackCode.byte : SubackCode → UInt8
  | .granted qos => UInt8.ofNat qos
  | .failure => 0x80

/-- The number of a quality of service. -/
def QoS.level : QoS → Fin 3
  | .atMostOnce => 0
  | .atLeastOnce _ _ => 1
  | .exactlyOnce _ _ => 2

/-- Whether a message is sent again. -/
def QoS.dup : QoS → Bool
  | .atMostOnce => false
  | .atLeastOnce dup _ => dup
  | .exactlyOnce dup _ => dup

/-- The identifier of a message, if it has one. -/
def QoS.packetIdentifier : QoS → Option UInt16
  | .atMostOnce => none
  | .atLeastOnce _ packetIdentifier => some packetIdentifier
  | .exactlyOnce _ packetIdentifier => some packetIdentifier

/-- The flags of a `PUBLISH`. -/
def publishFlags (level : Fin 3) (dup retain : Bool) : UInt8 :=
  (if dup then (8 : UInt8) else 0) ||| (UInt8.ofNat level <<< 1) ||| (if retain then 1 else 0)

/-- The length of a topic on the wire. -/
def Topic.size (topic : Topic) : UInt16 := UInt16.ofNat (utf8 topic.name).length

/-- The first byte of a packet. -/
def ServerPacket.header : ServerPacket → UInt8
  | .connack _ _ => MQTT_CONNACK
  | .publish qos retain _ _ => MQTT_PUBLISH ||| publishFlags qos.level qos.dup retain
  | .puback _ => MQTT_PUBACK
  | .pubrec _ => MQTT_PUBREC
  | .pubrel _ => MQTT_PUBREL ||| 2
  | .pubcomp _ => MQTT_PUBCOMP
  | .suback _ _ _ => MQTT_SUBACK
  | .unsuback _ => MQTT_UNSUBACK
  | .pingresp => MQTT_PINGRESP

/-- The bytes behind the fixed header. -/
def ServerPacket.body : ServerPacket → Bytes
  | .connack sessionPresent returnCode =>
      [if sessionPresent then 1 else 0, UInt8.ofNat returnCode]
  | .publish qos _ topic payload =>
      bigEndian topic.size ++ utf8 topic.name ++ qos.packetIdentifier.elim [] bigEndian ++ payload
  | .puback packetIdentifier => bigEndian packetIdentifier
  | .pubrec packetIdentifier => bigEndian packetIdentifier
  | .pubrel packetIdentifier => bigEndian packetIdentifier
  | .pubcomp packetIdentifier => bigEndian packetIdentifier
  | .suback packetIdentifier code codes =>
      bigEndian packetIdentifier ++ (code :: codes).map SubackCode.byte
  | .unsuback packetIdentifier => bigEndian packetIdentifier
  | .pingresp => []

/-- The Remaining Length of the protocol: groups of seven bits, the lowest first, and as
few of them as possible. -/
def encodeLength (n : ℕ) : Bytes :=
  if n < 128 then [UInt8.ofNat n] else UInt8.ofNat (n % 128 + 128) :: encodeLength (n / 128)

/-- A packet whose length the protocol can express. -/
structure WirePacket where
  packet : ServerPacket
  length_le : packet.body.length ≤ 268435455

/-- A packet on the wire. -/
def ServerPacket.encode (p : ServerPacket) : Bytes :=
  p.header :: (encodeLength p.body.length ++ p.body)

/-- The bytes of a connection. -/
def stream (packets : List WirePacket) : Bytes :=
  (packets.map fun p => p.packet.encode).flatten

/-! ### What is to be delivered -/

/-- The dictionary of a packet that consists of an identifier. -/
def acknowledgement (verb : String) (packetIdentifier : UInt16) : Dict :=
  [(str "Verb", .text (str verb)), (str "PacketIdentifier", .int packetIdentifier.toNat)]

/-- The dictionary of a packet.  That of a `PUBREL` is the one the other acknowledgements
would have it. -/
def ServerPacket.contents : ServerPacket → Dict
  | .connack sessionPresent returnCode =>
      [(str "Verb", .text (str "CONNACK")),
        (str "Description", .text (connackDescription (if sessionPresent then 1 else 0))),
        (str "Status", .int returnCode)]
  | .publish qos retain topic payload =>
      [(str "Verb", .text (str "PUBLISH")), (str "DUP", .int (if qos.dup then 1 else 0)),
        (str "QoS", .int qos.level), (str "Retain", .bool retain),
        (str "Topic", .text (utf8 topic.name))] ++
      qos.packetIdentifier.elim [] (fun n => [(str "PacketIdentifier", .int n.toNat)]) ++
      [(str "Payload", .bytes payload)]
  | .puback packetIdentifier => acknowledgement "PUBACK" packetIdentifier
  | .pubrec packetIdentifier => acknowledgement "PUBREC" packetIdentifier
  | .pubrel packetIdentifier => acknowledgement "PUBREL" packetIdentifier
  | .pubcomp packetIdentifier => acknowledgement "PUBCOMP" packetIdentifier
  | .suback packetIdentifier code codes =>
      [(str "Verb", .text (str "SUBACK")), (str "PacketIdentifier", .int packetIdentifier.toNat),
        (str "Topics", .list ((code :: codes).map fun c => subackTopic c.byte))]
  | .unsuback packetIdentifier => acknowledgement "UNSUBACK" packetIdentifier
  | .pingresp => [(str "Verb", .text (str "PINGRESP"))]

/-- A division of a stream is decoded: every packet is delivered, once and in order, as
when the stream arrives in one read, and in the end nothing is retained. -/
structure Decodes (stray : ℕ → UInt8) (packets : List WirePacket)
    (d : Division (stream packets)) : Prop where
  delivered : (runs stray {} d.reads).2 = packets.map fun p => .onMessage p.packet.contents
  as_whole : (runs stray {} d.reads).2 = (runs stray {} (Division.whole (stream packets)).reads).2
  retained : (runs stray {} d.reads).1.m_sRetainedData = []

/-- The packets the loop gets through: not `PUBREL`, and with a Remaining Length of at most
three bytes. -/
def ServerPacket.Decodable (p : ServerPacket) : Prop :=
  p.body.length < 128 ^ 3 ∧ ∀ packetIdentifier, p ≠ .pubrel packetIdentifier

/-! ### The Remaining Length -/

theorem encodeLength_of_lt {n : ℕ} (h : n < 128) : encodeLength n = [UInt8.ofNat n] := by
  rw [encodeLength, if_pos h]

theorem encodeLength_of_le {n : ℕ} (h : 128 ≤ n) :
    encodeLength n = UInt8.ofNat (n % 128 + 128) :: encodeLength (n / 128) := by
  rw [encodeLength, if_neg (by omega)]

/-- One pass over the last byte of a Remaining Length. -/
theorem readLength_last {byte : ℕ → UInt8} {passes it len multiplier n : ℕ} (hn : n < 128)
    (hb : byte it = UInt8.ofNat n) :
    readLength byte (passes + 1) it len multiplier =
      if 128 * 128 * 128 < multiplier * 128 then none else some (len + n * multiplier, it + 1) := by
  have hval : (UInt8.ofNat n).toNat = n := by
    rw [UInt8.toNat_ofNat', Nat.mod_eq_of_lt (by omega)]
  have hc : ¬ UInt8.ofNat n &&& 128 ≠ 0 := by
    rw [not_not, and_128_eq_zero_iff, hval]
    exact hn
  rw [readLength, hb, toNat_and_127, hval, Nat.mod_eq_of_lt hn]
  simp only [if_neg hc]

/-- One pass over a byte that is not the last. -/
theorem readLength_more {byte : ℕ → UInt8} {passes it len multiplier n : ℕ}
    (hb : byte it = UInt8.ofNat (n % 128 + 128)) :
    readLength byte (passes + 1) it len multiplier =
      if 128 * 128 * 128 < multiplier * 128 then none
      else readLength byte passes (it + 1) (len + n % 128 * multiplier) (multiplier * 128) := by
  have hval : (UInt8.ofNat (n % 128 + 128)).toNat = n % 128 + 128 := by
    rw [UInt8.toNat_ofNat', Nat.mod_eq_of_lt (by omega)]
  have hc : UInt8.ofNat (n % 128 + 128) &&& 128 ≠ 0 := by
    rw [Ne, and_128_eq_zero_iff, hval]
    omega
  rw [readLength, hb, toNat_and_127, hval, Nat.add_mod_right, Nat.mod_mod]
  simp only [if_pos hc]

/-- The induction is on the passes that are left; the multiplier is what they lack. -/
theorem readLength_encodeLength (stray : ℕ → UInt8) {buf rest : Bytes} {f it len multiplier n : ℕ}
    (hm : multiplier * 128 ^ f = 128 ^ 3) (hn : n < 128 ^ f) (hf : 0 < f)
    (hb : buf.drop it = encodeLength n ++ rest) :
    readLength (byteAt stray buf) (f + 1) it len multiplier =
      some (len + n * multiplier, it + (encodeLength n).length) := by
  induction f generalizing it len multiplier n with
  | zero => cases hf
  | succ f ih =>
    have hpos : 1 ≤ 128 ^ f := Nat.one_le_two_pow.trans (Nat.pow_le_pow_left (by omega) f)
    have hle : multiplier * 128 ≤ 128 ^ 3 := by
      rw [← hm, pow_succ]
      nlinarith
    by_cases h : n < 128
    · rw [encodeLength_of_lt h] at hb ⊢
      rw [readLength_last h (byteAt_of_drop stray hb).1, if_neg (by omega)]
      rfl
    · rw [encodeLength_of_le (by omega)] at hb ⊢
      obtain ⟨hb₁, hb₂⟩ := byteAt_of_drop stray hb
      have hf' : 0 < f := by
        by_contra h0
        obtain rfl : f = 0 := by omega
        omega
      have hdiv : n / 128 < 128 ^ f := by
        rw [Nat.div_lt_iff_lt_mul (by omega), ← pow_succ]
        exact hn
      rw [readLength_more hb₁, if_neg (by omega),
        ih (by rw [mul_assoc, ← pow_succ']; exact hm) hdiv hf' hb₂, List.length_cons]
      have hsplit := Nat.div_add_mod n 128
      congr 2
      · nlinarith
      · omega

/-- A Remaining Length of more bytes than the passes let through is malformed. -/
theorem readLength_of_le (stray : ℕ → UInt8) {buf rest : Bytes} {f it len multiplier n : ℕ}
    (hm : multiplier * 128 ^ f = 128 ^ 3) (hn : 128 ^ f ≤ n)
    (hb : buf.drop it = encodeLength n ++ rest) :
    readLength (byteAt stray buf) (f + 1) it len multiplier = none := by
  induction f generalizing it len multiplier n with
  | zero =>
    rw [readLength]
    exact if_pos (by omega)
  | succ f ih =>
    have h : 128 ≤ n := by
      have hpos : 1 ≤ 128 ^ f := Nat.one_le_two_pow.trans (Nat.pow_le_pow_left (by omega) f)
      rw [pow_succ] at hn
      omega
    rw [encodeLength_of_le h] at hb
    obtain ⟨hb₁, hb₂⟩ := byteAt_of_drop stray hb
    have hdiv : 128 ^ f ≤ n / 128 := by
      rw [Nat.le_div_iff_mul_le (by omega), ← pow_succ]
      exact hn
    rw [readLength_more hb₁, ih (by rw [mul_assoc, ← pow_succ']; exact hm) hdiv hb₂, ite_self]

/-- A pass over a packet whose Remaining Length has at most three bytes, and what of it is
read when there are more. -/
theorem decodePacket_wire (stray : ℕ → UInt8) (header : UInt8) (body more : Bytes) :
    decodePacket stray (header :: (encodeLength body.length ++ body) ++ more) =
      if body.length < 128 ^ 3 then some (parsePacket header body, more) else none := by
  have hb : (header :: (encodeLength body.length ++ body) ++ more).drop 1 =
      encodeLength body.length ++ (body ++ more) := by
    rw [← List.append_assoc]
    rfl
  split
  · next hlen =>
    have hr : readLength (byteAt stray (header :: (encodeLength body.length ++ body) ++ more)) 4 1 0 1 =
        some (0 + body.length * 1, 1 + (encodeLength body.length).length) :=
      readLength_encodeLength stray rfl hlen (by decide) hb
    have hdrop : (header :: (encodeLength body.length ++ body) ++ more).drop
        (1 + (encodeLength body.length).length) = body ++ more := by
      rw [← List.drop_drop, hb, List.drop_left]
    refine decodePacket_eq_some.mpr ⟨_, _, hr, ?_, ?_, ?_⟩
    · simp only [List.length_append, List.length_cons]
      omega
    · rw [hdrop, zero_add, mul_one, List.take_left]
      rfl
    · rw [zero_add, mul_one, ← List.drop_drop, hdrop, List.drop_left]
  · next hlen =>
    have hr : readLength (byteAt stray (header :: (encodeLength body.length ++ body) ++ more)) 4 1 0 1 =
        none := readLength_of_le stray rfl (not_lt.mp hlen) hb
    rw [decodePacket, hr]

theorem decodePacket_encode (stray : ℕ → UInt8) (p : ServerPacket) (more : Bytes) :
    decodePacket stray (p.encode ++ more) =
      if p.body.length < 128 ^ 3 then some (parsePacket p.header p.body, more) else none :=
  decodePacket_wire stray p.header p.body more

/-! ### The switch on the packets of a server -/

theorem parseAcknowledgement_bigEndian (verb : String) (packetIdentifier : UInt16) :
    parseAcknowledgement verb 0 (bigEndian packetIdentifier) =
      some (acknowledgement verb packetIdentifier) := by
  rw [parseAcknowledgement, if_neg (not_not.mpr rfl), if_pos (length_bigEndian _), acknowledgement,
    ← number_bigEndian packetIdentifier]
  rfl

theorem number_size (topic : Topic) (more : Bytes) :
    number ((bigEndian topic.size ++ more).getD 0 0) ((bigEndian topic.size ++ more).getD 1 0) =
      (utf8 topic.name).length := by
  have h : topic.size.toNat = (utf8 topic.name).length := by
    rw [Topic.size, UInt16.toNat_ofNat', Nat.mod_eq_of_lt topic.length_lt]
  rw [← h]
  exact number_bigEndian topic.size

/-- A `PUBLISH` without a packet identifier. -/
theorem parsePublish_atMostOnce {flags : UInt8} (h : (flags &&& 0x06) >>> 1 = 0) (topic : Topic)
    (payload : Bytes) :
    parsePublish flags (bigEndian topic.size ++ (utf8 topic.name ++ payload)) =
      some [(str "Verb", .text (str "PUBLISH")), (str "DUP", .int ((flags &&& 0x08) >>> 3).toNat),
        (str "QoS", .int 0), (str "Retain", .bool (flags &&& 0x01 ≠ 0)),
        (str "Topic", .text (utf8 topic.name)), (str "Payload", .bytes payload)] := by
  have hlen : ¬ (bigEndian topic.size ++ (utf8 topic.name ++ payload)).length <
      (utf8 topic.name).length + 2 + 0 := by
    simp only [List.length_append, length_bigEndian]
    omega
  have hdrop : (bigEndian topic.size ++ (utf8 topic.name ++ payload)).drop 2 =
      utf8 topic.name ++ payload := List.drop_left' rfl
  have hpayload : (bigEndian topic.size ++ (utf8 topic.name ++ payload)).drop
      (2 + (utf8 topic.name).length) = payload := by
    rw [← List.drop_drop, hdrop, List.drop_left]
  simp only [parsePublish, h, number_size, ne_eq, not_true_eq_false, if_false, if_neg hlen, hdrop,
    hpayload, List.take_left]
  rfl

/-- A `PUBLISH` with a packet identifier. -/
theorem parsePublish_identified {flags : UInt8} (h : (flags &&& 0x06) >>> 1 ≠ 0) (topic : Topic)
    (packetIdentifier : UInt16) (payload : Bytes) :
    parsePublish flags
        (bigEndian topic.size ++ (utf8 topic.name ++ (bigEndian packetIdentifier ++ payload))) =
      some [(str "Verb", .text (str "PUBLISH")), (str "DUP", .int ((flags &&& 0x08) >>> 3).toNat),
        (str "QoS", .int ((flags &&& 0x06) >>> 1).toNat), (str "Retain", .bool (flags &&& 0x01 ≠ 0)),
        (str "Topic", .text (utf8 topic.name)),
        (str "PacketIdentifier", .int packetIdentifier.toNat), (str "Payload", .bytes payload)] := by
  have hlen : ¬ (bigEndian topic.size ++
      (utf8 topic.name ++ (bigEndian packetIdentifier ++ payload))).length <
        (utf8 topic.name).length + 2 + 2 := by
    simp only [List.length_append, length_bigEndian]
    omega
  have hdrop : (bigEndian topic.size ++
      (utf8 topic.name ++ (bigEndian packetIdentifier ++ payload))).drop 2 =
        utf8 topic.name ++ (bigEndian packetIdentifier ++ payload) := List.drop_left' rfl
  have htail : (bigEndian topic.size ++
      (utf8 topic.name ++ (bigEndian packetIdentifier ++ payload))).drop
        (2 + (utf8 topic.name).length) = bigEndian packetIdentifier ++ payload := by
    rw [← List.drop_drop, hdrop, List.drop_left]
  have hpayload : (bigEndian topic.size ++
      (utf8 topic.name ++ (bigEndian packetIdentifier ++ payload))).drop
        (2 + (utf8 topic.name).length + 2) = payload := by
    rw [← List.drop_drop, htail]
    exact List.drop_left' rfl
  have hget (i : ℕ) : (bigEndian topic.size ++
      (utf8 topic.name ++ (bigEndian packetIdentifier ++ payload))).getD
        (2 + (utf8 topic.name).length + i) 0 = (bigEndian packetIdentifier ++ payload).getD i 0 := by
    rw [List.getD_eq_getElem?_getD, List.getD_eq_getElem?_getD, ← List.getElem?_drop, htail]
  have hid : number ((bigEndian packetIdentifier ++ payload).getD 0 0)
      ((bigEndian packetIdentifier ++ payload).getD 1 0) = packetIdentifier.toNat :=
    number_bigEndian packetIdentifier
  have hget0 := hget 0
  rw [add_zero] at hget0
  simp only [parsePublish, number_size, ne_eq, h, not_false_eq_true, if_true, if_neg hlen, hdrop,
    hpayload, hget0, hget 1, hid, List.take_left]
  rfl

theorem publishFlags_bits (level : Fin 3) (dup retain : Bool) :
    let f := publishFlags level dup retain
    (MQTT_PUBLISH ||| f) &&& 0xF0 = MQTT_PUBLISH ∧ (MQTT_PUBLISH ||| f) &&& 0x0F = f ∧
      (f &&& 0x06) >>> 1 = UInt8.ofNat level ∧
        ((f &&& 0x08) >>> 3).toNat = (if dup then 1 else 0) ∧ decide (f &&& 0x01 ≠ 0) = retain := by
  revert level dup retain
  decide

/-- A `PUBLISH` of any quality of service. -/
theorem parsePacket_publish (qos : QoS) (retain : Bool) (topic : Topic) (payload : Bytes) :
    parsePacket (ServerPacket.publish qos retain topic payload).header
        (ServerPacket.publish qos retain topic payload).body =
      some (ServerPacket.publish qos retain topic payload).contents := by
  obtain ⟨htype, hflags, hqos, hdup, hretain⟩ := publishFlags_bits qos.level qos.dup retain
  have hp (packet : Bytes) : parsePacket (ServerPacket.publish qos retain topic payload).header packet =
      parsePublish (publishFlags qos.level qos.dup retain) packet := by
    simp only [parsePacket, ServerPacket.header, htype, hflags]
    rfl
  rw [hp, ServerPacket.body, List.append_assoc, List.append_assoc]
  cases qos with
  | atMostOnce =>
    refine (parsePublish_atMostOnce hqos topic payload).trans ?_
    rw [hdup, hretain]
    rfl
  | atLeastOnce dup packetIdentifier =>
    refine (parsePublish_identified (by rw [hqos, QoS.level]; decide) topic packetIdentifier
      payload).trans ?_
    rw [hdup, hqos, hretain]
    cases dup <;> rfl
  | exactlyOnce dup packetIdentifier =>
    refine (parsePublish_identified (by rw [hqos, QoS.level]; decide) topic packetIdentifier
      payload).trans ?_
    rw [hdup, hqos, hretain]
    cases dup <;> rfl

/-- The case of the switch for the packets without flags. -/
theorem parsePacket_case (packet : Bytes) :
    parsePacket MQTT_CONNACK packet = parseConnack 0 packet ∧
      parsePacket MQTT_SUBACK packet = parseSuback 0 packet ∧
      parsePacket MQTT_PUBACK packet = parseAcknowledgement "PUBACK" 0 packet ∧
      parsePacket MQTT_PUBREC packet = parseAcknowledgement "PUBREC" 0 packet ∧
      parsePacket MQTT_PUBCOMP packet = parseAcknowledgement "PUBCOMP" 0 packet ∧
      parsePacket MQTT_UNSUBACK packet = parseAcknowledgement "UNSUBACK" 0 packet ∧
      parsePacket MQTT_PINGRESP packet = parsePingresp 0 packet ∧
      parsePacket (MQTT_PUBREL ||| 2) packet = none :=
  ⟨rfl, rfl, rfl, rfl, rfl, rfl, rfl, rfl⟩

/-- The switch gives the contents of every packet but `PUBREL`. -/
theorem parsePacket_contents (p : ServerPacket)
    (h : ∀ packetIdentifier, p ≠ .pubrel packetIdentifier) :
    parsePacket p.header p.body = some p.contents := by
  obtain ⟨hconnack, hsuback, hpuback, hpubrec, hpubcomp, hunsuback, hpingresp, -⟩ :=
    parsePacket_case p.body
  cases p with
  | connack sessionPresent returnCode =>
    refine hconnack.trans ?_
    cases sessionPresent
    · fin_cases returnCode <;> rfl
    · fin_cases returnCode <;> rfl
  | publish qos retain topic payload => exact parsePacket_publish qos retain topic payload
  | puback packetIdentifier =>
    exact hpuback.trans (parseAcknowledgement_bigEndian "PUBACK" packetIdentifier)
  | pubrec packetIdentifier =>
    exact hpubrec.trans (parseAcknowledgement_bigEndian "PUBREC" packetIdentifier)
  | pubrel packetIdentifier => exact absurd rfl (h packetIdentifier)
  | pubcomp packetIdentifier =>
    exact hpubcomp.trans (parseAcknowledgement_bigEndian "PUBCOMP" packetIdentifier)
  | suback packetIdentifier code codes =>
    refine hsuback.trans ?_
    have hlen : 3 ≤ (ServerPacket.suback packetIdentifier code codes).body.length := by
      simp only [ServerPacket.body, List.length_append, List.length_map, length_bigEndian,
        List.length_cons]
      omega
    rw [parseSuback, if_neg (not_not.mpr rfl), if_pos hlen, ServerPacket.contents,
      ← number_bigEndian packetIdentifier]
    simp only [ServerPacket.body, bigEndian, List.cons_append, List.nil_append, List.drop_succ_cons,
      List.drop_zero, List.map_map]
    rfl
  | unsuback packetIdentifier =>
    exact hunsuback.trans (parseAcknowledgement_bigEndian "UNSUBACK" packetIdentifier)
  | pingresp => exact hpingresp

theorem parsePacket_pubrel (packetIdentifier : UInt16) :
    parsePacket (ServerPacket.pubrel packetIdentifier).header
      (ServerPacket.pubrel packetIdentifier).body = none :=
  (parsePacket_case _).2.2.2.2.2.2.2

/-! ### Streams -/

theorem stream_cons (p : WirePacket) (packets : List WirePacket) :
    stream (p :: packets) = p.packet.encode ++ stream packets := rfl

/-- The stream of decodable packets is drained to the last byte, and no other. -/
theorem drain_stream_iff (stray : ℕ → UInt8) (packets : List WirePacket) :
    (drain (decoder stray) (stream packets)).1.retained = [] ∧
        (drain (decoder stray) (stream packets)).2.map eventOf =
          packets.map (fun p => .onMessage p.packet.contents) ↔
      ∀ p ∈ packets, p.packet.Decodable := by
  induction packets with
  | nil =>
    have hd : drain (decoder stray) (stream []) = (⟨[], false⟩, []) :=
      drain_of_none (decodePacket_nil stray)
    rw [hd]
    simp
  | cons p packets ih =>
    have hnext := decodePacket_encode stray p.packet (stream packets)
    rw [stream_cons, List.forall_mem_cons, ← ih]
    by_cases hlen : p.packet.body.length < 128 ^ 3
    · rw [if_pos hlen] at hnext
      by_cases hrel : ∃ packetIdentifier, p.packet = .pubrel packetIdentifier
      · obtain ⟨packetIdentifier, hrel⟩ := hrel
        rw [hrel, parsePacket_pubrel, ← hrel] at hnext
        rw [drain_error hnext]
        refine ⟨fun h => ?_, fun h => absurd hrel (h.1.2 packetIdentifier)⟩
        exact absurd (List.cons_eq_cons.mp h.2).1.symm (PluginEvent.onMessage_ne_disconnected _)
      · have hrel' := not_exists.mp hrel
        rw [parsePacket_contents _ hrel'] at hnext
        rw [drain_packet hnext]
        simp only [List.map_cons, eventOf, List.cons.injEq, true_and]
        exact ⟨fun h => ⟨⟨hlen, hrel'⟩, h⟩, fun h => h.2⟩
    · rw [if_neg hlen] at hnext
      have hd : drain (decoder stray) (p.packet.encode ++ stream packets) =
          (⟨p.packet.encode ++ stream packets, false⟩, []) := drain_of_none hnext
      rw [hd]
      exact ⟨fun h => absurd h.1 (List.cons_ne_nil _ _), fun h => absurd h.1.1 hlen⟩

/-- A decoder that delivered nothing but messages did not halt. -/
theorem halted_eq_false (stray : ℕ → UInt8) (buf : Bytes) (messages : List Dict)
    (h : (drain (decoder stray) buf).2.map eventOf = messages.map .onMessage) :
    (drain (decoder stray) buf).1.halted = false := by
  by_contra hh
  obtain ⟨o, ho, hhalts⟩ := exists_halts (decoder stray) buf (by simpa using hh)
  have hnone : o = none := Option.isNone_iff_eq_none.mp hhalts
  have hmem : PluginEvent.disconnected ∈ messages.map PluginEvent.onMessage := by
    rw [← h]
    exact List.mem_map.mpr ⟨o, ho, by rw [hnone]; rfl⟩
  obtain ⟨data, -, hdata⟩ := List.mem_map.mp hmem
  exact PluginEvent.onMessage_ne_disconnected data hdata

/-- The cuts do not matter. -/
theorem decodes_iff_drain (stray : ℕ → UInt8) (packets : List WirePacket)
    (d : Division (stream packets)) :
    Decodes stray packets d ↔ (drain (decoder stray) (stream packets)).1.retained = [] ∧
      (drain (decoder stray) (stream packets)).2.map eventOf =
        packets.map (fun p => .onMessage p.packet.contents) := by
  obtain ⟨hout, hret⟩ := runs_eq_drain stray d.reads
  obtain ⟨hwhole, -⟩ := runs_eq_drain stray (Division.whole (stream packets)).reads
  rw [d.flatten_eq] at hout hret
  rw [(Division.whole (stream packets)).flatten_eq] at hwhole
  have hmap : packets.map (fun p => PluginEvent.onMessage p.packet.contents) =
      (packets.map fun p => p.packet.contents).map .onMessage := (List.map_map ..).symm
  constructor
  · intro h
    have hevents := h.delivered
    rw [hout] at hevents
    have hhalted := halted_eq_false stray _ _ (hevents.trans hmap)
    exact ⟨(hret hhalted).symm.trans h.retained, hevents⟩
  · rintro ⟨hretained, hevents⟩
    have hhalted := halted_eq_false stray _ _ (hevents.trans hmap)
    exact ⟨hout.trans hevents, hout.trans hwhole.symm, (hret hhalted).trans hretained⟩

/-- A division of a stream is decoded exactly if every packet of it is decodable. -/
theorem decodes_iff (stray : ℕ → UInt8) (packets : List WirePacket)
    (d : Division (stream packets)) :
    Decodes stray packets d ↔ ∀ p ∈ packets, p.packet.Decodable :=
  (decodes_iff_drain stray packets d).trans (drain_stream_iff stray packets)

/-- The release of a message of quality of service 2. -/
def releasePacket : WirePacket := ⟨.pubrel 1, by decide⟩

/-- A message with a payload of 2 MiB. -/
def largePacket : WirePacket where
  packet := .publish .atMostOnce false ⟨"", by decide⟩ (List.replicate (2 ^ 21) 0)
  length_le := by
    simp only [ServerPacket.body, List.length_append, List.length_replicate, length_bigEndian]
    decide

/-- A `PUBREL` is an error, and after a large message nothing is delivered any more. -/
theorem release_and_large_packet_lost :
    ¬ Decodes (fun _ => 0) [releasePacket] (Division.whole (stream [releasePacket])) ∧
      ¬ Decodes (fun _ => 0) [largePacket] (Division.whole (stream [largePacket])) := by
  refine ⟨fun h => ?_, fun h => ?_⟩
  · have hd := (drain_stream_iff _ _).mp ((decodes_iff_drain _ _ _).mp h)
    exact (hd releasePacket (List.mem_singleton_self _)).2 1 rfl
  · have hd := (drain_stream_iff _ _).mp ((decodes_iff_drain _ _ _).mp h)
    have hlen := (hd largePacket (List.mem_singleton_self _)).1
    simp only [largePacket, ServerPacket.body, List.length_append, List.length_replicate,
      length_bigEndian] at hlen
    omega

end Domoticz.Mqtt
