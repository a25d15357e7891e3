import Domoticz.CLib.Number
import Domoticz.Plugin.MqttPacket
import Domoticz.Plugin.Python

/-!
# What a plugin sends by MQTT

`CPluginProtocolMQTT::ProcessOutbound` makes one packet of the dictionary that a plugin passes
to `Send`.  The branch of a verb fills the first byte, the variable header and the payload;
then the Remaining Length is put between them.

## Main definitions

* `pushBackNumber`, `pushBackStringWLen` — the fields of a packet.
* `connectFields`, `subscribeTopics`, `unsubscribeTopics` — what is read of a dictionary.
* `Connect.parts`, `subscribe`, `unsubscribe`, `publish`, `pubrel` — the branches of the verbs.
* `processOutbound` — `CPluginProtocolMQTT::ProcessOutbound`.

## Main results

* `remainingLength_eq` — what is put in between is the Remaining Length of the protocol.
* `length_pushBackStringWLen`, `pushBackNumber_natCast` — the fields of a packet.
-/

namespace Domoticz.Mqtt

open CLib

/-- `MQTT_CONNECT`. -/
def MQTT_CONNECT : UInt8 := (1 : UInt8) <<< 4

/-- `MQTT_SUBSCRIBE`. -/
def MQTT_SUBSCRIBE : UInt8 := (8 : UInt8) <<< 4

/-- `MQTT_UNSUBSCRIBE`. -/
def MQTT_UNSUBSCRIBE : UInt8 := (10 : UInt8) <<< 4

/-- `MQTT_PINGREQ`. -/
def MQTT_PINGREQ : UInt8 := (12 : UInt8) <<< 4

/-- `MQTT_DISCONNECT`. -/
def MQTT_DISCONNECT : UInt8 := (14 : UInt8) <<< 4

/-- `MQTT_PROTOCOL`, the level that `CONNECT` names. -/
def MQTT_PROTOCOL : UInt8 := 4

/-! ### Fields -/

/-- `MQTTPushBackNumber`, of an `int`. -/
def pushBackNumber (iNumber : ℤ) : Bytes := [byteOf (iNumber.tdiv 256), byteOf (iNumber.tmod 256)]

/-- `MQTTPushBackStringWLen`. -/
def pushBackStringWLen (sString : Bytes) : Bytes :=
  pushBackNumber (toInt32 sString.length) ++ sString

/-- How a branch ends without a packet. -/
inductive Ended
  /-- `return retVal`, which is still empty. -/
  | returned
  /-- `std::string` was made of a null pointer. -/
  | threw
  deriving DecidableEq

/-- A `std::string` of a `str`. -/
def text (s : PyStr) : Except Ended Bytes :=
  match stdString s with
  | some b => .ok b
  | none => .error .threw

/-- A payload, which may be a `bytearray` or a `str`. -/
def payloadOf : Option PyObject → Except Ended Bytes
  | some (.bytearray b) => .ok b
  | some (.str s) => text s
  | _ => .ok []

/-- A user name or a password of the parameters of the plugin; of what is no `str` the pointer
is null. -/
def credential : Option PyObject → Except Ended Bytes
  | none => .ok []
  | some (.str s) => text s
  | some _ => .error .threw

/-- The packet identifier, from the dictionary or from the counter; and the counter. -/
def packetIdentifier (m_PacketID : ℤ) (dict : PyDict) : ℤ × ℤ :=
  match long? (getItemString dict "PacketIdentifier") with
  | some iPacketIdentifier => (iPacketIdentifier, m_PacketID)
  | none => (m_PacketID, m_PacketID + 1)

/-! ### Verbs -/

/-- The parts of a packet; the Remaining Length comes behind the first. -/
structure Parts where
  retVal : Bytes
  vVariableHeader : Bytes := []
  vPayload : Bytes := []

/-- A will. -/
structure Will where
  sTopic : Bytes
  bQoS : UInt8
  bRetain : UInt8
  sPayload : Bytes

/-- The will of a `CONNECT`, if there is a topic for it. -/
def will (dict : PyDict) : Except Ended (Option Will) :=
  match unicode? (getItemString dict "WillTopic") with
  | none => .ok none
  | some brTopic => do
      let sTopic ← text brTopic
      let bQoS := (long? (getItemString dict "WillQoS")).elim (0 : UInt8) byteOf
      let bRetain := (long? (getItemString dict "WillRetain")).elim (0 : UInt8) byteOf
      let sPayload ← payloadOf (getItemString dict "WillPayload")
      return some { sTopic, bQoS, bRetain, sPayload }

/-- The control flags of a will. -/
def Will.bControlFlags (w : Will) : UInt8 :=
  (4 : UInt8) ||| ((w.bQoS &&& 3) <<< 3) ||| ((w.bRetain &&& 1) <<< 5)

/-- The client identifier. -/
def clientID (dict : PyDict) : Except Ended Bytes :=
  match unicode? (getItemString dict "ID") with
  | some brID => text brID
  | none => .ok (str "Domoticz")

/-- What goes into a `CONNECT`. -/
structure Connect where
  sID : Bytes
  bCleanSession : UInt8
  will : Option Will
  User : Bytes
  Pass : Bytes

/-- What a `CONNECT` is asked to carry; `parameters` are the `Parameters` of the plugin. -/
def connectFields (parameters dict : PyDict) : Except Ended Connect := do
  let sID ← clientID dict
  let bCleanSession := (long? (getItemString dict "CleanSession")).elim (1 : UInt8) byteOf
  let will ← will dict
  let User ← credential (getItemString parameters "Username")
  let Pass ← credential (getItemString parameters "Password")
  return { sID, bCleanSession, will, User, Pass }

namespace Connect

/-- The control flags. -/
def bControlFlags (c : Connect) : UInt8 :=
  ((c.bCleanSession &&& 1) <<< 1) ||| c.will.elim (0 : UInt8) Will.bControlFlags |||
    (if c.User.isEmpty then (0 : UInt8) else 128) ||| (if c.Pass.isEmpty then (0 : UInt8) else 64)

/-- The texts of the payload: the identifier, and what there is of will, user and password. -/
def texts (c : Connect) : List Bytes :=
  c.sID :: ((c.will.elim [] fun w => [w.sTopic, w.sPayload]) ++
    (if c.User.isEmpty then [] else [c.User]) ++ (if c.Pass.isEmpty then [] else [c.Pass]))

/-- `CONNECT`. -/
def parts (c : Connect) : Parts where
  retVal := [MQTT_CONNECT]
  vVariableHeader := pushBackStringWLen (str "MQTT") ++ [MQTT_PROTOCOL, c.bControlFlags, 0, 60]
  vPayload := c.texts.flatMap pushBackStringWLen

end Connect

/-- The topics of a `SUBSCRIBE`, with the quality of service; one without a topic is passed
over. -/
def subscribeTopics : List PyObject → Except Ended (List (Bytes × UInt8))
  | [] => .ok []
  | .dict entry :: more =>
      match unicode? (getItemString entry "Topic") with
      | none => subscribeTopics more
      | some brTopic => do
          let sTopic ← text brTopic
          let bQoS := (long? (getItemString entry "QoS")).elim (0 : UInt8) byteOf
          let topics ← subscribeTopics more
          return (sTopic, bQoS) :: topics
  | _ :: _ => .error .returned

/-- The topics of an `UNSUBSCRIBE`; what is no topic is passed over. -/
def unsubscribeTopics : List PyObject → Except Ended (List Bytes)
  | [] => .ok []
  | .str brTopic :: more => do
      let sTopic ← text brTopic
      let topics ← unsubscribeTopics more
      return sTopic :: topics
  | _ :: more => unsubscribeTopics more

/-- The list of topics. -/
def topicList (dict : PyDict) : Except Ended (List PyObject) :=
  match getItemString dict "Topics" with
  | some (.list brTopicList) => .ok brTopicList
  | _ => .error .returned

/-- `SUBSCRIBE`, with its packet identifier. -/
def subscribe (iPacketIdentifier : ℤ) (topics : List (Bytes × UInt8)) : Parts where
  retVal := [MQTT_SUBSCRIBE ||| 0x02]
  vVariableHeader := pushBackNumber (toInt32 iPacketIdentifier)
  vPayload := topics.flatMap fun t => pushBackStringWLen t.1 ++ [t.2]

/-- `UNSUBSCRIBE`, with its packet identifier. -/
def unsubscribe (iPacketIdentifier : ℤ) (topics : List Bytes) : Parts where
  retVal := [MQTT_UNSUBSCRIBE ||| 0x02]
  vVariableHeader := pushBackNumber (toInt32 iPacketIdentifier)
  vPayload := topics.flatMap pushBackStringWLen

/-- The quality of service of a `PUBLISH`. -/
def publishQoS (dict : PyDict) : ℤ := (long? (getItemString dict "QoS")).getD 0

/-- The first byte of a `PUBLISH`. -/
def publishByte0 (dict : PyDict) : UInt8 :=
  let bDUP := (long? (getItemString dict "Duplicate")).getD 0
  let bRetain := (long? (getItemString dict "Retain")).getD 0
  MQTT_PUBLISH ||| (if bDUP ≠ 0 then (0x08 : UInt8) else 0) ||| (byteOf (publishQoS dict % 4) <<< 1) |||
    byteOf (bRetain % 2)

/-- `PUBLISH`, with its packet identifier if there is a quality of service. -/
def publish (iPacketIdentifier : Option ℤ) (dict : PyDict) : Except Ended Parts :=
  match unicode? (getItemString dict "Topic") with
  | none => .error .returned
  | some brTopic => do
      let sTopic ← text brTopic
      let sPayload ← payloadOf (getItemString dict "Payload")
      return { retVal := [publishByte0 dict]
               vVariableHeader := pushBackStringWLen sTopic ++
                 iPacketIdentifier.elim [] fun i => pushBackNumber (toInt32 i)
               vPayload := sPayload }

/-- The counter behind a `PUBLISH`, and its packet identifier: it is asked for behind the topic,
if there is a quality of service. -/
def publishIdentifier (m_PacketID : ℤ) (dict : PyDict) : Option ℤ × ℤ :=
  match (unicode? (getItemString dict "Topic")).bind stdString with
  | none => (none, m_PacketID)
  | some _ =>
      if publishQoS dict ≠ 0 then
        ((packetIdentifier m_PacketID dict).1, (packetIdentifier m_PacketID dict).2)
      else (none, m_PacketID)

/-- `PUBREL`; the flags take the place of the type, `6<<4 & 0x02` is 0. -/
def pubrel (dict : PyDict) : Except Ended Parts :=
  match long? (getItemString dict "PacketIdentifier") with
  | none => .error .returned
  | some iPacketIdentifier =>
      .ok { retVal := [MQTT_PUBREL &&& 0x02]
            vVariableHeader := pushBackNumber (toInt32 iPacketIdentifier) }

/-- The branch of a verb, and the counter behind it. -/
def verbBranch (parameters : PyDict) (m_PacketID : ℤ) (dict : PyDict) (sVerb : Bytes) :
    Except Ended Parts × ℤ :=
  if sVerb = str "CONNECT" then ((connectFields parameters dict).map Connect.parts, m_PacketID)
  else if sVerb = str "PING" then (.ok { retVal := [MQTT_PINGREQ] }, m_PacketID)
  else if sVerb = str "SUBSCRIBE" then
    let (iPacketIdentifier, m_PacketID) := packetIdentifier m_PacketID dict
    ((topicList dict >>= subscribeTopics).map (subscribe iPacketIdentifier), m_PacketID)
  else if sVerb = str "UNSUBSCRIBE" then
    let (iPacketIdentifier, m_PacketID) := packetIdentifier m_PacketID dict
    ((topicList dict >>= unsubscribeTopics).map (unsubscribe iPacketIdentifier), m_PacketID)
  else if sVerb = str "PUBLISH" then
    let (iPacketIdentifier, m_PacketID) := publishIdentifier m_PacketID dict
    (publish iPacketIdentifier dict, m_PacketID)
  else if sVerb = str "PUBREL" then (pubrel dict, m_PacketID)
  else if sVerb = str "DISCONNECT" then (.ok { retVal := [MQTT_DISCONNECT, 0] }, m_PacketID)
  else (.error .returned, m_PacketID)

/-! ### Packets -/

/-- The loop that puts the Remaining Length behind the first byte. -/
def remainingLength (iRemainingLength : ℕ) : Bytes :=
  let encodedByte := UInt8.ofNat (iRemainingLength % 128)
  if 0 < iRemainingLength / 128 then
    (encodedByte ||| 128) :: remainingLength (iRemainingLength / 128)
  else [encodedByte]

/-- The end of `ProcessOutbound`. -/
def assemble (p : Parts) : Bytes :=
  p.retVal ++ remainingLength (p.vVariableHeader.length + p.vPayload.length) ++
    p.vVariableHeader ++ p.vPayload

/-- `CPluginProtocolMQTT::ProcessOutbound`: the bytes, or `none` if it throws, and the counter. -/
def processOutbound (parameters : PyDict) (m_PacketID : ℤ) (m_Object : Option PyObject) :
    Option Bytes × ℤ :=
  match m_Object with
  | some (.dict dict) =>
      match getItemString dict "Verb" with
      | none => (some (assemble { retVal := [] }), m_PacketID)
      | some (.str brVerb) =>
          match stdString brVerb with
          | none => (none, m_PacketID)
          | some sVerb =>
              match verbBranch parameters m_PacketID dict sVerb with
              | (.ok parts, m_PacketID) => (some (assemble parts), m_PacketID)
              | (.error .returned, m_PacketID) => (some [], m_PacketID)
              | (.error .threw, m_PacketID) => (none, m_PacketID)
      | some _ => (some [], m_PacketID)
  | _ => (some [], m_PacketID)

/-! ### What is written -/

/-- What is put behind the first byte is the Remaining Length of the protocol. -/
theorem remainingLength_eq (n : ℕ) : remainingLength n = encodeLength n := by
  induction n using Nat.strong_induction_on with
  | _ n ih =>
    rw [remainingLength]
    by_cases h : n < 128
    · rw [encodeLength_of_lt h, if_neg (by omega), Nat.mod_eq_of_lt h]
    · rw [encodeLength_of_le (by omega), if_pos (by omega), or_128 (Nat.mod_lt n (by decide)),
        ih (n / 128) (by omega)]

@[simp] theorem length_pushBackNumber (iNumber : ℤ) : (pushBackNumber iNumber).length = 2 := rfl

theorem length_pushBackStringWLen (s : Bytes) : (pushBackStringWLen s).length = s.length + 2 := by
  rw [pushBackStringWLen, List.length_append, length_pushBackNumber, Nat.add_comm]

/-- A number of two bytes is written as the protocol has it. -/
theorem pushBackNumber_natCast {n : ℕ} (h : n < 2 ^ 16) :
    pushBackNumber (toInt32 n) = [UInt8.ofNat (n / 256), UInt8.ofNat (n % 256)] := by
  have hint : toInt32 n = n := toInt32_eq_self_iff.mpr (by omega)
  have hdiv : (n : ℤ).tdiv 256 = ((n / 256 : ℕ) : ℤ) := rfl
  have hmod : (n : ℤ).tmod 256 = ((n % 256 : ℕ) : ℤ) := rfl
  have hbyte {m : ℕ} (hm : m < 256) : byteOf m = UInt8.ofNat m := by
    rw [byteOf, Int.emod_eq_of_lt (by omega) (by omega), Int.toNat_natCast]
  rw [pushBackNumber, hint, hdiv, hmod, hbyte (by omega), hbyte (by omega)]

/-- Any number is written as some number of two bytes. -/
theorem exists_pushBackNumber (i : ℤ) :
    ∃ n : UInt16, pushBackNumber (toInt32 i) = bigEndian n := by
  refine ⟨UInt16.ofNat (number (byteOf ((toInt32 i).tdiv 256)) (byteOf ((toInt32 i).tmod 256))), ?_⟩
  have hlt := number_lt (byteOf ((toInt32 i).tdiv 256)) (byteOf ((toInt32 i).tmod 256))
  have hlow := (byteOf ((toInt32 i).tmod 256)).toNat_lt
  have hdiv : number (byteOf ((toInt32 i).tdiv 256)) (byteOf ((toInt32 i).tmod 256)) / 256 =
      (byteOf ((toInt32 i).tdiv 256)).toNat := by
    rw [number]
    omega
  have hmod : number (byteOf ((toInt32 i).tdiv 256)) (byteOf ((toInt32 i).tmod 256)) % 256 =
      (byteOf ((toInt32 i).tmod 256)).toNat := by
    rw [number]
    omega
  rw [bigEndian, UInt16.toNat_ofNat', Nat.mod_eq_of_lt hlt, hdiv, hmod, UInt8.ofNat_toNat,
    UInt8.ofNat_toNat]
  rfl

/-- The first byte of a `PUBLISH` with these flags. -/
def publishHeader (dup retain : Bool) (qos : ℤ) : UInt8 :=
  MQTT_PUBLISH ||| (if dup then (0x08 : UInt8) else 0) ||| (byteOf (qos % 4) <<< 1) |||
    (if retain then (1 : UInt8) else 0)

theorem publishByte0_eq (dict : PyDict) : publishByte0 dict =
    publishHeader (decide ((long? (getItemString dict "Duplicate")).getD 0 ≠ 0))
      (decide ((long? (getItemString dict "Retain")).getD 0 % 2 = 1)) (publishQoS dict) := by
  have hbit (i : ℤ) : byteOf (i % 2) = if decide (i % 2 = 1) then 1 else 0 := by
    rcases Int.emod_two_eq_zero_or_one i with h | h
    · rw [h]
      rfl
    · rw [h]
      rfl
  unfold publishByte0 publishHeader
  simp only [hbit, decide_eq_true_eq]

/-- The identifier on the wire: two bytes of the one that is written. -/
def wireIdentifier (i : ℤ) : ℤ :=
  number (byteOf ((toInt32 i).tdiv 256)) (byteOf ((toInt32 i).tmod 256))

theorem wireIdentifier_bounds (i : ℤ) : 0 ≤ wireIdentifier i ∧ wireIdentifier i ≤ 65535 := by
  have h := number_lt (byteOf ((toInt32 i).tdiv 256)) (byteOf ((toInt32 i).tmod 256))
  rw [wireIdentifier]
  omega

/-- The two bytes of an identifier are those of what is on the wire. -/
theorem exists_wireIdentifier (i : ℤ) :
    ∃ n : UInt16, pushBackNumber (toInt32 i) = bigEndian n ∧ wireIdentifier i = n.toNat := by
  obtain ⟨n, hn⟩ := exists_pushBackNumber i
  refine ⟨n, hn, ?_⟩
  rw [pushBackNumber, bigEndian, List.cons.injEq, List.cons.injEq] at hn
  rw [wireIdentifier, hn.1, hn.2.1, number_bigEndian]

theorem wireIdentifier_of_le {i : ℤ} (h : 0 ≤ i ∧ i ≤ 65535) : wireIdentifier i = i := by
  obtain ⟨n, rfl⟩ := Int.eq_ofNat_of_zero_le h.1
  have hn : n < 2 ^ 16 := by omega
  have hbytes := pushBackNumber_natCast hn
  rw [pushBackNumber, List.cons.injEq, List.cons.injEq] at hbytes
  rw [wireIdentifier, hbytes.1, hbytes.2.1, number, UInt8.toNat_ofNat', UInt8.toNat_ofNat']
  omega

end Domoticz.Mqtt
