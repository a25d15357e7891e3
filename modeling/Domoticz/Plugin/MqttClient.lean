import Domoticz.Plugin.MqttOutbound
import Mathlib.Data.Set.List

/-!
# The packets of an MQTT client

What an MQTT 3.1.1 client may send of the verbs a plugin can use, and which of the requests
become such a packet.  `PUBREL` has no packet type, since its flags are combined with the type
by `&`.  The Remaining Length of a `DISCONNECT` is written twice.  And a dictionary without a
verb gets past the branches, to a Remaining Length with nothing before it.

## Main definitions

* `ClientPacket`, `encode` — what a client may send.
* `Verb`, `Asked`, `asked` — what a dictionary asks for.
* `Proper` — what is sent is one packet of the verb, or nothing.
* `Asked.Sound`, `Met` — the requests for which that is so.

## Main results

* `encodeLength_append_inj` — a Remaining Length is read off what follows it.
* `carried_iff` — what is written for a verb is a packet exactly if the request is sound.
* `proper_iff` — **what is sent is proper exactly for the requests that are met.**
* `release_and_disconnect_malformed` — a `PUBREL`, a `DISCONNECT` and an empty dictionary.
-/

namespace Domoticz.Mqtt

open CLib

/-! ### What a client may send -/

/-- The bytes are UTF-8 and have no NUL. -/
def IsText (b : Bytes) : Prop := 0 ∉ b ∧ ∃ s, asUTF8 s = some b

/-- A text: its length fits into two bytes. -/
structure Text where
  bytes : Bytes
  isText : IsText bytes
  length_lt : bytes.length < 2 ^ 16

/-- Binary data with a length of two bytes. -/
structure Binary where
  bytes : Bytes
  length_lt : bytes.length < 2 ^ 16

/-- A packet identifier of a client. -/
abbrev PacketIdentifier := { n : UInt16 // n ≠ 0 }

/-- A quality of service with a packet identifier of a client. -/
abbrev ClientQoS := { qos : QoS // qos.packetIdentifier ≠ some 0 }

/-- A will. -/
structure LastWill where
  topic : Text
  message : Binary
  qos : Fin 3
  retain : Bool

/-- A user name, and a password only together with it. -/
structure Login where
  userName : Text
  password : Option Binary

/-- The packets of an MQTT 3.1.1 client that a plugin has verbs for.  What a topic may consist
of, beyond that it is a text, is not a matter of the packet. -/
inductive ClientPacket
  | connect (clientID : Text) (cleanSession : Bool) (will : Option LastWill) (login : Option Login)
      (keepAlive : UInt16)
  | publish (qos : ClientQoS) (retain : Bool) (topic : Text) (payload : Bytes)
  | pubrel (packetIdentifier : PacketIdentifier)
  | subscribe (packetIdentifier : PacketIdentifier)
      (topics : { l : List (Text × Fin 3) // l ≠ [] })
  | unsubscribe (packetIdentifier : PacketIdentifier) (topics : { l : List Text // l ≠ [] })
  | pingreq
  | disconnect

/-- The flags of a `CONNECT`. -/
def connectFlags (cleanSession : Bool) (will : Option (Fin 4 × Bool)) (user pass : Bool) : UInt8 :=
  (if cleanSession then (2 : UInt8) else 0) |||
    will.elim (0 : UInt8) (fun w =>
      (4 : UInt8) ||| (UInt8.ofNat w.1 <<< 3) ||| (if w.2 then (32 : UInt8) else 0)) |||
    (if user then (128 : UInt8) else 0) ||| (if pass then (64 : UInt8) else 0)

/-- A text or binary data behind its length. -/
def field (s : Bytes) : Bytes := bigEndian (UInt16.ofNat s.length) ++ s

namespace ClientPacket

/-- The first byte: the packet type and its flags. -/
def header : ClientPacket → UInt8
  | .connect _ _ _ _ _ => MQTT_CONNECT
  | .publish qos retain _ _ => MQTT_PUBLISH ||| publishFlags qos.1.level qos.1.dup retain
  | .pubrel _ => MQTT_PUBREL ||| 2
  | .subscribe _ _ => MQTT_SUBSCRIBE ||| 2
  | .unsubscribe _ _ => MQTT_UNSUBSCRIBE ||| 2
  | .pingreq => MQTT_PINGREQ
  | .disconnect => MQTT_DISCONNECT

/-- The fields of a packet that come behind a length. -/
def texts : ClientPacket → List Bytes
  | .connect clientID _ will login _ =>
      clientID.bytes :: (will.elim [] (fun w => [w.topic.bytes, w.message.bytes]) ++
        login.elim [] (fun l => l.userName.bytes :: l.password.toList.map Binary.bytes))
  | .publish _ _ topic _ => [topic.bytes]
  | .subscribe _ topics => topics.1.map fun t => t.1.bytes
  | .unsubscribe _ topics => topics.1.map Text.bytes
  | _ => []

/-- The bytes behind the fixed header. -/
def body : ClientPacket → Bytes
  | .connect clientID cleanSession will login keepAlive =>
      field (str "MQTT") ++
        [MQTT_PROTOCOL, connectFlags cleanSession (will.map fun w => (w.qos.castSucc, w.retain))
          login.isSome (login.any fun l => l.password.isSome)] ++
        bigEndian keepAlive ++
        (texts (.connect clientID cleanSession will login keepAlive)).flatMap field
  | .publish qos _ topic payload =>
      field topic.bytes ++ qos.1.packetIdentifier.elim [] bigEndian ++ payload
  | .pubrel packetIdentifier => bigEndian packetIdentifier.1
  | .subscribe packetIdentifier topics =>
      bigEndian packetIdentifier.1 ++
        topics.1.flatMap fun t => field t.1.bytes ++ [UInt8.ofNat t.2]
  | .unsubscribe packetIdentifier topics =>
      bigEndian packetIdentifier.1 ++ topics.1.flatMap fun t => field t.bytes
  | .pingreq => []
  | .disconnect => []

/-- A packet on the wire. -/
def encode (p : ClientPacket) : Bytes := p.header :: (encodeLength p.body.length ++ p.body)

end ClientPacket

/-! ### What is asked for -/

/-- The verbs. -/
inductive Verb
  | CONNECT
  | PING
  | SUBSCRIBE
  | UNSUBSCRIBE
  | PUBLISH
  | PUBREL
  | DISCONNECT
  deriving DecidableEq

/-- A verb as a plugin writes it. -/
def Verb.name : Verb → String
  | .CONNECT => "CONNECT"
  | .PING => "PING"
  | .SUBSCRIBE => "SUBSCRIBE"
  | .UNSUBSCRIBE => "UNSUBSCRIBE"
  | .PUBLISH => "PUBLISH"
  | .PUBREL => "PUBREL"
  | .DISCONNECT => "DISCONNECT"

/-- The verb of a packet. -/
def ClientPacket.verb : ClientPacket → Verb
  | .connect _ _ _ _ _ => .CONNECT
  | .publish _ _ _ _ => .PUBLISH
  | .pubrel _ => .PUBREL
  | .subscribe _ _ => .SUBSCRIBE
  | .unsubscribe _ _ => .UNSUBSCRIBE
  | .pingreq => .PING
  | .disconnect => .DISCONNECT

/-- The dictionary has this verb. -/
def HasVerb (dict : PyDict) (v : Verb) : Prop :=
  unicode? (getItemString dict "Verb") = some (pyStr v.name)

/-- What is asked for with a verb. -/
inductive Asked
  | connect (c : Connect)
  | ping
  | subscribe (iPacketIdentifier : ℤ) (topics : List (Bytes × UInt8))
  | unsubscribe (iPacketIdentifier : ℤ) (topics : List Bytes)
  | publish (dup retain : Bool) (iQoS : ℤ) (sTopic : Bytes) (iPacketIdentifier : ℤ) (sPayload : Bytes)
  | pubrel (iPacketIdentifier : ℤ)
  | disconnect

/-- What a `PUBLISH` asks for. -/
def askedPublish (m_PacketID : ℤ) (dict : PyDict) : Except Ended Asked :=
  match unicode? (getItemString dict "Topic") with
  | none => .error .returned
  | some brTopic => do
      let sTopic ← text brTopic
      let sPayload ← payloadOf (getItemString dict "Payload")
      return .publish (decide ((long? (getItemString dict "Duplicate")).getD 0 ≠ 0))
        (decide ((long? (getItemString dict "Retain")).getD 0 % 2 = 1)) (publishQoS dict) sTopic
        (packetIdentifier m_PacketID dict).1 sPayload

/-- What a `PUBREL` asks for. -/
def askedPubrel (dict : PyDict) : Except Ended Asked :=
  match long? (getItemString dict "PacketIdentifier") with
  | none => .error .returned
  | some iPacketIdentifier => .ok (.pubrel iPacketIdentifier)

/-- What a dictionary asks for with a verb. -/
def asked (parameters : PyDict) (m_PacketID : ℤ) (dict : PyDict) : Verb → Except Ended Asked
  | .CONNECT => (connectFields parameters dict).map .connect
  | .PING => .ok .ping
  | .SUBSCRIBE =>
      (topicList dict >>= subscribeTopics).map (.subscribe (packetIdentifier m_PacketID dict).1)
  | .UNSUBSCRIBE =>
      (topicList dict >>= unsubscribeTopics).map (.unsubscribe (packetIdentifier m_PacketID dict).1)
  | .PUBLISH => askedPublish m_PacketID dict
  | .PUBREL => askedPubrel dict
  | .DISCONNECT => .ok .disconnect

/-- The fields that are asked for and come behind a length. -/
def Asked.texts : Asked → List Bytes
  | .connect c => c.texts
  | .subscribe _ topics => topics.map Prod.fst
  | .unsubscribe _ topics => topics
  | .publish _ _ _ sTopic _ _ => [sTopic]
  | _ => []

/-- What is sent for a dictionary is nothing, or the bytes of one packet of its verb with the
texts that are asked for; without one of the verbs it is nothing. -/
structure Proper (parameters : PyDict) (m_PacketID : ℤ) (dict : PyDict) : Prop where
  of_verb : ∀ v packet, HasVerb dict v →
    (processOutbound parameters m_PacketID (some (.dict dict))).1 = some packet → packet ≠ [] →
    ∃ p : ClientPacket, p.verb = v ∧ p.body.length ≤ 268435455 ∧ packet = p.encode ∧
      (asked parameters m_PacketID dict v).map Asked.texts = .ok p.texts
  no_verb : (∀ v, ¬ HasVerb dict v) → ∀ packet,
    (processOutbound parameters m_PacketID (some (.dict dict))).1 = some packet → packet = []

/-- The requests that are written as the protocol has them: the lengths fit, there is no
password without a user name, the qualities of service are those of the protocol, and the packet
identifier on the wire is not 0; and none of a `PUBREL` or a `DISCONNECT`. -/
def Asked.Sound : Asked → Prop
  | .connect c => (∀ s ∈ c.texts, s.length < 2 ^ 16) ∧ (c.Pass ≠ [] → c.User ≠ []) ∧
      ∀ w, c.will = some w → w.bQoS &&& 3 ≠ 3
  | .ping => True
  | .subscribe iPacketIdentifier topics => wireIdentifier iPacketIdentifier ≠ 0 ∧ topics ≠ [] ∧
      (∀ t ∈ topics, t.1.length < 2 ^ 16 ∧ t.2 < 3) ∧
      2 + (topics.map fun t => t.1.length + 3).sum ≤ 268435455
  | .unsubscribe iPacketIdentifier topics => wireIdentifier iPacketIdentifier ≠ 0 ∧ topics ≠ [] ∧
      (∀ t ∈ topics, t.length < 2 ^ 16) ∧ 2 + (topics.map fun t => t.length + 2).sum ≤ 268435455
  | .publish dup _ iQoS sTopic iPacketIdentifier sPayload => sTopic.length < 2 ^ 16 ∧ iQoS % 4 ≠ 3 ∧
      (iQoS % 4 = 0 → dup = false) ∧ (iQoS % 4 ≠ 0 → wireIdentifier iPacketIdentifier ≠ 0) ∧
      sTopic.length + 2 + (if iQoS ≠ 0 then 2 else 0) + sPayload.length ≤ 268435455
  | .pubrel _ => False
  | .disconnect => False

/-- The requests for which what is sent is proper: there is a `Verb`, and if it is one of the
verbs up to its first NUL, and there is something to send, then it is the verb, and what is asked
for is sound. -/
def Met (parameters : PyDict) (m_PacketID : ℤ) (dict : PyDict) : Prop :=
  (getItemString dict "Verb").isSome ∧
    ∀ v a, (unicode? (getItemString dict "Verb")).bind stdString = some (str v.name) →
      asked parameters m_PacketID dict v = .ok a → HasVerb dict v ∧ a.Sound

/-! ### Fields -/

/-- A Remaining Length is read off what follows it. -/
theorem encodeLength_append_inj {m n : ℕ} {s t : Bytes}
    (h : encodeLength m ++ s = encodeLength n ++ t) : m = n ∧ s = t := by
  have hval {k : ℕ} (hk : k < 256) : (UInt8.ofNat k).toNat = k := by
    rw [UInt8.toNat_ofNat', Nat.mod_eq_of_lt hk]
  induction m using Nat.strong_induction_on generalizing n with
  | _ m ih =>
    by_cases hm : m < 128
    · rw [encodeLength_of_lt hm] at h
      by_cases hn : n < 128
      · rw [encodeLength_of_lt hn] at h
        obtain ⟨hbyte, hrest⟩ := List.cons.inj h
        refine ⟨?_, hrest⟩
        have hnat := congrArg UInt8.toNat hbyte
        rwa [hval (by omega), hval (by omega)] at hnat
      · rw [encodeLength_of_le (n := n) (by omega)] at h
        have hnat := congrArg UInt8.toNat (List.cons.inj h).1
        rw [hval (by omega), hval (by omega)] at hnat
        omega
    · rw [encodeLength_of_le (n := m) (by omega)] at h
      by_cases hn : n < 128
      · rw [encodeLength_of_lt hn] at h
        have hnat := congrArg UInt8.toNat (List.cons.inj h).1
        rw [hval (by omega), hval (by omega)] at hnat
        omega
      · rw [encodeLength_of_le (n := n) (by omega)] at h
        obtain ⟨hbyte, hrest⟩ := List.cons.inj h
        obtain ⟨hdiv, htail⟩ := ih (m / 128) (by omega) hrest
        have hnat := congrArg UInt8.toNat hbyte
        rw [hval (by omega), hval (by omega)] at hnat
        exact ⟨by omega, htail⟩

theorem bigEndian_injective : Function.Injective bigEndian := by
  intro m n h
  rw [bigEndian, bigEndian, List.cons.injEq, List.cons.injEq] at h
  rw [← UInt16.toNat_inj, ← number_bigEndian m, ← number_bigEndian n, h.1, h.2.1]

theorem pushBackStringWLen_eq_field {s : Bytes} (h : s.length < 2 ^ 16) :
    pushBackStringWLen s = field s := by
  rw [pushBackStringWLen, pushBackNumber_natCast h, field, bigEndian, UInt16.toNat_ofNat',
    Nat.mod_eq_of_lt h]

@[simp] theorem length_field (s : Bytes) : (field s).length = s.length + 2 := by
  rw [field, List.length_append, length_bigEndian, Nat.add_comm]

theorem flatMap_pushBackStringWLen {l : List Bytes} (h : ∀ s ∈ l, s.length < 2 ^ 16) :
    l.flatMap pushBackStringWLen = l.flatMap field :=
  List.flatMap_congr fun s hs => pushBackStringWLen_eq_field (h s hs)

/-! ### What is legible -/

theorem isText_nil : IsText [] := ⟨List.not_mem_nil, [], rfl⟩

/-- What is made of a `str` is a text. -/
theorem isText_of_text {s : PyStr} {b : Bytes} (h : text s = .ok b) : IsText b := by
  unfold text stdString at h
  cases hs : asUTF8 s with
  | none =>
    rw [hs] at h
    cases h
  | some utf8 =>
    rw [hs] at h
    cases h
    refine ⟨?_, exists_asUTF8_cstr hs⟩
    intro hmem
    have hzero := List.mem_takeWhile_imp hmem
    exact absurd rfl (bne_iff_ne.mp hzero)

theorem isText_clientID {dict : PyDict} {b : Bytes} (h : clientID dict = .ok b) : IsText b := by
  unfold clientID at h
  cases hid : unicode? (getItemString dict "ID") with
  | none =>
    rw [hid] at h
    cases h
    exact ⟨by decide, pyStr "Domoticz", by decide⟩
  | some s =>
    rw [hid] at h
    exact isText_of_text h

theorem isText_credential {o : Option PyObject} {b : Bytes} (h : credential o = .ok b) :
    IsText b := by
  cases o with
  | none =>
    cases h
    exact isText_nil
  | some o =>
    cases o with
    | str s => exact isText_of_text h
    | _ => cases h

/-- The first step of a branch that did not end. -/
theorem bind_eq_ok {α β : Type} {x : Except Ended α} {f : α → Except Ended β} {b : β}
    (h : x >>= f = .ok b) : ∃ a, x = .ok a ∧ f a = .ok b := by
  cases x with
  | error e => cases h
  | ok a => exact ⟨a, rfl, h⟩

theorem map_eq_ok {α β : Type} {x : Except Ended α} {f : α → β} {b : β} (h : x.map f = .ok b) :
    ∃ a, x = .ok a ∧ f a = b := by
  cases x with
  | error e => cases h
  | ok a => exact ⟨a, rfl, Except.ok.inj h⟩

theorem isText_will {dict : PyDict} {w : Will} (h : will dict = .ok (some w)) : IsText w.sTopic := by
  unfold will at h
  cases htopic : unicode? (getItemString dict "WillTopic") with
  | none =>
    rw [htopic] at h
    cases h
  | some s =>
    rw [htopic] at h
    obtain ⟨sTopic, htext, h⟩ := bind_eq_ok h
    obtain ⟨sPayload, hpayload, h⟩ := bind_eq_ok h
    cases h
    exact isText_of_text htext

theorem isText_subscribeTopics {l : List PyObject} {topics : List (Bytes × UInt8)}
    (h : subscribeTopics l = .ok topics) : ∀ t ∈ topics, IsText t.1 := by
  induction l generalizing topics with
  | nil =>
    cases h
    simp
  | cons o l ih =>
    cases o with
    | dict entry =>
      rw [subscribeTopics] at h
      cases htopic : unicode? (getItemString entry "Topic") with
      | none =>
        rw [htopic] at h
        exact ih h
      | some s =>
        rw [htopic] at h
        obtain ⟨sTopic, htext, h⟩ := bind_eq_ok h
        obtain ⟨rest, hrest, h⟩ := bind_eq_ok h
        cases h
        rw [List.forall_mem_cons]
        exact ⟨isText_of_text htext, ih hrest⟩
    | _ => cases h

theorem isText_unsubscribeTopics {l : List PyObject} {topics : List Bytes}
    (h : unsubscribeTopics l = .ok topics) : ∀ t ∈ topics, IsText t := by
  induction l generalizing topics with
  | nil =>
    cases h
    simp
  | cons o l ih =>
    cases o with
    | str s =>
      rw [unsubscribeTopics] at h
      obtain ⟨sTopic, htext, h⟩ := bind_eq_ok h
      obtain ⟨rest, hrest, h⟩ := bind_eq_ok h
      cases h
      rw [List.forall_mem_cons]
      exact ⟨isText_of_text htext, ih hrest⟩
    | _ => exact ih h

/-- What is asked for as a text is one. -/
def Asked.Legible : Asked → Prop
  | .connect c => IsText c.sID ∧ (∀ w, c.will = some w → IsText w.sTopic) ∧ IsText c.User
  | .subscribe _ topics => ∀ t ∈ topics, IsText t.1
  | .unsubscribe _ topics => ∀ t ∈ topics, IsText t
  | .publish _ _ _ sTopic _ _ => IsText sTopic
  | _ => True

/-- The verb of what is asked for. -/
def Asked.verb : Asked → Verb
  | .connect _ => .CONNECT
  | .ping => .PING
  | .subscribe _ _ => .SUBSCRIBE
  | .unsubscribe _ _ => .UNSUBSCRIBE
  | .publish _ _ _ _ _ _ => .PUBLISH
  | .pubrel _ => .PUBREL
  | .disconnect => .DISCONNECT

theorem connectFields_eq_ok {parameters dict : PyDict} {c : Connect}
    (h : connectFields parameters dict = .ok c) : (Asked.connect c).Legible := by
  unfold connectFields at h
  obtain ⟨sID, hid, h⟩ := bind_eq_ok h
  obtain ⟨w, hwill, h⟩ := bind_eq_ok h
  obtain ⟨User, huser, h⟩ := bind_eq_ok h
  obtain ⟨Pass, hpass, h⟩ := bind_eq_ok h
  cases h
  refine ⟨isText_clientID hid, ?_, isText_credential huser⟩
  rintro w rfl
  exact isText_will hwill

/-- What is asked for has the verb, and is legible. -/
theorem asked_eq_ok {parameters dict : PyDict} {m_PacketID : ℤ} {v : Verb} {a : Asked}
    (h : asked parameters m_PacketID dict v = .ok a) : a.verb = v ∧ a.Legible := by
  cases v with
  | CONNECT =>
    obtain ⟨c, hc, rfl⟩ := map_eq_ok h
    exact ⟨rfl, connectFields_eq_ok hc⟩
  | PING =>
    cases h
    exact ⟨rfl, trivial⟩
  | SUBSCRIBE =>
    obtain ⟨topics, htopics, rfl⟩ := map_eq_ok h
    obtain ⟨l, -, hl⟩ := bind_eq_ok htopics
    exact ⟨rfl, isText_subscribeTopics hl⟩
  | UNSUBSCRIBE =>
    obtain ⟨topics, htopics, rfl⟩ := map_eq_ok h
    obtain ⟨l, -, hl⟩ := bind_eq_ok htopics
    exact ⟨rfl, isText_unsubscribeTopics hl⟩
  | PUBLISH =>
    unfold asked askedPublish at h
    cases htopic : unicode? (getItemString dict "Topic") with
    | none =>
      simp only [htopic] at h
      cases h
    | some s =>
      simp only [htopic] at h
      obtain ⟨sTopic, htext, h⟩ := bind_eq_ok h
      obtain ⟨sPayload, hpayload, h⟩ := bind_eq_ok h
      cases h
      exact ⟨rfl, isText_of_text htext⟩
  | PUBREL =>
    unfold asked askedPubrel at h
    cases hid : long? (getItemString dict "PacketIdentifier") with
    | none =>
      simp only [hid] at h
      cases h
    | some i =>
      simp only [hid] at h
      cases h
      exact ⟨rfl, trivial⟩
  | DISCONNECT =>
    cases h
    exact ⟨rfl, trivial⟩

/-! ### What is written -/

/-- The parts of the packet for what is asked. -/
def Asked.parts : Asked → Parts
  | .connect c => c.parts
  | .ping => { retVal := [MQTT_PINGREQ] }
  | .subscribe iPacketIdentifier topics => Mqtt.subscribe iPacketIdentifier topics
  | .unsubscribe iPacketIdentifier topics => Mqtt.unsubscribe iPacketIdentifier topics
  | .publish dup retain iQoS sTopic iPacketIdentifier sPayload =>
      { retVal := [publishHeader dup retain iQoS]
        vVariableHeader := pushBackStringWLen sTopic ++
          if iQoS ≠ 0 then pushBackNumber (toInt32 iPacketIdentifier) else []
        vPayload := sPayload }
  | .pubrel iPacketIdentifier =>
      { retVal := [MQTT_PUBREL &&& 0x02]
        vVariableHeader := pushBackNumber (toInt32 iPacketIdentifier) }
  | .disconnect => { retVal := [MQTT_DISCONNECT, 0] }

theorem map_map {α β γ : Type} (x : Except Ended α) (f : α → β) (g : β → γ) :
    (x.map f).map g = x.map fun a => g (f a) := by
  cases x with
  | error e => rfl
  | ok a => rfl

/-- The branch of `PUBLISH` writes what is asked for. -/
theorem publish_eq_asked (m_PacketID : ℤ) (dict : PyDict) :
    publish (publishIdentifier m_PacketID dict).1 dict =
      (askedPublish m_PacketID dict).map Asked.parts := by
  unfold publish publishIdentifier askedPublish text
  cases htopic : unicode? (getItemString dict "Topic") with
  | none => rfl
  | some s =>
    cases hs : stdString s with
    | none =>
      simp only [hs]
      rfl
    | some sTopic =>
      simp only [Option.bind_some, hs, publishByte0_eq]
      cases hp : payloadOf (getItemString dict "Payload") with
      | error e => rfl
      | ok sPayload =>
        by_cases hq : publishQoS dict = 0
        · rw [if_neg (not_not.mpr hq)]
          simp only [bind, Except.bind, pure, Except.pure, Except.map, Asked.parts]
          rw [if_neg (not_not.mpr hq)]
          rfl
        · rw [if_pos hq]
          simp only [bind, Except.bind, pure, Except.pure, Except.map, Asked.parts]
          rw [if_pos hq]
          rfl

theorem pubrel_eq_asked (dict : PyDict) : pubrel dict = (askedPubrel dict).map Asked.parts := by
  unfold pubrel askedPubrel
  cases long? (getItemString dict "PacketIdentifier") with
  | none => rfl
  | some i => rfl

/-- The branch of a verb writes what is asked for. -/
theorem verbBranch_eq_asked (parameters : PyDict) (m_PacketID : ℤ) (dict : PyDict) (v : Verb) :
    (verbBranch parameters m_PacketID dict (str v.name)).1 =
      (asked parameters m_PacketID dict v).map Asked.parts := by
  cases v with
  | CONNECT => exact (map_map (connectFields parameters dict) Asked.connect Asked.parts).symm
  | PING => rfl
  | SUBSCRIBE =>
    exact (map_map (topicList dict >>= subscribeTopics)
      (Asked.subscribe (packetIdentifier m_PacketID dict).1) Asked.parts).symm
  | UNSUBSCRIBE =>
    exact (map_map (topicList dict >>= unsubscribeTopics)
      (Asked.unsubscribe (packetIdentifier m_PacketID dict).1) Asked.parts).symm
  | PUBLISH => exact publish_eq_asked m_PacketID dict
  | PUBREL => exact pubrel_eq_asked dict
  | DISCONNECT => rfl

theorem verbBranch_unknown (parameters : PyDict) (m_PacketID : ℤ) (dict : PyDict) {sVerb : Bytes}
    (h : ∀ v : Verb, sVerb ≠ str v.name) :
    verbBranch parameters m_PacketID dict sVerb = (.error .returned, m_PacketID) := by
  have hne (v : Verb) (name : String) (hname : v.name = name) : sVerb ≠ str name := by
    rw [← hname]
    exact h v
  unfold verbBranch
  rw [if_neg (hne .CONNECT "CONNECT" rfl), if_neg (hne .PING "PING" rfl),
    if_neg (hne .SUBSCRIBE "SUBSCRIBE" rfl), if_neg (hne .UNSUBSCRIBE "UNSUBSCRIBE" rfl),
    if_neg (hne .PUBLISH "PUBLISH" rfl), if_neg (hne .PUBREL "PUBREL" rfl),
    if_neg (hne .DISCONNECT "DISCONNECT" rfl)]

/-- What is sent for the parts of a branch. -/
def sent : Except Ended Parts → Option Bytes
  | .ok parts => some (assemble parts)
  | .error .returned => some []
  | .error .threw => none

theorem processOutbound_text {parameters dict : PyDict} {m_PacketID : ℤ} {brVerb : PyStr}
    {sVerb : Bytes} (h : getItemString dict "Verb" = some (.str brVerb))
    (hs : stdString brVerb = some sVerb) :
    (processOutbound parameters m_PacketID (some (.dict dict))).1 =
      sent (verbBranch parameters m_PacketID dict sVerb).1 := by
  unfold processOutbound
  simp only [h, hs]
  rcases verbBranch parameters m_PacketID dict sVerb with ⟨branch, _⟩
  cases branch with
  | error e =>
    cases e with
    | returned => rfl
    | threw => rfl
  | ok parts => rfl

theorem assemble_ne_nil (p : Parts) : assemble p ≠ [] := by
  have hlen : remainingLength (p.vVariableHeader.length + p.vPayload.length) ≠ [] := by
    rw [remainingLength]
    split
    · exact List.cons_ne_nil _ _
    · exact List.cons_ne_nil _ _
  unfold assemble
  simp [hlen]

/-- What is written behind a first byte is a packet if it has its first byte and its body. -/
theorem assemble_eq_encode_iff {b : UInt8} {vVariableHeader vPayload : Bytes} {p : ClientPacket} :
    assemble { retVal := [b], vVariableHeader, vPayload } = p.encode ↔
      b = p.header ∧ vVariableHeader ++ vPayload = p.body := by
  unfold assemble ClientPacket.encode
  rw [remainingLength_eq, ← List.length_append, List.append_assoc, List.append_assoc,
    List.cons_append, List.nil_append, List.cons.injEq]
  constructor
  · rintro ⟨hb, h⟩
    exact ⟨hb, (encodeLength_append_inj h).2⟩
  · rintro ⟨hb, h⟩
    exact ⟨hb, by rw [h]⟩

/-! ### Packets of a verb -/

/-- What is asked for is written as one packet of its verb, with its texts. -/
def Asked.Carried (a : Asked) : Prop :=
  ∃ p : ClientPacket, p.verb = a.verb ∧ p.body.length ≤ 268435455 ∧ assemble a.parts = p.encode ∧
    a.texts = p.texts

theorem ping_carried : Asked.ping.Carried :=
  ⟨.pingreq, rfl, by decide, assemble_eq_encode_iff.mpr ⟨rfl, rfl⟩, rfl⟩

/-- Without a packet type there is no `PUBREL`. -/
theorem not_pubrel_carried (iPacketIdentifier : ℤ) : ¬ (Asked.pubrel iPacketIdentifier).Carried := by
  rintro ⟨p, hverb, -, hencode, -⟩
  cases p with
  | pubrel n =>
    have hheader : MQTT_PUBREL &&& 2 = MQTT_PUBREL ||| 2 := (assemble_eq_encode_iff.mp hencode).1
    exact absurd hheader (by decide)
  | _ => cases hverb

/-- The Remaining Length of a `DISCONNECT` comes twice. -/
theorem not_disconnect_carried : ¬ Asked.disconnect.Carried := by
  rintro ⟨p, hverb, -, hencode, -⟩
  cases p with
  | disconnect =>
    have hencode : [MQTT_DISCONNECT, 0] ++ remainingLength 0 ++ [] ++ [] =
      MQTT_DISCONNECT :: (encodeLength 0 ++ []) := hencode
    rw [remainingLength_eq, encodeLength_of_lt (by decide)] at hencode
    cases hencode
  | _ => cases hverb

/-! ### The lists of topics -/

theorem length_flatMap_field (l : List (Bytes × UInt8)) :
    (l.flatMap fun t => field t.1 ++ [t.2]).length = (l.map fun t => t.1.length + 3).sum := by
  rw [List.length_flatMap]
  congr 1
  apply List.map_congr_left
  intro t _
  rw [List.length_append, length_field, List.length_singleton]

theorem flatMap_topics {topics : List (Bytes × UInt8)} (h : ∀ t ∈ topics, t.1.length < 2 ^ 16) :
    (topics.flatMap fun t => pushBackStringWLen t.1 ++ [t.2]) =
      topics.flatMap fun t => field t.1 ++ [t.2] :=
  List.flatMap_congr fun t ht => by rw [pushBackStringWLen_eq_field (h t ht)]

/-- With the same texts, the same bytes are the same qualities of service. -/
theorem topics_inj {l l' : List (Bytes × UInt8)} (htexts : l.map Prod.fst = l'.map Prod.fst)
    (h : (l.flatMap fun t => field t.1 ++ [t.2]) = l'.flatMap fun t => field t.1 ++ [t.2]) :
    l = l' := by
  induction l generalizing l' with
  | nil => exact (List.map_eq_nil_iff.mp htexts.symm).symm
  | cons t l ih =>
    cases l' with
    | nil => cases htexts
    | cons t' l' =>
      obtain ⟨hfst, hrest⟩ := List.cons.inj htexts
      rw [List.flatMap_cons, List.flatMap_cons, hfst, List.append_assoc, List.append_assoc] at h
      obtain ⟨hsnd, htail⟩ := List.cons.inj (List.append_cancel_left h)
      rw [ih hrest htail, Prod.ext hfst hsnd]

/-- The topics that fit are those of a packet. -/
theorem exists_topics {topics : List (Bytes × UInt8)} (htext : ∀ t ∈ topics, IsText t.1)
    (hfit : ∀ t ∈ topics, t.1.length < 2 ^ 16 ∧ t.2 < 3) :
    ∃ l : List (Text × Fin 3), (l.map fun t => (t.1.bytes, UInt8.ofNat t.2)) = topics := by
  rw [← Set.mem_range, Set.range_list_map]
  rintro ⟨sTopic, bQoS⟩ ht
  obtain ⟨hlen, hqos⟩ := hfit _ ht
  have hval : bQoS.toNat < 3 := hqos
  exact ⟨(⟨sTopic, htext _ ht, hlen⟩, ⟨bQoS.toNat, hval⟩), Prod.ext rfl UInt8.ofNat_toNat⟩

theorem flatMap_entries (l : List (Text × Fin 3)) :
    (l.flatMap fun t => field t.1.bytes ++ [UInt8.ofNat t.2]) =
      (l.map fun t => (t.1.bytes, UInt8.ofNat t.2)).flatMap fun t => field t.1 ++ [t.2] := by
  rw [List.flatMap_map]

theorem map_fst_entries (l : List (Text × Fin 3)) :
    (l.map fun t => (t.1.bytes, UInt8.ofNat t.2)).map Prod.fst = l.map fun t => t.1.bytes := by
  rw [List.map_map]
  rfl

/-- The identifier of a packet is the one on the wire. -/
theorem wireIdentifier_ne_zero {i : ℤ} {n : PacketIdentifier} {s t : Bytes}
    (h : pushBackNumber (toInt32 i) ++ s = bigEndian n.1 ++ t) : wireIdentifier i ≠ 0 ∧ s = t := by
  obtain ⟨m, hm, hwire⟩ := exists_wireIdentifier i
  rw [hm] at h
  obtain ⟨hnumber, hrest⟩ := List.append_inj h rfl
  refine ⟨?_, hrest⟩
  rw [hwire, bigEndian_injective hnumber]
  intro hzero
  apply n.2
  rw [← UInt16.toNat_inj]
  exact_mod_cast hzero

theorem exists_packetIdentifier {i : ℤ} (h : wireIdentifier i ≠ 0) :
    ∃ n : PacketIdentifier, pushBackNumber (toInt32 i) = bigEndian n.1 := by
  obtain ⟨m, hm, hwire⟩ := exists_wireIdentifier i
  refine ⟨⟨m, ?_⟩, hm⟩
  rintro rfl
  exact h hwire

theorem subscribe_carried_iff {i : ℤ} {topics : List (Bytes × UInt8)}
    (htext : ∀ t ∈ topics, IsText t.1) :
    (Asked.subscribe i topics).Carried ↔ (Asked.subscribe i topics).Sound := by
  constructor
  · rintro ⟨p, hverb, hlength, hencode, htexts⟩
    cases p with
    | subscribe n l =>
      have hfit (t : Bytes × UInt8) (ht : t ∈ topics) : t.1.length < 2 ^ 16 := by
        have hmem : t.1 ∈ l.1.map fun t => t.1.bytes := by
          rw [← show topics.map Prod.fst = l.1.map fun t => t.1.bytes from htexts]
          exact List.mem_map_of_mem ht
        obtain ⟨e, -, he⟩ := List.mem_map.mp hmem
        rw [← he]
        exact e.1.length_lt
      have hbody : pushBackNumber (toInt32 i) ++ (topics.flatMap fun t => pushBackStringWLen t.1 ++ [t.2]) =
          bigEndian n.1 ++ l.1.flatMap fun t => field t.1.bytes ++ [UInt8.ofNat t.2] :=
        (assemble_eq_encode_iff.mp hencode).2
      -- the identifier takes two bytes on either side, so the topics can be compared
      obtain ⟨hid, htopics⟩ := wireIdentifier_ne_zero hbody
      rw [flatMap_topics hfit, flatMap_entries] at htopics
      have hl : topics = l.1.map fun t => (t.1.bytes, UInt8.ofNat t.2) := by
        apply topics_inj _ htopics
        rw [map_fst_entries]
        exact htexts
      refine ⟨hid, ?_, ?_, ?_⟩
      · rintro rfl
        exact l.2 (List.map_eq_nil_iff.mp hl.symm)
      · intro t ht
        refine ⟨hfit t ht, ?_⟩
        rw [hl] at ht
        obtain ⟨e, -, rfl⟩ := List.mem_map.mp ht
        -- a packet has three levels only
        show UInt8.ofNat e.2 < 3
        generalize e.2 = qos
        revert qos
        decide
      · have hbytes : (ClientPacket.subscribe n l).body.length =
            2 + (topics.map fun t => t.1.length + 3).sum := by
          rw [ClientPacket.body, List.length_append, length_bigEndian, flatMap_entries, ← hl,
            length_flatMap_field]
        rwa [← hbytes]
    | _ => cases hverb
  · rintro ⟨hid, hne, hfit, hlength⟩
    obtain ⟨n, hn⟩ := exists_packetIdentifier hid
    obtain ⟨l, rfl⟩ := exists_topics htext hfit
    have hl : l ≠ [] := by
      rintro rfl
      exact hne rfl
    have hbody : (ClientPacket.subscribe n ⟨l, hl⟩).body = pushBackNumber (toInt32 i) ++
        (l.map fun t => (t.1.bytes, UInt8.ofNat t.2)).flatMap fun t => field t.1 ++ [t.2] := by
      rw [ClientPacket.body, flatMap_entries, hn]
    refine ⟨.subscribe n ⟨l, hl⟩, rfl, ?_, assemble_eq_encode_iff.mpr ⟨rfl, ?_⟩, map_fst_entries l⟩
    · rw [hbody, List.length_append, length_pushBackNumber, length_flatMap_field]
      exact hlength
    · rw [hbody, flatMap_topics fun t ht => (hfit t ht).1]

theorem length_flatMap_texts (l : List Bytes) :
    (l.flatMap field).length = (l.map fun t => t.length + 2).sum := by
  rw [List.length_flatMap]
  simp only [length_field]

theorem unsubscribe_carried_iff {i : ℤ} {topics : List Bytes} (htext : ∀ t ∈ topics, IsText t) :
    (Asked.unsubscribe i topics).Carried ↔ (Asked.unsubscribe i topics).Sound := by
  have hmap (l : List Text) :
      (l.flatMap fun t => field t.bytes) = (l.map Text.bytes).flatMap field := by
    rw [List.flatMap_map]
  constructor
  · rintro ⟨p, hverb, hlength, hencode, htexts⟩
    cases p with
    | unsubscribe n l =>
      have hl : topics = l.1.map Text.bytes := htexts
      have hbody : pushBackNumber (toInt32 i) ++ topics.flatMap pushBackStringWLen =
          bigEndian n.1 ++ l.1.flatMap fun t => field t.bytes :=
        (assemble_eq_encode_iff.mp hencode).2
      refine ⟨(wireIdentifier_ne_zero hbody).1, ?_, ?_, ?_⟩
      · rintro rfl
        exact l.2 (List.map_eq_nil_iff.mp hl.symm)
      · intro t ht
        rw [hl] at ht
        obtain ⟨e, -, rfl⟩ := List.mem_map.mp ht
        exact e.length_lt
      · have hbytes : (ClientPacket.unsubscribe n l).body.length =
            2 + (topics.map fun t => t.length + 2).sum := by
          rw [ClientPacket.body, List.length_append, length_bigEndian, hmap, ← hl,
            length_flatMap_texts]
        rwa [← hbytes]
    | _ => cases hverb
  · rintro ⟨hid, hne, hfit, hlength⟩
    obtain ⟨n, hn⟩ := exists_packetIdentifier hid
    obtain ⟨l, rfl⟩ : ∃ l : List Text, l.map Text.bytes = topics := by
      rw [← Set.mem_range, Set.range_list_map]
      intro t ht
      exact ⟨⟨t, htext t ht, hfit t ht⟩, rfl⟩
    have hl : l ≠ [] := by
      rintro rfl
      exact hne rfl
    have hbody : (ClientPacket.unsubscribe n ⟨l, hl⟩).body =
        pushBackNumber (toInt32 i) ++ (l.map Text.bytes).flatMap field := by
      rw [ClientPacket.body, hmap, hn]
    refine ⟨.unsubscribe n ⟨l, hl⟩, rfl, ?_, assemble_eq_encode_iff.mpr ⟨rfl, ?_⟩, rfl⟩
    · rw [hbody, List.length_append, length_pushBackNumber, length_flatMap_texts]
      exact hlength
    · rw [hbody, ← flatMap_pushBackStringWLen hfit]

/-! ### `PUBLISH` -/

/-- The first byte of a `PUBLISH` by the level of its two bits. -/
theorem publishHeader_eq {iQoS : ℤ} {level : Fin 4} (h : iQoS % 4 = (level : ℕ)) (dup retain : Bool) :
    publishHeader dup retain iQoS = MQTT_PUBLISH ||| (if dup then (0x08 : UInt8) else 0) |||
      (UInt8.ofNat level <<< 1) ||| (if retain then (1 : UInt8) else 0) := by
  have hbyte (l : Fin 4) : byteOf (l : ℕ) = UInt8.ofNat l := by
    revert l
    decide
  rw [publishHeader, h, hbyte]

/-- The bits of a first byte are those of a quality of service of the protocol only if they are
the same. -/
theorem publishHeader_inj (level : Fin 4) (level' : Fin 3) (dup retain dup' retain' : Bool) :
    MQTT_PUBLISH ||| (if dup then (0x08 : UInt8) else 0) ||| (UInt8.ofNat level <<< 1) |||
      (if retain then (1 : UInt8) else 0) = MQTT_PUBLISH ||| publishFlags level' dup' retain' ↔
    level = level'.castSucc ∧ dup = dup' ∧ retain = retain' := by
  revert level level' dup retain dup' retain'
  decide

theorem exists_level (iQoS : ℤ) : ∃ level : Fin 4, iQoS % 4 = (level : ℕ) := by
  have hpos := Int.emod_nonneg iQoS (show (4 : ℤ) ≠ 0 by decide)
  have hlt := Int.emod_lt_of_pos iQoS (show (0 : ℤ) < 4 by decide)
  exact ⟨⟨(iQoS % 4).toNat, by omega⟩, by simp only; omega⟩

/-- The identifier of a `PUBLISH`, as far as it is written. -/
def publishedIdentifier (iQoS iPacketIdentifier : ℤ) : Bytes :=
  if iQoS ≠ 0 then pushBackNumber (toInt32 iPacketIdentifier) else []

theorem length_publishedIdentifier (iQoS iPacketIdentifier : ℤ) :
    (publishedIdentifier iQoS iPacketIdentifier).length = if iQoS ≠ 0 then 2 else 0 := by
  rw [publishedIdentifier]
  split
  · rfl
  · rfl

/-- What is written of a `PUBLISH`: the bytes of its first byte and its body. -/
theorem publish_encode_iff {dup retain : Bool} {iQoS iPacketIdentifier : ℤ} {sTopic sPayload : Bytes}
    (hlen : sTopic.length < 2 ^ 16) {p : ClientPacket} :
    assemble (Asked.publish dup retain iQoS sTopic iPacketIdentifier sPayload).parts = p.encode ↔
      publishHeader dup retain iQoS = p.header ∧
        field sTopic ++ publishedIdentifier iQoS iPacketIdentifier ++ sPayload = p.body := by
  rw [← pushBackStringWLen_eq_field hlen]
  exact assemble_eq_encode_iff

theorem publish_carried_iff {dup retain : Bool} {iQoS iPacketIdentifier : ℤ} {sTopic sPayload : Bytes}
    (htext : IsText sTopic) :
    (Asked.publish dup retain iQoS sTopic iPacketIdentifier sPayload).Carried ↔
      (Asked.publish dup retain iQoS sTopic iPacketIdentifier sPayload).Sound := by
  obtain ⟨level, hlevel⟩ := exists_level iQoS
  have hheader := publishHeader_eq hlevel dup retain
  have hsize : (field sTopic ++ publishedIdentifier iQoS iPacketIdentifier ++ sPayload).length =
      sTopic.length + 2 + (if iQoS ≠ 0 then 2 else 0) + sPayload.length := by
    rw [List.length_append, List.length_append, length_field, length_publishedIdentifier]
  constructor
  · rintro ⟨p, hverb, hlength, hencode, htexts⟩
    cases p with
    | publish qos retain' topic payload =>
      obtain rfl : sTopic = topic.bytes := (List.cons.inj htexts).1
      obtain ⟨hfirst, hbody⟩ := (publish_encode_iff topic.length_lt).mp hencode
      rw [hheader] at hfirst
      obtain ⟨hl, hdup, -⟩ := (publishHeader_inj _ _ _ _ _ _).mp hfirst
      rw [← hbody, hsize] at hlength
      refine ⟨topic.length_lt, ?_, ?_, ?_, hlength⟩
      · rw [hlevel, hl, Fin.val_castSucc]
        have hthree := qos.1.level.2
        omega
      · intro hzero
        rw [hdup]
        rcases qos with ⟨qos, hqos⟩
        cases qos with
        | atMostOnce => rfl
        | atLeastOnce dup n =>
          rw [hlevel, hl] at hzero
          cases hzero
        | exactlyOnce dup n =>
          rw [hlevel, hl] at hzero
          cases hzero
      · intro hpos
        have hne : iQoS ≠ 0 := by
          rintro rfl
          exact hpos rfl
        rw [publishedIdentifier, if_pos hne, ClientPacket.body, List.append_assoc,
          List.append_assoc] at hbody
        have htail := List.append_cancel_left hbody
        rcases qos with ⟨qos, hqos⟩
        cases qos with
        | atMostOnce =>
          rw [hlevel, hl] at hpos
          exact absurd rfl hpos
        | atLeastOnce dup n =>
          exact (wireIdentifier_ne_zero (n := ⟨n, fun h => hqos (congrArg some h)⟩) htail).1
        | exactlyOnce dup n =>
          exact (wireIdentifier_ne_zero (n := ⟨n, fun h => hqos (congrArg some h)⟩) htail).1
    | _ => cases hverb
  · rintro ⟨hlen, hthree, hdup, hid, hlength⟩
    -- The packet is found once its quality of service is.
    have hcarry (qos : ClientQoS) (payload : Bytes) (hl : level = qos.1.level.castSucc)
        (hd : dup = qos.1.dup)
        (htail : publishedIdentifier iQoS iPacketIdentifier ++ sPayload =
          qos.1.packetIdentifier.elim [] bigEndian ++ payload) :
        (Asked.publish dup retain iQoS sTopic iPacketIdentifier sPayload).Carried := by
      have hbody : field sTopic ++ publishedIdentifier iQoS iPacketIdentifier ++ sPayload =
          (ClientPacket.publish qos retain ⟨sTopic, htext, hlen⟩ payload).body := by
        rw [ClientPacket.body, List.append_assoc, List.append_assoc, htail]
      refine ⟨.publish qos retain ⟨sTopic, htext, hlen⟩ payload, rfl, ?_, ?_, rfl⟩
      · rw [← hbody, hsize]
        exact hlength
      · apply (publish_encode_iff hlen).mpr
        refine ⟨?_, hbody⟩
        rw [hheader]
        exact (publishHeader_inj _ _ _ _ _ _).mpr ⟨hl, hd, rfl⟩
    have hnumbered (h : iQoS % 4 ≠ 0) : ∃ n : PacketIdentifier,
        publishedIdentifier iQoS iPacketIdentifier = bigEndian n.1 := by
      have hne : iQoS ≠ 0 := by
        rintro rfl
        exact h rfl
      rw [publishedIdentifier, if_pos hne]
      exact exists_packetIdentifier (hid h)
    have hsome (n : PacketIdentifier) : some n.1 ≠ some 0 := fun h => n.2 (Option.some.inj h)
    match level, hlevel with
    | 0, hlevel =>
      exact hcarry ⟨.atMostOnce, nofun⟩ (publishedIdentifier iQoS iPacketIdentifier ++ sPayload) rfl
        (hdup hlevel) rfl
    | 1, hlevel =>
      obtain ⟨n, hn⟩ := hnumbered (by rw [hlevel]; decide)
      exact hcarry ⟨.atLeastOnce dup n.1, hsome n⟩ sPayload rfl rfl (by rw [hn]; rfl)
    | 2, hlevel =>
      obtain ⟨n, hn⟩ := hnumbered (by rw [hlevel]; decide)
      exact hcarry ⟨.exactlyOnce dup n.1, hsome n⟩ sPayload rfl rfl (by rw [hn]; rfl)
    | 3, hlevel => exact absurd hlevel hthree

/-! ### `CONNECT` -/

/-- The flags show what there is: a user name, a password, and a will with its quality of
service. -/
theorem connectFlags_bits (cleanSession : Bool) (will : Option (Fin 4 × Bool)) (user pass : Bool) :
    (decide (connectFlags cleanSession will user pass &&& 128 ≠ 0) = user ∧
      decide (connectFlags cleanSession will user pass &&& 64 ≠ 0) = pass) ∧
    (connectFlags cleanSession will user pass &&& 24 = 24 ↔ (will.map Prod.fst) = some 3) := by
  cases will with
  | none =>
    revert cleanSession user pass
    decide
  | some w =>
    obtain ⟨qos, retain⟩ := w
    revert cleanSession qos retain user pass
    decide

/-- The bits of a will. -/
def Will.bits (w : Will) : Fin 4 × Bool :=
  (Fin.ofNat 4 w.bQoS.toNat, decide (w.bRetain &&& 1 ≠ 0))

/-- What the will adds to the flags of `CONNECT`. -/
def LastWill.bits (w : LastWill) : Fin 4 × Bool := (w.qos.castSucc, w.retain)

/-- The flags of a request, by what there is. -/
theorem bControlFlags_eq (c : Connect) : c.bControlFlags =
    connectFlags (decide (c.bCleanSession &&& 1 ≠ 0)) (c.will.map Will.bits) (!c.User.isEmpty)
      (!c.Pass.isEmpty) := by
  -- every flag that is masked is 0 or 1 in front of the shift
  have hone (b : UInt8) : b &&& 1 = 0 ∨ b &&& 1 = 1 := by
    have hmod : (b &&& 1).toNat = b.toNat % 2 := by
      rw [UInt8.toNat_and]
      exact Nat.and_one_is_mod _
    rcases Nat.mod_two_eq_zero_or_one b.toNat with h | h
    · left
      rw [← UInt8.toNat_inj, hmod, h]
      rfl
    · right
      rw [← UInt8.toNat_inj, hmod, h]
      rfl
  have hthree (b : UInt8) : b &&& 3 = UInt8.ofNat (Fin.ofNat 4 b.toNat) := by
    rw [← UInt8.toNat_inj, UInt8.toNat_and, UInt8.toNat_ofNat']
    show b.toNat &&& (2 ^ 2 - 1) = b.toNat % 4 % 2 ^ 8
    rw [Nat.and_two_pow_sub_one_eq_mod]
    omega
  have hclean (b : UInt8) : (b &&& 1) <<< 1 = if decide (b &&& 1 ≠ 0) then 2 else 0 := by
    rcases hone b with h | h
    · rw [h]
      rfl
    · rw [h]
      rfl
  have hretain (b : UInt8) : (b &&& 1) <<< 5 = if decide (b &&& 1 ≠ 0) then 32 else 0 := by
    rcases hone b with h | h
    · rw [h]
      rfl
    · rw [h]
      rfl
  have hempty (b : Bytes) (f : UInt8) :
      (if b.isEmpty then 0 else f) = if (!b.isEmpty) then f else 0 := by
    cases b with
    | nil => rfl
    | cons x b => rfl
  have hwill (w : Option Will) : w.elim (0 : UInt8) Will.bControlFlags =
      (w.map Will.bits).elim (0 : UInt8)
        fun w => (4 : UInt8) ||| (UInt8.ofNat w.1 <<< 3) ||| (if w.2 then (32 : UInt8) else 0) := by
    cases w with
    | none => rfl
    | some w =>
      show Will.bControlFlags w = _
      rw [Will.bControlFlags, hthree, hretain]
      rfl
  rw [Connect.bControlFlags, connectFlags, hclean, hwill, hempty, hempty]

theorem not_isEmpty_iff (b : Bytes) : (!b.isEmpty) = true ↔ b ≠ [] := by
  cases b with
  | nil => decide
  | cons x b => simp

/-- The bits of a quality of service that is none of the protocol's. -/
theorem bQoS_eq_three_iff (b : UInt8) : b &&& 3 = 3 ↔ Fin.ofNat 4 b.toNat = 3 := by
  have hmod : (b &&& 3).toNat = b.toNat % 4 := by
    rw [UInt8.toNat_and]
    exact Nat.and_two_pow_sub_one_eq_mod _ 2
  rw [← UInt8.toNat_inj, hmod, Fin.ext_iff]
  show b.toNat % 4 = 3 ↔ b.toNat % 4 = 3
  exact Iff.rfl

/-- What is written of a `CONNECT`. -/
theorem connect_encode_iff {c : Connect} (hlen : ∀ s ∈ c.texts, s.length < 2 ^ 16)
    {p : ClientPacket} :
    assemble (Asked.connect c).parts = p.encode ↔ MQTT_CONNECT = p.header ∧
      field (str "MQTT") ++ [MQTT_PROTOCOL, c.bControlFlags, 0, 60] ++ c.texts.flatMap field =
        p.body := by
  have hprotocol : (str "MQTT").length < 2 ^ 16 := by decide
  rw [← flatMap_pushBackStringWLen hlen, ← pushBackStringWLen_eq_field hprotocol]
  exact assemble_eq_encode_iff

/-- A will that fits is one of the protocol. -/
theorem exists_lastWill {will : Option Will} (htext : ∀ w, will = some w → IsText w.sTopic)
    (hlen : ∀ w, will = some w → w.sTopic.length < 2 ^ 16 ∧ w.sPayload.length < 2 ^ 16)
    (hqos : ∀ w, will = some w → w.bQoS &&& 3 ≠ 3) :
    ∃ lastWill : Option LastWill, lastWill.map LastWill.bits = will.map Will.bits ∧
      (lastWill.elim [] fun w => [w.topic.bytes, w.message.bytes]) =
        will.elim [] fun w => [w.sTopic, w.sPayload] := by
  cases will with
  | none => exact ⟨none, rfl, rfl⟩
  | some w =>
    have hne := hqos w rfl
    rw [Ne, bQoS_eq_three_iff] at hne
    have hlt : (Fin.ofNat 4 w.bQoS.toNat : ℕ) < 3 := by
      have hfour := (Fin.ofNat 4 w.bQoS.toNat).2
      have hval : (Fin.ofNat 4 w.bQoS.toNat : ℕ) ≠ 3 := fun h => hne (Fin.ext h)
      omega
    exact ⟨some ⟨⟨w.sTopic, htext w rfl, (hlen w rfl).1⟩, ⟨w.sPayload, (hlen w rfl).2⟩,
      ⟨Fin.ofNat 4 w.bQoS.toNat, hlt⟩, decide (w.bRetain &&& 1 ≠ 0)⟩, rfl, rfl⟩

/-- A user name and a password that fit are a login, if there is no password alone. -/
theorem exists_login {User Pass : Bytes} (htext : IsText User) (huser : User.length < 2 ^ 16)
    (hpass : Pass.length < 2 ^ 16) (h : Pass ≠ [] → User ≠ []) :
    ∃ login : Option Login, login.isSome = !User.isEmpty ∧
      (login.any fun l => l.password.isSome) = !Pass.isEmpty ∧
      (login.elim [] fun l => l.userName.bytes :: l.password.toList.map Binary.bytes) =
        (if User.isEmpty then [] else [User]) ++ (if Pass.isEmpty then [] else [Pass]) := by
  cases User with
  | nil =>
    cases Pass with
    | nil => exact ⟨none, rfl, rfl, rfl⟩
    | cons x Pass => exact absurd rfl (h (List.cons_ne_nil x Pass))
  | cons u User =>
    cases Pass with
    | nil => exact ⟨some ⟨⟨u :: User, htext, huser⟩, none⟩, rfl, rfl, rfl⟩
    | cons x Pass =>
      exact ⟨some ⟨⟨u :: User, htext, huser⟩, some ⟨x :: Pass, hpass⟩⟩, rfl, rfl, rfl⟩

/-- The texts of a `CONNECT` that fit are no more than the protocol can express. -/
theorem length_texts_le {c : Connect} (hlen : ∀ s ∈ c.texts, s.length < 2 ^ 16) :
    (c.texts.flatMap field).length ≤ 5 * 65537 := by
  have hcount : c.texts.length ≤ 5 := by
    rw [Connect.texts, List.length_cons, List.length_append, List.length_append]
    have hwill : (c.will.elim [] fun w => [w.sTopic, w.sPayload]).length ≤ 2 := by
      cases c.will with
      | none => decide
      | some w => exact le_rfl
    have hone (s : Bytes) : (if s.isEmpty then [] else [s]).length ≤ 1 := by
      split
      · decide
      · exact le_rfl
    have huser := hone c.User
    have hpass := hone c.Pass
    omega
  have hsum : (c.texts.map fun t => t.length + 2).sum ≤
      (c.texts.map fun t => t.length + 2).length • 65537 := by
    apply List.sum_le_card_nsmul
    intro n hn
    obtain ⟨s, hs, rfl⟩ := List.mem_map.mp hn
    have hs := hlen s hs
    omega
  rw [List.length_map, smul_eq_mul] at hsum
  rw [length_flatMap_texts]
  exact hsum.trans (Nat.mul_le_mul_right _ hcount)

theorem connect_carried_iff {c : Connect} (h : (Asked.connect c).Legible) :
    (Asked.connect c).Carried ↔ (Asked.connect c).Sound := by
  obtain ⟨hid, htopic, huser⟩ := h
  constructor
  · rintro ⟨p, hverb, -, hencode, htexts⟩
    cases p with
    | connect clientID cleanSession will login keepAlive =>
      have htexts : c.texts =
        (ClientPacket.connect clientID cleanSession will login keepAlive).texts := htexts
      -- every text of the packet fits into its length field
      have hlen (s : Bytes) (hs : s ∈ c.texts) : s.length < 2 ^ 16 := by
        rw [htexts, ClientPacket.texts, List.mem_cons, List.mem_append] at hs
        rcases hs with rfl | hs | hs
        · exact clientID.length_lt
        · cases will with
          | none => cases hs
          | some w =>
            simp only [Option.elim_some, List.mem_cons, List.not_mem_nil, or_false] at hs
            rcases hs with rfl | rfl
            · exact w.topic.length_lt
            · exact w.message.length_lt
        · cases login with
          | none => cases hs
          | some l =>
            rw [Option.elim_some, List.mem_cons] at hs
            rcases hs with rfl | hs
            · exact l.userName.length_lt
            · obtain ⟨b, -, rfl⟩ := List.mem_map.mp hs
              exact b.length_lt
      have hbody := ((connect_encode_iff hlen).mp hencode).2
      have hflags : c.bControlFlags =
          connectFlags cleanSession (will.map LastWill.bits) login.isSome
            (login.any fun l => l.password.isSome) := by
        rw [ClientPacket.body, List.append_assoc, List.append_assoc, List.append_assoc] at hbody
        exact (List.cons.inj (List.cons.inj (List.append_cancel_left hbody)).2).1
      rw [bControlFlags_eq] at hflags
      -- both flag bytes are the same, so the bits of the one are those of the other
      obtain ⟨⟨huser₁, hpass₁⟩, hqos₁⟩ := connectFlags_bits (decide (c.bCleanSession &&& 1 ≠ 0))
        (c.will.map Will.bits) (!c.User.isEmpty) (!c.Pass.isEmpty)
      obtain ⟨⟨huser₂, hpass₂⟩, hqos₂⟩ := connectFlags_bits cleanSession (will.map LastWill.bits)
        login.isSome (login.any fun l => l.password.isSome)
      rw [hflags] at huser₁ hpass₁ hqos₁
      refine ⟨hlen, ?_, ?_⟩
      · intro hpass
        rw [← not_isEmpty_iff, ← hpass₁, hpass₂] at hpass
        rw [← not_isEmpty_iff, ← huser₁, huser₂]
        cases login with
        | none => cases hpass
        | some l => rfl
      · intro w hw hthree
        rw [bQoS_eq_three_iff] at hthree
        rw [hqos₂, hw] at hqos₁
        have hmem := hqos₁.mpr (congrArg some hthree)
        cases will with
        | none => cases hmem
        | some lastWill =>
          have hval := congrArg Fin.val (Option.some.inj hmem)
          have hlt := lastWill.qos.2
          rw [show ((LastWill.bits lastWill).1 : ℕ) = lastWill.qos from rfl] at hval
          rw [hval] at hlt
          exact absurd hlt (by decide)
    | _ => cases hverb
  · rintro ⟨hlen, hpass, hqos⟩
    have htexts : c.texts = c.sID :: ((c.will.elim [] fun w => [w.sTopic, w.sPayload]) ++
        ((if c.User.isEmpty then [] else [c.User]) ++ (if c.Pass.isEmpty then [] else [c.Pass]))) := by
      rw [Connect.texts, List.append_assoc]
    have hmem {s : Bytes} (hs : s = c.sID ∨ s ∈ (c.will.elim [] fun w => [w.sTopic, w.sPayload]) ∨
        s ∈ (if c.User.isEmpty then [] else [c.User]) ∨ s ∈ (if c.Pass.isEmpty then [] else [c.Pass])) :
        s.length < 2 ^ 16 := by
      apply hlen
      rw [htexts, List.mem_cons, List.mem_append, List.mem_append]
      exact hs
    have hfit (s : Bytes) (hs : s ∈ (if s.isEmpty then [] else [s]) → s.length < 2 ^ 16) :
        s.length < 2 ^ 16 := by
      cases s with
      | nil => decide
      | cons x s => exact hs (List.mem_singleton.mpr rfl)
    obtain ⟨lastWill, hbits, hwill⟩ := exists_lastWill htopic
      (fun w hw => ⟨hmem (.inr (.inl (by rw [hw]; exact List.mem_cons_self))),
        hmem (.inr (.inl (by rw [hw]; exact List.mem_cons_of_mem _ List.mem_cons_self)))⟩) hqos
    obtain ⟨login, hsome, hany, hlogin⟩ := exists_login huser
      (hfit c.User fun hs => hmem (.inr (.inr (.inl hs))))
      (hfit c.Pass fun hs => hmem (.inr (.inr (.inr hs)))) hpass
    -- the packet that was asked for
    let p := ClientPacket.connect ⟨c.sID, hid, hmem (.inl rfl)⟩ (decide (c.bCleanSession &&& 1 ≠ 0))
      lastWill login 60
    have hp : p.texts = c.texts := by
      rw [htexts, ← hwill, ← hlogin]
      rfl
    have hbody : field (str "MQTT") ++ [MQTT_PROTOCOL, c.bControlFlags, 0, 60] ++
        c.texts.flatMap field = p.body := by
      rw [← hp, bControlFlags_eq, ← hbits, ← hsome, ← hany]
      show _ = field (str "MQTT") ++ [MQTT_PROTOCOL, _] ++ bigEndian 60 ++ p.texts.flatMap field
      rw [List.append_assoc (field (str "MQTT")) [MQTT_PROTOCOL, _] (bigEndian 60)]
      rfl
    refine ⟨p, rfl, ?_, (connect_encode_iff hlen).mpr ⟨rfl, hbody⟩, hp.symm⟩
    have hlength := length_texts_le hlen
    rw [← hbody, List.length_append, List.length_append, length_field]
    show 4 + 2 + 4 + _ ≤ _
    omega

/-! ### The requests that are met -/

/-- What is asked for is written as a packet exactly if it is sound. -/
theorem carried_iff {a : Asked} (h : a.Legible) : a.Carried ↔ a.Sound := by
  cases a with
  | connect c => exact connect_carried_iff h
  | ping => exact iff_of_true ping_carried trivial
  | subscribe i topics => exact subscribe_carried_iff h
  | unsubscribe i topics => exact unsubscribe_carried_iff h
  | publish dup retain iQoS sTopic i sPayload => exact publish_carried_iff h
  | pubrel i => exact iff_of_false (not_pubrel_carried i) id
  | disconnect => exact iff_of_false not_disconnect_carried id

theorem stdString_name (v : Verb) : stdString (pyStr v.name) = some (str v.name) := by
  cases v <;> decide

theorem name_injective {v v' : Verb} (h : str v.name = str v'.name) : v = v' := by
  cases v <;> cases v' <;> first | rfl | exact absurd h (by decide)

theorem getItemString_of_unicode {dict : PyDict} {s : PyStr}
    (h : unicode? (getItemString dict "Verb") = some s) :
    getItemString dict "Verb" = some (.str s) := by
  cases hverb : getItemString dict "Verb" with
  | none =>
    rw [hverb] at h
    cases h
  | some o =>
    rw [hverb] at h
    cases o with
    | str s' =>
      cases h
      rfl
    | _ => cases h

/-- What is sent with a verb is made of what is asked for. -/
theorem processOutbound_verb (parameters : PyDict) (m_PacketID : ℤ) {dict : PyDict} {v : Verb}
    (h : (unicode? (getItemString dict "Verb")).bind stdString = some (str v.name)) :
    (processOutbound parameters m_PacketID (some (.dict dict))).1 =
      sent ((asked parameters m_PacketID dict v).map Asked.parts) := by
  obtain ⟨s, hs, hstd⟩ := Option.bind_eq_some_iff.mp h
  rw [processOutbound_text (getItemString_of_unicode hs) hstd, verbBranch_eq_asked]

theorem bind_of_hasVerb {dict : PyDict} {v : Verb} (h : HasVerb dict v) :
    (unicode? (getItemString dict "Verb")).bind stdString = some (str v.name) := by
  rw [h, Option.bind_some, stdString_name]

/-- A packet with the texts of what is asked for, as `Proper` has it. -/
theorem carried_of_asked {parameters dict : PyDict} {m_PacketID : ℤ} {v : Verb} {a : Asked}
    (h : asked parameters m_PacketID dict v = .ok a) :
    a.Carried ↔ ∃ p : ClientPacket, p.verb = v ∧ p.body.length ≤ 268435455 ∧
      assemble a.parts = p.encode ∧
        (asked parameters m_PacketID dict v).map Asked.texts = .ok p.texts := by
  obtain ⟨rfl, -⟩ := asked_eq_ok h
  rw [h]
  constructor
  · rintro ⟨p, hverb, hlength, hencode, htexts⟩
    exact ⟨p, hverb, hlength, hencode, congrArg Except.ok htexts⟩
  · rintro ⟨p, hverb, hlength, hencode, htexts⟩
    exact ⟨p, hverb, hlength, hencode, Except.ok.inj htexts⟩

theorem met_of_proper {parameters dict : PyDict} {m_PacketID : ℤ}
    (h : Proper parameters m_PacketID dict) : Met parameters m_PacketID dict := by
  constructor
  · cases hverb : getItemString dict "Verb" with
    | some o => rfl
    | none =>
      have hno (v : Verb) : ¬ HasVerb dict v := by
        unfold HasVerb
        rw [hverb]
        nofun
      have hnil := h.no_verb hno (assemble { retVal := [] }) (by
        unfold processOutbound
        simp only [hverb])
      exact absurd hnil (assemble_ne_nil _)
  · intro v a hv ha
    have hsent := processOutbound_verb parameters m_PacketID hv
    rw [ha] at hsent
    by_cases hverb : HasVerb dict v
    · refine ⟨hverb, ?_⟩
      apply (carried_iff (asked_eq_ok ha).2).mp
      apply (carried_of_asked ha).mpr
      exact h.of_verb v _ hverb hsent (assemble_ne_nil _)
    · have hno (v' : Verb) : ¬ HasVerb dict v' := by
        intro hv'
        have heq := bind_of_hasVerb hv'
        rw [hv] at heq
        obtain rfl := name_injective (Option.some.inj heq)
        exact hverb hv'
      exact absurd (h.no_verb hno _ hsent) (assemble_ne_nil _)

/-- Nothing is sent for a verb that is not known. -/
theorem sent_eq_nil_of_unknown {parameters dict : PyDict} {m_PacketID : ℤ} {packet : Bytes}
    (hverb : (getItemString dict "Verb").isSome)
    (hno : ∀ v a, (unicode? (getItemString dict "Verb")).bind stdString = some (str v.name) →
      asked parameters m_PacketID dict v ≠ .ok a)
    (h : (processOutbound parameters m_PacketID (some (.dict dict))).1 = some packet) :
    packet = [] := by
  obtain ⟨o, ho⟩ := Option.isSome_iff_exists.mp hverb
  cases o with
  | str s =>
    cases hs : stdString s with
    | none =>
      unfold processOutbound at h
      simp only [ho, hs] at h
      cases h
    | some sVerb =>
      by_cases hknown : ∃ v : Verb, sVerb = str v.name
      · obtain ⟨v, rfl⟩ := hknown
        have hbind : (unicode? (getItemString dict "Verb")).bind stdString = some (str v.name) := by
          rw [ho]
          exact hs
        rw [processOutbound_verb parameters m_PacketID hbind] at h
        cases ha : asked parameters m_PacketID dict v with
        | ok a => exact absurd ha (hno v a hbind)
        | error e =>
          rw [ha] at h
          cases e with
          | returned => exact (Option.some.inj h).symm
          | threw => cases h
      · rw [processOutbound_text ho hs,
          verbBranch_unknown _ _ _ fun v hv => hknown ⟨v, hv⟩] at h
        exact (Option.some.inj h).symm
  | _ =>
    unfold processOutbound at h
    simp only [ho] at h
    exact (Option.some.inj h).symm

/-- **What is sent is proper exactly for the requests that are met.** -/
theorem proper_iff (parameters : PyDict) (m_PacketID : ℤ) (dict : PyDict) :
    Proper parameters m_PacketID dict ↔ Met parameters m_PacketID dict := by
  constructor
  · exact met_of_proper
  · rintro ⟨hverb, hmet⟩
    constructor
    · intro v packet hv hsent hne
      have hbind := bind_of_hasVerb hv
      rw [processOutbound_verb parameters m_PacketID hbind] at hsent
      cases ha : asked parameters m_PacketID dict v with
      | error e =>
        rw [ha] at hsent
        cases e with
        | returned => exact absurd (Option.some.inj hsent).symm hne
        | threw => cases hsent
      | ok a =>
        rw [ha] at hsent
        obtain rfl := Option.some.inj hsent
        have hcarried := (carried_iff (asked_eq_ok ha).2).mpr (hmet v a hbind ha).2
        rw [← ha]
        exact (carried_of_asked ha).mp hcarried
    · intro hno packet hsent
      apply sent_eq_nil_of_unknown hverb _ hsent
      intro v a hbind ha
      exact hno v (hmet v a hbind ha).1

/-- A `PUBREL` is sent as `00 02 00 07`, a `DISCONNECT` as `E0 00 00`, and an empty dictionary
as `00`. -/
theorem release_and_disconnect_malformed :
    ¬ Proper [] 1 [(pyStr "Verb", .str (pyStr "PUBREL")), (pyStr "PacketIdentifier", .int 7)] ∧
      ¬ Proper [] 1 [(pyStr "Verb", .str (pyStr "DISCONNECT"))] ∧ ¬ Proper [] 1 [] := by
  refine ⟨?_, ?_, ?_⟩
  · intro h
    have ha : asked [] 1
        [(pyStr "Verb", .str (pyStr "PUBREL")), (pyStr "PacketIdentifier", .int 7)] .PUBREL =
          .ok (.pubrel 7) := rfl
    exact ((met_of_proper h).2 .PUBREL _ rfl ha).2
  · intro h
    exact ((met_of_proper h).2 .DISCONNECT .disconnect rfl rfl).2
  · intro h
    exact absurd (met_of_proper h).1 (by decide)

end Domoticz.Mqtt
