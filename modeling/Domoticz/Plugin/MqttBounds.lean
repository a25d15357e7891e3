import Domoticz.Plugin.MqttViolation

/-!
# The buffer of the MQTT protocol

`ProcessInbound` with its reads checked: those of the header and of the Remaining Length
against the end of the buffer, those of the fields of a packet against the end of the packet.
The code reads the header of a buffer that may be empty and a Remaining Length that may not
be there, and for a `SUBACK` and a `PUBLISH` it reads two bytes before it looks at the length.

## Main definitions

* `parsePacket?`, `readLength?`, `decodePacket?`, `processInbound?` — the functions, `none`
  where they read outside.
* `Inside` — the buffers that have all the bytes that are read of them.

## Main results

* `processInbound_of_some` — without a read outside it is the function of the model.
* `inside_iff` — **the reads are inside exactly for these buffers.**
* `suback_without_identifier` — a `SUBACK` of no bytes.
-/

namespace Domoticz.Mqtt

open CLib Stream

/-! ### Checked reads -/

/-- `std::string(&packet[it], len)`. -/
def substring? (packet : Bytes) (it len : ℕ) : Option Bytes :=
  if it + len ≤ packet.length then some ((packet.drop it).take len) else none

/-- `(*it++ << 8) + *it++`. -/
def number? (packet : Bytes) (it : ℕ) : Option ℕ :=
  packet[it]?.bind fun high => packet[it + 1]?.map fun low => number high low

/-- `parseAcknowledgement`, `none` at a read outside the packet. -/
def parseAcknowledgement? (verb : String) (flags : UInt8) (packet : Bytes) :
    Option (Option Dict) :=
  if flags ≠ 0 then some none
  else if packet.length = 2 then do
    let iPacketIdentifier ← number? packet 0
    return some [(str "Verb", .text (str verb)), (str "PacketIdentifier", .int iPacketIdentifier)]
  else some none

/-- `parseConnack`, `none` at a read outside the packet. -/
def parseConnack? (flags : UInt8) (packet : Bytes) : Option (Option Dict) :=
  if flags ≠ 0 then some none
  else if packet.length = 2 then do
    let first ← packet[0]?
    let status ← packet[1]?
    return some [(str "Verb", .text (str "CONNACK")),
      (str "Description", .text (connackDescription first)), (str "Status", .int status.toNat)]
  else some none

/-- The identifier is read in front of the checks. -/
def parseSuback? (flags : UInt8) (packet : Bytes) : Option (Option Dict) := do
  let iPacketIdentifier ← number? packet 0
  if flags ≠ 0 then return none
  else if 3 ≤ packet.length then
    return some [(str "Verb", .text (str "SUBACK")),
      (str "PacketIdentifier", .int iPacketIdentifier),
      (str "Topics", .list ((packet.drop 2).map subackTopic))]
  else return none

/-- What is read of a `PUBLISH` behind the topic. -/
def publishFields? (iQoS : UInt8) (packet : Bytes) (it : ℕ) : Option Dict :=
  if iQoS ≠ 0 then do
    let iPacketIdentifier ← number? packet it
    let sPayload ← substring? packet (it + 2) (packet.length - (it + 2))
    return [(str "PacketIdentifier", .int iPacketIdentifier), (str "Payload", .bytes sPayload)]
  else do
    let sPayload ← substring? packet it (packet.length - it)
    return [(str "Payload", .bytes sPayload)]

/-- The length of the topic is read in front of the check. -/
def parsePublish? (flags : UInt8) (packet : Bytes) : Option (Option Dict) := do
  let iQoS := (flags &&& 0x06) >>> 1
  let topicLen ← number? packet 0
  if packet.length < topicLen + 2 + (if iQoS ≠ 0 then 2 else 0) then return none
  else
    let sTopic ← substring? packet 2 topicLen
    let fields ← publishFields? iQoS packet (2 + topicLen)
    return some ([(str "Verb", .text (str "PUBLISH")),
      (str "DUP", .int ((flags &&& 0x08) >>> 3).toNat),
      (str "QoS", .int iQoS.toNat),
      (str "Retain", .bool (flags &&& 0x01 ≠ 0)),
      (str "Topic", .text sTopic)] ++ fields)

/-- The switch over the packet type. -/
def parsePacket? (header : UInt8) (packet : Bytes) : Option (Option Dict) :=
  let bResponseType := header &&& 0xF0
  let flags := header &&& 0x0F
  if bResponseType = MQTT_CONNACK then parseConnack? flags packet
  else if bResponseType = MQTT_SUBACK then parseSuback? flags packet
  else if bResponseType = MQTT_PUBACK then parseAcknowledgement? "PUBACK" flags packet
  else if bResponseType = MQTT_PUBREC then parseAcknowledgement? "PUBREC" flags packet
  else if bResponseType = MQTT_PUBCOMP then parseAcknowledgement? "PUBCOMP" flags packet
  else if bResponseType = MQTT_PUBLISH then parsePublish? flags packet
  else if bResponseType = MQTT_UNSUBACK then parseAcknowledgement? "UNSUBACK" flags packet
  else if bResponseType = MQTT_PINGRESP then some (parsePingresp flags packet)
  else some none

/-- The loop over the Remaining Length. -/
def readLength? (buf : Bytes) (passes it iRemainingLength multiplier : ℕ) :
    Option (Option (ℕ × ℕ)) :=
  match passes with
  | 0 => some none
  | passes + 1 => do
      let encodedByte ← buf[it]?
      let iRemainingLength := iRemainingLength + (encodedByte &&& 127).toNat * multiplier
      let multiplier := multiplier * 128
      if 128 * 128 * 128 < multiplier then return none
      else if encodedByte &&& 128 ≠ 0 then
        readLength? buf passes (it + 1) iRemainingLength multiplier
      else return some (iRemainingLength, it + 1)

/-- One pass of the loop over the retained data. -/
def decodePacket? (buf : Bytes) : Option (Option (Option Dict × Bytes)) := do
  let header ← buf[0]?
  match ← readLength? buf 4 1 0 1 with
  | none => return none
  | some (iRemainingLength, it) =>
      if (buf.length : ℤ) - it < iRemainingLength then return none
      else
        let pMqttDict ← parsePacket? header ((buf.drop it).take iRemainingLength)
        return some (pMqttDict, buf.drop (it + iRemainingLength))

/-! ### Where the reads are inside -/

/-- The types of packets that are read before their length is looked at have the two bytes
that are read. -/
def Fielded (header : UInt8) (body : Bytes) : Prop :=
  header &&& 0xF0 = 0x90 ∨ header &&& 0xF0 = 0x30 → 2 ≤ body.length

instance (header : UInt8) (body : Bytes) : Decidable (Fielded header body) :=
  inferInstanceAs (Decidable (_ → _))

theorem number?_eq {packet : Bytes} {it : ℕ} (h : it + 2 ≤ packet.length) :
    number? packet it = some (number (packet.getD it 0) (packet.getD (it + 1) 0)) := by
  have hhigh := getElem?_eq_byteAt (fun _ => 0) (show it < packet.length by omega)
  have hlow := getElem?_eq_byteAt (fun _ => 0) (show it + 1 < packet.length by omega)
  rw [number?, hhigh, hlow]
  rfl

theorem number?_eq_none {packet : Bytes} (h : packet.length < 2) : number? packet 0 = none := by
  have hlow : packet[1]? = none := List.getElem?_eq_none (by omega)
  rw [number?, hlow]
  cases packet[0]? with
  | none => rfl
  | some high => rfl

theorem substring?_eq {packet : Bytes} {it len : ℕ} (h : it + len ≤ packet.length) :
    substring? packet it len = some ((packet.drop it).take len) := if_pos h

theorem substring?_rest {packet : Bytes} {it : ℕ} (h : it ≤ packet.length) :
    substring? packet it (packet.length - it) = some (packet.drop it) := by
  rw [substring?_eq (by omega), List.take_of_length_le (by rw [List.length_drop])]

theorem parseAcknowledgement?_eq (verb : String) (flags : UInt8) (packet : Bytes) :
    parseAcknowledgement? verb flags packet = some (parseAcknowledgement verb flags packet) := by
  unfold parseAcknowledgement? parseAcknowledgement
  split
  · rfl
  · split
    · next h =>
      rw [number?_eq (by omega)]
      rfl
    · rfl

theorem parseConnack?_eq (flags : UInt8) (packet : Bytes) :
    parseConnack? flags packet = some (parseConnack flags packet) := by
  unfold parseConnack? parseConnack
  split
  · rfl
  · split
    · next h =>
      rw [getElem?_eq_byteAt (fun _ => 0) (show 0 < packet.length by omega),
        getElem?_eq_byteAt (fun _ => 0) (show 1 < packet.length by omega)]
      rfl
    · rfl

theorem parseSuback?_eq (flags : UInt8) {packet : Bytes} (h : 2 ≤ packet.length) :
    parseSuback? flags packet = some (parseSuback flags packet) := by
  unfold parseSuback? parseSuback
  rw [number?_eq h, Option.bind_eq_bind, Option.bind_some]
  split
  · rfl
  · split <;> rfl

theorem publishFields?_eq {iQoS : UInt8} {packet : Bytes} {it : ℕ}
    (h : it + (if iQoS ≠ 0 then 2 else 0) ≤ packet.length) : publishFields? iQoS packet it =
      some (if iQoS ≠ 0 then
        [(str "PacketIdentifier", .int (number (packet.getD it 0) (packet.getD (it + 1) 0))),
          (str "Payload", .bytes (packet.drop (it + 2)))]
      else [(str "Payload", .bytes (packet.drop it))]) := by
  unfold publishFields?
  by_cases hqos : iQoS ≠ 0
  · rw [if_pos hqos] at h
    rw [if_pos hqos, if_pos hqos, number?_eq h, substring?_rest h]
    rfl
  · rw [if_neg hqos, Nat.add_zero] at h
    rw [if_neg hqos, if_neg hqos, substring?_rest h]
    rfl

theorem parsePublish?_eq (flags : UInt8) {packet : Bytes} (h : 2 ≤ packet.length) :
    parsePublish? flags packet = some (parsePublish flags packet) := by
  unfold parsePublish? parsePublish
  rw [number?_eq h, Option.bind_eq_bind, Option.bind_some]
  simp only [Nat.zero_add]
  by_cases hlen : packet.length < number (packet.getD 0 0) (packet.getD 1 0) + 2 +
      (if (flags &&& 0x06) >>> 1 ≠ 0 then 2 else 0)
  · rw [if_pos hlen, if_pos hlen]
    rfl
  · rw [if_neg hlen, if_neg hlen, substring?_eq (by omega), publishFields?_eq (by omega)]
    rfl

/-- Of a packet that is read before its length is looked at, two bytes have to be there. -/
theorem parsePacket?_eq (header : UInt8) (packet : Bytes) : parsePacket? header packet =
    if Fielded header packet then some (parsePacket header packet) else none := by
  obtain ⟨h₁, h₂, h₃, h₄, h₅, h₆, h₇, h₈⟩ := types
  unfold parsePacket? parsePacket Fielded
  simp only [h₁, h₂, h₃, h₄, h₅, h₆, h₇, h₈, parseAcknowledgement?_eq, parseConnack?_eq]
  generalize header &&& 0xF0 = bResponseType
  generalize header &&& 0x0F = flags
  by_cases hsuback : bResponseType = 0x90
  · subst hsuback
    by_cases hlen : 2 ≤ packet.length
    · simp [hlen, parseSuback?_eq]
    · have hnone : parseSuback? flags packet = none := by
        rw [parseSuback?, number?_eq_none (not_le.mp hlen)]
        rfl
      simp [hlen, hnone]
  by_cases hpublish : bResponseType = 0x30
  · subst hpublish
    by_cases hlen : 2 ≤ packet.length
    · simp [hlen, parsePublish?_eq]
    · have hnone : parsePublish? flags packet = none := by
        rw [parsePublish?, number?_eq_none (not_le.mp hlen)]
        rfl
      simp [hlen, hnone]
  rw [if_pos (show _ → _ from fun h => absurd h (not_or.mpr ⟨hsuback, hpublish⟩))]
  simp only [if_neg hsuback, if_neg hpublish, apply_ite some]

theorem remaining_cons_incomplete_iff {passes : ℕ} {b : UInt8} {s : Bytes} :
    remaining (passes + 1) (b :: s) = .incomplete ↔
      ¬ b.toNat < 128 ∧ remaining passes s = .incomplete := by
  by_cases hb : b.toNat < 128
  · rw [remaining_cons_of_lt passes s hb]
    exact iff_of_false nofun fun h => h.1 hb
  · rw [remaining_cons_of_le passes s hb]
    cases hr : remaining passes s with
    | incomplete => exact iff_of_true rfl ⟨hb, rfl⟩
    | malformed => exact iff_of_false nofun fun h => by cases h.2
    | value n bytes => exact iff_of_false nofun fun h => by cases h.2

/-- Of a Remaining Length that has not arrived, a byte behind the end is read. -/
theorem readLength?_eq {buf : Bytes} (stray : ℕ → UInt8) {passes it len multiplier : ℕ}
    (hm : multiplier * 128 ^ passes = 128 ^ 4) : readLength? buf passes it len multiplier =
      if remaining passes (buf.drop it) = .incomplete then none
      else some (readLength (byteAt stray buf) passes it len multiplier) := by
  induction passes generalizing it len multiplier with
  | zero => rw [if_neg (by rw [remaining]; exact fun h => by cases h), readLength?, readLength]
  | succ passes ih =>
    have hm' : multiplier * 128 * 128 ^ passes = 128 ^ 4 := by
      rw [mul_assoc, ← pow_succ', hm]
    rw [readLength?, readLength]
    cases hd : buf.drop it with
    | nil =>
      rw [List.getElem?_eq_none (List.drop_eq_nil_iff.mp hd), remaining, if_pos rfl]
      rfl
    | cons b s =>
      have hlt : it < buf.length := by
        by_contra hge
        rw [List.drop_eq_nil_of_le (not_lt.mp hge)] at hd
        cases hd
      obtain ⟨hbyte, hs⟩ := byteAt_of_drop stray hd
      rw [getElem?_eq_byteAt stray hlt, hbyte, Option.bind_eq_bind, Option.bind_some]
      simp only
      simp only [remaining_cons_incomplete_iff]
      by_cases hb : b.toNat < 128
      · have hlast : ¬ b &&& 128 ≠ 0 := not_not.mpr ((and_128_eq_zero_iff b).mpr hb)
        have hread : ¬ (¬ b.toNat < 128 ∧ remaining passes s = .incomplete) := fun h => h.1 hb
        rw [if_neg hlast, if_neg hlast, if_neg hread]
        split <;> rfl
      · have hcontinued := mt (and_128_eq_zero_iff b).mp hb
        rw [if_pos hcontinued, if_pos hcontinued]
        by_cases hlast : passes = 0
        · subst hlast
          have hcheck := (multiplier_iff hm).mpr rfl
          have hread : ¬ (¬ b.toNat < 128 ∧ remaining 0 s = .incomplete) := fun h => by cases h.2
          rw [if_pos hcheck, if_pos hcheck, if_neg hread]
          rfl
        · have hcheck := mt (multiplier_iff hm).mp hlast
          simp only [if_neg hcheck, ih hm', hs, hb, not_false_eq_true, true_and]

/-! ### One pass -/

section Pass

variable {header : UInt8} {s : Bytes}

theorem readLength?_cons (header : UInt8) (s : Bytes) : readLength? (header :: s) 4 1 0 1 =
    if remaining 4 s = .incomplete then none
    else some (readLength (byteAt (fun _ => 0) (header :: s)) 4 1 0 1) :=
  readLength?_eq (fun _ => 0) (Nat.one_mul _)

theorem decodePacket?_incomplete (h : remaining 4 s = .incomplete) :
    decodePacket? (header :: s) = none := by
  have hheader : (header :: s)[0]? = some header := rfl
  rw [decodePacket?, hheader, readLength?_cons, if_pos h]
  rfl

theorem decodePacket?_malformed (h : remaining 4 s = .malformed ∨ ∃ n, remaining 4 s = .value n 4) :
    decodePacket? (header :: s) = some none := by
  have hne : remaining 4 s ≠ .incomplete := by
    rcases h with h | ⟨n, h⟩
    · rw [h]; exact nofun
    · rw [h]; exact nofun
  have hread : readLength (byteAt (fun _ => 0) (header :: s)) 4 1 0 1 = none :=
    readLength_none (fun _ => 0) (header :: s) (Nat.one_mul _) h
  have hheader : (header :: s)[0]? = some header := rfl
  rw [decodePacket?, hheader, readLength?_cons, if_neg hne, hread]
  rfl

theorem decodePacket?_value {n bytes : ℕ} (h : remaining 4 s = .value n bytes) (h4 : bytes ≠ 4) :
    decodePacket? (header :: s) =
      if s.length < bytes + n then some none
      else if Fielded header ((s.drop bytes).take n) then
        some (some (parsePacket header ((s.drop bytes).take n), s.drop (bytes + n)))
      else none := by
  have hheader : (header :: s)[0]? = some header := rfl
  obtain ⟨-, hle, hbytes⟩ := remaining_le h
  have hread : readLength (byteAt (fun _ => 0) (header :: s)) 4 1 0 1 = some (0 + n * 1, 1 + bytes) :=
    readLength_value (fun _ => 0) (header :: s) (Nat.one_mul _) h (by omega)
  have hdrop : (header :: s).drop (1 + bytes) = s.drop bytes := by
    rw [Nat.add_comm]
    rfl
  have hrest : (header :: s).drop (1 + bytes + n) = s.drop (bytes + n) := by
    rw [Nat.add_assoc, Nat.add_comm]
    rfl
  rw [Nat.zero_add, Nat.mul_one] at hread
  rw [decodePacket?, hheader, readLength?_cons, if_neg (by rw [h]; exact nofun), hread]
  simp only [Option.bind_eq_bind, Option.bind_some, List.length_cons, hdrop, hrest,
    parsePacket?_eq]
  by_cases hshort : s.length < bytes + n
  · rw [if_pos hshort, if_pos (by omega)]
    rfl
  · rw [if_neg hshort, if_neg (by omega)]
    split <;> rfl

end Pass

/-- A pass that does not read outside is that of the model. -/
theorem decodePacket_of_some (stray : ℕ → UInt8) {buf : Bytes} {r : Option (Option Dict × Bytes)}
    (h : decodePacket? buf = some r) : decodePacket stray buf = r := by
  cases buf with
  | nil => cases h
  | cons header s =>
    rw [decodePacket_eq_nextItem, nextItem]
    cases hr : remaining 4 s with
    | incomplete =>
      rw [decodePacket?_incomplete hr] at h
      cases h
    | malformed =>
      rw [decodePacket?_malformed (.inl hr)] at h
      cases h
      rfl
    | value n bytes =>
      simp only [List.length_drop]
      by_cases h4 : bytes = 4
      · subst h4
        rw [decodePacket?_malformed (.inr ⟨n, hr⟩)] at h
        cases h
        split <;> rfl
      · have hbytes := (remaining_le hr).2.2
        rw [decodePacket?_value hr h4] at h
        by_cases hshort : s.length < bytes + n
        · rw [if_pos hshort] at h
          cases h
          rw [if_pos (by omega)]
          rfl
        · obtain ⟨-, heq⟩ := Option.ite_none_right_eq_some.mp ((if_neg hshort).symm.trans h)
          cases heq
          rw [if_neg (by omega), takes, if_neg h4]

/-! ### The loop -/

/-- The loop over the retained data. -/
def processRetained? (buf : Bytes) : Option (Protocol × List PluginEvent) :=
  match h : decodePacket? buf with
  | none => none
  | some none => some (⟨buf, false⟩, [])
  | some (some (none, rest)) => some (⟨rest, true⟩, [])
  | some (some (some pMqttDict, rest)) =>
      if rest.isEmpty then some (⟨rest, false⟩, [.onMessage pMqttDict])
      else
        have := length_decodePacket (decodePacket_of_some (fun _ => 0) h)
        (processRetained? rest).map fun r => (r.1, .onMessage pMqttDict :: r.2)
termination_by buf.length

/-- `CPluginProtocolMQTT::ProcessInbound`. -/
def processInbound? (p : Protocol) (read : Bytes) : Option (Protocol × List PluginEvent) :=
  if p.m_bErrored then some (p, [])
  else (processRetained? (p.m_sRetainedData ++ read)).map fun r =>
    if r.1.m_bErrored then (r.1, r.2 ++ [.disconnected]) else r

/-- The packets for which the switch does not set `m_bErrored`. -/
def Accepted (header : UInt8) (body : Bytes) : Prop :=
  (PacketOk header body ∧ header ≠ 0x62) ∨ Unchecked header body

/-- The buffers that have all the bytes that are read of them. -/
inductive Inside : Bytes → Prop
  /-- A Remaining Length that takes four bytes or more. -/
  | malformed {header : UInt8} {s : Bytes} :
      (remaining 4 s = .malformed ∨ ∃ n, remaining 4 s = .value n 4) → Inside (header :: s)
  /-- A packet that has not arrived in full. -/
  | waiting {header : UInt8} {s : Bytes} {n bytes : ℕ} : remaining 4 s = .value n bytes →
      s.length < bytes + n → Inside (header :: s)
  /-- A packet, and if it is accepted whatever is behind it. -/
  | packet {header : UInt8} {s : Bytes} {n bytes : ℕ} : remaining 4 s = .value n bytes →
      bytes + n ≤ s.length → Fielded header ((s.drop bytes).take n) →
      (Accepted header ((s.drop bytes).take n) → s.drop (bytes + n) ≠ [] →
        Inside (s.drop (bytes + n))) →
      Inside (header :: s)

theorem processRetained?_eq (buf : Bytes) : processRetained? buf = match decodePacket? buf with
    | none => none
    | some none => some (⟨buf, false⟩, [])
    | some (some (none, rest)) => some (⟨rest, true⟩, [])
    | some (some (some pMqttDict, rest)) =>
        if rest.isEmpty then some (⟨rest, false⟩, [.onMessage pMqttDict])
        else (processRetained? rest).map fun r => (r.1, .onMessage pMqttDict :: r.2) := by
  rw [processRetained?]
  split
  · next h => rw [h]
  · next h => rw [h]
  · next h => rw [h]
  · next h => simp only [h]

theorem processRetained_eq (stray : ℕ → UInt8) (buf : Bytes) :
    processRetained stray buf = match decodePacket stray buf with
      | none => (⟨buf, false⟩, [])
      | some (none, rest) => (⟨rest, true⟩, [])
      | some (some pMqttDict, rest) =>
          if rest.isEmpty then (⟨rest, false⟩, [.onMessage pMqttDict])
          else ((processRetained stray rest).1,
            .onMessage pMqttDict :: (processRetained stray rest).2) := by
  rw [processRetained]
  split
  · next h => rw [h]
  · next h => rw [h]
  · next h => simp only [h]

/-- Without a read outside the loop is that of the model. -/
theorem processRetained_of_some (stray : ℕ → UInt8) {buf : Bytes} {r : Protocol × List PluginEvent}
    (h : processRetained? buf = some r) : processRetained stray buf = r := by
  induction hn : buf.length using Nat.strong_induction_on generalizing buf r with
  | _ n ih =>
    rw [processRetained?_eq] at h
    cases hpass : decodePacket? buf with
    | none =>
      rw [hpass] at h
      cases h
    | some o =>
      have hmodel := decodePacket_of_some stray hpass
      rw [hpass] at h
      rw [processRetained_eq, hmodel]
      rcases o with _ | ⟨_ | pMqttDict, rest⟩
      · cases h
        rfl
      · cases h
        rfl
      · simp only at h ⊢
        split at h
        · next hempty =>
          cases h
          rw [if_pos hempty]
        · next hempty =>
          obtain ⟨r', hr', rfl⟩ := Option.map_eq_some_iff.mp h
          have hlt := length_decodePacket hmodel
          rw [if_neg hempty, ih rest.length (hn ▸ hlt) hr' rfl]

theorem inside_cons_iff {header : UInt8} {s : Bytes} {n bytes : ℕ}
    (h : remaining 4 s = .value n bytes) (h4 : bytes ≠ 4) : Inside (header :: s) ↔
      s.length < bytes + n ∨ Fielded header ((s.drop bytes).take n) ∧
        (Accepted header ((s.drop bytes).take n) → s.drop (bytes + n) ≠ [] →
          Inside (s.drop (bytes + n))) := by
  constructor
  · intro hinside
    cases hinside with
    | malformed hr =>
      rw [h] at hr
      rcases hr with hr | ⟨n', hr⟩
      · cases hr
      · cases hr
        exact absurd rfl h4
    | waiting hr hshort =>
      rw [h] at hr
      cases hr
      exact .inl hshort
    | packet hr hlen hfields hrest =>
      rw [h] at hr
      cases hr
      exact .inr ⟨hfields, hrest⟩
  · intro hcases
    by_cases hshort : s.length < bytes + n
    · exact .waiting h hshort
    · obtain ⟨hfields, hrest⟩ := hcases.resolve_left hshort
      exact .packet h (not_lt.mp hshort) hfields hrest

/-- The induction is on the length of what is left. -/
theorem processRetained?_ne_none_iff (buf : Bytes) : processRetained? buf ≠ none ↔ Inside buf := by
  induction hn : buf.length using Nat.strong_induction_on generalizing buf with
  | _ n ih =>
    rw [processRetained?_eq]
    cases buf with
    | nil => exact iff_of_false (fun h => h rfl) nofun
    | cons header s =>
      cases hr : remaining 4 s with
      | incomplete =>
        -- the length is read past the end of the buffer
        rw [decodePacket?_incomplete hr]
        refine iff_of_false (fun h => h rfl) fun h => ?_
        cases h with
        | malformed h =>
          rw [hr] at h
          rcases h with h | ⟨n, h⟩
          · cases h
          · cases h
        | waiting h =>
          rw [hr] at h
          cases h
        | packet h =>
          rw [hr] at h
          cases h
      | malformed =>
        rw [decodePacket?_malformed (.inl hr)]
        exact iff_of_true (Option.some_ne_none _) (.malformed (.inl hr))
      | value len bytes =>
        by_cases h4 : bytes = 4
        · subst h4
          rw [decodePacket?_malformed (.inr ⟨len, hr⟩)]
          exact iff_of_true (Option.some_ne_none _) (.malformed (.inr ⟨len, hr⟩))
        · rw [inside_cons_iff hr h4, decodePacket?_value hr h4]
          by_cases hshort : s.length < bytes + len
          · rw [if_pos hshort]
            exact iff_of_true (Option.some_ne_none _) (.inl hshort)
          rw [if_neg hshort]
          by_cases hfields : Fielded header ((s.drop bytes).take len)
          · rw [if_pos hfields]
            simp only [hshort, hfields, false_or, true_and]
            have hlt : (s.drop (bytes + len)).length < n := by
              rw [← hn, List.length_drop, List.length_cons]
              omega
            -- the packets behind this one
            have hrest := ih _ hlt (s.drop (bytes + len)) rfl
            have haccepted := parsePacket_isSome_iff header ((s.drop bytes).take len)
            cases hparse : parsePacket header ((s.drop bytes).take len) with
            | none =>
              rw [hparse] at haccepted
              refine iff_of_true (Option.some_ne_none _) fun h => ?_
              cases haccepted.mpr h
            | some pMqttDict =>
              rw [hparse] at haccepted
              simp only
              split
              · next hempty =>
                refine iff_of_true (Option.some_ne_none _) fun _ hne => ?_
                exact absurd (List.isEmpty_iff.mp hempty) hne
              · next hempty =>
                rw [Ne, Option.map_eq_none_iff, ← Ne, hrest]
                refine ⟨fun h _ _ => h, fun h => h (haccepted.mp rfl) fun hnil => ?_⟩
                exact hempty (List.isEmpty_iff.mpr hnil)
          · rw [if_neg hfields]
            refine iff_of_false (fun h => h rfl) fun h => ?_
            rcases h with h | h
            · exact hshort h
            · exact hfields h.1

/-- Without a read outside the function is that of the model. -/
theorem processInbound_of_some (stray : ℕ → UInt8) {p : Protocol} {read : Bytes}
    {r : Protocol × List PluginEvent} (h : processInbound? p read = some r) :
    processInbound stray p read = r := by
  unfold processInbound? at h
  unfold processInbound
  split at h
  · next herrored =>
    cases h
    rw [if_pos herrored]
  · next herrored =>
    obtain ⟨r', hr', rfl⟩ := Option.map_eq_some_iff.mp h
    rw [if_neg herrored, processRetained_of_some stray hr']

/-- Every read is inside of the buffer, and of a packet inside of the packet, if and only if the
protocol is in error or the buffer has all that is read of it. -/
theorem inside_iff (p : Protocol) (read : Bytes) : processInbound? p read ≠ none ↔
    p.m_bErrored = true ∨ Inside (p.m_sRetainedData ++ read) := by
  rw [← processRetained?_ne_none_iff, processInbound?]
  cases p.m_bErrored with
  | true => exact iff_of_true (Option.some_ne_none _) (.inl rfl)
  | false =>
    rw [if_neg Bool.false_ne_true, Ne, Option.map_eq_none_iff, ← Ne]
    exact (or_iff_right Bool.false_ne_true).symm

/-- Of a `SUBACK` of no bytes an identifier is read. -/
theorem suback_without_identifier :
    ¬ ∀ (p : Protocol) (read : Bytes), processInbound? p read ≠ none := by
  intro h
  have hpass : decodePacket? [0x90, 0] = none := rfl
  have hloop : processRetained? [0x90, 0] = none := by rw [processRetained?_eq, hpass]
  apply h {} [0x90, 0]
  show (processRetained? [0x90, 0]).map _ = none
  rw [hloop, Option.map_none]

end Domoticz.Mqtt
