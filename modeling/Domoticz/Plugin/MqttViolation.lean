import Domoticz.Plugin.Mqtt

/-!
# Violations of the MQTT protocol

The control packets of a byte stream by the rules of MQTT 3.1.1, and the first of them
that a server must not send.  There the plugin is to be disconnected; the code does so for
what its switch checks.  It returns without a mark where a Remaining Length takes four
bytes, it takes `PUBREL` for a violation, of a `PUBLISH` it checks nothing but the length, and
with a topic that is not UTF-8 the process ends.

## Main definitions

* `remaining`, `nextItem`, `items` — the control packets of a stream, by the rules.
* `Violates` — what a server must not send.
* `Conforms` — disconnected at the first violation, and only there.
* `Kept` — the streams for which that is so.

## Main results

* `decodePacket_eq_nextItem` — what the code makes of each control packet.
* `parsePacket_isSome_iff` — the packets that are delivered.
* `conforms_iff` — **the code conforms exactly on the streams that are kept.**
* `malformed_length_ignored` — a malformed Remaining Length.
-/

namespace Domoticz.Mqtt

open CLib Stream

/-! ### The control packets of a stream -/

/-- A Remaining Length at the front of some bytes. -/
inductive Remaining
  | incomplete
  | malformed
  /-- A number in so many bytes. -/
  | value (n bytes : ℕ)
  deriving DecidableEq

/-- Groups of seven bits, the lowest first, up to a byte without the continuation bit. -/
def remaining : ℕ → Bytes → Remaining
  | 0, _ => .malformed
  | _ + 1, [] => .incomplete
  | passes + 1, b :: s =>
      if b.toNat < 128 then .value b.toNat 1
      else match remaining passes s with
        | .value n bytes => .value (b.toNat - 128 + 128 * n) (bytes + 1)
        | r => r

/-- A control packet, or a Remaining Length of more than four bytes. -/
inductive Item
  | malformed
  | packet (header : UInt8) (lengthBytes : ℕ) (body : Bytes)

/-- The first control packet, once it is complete. -/
def nextItem : Bytes → Option (Item × Bytes)
  | [] => none
  | header :: s => match remaining 4 s with
      | .incomplete => none
      | .malformed => some (.malformed, s.drop 4)
      | .value n bytes =>
          if (s.drop bytes).length < n then none
          else some (.packet header bytes ((s.drop bytes).take n), s.drop (bytes + n))

theorem remaining_le {passes n bytes : ℕ} {s : Bytes} (h : remaining passes s = .value n bytes) :
    0 < bytes ∧ bytes ≤ passes ∧ bytes ≤ s.length := by
  induction passes generalizing s n bytes with
  | zero => cases h
  | succ passes ih =>
    cases s with
    | nil => cases h
    | cons b s =>
      rw [remaining] at h
      split at h
      · cases h
        simp
      · cases hr : remaining passes s with
        | value n' bytes' =>
          rw [hr] at h
          cases h
          obtain ⟨-, h₂, h₃⟩ := ih hr
          exact ⟨Nat.succ_pos _, Nat.succ_le_succ h₂, Nat.succ_le_succ h₃⟩
        | incomplete => rw [hr] at h; cases h
        | malformed => rw [hr] at h; cases h

theorem length_of_malformed {passes : ℕ} {s : Bytes} (h : remaining passes s = .malformed) :
    passes ≤ s.length := by
  induction passes generalizing s with
  | zero => exact Nat.zero_le _
  | succ passes ih =>
    cases s with
    | nil => cases h
    | cons b s =>
      rw [remaining] at h
      split at h
      · cases h
      · cases hr : remaining passes s with
        | malformed => exact Nat.succ_le_succ (ih hr)
        | value n bytes => rw [hr] at h; cases h
        | incomplete => rw [hr] at h; cases h

/-- What has been read of a Remaining Length does not change. -/
theorem remaining_append {passes : ℕ} {s : Bytes} (h : remaining passes s ≠ .incomplete)
    (more : Bytes) : remaining passes (s ++ more) = remaining passes s := by
  induction passes generalizing s with
  | zero => rfl
  | succ passes ih =>
    cases s with
    | nil => exact absurd rfl h
    | cons b s =>
      rw [List.cons_append, remaining, remaining]
      by_cases hb : b.toNat < 128
      · rw [if_pos hb, if_pos hb]
      · rw [if_neg hb, if_neg hb, ih]
        intro hr
        rw [remaining, if_neg hb, hr] at h
        exact h rfl

theorem nextItem_shorter {buf rest : Bytes} {i : Item} (h : nextItem buf = some (i, rest)) :
    rest.length < buf.length := by
  cases buf with
  | nil => cases h
  | cons header s =>
    rw [nextItem] at h
    cases hr : remaining 4 s with
    | incomplete => rw [hr] at h; cases h
    | malformed =>
      rw [hr] at h
      cases h
      rw [List.length_drop, List.length_cons]
      omega
    | value n bytes =>
      simp only [hr] at h
      split at h
      · cases h
      · cases h
        rw [List.length_drop, List.length_cons]
        omega

theorem nextItem_stable {buf rest : Bytes} {i : Item} (h : nextItem buf = some (i, rest))
    (more : Bytes) : nextItem (buf ++ more) = some (i, rest ++ more) := by
  cases buf with
  | nil => cases h
  | cons header s =>
    rw [nextItem] at h
    rw [List.cons_append, nextItem]
    cases hr : remaining 4 s with
    | incomplete => rw [hr] at h; cases h
    | malformed =>
      rw [hr] at h
      cases h
      rw [remaining_append (by rw [hr]; exact nofun), hr,
        List.drop_append_of_le_length (length_of_malformed hr)]
    | value n bytes =>
      obtain ⟨-, -, hbytes⟩ := remaining_le hr
      simp only [hr] at h
      rw [remaining_append (by rw [hr]; exact nofun), hr]
      simp only
      split at h
      · cases h
      · next hlen =>
        rw [List.length_drop] at hlen
        cases h
        rw [if_neg (by rw [List.length_drop, List.length_append]; omega),
          List.drop_append_of_le_length hbytes, List.drop_append_of_le_length (by omega),
          List.take_append_of_le_length (by rw [List.length_drop]; omega)]

/-- The control packets as a decoder; behind a malformed length there are none. -/
def control : Decoder UInt8 Item where
  next := nextItem
  halts
    | .malformed => true
    | .packet _ _ _ => false
  shorter := nextItem_shorter
  stable := nextItem_stable

/-- The control packets of a stream. -/
def items (stream : Bytes) : List Item := (drain control stream).2

/-! ### What a server may send -/

/-- A `PUBLISH` that is long enough for its topic and its identifier. -/
def LongEnough (flags : UInt8) (body : Bytes) : Prop :=
  number (body.getD 0 0) (body.getD 1 0) + 2 + (if (flags &&& 0x06) >>> 1 ≠ 0 then 2 else 0) ≤
    body.length

/-- A `PUBLISH`: the quality of service is 0, 1 or 2, a message of quality 0 is no duplicate,
and there is a topic of at least one byte, and an identifier where one belongs. -/
structure PublishOk (flags : UInt8) (body : Bytes) : Prop where
  qos : (flags &&& 0x06) >>> 1 ≠ 3
  dup : (flags &&& 0x06) >>> 1 = 0 → flags &&& 0x08 = 0
  topic : 0 < number (body.getD 0 0) (body.getD 1 0)
  long : LongEnough flags body

/-- The packets of a server: their first byte and what its type demands of the rest. -/
def PacketOk (header : UInt8) (body : Bytes) : Prop :=
  (header ∈ ([0x20, 0x40, 0x50, 0x62, 0x70, 0xB0] : Bytes) ∧ body.length = 2) ∨
    (header = 0x90 ∧ 3 ≤ body.length) ∨ (header = 0xD0 ∧ body = []) ∨
    (header &&& 0xF0 = 0x30 ∧ PublishOk (header &&& 0x0F) body)

/-- A violation of the protocol. -/
def Violates : Item → Prop
  | .malformed => True
  | .packet header _ body => ¬ PacketOk header body

/-- What is to become of some control packets: at the first violation the connection is marked as
in error and disconnected, once, and nothing is delivered from there on; without a violation it
is not marked. -/
structure ConformsTo (items : List Item) (m_bErrored : Bool) (events : List PluginEvent) : Prop where
  caught : ∀ done i more, items = done ++ i :: more → (∀ j ∈ done, ¬ Violates j) → Violates i →
    m_bErrored = true ∧ ∃ messages : List Dict,
      events = messages.map PluginEvent.onMessage ++ [.disconnected] ∧
        messages.length = done.length
  unmarked : (∀ i ∈ items, ¬ Violates i) → m_bErrored = false

/-- The reads of a connection are handled as the protocol demands.  A process that has ended
marks nothing. -/
def Conforms (stray : ℕ → UInt8) (reads : List Bytes) : Prop :=
  ConformsTo (items reads.flatten) ((receive stray {} reads).1.any Protocol.m_bErrored)
    (receive stray {} reads).2

/-! ### Where the code conforms -/

/-- A `PUBLISH` of which the code checks nothing more. -/
def Unchecked (header : UInt8) (body : Bytes) : Prop :=
  header &&& 0xF0 = 0x30 ∧ LongEnough (header &&& 0x0F) body

/-- The topic of a packet is UTF-8, if it is a `PUBLISH`. -/
def TopicUTF8 (header : UInt8) (body : Bytes) : Prop :=
  header &&& 0xF0 = 0x30 →
    isUTF8 ((body.drop 2).take (number (body.getD 0 0) (body.getD 1 0))) = true

/-- The control packets up to the first violation do not take the code off its way. -/
inductive Kept : List Item → Prop
  | nil : Kept []
  /-- A violation that the switch checks, behind a Remaining Length that is read. -/
  | violation {header : UInt8} {lengthBytes : ℕ} {body : Bytes} {more : List Item} :
      ¬ PacketOk header body → lengthBytes ≠ 4 → ¬ Unchecked header body →
      Kept (.packet header lengthBytes body :: more)
  /-- A packet other than `PUBREL`, with a topic that is UTF-8 if it has one. -/
  | packet {header : UInt8} {lengthBytes : ℕ} {body : Bytes} {more : List Item} :
      PacketOk header body → lengthBytes ≠ 4 → header ≠ 0x62 → TopicUTF8 header body →
      Kept more → Kept (.packet header lengthBytes body :: more)
  /-- A packet with a topic that is not UTF-8, where nothing follows that is to be noticed. -/
  | topic {header : UInt8} {lengthBytes : ℕ} {body : Bytes} {more : List Item} :
      PacketOk header body → ¬ TopicUTF8 header body → (∀ i ∈ more, ¬ Violates i) →
      Kept (.packet header lengthBytes body :: more)
  /-- A packet with a Remaining Length of four bytes, where nothing follows that is to be
  noticed. -/
  | large {header : UInt8} {body : Bytes} {more : List Item} : PacketOk header body →
      (∀ i ∈ more, ¬ Violates i) → Kept (.packet header 4 body :: more)

/-! ### What the switch checks -/

theorem nibbles (header : UInt8) : (header &&& 0xF0) ||| (header &&& 0x0F) = header := by
  apply UInt8.toBitVec_inj.mp
  have hor : (240#8 ||| 15#8) = BitVec.allOnes 8 := by decide
  show header.toBitVec &&& 240#8 ||| header.toBitVec &&& 15#8 = header.toBitVec
  rw [← BitVec.and_or_distrib_left, hor, BitVec.and_allOnes]

/-- A first byte with no flags. -/
theorem header_eq_iff (header : UInt8) {t : UInt8} (ht : t &&& 0xF0 = t ∧ t &&& 0x0F = 0) :
    header = t ↔ header &&& 0xF0 = t ∧ header &&& 0x0F = 0 := by
  constructor
  · rintro rfl
    exact ht
  · rintro ⟨htype, hflags⟩
    rw [← nibbles header, htype, hflags]
    exact UInt8.or_zero

/-- Two checks in front of a result. -/
theorem isSome_checked {α : Type} (p q : Prop) [Decidable p] [Decidable q] (a : α) :
    (if ¬ p then none else if q then some a else none).isSome ↔ p ∧ q := by
  by_cases hp : p
  · by_cases hq : q
    · simp [hp, hq]
    · simp [hp, hq]
  · simp [hp]

theorem parsePublish_isSome_iff (flags : UInt8) (body : Bytes) :
    (parsePublish flags body).isSome ↔ LongEnough flags body := by
  unfold parsePublish LongEnough
  simp only
  rw [← not_lt]
  by_cases h : body.length < number (body.getD 0 0) (body.getD 1 0) + 2 +
      (if (flags &&& 0x06) >>> 1 ≠ 0 then 2 else 0)
  · rw [if_pos h]
    exact iff_of_false Bool.false_ne_true (not_not.mpr h)
  · rw [if_neg h]
    exact iff_of_true rfl h

theorem parseAcknowledgement_isSome_iff (verb : String) (flags : UInt8) (body : Bytes) :
    (parseAcknowledgement verb flags body).isSome ↔ flags = 0 ∧ body.length = 2 :=
  isSome_checked ..

theorem parseConnack_isSome_iff (flags : UInt8) (body : Bytes) :
    (parseConnack flags body).isSome ↔ flags = 0 ∧ body.length = 2 :=
  isSome_checked ..

theorem parseSuback_isSome_iff (flags : UInt8) (body : Bytes) :
    (parseSuback flags body).isSome ↔ flags = 0 ∧ 3 ≤ body.length :=
  isSome_checked ..

theorem parsePingresp_isSome_iff (flags : UInt8) (body : Bytes) :
    (parsePingresp flags body).isSome ↔ flags = 0 ∧ body = [] := by
  unfold parsePingresp
  by_cases hf : flags = 0
  · by_cases hb : body = []
    · simp [hf, hb]
    · simp [hf, hb]
  · simp [hf]

/-- The types of the switch. -/
theorem types : MQTT_CONNACK = 0x20 ∧ MQTT_PUBLISH = 0x30 ∧ MQTT_PUBACK = 0x40 ∧
    MQTT_PUBREC = 0x50 ∧ MQTT_PUBCOMP = 0x70 ∧ MQTT_SUBACK = 0x90 ∧ MQTT_UNSUBACK = 0xB0 ∧
    MQTT_PINGRESP = 0xD0 := by decide

/-- The packets that are delivered, by type and flags. -/
theorem parsePacket_isSome (header : UInt8) (body : Bytes) :
    (parsePacket header body).isSome ↔
      (header ∈ ([0x20, 0x40, 0x50, 0x70, 0xB0] : Bytes) ∧ body.length = 2) ∨
        (header = 0x90 ∧ 3 ≤ body.length) ∨ (header = 0xD0 ∧ body = []) ∨
        Unchecked header body := by
  obtain ⟨h₁, h₂, h₃, h₄, h₅, h₆, h₇, h₈⟩ := types
  simp only [List.mem_cons, List.not_mem_nil, or_false,
    header_eq_iff header (t := 0x20) (by decide), header_eq_iff header (t := 0x40) (by decide),
    header_eq_iff header (t := 0x50) (by decide), header_eq_iff header (t := 0x70) (by decide),
    header_eq_iff header (t := 0xB0) (by decide), header_eq_iff header (t := 0x90) (by decide),
    header_eq_iff header (t := 0xD0) (by decide)]
  unfold parsePacket Unchecked
  simp only [h₁, h₂, h₃, h₄, h₅, h₆, h₇, h₈]
  generalize header &&& 0xF0 = bResponseType
  generalize header &&& 0x0F = flags
  by_cases hconnack : bResponseType = 0x20
  · subst hconnack
    simp [parseConnack_isSome_iff]
  by_cases hsuback : bResponseType = 0x90
  · subst hsuback
    simp [parseSuback_isSome_iff]
  by_cases hpuback : bResponseType = 0x40
  · subst hpuback
    simp [parseAcknowledgement_isSome_iff]
  by_cases hpubrec : bResponseType = 0x50
  · subst hpubrec
    simp [parseAcknowledgement_isSome_iff]
  by_cases hpubcomp : bResponseType = 0x70
  · subst hpubcomp
    simp [parseAcknowledgement_isSome_iff]
  by_cases hpublish : bResponseType = 0x30
  · subst hpublish
    simp [parsePublish_isSome_iff]
  by_cases hunsuback : bResponseType = 0xB0
  · subst hunsuback
    simp [parseAcknowledgement_isSome_iff]
  by_cases hpingresp : bResponseType = 0xD0
  · subst hpingresp
    simp [parsePingresp_isSome_iff]
  simp [hconnack, hsuback, hpuback, hpubrec, hpubcomp, hpublish, hunsuback, hpingresp]

/-- What is delivered is what a server may send, but for `PUBREL`, and every `PUBLISH` that is
long enough. -/
theorem parsePacket_isSome_iff (header : UInt8) (body : Bytes) :
    (parsePacket header body).isSome ↔ (PacketOk header body ∧ header ≠ 0x62) ∨
      Unchecked header body := by
  rw [parsePacket_isSome]
  unfold PacketOk
  simp only [List.mem_cons, List.not_mem_nil, or_false]
  constructor
  · rintro (⟨h, hlen⟩ | ⟨rfl, hlen⟩ | ⟨rfl, hnil⟩ | h)
    · refine .inl ⟨.inl ⟨?_, hlen⟩, ?_⟩
      · rcases h with h | h | h | h | h
        · exact .inl h
        · exact .inr (.inl h)
        · exact .inr (.inr (.inl h))
        · exact .inr (.inr (.inr (.inr (.inl h))))
        · exact .inr (.inr (.inr (.inr (.inr h))))
      · rcases h with rfl | rfl | rfl | rfl | rfl
        · decide
        · decide
        · decide
        · decide
        · decide
    · exact .inl ⟨.inr (.inl ⟨rfl, hlen⟩), by decide⟩
    · exact .inl ⟨.inr (.inr (.inl ⟨rfl, hnil⟩)), by decide⟩
    · exact .inr h
  · rintro (⟨⟨h, hlen⟩ | h | h | ⟨htype, hpublish⟩, hrel⟩ | h)
    · refine .inl ⟨?_, hlen⟩
      rcases h with h | h | h | h | h | h
      · exact .inl h
      · exact .inr (.inl h)
      · exact .inr (.inr (.inl h))
      · exact absurd h hrel
      · exact .inr (.inr (.inr (.inl h)))
      · exact .inr (.inr (.inr (.inr h)))
    · exact .inr (.inl h)
    · exact .inr (.inr (.inl h))
    · exact .inr (.inr (.inr ⟨htype, hpublish.long⟩))
    · exact .inr (.inr (.inr h))

theorem ends_of_lookup {data : Dict} (h : data.lookup (str "Topic") = none) :
    ends (.onMessage data) = false := by
  rw [ends, h]
  rfl

theorem ends_parseAcknowledgement {verb : String} {flags : UInt8} {body : Bytes} {data : Dict}
    (h : parseAcknowledgement verb flags body = some data) : ends (.onMessage data) = false := by
  rw [parseAcknowledgement, ite_not] at h
  obtain ⟨-, h⟩ := Option.ite_none_right_eq_some.mp h
  obtain ⟨-, heq⟩ := Option.ite_none_right_eq_some.mp h
  cases heq
  exact ends_of_lookup rfl

/-- A message without a topic. -/
theorem ends_of_ne_publish {header : UInt8} {body : Bytes} {data : Dict}
    (h : parsePacket header body = some data) (htype : header &&& 0xF0 ≠ 0x30) :
    ends (.onMessage data) = false := by
  have hpublish : header &&& 0xF0 ≠ MQTT_PUBLISH := htype
  unfold parsePacket at h
  simp only [hpublish, if_false] at h
  split at h
  · rw [parseConnack, ite_not] at h
    obtain ⟨-, h⟩ := Option.ite_none_right_eq_some.mp h
    obtain ⟨-, heq⟩ := Option.ite_none_right_eq_some.mp h
    cases heq
    exact ends_of_lookup rfl
  split at h
  · rw [parseSuback, ite_not] at h
    obtain ⟨-, h⟩ := Option.ite_none_right_eq_some.mp h
    obtain ⟨-, heq⟩ := Option.ite_none_right_eq_some.mp h
    cases heq
    exact ends_of_lookup rfl
  split at h
  · exact ends_parseAcknowledgement h
  split at h
  · exact ends_parseAcknowledgement h
  split at h
  · exact ends_parseAcknowledgement h
  split at h
  · exact ends_parseAcknowledgement h
  split at h
  · rw [parsePingresp, ite_not, ite_not] at h
    obtain ⟨-, h⟩ := Option.ite_none_right_eq_some.mp h
    obtain ⟨-, heq⟩ := Option.ite_none_right_eq_some.mp h
    cases heq
    exact ends_of_lookup rfl
  · cases h

/-- The topic is the only text of a message that may not be made. -/
theorem ends_iff {header : UInt8} {body : Bytes} {data : Dict}
    (h : parsePacket header body = some data) :
    ends (.onMessage data) = true ↔ ¬ TopicUTF8 header body := by
  by_cases htype : header &&& 0xF0 = 0x30
  · have hpublish : parsePacket header body = parsePublish (header &&& 0x0F) body := by
      unfold parsePacket
      rw [htype]
      rfl
    rw [hpublish, parsePublish] at h
    obtain ⟨-, heq⟩ := Option.ite_none_left_eq_some.mp h
    cases heq
    rw [TopicUTF8, Classical.not_imp, Bool.not_eq_true, and_iff_right htype]
    show (!isUTF8 _) = true ↔ _
    rw [Bool.not_eq_true']
  · rw [ends_of_ne_publish h htype]
    exact iff_of_false Bool.false_ne_true (not_not.mpr fun htype' => absurd htype' htype)

/-! ### The loop over the Remaining Length -/

/-- In the pass `4 - passes` the check of the multiplier fails exactly if it is the last. -/
theorem multiplier_iff {passes multiplier : ℕ} (h : multiplier * 128 ^ (passes + 1) = 128 ^ 4) :
    128 * 128 * 128 < multiplier * 128 ↔ passes = 0 := by
  have hpow : multiplier * 128 * 128 ^ passes = 128 * 128 * 128 * 128 := by
    rw [mul_assoc, ← pow_succ', h]
    rfl
  cases passes with
  | zero =>
    rw [pow_zero, mul_one] at hpow
    rw [hpow]
    decide
  | succ passes =>
    refine iff_of_false (fun hlt => ?_) (Nat.succ_ne_zero _)
    have hle : 128 ≤ 128 ^ (passes + 1) := Nat.le_self_pow (Nat.succ_ne_zero _) 128
    have hlt' := Nat.mul_lt_mul_of_lt_of_le hlt hle (by omega)
    rw [hpow] at hlt'
    exact lt_irrefl _ hlt'

theorem remaining_cons_of_lt (passes : ℕ) {b : UInt8} (s : Bytes) (h : b.toNat < 128) :
    remaining (passes + 1) (b :: s) = .value b.toNat 1 := if_pos h

theorem remaining_cons_of_le (passes : ℕ) {b : UInt8} (s : Bytes) (h : ¬ b.toNat < 128) :
    remaining (passes + 1) (b :: s) = match remaining passes s with
      | .value n bytes => .value (b.toNat - 128 + 128 * n) (bytes + 1)
      | r => r := if_neg h

section Loop

variable (stray : ℕ → UInt8) (buf : Bytes)

/-- A number in fewer bytes than there are passes is read. -/
theorem readLength_value {passes it len multiplier n bytes : ℕ}
    (hm : multiplier * 128 ^ passes = 128 ^ 4)
    (h : remaining passes (buf.drop it) = .value n bytes) (hlt : bytes < passes) :
    readLength (byteAt stray buf) passes it len multiplier =
      some (len + n * multiplier, it + bytes) := by
  induction passes generalizing it len multiplier n bytes with
  | zero => exact absurd hlt (Nat.not_lt_zero _)
  | succ passes ih =>
    have hpos : passes ≠ 0 := by
      have hb := (remaining_le h).1
      omega
    rw [readLength]
    simp only [if_neg (mt (multiplier_iff hm).mp hpos)]
    cases hd : buf.drop it with
    | nil => rw [hd] at h; cases h
    | cons b s =>
      rw [hd] at h
      obtain ⟨hbyte, hs⟩ := byteAt_of_drop stray hd
      rw [hbyte, toNat_and_127]
      by_cases hb : b.toNat < 128
      · rw [remaining_cons_of_lt passes s hb] at h
        cases h
        rw [if_neg (not_not.mpr ((and_128_eq_zero_iff b).mpr hb)), Nat.mod_eq_of_lt hb]
      · rw [remaining_cons_of_le passes s hb] at h
        rw [if_pos (mt (and_128_eq_zero_iff b).mp hb)]
        cases hr : remaining passes s with
        | incomplete => rw [hr] at h; cases h
        | malformed => rw [hr] at h; cases h
        | value n' bytes' =>
          rw [hr] at h
          cases h
          have hmod : b.toNat % 128 = b.toNat - 128 := by
            have := b.toNat_lt
            omega
          have hm' : multiplier * 128 * 128 ^ passes = 128 ^ 4 := by
            rw [mul_assoc, ← pow_succ', hm]
          rw [ih hm' (hs.symm ▸ hr) (Nat.lt_of_succ_lt_succ hlt), hmod]
          congr 2
          · ring
          · ring

/-- A number that takes all passes, or more, is not. -/
theorem readLength_none {passes it len multiplier : ℕ}
    (hm : multiplier * 128 ^ passes = 128 ^ 4)
    (h : remaining passes (buf.drop it) = .malformed ∨
      ∃ n, remaining passes (buf.drop it) = .value n passes) :
    readLength (byteAt stray buf) passes it len multiplier = none := by
  induction passes generalizing it len multiplier with
  | zero => rfl
  | succ passes ih =>
    rw [readLength]
    by_cases h0 : passes = 0
    · rw [if_pos ((multiplier_iff hm).mpr h0)]
    rw [if_neg (mt (multiplier_iff hm).mp h0)]
    cases hd : buf.drop it with
    | nil =>
      rw [hd] at h
      rcases h with h | ⟨n, h⟩
      · cases h
      · cases h
    | cons b s =>
      rw [hd] at h
      obtain ⟨hbyte, hs⟩ := byteAt_of_drop stray hd
      by_cases hb : b.toNat < 128
      · rw [remaining_cons_of_lt passes s hb] at h
        rcases h with h | ⟨n, h⟩
        · cases h
        · injection h with _ hbytes
          omega
      · rw [remaining_cons_of_le passes s hb] at h
        rw [hbyte, if_pos (mt (and_128_eq_zero_iff b).mp hb)]
        have hm' : multiplier * 128 * 128 ^ passes = 128 ^ 4 := by
          rw [mul_assoc, ← pow_succ', hm]
        -- another byte of the length follows
        apply ih hm'
        rw [hs]
        cases hr : remaining passes s with
        | malformed => exact .inl rfl
        | incomplete =>
          rw [hr] at h
          rcases h with h | ⟨n, h⟩
          · cases h
          · cases h
        | value n' bytes' =>
          rw [hr] at h
          rcases h with h | ⟨n, h⟩
          · cases h
          · injection h with _ hbytes
            rw [Nat.succ_injective hbytes]
            exact .inr ⟨n', rfl⟩

/-- A number that has not arrived is read behind the end of the buffer, if at all. -/
theorem readLength_incomplete {passes it len multiplier n j : ℕ}
    (h : remaining passes (buf.drop it) = .incomplete)
    (hread : readLength (byteAt stray buf) passes it len multiplier = some (n, j)) :
    buf.length < j := by
  induction passes generalizing it len multiplier with
  | zero => cases hread
  | succ passes ih =>
    have hj := readLength_it hread
    cases hd : buf.drop it with
    | nil => exact lt_of_le_of_lt (List.drop_eq_nil_iff.mp hd) hj
    | cons b s =>
      rw [hd] at h
      obtain ⟨hbyte, hs⟩ := byteAt_of_drop stray hd
      by_cases hb : b.toNat < 128
      · rw [remaining_cons_of_lt passes s hb] at h
        cases h
      · rw [remaining_cons_of_le passes s hb] at h
        rw [readLength] at hread
        rw [hbyte, if_pos (mt (and_128_eq_zero_iff b).mp hb)] at hread
        split at hread
        · cases hread
        · refine ih ?_ hread
          rw [hs]
          cases hr : remaining passes s with
          | incomplete => rfl
          | malformed => rw [hr] at h; cases h
          | value n' bytes' => rw [hr] at h; cases h

/-- What the code makes of a control packet. -/
def takes : Option (Item × Bytes) → Option (Option Dict × Bytes)
  | some (.packet header lengthBytes body, rest) =>
      if lengthBytes = 4 then none else some (parsePacket header body, rest)
  | _ => none

/-- The code finds the control packets, but for those with a Remaining Length of four bytes. -/
theorem decodePacket_eq_nextItem : decodePacket stray buf = takes (nextItem buf) := by
  cases buf with
  | nil => exact decodePacket_nil stray
  | cons header s =>
    have hm : 1 * 128 ^ 4 = 128 ^ 4 := Nat.one_mul _
    have hd : (header :: s).drop 1 = s := rfl
    unfold decodePacket
    rw [nextItem]
    cases hr : remaining 4 s with
    | incomplete =>
      cases hread : readLength (byteAt stray (header :: s)) 4 1 0 1 with
      | none => rfl
      | some r =>
        obtain ⟨n, j⟩ := r
        -- what lies in memory behind the buffer is taken for the length
        have hj := readLength_incomplete stray (header :: s) (hd.symm ▸ hr) hread
        simp only
        rw [if_pos (by omega)]
        rfl
    | malformed =>
      -- the length has a fifth byte
      rw [readLength_none stray (header :: s) hm (hd.symm ▸ .inl hr)]
      rfl
    | value n bytes =>
      obtain ⟨-, hle, hlen⟩ := remaining_le hr
      by_cases h4 : bytes = 4
      · subst h4
        rw [readLength_none stray (header :: s) hm (hd.symm ▸ .inr ⟨n, hr⟩)]
        simp only
        split
        · rfl
        · rfl
      · have hread : readLength (byteAt stray (header :: s)) 4 1 0 1 = some (0 + n * 1, 1 + bytes) :=
          readLength_value stray (header :: s) hm (hd.symm ▸ hr) (by omega)
        rw [Nat.zero_add, Nat.mul_one] at hread
        rw [hread]
        simp only [List.length_drop, List.length_cons]
        by_cases hshort : s.length - bytes < n
        · rw [if_pos (by omega), if_pos hshort]
          rfl
        · have hdrop : (header :: s).drop (1 + bytes) = s.drop bytes := by
            rw [Nat.add_comm]
            rfl
          have hrest : (header :: s).drop (1 + bytes + n) = s.drop (bytes + n) := by
            rw [Nat.add_assoc, Nat.add_comm]
            rfl
          rw [if_neg (by omega), if_neg hshort, hdrop, hrest]
          simp only [takes, if_neg h4]
          rfl

end Loop

/-! ### Runs -/

/-- A control packet that is delivered. -/
theorem conformsTo_cons_iff {i : Item} {items : List Item} {m_bErrored : Bool} {data : Dict}
    {events : List PluginEvent} (hi : ¬ Violates i) :
    ConformsTo (i :: items) m_bErrored (.onMessage data :: events) ↔
      ConformsTo items m_bErrored events := by
  constructor
  · rintro ⟨hcaught, hunmarked⟩
    refine ⟨fun done i' more hsplit hdone hi' => ?_, fun hall => ?_⟩
    · obtain ⟨he, messages, hevents, hlen⟩ := hcaught (i :: done) i' more (by rw [hsplit]; rfl)
        (List.forall_mem_cons.mpr ⟨hi, hdone⟩) hi'
      cases messages with
      | nil => cases hlen
      | cons m messages =>
        exact ⟨he, messages, (List.cons.inj hevents).2, Nat.succ.inj hlen⟩
    · exact hunmarked (List.forall_mem_cons.mpr ⟨hi, hall⟩)
  · rintro ⟨hcaught, hunmarked⟩
    refine ⟨fun done i' more hsplit hdone hi' => ?_, fun hall => ?_⟩
    · cases done with
      | nil =>
        obtain ⟨rfl, -⟩ := List.cons.inj hsplit
        exact absurd hi' hi
      | cons j done =>
        obtain ⟨he, messages, hevents, hlen⟩ := hcaught done i' more (List.cons.inj hsplit).2
          (List.forall_mem_cons.mp hdone).2 hi'
        exact ⟨he, data :: messages, congrArg _ hevents, congrArg Nat.succ hlen⟩
    · exact hunmarked (List.forall_mem_cons.mp hall).2

/-- A violation. -/
theorem conformsTo_violation_iff {i : Item} {items : List Item} {m_bErrored : Bool}
    {events : List PluginEvent} (hi : Violates i) :
    ConformsTo (i :: items) m_bErrored events ↔ m_bErrored = true ∧ events = [.disconnected] := by
  constructor
  · rintro ⟨hcaught, -⟩
    obtain ⟨he, messages, hevents, hlen⟩ := hcaught [] i items rfl nofun hi
    rw [List.length_eq_zero_iff.mp hlen] at hevents
    exact ⟨he, hevents⟩
  · rintro ⟨he, hevents⟩
    refine ⟨fun done i' more hsplit hdone _ => ?_, fun hall => ?_⟩
    · cases done with
      | nil => exact ⟨he, [], hevents, rfl⟩
      | cons j done =>
        obtain ⟨rfl, -⟩ := List.cons.inj hsplit
        exact absurd hi (hdone i List.mem_cons_self)
    · exact absurd hi (hall i List.mem_cons_self)

/-- No control packet is delivered and none noticed. -/
theorem conformsTo_silent_iff {items : List Item} :
    ConformsTo items false [] ↔ ∀ i ∈ items, ¬ Violates i := by
  constructor
  · rintro ⟨hcaught, -⟩
    induction items with
    | nil => exact nofun
    | cons i items ih =>
      have hi : ¬ Violates i := fun hi =>
        Bool.false_ne_true (hcaught [] i items rfl nofun hi).1
      refine List.forall_mem_cons.mpr ⟨hi, ih fun done i' more hsplit hdone hi' => ?_⟩
      have hfalse := (hcaught (i :: done) i' more (by rw [hsplit]; rfl)
        (List.forall_mem_cons.mpr ⟨hi, hdone⟩) hi').1
      exact absurd hfalse Bool.false_ne_true
  · intro h
    refine ⟨fun done i more hsplit _ hi => ?_, fun _ => rfl⟩
    exact absurd hi (h i (by rw [hsplit]; simp))

/-- An error without a violation. -/
theorem not_conformsTo_error {i : Item} {items : List Item} (hi : ¬ Violates i) :
    ¬ ConformsTo (i :: items) true [.disconnected] := by
  rintro ⟨hcaught, hunmarked⟩
  have hnone : ∀ j ∈ items, ¬ Violates j := by
    have hrest : ∀ done i' more, items = done ++ i' :: more → (∀ j ∈ done, ¬ Violates j) →
        ¬ Violates i' := fun done i' more hsplit hdone hi' => by
      obtain ⟨-, messages, hevents, hlen⟩ := hcaught (i :: done) i' more (by rw [hsplit]; rfl)
        (List.forall_mem_cons.mpr ⟨hi, hdone⟩) hi'
      have hlength := congrArg List.length hevents
      rw [List.length_append, List.length_map, hlen] at hlength
      simp at hlength
    exact conformsTo_silent_iff.mp
      ⟨fun done i' more hsplit hdone hi' => absurd hi' (hrest done i' more hsplit hdone),
        fun _ => rfl⟩
  cases hunmarked (List.forall_mem_cons.mpr ⟨hi, hnone⟩)

theorem items_of_none {buf : Bytes} (h : nextItem buf = none) : items buf = [] := by
  have hd : drain control buf = (⟨buf, false⟩, []) := drain_of_none h
  rw [items, hd]

theorem items_of_malformed {buf rest : Bytes} (h : nextItem buf = some (.malformed, rest)) :
    items buf = [.malformed] := by
  rw [items, drain_of_some (d := control) h]
  rfl

theorem items_of_packet {buf rest body : Bytes} {header : UInt8} {lengthBytes : ℕ}
    (h : nextItem buf = some (.packet header lengthBytes body, rest)) :
    items buf = .packet header lengthBytes body :: items rest := by
  rw [items, drain_of_some (d := control) h]
  rfl

/-- The mark and the events, up to a message with which the process ends. -/
def untilEnd (m_bErrored : Bool) (events : List PluginEvent) : Bool × List PluginEvent :=
  if events.any ends then (false, events.takeWhile fun e => !ends e) else (m_bErrored, events)

theorem untilEnd_cons_of_ends {e : PluginEvent} (h : ends e = true) (m_bErrored : Bool)
    (events : List PluginEvent) : untilEnd m_bErrored (e :: events) = (false, []) := by
  rw [untilEnd, List.any_cons, h, Bool.true_or, if_pos rfl, List.takeWhile_cons_of_neg (by simp [h])]

theorem untilEnd_cons {e : PluginEvent} (h : ends e = false) (m_bErrored : Bool)
    (events : List PluginEvent) : untilEnd m_bErrored (e :: events) =
      ((untilEnd m_bErrored events).1, e :: (untilEnd m_bErrored events).2) := by
  rw [untilEnd, untilEnd, List.any_cons, h, Bool.false_or,
    List.takeWhile_cons_of_pos (by simp [h])]
  split
  · rfl
  · rfl

theorem drain_silent {stray : ℕ → UInt8} {buf : Bytes} (h : decodePacket stray buf = none) :
    drain (decoder stray) buf = (⟨buf, false⟩, []) := drain_of_none h

/-- What becomes of a buffer. -/
theorem drain_conforms_iff (stray : ℕ → UInt8) (buf : Bytes) :
    ConformsTo (items buf)
      (untilEnd (drain (decoder stray) buf).1.halted ((drain (decoder stray) buf).2.map eventOf)).1
      (untilEnd (drain (decoder stray) buf).1.halted ((drain (decoder stray) buf).2.map eventOf)).2 ↔
        Kept (items buf) := by
  induction hlen : buf.length using Nat.strong_induction_on generalizing buf with
  | _ n ih =>
    have hdecode := decodePacket_eq_nextItem stray buf
    cases hnext : nextItem buf with
    | none =>
      rw [hnext] at hdecode
      rw [items_of_none hnext, drain_silent hdecode]
      exact iff_of_true (conformsTo_silent_iff.mpr nofun) .nil
    | some r =>
      obtain ⟨i, rest⟩ := r
      rw [hnext] at hdecode
      have hrest : rest.length < n := hlen ▸ nextItem_shorter hnext
      cases i with
      | malformed =>
        rw [items_of_malformed hnext, drain_silent hdecode]
        refine iff_of_false (fun h => ?_) nofun
        exact conformsTo_silent_iff.mp h _ List.mem_cons_self trivial
      | packet header lengthBytes body =>
        rw [items_of_packet hnext]
        by_cases h4 : lengthBytes = 4
        · -- the loop over the Remaining Length returns
          subst h4
          have hsilent : untilEnd false (([] : List (Option Dict)).map eventOf) = (false, []) := rfl
          rw [drain_silent hdecode, hsilent, conformsTo_silent_iff, List.forall_mem_cons]
          constructor
          · rintro ⟨hi, hall⟩
            exact .large (not_not.mp hi) hall
          · intro hkept
            cases hkept with
            | violation _ hne => exact absurd rfl hne
            | packet _ hne => exact absurd rfl hne
            | topic hok _ hall => exact ⟨not_not.mpr hok, hall⟩
            | large hok hall => exact ⟨not_not.mpr hok, hall⟩
        · have htakes : decodePacket stray buf = some (parsePacket header body, rest) := by
            rw [hdecode]
            exact if_neg h4
          have hiff := parsePacket_isSome_iff header body
          cases hparse : parsePacket header body with
          | none =>
            rw [hparse] at htakes hiff
            have hnot := mt hiff.mpr Bool.false_ne_true
            rw [not_or] at hnot
            rw [drain_error htakes]
            by_cases hok : PacketOk header body
            · refine iff_of_false (not_conformsTo_error (not_not.mpr hok)) fun hkept => ?_
              cases hkept with
              | violation hbad => exact hbad hok
              | packet _ _ hrel => exact hnot.1 ⟨hok, hrel⟩
              | topic _ htopic =>
                -- a `PUBLISH` is no `PUBREL`
                refine hnot.1 ⟨hok, fun hrel => htopic fun htype => ?_⟩
                rw [hrel] at htype
                exact absurd htype (by decide)
              | large => exact h4 rfl
            · exact iff_of_true
                ((conformsTo_violation_iff (i := .packet header lengthBytes body) hok).mpr ⟨rfl, rfl⟩)
                (.violation hok h4 hnot.2)
          | some data =>
            rw [hparse] at htakes hiff
            have hsome := hiff.mp rfl
            rw [drain_packet htakes, List.map_cons, eventOf]
            have hends := ends_iff hparse
            cases hend : ends (.onMessage data) with
            | true =>
              -- the process ends with this packet
              rw [hend] at hends
              have htopic := hends.mp rfl
              rw [untilEnd_cons_of_ends hend, conformsTo_silent_iff, List.forall_mem_cons]
              constructor
              · rintro ⟨hi, hall⟩
                exact .topic (not_not.mp hi) htopic hall
              · intro hkept
                cases hkept with
                | violation hbad _ hcheck =>
                  rcases hsome with ⟨hok, -⟩ | hun
                  · exact absurd hok hbad
                  · exact absurd hun hcheck
                | packet _ _ _ htopic' => exact absurd htopic' htopic
                | topic hok _ hall => exact ⟨not_not.mpr hok, hall⟩
                | large => exact absurd rfl h4
            | false =>
              rw [hend] at hends
              have htopic : TopicUTF8 header body := not_not.mp (mt hends.mpr Bool.false_ne_true)
              rw [untilEnd_cons hend]
              by_cases hok : PacketOk header body
              · refine (conformsTo_cons_iff (i := .packet header lengthBytes body)
                  (not_not.mpr hok)).trans ?_
                rw [ih rest.length hrest rest rfl]
                constructor
                · intro hkept
                  refine .packet hok h4 (fun hrel => ?_) htopic hkept
                  rcases hsome with ⟨-, hne⟩ | ⟨htype, -⟩
                  · exact hne hrel
                  · rw [hrel] at htype
                    exact absurd htype (by decide)
                · intro hkept
                  cases hkept with
                  | violation hbad => exact absurd hok hbad
                  | packet _ _ _ _ hkept => exact hkept
                  | topic _ htopic' => exact absurd htopic htopic'
                  | large => exact absurd rfl h4
              · refine iff_of_false (fun h => ?_) fun hkept => ?_
                · have hevents := ((conformsTo_violation_iff
                    (i := .packet header lengthBytes body) hok).mp h).2
                  cases hevents
                · cases hkept with
                  | violation _ _ hcheck =>
                    rcases hsome with ⟨hok', -⟩ | hun
                    · exact hok hok'
                    · exact hcheck hun
                  | packet hok' => exact hok hok'
                  | topic hok' => exact hok hok'
                  | large => exact h4 rfl

/-- The mark is that of the decoder. -/
theorem runs_errored (stray : ℕ → UInt8) (reads : List Bytes) :
    (runs stray {} reads).1.m_bErrored = (drain (decoder stray) reads.flatten).1.halted := by
  obtain ⟨h₁, -⟩ := runs_eq_run stray {} reads
  obtain ⟨-, hh, -⟩ := run_eq_drain (decoder stray) {} reads rfl (decodePacket_nil stray)
  exact (congrArg Reader.halted h₁).trans hh

/-- What is received, by the decoder. -/
theorem conforms_eq (stray : ℕ → UInt8) (reads : List Bytes) :
    Conforms stray reads ↔ ConformsTo (items reads.flatten)
      (untilEnd (drain (decoder stray) reads.flatten).1.halted
        ((drain (decoder stray) reads.flatten).2.map eventOf)).1
      (untilEnd (drain (decoder stray) reads.flatten).1.halted
        ((drain (decoder stray) reads.flatten).2.map eventOf)).2 := by
  rw [Conforms, receive_eq, untilEnd, ← (runs_eq_drain stray reads).1, ← runs_errored]
  split
  · rfl
  · rfl

/-- **The connection is disconnected at the first violation, and only there, exactly if the stream
is kept on its way up to there.** -/
theorem conforms_iff (stray : ℕ → UInt8) (reads : List Bytes) :
    Conforms stray reads ↔ Kept (items reads.flatten) := by
  rw [← drain_conforms_iff stray, conforms_eq]

/-- A Remaining Length of five bytes: the code says so in its log and goes on. -/
theorem malformed_length_ignored :
    ¬ ∀ (stray : ℕ → UInt8) (reads : List Bytes), Conforms stray reads := by
  intro h
  have hconforms := h (fun _ => 0) [[0x30, 0x80, 0x80, 0x80, 0x80, 0x01]]
  rw [conforms_eq, drain_conforms_iff] at hconforms
  have hitems : items [[0x30, 0x80, 0x80, 0x80, 0x80, 0x01]].flatten = [.malformed] :=
    by
    have hnext : nextItem [0x30, 0x80, 0x80, 0x80, 0x80, 0x01] = some (.malformed, [0x01]) := rfl
    exact items_of_malformed hnext
  rw [hitems] at hconforms
  cases hconforms

end Domoticz.Mqtt
