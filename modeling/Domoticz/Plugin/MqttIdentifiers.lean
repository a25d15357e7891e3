import Domoticz.Plugin.MqttClient
import Domoticz.Transition

/-!
# The packet identifiers of an MQTT client

A request that needs a packet identifier and brings none takes it from a counter, which starts
at 1 and is advanced even if the request is then rejected.  The counter is an `int`, and two bytes
of it are written: every 65536th identifier is 0.  Past the largest `int` the counter is taken to
go on with the smallest one; there the division rounds the other way, and identifiers are repeated.

## Main definitions

* `Request` — a request that takes an identifier from the counter.
* `wireAt` — the identifier in a packet.
* `assigned` — the identifiers that a run takes, as they are on the wire.
* `Distinguished` — what the protocol asks of the identifiers of a run.
* `Spared` — the requests for which the counter may stand where it does.

## Main results

* `packet_cases` — a request that is accepted is sent with the counter, and another is not sent.
* `good_iff` — one request.
* `getElem?_assigned` — the identifiers of a run.
* `identifiers_right_iff` — **the identifiers are right exactly if no packet is sent for a counter
  that is a multiple of 65536, and not more than 2 to the 31 are taken.**
* `identifier_zero` — the packet number 65536.
-/

namespace Domoticz.Mqtt

open CLib Transition

/-! ### Packets with an identifier -/

/-- The requests that need a packet identifier. -/
inductive Kind
  | SUBSCRIBE
  | UNSUBSCRIBE
  | PUBLISH
  deriving DecidableEq

/-- The verb of a kind of request. -/
def Kind.verb : Kind → Verb
  | .SUBSCRIBE => .SUBSCRIBE
  | .UNSUBSCRIBE => .UNSUBSCRIBE
  | .PUBLISH => .PUBLISH

/-- A request without a packet identifier; a `PUBLISH` has a quality of service. -/
structure Request where
  kind : Kind
  dict : PyDict
  verb_eq : (unicode? (getItemString dict "Verb")).bind stdString = some (str kind.verb.name)
  automatic : long? (getItemString dict "PacketIdentifier") = none
  qos_pos : kind = .PUBLISH → 0 < publishQoS dict

/-- The topic of a `PUBLISH`. -/
def publishTopic (dict : PyDict) : Option Bytes :=
  (unicode? (getItemString dict "Topic")).bind stdString

/-- What is sent for a request. -/
def packetOf (parameters : PyDict) (m_PacketID : ℤ) (r : Request) : Option Bytes :=
  (processOutbound parameters m_PacketID (some (.dict r.dict))).1

/-- The counter behind a request. -/
def counter (parameters : PyDict) (m_PacketID : ℤ) (r : Request) : ℤ :=
  (processOutbound parameters m_PacketID (some (.dict r.dict))).2

/-- What stands behind the Remaining Length. -/
def behindLength (packet : Bytes) : Bytes := ((packet.drop 1).dropWhile (128 ≤ ·)).drop 1

/-- What stands between the Remaining Length and the identifier: the topic of a `PUBLISH`. -/
def Request.offset (r : Request) : ℕ :=
  match r.kind with
  | .PUBLISH => (publishTopic r.dict).elim 0 fun sTopic => sTopic.length + 2
  | _ => 0

/-- The identifier in the packet of a request. -/
def wireAt (r : Request) (packet : Bytes) : Option ℤ :=
  match (behindLength packet).drop r.offset with
  | high :: low :: _ => some (number high low)
  | _ => none

/-- The requests that are rejected with an error: there is no list of topics, or one of them is no
dictionary; or there is no topic. -/
def Request.Rejected (r : Request) : Prop :=
  match r.kind with
  | .SUBSCRIBE => ∀ brTopicList, getItemString r.dict "Topics" = some (.list brTopicList) →
      ∃ o ∈ brTopicList, ∀ entry, o ≠ .dict entry
  | .UNSUBSCRIBE => ∀ brTopicList, getItemString r.dict "Topics" ≠ some (.list brTopicList)
  | .PUBLISH => unicode? (getItemString r.dict "Topic") = none

/-- The identifier of a packet is not 0, and for a request that is rejected there is no packet. -/
structure Good (parameters : PyDict) (m_PacketID : ℤ) (r : Request) : Prop where
  nonzero : ∀ packet, packetOf parameters m_PacketID r = some packet → packet ≠ [] →
    ∃ i, wireAt r packet = some i ∧ i ≠ 0
  rejected : r.Rejected → ∀ packet, packetOf parameters m_PacketID r = some packet → packet = []

/-- The identifiers that are taken from the counter, as they are on the wire. -/
def assigned (parameters : PyDict) : ℤ → List Request → List ℤ
  | _, [] => []
  | m_PacketID, r :: rs =>
      (if counter parameters m_PacketID r = m_PacketID then [] else [wireIdentifier m_PacketID]) ++
        assigned parameters (counter parameters m_PacketID r) rs

/-- Every request of a run is good, and of any 65535 identifiers that are taken one after the other
no two are equal. -/
structure Distinguished (parameters : PyDict) (rs : List Request) : Prop where
  good : Throughout (counter parameters) (Good parameters) 1 rs
  distinct : ∀ m n i j, m < n → n < m + 65535 → (assigned parameters 1 rs)[m]? = some i →
    (assigned parameters 1 rs)[n]? = some j → i ≠ j

/-! ### The condition -/

/-- The texts of a request can be read. -/
def Request.Accepted (r : Request) : Prop :=
  match r.kind with
  | .SUBSCRIBE => ∃ topics, (topicList r.dict >>= subscribeTopics) = .ok topics
  | .UNSUBSCRIBE => ∃ topics, (topicList r.dict >>= unsubscribeTopics) = .ok topics
  | .PUBLISH => ∃ sTopic sPayload, publishTopic r.dict = some sTopic ∧
      payloadOf (getItemString r.dict "Payload") = .ok sPayload

/-- A request takes an identifier; a `PUBLISH` does so behind its topic. -/
def Request.takes (r : Request) : Bool :=
  match r.kind with
  | .PUBLISH => (publishTopic r.dict).isSome
  | _ => true

/-- A request that is sent does not find the counter at a multiple of 65536. -/
def Spared (m_PacketID : ℤ) (r : Request) : Prop := r.Accepted → m_PacketID % 65536 ≠ 0

/-! ### One request -/

section Step

variable (parameters : PyDict) (m_PacketID : ℤ) (r : Request)

theorem packetIdentifier_automatic :
    packetIdentifier m_PacketID r.dict = (m_PacketID, m_PacketID + 1) := by
  rw [packetIdentifier, r.automatic]

/-- The counter is advanced by what takes an identifier. -/
theorem counter_eq :
    counter parameters m_PacketID r = if r.takes then m_PacketID + 1 else m_PacketID := by
  obtain ⟨brVerb, hverb, hstd⟩ := Option.bind_eq_some_iff.mp r.verb_eq
  have hsnd : counter parameters m_PacketID r =
      (verbBranch parameters m_PacketID r.dict (str r.kind.verb.name)).2 := by
    unfold counter processOutbound
    simp only [getItemString_of_unicode hverb, hstd]
    rcases verbBranch parameters m_PacketID r.dict (str r.kind.verb.name) with ⟨branch, _⟩
    cases branch with
    | error e =>
      cases e with
      | returned => rfl
      | threw => rfl
    | ok parts => rfl
  have hauto := packetIdentifier_automatic m_PacketID r
  rw [hsnd, Request.takes]
  cases hkind : r.kind with
  | SUBSCRIBE => exact congrArg Prod.snd hauto
  | UNSUBSCRIBE => exact congrArg Prod.snd hauto
  | PUBLISH =>
    have hqos : publishQoS r.dict ≠ 0 := (r.qos_pos hkind).ne'
    show (publishIdentifier m_PacketID r.dict).2 = _
    rw [publishIdentifier, ← publishTopic]
    cases publishTopic r.dict with
    | none => rfl
    | some sTopic =>
      simp only [if_pos hqos, hauto, Option.isSome_some, if_true]

theorem parts_publish {dup retain : Bool} {iQoS iPacketIdentifier : ℤ} {sTopic sPayload : Bytes}
    (h : iQoS ≠ 0) : (Asked.publish dup retain iQoS sTopic iPacketIdentifier sPayload).parts =
      { retVal := [publishHeader dup retain iQoS]
        vVariableHeader := pushBackStringWLen sTopic ++ pushBackNumber (toInt32 iPacketIdentifier)
        vPayload := sPayload } := by
  rw [Asked.parts, if_pos h]

/-- A packet of a first byte, the topic of a `PUBLISH`, and the counter. -/
def Request.Sends (packet : Bytes) : Prop :=
  ∃ b front vPayload, front.length = r.offset ∧ packet = assemble
    { retVal := [b], vVariableHeader := front ++ pushBackNumber (toInt32 m_PacketID), vPayload }

/-- A request that is accepted is sent with the counter, and another is not sent. -/
theorem packet_cases :
    (r.Accepted ∧ ∃ packet, packetOf parameters m_PacketID r = some packet ∧
      r.Sends m_PacketID packet) ∨
    (¬ r.Accepted ∧ ∀ packet, packetOf parameters m_PacketID r = some packet → packet = []) := by
  have hpacket : packetOf parameters m_PacketID r =
      sent ((asked parameters m_PacketID r.dict r.kind.verb).map Asked.parts) :=
    processOutbound_verb parameters m_PacketID r.verb_eq
  have hauto := congrArg Prod.fst (packetIdentifier_automatic m_PacketID r)
  have hended (e : Ended) : ∀ packet, sent (.error e) = some packet → packet = [] := by
    intro packet h
    cases e with
    | returned => exact (Option.some.inj h).symm
    | threw => cases h
  rw [hpacket, Request.Accepted]
  unfold Request.Sends Request.offset
  cases hkind : r.kind with
  | SUBSCRIBE =>
    simp only [Kind.verb, asked, hauto]
    cases topicList r.dict >>= subscribeTopics with
    | error e => exact .inr ⟨nofun, hended e⟩
    | ok topics => exact .inl ⟨⟨topics, rfl⟩, _, rfl, _, [], _, rfl, rfl⟩
  | UNSUBSCRIBE =>
    simp only [Kind.verb, asked, hauto]
    cases topicList r.dict >>= unsubscribeTopics with
    | error e => exact .inr ⟨nofun, hended e⟩
    | ok topics => exact .inl ⟨⟨topics, rfl⟩, _, rfl, _, [], _, rfl, rfl⟩
  | PUBLISH =>
    have hqos : publishQoS r.dict ≠ 0 := (r.qos_pos hkind).ne'
    simp only [Kind.verb, asked, askedPublish, hauto, publishTopic, text]
    cases unicode? (getItemString r.dict "Topic") with
    | none => exact .inr ⟨nofun, hended .returned⟩
    | some brTopic =>
      cases hs : stdString brTopic with
      | none =>
        simp only [hs, Option.bind_some]
        exact .inr ⟨nofun, hended .threw⟩
      | some sTopic =>
        simp only [hs, Option.bind_some]
        cases payloadOf (getItemString r.dict "Payload") with
        | error e => exact .inr ⟨nofun, hended e⟩
        | ok sPayload =>
          exact .inl ⟨⟨sTopic, sPayload, rfl, rfl⟩, _, rfl, _, pushBackStringWLen sTopic, sPayload,
            length_pushBackStringWLen sTopic, congrArg assemble (parts_publish hqos)⟩

end Step

/-- The Remaining Length ends with its first byte below 128. -/
theorem drop_encodeLength (n : ℕ) (rest : Bytes) :
    ((encodeLength n ++ rest).dropWhile (128 ≤ ·)).drop 1 = rest := by
  have hval {k : ℕ} (hk : k < 256) : (UInt8.ofNat k).toNat = k := by
    rw [UInt8.toNat_ofNat', Nat.mod_eq_of_lt hk]
  induction n using Nat.strong_induction_on with
  | _ n ih =>
    by_cases hn : n < 128
    · have hlast : ¬ (128 : UInt8) ≤ UInt8.ofNat n := by
        rw [UInt8.le_iff_toNat_le, hval (by omega)]
        show ¬ 128 ≤ n
        omega
      rw [encodeLength_of_lt hn, List.singleton_append,
        List.dropWhile_cons_of_neg (by simpa using hlast)]
      rfl
    · have hmore : (128 : UInt8) ≤ UInt8.ofNat (n % 128 + 128) := by
        rw [UInt8.le_iff_toNat_le, hval (by omega)]
        exact Nat.le_add_left _ _
      rw [encodeLength_of_le (by omega), List.cons_append,
        List.dropWhile_cons_of_pos (by simpa using hmore)]
      exact ih (n / 128) (by omega)

theorem behindLength_assemble (b : UInt8) (vVariableHeader vPayload : Bytes) :
    behindLength (assemble { retVal := [b], vVariableHeader, vPayload }) =
      vVariableHeader ++ vPayload := by
  rw [behindLength, assemble, remainingLength_eq, List.append_assoc, List.append_assoc]
  exact drop_encodeLength _ _

/-- The identifier in a packet is that of the counter. -/
theorem Request.Sends.wireAt_eq {m_PacketID : ℤ} {r : Request} {packet : Bytes}
    (h : r.Sends m_PacketID packet) : wireAt r packet = some (wireIdentifier m_PacketID) := by
  obtain ⟨b, front, vPayload, hlength, rfl⟩ := h
  rw [wireAt, behindLength_assemble, ← hlength, List.append_assoc, List.drop_left]
  rfl

/-- The identifier on the wire is 0 for every multiple of 65536. -/
theorem wireIdentifier_eq_zero_iff (i : ℤ) : wireIdentifier i = 0 ↔ i % 65536 = 0 := by
  have hmod : toInt32 i % 65536 = i % 65536 := by
    have hbmod := Int.bmod_emod (x := i) (m := 2 ^ 32)
    rw [toInt32]
    omega
  have hdivision := Int.mul_tdiv_add_tmod (toInt32 i) 256
  have hlow := Int.tmod_lt_of_pos (toInt32 i) (show (0 : ℤ) < 256 by decide)
  have hhigh := Int.lt_tmod_of_pos (toInt32 i) (show (0 : ℤ) < 256 by decide)
  have hdiv := toNat_byteOf ((toInt32 i).tdiv 256)
  have hrest := toNat_byteOf ((toInt32 i).tmod 256)
  rw [wireIdentifier, number, ← hmod]
  omega

theorem subscribeTopics_ok {l : List PyObject} {topics : List (Bytes × UInt8)}
    (h : subscribeTopics l = .ok topics) : ∀ o ∈ l, ∃ entry, o = .dict entry := by
  induction l generalizing topics with
  | nil => nofun
  | cons o l ih =>
    cases o with
    | dict entry =>
      rw [subscribeTopics] at h
      refine List.forall_mem_cons.mpr ⟨⟨entry, rfl⟩, ?_⟩
      split at h
      · exact ih h
      · obtain ⟨sTopic, -, htopics⟩ := bind_eq_ok h
        obtain ⟨more, hmore, -⟩ := bind_eq_ok htopics
        exact ih hmore
    | _ => cases h

theorem topicList_eq_ok {dict : PyDict} {l : List PyObject} (h : topicList dict = .ok l) :
    getItemString dict "Topics" = some (.list l) := by
  unfold topicList at h
  split at h
  · next brTopicList hlist =>
    cases h
    exact hlist
  · cases h

/-- What is rejected is not accepted. -/
theorem Request.Rejected.not_accepted {r : Request} (h : r.Rejected) : ¬ r.Accepted := by
  unfold Request.Rejected at h
  unfold Request.Accepted
  cases hkind : r.kind with
  | SUBSCRIBE =>
    rw [hkind] at h
    rintro ⟨topics, htopics⟩
    obtain ⟨l, hl, hall⟩ := bind_eq_ok htopics
    obtain ⟨o, ho, hne⟩ := h l (topicList_eq_ok hl)
    obtain ⟨entry, rfl⟩ := subscribeTopics_ok hall o ho
    exact hne entry rfl
  | UNSUBSCRIBE =>
    rw [hkind] at h
    rintro ⟨topics, htopics⟩
    obtain ⟨l, hl, -⟩ := bind_eq_ok htopics
    exact h l (topicList_eq_ok hl)
  | PUBLISH =>
    simp only [hkind] at h
    rintro ⟨sTopic, sPayload, htopic, -⟩
    rw [publishTopic, h] at htopic
    cases htopic

/-- One request is good exactly if it is not sent with a multiple of 65536. -/
theorem good_iff (parameters : PyDict) (m_PacketID : ℤ) (r : Request) :
    Good parameters m_PacketID r ↔ Spared m_PacketID r := by
  rw [Spared, Ne, ← wireIdentifier_eq_zero_iff]
  rcases packet_cases parameters m_PacketID r with haccepted | ⟨hno, hnil⟩
  · obtain ⟨haccepted, packet, hpacket, hsends⟩ := haccepted
    have hne : packet ≠ [] := by
      obtain ⟨b, front, vPayload, -, rfl⟩ := hsends
      exact assemble_ne_nil _
    constructor
    · intro h _
      obtain ⟨i, hi, hzero⟩ := h.nonzero packet hpacket hne
      rw [hsends.wireAt_eq] at hi
      rwa [Option.some.inj hi]
    · intro h
      constructor
      · intro packet' hpacket' _
        obtain rfl := Option.some.inj (hpacket.symm.trans hpacket')
        exact ⟨_, hsends.wireAt_eq, h haccepted⟩
      · intro hrejected
        exact absurd haccepted hrejected.not_accepted
  · constructor
    · intro _ haccepted
      exact absurd haccepted hno
    · intro _
      exact ⟨fun packet hpacket hne => absurd (hnil packet hpacket) hne, fun _ => hnil⟩

/-! ### A run -/

/-- The identifiers of a run are those of the numbers from the counter on. -/
theorem assigned_eq (parameters : PyDict) (m_PacketID : ℤ) (rs : List Request) :
    assigned parameters m_PacketID rs = (List.range (rs.countP Request.takes)).map fun n : ℕ =>
      wireIdentifier (m_PacketID + n) := by
  induction rs generalizing m_PacketID with
  | nil => rfl
  | cons r rs ih =>
    rw [assigned, counter_eq]
    cases htakes : r.takes with
    | false =>
      rw [List.countP_cons_of_neg (by simp [htakes])]
      simp [ih]
    | true =>
      have hne : m_PacketID + 1 ≠ m_PacketID := by omega
      rw [List.countP_cons_of_pos htakes, List.range_succ_eq_map, List.map_cons, List.map_map,
        if_pos rfl, if_neg hne, ih]
      simp only [Nat.cast_zero, add_zero, List.singleton_append, List.cons.injEq, true_and]
      apply List.map_congr_left
      intro n _
      have hnext : m_PacketID + 1 + (n : ℤ) = m_PacketID + ((n + 1 : ℕ) : ℤ) := by
        push_cast
        ring
      exact congrArg wireIdentifier hnext

theorem getElem?_assigned (parameters : PyDict) (rs : List Request) (n : ℕ) :
    (assigned parameters 1 rs)[n]? =
      if n < rs.countP Request.takes then some (wireIdentifier (1 + n)) else none := by
  rw [assigned_eq, List.getElem?_map]
  split
  · next hlt =>
    rw [List.getElem?_range hlt]
    rfl
  · next hle =>
    rw [List.getElem?_eq_none (by rw [List.length_range]; exact not_lt.mp hle)]
    rfl

/-- Up to 2 to the 31 the identifier is the number modulo 65536. -/
theorem wireIdentifier_eq_emod {i : ℤ} (h : 0 ≤ i ∧ i ≤ 2 ^ 31) : wireIdentifier i = i % 65536 := by
  rcases h.2.lt_or_eq with hlt | rfl
  · have hself : toInt32 i = i := toInt32_eq_self_iff.mpr (by omega)
    have hdiv := toNat_byteOf ((toInt32 i).tdiv 256)
    have hrest := toNat_byteOf ((toInt32 i).tmod 256)
    rw [hself, Int.tdiv_eq_ediv_of_nonneg h.1] at hdiv
    rw [hself, Int.tmod_eq_emod_of_nonneg h.1] at hrest
    rw [wireIdentifier, number, hself, Int.tdiv_eq_ediv_of_nonneg h.1,
      Int.tmod_eq_emod_of_nonneg h.1]
    omega
  · rfl

/-- Behind the largest `int` an identifier comes back. -/
theorem wireIdentifier_repeated :
    wireIdentifier (1 + (2147418368 : ℕ)) = wireIdentifier (1 + (2147483648 : ℕ)) := by decide

/-- Of 65535 identifiers in a row no two are equal exactly if the counter stays an `int`. -/
theorem distinct_iff (parameters : PyDict) (rs : List Request) :
    (∀ m n i j, m < n → n < m + 65535 → (assigned parameters 1 rs)[m]? = some i →
      (assigned parameters 1 rs)[n]? = some j → i ≠ j) ↔ rs.countP Request.takes ≤ 2 ^ 31 := by
  simp only [getElem?_assigned]
  constructor
  · intro h
    by_contra hmany
    have hfirst : 2147418368 < rs.countP Request.takes := by omega
    have hsecond : 2147483648 < rs.countP Request.takes := by omega
    exact h 2147418368 2147483648 _ _ (by decide) (by decide) (if_pos hfirst) (if_pos hsecond)
      wireIdentifier_repeated
  · intro hle m n i j hlt hwindow hi hj
    obtain ⟨hm, hi⟩ := Option.ite_none_right_eq_some.mp hi
    obtain ⟨hn, hj⟩ := Option.ite_none_right_eq_some.mp hj
    rw [← Option.some.inj hi, ← Option.some.inj hj, wireIdentifier_eq_emod (by omega),
      wireIdentifier_eq_emod (by omega)]
    omega

/-- **The identifiers of a run are right exactly if no request is sent that finds the counter at a
multiple of 65536, and not more than 2 to the 31 identifiers are taken.** -/
theorem identifiers_right_iff (parameters : PyDict) (rs : List Request) :
    Distinguished parameters rs ↔ Throughout (counter parameters) Spared 1 rs ∧
      rs.countP Request.takes ≤ 2 ^ 31 := by
  have hgood : Throughout (counter parameters) (Good parameters) 1 rs ↔
      Throughout (counter parameters) Spared 1 rs :=
    throughout_congr (I := fun _ => True) (fun _ _ _ => trivial)
      (fun m_PacketID r _ => good_iff parameters m_PacketID r) trivial rs
  rw [← hgood, ← distinct_iff parameters rs]
  constructor
  · rintro ⟨hall, hdistinct⟩
    exact ⟨hall, hdistinct⟩
  · rintro ⟨hall, hdistinct⟩
    exact ⟨hall, hdistinct⟩

/-- A subscription to the topic `a`. -/
def subscribeToA : Request where
  kind := .SUBSCRIBE
  dict := [(pyStr "Verb", .str (pyStr "SUBSCRIBE")),
    (pyStr "Topics", .list [.dict [(pyStr "Topic", .str (pyStr "a"))]])]
  verb_eq := rfl
  automatic := rfl
  qos_pos := nofun

/-- The counter behind as many subscriptions. -/
theorem counter_replicate (n : ℕ) :
    (List.replicate n subscribeToA).foldl (counter []) 1 = 1 + n := by
  induction n with
  | zero => rfl
  | succ n ih =>
    rw [List.replicate_succ', List.foldl_append, ih, List.foldl_cons, List.foldl_nil, counter_eq]
    show (1 : ℤ) + n + 1 = 1 + ((n + 1 : ℕ) : ℤ)
    push_cast
    ring

/-- Of 65536 subscriptions the last one is sent with the identifier 0. -/
theorem identifier_zero :
    ¬ Distinguished [] (List.replicate 65535 subscribeToA ++ [subscribeToA]) := by
  intro h
  have hgood := throughout_last h.good
  rw [counter_replicate, good_iff] at hgood
  exact hgood ⟨[(str "a", 0)], rfl⟩ (by decide)

end Domoticz.Mqtt
