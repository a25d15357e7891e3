import Domoticz.Plugin.WebSocket

/-!
# The messages of websocket frames

What a plugin is given for a frame of RFC 6455 whose length has 7 or 16 bits.  The dictionary of a
ping and of a pong is started anew, without the final bit.  Whether there is a mask is told from
the first byte of its key.  And a text ends at its first NUL.

## Main definitions

* `Opcode`, `Sent` — a frame by what it is meant to carry.
* `Sent.expected` — the payload that is due for it.
* `Decoded` — one message with the final bit, the operation and the payload, and no byte left of
  the frame.
* `Sent.Plain` — the frames for which the three of them come out.

## Main results

* `unmask_unmask` — a mask is taken off by putting it on again.
* `decoded_frame_iff` — **a frame is decoded exactly if it is plain.**
* `ping_without_finish` — a ping.
-/

namespace Domoticz.WebSocket

open CLib

/-! ### Frames by what they carry -/

/-- The operation codes, without that of a continuation. -/
inductive Opcode
  | text
  | binary
  | close
  | ping
  | pong
  deriving DecidableEq

/-- The number of an opcode. -/
def Opcode.code : Opcode → UInt8
  | .text => 0x1
  | .binary => 0x2
  | .close => 0x8
  | .ping => 0x9
  | .pong => 0xA

/-- The name of a control operation. -/
def Opcode.operation : Opcode → Option String
  | .close => some "Close"
  | .ping => some "Ping"
  | .pong => some "Pong"
  | _ => none

/-- A frame with the payload it carries, before it is masked. -/
structure Sent where
  finish : Bool
  opcode : Opcode
  mask : Option Mask
  field : LengthField
  payload : Bytes
  field_ne : field ≠ .sixtyFour
  length_lt : payload.length < field.bound

@[simp] theorem length_unmask (key payload : Bytes) : (unmask key payload).length = payload.length := by
  rw [unmask, List.length_map, List.length_zipIdx]

/-- A mask is taken off by putting it on again. -/
theorem unmask_unmask (key payload : Bytes) : unmask key (unmask key payload) = payload := by
  apply List.ext_getElem?
  intro i
  simp only [unmask, List.getElem?_map, List.getElem?_zipIdx, Option.map_map]
  cases payload[i]? with
  | none => rfl
  | some b =>
    simp only [Option.map_some, Function.comp_apply, UInt8.xor_assoc, UInt8.xor_self, UInt8.xor_zero]

namespace Sent

variable (s : Sent)

/-- The payload on the wire. -/
def masked : Bytes := s.mask.elim s.payload fun m => unmask m.bytes s.payload

theorem length_masked : s.masked.length = s.payload.length := by
  cases h : s.mask with
  | none => rw [masked, h]; rfl
  | some m => rw [masked, h]; exact length_unmask _ _

/-- The frame that is sent. -/
def frame : Frame where
  first := (if s.finish then (0x80 : UInt8) else 0) ||| s.opcode.code
  mask := s.mask
  field := s.field
  payload := s.masked
  length_lt := s.length_masked ▸ s.length_lt

/-- The payload that is due: the text of a text message, the reason code of a close, and the
bytes of any other payload there is. -/
def expected : Option PyValue :=
  if s.opcode = .text then some (.text s.payload)
  else if s.opcode = .close ∧ s.payload.length = 2 then
    some (.int (number (s.payload.getD 0 0) (s.payload.getD 1 0)))
  else if s.payload.isEmpty then none else some (.bytes s.payload)

end Sent

/-- The message says what the frame carries. -/
structure Says (d : Dict) (s : Sent) : Prop where
  finish : d.lookup (str "Finish") = some (.bool s.finish)
  operation : d.lookup (str "Operation") = s.opcode.operation.map fun name => .text (str name)
  payload : d.lookup (str "Payload") = s.expected

/-- One message is delivered for the frame, which says what it carries, and just the bytes of
the frame are removed. -/
def Decoded (s : Sent) : Prop :=
  ∀ (stray : ℕ → UInt8) (rest : Bytes), ∃ d,
    processWholeMessage stray (s.frame.encode ++ rest) = .message d rest ∧ Says d s

/-- The frames that are plain: neither a ping nor a pong, and if the first byte of the key is 0,
then the key leaves the payload as it is; and a text is UTF-8 without a NUL. -/
structure Sent.Plain (s : Sent) : Prop where
  data : s.opcode ≠ .ping ∧ s.opcode ≠ .pong
  key : ∀ m, s.mask = some m → m.bytes.getD 0 0 = 0 → unmask m.bytes s.payload = s.payload
  text : s.opcode = .text → 0 ∉ s.payload ∧ (ByteArray.mk s.payload.toArray).validateUTF8 = true

/-! ### The dictionary -/

namespace Sent

variable {s : Sent}

theorem first_final (s : Sent) : decide (s.frame.first &&& 0x80 ≠ 0) = s.finish := by
  have hbit (finish : Bool) (opcode : Opcode) :
      decide (((if finish then (0x80 : UInt8) else 0) ||| opcode.code) &&& 0x80 ≠ 0) = finish := by
    cases finish <;> cases opcode <;> decide
  exact hbit s.finish s.opcode

theorem first_code (s : Sent) : s.frame.first &&& 0x0F = s.opcode.code := by
  have hcode (finish : Bool) (opcode : Opcode) :
      ((if finish then (0x80 : UInt8) else 0) ||| opcode.code) &&& 0x0F = opcode.code := by
    cases finish <;> cases opcode <;> decide
  exact hcode s.finish s.opcode

/-- What is taken for the payload. -/
def received (s : Sent) : Bytes :=
  if ((maskBytes s.mask).getD 0 0).toNat ≠ 0 then unmask (maskBytes s.mask) s.masked else s.masked

theorem contents_frame (s : Sent) : s.frame.contents =
    dataDict s.finish ((maskBytes s.mask).getD 0 0).toNat s.opcode.code s.received := by
  rw [Frame.contents, first_final, first_code]
  rfl

theorem length_received (s : Sent) : s.received.length = s.payload.length := by
  rw [received]
  split
  · rw [length_unmask, length_masked]
  · exact s.length_masked

/-- The payload is unmasked, unless the key begins with a zero. -/
theorem received_eq_iff (s : Sent) : s.received = s.payload ↔
    ∀ m, s.mask = some m → m.bytes.getD 0 0 = 0 → unmask m.bytes s.payload = s.payload := by
  cases h : s.mask with
  | none => exact iff_of_true (by rw [received, masked, h]; rfl) nofun
  | some m =>
    have hmasked : s.masked = unmask m.bytes s.payload := by rw [masked, h]; rfl
    have hbytes : maskBytes (some m) = m.bytes := rfl
    rw [received, h, hbytes, hmasked]
    by_cases hzero : m.bytes.getD 0 0 = 0
    · rw [hzero, if_neg (by decide)]
      refine ⟨fun heq m' hm' _ => ?_, fun hall => hall m rfl hzero⟩
      rwa [← Option.some.inj hm']
    · have hnat : (m.bytes.getD 0 0).toNat ≠ 0 := fun h0 => hzero (UInt8.toNat_inj.mp h0)
      rw [if_pos hnat]
      refine iff_of_true (unmask_unmask _ _) fun m' hm' h0 => ?_
      rw [← Option.some.inj hm'] at h0
      exact absurd h0 hzero

end Sent

section

variable (finish : Bool) (key : ℕ) (opcode : Opcode) (payload : Bytes)

/-- What is added of the payload. -/
def payloadEntry (opcode : Opcode) (payload : Bytes) : Option PyValue :=
  (handledPayload opcode.code payload).or (if payload.isEmpty then none else some (.bytes payload))

/-- The entries in front of the payload. -/
theorem exists_front : ∃ front : Dict,
    dataDict finish key opcode.code payload =
      front ++ (payloadEntry opcode payload).elim [] (fun v => [(str "Payload", v)]) ∧
    front.lookup (str "Payload") = none ∧
    front.lookup (str "Operation") = opcode.operation.map (fun name => .text (str name)) ∧
    (front.lookup (str "Finish") = some (.bool finish) ↔ opcode ≠ .ping ∧ opcode ≠ .pong) := by
  have hpayload : (str "Payload" == str "Finish") = false ∧ (str "Payload" == str "Mask") = false ∧
      (str "Payload" == str "Operation") = false := ⟨rfl, rfl, rfl⟩
  have hoperation : (str "Operation" == str "Finish") = false ∧
      (str "Operation" == str "Mask") = false := ⟨rfl, rfl⟩
  have hfinish : (str "Finish" == str "Operation") = false := rfl
  refine ⟨_, rfl, ?_⟩
  cases opcode <;> by_cases hkey : key = 0 <;>
    simp [hkey, Opcode.code, Opcode.operation, List.lookup_cons, List.lookup_nil, hpayload,
      hoperation, hfinish]

/-- The entries of the dictionary. -/
theorem lookup_dataDict :
    (dataDict finish key opcode.code payload).lookup (str "Payload") =
        payloadEntry opcode payload ∧
      (dataDict finish key opcode.code payload).lookup (str "Operation") =
        opcode.operation.map (fun name => .text (str name)) ∧
      ((dataDict finish key opcode.code payload).lookup (str "Finish") = some (.bool finish) ↔
        opcode ≠ .ping ∧ opcode ≠ .pong) := by
  obtain ⟨front, heq, hpayload, hoperation, hfinish⟩ := exists_front finish key opcode payload
  have hother {name : Bytes} (hname : (name == str "Payload") = false) :
      ((payloadEntry opcode payload).elim [] fun v => [(str "Payload", v)]).lookup name = none := by
    cases payloadEntry opcode payload with
    | none => rfl
    | some v => simp [List.lookup_cons, List.lookup_nil, hname]
  have hown : ((payloadEntry opcode payload).elim [] fun v => [(str "Payload", v)]).lookup
      (str "Payload") = payloadEntry opcode payload := by
    cases payloadEntry opcode payload with
    | none => rfl
    | some v => simp
  have hnot₁ := @hother (str "Operation") rfl
  have hnot₂ := @hother (str "Finish") rfl
  rw [heq, List.lookup_append, List.lookup_append, List.lookup_append, hown, hnot₁, hnot₂,
    Option.or_none, Option.or_none, hpayload, Option.none_or]
  exact ⟨rfl, hoperation, hfinish⟩

end

/-! ### The payload -/

/-- A text is made of all bytes exactly if there is no NUL and they are UTF-8. -/
theorem textEntry_eq_iff {v payload : Bytes} (hlen : v.length = payload.length) :
    (buildString v).or (if v.isEmpty then none else some (.bytes v)) = some (.text payload) ↔
      v = payload ∧ 0 ∉ payload ∧ (ByteArray.mk payload.toArray).validateUTF8 = true := by
  rw [buildString]
  by_cases hvalid : (ByteArray.mk (cstr v).toArray).validateUTF8 = true
  · rw [if_pos hvalid, Option.some_or, Option.some.injEq, PyValue.text.injEq]
    constructor
    · intro heq
      have hv : cstr v = v := (List.takeWhile_prefix _).eq_of_length (by
        rw [hlen, ← heq]
        rfl)
      obtain rfl : v = payload := hv.symm.trans heq
      rw [hv] at hvalid
      exact ⟨rfl, (cstr_eq_self_iff v).mp hv, hvalid⟩
    · rintro ⟨rfl, hzero, -⟩
      exact cstr_of_notMem hzero
  · rw [if_neg hvalid, Option.none_or]
    refine iff_of_false ?_ ?_
    · split
      · nofun
      · nofun
    · rintro ⟨rfl, hzero, hpayload⟩
      rw [cstr_of_notMem hzero] at hvalid
      exact hvalid hpayload

theorem number_injective {v payload : Bytes} (hv : v.length = 2) (hpayload : payload.length = 2)
    (h : number (v.getD 0 0) (v.getD 1 0) = number (payload.getD 0 0) (payload.getD 1 0)) :
    v = payload := by
  obtain ⟨a, b, rfl⟩ := List.length_eq_two.mp hv
  obtain ⟨c, d, rfl⟩ := List.length_eq_two.mp hpayload
  have hb := b.toNat_lt
  have hd := d.toNat_lt
  have heq : a.toNat * 256 + b.toNat = c.toNat * 256 + d.toNat := h
  have hhigh : a = c := UInt8.toNat_inj.mp (by omega)
  have hlow : b = d := UInt8.toNat_inj.mp (by omega)
  rw [hhigh, hlow]

/-- The entry of a payload is the one that is due if it is the payload, and a text is one. -/
theorem payloadEntry_eq_iff {s : Sent} {v : Bytes} (hlen : v.length = s.payload.length) :
    payloadEntry s.opcode v = s.expected ↔ v = s.payload ∧ (s.opcode = .text →
      0 ∉ s.payload ∧ (ByteArray.mk s.payload.toArray).validateUTF8 = true) := by
  have hcode : (s.opcode.code = 0x01 ↔ s.opcode = .text) ∧
      (s.opcode.code = 0x08 ↔ s.opcode = .close) := by
    cases s.opcode <;> decide
  by_cases htext : s.opcode = .text
  · rw [payloadEntry, handledPayload, if_pos (hcode.1.mpr htext), Sent.expected, if_pos htext,
      textEntry_eq_iff hlen]
    exact and_congr_right fun _ => (imp_iff_right htext).symm
  · rw [and_iff_left fun h => absurd h htext, payloadEntry, handledPayload,
      if_neg (mt hcode.1.mp htext), Sent.expected, if_neg htext]
    by_cases hclose : s.opcode = .close ∧ s.payload.length = 2
    · rw [if_pos ⟨hcode.2.mpr hclose.1, hlen.trans hclose.2⟩, if_pos hclose, Option.some_or,
        Option.some.injEq, PyValue.int.injEq, Int.natCast_inj]
      exact ⟨number_injective (hlen.trans hclose.2) hclose.2, fun h => by rw [h]⟩
    · have hother : ¬(s.opcode.code = 0x08 ∧ v.length = 2) := fun h =>
        hclose ⟨hcode.2.mp h.1, hlen.symm.trans h.2⟩
      rw [if_neg hother, if_neg hclose, Option.none_or]
      by_cases hempty : s.payload = []
      · have hv : v = [] := List.eq_nil_of_length_eq_zero (by rw [hlen, hempty]; rfl)
        rw [hempty, hv]
        exact iff_of_true rfl rfl
      · have hv : v ≠ [] := by
          rintro rfl
          exact hempty (List.eq_nil_of_length_eq_zero hlen.symm)
        have hnot {l : Bytes} (hl : l ≠ []) : ¬ l.isEmpty = true := mt List.isEmpty_iff.mp hl
        rw [if_neg (hnot hempty), if_neg (hnot hv), Option.some.injEq, PyValue.bytes.injEq]

/-! ### Frames that are decoded -/

theorem decoded_iff_said (s : Sent) : Decoded s ↔ Says s.frame.contents s := by
  have hmessage (stray : ℕ → UInt8) (rest : Bytes) :
      processWholeMessage stray (s.frame.encode ++ rest) = .message s.frame.contents rest := by
    rw [processWholeMessage_encode]
    exact if_neg s.field_ne
  constructor
  · intro h
    obtain ⟨d, hd, hsays⟩ := h (fun _ => 0) []
    rwa [← (Outcome.message.inj ((hmessage _ _).symm.trans hd)).1] at hsays
  · intro h stray rest
    exact ⟨_, hmessage stray rest, h⟩

/-- **A frame is decoded exactly if** it is neither a ping nor a pong, its key does not begin with a
zero that matters, and a text is UTF-8 without a NUL. -/
theorem decoded_frame_iff (s : Sent) : Decoded s ↔ s.Plain := by
  obtain ⟨hpayload, hoperation, hfinish⟩ :=
    lookup_dataDict s.finish ((maskBytes s.mask).getD 0 0).toNat s.opcode s.received
  rw [decoded_iff_said, s.contents_frame]
  constructor
  · intro h
    obtain ⟨hreceived, htext⟩ :=
      (payloadEntry_eq_iff s.length_received).mp (hpayload.symm.trans h.payload)
    exact ⟨hfinish.mp h.finish, s.received_eq_iff.mp hreceived, htext⟩
  · intro h
    refine ⟨hfinish.mpr h.data, hoperation, hpayload.trans ?_⟩
    exact (payloadEntry_eq_iff s.length_received).mpr ⟨s.received_eq_iff.mpr h.key, h.text⟩

/-- A ping without a mask and without a payload. -/
def ping : Sent := ⟨true, .ping, none, .seven, [], by decide, by decide⟩

/-- It is delivered without its final bit. -/
theorem ping_without_finish : ¬ Decoded ping := by
  rw [decoded_iff_said]
  intro h
  have hfinish : ping.frame.contents.lookup (str "Finish") = none := rfl
  have hlookup := h.finish
  rw [hfinish] at hlookup
  cases hlookup

end Domoticz.WebSocket
