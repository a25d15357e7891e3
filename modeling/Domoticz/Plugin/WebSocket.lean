import Domoticz.Plugin.Message
import Domoticz.Stream.PrefixCode

/-!
# The websocket protocol of plugins

`CPluginProtocolWS::ProcessInbound` first looks for a frame at the front of the read
alone, in a copy of it, and only then at the front of what is retained with the read
behind it.  Either way it takes one frame.  What follows a frame in the copy is
forgotten, and what follows it in the retained data waits for the next read.  Frames
with a length of 64 bits are not supported; they clear the buffer.

Frames are a prefix code, so after every read it is determined which frames are
complete and which bytes belong to the next one.

## Main definitions

* `processWholeMessage`, `processInbound` — the functions of `CPluginProtocolWS`.
* `Frame`, `ServerFrame` — a frame, and one as a server sends it.
* `frameCode` — frames as a prefix code.
* `KeepsUp` — after every read all complete frames are delivered and the rest is retained.
* `Clean` — the reads that are dealt with.

## Main results

* `processWholeMessage_frame`, `processWholeMessage_encode` — a message is found exactly for
  a frame of up to 65535 bytes.
* `keepsUp_iff` — **the protocol keeps up exactly with clean reads.**
* `coalesced_frame_lost` — the second of two frames in a read.
-/

namespace Domoticz.WebSocket

open CLib Stream

/-! ### The code -/

/-- `nrPayload`, as the switch over the operation code leaves it. -/
def handledPayload (iOpCode : UInt8) (vPayload : Bytes) : Option PyValue :=
  if iOpCode = 0x01 then buildString vPayload
  else if iOpCode = 0x08 ∧ vPayload.length = 2 then
    some (.int (number (vPayload.getD 0 0) (vPayload.getD 1 0)))
  else none

/-- `pDataDict`.  Ping and pong start it anew. -/
def dataDict (bFinish : Bool) (lMaskingKey : ℕ) (iOpCode : UInt8) (vPayload : Bytes) : Dict :=
  let finish := (str "Finish", PyValue.bool bFinish) ::
    (if lMaskingKey ≠ 0 then [(str "Mask", .int lMaskingKey)] else [])
  let operation (name : String) := (str "Operation", PyValue.text (str name))
  let pDataDict :=
    if iOpCode = 0x08 then finish ++ [operation "Close"]
    else if iOpCode = 0x09 then [operation "Ping"]
    else if iOpCode = 0x0A then [operation "Pong"]
    else finish
  -- if there is a payload but not handled then map it as binary
  let nrPayload := (handledPayload iOpCode vPayload).or
    (if vPayload.isEmpty then none else some (.bytes vPayload))
  pDataDict ++ nrPayload.elim [] fun payload => [(str "Payload", payload)]

/-- The loop that unmasks the payload. -/
def unmask (pbMask vPayload : Bytes) : Bytes :=
  vPayload.zipIdx.map fun b => b.1 ^^^ pbMask.getD (b.2 % 4) 0

/-- What `ProcessWholeMessage` does to the buffer. -/
inductive Outcome
  /-- It returns `false`. -/
  | incomplete
  /-- It clears the buffer and returns `false`. -/
  | cleared
  /-- It returns `true`, with a message queued and its frame erased. -/
  | message (pDataDict : Dict) (rest : Bytes)

/-- The part of `ProcessWholeMessage` behind the payload length. -/
def processPayload (stray : ℕ → UInt8) (vMessage : Bytes) (bMasked : Bool)
    (lPayloadLength iOffset : ℕ) : Outcome :=
  if bMasked ∧ vMessage.length < iOffset then .incomplete
  else
    let pbMask := if bMasked then (List.range 4).map fun i => byteAt stray vMessage (iOffset + i) else []
    let lMaskingKey := (pbMask.getD 0 0).toNat
    let iOffset := if bMasked then iOffset + 4 else iOffset
    if vMessage.length < iOffset + lPayloadLength then .incomplete
    else
      let vPayload := (vMessage.drop iOffset).take lPayloadLength
      .message
        (dataDict (byteAt stray vMessage 0 &&& 0x80 ≠ 0) lMaskingKey (byteAt stray vMessage 0 &&& 0x0F)
          (if lMaskingKey ≠ 0 then unmask pbMask vPayload else vPayload))
        (vMessage.drop (iOffset + lPayloadLength))

/-- `CPluginProtocolWS::ProcessWholeMessage`.  The loop in it returns in its first pass. -/
def processWholeMessage (stray : ℕ → UInt8) (vMessage : Bytes) : Outcome :=
  if vMessage.isEmpty then .incomplete
  else
    let bMasked : Bool := byteAt stray vMessage 1 &&& 0x80 ≠ 0
    let lPayloadLength := (byteAt stray vMessage 1 &&& 0x7F).toNat
    if lPayloadLength = 126 then
      if vMessage.length < 3 then .incomplete
      else processPayload stray vMessage bMasked
        (number (byteAt stray vMessage 2) (byteAt stray vMessage 3)) 4
    else if lPayloadLength = 127 then .cleared
    else processPayload stray vMessage bMasked lPayloadLength 2

/-- A read, with what the memory behind the two buffers holds when it is processed. -/
structure ReadEvent where
  m_Buffer : Bytes
  strayBuffer : ℕ → UInt8
  strayRetained : ℕ → UInt8

/-- `CPluginProtocolWS::ProcessInbound`, on `m_sRetainedData`. -/
def processInbound (m_sRetainedData : Bytes) (e : ReadEvent) : Bytes × List PluginEvent :=
  match processWholeMessage e.strayBuffer e.m_Buffer with
  | .message pDataDict _ => (m_sRetainedData, [.onMessage pDataDict])
  | _ =>
      match processWholeMessage e.strayRetained (m_sRetainedData ++ e.m_Buffer) with
      | .message pDataDict rest => (rest, [.onMessage pDataDict])
      | .cleared => ([], [])
      | .incomplete => (m_sRetainedData ++ e.m_Buffer, [])

/-! ### Frames -/

/-- A masking key. -/
structure Mask where
  bytes : Bytes
  length_eq : bytes.length = 4

/-- The bytes of a mask, which may be missing. -/
def maskBytes (mask : Option Mask) : Bytes := mask.elim [] Mask.bytes

theorem length_maskBytes (mask : Option Mask) :
    (maskBytes mask).length = if mask.isSome then 4 else 0 := by
  cases mask with
  | none => rfl
  | some m => exact m.length_eq

/-- The three ways to give the length of a payload. -/
inductive LengthField
  | seven
  | sixteen
  | sixtyFour
  deriving DecidableEq

/-- The lengths a field can give. -/
def LengthField.bound : LengthField → ℕ
  | .seven => 126
  | .sixteen => 256 ^ 2
  | .sixtyFour => 256 ^ 8

/-- The seven bits of the second byte. -/
def LengthField.low (field : LengthField) (n : ℕ) : ℕ :=
  match field with
  | .seven => n
  | .sixteen => 126
  | .sixtyFour => 127

/-- The bytes behind the second one. -/
def LengthField.extended (field : LengthField) (n : ℕ) : Bytes :=
  match field with
  | .seven => []
  | .sixteen => beBytes 2 n
  | .sixtyFour => beBytes 8 n

/-- A frame on the wire. -/
structure Frame where
  /-- The final bit, the reserved bits and the operation code. -/
  first : UInt8
  mask : Option Mask
  field : LengthField
  payload : Bytes
  length_lt : payload.length < field.bound

/-- The second byte of a frame: the bit of the mask, and the short length. -/
def Frame.second (f : Frame) : UInt8 :=
  UInt8.ofNat ((if f.mask.isSome then 128 else 0) + f.field.low f.payload.length)

/-- The bytes of a frame. -/
def Frame.encode (f : Frame) : Bytes :=
  f.first :: f.second :: (f.field.extended f.payload.length ++ (maskBytes f.mask ++ f.payload))

/-- The message for a frame. -/
def Frame.contents (f : Frame) : Dict :=
  let lMaskingKey := ((maskBytes f.mask).getD 0 0).toNat
  dataDict (f.first &&& 0x80 ≠ 0) lMaskingKey (f.first &&& 0x0F)
    (if lMaskingKey ≠ 0 then unmask (maskBytes f.mask) f.payload else f.payload)

theorem LengthField.low_lt (field : LengthField) {n : ℕ} (h : n < field.bound) :
    field.low n < 128 := by
  cases field with
  | seven => exact lt_trans h (by decide)
  | sixteen => exact (by decide : 126 < 128)
  | sixtyFour => exact (by decide : 127 < 128)

theorem Frame.toNat_second (f : Frame) :
    f.second.toNat = (if f.mask.isSome then 128 else 0) + f.field.low f.payload.length := by
  have hlow := f.field.low_lt f.length_lt
  rw [Frame.second, UInt8.toNat_ofNat', Nat.mod_eq_of_lt]
  split <;> omega

/-- The payload length in the second byte. -/
theorem Frame.second_low (f : Frame) : (f.second &&& 0x7F).toNat = f.field.low f.payload.length := by
  have hlow := f.field.low_lt f.length_lt
  rw [toNat_and_127, f.toNat_second]
  split <;> omega

/-- The mask bit in the second byte. -/
theorem Frame.second_mask (f : Frame) : decide (f.second &&& 0x80 ≠ 0) = f.mask.isSome := by
  have hlow := f.field.low_lt f.length_lt
  have hnat := f.toNat_second
  cases hm : f.mask.isSome
  · simp only [hm, Bool.false_eq_true, if_false] at hnat
    rw [decide_eq_false_iff_not, not_not, and_128_eq_zero_iff]
    omega
  · simp only [hm, if_true] at hnat
    rw [decide_eq_true_iff, Ne, and_128_eq_zero_iff]
    omega

/-! ### A message is found exactly for a frame -/

theorem map_byteAt (stray : ℕ → UInt8) {v : Bytes} {i n : ℕ} (h : i + n ≤ v.length) :
    (List.range n).map (fun k => byteAt stray v (i + k)) = (v.drop i).take n := by
  apply List.ext_getElem
  · rw [List.length_map, List.length_range, List.length_take, List.length_drop]
    omega
  · intro k hk _
    rw [List.length_map, List.length_range] at hk
    rw [List.getElem_map, List.getElem_range, List.getElem_take, List.getElem_drop, byteAt,
      List.getD_eq_getElem _ _ (by omega)]

/-- A message, from the mask and the payload it was found with. -/
theorem processPayload_eq_message_iff (stray : ℕ → UInt8) (v rest : Bytes) (bMasked : Bool)
    (len iOffset : ℕ) (data : Dict) :
    processPayload stray v bMasked len iOffset = .message data rest ↔
      ∃ (mask : Option Mask) (payload : Bytes), mask.isSome = bMasked ∧ payload.length = len ∧
        iOffset ≤ v.length ∧ v.drop iOffset = maskBytes mask ++ (payload ++ rest) ∧
        data = dataDict (byteAt stray v 0 &&& 0x80 ≠ 0) ((maskBytes mask).getD 0 0).toNat
          (byteAt stray v 0 &&& 0x0F)
          (if ((maskBytes mask).getD 0 0).toNat ≠ 0 then unmask (maskBytes mask) payload
            else payload) := by
  constructor
  · intro h
    cases bMasked with
    | false =>
      simp only [processPayload, Bool.false_eq_true, false_and, if_false] at h
      split at h
      · cases h
      · next hlen =>
        obtain ⟨rfl, rfl⟩ := Outcome.message.inj h
        refine ⟨none, (v.drop iOffset).take len, rfl, ?_, by omega, ?_, rfl⟩
        · rw [List.length_take, List.length_drop]
          omega
        · rw [← List.drop_drop]
          exact (List.take_append_drop len _).symm
    | true =>
      simp only [processPayload, true_and, if_true] at h
      split at h
      · cases h
      · split at h
        · cases h
        · next hlen =>
          -- the four bytes of the mask are inside the buffer
          rw [map_byteAt stray (by omega)] at h
          obtain ⟨rfl, rfl⟩ := Outcome.message.inj h
          refine ⟨some ⟨(v.drop iOffset).take 4, ?_⟩, (v.drop (iOffset + 4)).take len, rfl, ?_,
            by omega, ?_, rfl⟩
          · rw [List.length_take, List.length_drop]
            omega
          · rw [List.length_take, List.length_drop]
            omega
          · have htake := List.take_append_drop len (v.drop (iOffset + 4))
            rw [List.drop_drop] at htake
            rw [htake, ← List.drop_drop]
            exact (List.take_append_drop 4 _).symm
  · rintro ⟨mask, payload, rfl, rfl, hle, hdrop, rfl⟩
    -- the message is all there, so no test on lengths fails
    have hlen := congrArg List.length hdrop
    rw [List.length_append, List.length_append, List.length_drop] at hlen
    cases mask with
    | none =>
      have hnil : maskBytes none = [] := rfl
      rw [hnil, List.nil_append] at hdrop
      rw [hnil, List.length_nil] at hlen
      simp only [processPayload, Option.isSome_none, Bool.false_eq_true, false_and, if_false]
      rw [if_neg (by omega), hdrop, List.take_left, ← List.drop_drop, hdrop, List.drop_left]
      rfl
    | some mask =>
      have hsome : maskBytes (some mask) = mask.bytes := rfl
      have h4 := mask.length_eq
      rw [hsome] at hdrop hlen
      have hmask : (v.drop iOffset).take 4 = mask.bytes := by rw [hdrop, ← h4, List.take_left]
      have hpay : v.drop (iOffset + 4) = payload ++ rest := by
        rw [← List.drop_drop, hdrop, ← h4, List.drop_left]
      simp only [processPayload, Option.isSome_some, true_and, if_true]
      rw [if_neg (by omega), if_neg (by omega), map_byteAt stray (by omega), hmask, hpay,
        List.take_left, ← List.drop_drop, hpay, List.drop_left, hsome]

theorem toNat_eq_mask_add (b : UInt8) :
    b.toNat = (if decide (b &&& 0x80 ≠ 0) then 128 else 0) + (b &&& 0x7F).toNat := by
  have hb := b.toNat_lt
  rw [toNat_and_127]
  by_cases h : b &&& 0x80 = 0
  · have hlt := (and_128_eq_zero_iff b).mp h
    simp only [h, ne_eq, not_true_eq_false, decide_false, Bool.false_eq_true, if_false]
    omega
  · have hle := mt (and_128_eq_zero_iff b).mpr h
    simp only [h, ne_eq, not_false_eq_true, decide_true, if_true]
    omega

/-- The frame of a message, from its parts behind the second byte. -/
theorem exists_frame (stray : ℕ → UInt8) {v rest payload : Bytes} {mask : Option Mask}
    (field : LengthField) (hv : 2 ≤ v.length) (hlt : payload.length < field.bound)
    (hmask : mask.isSome = decide (byteAt stray v 1 &&& 0x80 ≠ 0))
    (hlow : (byteAt stray v 1 &&& 0x7F).toNat = field.low payload.length)
    (hs : v.drop 2 = field.extended payload.length ++ (maskBytes mask ++ (payload ++ rest))) :
    ∃ f : Frame, f.field = field ∧ f.mask = mask ∧ f.payload = payload ∧
      f.first = byteAt stray v 0 ∧ v = f.encode ++ rest := by
  refine ⟨⟨byteAt stray v 0, mask, field, payload, hlt⟩, rfl, rfl, rfl, rfl, ?_⟩
  have hsecond : Frame.second ⟨byteAt stray v 0, mask, field, payload, hlt⟩ = byteAt stray v 1 := by
    rw [← UInt8.toNat_inj, Frame.toNat_second, toNat_eq_mask_add (byteAt stray v 1), hlow, hmask]
  have h₀ := drop_eq_byteAt_cons stray (show 0 < v.length by omega)
  rw [List.drop_zero, drop_eq_byteAt_cons stray (show 0 + 1 < v.length by omega), hs] at h₀
  refine h₀.trans ?_
  rw [Frame.encode, hsecond]
  simp only [List.cons_append, List.append_assoc]

theorem processWholeMessage_frame {stray : ℕ → UInt8} {v rest : Bytes} {data : Dict}
    (h : processWholeMessage stray v = .message data rest) :
    ∃ f : Frame, f.field ≠ .sixtyFour ∧ v = f.encode ++ rest ∧ data = f.contents := by
  simp only [processWholeMessage] at h
  split at h
  · cases h
  · split at h
    · next h126 =>
      split at h
      · cases h
      · obtain ⟨mask, payload, hmask, hlen, hle, hdrop, rfl⟩ := (processPayload_eq_message_iff ..).mp h
        have hdrop₂ := drop_eq_byteAt_cons stray (show 2 < v.length by omega)
        rw [drop_eq_byteAt_cons stray (show 2 + 1 < v.length by omega), hdrop] at hdrop₂
        obtain ⟨f, hfield, rfl, rfl, hfirst, hv⟩ := exists_frame stray .sixteen (by omega)
          (hlen ▸ number_lt _ _) hmask h126 (by rw [hdrop₂, hlen, LengthField.extended, beBytes_number]; rfl)
        exact ⟨f, by rw [hfield]; decide, hv, by rw [Frame.contents, hfirst]⟩
    · split at h
      · cases h
      · next h126 h127 =>
        obtain ⟨mask, payload, hmask, hlen, hle, hdrop, rfl⟩ := (processPayload_eq_message_iff ..).mp h
        have hlt := Nat.mod_lt (byteAt stray v 1).toNat (show 0 < 128 by decide)
        rw [← toNat_and_127, ← hlen] at hlt
        rw [← hlen] at h126 h127
        obtain ⟨f, hfield, rfl, rfl, hfirst, hv⟩ := exists_frame stray .seven hle
          (show payload.length < 126 by omega) hmask hlen.symm hdrop
        exact ⟨f, by rw [hfield]; decide, hv, by rw [Frame.contents, hfirst]⟩

theorem processWholeMessage_encode (stray : ℕ → UInt8) (f : Frame) (rest : Bytes) :
    processWholeMessage stray (f.encode ++ rest) =
      if f.field = .sixtyFour then .cleared else .message f.contents rest := by
  have hlow := f.second_low
  have hmask := f.second_mask
  have h₀ : byteAt stray (f.encode ++ rest) 0 = f.first := rfl
  have h₁ : byteAt stray (f.encode ++ rest) 1 = f.second := rfl
  have hne : (f.encode ++ rest).isEmpty = false := rfl
  have htail : (f.encode ++ rest).drop 2 = f.field.extended f.payload.length ++
      (maskBytes f.mask ++ (f.payload ++ rest)) := by
    simp only [Frame.encode, List.cons_append, List.append_assoc, List.drop_succ_cons, List.drop_zero]
  simp only [processWholeMessage, hne, Bool.false_eq_true, if_false, h₁, hlow, hmask]
  obtain ⟨first, mask, field, payload, hlt⟩ := f
  cases field with
  | seven =>
    have hlt' : payload.length < 126 := hlt
    have hl : LengthField.seven.low payload.length = payload.length := rfl
    simp only [hl, reduceCtorEq, if_false]
    rw [if_neg (by omega), if_neg (by omega)]
    exact (processPayload_eq_message_iff ..).mpr
      ⟨mask, payload, rfl, rfl, Nat.le_add_left 2 _, htail, by rw [h₀]; rfl⟩
  | sixteen =>
    have hl : LengthField.sixteen.low payload.length = 126 := rfl
    simp only [hl, reduceCtorEq, if_false, if_true]
    rw [if_neg (by exact Nat.not_lt.mpr (Nat.le_add_left 3 _))]
    refine (processPayload_eq_message_iff ..).mpr
      ⟨mask, payload, rfl, (number_beBytes hlt).symm, Nat.le_add_left 4 _, ?_, by rw [h₀]; rfl⟩
    rw [← List.drop_drop (i := 2), htail]
    rfl
  | sixtyFour => rfl

/-! ### Frames are a prefix code -/

theorem LengthField.unique {field field' : LengthField} {m n : ℕ} {s t : Bytes}
    (hm : m < field.bound) (hn : n < field'.bound) (hlow : field.low m = field'.low n)
    (h : field.extended m ++ s = field'.extended n ++ t) : field = field' ∧ m = n := by
  cases field with
  | seven =>
    change m < 126 at hm
    change m = _ at hlow
    cases field' with
    | seven => exact ⟨rfl, hlow⟩
    | sixteen => exact absurd hlow hm.ne
    | sixtyFour => exact absurd hlow (hm.trans (show (126 : ℕ) < 127 by decide)).ne
  | sixteen =>
    change 126 = _ at hlow
    cases field' with
    | seven => exact absurd hlow.symm hn.ne
    | sixteen =>
      exact ⟨rfl, beBytes_injective hm hn (List.append_inj h (by simp [LengthField.extended])).1⟩
    | sixtyFour => exact absurd hlow (by decide : (126 : ℕ) ≠ 127)
  | sixtyFour =>
    change 127 = _ at hlow
    cases field' with
    | seven => exact absurd hlow.symm (lt_trans hn (by decide : 126 < 127)).ne
    | sixteen => exact absurd hlow (by decide : (127 : ℕ) ≠ 126)
    | sixtyFour =>
      exact ⟨rfl, beBytes_injective hm hn (List.append_inj h (by simp [LengthField.extended])).1⟩

theorem maskBytes_injective {m m' : Option Mask} (hs : m.isSome = m'.isSome)
    (h : maskBytes m = maskBytes m') : m = m' := by
  cases m with
  | none =>
    cases m' with
    | none => rfl
    | some _ => cases hs
  | some m =>
    cases m' with
    | none => cases hs
    | some m' =>
      obtain ⟨b, hb⟩ := m
      obtain ⟨b', hb'⟩ := m'
      have : b = b' := h
      subst this
      rfl

theorem encode_unique {f g : Frame} {s t : Bytes} (h : f.encode ++ s = g.encode ++ t) :
    f = g ∧ s = t := by
  simp only [Frame.encode, List.cons_append, List.append_assoc, List.cons.injEq] at h
  obtain ⟨hfirst, hsecond, htail⟩ := h
  have hmask : f.mask.isSome = g.mask.isSome := by rw [← f.second_mask, ← g.second_mask, hsecond]
  have hlow : f.field.low f.payload.length = g.field.low g.payload.length := by
    rw [← f.second_low, ← g.second_low, hsecond]
  obtain ⟨hfield, hlen⟩ := LengthField.unique f.length_lt g.length_lt hlow htail
  rw [hfield, hlen] at htail
  obtain ⟨hm, hp⟩ := List.append_inj (List.append_cancel_left htail)
    (by rw [length_maskBytes, length_maskBytes, hmask])
  obtain ⟨hpayload, hrest⟩ := List.append_inj hp hlen
  have hmask' := maskBytes_injective hmask hm
  obtain ⟨_, _, _, _, _⟩ := f
  obtain ⟨_, _, _, _, _⟩ := g
  simp only at hfirst hfield hpayload hmask'
  subst hfirst hfield hpayload hmask'
  exact ⟨rfl, hrest⟩

/-- Frames as a prefix code. -/
def frameCode : PrefixCode Frame UInt8 where
  encode := Frame.encode
  ne_nil _ := List.cons_ne_nil _ _
  unique := encode_unique

/-! ### Keeping up with a server -/

/-- A frame as a server sends it: without a mask, without reserved bits, and with the
shortest length field. -/
structure ServerFrame where
  finish : Bool
  opcode : Fin 16
  payload : Bytes
  length_lt : payload.length < 2 ^ 63

/-- The shortest field for a length. -/
def shortest (n : ℕ) : LengthField :=
  if n < 126 then .seven else if n < 256 ^ 2 then .sixteen else .sixtyFour

theorem lt_bound_shortest {n : ℕ} (h : n < 2 ^ 63) : n < (shortest n).bound := by
  unfold shortest
  split
  · assumption
  · split
    · assumption
    · exact lt_trans h (by decide)

/-- The frame of a server, which has no mask. -/
def ServerFrame.frame (s : ServerFrame) : Frame where
  first := (if s.finish then (0x80 : UInt8) else 0) ||| UInt8.ofNat s.opcode
  mask := none
  field := shortest s.payload.length
  payload := s.payload
  length_lt := lt_bound_shortest s.length_lt

/-- The bytes of a connection. -/
def stream (frames : List ServerFrame) : Bytes := (frames.map fun s => s.frame.encode).flatten

/-- The reads in which a stream arrives. -/
structure Arrival (stream : Bytes) where
  reads : List ReadEvent
  flatten_eq : reads.flatMap ReadEvent.m_Buffer = stream

/-- What is to be delivered for a frame. -/
def message (f : Frame) : PluginEvent := .onMessage f.contents

/-- After every read all frames that are complete have been delivered, once and in order,
and the bytes of the next one are retained. -/
def KeepsUp (frames : List ServerFrame) (a : Arrival (stream frames)) : Prop :=
  frameCode.Follows processInbound ReadEvent.m_Buffer message a.reads

/-- The bytes begin with a frame of up to 65535 bytes. -/
def Begins (bytes : Bytes) : Prop :=
  ∃ (g : Frame) (rest : Bytes), g.field ≠ .sixtyFour ∧ bytes = g.encode ++ rest

/-- A read that is dealt with while `pending` is retained. -/
structure Clean (pending : Bytes) (e : ReadEvent) : Prop where
  /-- If the read begins with a frame of its own, then it completes just one frame, with the
  same message, and leaves pending what was pending. -/
  alone : ∀ (g : Frame) (rest : Bytes), g.field ≠ .sixtyFour → e.m_Buffer = g.encode ++ rest →
    ∃ f : Frame, f.contents = g.contents ∧ pending ++ e.m_Buffer = f.encode ++ pending
  /-- If not, it completes at most one frame, of up to 65535 bytes. -/
  single : ¬ Begins e.m_Buffer →
    ∀ (f : Frame) (rest : Bytes), pending ++ e.m_Buffer = f.encode ++ rest →
      f.field ≠ .sixtyFour ∧ ∀ (f' : Frame) (rest' : Bytes), rest ≠ f'.encode ++ rest'
  /-- And if it completes none, what is then pending does not begin like a longer frame. -/
  short : ¬ Begins e.m_Buffer →
    (∀ (f : Frame) (rest : Bytes), pending ++ e.m_Buffer ≠ f.encode ++ rest) →
      pending ++ e.m_Buffer = [] ∨
        (byteAt e.strayRetained (pending ++ e.m_Buffer) 1 &&& 0x7F).toNat ≠ 127

theorem processPayload_ne_cleared (stray : ℕ → UInt8) (v : Bytes) (bMasked : Bool)
    (len iOffset : ℕ) : processPayload stray v bMasked len iOffset ≠ .cleared := by
  cases bMasked with
  | false =>
    simp only [processPayload, Bool.false_eq_true, false_and, if_false]
    split
    · exact nofun
    · exact nofun
  | true =>
    simp only [processPayload, true_and, if_true]
    split
    · exact nofun
    · split
      · exact nofun
      · exact nofun

theorem processWholeMessage_eq_cleared_iff (stray : ℕ → UInt8) (v : Bytes) :
    processWholeMessage stray v = .cleared ↔ v ≠ [] ∧ (byteAt stray v 1 &&& 0x7F).toNat = 127 := by
  simp only [processWholeMessage]
  split
  · next h => simp [List.isEmpty_iff.mp h]
  · next h =>
    have hne : v ≠ [] := fun h' => h (List.isEmpty_iff.mpr h')
    split
    · next h126 =>
      rw [h126]
      refine iff_of_false ?_ (by simp)
      split
      · exact nofun
      · exact processPayload_ne_cleared _ _ _ _ _
    · split
      · next h127 => exact iff_of_true rfl ⟨hne, h127⟩
      · next h127 => exact iff_of_false (processPayload_ne_cleared _ _ _ _ _) fun h => h127 h.2

theorem next_eq_none_iff {v : Bytes} :
    frameCode.next v = none ↔ ∀ (f : Frame) (rest : Bytes), v ≠ f.encode ++ rest :=
  frameCode.next_eq_none_iff

/-- A step that takes the read alone for a message. -/
theorem stepFollows_of_begins {pending : Bytes} {e : ReadEvent} {g : Frame} {rest : Bytes}
    (hp : frameCode.next pending = none) (hg : g.field ≠ .sixtyFour)
    (he : e.m_Buffer = g.encode ++ rest) :
    frameCode.StepFollows processInbound ReadEvent.m_Buffer message pending e ↔
      ∃ f : Frame, f.contents = g.contents ∧ pending ++ e.m_Buffer = f.encode ++ pending := by
  have hstep : processInbound pending e = (pending, [message g]) := by
    rw [processInbound, he, processWholeMessage_encode, if_neg hg]
    rfl
  rw [PrefixCode.StepFollows, hstep, Prod.mk.injEq]
  constructor
  · rintro ⟨hpending, hcomplete⟩
    obtain ⟨f, hf, hmsg⟩ := List.map_eq_singleton_iff.mp hcomplete.symm
    refine ⟨f, PluginEvent.onMessage.inj hmsg, ?_⟩
    have hjoin := frameCode.join_complete (pending ++ e.m_Buffer)
    rw [hf, ← hpending] at hjoin
    rw [List.map_singleton, List.flatten_singleton] at hjoin
    exact hjoin.symm
  · rintro ⟨f, hcontents, hjoin⟩
    obtain ⟨h₁, h₂⟩ := frameCode.complete_encode f pending
    obtain ⟨h₃, h₄⟩ := frameCode.complete_of_none hp
    rw [h₄] at h₂
    rw [h₃] at h₁
    rw [hjoin]
    refine ⟨h₂.symm, ?_⟩
    refine Eq.trans ?_ (congrArg (List.map message) h₁).symm
    rw [List.map_singleton, message, message, hcontents]

/-- A step that takes the read as a continuation of what is retained. -/
theorem processInbound_of_not_begins {pending : Bytes} {e : ReadEvent} (h : ¬ Begins e.m_Buffer) :
    processInbound pending e =
      match processWholeMessage e.strayRetained (pending ++ e.m_Buffer) with
      | .message pDataDict rest => (rest, [.onMessage pDataDict])
      | .cleared => ([], [])
      | .incomplete => (pending ++ e.m_Buffer, []) := by
  rw [processInbound]
  cases ho : processWholeMessage e.strayBuffer e.m_Buffer with
  | incomplete => rfl
  | cleared => rfl
  | message data rest =>
    obtain ⟨g, hg, he, -⟩ := processWholeMessage_frame ho
    exact absurd ⟨g, rest, hg, he⟩ h

/-- The step when a frame of up to 65535 bytes is complete. -/
theorem stepFollows_of_frame {pending rest : Bytes} {e : ReadEvent} {f : Frame}
    (h : ¬ Begins e.m_Buffer) (hf : f.field ≠ .sixtyFour)
    (hv : pending ++ e.m_Buffer = f.encode ++ rest) :
    frameCode.StepFollows processInbound ReadEvent.m_Buffer message pending e ↔
      frameCode.next rest = none := by
  have hstep : processInbound pending e = (rest, [message f]) := by
    rw [processInbound_of_not_begins h, hv, processWholeMessage_encode, if_neg hf]
    rfl
  obtain ⟨h₁, h₂⟩ := frameCode.complete_encode f rest
  rw [PrefixCode.StepFollows, hstep, hv, Prod.mk.injEq]
  constructor
  · rintro ⟨hpending, -⟩
    rw [hpending]
    exact frameCode.next_pending _
  · intro hn
    obtain ⟨h₃, h₄⟩ := frameCode.complete_of_none hn
    rw [h₄] at h₂
    rw [h₃] at h₁
    exact ⟨h₂.symm, (congrArg (List.map message) h₁).symm⟩

/-- The step that clears the retained data. -/
theorem not_stepFollows_of_cleared {pending : Bytes} {e : ReadEvent} (h : ¬ Begins e.m_Buffer)
    (ho : processWholeMessage e.strayRetained (pending ++ e.m_Buffer) = .cleared) :
    ¬ frameCode.StepFollows processInbound ReadEvent.m_Buffer message pending e := by
  have hstep : processInbound pending e = ([], []) := by
    rw [processInbound_of_not_begins h, ho]
  intro hfollows
  rw [PrefixCode.StepFollows, hstep, Prod.mk.injEq] at hfollows
  have hjoin := frameCode.join_complete (pending ++ e.m_Buffer)
  rw [← hfollows.1, List.map_eq_nil_iff.mp hfollows.2.symm] at hjoin
  exact ((processWholeMessage_eq_cleared_iff _ _).mp ho).1 hjoin.symm

/-- A step does what it has to exactly if the read is clean. -/
theorem stepFollows_iff (pending : Bytes) (e : ReadEvent) (hp : frameCode.next pending = none) :
    frameCode.StepFollows processInbound ReadEvent.m_Buffer message pending e ↔ Clean pending e := by
  by_cases hb : Begins e.m_Buffer
  · obtain ⟨g, rest, hg, he⟩ := id hb
    rw [stepFollows_of_begins hp hg he]
    refine ⟨fun hf => ⟨fun g' rest' _ he' => ?_, fun h => absurd hb h, fun h => absurd hb h⟩,
      fun hc => hc.alone g rest hg he⟩
    obtain ⟨rfl, -⟩ := encode_unique (he.symm.trans he')
    exact hf
  have halone (g : Frame) (rest : Bytes) (hg : g.field ≠ .sixtyFour)
      (he : e.m_Buffer = g.encode ++ rest) :
      ∃ f : Frame, f.contents = g.contents ∧ pending ++ e.m_Buffer = f.encode ++ pending :=
    absurd ⟨g, rest, hg, he⟩ hb
  cases ho : processWholeMessage e.strayRetained (pending ++ e.m_Buffer) with
  | message data rest =>
    obtain ⟨f, hf, hv, -⟩ := processWholeMessage_frame ho
    rw [stepFollows_of_frame hb hf hv, next_eq_none_iff]
    refine ⟨fun hn => ⟨halone, fun _ f' rest' hv' => ?_, fun _ hnone => absurd hv (hnone f rest)⟩,
      fun hc => (hc.single hb f rest hv).2⟩
    obtain ⟨rfl, rfl⟩ := encode_unique (hv.symm.trans hv')
    exact ⟨hf, hn⟩
  | cleared =>
    obtain ⟨hne, h127⟩ := (processWholeMessage_eq_cleared_iff _ _).mp ho
    refine iff_of_false (not_stepFollows_of_cleared hb ho) fun hc => ?_
    have hnone (f : Frame) (rest : Bytes) : pending ++ e.m_Buffer ≠ f.encode ++ rest := fun hv => by
      rw [hv, processWholeMessage_encode, if_neg (hc.single hb f rest hv).1] at ho
      cases ho
    rcases hc.short hb hnone with hnil | h
    · exact hne hnil
    · exact h h127
  | incomplete =>
    have hnone (f : Frame) (rest : Bytes) : pending ++ e.m_Buffer ≠ f.encode ++ rest := fun hv => by
      rw [hv, processWholeMessage_encode] at ho
      split at ho
      · cases ho
      · cases ho
    refine iff_of_true ?_ ⟨halone, fun _ f rest hv => absurd hv (hnone f rest), fun _ _ => ?_⟩
    · obtain ⟨h₁, h₂⟩ := frameCode.complete_of_none (next_eq_none_iff.mpr hnone)
      rw [PrefixCode.StepFollows, h₁, h₂, processInbound_of_not_begins hb, ho]
      rfl
    · by_contra hshort
      rw [not_or, not_not] at hshort
      rw [(processWholeMessage_eq_cleared_iff _ _).mpr hshort] at ho
      cases ho

/-- What is retained of the reads so far. -/
noncomputable def pendingAfter (done : List ReadEvent) : Bytes :=
  frameCode.pending (done.flatMap ReadEvent.m_Buffer)

/-- What a server's stream holds when it has arrived. -/
theorem complete_stream (frames : List ServerFrame) :
    frameCode.complete (stream frames) = frames.map ServerFrame.frame ∧
      frameCode.pending (stream frames) = [] := by
  have h := frameCode.drain_encode (frames.map ServerFrame.frame) frameCode.next_nil
  rw [List.append_nil, List.map_map] at h
  exact h

/-- In the end every frame has been delivered, and nothing is retained. -/
theorem KeepsUp.all_delivered {frames : List ServerFrame} {a : Arrival (stream frames)}
    (h : KeepsUp frames a) :
    steps processInbound a.reads = ([], frames.map fun s => message s.frame) := by
  obtain ⟨h₁, h₂⟩ := complete_stream frames
  have hall := h a.reads (List.prefix_refl _)
  rw [a.flatten_eq, h₁, h₂, List.map_map] at hall
  exact hall

/-- The protocol keeps up with a server exactly if every read is clean, with what is pending
of the reads before it. -/
theorem keepsUp_iff (frames : List ServerFrame) (a : Arrival (stream frames)) :
    KeepsUp frames a ↔
      ∀ done e, done ++ [e] <+: a.reads → Clean (pendingAfter done) e := by
  rw [KeepsUp, frameCode.follows_iff]
  exact forall₂_congr fun done e => imp_congr_right fun _ =>
    stepFollows_iff _ e (frameCode.next_pending _)

/-- An empty binary frame. -/
def emptyFrame : ServerFrame := ⟨true, 2, [], by decide⟩

/-- Two frames in one read. -/
def coalesced : Arrival (stream [emptyFrame, emptyFrame]) where
  reads := [⟨stream [emptyFrame, emptyFrame], fun _ => 0, fun _ => 0⟩]
  flatten_eq := List.append_nil _

/-- The second of two frames in a read is lost. -/
theorem coalesced_frame_lost : ¬ KeepsUp [emptyFrame, emptyFrame] coalesced := by
  intro h
  have hall := congrArg (fun r => r.2.length) h.all_delivered
  exact absurd hall (by decide)

end Domoticz.WebSocket
