import Domoticz.CLib.Number
import Domoticz.Plugin.Python
import Domoticz.Plugin.WebSocket

/-!
# The frames a plugin sends

`CPluginProtocolWS::ProcessOutbound` writes a frame, and `ProcessWholeMessage` reads one.  They
do not agree on the length: from 126 bytes on it is written in four bytes behind the 126, where
the protocol has two, or eight behind a 127.  The length of a `str` is counted in code points,
and its bytes are those of its UTF-8.  Without a mask the payload is combined with what a null
pointer points to.  And what is read is unmasked only if the first byte of the key is not 0.

## Main definitions

* `processOutbound` — the branch of `CPluginProtocolWS::ProcessOutbound` for a frame.
* `FrameRequest` — what a plugin passes to `Send`.
* `RoundTrips` — it is sent as one frame and comes back.
* `Faithful` — the requests for which that is so.

## Main results

* `processOutbound_short` — up to 125 bytes what is sent is a frame.
* `not_frame_of_long` — from 126 bytes on it is none.
* `carried_contents` — the payload that is delivered for a frame.
* `frame_roundTrips_iff` — **a request round-trips exactly if it is faithful.**
* `unmasked_payload_crashes` — a text without a mask.
-/

namespace Domoticz.WebSocket

open CLib

/-! ### The code -/

/-- How `ProcessOutbound` ends without a frame. -/
inductive Stop
  /-- There is a `URL`, and the HTTP protocol does the formatting. -/
  | http
  /-- `return retVal`, which is still empty. -/
  | returned
  /-- `std::string` was made of a null pointer. -/
  | threw
  /-- `pbMask` is null, and there is something to mask. -/
  | crashed
  deriving DecidableEq

/-- A `std::string` of a `str`. -/
def text (s : PyStr) : Except Stop Bytes :=
  match stdString s with
  | some b => .ok b
  | none => .error .threw

/-- The operation code of an operation. -/
def operationCode (sOperation : Bytes) : UInt8 :=
  if sOperation = str "Ping" then 0x09
  else if sOperation = str "Pong" then 0x0A
  else if sOperation = str "Close" then 0x08
  else 0

/-- The operation code that is asked for, or 0. -/
def operation : Option PyObject → Except Stop UInt8
  | none => .ok 0
  | some (.str brOperation) => (text brOperation).map operationCode
  | some _ => .error .returned

/-- `lPayloadLength`; a `str` has as many as it has code points. -/
def payloadLength : Option PyObject → ℕ
  | some (.str s) => s.length
  | some (.bytes s) => s.length
  | some (.bytearray s) => s.length
  | _ => 0

/-- The operation code for a type of payload. -/
def payloadCode : Option PyObject → UInt8
  | some (.str _) => 0x01
  | some (.bytes _) => 0x02
  | some (.bytearray _) => 0x02
  | _ => 0

/-- `lMaskingKey`, if there is a mask. -/
def maskingKey : Option PyObject → Except Stop (Option ℤ)
  | none => .ok none
  | some (.str brMask) => (text brMask).map fun sMask => some (atoi sMask)
  | some brMask =>
      match long? (some brMask) with
      | some lMaskingKey => .ok (some lMaskingKey)
      | none => .error .returned

/-- The bytes of the key. -/
def keyBytes (lMaskingKey : ℤ) : Bytes :=
  [byteOf (lMaskingKey / 2 ^ 24), byteOf (lMaskingKey / 2 ^ 16), byteOf (lMaskingKey / 2 ^ 8),
    byteOf lMaskingKey]

/-- The second byte, and the length behind it. -/
def lengthBytes (bMaskBit : UInt8) (lPayloadLength : ℕ) : Bytes :=
  if lPayloadLength < 126 then [bMaskBit ||| UInt8.ofNat lPayloadLength]
  else (bMaskBit ||| 126) :: beBytes 4 lPayloadLength

/-- The loop over a payload, which is read by index. -/
def masked (pbMask : Option Bytes) (lPayloadLength : ℕ) (payload : ℕ → UInt8) : Except Stop Bytes :=
  match pbMask with
  | some pbMask =>
      .ok ((List.range lPayloadLength).map fun i => payload i ^^^ pbMask.getD (i % 4) 0)
  | none => if lPayloadLength = 0 then .ok [] else .error .crashed

/-- `sPayload[i]`, for which there is a NUL behind the text. -/
def charAt (stray : ℕ → UInt8) (sPayload : Bytes) : ℕ → UInt8 :=
  byteAt (fun i => if i = sPayload.length then 0 else stray i) sPayload

/-- What is written of a payload. -/
def maskedPayload (stray : ℕ → UInt8) (pbMask : Option Bytes) : Option PyObject → Except Stop Bytes
  | some (.str s) => do
      let sPayload ← text s
      masked pbMask s.length (charAt stray sPayload)
  | some (.bytes s) => masked pbMask s.length (byteAt stray s)
  | some (.bytearray s) => masked pbMask s.length (byteAt stray s)
  | _ => .ok []

/-- `CPluginProtocolWS::ProcessOutbound`; `stray` is what lies in memory behind the payload. -/
def processOutbound (stray : ℕ → UInt8) (m_Object : Option PyObject) : Except Stop Bytes :=
  match m_Object with
  | some (.dict dict) =>
      if (getItemString dict "URL").isSome then .error .http
      else do
        let iOpCode ← operation (getItemString dict "Operation")
        let brPayload := getItemString dict "Payload"
        let iOpCode := if iOpCode = 0 then payloadCode brPayload else iOpCode
        let lMaskingKey ← maskingKey (getItemString dict "Mask")
        let bMaskBit := if lMaskingKey.isSome then (0x80 : UInt8) else 0
        let pbMask := lMaskingKey.map keyBytes
        let payload ← maskedPayload stray pbMask brPayload
        return ((0x80 : UInt8) ||| iOpCode) ::
          (lengthBytes bMaskBit (payloadLength brPayload) ++ (pbMask.getD [] ++ payload))
  | _ => .error .returned

/-! ### Requests -/

/-- A mask, as it may be set. -/
inductive MaskSetting
  | int (i : ℤ)
  | str (s : PyStr)

/-- The object of a mask. -/
def MaskSetting.object : MaskSetting → PyObject
  | .int i => .int i
  | .str s => .str s

/-- A message for a websocket. -/
structure FrameRequest where
  operation : Option PyStr
  payload : Payload
  mask : Option MaskSetting

namespace FrameRequest

variable (r : FrameRequest)

/-- The dictionary that is passed to `Send`. -/
def dict : PyDict :=
  (r.operation.elim [] fun s => [(pyStr "Operation", .str s)]) ++
    (pyStr "Payload", r.payload.object) ::
      r.mask.elim [] fun m => [(pyStr "Mask", m.object)]

/-- The operation and the mask are accepted: their texts have a UTF-8. -/
def Accepted : Prop :=
  (∀ s, r.operation = some s → (asUTF8 s).isSome) ∧
    ∀ s, r.mask = some (.str s) → (asUTF8 s).isSome

/-- The number of a mask. -/
def key : Option ℤ :=
  match r.mask with
  | none => none
  | some (.int i) => some (asLong i)
  | some (.str s) => (stdString s).map atoi

/-- The operation code of the protocol. -/
def opcode : UInt8 :=
  let iOpCode := (r.operation.bind stdString).elim (0 : UInt8) operationCode
  if iOpCode = 0 then payloadCode (some r.payload.object) else iOpCode

end FrameRequest

/-- The bytes of a payload that was delivered; the number of a `Close` stands for its two
bytes. -/
def valueBytes : PyValue → Bytes
  | .text s => s
  | .bytes s => s
  | .int i => [byteOf (i / 256), byteOf i]
  | _ => []

/-- The payload of a message. -/
def carried (data : Dict) : Bytes := (data.lookup (str "Payload")).elim [] valueBytes

/-- The operation of a message. -/
def delivered (data : Dict) : Option Bytes :=
  match data.lookup (str "Operation") with
  | some (.text s) => some s
  | _ => none

/-- What is sent is one final frame with the operation code, the shortest length field and a mask
if there is one to be; and the whole of it is read, with the operation and the payload of the
request; and that whatever lies in memory behind the payload. -/
def RoundTrips (r : FrameRequest) : Prop :=
  r.Accepted → ∀ stray, ∃ (f : Frame) (payload : Bytes) (data : Dict), r.payload.content = some payload ∧
    processOutbound stray (some (.dict r.dict)) = .ok f.encode ∧ f.first = 0x80 ||| r.opcode ∧
    f.field = shortest f.payload.length ∧ f.mask.isSome = r.mask.isSome ∧
    (∀ stray', processWholeMessage stray' f.encode = .message data []) ∧
    delivered data = r.operation.bind asUTF8 ∧ carried data = payload

/-- The texts of the operations. -/
def operations : List Bytes := [str "Ping", str "Pong", str "Close"]

/-- A `str` survives if it is ASCII.  In a text frame it has no NUL, and with an operation none
but at its end. -/
def TextSurvives (s : PyStr) (operation : Option PyStr) (payload : Bytes) : Prop :=
  payload.length = s.length ∧
    if operation.isSome then 0 ∉ payload.dropLast else 0 ∉ payload

/-- What survives: the operation is none or one that is known, there are up to 125 bytes of
payload, masked unless it is empty, with a key whose first byte is not 0, or all whose bytes
that are used are. -/
structure Faithful (r : FrameRequest) (payload : Bytes) : Prop where
  operation_ok : ∀ s, r.operation = some s → ∃ name ∈ operations, asUTF8 s = some name
  length_lt : payload.length < 126
  mask_ok : payload ≠ [] → ∃ key, r.key = some key ∧
    (byteOf (key / 2 ^ 24) ≠ 0 ∨ ∀ i < payload.length, (keyBytes key).getD (i % 4) 0 = 0)
  text_ok : ∀ s, r.payload = .str s → TextSurvives s r.operation payload

/-! ### What is sent -/

theorem stdString_of_isSome {s : PyStr} (h : (asUTF8 s).isSome) : ∃ b, stdString s = some b := by
  obtain ⟨b, hb⟩ := Option.isSome_iff_exists.mp h
  exact ⟨cstr b, by rw [stdString, hb, Option.map_some]⟩

theorem operation_eq {r : FrameRequest} (h : r.Accepted) :
    operation (r.operation.map .str) =
      .ok ((r.operation.bind stdString).elim (0 : UInt8) operationCode) := by
  cases hop : r.operation with
  | none => rfl
  | some s =>
    obtain ⟨b, hb⟩ := stdString_of_isSome (h.1 s hop)
    rw [Option.map_some, Option.bind_some, operation, text, hb]
    rfl

theorem maskingKey_eq {r : FrameRequest} (h : r.Accepted) :
    maskingKey (r.mask.map MaskSetting.object) = .ok r.key := by
  unfold FrameRequest.key
  cases hm : r.mask with
  | none => rfl
  | some m =>
    cases m with
    | int i => rfl
    | str s =>
      obtain ⟨b, hb⟩ := stdString_of_isSome (h.2 s hm)
      rw [Option.map_some, MaskSetting.object, maskingKey, text, hb]
      simp only [hb]
      rfl

theorem isSome_key {r : FrameRequest} (h : r.Accepted) : r.key.isSome = r.mask.isSome := by
  unfold FrameRequest.key
  cases hm : r.mask with
  | none => rfl
  | some m =>
    cases m with
    | int i => rfl
    | str s =>
      obtain ⟨b, hb⟩ := stdString_of_isSome (h.2 s hm)
      simp only [hb]
      rfl

theorem getItemString_dict (r : FrameRequest) :
    getItemString r.dict "URL" = none ∧
      getItemString r.dict "Operation" = r.operation.map .str ∧
      getItemString r.dict "Payload" = some r.payload.object ∧
      getItemString r.dict "Mask" = r.mask.map MaskSetting.object := by
  unfold FrameRequest.dict
  cases r.operation with
  | none =>
    cases r.mask with
    | none => exact ⟨rfl, rfl, rfl, rfl⟩
    | some m => exact ⟨rfl, rfl, rfl, rfl⟩
  | some s =>
    cases r.mask with
    | none => exact ⟨rfl, rfl, rfl, rfl⟩
    | some m => exact ⟨rfl, rfl, rfl, rfl⟩

/-- What is sent, as far as the payload can be written. -/
theorem processOutbound_eq (stray : ℕ → UInt8) {r : FrameRequest} (h : r.Accepted) :
    processOutbound stray (some (.dict r.dict)) =
      (maskedPayload stray (r.key.map keyBytes) (some r.payload.object)).map fun payload =>
        ((0x80 : UInt8) ||| r.opcode) ::
          (lengthBytes (if r.key.isSome then (0x80 : UInt8) else 0)
            (payloadLength (some r.payload.object)) ++ ((r.key.map keyBytes).getD [] ++ payload)) := by
  obtain ⟨hurl, hop, hpayload, hmask⟩ := getItemString_dict r
  unfold processOutbound
  simp only [hurl, hop, hpayload, hmask, Option.isSome_none, Bool.false_eq_true, if_false,
    operation_eq h, maskingKey_eq h, bind, Except.bind, pure, Except.pure]
  cases maskedPayload stray (r.key.map keyBytes) (some r.payload.object) with
  | error stop => rfl
  | ok payload => rfl

/-- The bytes of a payload, by index. -/
def source (stray : ℕ → UInt8) : Payload → Option (ℕ → UInt8)
  | .str s => (stdString s).map (charAt stray)
  | .bytes s => some (byteAt stray s)
  | .bytearray s => some (byteAt stray s)

theorem maskedPayload_eq (stray : ℕ → UInt8) (pbMask : Option Bytes) (p : Payload) :
    maskedPayload stray pbMask (some p.object) = match source stray p with
      | some payload => masked pbMask (payloadLength (some p.object)) payload
      | none => .error .threw := by
  cases p with
  | bytes s => rfl
  | bytearray s => rfl
  | str s =>
    rw [Payload.object, maskedPayload, source, text]
    cases hs : stdString s with
    | none => rfl
    | some b => rfl

/-- A mask on the wire, by its number. -/
def mask (lMaskingKey : ℤ) : Mask := ⟨keyBytes lMaskingKey, rfl⟩

/-- A payload combined with the key. -/
def combined (key : Option ℤ) (payload : ℕ → UInt8) (n : ℕ) : Bytes :=
  (List.range n).map fun i => payload i ^^^ ((key.map keyBytes).getD []).getD (i % 4) 0

@[simp] theorem length_combined (key : Option ℤ) (payload : ℕ → UInt8) (n : ℕ) :
    (combined key payload n).length = n := by
  rw [combined, List.length_map, List.length_range]

/-- What is written of a payload: with a mask the bytes combined with the key, without one
nothing, and that only if there is nothing to write. -/
theorem masked_eq_ok_iff {key : Option ℤ} {n : ℕ} {payload : ℕ → UInt8} {sent : Bytes} :
    masked (key.map keyBytes) n payload = .ok sent ↔
      (key = none → n = 0) ∧ sent = combined key payload n := by
  unfold combined
  cases key with
  | some k =>
    show Except.ok _ = Except.ok sent ↔ _
    rw [Except.ok.injEq]
    exact ⟨fun h => ⟨nofun, h.symm⟩, fun h => h.2.symm⟩
  | none =>
    show (if n = 0 then Except.ok [] else Except.error Stop.crashed) = Except.ok sent ↔ _
    by_cases hn : n = 0
    · subst hn
      rw [if_pos rfl, Except.ok.injEq]
      exact ⟨fun h => ⟨fun _ => rfl, h.symm⟩, fun h => h.2.symm⟩
    · rw [if_neg hn]
      exact ⟨nofun, fun h => absurd (h.1 rfl) hn⟩

/-- Up to 125 bytes what is sent is a frame. -/
theorem lengthBytes_short (key : Option ℤ) (first : UInt8) {sent : Bytes} {n : ℕ}
    (hn : sent.length = n) (h : sent.length < 126) :
    first :: (lengthBytes (if key.isSome then (0x80 : UInt8) else 0) n ++
        ((key.map keyBytes).getD [] ++ sent)) =
      Frame.encode ⟨first, key.map mask, .seven, sent, h⟩ := by
  subst hn
  have hsecond : (if key.isSome then (0x80 : UInt8) else 0) ||| UInt8.ofNat sent.length =
      Frame.second ⟨first, key.map mask, .seven, sent, h⟩ := by
    rw [Frame.second]
    cases key with
    | none =>
      show 0 ||| UInt8.ofNat sent.length = UInt8.ofNat (0 + sent.length)
      rw [UInt8.zero_or, Nat.zero_add]
    | some k =>
      show 128 ||| UInt8.ofNat sent.length = UInt8.ofNat (128 + sent.length)
      rw [UInt8.or_comm, or_128 (by omega), Nat.add_comm]
  have hmask : (key.map keyBytes).getD [] = maskBytes (key.map mask) := by
    cases key with
    | none => rfl
    | some k => rfl
  rw [lengthBytes, if_pos h, hsecond, hmask]
  rfl

/-- From 126 bytes on, what is sent is no frame: the two bytes that have the length would have to
count two more bytes than there are, and they have it divided by 65536. -/
theorem not_frame_of_long (key : Option ℤ) (first : UInt8) {sent : Bytes} {n : ℕ}
    (hn : sent.length = n) (h : ¬ n < 126) (f : Frame) :
    first :: (lengthBytes (if key.isSome then (0x80 : UInt8) else 0) n ++
        ((key.map keyBytes).getD [] ++ sent)) ≠ f.encode := by
  subst hn
  intro heq
  obtain ⟨-, hrest⟩ := List.cons.inj heq
  rw [lengthBytes, if_neg h, List.cons_append] at hrest
  obtain ⟨hsecond, htail⟩ := List.cons.inj hrest
  have hlow := f.second_low
  have hmask := f.second_mask
  rw [← hsecond] at hlow hmask
  have hbits : (((if key.isSome then (0x80 : UInt8) else 0) ||| 126) &&& 0x7F).toNat = 126 ∧
      decide (((if key.isSome then (0x80 : UInt8) else 0) ||| 126) &&& 0x80 ≠ 0) = key.isSome := by
    cases key.isSome with
    | false => exact ⟨rfl, rfl⟩
    | true => exact ⟨rfl, rfl⟩
  rw [hbits.1] at hlow
  rw [hbits.2] at hmask
  have hkey : ((key.map keyBytes).getD []).length = (maskBytes f.mask).length := by
    rw [length_maskBytes, ← hmask]
    cases key with
    | none => rfl
    | some k => rfl
  have hlength := congrArg List.length htail
  rw [List.length_append, List.length_append, List.length_append, List.length_append, hkey,
    length_beBytes] at hlength
  -- Only the field of two bytes goes with a 126.
  have hlt := f.length_lt
  cases hf : f.field with
  | seven =>
    rw [hf] at hlow hlt
    exact absurd hlow.symm (Nat.ne_of_lt hlt)
  | sixtyFour =>
    rw [hf] at hlow
    exact absurd hlow (by decide : (126 : ℕ) ≠ 127)
  | sixteen =>
    rw [hf, LengthField.extended, length_beBytes] at hlength
    rw [hf] at hlt
    have hlt : f.payload.length < 256 ^ 2 := hlt
    rw [hf, LengthField.extended] at htail
    have hsplit : beBytes 4 sent.length = beBytes 2 (sent.length / 256 / 256) ++
        [UInt8.ofNat (sent.length / 256 % 256), UInt8.ofNat (sent.length % 256)] := rfl
    rw [hsplit, List.append_assoc] at htail
    obtain ⟨hfront, -⟩ := List.append_inj htail (by rw [length_beBytes, length_beBytes])
    have heq := beBytes_injective (show sent.length / 256 / 256 < 256 ^ 2 by omega) hlt hfront
    omega

/-! ### What is delivered -/

theorem carried_append (entries : Dict) (value : Option PyValue)
    (h : entries.lookup (str "Payload") = none) :
    carried (entries ++ value.elim [] fun payload => [(str "Payload", payload)]) =
      value.elim [] valueBytes := by
  rw [carried, List.lookup_append, h, Option.none_or]
  cases value with
  | none => rfl
  | some payload => rfl

theorem delivered_append (entries : Dict) (value : Option PyValue) :
    delivered (entries ++ value.elim [] fun payload => [(str "Payload", payload)]) =
      delivered entries := by
  have hnone : (value.elim [] fun payload => [(str "Payload", payload)]).lookup (str "Operation") =
      none := by
    cases value with
    | none => rfl
    | some payload => rfl
  rw [delivered, List.lookup_append, hnone, Option.or_none]
  rfl

/-- The bytes of what becomes of a payload: those of a text end at a NUL, if it is UTF-8. -/
theorem valueBytes_payload (iOpCode : UInt8) (v : Bytes) :
    ((handledPayload iOpCode v).or (if v.isEmpty then none else some (.bytes v))).elim [] valueBytes =
      if iOpCode = 0x01 ∧ (buildString v).isSome then cstr v else v := by
  have hrest : (if v.isEmpty then none else some (PyValue.bytes v)).elim [] valueBytes = v := by
    cases v with
    | nil => rfl
    | cons b v => rfl
  by_cases h1 : iOpCode = 0x01
  · have hhandled : handledPayload iOpCode v = buildString v := if_pos h1
    rw [hhandled]
    by_cases hvalid : (ByteArray.mk (cstr v).toArray).validateUTF8 = true
    · have htext : buildString v = some (.text (cstr v)) := if_pos hvalid
      rw [htext]
      exact (if_pos ⟨h1, rfl⟩).symm
    · have hnone : buildString v = none := if_neg hvalid
      rw [hnone, Option.none_or, hrest]
      exact (if_neg fun h => Bool.false_ne_true h.2).symm
  · rw [if_neg fun h : iOpCode = 0x01 ∧ _ => h1 h.1]
    by_cases h8 : iOpCode = 0x08 ∧ v.length = 2
    · have hhandled : handledPayload iOpCode v =
          some (.int (number (v.getD 0 0) (v.getD 1 0))) := (if_neg h1).trans (if_pos h8)
      rw [hhandled, Option.some_or]
      match v, h8.2 with
      | [a, b], _ =>
        have hb := b.toNat_lt
        have ha := a.toNat_lt
        show [byteOf ((number a b : ℕ) / 256), byteOf (number a b : ℕ)] = [a, b]
        have hhigh : byteOf ((number a b : ℕ) / 256) = a := by
          rw [← UInt8.toNat_inj]
          have hval := toNat_byteOf ((number a b : ℕ) / 256)
          rw [number] at hval ⊢
          omega
        have hlow : byteOf (number a b : ℕ) = b := by
          rw [← UInt8.toNat_inj]
          have hval := toNat_byteOf (number a b : ℕ)
          rw [number] at hval ⊢
          omega
        rw [hhigh, hlow]
    · have hhandled : handledPayload iOpCode v = none := (if_neg h1).trans (if_neg h8)
      rw [hhandled, Option.none_or]
      exact hrest

/-- The payload that is delivered. -/
theorem carried_dataDict (bFinish : Bool) (lMaskingKey : ℕ) (iOpCode : UInt8) (v : Bytes) :
    carried (dataDict bFinish lMaskingKey iOpCode v) =
      if iOpCode = 0x01 ∧ (buildString v).isSome then cstr v else v := by
  rw [← valueBytes_payload]
  apply carried_append
  split
  · split
    · rfl
    · rfl
  · split
    · rfl
    · split
      · rfl
      · split
        · rfl
        · rfl

/-- The operation that is delivered. -/
theorem delivered_dataDict (bFinish : Bool) (lMaskingKey : ℕ) (iOpCode : UInt8) (v : Bytes) :
    delivered (dataDict bFinish lMaskingKey iOpCode v) =
      if iOpCode = 0x08 then some (str "Close")
      else if iOpCode = 0x09 then some (str "Ping")
      else if iOpCode = 0x0A then some (str "Pong")
      else none := by
  apply (delivered_append _ _).trans
  split
  · split
    · rfl
    · rfl
  · split
    · rfl
    · split
      · rfl
      · split
        · rfl
        · rfl

/-- The operation codes of requests. -/
theorem opcode_cases (r : FrameRequest) :
    r.opcode = 0x01 ∨ r.opcode = 0x02 ∨ r.opcode = 0x08 ∨ r.opcode = 0x09 ∨ r.opcode = 0x0A := by
  have hcode : payloadCode (some r.payload.object) = 0x01 ∨
      payloadCode (some r.payload.object) = 0x02 := by
    cases r.payload with
    | str s => exact .inl rfl
    | bytes s => exact .inr rfl
    | bytearray s => exact .inr rfl
  have hop : ∀ o : Option Bytes, o.elim (0 : UInt8) operationCode = 0 ∨
      o.elim (0 : UInt8) operationCode = 0x08 ∨ o.elim (0 : UInt8) operationCode = 0x09 ∨
      o.elim (0 : UInt8) operationCode = 0x0A := by
    rintro (_ | b)
    · exact .inl rfl
    · show operationCode b = 0 ∨ operationCode b = 0x08 ∨ operationCode b = 0x09 ∨
        operationCode b = 0x0A
      unfold operationCode
      split
      · exact .inr (.inr (.inl rfl))
      · split
        · exact .inr (.inr (.inr rfl))
        · split
          · exact .inr (.inl rfl)
          · exact .inl rfl
  unfold FrameRequest.opcode
  simp only
  rcases hop (r.operation.bind stdString) with h | h | h | h
  · rw [if_pos h]
    rcases hcode with hc | hc
    · exact .inl hc
    · exact .inr (.inl hc)
  · rw [if_neg (by rw [h]; decide)]
    exact .inr (.inr (.inl h))
  · rw [if_neg (by rw [h]; decide)]
    exact .inr (.inr (.inr (.inl h)))
  · rw [if_neg (by rw [h]; decide)]
    exact .inr (.inr (.inr (.inr h)))

theorem and_opcode (r : FrameRequest) : ((0x80 : UInt8) ||| r.opcode) &&& 0x0F = r.opcode := by
  rcases opcode_cases r with h | h | h | h | h
  · rw [h]
    rfl
  · rw [h]
    rfl
  · rw [h]
    rfl
  · rw [h]
    rfl
  · rw [h]
    rfl

/-- A text frame is made of a `str` alone. -/
theorem opcode_eq_one_iff (r : FrameRequest) : r.opcode = 0x01 ↔
    (r.operation.bind stdString).elim (0 : UInt8) operationCode = 0 ∧ ∃ s, r.payload = .str s := by
  unfold FrameRequest.opcode
  simp only
  by_cases h : (r.operation.bind stdString).elim (0 : UInt8) operationCode = 0
  · rw [if_pos h]
    cases r.payload with
    | str s => exact iff_of_true rfl ⟨h, s, rfl⟩
    | bytes s => exact iff_of_false (show (0x02 : UInt8) ≠ 0x01 by decide) (by simp)
    | bytearray s => exact iff_of_false (show (0x02 : UInt8) ≠ 0x01 by decide) (by simp)
  · rw [if_neg h]
    refine iff_of_false ?_ fun h' => h h'.1
    cases hb : r.operation.bind stdString with
    | none => exact absurd (by rw [hb]; rfl) h
    | some b =>
      show operationCode b ≠ 0x01
      unfold operationCode
      split
      · decide
      · split
        · decide
        · split
          · decide
          · decide

/-! ### The payload that is received -/

/-- What of the key is left in a byte of the payload. -/
def left : Option ℤ → ℕ → UInt8
  | none, _ => 0
  | some key, i => if byteOf (key / 2 ^ 24) ≠ 0 then 0 else (keyBytes key).getD (i % 4) 0

/-- The payload as it is received. -/
def received (key : Option ℤ) (payload : ℕ → UInt8) (n : ℕ) : Bytes :=
  (List.range n).map fun i => payload i ^^^ left key i

theorem unmask_map_range (pbMask : Bytes) (payload : ℕ → UInt8) (n : ℕ) :
    unmask pbMask ((List.range n).map payload) =
      (List.range n).map fun i => payload i ^^^ pbMask.getD (i % 4) 0 := by
  apply List.ext_getElem
  · simp [unmask]
  · intro i hi _
    simp [unmask]

/-- The message for the frame of a request. -/
theorem contents_eq (r : FrameRequest) (key : Option ℤ) (payload : ℕ → UInt8) {n : ℕ}
    (h : (combined key payload n).length < 126) :
    ∃ lMaskingKey : ℕ, Frame.contents ⟨0x80 ||| r.opcode, key.map mask, .seven, _, h⟩ =
      dataDict (decide (((0x80 : UInt8) ||| r.opcode) &&& 0x80 ≠ 0)) lMaskingKey r.opcode
        (received key payload n) := by
  cases key with
  | none =>
    refine ⟨0, ?_⟩
    rw [Frame.contents, and_opcode]
    rfl
  | some key =>
    have hkey : (keyBytes key).getD 0 0 = byteOf (key / 2 ^ 24) := rfl
    have hbytes : maskBytes ((some key).map mask) = keyBytes key := rfl
    refine ⟨(byteOf (key / 2 ^ 24)).toNat, ?_⟩
    rw [Frame.contents, and_opcode]
    simp only [hbytes, hkey]
    congr 1
    by_cases hzero : byteOf (key / 2 ^ 24) = 0
    · rw [hzero, if_neg (by decide), received, combined]
      simp only [left, hzero, ne_eq, not_true_eq_false, if_false]
      rfl
    · have hnat : (byteOf (key / 2 ^ 24)).toNat ≠ 0 := by
        intro h
        apply hzero
        rw [← UInt8.toNat_inj, h]
        rfl
      rw [if_pos hnat, combined, unmask_map_range]
      apply List.map_congr_left
      intro i _
      rw [UInt8.xor_assoc, left, if_pos hzero]
      exact congrArg _ UInt8.xor_self

/-- The payload that is carried is that of the request only if it is received as it was. -/
theorem carried_eq_iff (bFinish : Bool) (lMaskingKey : ℕ) {iOpCode : UInt8} {v payload : Bytes}
    (hlen : v.length ≤ payload.length) (htext : iOpCode = 0x01 → ∃ s, asUTF8 s = some payload) :
    carried (dataDict bFinish lMaskingKey iOpCode v) = payload ↔
      v = payload ∧ (iOpCode = 0x01 → 0 ∉ payload) := by
  rw [carried_dataDict]
  constructor
  · intro h
    by_cases htrue : iOpCode = 0x01 ∧ (buildString v).isSome
    · rw [if_pos htrue] at h
      have hle := (List.takeWhile_prefix (p := (· != 0)) (l := v)).length_le
      have hcstr : cstr v = v := by
        apply (List.takeWhile_prefix (p := (· != 0)) (l := v)).eq_of_length
        have hlength := congrArg List.length h
        unfold cstr at hlength
        omega
      rw [hcstr] at h
      subst h
      exact ⟨rfl, fun _ => (cstr_eq_self_iff v).mp hcstr⟩
    · rw [if_neg htrue] at h
      subst h
      refine ⟨rfl, fun hone => ?_⟩
      obtain ⟨s, hs⟩ := htext hone
      obtain ⟨s', hs'⟩ := exists_asUTF8_cstr hs
      have hvalid : buildString v = some (.text (cstr v)) := if_pos (validateUTF8_of_asUTF8 hs')
      exact absurd ⟨hone, by rw [hvalid]; rfl⟩ htrue
  · rintro ⟨rfl, hzero⟩
    split
    · next h => exact cstr_of_notMem (hzero h.1)
    · rfl

theorem received_eq_iff {key : Option ℤ} {payload : ℕ → UInt8} {n : ℕ} {b : Bytes} :
    received key payload n = b ↔
      b.length = n ∧ ∀ i < n, payload i ^^^ left key i = b.getD i 0 := by
  unfold received
  constructor
  · rintro rfl
    have hlen : ((List.range n).map fun i => payload i ^^^ left key i).length = n := by simp
    refine ⟨hlen, ?_⟩
    intro i hi
    rw [List.getD_eq_getElem _ _ (by omega), List.getElem_map, List.getElem_range]
  · rintro ⟨rfl, h⟩
    apply List.ext_getElem
    · simp
    · intro i hi hi'
      rw [List.getElem_map, List.getElem_range, h i hi', List.getD_eq_getElem _ _ hi']

theorem xor_eq_left_iff (a b : UInt8) : a ^^^ b = a ↔ b = 0 := by
  constructor
  · intro h
    have hb := congrArg (a ^^^ ·) h
    simp only [← UInt8.xor_assoc, UInt8.xor_self, UInt8.zero_xor] at hb
    exact hb
  · rintro rfl
    exact UInt8.xor_zero

/-- Of binary data what is received is what was sent, if nothing of the key is left in it. -/
theorem received_bytes_iff (key : Option ℤ) (stray : ℕ → UInt8) (b : Bytes) :
    received key (byteAt stray b) b.length = b ↔ ∀ i < b.length, left key i = 0 := by
  have hat (i : ℕ) (hi : i < b.length) : byteAt stray b i = b.getD i 0 := by
    rw [byteAt, List.getD_eq_getElem _ _ hi, List.getD_eq_getElem _ _ hi]
  rw [received_eq_iff]
  constructor
  · rintro ⟨-, h⟩ i hi
    have hbyte := h i hi
    rw [hat i hi] at hbyte
    exact (xor_eq_left_iff _ _).mp hbyte
  · intro h
    refine ⟨rfl, ?_⟩
    intro i hi
    rw [h i hi, UInt8.xor_zero]
    exact hat i hi

/-- The text up to its NUL, and the NUL, are read as they are. -/
theorem charAt_cstr {stray : ℕ → UInt8} {b : Bytes} {i : ℕ} (hi : i ≤ (cstr b).length) :
    charAt stray (cstr b) i = b.getD i 0 := by
  obtain ⟨rest, hb, -, hrest⟩ := exists_cstr_append b
  unfold charAt byteAt
  rcases Nat.lt_or_eq_of_le hi with h | h
  · rw [List.getD_eq_getElem _ _ h]
    conv_rhs => rw [hb]
    rw [List.getD_append _ _ _ _ h, List.getD_eq_getElem _ _ h]
  · rw [List.getD_eq_default _ _ h.ge]
    apply (if_pos h).trans
    conv_rhs => rw [hb]
    rw [List.getD_append_right _ _ _ _ h.ge, h, Nat.sub_self]
    rcases hrest with rfl | ⟨t, rfl⟩
    · rfl
    · rfl

/-- A NUL ends a text, unless it is the last byte. -/
theorem notMem_dropLast_iff (b : Bytes) : 0 ∉ b.dropLast ↔ b.length ≤ (cstr b).length + 1 := by
  obtain ⟨rest, hb, hzero, hrest⟩ := exists_cstr_append b
  have hlen := congrArg List.length hb
  rw [List.length_append] at hlen
  rcases hrest with rfl | ⟨t, rfl⟩
  · rw [List.append_nil] at hb
    refine iff_of_true ?_ (by rw [List.length_nil] at hlen; omega)
    intro hmem
    rw [← hb] at hzero
    exact hzero (List.mem_of_mem_dropLast hmem)
  · rw [List.length_cons] at hlen
    cases t with
    | nil =>
      refine iff_of_true ?_ (by rw [List.length_nil] at hlen; omega)
      rw [hb, List.dropLast_concat]
      exact hzero
    | cons x t =>
      refine iff_of_false ?_ (by rw [List.length_cons] at hlen; omega)
      rw [not_not, hb, List.dropLast_append_of_ne_nil (List.cons_ne_nil 0 _),
        List.dropLast_cons_of_ne_nil (List.cons_ne_nil x t)]
      exact List.mem_append_right _ List.mem_cons_self

/-- Of a text what is received is what was sent, whatever lies behind it, if its code points have
one byte each, there is no NUL but at its end, and nothing of the key is left in it. -/
theorem received_text_iff (key : Option ℤ) {n : ℕ} {b : Bytes} :
    (∀ stray, received key (charAt stray (cstr b)) n = b) ↔
      b.length = n ∧ 0 ∉ b.dropLast ∧ ∀ i < b.length, left key i = 0 := by
  rw [notMem_dropLast_iff]
  constructor
  · intro h
    obtain ⟨hlen, -⟩ := received_eq_iff.mp (h fun _ => 0)
    have hshort : b.length ≤ (cstr b).length + 1 := by
      by_contra hlong
      -- The byte behind the NUL is whatever lies in memory.
      have hbyte (x : UInt8) :
          x ^^^ left key ((cstr b).length + 1) = b.getD ((cstr b).length + 1) 0 := by
        have hx := (received_eq_iff.mp (h fun _ => x)).2 ((cstr b).length + 1) (by omega)
        have hcharAt : charAt (fun _ => x) (cstr b) ((cstr b).length + 1) = x := by
          unfold charAt byteAt
          rw [List.getD_eq_default _ _ (by omega)]
          exact if_neg (by omega)
        rwa [hcharAt] at hx
      have heq := (UInt8.xor_left_inj _).mp ((hbyte 0).trans (hbyte 1).symm)
      exact absurd heq (by decide)
    refine ⟨hlen, hshort, ?_⟩
    intro i hi
    have hbyte := (received_eq_iff.mp (h fun _ => 0)).2 i (by omega)
    rw [charAt_cstr (by omega)] at hbyte
    exact (xor_eq_left_iff _ _).mp hbyte
  · rintro ⟨hlen, hshort, hleft⟩ stray
    apply received_eq_iff.mpr
    refine ⟨hlen, ?_⟩
    intro i hi
    rw [hleft i (by omega), UInt8.xor_zero, charAt_cstr (by omega)]

/-! ### The round trip -/

theorem stdString_operation {s : PyStr} {name : Bytes} (hname : name ∈ operations)
    (h : asUTF8 s = some name) : stdString s = some name ∧ operationCode name ≠ 0 := by
  have hall : ∀ b ∈ operations, cstr b = b ∧ operationCode b ≠ 0 := by
    unfold operations
    rw [List.forall_mem_cons, List.forall_mem_cons, List.forall_mem_singleton]
    exact ⟨by decide, by decide, by decide⟩
  obtain ⟨hcstr, hcode⟩ := hall name hname
  refine ⟨?_, hcode⟩
  rw [stdString, h, Option.map_some, hcstr]

/-- The operation that is delivered is that of the request if it is none or one that is known. -/
theorem delivered_eq_iff {r : FrameRequest} (haccepted : r.Accepted) (bFinish : Bool)
    (lMaskingKey : ℕ) (v : Bytes) :
    delivered (dataDict bFinish lMaskingKey r.opcode v) = r.operation.bind asUTF8 ↔
      ∀ s, r.operation = some s → ∃ name ∈ operations, asUTF8 s = some name := by
  rw [delivered_dataDict]
  cases hop : r.operation with
  | none =>
    -- without an operation the opcode is that of the data
    have hcode : r.opcode = payloadCode (some r.payload.object) := by
      unfold FrameRequest.opcode
      rw [hop]
      exact if_pos rfl
    have hnone : ¬ (r.opcode = 0x08 ∨ r.opcode = 0x09 ∨ r.opcode = 0x0A) := by
      rw [hcode]
      cases r.payload with
      | str s => exact (by decide : ¬ ((1 : UInt8) = 0x08 ∨ (1 : UInt8) = 0x09 ∨ (1 : UInt8) = 0x0A))
      | bytes s => exact (by decide : ¬ ((2 : UInt8) = 0x08 ∨ (2 : UInt8) = 0x09 ∨ (2 : UInt8) = 0x0A))
      | bytearray s =>
        exact (by decide : ¬ ((2 : UInt8) = 0x08 ∨ (2 : UInt8) = 0x09 ∨ (2 : UInt8) = 0x0A))
    rw [not_or, not_or] at hnone
    rw [if_neg hnone.1, if_neg hnone.2.1, if_neg hnone.2.2]
    exact iff_of_true rfl nofun
  | some s =>
    -- the operation is looked up as it was spelled
    obtain ⟨name, hname⟩ := Option.isSome_iff_exists.mp (haccepted.1 s hop)
    rw [Option.bind_some, hname]
    constructor
    · intro h t ht
      obtain rfl := Option.some.inj ht
      refine ⟨name, ?_, hname⟩
      unfold operations
      split at h
      · rw [← Option.some.inj h]
        decide
      · split at h
        · rw [← Option.some.inj h]
          decide
        · split at h
          · rw [← Option.some.inj h]
            decide
          · cases h
    · intro h
      obtain ⟨name', hmem, hname'⟩ := h s rfl
      obtain ⟨hstd, hne⟩ := stdString_operation hmem hname'
      obtain rfl : name' = name := Option.some.inj (hname'.symm.trans hname)
      have hcode : r.opcode = operationCode name' := by
        unfold FrameRequest.opcode
        rw [hop, Option.bind_some, hstd]
        exact if_neg hne
      rw [hcode]
      unfold operations at hmem
      rw [List.mem_cons, List.mem_cons, List.mem_singleton] at hmem
      rcases hmem with rfl | rfl | rfl
      · rfl
      · rfl
      · rfl

theorem length_le_content {p : Payload} {payload : Bytes} (h : p.content = some payload) :
    payloadLength (some p.object) ≤ payload.length := by
  cases p with
  | str s => exact length_le_of_asUTF8 h
  | bytes s =>
    cases h
    exact le_rfl
  | bytearray s =>
    cases h
    exact le_rfl

theorem payloadLength_eq_zero_iff {p : Payload} {payload : Bytes} (h : p.content = some payload) :
    payloadLength (some p.object) = 0 ↔ payload = [] := by
  constructor
  · intro hzero
    cases p with
    | str s =>
      obtain rfl := List.length_eq_zero_iff.mp hzero
      cases h
      rfl
    | bytes s =>
      cases h
      exact List.length_eq_zero_iff.mp hzero
    | bytearray s =>
      cases h
      exact List.length_eq_zero_iff.mp hzero
  · rintro rfl
    have hle := length_le_content h
    exact Nat.le_zero.mp hle

theorem exists_source {p : Payload} {payload : Bytes} (h : p.content = some payload)
    (stray : ℕ → UInt8) : ∃ src, source stray p = some src := by
  cases p with
  | str s =>
    refine ⟨charAt stray (cstr payload), ?_⟩
    have hstd : stdString s = some (cstr payload) := by
      have hs : asUTF8 s = some payload := h
      rw [stdString, hs, Option.map_some]
    rw [source, hstd, Option.map_some]
  | bytes s => exact ⟨_, rfl⟩
  | bytearray s => exact ⟨_, rfl⟩

/-- A text whose UTF-8 has a NUL in it, or more bytes than code points, is not received. -/
theorem received_iff (key : Option ℤ) {p : Payload} {payload : Bytes} (h : p.content = some payload) :
    (∀ stray src, source stray p = some src →
        received key src (payloadLength (some p.object)) = payload) ↔
      (∀ i < payload.length, left key i = 0) ∧
        ∀ s, p = .str s → payload.length = s.length ∧ 0 ∉ payload.dropLast := by
  cases p with
  | str s =>
    have hs : asUTF8 s = some payload := h
    -- a text is read up to its NUL, and behind that from memory
    have hsource (stray : ℕ → UInt8) : source stray (.str s) = some (charAt stray (cstr payload)) := by
      rw [source, stdString, hs, Option.map_some, Option.map_some]
    have hall : (∀ stray src, source stray (.str s) = some src →
        received key src (payloadLength (some (Payload.str s).object)) = payload) ↔
          ∀ stray, received key (charAt stray (cstr payload)) s.length = payload := by
      constructor
      · intro h stray
        exact h stray _ (hsource stray)
      · intro h stray src hsrc
        rw [hsource] at hsrc
        cases hsrc
        exact h stray
    rw [hall, received_text_iff]
    constructor
    · rintro ⟨hlen, hzero, hleft⟩
      refine ⟨hleft, ?_⟩
      intro t ht
      cases ht
      exact ⟨hlen, hzero⟩
    · rintro ⟨hleft, htext⟩
      exact ⟨(htext s rfl).1, (htext s rfl).2, hleft⟩
  | bytes s =>
    obtain rfl : s = payload := Option.some.inj h
    constructor
    · intro h
      refine ⟨(received_bytes_iff key (fun _ => 0) s).mp (h _ _ rfl), ?_⟩
      intro t ht
      cases ht
    · rintro ⟨hleft, -⟩ stray src hsrc
      cases hsrc
      exact (received_bytes_iff key stray s).mpr hleft
  | bytearray s =>
    obtain rfl : s = payload := Option.some.inj h
    constructor
    · intro h
      refine ⟨(received_bytes_iff key (fun _ => 0) s).mp (h _ _ rfl), ?_⟩
      intro t ht
      cases ht
    · rintro ⟨hleft, -⟩ stray src hsrc
      cases hsrc
      exact (received_bytes_iff key stray s).mpr hleft

/-- The frame of a request with up to 125 bytes. -/
def frameOf (r : FrameRequest) (src : ℕ → UInt8) {n : ℕ} (h : n < 126) : Frame where
  first := 0x80 ||| r.opcode
  mask := r.key.map mask
  field := .seven
  payload := combined r.key src n
  length_lt := by
    rw [length_combined]
    exact h

/-- What is sent is a frame if it is short, and masked if there is something to mask. -/
theorem processOutbound_short {stray : ℕ → UInt8} {r : FrameRequest} (haccepted : r.Accepted)
    {src : ℕ → UInt8} (hsrc : source stray r.payload = some src) {f : Frame} :
    processOutbound stray (some (.dict r.dict)) = .ok f.encode ↔
      (r.key = none → payloadLength (some r.payload.object) = 0) ∧
        ∃ h : payloadLength (some r.payload.object) < 126, f = frameOf r src h := by
  rw [processOutbound_eq stray haccepted, maskedPayload_eq, hsrc]
  simp only
  generalize payloadLength (some r.payload.object) = n
  constructor
  · intro hsent
    obtain ⟨sent, hm, hsent⟩ : ∃ sent, masked (r.key.map keyBytes) n src = .ok sent ∧
        ((0x80 : UInt8) ||| r.opcode) ::
          (lengthBytes (if r.key.isSome then (0x80 : UInt8) else 0) n ++
            ((r.key.map keyBytes).getD [] ++ sent)) = f.encode := by
      cases hm : masked (r.key.map keyBytes) n src with
      | error stop =>
        rw [hm] at hsent
        cases hsent
      | ok sent =>
        rw [hm] at hsent
        exact ⟨sent, rfl, Except.ok.inj hsent⟩
    obtain ⟨hnone, rfl⟩ := masked_eq_ok_iff.mp hm
    refine ⟨hnone, ?_⟩
    have hlen := length_combined r.key src n
    by_cases hshort : n < 126
    · refine ⟨hshort, ?_⟩
      have hframe := lengthBytes_short r.key (0x80 ||| r.opcode) hlen (hlen.trans_lt hshort)
      rw [hsent] at hframe
      exact (encode_unique (s := []) (t := []) (congrArg (· ++ []) hframe)).1
    · exact absurd hsent (not_frame_of_long r.key (0x80 ||| r.opcode) hlen hshort f)
  · rintro ⟨hnone, hshort, rfl⟩
    have hlen := length_combined r.key src n
    have hframe := lengthBytes_short r.key (0x80 ||| r.opcode) hlen (hlen.trans_lt hshort)
    rw [masked_eq_ok_iff.mpr ⟨hnone, rfl⟩]
    exact congrArg Except.ok hframe

/-- The frame of a request, and what comes of it. -/
theorem frame_comes_back_iff {stray : ℕ → UInt8} {r : FrameRequest} (haccepted : r.Accepted)
    {payload : Bytes} (hpayload : r.payload.content = some payload) {src : ℕ → UInt8}
    (hsrc : source stray r.payload = some src) :
    (∃ (f : Frame) (data : Dict),
      processOutbound stray (some (.dict r.dict)) = .ok f.encode ∧ f.first = 0x80 ||| r.opcode ∧
      f.field = shortest f.payload.length ∧ f.mask.isSome = r.mask.isSome ∧
      (∀ stray', processWholeMessage stray' f.encode = .message data []) ∧
      delivered data = r.operation.bind asUTF8 ∧ carried data = payload) ↔
    (r.key = none → payload = []) ∧ payloadLength (some r.payload.object) < 126 ∧
      (∀ s, r.operation = some s → ∃ name ∈ operations, asUTF8 s = some name) ∧
      received r.key src (payloadLength (some r.payload.object)) = payload ∧
      (r.opcode = 0x01 → 0 ∉ payload) := by
  have htext : r.opcode = 0x01 → ∃ s, asUTF8 s = some payload := by
    intro h
    obtain ⟨-, s, hs⟩ := (opcode_eq_one_iff r).mp h
    rw [hs] at hpayload
    exact ⟨s, hpayload⟩
  have hreceived : (received r.key src (payloadLength (some r.payload.object))).length ≤
      payload.length := by
    rw [received, List.length_map, List.length_range]
    exact length_le_content hpayload
  -- the frame is read as it stands, its length being a short one
  have hread (h : payloadLength (some r.payload.object) < 126) (stray' : ℕ → UInt8) :
      processWholeMessage stray' (frameOf r src h).encode =
        .message (frameOf r src h).contents [] := by
    have hmessage := processWholeMessage_encode stray' (frameOf r src h) []
    rw [List.append_nil] at hmessage
    exact hmessage.trans (if_neg (by decide : LengthField.seven ≠ .sixtyFour))
  rw [← payloadLength_eq_zero_iff hpayload]
  constructor
  · rintro ⟨f, data, hsent, -, -, -, hmessage, hop, hcarried⟩
    obtain ⟨hnone, hshort, rfl⟩ := (processOutbound_short haccepted hsrc).mp hsent
    -- the message that arrives is that of the frame
    have hdata := (hread hshort fun _ => 0).symm.trans (hmessage fun _ => 0)
    obtain ⟨rfl, -⟩ := Outcome.message.inj hdata
    obtain ⟨lMaskingKey, hcontents⟩ := contents_eq r r.key src (frameOf r src hshort).length_lt
    rw [show (frameOf r src hshort).contents = _ from hcontents] at hop hcarried
    obtain ⟨heq, hzero⟩ := (carried_eq_iff _ _ hreceived htext).mp hcarried
    exact ⟨hnone, hshort, (delivered_eq_iff haccepted _ _ _).mp hop, heq, hzero⟩
  · rintro ⟨hnone, hshort, hop, heq, hzero⟩
    obtain ⟨lMaskingKey, hcontents⟩ := contents_eq r r.key src (frameOf r src hshort).length_lt
    refine ⟨frameOf r src hshort, (frameOf r src hshort).contents,
      (processOutbound_short haccepted hsrc).mpr ⟨hnone, hshort, rfl⟩, rfl, ?_, ?_, hread hshort, ?_, ?_⟩
    · show LengthField.seven = shortest (combined r.key src _).length
      rw [length_combined, shortest, if_pos hshort]
    · rw [← isSome_key haccepted]
      exact Option.isSome_map
    · rw [show (frameOf r src hshort).contents = _ from hcontents]
      exact (delivered_eq_iff haccepted _ _ _).mpr hop
    · rw [show (frameOf r src hshort).contents = _ from hcontents]
      exact (carried_eq_iff _ _ hreceived htext).mpr ⟨heq, hzero⟩

theorem left_iff {r : FrameRequest} {payload : Bytes} :
    ((r.key = none → payload = []) ∧ ∀ i < payload.length, left r.key i = 0) ↔
      (payload ≠ [] → ∃ key, r.key = some key ∧
        (byteOf (key / 2 ^ 24) ≠ 0 ∨ ∀ i < payload.length, (keyBytes key).getD (i % 4) 0 = 0)) := by
  cases hk : r.key with
  | none =>
    constructor
    · rintro ⟨h, -⟩ hne
      exact absurd (h rfl) hne
    · intro h
      refine ⟨fun _ => ?_, fun _ _ => rfl⟩
      by_contra hne
      obtain ⟨key, hkey, -⟩ := h hne
      cases hkey
  | some key =>
    have hleft : (∀ i < payload.length, left (some key) i = 0) ↔
        payload = [] ∨ byteOf (key / 2 ^ 24) ≠ 0 ∨
          ∀ i < payload.length, (keyBytes key).getD (i % 4) 0 = 0 := by
      by_cases hzero : byteOf (key / 2 ^ 24) ≠ 0
      · refine iff_of_true ?_ (.inr (.inl hzero))
        intro i _
        exact if_pos hzero
      · constructor
        · intro h
          refine .inr (.inr fun i hi => ?_)
          have hi' := h i hi
          rwa [left, if_neg hzero] at hi'
        · rintro (rfl | h | h) i hi
          · cases hi
          · exact absurd h hzero
          · rw [left, if_neg hzero]
            exact h i hi
    rw [hleft]
    constructor
    · rintro ⟨-, h⟩ hne
      exact ⟨key, rfl, h.resolve_left hne⟩
    · intro h
      refine ⟨nofun, ?_⟩
      by_cases hnil : payload = []
      · exact .inl hnil
      · obtain ⟨key', hkey, h⟩ := h hnil
        obtain rfl := Option.some.inj hkey
        exact .inr h

/-- The texts that survive. -/
theorem textSurvives_iff {r : FrameRequest} {payload : Bytes}
    (hop : ∀ s, r.operation = some s → ∃ name ∈ operations, asUTF8 s = some name) :
    ((∀ s, r.payload = .str s → payload.length = s.length ∧ 0 ∉ payload.dropLast) ∧
      (r.opcode = 0x01 → 0 ∉ payload)) ↔
        ∀ s, r.payload = .str s → TextSurvives s r.operation payload := by
  rw [opcode_eq_one_iff]
  unfold TextSurvives
  cases ho : r.operation with
  | none =>
    simp only [Option.isSome_none, Bool.false_eq_true, if_false]
    constructor
    · rintro ⟨h, hzero⟩ s hs
      exact ⟨(h s hs).1, hzero ⟨rfl, s, hs⟩⟩
    · intro h
      constructor
      · intro s hs
        exact ⟨(h s hs).1, fun hmem => (h s hs).2 (List.mem_of_mem_dropLast hmem)⟩
      · rintro ⟨-, s, hs⟩
        exact (h s hs).2
  | some t =>
    obtain ⟨name, hmem, hname⟩ := hop t ho
    obtain ⟨hstd, hne⟩ := stdString_operation hmem hname
    simp only [Option.isSome_some, if_true, Option.bind_some, hstd, Option.elim_some]
    constructor
    · rintro ⟨h, -⟩
      exact h
    · intro h
      exact ⟨h, fun h' => absurd h'.1 hne⟩

/-- **A request round-trips exactly if it is faithful.** -/
theorem frame_roundTrips_iff (r : FrameRequest) : RoundTrips r ↔
    (r.Accepted → ∃ payload, r.payload.content = some payload ∧ Faithful r payload) := by
  unfold RoundTrips
  apply forall_congr'
  intro haccepted
  constructor
  · intro h
    obtain ⟨-, payload, -, hpayload, -⟩ := h fun _ => 0
    refine ⟨payload, hpayload, ?_⟩
    have hback (stray src : ℕ → UInt8) (hsrc : source stray r.payload = some src) :
        (r.key = none → payload = []) ∧ payloadLength (some r.payload.object) < 126 ∧
          (∀ s, r.operation = some s → ∃ name ∈ operations, asUTF8 s = some name) ∧
          received r.key src (payloadLength (some r.payload.object)) = payload ∧
          (r.opcode = 0x01 → 0 ∉ payload) := by
      obtain ⟨f, payload', data, hpayload', h⟩ := h stray
      obtain rfl := Option.some.inj (hpayload'.symm.trans hpayload)
      exact (frame_comes_back_iff haccepted hpayload hsrc).mp ⟨f, data, h⟩
    obtain ⟨src, hsrc⟩ := exists_source hpayload fun _ => 0
    obtain ⟨hnone, hshort, hop, hreceived, hzero⟩ := hback _ src hsrc
    obtain ⟨hleft, htext⟩ := (received_iff r.key hpayload).mp fun stray src hsrc =>
      (hback stray src hsrc).2.2.2.1
    refine ⟨hop, ?_, left_iff.mp ⟨hnone, hleft⟩, (textSurvives_iff hop).mp ⟨htext, hzero⟩⟩
    rw [(received_eq_iff.mp hreceived).1]
    exact hshort
  · rintro ⟨payload, hpayload, hop, hshort, hmask, htext⟩ stray
    obtain ⟨hnone, hleft⟩ := left_iff.mpr hmask
    obtain ⟨htext, hzero⟩ := (textSurvives_iff hop).mpr htext
    obtain ⟨src, hsrc⟩ := exists_source hpayload stray
    have hreceived := (received_iff r.key hpayload).mpr ⟨hleft, htext⟩ stray src hsrc
    obtain ⟨f, data, h⟩ := (frame_comes_back_iff haccepted hpayload hsrc).mpr
      ⟨hnone, (length_le_content hpayload).trans_lt hshort, hop, hreceived, hzero⟩
    exact ⟨f, payload, data, hpayload, h⟩

/-- A text without a mask is not sent: what a null pointer points to is combined with it. -/
theorem unmasked_payload_crashes : ¬ RoundTrips ⟨none, .str (pyStr "on"), none⟩ := by
  intro h
  obtain ⟨f, payload, data, -, hsent, -⟩ := h ⟨nofun, nofun⟩ fun _ => 0
  have hcrash : processOutbound (fun _ => 0)
      (some (.dict (FrameRequest.dict ⟨none, .str (pyStr "on"), none⟩))) = .error .crashed := rfl
  rw [hcrash] at hsent
  cases hsent

end Domoticz.WebSocket
