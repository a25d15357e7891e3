import Domoticz.Plugin.WebSocket

/-!
# The frames of the web server

`CWebsocketFrame` writes and reads the frames of the web server's own websocket.  `Create`
chooses the shortest of the three ways to give a length and sets the final bit; `Parse` looks
for a frame at the front of a buffer, and what it has set by then stays set where it finds none.

Frames are the prefix code that the plugins' protocol reads, too.  `Parse` finds one exactly
where that code has one.

## Main definitions

* `create`, `CWebsocketFrame.parse` — the two functions.
* `RoundTripped` — what `Parse` makes of a frame that `Create` made.

## Main results

* `parse_encode`, `parse_of_next` — `Parse` finds exactly the frames.
* `create_eq_encode` — what `Create` makes is a frame.
* `frame_codec` — **`Parse` undoes `Create`, and finds nothing in a part of what it made.**
-/

namespace Domoticz.Websockets

open CLib Stream WebSocket

/-! ### The code -/

/-- `opcodes`; its range is four bits wide, and not all of its values have a name. -/
abbrev Opcodes := Fin 16

theorem neZero_opcodes : NeZero 16 := ⟨by decide⟩

attribute [local instance] neZero_opcodes

/-- `opcode_continuation`. -/
def opcode_continuation : Opcodes := 0

/-- `opcode_text`. -/
def opcode_text : Opcodes := 1

/-- `opcode_binary`. -/
def opcode_binary : Opcodes := 2

/-- `opcode_close`. -/
def opcode_close : Opcodes := 8

/-- `opcode_ping`. -/
def opcode_ping : Opcodes := 9

/-- `opcode_pong`. -/
def opcode_pong : Opcodes := 10

/-- `CWebsocketFrame::unmask`, with a key of four bytes. -/
def unmask (mask bytes : Bytes) : Bytes :=
  bytes.zipIdx.map fun b => b.1 ^^^ mask.getD (b.2 % 4) 0

/-- The loop that writes a length in `n` bytes: `(payloadlen >> bits) & 0xff`. -/
def shiftOut : ℕ → ℕ → Bytes
  | 0, _ => []
  | n + 1, payloadlen => UInt8.ofNat (payloadlen >>> (8 * n) &&& 0xff) :: shiftOut n payloadlen

/-- `CWebsocketFrame::Create`; `rand` is the key it draws, if it masks. -/
def create (opcode : Opcodes) (payload : Bytes) (domasking : Bool) (rand : Mask) : Bytes :=
  let payloadlen := payload.length
  let masking : UInt8 := if domasking then 0x80 else 0
  let length :=
    if payloadlen < 126 then [UInt8.ofNat payloadlen ||| masking]
    else if payloadlen ≤ 0xffff then (126 ||| masking) :: shiftOut 2 payloadlen
    else (127 ||| masking) :: shiftOut 8 payloadlen
  (UInt8.ofNat opcode ||| 0x80) ::
    (length ++ if domasking then rand.bytes ++ unmask rand.bytes payload else payload)

/-- `CWebsocketFrame`.  A `size_t` has 64 bits. -/
structure CWebsocketFrame where
  fin : Bool := false
  rsvi1 : Bool := false
  rsvi2 : Bool := false
  rsvi3 : Bool := false
  opcode : Opcodes := opcode_continuation
  masking : Bool := false
  payloadlen : ℕ := 0
  bytes_consumed : ℕ := 0
  payload : Bytes := []
  deriving DecidableEq

/-- The loop that reads a length: the sum of `(size_t)bytes[ptr++] << bits`.  Eight bytes fit. -/
def shiftIn : Bytes → ℕ
  | [] => 0
  | b :: bytes => b.toNat <<< (8 * bytes.length) + shiftIn bytes

/-- The length behind the second byte, and what is left; `none` where too little remains. -/
def extendedLength (payloadlen : ℕ) (bytes : Bytes) : Option (ℕ × Bytes) :=
  if payloadlen = 126 then
    if bytes.length < 2 then none else some (shiftIn (bytes.take 2), bytes.drop 2)
  else if payloadlen = 127 then
    if bytes.length < 8 then none else some (shiftIn (bytes.take 8), bytes.drop 8)
  else some (payloadlen, bytes)

/-- The masking key, if there is one, and what is left. -/
def maskingKey (masking : Bool) (bytes : Bytes) : Option (Bytes × Bytes) :=
  if masking then
    if bytes.length < 4 then none else some (bytes.take 4, bytes.drop 4)
  else some ([], bytes)

/-- `CWebsocketFrame::Parse`: what it returns, and the frame it leaves.  The bytes it has passed
are those that do not remain. -/
def CWebsocketFrame.parse (frame : CWebsocketFrame) (bytes : Bytes) : Bool × CWebsocketFrame :=
  let frame := { frame with bytes_consumed := 0 }
  match bytes with
  | first :: second :: remaining =>
      let frame := { frame with
        fin := first &&& 0x80 ≠ 0
        rsvi1 := first &&& 0x40 ≠ 0
        rsvi2 := first &&& 0x20 ≠ 0
        rsvi3 := first &&& 0x10 ≠ 0
        opcode := Fin.ofNat 16 (first &&& 0x0f).toNat
        masking := second &&& 0x80 ≠ 0
        payloadlen := (second &&& 0x7f).toNat }
      match extendedLength frame.payloadlen remaining with
      | none => (false, frame)
      | some (payloadlen, remaining) =>
          let frame := { frame with payloadlen }
          match maskingKey frame.masking remaining with
          | none => (false, frame)
          | some (masking_key, remaining) =>
              if remaining.length < payloadlen then (false, frame)
              else
                (true, { frame with
                  payload :=
                    if frame.masking then unmask masking_key (remaining.take payloadlen)
                    else remaining.take payloadlen
                  bytes_consumed := bytes.length - (remaining.length - payloadlen) })
  | _ => (false, frame)

/-! ### Lengths -/

theorem shiftOut_eq_beBytes (n payloadlen : ℕ) : shiftOut n payloadlen = beBytes n payloadlen := by
  have hdiv (n payloadlen : ℕ) :
      shiftOut (n + 1) payloadlen =
        shiftOut n (payloadlen / 256) ++ [UInt8.ofNat (payloadlen % 256)] := by
    induction n with
    | zero =>
      have hand : payloadlen &&& 0xff = payloadlen % 256 :=
        Nat.and_two_pow_sub_one_eq_mod payloadlen 8
      simp [shiftOut, hand]
    | succ n ih =>
      have hshift : payloadlen >>> (8 * (n + 1)) = (payloadlen / 256) >>> (8 * n) := by
        rw [Nat.shiftRight_eq_div_pow, Nat.shiftRight_eq_div_pow, Nat.div_div_eq_div_mul]
        congr 1
        rw [Nat.mul_succ, Nat.pow_add, Nat.mul_comm]
      rw [shiftOut, ih, hshift]
      rfl
  induction n generalizing payloadlen with
  | zero => rfl
  | succ n ih => rw [hdiv, ih, beBytes]

theorem shiftIn_append (s : Bytes) (b : UInt8) :
    shiftIn (s ++ [b]) = shiftIn s * 256 + b.toNat := by
  induction s with
  | nil => simp [shiftIn]
  | cons c s ih =>
    have hpow : 2 ^ (8 * (s.length + 1)) = 2 ^ (8 * s.length) * 256 := by
      rw [Nat.mul_succ, Nat.pow_add]
    rw [List.cons_append, shiftIn, ih, shiftIn, List.length_append, List.length_singleton,
      Nat.shiftLeft_eq, Nat.shiftLeft_eq, hpow]
    ring

theorem shiftIn_beBytes {k n : ℕ} (h : n < 256 ^ k) : shiftIn (beBytes k n) = n := by
  induction k generalizing n with
  | zero =>
    rw [pow_zero] at h
    rw [Nat.lt_one_iff.mp h]
    rfl
  | succ k ih =>
    rw [pow_succ] at h
    rw [beBytes, shiftIn_append, ih (Nat.div_lt_of_lt_mul (by rwa [mul_comm] at h)),
      UInt8.toNat_ofNat', Nat.mod_mod_of_dvd _ (by decide)]
    exact Nat.div_add_mod' n 256

theorem beBytes_shiftIn (s : Bytes) :
    beBytes s.length (shiftIn s) = s ∧ shiftIn s < 256 ^ s.length := by
  induction s using List.reverseRecOn with
  | nil => exact ⟨rfl, Nat.one_pos⟩
  | append_singleton s b ih =>
    have hb := b.toNat_lt
    have hdiv : (shiftIn s * 256 + b.toNat) / 256 = shiftIn s := by omega
    have hmod : (shiftIn s * 256 + b.toNat) % 256 = b.toNat := by omega
    rw [shiftIn_append, List.length_append, List.length_singleton, pow_succ]
    constructor
    · rw [beBytes, hdiv, hmod, ih.1, UInt8.ofNat_toNat]
    · have := ih.2
      omega

/-- What is read as a length are the fields that give one. -/
theorem extendedLength_eq_some_iff {low n : ℕ} (hlow : low < 128) {bytes rest : Bytes} :
    extendedLength low bytes = some (n, rest) ↔
      ∃ field : LengthField, n < field.bound ∧ low = field.low n ∧
        bytes = field.extended n ++ rest := by
  -- as many bytes as are read can be written back
  have hread {k : ℕ} {bytes : Bytes} (h : k ≤ bytes.length) :
      beBytes k (shiftIn (bytes.take k)) = bytes.take k ∧ shiftIn (bytes.take k) < 256 ^ k := by
    have hback := beBytes_shiftIn (bytes.take k)
    rwa [List.length_take, Nat.min_eq_left h] at hback
  constructor
  · intro h
    rw [extendedLength] at h
    split at h
    · next h126 =>
      split at h
      · cases h
      · next hlen =>
        cases h
        obtain ⟨hbytes, hlt⟩ := hread (Nat.le_of_not_lt hlen)
        refine ⟨.sixteen, hlt, h126, ?_⟩
        rw [LengthField.extended, hbytes, List.take_append_drop]
    · split at h
      · next h127 =>
        split at h
        · cases h
        · next hlen =>
          cases h
          obtain ⟨hbytes, hlt⟩ := hread (Nat.le_of_not_lt hlen)
          refine ⟨.sixtyFour, hlt, h127, ?_⟩
          rw [LengthField.extended, hbytes, List.take_append_drop]
      · next h126 h127 =>
        cases h
        refine ⟨.seven, ?_, rfl, rfl⟩
        change low < 126
        omega
  · rintro ⟨field, hlt, rfl, rfl⟩
    cases field with
    | seven =>
      change n < 126 at hlt
      rw [LengthField.low, extendedLength, if_neg (by omega), if_neg (by omega)]
      rfl
    | sixteen =>
      have hlen := length_beBytes 2 n
      rw [LengthField.low, LengthField.extended, extendedLength, if_pos rfl,
        if_neg (by rw [List.length_append, hlen]; omega), List.take_left' hlen,
        List.drop_left' hlen, shiftIn_beBytes hlt]
    | sixtyFour =>
      have hlen := length_beBytes 8 n
      rw [LengthField.low, LengthField.extended, extendedLength, if_neg (by decide), if_pos rfl,
        if_neg (by rw [List.length_append, hlen]; omega), List.take_left' hlen,
        List.drop_left' hlen, shiftIn_beBytes hlt]

theorem maskingKey_eq_some_iff {masking : Bool} {bytes key rest : Bytes} :
    maskingKey masking bytes = some (key, rest) ↔
      ∃ mask : Option Mask, mask.isSome = masking ∧ maskBytes mask = key ∧
        bytes = maskBytes mask ++ rest := by
  constructor
  · intro h
    rw [maskingKey] at h
    split at h
    · next hmasking =>
      split at h
      · cases h
      · next hlen =>
        cases h
        have h4 : (bytes.take 4).length = 4 := by
          rw [List.length_take]
          omega
        exact ⟨some ⟨bytes.take 4, h4⟩, hmasking.symm, rfl, (List.take_append_drop 4 bytes).symm⟩
    · next hmasking =>
      cases h
      exact ⟨none, by simpa using hmasking, rfl, rfl⟩
  · rintro ⟨mask, rfl, rfl, rfl⟩
    cases mask with
    | none => rfl
    | some mask =>
      have h4 := mask.length_eq
      have hbytes : maskBytes (some mask) = mask.bytes := rfl
      rw [hbytes, maskingKey, if_pos (Option.isSome_some),
        if_neg (by rw [List.length_append]; omega),
        List.take_left' h4, List.drop_left' h4]

/-! ### `Parse` finds exactly the frames -/

/-- The payload of a frame, without its mask. -/
def data (f : Frame) : Bytes :=
  if f.mask.isSome then unmask (maskBytes f.mask) f.payload else f.payload

/-- The final bit of a frame. -/
def final (f : Frame) : Bool := f.first &&& 0x80 ≠ 0

/-- The operation code of a frame. -/
def opcode (f : Frame) : Opcodes := Fin.ofNat 16 (f.first &&& 0x0f).toNat

/-- What `Parse` leaves of a frame. -/
def parsed (f : Frame) : CWebsocketFrame where
  fin := final f
  rsvi1 := f.first &&& 0x40 ≠ 0
  rsvi2 := f.first &&& 0x20 ≠ 0
  rsvi3 := f.first &&& 0x10 ≠ 0
  opcode := opcode f
  masking := f.mask.isSome
  payloadlen := f.payload.length
  bytes_consumed := f.encode.length
  payload := data f

theorem parse_encode (frame : CWebsocketFrame) (f : Frame) (rest : Bytes) :
    frame.parse (f.encode ++ rest) = (true, parsed f) := by
  have hlength (s : Bytes) : extendedLength (f.field.low f.payload.length)
      (f.field.extended f.payload.length ++ s) = some (f.payload.length, s) :=
    (extendedLength_eq_some_iff (f.field.low_lt f.length_lt)).mpr ⟨f.field, f.length_lt, rfl, rfl⟩
  have hkey (s : Bytes) : maskingKey f.mask.isSome (maskBytes f.mask ++ s) =
      some (maskBytes f.mask, s) := maskingKey_eq_some_iff.mpr ⟨f.mask, rfl, rfl, rfl⟩
  have htail : f.encode ++ rest = f.first :: f.second :: (f.field.extended f.payload.length ++
      (maskBytes f.mask ++ (f.payload ++ rest))) := by
    simp only [Frame.encode, List.cons_append, List.append_assoc]
  have hconsumed : (f.encode ++ rest).length - ((f.payload ++ rest).length - f.payload.length) =
      f.encode.length := by
    simp only [List.length_append]
    omega
  rw [htail] at hconsumed ⊢
  simp only [CWebsocketFrame.parse, f.second_low, f.second_mask]
  rw [hlength]
  simp only [hkey]
  rw [if_neg (by rw [List.length_append]; omega), List.take_left, hconsumed]
  rfl

theorem exists_frame_of_parse {frame : CWebsocketFrame} {bytes : Bytes}
    (h : (frame.parse bytes).1 = true) :
    ∃ (f : Frame) (rest : Bytes), bytes = f.encode ++ rest := by
  match bytes with
  | [] => cases h
  | [_] => cases h
  | first :: second :: remaining =>
    simp only [CWebsocketFrame.parse] at h
    split at h
    · cases h
    · next n s hlength =>
      split at h
      · cases h
      · next key t hkey =>
        split at h
        · cases h
        · next hlen =>
          have hlow : (second &&& 0x7f).toNat < 128 := by
            have hmod := Nat.mod_lt second.toNat (show 0 < 128 by decide)
            rwa [← toNat_and_127] at hmod
          obtain ⟨field, hlt, hfield, rfl⟩ := (extendedLength_eq_some_iff hlow).mp hlength
          obtain ⟨mask, hmask, -, rfl⟩ := maskingKey_eq_some_iff.mp hkey
          have htake : (t.take n).length = n := by
            rw [List.length_take]
            omega
          refine ⟨⟨first, mask, field, t.take n, by rwa [htake]⟩, t.drop n, ?_⟩
          have hsecond : Frame.second ⟨first, mask, field, t.take n, by rwa [htake]⟩ = second := by
            rw [← UInt8.toNat_inj, Frame.toNat_second, toNat_eq_mask_add second, hfield]
            simp only [htake, hmask]
          rw [Frame.encode, hsecond]
          simp only [htake, List.cons_append, List.append_assoc, List.take_append_drop]

/-- Where no frame is at the front, `Parse` finds none and passes nothing. -/
theorem parse_of_next {frame : CWebsocketFrame} {bytes : Bytes} (h : frameCode.next bytes = none) :
    (frame.parse bytes).1 = false ∧ (frame.parse bytes).2.bytes_consumed = 0 := by
  have hfalse : (frame.parse bytes).1 = false := by
    apply Bool.eq_false_of_not_eq_true
    intro htrue
    obtain ⟨f, rest, hbytes⟩ := exists_frame_of_parse htrue
    exact (frameCode.next_eq_none_iff.mp h) f rest hbytes
  refine ⟨hfalse, ?_⟩
  match bytes with
  | [] => rfl
  | [_] => rfl
  | first :: second :: remaining =>
    simp only [CWebsocketFrame.parse] at hfalse ⊢
    split
    · rfl
    · next hlength =>
      simp only [hlength] at hfalse
      split
      · rfl
      · next hkey =>
        simp only [hkey] at hfalse
        split
        · rfl
        · next hlen =>
          rw [if_neg hlen] at hfalse
          cases hfalse

/-! ### What `Create` makes is a frame -/

/-- The bytes of a payload on the wire. -/
def onWire (payload : Bytes) (domasking : Bool) (rand : Mask) : Bytes :=
  if domasking then unmask rand.bytes payload else payload

@[simp] theorem length_unmask (mask bytes : Bytes) : (unmask mask bytes).length = bytes.length := by
  simp [unmask]

@[simp] theorem length_onWire (payload : Bytes) (domasking : Bool) (rand : Mask) :
    (onWire payload domasking rand).length = payload.length := by
  rw [onWire]
  split
  · exact length_unmask ..
  · rfl

/-- Masking twice with the same key. -/
theorem unmask_unmask (mask bytes : Bytes) : unmask mask (unmask mask bytes) = bytes := by
  apply List.ext_getElem
  · simp
  · intro i h₁ h₂
    simp only [unmask, List.getElem_map, List.getElem_zipIdx]
    rw [UInt8.xor_assoc, UInt8.xor_self, UInt8.xor_zero]

/-- The frame that `Create` makes. -/
def created (opcode : Opcodes) (payload : Bytes) (domasking : Bool) (rand : Mask)
    (h : payload.length < 2 ^ 63) : Frame where
  first := UInt8.ofNat opcode ||| 0x80
  mask := if domasking then some rand else none
  field := shortest payload.length
  payload := onWire payload domasking rand
  length_lt := by
    rw [length_onWire]
    exact lt_bound_shortest h

theorem isSome_created_mask (domasking : Bool) (rand : Mask) :
    (if domasking then some rand else none).isSome = domasking := by
  cases domasking with
  | false => rfl
  | true => rfl

/-- The second byte: the length in seven bits, and the mask bit. -/
theorem or_masking {n : ℕ} (h : n < 128) (domasking : Bool) :
    (UInt8.ofNat n ||| if domasking then 0x80 else 0) =
      UInt8.ofNat ((if domasking then 128 else 0) + n) := by
  cases domasking with
  | false => simp
  | true =>
    simp only [if_true]
    rw [or_128 h, Nat.add_comm]

theorem create_eq_encode (opcode : Opcodes) (payload : Bytes) (domasking : Bool) (rand : Mask)
    (h : payload.length < 2 ^ 63) :
    create opcode payload domasking rand = (created opcode payload domasking rand h).encode := by
  have hsome := isSome_created_mask domasking rand
  have hwire : (if domasking then rand.bytes ++ unmask rand.bytes payload else payload) =
      maskBytes (if domasking then some rand else none) ++ onWire payload domasking rand := by
    cases domasking with
    | false => rfl
    | true => rfl
  simp only [create, created, Frame.encode, Frame.second, hsome, length_onWire, hwire]
  congr 1
  by_cases h126 : payload.length < 126
  · have hshort : shortest payload.length = .seven := if_pos h126
    rw [if_pos h126, hshort, or_masking (by omega)]
    rfl
  · by_cases h16 : payload.length ≤ 0xffff
    · have hshort : shortest payload.length = .sixteen := by
        rw [shortest, if_neg h126, if_pos (by omega)]
      rw [if_neg h126, if_pos h16, hshort, shiftOut_eq_beBytes]
      have hor := or_masking (show 126 < 128 by decide) domasking
      exact congrArg (· :: _) hor
    · have hshort : shortest payload.length = .sixtyFour := by
        rw [shortest, if_neg h126, if_neg (by omega)]
      rw [if_neg h126, if_neg h16, hshort, shiftOut_eq_beBytes]
      have hor := or_masking (show 127 < 128 by decide) domasking
      exact congrArg (· :: _) hor

theorem created_bits (opcode : Opcodes) :
    (UInt8.ofNat opcode ||| 0x80) &&& 0x80 ≠ 0 ∧
      Fin.ofNat 16 ((UInt8.ofNat opcode ||| 0x80) &&& 0x0f).toNat = opcode := by
  revert opcode
  decide

theorem data_created (opcode : Opcodes) (payload : Bytes) (domasking : Bool) (rand : Mask)
    (h : payload.length < 2 ^ 63) : data (created opcode payload domasking rand h) = payload := by
  cases domasking with
  | false => rfl
  | true => exact unmask_unmask rand.bytes payload

/-! ### The codec -/

/-- `Parse` finds the frame that was created, and the bytes behind it are left. -/
structure RoundTripped (frame : CWebsocketFrame) (opcode : Opcodes) (payload : Bytes)
    (domasking : Bool) (rand : Mask) (rest : Bytes) : Prop where
  found : (frame.parse (create opcode payload domasking rand ++ rest)).1 = true
  consumed : (frame.parse (create opcode payload domasking rand ++ rest)).2.bytes_consumed =
    (create opcode payload domasking rand).length
  fin : (frame.parse (create opcode payload domasking rand ++ rest)).2.fin = true
  same_opcode : (frame.parse (create opcode payload domasking rand ++ rest)).2.opcode = opcode
  same_payload : (frame.parse (create opcode payload domasking rand ++ rest)).2.payload = payload

/-- **`Parse` undoes `Create`, and finds nothing in a part of what it made.** -/
theorem frame_codec (frame : CWebsocketFrame) (opcode : Opcodes) (payload : Bytes)
    (h : payload.length < 2 ^ 63) (domasking : Bool) (rand : Mask) :
    (∀ rest, RoundTripped frame opcode payload domasking rand rest) ∧
      ∀ part, part <+: create opcode payload domasking rand →
        part ≠ create opcode payload domasking rand →
          (frame.parse part).1 = false ∧ (frame.parse part).2.bytes_consumed = 0 := by
  rw [create_eq_encode opcode payload domasking rand h]
  constructor
  · intro rest
    have hparse := parse_encode frame (created opcode payload domasking rand h) rest
    rw [← create_eq_encode] at hparse
    obtain ⟨hfin, hopcode⟩ := created_bits opcode
    exact {
      found := by rw [hparse]
      consumed := by rw [hparse, create_eq_encode _ _ _ _ h]; rfl
      fin := by rw [hparse]; exact decide_eq_true hfin
      same_opcode := by rw [hparse]; exact hopcode
      same_payload := by rw [hparse]; exact data_created opcode payload domasking rand h }
  · intro part hpart hne
    exact parse_of_next (frameCode.next_of_prefix hpart hne)

/-- A ping as the web server sends it. -/
theorem frame_codec_ping :
    (str "fd").length < 2 ^ 63 ∧
      (∀ rest, RoundTripped {} opcode_ping (str "fd") false ⟨[0, 0, 0, 0], rfl⟩ rest) ∧
        ∀ part, part <+: create opcode_ping (str "fd") false ⟨[0, 0, 0, 0], rfl⟩ →
          part ≠ create opcode_ping (str "fd") false ⟨[0, 0, 0, 0], rfl⟩ →
            (CWebsocketFrame.parse {} part).1 = false ∧
              (CWebsocketFrame.parse {} part).2.bytes_consumed = 0 :=
  ⟨by decide, frame_codec {} opcode_ping (str "fd") (by decide) false ⟨[0, 0, 0, 0], rfl⟩⟩

end Domoticz.Websockets
