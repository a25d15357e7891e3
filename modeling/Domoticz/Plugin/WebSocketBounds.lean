import Domoticz.Plugin.WebSocket

/-!
# The buffer of a websocket frame

`ProcessWholeMessage` with its elements checked.  It reads the second byte without a look at the
size, compares the size with one byte less than the length of 16 bits takes, and with none of the
bytes of the masking key.

## Main definitions

* `processPayload?`, `processWholeMessage?` — the function, `none` where it reads or erases beyond
  the end.
* `Contained` — it stays inside of the buffer, and finds a message exactly for a frame.
* `CutShort` — the vectors that end where the size is not compared.

## Main results

* `processWholeMessage?_eq` — where all elements exist, this is the function of the model.
* `contained_of_frames_iff` — **the function stays inside and finds the frames, exactly if** the
  vector does not end there and its frame has no length of 64 bits.
* `single_byte` — a vector of one byte.
-/

namespace Domoticz.WebSocket

open CLib

/-! ### Checked elements -/

/-- The loop that appends the payload. -/
def payload? (vMessage : Bytes) (iOffset lPayloadLength : ℕ) : Option Bytes :=
  (List.range lPayloadLength).mapM fun i => vMessage[iOffset + i]?

/-- The loop that unmasks the payload; `pbMask` points to the element at `mask`. -/
def unmask? (vMessage : Bytes) (mask : ℕ) (vPayload : Bytes) : Option Bytes :=
  vPayload.zipIdx.mapM fun b => (vMessage[mask + b.2 % 4]?).map fun key => b.1 ^^^ key

/-- `vMessage.erase(vMessage.begin(), vMessage.begin() + iOffset)`. -/
def erase? (vMessage : Bytes) (iOffset : ℕ) : Option Bytes :=
  if iOffset ≤ vMessage.length then some (vMessage.drop iOffset) else none

/-- The part of `ProcessWholeMessage` behind the payload length. -/
def processPayload? (vMessage : Bytes) (bMasked : Bool) (lPayloadLength iOffset : ℕ) :
    Option Outcome :=
  if bMasked ∧ vMessage.length < iOffset then some .incomplete
  else do
    let lMaskingKey ← if bMasked then (vMessage[iOffset]?).map UInt8.toNat else some 0
    let mask := iOffset
    let iOffset := if bMasked then iOffset + 4 else iOffset
    if vMessage.length < iOffset + lPayloadLength then return .incomplete
    let vPayload ← payload? vMessage iOffset lPayloadLength
    let vPayload ← if lMaskingKey ≠ 0 then unmask? vMessage mask vPayload else some vPayload
    let first ← vMessage[0]?
    let rest ← erase? vMessage (iOffset + lPayloadLength)
    return .message (dataDict (first &&& 0x80 ≠ 0) lMaskingKey (first &&& 0x0F) vPayload) rest

/-- `CPluginProtocolWS::ProcessWholeMessage`. -/
def processWholeMessage? (vMessage : Bytes) : Option Outcome :=
  if vMessage.isEmpty then some .incomplete
  else do
    let second ← vMessage[1]?
    let bMasked : Bool := second &&& 0x80 ≠ 0
    let lPayloadLength := (second &&& 0x7F).toNat
    if lPayloadLength = 126 then
      if vMessage.length < 3 then return .incomplete
      let high ← vMessage[2]?
      let low ← vMessage[3]?
      processPayload? vMessage bMasked (number high low) 4
    else if lPayloadLength = 127 then return .cleared
    else processPayload? vMessage bMasked lPayloadLength 2

/-- Whether `ProcessWholeMessage` returns true. -/
def Outcome.returns : Outcome → Bool
  | .message _ _ => true
  | _ => false

/-- Only existing elements are read, no more is erased than there is, and the function returns
false exactly if the vector does not start with a complete frame. -/
def Contained (vMessage : Bytes) : Prop :=
  ∃ o, processWholeMessage? vMessage = some o ∧
    (o.returns = false ↔ ¬ ∃ (f : Frame) (rest : Bytes), vMessage = f.encode ++ rest)

/-- The vectors that end in front of a byte that is read without a look at the size: the second
byte, the second byte of a length of 16 bits, and the first byte of a masking key. -/
inductive CutShort : Bytes → Prop
  | second (first : UInt8) : CutShort [first]
  | length (first second high : UInt8) : (second &&& 0x7F).toNat = 126 →
      CutShort [first, second, high]
  | key (first second : UInt8) : second &&& 0x80 ≠ 0 → (second &&& 0x7F).toNat < 126 →
      CutShort [first, second]
  | keyBehindLength (first second high low : UInt8) : second &&& 0x80 ≠ 0 →
      (second &&& 0x7F).toNat = 126 → CutShort [first, second, high, low]

/-! ### Where all elements exist -/

theorem mapM_eq_some {α β : Type} {f : α → Option β} {g : α → β} {l : List α}
    (h : ∀ a ∈ l, f a = some (g a)) : l.mapM f = some (l.map g) := by
  induction l with
  | nil => rfl
  | cons a l ih =>
    obtain ⟨ha, hl⟩ := List.forall_mem_cons.mp h
    rw [List.mapM_cons, ha, ih hl]
    rfl

theorem payload?_eq {v : Bytes} {iOffset len : ℕ} (h : iOffset + len ≤ v.length) :
    payload? v iOffset len = some ((v.drop iOffset).take len) := by
  rw [payload?, ← map_byteAt (fun _ => 0) h]
  refine mapM_eq_some fun i hi => getElem?_eq_byteAt _ ?_
  have hlt := List.mem_range.mp hi
  omega

theorem unmask?_eq (stray : ℕ → UInt8) {v payload : Bytes} {mask : ℕ}
    (h : mask + 4 ≤ v.length) : unmask? v mask payload =
      some (unmask ((List.range 4).map fun i => byteAt stray v (mask + i)) payload) := by
  refine mapM_eq_some fun b _ => ?_
  have hlt : b.2 % 4 < 4 := Nat.mod_lt _ (by decide)
  have hkey : ((List.range 4).map fun i => byteAt stray v (mask + i)).getD (b.2 % 4) 0 =
      byteAt stray v (mask + b.2 % 4) := by
    rw [List.getD_eq_getElem _ _ (by simpa using hlt), List.getElem_map, List.getElem_range]
  rw [getElem?_eq_byteAt stray (show mask + b.2 % 4 < v.length by omega), hkey]
  rfl

theorem processPayload?_eq (stray : ℕ → UInt8) {v : Bytes} {bMasked : Bool} {len iOffset : ℕ}
    (hne : v ≠ []) (h : bMasked = true → v.length ≠ iOffset) :
    processPayload? v bMasked len iOffset = some (processPayload stray v bMasked len iOffset) := by
  have hfirst := getElem?_eq_byteAt stray (List.length_pos_iff.mpr hne)
  have herase {n : ℕ} (hn : n ≤ v.length) : erase? v n = some (v.drop n) := if_pos hn
  unfold processPayload? processPayload
  cases bMasked with
  | false =>
    simp only [Bool.false_eq_true, false_and, if_false]
    by_cases hlen : v.length < iOffset + len
    · simp [hlen]
    · have hle : iOffset + len ≤ v.length := not_lt.mp hlen
      simp [hlen, payload?_eq hle, herase hle, hfirst]
  | true =>
    simp only [true_and, if_true]
    by_cases hshort : v.length < iOffset
    · simp [hshort]
    · have hkey := getElem?_eq_byteAt stray (show iOffset < v.length by
        have := h rfl
        omega)
      by_cases hlen : v.length < iOffset + 4 + len
      · simp [hshort, hlen, hkey]
      · have hle : iOffset + 4 + len ≤ v.length := not_lt.mp hlen
        have hmask (payload : Bytes) := @unmask?_eq stray v payload iOffset (by omega)
        by_cases hzero : (byteAt stray v iOffset).toNat = 0
        · simp [hshort, hlen, hkey, payload?_eq hle, herase hle, hfirst, hzero]
        · simp [hshort, hlen, hkey, payload?_eq hle, herase hle, hfirst, hzero, hmask]

/-- Where the vector is not cut short, all elements exist, and this is the function of the model. -/
theorem processWholeMessage?_eq (stray : ℕ → UInt8) {v : Bytes} (h : ¬ CutShort v) :
    processWholeMessage? v = some (processWholeMessage stray v) := by
  rcases v with _ | ⟨first, _ | ⟨second, rest⟩⟩
  · rfl
  · exact absurd (.second first) h
  · have hsecond : byteAt stray (first :: second :: rest) 1 = second := rfl
    have hne : (first :: second :: rest).isEmpty = false := rfl
    simp only [processWholeMessage?, processWholeMessage, hne, hsecond, Bool.false_eq_true, if_false,
      List.getElem?_cons_succ, List.getElem?_cons_zero, Option.bind_eq_bind, Option.bind_some]
    by_cases h126 : (second &&& 0x7F).toNat = 126
    · rw [if_pos h126, if_pos h126]
      rcases rest with _ | ⟨high, _ | ⟨low, rest⟩⟩
      · rfl
      · exact absurd (.length first second high h126) h
      · refine processPayload?_eq stray (List.cons_ne_nil _ _) fun hmask hlen => ?_
        obtain rfl : rest = [] := List.eq_nil_of_length_eq_zero (by simpa using hlen)
        exact h (.keyBehindLength first second high low (of_decide_eq_true hmask) h126)
    · rw [if_neg h126, if_neg h126]
      by_cases h127 : (second &&& 0x7F).toNat = 127
      · rw [if_pos h127, if_pos h127]
        rfl
      · rw [if_neg h127, if_neg h127]
        refine processPayload?_eq stray (List.cons_ne_nil _ _) fun hmask hlen => ?_
        obtain rfl : rest = [] := List.eq_nil_of_length_eq_zero (by simpa using hlen)
        have hlt : (second &&& 0x7F).toNat < 128 := by
          rw [toNat_and_127]
          exact Nat.mod_lt _ (by decide)
        exact h (.key first second (of_decide_eq_true hmask) (by omega))

theorem processWholeMessage?_of_cutShort {v : Bytes} (h : CutShort v) :
    processWholeMessage? v = none := by
  cases h with
  | second first => rfl
  | length first second high h126 => simp [processWholeMessage?, h126, -UInt8.toNat_and]
  | key first second hmask hlt =>
    simp [processWholeMessage?, processPayload?, hmask, hlt.ne, (hlt.trans (Nat.lt_succ_self _)).ne,
      -UInt8.toNat_and]
  | keyBehindLength first second high low hmask h126 =>
    simp [processWholeMessage?, processPayload?, hmask, h126, -UInt8.toNat_and]

/-! ### The frames that are found -/

theorem returns_iff (stray : ℕ → UInt8) (v : Bytes) :
    (processWholeMessage stray v).returns = true ↔
      ∃ (f : Frame) (rest : Bytes), f.field ≠ .sixtyFour ∧ v = f.encode ++ rest := by
  constructor
  · intro h
    cases ho : processWholeMessage stray v with
    | message data rest =>
      obtain ⟨f, hf, hv, -⟩ := processWholeMessage_frame ho
      exact ⟨f, rest, hf, hv⟩
    | incomplete =>
      rw [ho] at h
      cases h
    | cleared =>
      rw [ho] at h
      cases h
  · rintro ⟨f, rest, hf, rfl⟩
    rw [processWholeMessage_encode, if_neg hf]
    rfl

/-- **The function stays inside of the buffer and finds the frames, exactly if** the vector does
not end where the size is not compared, and does not start with a frame whose length has 64 bits. -/
theorem contained_of_frames_iff (v : Bytes) : Contained v ↔
    ¬ CutShort v ∧ ∀ (f : Frame) (rest : Bytes), v = f.encode ++ rest → f.field ≠ .sixtyFour := by
  constructor
  · rintro ⟨o, ho, hreturns⟩
    have hcut : ¬ CutShort v := by
      intro hcut
      rw [processWholeMessage?_of_cutShort hcut] at ho
      cases ho
    refine ⟨hcut, fun f rest hv hfield => ?_⟩
    rw [processWholeMessage?_eq (fun _ => 0) hcut, hv, processWholeMessage_encode,
      if_pos hfield] at ho
    obtain rfl := Option.some.inj ho
    exact hreturns.mp rfl ⟨f, rest, hv⟩
  · rintro ⟨hcut, hfield⟩
    refine ⟨_, processWholeMessage?_eq (fun _ => 0) hcut, ?_⟩
    rw [← Bool.not_eq_true, returns_iff]
    refine not_congr ⟨fun ⟨f, rest, _, hv⟩ => ⟨f, rest, hv⟩, fun ⟨f, rest, hv⟩ => ?_⟩
    exact ⟨f, rest, hfield f rest hv, hv⟩

/-- Of a single byte the second one is read. -/
theorem single_byte : ¬ Contained [0x81] := by
  rintro ⟨o, ho, -⟩
  cases ho

end Domoticz.WebSocket
