import Domoticz.Web.Websockets

/-!
# The messages of a websocket

`CWebsocket::parse` puts the fragments of a message together.  It has one buffer, one flag that
says whether a new packet starts, and one operation code, and control frames go through the same
three as the fragments.  A ping between two fragments is taken for the last of them: the message
is handed over early with the ping's payload at its end, the ping is not answered, and the
fragments behind it begin a packet that has no kind.

## Main definitions

* `CWebsocket.parse` — the function.
* `Legal` — the sequences of data, ping and pong frames that the protocol allows.
* `Reassembles` — after every frame the messages that are complete have been handed over, and the
  pings answered.
* `Uninterleaved` — no control frame between the fragments of a message.

## Main results

* `accept_fragment`, `accept_control`, `accept_interleaved` — what a frame does.
* `reassembles_iff` — **messages are reassembled exactly if no control frame is inside of one.**
* `ping_between_fragments` — a ping between the two fragments of a text.
-/

namespace Domoticz.Websockets

open CLib Stream WebSocket

/-! ### The code -/

/-- What `CWebsocket` does with a packet: it hands it over, or writes to the connection. -/
inductive Output
  /-- `OnReceiveText` -/
  | text (packet_data : Bytes)
  /-- `OnReceiveBinary` -/
  | binary (packet_data : Bytes)
  /-- `MyWrite` -/
  | written (buf : Bytes)
  deriving DecidableEq

/-- The members of `CWebsocket` that `parse` uses. -/
structure CWebsocket where
  packet_data : Bytes
  start_new_packet : Bool
  last_opcode : Opcodes

/-- A `CWebsocket` as it is constructed; `last_opcode` is not set. -/
def constructed (last_opcode : Opcodes) : CWebsocket := ⟨[], true, last_opcode⟩

/-- What `CWebsocket::parse` returns, `none` for `boost::indeterminate`, and what it leaves. -/
structure ParseResult where
  websocket : CWebsocket
  result : Option Bool
  bytes_consumed : ℕ
  keep_alive : Bool
  outputs : List Output

/-- `Create` without a mask, for which no key is drawn. -/
def unmasked (opcode : Opcodes) (payload : Bytes) : Bytes :=
  create opcode payload false ⟨[0, 0, 0, 0], rfl⟩

/-- `CWebsocket::parse` behind the parsing of the frame. -/
def CWebsocket.accept (ws : CWebsocket) (frame : CWebsocketFrame) (keep_alive : Bool) :
    ParseResult :=
  let ws :=
    if ws.start_new_packet then { ws with packet_data := [], last_opcode := frame.opcode } else ws
  let ws := { ws with packet_data := ws.packet_data ++ frame.payload }
  let waiting : ParseResult :=
    ⟨{ ws with start_new_packet := false }, some false, frame.bytes_consumed, keep_alive, []⟩
  if frame.fin then
    -- packet is ready for packet handler
    let ws := { ws with start_new_packet := true }
    let handled (result : Bool) (outputs : List Output) : ParseResult :=
      ⟨ws, some result, frame.bytes_consumed, keep_alive, outputs⟩
    if ws.last_opcode = opcode_continuation then handled false []
    else if ws.last_opcode = opcode_text then handled true [.text ws.packet_data]
    else if ws.last_opcode = opcode_binary then handled true [.binary ws.packet_data]
    else if ws.last_opcode = opcode_close then
      { handled false [.written (unmasked opcode_close [])] with keep_alive := false }
    else if ws.last_opcode = opcode_ping then
      handled false [.written (unmasked opcode_pong ws.packet_data)]
    -- `OnPong` only compares
    else if ws.last_opcode = opcode_pong then handled false []
    else waiting
  else waiting

/-- `CWebsocket::parse`. -/
def CWebsocket.parse (ws : CWebsocket) (bytes : Bytes) (keep_alive : Bool) : ParseResult :=
  let frame := CWebsocketFrame.parse {} bytes
  if frame.1 then ws.accept frame.2 keep_alive
  else ⟨ws, none, 0, keep_alive, []⟩

theorem parse_frame (ws : CWebsocket) (f : Frame) (rest : Bytes) (keep_alive : Bool) :
    ws.parse (f.encode ++ rest) keep_alive = ws.accept (parsed f) keep_alive := by
  rw [CWebsocket.parse, parse_encode]
  rfl

theorem parse_incomplete (ws : CWebsocket) {bytes : Bytes} (h : frameCode.next bytes = none)
    (keep_alive : Bool) : ws.parse bytes keep_alive = ⟨ws, none, 0, keep_alive, []⟩ := by
  rw [CWebsocket.parse, (parse_of_next h).1]
  rfl

/-! ### The frames of a client -/

/-- A frame as a client sends it: masked, without reserved bits, and with the shortest length
field. -/
structure ClientFrame where
  fin : Bool
  opcode : Opcodes
  mask : Mask
  payload : Bytes
  length_lt : payload.length < 2 ^ 63

/-- The frame of a client, which has a mask. -/
def ClientFrame.frame (f : ClientFrame) : Frame where
  first := (if f.fin then (0x80 : UInt8) else 0) ||| UInt8.ofNat f.opcode
  mask := some f.mask
  field := shortest f.payload.length
  payload := unmask f.mask.bytes f.payload
  length_lt := by
    rw [length_unmask]
    exact lt_bound_shortest f.length_lt

/-- The bytes of a client's frame. -/
def ClientFrame.bytes (f : ClientFrame) : Bytes := f.frame.encode

/-- A ping or a pong. -/
def ClientFrame.isControl (f : ClientFrame) : Bool :=
  f.opcode = opcode_ping || f.opcode = opcode_pong

/-- The sequences of the frames of messages, and of pings and pongs, that the protocol allows;
`isOpen` says whether the last message has not ended. -/
def Legal : Bool → List ClientFrame → Prop
  | _, [] => True
  | isOpen, f :: frames =>
      if f.isControl then f.fin = true ∧ f.payload.length ≤ 125 ∧ Legal isOpen frames
      else
        (if isOpen then f.opcode = opcode_continuation
          else f.opcode = opcode_text ∨ f.opcode = opcode_binary) ∧ Legal (!f.fin) frames

/-- No control frame is between the fragments of a message. -/
def Uninterleaved : Bool → List ClientFrame → Prop
  | _, [] => True
  | isOpen, f :: frames =>
      if f.isControl then isOpen = false ∧ Uninterleaved isOpen frames
      else Uninterleaved (!f.fin) frames

/-! ### What should be done -/

/-- The kind of an open message, and what has come of it. -/
abbrev Collected := Option (Opcodes × Bytes)

/-- A message is handed over according to its kind. -/
def delivery (message : Opcodes × Bytes) : Output :=
  if message.1 = opcode_text then .text message.2 else .binary message.2

/-- Whether an output hands a message on. -/
def Output.isDelivery : Output → Bool
  | .text _ => true
  | .binary _ => true
  | .written _ => false

/-- The message a frame belongs to, with the frame's payload. -/
def extend (message : Collected) (f : ClientFrame) : Opcodes × Bytes :=
  ((message.getD (f.opcode, [])).1, (message.getD (f.opcode, [])).2 ++ f.payload)

/-- What is open behind a frame. -/
def nextMessage (message : Collected) (f : ClientFrame) : Collected :=
  if f.isControl then message else if f.fin then none else some (extend message f)

/-- The message that a frame completes. -/
def completed (message : Collected) (f : ClientFrame) : List Output :=
  if f.isControl then [] else if f.fin then [delivery (extend message f)] else []

/-- The messages of a sequence of frames, each once and from its own fragments. -/
def messages : Collected → List ClientFrame → List Output
  | _, [] => []
  | message, f :: frames => completed message f ++ messages (nextMessage message f) frames

/-- The answers to the pings of a sequence of frames. -/
def pongs (frames : List ClientFrame) : List Output :=
  (frames.filter fun f => f.opcode = opcode_ping).map fun f =>
    .written (unmasked opcode_pong f.payload)

/-! ### What is done -/

/-- What `parse` does when it is applied to one frame after the other. -/
def run : CWebsocket → List ClientFrame → List Output
  | _, [] => []
  | ws, f :: frames =>
      (ws.parse f.bytes true).outputs ++ run (ws.parse f.bytes true).websocket frames

/-- After every frame, what has been handed over are the messages that are complete, and what has
been written are the answers to the pings. -/
def ReassemblesFrom (ws : CWebsocket) (message : Collected) (frames : List ClientFrame) : Prop :=
  ∀ done, done <+: frames →
    (run ws done).filter Output.isDelivery = messages message done ∧
      (run ws done).filter (fun o => !o.isDelivery) = pongs done

/-- The same for a new `CWebsocket`. -/
def Reassembles (last_opcode : Opcodes) (frames : List ClientFrame) : Prop :=
  ReassemblesFrom (constructed last_opcode) none frames

theorem reassemblesFrom_nil (ws : CWebsocket) (message : Collected) :
    ReassemblesFrom ws message [] := by
  intro done hdone
  rw [List.prefix_nil.mp hdone]
  exact ⟨rfl, rfl⟩

/-- The first frame, and the others behind it. -/
theorem reassemblesFrom_cons_iff (ws : CWebsocket) (message : Collected) (f : ClientFrame)
    (frames : List ClientFrame) :
    ReassemblesFrom ws message (f :: frames) ↔
      ((ws.parse f.bytes true).outputs.filter Output.isDelivery = completed message f ∧
        (ws.parse f.bytes true).outputs.filter (fun o => !o.isDelivery) = pongs [f]) ∧
      ReassemblesFrom (ws.parse f.bytes true).websocket (nextMessage message f) frames := by
  have hpongs (done : List ClientFrame) : pongs (f :: done) = pongs [f] ++ pongs done := by
    rw [pongs, pongs, pongs, ← List.map_append, ← List.filter_append]
    rfl
  constructor
  · intro h
    have hfirst := h [f] (List.prefix_append [f] frames)
    simp only [run, messages, List.append_nil] at hfirst
    refine ⟨hfirst, fun done hdone => ?_⟩
    have hrest := h (f :: done) (List.cons_prefix_cons.mpr ⟨rfl, hdone⟩)
    rw [run, messages, hpongs, List.filter_append, List.filter_append, hfirst.1, hfirst.2] at hrest
    exact ⟨List.append_cancel_left hrest.1, List.append_cancel_left hrest.2⟩
  · rintro ⟨hfirst, hrest⟩ done hdone
    cases done with
    | nil => exact ⟨rfl, rfl⟩
    | cons g done =>
      obtain ⟨rfl, hprefix⟩ := List.cons_prefix_cons.mp hdone
      rw [run, messages, hpongs, List.filter_append, List.filter_append, hfirst.1, hfirst.2,
        (hrest done hprefix).1, (hrest done hprefix).2]
      exact ⟨rfl, rfl⟩

/-! ### What a frame does -/

theorem client_bits (fin : Bool) (opcode : Opcodes) :
    decide (((if fin then (0x80 : UInt8) else 0) ||| UInt8.ofNat opcode) &&& 0x80 ≠ 0) = fin ∧
      Fin.ofNat 16 (((if fin then (0x80 : UInt8) else 0) ||| UInt8.ofNat opcode) &&& 0x0f).toNat =
        opcode := by
  revert fin opcode
  decide

/-- What `parse` finds in a client's frame. -/
theorem parsed_client (f : ClientFrame) :
    (parsed f.frame).fin = f.fin ∧ (parsed f.frame).opcode = f.opcode ∧
      (parsed f.frame).payload = f.payload :=
  ⟨(client_bits f.fin f.opcode).1, (client_bits f.fin f.opcode).2,
    unmask_unmask f.mask.bytes f.payload⟩

theorem parse_client (ws : CWebsocket) (f : ClientFrame) :
    ws.parse f.bytes true = ws.accept (parsed f.frame) true := by
  have hparse := parse_frame ws f.frame [] true
  rwa [List.append_nil] at hparse

/-- The members are those of what is open. -/
def Holds (ws : CWebsocket) : Collected → Prop
  | none => ws.start_new_packet = true
  | some (kind, collected) =>
      ws.start_new_packet = false ∧ ws.last_opcode = kind ∧ ws.packet_data = collected ∧
        (kind = opcode_text ∨ kind = opcode_binary)

/-- A fragment of a message does what it should. -/
theorem accept_fragment {ws : CWebsocket} {message : Collected} {f : ClientFrame}
    (h : Holds ws message) (hcontrol : f.isControl = false)
    (hkind : (extend message f).1 = opcode_text ∨ (extend message f).1 = opcode_binary) :
    (ws.parse f.bytes true).outputs = completed message f ∧
      Holds (ws.parse f.bytes true).websocket (nextMessage message f) := by
  obtain ⟨hfin, hopcode, hpayload⟩ := parsed_client f
  have hdata : ¬ f.isControl = true := by simp [hcontrol]
  rw [parse_client, completed, nextMessage, if_neg hdata, if_neg hdata]
  have hopen : (if ws.start_new_packet then
      { ws with packet_data := [], last_opcode := f.opcode } else ws).last_opcode =
        (extend message f).1 ∧
      (if ws.start_new_packet then
        { ws with packet_data := [], last_opcode := f.opcode } else ws).packet_data ++ f.payload =
        (extend message f).2 := by
    cases message with
    | none =>
      have hstart : ws.start_new_packet = true := h
      rw [if_pos hstart]
      exact ⟨rfl, rfl⟩
    | some message =>
      obtain ⟨hstart, hlast, hdata, -⟩ := h
      rw [if_neg (by simp [hstart])]
      exact ⟨hlast, by rw [hdata]; rfl⟩
  simp only [CWebsocket.accept, hfin, hopcode, hpayload, hopen]
  cases hf : f.fin with
  | false =>
    simp only [Bool.false_eq_true, if_false]
    exact ⟨trivial, rfl, rfl, rfl, hkind⟩
  | true =>
    rcases hkind with hkind | hkind
    · simp only [hkind, delivery]
      exact ⟨rfl, rfl⟩
    · simp only [hkind, delivery]
      exact ⟨rfl, rfl⟩

/-- A ping or a pong does what it should where no message is open. -/
theorem accept_control {ws : CWebsocket} {f : ClientFrame} (h : ws.start_new_packet = true)
    (hcontrol : f.isControl = true) (hfin : f.fin = true) :
    (ws.parse f.bytes true).outputs = pongs [f] ∧
      (ws.parse f.bytes true).websocket.start_new_packet = true := by
  obtain ⟨hfin', hopcode, hpayload⟩ := parsed_client f
  rw [parse_client]
  simp only [CWebsocket.accept, hfin', hopcode, hpayload, hfin, h, if_true, List.nil_append]
  have hkind : f.opcode = opcode_ping ∨ f.opcode = opcode_pong := by
    simpa [ClientFrame.isControl] using hcontrol
  rcases hkind with hkind | hkind
  · simp only [hkind, pongs, List.filter_singleton]
    exact ⟨rfl, rfl⟩
  · simp only [hkind, pongs, List.filter_singleton]
    exact ⟨rfl, rfl⟩

/-- Inside of a message a control frame is taken for its last fragment. -/
theorem accept_interleaved {ws : CWebsocket} {message : Opcodes × Bytes} {f : ClientFrame}
    (h : Holds ws (some message)) (hfin : f.fin = true) :
    (ws.parse f.bytes true).outputs = [delivery (message.1, message.2 ++ f.payload)] := by
  obtain ⟨hfin', hopcode, hpayload⟩ := parsed_client f
  obtain ⟨hstart, hlast, hdata, hkind⟩ := h
  rw [parse_client]
  simp only [CWebsocket.accept, hfin', hopcode, hpayload, hfin, hstart, hlast, hdata, if_true,
    Bool.false_eq_true, if_false]
  rcases hkind with hkind | hkind
  · simp only [hkind, delivery]
    rfl
  · simp only [hkind, delivery]
    rfl

theorem completed_filter (message : Collected) (f : ClientFrame) :
    (completed message f).filter Output.isDelivery = completed message f ∧
      (completed message f).filter (fun o => !o.isDelivery) = [] := by
  have hdelivery (m : Opcodes × Bytes) : (delivery m).isDelivery = true := by
    rw [delivery]
    split <;> rfl
  rw [completed]
  split
  · exact ⟨rfl, rfl⟩
  · split
    · simp [hdelivery]
    · exact ⟨rfl, rfl⟩

theorem pongs_filter (frames : List ClientFrame) :
    (pongs frames).filter Output.isDelivery = [] ∧
      (pongs frames).filter (fun o => !o.isDelivery) = pongs frames := by
  constructor
  · rw [List.filter_eq_nil_iff]
    intro o ho
    obtain ⟨f, -, rfl⟩ := List.mem_map.mp ho
    exact Bool.false_ne_true
  · rw [List.filter_eq_self]
    intro o ho
    obtain ⟨f, -, rfl⟩ := List.mem_map.mp ho
    rfl

/-! ### Reassembly -/

/-- The induction is on the frames; what the members hold is what is open. -/
theorem reassemblesFrom_iff {ws : CWebsocket} {message : Collected} {frames : List ClientFrame}
    (hholds : Holds ws message) (h : Legal message.isSome frames) :
    ReassemblesFrom ws message frames ↔ Uninterleaved message.isSome frames := by
  induction frames generalizing ws message with
  | nil => exact iff_of_true (reassemblesFrom_nil ws message) trivial
  | cons f frames ih =>
    rw [reassemblesFrom_cons_iff, Uninterleaved]
    rw [Legal] at h
    cases hcontrol : f.isControl with
    | true =>
      rw [if_pos hcontrol] at h
      obtain ⟨hfin, -, hlegal⟩ := h
      have hcompleted : completed message f = [] := if_pos hcontrol
      have hnext : nextMessage message f = message := if_pos hcontrol
      rw [if_pos rfl, hcompleted, hnext]
      cases message with
      | none =>
        obtain ⟨houtputs, hstart⟩ := accept_control hholds hcontrol hfin
        have hholds' : Holds (ws.parse f.bytes true).websocket none := hstart
        rw [houtputs, (pongs_filter [f]).1, (pongs_filter [f]).2, ih hholds' hlegal]
        simp
      | some message =>
        -- the message is handed over, and should not be
        have houtputs := accept_interleaved (f := f) hholds hfin
        have hdelivery : (delivery (message.1, message.2 ++ f.payload)).isDelivery = true := by
          rw [delivery]
          split <;> rfl
        rw [houtputs, List.filter_singleton, hdelivery]
        simp
    | false =>
      rw [if_neg (by simp [hcontrol])] at h
      have hkind : (extend message f).1 = opcode_text ∨ (extend message f).1 = opcode_binary := by
        cases message with
        | none => exact h.1
        | some message => exact hholds.2.2.2
      obtain ⟨houtputs, hnext⟩ := accept_fragment hholds hcontrol hkind
      have hopen : (nextMessage message f).isSome = !f.fin := by
        rw [nextMessage, if_neg (by simp [hcontrol])]
        cases f.fin <;> rfl
      have hpongs : pongs [f] = [] := by
        have hne : f.opcode ≠ opcode_ping := by
          intro hping
          simp [ClientFrame.isControl, hping] at hcontrol
        simp [pongs, hne]
      have hlegal := h.2
      rw [← hopen] at hlegal
      rw [houtputs, (completed_filter message f).1, (completed_filter message f).2, hpongs,
        ih hnext hlegal, hopen]
      simp

/-- **Messages are reassembled exactly if no control frame is inside of one.** -/
theorem reassembles_iff (last_opcode : Opcodes) {frames : List ClientFrame}
    (h : Legal false frames) : Reassembles last_opcode frames ↔ Uninterleaved false frames := by
  have hholds : Holds (constructed last_opcode) none := rfl
  exact reassemblesFrom_iff hholds h

/-- A frame with a key of zeros. -/
def clientFrame (fin : Bool) (opcode : Opcodes) (payload : Bytes)
    (h : payload.length < 2 ^ 63) : ClientFrame := ⟨fin, opcode, ⟨[0, 0, 0, 0], rfl⟩, payload, h⟩

/-- Two fragments of a text. -/
def twoFragments : List ClientFrame :=
  [clientFrame false opcode_text (str "a") (by decide),
    clientFrame true opcode_continuation (str "b") (by decide)]

theorem reassembles_iff_twoFragments :
    Legal false twoFragments ∧ (Reassembles 0 twoFragments ↔ Uninterleaved false twoFragments) :=
  have hlegal : Legal false twoFragments := by simp [Legal, twoFragments, clientFrame]; decide
  ⟨hlegal, reassembles_iff 0 hlegal⟩

/-- The same text, with a ping between its fragments. -/
def pingedText : List ClientFrame :=
  [clientFrame false opcode_text (str "a") (by decide),
    clientFrame true opcode_ping (str "x") (by decide),
    clientFrame true opcode_continuation (str "b") (by decide)]

/-- The text is handed over as `ax`, and the ping is not answered. -/
theorem ping_between_fragments : Legal false pingedText ∧ ¬ Reassembles 0 pingedText := by
  constructor
  · simp [Legal, pingedText, clientFrame]
    decide
  · intro h
    have hrun : run (constructed 0) pingedText = [.text (str "ax")] := by decide
    have hpings := (h pingedText List.prefix_rfl).2
    rw [hrun] at hpings
    exact absurd hpings (by decide)

end Domoticz.Websockets
