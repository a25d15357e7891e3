import Domoticz.Plugin.WebSocketDecoding
import Domoticz.Plugin.WebSocketOutbound
import Domoticz.Web.Reassembly

/-!
# A plugin and the web server

The program has the websocket protocol twice: `CPluginProtocolWS` is what plugins talk with, and
`CWebsocket` what the web server does.  A plugin may well be connected to the server.

The server takes what a plugin sends as it was meant, whatever the key is, up to 125 bytes and for
texts of one byte a character.  It answers a ping.  The plugin takes a frame of the server with up
to 65535 bytes, if it is a message.

## Main definitions

* `Reaches` — the server finds the frame of a request, with its payload.
* `Whole` — the requests for which it does.
* `hears` — the server, and what it does for the frames it reads.
* `Comes`, `Plain` — the plugin is given the message for a frame of the server.

## Main results

* `reaches_iff` — **a request reaches the server exactly if it is sent whole.**
* `hears_all` — **every request of a conversation is heard, in order.**
* `pong_comes` — **a ping is answered with its payload.**
* `all_come` — **the messages of the server come, in order.**
-/

namespace Domoticz.Peers

open CLib Stream WebSocket

attribute [local instance] Websockets.neZero_opcodes

/-! ### From a plugin to the server -/

/-- The server finds the frame of the request, with its payload, at the front of what it reads. -/
def Reaches (r : FrameRequest) (payload : Bytes) : Prop :=
  ∀ stray, ∃ bytes, processOutbound stray (some (.dict r.dict)) = .ok bytes ∧
    ∀ (frame : Websockets.CWebsocketFrame) (rest : Bytes),
      (frame.parse (bytes ++ rest)).1 = true ∧
        (frame.parse (bytes ++ rest)).2.bytes_consumed = bytes.length ∧
        (frame.parse (bytes ++ rest)).2.payload = payload

/-- A request that is sent whole: up to 125 bytes, masked unless there are none, and in a text each
character has one byte, and there is no NUL but at its end. -/
structure Whole (r : FrameRequest) (payload : Bytes) : Prop where
  content : r.payload.content = some payload
  length_lt : payload.length < 126
  masked : r.key = none → payload = []
  text : ∀ s, r.payload = .str s → payload.length = s.length ∧ 0 ∉ payload.dropLast

/-- The payload that is masked, as the server has it. -/
theorem received_none (src : ℕ → UInt8) (n : ℕ) : received none src n = (List.range n).map src := by
  apply List.map_congr_left
  intro i _
  exact UInt8.xor_zero

/-- The mask is taken off, whatever the key is. -/
theorem data_frameOf (r : FrameRequest) (src : ℕ → UInt8) {n : ℕ} (h : n < 126) :
    Websockets.data (frameOf r src h) = received none src n := by
  have hmask : (frameOf r src h).mask = r.key.map mask := rfl
  have hpayload : (frameOf r src h).payload = combined r.key src n := rfl
  rw [Websockets.data, hmask, hpayload]
  cases r.key with
  | none => rfl
  | some key =>
    have hcombined : combined (some key) src n =
        WebSocket.unmask (keyBytes key) ((List.range n).map src) :=
      (unmask_map_range (keyBytes key) src n).symm
    rw [received_none, hcombined]
    exact WebSocket.unmask_unmask (keyBytes key) ((List.range n).map src)

/-- What is found where all of the bytes are a frame. -/
theorem parse_frameOf (frame : Websockets.CWebsocketFrame) (r : FrameRequest) (src : ℕ → UInt8)
    {n : ℕ} (h : n < 126) (rest : Bytes) :
    (frame.parse ((frameOf r src h).encode ++ rest)).1 = true ∧
      (frame.parse ((frameOf r src h).encode ++ rest)).2.bytes_consumed =
        (frameOf r src h).encode.length ∧
      (frame.parse ((frameOf r src h).encode ++ rest)).2.payload = received none src n := by
  rw [Websockets.parse_encode, ← data_frameOf r src h]
  exact ⟨rfl, rfl, rfl⟩

/-- **A request reaches the server exactly if it is sent whole.** -/
theorem reaches_iff {r : FrameRequest} (haccepted : r.Accepted) (payload : Bytes) :
    r.payload.content = some payload ∧ Reaches r payload ↔ Whole r payload := by
  constructor
  · rintro ⟨hcontent, hreaches⟩
    have hsent (stray src : ℕ → UInt8) (hsrc : source stray r.payload = some src) :
        (r.key = none → payloadLength (some r.payload.object) = 0) ∧
          payloadLength (some r.payload.object) < 126 ∧
            received none src (payloadLength (some r.payload.object)) = payload := by
      obtain ⟨bytes, hbytes, hparse⟩ := hreaches stray
      obtain ⟨hfound, hconsumed, hdata⟩ := hparse {} []
      rw [List.append_nil] at hfound hconsumed hdata
      obtain ⟨f, rest, hf⟩ := Websockets.exists_frame_of_parse hfound
      rw [hf, Websockets.parse_encode] at hconsumed hdata
      -- The frame is all there is.
      have hrest : rest = [] := by
        have hlen : f.encode.length = (f.encode ++ rest).length := hconsumed
        rw [List.length_append] at hlen
        exact List.eq_nil_of_length_eq_zero (by omega)
      rw [hrest, List.append_nil] at hf
      rw [hf] at hbytes
      obtain ⟨hnone, hshort, rfl⟩ := (processOutbound_short haccepted hsrc).mp hbytes
      exact ⟨hnone, hshort, (data_frameOf r src hshort).symm.trans hdata⟩
    obtain ⟨src, hsrc⟩ := exists_source hcontent fun _ => 0
    obtain ⟨hnone, hshort, hreceived⟩ := hsent _ src hsrc
    obtain ⟨-, htext⟩ := (received_iff none hcontent).mp fun stray src hsrc =>
      (hsent stray src hsrc).2.2
    exact {
      content := hcontent
      length_lt := by rwa [(received_eq_iff.mp hreceived).1]
      masked := fun hkey => (payloadLength_eq_zero_iff hcontent).mp (hnone hkey)
      text := htext }
  · intro h
    refine ⟨h.content, fun stray => ?_⟩
    obtain ⟨src, hsrc⟩ := exists_source h.content stray
    have hshort := (length_le_content h.content).trans_lt h.length_lt
    have hreceived := (received_iff none h.content).mpr ⟨fun _ _ => rfl, h.text⟩ stray src hsrc
    refine ⟨(frameOf r src hshort).encode, (processOutbound_short haccepted hsrc).mpr
      ⟨fun hkey => (payloadLength_eq_zero_iff h.content).mpr (h.masked hkey), hshort, rfl⟩,
      fun frame rest => ?_⟩
    rw [← hreceived]
    exact parse_frameOf frame r src hshort rest

/-- A ping with a key that begins with a zero. -/
def pingRequest : FrameRequest := ⟨some (pyStr "Ping"), .bytes (str "up"), some (.int 7)⟩

theorem accepted_pingRequest : pingRequest.Accepted := by
  constructor
  · rintro s ⟨⟩
    rfl
  · rintro s ⟨⟩

theorem whole_pingRequest : Whole pingRequest (str "up") where
  content := rfl
  length_lt := by decide
  masked := by
    intro hkey
    cases hkey
  text := by
    rintro s ⟨⟩

theorem reaches_pingRequest :
    pingRequest.payload.content = some (str "up") ∧ Reaches pingRequest (str "up") :=
  (reaches_iff accepted_pingRequest (str "up")).mpr whole_pingRequest

/-! ### What the server does for it -/

/-- What comes of a frame: a message for the packet handler, or an answer. -/
def answer (iOpCode : UInt8) (payload : Bytes) : List Websockets.Output :=
  if iOpCode = 0x01 then [.text payload]
  else if iOpCode = 0x02 then [.binary payload]
  else if iOpCode = 0x08 then [.written (Websockets.unmasked Websockets.opcode_close [])]
  else if iOpCode = 0x09 then [.written (Websockets.unmasked Websockets.opcode_pong payload)]
  else []

/-- What the server does for the frames it reads, one after the other. -/
def hears : Websockets.CWebsocket → List Bytes → List Websockets.Output
  | _, [] => []
  | ws, bytes :: reads =>
      (ws.parse bytes true).outputs ++ hears (ws.parse bytes true).websocket reads

/-- A frame that is complete in itself is handled, and a new packet starts behind it. -/
theorem accept_whole {ws : Websockets.CWebsocket} (hws : ws.start_new_packet = true)
    (r : FrameRequest) (src : ℕ → UInt8) {n : ℕ} (h : n < 126) :
    (ws.accept (Websockets.parsed (frameOf r src h)) true).outputs =
        answer r.opcode (received none src n) ∧
      (ws.accept (Websockets.parsed (frameOf r src h)) true).websocket.start_new_packet = true := by
  have hfirst : (frameOf r src h).first = 0x80 ||| r.opcode := rfl
  have hdata := data_frameOf r src h
  obtain ⟨data, hd⟩ : ∃ data, data = Websockets.data (frameOf r src h) := ⟨_, rfl⟩
  rw [← hd] at hdata
  rw [← hdata]
  unfold Websockets.CWebsocket.accept Websockets.parsed Websockets.final Websockets.opcode
  rw [hfirst, ← hd]
  simp only [hws, if_true, List.nil_append]
  rcases opcode_cases r with h | h | h | h | h
  · rw [h]; exact ⟨rfl, rfl⟩
  · rw [h]; exact ⟨rfl, rfl⟩
  · rw [h]; exact ⟨rfl, rfl⟩
  · rw [h]; exact ⟨rfl, rfl⟩
  · rw [h]; exact ⟨rfl, rfl⟩

/-- What the server does for a request that is sent whole. -/
theorem parse_whole (stray : ℕ → UInt8) {r : FrameRequest} (haccepted : r.Accepted)
    {payload : Bytes} (h : Whole r payload) : ∃ bytes,
      processOutbound stray (some (.dict r.dict)) = .ok bytes ∧
        ∀ ws : Websockets.CWebsocket, ws.start_new_packet = true →
          (ws.parse bytes true).outputs = answer r.opcode payload ∧
            (ws.parse bytes true).websocket.start_new_packet = true := by
  obtain ⟨src, hsrc⟩ := exists_source h.content stray
  have hshort := (length_le_content h.content).trans_lt h.length_lt
  have hreceived := (received_iff none h.content).mpr ⟨fun _ _ => rfl, h.text⟩ stray src hsrc
  refine ⟨(frameOf r src hshort).encode, (processOutbound_short haccepted hsrc).mpr
    ⟨fun hkey => (payloadLength_eq_zero_iff h.content).mpr (h.masked hkey), hshort, rfl⟩,
    fun ws hws => ?_⟩
  have hparse := Websockets.parse_frame ws (frameOf r src hshort) [] true
  rw [List.append_nil] at hparse
  rw [hparse, ← hreceived]
  exact accept_whole hws r src hshort

/-- **Every request of a conversation is heard**: each is sent, and what the server does for them,
read one after the other, is what is due for each, in order. -/
theorem hears_all (stray : ℕ → UInt8) (last_opcode : Websockets.Opcodes)
    (requests : List (FrameRequest × Bytes))
    (h : ∀ r ∈ requests, r.1.Accepted ∧ Whole r.1 r.2) :
    ∃ reads : List Bytes, requests.map (fun r => processOutbound stray (some (.dict r.1.dict))) =
        reads.map .ok ∧
      hears (Websockets.constructed last_opcode) reads =
        requests.flatMap fun r => answer r.1.opcode r.2 := by
  have hstart : (Websockets.constructed last_opcode).start_new_packet = true := rfl
  generalize Websockets.constructed last_opcode = ws at hstart
  induction requests generalizing ws with
  | nil => exact ⟨[], rfl, rfl⟩
  | cons r requests ih =>
    obtain ⟨haccepted, hwhole⟩ := h r List.mem_cons_self
    obtain ⟨bytes, hbytes, hparse⟩ := parse_whole stray haccepted hwhole
    obtain ⟨houtputs, hnew⟩ := hparse ws hstart
    obtain ⟨reads, hreads, hheard⟩ := ih (fun r hr => h r (List.mem_cons_of_mem _ hr)) _ hnew
    refine ⟨bytes :: reads, ?_, ?_⟩
    · rw [List.map_cons, List.map_cons, hbytes, hreads]
    · rw [hears, hheard, houtputs, List.flatMap_cons]

theorem hears_pings : ∃ reads : List Bytes,
    [(pingRequest, str "up"), (pingRequest, str "up")].map
        (fun r => processOutbound (fun _ => 0) (some (.dict r.1.dict))) = reads.map .ok ∧
      hears (Websockets.constructed 0) reads =
        [(pingRequest, str "up"), (pingRequest, str "up")].flatMap
          fun r => answer r.1.opcode r.2 :=
  hears_all (fun _ => 0) 0 [(pingRequest, str "up"), (pingRequest, str "up")] (by
    intro r hr
    rw [List.mem_cons, List.mem_singleton] at hr
    obtain rfl : r = (pingRequest, str "up") := hr.elim id id
    exact ⟨accepted_pingRequest, whole_pingRequest⟩)

/-! ### From the server to a plugin -/

/-- The operation code as the server has it. -/
def serverCode (opcode : Opcode) : Websockets.Opcodes :=
  match opcode with
  | .text => Websockets.opcode_text
  | .binary => Websockets.opcode_binary
  | .close => Websockets.opcode_close
  | .ping => Websockets.opcode_ping
  | .pong => Websockets.opcode_pong

/-- The payload that is due: the text of a text message, the reason code of a close, and the bytes
of any other payload there is. -/
def due (opcode : Opcode) (payload : Bytes) : Option PyValue :=
  if opcode = .text then some (.text payload)
  else if opcode = .close ∧ payload.length = 2 then
    some (.int (number (payload.getD 0 0) (payload.getD 1 0)))
  else if payload.isEmpty then none else some (.bytes payload)

/-- The message says what the frame carries. -/
structure Tells (d : Dict) (opcode : Opcode) (payload : Bytes) : Prop where
  finish : d.lookup (str "Finish") = some (.bool true)
  operation : d.lookup (str "Operation") = opcode.operation.map fun name => .text (str name)
  payload : d.lookup (str "Payload") = due opcode payload

/-- One message is found in the bytes of the server's frame, it says what the frame carries, and
what follows is left. -/
def Comes (opcode : Opcode) (payload : Bytes) : Prop :=
  ∀ (stray : ℕ → UInt8) (rest : Bytes), ∃ d,
    processWholeMessage stray (Websockets.unmasked (serverCode opcode) payload ++ rest) =
        .message d rest ∧ Tells d opcode payload

/-- The messages of the server that a plugin can be given: up to 65535 bytes, neither a ping nor a
pong, and a text is UTF-8 without a NUL. -/
structure Plain (opcode : Opcode) (payload : Bytes) : Prop where
  length_lt : payload.length < 65536
  data : opcode ≠ .ping ∧ opcode ≠ .pong
  text : opcode = .text → 0 ∉ payload ∧ (ByteArray.mk payload.toArray).validateUTF8 = true

/-- The first byte of a frame of the server. -/
theorem first_created (opcode : Opcode) :
    UInt8.ofNat (serverCode opcode) ||| 0x80 = 0x80 ||| opcode.code := by
  cases opcode <;> rfl

theorem shortest_ne_iff (n : ℕ) : shortest n ≠ .sixtyFour ↔ n < 65536 := by
  unfold shortest
  split
  · exact iff_of_true (by decide) (by omega)
  · split
    · exact iff_of_true (by decide) (by assumption)
    · exact iff_of_false (by decide) (by assumption)

/-- The messages that come are the plain ones. -/
theorem comes_iff (opcode : Opcode) {payload : Bytes} (h : payload.length < 2 ^ 63) :
    Comes opcode payload ↔ Plain opcode payload := by
  have hencode : Websockets.unmasked (serverCode opcode) payload =
      (Websockets.created (serverCode opcode) payload false ⟨[0, 0, 0, 0], rfl⟩ h).encode :=
    Websockets.create_eq_encode (serverCode opcode) payload false ⟨[0, 0, 0, 0], rfl⟩ h
  by_cases hshort : payload.length < 65536
  · let s : Sent := ⟨true, opcode, none, shortest payload.length, payload,
      (shortest_ne_iff _).mpr hshort, lt_bound_shortest h⟩
    have hframe : s.frame =
        Websockets.created (serverCode opcode) payload false ⟨[0, 0, 0, 0], rfl⟩ h := by
      unfold Websockets.created
      simp only [first_created]
      rfl
    have hdecoded : Comes opcode payload ↔ Decoded s := by
      rw [Comes, hencode, ← hframe]
      constructor
      · intro hcomes stray rest
        obtain ⟨d, hd, htells⟩ := hcomes stray rest
        exact ⟨d, hd, htells.finish, htells.operation, htells.payload⟩
      · intro hdec stray rest
        obtain ⟨d, hd, hsays⟩ := hdec stray rest
        exact ⟨d, hd, hsays.finish, hsays.operation, hsays.payload⟩
    rw [hdecoded, decoded_frame_iff]
    constructor
    · intro hplain
      exact ⟨hshort, hplain.data, hplain.text⟩
    · intro hplain
      refine ⟨hplain.data, ?_, hplain.text⟩
      intro m hm
      cases hm
  · refine iff_of_false (fun hcomes => ?_) fun hplain => hshort hplain.length_lt
    obtain ⟨d, hd, -⟩ := hcomes (fun _ => 0) []
    rw [hencode, processWholeMessage_encode] at hd
    have hlong : shortest payload.length = .sixtyFour := by
      by_contra hne
      exact hshort ((shortest_ne_iff _).mp hne)
    rw [show (Websockets.created (serverCode opcode) payload false ⟨[0, 0, 0, 0], rfl⟩ h).field =
      shortest payload.length from rfl, if_pos hlong] at hd
    cases hd

/-- **A ping comes back**: the server answers it, and the plugin is given a pong with the payload of
the ping. -/
theorem pong_comes {stray : ℕ → UInt8} {r : FrameRequest} (haccepted : r.Accepted)
    {payload : Bytes} (h : Whole r payload) (hping : r.opcode = 0x09) :
    ∃ (bytes pong : Bytes) (d : Dict),
      processOutbound stray (some (.dict r.dict)) = .ok bytes ∧
      (∀ ws : Websockets.CWebsocket, ws.start_new_packet = true →
        (ws.parse bytes true).outputs = [.written pong]) ∧
      (∀ strayBuffer strayRetained, processInbound [] ⟨pong, strayBuffer, strayRetained⟩ =
        ([], [.onMessage d])) ∧
      delivered d = some (str "Pong") ∧ carried d = payload := by
  obtain ⟨bytes, hbytes, hparse⟩ := parse_whole stray haccepted h
  have hlt : payload.length < 2 ^ 63 := h.length_lt.trans (by decide)
  let f := Websockets.created Websockets.opcode_pong payload false ⟨[0, 0, 0, 0], rfl⟩ hlt
  have hpong : Websockets.unmasked Websockets.opcode_pong payload = f.encode :=
    Websockets.create_eq_encode Websockets.opcode_pong payload false ⟨[0, 0, 0, 0], rfl⟩ hlt
  have hfield : f.field ≠ .sixtyFour :=
    (shortest_ne_iff _).mpr (h.length_lt.trans (by decide))
  have hfinal : decide (f.first &&& 0x80 ≠ 0) = true :=
    decide_eq_true (Websockets.created_bits Websockets.opcode_pong).1
  have hcode : f.first &&& 0x0F = 0x0A :=
    (by decide : (UInt8.ofNat Websockets.opcode_pong ||| 0x80) &&& 0x0F = 0x0A)
  have hcontents : f.contents = dataDict true 0 0x0A payload := by
    rw [Frame.contents, hfinal, hcode]
    rfl
  refine ⟨bytes, f.encode, f.contents, hbytes, fun ws hws => ?_, fun strayBuffer strayRetained => ?_,
    ?_, ?_⟩
  · rw [(hparse ws hws).1, hping, ← hpong]
    rfl
  · have hmessage := processWholeMessage_encode strayBuffer f []
    rw [List.append_nil, if_neg hfield] at hmessage
    rw [processInbound, hmessage]
  · rw [hcontents, delivered_dataDict]
    rfl
  · rw [hcontents, carried_dataDict, if_neg fun hone => absurd hone.1 (by decide)]

theorem pong_comes_pingRequest : ∃ (bytes pong : Bytes) (d : Dict),
    processOutbound (fun _ => 0) (some (.dict pingRequest.dict)) = .ok bytes ∧
    (∀ ws : Websockets.CWebsocket, ws.start_new_packet = true →
      (ws.parse bytes true).outputs = [.written pong]) ∧
    (∀ strayBuffer strayRetained, processInbound [] ⟨pong, strayBuffer, strayRetained⟩ =
      ([], [.onMessage d])) ∧
    delivered d = some (str "Pong") ∧ carried d = str "up" :=
  pong_comes accepted_pingRequest whole_pingRequest (by decide)

/-- **All plain messages of the server come**, in order, if each arrives in a read of its own,
whatever the memory behind each read holds. -/
theorem all_come (messages : List (Opcode × Bytes)) (h : ∀ m ∈ messages, Plain m.1 m.2)
    (reads : List ReadEvent) (hreads : reads.map ReadEvent.m_Buffer =
      messages.map fun m => Websockets.unmasked (serverCode m.1) m.2) :
    ∃ ds : List Dict, List.Forall₂ (fun m d => Tells d m.1 m.2) messages ds ∧
      steps processInbound reads = ([], ds.map .onMessage) := by
  induction messages using List.reverseRecOn generalizing reads with
  | nil =>
    obtain rfl := List.map_eq_nil_iff.mp hreads
    exact ⟨[], .nil, rfl⟩
  | append_singleton messages m ih =>
    rw [List.map_append, List.map_singleton] at hreads
    obtain ⟨done, last, rfl, hdone, hlast⟩ := List.map_eq_append_iff.mp hreads
    obtain ⟨e, rfl, he⟩ := List.map_eq_singleton_iff.mp hlast
    obtain ⟨ds, htells, hsteps⟩ := ih (fun m hm => h m (List.mem_append_left _ hm)) done hdone
    have hplain := h m (List.mem_append_right _ List.mem_cons_self)
    have hcomes := (comes_iff m.1 (hplain.length_lt.trans (by decide))).mpr hplain
    obtain ⟨d, hd, htell⟩ := hcomes e.strayBuffer []
    rw [List.append_nil, ← he] at hd
    refine ⟨ds ++ [d], List.rel_append htells (.cons htell .nil), ?_⟩
    rw [steps_concat, hsteps, List.map_append]
    simp only [processInbound, hd, List.map_cons, List.map_nil]

theorem all_come_text_close : ∃ ds : List Dict,
    List.Forall₂ (fun m d => Tells d m.1 m.2) [(Opcode.text, str "on"), (.close, [3, 232])] ds ∧
      steps processInbound [⟨Websockets.unmasked (serverCode .text) (str "on"), fun _ => 0, fun _ => 1⟩,
        ⟨Websockets.unmasked (serverCode .close) [3, 232], fun _ => 2, fun _ => 3⟩] =
          ([], ds.map .onMessage) :=
  all_come [(.text, str "on"), (.close, [3, 232])] (by
    intro m hm
    rw [List.mem_cons, List.mem_singleton] at hm
    rcases hm with rfl | rfl
    · exact ⟨by decide, by decide, fun _ => ⟨by decide, by decide +kernel⟩⟩
    · exact ⟨by decide, by decide, fun h => absurd h (by decide)⟩) _ rfl

end Domoticz.Peers
