import Domoticz.Web.Reassembly
import Domoticz.Web.WriteQueue

/-!
# Reading from a websocket

When a connection has been upgraded, `handle_read` hands what it has read to `CWebsocket::parse`,
once.  The second of two frames that arrive in one read stays in the buffer until something else
arrives.  For a Close frame `parse` answers and returns false, as it does for every control frame,
and so the branch of `handle_read` that enters the closing state is not taken: the connection
reads on, and writes, until the answer has been written and `handle_write` stops it.

## Main definitions

* `Upgraded` — an upgraded connection; `handleRead` is the websocket's part of `handle_read`.
* `Right` — a step leaves no complete frame to a connection that waits for more, and behind a
  Close frame the connection is closing or stopped, and neither handles nor sends anything.
* `ReadFits` — the reads that complete at most one frame, and no Close frame.

## Main results

* `right_iff` — **the reads of a run are dealt with exactly if they fit.**
* `neither_drained_nor_closed` — two pings in one read, and a Close frame.
-/

namespace Domoticz.Server

open CLib Stream Transition WebSocket Websockets

/-! ### The code -/

/-- The members of `connection` that reading from a websocket uses. -/
structure Upgraded extends Connection where
  /-- `_buf` -/
  buf : Bytes
  websocket : CWebsocket
  /-- A read is outstanding. -/
  reading : Bool := true
  /-- `parse` has found a Close frame. -/
  closeReceived : Bool := false
  /-- How many frames `parse` has found. -/
  handled : ℕ := 0
  /-- The data frames that have been written while the connection was not stopped. -/
  dataWritten : List Bytes := []

/-- A connection at the end of the `handle_read` that upgrades it, with what is left of its read
behind the request. -/
def upgrade (c : Connection) (last_opcode : Opcodes) (buf : Bytes) : Upgraded where
  toConnection := { c with connection_type := .websocket, keepalive_ := true, stopped := false }
  buf := buf
  websocket := constructed last_opcode

-- whether `CWebsocket::Handle` comes back for a packet, or throws
variable (returns : Bytes → Bool)

/-- What has been handed over has been handled without an exception. -/
def comesBack : Output → Bool
  | .text packet_data => returns packet_data
  | .binary packet_data => returns packet_data
  | .written _ => true

/-- What `parse` writes. -/
def Connection.writeAll (c : Connection) (outputs : List Output) : Connection :=
  outputs.foldl (fun c output => match output with
    | .written buf => c.myWrite buf
    | _ => c) c

/-- `connection::read_more`; no read from a stopped connection succeeds. -/
def Upgraded.readMore (c : Upgraded) : Upgraded := { c with reading := !c.stopped }

/-- `connection::handle_read`, for the bytes of a read from a websocket. -/
def Upgraded.handleRead (c : Upgraded) (bytes : Bytes) : Upgraded :=
  let buf := c.buf ++ bytes
  let p := c.websocket.parse buf c.keepalive_
  let c := { c with
    toConnection := c.toConnection.writeAll p.outputs, websocket := p.websocket, buf
    reading := false }
  if p.outputs.all (comesBack returns) then
    let c := { c with keepalive_ := p.keep_alive, buf := buf.drop p.bytes_consumed }
    if p.result = some true then
      -- we received a complete packet (that was handled already)
      if c.keepalive_ then c.readMore
      -- a connection close control packet was received
      else { c with connection_type := .websocket_closing }
    else c.readMore
  else c

/-- `connection::WS_Write`. -/
def Upgraded.wsWrite (c : Upgraded) (packet_data : Bytes) : Upgraded :=
  let frame := unmasked opcode_text packet_data
  { c with
    toConnection := c.toConnection.myWrite frame
    dataWritten :=
      if c.connection_type = .websocket_closing ∨ c.stopped then c.dataWritten
      else c.dataWritten ++ [frame] }

/-- `connection::handle_read_timeout`, when the time is over. -/
def Upgraded.handleReadTimeout (c : Upgraded) : Upgraded :=
  if c.keepalive_ ∧ c.connection_type = .websocket then
    -- `SendPing`
    { c with toConnection := c.toConnection.myWrite (unmasked opcode_ping (str "fd")) }
  else { c with stopped := true }

/-! ### Runs -/

/-- What happens to an upgraded connection. -/
inductive Occurrence
  | read (bytes : Bytes)
  | update (packet_data : Bytes)
  | completed (error : Bool)
  | timeout

/-- A read takes place if it is outstanding; it is noted what `parse` finds in it. -/
def proceed (c : Upgraded) : Occurrence → Upgraded
  | .read bytes =>
      if c.reading then
        let frame := CWebsocketFrame.parse {} (c.buf ++ bytes)
        let c := { c with
          closeReceived := c.closeReceived || frame.1 && decide (frame.2.opcode = opcode_close)
          handled := if frame.1 then c.handled + 1 else c.handled }
        c.handleRead returns bytes
      else c
  | .update packet_data => c.wsWrite packet_data
  | .completed error => { c with toConnection := c.toConnection.complete error }
  | .timeout => c.handleReadTimeout

/-- When `handle_read` returns and waits for more, no complete frame is in the buffer; when a
Close frame has been received, the connection is closing or stopped; and from then on no frame
is handled and no data frame is written. -/
structure Right (c : Upgraded) (e : Occurrence) : Prop where
  drained : ∀ bytes, e = .read bytes → (proceed returns c e).reading = true →
    frameCode.next (proceed returns c e).buf = none
  closing : (proceed returns c e).closeReceived = true →
    (proceed returns c e).connection_type = .websocket_closing ∨
      (proceed returns c e).stopped = true
  silent : c.closeReceived = true →
    (proceed returns c e).handled = c.handled ∧ (proceed returns c e).dataWritten = c.dataWritten

/-- The kind and the bytes of the packet that a frame belongs to. -/
def packet (ws : CWebsocket) (f : Frame) : Opcodes × Bytes :=
  if ws.start_new_packet then (opcode f, data f) else (ws.last_opcode, ws.packet_data ++ data f)

/-- A frame completes a text or a binary message that `Handle` throws on. -/
def Throws (ws : CWebsocket) (f : Frame) : Prop :=
  final f = true ∧ ((packet ws f).1 = opcode_text ∨ (packet ws f).1 = opcode_binary) ∧
    returns (packet ws f).2 = false

/-- With what is in the buffer, a read completes at most one frame, and no Close frame; unless
`Handle` throws on the first, or the connection is stopped already. -/
def ReadFits (c : Upgraded) : Occurrence → Prop
  | .read bytes => c.reading = true → c.stopped = false → ∀ f rest,
      c.buf ++ bytes = Frame.encode f ++ rest →
        opcode f ≠ opcode_close ∧ (Throws returns c.websocket f ∨ frameCode.next rest = none)
  | _ => True

/-! ### What `parse` leaves -/

/-- What `CWebsocket::parse` returns for a frame. -/
structure Accepted (ws : CWebsocket) (f : Frame) (keep_alive : Bool) : Prop where
  consumed : (ws.accept (parsed f) keep_alive).bytes_consumed = f.encode.length
  last_opcode : (ws.accept (parsed f) keep_alive).websocket.last_opcode = (packet ws f).1
  kept : (packet ws f).1 ≠ opcode_close → (ws.accept (parsed f) keep_alive).keep_alive = keep_alive
  delivered : (ws.accept (parsed f) keep_alive).result = some true →
    (ws.accept (parsed f) keep_alive).keep_alive = keep_alive
  throws : (ws.accept (parsed f) keep_alive).outputs.all (comesBack returns) = false ↔
    Throws returns ws f

theorem accepted (ws : CWebsocket) (f : Frame) (keep_alive : Bool) :
    Accepted returns ws f keep_alive := by
  have hpacket : (if ws.start_new_packet then
      { ws with packet_data := [], last_opcode := (parsed f).opcode } else ws).last_opcode =
        (packet ws f).1 ∧
      (if ws.start_new_packet then
        { ws with packet_data := [], last_opcode := (parsed f).opcode } else ws).packet_data ++
          (parsed f).payload = (packet ws f).2 := by
    rw [packet]
    cases ws.start_new_packet with
    | true => exact ⟨rfl, rfl⟩
    | false => exact ⟨rfl, rfl⟩
  have hfin : (parsed f).fin = final f := rfl
  constructor
  all_goals simp only [CWebsocket.accept, hpacket, hfin]
  · split_ifs <;> rfl
  · split_ifs <;> rfl
  · intro hclose
    split_ifs <;> rfl
  · split_ifs <;> simp
  · have hcontinuation :
        opcode_continuation ≠ opcode_text ∧ opcode_continuation ≠ opcode_binary := by
      decide
    rw [Throws]
    split_ifs with hf h₀ h₁ h₂ h₃ h₄ h₅
    · simp [h₀, hcontinuation]
    · simp [hf, h₁, comesBack]
    · simp [hf, h₂, comesBack]
    · simp [h₁, h₂, comesBack]
    · simp [h₁, h₂, comesBack]
    · simp [h₁, h₂]
    · simp [h₁, h₂]
    · simp [hf]

/-! ### What writing leaves alone -/

theorem writeAll_kept (c : Connection) (outputs : List Output) :
    (c.writeAll outputs).connection_type = c.connection_type ∧
      (c.writeAll outputs).keepalive_ = c.keepalive_ ∧
        (c.writeAll outputs).stopped = c.stopped := by
  induction outputs generalizing c with
  | nil => exact ⟨rfl, rfl, rfl⟩
  | cons output outputs ih =>
    cases output with
    | text packet_data => exact ih c
    | binary packet_data => exact ih c
    | written buf =>
      obtain ⟨htype, hkeep, hstopped⟩ := ih (c.myWrite buf)
      obtain ⟨htype', hkeep', hstopped'⟩ := myWrite_kept c buf
      exact ⟨htype.trans htype', hkeep.trans hkeep', hstopped.trans hstopped'⟩

/-- What a completion keeps: it never starts a stopped connection again. -/
structure Kept (c c' : Connection) : Prop where
  connection_type : c'.connection_type = c.connection_type
  keepalive_ : c'.keepalive_ = c.keepalive_
  stopped : c.stopped = true → c'.stopped = true

theorem kept_writeNext (c : Connection) : Kept c c.writeNext := by
  unfold Connection.writeNext
  split
  · exact ⟨rfl, rfl, fun h => h⟩
  · split
    · exact ⟨rfl, rfl, fun h => h⟩
    · exact ⟨rfl, rfl, fun _ => rfl⟩

theorem kept_handleWrite (c : Connection) (error : Bool) : Kept c (c.handleWrite error) := by
  cases error with
  | true => exact ⟨rfl, rfl, fun _ => rfl⟩
  | false =>
    have hnext := kept_writeNext { c with write_buffer := [], write_in_progress := false }
    unfold Connection.handleWrite
    simp only [Bool.false_eq_true, if_false]
    split
    · exact ⟨hnext.connection_type, hnext.keepalive_, hnext.stopped⟩
    · exact ⟨hnext.connection_type, hnext.keepalive_, fun _ => rfl⟩

theorem kept_complete (c : Connection) (error : Bool) : Kept c (c.complete error) := by
  unfold Connection.complete
  split
  · exact ⟨rfl, rfl, fun h => h⟩
  · have hhandle := kept_handleWrite { c with
      outstanding := c.outstanding - 1
      sent := if error then c.sent else c.sent ++ [c.write_buffer] } error
    exact ⟨hhandle.connection_type, hhandle.keepalive_, hhandle.stopped⟩

/-! ### Runs whose reads fit -/

/-- Until it is stopped, a connection is kept alive and has not received a Close frame; and it
reads nothing behind one. -/
structure Open (c : Upgraded) : Prop where
  running : c.stopped = false → c.keepalive_ = true ∧ c.closeReceived = false ∧
    c.connection_type = .websocket ∧
      (c.websocket.start_new_packet = false → c.websocket.last_opcode ≠ opcode_close)
  closed : c.closeReceived = true → c.reading = false

/-- A Close frame has been received only by a connection that was stopped. -/
theorem Open.stopped {c : Upgraded} (h : Open c) (hclose : c.closeReceived = true) :
    c.stopped = true := by
  by_contra hstopped
  have hrunning := (h.running (by simpa using hstopped)).2.1
  rw [hclose] at hrunning
  cases hrunning

/-- What does not read keeps what is needed. -/
theorem Open.of_kept {c c' : Upgraded} (h : Open c) (hkept : Kept c.toConnection c'.toConnection)
    (hreading : c'.reading = c.reading) (hclose : c'.closeReceived = c.closeReceived)
    (hws : c'.websocket = c.websocket) : Open c' := by
  constructor
  · intro hstopped
    have hrunning : c.stopped = false := by
      by_contra hs
      have := hkept.stopped (by simpa using hs)
      rw [hstopped] at this
      cases this
    rw [hkept.keepalive_, hkept.connection_type, hclose, hws]
    exact h.running hrunning
  · rw [hclose, hreading]
    exact h.closed

/-! ### A read -/

/-- A read that is outstanding, when nothing complete has come. -/
theorem proceed_incomplete {c : Upgraded} {bytes : Bytes} (hreading : c.reading = true)
    (h : frameCode.next (c.buf ++ bytes) = none) :
    proceed returns c (.read bytes) = { c with buf := c.buf ++ bytes, reading := !c.stopped } := by
  have hparse := parse_incomplete c.websocket h c.keepalive_
  have hfound : (CWebsocketFrame.parse {} (c.buf ++ bytes)).1 = false := (parse_of_next h).1
  simp only [proceed, hreading, if_true, hfound, Upgraded.handleRead, hparse, Bool.false_and,
    Bool.or_false]
  simp [Connection.writeAll, Upgraded.readMore]

/-- A read that is outstanding, with a frame at the front of the buffer. -/
structure ReadFrame (c c' : Upgraded) (f : Frame) (rest : Bytes) : Prop where
  stopped : c'.stopped = c.stopped
  closeReceived : c'.closeReceived = (c.closeReceived || decide (opcode f = opcode_close))
  last_opcode : c'.websocket.last_opcode = (packet c.websocket f).1
  reading : c.keepalive_ = true → ¬ Throws returns c.websocket f → c'.reading = !c.stopped
  throws : Throws returns c.websocket f → c'.reading = false
  buf : c'.reading = true → c'.buf = rest
  connection_type : c.keepalive_ = true → c'.connection_type = c.connection_type
  keepalive_ : c.keepalive_ = true → (packet c.websocket f).1 ≠ opcode_close → c'.keepalive_ = true
  waiting : c'.reading = true → c.stopped = false

theorem proceed_frame {c : Upgraded} {bytes rest : Bytes} {f : Frame} (hreading : c.reading = true)
    (h : c.buf ++ bytes = f.encode ++ rest) :
    ReadFrame returns c (proceed returns c (.read bytes)) f rest := by
  have hparse := parse_frame c.websocket f rest c.keepalive_
  obtain ⟨hconsumed, hlast, hkept, hdelivered, hthrows⟩ :=
    accepted returns c.websocket f c.keepalive_
  obtain ⟨htype, hkeeps, hstopped⟩ := writeAll_kept c.toConnection
    (c.websocket.accept (parsed f) c.keepalive_).outputs
  have hdrop : (f.encode ++ rest).drop f.encode.length = rest := List.drop_left
  have hfound : (parsed f).opcode = opcode f := rfl
  simp only [proceed, hreading, if_true, h, parse_encode, Upgraded.handleRead, hparse, hfound,
    Bool.true_and]
  -- the two ends that read on
  have hmore (d : Upgraded) (hcomes : ¬ Throws returns c.websocket f) (hd : d.stopped = c.stopped)
      (hclose : d.closeReceived = (c.closeReceived || decide (opcode f = opcode_close)))
      (hws : d.websocket.last_opcode = (packet c.websocket f).1)
      (hctype : d.connection_type = c.connection_type)
      (hkeep : (packet c.websocket f).1 ≠ opcode_close → d.keepalive_ = c.keepalive_)
      (hbuf : d.buf = rest) : ReadFrame returns c d.readMore f rest := by
    refine ⟨hd, hclose, hws, fun _ _ => ?_, fun ht => absurd ht hcomes, fun _ => hbuf,
      fun _ => hctype, fun hk hne => (hkeep hne).trans hk, fun hr => ?_⟩
    · rw [Upgraded.readMore, hd]
    · rw [Upgraded.readMore, hd] at hr
      simpa using hr
  split
  · next hall =>
    have hcomes : ¬ Throws returns c.websocket f := by
      intro hthrow
      rw [hthrows.mpr hthrow] at hall
      cases hall
    split
    · next hresult =>
      split
      · exact hmore _ hcomes hstopped rfl hlast htype hkept (by rw [hconsumed, hdrop])
      · next hkeep =>
        -- this end is not taken as long as the connection is kept alive
        have hnever : c.keepalive_ ≠ true := by
          intro hk
          exact hkeep ((hdelivered hresult).trans hk)
        exact ⟨hstopped, rfl, hlast, fun hk => absurd hk hnever, fun ht => absurd ht hcomes,
          fun hr => absurd hr Bool.false_ne_true, fun hk => absurd hk hnever,
          fun hk => absurd hk hnever,
          fun hr => absurd hr Bool.false_ne_true⟩
    · exact hmore _ hcomes hstopped rfl hlast htype hkept (by rw [hconsumed, hdrop])
  · next hall =>
    have hthrow : Throws returns c.websocket f := hthrows.mp (by simpa using hall)
    exact ⟨hstopped, rfl, hlast, fun _ ht => absurd hthrow ht, fun _ => rfl,
      fun hr => absurd hr Bool.false_ne_true, fun _ => htype,
      fun hk _ => hkeeps.trans hk, fun hr => absurd hr Bool.false_ne_true⟩

/-! ### What else happens -/

/-- What happens to a connection besides its reads. -/
structure Aside (c c' : Upgraded) : Prop where
  kept : Kept c.toConnection c'.toConnection
  reading : c'.reading = c.reading
  closeReceived : c'.closeReceived = c.closeReceived
  websocket : c'.websocket = c.websocket
  handled : c'.handled = c.handled
  silent : c.stopped = true → c'.dataWritten = c.dataWritten

theorem aside_of_not_read (c : Upgraded) {e : Occurrence} (h : ∀ bytes, e ≠ .read bytes) :
    Aside c (proceed returns c e) := by
  cases e with
  | read bytes => exact absurd rfl (h bytes)
  | update packet_data =>
    obtain ⟨htype, hkeep, hstopped⟩ :=
      myWrite_kept c.toConnection (unmasked opcode_text packet_data)
    refine ⟨⟨htype, hkeep, fun hs => hstopped.trans hs⟩, rfl, rfl, rfl, rfl, fun hs => ?_⟩
    exact if_pos (Or.inr hs)
  | completed error =>
    exact ⟨kept_complete c.toConnection error, rfl, rfl, rfl, rfl, fun _ => rfl⟩
  | timeout =>
    simp only [proceed, Upgraded.handleReadTimeout]
    split
    · obtain ⟨htype, hkeep, hstopped⟩ :=
        myWrite_kept c.toConnection (unmasked opcode_ping (str "fd"))
      exact ⟨⟨htype, hkeep, fun hs => hstopped.trans hs⟩, rfl, rfl, rfl, rfl, fun _ => rfl⟩
    · exact ⟨⟨rfl, rfl, fun _ => rfl⟩, rfl, rfl, rfl, rfl, fun _ => rfl⟩

/-- Steps that do not read keep the connection open. -/
theorem Open.proceed_aside {c : Upgraded} (h : Open c) {e : Occurrence}
    (hread : ∀ bytes, e ≠ .read bytes) : Open (proceed returns c e) := by
  have haside := aside_of_not_read returns c hread
  exact h.of_kept haside.kept haside.reading haside.closeReceived haside.websocket

/-- Steps that do not read are right as long as the connection is open. -/
theorem Open.right_of_aside {c : Upgraded} (h : Open c) {e : Occurrence}
    (hread : ∀ bytes, e ≠ .read bytes) : Right returns c e := by
  have haside := aside_of_not_read returns c hread
  refine ⟨fun bytes he => absurd he (hread bytes), fun hclose => Or.inr ?_, fun hclose => ?_⟩
  · rw [haside.closeReceived] at hclose
    exact haside.kept.stopped (h.stopped hclose)
  · exact ⟨haside.handled, haside.silent (h.stopped hclose)⟩

/-! ### Reads that fit -/

theorem Open.read_iff {c : Upgraded} (h : Open c) (bytes : Bytes) :
    Right returns c (.read bytes) ↔ ReadFits returns c (.read bytes) := by
  by_cases hreading : c.reading = true
  · -- no Close frame has been received by a connection that reads
    have hopen : c.closeReceived = false := by
      by_contra hclose
      have hnot := h.closed (by simpa using hclose)
      rw [hreading] at hnot
      cases hnot
    have hsilent : c.closeReceived ≠ true := by simp [hopen]
    cases hnext : frameCode.next (c.buf ++ bytes) with
    | none =>
      -- no frame is complete, and the buffer waits
      have hstep := proceed_incomplete returns hreading hnext
      refine iff_of_true ⟨fun _ _ _ => ?_, fun hclose => ?_, fun hclose => absurd hclose hsilent⟩
        fun _ _ f rest hbuf => absurd hbuf (frameCode.next_eq_none_iff.mp hnext f rest)
      · rw [hstep]
        exact hnext
      · rw [hstep] at hclose
        exact absurd hclose hsilent
    | some r =>
      obtain ⟨f, rest⟩ := r
      have hbuf : c.buf ++ bytes = f.encode ++ rest := frameCode.next_eq_some_iff.mp hnext
      have hframe := proceed_frame returns hreading hbuf
      -- a buffer begins with one frame only
      have hunique : ∀ g t, c.buf ++ bytes = Frame.encode g ++ t → g = f ∧ t = rest := by
        intro g t hg
        exact encode_unique (hg.symm.trans hbuf)
      cases hs : c.stopped with
      | true =>
        refine iff_of_true ⟨fun _ _ hr => ?_, fun _ => Or.inr (hframe.stopped.trans hs),
          fun hclose => absurd hclose hsilent⟩ fun _ hrun => absurd hs (by simp [hrun])
        have hrun := hframe.waiting hr
        rw [hs] at hrun
        cases hrun
      | false =>
        obtain ⟨hkeep, -, htype, -⟩ := h.running hs
        have hclose : (proceed returns c (.read bytes)).closeReceived =
            decide (opcode f = opcode_close) := by rw [hframe.closeReceived, hopen, Bool.false_or]
        constructor
        · intro hright _ _ g t hg
          obtain ⟨rfl, rfl⟩ := hunique g t hg
          constructor
          · intro hop
            rcases hright.closing (by rw [hclose, hop]; rfl) with hclosing | hstopped
            · rw [hframe.connection_type hkeep, htype] at hclosing
              cases hclosing
            · rw [hframe.stopped, hs] at hstopped
              cases hstopped
          · by_contra hnot
            obtain ⟨hthrow, hcomplete⟩ := not_or.mp hnot
            have hr : (proceed returns c (.read bytes)).reading = true := by
              rw [hframe.reading hkeep hthrow, hs]
              rfl
            -- the connection reads on, so nothing may be left of the buffer
            have hdrained := hright.drained bytes rfl hr
            rw [hframe.buf hr] at hdrained
            exact hcomplete hdrained
        · intro hfits
          obtain ⟨hop, hcomplete⟩ := hfits hreading hs f rest hbuf
          refine ⟨fun _ _ hr => ?_, fun hc => ?_, fun hc => absurd hc hsilent⟩
          · rw [hframe.buf hr]
            rcases hcomplete with hthrow | hcomplete
            · rw [hframe.throws hthrow] at hr
              cases hr
            · exact hcomplete
          · rw [hclose] at hc
            exact absurd (of_decide_eq_true hc) hop
  · have hstep : proceed returns c (.read bytes) = c := if_neg hreading
    refine iff_of_true ⟨fun _ _ hr => ?_, fun hclose => Or.inr ?_, fun _ => ?_⟩
      fun hr => absurd hr hreading
    · rw [hstep] at hr
      exact absurd hr hreading
    · rw [hstep] at hclose ⊢
      exact h.stopped hclose
    · rw [hstep]
      exact ⟨rfl, rfl⟩

/-- Steps that fit keep the connection open. -/
theorem Open.proceed {c : Upgraded} (h : Open c) {e : Occurrence} (hfits : ReadFits returns c e) :
    Open (proceed returns c e) := by
  cases e with
  | update packet_data => exact h.proceed_aside returns (by simp)
  | completed error => exact h.proceed_aside returns (by simp)
  | timeout => exact h.proceed_aside returns (by simp)
  | read bytes =>
    by_cases hreading : c.reading = true
    · cases hnext : frameCode.next (c.buf ++ bytes) with
      | none =>
        rw [proceed_incomplete returns hreading hnext]
        refine ⟨h.running, fun hclose => ?_⟩
        have hnot := h.closed hclose
        rw [hreading] at hnot
        cases hnot
      | some r =>
        obtain ⟨f, rest⟩ := r
        have hbuf : c.buf ++ bytes = f.encode ++ rest := frameCode.next_eq_some_iff.mp hnext
        have hframe := proceed_frame returns hreading hbuf
        constructor
        · intro hs
          rw [hframe.stopped] at hs
          obtain ⟨hkeep, hclose, htype, hlast⟩ := h.running hs
          have hop := (hfits hreading hs f rest hbuf).1
          -- a frame that goes on with a packet has the opcode of the first one
          have hkind : (packet c.websocket f).1 ≠ opcode_close := by
            rw [packet]
            cases hstart : c.websocket.start_new_packet with
            | true => exact hop
            | false => exact hlast hstart
          refine ⟨hframe.keepalive_ hkeep hkind, ?_, (hframe.connection_type hkeep).trans htype, ?_⟩
          · rw [hframe.closeReceived, hclose, Bool.false_or, decide_eq_false_iff_not]
            exact hop
          · intro _
            rw [hframe.last_opcode]
            exact hkind
        · intro hclose
          by_contra hr
          have hr : (Server.proceed returns c (.read bytes)).reading = true := by simpa using hr
          -- it still reads, so no Close frame may have come
          have hs := hframe.waiting hr
          have hop := (hfits hreading hs f rest hbuf).1
          rw [hframe.closeReceived, (h.running hs).2.1, Bool.false_or] at hclose
          exact hop (of_decide_eq_true hclose)
    · have hstep : Server.proceed returns c (.read bytes) = c := if_neg hreading
      rw [hstep]
      exact h

theorem Open.rightStep_iff {c : Upgraded} (h : Open c) (e : Occurrence) :
    Right returns c e ↔ ReadFits returns c e := by
  cases e with
  | read bytes => exact h.read_iff returns bytes
  | update packet_data => exact iff_of_true (h.right_of_aside returns (by simp)) trivial
  | completed error => exact iff_of_true (h.right_of_aside returns (by simp)) trivial
  | timeout => exact iff_of_true (h.right_of_aside returns (by simp)) trivial

/-- **The reads of a run are dealt with exactly if they fit.** -/
theorem right_iff (c : Connection) (last_opcode : Opcodes) (buf : Bytes) (es : List Occurrence) :
    Throughout (proceed returns) (Right returns) (upgrade c last_opcode buf) es ↔
      Throughout (proceed returns) (ReadFits returns) (upgrade c last_opcode buf) es := by
  have hstart : Open (upgrade c last_opcode buf) :=
    ⟨fun _ => ⟨rfl, rfl, rfl, fun hs => absurd hs (by simp [upgrade, constructed])⟩,
      fun hclose => absurd hclose (by simp [upgrade])⟩
  refine throughout_congr_of_kept (I := Open) ?_ ?_ hstart es
  · intro c e h hright
    exact h.proceed returns ((h.rightStep_iff returns e).mp hright)
  · intro c e h
    exact h.rightStep_iff returns e

/-! ### Two runs -/

theorem length_nil_lt : ([] : Bytes).length < 2 ^ 63 := by decide

/-- A Close frame without a status. -/
def closeFrame : ClientFrame := clientFrame true opcode_close [] length_nil_lt

/-- A ping without a payload. -/
def pingFrame : ClientFrame := clientFrame true opcode_ping [] length_nil_lt

/-- The second of two pings in a read waits for another read; and a connection that has received
a Close frame is neither closing nor stopped when it sends an update. -/
theorem neither_drained_nor_closed :
    ¬ Throughout (proceed fun _ => true) (Right fun _ => true) (upgrade {} 0 [])
        [.read (pingFrame.bytes ++ pingFrame.bytes)] ∧
      ¬ Throughout (proceed fun _ => true) (Right fun _ => true) (upgrade {} 0 [])
        [.read closeFrame.bytes, .update (str "x")] := by
  constructor
  · rintro ⟨hread, -⟩
    have hdrained := hread.drained _ rfl (by decide)
    have hbuf : (proceed (fun _ => true) (upgrade {} 0 [])
        (.read (pingFrame.bytes ++ pingFrame.bytes))).buf = pingFrame.bytes := by decide
    rw [hbuf, ClientFrame.bytes, ← List.append_nil pingFrame.frame.encode] at hdrained
    exact frameCode.next_eq_none_iff.mp hdrained pingFrame.frame [] rfl
  · rintro ⟨hread, -⟩
    rcases hread.closing (by decide) with hclosing | hstopped
    · exact absurd hclosing (by decide)
    · exact absurd hstopped (by decide)

end Domoticz.Server
