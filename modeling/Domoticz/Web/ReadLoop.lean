import Domoticz.Web.HandleRequest
import Domoticz.Web.ReplyFraming
import Domoticz.Web.RequestParser
import Domoticz.Web.WriteQueue

/-!
# Reading requests from a connection

Until a connection is upgraded, `handle_read` parses its buffer from the beginning after every read.
It hands a complete request to the request handler, answers 400 to bytes that begin no request, and
otherwise waits for more.

What the handler does with a request, and whether a file that is asked for can be opened, are
parameters; the timers are left out, and so is the writing of a file.  The handler may throw.  The
exception leaves `handle_read`, which answers nothing then and reads no more.

## Main definitions

* `Handler` — `request_handler_`; nothing but a request to upgrade is answered by switching
  protocols.
* `HttpConnection` — a connection; `handleRead` is the part of `handle_read` for requests.
* `IsRequest` — the bytes of one request.

## Main results

* `run_division` — reads that wait are one read.
* `parsing_stable` — **what the parser has decided it decides for every continuation, and the reads
  of a request, however it is divided, end as a single one, and never in a 400.**
-/

namespace Domoticz.ReadLoop

open CLib RequestParser ReplyFraming

/-! ### The code -/

/-- `is_upgrade_request` fills in the reply that switches protocols. -/
def IsUpgrade (req : Request) : Prop :=
  ∃ computeAcceptHeader rep, upgradeReply computeAcceptHeader req = some rep ∧
    rep.status = .switchingProtocols

/-- `request_handler_`, for what it keeps between two requests. -/
structure Handler (σ : Type) where
  /-- `handle_request`; there is no reply where it throws. -/
  handleRequest : σ → Request → σ × Option Reply
  upgrades : ∀ world req rep, (handleRequest world req).2 = some rep →
    rep.status = .switchingProtocols → IsUpgrade req

/-- How a read that is not waited for ends. -/
inductive Outcome
  /-- The request has been handed to the handler. -/
  | dispatched (req : Request)
  /-- The answer is `bad_request`. -/
  | refused

/-- The members of `connection` that reading requests uses. -/
structure HttpConnection (σ : Type) extends Server.Connection where
  host_endpoint_address_ : Bytes
  /-- What the request handler works on. -/
  world : σ
  /-- `_buf` -/
  buf : Bytes := []
  /-- The name of the file that is being sent. -/
  sendfile_ : Option Bytes := none
  /-- The handler has thrown. -/
  threw : Bool := false
  /-- A read is outstanding. -/
  reading : Bool := true
  outcomes : List Outcome := []

/-- The request with the address of the client, without what marks an IPv4 address. -/
def received (address : Bytes) (request : Request) : Request :=
  { request with
    hostAddress := if address.take 7 = str "::ffff:" then address.drop 7 else address }

/-- The value of `keepalive_` for a request. -/
def keepsAlive (req : Request) : Bool :=
  (req.getReqHeader "Connection").any (iequals · (str "Keep-Alive"))

/-- `connection::read_more`; no read from a stopped connection succeeds. -/
def HttpConnection.readMore {σ : Type} (c : HttpConnection σ) : HttpConnection σ :=
  { c with reading := !c.stopped }

section Loop

variable {D σ : Type} (e : Environment D) (handler : Handler σ)

-- whether a file can be opened
variable (opens : Bytes → Bool)

/-- What `handle_read` makes of the reply of the handler, or the file that it sends instead. -/
def download (rep : Reply) : Reply ⊕ Bytes :=
  if rep.status = .downloadFile then
    match find crlf rep.content with
    | none => .inl (stockReply .internalServerError)
    | some npos =>
        let filename := rep.content.take npos
        if opens filename then .inr filename else .inl (stockReply .notFound)
  else .inl rep

/-- `connection::handle_read`, when a request is complete. -/
def HttpConnection.dispatch (c : HttpConnection σ) (request : Request) : HttpConnection σ :=
  let req := received c.host_endpoint_address_ request
  let handled := handler.handleRequest c.world req
  let c := { c with
    keepalive_ := keepsAlive request
    world := handled.1
    outcomes := c.outcomes ++ [Outcome.dispatched req] }
  match handled.2 with
  | none => { c with threw := true }
  | some reply =>
      -- this was an upgrade request
      let c := if reply.status = .switchingProtocols then
        { c with connection_type := .websocket, keepalive_ := true } else c
      match download opens reply with
      | .inr filename => { c with sendfile_ := some filename }
      | .inl rep =>
          let c := { c with
            toConnection :=
              c.toConnection.myWrite (toString (keepAliveReply e rep req) req.method) }
          if c.keepalive_ then c.readMore else c

/-- `connection::handle_read`, when the bytes are no request. -/
def HttpConnection.refuse (c : HttpConnection σ) (request : Request) : HttpConnection σ :=
  let c := { c with keepalive_ := false, outcomes := c.outcomes ++ [Outcome.refused] }
  { c with
    toConnection := c.toConnection.myWrite (toString (stockReply .badRequest) request.method) }

/-- `connection::handle_read`, for the bytes of a read; an exception of the parser leaves `result`
as it has been constructed, which is false. -/
def HttpConnection.handleRead (c : HttpConnection σ) (bytes : Bytes) : HttpConnection σ :=
  let c := { c with reading := false }
  if bytes = [] then { c with toConnection := c.toConnection.stop }
  else
    let buf := c.buf ++ bytes
    let p := parse buf
    match p.result with
    | .yes => { c with buf := p.rest }.dispatch e handler opens p.request
    | .indeterminate => { c with buf }.readMore
    | .no => { c with buf }.refuse p.request
    | .threw => { c with buf }.refuse p.request

/-- A read takes place if it is outstanding.  What an upgraded connection reads is no request. -/
def proceed (c : HttpConnection σ) (bytes : Bytes) : HttpConnection σ :=
  if c.reading = true ∧ c.connection_type = .http then c.handleRead e handler opens bytes else c

/-- Reads one after the other. -/
def run (c : HttpConnection σ) (reads : List Bytes) : HttpConnection σ :=
  reads.foldl (proceed e handler opens) c

end Loop

/-- A connection that has been accepted. -/
def start {σ : Type} (address : Bytes) (world : σ) : HttpConnection σ where
  host_endpoint_address_ := address
  world := world

/-- The bytes of one request: it is complete, and not before its last byte. -/
def IsRequest (bytes : Bytes) : Prop :=
  (parse bytes).result = .yes ∧ ∀ p, p <+: bytes → p ≠ bytes → (parse p).result ≠ .yes

/-! ### What the parser decides -/

/-- **What has been decided stays decided, with the same request.** -/
theorem parse_append {buf : Bytes} (h : (parse buf).result ≠ .indeterminate) (more : Bytes) :
    (parse (buf ++ more)).result = (parse buf).result ∧
      (parse (buf ++ more)).request = (parse buf).request :=
  parseFrom_append .methodStart {} h more

/-- The beginning of a complete request is complete or undecided. -/
theorem undecided_of_incomplete {p bytes : Bytes} (hp : p <+: bytes)
    (hyes : (parse bytes).result = .yes) (hnot : (parse p).result ≠ .yes) :
    (parse p).result = .indeterminate := by
  obtain ⟨more, rfl⟩ := hp
  by_contra hdecided
  have hsame := (parse_append hdecided more).1
  exact hnot (hsame.symm.trans hyes)

/-! ### One read -/

section Loop

variable {D σ : Type} (e : Environment D) (handler : Handler σ) (opens : Bytes → Bool)

/-- A connection that waits for a request. -/
structure Waiting (c : HttpConnection σ) : Prop where
  reading : c.reading = true
  connection_type : c.connection_type = .http
  stopped : c.stopped = false

theorem waiting_start (address : Bytes) (world : σ) : Waiting (start address world) :=
  ⟨rfl, rfl, rfl⟩

/-- What is in the buffer might as well have come with the read. -/
theorem Waiting.proceed_append {c : HttpConnection σ} (h : Waiting c) (front : Bytes)
    {bytes : Bytes} (hne : bytes ≠ []) :
    proceed e handler opens { c with buf := c.buf ++ front } bytes =
      proceed e handler opens c (front ++ bytes) := by
  have hboth : front ++ bytes ≠ [] := by simp [hne]
  simp only [proceed, h.reading, h.connection_type, and_self, if_true]
  simp only [HttpConnection.handleRead, hne, hboth, if_false, List.append_assoc]

/-- A read that decides nothing. -/
theorem Waiting.proceed_undecided {c : HttpConnection σ} (h : Waiting c) {bytes : Bytes}
    (hne : bytes ≠ []) (hparse : (parse (c.buf ++ bytes)).result = .indeterminate) :
    proceed e handler opens c bytes = { c with buf := c.buf ++ bytes } := by
  simp only [proceed, h.reading, h.connection_type, and_self, if_true]
  simp only [HttpConnection.handleRead, hne, if_false, hparse, HttpConnection.readMore, h.stopped,
    Bool.not_false]

/-- A read that completes a request. -/
theorem Waiting.proceed_complete {c : HttpConnection σ} (h : Waiting c) {bytes : Bytes}
    (hne : bytes ≠ []) (hparse : (parse (c.buf ++ bytes)).result = .yes) :
    proceed e handler opens c bytes =
      HttpConnection.dispatch e handler opens
        { c with reading := false, buf := (parse (c.buf ++ bytes)).rest }
        (parse (c.buf ++ bytes)).request := by
  simp only [proceed, h.reading, h.connection_type, and_self, if_true]
  simp only [HttpConnection.handleRead, hne, if_false, hparse]

theorem outcomes_dispatch (c : HttpConnection σ) (request : Request) :
    (c.dispatch e handler opens request).outcomes =
      c.outcomes ++ [.dispatched (received c.host_endpoint_address_ request)] := by
  unfold HttpConnection.dispatch
  simp only
  split
  · rfl
  · split <;> split_ifs <;> rfl

/-- What has been decided is not taken back. -/
theorem outcomes_proceed (c : HttpConnection σ) (bytes : Bytes) :
    c.outcomes <+: (proceed e handler opens c bytes).outcomes := by
  unfold proceed
  split_ifs with hreads
  · unfold HttpConnection.handleRead
    simp only
    split_ifs with hbytes
    · exact List.prefix_refl _
    · split
      · rw [outcomes_dispatch]
        exact List.prefix_append _ _
      · exact List.prefix_refl _
      · exact List.prefix_append _ _
      · exact List.prefix_append _ _
  · exact List.prefix_refl _

theorem outcomes_run (c : HttpConnection σ) (reads : List Bytes) :
    c.outcomes <+: (run e handler opens c reads).outcomes := by
  induction reads generalizing c with
  | nil => exact List.prefix_refl _
  | cons bytes reads ih =>
    exact (outcomes_proceed e handler opens c bytes).trans (ih (proceed e handler opens c bytes))

/-! ### Reads -/

/-- Reads that decide nothing fill the buffer. -/
theorem Waiting.run_undecided {c : HttpConnection σ} (h : Waiting c) {reads : List Bytes}
    (hne : [] ∉ reads)
    (hparse : ∀ done, done <+: reads → (parse (c.buf ++ done.flatten)).result = .indeterminate) :
    run e handler opens c reads = { c with buf := c.buf ++ reads.flatten } := by
  induction reads generalizing c with
  | nil => simp [run]
  | cons bytes reads ih =>
    obtain ⟨hbytes, hreads⟩ := not_or.mp (mt List.mem_cons.mpr hne)
    have hfirst := hparse [bytes] (by simp)
    rw [List.flatten_singleton] at hfirst
    have hstep := h.proceed_undecided e handler opens (Ne.symm hbytes) hfirst
    have hwaiting : Waiting { c with buf := c.buf ++ bytes } :=
      ⟨h.reading, h.connection_type, h.stopped⟩
    have hrest := ih hwaiting hreads fun done hdone => by
      have hcons := hparse (bytes :: done) (List.cons_prefix_cons.mpr ⟨rfl, hdone⟩)
      rwa [List.flatten_cons, ← List.append_assoc] at hcons
    rw [run, List.foldl_cons, hstep]
    rw [run] at hrest
    rw [hrest, List.flatten_cons, List.append_assoc]

/-- **Reads that decide nothing, and the next one, are one read.** -/
theorem Waiting.run_division {c : HttpConnection σ} (h : Waiting c) {reads : List Bytes}
    {last : Bytes} (hne : [] ∉ reads) (hlast : last ≠ [])
    (hparse : ∀ done, done <+: reads → (parse (c.buf ++ done.flatten)).result = .indeterminate) :
    run e handler opens c (reads ++ [last]) = run e handler opens c [reads.flatten ++ last] := by
  have hrun := h.run_undecided e handler opens hne hparse
  rw [run] at hrun
  rw [run, List.foldl_append, hrun]
  exact h.proceed_append e handler opens reads.flatten hlast

/-- The first thing that is decided is the request at the front. -/
theorem Waiting.first_outcome {c : HttpConnection σ} (h : Waiting c) (hnone : c.outcomes = [])
    (hbuf : (parse c.buf).result = .indeterminate) {reads : List Bytes} (hne : [] ∉ reads)
    (hparse : (parse (c.buf ++ reads.flatten)).result = .yes) :
    (run e handler opens c reads).outcomes.head? = some (.dispatched
      (received c.host_endpoint_address_ (parse (c.buf ++ reads.flatten)).request)) := by
  induction reads generalizing c with
  | nil =>
    rw [List.flatten_nil, List.append_nil, hbuf] at hparse
    cases hparse
  | cons bytes reads ih =>
    obtain ⟨hbytes, hreads⟩ := not_or.mp (mt List.mem_cons.mpr hne)
    rw [List.flatten_cons, ← List.append_assoc] at hparse ⊢
    by_cases hyes : (parse (c.buf ++ bytes)).result = .yes
    · -- the rest of the reads changes neither the request nor what has been decided
      have hsame := (parse_append (by rw [hyes]; simp) reads.flatten).2
      have hfirst : (proceed e handler opens c bytes).outcomes = [.dispatched
          (received c.host_endpoint_address_ (parse (c.buf ++ bytes)).request)] := by
        rw [h.proceed_complete e handler opens (Ne.symm hbytes) hyes, outcomes_dispatch]
        exact congrArg (· ++ _) hnone
      obtain ⟨later, hlater⟩ :=
        outcomes_run e handler opens (proceed e handler opens c bytes) reads
      rw [run] at hlater
      rw [run, List.foldl_cons, ← hlater, hfirst, hsame]
      rfl
    · have hundecided := undecided_of_incomplete (List.prefix_append _ _) hparse hyes
      have hstep := h.proceed_undecided e handler opens (Ne.symm hbytes) hundecided
      rw [run, List.foldl_cons, hstep]
      exact ih ⟨h.reading, h.connection_type, h.stopped⟩ hnone hundecided hreads hparse

/-! ### One request -/

/-- What is cut off a request is undecided. -/
theorem IsRequest.undecided {bytes p : Bytes} (h : IsRequest bytes) (hp : p <+: bytes)
    (hne : p ≠ bytes) : (parse p).result = .indeterminate :=
  undecided_of_incomplete hp h.1 (h.2 p hp hne)

/-- A division of a request, up to its last read. -/
theorem IsRequest.undecided_reads {reads : List Bytes} {last : Bytes}
    (h : IsRequest (reads.flatten ++ last)) (hlast : last ≠ []) :
    ∀ done, done <+: reads → (parse done.flatten).result = .indeterminate := by
  intro done hdone
  obtain ⟨more, rfl⟩ := hdone
  rw [List.flatten_append, List.append_assoc] at h
  apply h.undecided (List.prefix_append _ _)
  intro heq
  have hnil := List.self_eq_append_right.mp heq
  exact hlast (List.append_eq_nil_iff.mp hnil).2

/-- Reads that end before the request does decide nothing. -/
theorem IsRequest.outcomes_cut {bytes : Bytes} (h : IsRequest bytes) (address : Bytes) (world : σ)
    {reads : List Bytes} (hne : [] ∉ reads) (hcut : reads.flatten <+: bytes)
    (hflatten : reads.flatten ≠ bytes) :
    (run e handler opens (start address world) reads).outcomes = [] := by
  have hparse : ∀ done, done <+: reads →
      (parse ((start address world).buf ++ done.flatten)).result = .indeterminate := by
    rintro done ⟨more, rfl⟩
    rw [List.flatten_append] at hcut hflatten
    apply h.undecided ((List.prefix_append _ _).trans hcut)
    rintro rfl
    have hlength := hcut.length_le
    have hle : more.flatten = [] := by
      rw [← List.length_eq_zero_iff]
      simpa [start] using hlength
    exact hflatten (by rw [hle, List.append_nil])
  rw [(waiting_start address world).run_undecided e handler opens hne hparse]
  rfl

/-- **What the parser has decided it decides for every continuation; and the reads of a request,
however it is divided, end as a single one, and never in a 400.** -/
theorem parsing_stable (address : Bytes) (world : σ) :
    (∀ buf, (parse buf).result ≠ .indeterminate → ∀ more,
      (parse (buf ++ more)).result = (parse buf).result ∧
        (parse (buf ++ more)).request = (parse buf).request) ∧
    (∀ reads, [] ∉ reads → (parse reads.flatten).result = .yes →
      (run e handler opens (start address world) reads).outcomes.head? =
        some (.dispatched (received address (parse reads.flatten).request))) ∧
    (∀ reads, [] ∉ reads → IsRequest reads.flatten →
      run e handler opens (start address world) reads =
          run e handler opens (start address world) [reads.flatten] ∧
        (run e handler opens (start address world) reads).outcomes =
          [.dispatched (received address (parse reads.flatten).request)]) ∧
    (∀ reads bytes, [] ∉ reads → IsRequest bytes → reads.flatten <+: bytes →
      .refused ∉ (run e handler opens (start address world) reads).outcomes) := by
  have hfresh : (parse (start address world).buf).result = .indeterminate := rfl
  have hwaiting := waiting_start address world
  -- the last read decides, and the ones in front of it have left the parser waiting
  have hwhole (reads : List Bytes) (hne : [] ∉ reads) (h : IsRequest reads.flatten) :
      run e handler opens (start address world) reads =
          run e handler opens (start address world) [reads.flatten] ∧
        (run e handler opens (start address world) reads).outcomes =
          [.dispatched (received address (parse reads.flatten).request)] := by
    rcases List.eq_nil_or_concat' reads with rfl | ⟨front, last, rfl⟩
    · cases h.1
    · rw [List.mem_append, not_or] at hne
      have hlast : last ≠ [] := by
        rintro rfl
        exact hne.2 (by simp)
      have hflatten : (front ++ [last]).flatten = front.flatten ++ last := by simp
      rw [hflatten] at h ⊢
      have hdivision := hwaiting.run_division e handler opens hne.1 hlast
        (h.undecided_reads hlast)
      have hboth : front.flatten ++ last ≠ [] := by simp [hlast]
      have hstep := hwaiting.proceed_complete e handler opens hboth h.1
      refine ⟨hdivision, ?_⟩
      rw [hdivision, run, List.foldl_cons, List.foldl_nil, hstep, outcomes_dispatch]
      rfl
  refine ⟨fun buf h more => parse_append h more, ?_, hwhole, ?_⟩
  · intro reads hne hyes
    exact hwaiting.first_outcome e handler opens rfl hfresh hne hyes
  · intro reads bytes hne h hcut
    by_cases hflatten : reads.flatten = bytes
    · subst hflatten
      rw [(hwhole reads hne h).2]
      simp
    · rw [h.outcomes_cut e handler opens address world hne hcut hflatten]
      simp

end Loop

/-- A handler that answers everything in the same way. -/
def plainHandler : Handler Unit where
  handleRequest world _ := (world, some {})
  upgrades _ _ _ h hswitching := by
    cases h
    cases hswitching

/-- The bytes of a request. -/
def getBytes : Bytes := str "GET / HTTP/1.1\r\n\r\n"

theorem isRequest_getBytes : IsRequest getBytes := by
  refine ⟨by rfl, fun p hp hne => ?_⟩
  have hcut : ∀ n < getBytes.length, (parse (getBytes.take n)).result ≠ .yes := by decide
  have hlength : p.length < getBytes.length :=
    lt_of_le_of_ne hp.length_le fun h => hne (hp.eq_of_length h)
  rw [List.prefix_iff_eq_take.mp hp]
  exact hcut _ hlength

theorem parsing_stable_twoReads :
    (parse (getBytes ++ str "GET")).request = (parse getBytes).request ∧
      (run emptyEnvironment plainHandler (fun _ => false) (start [] ())
        [getBytes.take 5, getBytes.drop 5]).outcomes =
          [.dispatched (received [] (parse getBytes).request)] ∧
      .refused ∉ (run emptyEnvironment plainHandler (fun _ => false) (start [] ())
        [getBytes.take 5]).outcomes := by
  obtain ⟨hstable, -, hwhole, hcut⟩ :=
    parsing_stable emptyEnvironment plainHandler (fun _ => false) [] ()
  have hne : [] ∉ [getBytes.take 5, getBytes.drop 5] := by decide
  exact ⟨(hstable getBytes (by rw [isRequest_getBytes.1]; decide) (str "GET")).2,
    (hwhole _ hne isRequest_getBytes).2,
    hcut [getBytes.take 5] getBytes (by decide) isRequest_getBytes (by decide)⟩

end Domoticz.ReadLoop
