import Domoticz.Stream.PrefixCode
import Domoticz.Web.ReadLoop

/-!
# Requests one behind the other

A client may send its next request without waiting for the reply.  `handle_read` parses its buffer
once for every read, and hands over one request; `reading_content` sets the pointer to the end of
the buffer, whatever is behind the content.  So the second of two requests in one read is not seen
until something else arrives, and is lost if the first has content.  A body that comes with another
method than `POST`, `PUT` or `PATCH` is not content, but the beginning of the next request.

## Main definitions

* `Wire` — a request that asks to keep the connection: its head, and as much behind it as it says.
* `Pipelined` — the requests of a stream are handed over once and in order, each takes its own bytes
  from the buffer, and no complete one stays there while the connection waits for more.
* `Fits` — the reads that complete one request at most, whose body is where the parser looks for it,
  while no file is being sent and the handler has not thrown.

## Main results

* `dispatch_kept` — what a request that asks for it leaves of the connection.
* `serves_iff` — a read is served exactly if it fits.
* `pipelined_iff` — **a stream of requests is served exactly if its reads fit.**
* `second_request_waits` — two requests in one read.
-/

namespace Domoticz.Pipelining

open CLib RequestParser ReplyFraming ReadLoop
open Stream (PrefixCode)

/-! ### Requests and what they are encoded as -/

/-- A request that asks to keep the connection, with a body of the length that it declares. -/
structure Wire where
  head : Bytes
  body : Bytes
  request : Request
  head_eq : RequestParser.head head = some (request, [])
  length_eq : (body.length : ℤ) = declaredLength request.headers
  keepsAlive : ReadLoop.keepsAlive request = true

namespace Wire

/-- The bytes of a request. -/
def bytes (w : Wire) : Bytes := w.head ++ w.body

/-- What is to be handed to the request handler. -/
def received (address : Bytes) (w : Wire) : Request :=
  ReadLoop.received address
    { w.request with contentLength := declaredLength w.request.headers, content := w.body }

theorem head_append (w : Wire) (more : Bytes) :
    RequestParser.head (w.head ++ more) = some (w.request, more) :=
  headFrom_append (by simp) w.head_eq more

theorem head_ne_nil (w : Wire) : w.head ≠ [] := by
  intro hnil
  have h := w.head_eq
  rw [hnil] at h
  cases h

/-- The length of the body is known from the head. -/
theorem unique {v w : Wire} {s t : Bytes} (h : v.bytes ++ s = w.bytes ++ t) : v = w ∧ s = t := by
  rw [bytes, bytes, List.append_assoc, List.append_assoc] at h
  have hhead := v.head_append (v.body ++ s)
  rw [h, w.head_append, Option.some.injEq, Prod.mk.injEq] at hhead
  obtain ⟨hrequest, hbehind⟩ := hhead
  rw [hbehind, List.append_cancel_right_eq] at h
  have hlength : v.body.length = w.body.length := by
    have hv := v.length_eq
    have hw := w.length_eq
    rw [hrequest] at hw
    omega
  obtain ⟨hbody, hrest⟩ := List.append_inj hbehind.symm hlength
  refine ⟨?_, hrest⟩
  cases v
  cases w
  simp only at h hbody hrequest
  subst h hbody hrequest
  rfl

end Wire

/-- Requests one behind the other. -/
def requestCode : PrefixCode Wire UInt8 where
  encode := Wire.bytes
  ne_nil w h := w.head_ne_nil (List.append_eq_nil_iff.mp h).1
  unique := Wire.unique

/-- No request is complete without its head. -/
theorem next_of_head {buf : Bytes} (h : RequestParser.head buf = none) :
    requestCode.next buf = none := by
  rw [PrefixCode.next_eq_none_iff]
  rintro w rest rfl
  have hhead : RequestParser.head (w.bytes ++ rest) = some (w.request, w.body ++ rest) := by
    rw [Wire.bytes, List.append_assoc]
    exact w.head_append _
  have hencode : requestCode.encode w = w.bytes := rfl
  rw [hencode, hhead] at h
  cases h

/-- What is read at the beginning of a stream. -/
theorem Wire.head_cases (w : Wire) {buf more tail : Bytes} (h : buf ++ more = w.bytes ++ tail) :
    RequestParser.head buf = none ∧ (parse buf).result = .indeterminate ∨
      ∃ rest, buf = w.head ++ rest ∧ RequestParser.head buf = some (w.request, rest) ∧
        rest ++ more = w.body ++ tail := by
  rw [Wire.bytes, List.append_assoc] at h
  have hwhole := w.head_append (w.body ++ tail)
  rw [← h] at hwhole
  cases hhead : RequestParser.head buf with
  | none =>
    have hsome : (headFrom .methodStart {} (buf ++ more)).isSome := by
      unfold RequestParser.head at hwhole
      rw [hwhole]
      rfl
    exact Or.inl ⟨rfl, parseFrom_inside (by simp) hhead hsome⟩
  | some r =>
    obtain ⟨req, rest⟩ := r
    have happend : RequestParser.head (buf ++ more) = some (req, rest ++ more) :=
      headFrom_append (by simp) hhead more
    rw [hwhole, Option.some.injEq, Prod.mk.injEq] at happend
    obtain ⟨rfl, hrest⟩ := happend
    obtain ⟨front, -, rfl⟩ := headFrom_suffix hhead
    rw [List.append_assoc, ← hrest, List.append_cancel_right_eq] at h
    subst h
    exact Or.inr ⟨rest, rfl, rfl, hrest.symm⟩

theorem parse_of_head {buf rest : Bytes} {req : Request}
    (h : RequestParser.head buf = some (req, rest)) :
    parse buf = behindHead req rest ∧ Kept {} req :=
  parseFrom_of_head (by simp) h

/-- What is handed over for a request without a body. -/
theorem Wire.received_of_empty {w : Wire} (h : declaredLength w.request.headers = 0)
    (address : Bytes) : w.body = [] ∧ w.received address = ReadLoop.received address w.request := by
  have hkept := (parse_of_head w.head_eq).2
  have hbody : w.body = [] := by
    rw [← List.length_eq_zero_iff]
    have hlength := w.length_eq
    omega
  have hrequest : { w.request with
      contentLength := declaredLength w.request.headers, content := w.body } = w.request := by
    rw [h, hbody]
    exact hkept.of_constructed.2
  exact ⟨hbody, congrArg (ReadLoop.received address) hrequest⟩

/-! ### A request that asks to keep the connection -/

/-- `is_upgrade_request` looks for `Upgrade` in the header that `handle_read` looks at. -/
theorem connection_of_upgrade {computeAcceptHeader : Bytes → Bytes} {req : Request}
    (h : upgradeReply computeAcceptHeader req ≠ none) :
    (req.getReqHeader "Connection").any (contains · (str "Upgrade")) = true := by
  by_contra hnot
  apply h
  have hrefused : (!(req.getReqHeader "Connection").any (contains · (str "Upgrade"))) = true := by
    simpa using hnot
  unfold upgradeReply
  by_cases hmethod : req.method ≠ str "GET"
  · rw [if_pos hmethod]
  · rw [if_neg hmethod]
    by_cases hversion : req.httpVersionMajor * 10 + req.httpVersionMinor < 11
    · rw [if_pos hversion]
    · rw [if_neg hversion, if_pos hrefused]

/-- A request that asks to keep the connection does not ask to upgrade it. -/
theorem not_upgrade {req : Request} (h : keepsAlive req = true) : ¬ IsUpgrade req := by
  rintro ⟨computeAcceptHeader, rep, hrep, -⟩
  have hsome : upgradeReply computeAcceptHeader req ≠ none := by
    rw [hrep]
    exact Option.some_ne_none rep
  obtain ⟨value, hvalue, hcontains⟩ := (Option.any_eq_true _ _).mp (connection_of_upgrade hsome)
  rw [keepsAlive, hvalue] at h
  have hupper : upper value = upper (str "Keep-Alive") := beq_iff_eq.mp h
  have hinfix := (contains_iff_isInfix.mp hcontains).map toUpper
  rw [← upper, ← upper, hupper, ← contains_iff_isInfix] at hinfix
  revert hinfix
  decide

section Runs

variable {D σ : Type} (e : Environment D) (handler : Handler σ) (opens : Bytes → Bool)

/-- A connection as long as it is kept: it waits for more, or sends a file, or is left where the
handler has thrown. -/
structure Alive (address : Bytes) (c : HttpConnection σ) : Prop where
  address : c.host_endpoint_address_ = address
  connection_type : c.connection_type = .http
  stopped : c.stopped = false
  reading : c.reading = (c.sendfile_.isNone && !c.threw)

/-- No file is being sent, and the handler has not thrown. -/
structure Idle (c : HttpConnection σ) : Prop where
  sendfile_ : c.sendfile_ = none
  threw : c.threw = false

theorem alive_start (address : Bytes) (world : σ) : Alive address (start address world) :=
  ⟨rfl, rfl, rfl, rfl⟩

theorem Alive.waiting {address : Bytes} {c : HttpConnection σ} (h : Alive address c)
    (hidle : Idle c) : Waiting c := by
  refine ⟨?_, h.connection_type, h.stopped⟩
  rw [h.reading, hidle.sendfile_, hidle.threw]
  rfl

/-- While a file is sent, or after an exception, nothing is read. -/
theorem Alive.proceed_busy {address : Bytes} {c : HttpConnection σ} (h : Alive address c)
    (hbusy : ¬ Idle c) (bytes : Bytes) : proceed e handler opens c bytes = c := by
  have hreading : ¬ c.reading = true := by
    rw [h.reading]
    intro hreads
    obtain ⟨hnone, hthrew⟩ := Bool.and_eq_true_iff.mp hreads
    exact hbusy ⟨Option.isNone_iff_eq_none.mp hnone, by simpa using hthrew⟩
  unfold proceed
  rw [if_neg fun hreads => hreading hreads.1]

/-- What a request that asks to be kept leaves of a connection. -/
theorem dispatch_kept {address : Bytes} {c : HttpConnection σ} {request : Request}
    (hkeeps : keepsAlive request = true) (haddress : c.host_endpoint_address_ = address)
    (htype : c.connection_type = .http) (hstopped : c.stopped = false)
    (hreading : c.reading = false) (hidle : Idle c) :
    (c.dispatch e handler opens request).buf = c.buf ∧
      Alive address (c.dispatch e handler opens request) := by
  have hreceived : keepsAlive (received c.host_endpoint_address_ request) = true := hkeeps
  unfold HttpConnection.dispatch
  simp only
  split
  · exact ⟨rfl, haddress, htype, hstopped, by simp [hreading]⟩
  · next reply hreply =>
    have hstatus : reply.status ≠ .switchingProtocols := fun hswitching =>
      not_upgrade hreceived (handler.upgrades _ _ reply hreply hswitching)
    rw [if_neg hstatus]
    split
    · exact ⟨rfl, haddress, htype, hstopped, hreading⟩
    · next rep hrep =>
      obtain ⟨htype', hkeeps', hstopped'⟩ := Server.myWrite_kept
        { c.toConnection with keepalive_ := keepsAlive request }
        (toString (keepAliveReply e rep (received c.host_endpoint_address_ request))
          (received c.host_endpoint_address_ request).method)
      rw [if_pos (hkeeps'.trans hkeeps)]
      refine ⟨rfl, haddress, htype'.trans htype, hstopped'.trans hstopped, ?_⟩
      simp only [HttpConnection.readMore, hidle.sendfile_, hidle.threw]
      rw [hstopped', hstopped]
      rfl

/-! ### A read -/

/-- With what is in the buffer, a read completes one head at most.  If content follows, nothing
comes behind it; otherwise no body is declared, and no other request is complete.  And no file is
being sent, and no request before has made the handler throw. -/
structure Fits (c : HttpConnection σ) (bytes : Bytes) : Prop where
  idle : Idle c
  one : ∀ req rest, RequestParser.head (c.buf ++ bytes) = some (req, rest) →
    if hasContent req = true ∧ declaredLength req.headers ≠ 0 then
      (rest.length : ℤ) ≤ declaredLength req.headers
    else declaredLength req.headers = 0 ∧ requestCode.next rest = none

/-- A step hands over what is complete in the buffer, and leaves the rest. -/
structure Serves (address : Bytes) (c c' : HttpConnection σ) (buf : Bytes) : Prop where
  outcomes : c'.outcomes =
    c.outcomes ++ (requestCode.complete buf).map fun w => .dispatched (w.received address)
  buf : c'.buf = requestCode.pending buf

/-- Nothing is complete. -/
theorem serves_of_undecided {address : Bytes} {c : HttpConnection σ} (h : Alive address c)
    (hidle : Idle c) {bytes : Bytes} (hne : bytes ≠ [])
    (hparse : (parse (c.buf ++ bytes)).result = .indeterminate)
    (hnext : requestCode.next (c.buf ++ bytes) = none) :
    Serves address c (proceed e handler opens c bytes) (c.buf ++ bytes) ∧
      Alive address (proceed e handler opens c bytes) := by
  have hstep := (h.waiting hidle).proceed_undecided e handler opens hne hparse
  obtain ⟨hcomplete, hpending⟩ := requestCode.complete_of_none hnext
  rw [hstep]
  refine ⟨⟨?_, hpending.symm⟩, h.address, h.connection_type, h.stopped, h.reading⟩
  rw [hcomplete]
  simp

/-- A request is complete, with what `parse` leaves behind it. -/
theorem dispatched_of_complete {address : Bytes} {c : HttpConnection σ} (h : Alive address c)
    (hidle : Idle c) {bytes : Bytes} (hne : bytes ≠ [])
    (hparse : (parse (c.buf ++ bytes)).result = .yes)
    (hkeeps : keepsAlive (parse (c.buf ++ bytes)).request = true) :
    (proceed e handler opens c bytes).outcomes =
        c.outcomes ++ [.dispatched (received address (parse (c.buf ++ bytes)).request)] ∧
      (proceed e handler opens c bytes).buf = (parse (c.buf ++ bytes)).rest ∧
      Alive address (proceed e handler opens c bytes) := by
  have hstep := (h.waiting hidle).proceed_complete e handler opens hne hparse
  have hkept := dispatch_kept e handler opens
    (c := { c with reading := false, buf := (parse (c.buf ++ bytes)).rest }) hkeeps h.address
    h.connection_type h.stopped rfl ⟨hidle.sendfile_, hidle.threw⟩
  rw [hstep, outcomes_dispatch]
  refine ⟨?_, hkept⟩
  simp only [h.address]

/-- A request that is complete with its head. -/
theorem serves_head_iff {address : Bytes} {c : HttpConnection σ} (h : Alive address c)
    (hidle : Idle c) {bytes rest more tail : Bytes} (hne : bytes ≠ []) {w : Wire}
    (hbuf : c.buf ++ bytes = w.head ++ rest) (hrest : rest ++ more = w.body ++ tail)
    (hcomplete : hasContent w.request = false ∨ declaredLength w.request.headers = 0) :
    (Serves address c (proceed e handler opens c bytes) (c.buf ++ bytes) ↔
        declaredLength w.request.headers = 0 ∧ requestCode.next rest = none) ∧
      Alive address (proceed e handler opens c bytes) := by
  have hhead := w.head_append rest
  rw [← hbuf] at hhead
  obtain ⟨hparse, hkept⟩ := parse_of_head hhead
  -- the content length that the parser notes is zero in both cases
  have hrequest : (if hasContent w.request then { w.request with contentLength := 0 }
      else w.request) = w.request := by
    split_ifs
    · exact hkept.of_constructed.1
    · rfl
  rw [behindHead_complete hcomplete, hrequest] at hparse
  have hyes : (parse (c.buf ++ bytes)).result = .yes := by rw [hparse]
  have hkeeps : keepsAlive (parse (c.buf ++ bytes)).request = true := by
    rw [hparse]
    exact w.keepsAlive
  obtain ⟨houtcomes, hleft, halive⟩ :=
    dispatched_of_complete e handler opens h hidle hne hyes hkeeps
  rw [hparse] at houtcomes hleft
  simp only at houtcomes hleft
  refine ⟨?_, halive⟩
  by_cases hzero : declaredLength w.request.headers = 0
  · -- the request and nothing else is taken from the buffer
    obtain ⟨hbody, hreceived⟩ := w.received_of_empty hzero address
    have hwire : c.buf ++ bytes = requestCode.encode w ++ rest := by
      rw [hbuf]
      show w.head ++ rest = w.head ++ w.body ++ rest
      rw [hbody, List.append_nil]
    obtain ⟨hall, hpending⟩ := requestCode.complete_encode w rest
    rw [← hwire] at hall hpending
    constructor
    · intro hserves
      have hbehind := hserves.buf
      rw [hleft, hpending] at hbehind
      refine ⟨hzero, ?_⟩
      rw [hbehind]
      exact requestCode.next_pending rest
    · rintro ⟨-, hnext⟩
      obtain ⟨hnone, hstays⟩ := requestCode.complete_of_none hnext
      constructor
      · rw [houtcomes, hall, hnone, List.map_singleton, hreceived]
      · rw [hleft, hpending, hstays]
  · -- the body is left in the buffer
    refine iff_of_false (fun hserves => ?_) fun hfits => hzero hfits.1
    have hmap := hserves.outcomes
    rw [houtcomes, List.append_cancel_left_eq] at hmap
    obtain ⟨x, hx, -⟩ := List.map_eq_singleton_iff.mp hmap.symm
    -- the outcome is a request, so the buffer would have to be cut there
    have hjoin := requestCode.join_complete (c.buf ++ bytes)
    rw [hx, ← hserves.buf, hleft, hbuf, List.map_singleton, List.flatten_singleton,
      List.append_cancel_right_eq] at hjoin
    have hx' : x.bytes ++ (w.body ++ tail) = w.bytes ++ tail := by
      show x.bytes ++ (w.body ++ tail) = w.head ++ w.body ++ tail
      rw [List.append_assoc]
      exact congrArg (· ++ (w.body ++ tail)) hjoin
    obtain ⟨rfl, hbody⟩ := Wire.unique hx'
    have hnil : x.body = [] := List.append_left_eq_self.mp hbody
    have hlength := x.length_eq
    rw [hnil] at hlength
    exact hzero hlength.symm

/-- A request with content. -/
theorem serves_content_iff {address : Bytes} {c : HttpConnection σ} (h : Alive address c)
    (hidle : Idle c) {bytes rest more tail : Bytes} (hne : bytes ≠ []) {w : Wire}
    (hbuf : c.buf ++ bytes = w.head ++ rest) (hrest : rest ++ more = w.body ++ tail)
    (hcontent : hasContent w.request = true) (hzero : declaredLength w.request.headers ≠ 0) :
    (Serves address c (proceed e handler opens c bytes) (c.buf ++ bytes) ↔
        (rest.length : ℤ) ≤ declaredLength w.request.headers) ∧
      Alive address (proceed e handler opens c bytes) := by
  have hhead := w.head_append rest
  rw [← hbuf] at hhead
  have hparse := (parse_of_head hhead).1
  rw [behindHead_content hcontent hzero] at hparse
  have hlength := w.length_eq
  by_cases hshort : rest.length < w.body.length
  · -- the content has not come
    -- what has come is a beginning of the request, and the parser waits
    have hresult : (parse (c.buf ++ bytes)).result = .indeterminate := by
      rw [hparse]
      simp only
      split_ifs with hnil
      · rfl
      · rw [readContent, if_pos (by simp only; omega)]
    have hpart : c.buf ++ bytes <+: requestCode.encode w := by
      rw [hbuf]
      show w.head ++ rest <+: w.head ++ w.body
      rw [List.prefix_append_right_inj]
      exact List.prefix_of_prefix_length_le ⟨more, hrest⟩ (List.prefix_append _ _) hshort.le
    have hnot : c.buf ++ bytes ≠ requestCode.encode w := by
      rw [hbuf]
      intro heq
      have hsame : rest = w.body := List.append_cancel_left heq
      rw [hsame] at hshort
      exact lt_irrefl _ hshort
    have hnext := requestCode.next_of_prefix hpart hnot
    obtain ⟨hserves, halive⟩ := serves_of_undecided e handler opens h hidle hne hresult hnext
    exact ⟨iff_of_true hserves (by omega), halive⟩
  · -- the content, and all that has come behind it
    obtain ⟨behind, rfl⟩ : w.body <+: rest :=
      List.prefix_of_prefix_length_le (List.prefix_append _ _) ⟨more, hrest⟩ (not_lt.mp hshort)
    have hsome : w.body ++ behind ≠ [] := by
      intro hnil
      have hbody := (List.append_eq_nil_iff.mp hnil).1
      rw [hbody] at hlength
      exact hzero hlength.symm
    have htake : (w.body ++ behind).take (declaredLength w.request.headers).toNat = w.body := by
      rw [← hlength, Int.toNat_natCast, List.take_left]
    have hread : ¬ ((w.body ++ behind).length : ℤ) < declaredLength w.request.headers := by
      rw [List.length_append]
      omega
    have hnonneg : ¬ declaredLength w.request.headers < 0 := by omega
    simp only [hsome, if_false, readContent, hread, hnonneg, htake] at hparse
    have hyes : (parse (c.buf ++ bytes)).result = .yes := by rw [hparse]
    have hkeeps : keepsAlive (parse (c.buf ++ bytes)).request = true := by
      rw [hparse]
      exact w.keepsAlive
    -- the request is dispatched, and the parser has consumed the whole buffer
    obtain ⟨houtcomes, hleft, halive⟩ :=
      dispatched_of_complete e handler opens h hidle hne hyes hkeeps
    rw [hparse] at houtcomes hleft
    have hwire : c.buf ++ bytes = requestCode.encode w ++ behind := by
      rw [hbuf, ← List.append_assoc]
      rfl
    obtain ⟨hall, hpending⟩ := requestCode.complete_encode w behind
    rw [← hwire] at hall hpending
    have hbehind : ((w.body ++ behind).length : ℤ) ≤ declaredLength w.request.headers ↔
        behind = [] := by
      rw [← List.length_eq_zero_iff, List.length_append]
      omega
    refine ⟨?_, halive⟩
    rw [hbehind]
    constructor
    · intro hserves
      have hmap := hserves.outcomes
      rw [houtcomes, hall, List.append_cancel_left_eq, List.map_cons, List.cons.injEq] at hmap
      have hstays := hserves.buf
      rw [hleft, hpending] at hstays
      -- nothing is left over, so nothing may have come behind the content
      have hjoin := requestCode.join_complete behind
      rw [List.map_eq_nil_iff.mp hmap.2.symm, ← hstays] at hjoin
      exact hjoin.symm
    · rintro rfl
      obtain ⟨hnone, hstays⟩ := requestCode.complete_of_none requestCode.next_nil
      constructor
      · rw [houtcomes, hall, hnone]
        rfl
      · rw [hleft, hpending, hstays]

/-- **A read is served exactly if it fits**, and the connection is kept. -/
theorem serves_iff {address : Bytes} {c : HttpConnection σ} (h : Alive address c)
    {bytes more tail : Bytes} (hne : bytes ≠ []) {w : Wire}
    (hstream : c.buf ++ bytes ++ more = w.bytes ++ tail) :
    (Serves address c (proceed e handler opens c bytes) (c.buf ++ bytes) ↔ Fits c bytes) ∧
      (Fits c bytes → Alive address (proceed e handler opens c bytes)) := by
  by_cases hidle : Idle c
  · rcases w.head_cases hstream with ⟨hnone, hparse⟩ | ⟨rest, hbuf, hhead, hrest⟩
    · obtain ⟨hserves, halive⟩ := serves_of_undecided e handler opens h hidle hne hparse
        (next_of_head hnone)
      refine ⟨iff_of_true hserves ⟨hidle, fun req rest hhead => ?_⟩, fun _ => halive⟩
      rw [hnone] at hhead
      cases hhead
    · by_cases hcontent : hasContent w.request = true ∧ declaredLength w.request.headers ≠ 0
      · obtain ⟨hserves, halive⟩ := serves_content_iff e handler opens h hidle hne hbuf hrest
          hcontent.1 hcontent.2
        refine ⟨hserves.trans ⟨fun hlength => ⟨hidle, ?_⟩, fun hfits => ?_⟩, fun _ => halive⟩
        · intro req rest' hhead'
          rw [hhead, Option.some.injEq, Prod.mk.injEq] at hhead'
          obtain ⟨rfl, rfl⟩ := hhead'
          rw [if_pos hcontent]
          exact hlength
        · have hone := hfits.one _ _ hhead
          rwa [if_pos hcontent] at hone
      · have hcomplete : hasContent w.request = false ∨ declaredLength w.request.headers = 0 := by
          rw [not_and_or, not_not] at hcontent
          simpa using hcontent
        obtain ⟨hserves, halive⟩ := serves_head_iff e handler opens h hidle hne hbuf hrest hcomplete
        refine ⟨hserves.trans ⟨fun hlength => ⟨hidle, ?_⟩, fun hfits => ?_⟩, fun _ => halive⟩
        · intro req rest' hhead'
          rw [hhead, Option.some.injEq, Prod.mk.injEq] at hhead'
          obtain ⟨rfl, rfl⟩ := hhead'
          rw [if_neg hcontent]
          exact hlength
        · have hone := hfits.one _ _ hhead
          rwa [if_neg hcontent] at hone
  · -- what comes while a file is being sent, or after an exception, is not read
    refine ⟨iff_of_false (fun hserves => ?_) fun hfits => hidle hfits.idle,
      fun hfits => absurd hfits.idle hidle⟩
    obtain ⟨houtcomes, hbuf⟩ := hserves
    rw [h.proceed_busy e handler opens hidle] at houtcomes hbuf
    rw [List.self_eq_append_right, List.map_eq_nil_iff] at houtcomes
    have hjoin := requestCode.join_complete (c.buf ++ bytes)
    rw [houtcomes, ← hbuf] at hjoin
    exact hne (List.self_eq_append_right.mp hjoin)

/-! ### Reads -/

/-- What has been complete is handed over, and the rest is in the buffer. -/
structure Right (address : Bytes) (c : HttpConnection σ) (arrived : Bytes) : Prop where
  outcomes : c.outcomes =
    (requestCode.complete arrived).map fun w => .dispatched (w.received address)
  buf : c.buf = requestCode.pending arrived

theorem right_start (address : Bytes) (world : σ) : Right address (start address world) [] := by
  obtain ⟨hcomplete, hpending⟩ := requestCode.complete_of_none requestCode.next_nil
  constructor
  · rw [hcomplete]
    rfl
  · rw [hpending]
    rfl

/-- A step that serves is one that keeps up. -/
theorem Right.step_iff {address : Bytes} {c c' : HttpConnection σ} {arrived bytes : Bytes}
    (h : Right address c arrived) :
    Right address c' (arrived ++ bytes) ↔ Serves address c c' (c.buf ++ bytes) := by
  obtain ⟨hcomplete, hpending⟩ := requestCode.complete_append arrived bytes
  rw [← h.buf] at hcomplete hpending
  constructor
  · rintro ⟨houtcomes, hbuf⟩
    rw [hcomplete, List.map_append, ← h.outcomes] at houtcomes
    exact ⟨houtcomes, hbuf.trans hpending⟩
  · rintro ⟨houtcomes, hbuf⟩
    refine ⟨?_, hbuf.trans hpending.symm⟩
    rw [houtcomes, hcomplete, List.map_append, ← h.outcomes]

theorem run_concat (c : HttpConnection σ) (done : List Bytes) (bytes : Bytes) :
    run e handler opens c (done ++ [bytes]) =
      proceed e handler opens (run e handler opens c done) bytes := by
  rw [run, List.foldl_append]
  rfl

/-- **A read of a stream that keeps up before.** -/
theorem right_concat_iff {address : Bytes} (world : σ) {ws : List Wire} {done : List Bytes}
    {bytes more : Bytes} (hne : bytes ≠ [])
    (hstream : done.flatten ++ bytes ++ more = (ws.map Wire.bytes).flatten)
    (hright : Right address (run e handler opens (start address world) done) done.flatten)
    (halive : Alive address (run e handler opens (start address world) done)) :
    (Right address (run e handler opens (start address world) (done ++ [bytes]))
        (done ++ [bytes]).flatten ↔
      Fits (run e handler opens (start address world) done) bytes) ∧
    (Fits (run e handler opens (start address world) done) bytes →
      Alive address (run e handler opens (start address world) (done ++ [bytes]))) := by
  -- the stream goes on with the request whose beginning is in the buffer
  have hjoin := requestCode.join_complete done.flatten
  rw [← hjoin, ← hright.buf, List.append_assoc, List.append_assoc] at hstream
  obtain ⟨behind, -, hbehind⟩ := requestCode.join_eq_append hstream.symm
  have hflatten : (done ++ [bytes]).flatten = done.flatten ++ bytes := by simp
  rw [run_concat, hflatten, hright.step_iff]
  rw [← List.append_assoc] at hbehind
  cases behind with
  | nil =>
    have hnil := (List.append_eq_nil_iff.mp hbehind).1
    exact absurd (List.append_eq_nil_iff.mp hnil).2 hne
  | cons w behind => exact serves_iff e handler opens halive hne hbehind

/-- Every read of the stream keeps up exactly if it fits. -/
theorem right_iff_fits (address : Bytes) (world : σ) {ws : List Wire} {reads : List Bytes}
    (hne : [] ∉ reads) (hstream : reads.flatten = (ws.map Wire.bytes).flatten) :
    (∀ done, done <+: reads →
        Right address (run e handler opens (start address world) done) done.flatten) ↔
      ∀ done bytes, done ++ [bytes] <+: reads →
        Fits (run e handler opens (start address world) done) bytes := by
  -- what has come is a beginning of the requests
  have hcut (done : List Bytes) (bytes : Bytes) (hpre : done ++ [bytes] <+: reads) :
      bytes ≠ [] ∧ ∃ more, done.flatten ++ bytes ++ more = (ws.map Wire.bytes).flatten := by
    obtain ⟨more, rfl⟩ := hpre
    refine ⟨?_, more.flatten, by rw [← hstream]; simp⟩
    rintro rfl
    exact hne (by simp)
  have hfront (done : List Bytes) (bytes : Bytes) (hpre : done ++ [bytes] <+: reads) :
      done <+: reads := (List.prefix_append _ _).trans hpre
  constructor
  · intro h
    -- the connection is open in front of each read, by induction on the reads
    have halive (done : List Bytes) (hdone : done <+: reads) :
        Alive address (run e handler opens (start address world) done) := by
      induction done using List.reverseRecOn with
      | nil => exact alive_start address world
      | append_singleton done bytes ih =>
        have hfirst := hfront done bytes hdone
        obtain ⟨hbytes, more, hmore⟩ := hcut done bytes hdone
        obtain ⟨hiff, hnext⟩ :=
          right_concat_iff e handler opens world hbytes hmore (h done hfirst) (ih hfirst)
        exact hnext (hiff.mp (h _ hdone))
    intro done bytes hdone
    have hfirst := hfront done bytes hdone
    obtain ⟨hbytes, more, hmore⟩ := hcut done bytes hdone
    exact (right_concat_iff e handler opens world hbytes hmore (h done hfirst)
      (halive done hfirst)).1.mp (h _ hdone)
  · intro h
    have hboth (done : List Bytes) (hdone : done <+: reads) :
        Right address (run e handler opens (start address world) done) done.flatten ∧
          Alive address (run e handler opens (start address world) done) := by
      induction done using List.reverseRecOn with
      | nil => exact ⟨right_start address world, alive_start address world⟩
      | append_singleton done bytes ih =>
        obtain ⟨hright, halive⟩ := ih (hfront done bytes hdone)
        obtain ⟨hbytes, more, hmore⟩ := hcut done bytes hdone
        obtain ⟨hiff, hnext⟩ := right_concat_iff e handler opens world hbytes hmore hright halive
        have hfits := h done bytes hdone
        exact ⟨hiff.mpr hfits, hnext hfits⟩
    exact fun done hdone => (hboth done hdone).1

/-- Every request of the stream is handed over, once and in order; what has been handed over has
taken its own bytes from the buffer; and no request is complete in the buffer while the connection
waits for more. -/
structure Pipelined (address : Bytes) (world : σ) (ws : List Wire) (reads : List Bytes) : Prop where
  dispatched : (run e handler opens (start address world) reads).outcomes =
    ws.map fun w => .dispatched (w.received address)
  consumed : ∀ done, done <+: reads → ∃ n,
    (run e handler opens (start address world) done).outcomes =
        (ws.take n).map (fun w => .dispatched (w.received address)) ∧
      done.flatten = ((ws.take n).map Wire.bytes).flatten ++
        (run e handler opens (start address world) done).buf
  none_left : ∀ done, done <+: reads →
    (run e handler opens (start address world) done).reading = true →
      requestCode.next (run e handler opens (start address world) done).buf = none

/-- Nothing happens to a connection that does not read. -/
theorem run_of_not_reading {c : HttpConnection σ} (h : c.reading = false) (reads : List Bytes) :
    run e handler opens c reads = c := by
  induction reads with
  | nil => rfl
  | cons bytes reads ih =>
    have hstep : proceed e handler opens c bytes = c := by
      unfold proceed
      rw [if_neg fun hreads => by simp [h] at hreads]
    rw [run, List.foldl_cons, hstep]
    exact ih

theorem pipelined_iff_right (address : Bytes) (world : σ) {ws : List Wire} {reads : List Bytes}
    (hstream : reads.flatten = (ws.map Wire.bytes).flatten) :
    Pipelined e handler opens address world ws reads ↔ ∀ done, done <+: reads →
      Right address (run e handler opens (start address world) done) done.flatten := by
  constructor
  · intro h done hdone
    obtain ⟨n, houtcomes, hbytes⟩ := h.consumed done hdone
    have hnext : requestCode.next (run e handler opens (start address world) done).buf = none := by
      cases hreading : (run e handler opens (start address world) done).reading with
      | true => exact h.none_left done hdone hreading
      | false =>
        -- everything has been handed over already
        obtain ⟨more, rfl⟩ := hdone
        have hlast := h.dispatched
        rw [run, List.foldl_append] at hlast
        have hstays := run_of_not_reading e handler opens hreading more
        rw [run, run] at hstays
        rw [hstays] at hlast
        rw [run] at houtcomes
        have hlength := congrArg List.length (houtcomes.symm.trans hlast)
        rw [List.length_map, List.length_map, List.length_take] at hlength
        have hall : ws.take n = ws := List.take_of_length_le (by omega)
        rw [List.flatten_append, hbytes, hall, List.append_assoc,
          List.append_right_eq_self] at hstream
        rw [(List.append_eq_nil_iff.mp hstream).1]
        exact requestCode.next_nil
    obtain ⟨hcomplete, hpending⟩ := requestCode.drain_encode (ws.take n) hnext
    have hbytes' : done.flatten = ((ws.take n).map requestCode.encode).flatten ++
        (run e handler opens (start address world) done).buf := hbytes
    rw [← hbytes'] at hcomplete hpending
    constructor
    · rw [hcomplete]
      exact houtcomes
    · exact hpending.symm
  · intro h
    have hsplit (done : List Bytes) (hdone : done <+: reads) :
        ∃ more, ws = requestCode.complete done.flatten ++ more := by
      obtain ⟨later, rfl⟩ := hdone
      rw [List.flatten_append, ← requestCode.join_complete done.flatten, List.append_assoc]
        at hstream
      obtain ⟨more, hmore, -⟩ := requestCode.join_eq_append hstream.symm
      exact ⟨more, hmore⟩
    refine ⟨?_, fun done hdone => ?_, fun done hdone _ => ?_⟩
    · have hall := (requestCode.drain_encode ws requestCode.next_nil).1
      rw [List.append_nil] at hall
      rw [(h reads (List.prefix_refl _)).outcomes, hstream]
      exact congrArg (List.map _) hall
    · obtain ⟨more, hmore⟩ := hsplit done hdone
      have htake : ws.take (requestCode.complete done.flatten).length =
          requestCode.complete done.flatten := by
        rw [hmore, List.take_left]
      refine ⟨(requestCode.complete done.flatten).length, ?_, ?_⟩
      · rw [htake]
        exact (h done hdone).outcomes
      · rw [htake, (h done hdone).buf]
        exact (requestCode.join_complete done.flatten).symm
    · rw [(h done hdone).buf]
      exact requestCode.next_pending done.flatten

/-- **A stream of requests is served exactly if its reads fit.** -/
theorem pipelined_iff (address : Bytes) (world : σ) {ws : List Wire} {reads : List Bytes}
    (hne : [] ∉ reads) (hstream : reads.flatten = (ws.map Wire.bytes).flatten) :
    Pipelined e handler opens address world ws reads ↔ ∀ done bytes, done ++ [bytes] <+: reads →
      Fits (run e handler opens (start address world) done) bytes := by
  rw [pipelined_iff_right e handler opens address world hstream]
  exact right_iff_fits e handler opens address world hne hstream

/-- A request that comes alone fits, unless it has a body where the parser does not look for it. -/
theorem fits_alone {c : HttpConnection σ} (hidle : Idle c) (hbuf : c.buf = [])
    {w : Wire} (hbody : hasContent w.request = true ∨ w.body = []) : Fits c w.bytes := by
  refine ⟨hidle, fun req rest hhead => ?_⟩
  rw [hbuf, List.nil_append, Wire.bytes, w.head_append, Option.some.injEq, Prod.mk.injEq] at hhead
  obtain ⟨rfl, rfl⟩ := hhead
  have hlength := w.length_eq
  split_ifs with hcontent
  · exact hlength.le
  · have hnil : w.body = [] := by
      rcases hbody with hyes | hnil
      · have hzero : declaredLength w.request.headers = 0 := by
          by_contra hne
          exact hcontent ⟨hyes, hne⟩
        rw [← List.length_eq_zero_iff]
        omega
      · exact hnil
    rw [hnil] at hlength ⊢
    exact ⟨hlength.symm, requestCode.next_nil⟩

end Runs

/-! ### Two requests -/

/-- The header that asks for the connection to be kept. -/
def keepAliveHeader : Header := ⟨str "Connection", str "Keep-Alive"⟩

set_option maxRecDepth 2000 in

/-- A `GET` that is kept alive. -/
def getWire : Wire where
  head := str "GET / HTTP/1.1\r\nConnection: Keep-Alive\r\n\r\n"
  body := []
  request := {
    method := str "GET"
    uri := str "/"
    httpVersionMajor := 1
    httpVersionMinor := 1
    headers := [keepAliveHeader] }
  head_eq := by rfl
  length_eq := by decide
  keepsAlive := by decide

set_option maxRecDepth 2000 in

/-- A `POST` with one byte of content, that is kept alive. -/
def postWire : Wire where
  head := str "POST / HTTP/1.1\r\nConnection: Keep-Alive\r\nContent-Length: 1\r\n\r\n"
  body := str "x"
  request := {
    method := str "POST"
    uri := str "/"
    httpVersionMajor := 1
    httpVersionMinor := 1
    headers := [keepAliveHeader, ⟨str "Content-Length", str "1"⟩] }
  head_eq := by rfl
  length_eq := by decide
  keepsAlive := by decide

theorem mem_two_reads {a b bytes : Bytes} {done : List Bytes} (h : done ++ [bytes] <+: [a, b]) :
    done = [] ∧ bytes = a ∨ done = [a] ∧ bytes = b := by
  rcases done with _ | ⟨first, _ | ⟨second, done⟩⟩
  · simpa using h
  · simpa using h
  · simp at h

theorem pipelined_iff_apart :
    Pipelined emptyEnvironment plainHandler (fun _ => false) [] () [postWire, getWire]
      [postWire.bytes, getWire.bytes] := by
  refine (pipelined_iff emptyEnvironment plainHandler (fun _ => false) [] () (by decide)
    (by rfl)).mpr ?_
  intro done bytes hdone
  rcases mem_two_reads hdone with ⟨rfl, rfl⟩ | ⟨rfl, rfl⟩
  · exact fits_alone ⟨rfl, rfl⟩ rfl (Or.inl (by decide))
  · exact fits_alone ⟨by decide, by decide⟩ (by decide) (Or.inr rfl)

/-- The second of two requests in one read waits, and behind content it is lost. -/
theorem second_request_waits :
    ¬ Pipelined emptyEnvironment plainHandler (fun _ => false) [] () [getWire, getWire]
        [getWire.bytes ++ getWire.bytes] ∧
      ¬ Pipelined emptyEnvironment plainHandler (fun _ => false) [] () [postWire, getWire]
        [postWire.bytes ++ getWire.bytes] := by
  constructor
  · intro h
    have hone : (run emptyEnvironment plainHandler (fun _ => false) (start [] ())
        [getWire.bytes ++ getWire.bytes]).outcomes.length = 1 := by decide
    rw [h.dispatched] at hone
    cases hone
  · intro h
    have hone : (run emptyEnvironment plainHandler (fun _ => false) (start [] ())
        [postWire.bytes ++ getWire.bytes]).outcomes.length = 1 := by decide
    rw [h.dispatched] at hone
    cases hone

end Domoticz.Pipelining
