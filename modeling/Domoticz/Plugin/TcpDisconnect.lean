import Domoticz.Transition

/-!
# Disconnecting a TCP transport

`CPluginTransportTCP` resolves a name, connects to it and reads.  Each of these is begun by a
handler of the one before, and `boost::asio` calls a handler when it has completed, with an error
code.  `handleDisconnect` closes the socket.  That ends a connect or a read, which are outstanding
at a socket; the resolver is left alone, and goes on to connect the socket that was closed.

A transport belongs to a connection, whose next `Connect` makes another one, and a
`DisconnectedEvent` deletes the one the connection has by then.

## Main definitions

* `Transport`, `handler`, `handleDisconnect` — a transport, and what its handlers do.
* `State`, `step` — the connection, over any interleaving with the completions.
* `Right` — a transport that was disconnected does not connect, and goes.
* `Meets` — the phases in which the directives may come.

## Main results

* `final_handle` — a transport that is done with stays so over its handlers.
* `right_of_meets` — **with the directives in those phases everything is right.**
* `resolving_connects` — a transport that is disconnected while it resolves may always connect.
-/

namespace Domoticz.TcpDisconnect

/-! ### A transport -/

/-- What is begun, one after the other. -/
inductive Operation
  | resolve
  | connect
  | read
  deriving DecidableEq, Repr

/-- What a transport queues for the plugin. -/
inductive Message
  /-- `onConnectCallback`. -/
  | onConnect (status : ℤ)
  | readEvent
  | disconnectedEvent
  deriving DecidableEq, Repr

/-- A `CPluginTransportTCP`, and what has been queued by it. -/
structure Transport where
  /-- Of the socket. -/
  isOpen : Bool := false
  m_bConnecting : Bool := false
  m_bConnected : Bool := false
  /-- The operation that was begun, with its error code if it has completed and its handler has
  not run. -/
  operation : Option (Operation × Option ℤ) := none
  messages : List Message := []
  /-- The number of these when it was first disconnected. -/
  disconnected : Option ℕ := none
  deleted : Bool := false
  deriving DecidableEq, Repr

/-- `boost::asio::error::operation_aborted`. -/
def operation_aborted : ℤ := 125

/-- `boost::asio::error::bad_descriptor`. -/
def bad_descriptor : ℤ := 9

/-- `async_read_some`, which fails at once if the socket is closed. -/
def Transport.async_read_some (t : Transport) : Transport :=
  { t with operation := some (.read, if t.isOpen then none else some bad_descriptor) }

/-- `m_Socket->close()`: what is outstanding is aborted; what has completed is not. -/
def Transport.close (t : Transport) : Transport :=
  { t with
    isOpen := false
    operation := match t.operation with
      | some (.connect, none) => some (.connect, some operation_aborted)
      | some (.read, none) => some (.read, some operation_aborted)
      | operation => operation }

/-- `handleAsyncResolve`, `handleAsyncConnect` and `handleRead`, for an error code; zero is
success. -/
def handler (t : Transport) (err : ℤ) : Operation → Transport × List Message
  | .resolve =>
      -- `async_connect` opens the socket
      if err = 0 then ({ t with isOpen := true, operation := some (.connect, none) }, [])
      else ({ t with m_bConnecting := false, operation := none },
        [.onConnect err, .disconnectedEvent])
  | .connect =>
      if err = 0 then
        ({ t.async_read_some with m_bConnected := true, m_bConnecting := false }, [.onConnect err])
      else
        ({ t with m_bConnected := false, m_bConnecting := false, operation := none },
          [.onConnect err, .disconnectedEvent])
  | .read =>
      if err = 0 then (t.async_read_some, [.readEvent])
      else ({ t with operation := none }, [.disconnectedEvent])

/-- The handler that is due, if one is. -/
def Transport.due (t : Transport) : Transport × List Message :=
  match t.operation with
  | some (o, some err) => handler t err o
  | _ => (t, [])

/-- The transport after that. -/
def Transport.handle (t : Transport) : Transport :=
  { t.due.1 with messages := t.messages ++ t.due.2 }

/-- `handleDisconnect`; `shuts` says whether `shutdown` succeeds. -/
def handleDisconnect (shuts : Bool) (t : Transport) : Transport :=
  let t := if t.m_bConnecting then t.close else t
  let t := if t.m_bConnected && shuts then t.close else t
  { t with m_bConnected := false }

/-- `AsyncDisconnect`. -/
def Transport.AsyncDisconnect (t : Transport) : Bool := t.m_bConnected || t.m_bConnecting

/-- It is noted that a transport is disconnected while it resolves, connects or is connected. -/
def Transport.note (t : Transport) : Transport :=
  if t.disconnected = none ∧ (t.operation ≠ none ∨ t.m_bConnected = true) then
    { t with disconnected := some t.messages.length }
  else t

/-! ### The connection -/

/-- A connection with the transports it has had, by number. -/
structure State where
  transports : ℕ → Transport := fun _ => {}
  made : ℕ := 0
  pTransport : Option ℕ := none
  m_Transports : List ℕ := []
  /-- The `DisconnectedEvent`s in the queue, by the transport that queued them. -/
  queue : List ℕ := []
  /-- No handler was called for a transport that had been deleted. -/
  defined : Bool := true

/-- What can happen next. -/
inductive Event
  /-- `ConnectionConnect`; the name resolves, or `handleConnect` fails. -/
  | connect (resolves : Bool)
  /-- `ConnectionDisconnect`. -/
  | disconnect (shuts : Bool)
  /-- The operation of a transport completes. -/
  | complete (i : ℕ) (err : ℤ)
  /-- Its handler runs. -/
  | handle (i : ℕ)
  /-- `DisconnectEvent`, for the first in the queue. -/
  | disconnectedEvent
  deriving DecidableEq, Repr

/-- The state with another transport `i`. -/
def State.set (s : State) (i : ℕ) (t : Transport) : State :=
  { s with transports := Function.update s.transports i t }

/-- `RemoveConnection`, `delete pConnection->pTransport`, and `pTransport = NULL`. -/
def State.remove (s : State) (i : ℕ) : State :=
  { s.set i { s.transports i with deleted := true } with
    m_Transports := s.m_Transports.erase i, pTransport := none }

/-- What an event does. -/
def step (s : State) : Event → State
  | .connect resolves =>
      if (s.pTransport.any fun i => (s.transports i).m_bConnected) = true then s
      else if resolves then
        { s.set s.made { m_bConnecting := true, operation := some (.resolve, none) } with
          made := s.made + 1, pTransport := some s.made
          m_Transports := s.m_Transports ++ [s.made] }
      else
        -- it is added and removed again, and stays the transport of the connection
        { s.set s.made { messages := [.onConnect (-1)] } with
          made := s.made + 1, pTransport := some s.made
          m_Transports := (s.m_Transports ++ [s.made]).erase s.made }
  | .disconnect shuts =>
      match s.pTransport with
      | none => s
      | some i =>
          let s' := s.set i (handleDisconnect shuts (s.transports i).note)
          if (s.transports i).AsyncDisconnect then s' else s'.remove i
  | .complete i err =>
      match (s.transports i).operation with
      | some (o, none) => s.set i { s.transports i with operation := some (o, some err) }
      | _ => s
  | .handle i =>
      match (s.transports i).operation with
      | some (_, some _) =>
          if (s.transports i).deleted then { s with defined := false }
          else
            let events := (s.transports i).due.2.filter (· = .disconnectedEvent)
            { s.set i (s.transports i).handle with queue := s.queue ++ events.map fun _ => i }
      | _ => s
  | .disconnectedEvent =>
      match s.queue with
      | [] => s
      | _ :: queue =>
          match s.pTransport with
          | none => { s with queue }
          | some i => { s.remove i with queue }

/-! ### A transport that was disconnected -/

/-- It is not connected and has announced no connection since; the handlers that are due queue a
`DisconnectedEvent`, without anything else having to complete; and when that is processed it is
not among the transports any more. -/
structure Right (s : State) : Prop where
  defined : s.defined = true
  notConnected : ∀ i n, (s.transports i).disconnected = some n →
    (s.transports i).m_bConnected = false
  notAnnounced : ∀ i n, (s.transports i).disconnected = some n →
    Message.onConnect 0 ∉ (s.transports i).messages.drop n
  queued : ∀ i n, (s.transports i).disconnected = some n →
    Message.disconnectedEvent ∈ (s.transports i).handle.handle.messages
  removed : ∀ i n, (s.transports i).disconnected = some n → (s.transports i).operation = none →
    i ∉ s.queue → i ∉ s.m_Transports

/-- A phase in which a transport may be disconnected: it does not resolve, unless that has failed;
its connect has not succeeded; and while it reads it is connected and can be shut down, or the
read has failed. -/
def MayDisconnect (shuts : Bool) (t : Transport) : Prop :=
  match t.operation with
  | none => True
  | some (.resolve, err) => err ≠ none ∧ err ≠ some 0
  | some (.connect, err) => err ≠ some 0
  | some (.read, err) => t.m_bConnected = true ∧ (shuts = true ∨ (err ≠ none ∧ err ≠ some 0))

instance MayDisconnect.decidable (shuts : Bool) :
    (t : Transport) → Decidable (MayDisconnect shuts t)
  | ⟨_, _, _, none, _, _, _⟩ => .isTrue trivial
  | ⟨_, _, _, some (.resolve, err), _, _, _⟩ =>
      inferInstanceAs (Decidable (err ≠ none ∧ err ≠ some 0))
  | ⟨_, _, _, some (.connect, err), _, _, _⟩ => inferInstanceAs (Decidable (err ≠ some 0))
  | ⟨_, _, connected, some (.read, err), _, _, _⟩ =>
      inferInstanceAs (Decidable
        (connected = true ∧ (shuts = true ∨ (err ≠ none ∧ err ≠ some 0))))

/-- A phase in which another transport may be made: the one before is not doing anything, and no
`DisconnectedEvent` waits. -/
def MayConnect (s : State) : Prop :=
  s.queue = [] ∧ ∀ i ∈ s.pTransport, (s.transports i).operation = none

/-- The directives come in these phases; a connect is ignored while there is a connection. -/
def Meets (s : State) : Event → Prop
  | .connect _ => (∃ i ∈ s.pTransport, (s.transports i).m_bConnected = true) ∨ MayConnect s
  | .disconnect shuts => ∀ i ∈ s.pTransport, MayDisconnect shuts (s.transports i)
  | _ => True

instance Meets.decidable (s : State) : (e : Event) → Decidable (Meets s e)
  | .connect _ => inferInstanceAs (Decidable
      ((∃ i ∈ s.pTransport, (s.transports i).m_bConnected = true) ∨
        (s.queue = [] ∧ ∀ i ∈ s.pTransport, (s.transports i).operation = none)))
  | .disconnect shuts =>
      inferInstanceAs (Decidable (∀ i ∈ s.pTransport, MayDisconnect shuts (s.transports i)))
  | .complete _ _ | .handle _ | .disconnectedEvent => .isTrue trivial

/-! ### One transport -/

/-- How the flags and the operation belong together. -/
structure Phase (t : Transport) : Prop where
  begun : ∀ o err, t.operation = some (o, err) → o ≠ .read →
    t.m_bConnecting = true ∧ t.m_bConnected = false
  reading : ∀ err, t.operation = some (.read, err) →
    t.m_bConnecting = false ∧ (t.disconnected = none → t.m_bConnected = true)
  ended : t.operation = none → t.m_bConnected = true → .disconnectedEvent ∈ t.messages

/-- What is due ends in a `DisconnectedEvent`. -/
def Ends (t : Transport) : Prop :=
  match t.operation with
  | none => .disconnectedEvent ∈ t.messages
  | some (.read, err) => ∃ e, err = some e ∧ (e = 0 → t.isOpen = false)
  | some (_, err) => ∃ e, err = some e ∧ e ≠ 0

/-- A transport that was disconnected after its first `n` messages is done with. -/
structure Final (t : Transport) (n : ℕ) : Prop where
  within : n ≤ t.messages.length
  notConnected : t.m_bConnected = false
  notAnnounced : Message.onConnect 0 ∉ t.messages.drop n
  ends : Ends t

/-- What holds of a transport whose directives come in the right phases. -/
structure Good (t : Transport) : Prop where
  phase : Phase t
  final : ∀ n, t.disconnected = some n → Final t n

theorem due_of_operation {t : Transport} {o : Operation} {err : ℤ}
    (h : t.operation = some (o, some err)) : t.due = handler t err o := by
  rw [Transport.due, h]

theorem due_of_waiting {t : Transport} (h : ∀ o err, t.operation ≠ some (o, some err)) :
    t.due = (t, []) := by
  unfold Transport.due
  split
  · next o err heq => exact absurd heq (h o err)
  · rfl

theorem handle_of_waiting {t : Transport} (h : ∀ o err, t.operation ≠ some (o, some err)) :
    t.handle = t := by
  rw [Transport.handle, due_of_waiting h, List.append_nil]

/-- A handler leaves these as they are. -/
theorem due_frame (t : Transport) :
    t.due.1.disconnected = t.disconnected ∧ t.due.1.deleted = t.deleted := by
  unfold Transport.due
  split
  · next o err _ =>
    cases o with
    | resolve =>
      rw [handler]
      split
      · exact ⟨rfl, rfl⟩
      · exact ⟨rfl, rfl⟩
    | connect =>
      rw [handler]
      split
      · exact ⟨rfl, rfl⟩
      · exact ⟨rfl, rfl⟩
    | read =>
      rw [handler]
      split
      · exact ⟨rfl, rfl⟩
      · exact ⟨rfl, rfl⟩
  · exact ⟨rfl, rfl⟩

/-- A handler begins another operation, or ends with a `DisconnectedEvent`. -/
theorem due_operation {t : Transport} {o : Operation} {err : ℤ}
    (h : t.operation = some (o, some err)) :
    (t.due.1.operation = none ∧ t.due.2.filter (· = .disconnectedEvent) = [.disconnectedEvent]) ∨
      (t.due.1.operation ≠ none ∧ t.due.2.filter (· = .disconnectedEvent) = []) := by
  rw [due_of_operation h]
  cases o with
  | resolve =>
    rw [handler]
    split
    · exact .inr ⟨nofun, rfl⟩
    · exact .inl ⟨rfl, rfl⟩
  | connect =>
    rw [handler]
    split
    · exact .inr ⟨nofun, rfl⟩
    · exact .inl ⟨rfl, rfl⟩
  | read =>
    rw [handler]
    split
    · exact .inr ⟨nofun, rfl⟩
    · exact .inl ⟨rfl, rfl⟩

theorem phase_handle {t : Transport} (h : Phase t) : Phase t.handle := by
  by_cases hdue : ∃ o err, t.operation = some (o, some err)
  · obtain ⟨o, err, hop⟩ := hdue
    rw [Transport.handle, due_of_operation hop]
    cases o with
    | resolve =>
      obtain ⟨hconnecting, hconnected⟩ := h.begun _ _ hop nofun
      rw [handler]
      split
      · refine ⟨fun o err _ _ => ⟨hconnecting, hconnected⟩, fun err hread => ?_, nofun⟩
        cases hread
      · exact ⟨nofun, nofun, fun _ _ => by simp⟩
    | connect =>
      rw [handler]
      split
      · refine ⟨fun o err hread hne => ?_, fun err _ => ⟨rfl, fun _ => rfl⟩, nofun⟩
        obtain ⟨rfl, -⟩ := Prod.mk.inj (Option.some.inj hread)
        exact absurd rfl hne
      · exact ⟨nofun, nofun, fun _ => nofun⟩
    | read =>
      obtain ⟨hconnecting, hconnected⟩ := h.reading _ hop
      rw [handler]
      split
      · refine ⟨fun o err hread hne => ?_, fun err _ => ⟨hconnecting, hconnected⟩, nofun⟩
        obtain ⟨rfl, -⟩ := Prod.mk.inj (Option.some.inj hread)
        exact absurd rfl hne
      · exact ⟨nofun, nofun, fun _ _ => by simp⟩
  · rw [handle_of_waiting fun o err heq => hdue ⟨o, err, heq⟩]
    exact h

/-- A transport that is done with stays so over its handlers. -/
theorem final_handle {t : Transport} {n : ℕ} (h : Final t n) : Final t.handle n := by
  by_cases hdue : ∃ o err, t.operation = some (o, some err)
  · obtain ⟨o, err, hop⟩ := hdue
    have hends := h.ends
    rw [Ends, hop] at hends
    have hwithin (new : List Message) : n ≤ (t.messages ++ new).length :=
      h.within.trans (by rw [List.length_append]; exact Nat.le_add_right _ _)
    have hnew {new : List Message} (hnot : Message.onConnect 0 ∉ new) :
        Message.onConnect 0 ∉ (t.messages ++ new).drop n := by
      rw [List.drop_append_of_le_length h.within, List.mem_append, not_or]
      exact ⟨h.notAnnounced, hnot⟩
    rw [Transport.handle, due_of_operation hop]
    cases o with
    | resolve =>
      obtain ⟨e, he, hne⟩ := hends
      cases he
      rw [handler, if_neg hne]
      refine ⟨hwithin _, h.notConnected, hnew ?_, ?_⟩
      · simpa using Ne.symm hne
      · simp [Ends]
    | connect =>
      obtain ⟨e, he, hne⟩ := hends
      cases he
      rw [handler, if_neg hne]
      refine ⟨hwithin _, rfl, hnew ?_, ?_⟩
      · simpa using Ne.symm hne
      · simp [Ends]
    | read =>
      obtain ⟨e, he, hclosed⟩ := hends
      cases he
      rw [handler]
      split
      · next hzero =>
        refine ⟨hwithin _, h.notConnected, hnew (by simp), ?_⟩
        show Ends { t.async_read_some with messages := _ }
        simp [Ends, Transport.async_read_some, hclosed hzero, bad_descriptor]
      · exact ⟨hwithin _, h.notConnected, hnew (by simp), by simp [Ends]⟩
  · rw [handle_of_waiting fun o err heq => hdue ⟨o, err, heq⟩]
    exact h

theorem good_handle {t : Transport} (h : Good t) : Good t.handle := by
  refine ⟨phase_handle h.phase, fun n hn => final_handle (h.final n ?_)⟩
  rw [← (due_frame t).1]
  exact hn

/-- Two handlers are enough. -/
theorem queued_of_final {t : Transport} {n : ℕ} (h : Final t n) :
    Message.disconnectedEvent ∈ t.handle.handle.messages := by
  have hkept (t : Transport) (hmem : Message.disconnectedEvent ∈ t.messages) :
      Message.disconnectedEvent ∈ t.handle.messages := List.mem_append_left _ hmem
  have hends := h.ends
  rw [Ends] at hends
  split at hends
  · exact hkept _ (hkept _ hends)
  · next err hop =>
    obtain ⟨e, rfl, hclosed⟩ := hends
    by_cases hzero : e = 0
    · -- the next read fails at once
      have hhandle : t.handle = { t with
          operation := some (.read, some bad_descriptor)
          messages := t.messages ++ [.readEvent] } := by
        rw [Transport.handle, due_of_operation hop, handler, if_pos hzero,
          Transport.async_read_some, hclosed hzero]
        rfl
      rw [hhandle, Transport.handle, due_of_operation rfl, handler, if_neg (by decide)]
      exact List.mem_append_right _ List.mem_cons_self
    · refine hkept _ ?_
      rw [Transport.handle, due_of_operation hop, handler, if_neg hzero]
      exact List.mem_append_right _ List.mem_cons_self
  · next o err hne hop =>
    obtain ⟨e, rfl, hzero⟩ := hends
    refine hkept _ ?_
    rw [Transport.handle, due_of_operation hop]
    cases o with
    | resolve =>
      rw [handler, if_neg hzero]
      exact List.mem_append_right _ (List.mem_cons_of_mem _ List.mem_cons_self)
    | connect =>
      rw [handler, if_neg hzero]
      exact List.mem_append_right _ (List.mem_cons_of_mem _ List.mem_cons_self)
    | read => exact absurd rfl hne

theorem good_complete {t : Transport} (h : Good t) {o : Operation}
    (hop : t.operation = some (o, none)) (err : ℤ) :
    Good { t with operation := some (o, some err) } := by
  have hnot : t.disconnected = none := by
    by_contra hne
    obtain ⟨n, hn⟩ := Option.ne_none_iff_exists'.mp hne
    have hends := (h.final n hn).ends
    rw [Ends, hop] at hends
    cases o with
    | resolve => exact absurd hends (by simp)
    | connect => exact absurd hends (by simp)
    | read => exact absurd hends (by simp)
  refine ⟨⟨fun o' err' heq hne => ?_, fun err' heq => ?_, nofun⟩, fun n hn => ?_⟩
  · obtain ⟨rfl, -⟩ := Prod.mk.inj (Option.some.inj heq)
    exact h.phase.begun o none hop hne
  · obtain ⟨rfl, -⟩ := Prod.mk.inj (Option.some.inj heq)
    exact h.phase.reading none hop
  · rw [show t.disconnected = some n from hn] at hnot
    cases hnot

/-! ### Disconnecting it -/

/-- `handleDisconnect` leaves these as they are. -/
theorem handleDisconnect_frame (shuts : Bool) (t : Transport) :
    (handleDisconnect shuts t).messages = t.messages ∧
      (handleDisconnect shuts t).disconnected = t.disconnected ∧
      (handleDisconnect shuts t).deleted = t.deleted ∧
      (handleDisconnect shuts t).m_bConnecting = t.m_bConnecting ∧
      (handleDisconnect shuts t).m_bConnected = false := by
  have hif (b : Bool) (t : Transport) : (if b then t.close else t).messages = t.messages ∧
      (if b then t.close else t).disconnected = t.disconnected ∧
      (if b then t.close else t).deleted = t.deleted ∧
      (if b then t.close else t).m_bConnecting = t.m_bConnecting := by
    cases b with
    | true => exact ⟨rfl, rfl, rfl, rfl⟩
    | false => exact ⟨rfl, rfl, rfl, rfl⟩
  obtain ⟨hmessages, hdisconnected, hdeleted, hconnecting⟩ := hif t.m_bConnecting t
  obtain ⟨hmessages', hdisconnected', hdeleted', hconnecting'⟩ :=
    hif ((if t.m_bConnecting then t.close else t).m_bConnected && shuts)
      (if t.m_bConnecting then t.close else t)
  exact ⟨hmessages'.trans hmessages, hdisconnected'.trans hdisconnected, hdeleted'.trans hdeleted,
    hconnecting'.trans hconnecting, rfl⟩

theorem note_frame (t : Transport) :
    t.note.messages = t.messages ∧ t.note.operation = t.operation ∧
      t.note.m_bConnecting = t.m_bConnecting ∧ t.note.m_bConnected = t.m_bConnected ∧
      t.note.deleted = t.deleted := by
  unfold Transport.note
  split
  · exact ⟨rfl, rfl, rfl, rfl, rfl⟩
  · exact ⟨rfl, rfl, rfl, rfl, rfl⟩

/-- Closing a socket leaves the kind of operation as it is, and what has completed. -/
theorem close_operation (t : Transport) {o : Operation} {err : Option ℤ}
    (h : t.operation = some (o, err)) :
    t.close.operation = some (o, if o = .resolve then err
      else some (err.getD operation_aborted)) := by
  rw [Transport.close, h]
  cases o with
  | resolve => rfl
  | connect =>
    cases err with
    | none => rfl
    | some e => rfl
  | read =>
    cases err with
    | none => rfl
    | some e => rfl

theorem handleDisconnect_none (shuts : Bool) {t : Transport} (h : t.operation = none) :
    (handleDisconnect shuts t).operation = none := by
  have hclose (t : Transport) (h : t.operation = none) : t.close.operation = none := by
    rw [Transport.close, h]
  unfold handleDisconnect
  simp only
  split
  · split
    · exact hclose _ (hclose _ h)
    · exact hclose _ h
  · split
    · exact hclose _ h
    · exact h

/-- While it resolves or connects, the socket is closed once. -/
theorem handleDisconnect_begun (shuts : Bool) {t : Transport} (hconnecting : t.m_bConnecting = true)
    (hconnected : t.m_bConnected = false) : handleDisconnect shuts t = t.close := by
  have hclosed : t.close.m_bConnected = false := hconnected
  unfold handleDisconnect
  simp only [hconnecting, if_true, hclosed, Bool.false_and, Bool.false_eq_true, if_false]
  cases ht : t.close
  rw [ht] at hclosed
  simp only at hclosed
  rw [hclosed]

/-- While it reads, it is closed if it can be shut down. -/
theorem handleDisconnect_reading (shuts : Bool) {t : Transport}
    (hconnecting : t.m_bConnecting = false) (hconnected : t.m_bConnected = true) :
    handleDisconnect shuts t = { if shuts then t.close else t with m_bConnected := false } := by
  unfold handleDisconnect
  simp only [hconnecting, Bool.false_eq_true, if_false, hconnected, Bool.true_and]

/-- In these phases a transport is done with. -/
theorem ends_handleDisconnect {shuts : Bool} {t : Transport} (h : Phase t)
    (hmay : MayDisconnect shuts t) (hended : t.operation = none → .disconnectedEvent ∈ t.messages) :
    Ends (handleDisconnect shuts t) := by
  unfold MayDisconnect at hmay
  split at hmay
  · next hop =>
    rw [Ends, handleDisconnect_none shuts hop]
    simp only
    rw [(handleDisconnect_frame shuts t).1]
    exact hended hop
  · next err hop =>
    obtain ⟨hconnecting, hconnected⟩ := h.begun _ _ hop nofun
    obtain ⟨e, rfl⟩ := Option.ne_none_iff_exists'.mp hmay.1
    rw [handleDisconnect_begun shuts hconnecting hconnected, Ends, close_operation t hop]
    exact ⟨e, rfl, fun hzero => hmay.2 (congrArg some hzero)⟩
  · next err hop =>
    obtain ⟨hconnecting, hconnected⟩ := h.begun _ _ hop nofun
    rw [handleDisconnect_begun shuts hconnecting hconnected, Ends, close_operation t hop]
    refine ⟨err.getD operation_aborted, rfl, ?_⟩
    cases err with
    | none => decide
    | some e => exact fun hzero => hmay (congrArg some hzero)
  · next err hop =>
    obtain ⟨hconnecting, -⟩ := h.reading _ hop
    rw [handleDisconnect_reading shuts hconnecting hmay.1, Ends]
    cases shuts with
    | true =>
      simp only [if_true, close_operation t hop]
      exact ⟨err.getD operation_aborted, rfl, fun _ => rfl⟩
    | false =>
      obtain ⟨hnone, hzero⟩ := hmay.2.resolve_left Bool.false_ne_true
      obtain ⟨e, rfl⟩ := Option.ne_none_iff_exists'.mp hnone
      simp only [Bool.false_eq_true, if_false, hop]
      exact ⟨e, rfl, fun h => absurd (congrArg some h) hzero⟩

theorem operation_handleDisconnect (shuts : Bool) (t : Transport) {o : Operation}
    {err : Option ℤ} (h : t.operation = some (o, err)) :
    ∃ err', (handleDisconnect shuts t).operation = some (o, err') := by
  unfold handleDisconnect
  simp only
  split
  · split
    · exact ⟨_, close_operation _ (close_operation t h)⟩
    · exact ⟨_, close_operation t h⟩
  · split
    · exact ⟨_, close_operation t h⟩
    · exact ⟨err, h⟩

theorem good_disconnect {shuts : Bool} {t : Transport} (h : Good t)
    (hmay : MayDisconnect shuts t) : Good (handleDisconnect shuts t.note) := by
  obtain ⟨hmessages, hoperation, hconnecting, hconnected, -⟩ := note_frame t
  obtain ⟨hmessages', hdisconnected, -, hconnecting', hconnected'⟩ :=
    handleDisconnect_frame shuts t.note
  have hphase : Phase t.note := by
    refine ⟨fun o err heq hne => ?_, fun err heq => ?_, fun heq hc => ?_⟩
    · rw [hconnecting, hconnected]
      exact h.phase.begun o err (hoperation ▸ heq) hne
    · obtain ⟨hnot, hyes⟩ := h.phase.reading err (hoperation ▸ heq)
      rw [hconnecting, hconnected]
      refine ⟨hnot, fun hnone => hyes ?_⟩
      rw [Transport.note] at hnone
      split at hnone
      · cases hnone
      · exact hnone
    · rw [hmessages]
      exact h.phase.ended (hoperation ▸ heq) (hconnected ▸ hc)
  have hkind {o : Operation} {err : Option ℤ}
      (heq : (handleDisconnect shuts t.note).operation = some (o, err)) :
      ∃ err', t.operation = some (o, err') := by
    cases hop : t.note.operation with
    | none =>
      rw [handleDisconnect_none shuts hop] at heq
      cases heq
    | some p =>
      obtain ⟨err', herr⟩ := operation_handleDisconnect shuts t.note hop
      rw [herr] at heq
      obtain ⟨rfl, -⟩ := Prod.mk.inj (Option.some.inj heq)
      exact ⟨p.2, hoperation ▸ hop⟩
  refine ⟨⟨fun o err heq hne => ?_, fun err heq => ?_, fun _ hc => ?_⟩, fun n hn => ?_⟩
  · obtain ⟨err', hop⟩ := hkind heq
    obtain ⟨hyes, -⟩ := h.phase.begun o err' hop hne
    exact ⟨hconnecting'.trans (hconnecting.trans hyes), hconnected'⟩
  · obtain ⟨err', hop⟩ := hkind heq
    obtain ⟨hnot, -⟩ := h.phase.reading err' hop
    refine ⟨hconnecting'.trans (hconnecting.trans hnot), fun hnone => ?_⟩
    rw [hdisconnected, Transport.note] at hnone
    split at hnone
    · cases hnone
    · next hnot => exact absurd ⟨hnone, .inl (by rw [hop]; nofun)⟩ hnot
  · rw [hconnected'] at hc
    cases hc
  · rw [hdisconnected] at hn
    have hmay' : MayDisconnect shuts t.note := by
      unfold MayDisconnect at hmay ⊢
      rw [hoperation, hconnected]
      exact hmay
    rw [Transport.note] at hn
    split at hn
    · next hnote =>
      -- it is disconnected for the first time
      obtain rfl := Option.some.inj hn
      refine ⟨?_, hconnected', ?_, ends_handleDisconnect hphase hmay' fun hop => ?_⟩
      · rw [hmessages', hmessages]
      · rw [hmessages', hmessages, List.drop_length]
        exact List.not_mem_nil
      · rw [hmessages]
        rw [hoperation] at hop
        exact h.phase.ended hop (hnote.2.resolve_left fun hne => hne hop)
    · have hfinal := h.final n hn
      refine ⟨?_, hconnected', ?_, ends_handleDisconnect hphase hmay' fun hop => ?_⟩
      · rw [hmessages', hmessages]
        exact hfinal.within
      · rw [hmessages', hmessages]
        exact hfinal.notAnnounced
      · have hends := hfinal.ends
        rw [Ends, ← hoperation, hop] at hends
        rw [hmessages]
        exact hends

/-! ### Runs -/

/-- What holds while the directives come in the right phases: only the transport of the connection
does anything, only it is registered, and only it has a `DisconnectedEvent` waiting. -/
structure Inv (s : State) : Prop where
  defined : s.defined = true
  good : ∀ i, Good (s.transports i)
  busy : ∀ i, (s.transports i).operation ≠ none →
    s.pTransport = some i ∧ (s.transports i).deleted = false
  queue : ∀ i ∈ s.queue,
    (s.transports i).operation = none ∧ ∀ j, s.pTransport = some j → i = j
  registered : s.m_Transports = [] ∨ ∃ i, s.m_Transports = [i] ∧ s.pTransport = some i ∧
    ((s.transports i).operation ≠ none ∨ i ∈ s.queue)

theorem Inv.right {s : State} (h : Inv s) : Right s where
  defined := h.defined
  notConnected i n hn := ((h.good i).final n hn).notConnected
  notAnnounced i n hn := ((h.good i).final n hn).notAnnounced
  queued i n hn := queued_of_final ((h.good i).final n hn)
  removed i n _ hop hqueue hmem := by
    rcases h.registered with hnil | ⟨j, hj, -, hbusy⟩
    · rw [hnil] at hmem
      exact List.not_mem_nil hmem
    · rw [hj, List.mem_singleton] at hmem
      subst hmem
      rcases hbusy with hne | hin
      · exact hne hop
      · exact hqueue hin

theorem good_set {s : State} (h : ∀ i, Good (s.transports i)) {i : ℕ} {t : Transport}
    (ht : Good t) (j : ℕ) : Good ((s.set i t).transports j) := by
  show Good (Function.update s.transports i t j)
  rw [Function.update_apply]
  split
  · exact ht
  · exact h j

theorem transports_set (s : State) (i : ℕ) (t : Transport) : (s.set i t).transports i = t :=
  Function.update_self _ _ _

theorem transports_set_ne (s : State) {i j : ℕ} (h : j ≠ i) (t : Transport) :
    (s.set i t).transports j = s.transports j := Function.update_of_ne h _ _

/-- The transport of the connection is changed, and is still busy if it was. -/
theorem inv_set {s : State} (h : Inv s) {i : ℕ} {t : Transport} (ht : Good t)
    (hdeleted : t.deleted = (s.transports i).deleted)
    (hop : t.operation = none ↔ (s.transports i).operation = none) : Inv (s.set i t) := by
  have hsame (j : ℕ) : ((s.set i t).transports j).operation = none ↔
      (s.transports j).operation = none := by
    by_cases hj : j = i
    · rw [hj, transports_set]
      exact hop
    · rw [transports_set_ne s hj]
  refine ⟨h.defined, good_set h.good ht, fun j hj => ?_, fun j hj => ?_, ?_⟩
  · obtain ⟨hcurrent, hkept⟩ := h.busy j (mt (hsame j).mpr hj)
    refine ⟨hcurrent, ?_⟩
    by_cases hji : j = i
    · rw [hji, transports_set, hdeleted, ← hji]
      exact hkept
    · rw [transports_set_ne s hji]
      exact hkept
  · obtain ⟨hnone, hcurrent⟩ := h.queue j hj
    exact ⟨(hsame j).mpr hnone, hcurrent⟩
  · rcases h.registered with hnil | ⟨j, hj, hcurrent, hbusy⟩
    · exact .inl hnil
    · exact .inr ⟨j, hj, hcurrent, hbusy.imp_left (mt (hsame j).mp)⟩

/-- The transport of the connection is deleted while it does nothing. -/
theorem inv_remove {s : State} (h : Inv s) {i : ℕ} (hcurrent : s.pTransport = some i)
    (hop : (s.transports i).operation = none) : Inv (s.remove i) := by
  have hgood : Good { s.transports i with deleted := true } :=
    ⟨⟨(h.good i).phase.begun, (h.good i).phase.reading, (h.good i).phase.ended⟩,
      fun n hn => ⟨((h.good i).final n hn).within, ((h.good i).final n hn).notConnected,
        ((h.good i).final n hn).notAnnounced, ((h.good i).final n hn).ends⟩⟩
  have hidle (j : ℕ) : ((s.remove i).transports j).operation = none := by
    show (Function.update s.transports i _ j).operation = none
    by_cases hji : j = i
    · rw [hji, Function.update_self]
      exact hop
    · rw [Function.update_of_ne hji]
      by_contra hne
      obtain ⟨hj, -⟩ := h.busy j hne
      exact hji (Option.some.inj (hj.symm.trans hcurrent))
  refine ⟨h.defined, good_set h.good hgood, fun j hj => absurd (hidle j) hj,
    fun j _ => ⟨hidle j, nofun⟩, .inl ?_⟩
  show s.m_Transports.erase i = []
  rcases h.registered with hnil | ⟨j, hj, hj', -⟩
  · rw [hnil]
    rfl
  · obtain rfl := Option.some.inj (hj'.symm.trans hcurrent)
    rw [hj, List.erase_cons_head]

theorem inv_connect {s : State} (h : Inv s) {resolves : Bool}
    (hmeets : Meets s (.connect resolves)) : Inv (step s (.connect resolves)) := by
  rw [step]
  split
  · exact h
  · next hnot =>
    have hmay : MayConnect s := by
      refine hmeets.resolve_left ?_
      rintro ⟨i, hi, hconnected⟩
      rw [hi, Option.any_some] at hnot
      exact hnot hconnected
    -- no operation is left of a transport before
    have hidle (j : ℕ) : (s.transports j).operation = none := by
      by_contra hne
      exact hne (hmay.2 j (h.busy j hne).1)
    have hnil : s.m_Transports = [] := by
      rcases h.registered with hnil | ⟨i, -, -, hbusy | hin⟩
      · exact hnil
      · exact absurd (hidle i) hbusy
      · rw [hmay.1] at hin
        exact absurd hin List.not_mem_nil
    have hqueue {Q : ℕ → Prop} : ∀ i ∈ s.queue, Q i := by
      rw [hmay.1]
      exact List.forall_mem_nil _
    split
    · -- the new transport resolves the name
      have hnew : Good { m_bConnecting := true, operation := some (.resolve, none) } := by
        refine ⟨⟨fun _ _ _ _ => ⟨rfl, rfl⟩, fun err hread => ?_, nofun⟩, fun n => nofun⟩
        cases hread
      refine ⟨h.defined, good_set h.good hnew, fun j hj => ?_, hqueue, .inr ⟨s.made, ?_, rfl, ?_⟩⟩
      · by_cases hji : j = s.made
        · subst hji
          exact ⟨rfl, congrArg Transport.deleted (transports_set s _ _)⟩
        · exact absurd ((congrArg Transport.operation (transports_set_ne s hji _)).trans (hidle j))
            hj
      · show s.m_Transports ++ [s.made] = [s.made]
        rw [hnil]
        rfl
      · refine .inl ?_
        show ((s.set s.made _).transports s.made).operation ≠ none
        rw [transports_set]
        nofun
    · -- the name does not resolve, and the transport is taken out at once
      have hnew : Good { messages := [.onConnect (-1)] } :=
        ⟨⟨nofun, nofun, fun _ => nofun⟩, fun n => nofun⟩
      refine ⟨h.defined, good_set h.good hnew, fun j hj => ?_, hqueue, .inl ?_⟩
      · refine absurd ?_ hj
        show ((s.set s.made _).transports j).operation = none
        by_cases hji : j = s.made
        · rw [hji, transports_set]
        · rw [transports_set_ne s hji]
          exact hidle j
      · show (s.m_Transports ++ [s.made]).erase s.made = []
        rw [hnil, List.nil_append, List.erase_cons_head]

theorem inv_disconnect {s : State} (h : Inv s) {shuts : Bool}
    (hmeets : Meets s (.disconnect shuts)) : Inv (step s (.disconnect shuts)) := by
  rw [step]
  split
  · exact h
  · next i hcurrent =>
    have hmay := hmeets i hcurrent
    obtain ⟨-, hoperation, -, -, hdeleted⟩ := note_frame (s.transports i)
    have hop : (handleDisconnect shuts (s.transports i).note).operation = none ↔
        (s.transports i).operation = none := by
      rw [← hoperation]
      refine ⟨fun hnone => ?_, handleDisconnect_none shuts⟩
      by_contra hne
      obtain ⟨p, hp⟩ := Option.ne_none_iff_exists'.mp hne
      obtain ⟨err, herr⟩ := operation_handleDisconnect shuts (s.transports i).note hp
      rw [herr] at hnone
      cases hnone
    have hset : Inv (s.set i (handleDisconnect shuts (s.transports i).note)) :=
      inv_set h (good_disconnect (h.good i) hmay)
        ((handleDisconnect_frame shuts _).2.2.1.trans hdeleted) hop
    simp only
    split
    · exact hset
    · next hsync =>
      refine inv_remove hset hcurrent ?_
      rw [transports_set, hop]
      simp only [Transport.AsyncDisconnect, Bool.or_eq_true, not_or, Bool.not_eq_true] at hsync
      by_contra hne
      obtain ⟨⟨o, err⟩, hbusy⟩ := Option.ne_none_iff_exists'.mp hne
      by_cases hread : o = .read
      · subst hread
        rw [MayDisconnect, hbusy] at hmay
        exact Bool.false_ne_true (hsync.1.symm.trans hmay.1)
      · have hbegun := (h.good i).phase.begun o err hbusy hread
        exact Bool.false_ne_true (hsync.2.symm.trans hbegun.1)

theorem inv_handle {s : State} (h : Inv s) (i : ℕ) : Inv (step s (.handle i)) := by
  rw [step]
  split
  · next o err hop =>
    obtain ⟨hcurrent, hdeleted⟩ := h.busy i (by rw [hop]; nofun)
    obtain ⟨-, hkept⟩ := due_frame (s.transports i)
    rw [hdeleted, if_neg Bool.false_ne_true]
    simp only
    rcases due_operation hop with ⟨hended, hevent⟩ | ⟨hbegun, hnone⟩
    · rw [hevent]
      have hidle (j : ℕ) : ((s.set i (s.transports i).handle).transports j).operation = none := by
        by_cases hji : j = i
        · rw [hji, transports_set]
          exact hended
        · rw [transports_set_ne s hji]
          by_contra hne
          exact hji (Option.some.inj ((h.busy j hne).1.symm.trans hcurrent))
      refine ⟨h.defined, good_set h.good (good_handle (h.good i)),
        fun j hj => absurd (hidle j) hj, fun j hj => ⟨hidle j, ?_⟩, ?_⟩
      · rcases List.mem_append.mp hj with hold | hnew
        · exact (h.queue j hold).2
        · rw [List.map_cons, List.map_nil, List.mem_singleton] at hnew
          subst hnew
          exact fun k hk => Option.some.inj (hcurrent.symm.trans hk)
      · rcases h.registered with hnil | ⟨j, hj, hj', -⟩
        · exact .inl hnil
        · obtain rfl := Option.some.inj (hj'.symm.trans hcurrent)
          exact .inr ⟨j, hj, hj', .inr (List.mem_append_right _ List.mem_cons_self)⟩
    · rw [hnone, List.map_nil, List.append_nil]
      refine inv_set h (good_handle (h.good i)) hkept (iff_of_false hbegun ?_)
      rw [hop]
      nofun
  · exact h

theorem inv_step {s : State} (h : Inv s) {e : Event} (hmeets : Meets s e) : Inv (step s e) := by
  cases e with
  | connect resolves => exact inv_connect h hmeets
  | disconnect shuts => exact inv_disconnect h hmeets
  | complete i err =>
    rw [step]
    split
    · next o hop =>
      refine inv_set h (good_complete (h.good i) hop err) rfl (iff_of_false nofun ?_)
      rw [hop]
      nofun
    · exact h
  | handle i => exact inv_handle h i
  | disconnectedEvent =>
    rw [step]
    split
    · exact h
    · next i queue hqueue =>
      have hrest : ∀ j ∈ queue, j ∈ s.queue := fun j hj => hqueue ▸ List.mem_cons_of_mem i hj
      split
      · next hnone =>
        refine ⟨h.defined, h.good, h.busy, fun j hj => h.queue j (hrest j hj), ?_⟩
        rcases h.registered with hnil | ⟨j, -, hj, -⟩
        · exact .inl hnil
        · rw [hnone] at hj
          cases hj
      · next j hcurrent =>
        have hfirst := h.queue i (hqueue ▸ List.mem_cons_self)
        obtain rfl := hfirst.2 j hcurrent
        have hremove := inv_remove h hcurrent hfirst.1
        refine ⟨hremove.defined, hremove.good, hremove.busy,
          fun k hk => hremove.queue k (hrest k hk), ?_⟩
        rcases hremove.registered with hnil | ⟨k, -, hk, -⟩
        · exact .inl hnil
        · cases hk

/-- **A transport that was disconnected does not connect and goes**, in every state of every run
of the directives, completions and handlers, if the directives come in the phases of `Meets`. -/
theorem right_of_meets {es : List Event} (h : Transition.Throughout step Meets {} es) :
    ∀ done, done <+: es → Right (done.foldl step {}) := by
  have hstart : Inv {} := by
    refine ⟨rfl, fun i => ⟨⟨nofun, nofun, fun _ => nofun⟩, fun n => nofun⟩, fun i hi => ?_,
      List.forall_mem_nil _, .inl rfl⟩
    exact absurd rfl hi
  have hstep (s : State) (e : Event) (hI : Inv s) (hP : Meets s e) : Inv (step s e) :=
    inv_step hI hP
  intro done hdone
  exact (Transition.throughout_invariant hstep hstart h done hdone).right

/-- A connection that is disconnected while it connects, and after it has connected again. -/
theorem right_of_meets_twice :
    Right ([Event.connect true, .complete 0 0, .handle 0, .disconnect true, .handle 0,
      .disconnectedEvent, .connect true, .complete 1 0, .handle 1, .complete 1 0, .handle 1,
      .disconnect true, .handle 1, .disconnectedEvent].foldl step {}) :=
  right_of_meets (by decide) _ (List.prefix_refl _)

/-- A connection that is disconnected at once, before its name is resolved, and connects. -/
theorem connected_afterwards :
    (([Event.connect true, .disconnect true, .complete 0 0, .handle 0, .complete 0 0,
        .handle 0].foldl step {}).transports 0).m_bConnected = true ∧
      ¬ ∀ es : List Event, Right (es.foldl step {}) := by
  have hconnected : (([Event.connect true, .disconnect true, .complete 0 0, .handle 0,
      .complete 0 0, .handle 0].foldl step {}).transports 0).m_bConnected = true := by decide
  refine ⟨hconnected, fun h => ?_⟩
  rw [(h _).notConnected 0 0 (by decide)] at hconnected
  cases hconnected

/-! ### While it resolves -/

theorem complete_transports {s : State} {i : ℕ} {o : Operation}
    (h : (s.transports i).operation = some (o, none)) (err : ℤ) :
    (step s (.complete i err)).transports i =
      { s.transports i with operation := some (o, some err) } := by
  simp only [step, h, transports_set]

theorem handle_transports {s : State} {i : ℕ} {o : Operation} {err : ℤ}
    (h : (s.transports i).operation = some (o, some err))
    (hlive : (s.transports i).deleted = false) :
    (step s (.handle i)).transports i = (s.transports i).handle := by
  simp only [step, h, hlive, Bool.false_eq_true, if_false]
  exact transports_set s i _

/-- **A transport that is disconnected while it resolves may always connect**: the name is
resolved, and the connect succeeds. -/
theorem resolving_connects {s : State} {i : ℕ} (hcurrent : s.pTransport = some i)
    (hphase : Phase (s.transports i)) (hop : (s.transports i).operation = some (.resolve, none))
    (hlive : (s.transports i).deleted = false) (shuts : Bool) :
    ¬ Right ([Event.disconnect shuts, .complete i 0, .handle i, .complete i 0, .handle i].foldl
      step s) := by
  obtain ⟨hconnecting, hconnected⟩ := hphase.begun _ _ hop nofun
  obtain ⟨-, hoperation, hconnecting', hconnected', hdeleted⟩ := note_frame (s.transports i)
  have hnoted : (s.transports i).note.disconnected ≠ none := by
    unfold Transport.note
    split
    · nofun
    · next hnot => exact fun hnone => hnot ⟨hnone, .inl (by rw [hop]; nofun)⟩
  obtain ⟨n, hn⟩ := Option.ne_none_iff_exists'.mp hnoted
  -- the disconnect leaves the resolver alone
  have h₁ : (step s (.disconnect shuts)).transports i = (s.transports i).note.close := by
    have hasync : (s.transports i).AsyncDisconnect = true := by
      rw [Transport.AsyncDisconnect, hconnecting, Bool.or_true]
    simp only [step, hcurrent, hasync, if_true, transports_set]
    exact handleDisconnect_begun shuts (hconnecting'.trans hconnecting)
      (hconnected'.trans hconnected)
  have hop₁ := close_operation _ (hoperation.trans hop)
  rw [← h₁] at hop₁
  have h₂ := complete_transports hop₁ 0
  have h₃ := handle_transports (congrArg Transport.operation h₂) (by
    rw [h₂, h₁]
    exact hdeleted.trans hlive)
  rw [h₂, Transport.handle, due_of_operation rfl, handler, if_pos rfl] at h₃
  have h₄ := complete_transports (congrArg Transport.operation h₃) 0
  have h₅ := handle_transports (congrArg Transport.operation h₄) (by
    rw [h₄, h₃, h₁]
    exact hdeleted.trans hlive)
  rw [h₄, Transport.handle, due_of_operation rfl, handler, if_pos rfl, h₃, h₁] at h₅
  intro hright
  have hnot := hright.notConnected i n ((congrArg Transport.disconnected h₅).trans hn)
  exact Bool.false_ne_true (hnot.symm.trans (congrArg Transport.m_bConnected h₅))

end Domoticz.TcpDisconnect
