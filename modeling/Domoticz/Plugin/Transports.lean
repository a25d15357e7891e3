import Mathlib.Data.List.Basic
import Mathlib.Logic.Function.Basic
import Mathlib.Tactic

/-!
# A connection and its transports

A `Connection` has one transport at a time, which `ConnectionConnect` or `ConnectionListen` makes
and a disconnect deletes.  The thread of `boost::asio` runs the handlers of a transport; they put
messages into the queue of the plugin, whose loop takes them out again.  The Python code of the
plugin runs in the callbacks of the loop and calls the connection.

The two threads are mixed at every write of a handler, and wherever the loop waits for Python.
A thread that uses a transport after it was deleted ends the model.

## Main definitions

* `Transport`, `handler` — the flags of a transport, and what its handlers do.
* `Message`, `State` — the queue, the connection and the two threads.
* `Event`, `step` — what they do next.

## Main results

* `perform_frame` — what a handler leaves as it is.
-/

namespace Domoticz.Transports

/-! ### The handlers -/

/-- The classes derived from `CPluginTransport`. -/
inductive Kind
  | tcp
  | tls
  | udp
  | icmp
  | serial
  deriving DecidableEq, Repr

/-- The transports that connect. -/
def Kind.connects : Kind → Bool
  | .tcp | .tls | .serial => true
  | _ => false

/-- The transports that listen. -/
def Kind.listens : Kind → Bool
  | .serial => false
  | _ => true

/-- What was begun and calls a handler in the end. -/
inductive Operation
  | resolve
  | connect
  | accept
  | read
  /-- `m_Timer->async_wait`. -/
  | wait
  deriving DecidableEq, Repr

/-- How it ended. -/
inductive Outcome
  | success
  | failure
  /-- It is of no use: `handshake` throws, or a packet comes from another address. -/
  | useless
  deriving DecidableEq, Repr

/-- What a handler does, one after the other. -/
inductive Action
  /-- `MessagePlugin(new onConnectCallback(..))`. -/
  | onConnect
  | onTimeout
  /-- `MessagePlugin(new ReadEvent(..))`. -/
  | read
  /-- `MessagePlugin(new DisconnectedEvent(.., bNotifyPlugin))`. -/
  | disconnected (bNotifyPlugin : Bool)
  /-- `MessagePlugin(new DisconnectDirective(..))`. -/
  | disconnect
  | setConnected (value : Bool)
  | setConnecting (value : Bool)
  | start (o : Operation)
  | configureTimeout
  /-- The end of `CPluginTransportUDP::handleRead`. -/
  | listenAgain
  /-- Another member is written. -/
  | write
  deriving DecidableEq, Repr

/-- `handleAsyncResolve`, `handleAsyncConnect`, `handleAsyncAccept`, `handleRead` and
`handleTimeout`. -/
def handler (kind : Kind) : Operation → Outcome → List Action
  | .resolve, .success =>
      match kind with
      | .icmp =>
          -- the timer is set by `handleWrite`
          [.setConnected true, .start .wait, .start .read, .configureTimeout, .setConnecting false]
      | _ => [.start .connect]
  | .resolve, _ =>
      match kind with
      | .icmp => [.disconnected true, .setConnecting false]
      | _ => [.setConnecting false, .onConnect, .disconnected true]
  | .connect, outcome =>
      match kind, outcome with
      | .tls, .success => [.setConnected true, .onConnect, .write, .start .read,
          .configureTimeout, .setConnecting false]
      | .tls, .useless => [.disconnected true, .setConnecting false]
      | .tls, .failure => [.setConnected false, .onConnect, .disconnected true,
          .setConnecting false]
      | _, .success => [.onConnect, .setConnected true, .write, .start .read,
          .configureTimeout, .setConnecting false]
      | _, _ => [.onConnect, .setConnected false, .disconnected true, .setConnecting false]
  -- the new connection is another one
  | .accept, .success => [.write, .start .accept, .setConnecting true]
  | .accept, _ => [.write, .disconnected true, .write]
  | .read, .success =>
      match kind with
      | .udp => [.write, .listenAgain, .write]
      | .icmp => [.read, .write, .start .read]
      | _ => [.read, .write, .start .read, .configureTimeout]
  | .read, outcome =>
      match kind, outcome with
      | .icmp, .useless => [.start .read]
      | .udp, _ | .icmp, _ => [.disconnected false, .write]
      -- `AsyncSerial::readEnd` closes the port and tells nobody
      | .serial, _ => []
      | _, _ => [.disconnected true, .write]
  | .wait, .success =>
      match kind with
      | .icmp => [.read, .disconnect]
      | _ => [.onTimeout, .configureTimeout]
  | .wait, _ => []

/-- A transport. -/
structure Transport where
  kind : Kind
  /-- The number of the call that asked for it. -/
  session : ℕ
  m_bConnecting : Bool := false
  m_bConnected : Bool := false
  /-- What was begun and has not ended. -/
  operations : List Operation := []
  deleted : Bool := false
  deriving DecidableEq, Repr

/-- `AsyncDisconnect`. -/
def Transport.AsyncDisconnect (t : Transport) : Bool :=
  t.kind != .serial && (t.m_bConnected || t.m_bConnecting)

/-- What a handler turns to behind an action.  The end of `CPluginTransportUDP::handleRead` asks
whether it is connected; `handleListen` writes that again. -/
def Action.next (x : Transport) : Action → List Action
  | .listenAgain =>
      if x.m_bConnected then [.start .read, .setConnected true] else [.disconnected false]
  | _ => []

/-! ### The messages -/

/-- The callbacks of a connection. -/
inductive Callback
  | onConnect
  | onMessage
  | onTimeout
  | onDisconnect
  deriving DecidableEq, Repr

/-- A message for the connection, or any other one.  Numbers say for which transport or session
it was made; the code does not keep them. -/
inductive Message (T : Type)
  | connect (session : ℕ)
  | listen (session : ℕ)
  | disconnect
  | disconnected (transport : ℕ) (bNotifyPlugin : Bool)
  | read (transport : ℕ)
  | write
  | callback (c : Callback) (session : ℕ) (m_Target : Option T)
  | other
  deriving DecidableEq, Repr

/-- Where the loop of the plugin is. -/
inductive Loop
  | idle
  /-- In `ConnectionConnect` or `ConnectionListen`, after an operation was begun. -/
  | starting (transport : ℕ) (a : Action)
  /-- In Python, called by a callback of the connection or by something else. -/
  | python (c : Option Callback)
  deriving DecidableEq, Repr

/-- How the model ends. -/
inductive Crash
  /-- A transport is used that was deleted. -/
  | dangling
  /-- A transport or a target is used that is not there. -/
  | null
  deriving DecidableEq, Repr

/-- A call of `Connect` or `Listen` that was accepted. -/
structure Session (T : Type) where
  Target : T
  connects : Bool
  deriving DecidableEq, Repr

/-- A connection of a plugin, with targets `T`. -/
structure State (T : Type) where
  pTransport : Option ℕ
  Target : Option T
  /-- Whether `Timeout` is not zero. -/
  Timeout : Bool
  m_Transports : List ℕ
  m_MessageQueue : List (Message T)
  loop : Loop
  /-- The transport whose handler runs, and what is left of it. -/
  asio : Option (ℕ × List Action)
  /-- The transports that were made, the first `made` of them. -/
  transports : ℕ → Transport
  made : ℕ
  /-- The calls that were accepted. -/
  sessions : List (Session T)
  /-- The sessions whose `onDisconnect` was called. -/
  reported : List ℕ
  /-- The transports that were found by `RemoveConnection`. -/
  removed : List ℕ
  /-- The `onDisconnectCallback`s since the last `ConnectionConnect` or `ConnectionListen`. -/
  notices : ℕ
  crash : Option Crash

variable {T : Type}

namespace State

/-- `MessagePlugin`. -/
def post (s : State T) (m : Message T) : State T :=
  { s with m_MessageQueue := s.m_MessageQueue ++ [m] }

/-- The state with another transport `t`. -/
def setTransport (s : State T) (t : ℕ) (x : Transport) : State T :=
  { s with transports := Function.update s.transports t x }

/-- A transport is used. -/
def use (s : State T) (t : ℕ) : State T :=
  if (s.transports t).deleted then { s with crash := some .dangling } else s

/-- The session that messages are for. -/
def session (s : State T) : ℕ :=
  match s.pTransport with
  | some t => (s.transports t).session
  | none => s.sessions.length - 1

/-- A callback is made for a session; it keeps the target. -/
def postCallback (s : State T) (c : Callback) (session : ℕ) : State T :=
  s.post (.callback c session s.Target)

/-- `MessagePlugin(new onDisconnectCallback(..))`. -/
def postDisconnect (s : State T) (session : ℕ) : State T :=
  { s.postCallback .onDisconnect session with notices := s.notices + 1 }

/-- `RemoveConnection`. -/
def RemoveConnection (s : State T) (t : ℕ) : State T :=
  if t ∈ s.m_Transports then
    { s with m_Transports := s.m_Transports.erase t, removed := s.removed ++ [t] }
  else s

/-- `delete pConnection->pTransport`, with `pTransport = NULL`. -/
def deleteTransport (s : State T) (t : ℕ) : State T :=
  { s.setTransport t { s.transports t with deleted := true } with pTransport := none }

/-! ### The other thread -/

/-- An operation is begun. -/
def start (s : State T) (t : ℕ) (o : Operation) : State T :=
  s.setTransport t
    { s.transports t with operations := (s.transports t).operations ++ [o] }

/-- An action on a transport. -/
def perform (s : State T) (t : ℕ) : Action → State T
  | .onConnect => s.postCallback .onConnect (s.transports t).session
  | .onTimeout => s.postCallback .onTimeout (s.transports t).session
  | .read => s.post (.read t)
  | .disconnected bNotifyPlugin => s.post (.disconnected t bNotifyPlugin)
  | .disconnect => s.post .disconnect
  | .setConnected value => s.setTransport t { s.transports t with m_bConnected := value }
  | .setConnecting value => s.setTransport t { s.transports t with m_bConnecting := value }
  | .start o => s.start t o
  | .configureTimeout => if s.Timeout then s.start t .wait else s
  | .listenAgain | .write => s

/-- The thread of `boost::asio` calls a handler. -/
def complete (s : State T) (t : ℕ) (o : Operation) (outcome : Outcome) : State T :=
  match s.asio with
  | some _ => s
  | none =>
      if t < s.made ∧ o ∈ (s.transports t).operations then
        { s.setTransport t { s.transports t with operations := (s.transports t).operations.erase o }
            with asio := some (t, handler (s.transports t).kind o outcome) }.use t
      else s

/-- The handler goes on. -/
def asioStep (s : State T) : State T :=
  match s.asio with
  | none => s
  | some (_, []) => { s with asio := none }
  | some (t, a :: rest) =>
      { (s.use t).perform t a with asio := some (t, a.next (s.transports t) ++ rest) }

/-! ### The loop of the plugin -/

/-- What the outside decides when a message is processed. -/
structure Choice where
  /-- What `Transport`, `Address` and `Port` of the connection stand for, if for anything. -/
  kind : Option Kind
  /-- Whether `handleConnect` or `handleListen` succeeds, or a serial port is open. -/
  succeeds : Bool
  /-- The messages that the protocol makes of its data. -/
  messages : ℕ
  /-- The protocol finds that it is violated. -/
  violated : Bool
  deriving DecidableEq, Repr

/-- The protocol makes messages. -/
def postMessages (s : State T) (session : ℕ) : ℕ → State T
  | 0 => s
  | n + 1 => (s.postCallback .onMessage session).postMessages session n

/-- `pTransport` is set to a new transport, which `AddConnection` appends to the list. -/
def makeTransport (s : State T) (kind : Kind) (session : ℕ) : State T :=
  { s.setTransport s.made { kind, session } with
    pTransport := some s.made
    m_Transports := s.m_Transports ++ [s.made]
    made := s.made + 1 }

/-- `handleConnect`, of the transport that was just made. -/
def handleConnect (s : State T) (t : ℕ) (succeeds : Bool) : State T :=
  if succeeds then
    match (s.transports t).kind with
    | .serial =>
        let s := s.setTransport t { s.transports t with m_bConnected := true }
        ((s.perform t .onConnect).start t .read).perform t .configureTimeout
    | _ => { s.start t .resolve with loop := .starting t (.setConnecting true) }
  else (s.perform t .onConnect).RemoveConnection t

/-- `handleListen`.  That of ICMP says that it connects before it fails. -/
def handleListen (s : State T) (t : ℕ) (succeeds : Bool) : State T :=
  if succeeds then
    match (s.transports t).kind with
    | .udp => { s.start t .read with loop := .starting t (.setConnected true) }
    | .icmp => (s.perform t (.setConnecting true)).start t .resolve
    | _ => { s.start t .accept with loop := .starting t (.setConnecting true) }
  else
    match (s.transports t).kind with
    | .icmp => ((s.perform t (.setConnecting true)).perform t .onConnect).RemoveConnection t
    | _ => (s.perform t .onConnect).RemoveConnection t

/-- Whether `pConnection->pTransport` is there and connected. -/
def connected (s : State T) : Bool :=
  s.pTransport.any fun t => (s.transports t).m_bConnected

/-- `ConnectionConnect`. -/
def ConnectionConnect (s : State T) (session : ℕ) (c : Choice) : State T :=
  let s := { s with notices := 0 }
  if s.connected then s
  else
    match c.kind with
    | some .udp | some .icmp | none => s
    | some kind => (s.makeTransport kind session).handleConnect s.made c.succeeds

/-- `ConnectionListen`. -/
def ConnectionListen (s : State T) (session : ℕ) (c : Choice) : State T :=
  let s := { s with notices := 0 }
  if s.connected then s
  else
    match c.kind with
    | some .serial | none => s
    | some kind => (s.makeTransport kind session).handleListen s.made c.succeeds

/-- `handleDisconnect`; of a serial port it also ends the reads and tells the plugin. -/
def handleDisconnect (s : State T) (t : ℕ) (isOpen : Bool) : State T :=
  let x := s.transports t
  match x.kind with
  | .icmp => s
  | .serial =>
      if x.m_bConnected then
        if isOpen then
          let operations := x.operations.filter (· ≠ .read)
          (s.setTransport t { x with m_bConnected := false, operations }).postDisconnect x.session
        else s.setTransport t { x with m_bConnected := false }
      else s
  | _ => s.setTransport t { x with m_bConnected := false }

/-- `ConnectionDisconnect`. -/
def ConnectionDisconnect (s : State T) (c : Choice) : State T :=
  let s := s.postMessages s.session c.messages
  match s.pTransport with
  | none => s
  | some t =>
      if (s.transports t).AsyncDisconnect then s.handleDisconnect t c.succeeds
      else ((s.handleDisconnect t c.succeeds).RemoveConnection t).deleteTransport t

/-- `DisconnectEvent`. -/
def DisconnectEvent (s : State T) (bNotifyPlugin : Bool) (c : Choice) : State T :=
  let s := s.postMessages s.session c.messages
  match s.pTransport with
  | none => s
  | some t =>
      let session := (s.transports t).session
      let s := (s.RemoveConnection t).deleteTransport t
      if bNotifyPlugin then s.postDisconnect session else { s with Target := none }

/-- `ConnectionRead`, of a read of a transport.  `Target` is asked for its `Debugging`. -/
def ConnectionRead (s : State T) (t : ℕ) (c : Choice) : State T :=
  match s.Target with
  | none => { s with crash := some .null }
  | some _ =>
      let s := s.postMessages (s.transports t).session c.messages
      if c.violated then s.post (.disconnected t true) else s

/-- `ConnectionWrite`.  The transport of a single UDP packet is made and deleted in here. -/
def ConnectionWrite (s : State T) (c : Choice) : State T :=
  match s.pTransport with
  | none => if c.kind = some .udp ∧ s.Target.isNone then { s with crash := some .null } else s
  | some t =>
      if c.kind = some .udp then s
      else if c.kind ≠ some .icmp ∧ (s.transports t).m_bConnected = false then s
      else if s.Target.isNone then { s with crash := some .null }
      else
        match (s.transports t).kind with
        | .icmp => s.start t .wait
        | _ => s

/-- `ProcessLocked` of the callbacks, up to Python. -/
def callBack (s : State T) (c : Callback) (session : ℕ) (m_Target : Option T) : State T :=
  match m_Target with
  | none => s
  | some _ =>
      { s with
        loop := .python (some c)
        reported := if c = .onDisconnect then s.reported ++ [session] else s.reported }

/-- `Message->Process()`. -/
def process (s : State T) (c : Choice) : Message T → State T
  | .connect session => s.ConnectionConnect session c
  | .listen session => s.ConnectionListen session c
  | .disconnect => s.ConnectionDisconnect c
  | .disconnected _ bNotifyPlugin => s.DisconnectEvent bNotifyPlugin c
  | .read t => s.ConnectionRead t c
  | .write => s.ConnectionWrite c
  | .callback callback session m_Target => s.callBack callback session m_Target
  | .other => { s with loop := .python none }

/-- The loop goes on; Python does not. -/
def work (s : State T) (c : Choice) : State T :=
  match s.loop with
  | .idle =>
      match s.m_MessageQueue with
      | [] => s
      | m :: rest => { s with m_MessageQueue := rest }.process c m
  | .starting t a => { (s.use t).perform t a with loop := .idle }
  | .python _ => s

/-- The end of `ProcessLocked`, behind the callback. -/
def returned (s : State T) : State T :=
  match s.loop with
  | .python (some .onConnect) =>
      match s.pTransport with
      | none => { s with crash := some .null }
      | some t =>
          let s := { s.use t with loop := .idle }
          if (s.transports t).m_bConnected then s else { s with Target := none }
  | .python (some .onDisconnect) => { s with loop := .idle, Target := none }
  | .python _ => { s with loop := .idle }
  | _ => s

/-! ### Python -/

/-- A call of the connection. -/
inductive Call (T : Type)
  | connect (target : T)
  | listen (target : T)
  | send
  | disconnect
  | setTimeout (value : Bool)
  deriving DecidableEq, Repr

/-- Whether `pTransport` is there and connecting or connected. -/
def busy (s : State T) : Bool :=
  s.pTransport.any fun t => (s.transports t).m_bConnecting || (s.transports t).m_bConnected

/-- A call is accepted: a session begins. -/
def accept (s : State T) (x : Session T) : State T :=
  let m : Message T := if x.connects then .connect s.sessions.length else .listen s.sessions.length
  { s.post m with Target := some x.Target, sessions := s.sessions ++ [x] }

/-- `CConnection_connect`, `CConnection_listen`, `CConnection_send` and
`CConnection_disconnect`. -/
def call (s : State T) (c : Call T) : State T :=
  match s.loop with
  | .python _ =>
      match c with
      | .connect target => if s.busy then s else s.accept ⟨target, true⟩
      | .listen target => if s.busy then s else s.accept ⟨target, false⟩
      | .send => s.post .write
      | .disconnect => if s.busy then s.post .disconnect else s
      | .setTimeout value => { s with Timeout := value }
  | _ => s

end State

open State

/-- What happens next. -/
inductive Event (T : Type)
  | complete (t : ℕ) (o : Operation) (outcome : Outcome)
  | asio
  | work (c : Choice)
  | returned
  | call (c : Call T)
  /-- The loop, the stop of the plugin or another thread has a message. -/
  | post (m : Message T)
  deriving DecidableEq, Repr

/-- What others put into the queue: `VerifyConnection` and the stop sequence disconnect what is in
the list. -/
def Message.Foreign (s : State T) : Message T → Bool
  | .disconnect => !s.m_Transports.isEmpty
  | .other => true
  | _ => false

/-- What an event does; nothing where the process has ended. -/
def step (s : State T) (e : Event T) : State T :=
  if s.crash.isSome then s
  else
    match e with
    | .complete t o outcome => s.complete t o outcome
    | .asio => s.asioStep
    | .work c => s.work c
    | .returned => s.returned
    | .call c => s.call c
    | .post m => if m.Foreign s then s.post m else s

/-- A new connection. -/
def start : State T where
  pTransport := none
  Target := none
  Timeout := false
  m_Transports := []
  m_MessageQueue := []
  loop := .idle
  asio := none
  transports _ := { kind := .tcp, session := 0 }
  made := 0
  sessions := []
  reported := []
  removed := []
  notices := 0
  crash := none

/-! ### What they leave as it is -/

/-- Two states that differ in the queue and in the transports at most. -/
structure Frame (s s' : State T) : Prop where
  pTransport : s'.pTransport = s.pTransport
  Target : s'.Target = s.Target
  m_Transports : s'.m_Transports = s.m_Transports
  loop : s'.loop = s.loop
  asio : s'.asio = s.asio
  made : s'.made = s.made
  sessions : s'.sessions = s.sessions
  reported : s'.reported = s.reported
  removed : s'.removed = s.removed
  notices : s'.notices = s.notices
  crash : s'.crash = s.crash

theorem Frame.refl (s : State T) : Frame s s := by
  constructor <;> rfl

theorem Frame.trans {s s' s'' : State T} (h : Frame s s') (h' : Frame s' s'') : Frame s s'' := by
  constructor
  · rw [h'.pTransport, h.pTransport]
  · rw [h'.Target, h.Target]
  · rw [h'.m_Transports, h.m_Transports]
  · rw [h'.loop, h.loop]
  · rw [h'.asio, h.asio]
  · rw [h'.made, h.made]
  · rw [h'.sessions, h.sessions]
  · rw [h'.reported, h.reported]
  · rw [h'.removed, h.removed]
  · rw [h'.notices, h.notices]
  · rw [h'.crash, h.crash]

theorem perform_frame (s : State T) (t : ℕ) (a : Action) : Frame s (s.perform t a) := by
  cases a with
  | configureTimeout =>
    simp only [perform]
    split <;> constructor <;> rfl
  | _ => constructor <;> rfl

theorem postMessages_frame (s : State T) (session n : ℕ) :
    Frame s (s.postMessages session n) := by
  induction n generalizing s with
  | zero => exact Frame.refl s
  | succ n ih =>
    have hpost : Frame s (s.postCallback .onMessage session) := by constructor <;> rfl
    exact hpost.trans (ih _)

/-- A handler posts messages for its own transport. -/
def Message.From (s : State T) (t : ℕ) (m : Message T) : Prop :=
  m = .read t ∨ (∃ bNotifyPlugin, m = .disconnected t bNotifyPlugin) ∨ m = .disconnect ∨
    ∃ c, (c = .onConnect ∨ c = .onTimeout) ∧ m = .callback c (s.transports t).session s.Target

theorem perform_queue (s : State T) (t : ℕ) (a : Action) : ∃ ms,
    (s.perform t a).m_MessageQueue = s.m_MessageQueue ++ ms ∧ ∀ m ∈ ms, m.From s t := by
  have hpost (m : Message T) (hm : m.From s t) : ∃ ms,
      (s.post m).m_MessageQueue = s.m_MessageQueue ++ ms ∧ ∀ m ∈ ms, m.From s t :=
    ⟨[m], rfl, fun m' hm' => by rwa [List.mem_singleton.mp hm']⟩
  have hnone {s' : State T} (hs : s'.m_MessageQueue = s.m_MessageQueue) : ∃ ms,
      s'.m_MessageQueue = s.m_MessageQueue ++ ms ∧ ∀ m ∈ ms, m.From s t :=
    ⟨[], by rw [hs, List.append_nil], fun m hm => absurd hm List.not_mem_nil⟩
  cases a with
  | onConnect => exact hpost _ (.inr (.inr (.inr ⟨_, .inl rfl, rfl⟩)))
  | onTimeout => exact hpost _ (.inr (.inr (.inr ⟨_, .inr rfl, rfl⟩)))
  | read => exact hpost _ (.inl rfl)
  | disconnected bNotifyPlugin => exact hpost _ (.inr (.inl ⟨_, rfl⟩))
  | disconnect => exact hpost _ (.inr (.inr (.inl rfl)))
  | configureTimeout =>
    refine hnone ?_
    simp only [perform]
    split <;> rfl
  | _ => exact hnone rfl

/-- An action changes the flags and the operations of its own transport at most. -/
theorem perform_transports (s : State T) (t : ℕ) (a : Action) (t' : ℕ) :
    ((s.perform t a).transports t').deleted = (s.transports t').deleted ∧
      ((s.perform t a).transports t').session = (s.transports t').session ∧
      ((s.perform t a).transports t').kind = (s.transports t').kind ∧
      (t' ≠ t → (s.perform t a).transports t' = s.transports t') := by
  have hset (x : Transport) (hdeleted : x.deleted = (s.transports t).deleted)
      (hsession : x.session = (s.transports t).session) (hkind : x.kind = (s.transports t).kind) :
      ((s.setTransport t x).transports t').deleted = (s.transports t').deleted ∧
        ((s.setTransport t x).transports t').session = (s.transports t').session ∧
        ((s.setTransport t x).transports t').kind = (s.transports t').kind ∧
        (t' ≠ t → (s.setTransport t x).transports t' = s.transports t') := by
    unfold setTransport
    by_cases heq : t' = t
    · subst heq
      simp [hdeleted, hsession, hkind]
    · simp [Function.update_of_ne heq]
  have hsame : (s.transports t').deleted = (s.transports t').deleted ∧
      (s.transports t').session = (s.transports t').session ∧
      (s.transports t').kind = (s.transports t').kind ∧
      (t' ≠ t → s.transports t' = s.transports t') := ⟨rfl, rfl, rfl, fun _ => rfl⟩
  cases a with
  | setConnected value => exact hset _ rfl rfl rfl
  | setConnecting value => exact hset _ rfl rfl rfl
  | start o => exact hset _ rfl rfl rfl
  | configureTimeout =>
    simp only [perform]
    split
    · exact hset _ rfl rfl rfl
    · exact hsame
  | _ => exact hsame

theorem postMessages_transports (s : State T) (session n : ℕ) :
    (s.postMessages session n).transports = s.transports := by
  induction n generalizing s with
  | zero => rfl
  | succ n ih => exact ih _

theorem postMessages_queue (s : State T) (session n : ℕ) :
    (s.postMessages session n).m_MessageQueue =
      s.m_MessageQueue ++ List.replicate n (.callback .onMessage session s.Target) := by
  induction n generalizing s with
  | zero => exact (List.append_nil _).symm
  | succ n ih =>
    show ((s.postCallback .onMessage session).postMessages session n).m_MessageQueue = _
    rw [ih, List.replicate_succ]
    exact List.append_assoc _ [_] _

/-! ### The end of a transport -/

/-- What is outstanding of a transport; the reads of an open serial port end when it is closed. -/
def Transport.outstanding (x : Transport) (isOpen : Bool) : List Operation :=
  if x.kind = .serial ∧ x.m_bConnected = true ∧ isOpen = true then
    x.operations.filter (· ≠ .read)
  else x.operations

theorem outstanding_ne_nil {x : Transport} {isOpen : Bool} (h : x.outstanding isOpen ≠ []) :
    x.operations ≠ [] := by
  intro hnil
  apply h
  unfold Transport.outstanding
  rw [hnil]
  split <;> rfl

/-- `handleDisconnect` writes to the transport; the end of a serial port is reported. -/
theorem handleDisconnect_cases (s : State T) (t : ℕ) (isOpen : Bool) :
    ∃ x : Transport, (x.kind = (s.transports t).kind ∧ x.session = (s.transports t).session ∧
        x.deleted = (s.transports t).deleted) ∧
      x.operations = (s.transports t).outstanding isOpen ∧
      (s.handleDisconnect t isOpen = s.setTransport t x ∨
        ((s.transports t).kind = .serial ∧
          s.handleDisconnect t isOpen =
            (s.setTransport t x).postDisconnect (s.transports t).session)) := by
  have hsame : s = s.setTransport t (s.transports t) := by
    simp [State.setTransport]
  have hother (hserial : (s.transports t).kind ≠ .serial) :
      (s.transports t).operations = (s.transports t).outstanding isOpen := by
    simp [Transport.outstanding, hserial]
  unfold handleDisconnect
  simp only
  split
  · next hkind =>
    exact ⟨s.transports t, ⟨rfl, rfl, rfl⟩, hother (by simp [hkind]), .inl hsame⟩
  · next hkind =>
    split
    · next hconnected =>
      split
      · next hopen =>
        refine ⟨_, ?_, ?_, .inr ⟨hkind, rfl⟩⟩
        · exact ⟨rfl, rfl, rfl⟩
        · simp [Transport.outstanding, hkind, hconnected, hopen]
      · next hopen =>
        refine ⟨_, ?_, ?_, .inl rfl⟩
        · exact ⟨rfl, rfl, rfl⟩
        · simp [Transport.outstanding, hopen]
    · next hconnected =>
      refine ⟨s.transports t, ⟨rfl, rfl, rfl⟩, ?_, .inl hsame⟩
      simp [Transport.outstanding, hconnected]
  · next hicmp hserial =>
    exact ⟨{ s.transports t with m_bConnected := false }, ⟨rfl, rfl, rfl⟩, hother hserial,
      .inl rfl⟩

/-! ### Runs -/

/-- What is chosen for a connection by TCP. -/
def tcpChoice : Choice where
  kind := some .tcp
  succeeds := true
  messages := 0
  violated := false

/-- The plugin connects, from a callback that has nothing to do with the connection. -/
def connects (target : T) : List (Event T) :=
  [.post .other, .work tcpChoice, .call (.connect target), .returned]

/-- The transport is made, the name is resolved, and the other side answers. -/
def isConnected (t : ℕ) : List (Event T) :=
  [.work tcpChoice, .work tcpChoice, .complete t .resolve .success, .asio, .asio,
    .complete t .connect .success, .asio, .asio, .asio, .asio, .asio, .asio, .asio,
    .work tcpChoice, .returned]

/-- The other side closes; the plugin is told. -/
def isClosed (t : ℕ) : List (Event T) :=
  [.complete t .read .failure, .asio, .asio, .asio, .work tcpChoice, .work tcpChoice, .returned]

/-- Two sessions, one after the other. -/
def twoSessions (target target' : T) : List (Event T) :=
  connects target ++ isConnected 0 ++ isClosed 0 ++
    connects target' ++ isConnected 1 ++ isClosed 1

end Domoticz.Transports
