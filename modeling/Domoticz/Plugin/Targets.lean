import Domoticz.Plugin.Transports
import Domoticz.Transition

/-!
# Targets

`Connect` and `Listen` set the `Target` of a connection at once.  A callback keeps the target that
it finds when it is made, and the end of `onConnect` and of `onDisconnect` may clear the target:
whatever was accepted in between loses it.

## Main definitions

* `Delivers` — a callback goes to the target of its session.
* `Orderly` — a session begins when nothing is left of the last one, and `onConnect` returns when
  the transport is connected.

## Main results

* `inv_step` — what an orderly step keeps.
* `target_kept` — **in an orderly run the callbacks of a session go to its target.**
-/

namespace Domoticz.Targets

open Transports Transports.State Transition

variable {T : Type}

/-! ### Delivery -/

/-- This target is the one of session `k`, if it is one of `Connect` and not over. -/
def Good (s : State T) (k : ℕ) (m_Target : Option T) : Prop :=
  ∀ x ∈ s.sessions[k]?, x.connects = true → k ∈ s.reported ∨ m_Target = some x.Target

instance goodDecidable [DecidableEq T] (s : State T) (k : ℕ) (m_Target : Option T) :
    Decidable (Good s k m_Target) :=
  inferInstanceAs (Decidable (∀ x ∈ s.sessions[k]?, _ → _ ∨ _))

/-- A callback goes to the target of its session, and what was read finds it. -/
def DeliversMessage (s : State T) : Message T → Prop
  | .callback _ k m_Target => Good s k m_Target
  | .read t => Good s (s.transports t).session s.Target
  | _ => True

instance deliversMessageDecidable [DecidableEq T] (s : State T) :
    (m : Message T) → Decidable (DeliversMessage s m)
  | .callback _ k m_Target => goodDecidable s k m_Target
  | .read t => goodDecidable s (s.transports t).session s.Target
  | .connect _ | .listen _ | .disconnect | .disconnected _ _ | .write | .other => .isTrue trivial

/-- The loop has taken the next message, and delivers it. -/
def DeliversNext (s : State T) : Loop → List (Message T) → Prop
  | .idle, m :: _ => DeliversMessage s m
  | _, _ => True

/-- The message that is next is delivered as `Connect` has promised. -/
def Delivers (s : State T) : Event T → Prop
  | .work _ => DeliversNext s s.loop s.m_MessageQueue
  | _ => True

instance deliversNextDecidable [DecidableEq T] (s : State T) :
    (loop : Loop) → (queue : List (Message T)) → Decidable (DeliversNext s loop queue)
  | .idle, m :: _ => deliversMessageDecidable s m
  | .idle, [] | .starting _ _, _ | .python _, _ => .isTrue trivial

instance deliversDecidable [DecidableEq T] (s : State T) : (e : Event T) → Decidable (Delivers s e)
  | .work _ => deliversNextDecidable s s.loop s.m_MessageQueue
  | .complete _ _ _ | .asio | .returned | .call _ | .post _ => .isTrue trivial

/-! ### What a session still does -/

/-- There is a transport that a disconnect may be asked for. -/
def present (s : State T) : Bool :=
  !s.m_Transports.isEmpty || s.busy || s.pTransport.any fun t => (s.transports t).kind == .icmp

/-- The session that a message begins. -/
def begins : Message T → Option ℕ
  | .connect k | .listen k => some k
  | _ => none

/-- The session that a message makes callbacks for. -/
def source (s : State T) : Message T → Option ℕ
  | .disconnect => some s.session
  | .disconnected t _ | .read t => some (s.transports t).session
  | _ => none

/-- The callbacks that may clear the target. -/
def ends : Callback → Bool
  | .onConnect | .onDisconnect => true
  | _ => false

/-- A message is the last of its connection. -/
def endsMessage : Message T → Bool
  | .callback c _ _ => ends c
  | _ => false

/-- The loop is not in `ConnectionConnect` or `ConnectionListen`. -/
def notStarting : Loop → Bool
  | .starting _ _ => false
  | _ => true

/-- Nothing makes callbacks for a session any more. -/
def Over (s : State T) : Prop :=
  (∀ t < s.made, (s.transports t).operations = []) ∧ (∀ run ∈ s.asio, run.2 = []) ∧
    notStarting s.loop = true ∧ (∀ m ∈ s.m_MessageQueue, begins m = none ∧ source s m = none) ∧
    present s = false

/-- A session can begin: the last one is over, and its target was cleared. -/
def CanBegin (s : State T) : Prop :=
  Over s ∧ s.loop ≠ .python (some .onConnect) ∧ s.loop ≠ .python (some .onDisconnect) ∧
    ∀ m ∈ s.m_MessageQueue, endsMessage m = false

/-- A call would be accepted. -/
def Accepts (s : State T) : Prop :=
  notStarting s.loop = true ∧ s.loop ≠ .idle ∧ s.busy = false

/-- `onConnect` can return: the transport is connected, or it could not be started at all. -/
def CanReturn (s : State T) : Prop :=
  s.loop = .python (some .onConnect) → s.pTransport ≠ none ∧ (s.connected = true ∨ Over s)

/-- Sessions begin, and `onConnect` returns, at a good time. -/
def Orderly (s : State T) : Event T → Prop
  | .call (.connect _) | .call (.listen _) => Accepts s → CanBegin s
  | .returned => CanReturn s
  | _ => True

instance overDecidable (s : State T) : Decidable (Over s) :=
  inferInstanceAs (Decidable ((∀ t < s.made, (s.transports t).operations = []) ∧
    (∀ run ∈ s.asio, run.2 = []) ∧ notStarting s.loop = true ∧
    (∀ m ∈ s.m_MessageQueue, begins m = none ∧ source s m = none) ∧ present s = false))

instance canBeginDecidable (s : State T) : Decidable (CanBegin s) :=
  inferInstanceAs (Decidable (Over s ∧ s.loop ≠ .python (some .onConnect) ∧
    s.loop ≠ .python (some .onDisconnect) ∧ ∀ m ∈ s.m_MessageQueue, endsMessage m = false))

instance acceptsDecidable (s : State T) : Decidable (Accepts s) :=
  inferInstanceAs (Decidable (_ ∧ _ ∧ _))

instance canReturnDecidable (s : State T) : Decidable (CanReturn s) :=
  inferInstanceAs (Decidable (_ → _ ∧ (_ ∨ Over s)))

instance orderlyDecidable (s : State T) : (e : Event T) → Decidable (Orderly s e)
  | .call (.connect _) | .call (.listen _) => inferInstanceAs (Decidable (Accepts s → CanBegin s))
  | .returned => canReturnDecidable s
  | .call .send | .call .disconnect | .call (.setTimeout _) => .isTrue trivial
  | .complete _ _ _ | .asio | .work _ | .post _ => .isTrue trivial

/-! ### The kinds -/

/-- The transport was made for `Listen`, and reports its end without a notice. -/
def Unnoticed (s : State T) (t : ℕ) : Prop :=
  (s.transports t).kind.connects = false

/-- What an action may do to a transport. -/
def FineAction (s : State T) (t : ℕ) (a : Action) : Prop :=
  t < s.made ∧ (a = .disconnected false ∨ a = .listenAgain → Unnoticed s t)

/-- A message is for a transport or a session that there is. -/
def Fine (s : State T) : Message T → Prop
  | .disconnected t bNotifyPlugin => t < s.made ∧ (bNotifyPlugin = false → Unnoticed s t)
  | .read t => t < s.made
  | .listen k => ∃ x, s.sessions[k]? = some x ∧ x.connects = false
  | _ => True

/-- A transport that only listens was not made for `Connect`. -/
structure Kinds (s : State T) : Prop where
  transports : ∀ t < s.made, Unnoticed s t →
    ∃ x, s.sessions[(s.transports t).session]? = some x ∧ x.connects = false
  asio : ∀ t rest, s.asio = some (t, rest) → t < s.made ∧ ∀ a ∈ rest, FineAction s t a
  starting : ∀ t a, s.loop = .starting t a → FineAction s t a
  current : ∀ t, s.pTransport = some t → t < s.made
  queue : ∀ m ∈ s.m_MessageQueue, Fine s m

/-- Transports and sessions are only added. -/
structure Grows (s s' : State T) : Prop where
  made : s.made ≤ s'.made
  kind : ∀ t < s.made, (s'.transports t).kind = (s.transports t).kind
  session : ∀ t < s.made, (s'.transports t).session = (s.transports t).session
  sessions : ∀ (k : ℕ) (x : Session T), s.sessions[k]? = some x → s'.sessions[k]? = some x

theorem Unnoticed.grows {s s' : State T} (hg : Grows s s') {t : ℕ} (ht : t < s.made)
    (h : Unnoticed s t) : Unnoticed s' t := by
  unfold Unnoticed
  rw [hg.kind t ht]
  exact h

theorem FineAction.grows {s s' : State T} (hg : Grows s s') {t : ℕ} {a : Action}
    (h : FineAction s t a) : FineAction s' t a :=
  ⟨h.1.trans_le hg.made, fun ha => (h.2 ha).grows hg h.1⟩

theorem Fine.grows {s s' : State T} (hg : Grows s s') {m : Message T} (h : Fine s m) :
    Fine s' m := by
  cases m with
  | disconnected t bNotifyPlugin =>
    exact ⟨h.1.trans_le hg.made, fun hb => (h.2 hb).grows hg h.1⟩
  | read t => exact Nat.lt_of_lt_of_le h hg.made
  | listen k =>
    obtain ⟨x, hx, hconnects⟩ := h
    exact ⟨x, hg.sessions k x hx, hconnects⟩
  | connect k => trivial
  | disconnect => trivial
  | write => trivial
  | callback c k m_Target => trivial
  | other => trivial

/-- A step that makes no transport. -/
theorem Kinds.of_grows {s s' : State T} (h : Kinds s) (hg : Grows s s') (hmade : s'.made = s.made)
    (hasio : ∀ t rest, s'.asio = some (t, rest) →
      s.asio = some (t, rest) ∨ (t < s.made ∧ ∀ a ∈ rest, FineAction s t a))
    (hstarting : ∀ t a, s'.loop = .starting t a → s.loop = .starting t a)
    (hcurrent : ∀ t, s'.pTransport = some t → s.pTransport = some t)
    (hqueue : ∀ m ∈ s'.m_MessageQueue, m ∈ s.m_MessageQueue ∨ Fine s' m) : Kinds s' where
  transports t ht hun := by
    rw [hmade] at ht
    have hun' : Unnoticed s t := by
      unfold Unnoticed at hun
      rwa [hg.kind t ht] at hun
    obtain ⟨x, hx, hconnects⟩ := h.transports t ht hun'
    refine ⟨x, ?_, hconnects⟩
    rw [hg.session t ht]
    exact hg.sessions _ x hx
  asio t rest hrun := by
    rw [hmade]
    rcases hasio t rest hrun with hrun | ⟨ht, hfine⟩
    · exact ⟨(h.asio t rest hrun).1, fun a ha => ((h.asio t rest hrun).2 a ha).grows hg⟩
    · exact ⟨ht, fun a ha => (hfine a ha).grows hg⟩
  starting t a hloop := (h.starting t a (hstarting t a hloop)).grows hg
  current t hp := by
    rw [hmade]
    exact h.current t (hcurrent t hp)
  queue m hm := by
    rcases hqueue m hm with hin | hfine
    · exact (h.queue m hin).grows hg
    · exact hfine

/-- What an action posts. -/
theorem perform_fine {s : State T} {t : ℕ} {a : Action} (ha : FineAction s t a) :
    ∀ m ∈ (s.perform t a).m_MessageQueue, m ∈ s.m_MessageQueue ∨ Fine s m := by
  have hpost (m' : Message T) (hm' : Fine s m') :
      ∀ m ∈ (s.post m').m_MessageQueue, m ∈ s.m_MessageQueue ∨ Fine s m := by
    intro m hm
    rcases List.mem_append.mp hm with hin | hin
    · exact .inl hin
    · rw [List.mem_singleton.mp hin]
      exact .inr hm'
  cases a with
  | onConnect => exact hpost _ trivial
  | onTimeout => exact hpost _ trivial
  | read => exact hpost _ ha.1
  | disconnected bNotifyPlugin =>
    refine hpost _ ⟨ha.1, fun hb => ha.2 (.inl ?_)⟩
    rw [hb]
  | disconnect => exact hpost _ trivial
  | configureTimeout =>
    simp only [perform]
    split <;> exact fun m hm => .inl hm
  | _ => exact fun m hm => .inl hm

/-- What a handler turns to. -/
theorem FineAction.next {s : State T} {t : ℕ} {a : Action} (ha : FineAction s t a) :
    ∀ a' ∈ a.next (s.transports t), FineAction s t a' := by
  intro a' ha'
  unfold Action.next at ha'
  split at ha'
  · exact ⟨ha.1, fun _ => ha.2 (.inr rfl)⟩
  · cases ha'

/-- The handlers of the transports that connect always give notice. -/
theorem handler_notices {kind : Kind} (h : kind.connects = true) (o : Operation)
    (outcome : Outcome) :
    ∀ a ∈ handler kind o outcome, ¬ (a = .disconnected false ∨ a = .listenAgain) := by
  cases kind <;> cases o <;> cases outcome <;> first | exact absurd h (by decide) | decide

/-! ### The invariant -/

/-- What is under way belongs to one session, which is alive as long as `p`. -/
structure Inv (p : Prop) (s : State T) : Prop extends Kinds s where
  operations : ∀ t < s.made, (s.transports t).operations ≠ [] →
    p ∧ (s.transports t).session = s.session
  running : ∀ t rest, s.asio = some (t, rest) → rest ≠ [] →
    p ∧ (s.transports t).session = s.session
  begun : ∀ t a, s.loop = .starting t a → p ∧ (s.transports t).session = s.session
  sources : ∀ m ∈ s.m_MessageQueue, ∀ k, source s m = some k → p ∧ k = s.session
  present : present s = true → p
  /-- It is the last one, and has its target. -/
  alive : p → s.session + 1 = s.sessions.length ∧ Good s s.session s.Target
  directives : ∀ m ∈ s.m_MessageQueue, ∀ k, begins m = some k →
    k + 1 = s.sessions.length ∧ Good s k s.Target
  callbacks : ∀ c k m_Target, .callback c k m_Target ∈ s.m_MessageQueue →
    k < s.sessions.length ∧ Good s k m_Target ∧ (ends c = true → k + 1 = s.sessions.length)
  told : s.loop = .python (some .onDisconnect) →
    ∀ k, k + 1 = s.sessions.length → k ∈ s.reported

/-- A message that something alive may post. -/
structure May (p : Prop) (s : State T) (m : Message T) : Prop where
  fine : Fine s m
  begins : begins m = none
  source : ∀ k, source s m = some k → p ∧ k = s.session
  callback : ∀ c k m_Target, m = .callback c k m_Target → p ∧ k = s.session ∧ m_Target = s.Target

/-- Two states that differ in the queue, the list, and the flags and operations of transports. -/
structure Same (s s' : State T) : Prop where
  pTransport : ∀ t, s'.pTransport = some t → s.pTransport = some t
  current : s'.session = s.session
  Target : s'.Target = s.Target
  loop : s'.loop = s.loop
  asio : s'.asio = s.asio
  made : s'.made = s.made
  sessions : s'.sessions = s.sessions
  reported : s'.reported = s.reported
  kind : ∀ t, (s'.transports t).kind = (s.transports t).kind
  session : ∀ t, (s'.transports t).session = (s.transports t).session

theorem Same.grows {s s' : State T} (h : Same s s') : Grows s s' where
  made := h.made.ge
  kind t _ := h.kind t
  session t _ := h.session t
  sessions k x hx := by
    rw [h.sessions]
    exact hx

theorem session_congr {s s' : State T} (hpTransport : s'.pTransport = s.pTransport)
    (hsessions : s'.sessions = s.sessions)
    (hsession : ∀ t, (s'.transports t).session = (s.transports t).session) :
    s'.session = s.session := by
  unfold State.session
  rw [hpTransport, hsessions]
  split
  · exact hsession _
  · rfl

theorem Same.trans {s s' s'' : State T} (h : Same s s') (h' : Same s' s'') : Same s s'' where
  pTransport t hp := h.pTransport t (h'.pTransport t hp)
  current := h'.current.trans h.current
  Target := h'.Target.trans h.Target
  loop := h'.loop.trans h.loop
  asio := h'.asio.trans h.asio
  made := h'.made.trans h.made
  sessions := h'.sessions.trans h.sessions
  reported := h'.reported.trans h.reported
  kind t := (h'.kind t).trans (h.kind t)
  session t := (h'.session t).trans (h.session t)

theorem Same.good {s s' : State T} (h : Same s s') {k : ℕ} {m_Target : Option T} :
    Good s' k m_Target ↔ Good s k m_Target := by
  unfold Good
  rw [h.sessions, h.reported]

theorem Same.source {s s' : State T} (h : Same s s') (m : Message T) :
    source s' m = source s m := by
  cases m with
  | disconnect => exact congrArg some h.current
  | disconnected t b => exact congrArg some (h.session t)
  | read t => exact congrArg some (h.session t)
  | _ => rfl

theorem Same.of_frame {s s' : State T} (h : Frame s s')
    (hkind : ∀ t, (s'.transports t).kind = (s.transports t).kind)
    (hsession : ∀ t, (s'.transports t).session = (s.transports t).session) : Same s s' :=
  { h with
    pTransport := fun _ hp => h.pTransport.symm.trans hp
    current := session_congr h.pTransport h.sessions hsession
    kind := hkind
    session := hsession }

theorem Inv.of_same {p : Prop} {s s' : State T} (h : Inv p s) (hs : Same s s')
    (hoperations : ∀ t < s.made, (s'.transports t).operations ≠ [] →
      (s.transports t).operations ≠ [] ∨ (p ∧ (s.transports t).session = s.session))
    (hpresent : Targets.present s' = true → Targets.present s = true ∨ p)
    (hqueue : ∀ m ∈ s'.m_MessageQueue, m ∈ s.m_MessageQueue ∨ May p s m) : Inv p s' where
  toKinds := by
    refine h.toKinds.of_grows hs.grows hs.made ?_ ?_ hs.pTransport ?_
    · intro t rest hrun
      rw [hs.asio] at hrun
      exact .inl hrun
    · intro t a hloop
      rwa [hs.loop] at hloop
    · intro m hm
      rcases hqueue m hm with hin | hmay
      · exact .inl hin
      · exact .inr (hmay.fine.grows hs.grows)
  operations t ht hne := by
    rw [hs.made] at ht
    rw [hs.session, hs.current]
    rcases hoperations t ht hne with hne | hp
    · exact h.operations t ht hne
    · exact hp
  running t rest := by
    rw [hs.asio, hs.session, hs.current]
    exact h.running t rest
  begun t a := by
    rw [hs.loop, hs.session, hs.current]
    exact h.begun t a
  sources m hm k := by
    rw [hs.source, hs.current]
    rcases hqueue m hm with hin | hmay
    · exact h.sources m hin k
    · exact hmay.source k
  present hp := by
    rcases hpresent hp with hp | hp
    · exact h.present hp
    · exact hp
  alive hp := by
    rw [hs.current, hs.sessions, hs.good, hs.Target]
    exact h.alive hp
  directives m hm k hk := by
    rw [hs.sessions, hs.good, hs.Target]
    rcases hqueue m hm with hin | hmay
    · exact h.directives m hin k hk
    · rw [hmay.begins] at hk
      cases hk
  callbacks c k m_Target hm := by
    rw [hs.sessions, hs.good]
    rcases hqueue _ hm with hin | hmay
    · exact h.callbacks c k m_Target hin
    · obtain ⟨hp, rfl, rfl⟩ := hmay.callback c k m_Target rfl
      obtain ⟨hlast, hgood⟩ := h.alive hp
      exact ⟨by omega, hgood, fun _ => hlast⟩
  told := by
    rw [hs.loop, hs.sessions, hs.reported]
    exact h.told

theorem Inv.post {p : Prop} {s : State T} (h : Inv p s) {m : Message T} (hm : May p s m) :
    Inv p (s.post m) := by
  have hsame : Same s (s.post m) :=
    .of_frame (by constructor <;> rfl) (fun _ => rfl) fun _ => rfl
  refine h.of_same hsame (fun _ _ hne => .inl hne) .inl ?_
  intro m' hm'
  rcases List.mem_append.mp hm' with hin | hin
  · exact .inl hin
  · rw [List.mem_singleton.mp hin]
    exact .inr hm

/-- A callback may be made for the session that is alive. -/
theorem may_callback {p : Prop} {s : State T} (hp : p) {k : ℕ} (hk : k = s.session)
    (c : Callback) : May p s (.callback c k s.Target) where
  fine := trivial
  begins := rfl
  source _ hsource := by cases hsource
  callback c' k' m_Target heq := by
    cases heq
    exact ⟨hp, hk, rfl⟩

/-- A message that is for nobody. -/
theorem may_other {p : Prop} {s : State T} {m : Message T} (hm : m = .other ∨ m = .write) :
    May p s m := by
  rcases hm with rfl | rfl <;>
    exact ⟨trivial, rfl, fun _ hk => (by cases hk), fun _ _ _ heq => (by cases heq)⟩

theorem may_disconnect {p : Prop} {s : State T} (hp : p) : May p s .disconnect where
  fine := trivial
  begins := rfl
  source k hk := ⟨hp, (Option.some.inj hk).symm⟩
  callback _ _ _ heq := by cases heq

theorem Inv.postMessages {p : Prop} {s : State T} (h : Inv p s) (hp : p) {k : ℕ}
    (hk : k = s.session) (n : ℕ) : Inv p (s.postMessages k n) := by
  induction n generalizing s with
  | zero => exact h
  | succ n ih => exact ih (h.post (may_callback hp hk .onMessage)) hk

theorem same_perform (s : State T) (t : ℕ) (a : Action) : Same s (s.perform t a) :=
  .of_frame (perform_frame s t a) (fun t' => (perform_transports s t a t').2.2.1)
    fun t' => (perform_transports s t a t').2.1

theorem same_postMessages (s : State T) (k n : ℕ) : Same s (s.postMessages k n) := by
  refine .of_frame (postMessages_frame s k n) ?_ ?_
  · intro t
    rw [postMessages_transports]
  · intro t
    rw [postMessages_transports]

/-- An action on a transport of the session that is alive. -/
theorem Inv.perform {p : Prop} {s : State T} (h : Inv p s) (hp : p) {t : ℕ} {a : Action}
    (ht : (s.transports t).session = s.session) (ha : FineAction s t a) :
    Inv p (s.perform t a) := by
  have htransports := perform_transports s t a
  obtain ⟨ms, hqueue, hms⟩ := perform_queue s t a
  refine h.of_same (same_perform s t a) ?_ (fun _ => .inr hp) ?_
  · intro t' _ hne
    by_cases heq : t' = t
    · rw [heq]
      exact .inr ⟨hp, ht⟩
    · rw [(htransports t').2.2.2 heq] at hne
      exact .inl hne
  · intro m hm
    rcases perform_fine ha m hm with hin | hfine
    · exact .inl hin
    rw [hqueue] at hm
    rcases List.mem_append.mp hm with hin | hin
    · exact .inl hin
    refine .inr ?_
    rcases hms m hin with rfl | ⟨b, rfl⟩ | rfl | ⟨c, -, rfl⟩
    · exact ⟨hfine, rfl, fun k hk => ⟨hp, (Option.some.inj hk).symm.trans ht⟩,
        fun _ _ _ heq => (by cases heq)⟩
    · exact ⟨hfine, rfl, fun k hk => ⟨hp, (Option.some.inj hk).symm.trans ht⟩,
        fun _ _ _ heq => (by cases heq)⟩
    · exact may_disconnect hp
    · exact may_callback hp ht c

theorem setTransport_apply (s : State T) (t : ℕ) (x : Transport) (t' : ℕ) :
    (s.setTransport t x).transports t' = if t' = t then x else s.transports t' := by
  simp [State.setTransport, Function.update_apply]

theorem same_setTransport {s : State T} {t : ℕ} {x : Transport}
    (hkind : x.kind = (s.transports t).kind) (hsession : x.session = (s.transports t).session) :
    Same s (s.setTransport t x) := by
  refine .of_frame (by constructor <;> rfl) ?_ ?_
  · intro t'
    rw [setTransport_apply]
    split
    · next heq => rw [heq, hkind]
    · rfl
  · intro t'
    rw [setTransport_apply]
    split
    · next heq => rw [heq, hsession]
    · rfl

/-- The flags and the operations of a transport are written. -/
theorem Inv.setTransport {p : Prop} {s : State T} (h : Inv p s) (hp : p) {t : ℕ} {x : Transport}
    (hkind : x.kind = (s.transports t).kind) (hsession : x.session = (s.transports t).session)
    (hoperations : x.operations ≠ [] → (s.transports t).operations ≠ []) :
    Inv p (s.setTransport t x) := by
  refine h.of_same (same_setTransport hkind hsession) ?_ (fun _ => .inr hp) fun m hm => .inl hm
  intro t' _ hne
  rw [setTransport_apply] at hne
  split at hne
  · next heq =>
    rw [heq]
    exact .inl (hoperations hne)
  · exact .inl hne

/-- A handler runs, or goes on. -/
theorem Inv.run {p : Prop} {s : State T} (h : Inv p s) (hp : p) {t : ℕ}
    (ht : (s.transports t).session = s.session) (hmade : t < s.made) {actions : List Action}
    (hactions : ∀ a ∈ actions, FineAction s t a) : Inv p { s with asio := some (t, actions) } :=
  { h with
    toKinds := { h.toKinds with
      asio := fun t' rest hsome => by
        cases hsome
        exact ⟨hmade, hactions⟩ }
    running := fun t' rest hsome _ => by
      cases hsome
      exact ⟨hp, ht⟩ }

theorem same_use (s : State T) (t : ℕ) : Same s (s.use t) := by
  unfold State.use
  split
  · constructor <;> intros <;> first | rfl | assumption
  · constructor <;> intros <;> first | rfl | assumption

/-- Whether a transport was deleted is not looked at here. -/
theorem Inv.use {p : Prop} {s : State T} (h : Inv p s) (t : ℕ) : Inv p (s.use t) := by
  unfold State.use
  split
  · exact { h with }
  · exact h

/-! ### The other thread -/

theorem Inv.complete {p : Prop} {s : State T} (h : Inv p s) (t : ℕ) (o : Operation)
    (outcome : Outcome) : Inv p (s.complete t o outcome) := by
  unfold State.complete
  split
  · exact h
  · split
    · next ho =>
      have hne := List.ne_nil_of_mem ho.2
      obtain ⟨hp, hsession⟩ := h.operations t ho.1 hne
      have hset : Inv p (s.setTransport t
          { s.transports t with operations := (s.transports t).operations.erase o }) :=
        h.setTransport hp rfl rfl fun _ => hne
      have hfine : ∀ a ∈ handler (s.transports t).kind o outcome, FineAction s t a := by
        intro a ha
        refine ⟨ho.1, fun hunnoticed => ?_⟩
        by_contra hkind
        exact handler_notices (Bool.eq_true_of_not_eq_false hkind) o outcome a ha hunnoticed
      have hsame : Same s (s.setTransport t
          { s.transports t with operations := (s.transports t).operations.erase o }) :=
        same_setTransport rfl rfl
      have hsession' := (hsame.session t).trans (hsession.trans hsame.current.symm)
      have hrun := hset.run hp hsession' ho.1 fun a ha => (hfine a ha).grows hsame.grows
      exact hrun.use t
    · exact h

theorem Inv.asioStep {p : Prop} {s : State T} (h : Inv p s) : Inv p s.asioStep := by
  unfold State.asioStep
  split
  · exact h
  · next t hrun =>
    exact
      { h with
        toKinds := { h.toKinds with asio := fun _ _ hsome => by cases hsome }
        running := fun _ _ hsome => by cases hsome }
  · next t a rest hrun =>
    obtain ⟨hp, hsession⟩ := h.running t (a :: rest) hrun (List.cons_ne_nil a rest)
    obtain ⟨hmade, hactions⟩ := h.toKinds.asio t (a :: rest) hrun
    have hsame := same_use s t
    have hsession' := (hsame.session t).trans (hsession.trans hsame.current.symm)
    have hfine (a' : Action) (ha' : a' ∈ a :: rest) : FineAction (s.use t) t a' :=
      (hactions a' ha').grows hsame.grows
    have hperform := (h.use t).perform hp hsession' (hfine a List.mem_cons_self)
    have hsame' := same_perform (s.use t) t a
    refine hperform.run hp ?_ ?_ ?_
    · exact (hsame'.session t).trans (hsession'.trans hsame'.current.symm)
    · rw [hsame'.made, hsame.made]
      exact hmade
    · intro a' ha'
      have hfine' : FineAction (s.use t) t a' := by
        rcases List.mem_append.mp ha' with hnext | hrest
        · exact ((hactions a List.mem_cons_self).next a' hnext).grows hsame.grows
        · exact hfine a' (List.mem_cons_of_mem a hrest)
      exact hfine'.grows hsame'.grows

/-! ### The loop -/

theorem Inv.setLoop {p : Prop} {s : State T} (h : Inv p s) (loop : Loop)
    (hstarting : notStarting loop = true)
    (htold : loop = .python (some .onDisconnect) →
      ∀ k, k + 1 = s.sessions.length → k ∈ s.reported) : Inv p { s with loop } :=
  { h with
    toKinds := { h.toKinds with
      starting := fun t a hloop => by
        rw [show loop = .starting t a from hloop] at hstarting
        cases hstarting }
    begun := fun t a hloop => by
      rw [show loop = .starting t a from hloop] at hstarting
      cases hstarting
    told := htold }

theorem Inv.idle {p : Prop} {s : State T} (h : Inv p s) : Inv p { s with loop := .idle } :=
  h.setLoop .idle rfl fun hloop => by cases hloop

/-- An operation is begun, and the loop will write a flag next. -/
theorem Inv.startThen {p : Prop} {s : State T} (h : Inv p s) (hp : p) {t : ℕ} {a : Action}
    (ht : (s.transports t).session = s.session) (hmade : t < s.made) (o : Operation)
    (ha : FineAction s t a) : Inv p { s.start t o with loop := .starting t a } := by
  have hstart : Inv p (s.start t o) :=
    h.perform hp ht (a := .start o) ⟨hmade, fun heq => by rcases heq with heq | heq <;> cases heq⟩
  have hsame := same_perform s t (.start o)
  exact
    { hstart with
      toKinds := { hstart.toKinds with
        starting := fun t' a' hloop => by
          cases hloop
          exact ha.grows hsame.grows }
      begun := fun t' a' hloop => by
        cases hloop
        exact ⟨hp, (hsame.session t).trans (ht.trans hsame.current.symm)⟩
      told := fun hloop => by cases hloop }

theorem same_removeConnection (s : State T) (t : ℕ) : Same s (s.RemoveConnection t) := by
  unfold RemoveConnection
  split
  · constructor <;> intros <;> first | rfl | assumption
  · constructor <;> intros <;> first | rfl | assumption

/-- The list does not tell which session is alive. -/
theorem Inv.removeConnection {p : Prop} {s : State T} (h : Inv p s) (hp : p) (t : ℕ) :
    Inv p (s.RemoveConnection t) := by
  have hkeeps : (s.RemoveConnection t).transports = s.transports ∧
      (s.RemoveConnection t).m_MessageQueue = s.m_MessageQueue := by
    unfold RemoveConnection
    split <;> exact ⟨rfl, rfl⟩
  refine h.of_same (same_removeConnection s t) ?_ (fun _ => .inr hp) ?_
  · intro t' _ hne
    rw [hkeeps.1] at hne
    exact .inl hne
  · intro m hm
    rw [hkeeps.2] at hm
    exact .inl hm

/-- The session that is alive stays the last one when its transport is deleted. -/
theorem same_deleteTransport {p : Prop} {s : State T} (h : Inv p s) (hp : p) (t : ℕ) :
    Same s (s.deleteTransport t) := by
  have hset : Same s (s.setTransport t { s.transports t with deleted := true }) :=
    same_setTransport rfl rfl
  exact
    { hset with
      pTransport := fun t' heq => by cases heq
      current := by
        have hlast := (h.alive hp).1
        show s.sessions.length - 1 = s.session
        omega }

theorem Inv.deleteTransport {p : Prop} {s : State T} (h : Inv p s) (hp : p) (t : ℕ) :
    Inv p (s.deleteTransport t) := by
  refine h.of_same (same_deleteTransport h hp t) ?_ (fun _ => .inr hp) fun m hm => .inl hm
  intro t' ht' hne
  have hset := h.setTransport hp (t := t) (x := { s.transports t with deleted := true }) rfl rfl id
  have hsame : Same s (s.setTransport t { s.transports t with deleted := true }) :=
    same_setTransport rfl rfl
  obtain ⟨-, hsession⟩ := hset.operations t' ht' hne
  rw [hsame.session, hsame.current] at hsession
  exact .inr ⟨hp, hsession⟩

theorem Inv.postDisconnect {p : Prop} {s : State T} (h : Inv p s) (hp : p) {k : ℕ}
    (hk : k = s.session) : Inv p (s.postDisconnect k) :=
  { h.post (may_callback hp hk .onDisconnect) with }

/-- More sessions are reported. -/
theorem Inv.report {p : Prop} {s : State T} (h : Inv p s) {reported : List ℕ}
    (hreported : ∀ k ∈ s.reported, k ∈ reported) : Inv p { s with reported } := by
  have hgood {k : ℕ} {m_Target : Option T} (hk : Good s k m_Target) :
      Good { s with reported } k m_Target := by
    intro x hx hconnects
    rcases hk x hx hconnects with hin | heq
    · exact .inl (hreported k hin)
    · exact .inr heq
  exact
    { h with
      alive := fun hp => ⟨(h.alive hp).1, hgood (h.alive hp).2⟩
      directives := fun m hm k hk =>
        ⟨(h.directives m hm k hk).1, hgood (h.directives m hm k hk).2⟩
      callbacks := fun c k m_Target hm => by
        obtain ⟨hlt, hk, hends⟩ := h.callbacks c k m_Target hm
        exact ⟨hlt, hgood hk, hends⟩
      told := fun hloop k hk => hreported k (h.told hloop k hk) }

/-- The target is cleared. -/
theorem Inv.noTarget {p : Prop} {s : State T} (h : Inv p s)
    (hgood : ∀ k, k + 1 = s.sessions.length →
      (p ∨ ∃ m ∈ s.m_MessageQueue, begins m = some k) → Good s k none) :
    Inv p { s with Target := none } :=
  { h with
    alive := fun hp => ⟨(h.alive hp).1, hgood s.session (h.alive hp).1 (.inl hp)⟩
    directives := fun m hm k hk => by
      have hlast := (h.directives m hm k hk).1
      exact ⟨hlast, hgood k hlast (.inr ⟨m, hm, hk⟩)⟩ }

/-- The session of the transport that is there. -/
theorem session_eq {s : State T} {t : ℕ} (hp : s.pTransport = some t) :
    s.session = (s.transports t).session := by
  unfold State.session
  rw [hp]

theorem Inv.connectionDisconnect {p : Prop} {s : State T} (h : Inv p s) (hp : p) (c : Choice) :
    Inv p (s.ConnectionDisconnect c) := by
  have hinv := h.postMessages hp rfl c.messages
  unfold ConnectionDisconnect
  simp only
  generalize s.postMessages s.session c.messages = s' at hinv
  split
  · exact hinv
  · next t ht =>
    obtain ⟨x, ⟨hkind, hsession, -⟩, hoperations, hcases⟩ := handleDisconnect_cases s' t c.succeeds
    have hset : Inv p (s'.setTransport t x) := by
      refine hinv.setTransport hp hkind hsession ?_
      rw [hoperations]
      exact outstanding_ne_nil
    have hclosed : Inv p (s'.handleDisconnect t c.succeeds) := by
      rcases hcases with heq | ⟨-, heq⟩
      · rw [heq]
        exact hset
      · rw [heq]
        refine hset.postDisconnect hp ?_
        rw [(same_setTransport hkind hsession).current, session_eq ht]
    split
    · exact hclosed
    · exact (hclosed.removeConnection hp t).deleteTransport hp t

/-- The session that is alive is one of `Listen`. -/
def Listens (s : State T) : Prop :=
  ∀ x, s.sessions[s.session]? = some x → x.connects = false

theorem Inv.disconnectEvent {p : Prop} {s : State T} (h : Inv p s) (hp : p)
    (bNotifyPlugin : Bool) (hlistens : bNotifyPlugin = false → Listens s) (c : Choice) :
    Inv p (s.DisconnectEvent bNotifyPlugin c) := by
  have hinv := h.postMessages hp rfl c.messages
  have hsame := same_postMessages s s.session c.messages
  unfold DisconnectEvent
  simp only
  generalize s.postMessages s.session c.messages = s' at hinv hsame
  split
  · exact hinv
  · next t ht =>
    have hremoved := hinv.removeConnection hp t
    have hdeleted := hremoved.deleteTransport hp t
    have hsame' := (same_removeConnection s' t).trans (same_deleteTransport hremoved hp t)
    split
    · refine hdeleted.postDisconnect hp ?_
      rw [hsame'.current, session_eq ht]
    · next hnotify =>
      -- a transport that connects gives notice
      refine hdeleted.noTarget fun k hk _ x hx hconnects => ?_
      have hlast := (hdeleted.alive hp).1
      have hk' : k = s.session := by
        rw [hsame'.current, hsame.current] at hlast
        omega
      rw [hk'] at hx
      rw [hsame'.sessions, hsame.sessions] at hx
      rw [hlistens (Bool.eq_false_of_not_eq_true hnotify) x hx] at hconnects
      cases hconnects

/-- A null pointer ends the model, and changes nothing else. -/
theorem Inv.null {p : Prop} {s : State T} (h : Inv p s) : Inv p { s with crash := some .null } :=
  { h with }

theorem Inv.connectionRead {p : Prop} {s : State T} (h : Inv p s) (hp : p) {t : ℕ}
    (ht : (s.transports t).session = s.session) (hmade : t < s.made) (c : Choice) :
    Inv p (s.ConnectionRead t c) := by
  have hsame := same_postMessages s (s.transports t).session c.messages
  unfold ConnectionRead
  split
  · exact h.null
  · have hinv := h.postMessages hp ht c.messages
    simp only
    split
    · refine hinv.post ⟨⟨?_, fun hb => by cases hb⟩, rfl, fun k hk => ⟨hp, ?_⟩,
        fun _ _ _ heq => (by cases heq)⟩
      · rw [hsame.made]
        exact hmade
      · rw [← Option.some.inj hk, hsame.session, hsame.current, ht]
    · exact hinv

theorem Inv.connectionWrite {p : Prop} {s : State T} (h : Inv p s) (c : Choice) :
    Inv p (s.ConnectionWrite c) := by
  unfold ConnectionWrite
  split
  · split
    · exact h.null
    · exact h
  · next t ht =>
    split
    · exact h
    · split
      · exact h
      · split
        · exact h.null
        · split
          · next hicmp =>
            have hp : p := by
              refine h.present ?_
              simp [Targets.present, ht, hicmp]
            refine h.perform hp (a := .start .wait) (session_eq ht).symm
              ⟨h.toKinds.current t ht, ?_⟩
            rintro (heq | heq) <;> cases heq
          · exact h

/-- A callback of the connection is called, after it was taken out of the queue. -/
theorem Inv.callBack {p : Prop} {s : State T} (h : Inv p s) (c : Callback) (k : ℕ)
    (m_Target : Option T) (hends : ends c = true → k + 1 = s.sessions.length) :
    Inv p (s.callBack c k m_Target) := by
  cases m_Target with
  | none => exact h
  | some target =>
    have hreported : ∀ j ∈ s.reported,
        j ∈ (if c = .onDisconnect then s.reported ++ [k] else s.reported) := by
      intro j hj
      split
      · exact List.mem_append_left _ hj
      · exact hj
    have hinv := h.report hreported
    have hloop := hinv.setLoop (.python (some c)) rfl ?_
    · exact { hloop with }
    · intro heq j hj
      cases heq
      have hk := hends rfl
      show j ∈ s.reported ++ [k]
      have hj' : j = k := by
        have hj'' : j + 1 = s.sessions.length := hj
        omega
      simp [hj']

/-! ### A session gets a transport -/

theorem grows_makeTransport (s : State T) (kind : Kind) (k : ℕ) :
    Grows s (s.makeTransport kind k) := by
  have hsame {t : ℕ} (ht : t < s.made) :
      (s.makeTransport kind k).transports t = s.transports t :=
    Function.update_of_ne (Nat.ne_of_lt ht) _ _
  refine ⟨Nat.le_succ _, fun t ht => ?_, fun t ht => ?_, fun _ _ hx => hx⟩
  · rw [hsame ht]
  · rw [hsame ht]

theorem makeTransport_made (s : State T) (kind : Kind) (k : ℕ) :
    (s.makeTransport kind k).transports s.made = { kind, session := k } :=
  Function.update_self _ _ _

/-- The last session gets a transport, and is alive from now on. -/
theorem Inv.makeTransport {p : Prop} {s : State T} (h : Inv p s) (hloop : s.loop = .idle)
    (kind : Kind) {k : ℕ} (hk : k + 1 = s.sessions.length ∧ Good s k s.Target)
    (hkind : kind.connects = false → ∃ x, s.sessions[k]? = some x ∧ x.connects = false) :
    Inv True (s.makeTransport kind k) := by
  have hg := grows_makeTransport s kind k
  have hmade := makeTransport_made s kind k
  have hsession : (s.makeTransport kind k).session = k := by
    rw [session_eq (t := s.made) rfl, hmade]
  -- what was under way before is of this session, too
  have hlast (hp : p) : s.session = k := by
    have := (h.alive hp).1
    omega
  have hidle {t : ℕ} {a : Action} (hstarting : (s.makeTransport kind k).loop = .starting t a) :
      False := by
    have heq : Loop.starting t a = .idle := hstarting.symm.trans hloop
    cases heq
  have hold {t : ℕ} (ht : t < s.made + 1) (hne : t ≠ s.made) : t < s.made := by omega
  exact
    { transports := fun t ht hunnoticed => by
        by_cases heq : t = s.made
        · rw [heq, hmade]
          rw [heq] at hunnoticed
          unfold Unnoticed at hunnoticed
          rw [hmade] at hunnoticed
          exact hkind hunnoticed
        · have ht' := hold ht heq
          unfold Unnoticed at hunnoticed
          rw [hg.kind t ht'] at hunnoticed
          rw [hg.session t ht']
          exact h.toKinds.transports t ht' hunnoticed
      asio := fun t rest hrun => by
        obtain ⟨ht, hfine⟩ := h.toKinds.asio t rest hrun
        exact ⟨ht.trans_le hg.made, fun a ha => (hfine a ha).grows hg⟩
      starting := fun t a hstarting => (hidle hstarting).elim
      current := fun t ht => by
        cases ht
        exact Nat.lt_succ_self _
      queue := fun m hm => (h.toKinds.queue m hm).grows hg
      operations := fun t ht hne => by
        refine ⟨trivial, ?_⟩
        rw [hsession]
        by_cases heq : t = s.made
        · rw [heq, hmade]
        · have ht' := hold ht heq
          have hsame : (s.makeTransport kind k).transports t = s.transports t :=
            Function.update_of_ne heq _ _
          rw [hsame] at hne ⊢
          obtain ⟨hp, heq'⟩ := h.operations t ht' hne
          rw [heq', hlast hp]
      running := fun t rest hrun hne => by
        obtain ⟨hp, heq⟩ := h.running t rest hrun hne
        refine ⟨trivial, ?_⟩
        rw [hg.session t (h.toKinds.asio t rest hrun).1, heq, hsession, hlast hp]
      begun := fun t a hstarting => (hidle hstarting).elim
      sources := fun m hm j hj => by
        refine ⟨trivial, ?_⟩
        rw [hsession]
        have hfine := h.toKinds.queue m hm
        cases m with
        | disconnect => rw [← Option.some.inj hj, hsession]
        | disconnected t b =>
          obtain ⟨hp, heq⟩ := h.sources _ hm (s.transports t).session rfl
          rw [← Option.some.inj hj, hg.session t hfine.1, heq, hlast hp]
        | read t =>
          obtain ⟨hp, heq⟩ := h.sources _ hm (s.transports t).session rfl
          rw [← Option.some.inj hj, hg.session t hfine, heq, hlast hp]
        | connect j' => cases hj
        | listen j' => cases hj
        | write => cases hj
        | callback c j' m_Target => cases hj
        | other => cases hj
      present := fun _ => trivial
      alive := fun _ => by
        rw [hsession]
        exact hk
      directives := h.directives
      callbacks := h.callbacks
      told := fun hpython => by
        have heq : Loop.python (some .onDisconnect) = .idle := hpython.symm.trans hloop
        cases heq }

/-- The actions of `handleConnect` and `handleListen` are fine for all transports. -/
theorem fineAction {s : State T} {t : ℕ} (hmade : t < s.made) {a : Action}
    (ha : a ≠ .disconnected false ∧ a ≠ .listenAgain) : FineAction s t a :=
  ⟨hmade, fun heq => heq.elim (fun heq => absurd heq ha.1) fun heq => absurd heq ha.2⟩

/-- A transport of the session that is alive. -/
structure Serves (p : Prop) (s : State T) (t : ℕ) : Prop extends Inv p s where
  session_eq : (s.transports t).session = s.session
  made : t < s.made

theorem Serves.perform {p : Prop} {s : State T} {t : ℕ} (h : Serves p s t) (hp : p) {a : Action}
    (ha : a ≠ .disconnected false ∧ a ≠ .listenAgain) : Serves p (s.perform t a) t := by
  have hsame := same_perform s t a
  exact
    { h.toInv.perform hp h.session_eq (fineAction h.made ha) with
      session_eq := (hsame.session t).trans (h.session_eq.trans hsame.current.symm)
      made := by
        rw [hsame.made]
        exact h.made }

theorem Serves.handleConnect {p : Prop} {s : State T} {t : ℕ} (h : Serves p s t) (hp : p)
    (succeeds : Bool) : Inv p (s.handleConnect t succeeds) := by
  unfold State.handleConnect
  split
  · split
    · have hset := h.perform hp (a := .setConnected true) (by decide)
      have hconnect := hset.perform hp (a := .onConnect) (by decide)
      have hstart := hconnect.perform hp (a := .start .read) (by decide)
      exact (hstart.perform hp (a := .configureTimeout) (by decide)).toInv
    · exact h.toInv.startThen hp h.session_eq h.made .resolve (fineAction h.made (by decide))
  · exact (h.perform hp (by decide)).toInv.removeConnection hp t

theorem Serves.handleListen {p : Prop} {s : State T} {t : ℕ} (h : Serves p s t) (hp : p)
    (succeeds : Bool) : Inv p (s.handleListen t succeeds) := by
  unfold State.handleListen
  split
  · split
    · exact h.toInv.startThen hp h.session_eq h.made .read (fineAction h.made (by decide))
    · have hset := h.perform hp (a := .setConnecting true) (by decide)
      exact (hset.perform hp (a := .start .resolve) (by decide)).toInv
    · exact h.toInv.startThen hp h.session_eq h.made .accept (fineAction h.made (by decide))
  · split
    · have hset := h.perform hp (a := .setConnecting true) (by decide)
      exact (hset.perform hp (a := .onConnect) (by decide)).toInv.removeConnection hp t
    · exact (h.perform hp (a := .onConnect) (by decide)).toInv.removeConnection hp t

theorem Inv.serves_made {p : Prop} {s : State T} (h : Inv p s) (hloop : s.loop = .idle)
    (kind : Kind) {k : ℕ} (hk : k + 1 = s.sessions.length ∧ Good s k s.Target)
    (hkind : kind.connects = false → ∃ x, s.sessions[k]? = some x ∧ x.connects = false) :
    Serves True (s.makeTransport kind k) s.made where
  toInv := h.makeTransport hloop kind hk hkind
  session_eq := (session_eq rfl).symm
  made := Nat.lt_succ_self _

theorem Inv.connectionConnect {p : Prop} {s : State T} (h : Inv p s) (hloop : s.loop = .idle)
    {k : ℕ} (hk : k + 1 = s.sessions.length ∧ Good s k s.Target) (c : Choice) :
    ∃ p', Inv p' (s.ConnectionConnect k c) := by
  have hsame : Inv p { s with notices := 0 } := { h with }
  unfold ConnectionConnect
  simp only
  split
  · exact ⟨p, hsame⟩
  · split
    · exact ⟨p, hsame⟩
    · exact ⟨p, hsame⟩
    · exact ⟨p, hsame⟩
    · next kind hudp hicmp hkind =>
      refine ⟨True, (hsame.serves_made hloop kind hk fun hconnects => ?_).handleConnect trivial _⟩
      cases kind with
      | udp => exact absurd rfl hudp
      | icmp => exact absurd rfl hicmp
      | tcp => cases hconnects
      | tls => cases hconnects
      | serial => cases hconnects

theorem Inv.connectionListen {p : Prop} {s : State T} (h : Inv p s) (hloop : s.loop = .idle)
    {k : ℕ} (hk : k + 1 = s.sessions.length ∧ Good s k s.Target)
    (hlistens : ∃ x, s.sessions[k]? = some x ∧ x.connects = false) (c : Choice) :
    ∃ p', Inv p' (s.ConnectionListen k c) := by
  have hsame : Inv p { s with notices := 0 } := { h with }
  unfold ConnectionListen
  simp only
  split
  · exact ⟨p, hsame⟩
  · split
    · exact ⟨p, hsame⟩
    · exact ⟨p, hsame⟩
    · next kind hserial hkind =>
      exact ⟨True, (hsame.serves_made hloop kind hk fun _ => hlistens).handleListen trivial _⟩

/-! ### Messages are processed -/

/-- A message is taken out of the queue. -/
theorem Inv.dequeue {p : Prop} {s : State T} (h : Inv p s) {m : Message T}
    {rest : List (Message T)} (hqueue : s.m_MessageQueue = m :: rest) :
    Inv p { s with m_MessageQueue := rest } := by
  have hin {m' : Message T} (hm' : m' ∈ rest) : m' ∈ s.m_MessageQueue := by
    rw [hqueue]
    exact List.mem_cons_of_mem m hm'
  exact
    { h with
      toKinds := { h.toKinds with queue := fun m' hm' => h.toKinds.queue m' (hin hm') }
      sources := fun m' hm' => h.sources m' (hin hm')
      directives := fun m' hm' => h.directives m' (hin hm')
      callbacks := fun c k m_Target hm' => h.callbacks c k m_Target (hin hm') }

theorem Inv.processHead {p : Prop} {s : State T} (h : Inv p s) (hloop : s.loop = .idle)
    {m : Message T} {rest : List (Message T)} (hqueue : s.m_MessageQueue = m :: rest)
    (c : Choice) : ∃ p', Inv p' ({ s with m_MessageQueue := rest }.process c m) := by
  have hhead : m ∈ s.m_MessageQueue := by
    rw [hqueue]
    exact List.mem_cons_self
  have hrest := h.dequeue hqueue
  cases m with
  | connect k => exact hrest.connectionConnect hloop (h.directives _ hhead k rfl) c
  | listen k =>
    exact hrest.connectionListen hloop (h.directives _ hhead k rfl) (h.toKinds.queue _ hhead) c
  | disconnect =>
    have hp := (h.sources _ hhead s.session rfl).1
    exact ⟨p, hrest.connectionDisconnect hp c⟩
  | disconnected t bNotifyPlugin =>
    obtain ⟨hp, hsession⟩ := h.sources _ hhead (s.transports t).session rfl
    have hfine := h.toKinds.queue _ hhead
    refine ⟨p, hrest.disconnectEvent hp bNotifyPlugin (fun hb x hx => ?_) c⟩
    obtain ⟨x', hx', hconnects⟩ := h.toKinds.transports t hfine.1 (hfine.2 hb)
    rw [hsession] at hx'
    have heq : some x' = some x := hx'.symm.trans hx
    rw [← Option.some.inj heq, hconnects]
  | read t =>
    obtain ⟨hp, hsession⟩ := h.sources _ hhead (s.transports t).session rfl
    exact ⟨p, hrest.connectionRead hp hsession (h.toKinds.queue _ hhead) c⟩
  | write => exact ⟨p, hrest.connectionWrite c⟩
  | callback callback k m_Target =>
    obtain ⟨-, -, hends⟩ := h.callbacks callback k m_Target hhead
    exact ⟨p, hrest.callBack callback k m_Target hends⟩
  | other => exact ⟨p, hrest.setLoop (.python none) rfl fun heq => by cases heq⟩

theorem Inv.work {p : Prop} {s : State T} (h : Inv p s) (c : Choice) :
    ∃ p', Inv p' (s.work c) := by
  unfold State.work
  split
  · next hloop =>
    split
    · exact ⟨p, h⟩
    · next m rest hqueue => exact h.processHead hloop hqueue c
  · next t a hloop =>
    obtain ⟨hp, hsession⟩ := h.begun t a hloop
    have hsame := same_use s t
    have hfine := (h.toKinds.starting t a hloop).grows hsame.grows
    have hsession' := (hsame.session t).trans (hsession.trans hsame.current.symm)
    exact ⟨p, ((h.use t).perform hp hsession' hfine).idle⟩
  · exact ⟨p, h⟩

/-- Nothing is alive when the last session is over. -/
theorem Inv.over {p : Prop} {s : State T} (h : Inv p s) (hover : Over s) : Inv False s := by
  obtain ⟨hoperations, hasio, hloop, hqueue, hpresent⟩ := hover
  exact
    { h with
      operations := fun t ht hne => absurd (hoperations t ht) hne
      running := fun t rest hrun hne => absurd (hasio (t, rest) hrun) hne
      begun := fun t a hstarting => by
        rw [hstarting] at hloop
        cases hloop
      sources := fun m hm k hk => by
        rw [(hqueue m hm).2] at hk
        cases hk
      present := fun hp => by
        rw [hpresent] at hp
        cases hp
      alive := False.elim }

theorem Inv.returned {p : Prop} {s : State T} (h : Inv p s) (hcan : CanReturn s) :
    ∃ p', Inv p' s.returned := by
  unfold State.returned
  split
  · next hloop =>
    split
    · next hnone => exact absurd hnone (hcan hloop).1
    · next t ht =>
      have hidle := (h.use t).idle
      simp only
      split
      · exact ⟨p, hidle⟩
      · next hconnected =>
        have hnot : s.connected = false := by
          have hsame : (s.use t).transports = s.transports := by
            unfold State.use
            split <;> rfl
          simp only [hsame] at hconnected
          unfold State.connected
          rw [ht]
          exact Bool.eq_false_of_not_eq_true hconnected
        -- the attempt has failed at once, and nothing of it is left
        have hover : Over s := by
          rcases (hcan hloop).2 with hyes | hover
          · rw [hnot] at hyes
            cases hyes
          · exact hover
        have hfalse := ((h.over hover).use t).idle
        refine ⟨False, hfalse.noTarget fun k hk hex => ?_⟩
        rcases hex with hp | ⟨m, hm, hbegins⟩
        · exact hp.elim
        · have hqueue : (s.use t).m_MessageQueue = s.m_MessageQueue := by
            unfold State.use
            split <;> rfl
          have hm' : m ∈ s.m_MessageQueue := by
            rw [← hqueue]
            exact hm
          rw [(hover.2.2.2.1 m hm').1] at hbegins
          cases hbegins
  · next hloop =>
    refine ⟨p, h.idle.noTarget fun k hk _ x _ _ => ?_⟩
    exact .inl (h.told hloop k hk)
  · exact ⟨p, h.idle⟩
  · exact ⟨p, h⟩

/-! ### Python -/

/-- A session begins. -/
theorem Inv.accept {p : Prop} {s : State T} (h : Inv p s) (hcan : CanBegin s)
    (x : Session T) : Inv False (s.accept x) := by
  obtain ⟨hover, hconnect, hdisconnect, hends⟩ := hcan
  have hinv := h.over hover
  have hg : Grows s (s.accept x) := by
    refine ⟨Nat.le_refl _, fun _ _ => rfl, fun _ _ => rfl, fun k y hy => ?_⟩
    show (s.sessions ++ [x])[k]? = some y
    rw [List.getElem?_append_left (List.getElem?_eq_some_iff.mp hy).1]
    exact hy
  have hlast : (s.accept x).sessions[s.sessions.length]? = some x := by
    show (s.sessions ++ [x])[s.sessions.length]? = some x
    simp
  have hqueue : ∃ m, (s.accept x).m_MessageQueue = s.m_MessageQueue ++ [m] ∧
      (m = .connect s.sessions.length ∨ m = .listen s.sessions.length ∧ x.connects = false) := by
    unfold State.accept
    cases x.connects with
    | true => exact ⟨_, rfl, .inl rfl⟩
    | false => exact ⟨_, rfl, .inr ⟨rfl, rfl⟩⟩
  -- one message is queued, the first of the new session
  obtain ⟨m, hqueue, hm⟩ := hqueue
  have hold : ∀ m' ∈ (s.accept x).m_MessageQueue, m' ∈ s.m_MessageQueue ∨ m' = m := by
    intro m' hm'
    rw [hqueue] at hm'
    rcases List.mem_append.mp hm' with hin | hin
    · exact .inl hin
    · exact .inr (List.mem_singleton.mp hin)
  have hlength : (s.accept x).sessions.length = s.sessions.length + 1 := by
    show (s.sessions ++ [x]).length = _
    simp
  have hfresh : source (s.accept x) m = none ∧ begins m = some s.sessions.length ∧
      ∀ c k m_Target, m ≠ .callback c k m_Target := by
    rcases hm with rfl | ⟨rfl, -⟩ <;> exact ⟨rfl, rfl, fun _ _ _ heq => by cases heq⟩
  -- no transport is left that refers to an older session, so most parts hold for want of one
  exact
    { toKinds := by
        refine hinv.toKinds.of_grows hg rfl (fun _ _ hrun => .inl hrun) (fun _ _ hloop => hloop)
          (fun _ ht => ht) fun m' hm' => ?_
        rcases hold m' hm' with hin | rfl
        · exact .inl hin
        · right
          rcases hm with rfl | ⟨rfl, hlistens⟩
          · trivial
          · exact ⟨x, hlast, hlistens⟩
      operations := fun t ht hne => absurd (hover.1 t ht) hne
      running := fun t rest hrun hne => absurd (hover.2.1 (t, rest) hrun) hne
      begun := fun t a hloop => (hinv.begun t a hloop).1.elim
      sources := fun m' hm' k hk => by
        rcases hold m' hm' with hin | rfl
        · have hnone := (hover.2.2.2.1 m' hin).2
          cases m' with
          | disconnect => cases hnone
          | disconnected t b => cases hnone
          | read t => cases hnone
          | _ => cases hk
        · rw [hfresh.1] at hk
          cases hk
      present := fun hp => hinv.present hp
      alive := False.elim
      directives := fun m' hm' k hk => by
        rcases hold m' hm' with hin | rfl
        · rw [(hover.2.2.2.1 m' hin).1] at hk
          cases hk
        · rw [hfresh.2.1] at hk
          cases hk
          refine ⟨hlength.symm, fun y hy _ => .inr ?_⟩
          rw [hlast] at hy
          cases hy
          rfl
      callbacks := fun c k m_Target hm' => by
        rcases hold _ hm' with hin | heq
        · obtain ⟨hlt, hgood, -⟩ := hinv.callbacks c k m_Target hin
          refine ⟨?_, fun y hy => hgood y ?_, fun hc => ?_⟩
          · rw [hlength]
            omega
          · have hget : s.sessions[k]? = some s.sessions[k] := List.getElem?_eq_getElem hlt
            rw [hget]
            rw [hg.sessions k _ hget] at hy
            exact hy
          · have hnot : ends c = false := hends _ hin
            rw [hnot] at hc
            cases hc
        · exact absurd heq.symm (hfresh.2.2 c k m_Target)
      told := fun hloop => absurd hloop hdisconnect }

theorem Inv.call {p : Prop} {s : State T} (h : Inv p s) (c : Call T)
    (hcan : Orderly s (.call c)) : ∃ p', Inv p' (s.call c) := by
  unfold State.call
  split
  · next callback hloop =>
    have haccepts (hbusy : ¬ s.busy = true) : Accepts s := by
      refine ⟨?_, ?_, Bool.eq_false_of_not_eq_true hbusy⟩
      · rw [hloop]
        rfl
      · rw [hloop]
        exact fun heq => by cases heq
    cases c with
    | connect target =>
      simp only
      split
      · exact ⟨p, h⟩
      · next hbusy => exact ⟨False, h.accept (hcan (haccepts hbusy)) ⟨target, true⟩⟩
    | listen target =>
      simp only
      split
      · exact ⟨p, h⟩
      · next hbusy => exact ⟨False, h.accept (hcan (haccepts hbusy)) ⟨target, false⟩⟩
    | send => exact ⟨p, h.post (may_other (.inr rfl))⟩
    | disconnect =>
      simp only
      split
      · next hbusy =>
        have hp : p := h.present (by simp [Targets.present, hbusy])
        exact ⟨p, h.post (may_disconnect hp)⟩
      · exact ⟨p, h⟩
    | setTimeout value => exact ⟨p, { h with }⟩
  · exact ⟨p, h⟩

/-- What others post is for the session that is alive, or for nobody. -/
theorem Inv.postForeign {p : Prop} {s : State T} (h : Inv p s) {m : Message T}
    (hm : m.Foreign s = true) : Inv p (s.post m) := by
  cases m with
  | disconnect =>
    have hlist : (!s.m_Transports.isEmpty) = true := hm
    have hp : p := h.present (by simp [Targets.present, hlist])
    exact h.post (may_disconnect hp)
  | other => exact h.post (may_other (.inl rfl))
  | connect k => cases hm
  | listen k => cases hm
  | disconnected t b => cases hm
  | read t => cases hm
  | write => cases hm
  | callback c k m_Target => cases hm

/-! ### The runs -/

/-- What is under way belongs to one session. -/
def OneSession (s : State T) : Prop :=
  ∃ p, Inv p s

theorem oneSession_start : OneSession (Transports.start : State T) := by
  refine ⟨False, ?_⟩
  exact
    { transports := fun t ht => absurd ht (Nat.not_lt_zero t)
      asio := fun _ _ hrun => by cases hrun
      starting := fun _ _ hloop => by cases hloop
      current := fun _ hp => by cases hp
      queue := fun _ hm => absurd hm List.not_mem_nil
      operations := fun t ht => absurd ht (Nat.not_lt_zero t)
      running := fun _ _ hrun => by cases hrun
      begun := fun _ _ hloop => by cases hloop
      sources := fun _ hm => absurd hm List.not_mem_nil
      present := fun hp => by cases hp
      alive := False.elim
      directives := fun _ hm => absurd hm List.not_mem_nil
      callbacks := fun _ _ _ hm => absurd hm List.not_mem_nil
      told := fun hloop => by cases hloop }

/-- An orderly step keeps it. -/
theorem inv_step {s : State T} (h : OneSession s) (e : Event T) (he : Orderly s e) :
    OneSession (Transports.step s e) := by
  obtain ⟨p, hinv⟩ := h
  unfold Transports.step
  split
  · exact ⟨p, hinv⟩
  · cases e with
    | complete t o outcome => exact ⟨p, hinv.complete t o outcome⟩
    | asio => exact ⟨p, hinv.asioStep⟩
    | work c => exact hinv.work c
    | returned => exact hinv.returned he
    | call c => exact hinv.call c he
    | post m =>
      simp only
      split
      · next hm => exact ⟨p, hinv.postForeign hm⟩
      · exact ⟨p, hinv⟩

/-- The next message finds its target. -/
theorem OneSession.delivers {s : State T} (h : OneSession s) (e : Event T) : Delivers s e := by
  obtain ⟨p, hinv⟩ := h
  cases e with
  | work c =>
    show DeliversNext s s.loop s.m_MessageQueue
    cases hloop : s.loop with
    | idle =>
      cases hqueue : s.m_MessageQueue with
      | nil => trivial
      | cons m rest =>
        have hhead : m ∈ s.m_MessageQueue := by
          rw [hqueue]
          exact List.mem_cons_self
        cases m with
        | callback c k m_Target => exact (hinv.callbacks c k m_Target hhead).2.1
        | read t =>
          obtain ⟨hp, hsession⟩ := hinv.sources _ hhead (s.transports t).session rfl
          show Good s (s.transports t).session s.Target
          rw [hsession]
          exact (hinv.alive hp).2
        | _ => trivial
    | starting t a => trivial
    | python c => trivial
  | _ => trivial

/-- **In an orderly run the callbacks of a session go to its target**, until its end has been
reported. -/
theorem target_kept (es : List (Event T))
    (hes : Throughout Transports.step Orderly Transports.start es) :
    Throughout Transports.step Delivers Transports.start es :=
  throughout_of_kept (I := OneSession) (s := Transports.start) (fun _ e h he => inv_step h e he)
    (fun _ e h _ => h.delivers e) oneSession_start hes

theorem target_kept_twoSessions :
    Throughout Transports.step Orderly Transports.start (twoSessions 7 8) ∧
      Throughout Transports.step Delivers Transports.start (twoSessions 7 8) := by
  have hrun : Throughout Transports.step Orderly Transports.start (twoSessions 7 8) := by decide
  exact ⟨hrun, target_kept _ hrun⟩

/-- The other side closes; the plugin connects to another target in `onDisconnect`, whose end
clears it. -/
def connectsInside : List (Event ℕ) :=
  connects 7 ++ isConnected 0 ++
    [.complete 0 .read .failure, .asio, .asio, .asio, .work tcpChoice, .work tcpChoice,
      .call (.connect 8), .returned] ++ isConnected 1

theorem connectedInside_not_delivered :
    ¬ Throughout Transports.step Delivers Transports.start connectsInside := by
  decide

end Domoticz.Targets
