import Domoticz.Plugin.Transports
import Domoticz.Transition

/-!
# Disconnects

A disconnect is asked for by the plugin, the protocol, the loop or the stop sequence, and reported
by the handlers of a transport.  Which transport a report was made for is not kept with it: it is
applied to the one that the connection has when it is processed.  `delete` does not wait for what
was begun on a transport.

## Main definitions

* `Once` — no transport is removed twice, used after its end or mistaken for another one.
* `Orderly` — a transport is made when nothing is left of the last one, and deleted when nothing
  of it is outstanding.

## Main results

* `inv_step` — what an orderly step keeps.
* `disconnected_once` — **in an orderly run a transport ends once.**
-/

namespace Domoticz.Transports

open State Transition

variable {T : Type}

/-! ### What a disconnect is for -/

/-- The transport that a report or a read was made for. -/
def Message.event : Message T → Option ℕ
  | .disconnected t _ | .read t => some t
  | _ => none

/-- A transport is told of, removed and deleted once. -/
structure Once (s : State T) : Prop where
  /-- One `onDisconnectCallback` at most since the last `ConnectionConnect`. -/
  notices : s.notices ≤ 1
  /-- No transport was removed twice. -/
  nodup : s.removed.Nodup
  /-- Every transport was removed that the connection has no more. -/
  removed : ∀ t < s.made, s.pTransport ≠ some t → t ∈ s.removed
  /-- No transport was used after it was deleted, -/
  crash : s.crash ≠ some .dangling
  /-- nor can it be found. -/
  found : ∀ t, s.pTransport = some t ∨ t ∈ s.m_Transports → (s.transports t).deleted = false
  /-- The report that is next is applied to the transport that it was made for. -/
  applied : ∀ t bNotifyPlugin rest, s.loop = .idle →
    s.m_MessageQueue = .disconnected t bNotifyPlugin :: rest →
      ∀ t', s.pTransport = some t' → t' = t

/-- No handler of a transport runs. -/
def NotRunning (s : State T) (t : ℕ) : Prop :=
  ∀ run ∈ s.asio, run.1 = t → run.2 = []

/-- Nothing of a transport is outstanding, and no handler of it runs. -/
def Quiet (s : State T) (t : ℕ) : Prop :=
  (s.transports t).operations = [] ∧ NotRunning s t

instance notRunningDecidable (s : State T) (t : ℕ) : Decidable (NotRunning s t) :=
  inferInstanceAs (Decidable (∀ run ∈ s.asio, run.1 = t → run.2 = []))

instance quietDecidable (s : State T) (t : ℕ) : Decidable (Quiet s t) :=
  inferInstanceAs (Decidable (_ ∧ NotRunning s t))

/-- A transport can be made: the last one was deleted or not even started, and nothing that was
reported or read for it waits. -/
def CanMake (s : State T) : Prop :=
  (∀ t ∈ s.pTransport, t ∉ s.m_Transports ∧ Quiet s t) ∧ ∀ m ∈ s.m_MessageQueue, m.event = none

instance canMakeDecidable (s : State T) : Decidable (CanMake s) :=
  inferInstanceAs (Decidable ((∀ t ∈ s.pTransport, t ∉ s.m_Transports ∧ Quiet s t) ∧ _))

/-- A message is processed at a good time. -/
def CanProcess (s : State T) (c : Choice) : Message T → Prop
  | .connect _ => s.connected = false → c.kind.any Kind.connects = true → CanMake s
  | .listen _ => s.connected = false → c.kind.any Kind.listens = true → CanMake s
  | .disconnect => ∀ t ∈ s.pTransport, (s.transports t).AsyncDisconnect = false →
      (s.transports t).outstanding c.succeeds = [] ∧ NotRunning s t
  | .disconnected _ _ => ∀ t ∈ s.pTransport, Quiet s t
  | _ => True

instance canProcessDecidable (s : State T) (c : Choice) :
    (m : Message T) → Decidable (CanProcess s c m)
  | .connect _ => inferInstanceAs (Decidable (_ → _ → CanMake s))
  | .listen _ => inferInstanceAs (Decidable (_ → _ → CanMake s))
  | .disconnect => inferInstanceAs (Decidable (∀ t ∈ s.pTransport,
      (s.transports t).AsyncDisconnect = false →
        (s.transports t).outstanding c.succeeds = [] ∧ NotRunning s t))
  | .disconnected _ _ => inferInstanceAs (Decidable (∀ t ∈ s.pTransport, Quiet s t))
  | .read _ | .write | .callback _ _ _ | .other => .isTrue trivial

/-- The next message of the loop is processed at a good time. -/
def CanWork (s : State T) (c : Choice) : Loop → List (Message T) → Prop
  | .idle, m :: rest => CanProcess { s with m_MessageQueue := rest } c m
  | _, _ => True

instance canWorkDecidable (s : State T) (c : Choice) :
    (loop : Loop) → (queue : List (Message T)) → Decidable (CanWork s c loop queue)
  | .idle, m :: rest => canProcessDecidable { s with m_MessageQueue := rest } c m
  | .idle, [] | .starting _ _, _ | .python _, _ => .isTrue trivial

/-- Transports are made and deleted at a good time. -/
def Orderly (s : State T) : Event T → Prop
  | .work c => CanWork s c s.loop s.m_MessageQueue
  | _ => True

instance orderlyDecidable (s : State T) : (e : Event T) → Decidable (Orderly s e)
  | .work c => canWorkDecidable s c s.loop s.m_MessageQueue
  | .complete _ _ _ | .asio | .returned | .call _ | .post _ => .isTrue trivial

/-! ### The invariant -/

/-- What holds of the transports and of what is left of them. -/
structure Core (s : State T) : Prop where
  current : ∀ t, s.pTransport = some t → t < s.made ∧ (s.transports t).deleted = false
  listed : ∀ t ∈ s.m_Transports, s.pTransport = some t
  nodup : s.m_Transports.Nodup
  removed : ∀ t, t < s.made → (t ∈ s.removed ↔ t ∉ s.m_Transports)
  removed_lt : ∀ t ∈ s.removed, t < s.made
  once : s.removed.Nodup
  /-- What is outstanding is of the transport that the connection has. -/
  operations : ∀ t, (s.transports t).operations ≠ [] → s.pTransport = some t
  asio : ∀ t rest, s.asio = some (t, rest) → rest ≠ [] → s.pTransport = some t
  starting : ∀ t a, s.loop = .starting t a → s.pTransport = some t
  events : ∀ m ∈ s.m_MessageQueue, ∀ t, m.event = some t → ∀ t', s.pTransport = some t' → t' = t
  crash : s.crash ≠ some .dangling

/-- The plugin is told when the transport is gone. -/
structure Inv (s : State T) : Prop extends Core s where
  notices : s.notices ≤ 1 ∧ (s.pTransport ≠ none → s.notices = 0)

theorem Inv.once' {s : State T} (h : Inv s) : Once s where
  notices := h.notices.1
  nodup := h.once
  removed t ht hne := (h.removed t ht).mpr fun hin => hne (h.listed t hin)
  crash := h.crash
  found t hfound := by
    rcases hfound with hp | hin
    · exact (h.current t hp).2
    · exact (h.current t (h.listed t hin)).2
  applied t b rest _ hqueue t' hp := by
    refine h.events (.disconnected t b) ?_ t rfl t' hp
    rw [hqueue]
    exact List.mem_cons_self

theorem inv_start : Inv (start : State T) where
  current _ hp := by cases hp
  listed _ hin := absurd hin List.not_mem_nil
  nodup := List.nodup_nil
  removed t ht := absurd ht (Nat.not_lt_zero t)
  removed_lt _ hin := absurd hin List.not_mem_nil
  once := List.nodup_nil
  operations _ hne := absurd rfl hne
  asio _ _ hrun := by cases hrun
  starting _ _ hloop := by cases hloop
  events _ hin := absurd hin List.not_mem_nil
  crash h := by cases h
  notices := ⟨Nat.zero_le 1, fun _ => rfl⟩

/-- The transport of the connection is not deleted. -/
theorem Core.use_eq {s : State T} (h : Core s) {t : ℕ} (hp : s.pTransport = some t) :
    s.use t = s := by
  unfold use
  rw [(h.current t hp).2]
  rfl

/-- A step that changes the queue and the operations at most. -/
theorem Core.of_frame {s s' : State T} (h : Core s) (hframe : Frame s s')
    (hdeleted : ∀ t, (s'.transports t).deleted = (s.transports t).deleted)
    (hoperations : ∀ t, (s'.transports t).operations ≠ [] →
      (s.transports t).operations ≠ [] ∨ s.pTransport = some t)
    (hqueue : ∀ m ∈ s'.m_MessageQueue, m ∈ s.m_MessageQueue ∨
      ∀ t, m.event = some t → ∀ t', s.pTransport = some t' → t' = t) : Core s' where
  current t := by
    rw [hframe.pTransport, hframe.made, hdeleted]
    exact h.current t
  listed t := by
    rw [hframe.pTransport, hframe.m_Transports]
    exact h.listed t
  nodup := by
    rw [hframe.m_Transports]
    exact h.nodup
  removed t := by
    rw [hframe.made, hframe.removed, hframe.m_Transports]
    exact h.removed t
  removed_lt t := by
    rw [hframe.made, hframe.removed]
    exact h.removed_lt t
  once := by
    rw [hframe.removed]
    exact h.once
  operations t hne := by
    rw [hframe.pTransport]
    rcases hoperations t hne with hne | hp
    · exact h.operations t hne
    · exact hp
  asio t rest := by
    rw [hframe.asio, hframe.pTransport]
    exact h.asio t rest
  starting t a := by
    rw [hframe.loop, hframe.pTransport]
    exact h.starting t a
  events m hm t ht t' := by
    rw [hframe.pTransport]
    rcases hqueue m hm with hin | hevent
    · exact h.events m hin t ht t'
    · exact hevent t ht t'
  crash := by
    rw [hframe.crash]
    exact h.crash

theorem Inv.of_frame {s s' : State T} (h : Inv s) (hframe : Frame s s')
    (hdeleted : ∀ t, (s'.transports t).deleted = (s.transports t).deleted)
    (hoperations : ∀ t, (s'.transports t).operations ≠ [] →
      (s.transports t).operations ≠ [] ∨ s.pTransport = some t)
    (hqueue : ∀ m ∈ s'.m_MessageQueue, m ∈ s.m_MessageQueue ∨
      ∀ t, m.event = some t → ∀ t', s.pTransport = some t' → t' = t) : Inv s' where
  toCore := h.toCore.of_frame hframe hdeleted hoperations hqueue
  notices := by
    rw [hframe.notices, hframe.pTransport]
    exact h.notices

/-- A step that writes to the transport of the connection, and leaves it where it is. -/
theorem Core.setTransport {s : State T} (h : Core s) {t : ℕ} (hp : s.pTransport = some t)
    {x : Transport} (hx : x.deleted = (s.transports t).deleted) : Core (s.setTransport t x) := by
  refine h.of_frame (by constructor <;> rfl) ?_ ?_ fun m hm => .inl hm
  · intro t'
    by_cases heq : t' = t
    · subst heq
      simp [State.setTransport, hx]
    · simp [State.setTransport, Function.update_of_ne heq]
  · intro t' hne
    by_cases heq : t' = t
    · exact .inr (heq ▸ hp)
    · exact .inl (by simpa [State.setTransport, Function.update_of_ne heq] using hne)

/-- A message that is for no transport. -/
theorem Core.post {s : State T} (h : Core s) {m : Message T} (hm : m.event = none) :
    Core (s.post m) := by
  refine h.of_frame (by constructor <;> rfl) (fun _ => rfl) (fun _ hne => .inl hne) ?_
  intro m' hm'
  rcases List.mem_append.mp hm' with hin | hin
  · exact .inl hin
  · rw [List.mem_singleton.mp hin, hm]
    refine .inr fun t ht => ?_
    cases ht

/-- An action on the transport of the connection. -/
theorem Inv.perform {s : State T} (h : Inv s) {t : ℕ} (hp : s.pTransport = some t) (a : Action) :
    Inv (s.perform t a) := by
  obtain ⟨ms, hqueue, hms⟩ := perform_queue s t a
  refine h.of_frame (perform_frame s t a) (fun t' => (perform_transports s t a t').1) ?_ ?_
  · intro t' hne
    by_cases heq : t' = t
    · exact .inr (heq ▸ hp)
    · rw [(perform_transports s t a t').2.2.2 heq] at hne
      exact .inl hne
  · intro m hm
    rw [hqueue] at hm
    rcases List.mem_append.mp hm with hm | hm
    · exact .inl hm
    · refine .inr fun t₁ ht₁ t' hp' => ?_
      obtain rfl := Option.some.inj (hp.symm.trans hp')
      rcases hms m hm with rfl | ⟨b, rfl⟩ | rfl | ⟨c, -, rfl⟩
      · exact Option.some.inj ht₁
      · exact Option.some.inj ht₁
      · cases ht₁
      · cases ht₁

theorem Inv.post {s : State T} (h : Inv s) {m : Message T} (hm : m.event = none) :
    Inv (s.post m) :=
  { h.toCore.post hm with notices := h.notices }

/-- The protocol's messages are for no transport. -/
theorem Inv.postMessages {s : State T} (h : Inv s) (session n : ℕ) :
    Inv (s.postMessages session n) := by
  refine h.of_frame (postMessages_frame s session n) ?_ ?_ ?_
  · intro t
    rw [postMessages_transports]
  · intro t hne
    rw [postMessages_transports] at hne
    exact .inl hne
  · intro m hm
    rw [postMessages_queue] at hm
    rcases List.mem_append.mp hm with hin | hin
    · exact .inl hin
    · rw [List.eq_of_mem_replicate hin]
      refine .inr fun t ht => ?_
      cases ht

/-! ### The other thread -/

theorem Inv.complete {s : State T} (h : Inv s) (t : ℕ) (o : Operation) (outcome : Outcome) :
    Inv (s.complete t o outcome) := by
  unfold State.complete
  cases hasio : s.asio with
  | some run => exact h
  | none =>
    simp only
    split
    · next ho =>
      have hp : s.pTransport = some t := h.operations t (List.ne_nil_of_mem ho.2)
      have hinv : Inv (s.setTransport t
          { s.transports t with operations := (s.transports t).operations.erase o }) :=
        { h.toCore.setTransport hp
            (x := { s.transports t with operations := (s.transports t).operations.erase o }) rfl
          with notices := h.notices }
      have hrun : Inv { s.setTransport t
            { s.transports t with operations := (s.transports t).operations.erase o } with
          asio := some (t, handler (s.transports t).kind o outcome) } :=
        { hinv with
          asio := fun t' rest hsome _ => by
            cases hsome
            exact hp }
      rw [hrun.use_eq hp]
      exact hrun
    · exact h

theorem Inv.asioStep {s : State T} (h : Inv s) : Inv s.asioStep := by
  unfold State.asioStep
  cases hasio : s.asio with
  | none => exact h
  | some run =>
    obtain ⟨t, actions⟩ := run
    cases actions with
    | nil => exact { h with asio := fun t' rest hsome _ => by cases hsome }
    | cons a rest =>
      have hp := h.asio t (a :: rest) hasio (List.cons_ne_nil a rest)
      simp only
      rw [h.use_eq hp]
      have hinv := h.perform hp a
      exact
        { hinv with
          asio := fun t' rest' hsome _ => by
            cases hsome
            exact (perform_frame s t a).pTransport.trans hp }

/-! ### The loop -/

/-- A transport is taken out of the list, before it is deleted or when it could not be started. -/
theorem Core.removeConnection {s : State T} (h : Core s) {t : ℕ} (hp : s.pTransport = some t) :
    Core (s.RemoveConnection t) ∧ t ∉ (s.RemoveConnection t).m_Transports := by
  unfold RemoveConnection
  split
  · next ht =>
    have honly {t' : ℕ} (hin : t' ∈ s.m_Transports) : t' = t :=
      (Option.some.inj (hp.symm.trans (h.listed t' hin))).symm
    have hlist : s.m_Transports.erase t = [] := by
      rw [List.eq_nil_iff_forall_not_mem]
      intro t' hin
      rw [honly (List.mem_of_mem_erase hin)] at hin
      exact h.nodup.not_mem_erase hin
    have hnot : t ∉ s.removed := fun hin =>
      (h.removed t (h.current t hp).1).mp hin ht
    refine ⟨?_, by simp [hlist]⟩
    exact
      { h with
        listed := fun t' hin => by
          rw [hlist] at hin
          exact absurd hin List.not_mem_nil
        nodup := by
          rw [hlist]
          exact List.nodup_nil
        removed := fun t' ht' => by
          rw [hlist]
          simp only [List.mem_append, List.mem_singleton, List.not_mem_nil, not_false_eq_true,
            iff_true]
          by_cases hin : t' ∈ s.m_Transports
          · exact .inr (honly hin)
          · exact .inl ((h.removed t' ht').mpr hin)
        removed_lt := fun t' hin => by
          rcases List.mem_append.mp hin with hin | hin
          · exact h.removed_lt t' hin
          · rw [List.mem_singleton.mp hin]
            exact (h.current t hp).1
        once := by
          rw [List.nodup_append]
          refine ⟨h.once, List.nodup_singleton t, ?_⟩
          rintro t' hin _ hmem rfl
          rw [List.mem_singleton.mp hmem] at hin
          exact hnot hin }
  · next ht => exact ⟨h, ht⟩

theorem Inv.removeConnection {s : State T} (h : Inv s) {t : ℕ} (hp : s.pTransport = some t) :
    Inv (s.RemoveConnection t) where
  toCore := (h.toCore.removeConnection hp).1
  notices := by
    unfold RemoveConnection
    split
    · exact h.notices
    · exact h.notices

/-- It is deleted. -/
theorem Core.deleteTransport {s : State T} (h : Core s) {t : ℕ} (hp : s.pTransport = some t)
    (ht : t ∉ s.m_Transports) (hquiet : Quiet s t) (hloop : s.loop = .idle) :
    Core (s.deleteTransport t) := by
  have honly {t' : ℕ} (hp' : s.pTransport = some t') : t' = t :=
    (Option.some.inj (hp.symm.trans hp')).symm
  have hoperations (t' : ℕ) :
      ((s.deleteTransport t).transports t').operations = (s.transports t').operations := by
    by_cases heq : t' = t
    · subst heq
      simp [State.deleteTransport, State.setTransport]
    · simp [State.deleteTransport, State.setTransport, Function.update_of_ne heq]
  exact
    { h with
      current := fun t' hp' => by cases hp'
      listed := fun t' hin => by
        rw [honly (h.listed t' hin)] at hin
        exact absurd hin ht
      operations := fun t' hne => by
        rw [hoperations] at hne
        obtain rfl := honly (h.operations t' hne)
        exact absurd hquiet.1 hne
      asio := fun t' rest hrun hne => by
        obtain rfl := honly (h.asio t' rest hrun hne)
        exact absurd (hquiet.2 (t', rest) hrun rfl) hne
      starting := fun t' a hstarting => by
        have heq : Loop.starting t' a = .idle := hstarting.symm.trans hloop
        cases heq
      events := fun m hm t₁ ht₁ t' hp' => by cases hp' }

/-- The end of a transport. -/
theorem Core.removeAndDelete {s : State T} (h : Core s) {t : ℕ} (hp : s.pTransport = some t)
    (hquiet : Quiet s t) (hloop : s.loop = .idle) :
    Core ((s.RemoveConnection t).deleteTransport t) ∧
      ((s.RemoveConnection t).deleteTransport t).notices = s.notices := by
  obtain ⟨hcore, hnot⟩ := h.removeConnection hp
  have hsame : (s.RemoveConnection t).pTransport = s.pTransport ∧
      (s.RemoveConnection t).transports = s.transports ∧
      (s.RemoveConnection t).asio = s.asio ∧ (s.RemoveConnection t).loop = s.loop ∧
      (s.RemoveConnection t).notices = s.notices := by
    unfold RemoveConnection
    split <;> exact ⟨rfl, rfl, rfl, rfl, rfl⟩
  obtain ⟨hpTransport, htransports, hasio, hidle, hnotices⟩ := hsame
  refine ⟨hcore.deleteTransport (hpTransport.trans hp) hnot ?_ (hidle.trans hloop), hnotices⟩
  unfold Quiet NotRunning
  rw [htransports, hasio]
  exact hquiet

/-- A new transport, when nothing is left of the last one. -/
theorem Inv.makeTransport {s : State T} (h : Inv s) (kind : Kind) (session : ℕ)
    (hmake : CanMake s) (hloop : s.loop = .idle) :
    Inv ({ s with notices := 0 }.makeTransport kind session) := by
  -- no transport is left, nor an operation or a handler of one
  have hnone : s.m_Transports = [] := by
    rw [List.eq_nil_iff_forall_not_mem]
    intro t hin
    exact (hmake.1 t (h.listed t hin)).1 hin
  have hoperations (t : ℕ) : (s.transports t).operations = [] := by
    by_contra hne
    exact hne (hmake.1 t (h.operations t hne)).2.1
  have hasio (t : ℕ) (rest : List Action) (hrun : s.asio = some (t, rest)) : rest = [] := by
    by_contra hne
    exact hne ((hmake.1 t (h.asio t rest hrun hne)).2.2 (t, rest) hrun rfl)
  have hnew (t : ℕ) : ((({ s with notices := 0 } : State T).makeTransport kind
      session).transports t).operations = [] := by
    by_cases heq : t = s.made
    · subst heq
      simp [State.makeTransport, State.setTransport]
    · simpa [State.makeTransport, State.setTransport, Function.update_of_ne heq]
        using hoperations t
  exact
    { current := fun t hp => by
        cases hp
        exact ⟨Nat.lt_succ_self _, by simp [State.makeTransport, State.setTransport]⟩
      listed := fun t hin => by
        have hin' : t ∈ s.m_Transports ++ [s.made] := hin
        rw [hnone] at hin'
        rw [List.mem_singleton.mp hin']
        rfl
      nodup := by
        show (s.m_Transports ++ [s.made]).Nodup
        rw [hnone]
        exact List.nodup_singleton _
      removed := fun t ht => by
        show t ∈ s.removed ↔ t ∉ s.m_Transports ++ [s.made]
        rw [hnone, List.nil_append, List.mem_singleton]
        rcases Nat.lt_succ_iff_lt_or_eq.mp ht with ht | rfl
        · refine iff_of_true ?_ (Nat.ne_of_lt ht)
          rw [h.removed t ht, hnone]
          exact List.not_mem_nil
        · refine iff_of_false ?_ fun hne => hne rfl
          exact fun hin => Nat.lt_irrefl _ (h.removed_lt _ hin)
      removed_lt := fun t hin => Nat.lt_succ_of_lt (h.removed_lt t hin)
      once := h.once
      operations := fun t hne => absurd (hnew t) hne
      asio := fun t rest hrun hne => absurd (hasio t rest hrun) hne
      starting := fun t a hstarting => by
        have heq : Loop.starting t a = .idle := hstarting.symm.trans hloop
        cases heq
      events := fun m hm t ht => by
        rw [hmake.2 m hm] at ht
        cases ht
      notices := ⟨Nat.zero_le 1, fun _ => rfl⟩
      crash := h.crash }

/-- An operation is begun, and the loop will write a flag next. -/
theorem Inv.startThen {s : State T} (h : Inv s) {t : ℕ} (hp : s.pTransport = some t)
    (o : Operation) (a : Action) : Inv { s.start t o with loop := .starting t a } :=
  { h.perform hp (.start o) with
    starting := fun t' a' hstarting => by
      cases hstarting
      exact hp }

theorem Inv.handleConnect {s : State T} (h : Inv s) {t : ℕ} (hp : s.pTransport = some t)
    (succeeds : Bool) : Inv (s.handleConnect t succeeds) := by
  unfold State.handleConnect
  split
  · split
    · have hset := h.perform hp (.setConnected true)
      have hconnect := hset.perform hp .onConnect
      have hstart := hconnect.perform hp (.start .read)
      exact hstart.perform hp .configureTimeout
    · exact h.startThen hp .resolve (.setConnecting true)
  · exact (h.perform hp .onConnect).removeConnection hp

theorem Inv.handleListen {s : State T} (h : Inv s) {t : ℕ} (hp : s.pTransport = some t)
    (succeeds : Bool) : Inv (s.handleListen t succeeds) := by
  unfold State.handleListen
  split
  · split
    · exact h.startThen hp .read (.setConnected true)
    · exact (h.perform hp (.setConnecting true)).perform hp (.start .resolve)
    · exact h.startThen hp .accept (.setConnecting true)
  · split
    · exact ((h.perform hp (.setConnecting true)).perform hp .onConnect).removeConnection hp
    · exact (h.perform hp .onConnect).removeConnection hp

theorem Inv.connectionConnect {s : State T} (h : Inv s) (session : ℕ) (c : Choice)
    (hloop : s.loop = .idle)
    (hmake : s.connected = false → c.kind.any Kind.connects = true → CanMake s) :
    Inv (s.ConnectionConnect session c) := by
  have hsame : Inv { s with notices := 0 } :=
    { h with notices := ⟨Nat.zero_le 1, fun _ => rfl⟩ }
  unfold ConnectionConnect
  simp only
  split
  · exact hsame
  · next hconnected =>
    have hconnected' : s.connected = false := Bool.eq_false_of_not_eq_true hconnected
    split
    · exact hsame
    · exact hsame
    · exact hsame
    · next kind hudp hicmp hkind =>
      have hconnects : c.kind.any Kind.connects = true := by
        rw [hkind]
        cases kind <;> simp_all [Kind.connects]
      exact (h.makeTransport kind session (hmake hconnected' hconnects) hloop).handleConnect rfl _

theorem Inv.connectionListen {s : State T} (h : Inv s) (session : ℕ) (c : Choice)
    (hloop : s.loop = .idle)
    (hmake : s.connected = false → c.kind.any Kind.listens = true → CanMake s) :
    Inv (s.ConnectionListen session c) := by
  have hsame : Inv { s with notices := 0 } :=
    { h with notices := ⟨Nat.zero_le 1, fun _ => rfl⟩ }
  unfold ConnectionListen
  simp only
  split
  · exact hsame
  · next hconnected =>
    have hconnected' : s.connected = false := Bool.eq_false_of_not_eq_true hconnected
    split
    · exact hsame
    · exact hsame
    · next kind hserial hkind =>
      have hlistens : c.kind.any Kind.listens = true := by
        rw [hkind]
        cases kind <;> simp_all [Kind.listens]
      exact (h.makeTransport kind session (hmake hconnected' hlistens) hloop).handleListen rfl _

/-- The plugin was told before or after the transport was deleted. -/
theorem Core.toInv {s : State T} (h : Core s) (hp : s.pTransport = none)
    (hnotices : s.notices ≤ 1) : Inv s :=
  { h with notices := ⟨hnotices, fun hne => absurd hp hne⟩ }

theorem Inv.connectionDisconnect {s : State T} (h : Inv s) (c : Choice) (hloop : s.loop = .idle)
    (hquiet : ∀ t ∈ s.pTransport, (s.transports t).AsyncDisconnect = false →
      (s.transports t).outstanding c.succeeds = [] ∧ NotRunning s t) :
    Inv (s.ConnectionDisconnect c) := by
  have hinv := h.postMessages s.session c.messages
  have hframe := postMessages_frame s s.session c.messages
  have htransports := postMessages_transports s s.session c.messages
  unfold ConnectionDisconnect
  simp only
  -- from here on the state is the one behind `Flush`
  generalize hs' : s.postMessages s.session c.messages = s' at hinv hframe htransports
  rw [← hframe.pTransport, ← htransports] at hquiet
  have hloop' : s'.loop = .idle := hframe.loop.trans hloop
  cases hp : s'.pTransport with
  | none => exact hinv
  | some t =>
    obtain ⟨x, ⟨-, -, hdeleted⟩, hoperations, hcases⟩ := handleDisconnect_cases s' t c.succeeds
    have hset := hinv.toCore.setTransport hp hdeleted
    simp only
    split
    · next hasync =>
      -- only a serial port reports its end here, and it is not asynchronous
      rcases hcases with heq | ⟨hserial, -⟩
      · rw [heq]
        exact { hset with notices := hinv.notices }
      · simp [Transport.AsyncDisconnect, hserial] at hasync
    · next hasync =>
      obtain ⟨hnothing, hrun⟩ := hquiet t hp (Bool.eq_false_of_not_eq_true hasync)
      have hclosed : Core (s'.handleDisconnect t c.succeeds) ∧
          (s'.handleDisconnect t c.succeeds).pTransport = some t ∧
          (s'.handleDisconnect t c.succeeds).notices ≤ 1 ∧
          (s'.handleDisconnect t c.succeeds).loop = .idle ∧
          Quiet (s'.handleDisconnect t c.succeeds) t := by
        have hzero : s'.notices = 0 := hinv.notices.2 (by simp [hp])
        have hempty : x.operations = [] := hoperations.trans hnothing
        have hrun' : NotRunning s' t := by
          unfold NotRunning
          rw [hframe.asio]
          exact hrun
        rcases hcases with heq | ⟨-, heq⟩
        · rw [heq]
          refine ⟨hset, hp, hinv.notices.1, hloop', ?_, hrun'⟩
          simp [State.setTransport, hempty]
        · rw [heq]
          refine ⟨{ hset.post (m := .callback .onDisconnect _ s'.Target) rfl with }, hp, ?_,
            hloop', ?_, hrun'⟩
          · show s'.notices + 1 ≤ 1
            rw [hzero]
          · simp [State.postDisconnect, State.postCallback, State.post, State.setTransport, hempty]
      obtain ⟨hcore, hp', hnotices, hidle, hquiet'⟩ := hclosed
      obtain ⟨hend, hsame⟩ := hcore.removeAndDelete hp' hquiet' hidle
      exact hend.toInv rfl (hsame ▸ hnotices)

theorem Inv.disconnectEvent {s : State T} (h : Inv s) (bNotifyPlugin : Bool) (c : Choice)
    (hloop : s.loop = .idle) (hquiet : ∀ t ∈ s.pTransport, Quiet s t) :
    Inv (s.DisconnectEvent bNotifyPlugin c) := by
  have hinv := h.postMessages s.session c.messages
  have hframe := postMessages_frame s s.session c.messages
  have htransports := postMessages_transports s s.session c.messages
  unfold DisconnectEvent
  simp only
  generalize hs' : s.postMessages s.session c.messages = s' at hinv hframe htransports
  unfold Quiet NotRunning at hquiet
  rw [← hframe.pTransport, ← htransports, ← hframe.asio] at hquiet
  have hloop' : s'.loop = .idle := hframe.loop.trans hloop
  cases hp : s'.pTransport with
  | none => exact hinv
  | some t =>
    have hzero : s'.notices = 0 := hinv.notices.2 (by simp [hp])
    obtain ⟨hend, hsame⟩ := hinv.toCore.removeAndDelete hp (hquiet t hp) hloop'
    simp only
    split
    · have htold := hend.post
        (m := .callback .onDisconnect (s'.transports t).session
          ((s'.RemoveConnection t).deleteTransport t).Target) rfl
      have hcore : Core (((s'.RemoveConnection t).deleteTransport t).postDisconnect
          (s'.transports t).session) := { htold with }
      refine hcore.toInv rfl ?_
      show ((s'.RemoveConnection t).deleteTransport t).notices + 1 ≤ 1
      rw [hsame, hzero]
    · have hcore : Core { (s'.RemoveConnection t).deleteTransport t with Target := none } :=
        { hend with }
      refine hcore.toInv rfl ?_
      show ((s'.RemoveConnection t).deleteTransport t).notices ≤ 1
      rw [hsame, hzero]
      exact Nat.zero_le 1

/-- A null pointer is not a transport that was deleted. -/
theorem Inv.null {s : State T} (h : Inv s) : Inv { s with crash := some .null } :=
  { h with crash := fun heq => by cases heq }

theorem Inv.connectionRead {s : State T} (h : Inv s) (t : ℕ) (c : Choice)
    (ht : ∀ t', s.pTransport = some t' → t' = t) : Inv (s.ConnectionRead t c) := by
  unfold ConnectionRead
  split
  · exact h.null
  · have hinv := h.postMessages (s.transports t).session c.messages
    have hframe := postMessages_frame s (s.transports t).session c.messages
    simp only
    split
    · refine hinv.of_frame (by constructor <;> rfl) (fun _ => rfl) (fun _ hne => .inl hne) ?_
      intro m hm
      rcases List.mem_append.mp hm with hin | hin
      · exact .inl hin
      · rw [List.mem_singleton.mp hin, hframe.pTransport]
        refine .inr fun t₁ ht₁ t' hp => ?_
        cases ht₁
        exact ht t' hp
    · exact hinv

theorem Inv.connectionWrite {s : State T} (h : Inv s) (c : Choice) :
    Inv (s.ConnectionWrite c) := by
  unfold ConnectionWrite
  split
  · split
    · exact h.null
    · exact h
  · next t hp =>
    split
    · exact h
    · split
      · exact h
      · split
        · exact h.null
        · split
          · exact h.perform hp (.start .wait)
          · exact h

theorem Inv.python {s : State T} (h : Inv s) (c : Option Callback) :
    Inv { s with loop := .python c } :=
  { h with starting := fun _ _ hloop => by cases hloop }

theorem Inv.callBack {s : State T} (h : Inv s) (c : Callback) (session : ℕ)
    (m_Target : Option T) : Inv (s.callBack c session m_Target) := by
  cases m_Target with
  | none => exact h
  | some _ => exact { h.python (some c) with }

/-- A message is processed, after it was taken out of the queue. -/
theorem Inv.process {s : State T} (h : Inv s) (c : Choice) (m : Message T)
    (hloop : s.loop = .idle) (hcan : CanProcess s c m)
    (hm : ∀ t, m.event = some t → ∀ t', s.pTransport = some t' → t' = t) :
    Inv (s.process c m) := by
  cases m with
  | connect session => exact h.connectionConnect session c hloop hcan
  | listen session => exact h.connectionListen session c hloop hcan
  | disconnect => exact h.connectionDisconnect c hloop hcan
  | disconnected t bNotifyPlugin => exact h.disconnectEvent bNotifyPlugin c hloop hcan
  | read t => exact h.connectionRead t c (hm t rfl)
  | write => exact h.connectionWrite c
  | callback callback session m_Target => exact h.callBack callback session m_Target
  | other => exact h.python none

theorem Inv.work {s : State T} (h : Inv s) (c : Choice)
    (hcan : CanWork s c s.loop s.m_MessageQueue) : Inv (s.work c) := by
  unfold State.work
  split
  · next hloop =>
    split
    · exact h
    · next m rest hqueue =>
      have hinv : Inv { s with m_MessageQueue := rest } :=
        { h with
          events := fun m' hm' => by
            refine h.events m' ?_
            rw [hqueue]
            exact List.mem_cons_of_mem m hm' }
      rw [hloop, hqueue] at hcan
      refine hinv.process c m hloop hcan ?_
      intro t ht t' hp
      refine h.events m ?_ t ht t' hp
      rw [hqueue]
      exact List.mem_cons_self
  · next t a hloop =>
    have hp := h.starting t a hloop
    rw [h.use_eq hp]
    exact { h.perform hp a with starting := fun _ _ hidle => by cases hidle }
  · exact h

/-- The loop is idle again. -/
theorem Inv.idle {s : State T} (h : Inv s) : Inv { s with loop := .idle } :=
  { h with starting := fun _ _ hloop => by cases hloop }

theorem Inv.noTarget {s : State T} (h : Inv s) : Inv { s with Target := none } :=
  { h with }

theorem Inv.returned {s : State T} (h : Inv s) : Inv s.returned := by
  unfold State.returned
  split
  · split
    · exact h.null
    · next t hp =>
      rw [h.use_eq hp]
      simp only
      split
      · exact h.idle
      · exact h.idle.noTarget
  · exact h.idle.noTarget
  · exact h.idle
  · exact h

/-! ### Python -/

theorem Inv.accept {s : State T} (h : Inv s) (x : Session T) : Inv (s.accept x) := by
  unfold State.accept
  simp only
  split
  · exact { h.post (m := .connect s.sessions.length) rfl with }
  · exact { h.post (m := .listen s.sessions.length) rfl with }

theorem Inv.call {s : State T} (h : Inv s) (c : Call T) : Inv (s.call c) := by
  unfold State.call
  split
  · cases c with
    | connect target =>
      simp only
      split
      · exact h
      · exact h.accept ⟨target, true⟩
    | listen target =>
      simp only
      split
      · exact h
      · exact h.accept ⟨target, false⟩
    | send => exact h.post rfl
    | disconnect =>
      simp only
      split
      · exact h.post rfl
      · exact h
    | setTimeout value => exact { h with }
  · exact h

theorem Message.Foreign.event {s : State T} {m : Message T} (hm : m.Foreign s = true) :
    m.event = none := by
  cases m <;> first | rfl | cases hm

/-! ### The runs -/

/-- An orderly step keeps what is known of the transports. -/
theorem inv_step {s : State T} (h : Inv s) (e : Event T) (he : Orderly s e) : Inv (step s e) := by
  unfold step
  split
  · exact h
  · cases e with
    | complete t o outcome => exact h.complete t o outcome
    | asio => exact h.asioStep
    | work c => exact h.work c he
    | returned => exact h.returned
    | call c => exact h.call c
    | post m =>
      simp only
      split
      · next hm => exact h.post (Message.Foreign.event hm)
      · exact h

/-- **In an orderly run a transport ends once**: the plugin is told of it at most once, it leaves
the list at most once, nobody uses it afterwards, and no report for it is applied to another. -/
theorem disconnected_once (es : List (Event T)) (hes : Throughout step Orderly start es) :
    ∀ es', es' <+: es → Once (es'.foldl step start) := by
  intro es' hprefix
  have hinv : Inv (es'.foldl step start) :=
    throughout_invariant (I := Inv) (s := start) (fun s e h he => inv_step h e he) inv_start hes
      es' hprefix
  exact hinv.once'

/-! ### Two runs -/

theorem disconnected_once_twoSessions :
    Throughout step Orderly start (twoSessions () ()) ∧
      ∀ es', es' <+: twoSessions () () → Once (es'.foldl step start) := by
  have hrun : Throughout step Orderly start (twoSessions () ()) := by decide
  exact ⟨hrun, disconnected_once _ hrun⟩

/-- The plugin disconnects and connects again before the read was aborted: the end of the first
transport is reported when the second one is there. -/
def reconnects : List (Event Unit) :=
  connects () ++ isConnected 0 ++
    [.post .other, .work tcpChoice, .call .disconnect, .returned, .work tcpChoice] ++
    connects () ++
    [.work tcpChoice, .work tcpChoice, .complete 0 .read .failure, .asio, .asio, .asio]

theorem reconnected_not_once : ¬ Once (reconnects.foldl step start) := by
  intro h
  have heq : 1 = 0 := h.applied 0 true [] (by decide) (by decide) 1 (by decide)
  cases heq

end Domoticz.Transports
