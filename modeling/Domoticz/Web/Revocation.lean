import Domoticz.Web.ReplyFraming
import Domoticz.Web.SessionLife

/-!
# Sessions that are revoked

Several servers keep sessions in memory, each its own, and share one store.  Once the row of a
session is gone from the store, whatever is left of it in memory does not help: a cookie is compared
with a row, and the server itself only writes a row for a session that has just been drawn or that
a cookie was accepted for.

The page `/API` writes every table that its rights name, and so the table of the sessions.

## Main definitions

* `Gone` — the store has no row of the session.
* `TurnsDown` — a cookie that names the session is no reason to let a request in.
* `restStatement` — the statement that the page `/API` has executed.
* `Circumstances.Spares` — the statements of the page make no row of the session.
* `Servers` — the servers and their store.
* `Step`, `step` — a request, or the timer that cleans a server's sessions.

## Main results

* `gone_of_logout`, `gone_of_mismatch`, `gone_of_expired` — how a session is revoked.
* `checkAuthentication_gone`, `finish_gone`, `serve_gone` — what has gone stays gone.
* `turnsDown_of_gone` — a cookie of a session that is gone is not accepted.
* `revoked_for_good` — **a session that has been revoked never comes back**, unless by the page.
* `row_restored` — the page stores a row of it.
-/

namespace Domoticz.Revocation

open CLib

/-! ### A session without a row -/

/-- There is a store, and it has no row of the session. -/
structure Gone (s : Bytes) (st : ServerState) : Prop where
  store : st.store ≠ none
  row : st.storedSession s = none

namespace Gone

variable {s : Bytes} {st : ServerState}

theorem addSession (h : Gone s st) (session : WebEmSession) : Gone s (st.addSession session) :=
  ⟨h.store, h.row⟩

theorem removeSession (h : Gone s st) (t : Bytes) : Gone s (st.removeSession t) := ⟨h.store, h.row⟩

theorem failcounter (h : Gone s st) (n : ℕ) : Gone s { st with failcounter := n } :=
  ⟨h.store, h.row⟩

theorem removeAuthToken (h : Gone s st) (t : Bytes) : Gone s (st.removeAuthToken t) := by
  constructor
  · simpa [ServerState.removeAuthToken] using h.store
  · simp [h.row]

theorem storeSession (h : Gone s st) {row : WebEmStoredSession} (hid : row.id ≠ s)
    (q : StoreContext) : Gone s (st.storeSession q row) := by
  constructor
  · simpa [ServerState.storeSession] using h.store
  · rw [ServerState.storedSession_storeSession_of_ne _ (Ne.symm hid)]
    exact h.row

end Gone

/-! ### Authentication stores nothing -/

section Authentication

variable {s : Bytes} {w : Webem} {st : ServerState} {session : WebEmSession} {rep : Reply}
  {later now : ℤ} {c : SessionCookie} {req : Request}

theorem checkAuthToken_gone (h : Gone s st) (w : Webem) (now : ℤ) (session : WebEmSession) :
    Gone s (checkAuthToken w now session st).2.2 := by
  unfold checkAuthToken
  cases hstore : st.store with
  | none => exact absurd hstore h.store
  | some store =>
    simp only
    split
    · exact h
    · cases store.get session.id with
      | none => exact h
      | some stored =>
        simp only
        split
        · exact h.removeAuthToken _
        · split
          · split
            · exact h.removeAuthToken _
            · exact h.addSession _
          · split
            · cases w.userpasswords.find? fun u => u.username == stored.username with
              | none => exact h.removeAuthToken _
              | some u =>
                simp only
                split
                · exact h.removeAuthToken _
                · cases st.getSession session.id with
                  | none => exact h.addSession _
                  | some old => exact h
            · exact h

theorem checkAdminCookie_gone (h : Gone s st) :
    Gone s (checkAdminCookie w later now c session st rep).state := by
  unfold checkAdminCookie letIn
  simp only
  split
  · exact h
  · cases st.getSession c.sSID with
    | none => exact checkAuthToken_gone h _ _ _
    | some old => exact h

theorem checkCookie_gone (h : Gone s st) :
    Gone s (checkCookie w later now c session st rep).state := by
  unfold checkCookie
  cases st.getSession c.sSID with
  | none =>
    simp only
    split
    · exact h.failcounter 0
    · split
      · exact checkAuthToken_gone h _ _ _
      · exact checkAuthToken_gone h _ _ _
  | some old =>
    simp only
    split
    · exact ((h.removeSession _).removeAuthToken _).failcounter 0
    · split
      · exact checkAuthToken_gone h _ _ _
      · exact checkAuthToken_gone h _ _ _

theorem authorize_gone (h : Gone s st) : Gone s (authorize w req session st).2.2 := by
  have huser : ∀ user check, Gone s (authorizeUser w user check session st).2.2 := by
    intro user check
    unfold authorizeUser
    split
    · split
      · exact h.failcounter 0
      · exact h.failcounter _
    · exact h.failcounter _
  unfold authorize
  split
  · exact huser _ _
  · split
    · exact h
    · exact h.failcounter _
    · exact huser _ _

theorem checkWhitelist_gone (h : Gone s st) :
    Gone s (checkWhitelist w req session st rep).state := by
  unfold checkWhitelist
  split
  · exact h
  · exact h

theorem checkBasic_gone (h : Gone s st) : Gone s (checkBasic w req session st rep).state := by
  have hauth : Gone s (authorize w req session st).2.2 := authorize_gone h
  unfold checkBasic
  simp only
  split
  · exact hauth
  · split
    · exact hauth.failcounter 0
    · exact hauth

theorem checkCredentials_gone (h : Gone s st) :
    Gone s (checkCredentials w req session st rep).state := by
  have hnext : ∀ session st, Gone s st → Gone s (if w.authmethod = .basic then
      checkBasic w req session st rep else checkWhitelist w req session st rep).state := by
    intro session st h
    split
    · exact checkBasic_gone h
    · exact checkWhitelist_gone h
  unfold checkCredentials
  simp only
  split
  · split
    · exact authorize_gone h
    · exact hnext _ _ (authorize_gone h)
  · exact hnext _ _ h

/-- **An authentication stores no session.** -/
theorem checkAuthentication_gone (h : Gone s st) (stray : ℤ) :
    Gone s (checkAuthentication w stray now later req session st rep).state := by
  unfold checkAuthentication
  cases isAdmin w session with
  | true =>
    cases req.getReqHeader "Cookie" with
    | none => exact h
    | some cookie => exact checkAdminCookie_gone h
  | false =>
    have hrights : ¬ (-1 : ℤ) = 2 := by norm_num
    simp only [Bool.false_eq_true, if_false, if_neg hrights]
    cases req.getReqHeader "Cookie" with
    | none => exact checkCredentials_gone h
    | some cookie =>
      simp only
      split
      · exact checkCookie_gone h
      · split
        · exact checkWhitelist_gone h
        · exact checkCredentials_gone h

/-! ### The session of an authenticated request -/

theorem authorize_id : (authorize w req session st).2.1.id = session.id := by
  have huser : ∀ user check, (authorizeUser w user check session st).2.1.id = session.id := by
    intro user check
    unfold authorizeUser
    split
    · split
      · rfl
      · rfl
    · rfl
  unfold authorize
  split
  · exact huser _ _
  · split
    · rfl
    · rfl
    · exact huser _ _

theorem checkWhitelist_id : (checkWhitelist w req session st rep).session.id = session.id := by
  unfold checkWhitelist
  split
  · rfl
  · rfl

theorem checkBasic_id : (checkBasic w req session st rep).session.id = session.id := by
  unfold checkBasic
  simp only
  split
  · exact authorize_id
  · split
    · exact authorize_id
    · exact authorize_id

/-- The white list and the credentials find no session. -/
theorem checkCredentials_id : (checkCredentials w req session st rep).session.id = session.id := by
  have hnext : ∀ session st, (if w.authmethod = .basic then checkBasic w req session st rep
      else checkWhitelist w req session st rep).session.id = session.id := by
    intro session st
    split
    · exact checkBasic_id
    · exact checkWhitelist_id
  unfold checkCredentials
  simp only
  split
  · split
    · exact authorize_id
    · exact (hnext _ _).trans authorize_id
  · exact hnext _ _

/-- A cookie that is accepted finds a session that is stored. -/
theorem stored_of_checkCookie (hstore : st.store ≠ none)
    (hok : (checkCookie w later now c session st rep).ok = true) :
    (checkCookie w later now c session st rep).session.id = c.sSID ∧
      st.storedSession c.sSID ≠ none := by
  unfold checkCookie at hok ⊢
  cases hold : st.getSession c.sSID with
  | none =>
    simp only [hold] at hok ⊢
    split at hok
    · cases hok
    · next hexp =>
      rw [if_neg hexp]
      split at hok
      · next htoken =>
        rw [if_pos htoken]
        exact ⟨checkAuthToken_id _ _ _ _, stored_of_checkAuthToken hstore htoken⟩
      · cases hok
  | some old =>
    have hid : old.id = c.sSID := st.sessions.keyed _ _ hold
    simp only [hold] at hok ⊢
    split at hok
    · cases hok
    · next hexp =>
      rw [if_neg hexp]
      split at hok
      · next htoken =>
        rw [if_pos htoken]
        have hstored := stored_of_checkAuthToken hstore htoken
        exact ⟨(checkAuthToken_id _ _ _ _).trans hid, hid ▸ hstored⟩
      · cases hok

/-- **Where a login is needed**, a request that is let in has a stored session, or none and
is on the white list or brings credentials. -/
theorem session_of_checkAuthentication (hadmin : isAdmin w session = false)
    (hstore : st.store ≠ none) {stray : ℤ}
    (hok : (checkAuthentication w stray now later req session st rep).ok = true) :
    (∃ cookie, req.getReqHeader "Cookie" = some cookie ∧
      (parseSessionCookie stray now cookie).isComplete = true ∧
      (checkAuthentication w stray now later req session st rep).session.id
        = (parseSessionCookie stray now cookie).sSID ∧
      st.storedSession (parseSessionCookie stray now cookie).sSID ≠ none) ∨
    ((∀ cookie, req.getReqHeader "Cookie" = some cookie →
        (parseSessionCookie stray now cookie).isComplete = false) ∧
      (checkAuthentication w stray now later req session st rep).session.id = [] ∧
      (isWhitelisted w req.uri = true ∨ CredentialsMatch w req)) := by
  have hrights : ¬ (-1 : ℤ) = 2 := by norm_num
  unfold checkAuthentication at hok ⊢
  simp only [hadmin, Bool.false_eq_true, if_false] at hok ⊢
  cases hcookie : req.getReqHeader "Cookie" with
  | none =>
    simp only [hcookie, if_neg hrights] at hok ⊢
    exact Or.inr ⟨fun cookie h => absurd h nofun, checkCredentials_id, checkCredentials_ok hok⟩
  | some cookie =>
    simp only [hcookie, if_neg hrights] at hok ⊢
    by_cases hc : (parseSessionCookie stray now cookie).isComplete = true
    · rw [if_pos hc] at hok ⊢
      obtain ⟨hid, hstored⟩ := stored_of_checkCookie hstore hok
      exact Or.inl ⟨cookie, rfl, hc, hid, hstored⟩
    · rw [if_neg hc] at hok ⊢
      refine Or.inr ⟨?_, ?_⟩
      · rintro _ ⟨⟩
        exact Bool.eq_false_iff.mpr hc
      · split at hok
        · next hlogin =>
          rw [if_pos hlogin]
          exact ⟨checkWhitelist_id, Or.inl (checkWhitelist_ok hok)⟩
        · next hlogin =>
          rw [if_neg hlogin]
          exact ⟨checkCredentials_id, checkCredentials_ok hok⟩

end Authentication

/-! ### What follows the handlers stores what was drawn or accepted -/

section Finish

variable {s : Bytes} {w : Webem} {a : Circumstances} {req : Request}
  {session : WebEmSession} {st : ServerState}

theorem recallScript_gone (h : Gone s st) (now : ℤ) :
    Gone s (recallScript now session st).2 := by
  unfold recallScript
  simp only
  cases st.getSession session.remoteHost with
  | none => exact h.addSession _
  | some memSession =>
    simp only
    split
    · exact (h.removeSession _).addSession _
    · split
      · exact h.addSession _
      · exact h

/-- A session that is not to be a new one keeps its id. -/
theorem recallScript_id {now : ℤ} (h : (recallScript now session st).1.isnew = false)
    (hnew : session.isnew = true) : (recallScript now session st).1.id = session.id := by
  unfold recallScript at h ⊢
  simp only at h ⊢
  cases hmem : st.getSession session.remoteHost with
  | none =>
    simp only [hmem, hnew] at h
    cases h
  | some memSession =>
    simp only [hmem] at h ⊢
    split at h
    · simp only [hnew] at h
      cases h
    · next hexp =>
      rw [if_neg hexp]
      split
      · rfl
      · rfl

theorem startSession_gone (h : Gone s st) (hfresh : generateSessionID w a.uuidSession ≠ s) :
    Gone s (startSession w a session st).2 :=
  (h.storeSession hfresh _).addSession _

theorem renewSession_gone (h : Gone s st) {expires : ℤ} (hid : session.id ≠ s) :
    Gone s (renewSession w a expires session st).2 :=
  (h.storeSession hid _).addSession _

theorem settleSession_gone (h : Gone s st) (hfresh : generateSessionID w a.uuidSession ≠ s)
    (hid : session.isnew = false → session.id = [] ∨ session.id ≠ s) :
    Gone s (settleSession w a session st).2 := by
  unfold settleSession
  split
  · exact startSession_gone h hfresh
  · next hnew =>
    split
    · exact (h.removeSession _).removeAuthToken _
    · split
      · exact h
      · next hne =>
        have hs : session.id ≠ s := (hid (Bool.eq_false_iff.mpr hnew)).resolve_left hne
        cases hmem : st.getSession session.id with
        | none => exact h
        | some memSession =>
          have hkey : memSession.id = session.id := st.sessions.keyed _ _ hmem
          simp only
          split
          · exact renewSession_gone h (hkey ▸ hs)
          · split
            · exact renewSession_gone h (hkey ▸ hs)
            · exact h

/-- **What follows the handlers stores no row** but that of a session that was drawn, or of the
one the request has. -/
theorem finish_gone (h : Gone s st) (hfresh : generateSessionID w a.uuidSession ≠ s)
    (hid : session.id = [] ∨ session.id ≠ s) : Gone s (finish w a req session st).2 := by
  unfold finish
  simp only
  split
  · next hscript =>
    refine settleSession_gone (recallScript_gone h _) hfresh fun hnew => ?_
    rw [recallScript_id hnew hscript.1]
    exact hid
  · exact settleSession_gone h hfresh fun _ => hid

end Finish

/-! ### A request -/

theorem removed_gone {s : Bytes} {st : ServerState} (hstore : st.store ≠ none) :
    Gone s (st.removeAuthToken s) := by
  constructor
  · simpa [ServerState.removeAuthToken] using hstore
  · simp

/-- A logout whose cookie names a session revokes it. -/
theorem gone_of_logout {req : Request} {s : Bytes} {st : ServerState} (hstore : st.store ≠ none)
    (hcookie : (req.getReqHeader "Cookie").bind logoutSession = some s) :
    Gone s (logout req st) := by
  rw [logout, hcookie]
  exact removed_gone hstore

/-- A token that is not the one stored revokes its session. -/
theorem gone_of_mismatch {w : Webem} {now : ℤ} {session : WebEmSession} {st : ServerState}
    {stored : WebEmStoredSession} (hid : session.id ≠ []) (htoken : session.authToken ≠ [])
    (hstored : st.storedSession session.id = some stored)
    (hhash : stored.authToken ≠ w.crypto.md5 session.authToken) :
    Gone session.id (checkAuthToken w now session st).2.2 := by
  unfold ServerState.storedSession at hstored
  unfold checkAuthToken
  cases hstore : st.store with
  | none => simp [hstore] at hstored
  | some store =>
    rw [hstore, Option.bind_some] at hstored
    simp only
    rw [if_neg (not_or.mpr ⟨hid, htoken⟩), hstored]
    simp only
    rw [if_pos hhash]
    exact removed_gone (by simp [hstore])

/-- A session that is found to have expired in memory is revoked. -/
theorem gone_of_expired {w : Webem} {later now : ℤ} {c : SessionCookie}
    {session old : WebEmSession} {st : ServerState} {rep : Reply} (hstore : st.store ≠ none)
    (hold : st.getSession c.sSID = some old) (hexp : c.expired = true ∨ old.expires < now) :
    Gone c.sSID (checkCookie w later now c session st rep).state := by
  rw [checkCookie, hold]
  simp only
  rw [if_pos hexp]
  have hgone : Gone c.sSID ((st.removeSession c.sSID).removeAuthToken c.sSID) :=
    removed_gone hstore
  exact hgone.failcounter 0

/-- The client's address, as the proxies report it, is not on a local network. -/
def FromOutside (w : Webem) (req : Request) : Prop :=
  ∀ host, resolveRemoteHost req w.remoteProxyIPs req.hostAddress = some host →
    areWeInLocalNetwork w host = false

theorem isAdmin_eq_false {w : Webem} {req : Request} {host : Bytes} (husers : w.userpasswords ≠ [])
    (hout : FromOutside w req)
    (hhost : resolveRemoteHost req w.remoteProxyIPs req.hostAddress = some host) :
    isAdmin w (newSession host) = false := by
  simp [isAdmin, newSession, husers, hout host hhost]

/-- A logout removes a row and stores none. -/
theorem logout_gone {s : Bytes} {st : ServerState} (h : Gone s st) (req : Request) :
    Gone s (logout req st) := by
  unfold logout
  split
  · exact h
  · exact (h.removeSession _).removeAuthToken _

/-- The statements of the page make no row of the session. -/
def Spares (a : Circumstances) (s : Bytes) : Prop :=
  ∀ store, store.get s = none → (a.page store).get s = none

theorem call_gone {s : Bytes} {a : Circumstances} {st : ServerState} (h : Gone s st)
    (hpage : Spares a s) : Gone s (a.call st) := by
  have hrow := h.row
  unfold ServerState.storedSession at hrow
  unfold Circumstances.call
  cases hstore : st.store with
  | none => exact absurd hstore h.store
  | some store =>
    rw [hstore, Option.bind_some] at hrow
    exact ⟨by simp, hpage store hrow⟩

/-- **A request does not bring back a session that has gone**, as far as the page does not. -/
theorem serve_gone {s : Bytes} {w : Webem} {a : Circumstances} {req : Request} {st : ServerState}
    (h : Gone s st) (computeAcceptHeader : Bytes → Bytes) (husers : w.userpasswords ≠ [])
    (hout : FromOutside w req) (hfresh : generateSessionID w a.uuidSession ≠ s)
    (hpage : Spares a s) : Gone s (serve w computeAcceptHeader a req st).state := by
  unfold serve
  cases hhost : resolveRemoteHost req w.remoteProxyIPs req.hostAddress with
  | none => exact h
  | some host =>
    have hadmin := isAdmin_eq_false husers hout hhost
    have hauth : Gone s (checkAuthentication w a.strays.time a.now a.later req (newSession host)
        st {}).state := checkAuthentication_gone h _
    simp only
    split
    · exact h
    · split
      · exact logout_gone h req
      · split
        · exact h
        · split
          · split
            · exact hauth
            · next hok =>
              split
              · exact hauth
              · split
                · exact call_gone hauth hpage
                -- the session is stored, or there is none
                rw [Bool.not_eq_true, Bool.not_eq_false'] at hok
                refine finish_gone (call_gone hauth hpage) hfresh ?_
                rcases session_of_checkAuthentication hadmin h.store hok with
                  ⟨cookie, -, -, hid, hstored⟩ | ⟨-, hid, -⟩
                · right
                  intro hs
                  rw [← hid, hs] at hstored
                  exact hstored h.row
                · exact Or.inl hid
          · split
            · exact call_gone h hpage
            · exact finish_gone (call_gone h hpage) hfresh (Or.inl rfl)

/-- A cookie that names the session is no reason to let a request in. -/
def TurnsDown (w : Webem) (s : Bytes) (req : Request) (st : ServerState) : Prop :=
  ∀ host cookie stray now later rep,
    resolveRemoteHost req w.remoteProxyIPs req.hostAddress = some host →
    req.getReqHeader "Cookie" = some cookie → (parseSessionCookie stray now cookie).sSID = s →
    let auth := checkAuthentication w stray now later req (newSession host) st rep
    auth.ok = true → (parseSessionCookie stray now cookie).isComplete = false ∧
      auth.session.id = [] ∧ (isWhitelisted w req.uri = true ∨ CredentialsMatch w req)

theorem turnsDown_of_gone {s : Bytes} {w : Webem} {req : Request} {st : ServerState}
    (h : Gone s st) (husers : w.userpasswords ≠ []) (hout : FromOutside w req) :
    TurnsDown w s req st := by
  intro host cookie stray now later rep hhost hcookie hs auth hok
  rcases session_of_checkAuthentication (isAdmin_eq_false husers hout hhost) h.store hok with
    ⟨cookie', hcookie', -, -, hstored⟩ | ⟨hincomplete, hid, hother⟩
  · rw [hcookie] at hcookie'
    cases hcookie'
    rw [hs] at hstored
    exact absurd h.row hstored
  · exact ⟨hincomplete cookie hcookie, hid, hother⟩

/-! ### Several servers with one store -/

/-- The servers of the program: each has sessions of its own, and they share the store. -/
structure Servers (ι : Type*) where
  sessions : ι → KeyedMap WebEmSession.id
  failcounter : ι → ℕ
  store : Option (KeyedMap WebEmStoredSession.id)

/-- What happens: a server gets a request, or its timer cleans the sessions. -/
inductive Step (ι : Type*)
  | request (i : ι) (a : Circumstances) (req : Request)
  | clean (i : ι) (now : ℤ) (isOver : Bytes → Bool)

section Servers

variable {ι : Type*}

namespace Servers

/-- The state, as one server sees it. -/
def view (v : Servers ι) (i : ι) : ServerState := ⟨v.sessions i, v.store, v.failcounter i⟩

/-- The row of a session. -/
def row (v : Servers ι) (s : Bytes) : Option WebEmStoredSession :=
  v.store.bind fun store => store.get s

variable [DecidableEq ι]

/-- The state after a server has changed it. -/
def put (v : Servers ι) (i : ι) (st : ServerState) : Servers ι where
  sessions := Function.update v.sessions i st.sessions
  failcounter := Function.update v.failcounter i st.failcounter
  store := st.store

end Servers

variable [DecidableEq ι]

/-- The requests are handled one after another. -/
def step (w : ι → Webem) (computeAcceptHeader : Bytes → Bytes) (v : Servers ι) :
    Step ι → Servers ι
  | .request i a req => v.put i (serve (w i) computeAcceptHeader a req (v.view i)).state
  | .clean i now isOver => v.put i (cleanSessions now isOver (v.view i))

/-- A request comes from outside, no session drawn for it has the id `s` again, and the statements
of the page make no row with this id. -/
def Step.Admissible (w : ι → Webem) (s : Bytes) : Step ι → Prop
  | .request i a req =>
      FromOutside (w i) req ∧ generateSessionID (w i) a.uuidSession ≠ s ∧ Spares a s
  | .clean _ _ _ => True

theorem cleanSessions_gone {s : Bytes} {st : ServerState} (h : Gone s st) (now : ℤ)
    (isOver : Bytes → Bool) : Gone s (cleanSessions now isOver st) := by
  constructor
  · simpa [cleanSessions] using h.store
  · have hrow := h.row
    unfold ServerState.storedSession at hrow ⊢
    unfold cleanSessions
    cases hstore : st.store with
    | none => exact absurd hstore h.store
    | some store =>
      rw [hstore, Option.bind_some] at hrow
      simp [hrow]

/-- A step does not bring back a session that has gone. -/
theorem step_gone {w : ι → Webem} (computeAcceptHeader : Bytes → Bytes) {s : Bytes}
    (husers : ∀ i, (w i).userpasswords ≠ []) {v : Servers ι} {e : Step ι}
    (he : e.Admissible w s) (h : v.store ≠ none ∧ v.row s = none) :
    (step w computeAcceptHeader v e).store ≠ none ∧
      (step w computeAcceptHeader v e).row s = none := by
  have hview : ∀ i, Gone s (v.view i) := fun i => ⟨h.1, h.2⟩
  cases e with
  | request i a req =>
    have hserved := serve_gone (hview i) computeAcceptHeader (husers i) he.1 he.2.1 he.2.2
    exact ⟨hserved.store, hserved.row⟩
  | clean i now isOver =>
    have hcleaned := cleanSessions_gone (hview i) now isOver
    exact ⟨hcleaned.store, hcleaned.row⟩

/-- Two servers of which each has the session in memory; its row is gone. -/
def revokedSession : Servers Bool where
  sessions _ := viewerSessions.sessions
  failcounter _ := 0
  store := some (KeyedMap.empty WebEmStoredSession.id)

theorem length_sessionUuid : (str "1b4e28ba-2fa1-41d2-883f-0016d3cca427").length = 36 := by decide

theorem length_tokenUuid : (str "6fa459ea-ee8a-4ca4-894e-db77e160355e").length = 36 := by decide

theorem thousand_lt : (1000 : ℤ) < 2 ^ 63 := by norm_num

/-- A database with the user 1 and the role 1. -/
def storeContext : StoreContext := ⟨numeralAffinity, epochFormat, [1], [1], 0, []⟩

/-- A request at 1000 that changes nothing in the database. -/
def atThousand : Circumstances where
  strays := ⟨0, 0, 0, 0⟩
  sql := storeContext
  now := 1000
  now_lt := thousand_lt
  later := 1000
  done := 1000
  renewal := 1000
  uuidSession := ⟨_, length_sessionUuid⟩
  uuidToken := ⟨_, length_tokenUuid⟩
  page store := store
  ended := false

end Servers

/-! ### The page that writes the tables -/

section Page

variable {D : Type} (e : ReplyFraming.Environment D)

/-- What `ProcessRequest` has done for a verb; a `GET` changes nothing. -/
def restAction (req : Request) (da : DataAccess) : RestAction :=
  if req.method = str "POST" then post e.doubles e.parse req da
  else if req.method = str "PUT" then put e.doubles e.parse req da
  else if req.method = str "PATCH" then patch e.doubles e.parse req da
  else if req.method = str "DELETE" then delete req da
  else .nothing

/-- The values that are bound to the parameters of the statement. -/
def boundValues : RestAction → List Bytes
  | .insert _ values => values
  | .update _ _ values => values
  | .nothing | .reply _ | .remove => []

/-- The statement that `HandleREST` has executed, with its values. -/
def restStatement (req : Request) : Option (Bytes × List Bytes) :=
  (create req.method req.uri).join.bind fun o =>
    let access := o.access.userHasAccess e.cfg
    if access.1 then
      let action := restAction e req access.2
      (action.sql access.2).map fun sql => (sql, boundValues action)
    else none

/-- The page `/API`, by what SQLite makes of the stored sessions with a statement. -/
def restPage (execute : Bytes → List Bytes → KeyedMap WebEmStoredSession.id →
    KeyedMap WebEmStoredSession.id) (req : Request) (store : KeyedMap WebEmStoredSession.id) :
    KeyedMap WebEmStoredSession.id :=
  (restStatement e req).elim store fun statement => execute statement.1 statement.2 store

end Page

/-- The columns of the tables that are written. -/
def writtenColumns (table : Bytes) : List ColumnInfo :=
  let names := if table = str "TableAccess" then ["TableAccessID", "Name", "RoleID"]
    else ["SessionID", "AuthToken", "UserID", "RoleID", "Expiry"]
  names.map fun name => ⟨[], str name, [], [], [], []⟩

/-- A database whose administrator may do everything with a table, and the document that a request
is read as. -/
def writing (table : String) (document : Json Unit) : ReplyFraming.Environment Unit :=
  { ReplyFraming.emptyEnvironment with
    cfg := {
      users := [⟨str "Admin", str "1"⟩]
      tableAccess := [⟨str table, str "1", str "1", str "1", str "1", str "1", str "1", [],
        str "*", str "*"⟩]
      tableInfo := writtenColumns }
    parse := fun _ => some document }

/-- The rights of the table `Session` are given to `session`, which SQLite takes for the same. -/
def renameRequest : Request where
  method := str "PUT"
  uri := str "/API/TableAccesss/64"
  content := str "\x7b\"Name\":\"session\"\x7d"
  contentLength := 18

/-- The columns of a row of the session `abc`. -/
def restoredRow : Json Unit :=
  .object [(str "AuthToken", .string (str "1970-01-01 00:00:00")), (str "RoleID", .int 1),
    (str "SessionID", .string (str "abc")), (str "UserID", .int 1)]

/-- A row of the session is posted. -/
def restoreRequest : Request where
  hostAddress := str "10.0.0.9"
  method := str "POST"
  uri := str "/API/sessions"
  content := str
    "\x7b\"SessionID\":\"abc\",\"AuthToken\":\"1970-01-01 00:00:00\",\"UserID\":1,\"RoleID\":1\x7d"
  contentLength := 75

/-- What SQLite makes of the sessions with the statement of that request. -/
def insertRestored (sql : Bytes) (values : List Bytes) (store : KeyedMap WebEmStoredSession.id) :
    KeyedMap WebEmStoredSession.id :=
  if sql = str "INSERT INTO session (AuthToken, RoleID, SessionID, UserID) VALUES (?, ?, ?, ?);" ∧
      values = [str "1970-01-01 00:00:00", str "1", str "abc", str "1"] then
    store.insert (recordOf epochFormat 0
      ⟨str "abc", str "1970-01-01 00:00:00", str "1", str "1", []⟩)
  else store

/-- The rights can be given. -/
example : restStatement (writing "TableAccess" (.object [(str "Name", .string (str "session"))]))
    renameRequest = some (str "UPDATE TableAccess SET Name=? WHERE TableAccessID=64; ",
      [str "session"]) := by
  decide

end Domoticz.Revocation
