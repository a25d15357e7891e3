import Domoticz.CLib.KeyedMap
import Domoticz.Web.Reply

/-!
# Web sessions

The embedded web server keeps the sessions of its clients in memory and, as far
as a session store is configured, the hash of each session's token in the store.
`checkAuthToken` compares a presented token with the stored hash and restores
what it can.

Hashing and base64 are parameters, and so is the time.

## Main definitions

* `Webem` — the settings of the server.
* `ServerState` — the sessions in memory, the session store, the counter of
  failed log-ins.
* `checkAuthToken` — the comparison with the store.

## Main results

* `checkAuthToken_ok_iff` — **when a token is accepted.**
-/

namespace Domoticz

open CLib

/-! ### Settings -/

/-- `_eAuthenticationMethod`. -/
inductive AuthMethod
  | login
  | basic
  deriving DecidableEq, Repr

/-- `_tWebUserPassword`. -/
structure WebUserPassword where
  username : Bytes
  password : Bytes
  userrights : ℤ
  deriving DecidableEq, Repr

/-- `_tIPNetwork`. -/
structure IPNetwork where
  network : UInt32
  mask : UInt32
  hostname : Bytes := []
  deriving DecidableEq, Repr

/-- The library functions the log-in rests on. -/
structure Crypto where
  /-- `GenerateMD5Hash`. -/
  md5 : Bytes → Bytes
  /-- `base64_decode`. -/
  base64Decode : Bytes → Bytes

/-- The settings of `cWebem`.  A page or an action is known by the name it is
registered under. -/
structure Webem where
  crypto : Crypto
  userpasswords : List WebUserPassword := []
  localnetworks : List IPNetwork := []
  remoteProxyIPs : List Bytes := []
  whitelistURLs : List Bytes := []
  authmethod : AuthMethod := .login
  digistRealm : Bytes := str "Domoticz.com"
  webRoot : Bytes := []
  actTheme : Bytes := []
  pages : List Bytes := []
  pagesW : List Bytes := []
  actions : List Bytes := []

/-! ### Sessions -/

/-- `_tWebEmSession`. -/
structure WebEmSession where
  id : Bytes := []
  remoteHost : Bytes := []
  authToken : Bytes := []
  username : Bytes := []
  replyStatus : Status := .ok
  timeout : ℤ := 0
  expires : ℤ := 0
  rights : ℤ := -1
  rememberme : Bool := false
  isnew : Bool := false
  forcelogin : Bool := false
  deriving DecidableEq, Repr

/-- The session `handle_request` starts with. -/
def newSession (remoteHost : Bytes) : WebEmSession := { remoteHost }

/-- `_tWebEmStoredSession`. -/
structure WebEmStoredSession where
  id : Bytes
  remoteHost : Bytes
  authToken : Bytes
  username : Bytes
  expires : ℤ
  deriving DecidableEq, Repr

/-- What the server keeps between requests; no store is `none`. -/
structure ServerState where
  sessions : KeyedMap WebEmSession.id
  store : Option (KeyedMap WebEmStoredSession.id)
  failcounter : ℕ

namespace ServerState

/-- `cWebem::GetSession`. -/
def getSession (st : ServerState) (ssid : Bytes) : Option WebEmSession := st.sessions.get ssid

/-- `cWebem::AddSession`. -/
def addSession (st : ServerState) (session : WebEmSession) : ServerState :=
  { st with sessions := st.sessions.insert session }

/-- `cWebem::RemoveSession`. -/
def removeSession (st : ServerState) (ssid : Bytes) : ServerState :=
  { st with sessions := st.sessions.erase ssid }

/-- `removeAuthToken`. -/
def removeAuthToken (st : ServerState) (ssid : Bytes) : ServerState :=
  { st with store := st.store.map fun s => s.erase ssid }

/-- The stored session of an id. -/
def storedSession (st : ServerState) (ssid : Bytes) : Option WebEmStoredSession :=
  st.store.bind fun s => s.get ssid

end ServerState

/-- `SHORT_SESSION_TIMEOUT`, ten minutes. -/
def shortSessionTimeout : ℤ := 600

/-- `checkAuthToken` at the time `now`: the answer, the session with what was
restored, and the state. -/
def checkAuthToken (w : Webem) (now : ℤ) (session : WebEmSession) (st : ServerState) :
    Bool × WebEmSession × ServerState :=
  match st.store with
  | none => (true, session, st)
  | some store =>
      if session.id = [] ∨ session.authToken = [] then (false, session, st)
      else match store.get session.id with
        | none => (false, session, st)
        | some stored =>
            if stored.authToken ≠ w.crypto.md5 session.authToken then
              (false, session, st.removeAuthToken session.id)
            else if session.rights = 2 then
              -- already admin: restore the session from the store
              let session := { session with expires := stored.expires }
              if session.expires < now then (false, session, st.removeAuthToken session.id)
              else
                let session := { session with timeout := now + shortSessionTimeout }
                (true, session, st.addSession session)
            else if session.username = [] then
              let session := { session with username := stored.username, expires := stored.expires }
              match w.userpasswords.find? fun u => u.username == session.username with
              | none => (false, session, st.removeAuthToken session.id)
              | some u =>
                  let session := { session with rights := u.userrights }
                  if session.expires < now then (false, session, st.removeAuthToken session.id)
                  else match st.getSession session.id with
                    | none => (true, session, st.addSession session)
                    | some _ => (true, session, st)
            else (true, session, st)

/-- **When a token is accepted.**  The expiry of the stored session counts for an
administrator and for a session without a name, and for nobody else. -/
theorem checkAuthToken_ok_iff (w : Webem) (now : ℤ) (session : WebEmSession) (st : ServerState) :
    (checkAuthToken w now session st).1 = true ↔
      st.store = none ∨
        ∃ stored, st.storedSession session.id = some stored ∧ session.id ≠ [] ∧
          session.authToken ≠ [] ∧ stored.authToken = w.crypto.md5 session.authToken ∧
          (session.rights = 2 → now ≤ stored.expires) ∧
          (session.rights ≠ 2 → session.username = [] →
            now ≤ stored.expires ∧ ∃ u ∈ w.userpasswords, u.username = stored.username) := by
  unfold checkAuthToken ServerState.storedSession
  cases hstore : st.store with
  | none => simp
  | some store =>
    simp only [reduceCtorEq, false_or, Option.bind_some]
    by_cases hempty : session.id = [] ∨ session.authToken = []
    · rw [if_pos hempty]
      refine ⟨fun h => absurd h (by simp), ?_⟩
      rintro ⟨stored, -, hid, htok, -⟩
      rcases hempty with h | h
      · exact absurd h hid
      · exact absurd h htok
    · rw [if_neg hempty]
      rw [not_or] at hempty
      cases hget : store.get session.id with
      | none => simp
      | some stored =>
        simp only [Option.some.injEq, exists_eq_left']
        by_cases hhash : stored.authToken = w.crypto.md5 session.authToken
        · rw [if_neg (by simp [hhash])]
          by_cases hadmin : session.rights = 2
          · rw [if_pos hadmin]
            split
            · next hexp => simp [hadmin]; omega
            · next hexp => simp [hadmin, hempty, hhash]; omega
          · rw [if_neg hadmin]
            by_cases hname : session.username = []
            · rw [if_pos hname]
              cases hfind : w.userpasswords.find? fun u => u.username == stored.username with
              | none =>
                have hnone : ¬ ∃ u ∈ w.userpasswords, u.username = stored.username := by
                  rintro ⟨u, hu, hux⟩
                  exact absurd hux (by simpa using List.find?_eq_none.mp hfind u hu)
                simp [hadmin, hname, hnone]
              | some u =>
                have hsome : ∃ u ∈ w.userpasswords, u.username = stored.username :=
                  ⟨u, List.mem_of_find?_eq_some hfind, by simpa using List.find?_some hfind⟩
                simp only
                split
                · next hexp =>
                  simp only [Bool.false_eq_true, false_iff]
                  rintro ⟨-, -, -, -, hlive⟩
                  have := (hlive hadmin hname).1
                  omega
                · next hexp =>
                  have hok : (match st.getSession session.id with
                      | none => (true, { session with
                          username := stored.username, expires := stored.expires,
                          rights := u.userrights }, st.addSession { session with
                          username := stored.username, expires := stored.expires,
                          rights := u.userrights })
                      | some _ => (true, { session with
                          username := stored.username, expires := stored.expires,
                          rights := u.userrights }, st)).1 = true := by
                    split <;> rfl
                  refine ⟨fun _ => ⟨hempty.1, hempty.2, hhash, fun h => absurd h hadmin,
                    fun _ _ => ⟨by omega, hsome⟩⟩, fun _ => hok⟩
            · simp [hname, hadmin, hempty, hhash]
        · rw [if_pos hhash]
          simp [hhash]

end Domoticz
