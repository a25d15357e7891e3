import Domoticz.Web.Authorize
import Domoticz.Web.Network

/-!
# Authentication of a request

`CheckAuthentication` decides whether a request is carried out.  It looks at the
user list and the networks first, then at the session cookie, and then, as far as
the settings and the URI let it, at the credentials and the white list.

A time stamp in a cookie that consists of white space leaves the variable it is
read into alone; the value found there is the parameter `stray`.  The time is
read once for the cookie, and again when the token is compared with the store.

## Main definitions

* `parseSessionCookie` — the session cookie.
* `checkAuthentication` — `CheckAuthentication`.
* `Entitled` — what a request must show to be let in.
* `StoreNotAsked` — the cookies that are accepted without an unexpired stored
  session.

## Main results

* `checkAuthentication_sound_iff` — **whoever is let in is entitled, exactly when
  the store is asked or the request is entitled anyway.**
* `expired_row_accepted` — a session that has expired in the store is let in.
-/

namespace Domoticz

open CLib

/-! ### The session cookie -/

/-- What `CheckAuthentication` takes from the cookie `DMZSID=<id>_<token>.<time>`. -/
structure SessionCookie where
  sSID : Bytes := []
  sAuthToken : Bytes := []
  szTime : Bytes := []
  expired : Bool := false
  deriving DecidableEq, Repr

/-- `sstr >> stime`.  At the end of the text the variable keeps its value. -/
def readTime (stray : ℤ) (s : Bytes) : ℤ :=
  if s.dropWhile isSpace = [] then stray else (strtol 10 s).1

/-- The session cookie in a `Cookie` header. -/
def parseSessionCookie (stray now : ℤ) (cookie : Bytes) : SessionCookie :=
  match find (str "DMZSID=") cookie with
  | none => {}
  | some fpos =>
      let scookie := upTo (chr ';') (cookie.drop fpos)
      match find (str "_") scookie with
      | none => {}
      | some upos =>
          match findFrom (str ".") scookie upos with
          | none => {}
          | some ppos =>
              let szTime := scookie.drop (ppos + 1)
              { sSID := (scookie.drop 7).take (upos - 7)
                sAuthToken := (scookie.drop (upos + 1)).take (ppos - upos - 1)
                szTime
                expired := readTime stray szTime < now }

/-- None of the three parts is empty. -/
def SessionCookie.isComplete (c : SessionCookie) : Bool :=
  c.sSID != [] && c.sAuthToken != [] && c.szTime != []

/-! ### The reply to whoever is not let in -/

/-- `send_remove_cookie`. -/
def sendRemoveCookie (rep : Reply) : Reply :=
  rep.addHeader (str "Set-Cookie")
    (str "DMZSID=none; HttpOnly; Expires=Thu, 01 Jan 1970 00:00:00 GMT") false

/-- `send_authorization_request`. -/
def sendAuthorizationRequest (w : Webem) : Reply :=
  let rep := sendRemoveCookie (stockReply .unauthorized)
  if w.authmethod = .basic then
    rep.addHeader (str "WWW-Authenticate") (str "Basic realm=\"" ++ w.digistRealm ++ str "\"")
  else rep

/-! ### The white list -/

/-- `GetURICommandParameter`. -/
def uriCommandParameter (uri : Bytes) : Bytes :=
  let value (ppos : ℕ) := upTo (chr '&') (uri.drop (ppos + 7))
  match find (str "&param=") uri, find (str "?param=") uri with
  | none, none => uri
  | some ppos1, none => value ppos1
  | none, some ppos2 => value ppos2
  | some ppos1, some ppos2 => value (min ppos1 ppos2)

/-- The command of the URI starts with an entry of the white list. -/
def isWhitelisted (w : Webem) (uri : Bytes) : Bool :=
  w.whitelistURLs.any fun url => find url (uriCommandParameter uri) == some 0

/-! ### CheckAuthentication -/

/-- The outcome of `CheckAuthentication`. -/
structure AuthResult where
  ok : Bool
  session : WebEmSession
  state : ServerState
  rep : Reply

/-- A request that is let in leaves the reply alone. -/
def letIn (rep : Reply) (session : WebEmSession) (st : ServerState) : AuthResult :=
  ⟨true, session, st, rep⟩

/-- A request that is turned down is asked to log in. -/
def turnDown (w : Webem) (session : WebEmSession) (st : ServerState) : AuthResult :=
  ⟨false, session, st, sendAuthorizationRequest w⟩

/-- The session cookie of an administrator: without users, or on a local network.
The session is restored if it can be, and new otherwise. -/
def checkAdminCookie (w : Webem) (later now : ℤ) (c : SessionCookie) (session : WebEmSession)
    (st : ServerState) (rep : Reply) : AuthResult :=
  let (expired, session, st) :=
    if c.sSID = [] then (c.expired, session, st)
    else match st.getSession c.sSID with
      | none =>
          let r := checkAuthToken w later
            { session with id := c.sSID, authToken := c.sAuthToken } st
          (!r.1, r.2.1, r.2.2)
      | some oldSession => (decide (oldSession.expires < now), oldSession, st)
  letIn rep (if c.sSID = [] ∨ expired then { session with isnew := true } else session) st

/-- A complete session cookie of anybody else. -/
def checkCookie (w : Webem) (later now : ℤ) (c : SessionCookie) (session : WebEmSession)
    (st : ServerState) (rep : Reply) : AuthResult :=
  match st.getSession c.sSID with
  | some oldSession =>
      if c.expired ∨ oldSession.expires < now then
        -- remove the session from memory and from the store
        turnDown w session { (st.removeSession c.sSID).removeAuthToken c.sSID with failcounter := 0 }
      else
        let r := checkAuthToken w later { oldSession with authToken := c.sAuthToken } st
        if r.1 then letIn rep r.2.1 r.2.2 else turnDown w r.2.1 r.2.2
  | none =>
      if c.expired then turnDown w session { st with failcounter := 0 }
      else
        let r := checkAuthToken w later { session with id := c.sSID, authToken := c.sAuthToken } st
        if r.1 then letIn rep r.2.1 r.2.2 else turnDown w r.2.1 r.2.2

/-- The white list, and the log-in form for everybody else. -/
def checkWhitelist (w : Webem) (req : Request) (session : WebEmSession) (st : ServerState)
    (rep : Reply) : AuthResult :=
  if isWhitelisted w req.uri then letIn rep session st else turnDown w session st

/-- A request without a usable cookie, under `AUTH_BASIC`. -/
def checkBasic (w : Webem) (req : Request) (session : WebEmSession) (st : ServerState)
    (rep : Reply) : AuthResult :=
  let r := authorize w req session st
  if r.1 then letIn rep r.2.1 r.2.2
  else if r.2.2.failcounter > 2 then
    ⟨false, r.2.1, { r.2.2 with failcounter := 0 }, stockReply .serviceUnavailable⟩
  else turnDown w r.2.1 r.2.2

/-- A request whose cookie does not decide: basic authentication is always
supported for script calls, and otherwise as set. -/
def checkCredentials (w : Webem) (req : Request) (session : WebEmSession) (st : ServerState)
    (rep : Reply) : AuthResult :=
  let next (session : WebEmSession) (st : ServerState) :=
    if w.authmethod = .basic then checkBasic w req session st rep
    else checkWhitelist w req session st rep
  if contains req.uri (str "json.htm") then
    let r := authorize w req session st
    if r.1 then letIn rep r.2.1 r.2.2 else next r.2.1 r.2.2
  else next session st

/-- Whether the session starts out with the rights of an administrator. -/
def isAdmin (w : Webem) (session : WebEmSession) : Bool :=
  w.userpasswords.isEmpty || areWeInLocalNetwork w session.remoteHost

/-- `CheckAuthentication`. -/
def checkAuthentication (w : Webem) (stray now later : ℤ) (req : Request) (session : WebEmSession)
    (st : ServerState) (rep : Reply) : AuthResult :=
  let session := { session with id := [], rights := if isAdmin w session then 2 else -1 }
  match req.getReqHeader "Cookie" with
  | some cookie =>
      let c := parseSessionCookie stray now cookie
      if session.rights = 2 then checkAdminCookie w later now c session st rep
      else if c.isComplete then checkCookie w later now c session st rep
      -- invalid cookie
      else if w.authmethod ≠ .basic then checkWhitelist w req session st rep
      else checkCredentials w req session st rep
  | none =>
      if session.rights = 2 then letIn rep { session with isnew := true } st
      else checkCredentials w req session st rep

/-! ### Soundness -/

/-- The request presents a session whose stored row is unexpired and whose stored
hash is that of the presented token. -/
def PresentsStoredSession (w : Webem) (stray now later : ℤ) (req : Request) (st : ServerState) :
    Prop :=
  ∃ cookie, req.getReqHeader "Cookie" = some cookie ∧
    ∃ stored, st.storedSession (parseSessionCookie stray now cookie).sSID = some stored ∧
      later ≤ stored.expires ∧
      stored.authToken = w.crypto.md5 (parseSessionCookie stray now cookie).sAuthToken

/-- What a request of a client at `host` must show to be let in: there are no
users, the client is on a local network, the URI is whitelisted, the credentials
match, or the session is stored and unexpired. -/
def Entitled (w : Webem) (stray now later : ℤ) (req : Request) (host : Bytes)
    (st : ServerState) : Prop :=
  w.userpasswords = [] ∨ areWeInLocalNetwork w host = true ∨ isWhitelisted w req.uri = true ∨
    CredentialsMatch w req ∨ PresentsStoredSession w stray now later req st

/-- Whoever is let in is entitled. -/
def SoundAt (w : Webem) (stray now later : ℤ) (req : Request) (host : Bytes) (st : ServerState)
    (rep : Reply) : Prop :=
  (checkAuthentication w stray now later req (newSession host) st rep).ok = true →
    Entitled w stray now later req host st

/-- A complete cookie that has not expired, neither by its own time nor in memory,
when there is no store; or when the stored row has the hash of its token and has
expired, and the session in memory has a name and is not an administrator's. -/
def StoreNotAsked (w : Webem) (stray now later : ℤ) (req : Request) (st : ServerState) : Prop :=
  ∃ cookie, req.getReqHeader "Cookie" = some cookie ∧
    let c := parseSessionCookie stray now cookie
    c.isComplete = true ∧ c.expired = false ∧
      (∀ old, st.getSession c.sSID = some old → now ≤ old.expires) ∧
      (st.store = none ∨
        ∃ stored old, st.storedSession c.sSID = some stored ∧ st.getSession c.sSID = some old ∧
          stored.authToken = w.crypto.md5 c.sAuthToken ∧ stored.expires < later ∧
          old.rights ≠ 2 ∧ old.username ≠ [])

theorem checkWhitelist_ok {w : Webem} {req : Request} {session : WebEmSession} {st : ServerState}
    {rep : Reply} (h : (checkWhitelist w req session st rep).ok = true) :
    isWhitelisted w req.uri = true := by
  unfold checkWhitelist at h
  split at h
  · assumption
  · cases h

theorem checkBasic_ok {w : Webem} {req : Request} {session : WebEmSession} {st : ServerState}
    {rep : Reply} (h : (checkBasic w req session st rep).ok = true) : CredentialsMatch w req := by
  unfold checkBasic at h
  simp only at h
  split at h
  · next hok => exact authorize_ok hok
  · split at h
    · cases h
    · cases h

theorem checkCredentials_ok {w : Webem} {req : Request} {session : WebEmSession}
    {st : ServerState} {rep : Reply} (h : (checkCredentials w req session st rep).ok = true) :
    isWhitelisted w req.uri = true ∨ CredentialsMatch w req := by
  have hnext : ∀ session st, (if w.authmethod = .basic then checkBasic w req session st rep
      else checkWhitelist w req session st rep).ok = true →
        isWhitelisted w req.uri = true ∨ CredentialsMatch w req := by
    intro session st h
    split at h
    · exact Or.inr (checkBasic_ok h)
    · exact Or.inl (checkWhitelist_ok h)
  unfold checkCredentials at h
  simp only at h
  split at h
  · split at h
    · next hok => exact Or.inr (authorize_ok hok)
    · exact hnext _ _ h
  · exact hnext _ _ h

theorem SessionCookie.isComplete_iff {c : SessionCookie} :
    c.isComplete = true ↔ c.sSID ≠ [] ∧ c.sAuthToken ≠ [] ∧ c.szTime ≠ [] := by
  simp [SessionCookie.isComplete, and_assoc]

section Cookie

variable {w : Webem} {later now : ℤ} {c : SessionCookie} {session : WebEmSession}
  {st : ServerState} {rep : Reply}

/-- A cookie whose session is in memory is accepted if neither has expired and the
store agrees. -/
theorem checkCookie_known {old : WebEmSession} (hold : st.getSession c.sSID = some old) :
    (checkCookie w later now c session st rep).ok = true ↔
      c.expired = false ∧ now ≤ old.expires ∧
        (checkAuthToken w later { old with authToken := c.sAuthToken } st).1 = true := by
  rw [checkCookie, hold]
  simp only
  by_cases hexp : c.expired = true ∨ old.expires < now
  · rw [if_pos hexp]
    refine ⟨fun h => absurd h (by simp [turnDown]), ?_⟩
    rintro ⟨hc, hmem, -⟩
    rcases hexp with h | h
    · rw [hc] at h
      cases h
    · omega
  · rw [if_neg hexp]
    rw [not_or, Bool.not_eq_true, not_lt] at hexp
    split
    · next hok => simp [letIn, hexp, hok]
    · next hok => simp [turnDown, hok]

/-- A cookie whose session is not in memory is accepted if it has not expired and
the store agrees. -/
theorem checkCookie_unknown (hold : st.getSession c.sSID = none) :
    (checkCookie w later now c session st rep).ok = true ↔
      c.expired = false ∧ (checkAuthToken w later
        { session with id := c.sSID, authToken := c.sAuthToken } st).1 = true := by
  rw [checkCookie, hold]
  simp only
  by_cases hexp : c.expired = true
  · rw [if_pos hexp]
    simp [turnDown, hexp]
  · rw [if_neg hexp]
    rw [Bool.not_eq_true] at hexp
    split
    · next hok => simp [letIn, hexp, hok]
    · next hok => simp [turnDown, hok]

/-- **What an accepted cookie shows**: it has not expired, and the store has its
hash in an unexpired row, unless there is no store, or the session in memory has
a name and is not an administrator's. -/
theorem checkCookie_ok (hname : session.username = [])
    (h : (checkCookie w later now c session st rep).ok = true) :
    c.expired = false ∧ (∀ old, st.getSession c.sSID = some old → now ≤ old.expires) ∧
      (st.store = none ∨ ∃ stored, st.storedSession c.sSID = some stored ∧
        stored.authToken = w.crypto.md5 c.sAuthToken ∧
        (later ≤ stored.expires ∨ ∃ old, st.getSession c.sSID = some old ∧ old.rights ≠ 2 ∧
          old.username ≠ [])) := by
  cases hold : st.getSession c.sSID with
  | none =>
    obtain ⟨hexp, htoken⟩ := (checkCookie_unknown hold).mp h
    refine ⟨hexp, fun old hsome => absurd hsome (by simp), ?_⟩
    rcases (checkAuthToken_ok_iff _ _ _ _).mp htoken with hnone |
      ⟨stored, hstored, -, -, hhash, hadmin, huser⟩
    · exact Or.inl hnone
    · refine Or.inr ⟨stored, hstored, hhash, Or.inl ?_⟩
      by_cases hr : session.rights = 2
      · exact hadmin hr
      · exact (huser hr hname).1
  | some old =>
    obtain ⟨hexp, hmem, htoken⟩ := (checkCookie_known hold).mp h
    have hid : old.id = c.sSID := st.sessions.keyed _ _ hold
    refine ⟨hexp, fun old' hold' => by rw [← Option.some.inj hold']; exact hmem, ?_⟩
    rcases (checkAuthToken_ok_iff _ _ _ _).mp htoken with hnone |
      ⟨stored, hstored, -, -, hhash, hadmin, huser⟩
    · exact Or.inl hnone
    · refine Or.inr ⟨stored, hid ▸ hstored, hhash, ?_⟩
      by_cases hr : old.rights = 2
      · exact Or.inl (hadmin hr)
      · by_cases hn : old.username = []
        · exact Or.inl (huser hr hn).1
        · exact Or.inr ⟨old, rfl, hr, hn⟩

/-- A cookie that does not make the server ask for an unexpired row is accepted. -/
theorem checkCookie_notAsked (hc : c.isComplete = true) (hexp : c.expired = false)
    (hmem : ∀ old, st.getSession c.sSID = some old → now ≤ old.expires)
    (hstore : st.store = none ∨
      ∃ stored old, st.storedSession c.sSID = some stored ∧ st.getSession c.sSID = some old ∧
        stored.authToken = w.crypto.md5 c.sAuthToken ∧ stored.expires < later ∧
        old.rights ≠ 2 ∧ old.username ≠ []) :
    (checkCookie w later now c session st rep).ok = true := by
  cases hold : st.getSession c.sSID with
  | none =>
    rcases hstore with hnone | ⟨stored, old, -, hsome, -⟩
    · exact (checkCookie_unknown hold).mpr ⟨hexp, (checkAuthToken_ok_iff _ _ _ _).mpr (Or.inl hnone)⟩
    · rw [hold] at hsome
      cases hsome
  | some old =>
    refine (checkCookie_known hold).mpr ⟨hexp, hmem old hold, ?_⟩
    rcases hstore with hnone | ⟨stored, old', hstored, hold', hhash, -, hr, hn⟩
    · exact (checkAuthToken_ok_iff _ _ _ _).mpr (Or.inl hnone)
    · rw [hold] at hold'
      cases hold'
      have hid : old.id = c.sSID := st.sessions.keyed _ _ hold
      obtain ⟨hsid, htok, -⟩ := SessionCookie.isComplete_iff.mp hc
      exact (checkAuthToken_ok_iff _ _ _ _).mpr (Or.inr ⟨stored, hid ▸ hstored, hid ▸ hsid, htok,
        hhash, fun h => absurd h hr, fun _ h => absurd h hn⟩)

end Cookie

/-- **Whoever is let in is entitled, exactly when** a cookie that does not make the
server ask the store for an unexpired row comes with something else that entitles
the request. -/
theorem checkAuthentication_sound_iff (w : Webem) (stray now later : ℤ) (req : Request)
    (host : Bytes) (st : ServerState) (rep : Reply) :
    SoundAt w stray now later req host st rep ↔
      (StoreNotAsked w stray now later req st →
        w.userpasswords = [] ∨ areWeInLocalNetwork w host = true ∨
          isWhitelisted w req.uri = true ∨ CredentialsMatch w req) := by
  by_cases hadmin : w.userpasswords = [] ∨ areWeInLocalNetwork w host = true
  · -- the request is entitled, whatever the answer is
    constructor
    · intro _ _
      rcases hadmin with h | h
      · exact Or.inl h
      · exact Or.inr (Or.inl h)
    · intro _ _
      rcases hadmin with h | h
      · exact Or.inl h
      · exact Or.inr (Or.inl h)
  · have hrights : isAdmin w (newSession host) = false := by
      rw [not_or] at hadmin
      simp [isAdmin, newSession, hadmin]
    rw [not_or] at hadmin
    constructor
    · intro hsound
      rintro ⟨cookie, hcookie, hc, hexp, hmem, hstore⟩
      have hok : (checkAuthentication w stray now later req (newSession host) st rep).ok = true := by
        rw [checkAuthentication, hcookie, hrights]
        simp only [Bool.false_eq_true, if_false, hc, if_true]
        exact checkCookie_notAsked hc hexp hmem hstore
      -- the request is let in, and nothing but the row can entitle it
      rcases hsound hok with h | h | h | h | ⟨cookie', hcookie', stored, hstored, hlive, -⟩
      · exact absurd h hadmin.1
      · exact absurd h hadmin.2
      · exact Or.inr (Or.inr (Or.inl h))
      · exact Or.inr (Or.inr (Or.inr h))
      · -- the row that was not asked for is missing or has expired
        rw [hcookie] at hcookie'
        cases hcookie'
        rcases hstore with hnone | ⟨stored', old, hstored', -, -, hdead, -⟩
        · simp [ServerState.storedSession, hnone] at hstored
        · rw [hstored] at hstored'
          cases hstored'
          omega
    · intro hcond hok
      have hother : isWhitelisted w req.uri = true ∨ CredentialsMatch w req →
          Entitled w stray now later req host st := by
        rintro (h | h)
        · exact Or.inr (Or.inr (Or.inl h))
        · exact Or.inr (Or.inr (Or.inr (Or.inl h)))
      rw [checkAuthentication, hrights] at hok
      cases hcookie : req.getReqHeader "Cookie" with
      | none =>
        simp only [hcookie] at hok
        exact hother (checkCredentials_ok hok)
      | some cookie =>
        simp only [hcookie, Bool.false_eq_true, if_false] at hok
        rw [if_neg (by norm_num)] at hok
        split at hok
        · next hc =>
          obtain ⟨hexp, hmem, hstore⟩ := checkCookie_ok rfl hok
          -- a cookie that was accepted has a live row, unless the store was not asked
          by_cases hasked : StoreNotAsked w stray now later req st
          · rcases hcond hasked with h | h | h | h
            · exact absurd h hadmin.1
            · exact absurd h hadmin.2
            · exact hother (Or.inl h)
            · exact hother (Or.inr h)
          · rcases hstore with hnone | ⟨stored, hstored, hhash, hlive⟩
            · exact absurd ⟨cookie, hcookie, hc, hexp, hmem, Or.inl hnone⟩ hasked
            · by_cases hexpired : later ≤ stored.expires
              · exact Or.inr (Or.inr (Or.inr (Or.inr
                  ⟨cookie, hcookie, stored, hstored, hexpired, hhash⟩)))
              · obtain ⟨old, hold, hr, hn⟩ := hlive.resolve_left hexpired
                exact absurd ⟨cookie, hcookie, hc, hexp, hmem, Or.inr ⟨stored, old, hstored, hold,
                  hhash, by omega, hr, hn⟩⟩ hasked
        · split at hok
          · exact hother (Or.inl (checkWhitelist_ok hok))
          · exact hother (checkCredentials_ok hok)

/-- A server with one user, who may not change anything. -/
def viewerServer : Webem where
  crypto := { md5 := fun s => s, base64Decode := fun s => s }
  userpasswords := [⟨str "viewer", str "secret", 0⟩]

/-- The viewer's session in memory is good until 2000; the stored row was not
renewed with it and has expired at 900. -/
def viewerSessions : ServerState where
  sessions := (KeyedMap.empty WebEmSession.id).insert
    { id := str "abc", username := str "viewer", rights := 0, expires := 2000 }
  store := some ((KeyedMap.empty WebEmStoredSession.id).insert
    ⟨str "abc", str "10.0.0.9", str "token", str "viewer", 900⟩)
  failcounter := 0

/-- A request for the page with the viewer's cookie. -/
def viewerRequest : Request where
  method := str "GET"
  uri := str "/API/Interfaces"
  headers := [⟨str "Cookie", str "DMZSID=abc_token.1500"⟩]

/-- At 1000 the cookie is accepted, although its row has expired. -/
theorem expired_row_accepted :
    ¬ SoundAt viewerServer 0 1000 1000 viewerRequest (str "10.0.0.9") viewerSessions {} := by
  intro h
  have hok : (checkAuthentication viewerServer 0 1000 1000 viewerRequest
      (newSession (str "10.0.0.9")) viewerSessions {}).ok = true := by decide
  have hcookie : viewerRequest.getReqHeader "Cookie" = some (str "DMZSID=abc_token.1500") := by
    decide
  rcases h hok with h | h | h | ⟨user, password, h, -⟩ | ⟨cookie, hc, stored, hstored, hlive, -⟩
  · exact absurd h (by decide)
  · exact absurd h (by decide)
  · exact absurd h (by decide)
  · have hparse : parseAuthHeader viewerServer viewerRequest = none := by decide
    have hurl : urlCredentials viewerServer viewerRequest = none := by decide
    rcases h with h | h
    · rw [hparse] at h
      cases h
    · rw [hurl] at h
      cases h.2
  · rw [hcookie] at hc
    cases hc
    have hrow : viewerSessions.storedSession
        (parseSessionCookie 0 1000 (str "DMZSID=abc_token.1500")).sSID
          = some ⟨str "abc", str "10.0.0.9", str "token", str "viewer", 900⟩ := by decide
    rw [hrow] at hstored
    cases hstored
    exact absurd hlive (by decide)

end Domoticz
