import Domoticz.Web.HandleRequest
import Domoticz.Web.SessionStore

/-!
# The life of a session

`handle_request` starts a session for a user who has just been authorised, and renews one that is
half over: the renewal draws a token and stores its hash in the place of the one before.  It ends a
session on `dologout`, which is looked for before anybody is authenticated.

What runs between the authentication and the renewal is the registered page, which takes the
session as a constant, or the file; no action is registered.  What matters of it here is whether it
ends the handling of the request, and what its statements make of the sessions that are stored.

The sessions that are stored are those that `GetSession` reads.  `StoreSession` changes none of
them, and what it inserts is not what is read.

## Main definitions

* `base64Encode` — `base64_encode`.
* `StoreContext.store` — `StoreSession`, by what `GetSession` reads afterwards.
* `Circumstances` — what is read and drawn while a request is handled.
* `finish` — what follows the handlers.
* `serve` — `handle_request`, by what it does to the sessions.

## Main results

* `mem_base64Encode` — the characters a token consists of.
* `sees_store` — `StoreSession` as the table has it.
* `checkAuthToken_id`, `stored_of_checkAuthToken` — the session that is accepted is the one that was
  presented, and it is stored.
-/

namespace Domoticz

open CLib

/-! ### Base64 -/

/-- `base64_chars`. -/
def base64Chars : Bytes := str "ABCDEFGHIJKLMNOPQRSTUVWXYZabcdefghijklmnopqrstuvwxyz0123456789+/"

/-- `base64_chars[i]`. -/
def base64Char (i : UInt8) : UInt8 := base64Chars.getD i.toNat 0

/-- `base64_encode`. -/
def base64Encode : Bytes → Bytes
  | a :: b :: c :: rest =>
      base64Char ((a &&& 0xfc) >>> 2) ::
        base64Char (((a &&& 0x03) <<< 4) + ((b &&& 0xf0) >>> 4)) ::
        base64Char (((b &&& 0x0f) <<< 2) + ((c &&& 0xc0) >>> 6)) ::
        base64Char (c &&& 0x3f) :: base64Encode rest
  | [a, b] =>
      [base64Char ((a &&& 0xfc) >>> 2), base64Char (((a &&& 0x03) <<< 4) + ((b &&& 0xf0) >>> 4)),
        base64Char ((b &&& 0x0f) <<< 2), chr '=']
  | [a] => [base64Char ((a &&& 0xfc) >>> 2), base64Char ((a &&& 0x03) <<< 4), chr '=', chr '=']
  | [] => []

theorem length_base64Chars : base64Chars.length = 64 := by decide

theorem base64Char_mem {i : UInt8} (h : i.toNat < 64) : base64Char i ∈ base64Chars := by
  have hlt : i.toNat < base64Chars.length := by
    rw [length_base64Chars]
    exact h
  rw [base64Char, List.getD_eq_getElem?_getD, List.getElem?_eq_getElem hlt]
  exact List.getElem_mem hlt

theorem forall_byte {P : UInt8 → Prop} (h : ∀ n < 256, P (UInt8.ofNat n)) (c : UInt8) : P c := by
  have hc := h c.toNat c.toNat_lt
  rwa [UInt8.ofNat_toNat] at hc

/-- The two parts of a value that comes from two bytes. -/
theorem toNat_add_lt {x y : UInt8} {m n : ℕ} (hx : x.toNat ≤ m) (hy : y.toNat ≤ n)
    (h : m + n < 64) : (x + y).toNat < 64 := by
  rw [UInt8.toNat_add]
  omega

theorem base64_values (a b c : UInt8) :
    ((a &&& 0xfc) >>> 2).toNat < 64 ∧
      (((a &&& 0x03) <<< 4) + ((b &&& 0xf0) >>> 4)).toNat < 64 ∧
      (((b &&& 0x0f) <<< 2) + ((c &&& 0xc0) >>> 6)).toNat < 64 ∧ (c &&& 0x3f).toNat < 64 := by
  have hlow : ∀ a : UInt8, ((a &&& 0x03) <<< 4).toNat ≤ 48 := forall_byte (by decide +kernel)
  have hhigh : ∀ b : UInt8, ((b &&& 0xf0) >>> 4).toNat ≤ 15 := forall_byte (by decide +kernel)
  have hlow' : ∀ b : UInt8, ((b &&& 0x0f) <<< 2).toNat ≤ 60 := forall_byte (by decide +kernel)
  have hhigh' : ∀ c : UInt8, ((c &&& 0xc0) >>> 6).toNat ≤ 3 := forall_byte (by decide +kernel)
  have hfirst : ∀ a : UInt8, ((a &&& 0xfc) >>> 2).toNat < 64 := forall_byte (by decide +kernel)
  have hlast : ∀ c : UInt8, (c &&& 0x3f).toNat < 64 := forall_byte (by decide +kernel)
  exact ⟨hfirst a, toNat_add_lt (hlow a) (hhigh b) (by omega),
    toNat_add_lt (hlow' b) (hhigh' c) (by omega), hlast c⟩

/-- The characters of an encoded text. -/
theorem mem_base64Encode {c : UInt8} {s : Bytes} (h : c ∈ base64Encode s) :
    c ∈ chr '=' :: base64Chars := by
  have hchar : ∀ {i : UInt8}, i.toNat < 64 → base64Char i ∈ chr '=' :: base64Chars := fun hi =>
    List.mem_cons_of_mem _ (base64Char_mem hi)
  have hpad : chr '=' ∈ chr '=' :: base64Chars := List.mem_cons_self
  induction s using base64Encode.induct with
  | case1 a b c' rest ih =>
    obtain ⟨h1, h2, h3, h4⟩ := base64_values a b c'
    rw [base64Encode] at h
    simp only [List.mem_cons] at h
    rcases h with rfl | rfl | rfl | rfl | h
    · exact hchar h1
    · exact hchar h2
    · exact hchar h3
    · exact hchar h4
    · exact ih h
  | case2 a b =>
    obtain ⟨h1, h2, h3, -⟩ := base64_values a b 0
    have hzero : (((0 : UInt8) &&& 0xc0) >>> 6) = 0 := by decide
    rw [hzero, UInt8.add_zero] at h3
    rw [base64Encode] at h
    simp only [List.mem_cons, List.not_mem_nil, or_false] at h
    rcases h with rfl | rfl | rfl | rfl
    · exact hchar h1
    · exact hchar h2
    · exact hchar h3
    · exact hpad
  | case3 a =>
    obtain ⟨h1, h2, -, -⟩ := base64_values a 0 0
    have hzero : (((0 : UInt8) &&& 0xf0) >>> 4) = 0 := by decide
    rw [hzero, UInt8.add_zero] at h2
    rw [base64Encode] at h
    simp only [List.mem_cons, List.not_mem_nil, or_false] at h
    rcases h with rfl | rfl | rfl | rfl
    · exact hchar h1
    · exact hchar h2
    · exact hpad
    · exact hpad
  | case4 => cases h

/-! ### Tokens and cookies -/

/-- `LONG_SESSION_TIMEOUT`, thirty days. -/
def longSessionTimeout : ℤ := 30 * 86400

/-- What `StoreSession` meets in the database besides the sessions: how SQLite takes a text for an
`INTEGER`, how a date is written and read, the users and the roles, and what stands in the places
that are not set. -/
structure StoreContext where
  aff : IntegerAffinity
  date : DateFormat
  users : List ℤ
  roles : List ℤ
  stray : ℤ
  missing : Bytes

/-- What `GetSession` reads of the row that is inserted for a session, if there is one. -/
def StoreContext.inserted (q : StoreContext) (session : WebEmStoredSession) :
    Option WebEmStoredSession :=
  (insertSession q.aff session.id (cstr session.username) (cstr session.authToken)
    (cstr (q.date.format session.expires)) (cstr q.missing) ⟨[], q.users, q.roles⟩).rows.head?.map
      (recordOf q.date q.stray)

/-- `StoreSession`.  The update of a session that is there changes nothing
(`updateSession_unchanged`). -/
def StoreContext.store (q : StoreContext) (session : WebEmStoredSession)
    (store : KeyedMap WebEmStoredSession.id) : KeyedMap WebEmStoredSession.id :=
  if session.id = [] ∨ (store.get session.id).isSome then store
  else (q.inserted session).elim store store.insert

/-- `StoreSession`, in the state. -/
def ServerState.storeSession (st : ServerState) (q : StoreContext) (row : WebEmStoredSession) :
    ServerState :=
  { st with store := st.store.map (q.store row) }

/-- The row that is inserted is one of the session. -/
theorem StoreContext.id_inserted {q : StoreContext} {session row : WebEmStoredSession}
    (h : q.inserted session = some row) : row.id = session.id := by
  unfold inserted insertSession at h
  split at h
  · split at h
    · cases h
      rfl
    · cases h
  · cases h

/-- The sessions are those that `GetSession` reads in the table. -/
def Sees (q : StoreContext) (store : KeyedMap WebEmStoredSession.id) (db : SessionDb) : Prop :=
  ∀ id, 0 ∉ id → (store.get id).getD ⟨[], [], [], [], q.stray⟩ = getSession q.date q.stray db id

/-- **`StoreSession` does with the sessions what it does with the table.** -/
theorem sees_store {q : StoreContext} {store : KeyedMap WebEmStoredSession.id} {db : SessionDb}
    (h : Sees q store db) (husers : db.users = q.users) (hroles : db.roles = q.roles)
    {session : WebEmStoredSession} (hclean : 0 ∉ session.id) :
    Sees q (q.store session store)
      (storeSession q.aff q.date q.stray q.missing session db) := by
  by_cases hid : session.id = []
  · rw [StoreContext.store, if_pos (.inl hid), storeSession, if_pos hid]
    exact h
  have hread := h session.id hclean
  cases hget : store.get session.id with
  | some row =>
    -- the session is in the table
    rw [hget, Option.getD_some] at hread
    have hkey := store.keyed _ _ hget
    rw [StoreContext.store, if_pos (.inr (by rw [hget]; rfl)),
      storeSession_known q.aff q.missing hid (by rw [← hread, hkey]; exact hid)]
    exact h
  | none =>
    rw [hget, Option.getD_none] at hread
    have hnew : (getSession q.date q.stray db session.id).id = [] := by rw [← hread]
    have hcut := cstr_of_notMem hclean
    have hmiss : selectSession db session.id = none := by
      rw [getSession, if_neg hid] at hnew
      cases hsel : selectSession db session.id with
      | none => rfl
      | some row =>
        rw [hsel] at hnew
        have hfound : (row.sessionID == cstr session.id) = true := by
          simpa using List.find?_some hsel
        rw [hcut, beq_iff_eq] at hfound
        exact absurd (hfound.symm.trans hnew) hid
    rw [StoreContext.store, if_neg (by rw [hget]; simp [hid]), storeSession, if_neg hid]
    simp only [if_pos hnew, StoreContext.inserted, insertSession, hcut, husers, hroles]
    cases q.aff.toInteger (cstr session.username) with
    | none => exact h
    | some user =>
      cases q.aff.toInteger (cstr session.authToken) with
      | none => exact h
      | some role =>
        simp only
        split
        · intro id hnul
          rw [List.nil_append, List.head?_cons, Option.map_some, Option.elim_some,
            KeyedMap.get_insert, getSession, selectSession, List.find?_append]
          have hkey (row : SessionRow) : (recordOf q.date q.stray row).id = row.sessionID := rfl
          rw [hkey]
          by_cases heq : id = session.id
          · subst heq
            rw [selectSession] at hmiss
            rw [if_pos rfl, if_neg hid, hmiss]
            simp [hcut]
          · have hother : (session.id == cstr id) = false := by
              rw [cstr_of_notMem hnul]
              simpa using Ne.symm heq
            have hold := h id hnul
            rw [getSession, selectSession] at hold
            rw [if_neg heq, hold, List.find?_cons, hother]
            simp
        · exact h

/-- What `GenerateUUID` makes. -/
abbrev UUID := { uuid : Bytes // uuid.length = 36 }

/-- `generateSessionID`. -/
def generateSessionID (w : Webem) (uuid : UUID) : Bytes := w.crypto.md5 (base64Encode uuid.val)

/-- `generateAuthToken`: the token, whose hash is stored. -/
def generateAuthToken (w : Webem) (q : StoreContext) (uuid : UUID) (session : WebEmSession)
    (st : ServerState) : Bytes × ServerState :=
  let authToken := base64Encode uuid.val
  (authToken, st.storeSession q
    { id := session.id
      remoteHost := session.remoteHost
      authToken := w.crypto.md5 authToken
      username := session.username
      expires := session.expires })

/-- What `send_cookie` puts into a cookie. -/
structure Cookie where
  id : Bytes
  authToken : Bytes
  expires : ℤ
  deriving DecidableEq, Repr

/-- The cookie of a session. -/
def WebEmSession.cookie (session : WebEmSession) : Cookie :=
  ⟨session.id, session.authToken, session.expires⟩

/-- The text of a cookie, in front of its attributes. -/
def Cookie.text (c : Cookie) : Bytes :=
  str "DMZSID=" ++ c.id ++ str "_" ++ c.authToken ++ str "." ++ decimal c.expires

/-- The session that a logout takes from the `Cookie` header. -/
def logoutSession (cookie : Bytes) : Option Bytes :=
  match find (str "DMZSID=") cookie with
  | none => none
  | some fpos =>
      match findFrom (str "_") cookie fpos with
      | none => none
      | some upos => some ((cookie.drop (fpos + 7)).take (upos - fpos - 7))

/-- A logout removes the session, in memory and in the store. -/
def logout (req : Request) (st : ServerState) : ServerState :=
  match (req.getReqHeader "Cookie").bind logoutSession with
  | none => st
  | some sSID => (st.removeSession sSID).removeAuthToken sSID

namespace ServerState

variable (st : ServerState) (s t : Bytes)

@[simp] theorem storedSession_addSession (session : WebEmSession) :
    (st.addSession session).storedSession s = st.storedSession s := rfl

@[simp] theorem storedSession_removeAuthToken :
    (st.removeAuthToken t).storedSession s = if s = t then none else st.storedSession s := by
  unfold storedSession removeAuthToken
  cases st.store with
  | none => simp
  | some store => simp

variable {s} in
/-- A session that is stored stays what it is. -/
theorem storedSession_storeSession_some {row : WebEmStoredSession}
    (h : st.storedSession s = some row) (q : StoreContext) (session : WebEmStoredSession) :
    (st.storeSession q session).storedSession s = some row := by
  unfold storedSession at h ⊢
  unfold storeSession
  obtain ⟨store, hstore, hget⟩ := Option.bind_eq_some_iff.mp h
  rw [hstore, Option.map_some, Option.bind_some, StoreContext.store]
  split
  · exact hget
  · next hnew =>
    cases hrow : q.inserted session with
    | none => exact hget
    | some new =>
      have hid : new.id = session.id := StoreContext.id_inserted hrow
      have hne : s ≠ session.id := by
        rintro rfl
        exact hnew (.inr (by rw [hget]; rfl))
      rw [Option.elim_some, KeyedMap.get_insert, hid, if_neg hne]
      exact hget

variable {s} in
/-- Nothing is stored of any other session. -/
theorem storedSession_storeSession_of_ne {session : WebEmStoredSession} (h : s ≠ session.id)
    (q : StoreContext) :
    (st.storeSession q session).storedSession s = st.storedSession s := by
  unfold storedSession storeSession
  cases st.store with
  | none => rfl
  | some store =>
    rw [Option.map_some, Option.bind_some, Option.bind_some, StoreContext.store]
    split
    · rfl
    · cases hrow : q.inserted session with
      | none => rfl
      | some new =>
        have hid : new.id = session.id := StoreContext.id_inserted hrow
        rw [Option.elim_some, KeyedMap.get_insert, hid, if_neg h]

end ServerState

/-- The session that is compared with the store keeps its id. -/
theorem checkAuthToken_id (w : Webem) (now : ℤ) (session : WebEmSession) (st : ServerState) :
    (checkAuthToken w now session st).2.1.id = session.id := by
  unfold checkAuthToken
  cases st.store with
  | none => rfl
  | some store =>
    simp only
    split
    · rfl
    · cases store.get session.id with
      | none => rfl
      | some stored =>
        simp only
        split
        · rfl
        · split
          · split
            · rfl
            · rfl
          · split
            · cases w.userpasswords.find? fun u => u.username == stored.username with
              | none => rfl
              | some u =>
                simp only
                split
                · rfl
                · cases st.getSession session.id with
                  | none => rfl
                  | some old => rfl
            · rfl

/-- Where there is a store, a token is accepted only for a session that is stored. -/
theorem stored_of_checkAuthToken {w : Webem} {now : ℤ} {session : WebEmSession} {st : ServerState}
    (hstore : st.store ≠ none) (h : (checkAuthToken w now session st).1 = true) :
    st.storedSession session.id ≠ none := by
  rcases (checkAuthToken_ok_iff _ _ _ _).mp h with hnone | ⟨stored, hstored, -⟩
  · exact absurd hnone hstore
  · rw [hstored]
    exact Option.some_ne_none _

/-- `cWebem::CleanSessions`: the sessions in memory that nobody has used for a while go, and so do
the rows that have expired.  They are those whose `Expiry` is over, a column that `GetSession`
does not read. -/
def cleanSessions (now : ℤ) (isOver : Bytes → Bool) (st : ServerState) : ServerState :=
  { st with
    sessions := st.sessions.filter fun session => decide (now ≤ session.timeout)
    store := st.store.map fun s => s.filter fun row => !isOver row.id }

/-! ### What follows the handlers -/

/-- What is found while a request is handled: the places that are read without having been set, the
clock when the cookie is read, when the row is, after the handlers and at the renewal, the texts
drawn for a session and for a token, what the statements of the page make of the sessions that are
stored, and whether a handler ends it all.  A clock is a `time_t`. -/
structure Circumstances where
  strays : Strays
  sql : StoreContext
  now : ℤ
  now_lt : now < 2 ^ 63
  later : ℤ
  done : ℤ
  renewal : ℤ
  uuidSession : UUID
  uuidToken : UUID
  page : KeyedMap WebEmStoredSession.id → KeyedMap WebEmStoredSession.id
  ended : Bool

/-- The registered page is called. -/
def Circumstances.call (a : Circumstances) (st : ServerState) : ServerState :=
  { st with store := st.store.map a.page }

/-- A client that is possibly a script: the session under its address, which is registered without
rights if there is none. -/
def recallScript (now : ℤ) (session : WebEmSession) (st : ServerState) :
    WebEmSession × ServerState :=
  let unknown (st : ServerState) : WebEmSession × ServerState :=
    let session := { session with id := session.remoteHost, expires := session.timeout }
    (session, st.addSession { session with rights := -1 })
  match st.getSession session.remoteHost with
  | none => unknown st
  | some memSession =>
      if memSession.expires < now then unknown (st.removeSession session.remoteHost)
      else
        let session := { session with isnew := false }
        if memSession.expires - shortSessionTimeout / 2 < now then
          let expires := now + shortSessionTimeout
          (session, st.addSession { memSession with expires, timeout := expires })
        else (session, st)

/-- A session begins. -/
def startSession (w : Webem) (a : Circumstances) (session : WebEmSession) (st : ServerState) :
    Option Cookie × ServerState :=
  let session := { session with
    id := generateSessionID w a.uuidSession
    expires := session.timeout + if session.rememberme then longSessionTimeout else 0 }
  let (authToken, st) := generateAuthToken w a.sql a.uuidToken session st
  let session := { session with authToken, isnew := false }
  (some session.cookie, st.addSession session)

/-- A session in memory is renewed: it gets a token that has not been there before. -/
def renewSession (w : Webem) (a : Circumstances) (expires : ℤ) (memSession : WebEmSession)
    (st : ServerState) : Option Cookie × ServerState :=
  let memSession := { memSession with expires }
  let (authToken, st) := generateAuthToken w a.sql a.uuidToken memSession st
  let memSession := { memSession with authToken }
  (some memSession.cookie, st.addSession memSession)

/-- What becomes of the session: it begins, ends or is renewed. -/
def settleSession (w : Webem) (a : Circumstances) (session : WebEmSession) (st : ServerState) :
    Option Cookie × ServerState :=
  if session.isnew then startSession w a session st
  else if session.forcelogin then
    (none, (st.removeSession session.id).removeAuthToken session.id)
  else if session.id = [] then (none, st)
  else match st.getSession session.id with
    | none => (none, st)
    | some memSession =>
        -- half of a session's time is over
        if memSession.expires - shortSessionTimeout / 2 < a.renewal then
          renewSession w a (a.renewal + shortSessionTimeout) memSession st
        else if memSession.expires > shortSessionTimeout + a.renewal ∧
            memSession.expires - longSessionTimeout / 2 < a.renewal then
          renewSession w a (a.renewal + longSessionTimeout) memSession st
        else (none, st)

/-- What follows the handlers: the cookie that is sent, and the state. -/
def finish (w : Webem) (a : Circumstances) (req : Request) (session : WebEmSession)
    (st : ServerState) : Option Cookie × ServerState :=
  let session := { session with timeout := a.done + shortSessionTimeout }
  if session.isnew ∧ session.rights = 2 ∧ contains req.uri (str "json.htm") ∧
      ¬ contains req.uri (str "logincheck") then
    let (session, st) := recallScript a.renewal session st
    settleSession w a session st
  else settleSession w a session st

/-- What comes of a request: the answer of `CheckAuthentication`, if it is asked, the cookie that is
sent, and the state. -/
structure Served where
  ok : Option Bool
  cookie : Option Cookie
  state : ServerState

/-- `cWebemRequestHandler::handle_request`, by what it does to the sessions. -/
def serve (w : Webem) (computeAcceptHeader : Bytes → Bytes) (a : Circumstances) (req : Request)
    (st : ServerState) : Served :=
  match resolveRemoteHost req w.remoteProxyIPs req.hostAddress with
  | none => ⟨none, none, st⟩
  | some host =>
      let isPage := isPageOverride w a.strays.page req
      if req.method = str "OPTIONS" then ⟨none, none, st⟩
      else if isPage ∧ contains req.uri (str "dologout") then ⟨none, none, logout req st⟩
      else if (upgradeReply computeAcceptHeader req).isSome then ⟨none, none, st⟩
      else if isPage ∨ isAction req then
        let auth := checkAuthentication w a.strays.time a.now a.later req (newSession host) st {}
        if !auth.ok then ⟨some false, none, auth.state⟩
        else if isAction req ∧ auth.session.rights ≠ 2 then ⟨some true, none, auth.state⟩
        else if a.ended then ⟨some true, none, a.call auth.state⟩
        else
          let r := finish w a req auth.session (a.call auth.state)
          ⟨some true, r.1, r.2⟩
      else if a.ended then ⟨none, none, a.call st⟩
      else
        let r := finish w a req (newSession host) (a.call st)
        ⟨none, r.1, r.2⟩

end Domoticz
