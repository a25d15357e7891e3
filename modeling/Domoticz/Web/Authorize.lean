import Domoticz.Web.Path

/-!
# Credentials of a request

The name and password a request brings along, in one of three places: the
subject of a client certificate that a proxy passes on as `Authorization` header,
a `Basic` header, and the parameters `username` and `password` of the URI.

## Main definitions

* `parseAuthHeader`, `urlCredentials` — the places.
* `authorize` — the comparison with the users.

## Main results

* `authorize_ok` — **whoever is authorised has named a user and supplied the
  user's password.**
-/

namespace Domoticz

open CLib

/-- The part of a distinguished name behind the first `key`, up to a slash. -/
def nameEntry (dn : Bytes) (key : String) : Option Bytes :=
  (find (str key) dn).map fun spos =>
    let epos := (findFrom (str "/") dn (spos + 1)).getD dn.length
    (dn.drop (spos + (str key).length)).take (epos - spos - (str key).length)

/-- `parse_auth_header`: the user and the response. -/
def parseAuthHeader (w : Webem) (req : Request) : Option (Bytes × Bytes) :=
  match req.getReqHeader "Authorization" with
  | none => none
  | some header =>
      if icontains header (str "/CN=") then
        let user := (nameEntry header "/CN=").getD []
        let response := (nameEntry header "/emailAddress=").getD []
        if user = [] then none else some (user, response)
      else if icontains header (str "Basic ") then
        let decoded := w.crypto.base64Decode (header.drop 6)
        (find (str ":") decoded).map fun npos => (decoded.take npos, decoded.drop (npos + 1))
      else none

/-- The value behind `key` in a URI, up to an ampersand. -/
def uriValue (uri : Bytes) (key : String) : Option Bytes :=
  (find (str key) uri).map fun pos => upTo (chr '&') (uri.drop (pos + (str key).length))

/-- The name and the password in a URI that has the two parameters; the inner
`none` is a value that cannot be decoded. -/
def urlCredentials (w : Webem) (req : Request) : Option (Option (Bytes × Bytes)) :=
  match uriValue req.uri "username=", uriValue req.uri "password=" with
  | some tmpuname, some tmpupass =>
      let uname := urlDecode tmpuname
      let upass := urlDecode tmpupass
      if uname.1 ∧ upass.1 then
        some (some (w.crypto.base64Decode uname.2, w.crypto.base64Decode upass.2))
      else some none
  | _, _ => none

/-- `check_password`. -/
def checkPassword (w : Webem) (response ha1 : Bytes) : Bool :=
  response != [] && ha1 == w.crypto.md5 response

/-- The session of a user who has been authorised. -/
def WebEmSession.granted (session : WebEmSession) (u : WebUserPassword) : WebEmSession :=
  { session with isnew := true, username := u.username, rights := u.userrights, rememberme := false }

/-- The search for the user and the comparison of the password: the counter of
failed log-ins is reset or counted up. -/
def authorizeUser (w : Webem) (user : Bytes) (check : Bytes → Bool) (session : WebEmSession)
    (st : ServerState) : Bool × WebEmSession × ServerState :=
  match w.userpasswords.find? fun u => u.username == user with
  | some u =>
      if check u.password then (true, session.granted u, { st with failcounter := 0 })
      else (false, session, { st with failcounter := st.failcounter + 1 })
  | none => (false, session, { st with failcounter := st.failcounter + 1 })

/-- `authorize`. -/
def authorize (w : Webem) (req : Request) (session : WebEmSession) (st : ServerState) :
    Bool × WebEmSession × ServerState :=
  match parseAuthHeader w req with
  | some (user, response) => authorizeUser w user (checkPassword w response) session st
  | none =>
      match urlCredentials w req with
      | none => (false, session, st)
      | some none => (false, session, { st with failcounter := st.failcounter + 1 })
      | some (some (uname, upass)) =>
          authorizeUser w uname (fun password => password == w.crypto.md5 upass) session st

/-- The request brings this name and this password along. -/
def SuppliesCredentials (w : Webem) (req : Request) (user password : Bytes) : Prop :=
  parseAuthHeader w req = some (user, password) ∨
    (parseAuthHeader w req = none ∧ urlCredentials w req = some (some (user, password)))

/-- The supplied credentials name a user whose stored hash is that of the supplied
password. -/
def CredentialsMatch (w : Webem) (req : Request) : Prop :=
  ∃ user password, SuppliesCredentials w req user password ∧
    ∃ u ∈ w.userpasswords, u.username = user ∧ u.password = w.crypto.md5 password

theorem authorizeUser_ok {w : Webem} {user : Bytes} {check : Bytes → Bool}
    {session : WebEmSession} {st : ServerState}
    (h : (authorizeUser w user check session st).1 = true) :
    ∃ u ∈ w.userpasswords, u.username = user ∧ check u.password = true := by
  unfold authorizeUser at h
  split at h
  · next u hfind =>
    split at h
    · next hcheck =>
      exact ⟨u, List.mem_of_find?_eq_some hfind, by simpa using List.find?_some hfind, hcheck⟩
    · cases h
  · cases h

/-- **Whoever is authorised has named a user and supplied the user's password.** -/
theorem authorize_ok {w : Webem} {req : Request} {session : WebEmSession} {st : ServerState}
    (h : (authorize w req session st).1 = true) : CredentialsMatch w req := by
  unfold authorize at h
  split at h
  · next user response hparse =>
    obtain ⟨u, hu, hname, hcheck⟩ := authorizeUser_ok h
    refine ⟨user, response, Or.inl hparse, u, hu, hname, ?_⟩
    simp only [checkPassword, Bool.and_eq_true, beq_iff_eq] at hcheck
    exact hcheck.2
  · next hparse =>
    split at h
    · cases h
    · cases h
    · next uname upass hurl =>
      obtain ⟨u, hu, hname, hcheck⟩ := authorizeUser_ok h
      exact ⟨uname, upass, Or.inr ⟨hparse, hurl⟩, u, hu, hname, by simpa using hcheck⟩

end Domoticz
