import Domoticz.Web.Authentication
import Domoticz.Web.Forms

/-!
# Handling a request

`handle_request` decides what a request asks for, authenticates it, and hands it
to the registered action, to the registered page, or to the websocket.  It asks
for authentication when `IsPageOverride` finds a page or the URI has the mark of
an action.  The page it then runs is the one `CheckForPageOverride` finds, which
looks further; and the upgrade to a websocket comes before the question.

A run is modelled by what happens in it, in order.  What follows the handlers
(static files, compression, the renewal of the session) dispatches nothing.

## Main definitions

* `Event` — what happens while a request is handled.
* `handleRequest` — the events of a request.
* `Guarded` — no handler is run before the request is authenticated.
* `GateCondition` — the requests for which that is so.

## Main results

* `pageFor_isSome_iff` — when a page is run.
* `guardedAt_iff` — **authentication guards every handler exactly under
  `GateCondition`.**
* `subpath_unguarded` — `/API/Interfaces` is handled without authentication.
-/

namespace Domoticz

open CLib

/-- What happens while a request is handled. -/
inductive Event
  | authenticated (ok : Bool)
  | action (code : Bytes)
  | page (path : Bytes)
  | upgrade
  deriving DecidableEq, Repr

/-- The event hands the request to a handler or to the websocket. -/
def Event.isDispatch : Event → Bool
  | .authenticated _ => false
  | _ => true

/-- The registered actions: what they do to the session and to the URI.  Exceptions
are caught. -/
abbrev ActionFunction := Bytes → WebEmSession → Request → WebEmSession × Bytes

/-- The values found in places that are read without having been set: the byte in
front of an empty path, for each of its three uses, and the time stamp. -/
structure Strays where
  page : UInt8
  action : UInt8
  override : UInt8
  time : ℤ

/-! ### The steps -/

/-- The address the request comes from, through the proxies that may forward one;
`none` when the request is refused. -/
def resolveRemoteHost (req : Request) : List Bytes → Bytes → Option Bytes
  | [], host => some host
  | proxy :: proxies, host =>
      if host = proxy then
        match req.getReqHeader "X-Forwarded-For" with
        | none => resolveRemoteHost req proxies host
        | some header =>
            if contains header (str ",") then
              -- multiple proxies are used
              match req.getReqHeader "X-Real-IP" with
              | none => none
              | some header => resolveRemoteHost req proxies header
            else resolveRemoteHost req proxies header
      else resolveRemoteHost req proxies host

/-- `cWebem::IsPageOverride`. -/
def isPageOverride (w : Webem) (before : UInt8) (req : Request) : Bool :=
  let decoded := urlDecode req.uri
  decoded.1 && isRegistered w (upTo (chr '?') (extractRequestPath w before decoded.2))

/-- `cWebem::IsAction`. -/
def isAction (req : Request) : Bool := contains req.uri (str ".webem")

/-- `is_upgrade_request`: the reply, when it answers the request itself. -/
def upgradeReply (computeAcceptHeader : Bytes → Bytes) (req : Request) : Option Reply :=
  if req.method ≠ str "GET" then none
  else if req.httpVersionMajor * 10 + req.httpVersionMinor < 11 then none
  else if !(req.getReqHeader "Connection").any (contains · (str "Upgrade")) then none
  else if !(req.getReqHeader "Upgrade").any (iequals · (str "websocket")) then none
  else if req.uri ≠ str "/PUSH" then some (stockReply .notFound)
  else if (req.getReqHeader "Host").isNone then some (stockReply .forbidden)
  else if (req.getReqHeader "Origin").isNone then some (stockReply .forbidden)
  else match req.getReqHeader "Sec-Websocket-Version" with
    | none => some (stockReply .internalServerError)
    | some version =>
        if atoi version < 13 then some (stockReply .internalServerError)
        else match req.getReqHeader "Sec-Websocket-Protocol" with
          | none => none
          | some protocol =>
              if !contains protocol (str "domoticz") then some (stockReply .internalServerError)
              else match req.getReqHeader "Sec-Websocket-Key" with
                | none => some (stockReply .internalServerError)
                | some key =>
                    let accept := computeAcceptHeader key
                    if accept = [] then some (stockReply .internalServerError)
                    else some <| (((stockReply .switchingProtocols).addHeader (str "Connection")
                      (str "Upgrade")).addHeader (str "Upgrade") (str "websocket")).addHeader
                        (str "Sec-Websocket-Accept") accept |>.addHeader
                          (str "Sec-Websocket-Protocol") (str "domoticz")

/-- The code of the action in a path: between the first byte and `.webem`.  An empty
path raises an exception. -/
def actionCode (path : Bytes) : Option Bytes :=
  match find (str ".webem") path with
  | some (q + 1) => substr? path 1 q
  | _ => substrFrom? path 1

/-- `cWebem::CheckForAction`: the events, and the session and the request it leaves;
`none` is an exception. -/
def checkForAction (w : Webem) (actions : ActionFunction) (before : UInt8)
    (session : WebEmSession) (req : Request) : Option (List Event × WebEmSession × Request) :=
  if !isAction req then some ([], session, req)
  else
    let req := { req with parameters := [] }
    let uri := extractRequestPath w before req.uri
    match actionCode uri with
    | none => none
    | some code =>
        if !w.actions.contains code then some ([], session, req)
        else
          let behind := uri.drop (((find (str ".webem") uri).getD 0) +
            if (find (str ".webem") uri).isSome then 7 else 6)
          match actionForm req behind with
          | none => some ([], session, req)
          | some pairs =>
              let req := { req with
                parameters := pairs.foldl (fun ps p => insertParameter p.1 p.2 ps) [] }
              let (session, uri) := actions code session req
              -- possible incorrect root reference
              let uri := if uri.head? = some (chr '/') ∧ w.webRoot ≠ [] ∧ find w.webRoot uri ≠ some 0
                then w.webRoot ++ uri else uri
              some ([.action code], session, { req with uri })

/-- The page `cWebem::CheckForPageOverride` runs, if it runs one. -/
def pageFor (w : Webem) (before : UInt8) (req : Request) : Option Bytes :=
  let decoded := urlDecode req.uri
  if !decoded.1 then none
  else match multipartField req with
    | .badRequest => none
    | .threw => none
    | .field _ =>
        let path := extractRequestPath w before decoded.2
        (findPage w.pages path).or (if w.pagesW.contains path then some path else none)

/-- What is run once the request may be: the action, if there is one, and the page. -/
def runHandlers (w : Webem) (actions : ActionFunction) (strays : Strays) (session : WebEmSession)
    (req : Request) : List Event :=
  let page (req : Request) : List Event := ((pageFor w strays.override req).map Event.page).toList
  if isAction req then
    -- actions are only allowed with the rights of an administrator
    if session.rights ≠ 2 then []
    else match checkForAction w actions strays.action session req with
      | none => []
      | some (events, _, req') =>
          if req'.method = str "POST" ∧ req'.uri ≠ [] ∧ req'.uri.head? ≠ some (chr '/') then events
          else events ++ page req'
  else page req

/-- `cWebemRequestHandler::handle_request`, by its events. -/
def handleRequest (w : Webem) (actions : ActionFunction) (computeAcceptHeader : Bytes → Bytes)
    (strays : Strays) (now later : ℤ) (req : Request) (st : ServerState) : List Event :=
  match resolveRemoteHost req w.remoteProxyIPs req.hostAddress with
  | none => []
  | some host =>
      let isPage := isPageOverride w strays.page req
      if req.method = str "OPTIONS" then []
      else if isPage ∧ contains req.uri (str "dologout") then []
      else match upgradeReply computeAcceptHeader req with
        | some rep => if rep.status = .switchingProtocols then [.upgrade] else []
        | none =>
            if isPage ∨ isAction req then
              let auth := checkAuthentication w strays.time now later req (newSession host) st {}
              .authenticated auth.ok ::
                if auth.ok then runHandlers w actions strays auth.session req else []
            else runHandlers w actions strays (newSession host) req

/-! ### When a page is run -/

/-- **When a page is run**: the URI can be decoded, the body is no multipart body the
scan refuses, and the path, or what is left of it in front of some slash, is a
registered page. -/
theorem pageFor_isSome_iff (w : Webem) (before : UInt8) (req : Request) :
    (pageFor w before req).isSome ↔
      (urlDecode req.uri).1 = true ∧ (∃ entry, multipartField req = .field entry) ∧
        ((∃ page ∈ w.pages, page = extractRequestPath w before (urlDecode req.uri).2 ∨
            ∃ rest, page ++ chr '/' :: rest = extractRequestPath w before (urlDecode req.uri).2) ∨
          extractRequestPath w before (urlDecode req.uri).2 ∈ w.pagesW) := by
  unfold pageFor
  simp only
  by_cases hdec : (urlDecode req.uri).1 = true
  · rw [if_neg (by simp [hdec])]
    cases hscan : multipartField req with
    | badRequest => simp
    | threw => simp
    | field entry =>
      simp only [Option.isSome_or, Bool.or_eq_true, findPage_isSome_iff]
      by_cases hw : extractRequestPath w before (urlDecode req.uri).2 ∈ w.pagesW
      · simp [hdec, hw]
      · simp [hdec, hw]
  · simp [hdec]

/-! ### The gate -/

/-- Each handler in the run comes after a successful authentication. -/
def Guarded (events : List Event) : Prop :=
  ∀ front e rest, events = front ++ e :: rest → e.isDispatch = true → .authenticated true ∈ front

/-- There are users, and the client is neither on a local network nor whitelisted. -/
def NeedsLogin (w : Webem) (req : Request) : Prop :=
  w.userpasswords ≠ [] ∧ isWhitelisted w req.uri = false ∧
    ∀ host, resolveRemoteHost req w.remoteProxyIPs req.hostAddress = some host →
      areWeInLocalNetwork w host = false

/-- The proxies refuse the request, or it is answered without a handler, or the page
it would run is one that is asked for authentication. -/
def GateCondition (w : Webem) (computeAcceptHeader : Bytes → Bytes) (strays : Strays)
    (req : Request) : Prop :=
  resolveRemoteHost req w.remoteProxyIPs req.hostAddress = none ∨ req.method = str "OPTIONS" ∨
    (isPageOverride w strays.page req = true ∧ contains req.uri (str "dologout") = true) ∨
    match upgradeReply computeAcceptHeader req with
    | some rep => rep.status ≠ .switchingProtocols
    | none => isPageOverride w strays.page req = true ∨ isAction req = true ∨
        ¬ ((urlDecode req.uri).1 = true ∧ (∃ entry, multipartField req = .field entry) ∧
          ((∃ page ∈ w.pages,
              page = extractRequestPath w strays.override (urlDecode req.uri).2 ∨
              ∃ rest, page ++ chr '/' :: rest
                = extractRequestPath w strays.override (urlDecode req.uri).2) ∨
            extractRequestPath w strays.override (urlDecode req.uri).2 ∈ w.pagesW))

theorem guarded_nil : Guarded [] := by
  intro front e rest h
  simp at h

/-- A run that starts with a successful authentication is guarded. -/
theorem guarded_authenticated (events : List Event) : Guarded (.authenticated true :: events) := by
  intro front e rest h he
  cases front with
  | nil =>
    obtain ⟨rfl, -⟩ := List.cons.inj h
    cases he
  | cons f front =>
    obtain ⟨rfl, -⟩ := List.cons.inj h
    exact List.mem_cons_self

theorem guarded_refused : Guarded [.authenticated false] := by
  intro front e rest h he
  cases front with
  | nil =>
    obtain ⟨rfl, -⟩ := List.cons.inj h
    cases he
  | cons f front => simp at h

/-- A run that starts with a handler is not guarded. -/
theorem not_guarded {e : Event} {events : List Event} (he : e.isDispatch = true) :
    ¬ Guarded (e :: events) := by
  intro h
  have := h [] e events rfl he
  simp at this

/-- **Authentication guards every handler exactly under `GateCondition`.** -/
theorem guardedAt_iff (w : Webem) (actions : ActionFunction) (computeAcceptHeader : Bytes → Bytes)
    (strays : Strays) (now later : ℤ) (req : Request) (st : ServerState) :
    (NeedsLogin w req →
        Guarded (handleRequest w actions computeAcceptHeader strays now later req st)) ↔
      (NeedsLogin w req → GateCondition w computeAcceptHeader strays req) := by
  refine forall_congr' fun _ => ?_
  unfold handleRequest GateCondition
  cases hhost : resolveRemoteHost req w.remoteProxyIPs req.hostAddress with
  | none => simp [guarded_nil]
  | some host =>
    simp only [reduceCtorEq, false_or]
    by_cases hopt : req.method = str "OPTIONS"
    · simp [hopt, guarded_nil]
    · rw [if_neg hopt]
      simp only [hopt, false_or]
      by_cases hout : isPageOverride w strays.page req = true ∧
          contains req.uri (str "dologout") = true
      · rw [if_pos hout]
        simp [hout, guarded_nil]
      · rw [if_neg hout]
        simp only [hout, false_or]
        cases hup : upgradeReply computeAcceptHeader req with
        | some rep =>
          simp only
          by_cases hsw : rep.status = .switchingProtocols
          · rw [if_pos hsw]
            simp only [hsw, ne_eq, not_true_eq_false, iff_false]
            exact not_guarded rfl
          · rw [if_neg hsw]
            simp [hsw, guarded_nil]
        | none =>
          simp only
          by_cases hasked : isPageOverride w strays.page req = true ∨ isAction req = true
          · rw [if_pos hasked]
            have hcond : ∀ p : Prop, isPageOverride w strays.page req = true ∨
                isAction req = true ∨ p := by
              intro p
              rcases hasked with h | h
              · exact Or.inl h
              · exact Or.inr (Or.inl h)
            simp only [hcond, iff_true]
            cases (checkAuthentication w strays.time now later req (newSession host) st {}).ok with
            | true => exact guarded_authenticated _
            | false => exact guarded_refused
          · rw [if_neg hasked]
            rw [not_or] at hasked
            rw [← pageFor_isSome_iff, runHandlers, if_neg hasked.2]
            simp only [hasked]
            cases hpage : pageFor w strays.override req with
            | none => simp [guarded_nil]
            | some page => simp [not_guarded (e := .page page) rfl]

/-- A server with one user and the page the program registers. -/
def apiServer : Webem where
  crypto := { md5 := fun s => s, base64Decode := fun s => s }
  userpasswords := [⟨str "admin", str "secret", 2⟩]
  pages := [str "/API"]

/-- A request without any credentials for a table of the interface. -/
def tableRequest : Request where
  hostAddress := str "10.0.0.9"
  method := str "GET"
  uri := str "/API/Interfaces"
  httpVersionMajor := 1
  httpVersionMinor := 1

/-- The page is registered as `/API`, and `/API/Interfaces` is handled by it without
any authentication. -/
theorem subpath_unguarded :
    NeedsLogin apiServer tableRequest ∧
      ¬ Guarded (handleRequest apiServer (fun _ s r => (s, r.uri)) (fun key => key) ⟨0, 0, 0, 0⟩
        0 0 tableRequest ⟨KeyedMap.empty _, none, 0⟩) := by
  have hrun : handleRequest apiServer (fun _ s r => (s, r.uri)) (fun key => key) ⟨0, 0, 0, 0⟩ 0 0
      tableRequest ⟨KeyedMap.empty _, none, 0⟩ = [.page (str "/API")] := by
    have hhost : resolveRemoteHost tableRequest apiServer.remoteProxyIPs
        tableRequest.hostAddress = some (str "10.0.0.9") := rfl
    have hpage : isPageOverride apiServer 0 tableRequest = false := by decide
    have haction : isAction tableRequest = false := by decide
    have hup : upgradeReply (fun key => key) tableRequest = none := by decide
    have hscan : multipartField tableRequest = .field none := by decide
    have hpath : (urlDecode tableRequest.uri).1 = true ∧
        extractRequestPath apiServer 0 (urlDecode tableRequest.uri).2 = str "/API/Interfaces" := by
      decide
    have hfind : findPage apiServer.pages (str "/API/Interfaces") = some (str "/API") := by decide
    have hfor : pageFor apiServer 0 tableRequest = some (str "/API") := by
      simp [pageFor, hscan, hpath, hfind]
    have hopt : ¬ tableRequest.method = str "OPTIONS" := by decide
    simp [handleRequest, runHandlers, hhost, hpage, haction, hup, hfor, hopt]
  refine ⟨⟨by decide, by decide, fun host _ => by simp [areWeInLocalNetwork, apiServer]⟩, ?_⟩
  rw [hrun]
  exact not_guarded rfl

end Domoticz
