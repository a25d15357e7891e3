import Domoticz.CLib.Search
import Domoticz.Transition
import Domoticz.Web.SessionLife

/-!
# Sessions that are renewed

A client has a session and sends requests, several at a time, each with the cookie it received last.
The server handles them in any order.  A renewal sends the client a new cookie and means to store
the hash of its token in the place of the one before.  `StoreSession` does not: the row stays as it
is, or there is none.  `checkAuthToken` takes the new token for a forgery: it rejects the request
and removes the row.

A client who needs no login is not asked for a token as long as the server has the session in
memory.

## Main definitions

* `World`, `step` — the server, the client, and what is under way between them.
* `InTime` — the session has not expired when a request is handled.
* `Kept` — a request is not rejected, and the row of the session stays.
* `Meets` — the store has the hash of a request's token, or no login is needed.

## Main results

* `parse_text` — a cookie is read as it was sent.
* `checkAuthentication_keeps`, `settleSession_continues` — what keeps a session.
* `kept_of_meets` — **a session is kept if each request has the token that is stored, or needs no
  login.**
* `first_cookie_rejected` — otherwise a session does not last for one request.
-/

namespace Domoticz.Renewal

open CLib Transition

/-! ### The cookie of a session -/

/-- The bytes of a cookie's id and of its token are none that end them. -/
structure Proper (c : Cookie) : Prop where
  id_ne : c.id ≠ []
  token_ne : c.authToken ≠ []
  id_clean : 0 ∉ c.id ∧ chr ';' ∉ c.id ∧ chr '_' ∉ c.id
  token_clean : 0 ∉ c.authToken ∧ chr ';' ∉ c.authToken ∧ chr '.' ∉ c.authToken

theorem notMem_text {c : Cookie} {b : UInt8} (hid : b ∉ c.id) (htoken : b ∉ c.authToken)
    (hfixed : b ∉ str "DMZSID=" ++ str "_" ++ str ".") (hdigit : isDigit 10 b = false)
    (hsign : b ≠ chr '-') : b ∉ c.text := by
  simp only [List.mem_append, not_or] at hfixed
  simp only [Cookie.text, List.mem_append, not_or]
  exact ⟨⟨⟨⟨⟨hfixed.1.1, hid⟩, hfixed.1.2⟩, htoken⟩, hfixed.2⟩, notMem_decimal _ hdigit hsign⟩

/-- The time in a cookie is read as it was written. -/
theorem readTime_decimal (stray z : ℤ) : readTime stray (decimal z) = clampLong z := by
  have hne : (decimal z).dropWhile isSpace ≠ [] := by
    intro h
    obtain ⟨b, hb⟩ := List.exists_mem_of_ne_nil _ (decimal_ne_nil z)
    have hspace := List.dropWhile_eq_nil_iff.mp h b hb
    by_cases hdigit : isDigit 10 b = true
    · rw [isSpace_of_isDigit hdigit] at hspace
      cases hspace
    · have hsign : b = chr '-' := by
        by_contra hsign
        exact notMem_decimal z (Bool.eq_false_iff.mpr hdigit) hsign hb
      rw [hsign] at hspace
      exact absurd hspace (by decide)
  have hend : ∀ b ∈ ([] : Bytes).head?, isDigit 10 b = false := by simp
  have hread := strtol_decimal z hend
  rw [List.append_nil] at hread
  rw [readTime, if_neg hne, hread]

/-- The text of a cookie, by the bytes that end its parts. -/
theorem text_eq (c : Cookie) : c.text =
    (str "DMZSID=" ++ c.id) ++ chr '_' :: (c.authToken ++ chr '.' :: decimal c.expires) := by
  simp only [Cookie.text, List.append_assoc]
  rfl

/-- **A cookie is read as it was sent**, whatever other cookies follow it. -/
theorem parse_text {c : Cookie} (hc : Proper c) {rest : Bytes}
    (hrest : rest = [] ∨ ∃ more, rest = chr ';' :: more) (stray now : ℤ) :
    parseSessionCookie stray now (c.text ++ rest) =
      { sSID := c.id
        sAuthToken := c.authToken
        szTime := decimal c.expires
        expired := decide (clampLong c.expires < now) } := by
  have hstart : find (str "DMZSID=") (c.text ++ rest) = some 0 := by
    rw [find_eq_zero_iff, text_eq, List.append_assoc, List.append_assoc]
    exact List.prefix_append _ _
  have hclean : chr ';' ∉ c.text :=
    notMem_text hc.id_clean.2.1 hc.token_clean.2.1 (by decide) (by decide) (by decide)
  have hcut : upTo (chr ';') (c.text ++ rest) = c.text := by
    rcases hrest with rfl | ⟨more, rfl⟩
    · rw [List.append_nil, upTo_of_notMem hclean]
    · exact upTo_append_cons more hclean
  -- the parts, by the positions that are found
  have hlen : (str "DMZSID=" ++ c.id).length = 7 + c.id.length := List.length_append
  have hid : find (str "_") c.text = some (7 + c.id.length) := by
    have hfront : chr '_' ∉ str "DMZSID=" ++ c.id := by
      rw [List.mem_append, not_or]
      exact ⟨by decide, hc.id_clean.2.2⟩
    rw [text_eq, ← hlen]
    exact find_singleton_append _ hfront
  have hbehind : c.text.drop (7 + c.id.length)
      = chr '_' :: (c.authToken ++ chr '.' :: decimal c.expires) := by
    rw [text_eq, ← hlen, List.drop_left]
  have htoken : findFrom (str ".") c.text (7 + c.id.length)
      = some (8 + c.id.length + c.authToken.length) := by
    have hle : 7 + c.id.length ≤ c.text.length := by
      rw [text_eq, List.length_append, hlen]
      exact Nat.le_add_right _ _
    have hfront : chr '.' ∉ chr '_' :: c.authToken :=
      not_or.mpr ⟨by decide, hc.token_clean.2.2⟩ ∘ List.mem_cons.mp
    have hfind := find_singleton_append (decimal c.expires) hfront
    rw [findFrom, if_pos hle, hbehind, ← List.cons_append]
    refine (congrArg (Option.map (· + (7 + c.id.length))) hfind).trans ?_
    simp only [Option.map_some, List.length_cons]
    congr 1
    omega
  have hsid : (c.text.drop 7).take (7 + c.id.length - 7) = c.id := by
    have hdrop : c.text.drop 7
        = c.id ++ chr '_' :: (c.authToken ++ chr '.' :: decimal c.expires) := by
      rw [text_eq, List.append_assoc]
      rfl
    rw [hdrop, Nat.add_sub_cancel_left, List.take_left]
  have hrest' : c.text.drop (7 + c.id.length + 1)
      = c.authToken ++ chr '.' :: decimal c.expires := by
    rw [← List.drop_drop, hbehind]
    rfl
  have htake : (c.text.drop (7 + c.id.length + 1)).take
      (8 + c.id.length + c.authToken.length - (7 + c.id.length) - 1) = c.authToken := by
    have hn : 8 + c.id.length + c.authToken.length - (7 + c.id.length) - 1
        = c.authToken.length := by
      omega
    rw [hrest', hn, List.take_left]
  have htime : c.text.drop (8 + c.id.length + c.authToken.length + 1) = decimal c.expires := by
    have hn : 8 + c.id.length + c.authToken.length + 1
        = (7 + c.id.length + 1) + (c.authToken.length + 1) := by
      omega
    rw [hn, ← List.drop_drop, hrest', ← List.drop_drop, List.drop_left]
    rfl
  rw [parseSessionCookie, hstart]
  simp only [List.drop_zero, hcut, hid, htoken, hsid, htake, htime, readTime_decimal]

/-! ### What keeps a session -/

/-- A name is a user's. -/
def Named (w : Webem) (username : Bytes) : Prop := ∃ u ∈ w.userpasswords, u.username = username

/-- The store has the hash of the cookie's token, in the row of a user. -/
def Accepts (w : Webem) (c : Cookie) (st : ServerState) : Prop :=
  ∃ row, st.storedSession c.id = some row ∧ row.authToken = w.crypto.md5 c.authToken ∧
    (w.userpasswords ≠ [] → Named w row.username)

/-- The session has not expired, in memory and in the store. -/
structure Live (s : Bytes) (now later : ℤ) (st : ServerState) : Prop where
  memory : ∀ m, st.getSession s = some m → now ≤ m.expires
  row : ∀ row, st.storedSession s = some row → later ≤ row.expires

/-- The session in memory is one that goes on. -/
def Settled (s : Bytes) (st : ServerState) : Prop :=
  ∀ m, st.getSession s = some m → m.isnew = false ∧ m.forcelogin = false

theorem getSession_addSession (st : ServerState) (session : WebEmSession) (s : Bytes) :
    (st.addSession session).getSession s
      = if s = session.id then some session else st.getSession s :=
  rfl

theorem Settled.addSession {s : Bytes} {st : ServerState} (h : Settled s st)
    {session : WebEmSession} (hnew : session.isnew = false)
    (hlogin : session.forcelogin = false) : Settled s (st.addSession session) := by
  intro m hm
  rw [getSession_addSession] at hm
  split at hm
  · cases hm
    exact ⟨hnew, hlogin⟩
  · exact h m hm

section Keeps

variable {w : Webem} {c : Cookie} {st : ServerState} {session : WebEmSession} {rep : Reply}
  {later now : ℤ}

/-- The session of a request that may go on; nothing has changed in the store. -/
structure GoesOn (c : Cookie) (session : WebEmSession) (st st' : ServerState) : Prop where
  id : session.id = c.id
  isnew : session.isnew = false
  forcelogin : session.forcelogin = false
  settled : Settled c.id st'
  store : st'.store = st.store

/-- **A token whose hash is stored is accepted.** -/
theorem checkAuthToken_keeps (session : WebEmSession) (h : Accepts w c st)
    (hsettled : Settled c.id st) (hc : Proper c) (hlive : Live c.id now later st)
    (hid : session.id = c.id) (htoken : session.authToken = c.authToken)
    (hnew : session.isnew = false) (hlogin : session.forcelogin = false)
    (huser : session.rights ≠ 2 → w.userpasswords ≠ []) :
    (checkAuthToken w later session st).1 = true ∧
      GoesOn c (checkAuthToken w later session st).2.1 st
        (checkAuthToken w later session st).2.2 := by
  obtain ⟨row, hrow, hhash, hname⟩ := h
  have hexp := hlive.row row hrow
  unfold ServerState.storedSession at hrow
  unfold checkAuthToken
  cases hstore : st.store with
  | none => simp [hstore] at hrow
  | some store =>
    rw [hstore, Option.bind_some, ← hid] at hrow
    have hne : ¬ (session.id = [] ∨ session.authToken = []) := by
      rw [hid, htoken, not_or]
      exact ⟨hc.id_ne, hc.token_ne⟩
    simp only
    rw [if_neg hne, hrow]
    simp only
    rw [if_neg (not_not.mpr (htoken ▸ hhash))]
    by_cases hr : session.rights = 2
    · rw [if_pos hr, if_neg (by omega)]
      exact ⟨rfl, hid, hnew, hlogin, hsettled.addSession hnew hlogin, rfl⟩
    · rw [if_neg hr]
      split
      · -- the session is restored from its row
        obtain ⟨u, hu, hux⟩ := hname (huser hr)
        cases hfind : w.userpasswords.find? fun u => u.username == row.username with
        | none => exact absurd hux (by simpa using List.find?_eq_none.mp hfind u hu)
        | some u =>
          simp only
          rw [if_neg (by omega)]
          cases st.getSession session.id with
          | none => exact ⟨rfl, hid, hnew, hlogin, hsettled.addSession hnew hlogin, rfl⟩
          | some old => exact ⟨rfl, hid, hnew, hlogin, hsettled, rfl⟩
      · exact ⟨rfl, hid, hnew, hlogin, hsettled, rfl⟩

/-- What the server reads of a cookie. -/
theorem isComplete_of_proper (hc : Proper c) {t : SessionCookie} (hs : t.sSID = c.id)
    (htoken : t.sAuthToken = c.authToken) (htime : t.szTime = decimal c.expires) :
    t.isComplete = true := by
  rw [SessionCookie.isComplete_iff, hs, htoken, htime]
  exact ⟨hc.id_ne, hc.token_ne, decimal_ne_nil _⟩

theorem checkCookie_keeps (h : Accepts w c st) (hsettled : Settled c.id st) (hc : Proper c)
    (hlive : Live c.id now later st) (husers : w.userpasswords ≠ []) {t : SessionCookie}
    (hs : t.sSID = c.id) (htoken : t.sAuthToken = c.authToken) (hexp : t.expired = false)
    (hnew : session.isnew = false) (hlogin : session.forcelogin = false) :
    (checkCookie w later now t session st rep).ok = true ∧
      GoesOn c (checkCookie w later now t session st rep).session st
        (checkCookie w later now t session st rep).state := by
  unfold checkCookie
  rw [hs]
  cases hmem : st.getSession c.id with
  | none =>
    simp only [hexp, Bool.false_eq_true, if_false, htoken]
    have hchecked := checkAuthToken_keeps { session with id := c.id, authToken := c.authToken }
      h hsettled hc hlive rfl rfl hnew hlogin fun _ => husers
    rw [if_pos hchecked.1]
    exact ⟨rfl, hchecked.2⟩
  | some old =>
    obtain ⟨hmnew, hmlogin⟩ := hsettled old hmem
    have hid : old.id = c.id := st.sessions.keyed _ _ hmem
    have hdead : ¬ (t.expired = true ∨ old.expires < now) := by
      simp [hexp, hlive.memory old hmem]
    simp only
    rw [if_neg hdead, htoken]
    have hchecked := checkAuthToken_keeps { old with authToken := c.authToken } h hsettled hc hlive
      hid rfl hmnew hmlogin fun _ => husers
    rw [if_pos hchecked.1]
    exact ⟨rfl, hchecked.2⟩

/-- Who needs no login is let in with a session that is in memory, whatever its token. -/
theorem checkAdminCookie_keeps (h : Accepts w c st ∨ ∃ m, st.getSession c.id = some m)
    (hsettled : Settled c.id st) (hc : Proper c) (hlive : Live c.id now later st)
    {t : SessionCookie} (hs : t.sSID = c.id) (htoken : t.sAuthToken = c.authToken)
    (hnew : session.isnew = false) (hlogin : session.forcelogin = false)
    (hrights : session.rights = 2) :
    (checkAdminCookie w later now t session st rep).ok = true ∧
      GoesOn c (checkAdminCookie w later now t session st rep).session st
        (checkAdminCookie w later now t session st rep).state := by
  unfold checkAdminCookie letIn
  rw [hs]
  simp only [hc.id_ne, if_false, false_or, htoken, true_and]
  cases hmem : st.getSession c.id with
  | none =>
    have haccepts : Accepts w c st := by
      rcases h with haccepts | ⟨m, hm⟩
      · exact haccepts
      · rw [hmem] at hm
        cases hm
    have hchecked := checkAuthToken_keeps { session with id := c.id, authToken := c.authToken }
      haccepts hsettled hc hlive rfl rfl hnew hlogin fun hr => absurd hrights hr
    simp only [hchecked.1, Bool.not_true, Bool.false_eq_true, if_false]
    exact hchecked.2
  | some old =>
    obtain ⟨hmnew, hmlogin⟩ := hsettled old hmem
    have hid : old.id = c.id := st.sessions.keyed _ _ hmem
    have hlives : ¬ old.expires < now := not_lt.mpr (hlive.memory old hmem)
    simp only [hlives, decide_false, Bool.false_eq_true, if_false]
    exact ⟨hid, hmnew, hmlogin, hsettled, rfl⟩

end Keeps

/-! ### A request with a cookie of the session -/

/-- A request, with a cookie and what other cookies the client has. -/
structure Sent where
  cookie : Cookie
  req : Request
  others : Bytes

/-- The request as it reaches the server. -/
def Sent.request (r : Sent) : Request :=
  let cookies := if r.others = [] then r.cookie.text else r.cookie.text ++ str "; " ++ r.others
  { r.req with headers := ⟨str "Cookie", cookies⟩ :: r.req.headers }

theorem cookie_request {r : Sent} (hc : Proper r.cookie) :
    ∃ rest, r.request.getReqHeader "Cookie" = some (r.cookie.text ++ rest) ∧
      (rest = [] ∨ ∃ more, rest = chr ';' :: more) := by
  have hclean : 0 ∉ r.cookie.text :=
    notMem_text hc.id_clean.1 hc.token_clean.1 (by decide) (by decide) (by decide)
  have hname : iequals (str "Cookie") (cstr (str "Cookie")) = true := by decide
  have hheader : r.request.getReqHeader "Cookie" = some (cstr (if r.others = [] then
      r.cookie.text else r.cookie.text ++ str "; " ++ r.others)) := by
    simp only [Request.getReqHeader, Sent.request, List.find?_cons, hname, Option.map_some]
  have hfront : ∀ rest, cstr (r.cookie.text ++ rest) = r.cookie.text ++ cstr rest := by
    intro rest
    refine List.takeWhile_append_of_pos fun b hb => ?_
    rw [bne_iff_ne]
    rintro rfl
    exact hclean hb
  by_cases hothers : r.others = []
  · refine ⟨[], ?_, Or.inl rfl⟩
    rw [hheader, if_pos hothers, cstr_of_notMem hclean, List.append_nil]
  · refine ⟨cstr (str "; " ++ r.others), ?_, Or.inr ⟨_, rfl⟩⟩
    rw [hheader, if_neg hothers, List.append_assoc, hfront]

section Served

variable {w : Webem} {r : Sent} {st : ServerState} {a : Circumstances} {host : Bytes}

/-- The client needs no login: there are no users, or it is on a local network. -/
def NeedsNone (w : Webem) (req : Request) : Prop :=
  w.userpasswords = [] ∨ ∃ host,
    resolveRemoteHost req w.remoteProxyIPs req.hostAddress = some host ∧
      areWeInLocalNetwork w host = true

/-- The store accepts the token of a request whose cookie has not expired, or the client needs none
and the server remembers the session. -/
def Welcome (w : Webem) (now : ℤ) (r : Sent) (st : ServerState) : Prop :=
  Accepts w r.cookie st ∧ now ≤ r.cookie.expires ∨
    NeedsNone w r.request ∧ ∃ m, st.getSession r.cookie.id = some m

theorem checkAuthentication_keeps (hc : Proper r.cookie) (h : Welcome w a.now r st)
    (hsettled : Settled r.cookie.id st) (hlive : Live r.cookie.id a.now a.later st)
    (hhost : resolveRemoteHost r.request w.remoteProxyIPs r.request.hostAddress = some host) :
    let auth := checkAuthentication w a.strays.time a.now a.later r.request (newSession host) st {}
    auth.ok = true ∧ GoesOn r.cookie auth.session st auth.state := by
  obtain ⟨rest, hheader, hrest⟩ := cookie_request hc
  have hparse := parse_text hc hrest a.strays.time a.now
  intro auth
  unfold auth checkAuthentication
  rw [hheader]
  simp only [hparse]
  cases hadmin : isAdmin w (newSession host) with
  | true =>
    simp only [if_true]
    exact checkAdminCookie_keeps (h.imp And.left And.right) hsettled hc hlive rfl rfl rfl rfl rfl
  | false =>
    obtain ⟨husers, hlocal⟩ : w.userpasswords ≠ [] ∧ areWeInLocalNetwork w host = false := by
      simpa [isAdmin, newSession] using hadmin
    obtain ⟨haccepts, hnow⟩ : Accepts w r.cookie st ∧ a.now ≤ r.cookie.expires := by
      rcases h with haccepts | ⟨hnone | ⟨host', hhost', hlocal'⟩, -⟩
      · exact haccepts
      · exact absurd hnone husers
      · rw [hhost] at hhost'
        cases hhost'
        rw [hlocal] at hlocal'
        cases hlocal'
    have hexp : decide (clampLong r.cookie.expires < a.now) = false := by
      have hlt := a.now_lt
      rw [decide_eq_false_iff_not, not_lt]
      unfold clampLong
      omega
    have hcomplete : SessionCookie.isComplete ⟨r.cookie.id, r.cookie.authToken,
        decimal r.cookie.expires, decide (clampLong r.cookie.expires < a.now)⟩ = true :=
      isComplete_of_proper hc rfl rfl rfl
    have hrights : ¬ (-1 : ℤ) = 2 := by norm_num
    simp only [Bool.false_eq_true, if_false, if_neg hrights, hcomplete, if_true]
    exact checkCookie_keeps haccepts hsettled hc hlive husers rfl rfl hexp rfl rfl

/-- A token that is drawn is none that ends a cookie. -/
theorem proper_of_drawn {s : Bytes} {uuid : UUID} {expires : ℤ} (hne : s ≠ [])
    (hclean : 0 ∉ s ∧ chr ';' ∉ s ∧ chr '_' ∉ s) : Proper ⟨s, base64Encode uuid.val, expires⟩ := by
  have hnil : base64Encode uuid.val ≠ [] := by
    obtain ⟨u, hu⟩ := uuid
    match u, hu with
    | a :: b :: c :: rest, _ => exact List.cons_ne_nil _ _
  have hnot : ∀ b, b ∉ chr '=' :: base64Chars → b ∉ base64Encode uuid.val :=
    fun b hb h => hb (mem_base64Encode h)
  exact ⟨hne, hnil, hclean, hnot _ (by decide), hnot _ (by decide), hnot _ (by decide)⟩

/-- What the handling of a request leaves: the row, if there was one, and cookies of the session. -/
structure Continues (c : Cookie) (sent : Option Cookie) (st st' : ServerState) : Prop where
  row : st.storedSession c.id ≠ none → st'.storedSession c.id ≠ none
  settled : Settled c.id st'
  sent : ∀ c' ∈ sent, c'.id = c.id ∧ Proper c'

theorem continues_refl {c : Cookie} (h : Settled c.id st) : Continues c none st st :=
  ⟨id, h, nofun⟩

/-- **A renewal sends a cookie of the session and leaves its row.** -/
theorem renewSession_continues {c : Cookie} {m : WebEmSession} (hc : Proper c)
    (h : Settled c.id st) (hm : st.getSession c.id = some m) (expires : ℤ) :
    Continues c (renewSession w a expires m st).1 st (renewSession w a expires m st).2 := by
  obtain ⟨hnew, hlogin⟩ := h m hm
  have hid : m.id = c.id := st.sessions.keyed _ _ hm
  refine ⟨fun hrow => ?_, Settled.addSession h hnew hlogin, ?_⟩
  · obtain ⟨row, hrow⟩ := Option.ne_none_iff_exists'.mp hrow
    have hstays := ServerState.storedSession_storeSession_some st hrow a.sql
      { id := m.id
        remoteHost := m.remoteHost
        authToken := w.crypto.md5 (base64Encode a.uuidToken.val)
        username := m.username
        expires }
    simp only [renewSession, generateAuthToken, ServerState.storedSession_addSession]
    rw [hstays]
    exact Option.some_ne_none _
  · rintro c' ⟨⟩
    exact ⟨hid, proper_of_drawn (hid ▸ hc.id_ne) (hid ▸ hc.id_clean)⟩

/-- What becomes of the session of a request that goes on. -/
theorem settleSession_continues {c : Cookie} {session : WebEmSession} (hc : Proper c)
    (hid : session.id = c.id) (hnew : session.isnew = false) (hlogin : session.forcelogin = false)
    (h : Settled c.id st) :
    Continues c (settleSession w a session st).1 st (settleSession w a session st).2 := by
  have hne : session.id ≠ [] := by
    rw [hid]
    exact hc.id_ne
  unfold settleSession
  simp only [hnew, hlogin, Bool.false_eq_true, if_false, if_neg hne]
  rw [hid]
  cases hm : st.getSession c.id with
  | none => exact continues_refl h
  | some m =>
    simp only
    split
    · exact renewSession_continues hc h hm _
    · split
      · exact renewSession_continues hc h hm _
      · exact continues_refl h

theorem finish_continues {c : Cookie} {session : WebEmSession} {req : Request} (hc : Proper c)
    (hid : session.id = c.id) (hnew : session.isnew = false) (hlogin : session.forcelogin = false)
    (h : Settled c.id st) :
    Continues c (finish w a req session st).1 st (finish w a req session st).2 := by
  unfold finish
  simp only [hnew, Bool.false_eq_true, false_and, if_false]
  exact settleSession_continues hc hid rfl hlogin h

/-- A request without a session leaves the sessions alone. -/
theorem finish_newSession (w : Webem) (a : Circumstances) (req : Request) (host : Bytes)
    (st : ServerState) : finish w a req (newSession host) st = (none, st) := by
  simp [finish, settleSession, newSession]

/-- The request asks for the end of the session. -/
def LogsOut (w : Webem) (a : Circumstances) (req : Request) : Prop :=
  isPageOverride w a.strays.page req = true ∧ contains req.uri (str "dologout") = true

/-- Nobody asks whom the request is from: it is neither a page nor an action. -/
def Unasked (w : Webem) (a : Circumstances) (req : Request) : Prop :=
  ¬ (isPageOverride w a.strays.page req = true ∨ isAction req = true)

/-- The statements of the page do not remove the row of the session. -/
def LeavesRow (a : Circumstances) (s : Bytes) : Prop :=
  ∀ store, store.get s ≠ none → (a.page store).get s ≠ none

theorem row_call {s : Bytes} (h : LeavesRow a s) (hrow : st.storedSession s ≠ none) :
    (a.call st).storedSession s ≠ none := by
  unfold ServerState.storedSession at hrow ⊢
  unfold Circumstances.call
  cases hstore : st.store with
  | none => simp [hstore] at hrow
  | some store =>
    rw [hstore, Option.bind_some] at hrow
    exact h store hrow

/-- What is not turned down: nothing is said of the request, or it is admitted. -/
theorem ne_rejected {ok : Option Bool} (h : ok = none ∨ ok = some true) : ok ≠ some false := by
  rintro rfl
  rcases h with h | h
  · cases h
  · cases h

theorem notSent {c : Cookie} : ∀ c' ∈ (none : Option Cookie), c'.id = c.id ∧ Proper c' := by
  intro c' h
  cases h

/-- **A request that the store accepts, or that needs no login, is not rejected, and the session
goes on.** -/
theorem serve_continues (computeAcceptHeader : Bytes → Bytes) (hc : Proper r.cookie)
    (h : Unasked w a r.request ∨ Welcome w a.now r st) (hsettled : Settled r.cookie.id st)
    (hlive : Live r.cookie.id a.now a.later st) (hlogout : ¬ LogsOut w a r.request)
    (hpage : LeavesRow a r.cookie.id) :
    (serve w computeAcceptHeader a r.request st).ok ≠ some false ∧
      Continues r.cookie (serve w computeAcceptHeader a r.request st).cookie st
        (serve w computeAcceptHeader a r.request st).state := by
  have hsame := continues_refl hsettled
  unfold serve
  cases hhost : resolveRemoteHost r.request w.remoteProxyIPs r.request.hostAddress with
  | none => exact ⟨ne_rejected (.inl rfl), hsame⟩
  | some host =>
    simp only
    split
    · exact ⟨ne_rejected (.inl rfl), hsame⟩
    · split
      · next hout => exact absurd hout hlogout
      · split
        · exact ⟨ne_rejected (.inl rfl), hsame⟩
        · split
          · next hasked =>
            -- the server asks who it is, so the request must be welcome
            have hwelcome := h.resolve_left (not_not.mpr hasked)
            obtain ⟨hok, hgoes⟩ := checkAuthentication_keeps hc hwelcome hsettled hlive hhost
            have hrow (hrow : st.storedSession r.cookie.id ≠ none) :
                (checkAuthentication w a.strays.time a.now a.later r.request (newSession host) st
                  {}).state.storedSession r.cookie.id ≠ none := by
              rw [ServerState.storedSession, hgoes.store]
              exact hrow
            simp only [hok, Bool.not_true, Bool.false_eq_true, if_false]
            split
            · exact ⟨ne_rejected (.inr rfl), hrow, hgoes.settled, notSent⟩
            · split
              · exact ⟨ne_rejected (.inr rfl), fun hstored => row_call hpage (hrow hstored),
                  hgoes.settled, notSent⟩
              · -- the page may change the store, but not what is settled
                have hcalled : Settled r.cookie.id (a.call (checkAuthentication w a.strays.time a.now
                    a.later r.request (newSession host) st {}).state) := hgoes.settled
                obtain ⟨hstays, hsettled', hsent⟩ :=
                  finish_continues hc hgoes.id hgoes.isnew hgoes.forcelogin hcalled
                exact ⟨ne_rejected (.inr rfl), fun hstored => hstays (row_call hpage (hrow hstored)),
                  hsettled', hsent⟩
          · split
            · exact ⟨ne_rejected (.inl rfl), row_call hpage, hsettled, notSent⟩
            · rw [finish_newSession]
              exact ⟨ne_rejected (.inl rfl), row_call hpage, hsettled, notSent⟩

end Served

/-! ### The client and the server -/

/-- The server, the client with the cookie it received last, and what is under way between them. -/
structure World where
  server : ServerState
  held : Cookie
  requests : List Sent
  replies : List Cookie

/-- What happens: the client sends a request, the server handles one of those under way, one of the
replies arrives, or the timer cleans the sessions. -/
inductive Step
  | send (req : Request) (others : Bytes)
  | handle (k : ℕ) (a : Circumstances)
  | receive (k : ℕ)
  | clean (now : ℤ) (isOver : Bytes → Bool)

/-- A step of the client and the server. -/
def step (w : Webem) (computeAcceptHeader : Bytes → Bytes) (v : World) : Step → World
  | .send req others => { v with requests := v.requests ++ [⟨v.held, req, others⟩] }
  | .handle k a =>
      match v.requests[k]? with
      | none => v
      | some r =>
          let served := serve w computeAcceptHeader a r.request v.server
          { v with
            server := served.state
            requests := v.requests.eraseIdx k
            replies := v.replies ++ served.cookie.toList }
  | .receive k =>
      match v.replies[k]? with
      | none => v
      | some c => { v with held := c, replies := v.replies.eraseIdx k }
  | .clean now isOver => { v with server := cleanSessions now isOver v.server }

/-- The client holds a cookie of a session that the server knows; nothing is under way. -/
structure Begins (s : Bytes) (v : World) : Prop where
  id : v.held.id = s
  proper : Proper v.held
  known : (∃ m, v.server.getSession s = some m) ∨ v.server.storedSession s ≠ none
  settled : Settled s v.server
  requests : v.requests = []
  replies : v.replies = []

/-- The session has not expired when a request is handled, or when expired rows are removed. -/
def InTime (s : Bytes) (v : World) (e : Step) : Prop :=
  match e with
  | .handle _ a => Live s a.now a.later v.server
  | .clean _ isOver => isOver s = false
  | _ => True

/-- A request that is handled is not rejected. -/
def NotRejected (w : Webem) (computeAcceptHeader : Bytes → Bytes) (v : World) (e : Step) : Prop :=
  match e with
  | .handle k a => ∀ r, v.requests[k]? = some r →
      (serve w computeAcceptHeader a r.request v.server).ok ≠ some false
  | _ => True

/-- A request that is handled is not rejected, and the row of the session stays, if there is one. -/
def Kept (w : Webem) (computeAcceptHeader : Bytes → Bytes) (s : Bytes) (v : World) (e : Step) :
    Prop :=
  NotRejected w computeAcceptHeader v e ∧ (v.server.storedSession s ≠ none →
    (step w computeAcceptHeader v e).server.storedSession s ≠ none)

/-- A request that is handled is no logout, and its page leaves the row of the session alone; and
nobody asks whom it is from, or the store accepts its token before its cookie expires, or it needs
no login and finds the session in memory. -/
def Meets (w : Webem) (s : Bytes) (v : World) (e : Step) : Prop :=
  match e with
  | .handle k a => ∀ r, v.requests[k]? = some r → ¬ LogsOut w a r.request ∧ LeavesRow a s ∧
      (Unasked w a r.request ∨ Welcome w a.now r v.server)
  | _ => True

/-- What is the case as long as the session is kept: every cookie is one of the session. -/
structure Inv (s : Bytes) (v : World) : Prop where
  settled : Settled s v.server
  held : v.held.id = s ∧ Proper v.held
  requests : ∀ r ∈ v.requests, r.cookie.id = s ∧ Proper r.cookie
  replies : ∀ c ∈ v.replies, c.id = s ∧ Proper c

section Runs

variable {w : Webem} {s : Bytes} {v : World}

/-- The timer leaves a session that has not expired in the store. -/
theorem row_cleanSessions {st : ServerState} {isOver : Bytes → Bool} (now : ℤ)
    (hover : isOver s = false) (hrow : st.storedSession s ≠ none) :
    (cleanSessions now isOver st).storedSession s ≠ none := by
  unfold ServerState.storedSession at hrow ⊢
  unfold cleanSessions
  cases hstore : st.store with
  | none => simp [hstore] at hrow
  | some store =>
    rw [hstore, Option.bind_some] at hrow
    obtain ⟨row, hget⟩ := Option.ne_none_iff_exists'.mp hrow
    have hstays : (store.filter fun row => !isOver row.id).get s = some row := by
      rw [KeyedMap.get_filter, hget]
      exact Option.filter_eq_some_iff.mpr ⟨rfl, by simp [store.keyed _ _ hget, hover]⟩
    rw [Option.map_some, Option.bind_some, hstays]
    exact Option.some_ne_none _

theorem Settled.cleanSessions {st : ServerState} (h : Settled s st) (now : ℤ)
    (isOver : Bytes → Bool) : Settled s (cleanSessions now isOver st) :=
  fun m hm => h m (Option.filter_eq_some_iff.mp hm).1

/-- **One step keeps the session.** -/
theorem inv_step (computeAcceptHeader : Bytes → Bytes) (h : Inv s v) {e : Step}
    (htime : InTime s v e) (hmeets : Meets w s v e) :
    Kept w computeAcceptHeader s v e ∧ Inv s (step w computeAcceptHeader v e) := by
  cases e with
  | send req others =>
    -- the request carries the cookie that is held
    refine ⟨⟨trivial, id⟩, h.settled, h.held, ?_, h.replies⟩
    intro r hr
    rcases List.mem_append.mp hr with hr | hr
    · exact h.requests r hr
    · rw [List.mem_singleton.mp hr]
      exact h.held
  | receive k =>
    simp only [Kept, step]
    cases hc : v.replies[k]? with
    | none => exact ⟨⟨trivial, id⟩, h⟩
    | some c =>
      exact ⟨⟨trivial, id⟩, h.settled, h.replies c (List.mem_of_getElem? hc), h.requests,
        fun c' hc' => h.replies c' (List.mem_of_mem_eraseIdx hc')⟩
  | clean now isOver =>
    exact ⟨⟨trivial, row_cleanSessions now htime⟩, h.settled.cleanSessions now isOver, h.held,
      h.requests, h.replies⟩
  | handle k a =>
    simp only [Kept, step, NotRejected]
    cases hr : v.requests[k]? with
    | none => exact ⟨⟨nofun, id⟩, h⟩
    | some r =>
      -- the request that is served now is one of those under way
      obtain ⟨hlogout, hpage, hwelcome⟩ := hmeets r hr
      obtain ⟨hid, hc⟩ := h.requests r (List.mem_of_getElem? hr)
      have hsettled := h.settled
      have hlive : Live s a.now a.later v.server := htime
      rw [← hid] at hsettled hlive hpage
      obtain ⟨hok, hrow, hsettled', hsent⟩ :=
        serve_continues computeAcceptHeader hc hwelcome hsettled hlive hlogout hpage
      rw [hid] at hrow hsettled' hsent
      refine ⟨⟨?_, hrow⟩, hsettled', h.held,
        fun r' hr' => h.requests r' (List.mem_of_mem_eraseIdx hr'), ?_⟩
      · rintro r' ⟨⟩
        exact hok
      · intro c hc
        rcases List.mem_append.mp hc with hc | hc
        · exact h.replies c hc
        · exact hsent c (Option.mem_toList.mp hc)

/-- **A session is kept in every run in which each request that is handled** is no logout and leaves
the row alone, and is not asked for, has the token whose hash is stored, or needs no login while the
server has the session in memory. -/
theorem kept_of_meets (w : Webem) (computeAcceptHeader : Bytes → Bytes) (s : Bytes) (v : World)
    (es : List Step) (hv : Begins s v)
    (h : Throughout (step w computeAcceptHeader) (fun v e => InTime s v e ∧ Meets w s v e) v es) :
    Throughout (step w computeAcceptHeader) (Kept w computeAcceptHeader s) v es := by
  have hstart : Inv s v := by
    refine ⟨hv.settled, ⟨hv.id, hv.proper⟩, ?_, ?_⟩
    · rw [hv.requests]
      exact nofun
    · rw [hv.replies]
      exact nofun
  refine throughout_of_kept (I := Inv s) ?_ ?_ hstart h
  · intro v e hinv he
    exact (inv_step computeAcceptHeader hinv he.1 he.2).2
  · intro v e hinv he
    exact (inv_step computeAcceptHeader hinv he.1 he.2).1

end Runs

/-! ### A session that has begun -/

theorem length_firstUuid : (str "c9bf9e57-1685-4c89-bafb-ff5af830be8a").length = 36 := by decide

theorem length_secondUuid : (str "e4eaaaf2-d142-41b3-b41d-4cdb26b1a6f1").length = 36 := by decide

theorem nineHundred_lt : (900 : ℤ) < 2 ^ 63 := by norm_num

/-- A request that is handled at 900, in a database with one user and one role. -/
def atNineHundred : Circumstances where
  strays := ⟨0, 0, 0, 0⟩
  sql := ⟨numeralAffinity, epochFormat, [1], [1], 0, []⟩
  now := 900
  now_lt := nineHundred_lt
  later := 900
  done := 900
  renewal := 900
  uuidSession := ⟨_, length_firstUuid⟩
  uuidToken := ⟨_, length_secondUuid⟩
  page store := store
  ended := false

/-- The server has a session that is half over in memory, as `startSession` leaves it, and no row
of it. -/
def halfOver : World where
  server := {
    sessions := (KeyedMap.empty WebEmSession.id).insert
      { id := str "abc", authToken := str "token", username := str "admin", rights := 2
        timeout := 1100, expires := 1100 }
    store := some (KeyedMap.empty WebEmStoredSession.id)
    failcounter := 0 }
  held := ⟨str "abc", str "token", 1100⟩
  requests := []
  replies := []

/-- A request for the page. -/
def pageRequest : Request where
  hostAddress := str "10.0.0.9"
  method := str "GET"
  uri := str "/API"
  httpVersionMajor := 1
  httpVersionMinor := 1

theorem begins_halfOver : Begins (str "abc") halfOver := by
  have hproper : Proper halfOver.held := by
    constructor
    · decide
    · decide
    · exact ⟨by decide, by decide, by decide⟩
    · exact ⟨by decide, by decide, by decide⟩
  refine ⟨rfl, hproper, .inl ⟨_, rfl⟩, ?_, rfl, rfl⟩
  rintro m ⟨⟩
  exact ⟨rfl, rfl⟩

/-- A session that is only in memory, by its expiry there. -/
theorem live_memory {s : Bytes} {st : ServerState} {now later : ℤ} (expires : ℤ)
    (hmemory : (st.getSession s).map WebEmSession.expires = some expires)
    (hrow : st.storedSession s = none) (hnow : now ≤ expires) : Live s now later st := by
  constructor
  · intro m hm
    rw [hm, Option.map_some, Option.some.injEq] at hmemory
    exact hmemory ▸ hnow
  · intro row hstored
    rw [hrow] at hstored
    cases hstored

/-- A server without users. -/
def openServer : Webem := { apiServer with userpasswords := [] }

theorem kept_of_meets_inTurn :
    Throughout (step openServer id) (Kept openServer id (str "abc")) halfOver
      [.send pageRequest [], .handle 0 atNineHundred, .receive 0, .send pageRequest [],
        .handle 0 atNineHundred] := by
  have hlogout : ∀ {c : Cookie},
      ¬ LogsOut openServer atNineHundred (Sent.request ⟨c, pageRequest, []⟩) := by
    rintro c ⟨-, hout⟩
    have huri : contains (str "/API") (str "dologout") = false := by decide
    exact absurd hout (Bool.eq_false_iff.mp huri)
  refine kept_of_meets openServer id (str "abc") halfOver _ begins_halfOver ?_
  refine ⟨⟨trivial, trivial⟩, ⟨?_, ?_⟩, ⟨trivial, trivial⟩, ⟨trivial, trivial⟩, ⟨?_, ?_⟩, trivial⟩
  · exact live_memory 1100 (by decide) (by decide) (by decide)
  · rintro r ⟨⟩
    exact ⟨hlogout, fun _ => id, .inr (.inr ⟨.inl rfl, _, rfl⟩)⟩
  · exact live_memory 1500 (by decide) (by decide) (by decide)
  · rintro r ⟨⟩
    exact ⟨hlogout, fun _ => id, .inr (.inr ⟨.inl rfl, _, rfl⟩)⟩

/-- Where a login is needed the first request with the cookie of a session that has just begun is
rejected: its row was not stored. -/
theorem first_cookie_rejected :
    ¬ ∀ (v : World) (es : List Step), Begins (str "abc") v →
      Throughout (step apiServer id) (InTime (str "abc")) v es →
      Throughout (step apiServer id) (Kept apiServer id (str "abc")) v es := by
  intro h
  have hrun := h halfOver [.send pageRequest [], .handle 0 atNineHundred] begins_halfOver ?_
  · have hrejected := hrun.2.1.1 _ rfl
    exact absurd (by decide) hrejected
  · exact ⟨trivial, live_memory 1100 (by decide) (by decide) (by decide), trivial⟩

end Domoticz.Renewal
