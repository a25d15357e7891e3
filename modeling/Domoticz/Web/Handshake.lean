import Domoticz.Web.Sha1
import Domoticz.Web.SessionLife

/-!
# The handshake

A connection becomes a websocket if `is_upgrade_request` finds all the fields it looks for.  The
client has sent a key, and what it looks for in the reply is the hash of this key and a text that
only those know who know the protocol.

## Main definitions

* `computeAcceptHeader` — `compute_accept_header`.
* `Opening` — the request of a client that may have its websocket.
* `switched` — the reply to it.

## Main results

* `accept_ne_nil` — there is always something to reply.
* `switched_iff` — **the protocol is switched for those requests, with the reply that the client
  waits for**.
-/

namespace Domoticz.Handshake

open CLib

/-! ### The code -/

/-- "The GUID as specified in RFC 6455." -/
def GUID : Bytes := str "258EAFA5-E914-47DA-95CA-C5AB0DC85B11"

/-- `compute_accept_header`; the buffer of `sha1::calc` has not been set. -/
def computeAcceptHeader (w : Sha1.Buffer) (websocket_key : Bytes) : Bytes :=
  base64Encode (Sha1.calcHash w (websocket_key ++ GUID))

/-! ### The request -/

/-- What a client has to send. -/
structure Opening (req : Request) (key : Bytes) : Prop where
  method : req.method = str "GET"
  version : 11 ≤ req.httpVersionMajor * 10 + req.httpVersionMinor
  connection : ∃ v, req.getReqHeader "Connection" = some v ∧ contains v (str "Upgrade") = true
  websocket : ∃ v, req.getReqHeader "Upgrade" = some v ∧ iequals v (str "websocket") = true
  uri : req.uri = str "/PUSH"
  host : (req.getReqHeader "Host").isSome = true
  origin : (req.getReqHeader "Origin").isSome = true
  supported : ∃ v, req.getReqHeader "Sec-Websocket-Version" = some v ∧ 13 ≤ atoi v
  protocol : ∃ v, req.getReqHeader "Sec-Websocket-Protocol" = some v ∧
    contains v (str "domoticz") = true
  key : req.getReqHeader "Sec-Websocket-Key" = some key

/-- The reply with which the protocol is switched. -/
def switched (accept : Bytes) : Reply where
  status := .switchingProtocols
  headers := [⟨str "Connection", str "Upgrade"⟩, ⟨str "Upgrade", str "websocket"⟩,
    ⟨str "Sec-Websocket-Accept", accept⟩, ⟨str "Sec-Websocket-Protocol", str "domoticz"⟩]

/-- The reply as it is put together. -/
theorem addHeader_switched (accept : Bytes) :
    ((((stockReply .switchingProtocols).addHeader (str "Connection") (str "Upgrade")).addHeader
      (str "Upgrade") (str "websocket")).addHeader (str "Sec-Websocket-Accept") accept).addHeader
        (str "Sec-Websocket-Protocol") (str "domoticz") = switched accept := by
  rfl

theorem upgradeReply_of_opening {accept : Bytes → Bytes} {req : Request} {key : Bytes}
    (h : Opening req key) (hne : accept key ≠ []) :
    upgradeReply accept req = some (switched (accept key)) := by
  obtain ⟨c, hc, hupgrade⟩ := h.connection
  obtain ⟨u, hu, hwebsocket⟩ := h.websocket
  obtain ⟨v, hv, hversion⟩ := h.supported
  obtain ⟨p, hp, hprotocol⟩ := h.protocol
  have hhost : (req.getReqHeader "Host").isNone = false := by
    simpa using h.host
  have horigin : (req.getReqHeader "Origin").isNone = false := by
    simpa using h.origin
  rw [upgradeReply, if_neg (not_not.mpr h.method), if_neg (not_lt.mpr h.version), hc, hu,
    Option.any_some, Option.any_some, hupgrade, hwebsocket, if_neg (by decide),
    if_neg (by decide), if_neg (not_not.mpr h.uri), hhost, horigin, if_neg (by decide),
    if_neg (by decide), hv]
  simp only
  rw [if_neg (not_lt.mpr hversion), hp]
  simp only
  rw [hprotocol, if_neg (by decide), h.key]
  simp only
  rw [if_neg hne, addHeader_switched]

/-- Where the protocol is switched, every field has been found. -/
theorem opening_of_upgradeReply {accept : Bytes → Bytes} {req : Request} {rep : Reply}
    (h : upgradeReply accept req = some rep) (hstatus : rep.status = .switchingProtocols) :
    ∃ key, Opening req key ∧ accept key ≠ [] := by
  have hstock {s : Status} (hs : s ≠ .switchingProtocols) : some (stockReply s) ≠ some rep := by
    rintro ⟨⟩
    exact hs hstatus
  unfold upgradeReply at h
  split_ifs at h with hmethod hversion hconnection hwebsocket huri hhost horigin
  iterate 3 exact absurd h (hstock (by decide))
  split at h
  · exact absurd h (hstock (by decide))
  next v hv =>
  split_ifs at h with hsupported
  · exact absurd h (hstock (by decide))
  split at h
  · exact absurd h (Option.some_ne_none rep).symm
  next p hp =>
  split_ifs at h with hprotocol
  · exact absurd h (hstock (by decide))
  split at h
  · exact absurd h (hstock (by decide))
  next key hkey =>
  simp only at h
  split_ifs at h with hempty
  · exact absurd h (hstock (by decide))
  exact ⟨key, {
    method := not_not.mp hmethod
    version := not_lt.mp hversion
    connection := by simpa [Option.any_eq_true] using hconnection
    websocket := by simpa [Option.any_eq_true] using hwebsocket
    uri := not_not.mp huri
    host := by simpa [Option.isSome_iff_ne_none] using hhost
    origin := by simpa [Option.isSome_iff_ne_none] using horigin
    supported := ⟨v, hv, not_lt.mp hsupported⟩
    protocol := ⟨p, hp, by simpa using hprotocol⟩
    key := hkey }, hempty⟩

/-! ### The reply -/

/-- There is always something to reply. -/
theorem accept_ne_nil (w : Sha1.Buffer) (key : Bytes) : computeAcceptHeader w key ≠ [] := by
  have hthree {s : Bytes} (h : 3 ≤ s.length) : base64Encode s ≠ [] := by
    obtain ⟨a, t, rfl⟩ := List.exists_cons_of_length_pos (show 0 < s.length by omega)
    rw [List.length_cons] at h
    obtain ⟨b, t, rfl⟩ := List.exists_cons_of_length_pos (show 0 < t.length by omega)
    rw [List.length_cons] at h
    obtain ⟨c, t, rfl⟩ := List.exists_cons_of_length_pos (show 0 < t.length by omega)
    rw [base64Encode]
    exact List.cons_ne_nil _ _
  apply hthree
  rw [Sha1.calcHash, Sha1.hashBytes, List.length_map, List.length_range]
  decide

/-- **The protocol is switched for the requests with all the fields, and the reply has the hash
that the client looks for.** -/
theorem switched_iff {w : Sha1.Buffer} (hw : w.length = 80) {req : Request}
    (hkey : ∀ key, req.getReqHeader "Sec-Websocket-Key" = some key → key.length + 36 < 2 ^ 29)
    (rep : Reply) :
    (upgradeReply (computeAcceptHeader w) req = some rep ∧ rep.status = .switchingProtocols) ↔
      ∃ key, Opening req key ∧ rep = switched (base64Encode (CLib.Sha1.sha1 (key ++ GUID))) := by
  have hreply {key : Bytes} (h : Opening req key) : upgradeReply (computeAcceptHeader w) req =
      some (switched (base64Encode (CLib.Sha1.sha1 (key ++ GUID)))) := by
    have hlen : (key ++ GUID).length < 2 ^ 29 := by
      rw [List.length_append]
      exact hkey key h.key
    have hbits : 8 * (key ++ GUID).length < 2 ^ 32 := by omega
    rw [upgradeReply_of_opening h (accept_ne_nil w key), computeAcceptHeader,
      Sha1.calcHash_blocks hw, Nat.mod_eq_of_lt hbits, ← Sha1.sha1_eq]
  constructor
  · rintro ⟨h, hstatus⟩
    obtain ⟨key, hopening, -⟩ := opening_of_upgradeReply h hstatus
    exact ⟨key, hopening, Option.some_inj.mp (h.symm.trans (hreply hopening))⟩
  · rintro ⟨key, hopening, rfl⟩
    exact ⟨hreply hopening, rfl⟩

/-- A page of the program asks for its websocket. -/
def pushRequest : Request where
  method := str "GET"
  uri := str "/PUSH"
  httpVersionMajor := 1
  httpVersionMinor := 1
  headers := [⟨str "Host", str "localhost"⟩, ⟨str "Connection", str "keep-alive, Upgrade"⟩,
    ⟨str "Upgrade", str "websocket"⟩, ⟨str "Origin", str "http://localhost"⟩,
    ⟨str "Sec-WebSocket-Version", str "13"⟩, ⟨str "Sec-WebSocket-Protocol", str "domoticz"⟩,
    ⟨str "Sec-WebSocket-Key", str "dGhlIHNhbXBsZSBub25jZQ=="⟩]

theorem opening_pushRequest : Opening pushRequest (str "dGhlIHNhbXBsZSBub25jZQ==") where
  method := rfl
  version := by decide
  connection := ⟨_, rfl, by decide⟩
  websocket := ⟨_, rfl, by decide⟩
  uri := rfl
  host := by decide
  origin := by decide
  supported := ⟨_, rfl, by decide⟩
  protocol := ⟨_, rfl, by decide⟩
  key := by decide

theorem switched_pushRequest :
    upgradeReply (computeAcceptHeader (List.replicate 80 0)) pushRequest =
      some (switched (base64Encode
        (CLib.Sha1.sha1 (str "dGhlIHNhbXBsZSBub25jZQ==" ++ GUID)))) ∧
      (switched (base64Encode (CLib.Sha1.sha1 (str "dGhlIHNhbXBsZSBub25jZQ==" ++ GUID)))).status =
        .switchingProtocols :=
  (switched_iff List.length_replicate (fun key hkey => by
    rw [opening_pushRequest.key, Option.some.injEq] at hkey
    rw [← hkey]
    decide) _).mpr ⟨_, opening_pushRequest, rfl⟩

end Domoticz.Handshake
