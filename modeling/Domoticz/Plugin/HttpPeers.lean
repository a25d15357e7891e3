import Domoticz.Plugin.HttpDelivery
import Domoticz.Plugin.HttpOutbound
import Domoticz.Web.ReplyFraming
import Domoticz.Web.RequestText
import Mathlib.Data.Bool.AllAny

/-!
# A plugin as a client of the web server

What `CPluginProtocolHTTP` makes of a request goes to `request_parser`, and the reply of the `/API`
page back to `CPluginProtocolHTTP`.

The parser wants a blank behind the colon of a header, and the line of the credentials has none: a
plugin with a user name is refused.  Without one its requests are read as they were meant.  The
replies have their length, and headers that a plugin can read.

## Main definitions

* `Polite` — a request of tokens and texts of one line, whose data is counted in bytes.
* `sentText` — what it says.
* `Neat` — the headers of a reply.

## Main results

* `arrives_iff` — **a polite request is accepted exactly if no credentials are added.**
* `reply_delivered_iff` — **a reply is delivered exactly if it is cut at harmless places** and what
  is taken for JSON is translated.
-/

namespace Domoticz.HttpPeers

open CLib Http RequestParser

/-! ### Requests of a plugin -/

/-- A request of tokens and texts of one line, whose data is counted in bytes and comes with a
verb that has content. -/
structure Polite (m : Outgoing) (v u content : Bytes) : Prop where
  start : ∃ verb url, m.start = .request verb url ∧ asUTF8 verb = some v ∧
    asUTF8 (url.getD (pyStr "/")) = some u
  method : IsToken v
  headers : ∀ h ∈ m.headers, ∃ name text, asUTF8 h.1 = some name ∧ asUTF8 h.2 = some text ∧
    IsToken name ∧ IsValue text ∧ name.map toLower ≠ str "content-length"
  content_eq : m.content = some content
  entire : ∀ data ∈ m.data, Entire data
  counted : ∀ data ∈ m.data, dataLength data.object = content.length
  length_lt : content.length < 2 ^ 31
  verb : m.data ≠ none → v = str "POST" ∨ v = str "PUT" ∨ v = str "PATCH"

/-- The headers that are sent. -/
def sentHeaders (m : Outgoing) (info : Tm) : List Header :=
  (m.sent info).map fun e => ⟨e.1, e.2⟩

theorem isCtl_of_gt {c : UInt8} (h : 32 ≤ c ∧ c ≠ 127) : isCtl c = false := by
  have hle : ¬ c ≤ 31 := by
    have h31 : (31 : UInt8) < 32 := by decide
    exact UInt8.not_le.mpr (UInt8.lt_of_lt_of_le h31 h.1)
  simp [isCtl, hle, h.2]

theorem isValue_of_printable {s : Bytes} (h : Printable s) : IsValue s := by
  intro c hc
  exact isCtl_of_gt ⟨(h c hc).1, UInt8.ne_of_lt (h c hc).2⟩

/-- What is no token. -/
theorem notMem_token {s : Bytes} (h : IsToken s) {c : UInt8} (hc : isRejected c = true) :
    c ∉ s := by
  intro hmem
  rw [h.2 c hmem] at hc
  cases hc

theorem notMem_value {s : Bytes} (h : IsValue s) {c : UInt8} (hc : isCtl c = true) : c ∉ s := by
  intro hmem
  rw [h c hmem] at hc
  cases hc

namespace Polite

variable {m : Outgoing} {v u content : Bytes}

theorem clean (h : Polite m v u content) : ∀ e ∈ m.headers, Http.Clean e := by
  intro e he
  obtain ⟨name, text, hname, htext, htoken, hvalue, -⟩ := h.headers e he
  exact ⟨name, text, hname, htext, ⟨notMem_token htoken (by decide),
    notMem_token htoken (by decide), notMem_token htoken (by decide)⟩,
    notMem_value hvalue (by decide), notMem_value hvalue (by decide)⟩

/-- The target has neither blanks nor control characters. -/
theorem target (h : Polite m v u content) : IsTarget u ∧ 0 ∉ u ∧ upper v = v := by
  obtain ⟨verb, url, hstart, hv, hu⟩ := h.start
  have hok := m.start_ok
  rw [hstart] at hok
  obtain ⟨-, -, hupper, hurl⟩ := hok
  have hall : ∀ c ∈ u, 32 < c ∧ c ≠ 127 := by
    cases url with
    | none =>
      have hslash : asUTF8 (pyStr "/") = some (str "/") := by decide
      rw [Option.getD_none, hslash, Option.some.injEq] at hu
      rw [← hu]
      exact List.all_iff_forall_prop.mp (by decide)
    | some url => exact hurl url rfl u hu
  refine ⟨fun c hc => ⟨isCtl_of_gt ⟨UInt8.le_of_lt (hall c hc).1, (hall c hc).2⟩, ?_⟩, fun hzero => ?_,
    hupper v hv⟩
  · rintro rfl
    exact absurd (hall _ hc).1 (by decide)
  · exact absurd (hall 0 hzero).1 (by decide)

/-- The headers that are sent are tokens and values. -/
theorem sent_ok (h : Polite m v u content) (info : Tm) :
    ∀ e ∈ sentHeaders m info, IsToken e.name ∧ IsValue e.value := by
  intro h' hmem
  obtain ⟨e, he, rfl⟩ := List.mem_map.mp hmem
  rcases List.mem_append.mp he with he | he
  · rcases List.mem_append.mp he with he | he
    · obtain ⟨name, hmem, hname, htext, -⟩ := Outgoing.mem_addedFront he
      have hall : ∀ name ∈ ["User-Agent", "Date", "Server"], IsToken (str name) := by
        simp only [List.forall_mem_cons, List.not_mem_nil, false_imp_iff, implies_true, and_true]
        exact ⟨isToken_of_all (by decide) (by decide), isToken_of_all (by decide) (by decide),
          isToken_of_all (by decide) (by decide)⟩
      simp only [hname]
      exact ⟨hall name hmem, isValue_of_printable htext⟩
    · obtain ⟨p, hp, hname, htext⟩ := Outgoing.mem_texts.mp he
      obtain ⟨name, text, hname', htext', htoken, hvalue, -⟩ := h.headers p hp
      obtain rfl := Option.some.inj (hname.symm.trans hname')
      obtain rfl := Option.some.inj (htext.symm.trans htext')
      exact ⟨htoken, hvalue⟩
  · obtain ⟨hname, htext, -⟩ := Outgoing.mem_addedLength he
    simp only [hname]
    exact ⟨isToken_of_all (by decide) (by decide), isValue_of_printable htext⟩

/-- What is sent, as a request. -/
def sentText (h : Polite m v u content) (info : Tm) : RequestText where
  method := v
  uri := u
  headers := sentHeaders m info
  content := content
  method_ok := h.method
  uri_ok := h.target.1
  headers_ok := h.sent_ok info

/-- The length is that of the data, and there is none without data. -/
theorem declaredLength_sent (h : Polite m v u content) (info : Tm) :
    RequestParser.declaredLength (sentHeaders m info) = content.length := by
  have hothers : ∀ e ∈ m.addedFront info ++ m.texts,
      (e.1.map toLower == str "content-length") = false := by
    intro e he
    rcases List.mem_append.mp he with he | he
    · obtain ⟨name, hmem, hname, -, -⟩ := Outgoing.mem_addedFront he
      have hall : ∀ name ∈ (["User-Agent", "Date", "Server"] : List String),
          ((str name).map toLower == str "content-length") = false := by decide
      rw [hname]
      exact hall name hmem
    · obtain ⟨p, hp, hname, -⟩ := Outgoing.mem_texts.mp he
      obtain ⟨name, text, hname', -, -, -, hne⟩ := h.headers p hp
      obtain rfl := Option.some.inj (hname.symm.trans hname')
      exact beq_false_of_ne hne
  have hfind : (sentHeaders m info).find? (fun g => g.name.map toLower == str "content-length") =
      (m.addedLength.map fun e => (⟨e.1, e.2⟩ : Header)).find?
        fun g => g.name.map toLower == str "content-length" := by
    rw [sentHeaders, Outgoing.sent, List.map_append, List.find?_append, List.find?_eq_none.mpr,
      Option.none_or]
    intro g hg
    obtain ⟨e, he, rfl⟩ := List.mem_map.mp hg
    simp only
    rw [hothers e he]
    decide
  rw [RequestParser.declaredLength, hfind]
  cases hdata : m.data with
  | none =>
    have hcontent := h.content_eq
    rw [Outgoing.content, hdata] at hcontent
    obtain rfl := Option.some.inj hcontent
    have hadded : m.addedLength = [] := by rw [Outgoing.addedLength, hdata]
    rw [hadded]
    rfl
  | some data =>
    have hsupplies : m.supplies "Content-Length" = false := by
      by_contra hsupplied
      rw [Bool.not_eq_false, Outgoing.supplies] at hsupplied
      obtain ⟨value, hvalue⟩ := Option.isSome_iff_exists.mp hsupplied
      have hmem : (pyStr "Content-Length", value) ∈ m.headers := mem_of_lookup hvalue
      obtain ⟨name, text, hname, -, -, -, hne⟩ := h.headers _ hmem
      have hlength : asUTF8 (pyStr "Content-Length") = some (str "Content-Length") := by decide
      obtain rfl := Option.some.inj (hname.symm.trans hlength)
      exact hne (by decide)
    have hcount := h.counted data hdata
    have hlt := h.length_lt
    have hadded : m.addedLength = [(str "Content-Length", decimal content.length)] := by
      rw [Outgoing.addedLength, hdata]
      simp only [Outgoing.default, hsupplies, hcount, Bool.false_eq_true, if_false]
    have hname : ((str "Content-Length").map toLower == str "content-length") = true := by decide
    have hvalue : atoi (cstr (decimal content.length)) = content.length :=
      atoi_decimal ⟨by omega, by omega⟩
    rw [hadded, List.map_singleton, List.find?_singleton, if_pos hname]
    simp only
    exact hvalue

theorem framed (h : Polite m v u content) (info : Tm) : (h.sentText info).Framed where
  declared _ := h.declaredLength_sent info
  without hnone := by
    by_cases hdata : m.data = none
    · have hcontent := h.content_eq
      rw [Outgoing.content, hdata] at hcontent
      exact (Option.some.inj hcontent).symm
    · exfalso
      have hmethod : (h.sentText info).fields.method = v := rfl
      rw [hasContent, hmethod] at hnone
      rcases h.verb hdata with rfl | rfl | rfl
      · exact absurd hnone (by decide)
      · exact absurd hnone (by decide)
      · exact absurd hnone (by decide)

/-- The bytes of the headers. -/
theorem block_eq (es : List (Bytes × Bytes)) :
    block es = (es.map fun e => (⟨e.1, e.2⟩ : Header)).flatMap fieldLine := by
  rw [block, List.flatMap_map]
  apply List.flatMap_congr
  intro e _
  rw [endLine, Http.headerLine, fieldLine]
  rfl

/-- The bytes that are sent, with those of the credentials behind the first line. -/
theorem processOutbound_eq (h : Polite m v u content) {parameters : Parameters} (info : Tm)
    (hutf8 : (stdString parameters.Username).isSome ∧ (stdString parameters.Password).isSome) :
    processOutbound parameters info (some (.dict m.entries)) =
      some (v ++ str " " ++ u ++ str " HTTP/1.1" ++ [13, 10] ++
        m.writtenAuthorization parameters ++ ((sentHeaders m info).flatMap fieldLine ++ [13, 10] ++
          content)) := by
  obtain ⟨verb, url, hstart, hv, hu⟩ := h.start
  obtain ⟨-, hzero, hupper⟩ := h.target
  have hverb : stdString verb = some v :=
    stdString_of_notMem hv (notMem_token h.method (by decide))
  have hurl := stdString_of_notMem hu hzero
  obtain ⟨content', hcontent, hbody⟩ := Outgoing.exists_body h.entire
  obtain rfl := Option.some.inj (hcontent.symm.trans h.content_eq)
  have hsome : ∃ auth, authorization parameters (getItemString m.entries "Headers") = some auth := by
    obtain ⟨User, hUser⟩ := Option.isSome_iff_exists.mp hutf8.1
    obtain ⟨Pass, hPass⟩ := Option.isSome_iff_exists.mp hutf8.2
    rw [authorization, hUser, hPass]
    split
    · exact ⟨_, rfl⟩
    · exact ⟨_, rfl⟩
  obtain ⟨auth, hauth⟩ := hsome
  rw [Outgoing.processOutbound_request info hstart hverb hurl h.clean, hauth, hbody, hupper,
    ← Outgoing.authorization_eq hauth, block_eq, Option.bind_some, Option.map_some, endLine]
  simp only [List.append_assoc]
  rfl

/-- Without credentials the request is read as it was meant. -/
theorem arrives (h : Polite m v u content) {parameters : Parameters} (info : Tm)
    (hutf8 : (stdString parameters.Username).isSome ∧ (stdString parameters.Password).isSome)
    (hnone : m.addedAuthorization parameters = none) :
    processOutbound parameters info (some (.dict m.entries)) = some (h.sentText info).bytes ∧
      (parse (h.sentText info).bytes).result = .yes ∧
        (parse (h.sentText info).bytes).request = (h.sentText info).request := by
  have hwhole := parse_whole (h.framed info) []
  rw [List.append_nil] at hwhole
  refine ⟨?_, hwhole⟩
  rw [h.processOutbound_eq info hutf8, Outgoing.writtenAuthorization, hnone]
  simp only [RequestText.bytes, RequestText.head, sentText, Option.map_none, Option.getD_none,
    List.append_assoc, List.nil_append]

/-- With credentials it is refused at the byte behind the colon. -/
theorem refused (h : Polite m v u content) (auth rest : Bytes) :
    (parse (v ++ str " " ++ u ++ str " HTTP/1.1" ++ [13, 10] ++
      endLine (authorizationLine auth) ++ rest)).result ≠ .yes := by
  intro hyes
  have hsome := isSome_head_of_yes (by decide) hyes
  have hbytes : v ++ str " " ++ u ++ str " HTTP/1.1" ++ [13, 10] ++
      endLine (authorizationLine auth) ++ rest = v ++ chr ' ' :: (u ++ chr ' ' ::
        (str "HTTP/1.1" ++ [13, 10] ++ (str "Authorization:Basic " ++
          (base64Encode auth ++ [CR, LF] ++ rest)))) := by
    simp only [endLine, authorizationLine, List.append_assoc]
    rfl
  rw [hbytes, headFrom_method h.method, headFrom_uri h.target.1, headFrom_version] at hsome
  cases hsome

end Polite

/-- A plugin asks for the interfaces. -/
def askInterfaces : Outgoing where
  entries := [(pyStr "Verb", .str (pyStr "GET")), (pyStr "URL", .str (pyStr "/API/Interfaces"))]
  start := .request (pyStr "GET") (some (pyStr "/API/Interfaces"))
  headers := []
  data := none
  start_ok := by
    refine ⟨rfl, rfl, ?_, ?_⟩
    · intro b hb
      rw [show asUTF8 (pyStr "GET") = some (str "GET") from by decide, Option.some.injEq] at hb
      rw [← hb]
      decide
    · intro w hw b hb
      rw [Option.mem_some_iff] at hw
      rw [← hw, show asUTF8 (pyStr "/API/Interfaces") = some (str "/API/Interfaces") from
        by decide, Option.some.injEq] at hb
      rw [← hb]
      exact List.all_iff_forall_prop.mp (by decide)
  headers_ok := .inr ⟨rfl, rfl⟩
  keys_nodup := List.nodup_nil
  data_ok := rfl
  chunk_ok := rfl

theorem polite_askInterfaces : Polite askInterfaces (str "GET") (str "/API/Interfaces") [] where
  start := ⟨_, _, rfl, by decide, by decide⟩
  method := isToken_of_all (by decide) (by decide)
  headers := fun h hh => absurd hh List.not_mem_nil
  content_eq := rfl
  entire := fun data hdata => absurd hdata (by simp [askInterfaces])
  counted := fun data hdata => absurd hdata (by simp [askInterfaces])
  length_lt := by decide
  verb := fun h => absurd rfl h

section Replies

open ReplyFraming

/-- The name of a header that a plugin reads as it is, and that is not about the length. -/
def NeatName (name : Bytes) : Prop :=
  name ≠ [] ∧ Printable name ∧ chr ':' ∉ name ∧ upper name ≠ str "TRANSFER-ENCODING"

instance (name : Bytes) : Decidable (NeatName name) := inferInstanceAs (Decidable (_ ∧ _))

/-- A header that a plugin reads as it is. -/
structure Neat (h : Header) : Prop where
  name_ok : NeatName h.name
  value_ok : Printable h.value

/-- All headers of a reply are neat. -/
def AllNeat (rep : Reply) : Prop := ∀ h ∈ rep.headers, Neat h

theorem AllNeat.addHeader {rep : Reply} (h : AllNeat rep) {name value : Bytes} (replace : Bool)
    (hname : NeatName name) (hvalue : Printable value) :
    AllNeat (rep.addHeader name value replace) := by
  intro g hg
  rcases addHeader_cases rep name value replace with ⟨front, f, back, hheaders, -, heq⟩ | ⟨-, heq⟩
  · rw [heq] at hg
    rw [AllNeat, hheaders] at h
    rcases List.mem_append.mp hg with hg | hg
    · exact h g (List.mem_append_left _ hg)
    · rcases List.mem_cons.mp hg with rfl | hg
      · have hf := h f (List.mem_append_right _ List.mem_cons_self)
        exact ⟨hf.name_ok, hvalue⟩
      · exact h g (List.mem_append_right _ (List.mem_cons_of_mem _ hg))
  · rw [heq] at hg
    rcases List.mem_append.mp hg with hg | hg
    · exact h g hg
    · obtain rfl := List.mem_singleton.mp hg
      exact ⟨hname, hvalue⟩

theorem allNeat_stockReply (status : Status) : AllNeat (stockReply status) := by
  intro h hh
  rw [stockReply] at hh
  by_cases hcontent : stockContent status = []
  · simp only [hcontent, if_true] at hh
    cases hh
  · simp only [hcontent, if_false, List.mem_cons, List.not_mem_nil, or_false] at hh
    have hlength : NeatName (str "Content-Length") := by decide
    have hvalue : Printable (decimal (stockContent status).length) := printable_decimal _
    rcases hh with rfl | rfl
    · exact ⟨hlength, hvalue⟩
    · exact ⟨by decide, by decide⟩

variable {D : Type} (e : Environment D)

theorem allNeat_actionReply {rep : Reply} (h : AllNeat rep) (a : RestAction) :
    AllNeat (actionReply e rep a) := by
  cases a with
  | nothing => exact h
  | reply status => exact allNeat_stockReply status
  | insert fields values => exact allNeat_stockReply _
  | update fields values where_ => exact allNeat_stockReply _
  | remove => exact allNeat_stockReply _

theorem allNeat_handleREST {rep : Reply} (h : AllNeat rep) (req : Request) :
    AllNeat (handleREST e rep req) := by
  have hget (o : RestObject) : AllNeat (getReply e req o) := by
    rw [getReply]
    split
    · exact allNeat_stockReply _
    · exact allNeat_stockReply _
  rw [handleREST]
  split
  · exact h
  · exact allNeat_stockReply _
  · simp only
    split
    · rw [processRequest]
      split_ifs
      · exact allNeat_actionReply e h _
      · exact hget _
      · exact allNeat_actionReply e h _
      · exact allNeat_actionReply e h _
      · exact allNeat_actionReply e h _
      · exact allNeat_stockReply _
    · exact allNeat_stockReply _

theorem printable_extensionToType (extension : Bytes) : Printable (extensionToType extension) := by
  have hall : ∀ m ∈ mappings, Printable (str m.2) := by decide
  rw [extensionToType]
  split
  · next m hm => exact hall m (List.mem_of_find?_eq_some hm)
  · exact fun b hb => absurd hb List.not_mem_nil

theorem printable_contentType (uri request_path : Bytes) (rep : Reply) :
    Printable (contentType uri request_path rep) := by
  rw [contentType]
  split
  · simp only
    split
    · exact printable_extensionToType _
    · exact printable_extensionToType _
  · exact printable_extensionToType _

theorem AllNeat.pageHeaders {rep : Reply} (h : AllNeat rep) {strMimeType : Bytes}
    (hmime : Printable strMimeType) : AllNeat (pageHeaders strMimeType rep) := by
  have hlength : AllNeat (rep.addHeader (str "Content-Length") (decimal rep.content.length)) :=
    h.addHeader true (by decide) (printable_decimal _)
  have hcharset : Printable (str ";charset=UTF-8") := by decide
  have htype : Printable (if (str "image").isPrefixOf strMimeType then strMimeType
      else strMimeType ++ str ";charset=UTF-8") := by
    split
    · exact hmime
    · exact printable_append.mpr ⟨hmime, hcharset⟩
  have hcache : AllNeat (if (str "image").isPrefixOf strMimeType then
      (rep.addHeader (str "Content-Length") (decimal rep.content.length)).addHeader
        (str "Cache-Control") (str "max-age=3600, public")
      else (((rep.addHeader (str "Content-Length") (decimal rep.content.length)).addHeader
        (str "Cache-Control") (str "no-cache")).addHeader (str "Pragma")
          (str "no-cache")).addHeader (str "Access-Control-Allow-Origin") (str "*")) := by
    split
    · exact hlength.addHeader true (by decide) (by decide)
    · exact ((hlength.addHeader true (by decide) (by decide)).addHeader true (by decide)
        (by decide)).addHeader true (by decide) (by decide)
  rw [ReplyFraming.pageHeaders]
  split
  · exact hcache
  · exact hcache.addHeader true (by decide) htype

theorem AllNeat.compressWebOutput {rep : Reply} (h : AllNeat rep) (req : Request) :
    AllNeat (compressWebOutput e rep req) := by
  rw [ReplyFraming.compressWebOutput]
  simp only
  split
  · exact h
  · split
    · have hzipped : AllNeat { rep with isGZIP := true, content := e.gzip rep.content } := h
      exact (hzipped.addHeader true (by decide) (printable_decimal _)).addHeader true (by decide)
        (by decide)
    · exact h

theorem AllNeat.keepAliveReply {rep : Reply} (h : AllNeat rep) (req : Request) :
    AllNeat (keepAliveReply e rep req) := by
  have habsent {rep : Reply} (h : AllNeat rep) {name value : Bytes}
      (hname : NeatName name) (hvalue : Printable value) :
      AllNeat (addHeaderIfAbsent rep name value) := by
    rw [addHeaderIfAbsent]
    split
    · exact h
    · exact h.addHeader false hname hvalue
  have hmax : Printable (str "max=") := by decide
  have htimeout : Printable (str ", timeout=") := by decide
  rw [ReplyFraming.keepAliveReply]
  split
  · refine habsent (habsent h (by decide) (by decide)) (by decide) ?_
    exact printable_append.mpr ⟨printable_append.mpr ⟨printable_append.mpr
      ⟨hmax, printable_decimal _⟩, htimeout⟩, printable_decimal _⟩
  · exact h

/-- The headers of the reply that is sent are neat. -/
theorem allNeat_final (before : UInt8) {cookie : Option ReplyFraming.Cookie}
    (hcookie : ∀ c ∈ cookie, Printable c.text) (req : Request) :
    AllNeat (finalReply e before cookie req) := by
  have hempty : AllNeat {} := fun h hh => absurd hh List.not_mem_nil
  have hpage : AllNeat (pageReply e before {} req) :=
    (allNeat_handleREST e hempty req).pageHeaders (printable_contentType _ _ _)
  have hcompressed := hpage.compressWebOutput e req
  unfold finalReply
  apply AllNeat.keepAliveReply
  cases cookie with
  | none => exact hcompressed
  | some c => exact hcompressed.addHeader false (by decide) (hcookie c rfl)

/-! ### A reply as a response -/

theorem exists_fields {headers : List Header} (h : ∀ g ∈ headers, Neat g) :
    ∃ fields : List Field,
      fields.map (fun f => (f.name, f.value)) =
        headers.map (fun g => (g.name, chr ' ' :: g.value)) ∧
      Http.lines fields = headers.flatMap fun g => ReplyFraming.headerLine g ++ crlf := by
  induction headers with
  | nil => exact ⟨[], rfl, rfl⟩
  | cons g headers ih =>
    obtain ⟨hg, hrest⟩ := List.forall_mem_cons.mp h
    obtain ⟨fields, hmap, hlines⟩ := ih hrest
    obtain ⟨hne, hprintable, hcolon, -⟩ := hg.name_ok
    have hvalue : CR ∉ chr ' ' :: g.value ∧ LF ∉ chr ' ' :: g.value := by
      rw [List.mem_cons, List.mem_cons, not_or, not_or]
      exact ⟨⟨by decide, hg.value_ok.notMem (by decide)⟩,
        ⟨by decide, hg.value_ok.notMem (by decide)⟩⟩
    refine ⟨⟨g.name, chr ' ' :: g.value, hne, ⟨hprintable.notMem (by decide),
      hprintable.notMem (by decide), hcolon⟩, hvalue⟩ :: fields, ?_, ?_⟩
    · rw [List.map_cons, List.map_cons, hmap]
    · rw [Http.lines, hlines, List.flatMap_cons]
      simp only [Field.line, ReplyFraming.headerLine, crlf, List.append_assoc, List.cons_append]
      rfl

/-- The digits of a status. -/
def code (status : Status) : Bytes := ((statusString status).drop 9).take 3

theorem statusString_eq (status : Status) : ∃ reason, CR ∉ reason ∧ LF ∉ reason ∧
    ((code status).length = 3 ∧ ∀ b ∈ code status, CLib.isDigit 10 b = true) ∧
      statusString status =
        str "HTTP/1." ++ chr '1' :: chr ' ' :: (code status ++ chr ' ' :: reason) := by
  refine ⟨(statusString status).drop 13, ?_⟩
  cases status <;> exact ⟨by decide, by decide,
    ⟨by decide, List.all_iff_forall_prop.mp (by decide)⟩, by decide⟩

/-- The blank in front of a number is taken away, and no more. -/
theorem trim_numeral {s : Bytes} (h : Numeral s) : trim (chr ' ' :: s) = s := by
  have hkept {l : Bytes} (hl : ∀ b ∈ l, CLib.isDigit 10 b = true) :
      l.dropWhile (fun b => b == chr ' ' || b == 9) = l := by
    cases l with
    | nil => rfl
    | cons b l =>
      have hdigit := hl b List.mem_cons_self
      have hne (c : UInt8) (hc : CLib.isDigit 10 c = false) : (b == c) = false := by
        refine beq_false_of_ne ?_
        rintro rfl
        rw [hc] at hdigit
        cases hdigit
      rw [List.dropWhile_cons_of_neg]
      rw [hne _ (by decide), hne _ (by decide)]
      decide
  have hdigits := List.all_eq_true.mp h.2
  have hblank : (chr ' ' :: s).dropWhile (fun b => b == chr ' ' || b == 9) = s :=
    (List.dropWhile_cons_of_pos (by decide)).trans (hkept hdigits)
  have hreverse := hkept fun b hb => hdigits b (List.mem_reverse.mp hb)
  rw [trim, hblank, hreverse, List.reverse_reverse]

/-- The headers of a reply say how long it is. -/
theorem value_of_length {rep : Reply} (hsized : Sized rep) {fields : List Field}
    (hmap : fields.map (fun f => (f.name, f.value)) =
      rep.headers.map (fun g => (g.name, chr ' ' :: g.value))) :
    (∃ f ∈ fields, upper f.name = str "CONTENT-LENGTH") ∧
      ∀ f ∈ fields, upper f.name = str "CONTENT-LENGTH" →
        f.value = chr ' ' :: decimal rep.content.length := by
  have hupper : upper (str "Content-Length") = str "CONTENT-LENGTH" := by decide
  have hlengths := hsized.lengths_eq
  have hvalue {g : Header} (hg : g ∈ rep.headers) (hname : upper g.name = str "CONTENT-LENGTH") :
      g.value = decimal rep.content.length := by
    have hmem : g.value ∈ lengths rep.headers := by
      refine List.mem_map.mpr ⟨g, List.mem_filter.mpr ⟨hg, ?_⟩, rfl⟩
      rw [iequals, hupper, hname, beq_self_eq_true]
    rw [hlengths] at hmem
    exact List.mem_singleton.mp hmem
  constructor
  · have hmem : decimal rep.content.length ∈ lengths rep.headers := by
      rw [hlengths]
      exact List.mem_singleton_self _
    obtain ⟨g, hg, -⟩ := List.mem_map.mp hmem
    obtain ⟨hg, hname⟩ := List.mem_filter.mp hg
    have hpair : (g.name, chr ' ' :: g.value) ∈ fields.map fun f => (f.name, f.value) := by
      rw [hmap]
      exact List.mem_map.mpr ⟨g, hg, rfl⟩
    obtain ⟨f, hf, heq⟩ := List.mem_map.mp hpair
    refine ⟨f, hf, ?_⟩
    rw [(Prod.mk.inj heq).1, ← hupper]
    exact beq_iff_eq.mp hname
  · intro f hf hname
    have hpair : (f.name, f.value) ∈ rep.headers.map fun g => (g.name, chr ' ' :: g.value) := by
      rw [← hmap]
      exact List.mem_map.mpr ⟨f, hf, rfl⟩
    obtain ⟨g, hg, heq⟩ := List.mem_map.mp hpair
    obtain ⟨hgname, hgvalue⟩ := Prod.mk.inj heq
    rw [← hgvalue, hvalue hg (by rw [hgname, hname])]

/-- A reply of the page is a response that a plugin can read. -/
theorem exists_response {rep : Reply} (hsized : Sized rep) (hneat : AllNeat rep) {method : Bytes}
    (hmethod : method ≠ str "HEAD") (hlt : rep.content.length < 2 ^ 31) :
    ∃ r : Response, r.bytes = ReplyFraming.toString rep method ∧ r.status = code rep.status ∧
      r.body = .length rep.content ∧ r.Legible := by
  obtain ⟨fields, hmap, hlines⟩ := exists_fields hneat
  obtain ⟨reason, hcr, hlf, hcode, hstatus⟩ := statusString_eq rep.status
  obtain ⟨hexists, hvalue⟩ := value_of_length hsized hmap
  have hnumeral : Numeral (decimal rep.content.length) := numeral_toDigits rep.content.length
  -- every field is a header of the reply, with a blank in front of its value
  have hneatField : ∀ f ∈ fields, ∃ g ∈ rep.headers, f.name = g.name ∧
      f.value = chr ' ' :: g.value := by
    intro f hf
    have hpair : (f.name, f.value) ∈ rep.headers.map fun g => (g.name, chr ' ' :: g.value) := by
      rw [← hmap]
      exact List.mem_map.mpr ⟨f, hf, rfl⟩
    obtain ⟨g, hg, heq⟩ := List.mem_map.mp hpair
    exact ⟨g, hg, (Prod.mk.inj heq).1.symm, (Prod.mk.inj heq).2.symm⟩
  have hdeclared : Declares fields (.length rep.content) := by
    refine ⟨hexists, fun f hf hname => ?_, fun f hf => ?_⟩
    · rw [hvalue f hf hname, trim_numeral hnumeral]
      exact ⟨hnumeral, digitsValue_toDigits rep.content.length⟩
    · obtain ⟨g, hg, hname, -⟩ := hneatField f hf
      rw [hname]
      exact (hneat g hg).name_ok.2.2.2
  have hminor : CLib.isDigit 10 (chr '1') = true := by decide
  refine ⟨⟨chr '1', code rep.status, reason, fields, .length rep.content, hminor, hcode,
    ⟨hcr, hlf⟩, hdeclared⟩, ?_, rfl, rfl, ?_⟩
  · rw [ReplyFraming.toString, if_pos hmethod, headerToString, hstatus]
    simp only [Response.bytes, Response.head, Response.front, Response.statusLine, Body.bytes,
      hlines, crlf, List.append_assoc, List.cons_append]
    rfl
  · refine ⟨fun f hf => ?_, fun done f more hf _ _ => ?_, ?_⟩
    · obtain ⟨g, -, -, hfvalue⟩ := hneatField f hf
      rw [hfvalue]
      exact List.cons_ne_nil _ _
    · obtain ⟨g, hg, -, hfvalue⟩ := hneatField f (by
        simp only at hf
        rw [hf]
        simp)
      have htext : f.text = g.value := by rw [Field.text, hfvalue, List.drop_one, List.tail_cons]
      have hprintable := (hneat g hg).value_ok
      rw [htext, buildString, cstr_of_notMem (hprintable.notMem (by decide)),
        if_pos hprintable.validateUTF8]
      exact Option.some_ne_none _
    · -- the last length that is declared is that of the content
      obtain ⟨done, f, more, hf, hname, hmore⟩ := exists_last_field hexists
      refine ⟨done, f, more, hf, hname, hmore, ?_⟩
      have hmem : f ∈ fields := by
        rw [hf]
        simp
      have htext : f.text = decimal rep.content.length := by
        rw [Field.text, hvalue f hmem hname, List.drop_one, List.tail_cons]
      have hdigits : digitsValue 10 (decimal rep.content.length) = rep.content.length :=
        digitsValue_toDigits rep.content.length
      have hatoi := (atoi_numeral hnumeral).mpr (hdigits.trans_lt hlt)
      rw [htext, hatoi, hdigits]

/-- The reply to a request, as a response. -/
theorem exists_sent (before : UInt8) {cookie : Option ReplyFraming.Cookie}
    (hcookie : ∀ c ∈ cookie, Printable c.text) {req : Request} (hmethod : req.method ≠ str "HEAD")
    (hlt : (finalReply e before cookie req).content.length < 2 ^ 31) :
    ∃ r : Response, r.bytes = sent e before cookie req ∧
      r.status = code (finalReply e before cookie req).status ∧
      r.body = .length (finalReply e before cookie req).content ∧ r.Legible :=
  exists_response (sized_final e before cookie req).sized (allNeat_final e before hcookie req)
    hmethod hlt

/-- **A reply of the page is delivered exactly if it is cut at harmless places** and its content, if
it is taken for JSON, is translated; then with its status and its content. -/
theorem reply_delivered_iff (before : UInt8) {cookie : Option ReplyFraming.Cookie}
    (hcookie : ∀ c ∈ cookie, Printable c.text) {req : Request} (hmethod : req.method ≠ str "HEAD")
    (hlt : (finalReply e before cookie req).content.length < 2 ^ 31) :
    ∃ r : Response, r.bytes = sent e before cookie req ∧
      r.status = code (finalReply e before cookie req).status ∧
      r.body = .length (finalReply e before cookie req).content ∧
      ∀ (m_JSON : Bool) (d : Reads r.bytes) (data : Dict) (m_JSON' : Bool),
        DeliveredAs m_JSON d data m_JSON' ↔ d.Harmless ∧
          m_JSON' = (m_JSON || r.declaresJson) ∧ r.delivered m_JSON = .ok data := by
  obtain ⟨r, hbytes, hstatus, hbody, hlegible⟩ := exists_sent e before hcookie hmethod hlt
  refine ⟨r, hbytes, hstatus, hbody, fun m_JSON d data m_JSON' => ?_⟩
  rw [deliveredAs_iff]
  exact and_congr_left fun _ => and_iff_right hlegible

theorem reply_delivered_interfaces : ∃ r : Response,
    r.bytes = sent emptyEnvironment 0 none interfacesRequest ∧
      r.status = code (finalReply emptyEnvironment 0 none interfacesRequest).status ∧
      r.body = .length (finalReply emptyEnvironment 0 none interfacesRequest).content ∧
      ∀ (m_JSON : Bool) (d : Reads r.bytes) (data : Dict) (m_JSON' : Bool),
        DeliveredAs m_JSON d data m_JSON' ↔ d.Harmless ∧
          m_JSON' = (m_JSON || r.declaresJson) ∧ r.delivered m_JSON = .ok data :=
  reply_delivered_iff emptyEnvironment 0 (fun c hc => absurd hc (by simp)) (by decide) (by decide)

end Replies

end Domoticz.HttpPeers
