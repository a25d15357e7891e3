import Domoticz.Web.Path
import Domoticz.Web.RestRoute
import Domoticz.Web.RowCounts

/-!
# Where a reply ends

A reply of the `/API` page goes through several hands: the handler of the verb makes a stock reply
and then sets its content, the page dispatcher adds the length of the content, compression replaces
both, and the connection writes header and content, or for `HEAD` the header alone.

The stock reply to an empty result, and to a deletion, is 204.  Its content is set like that of
the others, and a client that knows that there is none takes it for the next reply.

## Main definitions

* `handleREST` — the reply of the `/API` page.
* `pageReply`, `compressWebOutput`, `keepAliveReply` — what is done to it.
* `sent` — the bytes of the reply to a request.
* `readHead` — a client that reads the header of a reply.
* `Framed` — a reply ends where it is declared to end.

## Main results

* `handleREST_noContent_iff` — the requests that are answered by 204.
* `sized_final` — the length of the content is in the header, once.
* `reply_framed_iff` — **a reply is framed exactly if it is not 204.**
* `body_of_nothing` — a query without rows.
-/

namespace Domoticz.ReplyFraming

open CLib

variable {D : Type}

/-! ### The handlers of the verbs -/

/-- `root[name] = v`. -/
def setMember (name : Bytes) (v : Json D) : List (Bytes × Json D) → List (Bytes × Json D)
  | [] => [(name, v)]
  | p :: ps =>
      if name = p.1 then (name, v) :: ps
      else if name < p.1 then (name, v) :: p :: ps
      else p :: setMember name v ps

/-- A row of a result. -/
def rowObject (validFields : List ColumnInfo) (row : List Bytes) : Json D :=
  .object <| (row.zip validFields).foldl (fun members p => setMember p.2.name
    (if p.2.type = str "INTEGER" then .int (atoi (cstr p.1)) else .string p.1) members) []

/-- The answer to a `GET`. -/
def resultRoot (da : DataAccess) (result : List (List Bytes)) : Json D :=
  let sOutputName := if da.tableKey = 0 then da.table ++ str "s" else da.table
  let count := [(str "Count", .string (decimal result.length))]
  .object (if result = [] then count
    else setMember sOutputName (.array (result.map (rowObject da.validFields))) count)

/-- The answer to the other verbs. -/
def countRoot (iRowCount : ℤ) : Json D := .object [(str "Count", .int iRowCount)]

/-- What a request finds outside of the handlers. -/
structure Environment (D : Type) where
  webem : Webem
  cfg : AccessConfig
  doubles : Doubles D
  /-- `Json::Reader::parse`. -/
  parse : Bytes → Option (Json D)
  /-- `Json::FastWriter::writeValue`. -/
  writeValue : Json D → Bytes
  /-- The rows of the query of a `GET`. -/
  result : List (List Bytes)
  /-- What `execute_sql` returns. -/
  iRowCount : ℤ
  /-- The rows of the `SELECT changes();` of a `DELETE`. -/
  changes : List (List Bytes)
  /-- Whether `m_gzipmode` is `WWW_USE_GZIP`. -/
  useGzip : Bool
  gzip : Bytes → Bytes
  max_requests : ℤ
  read_timeout : ℤ

variable (e : Environment D)

/-- `Json::FastWriter::write`. -/
def write (root : Json D) : Bytes := e.writeValue root ++ [10]

/-- `m_Reply = stock_reply(status)`, and then its content. -/
def contentReply (status : Status) (root : Json D) : Reply :=
  { stockReply status with content := write e root }

/-- The reply of `POST`, `PUT`, `PATCH` and `DELETE`. -/
def actionReply (rep : Reply) : RestAction → Reply
  | .nothing => rep
  | .reply status => stockReply status
  | .insert _ _ => contentReply e (modificationReply e.iRowCount) (countRoot e.iRowCount)
  | .update _ _ _ => contentReply e (modificationReply e.iRowCount) (countRoot e.iRowCount)
  | .remove =>
      contentReply e (RowCounts.deleteReply e.changes).1
        (countRoot (RowCounts.deleteReply e.changes).2)

/-- The reply of `GET`. -/
def getReply (req : Request) (o : RestObject) : Reply :=
  if req.contentLength ≠ 0 then stockReply .badRequest
  else contentReply e (if e.result = [] then .noContent else .ok)
    (resultRoot (getFields o.isSession o.access) e.result)

/-- `CRESTRequest::ProcessRequest`. -/
def processRequest (rep : Reply) (req : Request) (o : RestObject) : Reply :=
  if req.method = str "POST" then actionReply e rep (post e.doubles e.parse req o.access)
  else if req.method = str "GET" then getReply e req o
  else if req.method = str "PUT" then actionReply e rep (put e.doubles e.parse req o.access)
  else if req.method = str "PATCH" then actionReply e rep (patch e.doubles e.parse req o.access)
  else if req.method = str "DELETE" then actionReply e rep (delete req o.access)
  else stockReply .notAllowed

/-- `CWebServer::HandleREST`.  An exception leaves the reply as it is. -/
def handleREST (rep : Reply) (req : Request) : Reply :=
  match create req.method req.uri with
  | none => rep
  | some none => stockReply .badRequest
  | some (some o) =>
    let access := o.access.userHasAccess e.cfg
    if access.1 then processRequest e rep req { o with access := access.2 }
    else stockReply .forbidden

/-! ### The dispatcher of the pages -/

/-- `mime_types::mappings`. -/
def mappings : List (String × String) :=
  [("gif", "image/gif"), ("htm", "text/html"), ("html", "text/html"), ("jpg", "image/jpeg"),
    ("png", "image/png"), ("css", "text/css"), ("xml", "application/xml"),
    ("js", "application/javascript"), ("json", "application/json"),
    ("swf", "application/x-shockwave-flash"), ("manifest", "text/cache-manifest"),
    ("appcache", "text/cache-manifest"),
    ("xls", "application/vnd.openxmlformats-officedocument.spreadsheetml.sheet"),
    ("m3u", "audio/mpegurl"), ("mp3", "audio/mpeg"), ("ogg", "audio/ogg"), ("php", "text/html"),
    ("wav", "audio/x-wav"), ("svg", "image/svg+xml"), ("ico", "image/x-icon"),
    ("db", "application/octet-stream"), ("otf", "application/x-font-otf"),
    ("ttf", "application/x-font-ttf"), ("woff", "application/x-font-woff"),
    ("flv", "video/x-flv"), ("mp4", "video/mp4"), ("m3u8", "application/x-mpegURL"),
    ("ts", "video/MP2T"), ("3gp", "video/3gpp"), ("mov", "video/quicktime"),
    ("avi", "video/x-msvideo"), ("wmv", "video/x-ms-wmv"), ("h264", "video/h264"),
    ("mp4", "video/mp4"), ("wmv", "video/x-ms-wmv"), ("txt", "text/plain"),
    ("pdf", "application/pdf")]

/-- `mime_types::extension_to_type`. -/
def extensionToType (extension : Bytes) : Bytes :=
  match mappings.find? fun m => str m.1 == extension with
  | some m => str m.2
  | none => []

/-- `s.find_last_of(c)`. -/
def findLast (c : UInt8) (s : Bytes) : Option ℕ :=
  (s.reverse.findIdx? (· == c)).map fun i => s.length - 1 - i

/-- The extension of the path of a request. -/
def pathExtension (uri request_path : Bytes) : Bytes :=
  if contains uri (str "json.htm") then str "json"
  else
    match findLast (chr '.') request_path, findLast (chr '/') request_path with
    | some last_dot_pos, some last_slash_pos =>
        if last_slash_pos < last_dot_pos then request_path.drop (last_dot_pos + 1) else []
    | _, _ => []

/-- The type of the content: that of the attachment, if there is one with an extension. -/
def contentType (uri request_path : Bytes) (rep : Reply) : Bytes :=
  match rep.headers.find? fun h => iequals h.name (str "Content-Disposition") with
  | some h =>
    let attachment := past (chr '=') h.value
    match findLast (chr '.') attachment with
    | some last_dot_pos => extensionToType (attachment.drop (last_dot_pos + 1))
    | none => extensionToType (pathExtension uri request_path)
  | none => extensionToType (pathExtension uri request_path)

/-- The headers `CheckForPageOverride` adds to the reply of a page. -/
def pageHeaders (strMimeType : Bytes) (rep : Reply) : Reply :=
  let rep := rep.addHeader (str "Content-Length") (decimal rep.content.length)
  let isImage := (str "image").isPrefixOf strMimeType
  let rep :=
    if isImage then rep.addHeader (str "Cache-Control") (str "max-age=3600, public")
    else ((rep.addHeader (str "Cache-Control") (str "no-cache")).addHeader (str "Pragma")
      (str "no-cache")).addHeader (str "Access-Control-Allow-Origin") (str "*")
  if strMimeType = [] then rep
  else rep.addHeader (str "Content-Type")
    (if isImage then strMimeType else strMimeType ++ str ";charset=UTF-8")

/-- The part of `CheckForPageOverride` behind the search, for the page `/API`. -/
def pageReply (before : UInt8) (rep : Reply) (req : Request) : Reply :=
  let rep := handleREST e { rep with status := .ok } req
  let request_path := extractRequestPath e.webem before (urlDecode req.uri).2
  pageHeaders (contentType req.uri request_path rep) rep

/-- `CompressWebOutput`. -/
def compressWebOutput (rep : Reply) (req : Request) : Reply :=
  let decoded := urlDecode req.uri
  if !e.useGzip || !decoded.1 || contains decoded.2 (str ".png") ||
      contains decoded.2 (str ".jpg") ||
      !(req.getReqHeader "Accept-Encoding").any fun h => contains h (str "gzip") then rep
  else
    let zipped := e.gzip rep.content
    if 0 < zipped.length ∧ (zipped.length : ℤ) < toInt32 rep.content.length then
      ({ rep with isGZIP := true, content := zipped }.addHeader (str "Content-Length")
        (decimal zipped.length)).addHeader (str "Content-Encoding") (str "gzip")
    else rep

/-! ### The connection -/

/-- `reply::add_header_if_absent`. -/
def addHeaderIfAbsent (rep : Reply) (name value : Bytes) : Reply :=
  if rep.headers.any fun h => iequals h.name name then rep else rep.addHeader name value false

/-- What `handle_read` adds to a reply when the connection is kept. -/
def keepAliveReply (rep : Reply) (req : Request) : Reply :=
  if (req.getReqHeader "Connection").any (iequals · (str "Keep-Alive")) ∧
      (rep.status = .ok ∨ rep.status = .noContent ∨ rep.status = .notModified) then
    addHeaderIfAbsent (addHeaderIfAbsent rep (str "Connection") (str "Keep-Alive"))
      (str "Keep-Alive")
      (str "max=" ++ decimal e.max_requests ++ str ", timeout=" ++ decimal e.read_timeout)
  else rep

/-- `status_strings::to_string`, without the end of the line.  There is no case for
`not_allowed`. -/
def statusString : Status → Bytes
  | .switchingProtocols => str "HTTP/1.1 101 Switching Protocols"
  | .downloadFile => str "HTTP/1.1 102 Download File"
  | .ok => str "HTTP/1.1 200 OK"
  | .created => str "HTTP/1.1 201 Created"
  | .accepted => str "HTTP/1.1 202 Accepted"
  | .noContent => str "HTTP/1.1 204 No Content"
  | .multipleChoices => str "HTTP/1.1 300 Multiple Choices"
  | .movedPermanently => str "HTTP/1.1 301 Moved Permanently"
  | .movedTemporarily => str "HTTP/1.1 302 Moved Temporarily"
  | .notModified => str "HTTP/1.1 304 Not Modified"
  | .badRequest => str "HTTP/1.1 400 Bad Request"
  | .unauthorized => str "HTTP/1.1 401 Unauthorized"
  | .forbidden => str "HTTP/1.1 403 Forbidden"
  | .notFound => str "HTTP/1.1 404 Not Found"
  | .notAllowed => str "HTTP/1.1 500 Internal Server Error"
  | .internalServerError => str "HTTP/1.1 500 Internal Server Error"
  | .notImplemented => str "HTTP/1.1 501 Not Implemented"
  | .badGateway => str "HTTP/1.1 502 Bad Gateway"
  | .serviceUnavailable => str "HTTP/1.1 503 Service Unavailable"

/-- The end of a line. -/
def crlf : Bytes := [13, 10]

/-- The line of a header, without what ends it. -/
def headerLine (h : Header) : Bytes := h.name ++ str ": " ++ h.value

/-- `reply::header_to_string`. -/
def headerToString (rep : Reply) : Bytes :=
  statusString rep.status ++ crlf ++ (rep.headers.flatMap fun h => headerLine h ++ crlf) ++ crlf

/-- `reply::to_string`. -/
def toString (rep : Reply) (method : Bytes) : Bytes :=
  headerToString rep ++ if method ≠ str "HEAD" then rep.content else []

/-- The text of a cookie: the identifier and the token of a session and a date, none of which has
the end of a line. -/
structure Cookie where
  text : Bytes
  text_ok : 13 ∉ text

/-- The reply to a request that is handled by the page `/API`.  It has no header before, and the
session may be new or renewed. -/
def finalReply (before : UInt8) (cookie : Option Cookie) (req : Request) : Reply :=
  let rep := compressWebOutput e (pageReply e before {} req) req
  let rep := match cookie with
    | some c => rep.addHeader (str "Set-Cookie") c.text false
    | none => rep
  keepAliveReply e rep req

/-- The bytes that are sent. -/
def sent (before : UInt8) (cookie : Option Cookie) (req : Request) : Bytes :=
  toString (finalReply e before cookie req) req.method

/-! ### The client -/

/-- A line, and what is behind it. -/
def readLine : Bytes → Option (Bytes × Bytes)
  | 13 :: 10 :: s => some ([], s)
  | b :: s => (readLine s).map fun r => (b :: r.1, r.2)
  | [] => none

/-- The lines in front of an empty one, and what is behind it; at most `n` lines are read. -/
def readHead : ℕ → Bytes → Option (List Bytes × Bytes)
  | 0, _ => none
  | n + 1, s =>
    match readLine s with
    | none => none
    | some ([], rest) => some ([], rest)
    | some (line, rest) => (readHead n rest).map fun r => (line :: r.1, r.2)

/-- The value of a field of this name. -/
def fieldValue (name : String) (line : Bytes) : Option Bytes :=
  if iequals (upTo (chr ':') line) (str name) then
    some ((past (chr ':') line).dropWhile isSpace)
  else none

/-- There is no body behind a reply to `HEAD`, and none behind 204 and 304. -/
def WithoutBody (method line : Bytes) : Prop :=
  method = str "HEAD" ∨ (line.drop 9).take 3 = str "204" ∨ (line.drop 9).take 3 = str "304"

instance (method line : Bytes) : Decidable (WithoutBody method line) :=
  inferInstanceAs (Decidable (_ ∨ _))

/-- The header of a reply, its one length, and what is behind it. -/
def HasHead (bytes line body : Bytes) (n : ℕ) : Prop :=
  ∃ fields, readHead bytes.length bytes = some (line :: fields, body) ∧
    fields.filterMap (fieldValue "Content-Length") = [decimal n]

/-- A reply ends where it is declared to end. -/
def Framed (method bytes : Bytes) : Prop :=
  ∃ line body n, HasHead bytes line body n ∧
    body.length = if WithoutBody method line then 0 else n

/-- A reply that declares the length of what follows, also where nothing is to follow. -/
def FramedLiterally (method bytes : Bytes) : Prop :=
  ∃ line body n, HasHead bytes line body n ∧ body.length = n ∧
    (WithoutBody method line → body = [])

/-- The request is answered by 204: a query that has no rows, or a deletion. -/
def AnswersNoContent (req : Request) : Prop :=
  ∃ o, create req.method req.uri = some (some o) ∧ (o.access.userHasAccess e.cfg).1 = true ∧
    req.contentLength = 0 ∧
      ((req.method = str "GET" ∧ e.result = []) ∨ (req.method = str "DELETE" ∧ e.changes ≠ []))

/-! ### Headers -/

/-- What is done to the first header of a name, if there is one. -/
theorem modify_findIdx {p : Header → Bool} (f : Header → Header) (headers : List Header) :
    (∃ i front h back, headers.findIdx? p = some i ∧ headers = front ++ h :: back ∧ p h = true ∧
        headers.modify i f = front ++ f h :: back) ∨
      (headers.findIdx? p = none ∧ ∀ h ∈ headers, p h = false) := by
  induction headers with
  | nil => exact Or.inr ⟨rfl, fun h hh => nomatch hh⟩
  | cons h headers ih =>
    by_cases hp : p h = true
    · exact Or.inl ⟨0, [], h, headers, by simp [List.findIdx?_cons, hp], rfl, hp, rfl⟩
    · have hfalse := Bool.eq_false_of_not_eq_true hp
      rcases ih with ⟨i, front, h', back, hfind, hheaders, hp', hmodify⟩ | ⟨hnone, hall⟩
      · refine Or.inl ⟨i + 1, h :: front, h', back, ?_, ?_, hp', ?_⟩
        · simp [List.findIdx?_cons, hfalse, hfind]
        · rw [hheaders, List.cons_append]
        · rw [List.modify_succ_cons, hmodify, List.cons_append]
      · refine Or.inr ⟨by simp [List.findIdx?_cons, hfalse, hnone], ?_⟩
        intro h' hh'
        rcases List.mem_cons.mp hh' with rfl | hh'
        · exact hfalse
        · exact hall h' hh'

/-- The headers after `add_header`: one of that name has a new value, or there is one more. -/
theorem addHeader_cases (rep : Reply) (name value : Bytes) (replace : Bool) :
    (∃ front h back, rep.headers = front ++ h :: back ∧ iequals h.name name = true ∧
        rep.addHeader name value replace =
          { rep with headers := front ++ { h with value } :: back }) ∨
      ((replace = true → ∀ h ∈ rep.headers, iequals h.name name = false) ∧
        rep.addHeader name value replace =
          { rep with headers := rep.headers ++ [⟨name, value⟩] }) := by
  rcases modify_findIdx (p := fun h => iequals h.name name) (fun h => { h with value })
    rep.headers with ⟨i, front, h, back, hfind, hheaders, hp, hmodify⟩ | ⟨hnone, hall⟩
  · cases replace with
    | true =>
      refine Or.inl ⟨front, h, back, hheaders, hp, ?_⟩
      simp only [Reply.addHeader, hfind, if_true, hmodify]
    | false =>
      refine Or.inr ⟨fun hr => absurd hr Bool.false_ne_true, ?_⟩
      simp only [Reply.addHeader, hfind, Bool.false_eq_true, if_false]
  · refine Or.inr ⟨fun _ => hall, ?_⟩
    simp only [Reply.addHeader, hnone]

@[simp] theorem content_addHeader (rep : Reply) (name value : Bytes) (replace : Bool) :
    (rep.addHeader name value replace).content = rep.content := by
  rcases addHeader_cases rep name value replace with ⟨_, _, _, -, -, h⟩ | ⟨-, h⟩
  · rw [h]
  · rw [h]

/-- A header whose name and value keep to their line. -/
structure Clean (h : Header) : Prop where
  name_ok : 13 ∉ h.name ∧ chr ':' ∉ h.name
  value_ok : 13 ∉ h.value

/-- The values of the headers of the name `Content-Length`. -/
def lengths (headers : List Header) : List Bytes :=
  (headers.filter fun h => iequals h.name (str "Content-Length")).map (·.value)

theorem lengths_append (s t : List Header) : lengths (s ++ t) = lengths s ++ lengths t := by
  rw [lengths, List.filter_append, List.map_append, lengths, lengths]

theorem lengths_cons (h : Header) (t : List Header) : lengths (h :: t) =
    if iequals h.name (str "Content-Length") then h.value :: lengths t else lengths t := by
  rw [lengths, List.filter_cons]
  split
  · rfl
  · rfl

/-- Names that agree with each other agree with the same names. -/
theorem iequals_congr {s t u : Bytes} (h : iequals s t = true) : iequals s u = iequals t u := by
  have hupper : upper s = upper t := by simpa [iequals] using h
  rw [iequals, iequals, hupper]

theorem Clean.addHeader {rep : Reply} {name value : Bytes} {replace : Bool}
    (h : ∀ g ∈ rep.headers, Clean g) (hname : 13 ∉ name ∧ chr ':' ∉ name) (hvalue : 13 ∉ value) :
    ∀ g ∈ (rep.addHeader name value replace).headers, Clean g := by
  intro g hg
  rcases addHeader_cases rep name value replace with ⟨front, f, back, hheaders, -, heq⟩ | ⟨-, heq⟩
  · rw [heq] at hg
    rw [hheaders] at h
    rcases List.mem_append.mp hg with hg | hg
    · exact h g (List.mem_append_left _ hg)
    · rcases List.mem_cons.mp hg with rfl | hg
      · have hf := h f (List.mem_append_right _ List.mem_cons_self)
        exact ⟨hf.name_ok, hvalue⟩
      · exact h g (List.mem_append_right _ (List.mem_cons_of_mem _ hg))
  · rw [heq] at hg
    rcases List.mem_append.mp hg with hg | hg
    · exact h g hg
    · obtain rfl := List.mem_singleton.mp hg
      exact ⟨hname, hvalue⟩

/-- Another header does not change the lengths. -/
theorem lengths_addHeader {name : Bytes} (hname : iequals name (str "Content-Length") = false)
    (rep : Reply) (value : Bytes) (replace : Bool) :
    lengths (rep.addHeader name value replace).headers = lengths rep.headers := by
  rcases addHeader_cases rep name value replace with ⟨front, h, back, hheaders, hp, heq⟩ | ⟨-, heq⟩
  · have hother : iequals h.name (str "Content-Length") = false := by
      rw [iequals_congr hp, hname]
    rw [heq, hheaders]
    simp only [lengths_append, lengths_cons, hother, Bool.false_eq_true, if_false]
  · rw [heq]
    simp only [lengths_append, lengths_cons, hname, Bool.false_eq_true, if_false]
    exact List.append_nil _

/-- The length is replaced, if there is at most one. -/
theorem lengths_addHeader_length {rep : Reply} (hone : (lengths rep.headers).length ≤ 1)
    (value : Bytes) :
    lengths (rep.addHeader (str "Content-Length") value).headers = [value] := by
  have hself : iequals (str "Content-Length") (str "Content-Length") = true := by
    rw [iequals, beq_self_eq_true]
  rcases addHeader_cases rep (str "Content-Length") value true with
    ⟨front, h, back, hheaders, hp, heq⟩ | ⟨hnone, heq⟩
  · rw [hheaders] at hone
    rw [heq]
    simp only [lengths_append, lengths_cons, hp, if_true, List.length_append,
      List.length_cons] at hone ⊢
    have hfront : lengths front = [] := List.eq_nil_of_length_eq_zero (by omega)
    have hback : lengths back = [] := List.eq_nil_of_length_eq_zero (by omega)
    rw [hfront, hback, List.nil_append]
  · have hempty : lengths rep.headers = [] := by
      rw [lengths, List.map_eq_nil_iff, List.filter_eq_nil_iff]
      intro h hh
      rw [hnone rfl h hh]
      exact Bool.false_ne_true
    rw [heq]
    simp only [lengths_append, hempty, lengths_cons, hself, if_true, List.nil_append]
    rfl

/-- A reply with the length of its content, once, and headers that keep to their lines. -/
structure Sized (rep : Reply) : Prop where
  lengths_eq : lengths rep.headers = [decimal rep.content.length]
  clean : ∀ h ∈ rep.headers, Clean h

theorem Sized.addHeader {rep : Reply} (h : Sized rep) {name value : Bytes} (replace : Bool)
    (hname : iequals name (str "Content-Length") = false) (hok : 13 ∉ name ∧ chr ':' ∉ name)
    (hvalue : 13 ∉ value) : Sized (rep.addHeader name value replace) := by
  constructor
  · rw [lengths_addHeader hname, content_addHeader, h.lengths_eq]
  · exact Clean.addHeader h.clean hok hvalue

/-- `add_header` of the length. -/
theorem sized_addHeader_length {rep : Reply} (hone : (lengths rep.headers).length ≤ 1)
    (hclean : ∀ h ∈ rep.headers, Clean h) :
    Sized (rep.addHeader (str "Content-Length") (decimal rep.content.length)) := by
  constructor
  · rw [lengths_addHeader_length hone, content_addHeader]
  · exact Clean.addHeader hclean (by decide) (notMem_decimal _ (by decide) (by decide))

/-! ### From the handler to the connection -/

/-- Headers before the length is set. -/
structure Unsized (headers : List Header) : Prop where
  lengths_le : (lengths headers).length ≤ 1
  clean : ∀ h ∈ headers, Clean h

theorem unsized_nil : Unsized [] := by
  constructor
  · exact Nat.zero_le _
  · intro h hh
    cases hh

theorem unsized_stockReply (status : Status) : Unsized (stockReply status).headers := by
  have hnames : iequals (str "Content-Length") (str "Content-Length") = true ∧
      iequals (str "Content-Type") (str "Content-Length") = false := by decide
  have hlength : 13 ∉ str "Content-Length" ∧ chr ':' ∉ str "Content-Length" := by decide
  have htype : 13 ∉ str "Content-Type" ∧ chr ':' ∉ str "Content-Type" := by decide
  have hvalue (z : ℤ) : 13 ∉ decimal z := notMem_decimal z (by decide) (by decide)
  rw [stockReply]
  by_cases hcontent : stockContent status = []
  · simp only [hcontent, if_true]
    exact unsized_nil
  · simp only [hcontent, if_false]
    constructor
    · simp [hnames, lengths]
    · intro h hh
      rcases List.mem_cons.mp hh with rfl | hh
      · exact ⟨hlength, hvalue (stockContent status).length⟩
      · obtain rfl := List.mem_singleton.mp hh
        exact ⟨htype, by decide⟩

theorem content_contentReply_ne (status : Status) (root : Json D) :
    (contentReply e status root).content ≠ [] := List.append_ne_nil_of_right_ne_nil _ (by simp)

/-- What becomes of the body of a request is no deletion, and no reply but two. -/
def IsModification : RestAction → Prop
  | .reply status => status = .badRequest ∨ status = .notAllowed
  | .remove => False
  | _ => True

theorem getFieldsAndValues_error {dbl : Doubles D} {root : Option (Json D)} {da : DataAccess}
    {status : Status} (h : getFieldsAndValues dbl root da = .error status) :
    status = .badRequest ∨ status = .notAllowed := by
  cases root with
  | none =>
    cases h
    exact Or.inl rfl
  | some root =>
    simp only [getFieldsAndValues] at h
    split at h
    · cases h
      exact Or.inl rfl
    · split at h
      · cases h
        exact Or.inr rfl
      · cases h

theorem isModification_post (req : Request) (da : DataAccess) :
    IsModification (post e.doubles e.parse req da) := by
  rw [post]
  split
  · trivial
  · split
    · next herror => exact getFieldsAndValues_error herror
    · trivial

theorem isModification_modify (req : Request) (da : DataAccess) :
    IsModification (modify e.doubles e.parse req da) := by
  rw [modify]
  split
  · trivial
  · split
    · next herror => exact getFieldsAndValues_error herror
    · trivial

theorem status_modificationReply (rowCount : ℤ) :
    modificationReply rowCount = .badRequest ∨ modificationReply rowCount = .created := by
  rw [modificationReply]
  split
  · exact Or.inl rfl
  · exact Or.inr rfl

/-- A modification is answered by one of four statuses. -/
theorem status_actionReply {rep : Reply} (hrep : rep.status = .ok) {a : RestAction}
    (h : IsModification a) :
    (actionReply e rep a).status ∈ [Status.ok, .badRequest, .notAllowed, .created] := by
  cases a with
  | nothing => simp [actionReply, hrep]
  | reply status => rcases h with rfl | rfl <;> simp [actionReply]
  | insert fields values =>
    rcases status_modificationReply e.iRowCount with hs | hs <;>
      simp [actionReply, contentReply, hs]
  | update fields timestamp values =>
    rcases status_modificationReply e.iRowCount with hs | hs <;>
      simp [actionReply, contentReply, hs]
  | remove => cases h

theorem status_getReply_iff (req : Request) (o : RestObject) :
    (getReply e req o).status = .noContent ↔ req.contentLength = 0 ∧ e.result = [] := by
  rw [getReply]
  split
  · next hlength => simp [hlength]
  · next hlength =>
    rw [not_not] at hlength
    by_cases hresult : e.result = []
    · simp [contentReply, hresult, hlength]
    · simp [contentReply, hresult]

theorem status_delete_iff (rep : Reply) (req : Request) (da : DataAccess) :
    (actionReply e rep (delete req da)).status = .noContent ↔
      req.contentLength = 0 ∧ e.changes ≠ [] := by
  rw [delete]
  split
  · next hlength => simp [actionReply, hlength]
  · next hlength =>
    rw [not_not] at hlength
    by_cases hchanges : e.changes = []
    · simp [actionReply, contentReply, RowCounts.deleteReply, hchanges]
    · simp [actionReply, contentReply, RowCounts.deleteReply, hchanges, hlength]

/-- The reply is 204 where a verb has nothing to give back. -/
theorem status_processRequest_iff {rep : Reply} (hrep : rep.status = .ok) (req : Request)
    (o : RestObject) : (processRequest e rep req o).status = .noContent ↔
      req.contentLength = 0 ∧
        ((req.method = str "GET" ∧ e.result = []) ∨
          (req.method = str "DELETE" ∧ e.changes ≠ [])) := by
  have hmodification {a : RestAction} (h : IsModification a) :
      (actionReply e rep a).status ≠ .noContent := by
    intro hs
    have hmem := status_actionReply e hrep h
    rw [hs] at hmem
    exact absurd hmem (by decide)
  -- the other verbs answer with content
  have hother {verb : String} (hget : str verb ≠ str "GET") (hdelete : str verb ≠ str "DELETE")
      (hmethod : req.method = str verb) : ¬ (req.contentLength = 0 ∧
        ((req.method = str "GET" ∧ e.result = []) ∨
          (req.method = str "DELETE" ∧ e.changes ≠ []))) := by
    rintro ⟨-, ⟨hm, -⟩ | ⟨hm, -⟩⟩
    · exact hget (hmethod.symm.trans hm)
    · exact hdelete (hmethod.symm.trans hm)
  have hgetDelete : str "GET" ≠ str "DELETE" := by decide
  rw [processRequest]
  split
  · next hm =>
    exact iff_of_false (hmodification (isModification_post e req _))
      (hother (by decide) (by decide) hm)
  · split
    · next hm =>
      rw [status_getReply_iff, hm]
      simp [hgetDelete]
    · split
      · next hm =>
        exact iff_of_false (hmodification (isModification_modify e req _))
          (hother (by decide) (by decide) hm)
      · split
        · next hm =>
          exact iff_of_false (hmodification (isModification_modify e req _))
            (hother (by decide) (by decide) hm)
        · next hget _ _ =>
          split
          · next hm =>
            rw [status_delete_iff, hm]
            simp [hgetDelete.symm]
          · next hdelete =>
            refine iff_of_false (by simp) ?_
            rintro ⟨-, ⟨hm, -⟩ | ⟨hm, -⟩⟩
            · exact hget hm
            · exact hdelete hm

/-- What is true of every reply of a handler. -/
structure Handled (rep : Reply) : Prop where
  headers : Unsized rep.headers
  status_ne : rep.status ≠ .notModified
  content_ne : rep.status = .noContent → rep.content ≠ []

theorem handled_stockReply {status : Status} (h : status ≠ .noContent)
    (h' : status ≠ .notModified) :
    Handled (stockReply status) :=
  ⟨unsized_stockReply status, h', fun hs => absurd hs h⟩

theorem handled_contentReply {status : Status} (h : status ≠ .notModified) (root : Json D) :
    Handled (contentReply e status root) :=
  ⟨unsized_stockReply status, h, fun _ => content_contentReply_ne e status root⟩

theorem handled_actionReply {rep : Reply} (hrep : Handled rep) {a : RestAction}
    (h : ∀ status, a = .reply status → status = .badRequest ∨ status = .notAllowed) :
    Handled (actionReply e rep a) := by
  have hmodified : modificationReply e.iRowCount ≠ .notModified := by
    rcases status_modificationReply e.iRowCount with hs | hs
    · rw [hs]
      decide
    · rw [hs]
      decide
  cases a with
  | nothing => exact hrep
  | reply status =>
    rcases h status rfl with rfl | rfl
    · exact handled_stockReply (by decide) (by decide)
    · exact handled_stockReply (by decide) (by decide)
  | insert fields values => exact handled_contentReply e hmodified _
  | update fields timestamp values => exact handled_contentReply e hmodified _
  | remove =>
    apply handled_contentReply
    rw [RowCounts.deleteReply]
    split
    · decide
    · intro hs
      cases hs

theorem IsModification.reply {a : RestAction} (h : IsModification a) (status : Status)
    (ha : a = .reply status) : status = .badRequest ∨ status = .notAllowed := by
  subst ha
  exact h

theorem handled_getReply (req : Request) (o : RestObject) : Handled (getReply e req o) := by
  rw [getReply]
  split
  · exact handled_stockReply (by decide) (by decide)
  · apply handled_contentReply
    split
    · decide
    · decide

theorem handled_processRequest {rep : Reply} (hrep : Handled rep) (req : Request) (o : RestObject) :
    Handled (processRequest e rep req o) := by
  rw [processRequest]
  split
  · exact handled_actionReply e hrep (isModification_post e req _).reply
  · split
    · exact handled_getReply e req o
    · split
      · exact handled_actionReply e hrep (isModification_modify e req _).reply
      · split
        · exact handled_actionReply e hrep (isModification_modify e req _).reply
        · split
          · apply handled_actionReply e hrep
            intro status hstatus
            rw [delete] at hstatus
            split at hstatus
            · cases hstatus
              exact Or.inl rfl
            · cases hstatus
          · exact handled_stockReply (by decide) (by decide)

theorem handled_handleREST {rep : Reply} (hrep : Handled rep) (req : Request) :
    Handled (handleREST e rep req) := by
  rw [handleREST]
  split
  · exact hrep
  · exact handled_stockReply (by decide) (by decide)
  · simp only
    split
    · exact handled_processRequest e hrep req _
    · exact handled_stockReply (by decide) (by decide)

/-- **The requests that are answered by 204.** -/
theorem handleREST_noContent_iff {rep : Reply} (hrep : rep.status = .ok) (req : Request) :
    (handleREST e rep req).status = .noContent ↔ AnswersNoContent e req := by
  rw [handleREST, AnswersNoContent]
  cases hcreate : create req.method req.uri with
  | none => simp [hrep]
  | some made =>
    cases made with
    | none => simp
    | some o =>
      simp only [Option.some.injEq, exists_eq_left']
      split
      · next haccess => rw [status_processRequest_iff e hrep, haccess]; simp
      · next haccess => simp [haccess]

/-- A request for the header alone is answered by a page, or it raises an exception. -/
theorem handleREST_head {rep : Reply} (hcontent : rep.content = []) {req : Request}
    (hmethod : req.method = str "HEAD") :
    (handleREST e rep req).content = [] ↔ create req.method req.uri = none := by
  have hpage : stockContent .badRequest ≠ [] ∧ stockContent .forbidden ≠ [] ∧
      stockContent .notAllowed ≠ [] := by decide
  have hverbs : str "HEAD" ≠ str "POST" ∧ str "HEAD" ≠ str "GET" ∧ str "HEAD" ≠ str "PUT" ∧
      str "HEAD" ≠ str "PATCH" ∧ str "HEAD" ≠ str "DELETE" := by decide
  rw [handleREST]
  cases hcreate : create req.method req.uri with
  | none => exact iff_of_true hcontent rfl
  | some made =>
    refine iff_of_false ?_ (by simp)
    cases made with
    | none => exact hpage.1
    | some o =>
      simp only
      split
      · rw [processRequest, hmethod]
        simp only [hverbs, if_false]
        exact hpage.2.2
      · exact hpage.2.1

/-! ### The length of the content -/

theorem extensionToType_ok (extension : Bytes) : 13 ∉ extensionToType extension := by
  have hall : ∀ m ∈ mappings, 13 ∉ str m.2 := by decide
  rw [extensionToType]
  split
  · next m hm => exact hall m (List.mem_of_find?_eq_some hm)
  · exact List.not_mem_nil

theorem contentType_ok (uri request_path : Bytes) (rep : Reply) :
    13 ∉ contentType uri request_path rep := by
  rw [contentType]
  split
  · simp only
    split
    · exact extensionToType_ok _
    · exact extensionToType_ok _
  · exact extensionToType_ok _

theorem sized_pageHeaders {rep : Reply} (h : Unsized rep.headers) {strMimeType : Bytes}
    (hmime : 13 ∉ strMimeType) : Sized (pageHeaders strMimeType rep) := by
  have hlength := sized_addHeader_length h.lengths_le h.clean
  rw [pageHeaders]
  have hcache : Sized (if (str "image").isPrefixOf strMimeType then
      (rep.addHeader (str "Content-Length") (decimal rep.content.length)).addHeader
        (str "Cache-Control") (str "max-age=3600, public")
      else (((rep.addHeader (str "Content-Length") (decimal rep.content.length)).addHeader
        (str "Cache-Control") (str "no-cache")).addHeader (str "Pragma")
          (str "no-cache")).addHeader (str "Access-Control-Allow-Origin") (str "*")) := by
    split
    · exact hlength.addHeader true (by decide) (by decide) (by decide)
    · apply Sized.addHeader
      · apply Sized.addHeader
        · exact hlength.addHeader true (by decide) (by decide) (by decide)
        · decide
        · decide
        · decide
      · decide
      · decide
      · decide
  split
  · exact hcache
  · apply hcache.addHeader true (by decide) (by decide)
    split
    · exact hmime
    · rw [List.mem_append, not_or]
      exact ⟨hmime, by decide⟩

/-- What is done to a reply of a handler keeps its status, and a content that there is. -/
structure Follows (rep rep' : Reply) : Prop where
  sized : Sized rep'
  status_eq : rep'.status = rep.status
  content_iff : rep'.content = [] ↔ rep.content = []

theorem pageHeaders_kept (strMimeType : Bytes) (rep : Reply) :
    (pageHeaders strMimeType rep).status = rep.status ∧
      (pageHeaders strMimeType rep).content = rep.content := by
  rw [pageHeaders]
  split
  · split
    · simp
    · simp
  · split
    · simp
    · simp

theorem follows_pageHeaders {rep : Reply} (h : Unsized rep.headers) {strMimeType : Bytes}
    (hmime : 13 ∉ strMimeType) : Follows rep (pageHeaders strMimeType rep) := by
  obtain ⟨hstatus, hcontent⟩ := pageHeaders_kept strMimeType rep
  exact ⟨sized_pageHeaders h hmime, hstatus, by rw [hcontent]⟩

theorem Follows.addHeader {rep rep' : Reply} (h : Follows rep rep') {name value : Bytes}
    (replace : Bool) (hname : iequals name (str "Content-Length") = false)
    (hok : 13 ∉ name ∧ chr ':' ∉ name) (hvalue : 13 ∉ value) :
    Follows rep (rep'.addHeader name value replace) :=
  ⟨h.sized.addHeader replace hname hok hvalue, (status_addHeader _ _ _ _).trans h.status_eq,
    by rw [content_addHeader]; exact h.content_iff⟩

/-- Compression keeps content where there is some. -/
theorem follows_compressWebOutput {rep rep' : Reply} (h : Follows rep rep') (req : Request) :
    Follows rep (compressWebOutput e rep' req) := by
  rw [compressWebOutput]
  simp only
  split
  · exact h
  · split
    · next hshorter =>
      obtain ⟨hpos, hlt⟩ := hshorter
      have hzipped : e.gzip rep'.content ≠ [] := List.ne_nil_of_length_pos hpos
      have hcontent : rep'.content ≠ [] := by
        intro hnil
        rw [hnil] at hlt
        have hzero : toInt32 (([] : Bytes).length : ℤ) = 0 := by decide
        rw [hzero] at hlt
        omega
      have hone : (lengths rep'.headers).length ≤ 1 := by
        rw [h.sized.lengths_eq]
        exact le_refl _
      have hset : Follows rep
          ({ rep' with isGZIP := true, content := e.gzip rep'.content }.addHeader
            (str "Content-Length") (decimal (e.gzip rep'.content).length)) := by
        refine ⟨sized_addHeader_length hone h.sized.clean, ?_, ?_⟩
        · rw [status_addHeader]
          exact h.status_eq
        · rw [content_addHeader]
          exact iff_of_false hzipped fun hnil => hcontent (h.content_iff.mpr hnil)
      exact hset.addHeader true (by decide) (by decide) (by decide)
    · exact h

theorem follows_addHeaderIfAbsent {rep rep' : Reply} (h : Follows rep rep') {name value : Bytes}
    (hname : iequals name (str "Content-Length") = false) (hok : 13 ∉ name ∧ chr ':' ∉ name)
    (hvalue : 13 ∉ value) : Follows rep (addHeaderIfAbsent rep' name value) := by
  rw [addHeaderIfAbsent]
  split
  · exact h
  · exact h.addHeader false hname hok hvalue

theorem follows_keepAliveReply {rep rep' : Reply} (h : Follows rep rep') (req : Request) :
    Follows rep (keepAliveReply e rep' req) := by
  have hdecimal (z : ℤ) : 13 ∉ decimal z := notMem_decimal z (by decide) (by decide)
  have hmax : 13 ∉ str "max=" := by decide
  have htimeout : 13 ∉ str ", timeout=" := by decide
  rw [keepAliveReply]
  split
  · apply follows_addHeaderIfAbsent
    · exact follows_addHeaderIfAbsent h (by decide) (by decide) (by decide)
    · decide
    · decide
    · simp only [List.mem_append, not_or]
      exact ⟨⟨⟨hmax, hdecimal _⟩, htimeout⟩, hdecimal _⟩
  · exact h

/-- **The reply that is sent has the length of its content, once.** -/
theorem sized_final (before : UInt8) (cookie : Option Cookie) (req : Request) :
    Follows (handleREST e {} req) (finalReply e before cookie req) := by
  have hempty : Handled {} :=
    ⟨unsized_nil, by simp, by simp⟩
  have hhandled := handled_handleREST e hempty req
  have hpage : Follows (handleREST e {} req) (pageReply e before {} req) :=
    follows_pageHeaders hhandled.headers (contentType_ok _ _ _)
  have hcompressed := follows_compressWebOutput e hpage req
  unfold finalReply
  apply follows_keepAliveReply
  cases cookie with
  | none => exact hcompressed
  | some c => exact hcompressed.addHeader false (by decide) (by decide) c.text_ok

/-! ### The client reads the header -/

theorem readLine_append {line : Bytes} (h : 13 ∉ line) (rest : Bytes) :
    readLine (line ++ crlf ++ rest) = some (line, rest) := by
  induction line with
  | nil => rfl
  | cons b line ih =>
    rw [List.mem_cons, not_or] at h
    have hb : b ≠ 13 := Ne.symm h.1
    rw [List.cons_append, List.cons_append, readLine, ih h.2]
    · rfl
    · intro s hs
      exact absurd hs hb

/-- Lines that are not empty are read up to an empty one. -/
theorem readHead_append {lines : List Bytes} (h : ∀ line ∈ lines, line ≠ [] ∧ 13 ∉ line)
    (body : Bytes) {n : ℕ} (hn : lines.length < n) :
    readHead n ((lines.flatMap fun line => line ++ crlf) ++ crlf ++ body) = some (lines, body) := by
  induction lines generalizing n with
  | nil =>
    obtain ⟨n, rfl⟩ : ∃ m, n = m + 1 := ⟨n - 1, by omega⟩
    rfl
  | cons line lines ih =>
    obtain ⟨n, rfl⟩ : ∃ m, n = m + 1 := ⟨n - 1, by omega⟩
    rw [List.length_cons] at hn
    obtain ⟨hne, hclean⟩ := h line List.mem_cons_self
    have hrest := ih (fun l hl => h l (List.mem_cons_of_mem _ hl)) (n := n) (by omega)
    have hline := readLine_append hclean
      ((lines.flatMap fun line => line ++ crlf) ++ crlf ++ body)
    have hassoc : ((line :: lines).flatMap fun line => line ++ crlf) ++ crlf ++ body =
        line ++ crlf ++ ((lines.flatMap fun line => line ++ crlf) ++ crlf ++ body) := by
      simp only [List.flatMap_cons, List.append_assoc]
    rw [hassoc, readHead, hline]
    cases line with
    | nil => exact absurd rfl hne
    | cons b line => simp only [hrest, Option.map_some]

theorem statusString_ok (status : Status) :
    statusString status ≠ [] ∧ 13 ∉ statusString status := by
  cases status <;> decide

theorem headerLine_ok {h : Header} (hh : Clean h) : headerLine h ≠ [] ∧ 13 ∉ headerLine h := by
  have hcolon : str ": " ≠ [] ∧ 13 ∉ str ": " := by decide
  constructor
  · simp [headerLine, hcolon.1]
  · simp only [headerLine, List.mem_append, not_or]
    exact ⟨⟨hh.name_ok.1, hcolon.2⟩, hh.value_ok⟩

/-- A header is read as it was written, if its value does not begin with a space. -/
theorem fieldValue_headerLine {h : Header} (hh : Clean h) (name : String) :
    fieldValue name (headerLine h) =
      if iequals h.name (str name) then some (h.value.dropWhile isSpace) else none := by
  have hline : headerLine h = h.name ++ chr ':' :: (chr ' ' :: h.value) := by
    rw [headerLine, List.append_assoc]
    rfl
  have hspace : (chr ' ' :: h.value).dropWhile isSpace = h.value.dropWhile isSpace := rfl
  rw [fieldValue, hline, upTo_append_cons _ hh.name_ok.2, past_append_cons _ hh.name_ok.2, hspace]

theorem dropWhile_decimal (n : ℕ) : (decimal n).dropWhile isSpace = decimal n := by
  obtain ⟨hne, hall⟩ := numeral_toDigits n
  obtain ⟨b, t, hdigits⟩ := List.exists_cons_of_ne_nil hne
  have hdecimal : decimal n = b :: t := hdigits
  rw [hdigits] at hall
  have hb : isDigit 10 b = true := List.all_eq_true.mp hall b List.mem_cons_self
  rw [hdecimal, List.dropWhile_cons_of_neg (by simp [isSpace_of_isDigit hb])]

/-- The lengths a client reads. -/
theorem filterMap_fieldValue {headers : List Header} (h : ∀ g ∈ headers, Clean g) :
    (headers.map headerLine).filterMap (fieldValue "Content-Length") =
      (lengths headers).map fun value => value.dropWhile isSpace := by
  induction headers with
  | nil => rfl
  | cons g headers ih =>
    have hrest := ih fun f hf => h f (List.mem_cons_of_mem _ hf)
    rw [List.map_cons, List.filterMap_cons, fieldValue_headerLine (h g List.mem_cons_self),
      lengths_cons, hrest]
    split
    · next hnone =>
      split at hnone
      · cases hnone
      · next hname => rw [if_neg hname]
    · next value hsome =>
      split at hsome
      · next hname =>
        cases hsome
        rw [if_pos hname, List.map_cons]
      · cases hsome

/-- The header of a reply is read, with one length. -/
theorem hasHead_toString {rep : Reply} (h : Sized rep) (method : Bytes) :
    HasHead (toString rep method) (statusString rep.status)
      (if method ≠ str "HEAD" then rep.content else []) rep.content.length := by
  refine ⟨rep.headers.map headerLine, ?_, ?_⟩
  · have hlines : ∀ line ∈ statusString rep.status :: rep.headers.map headerLine,
        line ≠ [] ∧ 13 ∉ line := by
      intro line hline
      rcases List.mem_cons.mp hline with rfl | hline
      · exact statusString_ok rep.status
      · obtain ⟨g, hg, rfl⟩ := List.mem_map.mp hline
        exact headerLine_ok (h.clean g hg)
    have hbytes : toString rep method =
        ((statusString rep.status :: rep.headers.map headerLine).flatMap fun line =>
          line ++ crlf) ++ crlf ++ (if method ≠ str "HEAD" then rep.content else []) := by
      rw [toString, headerToString, List.flatMap_cons, List.flatMap_map]
    have hlength (lines : List Bytes) :
        lines.length ≤ (lines.flatMap fun line => line ++ crlf).length := by
      induction lines with
      | nil => exact le_refl _
      | cons line lines ih =>
        rw [List.flatMap_cons, List.length_append, List.length_append, List.length_cons]
        have hend : crlf.length = 2 := rfl
        omega
    rw [hbytes]
    apply readHead_append hlines
    rw [List.length_append, List.length_append]
    have hend : crlf.length = 2 := rfl
    have hall := hlength (statusString rep.status :: rep.headers.map headerLine)
    omega
  · rw [filterMap_fieldValue h.clean, h.lengths_eq, List.map_singleton, dropWhile_decimal]

/-- There is one way to read a reply. -/
theorem HasHead.unique {bytes line line' body body' : Bytes} {n n' : ℕ}
    (h : HasHead bytes line body n) (h' : HasHead bytes line' body' n') :
    line = line' ∧ body = body' ∧ n = n' := by
  obtain ⟨fields, hread, hlengths⟩ := h
  obtain ⟨fields', hread', hlengths'⟩ := h'
  rw [hread, Option.some.injEq, Prod.mk.injEq, List.cons.injEq] at hread'
  obtain ⟨⟨hline, rfl⟩, hbody⟩ := hread'
  rw [hlengths, List.singleton_inj] at hlengths'
  exact ⟨hline, hbody, Int.ofNat_inj.mp (decimal_injective hlengths')⟩

theorem withoutBody_statusString (method : Bytes) (status : Status) :
    WithoutBody method (statusString status) ↔
      method = str "HEAD" ∨ status = .noContent ∨ status = .notModified := by
  have hcode : (((statusString status).drop 9).take 3 = str "204" ↔ status = .noContent) ∧
      (((statusString status).drop 9).take 3 = str "304" ↔ status = .notModified) := by
    cases status <;> decide
  rw [WithoutBody, hcode.1, hcode.2]

/-- The framing of a reply, by what is read of it. -/
theorem framed_toString_iff {rep : Reply} (h : Sized rep) (method : Bytes) :
    let body := if method ≠ str "HEAD" then rep.content else []
    (Framed method (toString rep method) ↔
        body.length = if WithoutBody method (statusString rep.status) then 0
          else rep.content.length) ∧
      (FramedLiterally method (toString rep method) ↔ body.length = rep.content.length ∧
        (WithoutBody method (statusString rep.status) → body = [])) := by
  have hhead := hasHead_toString h method
  constructor
  · constructor
    · rintro ⟨line, body, n, hread, hlength⟩
      obtain ⟨rfl, rfl, rfl⟩ := hread.unique hhead
      exact hlength
    · intro hlength
      exact ⟨_, _, _, hhead, hlength⟩
  · constructor
    · rintro ⟨line, body, n, hread, hlength⟩
      obtain ⟨rfl, rfl, rfl⟩ := hread.unique hhead
      exact hlength
    · intro hlength
      exact ⟨_, _, _, hhead, hlength⟩

/-- **A reply ends where it is declared to end exactly if it is not 204; and it declares the length
of what follows exactly if, besides, it is no page that answers `HEAD`.** -/
theorem reply_framed_iff (before : UInt8) (cookie : Option Cookie) (req : Request) :
    (Framed req.method (sent e before cookie req) ↔ ¬ AnswersNoContent e req) ∧
      (FramedLiterally req.method (sent e before cookie req) ↔ ¬ AnswersNoContent e req ∧
        (req.method = str "HEAD" → create req.method req.uri = none)) := by
  have hempty : Handled {} := ⟨unsized_nil, by simp, by simp⟩
  have hhandled := handled_handleREST e hempty req
  have hok : ({} : Reply).status = .ok := rfl
  have hnoContent := handleREST_noContent_iff e hok req
  have hfollows := sized_final e before cookie req
  obtain ⟨hframed, hliterally⟩ := framed_toString_iff hfollows.sized req.method
  have hwithout := withoutBody_statusString req.method (finalReply e before cookie req).status
  rw [hfollows.status_eq, hnoContent, or_iff_left hhandled.status_ne] at hwithout
  rw [hfollows.status_eq] at hframed hliterally
  rw [sent, hframed, hliterally]
  by_cases hmethod : req.method = str "HEAD"
  · -- nothing is sent behind the header
    have hnot : ¬ AnswersNoContent e req := by
      rintro ⟨o, -, -, -, ⟨hm, -⟩ | ⟨hm, -⟩⟩
      · exact absurd (hmethod.symm.trans hm) (by decide)
      · exact absurd (hmethod.symm.trans hm) (by decide)
    have hcontent : ({} : Reply).content = [] := rfl
    have hpage := handleREST_head e hcontent hmethod
    have hzero : 0 = (finalReply e before cookie req).content.length ↔
        create req.method req.uri = none := by
      rw [← hpage, ← hfollows.content_iff, eq_comm, List.length_eq_zero_iff]
    rw [if_neg (not_not.mpr hmethod), if_pos (hwithout.mpr (Or.inl hmethod)), List.length_nil,
      hzero]
    simp [hnot, hmethod]
  · rw [if_pos hmethod]
    have hsize : (finalReply e before cookie req).content = [] ↔
        (handleREST e {} req).content = [] := hfollows.content_iff
    by_cases hanswer : AnswersNoContent e req
    · have hcontent : (finalReply e before cookie req).content ≠ [] := fun hnil =>
        hhandled.content_ne (hnoContent.mpr hanswer) (hsize.mp hnil)
      simp [hwithout, hanswer, hcontent]
    · simp [hwithout, hanswer, hmethod]

/-! ### A query without rows -/

/-- A server whose users may read the interfaces, of which there is none. -/
def emptyEnvironment : Environment Unit where
  webem := { crypto := { md5 := fun s => s, base64Decode := fun s => s } }
  cfg := {
    users := [⟨str "Admin", str "1"⟩]
    tableAccess := [⟨str "Interface", str "1", str "1", str "1", str "1", str "1", str "1", [],
      str "*", str "*"⟩]
    tableInfo := fun _ => [⟨str "0", str "InterfaceID", str "INTEGER", str "1", [], str "1"⟩] }
  doubles := ⟨fun _ => none, fun _ => (), fun _ => []⟩
  parse := fun _ => none
  -- the text of an object with the count, which is a string
  writeValue := fun _ => [123, 34] ++ str "Count" ++ [34, 58, 34, 48, 34, 125]
  result := []
  iRowCount := 0
  changes := []
  useGzip := false
  gzip := fun s => s
  max_requests := 20
  read_timeout := 0

/-- The request for them. -/
def interfacesRequest : Request where
  method := str "GET"
  uri := str "/API/Interfaces"

/-- Fourteen bytes follow a reply that has no content. -/
theorem body_of_nothing :
    (finalReply emptyEnvironment 0 none interfacesRequest).status = .noContent ∧
      (finalReply emptyEnvironment 0 none interfacesRequest).content.length = 14 ∧
      ¬ Framed interfacesRequest.method (sent emptyEnvironment 0 none interfacesRequest) := by
  have hstatus : (finalReply emptyEnvironment 0 none interfacesRequest).status = .noContent := by
    decide
  have hlength : (finalReply emptyEnvironment 0 none interfacesRequest).content.length = 14 := by
    decide
  have hsized := (sized_final emptyEnvironment 0 none interfacesRequest).sized
  have hmethod : interfacesRequest.method ≠ str "HEAD" := by decide
  have hwithout : WithoutBody interfacesRequest.method (statusString .noContent) := by decide
  refine ⟨hstatus, hlength, ?_⟩
  rw [sent, (framed_toString_iff hsized _).1, if_pos hmethod, hstatus, if_pos hwithout, hlength]
  decide

end Domoticz.ReplyFraming
