import Domoticz.CLib.Number

/-!
# Requests and replies

The request a handler receives and the reply it fills in, with the stock replies
and the header functions of the embedded web server.

A header value is handed out as a C string, so `getReqHeader` stops at the first
NUL byte of the value it finds.
-/

namespace Domoticz

open CLib

/-- `reply::status_type`. -/
inductive Status
  | switchingProtocols
  | downloadFile
  | ok
  | created
  | accepted
  | noContent
  | multipleChoices
  | movedPermanently
  | movedTemporarily
  | notModified
  | badRequest
  | unauthorized
  | forbidden
  | notFound
  | notAllowed
  | internalServerError
  | notImplemented
  | badGateway
  | serviceUnavailable
  deriving DecidableEq, Repr

/-- A header field of a request or a reply. -/
structure Header where
  name : Bytes
  value : Bytes
  deriving DecidableEq, Repr

/-- A request received from a client. -/
structure Request where
  hostAddress : Bytes := []
  method : Bytes := []
  uri : Bytes := []
  httpVersionMajor : ℤ := 0
  httpVersionMinor : ℤ := 0
  headers : List Header := []
  contentLength : ℤ := 0
  content : Bytes := []
  /-- The query parameters, in the order of the `multimap`. -/
  parameters : List (Bytes × Bytes) := []

/-- A reply to be sent to a client. -/
structure Reply where
  status : Status := .ok
  headers : List Header := []
  content : Bytes := []
  isGZIP : Bool := false
  deriving DecidableEq, Repr

/-- `boost::iequals`. -/
def iequals (s t : Bytes) : Bool := upper s == upper t

/-- `request::get_req_header`.  Names are compared as C strings. -/
def Request.getReqHeader (req : Request) (name : String) : Option Bytes :=
  (req.headers.find? fun h => iequals (str name) (cstr h.name)).map fun h => cstr h.value

/-- `std::multimap::insert`: behind the entries that are not greater. -/
def insertParameter (name value : Bytes) : List (Bytes × Bytes) → List (Bytes × Bytes)
  | [] => [(name, value)]
  | p :: ps =>
      if name < p.1 then (name, value) :: p :: ps else p :: insertParameter name value ps

/-- The body of a stock reply. -/
def stockPage (title : String) (heading : String) : Bytes :=
  str "<html><head><title>" ++ str title ++ str "</title></head><body><h1>" ++ str heading ++
    str "</h1></body></html>"

/-- The content of the stock reply of each status. -/
def stockContent : Status → Bytes
  | .switchingProtocols => []
  | .downloadFile => []
  | .ok => []
  | .created => stockPage "Created" "201 Created"
  | .accepted => stockPage "Accepted" "202 Accepted"
  | .noContent => []
  | .multipleChoices => stockPage "Multiple Choices" "300 Multiple Choices"
  | .movedPermanently => stockPage "Moved Permanently" "301 Moved Permanently"
  | .movedTemporarily => stockPage "Moved Temporarily" "302 Moved Temporarily"
  | .notModified => []
  | .badRequest => stockPage "Bad Request" "400 Bad Request"
  | .unauthorized => stockPage "Unauthorized" "401 Unauthorized"
  | .forbidden => stockPage "Forbidden" "403 Forbidden"
  | .notFound => stockPage "Not Found" "404 Not Found"
  | .notAllowed => stockPage "Not Allowed" "405 Not Allowed"
  | .internalServerError => stockPage "Internal Server Error" "500 Internal Server Error"
  | .notImplemented => stockPage "Not Implemented" "501 Not Implemented"
  | .badGateway => stockPage "Bad Gateway" "502 Bad Gateway"
  | .serviceUnavailable => stockPage "Service Unavailable" "503 Service Unavailable"

/-- `reply::stock_reply`. -/
def stockReply (status : Status) : Reply :=
  let content := stockContent status
  { status := status
    content := content
    headers := if content = [] then [] else
      [⟨str "Content-Length", decimal content.length⟩, ⟨str "Content-Type", str "text/html"⟩] }

/-- `reply::add_header`: overwrite the first header of that name if asked to and
there is one, append otherwise. -/
def Reply.addHeader (rep : Reply) (name value : Bytes) (replace : Bool := true) : Reply :=
  match rep.headers.findIdx? fun h => iequals h.name name with
  | some i => if replace then { rep with headers := rep.headers.modify i fun h => { h with value } }
      else { rep with headers := rep.headers ++ [⟨name, value⟩] }
  | none => { rep with headers := rep.headers ++ [⟨name, value⟩] }

@[simp] theorem status_stockReply (s : Status) : (stockReply s).status = s := rfl

@[simp] theorem status_addHeader (rep : Reply) (name value : Bytes) (replace : Bool) :
    (rep.addHeader name value replace).status = rep.status := by
  unfold Reply.addHeader
  split
  · split <;> rfl
  · rfl

end Domoticz
