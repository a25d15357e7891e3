import Domoticz.Web.Reply

/-!
# Parsing a request

`request_parser` takes a request apart one byte at a time.  It has a state for every place in the
request line and in the headers; in the last one, `reading_content`, it looks at everything between
its pointer and the end of the buffer instead.  `parse` is started from the beginning of the buffer
after every read.

## Main definitions

* `State`, `consume`, `parse` — the parser; `pInput` and `end` are the bytes between them.
* `headFrom` — what a parser reads up to the empty line, and what comes behind it.

## Main results

* `parseFrom_append` — what has been decided stays decided, with the same request.
* `parseFrom_of_head` — a request, by its head and what comes behind it.
-/

namespace Domoticz.RequestParser

open CLib

/-! ### The code -/

/-- `request_parser::state`. -/
inductive State
  | methodStart
  | method
  | uriStart
  | uri
  | httpVersionH
  | httpVersionT1
  | httpVersionT2
  | httpVersionP
  | httpVersionSlash
  | httpVersionMajorStart
  | httpVersionMajor
  | httpVersionMinorStart
  | httpVersionMinor
  | expectingNewline1
  | headerLineStart
  | headerLws
  | headerName
  | spaceBeforeHeaderValue
  | headerValue
  | expectingNewline2
  | expectingNewline3
  | readingContent
  deriving DecidableEq, Repr

/-- `boost::tribool`, or an exception. -/
inductive Result
  | indeterminate
  | yes
  | no
  | threw
  deriving DecidableEq, Repr

/-- What `consume` and `parse` leave: the state, the request, and the bytes from the pointer to
the end of the buffer. -/
structure Parsed where
  state : State
  request : Request
  rest : Bytes
  result : Result

/-- `request_parser::is_char`.  A byte from 128 on is a negative `char`. -/
def isChar (c : UInt8) : Bool := c ≤ 127

/-- `request_parser::is_ctl`. -/
def isCtl (c : UInt8) : Bool := c ≤ 31 || c == 127

/-- `request_parser::is_tspecial`: the quote, the backslash, the braces and the tabulator by their
numbers. -/
def isTspecial (c : UInt8) : Bool := (str "()<>@,;:/[]?= " ++ [34, 92, 123, 125, 9]).contains c

/-- `request_parser::is_digit`. -/
def isDigit (c : UInt8) : Bool := chr '0' ≤ c && c ≤ chr '9'

/-- What is not allowed in a method and in the name of a header. -/
def isRejected (c : UInt8) : Bool := !isChar c || isCtl c || isTspecial c

/-- A digit behind the digits of an `int`. -/
def pushDigit (version : ℤ) (input : UInt8) : ℤ := toInt32 (version * 10 + input.toNat - 48)

/-- A byte at the end of `req.headers.back()`. -/
def pushBack (push : Header → Header) : List Header → List Header
  | [] => []
  | [h] => [push h]
  | h :: headers => h :: pushBack push headers

/-- A byte more in the name of a header. -/
def pushName (input : UInt8) (h : Header) : Header := { h with name := h.name ++ [input] }

/-- A byte more in the value of a header. -/
def pushValue (input : UInt8) (h : Header) : Header := { h with value := h.value ++ [input] }

/-- `POST`, `PUT` and `PATCH` are the methods of a request with content. -/
def hasContent (req : Request) : Bool :=
  req.method == str "POST" || req.method == str "PUT" || req.method == str "PATCH"

/-- The content length that the first header of that name declares. -/
def declaredLength (headers : List Header) : ℤ :=
  match headers.find? fun h => h.name.map toLower == str "content-length" with
  | some h => atoi (cstr h.value)
  | none => 0

/-- The line feed in `expecting_newline_3`. -/
def endHead (req : Request) (rest : Bytes) : Parsed :=
  if !hasContent req then ⟨.expectingNewline3, req, rest, .yes⟩
  else
    let req := { req with contentLength := declaredLength req.headers }
    -- check on content_length, we might be done already
    if req.contentLength = 0 then ⟨.expectingNewline3, req, rest, .yes⟩
    else ⟨.readingContent, req, rest, .indeterminate⟩

/-- `reading_content`, with the pointer set back.  A negative length is no length of a string. -/
def readContent (req : Request) (pInput : Bytes) : Parsed :=
  if (pInput.length : ℤ) < req.contentLength then ⟨.readingContent, req, [], .indeterminate⟩
  else if req.contentLength < 0 then ⟨.readingContent, req, pInput, .threw⟩
  else
    ⟨.readingContent, { req with content := pInput.take req.contentLength.toNat }, [], .yes⟩

/-- `request_parser::consume`, for the byte at the pointer and the bytes behind it. -/
def consume (state : State) (req : Request) (input : UInt8) (rest : Bytes) : Parsed :=
  -- the three ways to go on
  let reject : Parsed := ⟨state, req, rest, .no⟩
  let go (state : State) (req : Request) : Parsed := ⟨state, req, rest, .indeterminate⟩
  let expect (c : Char) (next : State) : Parsed := if input = chr c then go next req else reject
  match state with
  | .methodStart =>
      if isRejected input then reject
      else go .method { req with method := req.method ++ [input] }
  | .method =>
      if input = chr ' ' then go .uri req
      else if isRejected input then reject
      else go .method { req with method := req.method ++ [input] }
  | .uriStart =>
      if isCtl input then reject
      else go .uri { req with uri := req.uri ++ [input] }
  | .uri =>
      if input = chr ' ' then go .httpVersionH req
      else if isCtl input then reject
      else go .uri { req with uri := req.uri ++ [input] }
  | .httpVersionH => expect 'H' .httpVersionT1
  | .httpVersionT1 => expect 'T' .httpVersionT2
  | .httpVersionT2 => expect 'T' .httpVersionP
  | .httpVersionP => expect 'P' .httpVersionSlash
  | .httpVersionSlash =>
      if input = chr '/' then
        go .httpVersionMajorStart { req with httpVersionMajor := 0, httpVersionMinor := 0 }
      else reject
  | .httpVersionMajorStart =>
      if isDigit input then
        go .httpVersionMajor { req with httpVersionMajor := pushDigit req.httpVersionMajor input }
      else reject
  | .httpVersionMajor =>
      if input = chr '.' then go .httpVersionMinorStart req
      else if isDigit input then
        go .httpVersionMajor { req with httpVersionMajor := pushDigit req.httpVersionMajor input }
      else reject
  | .httpVersionMinorStart =>
      if isDigit input then
        go .httpVersionMinor { req with httpVersionMinor := pushDigit req.httpVersionMinor input }
      else reject
  | .httpVersionMinor =>
      if input = chr '\r' then go .expectingNewline1 req
      else if isDigit input then
        go .httpVersionMinor { req with httpVersionMinor := pushDigit req.httpVersionMinor input }
      else reject
  | .expectingNewline1 => expect '\n' .headerLineStart
  | .headerLineStart =>
      if input = chr '\r' then go .expectingNewline3 req
      else if !req.headers.isEmpty && (input == chr ' ' || input == chr '\t') then
        go .headerLws req
      else if isRejected input then reject
      else go .headerName { req with headers := req.headers ++ [⟨[input], []⟩] }
  | .headerLws =>
      if input = chr '\r' then go .expectingNewline2 req
      else if input = chr ' ' ∨ input = chr '\t' then go .headerLws req
      else if isCtl input then reject
      else go .headerValue { req with headers := pushBack (pushValue input) req.headers }
  | .headerName =>
      if input = chr ':' then go .spaceBeforeHeaderValue req
      else if isRejected input then reject
      else go .headerName { req with headers := pushBack (pushName input) req.headers }
  | .spaceBeforeHeaderValue => expect ' ' .headerValue
  | .headerValue =>
      if input = chr '\r' then go .expectingNewline2 req
      else if isCtl input then reject
      else go .headerValue { req with headers := pushBack (pushValue input) req.headers }
  | .expectingNewline2 => expect '\n' .headerLineStart
  | .expectingNewline3 => if input = chr '\n' then endHead req rest else reject
  | .readingContent => readContent req (input :: rest)

/-- `request_parser::parse`.  `consume` leaves the pointer behind the byte or at the end. -/
def parseFrom (state : State) (req : Request) : Bytes → Parsed
  | [] => ⟨state, req, [], .indeterminate⟩
  | input :: rest =>
      let p := consume state req input rest
      if p.result ≠ .indeterminate ∨ p.rest = [] then p else parseFrom p.state p.request rest

/-- `reset`, and `parse` for a fresh request. -/
def parse (buf : Bytes) : Parsed := parseFrom .methodStart {} buf

/-! ### The head of a request -/

/-- The request at the line feed of the empty line, and what comes behind it. -/
def headFrom (state : State) (req : Request) : Bytes → Option (Request × Bytes)
  | [] => none
  | input :: rest =>
      if state = .expectingNewline3 ∧ input = chr '\n' then some (req, rest)
      else
        let p := consume state req input rest
        if p.result = .indeterminate then headFrom p.state p.request rest else none

/-- The head at the beginning of a buffer. -/
def head (buf : Bytes) : Option (Request × Bytes) := headFrom .methodStart {} buf

/-! ### A byte of the head -/

/-- Outside of the content nothing depends on what comes behind the byte. -/
theorem consume_eq {state : State} (h : state ≠ .readingContent) (req : Request) (input : UInt8)
    (rest : Bytes) : consume state req input rest = { consume state req input [] with rest } := by
  cases state with
  | readingContent => exact absurd rfl h
  | expectingNewline3 =>
    simp only [consume, endHead]
    split_ifs <;> rfl
  | _ =>
    simp only [consume]
    split_ifs <;> rfl

/-- The content begins behind the head. -/
theorem state_consume_ne {state : State} (h : state ≠ .readingContent) {input : UInt8}
    (hend : ¬ (state = .expectingNewline3 ∧ input = chr '\n')) (req : Request) (rest : Bytes) :
    (consume state req input rest).state ≠ .readingContent := by
  cases state with
  | readingContent => exact absurd rfl h
  | expectingNewline3 =>
    have hinput : input ≠ chr '\n' := fun heq => hend ⟨rfl, heq⟩
    simp [consume, hinput]
  | _ =>
    simp only [consume]
    split_ifs <;> simp

/-- What the head of a request leaves as it has been constructed. -/
structure Kept (req req' : Request) : Prop where
  hostAddress : req'.hostAddress = req.hostAddress
  contentLength : req'.contentLength = req.contentLength
  content : req'.content = req.content
  parameters : req'.parameters = req.parameters

/-- A request that has been read from a head alone has no content. -/
theorem Kept.of_constructed {req : Request} (h : Kept {} req) :
    { req with contentLength := 0 } = req ∧
      { req with contentLength := 0, content := [] } = req := by
  obtain ⟨-, hlength, hcontent, -⟩ := h
  cases req
  simp only at hlength hcontent
  subst hlength hcontent
  exact ⟨rfl, rfl⟩

theorem consume_kept {state : State} (h : state ≠ .readingContent) {input : UInt8}
    (hend : ¬ (state = .expectingNewline3 ∧ input = chr '\n')) (req : Request) (rest : Bytes) :
    Kept req (consume state req input rest).request := by
  cases state with
  | readingContent => exact absurd rfl h
  | expectingNewline3 =>
    have hinput : input ≠ chr '\n' := fun heq => hend ⟨rfl, heq⟩
    simp only [consume, hinput, if_false]
    exact ⟨rfl, rfl, rfl, rfl⟩
  | _ =>
    simp only [consume]
    split_ifs <;> exact ⟨rfl, rfl, rfl, rfl⟩

/-! ### The bytes of the head -/

/-- The loop of `parse`, at a byte of the head. -/
theorem parseFrom_cons {state : State} (h : state ≠ .readingContent) (req : Request)
    (input : UInt8) (rest : Bytes) :
    parseFrom state req (input :: rest) =
      if (consume state req input []).result = .indeterminate then
        parseFrom (consume state req input []).state (consume state req input []).request rest
      else { consume state req input [] with rest } := by
  rw [parseFrom, consume_eq h req input rest]
  by_cases hresult : (consume state req input []).result = .indeterminate
  · cases rest with
    | nil => simp [hresult, parseFrom]
    | cons b rest => simp [hresult]
  · simp [hresult]

/-- The loop of `parse`, at a byte of the content, is over. -/
theorem parseFrom_content (req : Request) (input : UInt8) (rest : Bytes) :
    parseFrom .readingContent req (input :: rest) = readContent req (input :: rest) := by
  have hdone : (readContent req (input :: rest)).result ≠ .indeterminate ∨
      (readContent req (input :: rest)).rest = [] := by
    unfold readContent
    split_ifs <;> simp
  rw [parseFrom]
  exact if_pos hdone

/-- More bytes behind a content that is complete. -/
theorem readContent_append {req : Request} {pInput : Bytes}
    (h : (readContent req pInput).result ≠ .indeterminate) (more : Bytes) :
    (readContent req (pInput ++ more)).result = (readContent req pInput).result ∧
      (readContent req (pInput ++ more)).request = (readContent req pInput).request := by
  have hlength : ¬ (pInput.length : ℤ) < req.contentLength := by
    intro hlt
    exact h (by rw [readContent, if_pos hlt])
  have hmore : ¬ ((pInput ++ more).length : ℤ) < req.contentLength := by
    rw [List.length_append]
    omega
  rw [readContent, readContent, if_neg hlength, if_neg hmore]
  split_ifs with hneg
  · exact ⟨rfl, rfl⟩
  · have htake : (pInput ++ more).take req.contentLength.toNat =
        pInput.take req.contentLength.toNat := List.take_append_of_le_length (by omega)
    rw [htake]
    exact ⟨rfl, rfl⟩

/-- **What has been decided stays decided, with the same request.** -/
theorem parseFrom_append (state : State) (req : Request) {buf : Bytes}
    (h : (parseFrom state req buf).result ≠ .indeterminate) (more : Bytes) :
    (parseFrom state req (buf ++ more)).result = (parseFrom state req buf).result ∧
      (parseFrom state req (buf ++ more)).request = (parseFrom state req buf).request := by
  induction buf generalizing state req with
  | nil => exact absurd rfl h
  | cons input rest ih =>
    rw [List.cons_append]
    by_cases hstate : state = .readingContent
    · subst hstate
      rw [parseFrom_content] at h ⊢
      rw [parseFrom_content]
      exact readContent_append h more
    · rw [parseFrom_cons hstate] at h ⊢
      rw [parseFrom_cons hstate]
      split_ifs at h ⊢ with hresult
      · exact ih _ _ h
      · exact ⟨rfl, rfl⟩

/-! ### The head of a request, with what comes behind it -/

/-- A request whose content is to be read. -/
theorem endHead_content {req : Request} (h : hasContent req = true)
    (hlength : declaredLength req.headers ≠ 0) (rest : Bytes) :
    endHead req rest = ⟨.readingContent, { req with contentLength := declaredLength req.headers },
      rest, .indeterminate⟩ := by
  unfold endHead
  simp [h, hlength]

/-- A request that is complete with its head. -/
theorem endHead_complete {req : Request}
    (h : hasContent req = false ∨ declaredLength req.headers = 0) (rest : Bytes) :
    endHead req rest = ⟨.expectingNewline3,
      if hasContent req then { req with contentLength := 0 } else req, rest, .yes⟩ := by
  unfold endHead
  cases hcontent : hasContent req with
  | false => simp
  | true =>
    have hlength : declaredLength req.headers = 0 := by simpa [hcontent] using h
    simp [hlength]

/-- What is behind the head of a request: nothing yet, or content. -/
def behindHead (req : Request) (rest : Bytes) : Parsed :=
  let p := endHead req rest
  if p.result ≠ .indeterminate ∨ rest = [] then p else readContent p.request rest

theorem behindHead_content {req : Request} (h : hasContent req = true)
    (hlength : declaredLength req.headers ≠ 0) (rest : Bytes) :
    behindHead req rest =
      let req := { req with contentLength := declaredLength req.headers }
      if rest = [] then ⟨.readingContent, req, [], .indeterminate⟩ else readContent req rest := by
  rw [behindHead, endHead_content h hlength]
  cases rest with
  | nil => rfl
  | cons b rest => simp

theorem behindHead_complete {req : Request}
    (h : hasContent req = false ∨ declaredLength req.headers = 0) (rest : Bytes) :
    behindHead req rest = ⟨.expectingNewline3,
      if hasContent req then { req with contentLength := 0 } else req, rest, .yes⟩ := by
  rw [behindHead, endHead_complete h]
  simp

/-- At the end of the head. -/
theorem parseFrom_endHead (req : Request) (rest : Bytes) :
    parseFrom .expectingNewline3 req (chr '\n' :: rest) = behindHead req rest := by
  have hconsume : consume .expectingNewline3 req (chr '\n') rest = endHead req rest := by
    simp only [consume, if_true]
  rw [parseFrom, hconsume]
  by_cases h : hasContent req = true ∧ declaredLength req.headers ≠ 0
  · rw [behindHead_content h.1 h.2, endHead_content h.1 h.2]
    cases rest with
    | nil => rfl
    | cons b rest => simp [parseFrom_content]
  · have hcomplete : hasContent req = false ∨ declaredLength req.headers = 0 := by
      rw [not_and_or, not_not] at h
      simpa using h
    rw [behindHead_complete hcomplete, endHead_complete hcomplete]
    simp

/-- A request is its head and what comes behind it. -/
theorem parseFrom_of_head {state : State} (hstate : state ≠ .readingContent) {req req' : Request}
    {buf rest : Bytes} (h : headFrom state req buf = some (req', rest)) :
    parseFrom state req buf = behindHead req' rest ∧ Kept req req' := by
  induction buf generalizing state req with
  | nil => cases h
  | cons input buf ih =>
    unfold headFrom at h
    by_cases hend : state = .expectingNewline3 ∧ input = chr '\n'
    · rw [if_pos hend, Option.some.injEq, Prod.mk.injEq] at h
      obtain ⟨rfl, rfl⟩ := h
      obtain ⟨rfl, rfl⟩ := hend
      exact ⟨parseFrom_endHead req buf, ⟨rfl, rfl, rfl, rfl⟩⟩
    · rw [if_neg hend, consume_eq hstate req input buf] at h
      have hnext := state_consume_ne hstate hend req []
      have hkept := consume_kept hstate hend req []
      simp only at h
      split_ifs at h with hresult
      obtain ⟨hparse, hkept'⟩ := ih hnext h
      rw [parseFrom_cons hstate, if_pos hresult]
      exact ⟨hparse, hkept'.hostAddress.trans hkept.hostAddress,
        hkept'.contentLength.trans hkept.contentLength, hkept'.content.trans hkept.content,
        hkept'.parameters.trans hkept.parameters⟩

theorem headFrom_append {state : State} (hstate : state ≠ .readingContent) {req req' : Request}
    {buf rest : Bytes} (h : headFrom state req buf = some (req', rest)) (more : Bytes) :
    headFrom state req (buf ++ more) = some (req', rest ++ more) := by
  induction buf generalizing state req with
  | nil => cases h
  | cons input buf ih =>
    rw [List.cons_append]
    unfold headFrom at h ⊢
    by_cases hend : state = .expectingNewline3 ∧ input = chr '\n'
    · rw [if_pos hend, Option.some.injEq, Prod.mk.injEq] at h ⊢
      exact ⟨h.1, congrArg (· ++ more) h.2⟩
    · rw [if_neg hend, consume_eq hstate] at h ⊢
      have hnext := state_consume_ne hstate hend req []
      simp only at h ⊢
      split_ifs at h ⊢ with hresult
      exact ih hnext h

/-- What comes behind the head is the end of the buffer. -/
theorem headFrom_suffix {state : State} {req req' : Request} {buf rest : Bytes}
    (h : headFrom state req buf = some (req', rest)) :
    ∃ front, front ≠ [] ∧ buf = front ++ rest := by
  induction buf generalizing state req with
  | nil => cases h
  | cons input buf ih =>
    unfold headFrom at h
    by_cases hend : state = .expectingNewline3 ∧ input = chr '\n'
    · rw [if_pos hend, Option.some.injEq, Prod.mk.injEq] at h
      obtain ⟨-, rfl⟩ := h
      exact ⟨[input], by simp, rfl⟩
    · rw [if_neg hend] at h
      simp only at h
      split_ifs at h with hresult
      obtain ⟨front, -, rfl⟩ := ih h
      exact ⟨input :: front, by simp, rfl⟩

/-- Inside the head of a request nothing has been decided. -/
theorem parseFrom_inside {state : State} (hstate : state ≠ .readingContent) {req : Request}
    {buf more : Bytes} (hnone : headFrom state req buf = none)
    (hsome : (headFrom state req (buf ++ more)).isSome) :
    (parseFrom state req buf).result = .indeterminate := by
  induction buf generalizing state req with
  | nil => rfl
  | cons input buf ih =>
    rw [List.cons_append] at hsome
    unfold headFrom at hnone hsome
    by_cases hend : state = .expectingNewline3 ∧ input = chr '\n'
    · rw [if_pos hend] at hnone
      cases hnone
    · rw [if_neg hend, consume_eq hstate] at hnone hsome
      have hnext := state_consume_ne hstate hend req []
      simp only at hnone hsome
      rw [parseFrom_cons hstate]
      split_ifs at hnone hsome ⊢ with hresult
      · exact ih hnext hnone hsome
      · cases hsome

end Domoticz.RequestParser
