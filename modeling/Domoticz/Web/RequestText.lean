import Domoticz.Web.RequestParser
import Mathlib.Data.Bool.AllAny

/-!
# The text of a request

A request line, some headers, an empty line and what is behind it: `request_parser` takes from the
text of a request what was put into it.

## Main definitions

* `RequestText` — a request as it may be written.
* `RequestText.request` — what it says.

## Main results

* `headFrom_run` — a run of bytes that are all put to the same place.
* `headFrom_headers` — the lines of the headers.
* `parse_requestText` — **what is written is read.**
-/

namespace Domoticz.RequestParser

open CLib

/-! ### Texts -/

/-- The bytes of a method or of the name of a header. -/
def IsToken (s : Bytes) : Prop := s ≠ [] ∧ ∀ c ∈ s, isRejected c = false

/-- The bytes of the value of a header. -/
def IsValue (s : Bytes) : Prop := ∀ c ∈ s, isCtl c = false

/-- The bytes of a target. -/
def IsTarget (s : Bytes) : Prop := ∀ c ∈ s, isCtl c = false ∧ c ≠ chr ' '

/-- The line of a header. -/
def fieldLine (h : Header) : Bytes := h.name ++ str ": " ++ h.value ++ [13, 10]

/-- A request as it may be written. -/
structure RequestText where
  method : Bytes
  uri : Bytes
  headers : List Header
  content : Bytes
  method_ok : IsToken method
  uri_ok : IsTarget uri
  headers_ok : ∀ h ∈ headers, IsToken h.name ∧ IsValue h.value

namespace RequestText

variable (t : RequestText)

/-- The head with the empty line. -/
def head : Bytes :=
  t.method ++ str " " ++ t.uri ++ str " HTTP/1.1" ++ [13, 10] ++ t.headers.flatMap fieldLine ++
    [13, 10]

/-- All bytes of a request. -/
def bytes : Bytes := t.head ++ t.content

/-- What the head says. -/
def fields : Request where
  method := t.method
  uri := t.uri
  httpVersionMajor := 1
  httpVersionMinor := 1
  headers := t.headers

/-- What the text says. -/
def request : Request :=
  if hasContent t.fields then
    { t.fields with contentLength := t.content.length, content := t.content }
  else t.fields

end RequestText

/-! ### Runs of bytes -/

/-- A byte that is no end. -/
theorem headFrom_step {state n : State} {req req' : Request} {input : UInt8} {rest : Bytes}
    (hend : ¬ (state = .expectingNewline3 ∧ input = chr '\n'))
    (h : consume state req input rest = ⟨n, req', rest, .indeterminate⟩) :
    headFrom state req (input :: rest) = headFrom n req' rest := by
  rw [headFrom, if_neg hend, h]
  rfl

/-- A run of bytes that are all put to the same place. -/
theorem headFrom_run {state : State} (hstate : state ≠ .expectingNewline3)
    (push : Request → UInt8 → Request) {s : Bytes}
    (h : ∀ c ∈ s, ∀ req rest, consume state req c rest = ⟨state, push req c, rest, .indeterminate⟩)
    (req : Request) (rest : Bytes) :
    headFrom state req (s ++ rest) = headFrom state (s.foldl push req) rest := by
  induction s generalizing req with
  | nil => rfl
  | cons c s ih =>
    rw [List.cons_append, headFrom_step (fun hend => hstate hend.1)
      (h c List.mem_cons_self req (s ++ rest))]
    exact ih (fun c hc => h c (List.mem_cons_of_mem _ hc)) (push req c)

theorem foldl_method (s : Bytes) (req : Request) :
    s.foldl (fun req c => { req with method := req.method ++ [c] }) req =
      { req with method := req.method ++ s } := by
  induction s generalizing req with
  | nil => rw [List.foldl_nil, List.append_nil]
  | cons c s ih => rw [List.foldl_cons, ih, List.append_assoc, List.singleton_append]

theorem foldl_uri (s : Bytes) (req : Request) :
    s.foldl (fun req c => { req with uri := req.uri ++ [c] }) req =
      { req with uri := req.uri ++ s } := by
  induction s generalizing req with
  | nil => rw [List.foldl_nil, List.append_nil]
  | cons c s ih => rw [List.foldl_cons, ih, List.append_assoc, List.singleton_append]

theorem pushBack_concat (push : Header → Header) (headers : List Header) (h : Header) :
    pushBack push (headers ++ [h]) = headers ++ [push h] := by
  induction headers with
  | nil => rfl
  | cons g headers ih =>
    cases headers with
    | nil => rfl
    | cons g' headers => exact congrArg (g :: ·) ih

/-- Bytes at the end of the last header. -/
theorem foldl_pushBack (push : UInt8 → Header → Header) (s : Bytes) (headers : List Header)
    (h : Header) (req : Request) :
    s.foldl (fun req c => { req with headers := pushBack (push c) req.headers })
        { req with headers := headers ++ [h] } =
      { req with headers := headers ++ [s.foldl (fun h c => push c h) h] } := by
  induction s generalizing h with
  | nil => rfl
  | cons c s ih =>
    rw [List.foldl_cons, List.foldl_cons, ← ih]
    simp only [pushBack_concat]

theorem foldl_pushName (s : Bytes) (h : Header) :
    s.foldl (fun h c => pushName c h) h = { h with name := h.name ++ s } := by
  induction s generalizing h with
  | nil => rw [List.foldl_nil, List.append_nil]
  | cons c s ih => rw [List.foldl_cons, ih, pushName, List.append_assoc, List.singleton_append]

theorem foldl_pushValue (s : Bytes) (h : Header) :
    s.foldl (fun h c => pushValue c h) h = { h with value := h.value ++ s } := by
  induction s generalizing h with
  | nil => rw [List.foldl_nil, List.append_nil]
  | cons c s ih => rw [List.foldl_cons, ih, pushValue, List.append_assoc, List.singleton_append]

/-! ### The request line -/

theorem ne_of_isRejected {c d : UInt8} (hc : isRejected c = false) (hd : isRejected d = true) :
    c ≠ d := by
  rintro rfl
  rw [hc] at hd
  cases hd

theorem headFrom_method {m : Bytes} (h : IsToken m) (rest : Bytes) :
    headFrom .methodStart {} (m ++ chr ' ' :: rest) = headFrom .uri { method := m } rest := by
  obtain ⟨hne, htoken⟩ := h
  obtain ⟨c, m, rfl⟩ := List.exists_cons_of_ne_nil hne
  obtain ⟨hc, hm⟩ := List.forall_mem_cons.mp htoken
  have hfirst (rest : Bytes) : consume .methodStart {} c rest =
      ⟨.method, { method := [c] }, rest, .indeterminate⟩ := by
    simp only [consume, hc, Bool.false_eq_true, if_false]
    rfl
  have hrun (d : UInt8) (hd : d ∈ m) (req : Request) (rest : Bytes) : consume .method req d rest =
      ⟨.method, { req with method := req.method ++ [d] }, rest, .indeterminate⟩ := by
    have hblank : d ≠ chr ' ' := ne_of_isRejected (hm d hd) (by decide)
    simp only [consume, hblank, hm d hd, Bool.false_eq_true, if_false]
  rw [List.cons_append, headFrom_step (fun hend => State.noConfusion hend.1) (hfirst _),
    headFrom_run (by decide) _ hrun, foldl_method,
    headFrom_step (fun hend => State.noConfusion hend.1) (n := .uri) rfl]
  rfl

theorem headFrom_uri {u : Bytes} (h : IsTarget u) (req : Request) (rest : Bytes) :
    headFrom .uri req (u ++ chr ' ' :: rest) =
      headFrom .httpVersionH { req with uri := req.uri ++ u } rest := by
  have hrun (d : UInt8) (hd : d ∈ u) (req : Request) (rest : Bytes) : consume .uri req d rest =
      ⟨.uri, { req with uri := req.uri ++ [d] }, rest, .indeterminate⟩ := by
    simp only [consume, (h d hd).1, (h d hd).2, Bool.false_eq_true, if_false]
  rw [headFrom_run (by decide) _ hrun, foldl_uri,
    headFrom_step (fun hend => State.noConfusion hend.1) (n := .httpVersionH) rfl]

theorem headFrom_version (req : Request) (rest : Bytes) :
    headFrom .httpVersionH req (str "HTTP/1.1" ++ [13, 10] ++ rest) =
      headFrom .headerLineStart { req with httpVersionMajor := 1, httpVersionMinor := 1 } rest := by
  rfl

/-! ### The headers -/

/-- A line of a header. -/
theorem headFrom_field {h : Header} (hname : IsToken h.name) (hvalue : IsValue h.value)
    (req : Request) (rest : Bytes) :
    headFrom .headerLineStart req (fieldLine h ++ rest) =
      headFrom .headerLineStart { req with headers := req.headers ++ [h] } rest := by
  obtain ⟨name, value⟩ := h
  obtain ⟨hne, htoken⟩ := hname
  simp only at hne htoken hvalue
  obtain ⟨c, name, rfl⟩ := List.exists_cons_of_ne_nil hne
  obtain ⟨hc, hn⟩ := List.forall_mem_cons.mp htoken
  have hfirst (rest : Bytes) : consume .headerLineStart req c rest =
      ⟨.headerName, { req with headers := req.headers ++ [⟨[c], []⟩] }, rest, .indeterminate⟩ := by
    have hcr : c ≠ chr '\r' := ne_of_isRejected hc (by decide)
    have hblank : (c == chr ' ') = false := beq_false_of_ne (ne_of_isRejected hc (by decide))
    have htab : (c == chr '\t') = false := beq_false_of_ne (ne_of_isRejected hc (by decide))
    simp only [consume, hcr, hblank, htab, hc, Bool.or_self, Bool.and_false, Bool.false_eq_true,
      if_false]
  have hrun (d : UInt8) (hd : d ∈ name) (req : Request) (rest : Bytes) :
      consume .headerName req d rest = ⟨.headerName,
        { req with headers := pushBack (pushName d) req.headers }, rest, .indeterminate⟩ := by
    have hcolon : d ≠ chr ':' := ne_of_isRejected (hn d hd) (by decide)
    simp only [consume, hcolon, hn d hd, Bool.false_eq_true, if_false]
  have hvalues (d : UInt8) (hd : d ∈ value) (req : Request) (rest : Bytes) :
      consume .headerValue req d rest = ⟨.headerValue,
        { req with headers := pushBack (pushValue d) req.headers }, rest, .indeterminate⟩ := by
    have hcr : d ≠ chr '\r' := by
      rintro rfl
      exact absurd (hvalue _ hd) (by decide)
    simp only [consume, hcr, hvalue d hd, Bool.false_eq_true, if_false]
  have hline : fieldLine ⟨c :: name, value⟩ ++ rest =
      c :: (name ++ chr ':' :: chr ' ' :: (value ++ chr '\r' :: chr '\n' :: rest)) := by
    simp only [fieldLine, List.append_assoc, List.cons_append]
    rfl
  rw [hline, headFrom_step (fun hend => State.noConfusion hend.1) (hfirst _),
    headFrom_run (by decide) _ hrun, foldl_pushBack, foldl_pushName,
    headFrom_step (fun hend => State.noConfusion hend.1) (n := .spaceBeforeHeaderValue) rfl,
    headFrom_step (fun hend => State.noConfusion hend.1) (n := .headerValue) rfl,
    headFrom_run (by decide) _ hvalues, foldl_pushBack, foldl_pushValue,
    headFrom_step (fun hend => State.noConfusion hend.1) (n := .expectingNewline2) rfl,
    headFrom_step (fun hend => State.noConfusion hend.1) (n := .headerLineStart) rfl]
  rfl

/-- The lines of the headers. -/
theorem headFrom_headers {headers : List Header}
    (h : ∀ h ∈ headers, IsToken h.name ∧ IsValue h.value) (req : Request) (rest : Bytes) :
    headFrom .headerLineStart req (headers.flatMap fieldLine ++ rest) =
      headFrom .headerLineStart { req with headers := req.headers ++ headers } rest := by
  induction headers generalizing req with
  | nil =>
    rw [List.flatMap_nil, List.nil_append, List.append_nil]
  | cons g headers ih =>
    obtain ⟨hg, hrest⟩ := List.forall_mem_cons.mp h
    rw [List.flatMap_cons, List.append_assoc, headFrom_field hg.1 hg.2, ih hrest,
      List.append_assoc, List.singleton_append]

/-! ### The text -/

theorem head_text (t : RequestText) (rest : Bytes) :
    RequestParser.head (t.head ++ rest) = some (t.fields, rest) := by
  have hhead : t.head ++ rest = t.method ++ chr ' ' :: (t.uri ++ chr ' ' ::
      (str "HTTP/1.1" ++ [13, 10] ++ (t.headers.flatMap fieldLine ++ ([13, 10] ++ rest)))) := by
    simp only [RequestText.head, List.append_assoc]
    rfl
  rw [RequestParser.head, hhead, headFrom_method t.method_ok, headFrom_uri t.uri_ok,
    headFrom_version, headFrom_headers t.headers_ok]
  rfl

/-- The length is declared where there is to be content, and elsewhere there is none. -/
structure RequestText.Framed (t : RequestText) : Prop where
  declared : hasContent t.fields = true → declaredLength t.headers = t.content.length
  without : hasContent t.fields = false → t.content = []

/-- A request that is all there. -/
theorem parse_whole {t : RequestText} (h : t.Framed) (more : Bytes) :
    (parse (t.bytes ++ more)).result = .yes ∧ (parse (t.bytes ++ more)).request = t.request := by
  have hhead := head_text t (t.content ++ more)
  rw [← List.append_assoc] at hhead
  rw [RequestText.bytes, parse, (parseFrom_of_head (by decide) hhead).1, RequestText.request]
  cases hcontent : hasContent t.fields with
  | false =>
    rw [behindHead_complete (.inl hcontent), hcontent]
    exact ⟨rfl, rfl⟩
  | true =>
    have hlength := h.declared hcontent
    have hfields : t.fields.headers = t.headers := rfl
    by_cases hzero : t.content = []
    · have hdeclared : declaredLength t.fields.headers = 0 := by
        rw [hfields, hlength, hzero]
        rfl
      rw [behindHead_complete (.inr hdeclared), hcontent, hzero]
      exact ⟨rfl, rfl⟩
    · have hpos := List.length_pos_iff.mpr hzero
      have hdeclared : declaredLength t.fields.headers ≠ 0 := by
        rw [hfields, hlength]
        omega
      rw [behindHead_content hcontent hdeclared]
      simp only
      rw [if_neg (mt (fun h => (List.append_eq_nil_iff.mp h).1) hzero), readContent, hfields,
        hlength]
      simp only
      rw [if_neg (by rw [List.length_append]; omega), if_neg (by omega), Int.toNat_natCast,
        List.take_left]
      exact ⟨rfl, rfl⟩

/-- A request that is not all there. -/
theorem parse_part {t : RequestText} (h : t.Framed) {part more : Bytes}
    (hpart : part ++ more = t.bytes) (hmore : more ≠ []) :
    (parse part).result = .indeterminate := by
  have hwhole : RequestParser.head (part ++ more) = some (t.fields, t.content) := by
    rw [hpart]
    exact head_text t t.content
  cases hhead : RequestParser.head part with
  | none =>
    have hsome : (headFrom .methodStart {} (part ++ more)).isSome := by
      rw [← RequestParser.head, hwhole]
      rfl
    exact parseFrom_inside (by decide) hhead hsome
  | some r =>
    obtain ⟨req, rest⟩ := r
    have happend : RequestParser.head (part ++ more) = some (req, rest ++ more) :=
      headFrom_append (by decide) hhead more
    rw [hwhole, Option.some.injEq, Prod.mk.injEq] at happend
    obtain ⟨rfl, hrest⟩ := happend
    -- There is content, and some of it is missing.
    have hlength := congrArg List.length hrest
    rw [List.length_append] at hlength
    have hpos := List.length_pos_iff.mpr hmore
    have hcontent : hasContent t.fields = true := by
      by_contra hnot
      rw [h.without (Bool.eq_false_iff.mpr hnot)] at hlength
      rw [List.length_nil] at hlength
      omega
    have hdeclared : declaredLength t.fields.headers = t.content.length := h.declared hcontent
    rw [parse, (parseFrom_of_head (by decide) hhead).1,
      behindHead_content hcontent (by rw [hdeclared]; omega), hdeclared]
    simp only
    split
    · rfl
    · rw [readContent, if_pos (by simp only; omega)]

/-- Before the end of the head nothing is decided but that there is no request. -/
theorem consume_ne_yes {state : State} (hstate : state ≠ .readingContent) {input : UInt8}
    (hend : ¬ (state = .expectingNewline3 ∧ input = chr '\n')) (req : Request) :
    (consume state req input []).result ≠ .yes := by
  cases state with
  | readingContent => exact absurd rfl hstate
  | expectingNewline3 =>
    have hinput : input ≠ chr '\n' := fun heq => hend ⟨rfl, heq⟩
    simp [consume, hinput]
  | _ =>
    simp only [consume]
    split_ifs <;> simp

/-- A request that is read has a head. -/
theorem isSome_head_of_yes {state : State} (hstate : state ≠ .readingContent) {req : Request}
    {buf : Bytes} (h : (parseFrom state req buf).result = .yes) :
    (headFrom state req buf).isSome := by
  induction buf generalizing state req with
  | nil => cases h
  | cons input buf ih =>
    unfold headFrom
    by_cases hend : state = .expectingNewline3 ∧ input = chr '\n'
    · rw [if_pos hend]
      rfl
    · rw [parseFrom_cons hstate] at h
      rw [if_neg hend, consume_eq hstate]
      simp only
      split_ifs at h ⊢ with hresult
      · exact ih (state_consume_ne hstate hend req []) h
      · exact absurd h (consume_ne_yes hstate hend req)

/-- The bytes of a text are tried one after the other. -/
theorem isToken_of_all {m : Bytes} (hne : m ≠ [])
    (h : (m.all fun c => decide (isRejected c = false)) = true) : IsToken m :=
  ⟨hne, List.all_iff_forall_prop.mp h⟩

/-- A request with content. -/
def postText : RequestText where
  method := str "POST"
  uri := str "/API/Interface"
  headers := [⟨str "Content-Length", str "2"⟩]
  content := str "{}"
  method_ok := isToken_of_all (by decide) (by decide)
  uri_ok := List.all_iff_forall_prop.mp (by decide)
  headers_ok := List.forall_mem_singleton.mpr
    ⟨isToken_of_all (by decide) (by decide), List.all_iff_forall_prop.mp (by decide)⟩

end Domoticz.RequestParser
