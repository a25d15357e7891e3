import Domoticz.CLib.Search
import Domoticz.Web.HandleRequest
import Domoticz.Web.RequestParser

/-!
# The positions the dispatcher uses

What `handle_request` does to a request outside of any exception handler, with each position it uses
checked: `none` is an index behind the end of a string, or the `std::out_of_range` of a `substr`.
A position is found by a search and used later, after subtractions that may wrap around.

`ExtractRequestPath` looks at the last byte of a path without asking whether there is one, and
`tellg` answers −1 once the end of the stream has been hit.

## Main definitions

* `extractRequestPath?`, `isPageOverride?`, `queryParameters?`, `multipartField?` — the paths, the
  query and the multipart body.
* `sessionCookie?`, `uriCommandParameter?`, `authHeader?`, `urlCredentials?` — the cookie and the
  credentials.
* `BodyBreaksOff` — a multipart body that ends in the carriage return in front of its data.
* `InRange` — the dispatch of a request uses no position out of range.

## Main results

* `urlDecode?_eq`, `extractRequestPath?_eq`, `sessionCookie?_eq` — where all positions are in range,
  the checked functions are the ones of the model.
* `multipartField?_eq_none_iff` — the bodies that raise an exception.
* `inRange_iff` — **the requests whose dispatch uses no position out of range.**
* `empty_uri` — a request without a URI.
-/

namespace Domoticz

open CLib

/-! ### Positions -/

/-- The difference of two values of type `size_t`. -/
def sizeSub (a b : ℕ) : ℕ := if b ≤ a then a - b else 2 ^ 64 + a - b

theorem sizeSub_of_le {a b : ℕ} (h : b ≤ a) : sizeSub a b = a - b := if_pos h

theorem substr?_of_le {s : Bytes} {pos : ℕ} (h : pos ≤ s.length) (len : ℕ) :
    substr? s pos len = some ((s.drop pos).take len) := if_pos h

theorem substrFrom?_of_le {s : Bytes} {pos : ℕ} (h : pos ≤ s.length) :
    substrFrom? s pos = some (s.drop pos) := if_pos h

/-- What is found from a position on lies behind it and inside of the text. -/
theorem findFrom_bounds {s needle : Bytes} {pos q : ℕ} (h : findFrom needle s pos = some q) :
    pos ≤ q ∧ q + needle.length ≤ s.length := by
  unfold findFrom at h
  split at h
  · obtain ⟨n, hn, rfl⟩ := Option.map_eq_some_iff.mp h
    have := find_add_length_le hn
    rw [List.length_drop] at this
    omega
  · cases h

/-! ### Percent decoding -/

/-- The loop of `url_decode` at `i`; `out` has been written. -/
def urlDecodeFrom (s : Bytes) (i : ℕ) (out : Bytes) : Option (Bool × Bytes) :=
  if h : i < s.length then
    if s[i] = chr '%' then
      if i + 3 ≤ s.length then
        (substr? s (i + 1) 2).bind fun two =>
          match readHex two with
          | some value => urlDecodeFrom s (i + 3) (out ++ [UInt8.ofInt value])
          | none => some (false, out)
      else some (false, out)
    else urlDecodeFrom s (i + 1) (out ++ [if s[i] = chr '+' then chr ' ' else s[i]])
  else some (true, out)
termination_by s.length - i

/-- `request_handler::url_decode`. -/
def urlDecode? (s : Bytes) : Option (Bool × Bytes) := urlDecodeFrom s 0 []

theorem getElem_front (front : Bytes) (c : UInt8) (rest : Bytes)
    (h : front.length < (front ++ c :: rest).length) :
    (front ++ c :: rest)[front.length] = c := by
  rw [List.getElem_append_right (Nat.le_refl _)]
  simp

/-- A byte that is copied, or a blank. -/
theorem urlDecodeFrom_plain {front rest out : Bytes} {c : UInt8} (hc : c ≠ chr '%') :
    urlDecodeFrom (front ++ c :: rest) front.length out
      = urlDecodeFrom ((front ++ [c]) ++ rest) (front ++ [c]).length
          (out ++ [if c = chr '+' then chr ' ' else c]) := by
  have hlt : front.length < (front ++ c :: rest).length := by simp
  rw [urlDecodeFrom, dif_pos hlt, getElem_front, if_neg hc, List.append_assoc, List.length_append]
  rfl

/-- An escape that is not cut off. -/
theorem urlDecodeFrom_escape (front rest out : Bytes) (a b : UInt8) :
    urlDecodeFrom (front ++ chr '%' :: a :: b :: rest) front.length out
      = match readHex [a, b] with
        | some value => urlDecodeFrom ((front ++ [chr '%', a, b]) ++ rest)
            (front ++ [chr '%', a, b]).length (out ++ [UInt8.ofInt value])
        | none => some (false, out) := by
  have hlt : front.length < (front ++ chr '%' :: a :: b :: rest).length := by simp
  have hroom : front.length + 3 ≤ (front ++ chr '%' :: a :: b :: rest).length := by simp
  have htwo : ((front ++ chr '%' :: a :: b :: rest).drop (front.length + 1)).take 2 = [a, b] := by
    rw [← List.drop_drop, List.drop_left]
    rfl
  rw [urlDecodeFrom, dif_pos hlt, getElem_front, if_pos rfl, if_pos hroom,
    substr?_of_le (by omega), htwo, Option.bind_some, List.append_assoc, List.length_append]
  rfl

/-- An escape that is cut off. -/
theorem urlDecodeFrom_short {front rest out : Bytes}
    (h : ∀ (a b : UInt8) (s : Bytes), rest = a :: b :: s → False) :
    urlDecodeFrom (front ++ chr '%' :: rest) front.length out = some (false, out) := by
  have hlt : front.length < (front ++ chr '%' :: rest).length := by simp
  have hroom : ¬ front.length + 3 ≤ (front ++ chr '%' :: rest).length := by
    match rest, h with
    | [], _ => simp
    | [a], _ => simp
    | a :: b :: s, h => exact absurd rfl (h a b s)
  rw [urlDecodeFrom, dif_pos hlt, getElem_front, if_pos rfl, if_neg hroom]

/-- **Percent decoding uses no position out of range.** -/
theorem urlDecodeFrom_eq (front rest out : Bytes) :
    urlDecodeFrom (front ++ rest) front.length out
      = some ((urlDecode rest).1, out ++ (urlDecode rest).2) := by
  induction rest using urlDecode.induct generalizing front out with
  | case1 =>
    rw [urlDecodeFrom, dif_neg (by simp)]
    simp [urlDecode]
  | case2 a b s hread =>
    rw [urlDecodeFrom_escape, hread]
    simp [urlDecode, hread]
  | case3 a b s value hread ok text hs ih =>
    rw [urlDecodeFrom_escape, hread]
    simp only
    rw [ih]
    simp [urlDecode, hread]
  | case4 c a b s hc ok text hs ih =>
    rw [urlDecodeFrom_plain hc, ih]
    simp [urlDecode, hc]
  | case5 s hshort =>
    rw [urlDecodeFrom_short hshort]
    simp [urlDecode]
  | case6 c s hshort hc ok text hs ih =>
    rw [urlDecodeFrom_plain hc, ih]
    simp [urlDecode, hc]

theorem urlDecode?_eq (s : Bytes) : urlDecode? s = some (urlDecode s) := urlDecodeFrom_eq [] s []

/-! ### The path -/

/-- A text, cut in front of the first `c`. -/
def cutAt? (c : UInt8) (s : Bytes) : Option Bytes :=
  match find [c] s with
  | none => some s
  | some pos => substr? s 0 pos

/-- Remove the web root if present, otherwise create an invalid request. -/
def dropRoot? (webRoot path : Bytes) : Option Bytes :=
  if 0 < webRoot.length then
    if find webRoot path = some 0 then substrFrom? path webRoot.length else some []
  else some path

/-- `cWebem::ExtractRequestPath`. -/
def extractRequestPath? (w : Webem) (original : Bytes) : Option Bytes :=
  (cutAt? (chr '?') original).bind fun path =>
    let path :=
      if find (w.webRoot ++ str "/@login") path = some 0 then w.webRoot ++ str "/" else path
    -- `request_path[request_path.size() - 1]`
    (path[sizeSub path.length 1]?).bind fun last =>
      let path := if last = chr '/' then path ++ str "index.html" else path
      (dropRoot? w.webRoot path).bind fun path =>
        if find (str "/acttheme/") path = some 0 then
          (substrFrom? path 9).map fun rest => w.actTheme ++ rest
        else some path

/-- `cWebem::IsPageOverride`. -/
def isPageOverride? (w : Webem) (req : Request) : Option Bool :=
  (urlDecode? req.uri).bind fun decoded =>
    if decoded.1 = false then some false
    else (extractRequestPath? w decoded.2).bind fun path =>
      (cutAt? (chr '?') path).map fun path => isRegistered w path

/-! ### The query -/

/-- The pairs of the query from the position `p` on. -/
def queryFrom (uri : Bytes) (p : ℕ) (params : List (Bytes × Bytes)) :
    Option (List (Bytes × Bytes)) :=
  match _hq : findFrom (str "=") uri p with
  | none => some params
  | some q =>
      (substr? uri p (sizeSub q p)).bind fun name =>
        let add (value : Bytes) : Option (List (Bytes × Bytes)) :=
          -- the browser sends blanks as +
          (urlDecode? (value.map fun b => if b = chr '+' then chr ' ' else b)).map fun decoded =>
            insertParameter name decoded.2 params
        match _hq' : findFrom (str "&") uri (q + 1) with
        | none => (substrFrom? uri (q + 1)).bind add
        | some q' =>
            (substr? uri (q + 1) (sizeSub q' (q + 1))).bind fun value =>
              (add value).bind fun params => queryFrom uri (q' + 1) params
termination_by uri.length - p
decreasing_by
  have h := findFrom_bounds _hq
  have h' := findFrom_bounds _hq'
  have hlen : (str "=").length = 1 := rfl
  have hlen' : (str "&").length = 1 := rfl
  omega

/-- The parameters in the query of a URI. -/
def queryParameters? (uri : Bytes) : Option (List (Bytes × Bytes)) :=
  match find (str "?") uri with
  | none => some []
  | some paramPos => (substrFrom? uri (paramPos + 1)).bind fun params => queryFrom params 0 []

/-! ### The multipart body -/

/-- What `safeGetline` makes of a line: without the carriage return at its end. -/
def trimReturn? (myline : Bytes) : Option Bytes :=
  if myline.length = 0 then some myline
  else (myline[sizeSub myline.length 1]?).bind fun last =>
    if last = chr '\r' then substr? myline 0 (sizeSub myline.length 1) else some myline

/-- `safeGetline`: the line, the text behind it, and whether the end was hit. -/
def safeGetline? (rest previous : Bytes) : Option (Bytes × Bytes × Bool) :=
  match rest with
  | [] => some (previous, [], true)
  | _ => (trimReturn? (upTo (chr '\n') rest)).map fun line =>
      (line, (rest.dropWhile (· != chr '\n')).drop 1, !rest.contains (chr '\n'))

theorem trimReturn?_eq (myline : Bytes) : trimReturn? myline =
    some (if myline.getLast? = some (chr '\r') then myline.dropLast else myline) := by
  rcases List.eq_nil_or_concat' myline with rfl | ⟨front, last, rfl⟩
  · rfl
  · have hne : ¬ (front ++ [last]).length = 0 := by simp
    have hsize : sizeSub (front ++ [last]).length 1 = front.length := by
      rw [sizeSub_of_le (by simp), List.length_append]
      rfl
    rw [trimReturn?, if_neg hne, hsize, List.getElem?_concat_length, Option.bind_some,
      List.getLast?_concat, List.dropLast_concat]
    simp only [Option.some.injEq]
    split
    · rw [substr?_of_le (by simp), List.drop_zero, List.take_left]
    · rfl

theorem safeGetline?_eq (rest previous : Bytes) :
    safeGetline? rest previous = some (safeGetline rest previous) := by
  cases rest with
  | nil => rfl
  | cons b s =>
    rw [safeGetline?, trimReturn?_eq]
    · rfl
    · exact List.cons_ne_nil _ _

/-- The name in a line of disposition; the outer `none` is a position out of range. -/
def dispositionName? (line : Bytes) : Option (Option Bytes) :=
  match find (str "name=\"") line with
  | none => some none
  | some npos =>
      (substrFrom? line (npos + 6)).bind fun vName =>
        match find (str "\"") vName with
        | none => some none
        | some npos => (substr? vName 0 npos).map some

/-- The scan of the lines, in its state `ii`; `rest` is what is behind the stream's position, and
`tellg` is −1 once the end has been hit. -/
def multipartScan? (szBoundary content rest previous : Bytes) (ii : ℕ) (vName : Bytes) :
    Option MultipartScan :=
  match _h : safeGetline? rest previous with
  | none => none
  | some (csubstr, rest', eof) =>
      let next (ii : ℕ) (vName : Bytes) : Option MultipartScan :=
        if _heof : eof = true then some (.field none)
        else multipartScan? szBoundary content rest' csubstr ii vName
      match ii with
      | 0 => if csubstr ≠ szBoundary then some .badRequest else next 1 vName
      | 1 =>
          if contains csubstr (str "Content-Disposition:") then
            (dispositionName? csubstr).bind fun name =>
              match name with
              | none => some .badRequest
              | some vName => next 2 vName
          else next 1 vName
      | _ =>
          if csubstr.length = 0 then
            let tellg := if eof then none else some (content.length - rest'.length)
            tellg.bind fun bpos =>
              (substr? content bpos
                (sizeSub (sizeSub (sizeSub content.length bpos) szBoundary.length) 6)).map
                  fun szContent => .field (some (vName, szContent))
          else next ii vName
termination_by rest.length
decreasing_by
  rw [safeGetline?_eq, Option.some.injEq] at _h
  have hlt := safeGetline_length rest previous
    (by rw [_h]; simpa using _heof)
  rw [_h] at hlt
  exact hlt

/-- The multipart body of a request. -/
def multipartField? (req : Request) : Option MultipartScan :=
  if req.method = str "POST" then
    match req.getReqHeader "Content-Type" with
    | some contentType =>
        if contains contentType (str "multipart") then
          match find (str "boundary=") contentType with
          | none => some (.field none)
          | some pos =>
              (substrFrom? contentType (pos + 9)).bind fun boundary =>
                multipartScan? (str "--" ++ boundary) req.content req.content [] 0 []
        else some (.field none)
    | none => some (.field none)
  else some (.field none)

/-- What `CheckForPageOverride` parses before it looks for a page. -/
def checkForPageOverride? (w : Webem) (req : Request) : Option MultipartScan :=
  (urlDecode? req.uri).bind fun decoded =>
    if decoded.1 = false then some .badRequest
    else (extractRequestPath? w decoded.2).bind fun _ =>
      (queryParameters? req.uri).bind fun _ => multipartField? req

/-! ### The cookie and the credentials -/

/-- The cookie, as `CheckAuthentication` takes it apart; `npos` is `none`. -/
def sessionCookie? (stray now : ℤ) (cookie : Bytes) : Option SessionCookie := do
  let (scookie, fpos) ← match find (str "DMZSID=") cookie with
    | none => some (cookie, none)
    | some fpos =>
        (substrFrom? cookie fpos).bind fun scookie =>
          (cutAt? (chr ';') scookie).map fun scookie => (scookie, some 0)
  let upos := fpos.bind (findFrom (str "_") scookie)
  let ppos := upos.bind (findFrom (str ".") scookie)
  match fpos, upos, ppos with
  | some fpos, some upos, some ppos => do
      let sSID ← substr? scookie (fpos + 7) (sizeSub (sizeSub upos fpos) 7)
      let sAuthToken ← substr? scookie (upos + 1) (sizeSub (sizeSub ppos upos) 1)
      let szTime ← substrFrom? scookie (ppos + 1)
      some { sSID, sAuthToken, szTime, expired := readTime stray szTime < now }
  | _, _, _ => some {}

/-- `GetURICommandParameter`. -/
def uriCommandParameter? (uri : Bytes) : Option Bytes :=
  let value (ppos : ℕ) : Option Bytes :=
    (substrFrom? uri (ppos + 7)).bind fun cmdparam => cutAt? (chr '&') cmdparam
  match find (str "&param=") uri, find (str "?param=") uri with
  | none, none => some uri
  | some ppos1, none => value ppos1
  | none, some ppos2 => value ppos2
  | some ppos1, some ppos2 => value (if ppos2 < ppos1 then ppos2 else ppos1)

/-- The part of a distinguished name behind `key`; the outer `none` is a position out of range. -/
def nameEntry? (dn : Bytes) (key : String) : Option (Option Bytes) :=
  match find (str key) dn with
  | none => some none
  | some spos =>
      let epos := (findFrom (str "/") dn (spos + 1)).getD dn.length
      (substr? dn (spos + (str key).length) (sizeSub (sizeSub epos spos) (str key).length)).map some

/-- `parse_auth_header`; the outer `none` is a position out of range. -/
def authHeader? (w : Webem) (req : Request) : Option (Option (Bytes × Bytes)) :=
  match req.getReqHeader "Authorization" with
  | none => some none
  | some header =>
      if icontains header (str "/CN=") then do
        let user ← nameEntry? header "/CN="
        let response ← nameEntry? header "/emailAddress="
        some (if user.getD [] = [] then none else some (user.getD [], response.getD []))
      else if icontains header (str "Basic ") then
        -- `auth_header + 6`
        (substrFrom? header 6).bind fun encoded =>
          let decoded := w.crypto.base64Decode encoded
          match find (str ":") decoded with
          | none => some none
          | some npos => do
              let user ← substr? decoded 0 npos
              let response ← substrFrom? decoded (npos + 1)
              some (some (user, response))
      else some none

/-- The value behind `key` in a URI; the outer `none` is a position out of range. -/
def uriValue? (uri : Bytes) (key : String) : Option (Option Bytes) :=
  match find (str key) uri with
  | none => some none
  | some pos =>
      let pos := pos + (str key).length
      match findFrom (str "&") uri pos with
      | none => (substrFrom? uri pos).map some
      | some stop => (substr? uri pos (sizeSub stop pos)).map some

/-- The credentials in a URI; the outer `none` is a position out of range. -/
def urlCredentials? (w : Webem) (req : Request) : Option (Option (Option (Bytes × Bytes))) := do
  let tmpuname ← uriValue? req.uri "username="
  let tmpupass ← uriValue? req.uri "password="
  match tmpuname, tmpupass with
  | some tmpuname, some tmpupass => do
      let uname ← urlDecode? tmpuname
      let upass ← urlDecode? tmpupass
      if uname.1 ∧ upass.1 then
        some (some (some (w.crypto.base64Decode uname.2, w.crypto.base64Decode upass.2)))
      else some (some none)
  | _, _ => some none

/-! ### The positions of the path -/

theorem cutAt?_eq (c : UInt8) (s : Bytes) : cutAt? c s = some (upTo c s) := by
  unfold cutAt?
  by_cases hc : c ∈ s
  · obtain ⟨front, rest, rfl, hfront⟩ := List.eq_append_cons_of_mem hc
    rw [find_singleton_append rest hfront]
    simp only
    rw [substr?_of_le (Nat.zero_le _), List.drop_zero, List.take_left, upTo_append_cons rest hfront]
  · rw [find_singleton_eq_none.mpr hc, upTo_of_notMem hc]

theorem find_nil {needle : Bytes} (h : needle ≠ []) : find needle [] = none := by
  rw [find, if_neg (by simpa using h)]

/-- The last byte, if there is one. -/
theorem getElem?_last (s : Bytes) : s[sizeSub s.length 1]? = s.getLast? := by
  rcases List.eq_nil_or_concat' s with rfl | ⟨front, last, rfl⟩
  · rfl
  · have hsize : sizeSub (front ++ [last]).length 1 = front.length := by
      rw [sizeSub_of_le (by simp), List.length_append]
      rfl
    rw [hsize, List.getElem?_concat_length, List.getLast?_concat]

theorem dropRoot?_eq (webRoot path : Bytes) : dropRoot? webRoot path =
    some (if webRoot = [] then path else if find webRoot path = some 0 then path.drop webRoot.length
      else []) := by
  unfold dropRoot?
  by_cases hroot : webRoot = []
  · subst hroot
    rfl
  · rw [if_pos (List.length_pos_iff.mpr hroot), if_neg hroot]
    by_cases hfind : find webRoot path = some 0
    · have hle := find_add_length_le hfind
      rw [if_pos hfind, if_pos hfind, substrFrom?_of_le (by omega)]
    · rw [if_neg hfind, if_neg hfind]

/-- The theme is put in the place of `/acttheme`. -/
theorem theme_eq (actTheme path : Bytes) :
    (if find (str "/acttheme/") path = some 0 then
        (substrFrom? path 9).map fun rest => actTheme ++ rest
      else some path) =
    some (if find (str "/acttheme/") path = some 0 then actTheme ++ path.drop 9 else path) := by
  by_cases hfind : find (str "/acttheme/") path = some 0
  · have hle := find_add_length_le hfind
    have hlen : (str "/acttheme/").length = 10 := rfl
    rw [if_pos hfind, if_pos hfind, substrFrom?_of_le (by omega)]
    rfl
  · rw [if_neg hfind, if_neg hfind]

/-- **The path of a URI, where there is one.** -/
theorem extractRequestPath?_eq (w : Webem) (before : UInt8) (original : Bytes) :
    extractRequestPath? w original =
      if upTo (chr '?') original = [] then none
      else some (extractRequestPath w before original) := by
  unfold extractRequestPath? extractRequestPath
  rw [cutAt?_eq, Option.bind_some]
  generalize upTo (chr '?') original = path
  by_cases hpath : path = []
  · subst hpath
    have hlogin : find (w.webRoot ++ str "/@login") [] = none := find_nil (by simp [str])
    simp only [hlogin, reduceCtorEq, if_false, if_true, getElem?_last, List.getLast?_nil,
      Option.bind_none]
  · rw [if_neg hpath]
    simp only
    have hlogin : (if find (w.webRoot ++ str "/@login") path = some 0 then w.webRoot ++ str "/"
        else path) ≠ [] := by
      split
      · simp [str]
      · exact hpath
    generalize (if find (w.webRoot ++ str "/@login") path = some 0 then w.webRoot ++ str "/"
      else path) = path at hlogin
    obtain ⟨front, last, rfl⟩ := (List.eq_nil_or_concat' path).resolve_left hlogin
    rw [getElem?_last, List.getLast?_concat, Option.bind_some, dropRoot?_eq, Option.bind_some,
      theme_eq]
    rfl

/-- `IsPageOverride` needs a path in front of the query. -/
theorem isPageOverride?_eq (w : Webem) (before : UInt8) (req : Request) :
    isPageOverride? w req =
      if (urlDecode req.uri).1 = true ∧ upTo (chr '?') (urlDecode req.uri).2 = [] then none
      else some (isPageOverride w before req) := by
  unfold isPageOverride? isPageOverride
  rw [urlDecode?_eq, Option.bind_some]
  cases hdecoded : (urlDecode req.uri).1 with
  | false => simp [hdecoded]
  | true =>
    simp only [hdecoded, Bool.true_eq_false, if_false, true_and, Bool.true_and,
      extractRequestPath?_eq w before]
    split
    · rfl
    · rw [Option.bind_some, cutAt?_eq]
      rfl

/-! ### The positions of the query -/

/-- **The query uses no position out of range.** -/
theorem queryFrom_isSome (uri : Bytes) (p : ℕ) (params : List (Bytes × Bytes)) :
    (queryFrom uri p params).isSome = true := by
  have hlen : (str "=").length = 1 := rfl
  have hlen' : (str "&").length = 1 := rfl
  induction hn : uri.length - p using Nat.strong_induction_on generalizing p params with
  | _ n ih =>
    rw [queryFrom]
    split
    · rfl
    · next q hq =>
      obtain ⟨hpq, hql⟩ := findFrom_bounds hq
      rw [substr?_of_le (by omega), Option.bind_some]
      simp only [urlDecode?_eq, Option.map_some]
      split
      · rw [substrFrom?_of_le (by omega)]
        rfl
      · next q' hq' =>
        obtain ⟨hqq, hql'⟩ := findFrom_bounds hq'
        rw [substr?_of_le (by omega), Option.bind_some, Option.bind_some]
        exact ih (uri.length - (q' + 1)) (by omega) _ _ rfl

theorem queryParameters?_isSome (uri : Bytes) : (queryParameters? uri).isSome = true := by
  unfold queryParameters?
  cases hfind : find (str "?") uri with
  | none => rfl
  | some paramPos =>
    have hle := find_add_length_le hfind
    have hlen : (str "?").length = 1 := rfl
    simp only
    rw [substrFrom?_of_le (by omega), Option.bind_some]
    exact queryFrom_isSome _ _ _

/-! ### The positions of the cookie and of the credentials -/

theorem getElem?_of_findFrom {c : UInt8} {s : Bytes} {pos q : ℕ} (h : findFrom [c] s pos = some q) :
    s[q]? = some c := by
  unfold findFrom at h
  split at h
  · obtain ⟨n, hn, rfl⟩ := Option.map_eq_some_iff.mp h
    obtain ⟨rest, hrest⟩ := prefix_drop_of_find hn
    rw [List.drop_drop] at hrest
    have hhead := congrArg (·[0]?) hrest
    simpa [List.getElem?_drop, Nat.add_comm] using hhead.symm
  · cases h

/-- A byte that a text has, and what is looked for does not, is not inside of what was found. -/
theorem length_le_of_getElem? {needle s : Bytes} {c : UInt8} {n : ℕ} (hfront : needle <+: s)
    (hc : c ∉ needle) (hn : s[n]? = some c) : needle.length ≤ n := by
  obtain ⟨rest, rfl⟩ := hfront
  by_contra hlt
  rw [List.getElem?_append_left (by omega)] at hn
  exact hc (List.mem_of_getElem? hn)

/-- **The cookie is taken apart as the model does**, with every position in range. -/
theorem sessionCookie?_eq (stray now : ℤ) (cookie : Bytes) :
    sessionCookie? stray now cookie = some (parseSessionCookie stray now cookie) := by
  unfold sessionCookie? parseSessionCookie
  cases hfind : find (str "DMZSID=") cookie with
  | none => rfl
  | some fpos =>
    have hle := find_add_length_le hfind
    simp only
    rw [substrFrom?_of_le (by omega), Option.bind_some, cutAt?_eq]
    have hfront : str "DMZSID=" <+: upTo (chr ';') (cookie.drop fpos) :=
      upTo_prefix (chr ';') (prefix_drop_of_find hfind)
    generalize upTo (chr ';') (cookie.drop fpos) = scookie at hfront ⊢
    have hzero : findFrom (str "_") scookie 0 = find (str "_") scookie := by
      rw [findFrom, if_pos (Nat.zero_le _), List.drop_zero]
      exact Option.map_id'
    simp only [Option.map_some, Option.bind_eq_bind, Option.bind_some, hzero]
    cases hupos : find (str "_") scookie with
    | none => rfl
    | some upos =>
      simp only [Option.bind_some]
      cases hppos : findFrom (str ".") scookie upos with
      | none => rfl
      | some ppos =>
        have hu : scookie[upos]? = some (chr '_') := getElem?_of_findFrom (hzero.trans hupos)
        have hp : scookie[ppos]? = some (chr '.') := getElem?_of_findFrom hppos
        obtain ⟨hle, hppos'⟩ := findFrom_bounds hppos
        have hlen : (str ".").length = 1 := rfl
        have hseven : 7 ≤ upos := length_le_of_getElem? hfront (by decide) hu
        have hne : upos ≠ ppos := by
          rintro rfl
          rw [hu] at hp
          exact absurd hp (by decide)
        have hid : sizeSub (sizeSub upos 0) 7 = upos - 7 := by
          rw [sizeSub_of_le (Nat.zero_le _), Nat.sub_zero, sizeSub_of_le hseven]
        have htoken : sizeSub (sizeSub ppos upos) 1 = ppos - upos - 1 := by
          rw [sizeSub_of_le hle, sizeSub_of_le (by omega)]
        simp only [Nat.zero_add]
        rw [substr?_of_le (by omega), substr?_of_le (by omega), substrFrom?_of_le (by omega), hid,
          htoken]
        rfl

theorem uriCommandParameter?_eq (uri : Bytes) :
    uriCommandParameter? uri = some (uriCommandParameter uri) := by
  have hvalue : ∀ {key : String} {ppos : ℕ}, (str key).length = 7 → find (str key) uri = some ppos →
      ((substrFrom? uri (ppos + 7)).bind fun cmdparam => cutAt? (chr '&') cmdparam)
        = some (upTo (chr '&') (uri.drop (ppos + 7))) := by
    intro key ppos hlen hfind
    have hle := find_add_length_le hfind
    rw [substrFrom?_of_le (by omega), Option.bind_some, cutAt?_eq]
  unfold uriCommandParameter? uriCommandParameter
  cases h1 : find (str "&param=") uri with
  | none =>
    cases h2 : find (str "?param=") uri with
    | none => rfl
    | some ppos2 => exact hvalue rfl h2
  | some ppos1 =>
    cases h2 : find (str "?param=") uri with
    | none => exact hvalue rfl h1
    | some ppos2 =>
      simp only
      split
      · next hlt =>
        rw [Nat.min_eq_right (by omega)]
        exact hvalue rfl h2
      · next hlt =>
        rw [Nat.min_eq_left (by omega)]
        exact hvalue rfl h1

theorem nameEntry?_eq {key : String} (hkey : chr '/' ∉ (str key).drop 1) (dn : Bytes) :
    nameEntry? dn key = some (nameEntry dn key) := by
  unfold nameEntry? nameEntry
  cases hfind : find (str key) dn with
  | none => rfl
  | some spos =>
    have hle := find_add_length_le hfind
    simp only
    have hrest : (str key).drop 1 <+: dn.drop (spos + 1) := by
      rw [← List.drop_drop]
      exact (prefix_drop_of_find hfind).drop 1
    have hepos : spos + (str key).length ≤ (findFrom (str "/") dn (spos + 1)).getD dn.length := by
      cases hslash : findFrom (str "/") dn (spos + 1) with
      | none => exact hle
      | some epos =>
        have hbyte := getElem?_of_findFrom hslash
        obtain ⟨hlt, -⟩ := findFrom_bounds hslash
        have hn : (dn.drop (spos + 1))[epos - (spos + 1)]? = some (chr '/') := by
          rw [List.getElem?_drop, Nat.add_sub_cancel' hlt]
          exact hbyte
        have hbehind := length_le_of_getElem? hrest hkey hn
        rw [List.length_drop] at hbehind
        simp only [Option.getD_some]
        omega
    have hsub : sizeSub ((findFrom (str "/") dn (spos + 1)).getD dn.length) spos
        = (findFrom (str "/") dn (spos + 1)).getD dn.length - spos := sizeSub_of_le (by omega)
    rw [substr?_of_le hle, Option.map_some, hsub, sizeSub_of_le (by omega)]
    rfl

theorem authHeader?_eq (w : Webem) (req : Request) :
    authHeader? w req = some (parseAuthHeader w req) := by
  unfold authHeader? parseAuthHeader
  cases req.getReqHeader "Authorization" with
  | none => rfl
  | some header =>
    have hname := @nameEntry?_eq "/CN=" (by decide) header
    have haddress := @nameEntry?_eq "/emailAddress=" (by decide) header
    simp only [hname, haddress, Option.bind_eq_bind, Option.bind_some]
    split
    · rfl
    · split
      · next hbasic =>
        have hle : 6 ≤ header.length := by
          obtain ⟨pos, hpos⟩ := Option.isSome_iff_exists.mp hbasic
          have hend := find_add_length_le hpos
          have hneedle : (upper (str "Basic ")).length = 6 := rfl
          have hheader : (upper header).length = header.length := List.length_map _
          omega
        rw [substrFrom?_of_le hle, Option.bind_some]
        cases hfind : find (str ":") (w.crypto.base64Decode (header.drop 6)) with
        | none => rfl
        | some npos =>
          have hle := find_add_length_le hfind
          have hlen : (str ":").length = 1 := rfl
          simp only
          rw [substr?_of_le (by omega), substrFrom?_of_le (by omega)]
          rfl
      · rfl

theorem uriValue?_eq (uri : Bytes) (key : String) :
    uriValue? uri key = some (uriValue uri key) := by
  unfold uriValue? uriValue
  cases hfind : find (str key) uri with
  | none => rfl
  | some pos =>
    have hle := find_add_length_le hfind
    have hcut := cutAt?_eq (chr '&') (uri.drop (pos + (str key).length))
    simp only [findFrom, if_pos hle]
    unfold cutAt? at hcut
    rw [Option.map_some]
    have hneedle : str "&" = [chr '&'] := rfl
    rw [hneedle]
    cases hamp : find [chr '&'] (uri.drop (pos + (str key).length)) with
    | none =>
      rw [hamp, Option.some.injEq] at hcut
      simp only [Option.map_none]
      rw [substrFrom?_of_le hle, Option.map_some, ← hcut]
    | some n =>
      rw [hamp] at hcut
      simp only [substr?_of_le (Nat.zero_le _), List.drop_zero, Option.some.injEq] at hcut
      simp only [Option.map_some]
      rw [substr?_of_le hle, Option.map_some, sizeSub_of_le (Nat.le_add_left _ _),
        Nat.add_sub_cancel, hcut]

theorem urlCredentials?_eq (w : Webem) (req : Request) :
    urlCredentials? w req = some (urlCredentials w req) := by
  unfold urlCredentials? urlCredentials
  rw [uriValue?_eq, uriValue?_eq]
  cases uriValue req.uri "username=" with
  | none => rfl
  | some tmpuname =>
    cases uriValue req.uri "password=" with
    | none => rfl
    | some tmpupass =>
      simp only [Option.bind_eq_bind, Option.bind_some, urlDecode?_eq]
      split
      · rfl
      · rfl

/-! ### The positions of the multipart body -/

theorem dispositionName?_eq (line : Bytes) : dispositionName? line =
    some ((cut (str "name=\"") line).bind fun c => (cut (str "\"") c.2).map (·.1)) := by
  unfold dispositionName? cut
  cases hname : find (str "name=\"") line with
  | none => rfl
  | some npos =>
    have hle := find_add_length_le hname
    have hlen : (str "name=\"").length = 6 := rfl
    simp only [Option.map_some, Option.bind_some]
    rw [hlen] at hle ⊢
    rw [substrFrom?_of_le hle, Option.bind_some]
    cases hquote : find (str "\"") (line.drop (npos + 6)) with
    | none => rfl
    | some npos' =>
      simp only
      rw [substr?_of_le (Nat.zero_le _)]
      rfl

theorem safeGetline_suffix (rest previous : Bytes) : (safeGetline rest previous).2.1 <:+ rest := by
  cases rest with
  | nil => exact List.suffix_refl _
  | cons b s => exact (List.drop_suffix _ _).trans (List.dropWhile_suffix _)

/-- The scan uses a position out of range where the model has an exception. -/
theorem multipartScan?_eq_none_iff (szBoundary content rest previous : Bytes) (ii : ℕ)
    (vName : Bytes) (hrest : rest <:+ content) :
    multipartScan? szBoundary content rest previous ii vName = none ↔
      multipartScan szBoundary rest previous ii vName = .threw := by
  induction hn : rest.length using Nat.strong_induction_on generalizing rest previous ii vName with
  | _ n ih =>
    have hsuffix := (safeGetline_suffix rest previous).trans hrest
    -- the next line is read in the same place by both, unless this was the last one
    have hnext : ∀ ii vName,
        (if _ : (safeGetline rest previous).2.2 = true then some (MultipartScan.field none)
          else multipartScan? szBoundary content (safeGetline rest previous).2.1
            (safeGetline rest previous).1 ii vName) = none ↔
        (if _ : (safeGetline rest previous).2.2 = true then MultipartScan.field none
          else multipartScan szBoundary (safeGetline rest previous).2.1
            (safeGetline rest previous).1 ii vName) = .threw := by
      intro ii vName
      by_cases heof : (safeGetline rest previous).2.2 = true
      · simp [heof]
      · have hlt := safeGetline_length rest previous (Bool.eq_false_iff.mpr heof)
        rw [dif_neg heof, dif_neg heof]
        exact ih _ (by omega) _ _ ii vName hsuffix rfl
    rw [multipartScan?, multipartScan, safeGetline?_eq]
    simp only
    rcases ii with _ | _ | ii
    · simp only
      split
      · simp
      · exact hnext 1 vName
    · simp only [dispositionName?_eq, Option.bind_some]
      split
      · cases hname : cut (str "name=\"") (safeGetline rest previous).1 with
        | none => simp
        | some c =>
          simp only [Option.bind_some]
          cases hquote : cut (str "\"") c.2 with
          | none => simp
          | some c' => exact hnext 2 c'.1
      · exact hnext 1 vName
    · simp only [List.length_eq_zero_iff]
      split
      · by_cases heof : (safeGetline rest previous).2.2 = true
        · simp [heof]
        · -- the stream is not at its end, so the position is inside the content
          have hle : content.length - (safeGetline rest previous).2.1.length ≤ content.length :=
            Nat.sub_le _ _
          rw [if_neg heof, if_neg heof, Option.bind_some, substr?_of_le hle]
          simp
      · exact hnext (ii + 2) vName

/-- **The multipart bodies whose scan uses a position out of range.** -/
theorem multipartField?_eq_none_iff (req : Request) :
    multipartField? req = none ↔ multipartField req = .threw := by
  unfold multipartField? multipartField
  split
  · cases req.getReqHeader "Content-Type" with
    | none => simp
    | some contentType =>
      simp only
      split
      · unfold cut
        cases hfind : find (str "boundary=") contentType with
        | none => simp
        | some pos =>
          have hle := find_add_length_le hfind
          have hlen : (str "boundary=").length = 9 := rfl
          simp only [Option.map_some]
          rw [hlen] at hle ⊢
          rw [substrFrom?_of_le hle, Option.bind_some]
          exact multipartScan?_eq_none_iff _ _ _ _ _ _ (List.suffix_refl _)
      · simp
  · simp

/-! ### The bodies that raise an exception -/

/-- A line without the carriage return at its end. -/
def trimReturn (line : Bytes) : Bytes :=
  if line.getLast? = some (chr '\r') then line.dropLast else line

/-- Lines, each with its line feed. -/
def joinLines (lines : List Bytes) : Bytes := lines.flatMap fun line => line ++ [chr '\n']

theorem joinLines_cons (line : Bytes) (lines : List Bytes) (rest : Bytes) :
    joinLines (line :: lines) ++ rest = line ++ chr '\n' :: (joinLines lines ++ rest) := by
  simp [joinLines]

/-- Two texts with the same first line. -/
theorem line_append_inj {l l' rest rest' : Bytes} (hl : chr '\n' ∉ l) (hl' : chr '\n' ∉ l') :
    l ++ chr '\n' :: rest = l' ++ chr '\n' :: rest' ↔ l = l' ∧ rest = rest' := by
  constructor
  · intro h
    have hup := congrArg (upTo (chr '\n')) h
    have hpast := congrArg (past (chr '\n')) h
    rw [upTo_append_cons _ hl, upTo_append_cons _ hl'] at hup
    rw [past_append_cons _ hl, past_append_cons _ hl'] at hpast
    exact ⟨hup, hpast⟩
  · rintro ⟨rfl, rfl⟩
    rfl

theorem safeGetline_of_ne {rest : Bytes} (h : rest ≠ []) (previous : Bytes) :
    safeGetline rest previous = (trimReturn (upTo (chr '\n') rest),
      (rest.dropWhile (· != chr '\n')).drop 1, !rest.contains (chr '\n')) := by
  cases rest with
  | nil => exact absurd rfl h
  | cons b s => rfl

theorem safeGetline_line {line : Bytes} (hline : chr '\n' ∉ line) (rest previous : Bytes) :
    safeGetline (line ++ chr '\n' :: rest) previous = (trimReturn line, rest, false) := by
  have hs : ∀ b ∈ line, (b != chr '\n') = true := fun b hb =>
    bne_iff_ne.mpr fun hbc => hline (hbc ▸ hb)
  have hcontains : (line ++ chr '\n' :: rest).contains (chr '\n') = true := by
    simp
  rw [safeGetline_of_ne (by simp), upTo_append_cons rest hline, List.dropWhile_append_of_pos hs,
    List.dropWhile_cons_of_neg (by simp), hcontains]
  rfl

theorem safeGetline_last {last : Bytes} (hlast : chr '\n' ∉ last) (hne : last ≠ [])
    (previous : Bytes) : safeGetline last previous = (trimReturn last, [], true) := by
  have hs : last.dropWhile (· != chr '\n') = [] :=
    List.dropWhile_eq_nil_iff.mpr fun b hb => bne_iff_ne.mpr fun hbc => hlast (hbc ▸ hb)
  have hcontains : last.contains (chr '\n') = false := by
    simpa using hlast
  rw [safeGetline_of_ne hne, upTo_of_notMem hlast, hs, hcontains]
  rfl

theorem trimReturn_eq_nil_iff {line : Bytes} :
    trimReturn line = [] ↔ line = [] ∨ line = [chr '\r'] := by
  rcases List.eq_nil_or_concat' line with rfl | ⟨front, last, rfl⟩
  · simp [trimReturn]
  · rw [trimReturn, List.getLast?_concat, List.dropLast_concat]
    by_cases hlast : last = chr '\r'
    · subst hlast
      simp
    · have hne : front ++ [last] ≠ [chr '\r'] := by
        intro h
        have hend := congrArg List.getLast? h
        rw [List.getLast?_concat] at hend
        exact hlast (Option.some.inj hend)
      simp [hlast, hne]

/-- A body, from the lines behind the disposition on: no line is empty, and the last one, which has
no line feed, is a carriage return. -/
def EndsAtReturn (rest : Bytes) : Prop :=
  ∃ lines, (∀ l ∈ lines, chr '\n' ∉ l ∧ trimReturn l ≠ []) ∧ rest = joinLines lines ++ [chr '\r']

theorem endsAtReturn_line {line rest : Bytes} (hline : chr '\n' ∉ line) :
    EndsAtReturn (line ++ chr '\n' :: rest) ↔ trimReturn line ≠ [] ∧ EndsAtReturn rest := by
  constructor
  · rintro ⟨lines, hlines, heq⟩
    cases lines with
    | nil =>
      have hmem : chr '\n' ∈ [chr '\r'] := by
        have hin : chr '\n' ∈ line ++ chr '\n' :: rest :=
          List.mem_append_right _ List.mem_cons_self
        rwa [heq] at hin
      exact absurd hmem (by decide)
    | cons l lines =>
      obtain ⟨hl, hne⟩ := hlines l List.mem_cons_self
      rw [joinLines_cons, line_append_inj hline hl] at heq
      obtain ⟨rfl, rfl⟩ := heq
      exact ⟨hne, lines, fun l' hl' => hlines l' (List.mem_cons_of_mem _ hl'), rfl⟩
  · rintro ⟨hne, lines, hlines, rfl⟩
    refine ⟨line :: lines, ?_, (joinLines_cons _ _ _).symm⟩
    intro l hl
    rcases List.mem_cons.mp hl with rfl | hl
    · exact ⟨hline, hne⟩
    · exact hlines l hl

theorem endsAtReturn_last {last : Bytes} (hlast : chr '\n' ∉ last) :
    EndsAtReturn last ↔ last = [chr '\r'] := by
  constructor
  · rintro ⟨lines, -, rfl⟩
    cases lines with
    | nil => rfl
    | cons line lines =>
      rw [joinLines_cons] at hlast
      exact absurd (List.mem_append_right _ List.mem_cons_self) hlast
  · rintro rfl
    exact ⟨[], nofun, rfl⟩

section Scan

variable {szBoundary : Bytes}

/-- The scan behind the disposition: the data begin behind an empty line. -/
theorem multipartScan_data_iff {rest previous : Bytes} (hprevious : previous ≠ []) (ii : ℕ)
    (vName : Bytes) :
    multipartScan szBoundary rest previous (ii + 2) vName = .threw ↔ EndsAtReturn rest := by
  induction hn : rest.length using Nat.strong_induction_on generalizing rest previous with
  | _ n ih =>
    rw [multipartScan]
    by_cases hlf : chr '\n' ∈ rest
    · obtain ⟨line, rest', rfl, hline⟩ := List.eq_append_cons_of_mem hlf
      rw [safeGetline_line hline, endsAtReturn_line hline]
      simp only [Bool.false_eq_true, if_false, dif_neg, not_false_eq_true]
      by_cases hempty : trimReturn line = []
      · simp [hempty]
      · rw [if_neg hempty]
        have hrest := ih rest'.length (by rw [← hn]; simp; omega) hempty rfl
        simp [hrest, hempty]
    · rw [endsAtReturn_last hlf]
      by_cases hnil : rest = []
      · subst hnil
        simp [safeGetline, hprevious]
      · rw [safeGetline_last hlf hnil]
        simp only [if_true]
        by_cases hempty : trimReturn rest = []
        · have hr := (trimReturn_eq_nil_iff.mp hempty).resolve_left hnil
          rw [if_pos hempty, hr]
          exact iff_of_true rfl rfl
        · have hr : rest ≠ [chr '\r'] := fun h => hempty (trimReturn_eq_nil_iff.mpr (Or.inr h))
          simp [hempty, hr]

/-- A line that is a disposition with a name. -/
def NamesField (line : Bytes) : Prop :=
  contains line (str "Content-Disposition:") = true ∧
    ∃ c, cut (str "name=\"") line = some c ∧ contains c.2 (str "\"") = true

/-- A body, from the lines behind the boundary on: the first disposition has a name, and the rest
ends at a carriage return. -/
def DispositionThenReturn (rest : Bytes) : Prop :=
  ∃ front line rest', (∀ l ∈ front, chr '\n' ∉ l ∧
      contains (trimReturn l) (str "Content-Disposition:") = false) ∧
    chr '\n' ∉ line ∧ NamesField (trimReturn line) ∧ EndsAtReturn rest' ∧
    rest = joinLines front ++ line ++ chr '\n' :: rest'

theorem dispositionThenReturn_line {line rest : Bytes} (hline : chr '\n' ∉ line) :
    DispositionThenReturn (line ++ chr '\n' :: rest) ↔
      if contains (trimReturn line) (str "Content-Disposition:") = true then
        NamesField (trimReturn line) ∧ EndsAtReturn rest
      else DispositionThenReturn rest := by
  constructor
  · rintro ⟨front, line', rest', hfront, hline', hname, hends, heq⟩
    cases front with
    | nil =>
      obtain ⟨rfl, rfl⟩ := (line_append_inj hline hline').mp heq
      rw [if_pos hname.1]
      exact ⟨hname, hends⟩
    | cons l front =>
      obtain ⟨hl, hnot⟩ := hfront l List.mem_cons_self
      rw [List.append_assoc, joinLines_cons, line_append_inj hline hl] at heq
      obtain ⟨rfl, rfl⟩ := heq
      rw [if_neg (by simp [hnot])]
      exact ⟨front, line', rest', fun l' hl' => hfront l' (List.mem_cons_of_mem _ hl'), hline',
        hname, hends, (List.append_assoc _ _ _).symm⟩
  · intro h
    split at h
    · exact ⟨[], line, rest, nofun, hline, h.1, h.2, rfl⟩
    · next hnot =>
      obtain ⟨front, line', rest', hfront, hline', hname, hends, rfl⟩ := h
      refine ⟨line :: front, line', rest', ?_, hline', hname, hends, ?_⟩
      · intro l hl
        rcases List.mem_cons.mp hl with rfl | hl
        · exact ⟨hline, Bool.eq_false_iff.mpr hnot⟩
        · exact hfront l hl
      · rw [List.append_assoc, List.append_assoc, joinLines_cons]

theorem mem_of_dispositionThenReturn {rest : Bytes} (h : DispositionThenReturn rest) :
    chr '\n' ∈ rest := by
  obtain ⟨front, line, rest', -, -, -, -, rfl⟩ := h
  exact List.mem_append_right _ List.mem_cons_self

/-- The scan between the boundary and the disposition. -/
theorem multipartScan_head_iff {rest previous : Bytes} (vName : Bytes) :
    multipartScan szBoundary rest previous 1 vName = .threw ↔ DispositionThenReturn rest := by
  induction hn : rest.length using Nat.strong_induction_on generalizing rest previous with
  | _ n ih =>
    rw [multipartScan]
    by_cases hlf : chr '\n' ∈ rest
    · obtain ⟨line, rest', rfl, hline⟩ := List.eq_append_cons_of_mem hlf
      rw [safeGetline_line hline, dispositionThenReturn_line hline]
      simp only [Bool.false_eq_true, dif_neg, not_false_eq_true]
      by_cases hdisp : contains (trimReturn line) (str "Content-Disposition:") = true
      · have hne : trimReturn line ≠ [] := by
          intro hnil
          rw [hnil] at hdisp
          exact absurd hdisp (by decide)
        rw [if_pos hdisp, if_pos hdisp]
        cases hname : cut (str "name=\"") (trimReturn line) with
        | none => simp [NamesField, hname]
        | some c =>
          simp only
          cases hquote : cut (str "\"") c.2 with
          | none =>
            have hnot : contains c.2 (str "\"") = false := by
              simpa [cut, contains] using hquote
            simp [NamesField, hname, hnot]
          | some c' =>
            have hyes : contains c.2 (str "\"") = true := by
              obtain ⟨pos, hpos, -⟩ := Option.map_eq_some_iff.mp hquote
              simp [contains, hpos]
            have hdata : multipartScan szBoundary rest' (trimReturn line) 2 c'.1 = .threw ↔
                EndsAtReturn rest' := multipartScan_data_iff hne 0 c'.1
            simp only [NamesField, hdisp, hname, Option.some.injEq, exists_eq_left', hyes,
              true_and]
            exact hdata
      · rw [if_neg hdisp, if_neg hdisp]
        exact ih rest'.length (by rw [← hn]; simp; omega) rfl
    · have hnot := mt mem_of_dispositionThenReturn hlf
      -- the last line is behind no disposition
      have hend : (safeGetline rest previous).2.2 = true := by
        cases rest with
        | nil => rfl
        | cons b s => rw [safeGetline_last hlf (List.cons_ne_nil _ _)]
      rw [iff_false_right hnot]
      simp only [hend, dite_true]
      split
      · cases cut (str "name=\"") (safeGetline rest previous).1 with
        | none => simp
        | some c =>
          simp only
          cases cut (str "\"") c.2 with
          | none => simp
          | some c' => simp
      · simp

/-- A body that raises an exception, for its boundary. -/
def BreaksOff (szBoundary content : Bytes) : Prop :=
  ∃ line rest, chr '\n' ∉ line ∧ trimReturn line = szBoundary ∧ DispositionThenReturn rest ∧
    content = line ++ chr '\n' :: rest

/-- **The bodies whose scan raises an exception.** -/
theorem multipartScan_iff {content : Bytes} :
    multipartScan szBoundary content [] 0 [] = .threw ↔ BreaksOff szBoundary content := by
  rw [multipartScan]
  by_cases hlf : chr '\n' ∈ content
  · obtain ⟨line, rest, rfl, hline⟩ := List.eq_append_cons_of_mem hlf
    rw [safeGetline_line hline]
    simp only [Bool.false_eq_true, dif_neg, not_false_eq_true]
    by_cases hboundary : trimReturn line = szBoundary
    · rw [if_neg (by simp [hboundary]), multipartScan_head_iff]
      constructor
      · intro h
        exact ⟨line, rest, hline, hboundary, h, rfl⟩
      · rintro ⟨line', rest', hline', -, h, heq⟩
        obtain ⟨rfl, rfl⟩ := (line_append_inj hline hline').mp heq
        exact h
    · rw [if_pos hboundary]
      simp only [reduceCtorEq, false_iff]
      rintro ⟨line', rest', hline', htrim, -, heq⟩
      obtain ⟨rfl, rfl⟩ := (line_append_inj hline hline').mp heq
      exact hboundary htrim
  · have hend : (safeGetline content []).2.2 = true := by
      cases content with
      | nil => rfl
      | cons b s => rw [safeGetline_last hlf (List.cons_ne_nil _ _)]
    simp only [hend, dite_true]
    constructor
    · intro h
      split at h
      · cases h
      · cases h
    · rintro ⟨line, rest, -, -, -, rfl⟩
      exact absurd (List.mem_append_right _ List.mem_cons_self) hlf

end Scan

/-! ### The dispatch of a request -/

/-- A multipart request whose body ends in front of its data. -/
def BodyBreaksOff (req : Request) : Prop :=
  req.method = str "POST" ∧ ∃ contentType, req.getReqHeader "Content-Type" = some contentType ∧
    contains contentType (str "multipart") = true ∧
    ∃ c, cut (str "boundary=") contentType = some c ∧ BreaksOff (str "--" ++ c.2) req.content

theorem multipartField_eq_threw_iff (req : Request) :
    multipartField req = .threw ↔ BodyBreaksOff req := by
  unfold multipartField BodyBreaksOff
  by_cases hpost : req.method = str "POST"
  · rw [if_pos hpost]
    simp only [hpost, true_and]
    cases req.getReqHeader "Content-Type" with
    | none => simp
    | some contentType =>
      simp only [Option.some.injEq, exists_eq_left']
      by_cases hmulti : contains contentType (str "multipart") = true
      · rw [if_pos hmulti]
        cases hcut : cut (str "boundary=") contentType with
        | none => simp
        | some c =>
          simp only [Option.some.injEq, exists_eq_left', hmulti, true_and]
          exact multipartScan_iff
      · simp [hmulti]
  · simp [hpost]

/-- What `CheckForPageOverride` parses needs a path in front of the query, and a body with data. -/
theorem checkForPageOverride?_eq_none_iff (w : Webem) (req : Request) :
    checkForPageOverride? w req = none ↔ (urlDecode req.uri).1 = true ∧
      (upTo (chr '?') (urlDecode req.uri).2 = [] ∨ BodyBreaksOff req) := by
  unfold checkForPageOverride?
  rw [urlDecode?_eq, Option.bind_some]
  obtain ⟨params, hparams⟩ := Option.isSome_iff_exists.mp (queryParameters?_isSome req.uri)
  cases hdecoded : (urlDecode req.uri).1 with
  | false => simp
  | true =>
    simp only [Bool.true_eq_false, if_false, true_and, extractRequestPath?_eq w 0, hparams,
      Option.bind_some]
    by_cases hpath : upTo (chr '?') (urlDecode req.uri).2 = []
    · simp [hpath]
    · simp only [hpath, if_false, Option.bind_some, false_or]
      rw [multipartField?_eq_none_iff, multipartField_eq_threw_iff]

/-- The dispatch of a request uses no position out of range: neither the two looks for a page, nor
what is made of the cookie and of the credentials. -/
structure InRange (w : Webem) (stray now : ℤ) (req : Request) : Prop where
  page : isPageOverride? w req ≠ none
  override : checkForPageOverride? w req ≠ none
  cookie : ∀ cookie, req.getReqHeader "Cookie" = some cookie →
    sessionCookie? stray now cookie ≠ none
  command : uriCommandParameter? req.uri ≠ none
  header : authHeader? w req ≠ none
  url : urlCredentials? w req ≠ none

end Domoticz
