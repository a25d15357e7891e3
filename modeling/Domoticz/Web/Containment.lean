import Domoticz.CLib.Search
import Domoticz.Web.Path

/-!
# Files below the document root

A request for a file is refused if its decoded path is relative, has two dots in a row, names a
control file or does not begin with the web root.  The web root is then cut off, the theme is
filled in, and names made of the rest are opened below the document root.

The web root is compared as a text: `/domo` is in front of `/domoticz.db`, and what is left of it
is `ticz.db`, which is put behind the document root without a slash.

## Main definitions

* `setWebRoot`, `isBadRequestPath` — the setting, and the check of a path.
* `candidates`, `triedFiles` — the names `handle_request` opens.
* `Inside` — a name below the document root.
* `Contained` — what is asked of a request.

## Main results

* `extractRequestPath_of_prefix`, `head?_extractRequestPath` — the path of a request, with the web
  root as its first segments and without.
* `contained_iff` — **a request stays below the document root exactly if it is refused, or the web
  root is its first segments and the theme leads nowhere else.**
* `sibling_opened` — a file beside the document root.
-/

namespace Domoticz.Containment

open CLib

/-! ### The code -/

/-- `cWebem::SetWebRoot`. -/
def setWebRoot (webRoot : Bytes) : Bytes :=
  -- remove trailing slash if required
  let m_webRoot := if webRoot.getLast? = some (chr '/') then webRoot.dropLast else webRoot
  -- put slash at the front if required
  if m_webRoot ≠ [] ∧ m_webRoot.head? ≠ some (chr '/') then str "/" ++ webRoot else m_webRoot

/-- `cWebem::SetWebTheme`. -/
def setWebTheme (themename : Bytes) : Bytes := str "/styles/" ++ themename

/-- `cWebem::IsBadRequestPath`. -/
def isBadRequestPath (w : Webem) (request_path : Bytes) : Bool :=
  -- it must be absolute and not contain ".."
  request_path.head? != some (chr '/') || contains request_path (str "..") ||
    -- don't allow access to control files
    contains request_path (str ".htpasswd") ||
    -- if we have a web root set the request must start with it
    (w.webRoot != [] && find w.webRoot request_path != some 0)

/-- Whether a compressed file is looked for first. -/
def haveGZipSupport (force_no_gzip_support : Bool) (req : Request) (request_path : Bytes) : Bool :=
  !force_no_gzip_support &&
    (contains request_path (str ".js") || contains request_path (str ".htm") ||
      contains request_path (str ".css")) &&
    (req.getReqHeader "Accept-Encoding").any fun h => contains h (str "gzip")

/-- The names of a request, in the order they are opened in. -/
def candidates (doc_root request_path : Bytes) (gzip : Bool) : List Bytes :=
  let full_path := doc_root ++ request_path
  let index := doc_root ++ (request_path ++ str "/index.html")
  -- maybe it is a folder
  let isFolder := (find (str ".") full_path).isNone
  if gzip then
    (full_path ++ str ".gz") :: full_path ::
      if isFolder then [index ++ str ".gz", index] else []
  else
    -- maybe it is a compressed file
    full_path :: if isFolder then [index, index ++ str ".gz"] else [full_path ++ str ".gz"]

/-- Names that are opened one after the other, until one can be. -/
def tryOpen (isFile : Bytes → Bool) : List Bytes → List Bytes
  | [] => []
  | name :: names => if isFile name then [name] else name :: tryOpen isFile names

/-- The names `request_handler::handle_request` opens, as C strings. -/
def triedFiles (w : Webem) (before : UInt8) (force_no_gzip_support : Bool)
    (isFile : Bytes → Bool) (doc_root : Bytes) (req : Request) : List Bytes :=
  let decoded := urlDecode req.uri
  if !decoded.1 then []
  else if isBadRequestPath w decoded.2 then []
  else
    let request_path := extractRequestPath w before decoded.2
    tryOpen isFile ((candidates doc_root request_path
      (haveGZipSupport force_no_gzip_support req request_path)).map cstr)

/-- A server with a web root, and with a theme if one was set. -/
def serverWith (w : Webem) (webRoot : Bytes) (themename : Option Bytes) : Webem :=
  { w with webRoot := setWebRoot webRoot, actTheme := themename.elim [] setWebTheme }

/-! ### Containment -/

/-- A segment of a path is `..`. -/
def HasDotDot (p : Bytes) : Prop := str ".." ∈ p.splitOn (chr '/')

/-- A name below the document root. -/
def Inside (doc_root name : Bytes) : Prop :=
  ∃ p, name = doc_root ++ p ∧ p.head? = some (chr '/') ∧ ¬ HasDotDot p

/-- A path begins with the segments of a web root. -/
def SegmentPrefix (root path : Bytes) : Prop :=
  ∃ rest, path = root ++ rest ∧
    (root = [] ∨ root.getLast? = some (chr '/') ∨ rest = [] ∨ rest.head? = some (chr '/'))

/-- The path of a request, without the query string. -/
def requestPath (uri : Bytes) : Bytes := upTo (chr '?') (urlDecode uri).2

/-- The names that are opened are below the document root, and there are some only if the web root
is made of segments of the path. -/
structure Contained (w : Webem) (doc_root uri : Bytes) (tried : List Bytes) : Prop where
  inside : ∀ name ∈ tried, Inside doc_root name
  mapped : tried ≠ [] → SegmentPrefix w.webRoot (requestPath uri)

/-- The request is answered without a file. -/
def Refused (w : Webem) (uri : Bytes) : Prop :=
  (urlDecode uri).1 = false ∨ isBadRequestPath w (urlDecode uri).2 = true

/-- A slash follows the web root, and a theme that is asked for has no segment `..`. -/
def StaysInside (w : Webem) (uri : Bytes) : Prop :=
  (w.webRoot = [] ∨ w.webRoot ++ str "/" <+: requestPath uri) ∧
    (w.webRoot ++ str "/acttheme/" <+: requestPath uri → ¬ HasDotDot (cstr w.actTheme))

/-! ### Segments -/

theorem hasDotDot_append (a b : Bytes) :
    HasDotDot (a ++ chr '/' :: b) ↔ HasDotDot a ∨ HasDotDot b := by
  rw [HasDotDot, List.splitOn_append_cons_self, List.mem_append, HasDotDot, HasDotDot]

theorem HasDotDot.isInfix {p : Bytes} (h : HasDotDot p) : str ".." <:+: p :=
  isInfix_of_mem_splitOn h

theorem hasDotDot_of_notMem {p : Bytes} (h : chr '/' ∉ p) : HasDotDot p ↔ p = str ".." := by
  rw [HasDotDot, List.splitOn_eq_singleton h, List.mem_singleton, eq_comm]

/-- A path from its last slash. -/
theorem exists_last_slash {p : Bytes} (h : chr '/' ∈ p) :
    ∃ a b, p = a ++ chr '/' :: b ∧ chr '/' ∉ b := by
  obtain ⟨b, a, hp, hb⟩ := List.eq_append_cons_of_mem (List.mem_reverse.mpr h)
  refine ⟨a.reverse, b.reverse, ?_, ?_⟩
  · rw [← List.reverse_reverse p, hp]
    simp
  · rw [List.mem_reverse]
    exact hb

/-- What is put behind a path. -/
inductive Suffix : Bytes → Prop
  | nothing : Suffix []
  | gz : Suffix (str ".gz")
  | index : Suffix (str "/index.html")
  | indexGz : Suffix (str "/index.html.gz")

/-- What is put behind a path without two dots makes no segment `..`. -/
theorem not_hasDotDot_suffix {p suffix : Bytes} (hslash : chr '/' ∈ p) (hp : ¬ str ".." <:+: p)
    (h : Suffix suffix) : ¬ HasDotDot (p ++ suffix) := by
  have hself : ¬ HasDotDot p := fun hd => hp hd.isInfix
  cases h with
  | nothing =>
    rw [List.append_nil]
    exact hself
  | gz =>
    -- the last segment is longer
    obtain ⟨a, b, rfl, hb⟩ := exists_last_slash hslash
    have hassoc : (a ++ chr '/' :: b) ++ str ".gz" = a ++ chr '/' :: (b ++ str ".gz") := by simp
    have hlast : chr '/' ∉ b ++ str ".gz" := by
      rw [List.mem_append, not_or]
      exact ⟨hb, by decide⟩
    rw [hassoc, hasDotDot_append, hasDotDot_of_notMem hlast, not_or]
    constructor
    · intro ha
      exact hself ((hasDotDot_append a b).mpr (Or.inl ha))
    · intro heq
      have hlength := congrArg List.length heq
      rw [List.length_append] at hlength
      have hgz : (str ".gz").length = 3 := rfl
      have hdots : (str "..").length = 2 := rfl
      omega
  | index =>
    have hindex : ¬ HasDotDot (str "index.html") := by
      rw [HasDotDot]
      decide
    have hsuffix : str "/index.html" = chr '/' :: str "index.html" := rfl
    rw [hsuffix, hasDotDot_append]
    exact not_or.mpr ⟨hself, hindex⟩
  | indexGz =>
    have hindex : ¬ HasDotDot (str "index.html.gz") := by
      rw [HasDotDot]
      decide
    have hsuffix : str "/index.html.gz" = chr '/' :: str "index.html.gz" := rfl
    rw [hsuffix, hasDotDot_append]
    exact not_or.mpr ⟨hself, hindex⟩

theorem Suffix.zero_notMem {suffix : Bytes} (h : Suffix suffix) : 0 ∉ suffix := by
  cases h <;> decide

/-! ### The path behind the web root -/

/-- What is asked for behind a web root: the page of the login, or a directory's index, or the
path itself. -/
def indexed (path : Bytes) : Bytes :=
  if str "/@login" <+: path then str "/index.html"
  else if path.getLast? = some (chr '/') then path ++ str "index.html"
  else path

theorem head?_indexed (s : Bytes) : (indexed (chr '/' :: s)).head? = some (chr '/') := by
  rw [indexed]
  split
  · rfl
  · split
    · rfl
    · rfl

theorem not_isInfix_indexed {s : Bytes} (h : ¬ str ".." <:+: chr '/' :: s) :
    ¬ str ".." <:+: indexed (chr '/' :: s) := by
  have hpage : ¬ str ".." <:+: str "index.html" := by
    rw [← contains_iff_isInfix]
    decide
  rw [indexed]
  split
  · rw [← contains_iff_isInfix]
    decide
  · split
    · next hlast =>
      -- the index is behind a slash
      obtain ⟨front, hfront⟩ := List.getLast?_eq_some_iff.mp hlast
      rw [hfront] at h ⊢
      have hassoc : front ++ [chr '/'] ++ str "index.html" =
          front ++ chr '/' :: str "index.html" := by simp
      rw [hassoc, isInfix_append_cons_iff (by decide), not_or]
      exact ⟨fun hin => h (hin.trans (List.prefix_append _ _).isInfix), hpage⟩
    · exact h

/-- The directory of the theme is not among what is added. -/
theorem themed_indexed (s : Bytes) :
    str "/acttheme/" <+: indexed (chr '/' :: s) ↔ str "/acttheme/" <+: chr '/' :: s := by
  rw [indexed]
  split
  · next hlogin =>
    refine iff_of_false (by decide) fun htheme => ?_
    rcases List.prefix_or_prefix_of_prefix hlogin htheme with h | h
    · exact absurd h (by decide)
    · exact absurd h (by decide)
  · split
    · next hlast =>
      constructor
      · intro htheme
        have hpath : chr '/' :: s <+: chr '/' :: s ++ str "index.html" := List.prefix_append _ _
        rcases List.prefix_or_prefix_of_prefix htheme hpath with h | h
        · exact h
        · -- of the directories on the way to the theme's only the root is one
          have hshort : ∀ k, k < 10 → ((str "/acttheme/").take (k + 1)).getLast? = some (chr '/') →
              str "/acttheme/" <+: (str "/acttheme/").take (k + 1) ++ str "index.html" → k = 9 := by
            decide
          have hle : s.length + 1 ≤ (str "/acttheme/").length := h.length_le
          have htake : chr '/' :: s = (str "/acttheme/").take (s.length + 1) :=
            List.prefix_iff_eq_take.mp h
          rw [htake] at hlast htheme ⊢
          rw [hshort s.length (Nat.lt_of_succ_le hle) hlast htheme]
          decide
      · intro htheme
        exact htheme.trans (List.prefix_append _ _)
    · exact Iff.rfl

/-- The login and the directories, in `ExtractRequestPath`. -/
def pagePath (w : Webem) (before : UInt8) (path : Bytes) : Bytes :=
  let path := if find (w.webRoot ++ str "/@login") path = some 0 then w.webRoot ++ str "/" else path
  if path.getLast?.getD before = chr '/' then path ++ str "index.html" else path

/-- The web root, in `ExtractRequestPath`. -/
def stripRoot (w : Webem) (path : Bytes) : Bytes :=
  if w.webRoot = [] then path
  else if find w.webRoot path = some 0 then path.drop w.webRoot.length
  else []

/-- The theme, in `ExtractRequestPath`. -/
def fillTheme (w : Webem) (path : Bytes) : Bytes :=
  if find (str "/acttheme/") path = some 0 then w.actTheme ++ path.drop 9 else path

theorem extractRequestPath_eq (w : Webem) (before : UInt8) (d : Bytes) :
    extractRequestPath w before d =
      fillTheme w (stripRoot w (pagePath w before (upTo (chr '?') d))) := rfl

theorem pagePath_of_prefix (w : Webem) (before : UInt8) (s : Bytes) :
    pagePath w before (w.webRoot ++ chr '/' :: s) = w.webRoot ++ indexed (chr '/' :: s) := by
  have hlogin : find (w.webRoot ++ str "/@login") (w.webRoot ++ chr '/' :: s) = some 0 ↔
      str "/@login" <+: chr '/' :: s := by
    rw [find_eq_zero_iff, List.prefix_append_right_inj]
  have hlast : (w.webRoot ++ chr '/' :: s).getLast?.getD before = chr '/' ↔
      (chr '/' :: s).getLast? = some (chr '/') := by
    rw [List.getLast?_append, List.getLast?_cons]
    simp
  have hdirectory : (w.webRoot ++ str "/").getLast?.getD before = chr '/' := by
    rw [List.getLast?_append]
    rfl
  simp only [pagePath, hlogin, indexed]
  by_cases hin : str "/@login" <+: chr '/' :: s
  · simp only [hin, if_true, hdirectory, List.append_assoc]
    rfl
  · simp only [hin, if_false, hlast]
    split
    · rw [List.append_assoc]
    · rfl

theorem stripRoot_append (w : Webem) (path : Bytes) : stripRoot w (w.webRoot ++ path) = path := by
  have hfound : find w.webRoot (w.webRoot ++ path) = some 0 :=
    find_eq_zero_iff.mpr (List.prefix_append _ _)
  rw [stripRoot, if_pos hfound, List.drop_left]
  split
  · next hroot => rw [hroot, List.nil_append]
  · rfl

/-- The path of a request that has the web root as its first segments. -/
theorem extractRequestPath_of_prefix {w : Webem} {d s : Bytes} (before : UInt8)
    (hq : upTo (chr '?') d = w.webRoot ++ chr '/' :: s) :
    extractRequestPath w before d =
      if str "/acttheme/" <+: chr '/' :: s then w.actTheme ++ (indexed (chr '/' :: s)).drop 9
      else indexed (chr '/' :: s) := by
  rw [extractRequestPath_eq, hq, pagePath_of_prefix, stripRoot_append, fillTheme]
  simp only [find_eq_zero_iff, themed_indexed]

/-- Where no slash follows the web root, the path has none in front. -/
theorem head?_stripRoot {w : Webem} {before : UInt8} {d : Bytes} (hroot : w.webRoot ≠ [])
    (hd : w.webRoot <+: d) (hq : ¬ w.webRoot ++ str "/" <+: upTo (chr '?') d) :
    (stripRoot w (pagePath w before (upTo (chr '?') d))).head? ≠ some (chr '/') := by
  have hlogin : ¬ find (w.webRoot ++ str "/@login") (upTo (chr '?') d) = some 0 := by
    rw [find_eq_zero_iff]
    intro h
    have hslash : w.webRoot ++ str "/" <+: w.webRoot ++ str "/@login" := by
      rw [List.prefix_append_right_inj]
      decide
    exact hq (hslash.trans h)
  -- perhaps with the name of an index
  obtain ⟨added, hpage, hadded⟩ : ∃ added, pagePath w before (upTo (chr '?') d) =
      upTo (chr '?') d ++ added ∧ (added = [] ∨ added = str "index.html") := by
    rw [pagePath]
    simp only [if_neg hlogin]
    split
    · exact ⟨str "index.html", rfl, Or.inr rfl⟩
    · exact ⟨[], (List.append_nil _).symm, Or.inl rfl⟩
  rw [hpage]
  by_cases hpre : w.webRoot <+: upTo (chr '?') d
  · obtain ⟨rest, hrest⟩ := hpre
    rw [← hrest] at hq ⊢
    rw [List.append_assoc, stripRoot_append]
    rw [List.prefix_append_right_inj] at hq
    cases rest with
    | nil =>
      rcases hadded with rfl | rfl
      · simp
      · decide
    | cons c rest =>
      intro hc
      obtain rfl : c = chr '/' := Option.some.inj hc
      exact hq ⟨rest, rfl⟩
  · -- the web root goes beyond the question mark, and what is looked for is not there
    have hmark : chr '?' ∈ w.webRoot := by
      by_contra hmark
      apply hpre
      have hcut := upTo_prefix (chr '?') hd
      rwa [upTo_of_notMem hmark] at hcut
    have hnone : chr '?' ∉ upTo (chr '?') d ++ added := by
      rw [List.mem_append, not_or]
      constructor
      · intro hin
        exact absurd (List.mem_takeWhile_imp hin) (by simp)
      · rcases hadded with rfl | rfl
        · exact List.not_mem_nil
        · decide
    have hfind : ¬ find w.webRoot (upTo (chr '?') d ++ added) = some 0 := by
      rw [find_eq_zero_iff]
      intro h
      exact hnone (h.subset hmark)
    rw [stripRoot, if_neg hroot, if_neg hfind]
    simp

theorem head?_extractRequestPath {w : Webem} {before : UInt8} {d : Bytes} (hroot : w.webRoot ≠ [])
    (hd : w.webRoot <+: d) (hq : ¬ w.webRoot ++ str "/" <+: upTo (chr '?') d) :
    (extractRequestPath w before d).head? ≠ some (chr '/') := by
  have hhead := @head?_stripRoot w before d hroot hd hq
  rw [extractRequestPath_eq, fillTheme, if_neg]
  · exact hhead
  · rw [find_eq_zero_iff]
    rintro ⟨rest, hrest⟩
    rw [← hrest] at hhead
    exact hhead rfl

/-! ### The names that are opened -/

theorem mem_tryOpen {isFile : Bytes → Bool} {names : List Bytes} {name : Bytes}
    (h : name ∈ tryOpen isFile names) : name ∈ names := by
  induction names with
  | nil => cases h
  | cons first names ih =>
    rw [tryOpen] at h
    split at h
    · rw [List.mem_singleton.mp h]
      exact List.mem_cons_self
    · rcases List.mem_cons.mp h with rfl | h
      · exact List.mem_cons_self
      · exact List.mem_cons_of_mem _ (ih h)

/-- The first name is always opened. -/
theorem head_mem_tryOpen (isFile : Bytes → Bool) (first : Bytes) (names : List Bytes) :
    first ∈ tryOpen isFile (first :: names) := by
  rw [tryOpen]
  split
  · exact List.mem_singleton_self first
  · exact List.mem_cons_self

/-- The first name is that of the path itself, or of its compressed file. -/
theorem exists_candidates (doc_root path : Bytes) (gzip : Bool) :
    ∃ suffix names, (suffix = [] ∨ suffix = str ".gz") ∧
      candidates doc_root path gzip = (doc_root ++ (path ++ suffix)) :: names := by
  cases gzip with
  | true =>
    rw [candidates, if_pos rfl, List.append_assoc]
    exact ⟨str ".gz", _, Or.inr rfl, rfl⟩
  | false =>
    rw [candidates, if_neg Bool.false_ne_true]
    exact ⟨[], _, Or.inl rfl, by rw [List.append_nil]⟩

/-- The names are the document root, the path and what is put behind it. -/
theorem exists_suffix_of_mem_candidates {doc_root path name : Bytes} {gzip : Bool}
    (h : name ∈ candidates doc_root path gzip) :
    ∃ suffix, Suffix suffix ∧ name = doc_root ++ (path ++ suffix) := by
  have hname : name = doc_root ++ path ++ str ".gz" ∨ name = doc_root ++ path ∨
      name = doc_root ++ (path ++ str "/index.html") ++ str ".gz" ∨
      name = doc_root ++ (path ++ str "/index.html") := by
    rw [candidates] at h
    cases gzip with
    | true =>
      simp only [if_true] at h
      split at h
      · simpa using h
      · simp only [List.mem_cons, List.not_mem_nil, or_false] at h
        exact h.imp_right Or.inl
    | false =>
      simp only [Bool.false_eq_true, if_false] at h
      split at h
      · simp only [List.mem_cons, List.not_mem_nil, or_false] at h
        rcases h with h | h | h
        · exact Or.inr (Or.inl h)
        · exact Or.inr (Or.inr (Or.inr h))
        · exact Or.inr (Or.inr (Or.inl h))
      · simp only [List.mem_cons, List.not_mem_nil, or_false] at h
        exact h.symm.imp_right Or.inl
  rcases hname with rfl | rfl | rfl | rfl
  · exact ⟨_, .gz, List.append_assoc _ _ _⟩
  · exact ⟨_, .nothing, by rw [List.append_nil]⟩
  · refine ⟨_, .indexGz, ?_⟩
    rw [List.append_assoc, List.append_assoc]
    rfl
  · exact ⟨_, .index, rfl⟩

/-- A name below the document root, which has no NUL. -/
theorem inside_append_iff (doc_root x : Bytes) : Inside doc_root (cstr (doc_root ++ x)) ↔
    0 ∉ doc_root ∧ (cstr x).head? = some (chr '/') ∧ ¬ HasDotDot (cstr x) := by
  rw [Inside, cstr_append]
  by_cases hz : 0 ∈ doc_root
  · rw [if_pos hz]
    refine iff_of_false ?_ fun h => h.1 hz
    rintro ⟨p, hp, hhead, -⟩
    have hlength := congrArg List.length hp
    have hle := length_cstr_le doc_root
    rw [List.length_append] at hlength
    obtain rfl : p = [] := List.eq_nil_of_length_eq_zero (by omega)
    cases hhead
  · rw [if_neg hz]
    constructor
    · rintro ⟨p, hp, hhead, hdots⟩
      rw [List.append_cancel_left hp]
      exact ⟨hz, hhead, hdots⟩
    · rintro ⟨-, hhead, hdots⟩
      exact ⟨cstr x, rfl, hhead, hdots⟩

/-- A theme in front of a path without two dots. -/
theorem inside_themed_iff {doc_root theme r suffix : Bytes}
    (htheme : theme = [] ∨ theme.head? = some (chr '/')) (hr : r.head? = some (chr '/'))
    (hdots : ¬ str ".." <:+: r) (hsuffix : Suffix suffix) :
    Inside doc_root (cstr (doc_root ++ (theme ++ r ++ suffix))) ↔
      0 ∉ doc_root ∧ ¬ HasDotDot (cstr theme) := by
  obtain ⟨r, rfl⟩ : ∃ t, r = chr '/' :: t := by
    cases r with
    | nil => cases hr
    | cons c t => exact ⟨t, by rw [Option.some.inj hr]⟩
  have hempty : ¬ HasDotDot [] := by
    rw [HasDotDot]
    decide
  -- the part behind the theme
  have hbehind : ¬ HasDotDot (cstr (chr '/' :: r ++ suffix)) := by
    rw [cstr_append, cstr_of_notMem hsuffix.zero_notMem]
    split
    · intro h
      exact hdots (h.isInfix.trans (List.takeWhile_prefix _).isInfix)
    · exact not_hasDotDot_suffix List.mem_cons_self hdots hsuffix
  have hcons : cstr (chr '/' :: r ++ suffix) = chr '/' :: cstr (r ++ suffix) := rfl
  rw [hcons] at hbehind
  have hrest : ¬ HasDotDot (cstr (r ++ suffix)) := by
    intro h
    exact hbehind ((hasDotDot_append [] _).mpr (Or.inr h))
  rw [inside_append_iff, and_congr_right_iff]
  intro _
  rw [List.append_assoc, cstr_append, hcons]
  split
  · next hz =>
    have hhead : (cstr theme).head? = some (chr '/') := by
      rcases htheme with rfl | hhead
      · cases hz
      · cases theme with
        | nil => cases hhead
        | cons c t =>
          obtain rfl : c = chr '/' := Option.some.inj hhead
          rfl
    rw [hhead]
    simp
  · next hz =>
    have hhead : (theme ++ chr '/' :: cstr (r ++ suffix)).head? = some (chr '/') := by
      rcases htheme with rfl | hhead
      · rfl
      · rw [List.head?_append, hhead]
        rfl
    rw [hhead, hasDotDot_append, cstr_of_notMem hz]
    simp [hrest]

/-! ### Requests -/

/-- What has passed the check of the path. -/
theorem of_isBadRequestPath {w : Webem} {d : Bytes} (h : isBadRequestPath w d = false) :
    d.head? = some (chr '/') ∧ ¬ str ".." <:+: d ∧ (w.webRoot = [] ∨ w.webRoot <+: d) := by
  simp only [isBadRequestPath, Bool.or_eq_false_iff, bne_eq_false_iff_eq, Bool.and_eq_false_iff,
    find_eq_zero_iff] at h
  obtain ⟨⟨⟨hhead, hdots⟩, -⟩, hroot⟩ := h
  refine ⟨hhead, ?_, hroot⟩
  rw [← contains_iff_isInfix, hdots]
  exact Bool.false_ne_true

theorem triedFiles_refused {w : Webem} {req : Request} (before : UInt8) (force : Bool)
    (isFile : Bytes → Bool) (doc_root : Bytes) (h : Refused w req.uri) :
    triedFiles w before force isFile doc_root req = [] := by
  rw [triedFiles]
  rcases h with h | h
  · simp [h]
  · simp [h]

theorem triedFiles_of_not_refused {w : Webem} {req : Request} (before : UInt8) (force : Bool)
    (isFile : Bytes → Bool) (doc_root : Bytes) (h : ¬ Refused w req.uri) :
    triedFiles w before force isFile doc_root req = tryOpen isFile ((candidates doc_root
      (extractRequestPath w before (urlDecode req.uri).2) (haveGZipSupport force req
        (extractRequestPath w before (urlDecode req.uri).2))).map cstr) := by
  rw [Refused, not_or] at h
  simp [triedFiles, Bool.eq_true_of_not_eq_false h.1, Bool.eq_false_of_not_eq_true h.2]

/-- A request whose path begins with the segments of the web root. -/
theorem contained_of_front {w : Webem} {req : Request} {doc_root s : Bytes} {before : UInt8}
    {force : Bool} {isFile : Bytes → Bool} (hrefused : ¬ Refused w req.uri)
    (htheme : w.actTheme = [] ∨ w.actTheme.head? = some (chr '/'))
    (hq : requestPath req.uri = w.webRoot ++ chr '/' :: s)
    (hdots : ¬ str ".." <:+: (urlDecode req.uri).2) :
    Contained w doc_root req.uri (triedFiles w before force isFile doc_root req) ↔
      0 ∉ doc_root ∧ (w.webRoot ++ str "/acttheme/" <+: requestPath req.uri →
        ¬ HasDotDot (cstr w.actTheme)) := by
  have hmapped : SegmentPrefix w.webRoot (requestPath req.uri) :=
    ⟨_, hq, Or.inr (Or.inr (Or.inr rfl))⟩
  have hpath := extractRequestPath_of_prefix before hq
  have hsegments : ¬ str ".." <:+: indexed (chr '/' :: s) := by
    apply not_isInfix_indexed
    intro h
    have hpre : upTo (chr '?') (urlDecode req.uri).2 <+: (urlDecode req.uri).2 :=
      List.takeWhile_prefix _
    have hsuffix : chr '/' :: s <:+ requestPath req.uri := ⟨w.webRoot, hq.symm⟩
    exact hdots (h.trans (hsuffix.isInfix.trans hpre.isInfix))
  -- the path is that of a theme, or of none, and what is behind it
  obtain ⟨theme, r, hextract, hnone, hr, hrdots, hcondition⟩ : ∃ theme r,
      extractRequestPath w before (urlDecode req.uri).2 = theme ++ r ∧
        (theme = [] ∨ theme.head? = some (chr '/')) ∧ r.head? = some (chr '/') ∧
        ¬ str ".." <:+: r ∧ ((w.webRoot ++ str "/acttheme/" <+: requestPath req.uri →
          ¬ HasDotDot (cstr w.actTheme)) ↔ ¬ HasDotDot (cstr theme)) := by
    have hempty : ¬ HasDotDot (cstr []) := by
      rw [HasDotDot]
      decide
    rw [hpath, hq, List.prefix_append_right_inj]
    by_cases hthemed : str "/acttheme/" <+: chr '/' :: s
    · rw [if_pos hthemed]
      refine ⟨w.actTheme, _, rfl, htheme, ?_, ?_, by simp [hthemed]⟩
      · obtain ⟨rest, hrest⟩ := (themed_indexed s).mpr hthemed
        rw [← hrest]
        rfl
      · intro h
        exact hsegments (h.trans (List.drop_suffix 9 _).isInfix)
    · rw [if_neg hthemed]
      exact ⟨[], _, rfl, Or.inl rfl, head?_indexed s, hsegments, by simp [hthemed, hempty]⟩
  rw [hcondition, triedFiles_of_not_refused before force isFile doc_root hrefused, hextract]
  constructor
  · intro h
    obtain ⟨suffix, names, hsuffix, hnames⟩ := exists_candidates doc_root (theme ++ r)
      (haveGZipSupport force req (theme ++ r))
    have hfirst := h.inside _ (by
      rw [hnames, List.map_cons]
      exact head_mem_tryOpen isFile _ _)
    have hkind : Suffix suffix := by
      rcases hsuffix with rfl | rfl
      · exact .nothing
      · exact .gz
    exact (inside_themed_iff hnone hr hrdots hkind).mp hfirst
  · intro h
    refine ⟨?_, fun _ => hmapped⟩
    intro name hname
    obtain ⟨full, hfull, rfl⟩ := List.mem_map.mp (mem_tryOpen hname)
    obtain ⟨suffix, hsuffix, rfl⟩ := exists_suffix_of_mem_candidates hfull
    exact (inside_themed_iff hnone hr hrdots hsuffix).mpr h

/-- A request whose path begins with the web root, and no slash behind it. -/
theorem not_contained {w : Webem} {req : Request} {doc_root : Bytes} {before : UInt8}
    {force : Bool} {isFile : Bytes → Bool} (hrefused : ¬ Refused w req.uri)
    (hroot : w.webRoot ≠ []) (hpre : w.webRoot <+: (urlDecode req.uri).2)
    (hq : ¬ w.webRoot ++ str "/" <+: requestPath req.uri) :
    ¬ Contained w doc_root req.uri (triedFiles w before force isFile doc_root req) := by
  have hhead := @head?_extractRequestPath w before _ hroot hpre hq
  intro h
  rw [triedFiles_of_not_refused before force isFile doc_root hrefused] at h
  obtain ⟨suffix, names, hsuffix, hnames⟩ := exists_candidates doc_root
    (extractRequestPath w before (urlDecode req.uri).2) (haveGZipSupport force req
      (extractRequestPath w before (urlDecode req.uri).2))
  have hfirst := h.inside _ (by
    rw [hnames, List.map_cons]
    exact head_mem_tryOpen isFile _ _)
  obtain ⟨-, hslash, -⟩ := (inside_append_iff _ _).mp hfirst
  -- the first byte is that of the path, or a dot
  cases hpath : extractRequestPath w before (urlDecode req.uri).2 with
  | nil =>
    rw [hpath] at hslash
    rcases hsuffix with rfl | rfl
    · cases hslash
    · exact absurd hslash (by decide)
  | cons c path =>
    rw [hpath] at hhead hslash
    have hfront := List.mem_of_mem_head? hslash
    rw [List.cons_append, cstr, List.takeWhile_cons] at hslash
    split at hslash
    · exact hhead hslash
    · cases hslash

/-- **A request stays below the document root exactly if it is refused, or the web root is its
first segments and the theme leads nowhere else.** -/
theorem contained_iff (w₀ : Webem) (webRoot : Bytes) (themename : Option Bytes) (before : UInt8)
    (force_no_gzip_support : Bool) (isFile : Bytes → Bool) (doc_root : Bytes) (req : Request) :
    Contained (serverWith w₀ webRoot themename) doc_root req.uri
        (triedFiles (serverWith w₀ webRoot themename) before force_no_gzip_support isFile doc_root
          req) ↔
      Refused (serverWith w₀ webRoot themename) req.uri ∨
        (0 ∉ doc_root ∧ StaysInside (serverWith w₀ webRoot themename) req.uri) := by
  have htheme : (serverWith w₀ webRoot themename).actTheme = [] ∨
      (serverWith w₀ webRoot themename).actTheme.head? = some (chr '/') := by
    cases themename with
    | none => exact Or.inl rfl
    | some name => exact Or.inr rfl
  generalize serverWith w₀ webRoot themename = w at htheme ⊢
  by_cases hrefused : Refused w req.uri
  · rw [triedFiles_refused before _ isFile doc_root hrefused]
    refine iff_of_true ⟨?_, fun h => absurd rfl h⟩ (Or.inl hrefused)
    intro name hname
    cases hname
  · obtain ⟨hhead, hdots, hroot⟩ := of_isBadRequestPath
      (Bool.eq_false_of_not_eq_true (not_or.mp hrefused).2)
    rw [or_iff_right hrefused, StaysInside]
    by_cases hq : w.webRoot = [] ∨ w.webRoot ++ str "/" <+: requestPath req.uri
    · obtain ⟨s, hs⟩ : ∃ s, requestPath req.uri = w.webRoot ++ chr '/' :: s := by
        rcases hq with hnil | ⟨s, hs⟩
        · cases hd : (urlDecode req.uri).2 with
          | nil =>
            rw [hd] at hhead
            cases hhead
          | cons c t =>
            rw [hd] at hhead
            obtain rfl : c = chr '/' := Option.some.inj hhead
            refine ⟨upTo (chr '?') t, ?_⟩
            rw [requestPath, hd, hnil]
            rfl
        · exact ⟨s, by rw [← hs, List.append_assoc]; rfl⟩
      rw [contained_of_front hrefused htheme hs hdots, and_iff_right hq]
    · obtain ⟨hnil, hslash⟩ := not_or.mp hq
      refine iff_of_false ?_ fun h => hq h.2.1
      exact not_contained hrefused hnil (hroot.resolve_left hnil) hslash

/-! ### A file beside the document root -/

/-- A server without any settings. -/
def plainServer : Webem where
  crypto := { md5 := fun s => s, base64Decode := fun s => s }

/-- The web root is in front of the path, and the file that is opened is not in `www`. -/
theorem sibling_opened :
    triedFiles (serverWith plainServer (str "domo") none) 0 false (fun _ => false)
        (str "/srv/www") { uri := str "/domo.old/x" } =
      [str "/srv/www.old/x", str "/srv/www.old/x.gz"] ∧
    ¬ Inside (str "/srv/www") (str "/srv/www.old/x") := by
  constructor
  · decide
  · rintro ⟨p, hp, hhead, -⟩
    have hrest : str "/srv/www" ++ str ".old/x" = str "/srv/www" ++ p := hp
    rw [← List.append_cancel_left hrest] at hhead
    exact absurd hhead (by decide)

end Domoticz.Containment
