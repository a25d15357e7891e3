import Domoticz.Web.Session

/-!
# Paths of requests

What the web server does to a URI before it looks for a page: percent decoding,
the removal of query string and web root, and the two searches among the
registered pages.  `IsPageOverride` looks for the path itself;
`CheckForPageOverride` also tries what is left of the path when its last segments
are cut off one by one.

`ExtractRequestPath` reads the last byte of the path without asking whether there
is one.  The byte it finds in front of an empty path is a parameter.

## Main definitions

* `urlDecode` — percent decoding.
* `extractRequestPath` — the path without query string and web root.
* `findPage`, `isRegistered` — the search of `CheckForPageOverride`, and the one
  of `IsPageOverride`.

## Main results

* `findPage_isSome_iff` — which paths the first search finds a page for.
-/

namespace Domoticz

open CLib

/-! ### Percent decoding -/

/-- `std::istringstream(two) >> std::hex >> value`.  A lone `0x` is a prefix without
digits and fails. -/
def readHex (two : Bytes) : Option ℤ :=
  let r := strtol 16 two
  if upper two = str "0X" ∨ r.2 = two then none else some r.1

/-- `request_handler::url_decode`: whether it succeeds, and what it has written
until then. -/
def urlDecode : Bytes → Bool × Bytes
  | [] => (true, [])
  | c :: a :: b :: s =>
      if c = chr '%' then
        match readHex [a, b] with
        | none => (false, [])
        | some value => match urlDecode s with
          | (ok, out) => (ok, UInt8.ofInt value :: out)
      else match urlDecode (a :: b :: s) with
        | (ok, out) => (ok, (if c = chr '+' then chr ' ' else c) :: out)
  | c :: s =>
      if c = chr '%' then (false, [])
      else match urlDecode s with
        | (ok, out) => (ok, (if c = chr '+' then chr ' ' else c) :: out)

/-! ### The path of a request -/

/-- `cWebem::ExtractRequestPath`; `before` is the byte in front of an empty path. -/
def extractRequestPath (w : Webem) (before : UInt8) (original : Bytes) : Bytes :=
  let path := upTo (chr '?') original
  let path := if find (w.webRoot ++ str "/@login") path = some 0 then w.webRoot ++ str "/" else path
  -- if the path is a directory then add "index.html"
  let path := if path.getLast?.getD before = chr '/' then path ++ str "index.html" else path
  let path :=
    if w.webRoot = [] then path
    else if find w.webRoot path = some 0 then path.drop w.webRoot.length
    else []
  if find (str "/acttheme/") path = some 0 then w.actTheme ++ path.drop 9 else path

/-! ### The searches for a page -/

/-- What is left of a path, given from its end, when it is cut at each slash. -/
def partialPaths : Bytes → List Bytes
  | [] => []
  | c :: r => if c = chr '/' then r.reverse :: partialPaths r else partialPaths r

/-- The search of `CheckForPageOverride`: the path itself, then what is left of it
when its last segment is cut off, and so on. -/
def findPage (pages : List Bytes) (path : Bytes) : Option Bytes :=
  (path :: partialPaths path.reverse).find? pages.contains

/-- The search of `IsPageOverride`. -/
def isRegistered (w : Webem) (path : Bytes) : Bool :=
  w.pages.contains path || w.pagesW.contains path

theorem mem_partialPaths {r p : Bytes} :
    p ∈ partialPaths r ↔ ∃ rest, p ++ chr '/' :: rest = r.reverse := by
  induction r with
  | nil => simp [partialPaths]
  | cons c r ih =>
    have hcons : (∃ rest, p ++ chr '/' :: rest = (c :: r).reverse) ↔
        (c = chr '/' ∧ p = r.reverse) ∨ ∃ rest, p ++ chr '/' :: rest = r.reverse := by
      rw [List.reverse_cons]
      constructor
      · rintro ⟨rest, h⟩
        rcases List.eq_nil_or_concat' rest with rfl | ⟨init, b, rfl⟩
        · obtain ⟨hp, hc⟩ := List.append_inj' h rfl
          exact Or.inl ⟨(List.cons.inj hc).1.symm, hp⟩
        · rw [← List.cons_append, ← List.append_assoc] at h
          exact Or.inr ⟨init, (List.append_inj' h rfl).1⟩
      · rintro (⟨rfl, rfl⟩ | ⟨rest, h⟩)
        · exact ⟨[], rfl⟩
        · exact ⟨rest ++ [c], by rw [← h]; simp⟩
    rw [hcons, partialPaths]
    by_cases hc : c = chr '/'
    · rw [if_pos hc, List.mem_cons, ih]
      simp [hc]
    · rw [if_neg hc, ih]
      simp [hc]

/-- **A page is found exactly when the path, or what is left of it in front of some
slash, is registered.** -/
theorem findPage_isSome_iff {pages : List Bytes} {path : Bytes} :
    (findPage pages path).isSome ↔
      ∃ page ∈ pages, page = path ∨ ∃ rest, page ++ chr '/' :: rest = path := by
  rw [findPage, List.find?_isSome]
  simp only [List.mem_cons, mem_partialPaths, List.reverse_reverse, List.contains_iff_mem]
  constructor
  · rintro ⟨page, hpage, hmem⟩
    exact ⟨page, hmem, hpage⟩
  · rintro ⟨page, hmem, hpage⟩
    exact ⟨page, hpage, hmem⟩

end Domoticz
