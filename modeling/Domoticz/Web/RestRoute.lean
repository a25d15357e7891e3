import Domoticz.Web.Rest

/-!
# Routing a REST request

`CRESTRequest::Create` takes the path of a request apart and decides which table
and which row it is about.  Three forms are meant:

    /API/Interfaces               the whole table
    /API/Interfaces/123           one row of it
    /API/Interfaces/123/Devices   the rows of a table that belong to a parent row

The code drops the first five bytes whatever they are, skips empty segments,
looks for the rightmost segment that `strtol` does not read to its end, and takes
what `strtol` left of it for the table.

## Main definitions

* `create` — `CRESTRequest::Create`; the outer `none` is an exception.
* `DocumentedUri uri r` — the URI has one of the three forms and names `r`.
* `Taken es` — the segment lists the code makes an object from.
* `RoutesExactly uri` — what `Create` is for.
* `RouteCondition uri` — when it does that.

## Main results

* `routeOf_isSome_iff` — the code makes an object exactly from `Taken`.
* `routesExactly_iff` — **routing is exact exactly under `RouteCondition`.**
* `routes_apart` — exact routing keeps different keys apart.
* `digits_dropped` — `/API/1Wires/7` is routed to the table `Wire`.
-/

namespace Domoticz

open CLib

/-! ### Taking the path apart -/

/-- `int iNumber = strtol(element.c_str(), &p, 10)`. -/
def elementNumber (element : Bytes) : ℤ := toInt32 (strtol 10 (cstr element)).1

/-- The rest `p` points to after `strtol(element.c_str(), &p, 10)`. -/
def elementRest (element : Bytes) : Bytes := (strtol 10 (cstr element)).2

/-- The URI without its query string; a question mark in front is not found. -/
def stripQuery (uri : Bytes) : Bytes :=
  if find (str "?") uri ≠ some 0 then upTo (chr '?') uri else uri

/-- `vURIElements`: the nonempty segments behind the first five bytes.  A path
shorter than that raises an exception. -/
def uriElements (uri : Bytes) : Option (List Bytes) :=
  (substrFrom? (stripQuery uri) 5).map fun rest =>
    (rest.splitOn (chr '/')).filter fun s => s ≠ []

/-- The loop that looks for the target table among the first `i` elements, from
the right: its index, and what `strtol` left of it.  When every element is a
number it ends at index zero with an empty name. -/
def findTable (elements : List Bytes) : ℕ → ℕ × Bytes
  | 0 => (0, [])
  | i + 1 =>
      let p := elementRest (elements.getD i [])
      if p ≠ [] then (i, p) else findTable elements i

/-- What the path names. -/
structure Route where
  table : Bytes
  tableKey : ℤ
  parent : Bytes
  parentKey : ℤ
  deriving DecidableEq, Repr

/-- The classification of the elements. -/
def routeOf (elements : List Bytes) : Option Route :=
  let target := findTable elements elements.length
  let iTable := target.1
  -- trim off the trailing 's'
  let sTable := target.2.dropLast
  let iTableKey := (elements[iTable + 1]?).elim 0 elementNumber
  let hasParent := 1 < iTable ∧ iTableKey = 0
  let iParentKey := if hasParent then elementNumber (elements.getD (iTable - 1) []) else 0
  let sParent := if hasParent then (elements.getD (iTable - 2) []).dropLast else []
  if (iTable = 0 ∧ sTable ≠ [] ∧ iTableKey = 0 ∧ iParentKey = 0) ∨
      (sTable ≠ [] ∧ iTableKey ≠ 0 ∧ iParentKey = 0) ∨
      (sTable ≠ [] ∧ iTableKey = 0 ∧ iParentKey ≠ 0 ∧ sParent ≠ []) then
    some ⟨sTable, iTableKey, sParent, iParentKey⟩
  else none

/-- A `CRESTRequest`, or the `CRESTSession` derived from it. -/
structure RestObject where
  isSession : Bool
  access : DataAccess
  deriving DecidableEq, Repr

/-- The object for a route, as constructed and initialised. -/
def restObject (method : Bytes) (r : Route) : RestObject where
  isSession := r.table == str "Session"
  access := (({ user := str "Admin", verb := method } : DataAccess).setTable r.table
    r.tableKey).setParent r.parent r.parentKey

/-- `CRESTRequest::Create`.  The outer `none` is a raised exception. -/
def create (method uri : Bytes) : Option (Option RestObject) :=
  (uriElements uri).map fun elements =>
    if elements = [] then none else (routeOf elements).map (restObject method)

/-! ### The columns of a `GET` -/

/-- What `CRESTSession::GET` does first: the first column `AuthToken` goes. -/
def DataAccess.eraseAuthToken (da : DataAccess) : DataAccess :=
  { da with validFields := da.validFields.eraseP fun f => f.name == str "AuthToken" }

/-- The columns a `GET` selects, once access is granted. -/
def getFields (isSession : Bool) (da : DataAccess) : DataAccess :=
  (if isSession then da.eraseAuthToken else da).stripForbiddenFields

/-! ### What the paths are meant to say -/

/-- The three documented forms, by their segments. -/
inductive Documented : List Bytes → Route → Prop
  | table {x : Bytes} : x ≠ [] → Documented [x ++ str "s"] ⟨x, 0, [], 0⟩
  | row {x k : Bytes} : x ≠ [] → Numeral k → digitsValue 10 k ≠ 0 →
      Documented [x ++ str "s", k] ⟨x, digitsValue 10 k, [], 0⟩
  | children {y p x : Bytes} : y ≠ [] → Numeral p → digitsValue 10 p ≠ 0 → x ≠ [] →
      Documented [y ++ str "s", p, x ++ str "s"] ⟨x, 0, y, digitsValue 10 p⟩

/-- The URI, up to its query string, is `/API/` and segments of a documented form. -/
def DocumentedUri (uri : Bytes) (r : Route) : Prop :=
  ∃ rest, upTo (chr '?') uri = str "/API/" ++ rest ∧ Documented (rest.splitOn (chr '/')) r

/-- `Create` makes the object of every documented URI and of no other, without an
exception, and the object's condition is that of the row with the given key. -/
structure RoutesExactly (uri : Bytes) : Prop where
  created : ∀ r, DocumentedUri uri r → ∀ method,
    create method uri = some (some (restObject method r))
  rejected : (¬ ∃ r, DocumentedUri uri r) → ∀ method, create method uri = some none
  addressed : ∀ r, DocumentedUri uri r → r.tableKey ≠ 0 → ∀ method,
    ∃ o, create method uri = some (some o) ∧ ∀ (op : String) (key : ℤ),
      keyCondition o.access.table op o.access.tableKey = keyCondition r.table op key ↔
        key = r.tableKey

/-- The segment lists the code makes an object from: a segment `t` that leaves at
least two bytes behind its number, only numbers to its right, and either a row
key next to it, or nothing to its left, or a parent and its key. -/
def Taken (elements : List Bytes) : Prop :=
  ∃ left t right, elements = left ++ t :: right ∧ 2 ≤ (elementRest t).length ∧
    (∀ s ∈ right, elementRest s = []) ∧
    (if (right.head?).elim 0 elementNumber ≠ 0 then True
    else left = [] ∨ ∃ front parent p, left = front ++ [parent, p] ∧ elementNumber p ≠ 0 ∧
      2 ≤ parent.length)

/-- `strtol` leaves the whole segment of the target, which has no number in front
and no NUL in it, and the keys are below `2 ^ 31`. -/
def ReadsBack (r : Route) : Prop :=
  elementRest (r.table ++ str "s") = r.table ++ str "s" ∧ r.tableKey < 2 ^ 31 ∧ r.parentKey < 2 ^ 31

/-- A documented URI reads back; any other one is long enough, and its segments do
not look like a request. -/
def RouteCondition (uri : Bytes) : Prop :=
  (∀ r, DocumentedUri uri r → ReadsBack r) ∧
  ((¬ ∃ r, DocumentedUri uri r) → ∃ elements, uriElements uri = some elements ∧ ¬ Taken elements)

/-! ### The target table -/

/-- Elements behind the target are passed over. -/
theorem findTable_append (left : List Bytes) {t : Bytes} (ht : elementRest t ≠ []) :
    ∀ {right : List Bytes}, (∀ s ∈ right, elementRest s = []) →
      findTable (left ++ t :: right) (left ++ t :: right).length = (left.length, elementRest t) := by
  intro right hright
  -- the loop walks down through `right`, and stops at `t`
  have hwalk : ∀ i ≤ right.length,
      findTable (left ++ t :: right) (left.length + 1 + i) = (left.length, elementRest t) := by
    intro i
    induction i with
    | zero =>
      intro _
      have hget : (left ++ t :: right).getD left.length [] = t := by simp
      rw [Nat.add_zero, findTable, hget]
      simp only [if_pos ht]
    | succ i ih =>
      intro hi
      have hget : (left ++ t :: right).getD (left.length + 1 + i) [] = right[i] := by
        rw [List.getD_eq_getElem?_getD, List.getElem?_append_right (by omega)]
        have : left.length + 1 + i - left.length = i + 1 := by omega
        rw [this, List.getElem?_cons_succ, List.getElem?_eq_getElem (by omega)]
        rfl
      have hnum : elementRest right[i] = [] := hright _ (List.getElem_mem _)
      rw [← Nat.add_assoc, findTable, hget, hnum]
      simpa using ih (by omega)
  have hlen : (left ++ t :: right).length = left.length + 1 + right.length := by
    simp; omega
  rw [hlen]
  exact hwalk right.length (Nat.le_refl _)

/-- With numbers only there is no target. -/
theorem findTable_numbers {elements : List Bytes} (h : ∀ s ∈ elements, elementRest s = []) :
    findTable elements elements.length = (0, []) := by
  have hwalk : ∀ i ≤ elements.length, findTable elements i = (0, []) := by
    intro i
    induction i with
    | zero => intro _; rfl
    | succ i ih =>
      intro hi
      have hnum : elementRest (elements.getD i []) = [] := by
        rw [List.getD_eq_getElem?_getD, List.getElem?_eq_getElem (by omega)]
        exact h _ (List.getElem_mem _)
      rw [findTable, hnum]
      simpa using ih (by omega)
  exact hwalk _ (Nat.le_refl _)

/-- Every list of elements is numbers only, or has a last one that is not a number. -/
theorem numbers_or_target (elements : List Bytes) :
    (∀ s ∈ elements, elementRest s = []) ∨
      ∃ left t right, elements = left ++ t :: right ∧ elementRest t ≠ [] ∧
        ∀ s ∈ right, elementRest s = [] := by
  induction elements with
  | nil => exact Or.inl (by simp)
  | cons e es ih =>
    rcases ih with hall | ⟨left, t, right, rfl, ht, hright⟩
    · by_cases he : elementRest e = []
      · exact Or.inl (by simpa [he] using hall)
      · exact Or.inr ⟨[], e, es, rfl, he, hall⟩
    · exact Or.inr ⟨e :: left, t, right, rfl, ht, hright⟩

/-- The last element that is not a number is unique. -/
theorem target_unique {left left' right right' : List Bytes} {t t' : Bytes}
    (h : left ++ t :: right = left' ++ t' :: right') (ht : elementRest t ≠ [])
    (ht' : elementRest t' ≠ []) (hright : ∀ s ∈ right, elementRest s = [])
    (hright' : ∀ s ∈ right', elementRest s = []) : left = left' ∧ t = t' ∧ right = right' := by
  have hfind := findTable_append left ht hright
  rw [h, findTable_append left' ht' hright'] at hfind
  have hlen : left.length = left'.length := (Prod.mk.inj hfind).1.symm
  obtain ⟨hl, hr⟩ := List.append_inj h hlen
  obtain ⟨hts, hrs⟩ := List.cons.inj hr
  exact ⟨hl, hts, hrs⟩

/-! ### The classification -/

theorem dropLast_ne_nil_iff {s : Bytes} : s.dropLast ≠ [] ↔ 2 ≤ s.length := by
  rw [← List.length_pos_iff, List.length_dropLast]
  omega

theorem two_le_of_dropLast {s x : Bytes} (hx : x ≠ []) (h : s.dropLast = x) : 2 ≤ s.length :=
  dropLast_ne_nil_iff.mp (h ▸ hx)

theorem routeOf_numbers {elements : List Bytes} (h : ∀ s ∈ elements, elementRest s = []) :
    routeOf elements = none := by
  simp [routeOf, findTable_numbers h]

theorem getElem?_behind (left right : List Bytes) (t : Bytes) :
    (left ++ t :: right)[left.length + 1]? = right.head? := by
  rw [List.getElem?_append_right (by omega), Nat.add_sub_cancel_left, List.getElem?_cons_succ,
    List.head?_eq_getElem?]

section Target

variable (right : List Bytes) {t : Bytes} (ht : elementRest t ≠ [])
  (hright : ∀ s ∈ right, elementRest s = [])
include ht hright

/-- A row key next to the target decides, whatever stands to its left. -/
theorem routeOf_key (left : List Bytes) (hkey : (right.head?).elim 0 elementNumber ≠ 0) :
    routeOf (left ++ t :: right) = if 2 ≤ (elementRest t).length then
      some ⟨(elementRest t).dropLast, (right.head?).elim 0 elementNumber, [], 0⟩ else none := by
  simp only [routeOf, findTable_append left ht hright, getElem?_behind]
  simp [hkey, ← dropLast_ne_nil_iff]

/-- Without a row key, and with nothing to the left, it is the whole table. -/
theorem routeOf_table (hkey : (right.head?).elim 0 elementNumber = 0) :
    routeOf (t :: right) = if 2 ≤ (elementRest t).length then
      some ⟨(elementRest t).dropLast, 0, [], 0⟩ else none := by
  have hfind := findTable_append [] ht hright
  have hget := getElem?_behind [] right t
  simp only [List.nil_append, List.length_nil] at hfind hget
  simp only [routeOf, hfind, hget]
  simp [hkey, ← dropLast_ne_nil_iff]

/-- Without a row key, one segment to the left is too few. -/
theorem routeOf_single (a : Bytes) (hkey : (right.head?).elim 0 elementNumber = 0) :
    routeOf (a :: t :: right) = none := by
  have hfind := findTable_append [a] ht hright
  have hget := getElem?_behind [a] right t
  simp only [List.cons_append, List.nil_append, List.length_singleton] at hfind hget
  simp only [routeOf, hfind, hget]
  simp [hkey]

/-- Without a row key, the two segments to the left are the parent and its key. -/
theorem routeOf_parent (front : List Bytes) (parent p : Bytes)
    (hkey : (right.head?).elim 0 elementNumber = 0) :
    routeOf (front ++ [parent, p] ++ t :: right) =
      if 2 ≤ (elementRest t).length ∧ elementNumber p ≠ 0 ∧ 2 ≤ parent.length then
        some ⟨(elementRest t).dropLast, 0, parent.dropLast, elementNumber p⟩ else none := by
  have hp : (front ++ [parent, p] ++ t :: right).getD ((front ++ [parent, p]).length - 1) [] = p := by
    simp
  have hparent :
      (front ++ [parent, p] ++ t :: right).getD ((front ++ [parent, p]).length - 2) [] = parent := by
    simp
  have htwo : 1 < (front ++ [parent, p]).length := by simp
  simp only [routeOf, findTable_append _ ht hright, getElem?_behind, hp, hparent,
    hkey]
  have hzero : (front ++ [parent, p]).length ≠ 0 := by simp
  simp only [htwo, hzero, ← dropLast_ne_nil_iff, and_self, if_true, false_and, false_or, true_and,
    ne_eq, not_true_eq_false, and_false]

end Target

/-- **The code makes an object exactly from the lists of `Taken`.** -/
theorem routeOf_isSome_iff (elements : List Bytes) : (routeOf elements).isSome ↔ Taken elements := by
  rcases numbers_or_target elements with hall | ⟨left, t, right, rfl, ht, hright⟩
  · rw [routeOf_numbers hall]
    refine ⟨fun h => absurd h (by simp), ?_⟩
    rintro ⟨left, t, right, rfl, hlen, -⟩
    rw [hall t (by simp)] at hlen
    simp at hlen
  · -- the target is the last segment that is no number, so it is unique
    have htaken : Taken (left ++ t :: right) ↔ 2 ≤ (elementRest t).length ∧
        (if (right.head?).elim 0 elementNumber ≠ 0 then True
        else left = [] ∨ ∃ front parent p, left = front ++ [parent, p] ∧ elementNumber p ≠ 0 ∧
          2 ≤ parent.length) := by
      constructor
      · rintro ⟨left', t', right', heq, hlen, hright', hrest⟩
        have ht' : elementRest t' ≠ [] := by
          rw [← List.length_pos_iff]
          omega
        obtain ⟨rfl, rfl, rfl⟩ := target_unique heq ht ht' hright hright'
        exact ⟨hlen, hrest⟩
      · rintro ⟨hlen, hrest⟩
        exact ⟨left, t, right, rfl, hlen, hright, hrest⟩
    rw [htaken]
    by_cases hkey : (right.head?).elim 0 elementNumber = 0
    · rw [if_neg (by simp [hkey])]
      rcases List.eq_nil_or_concat' left with rfl | ⟨init, p, rfl⟩
      · rw [List.nil_append, routeOf_table right ht hright hkey]
        split <;> simp_all
      · rcases List.eq_nil_or_concat' init with rfl | ⟨front, parent, rfl⟩
        · rw [List.nil_append, List.singleton_append, routeOf_single right ht hright p hkey]
          simp only [Option.isSome_none, Bool.false_eq_true, List.cons_ne_nil, false_or, false_iff,
            not_and, not_exists]
          intro _ front parent q hlist
          have := congrArg List.length hlist
          simp at this
        · have hassoc : front ++ [parent] ++ [p] = front ++ [parent, p] := by simp
          rw [hassoc, routeOf_parent right ht hright front parent p hkey]
          -- the parent stands directly in front of its number
          have huniq : (∃ front' parent' p', front ++ [parent, p] = front' ++ [parent', p'] ∧
              elementNumber p' ≠ 0 ∧ 2 ≤ parent'.length) ↔
                elementNumber p ≠ 0 ∧ 2 ≤ parent.length := by
            constructor
            · rintro ⟨front', parent', p', heq, hp, hparent⟩
              obtain ⟨-, hlast⟩ := List.append_inj' heq rfl
              obtain ⟨rfl, hcons⟩ := List.cons.inj hlast
              obtain ⟨rfl, -⟩ := List.cons.inj hcons
              exact ⟨hp, hparent⟩
            · rintro ⟨hp, hparent⟩
              exact ⟨front, parent, p, rfl, hp, hparent⟩
          rw [huniq]
          have hne : front ++ [parent, p] ≠ [] := by simp
          simp only [hne, false_or]
          split <;> simp_all
    · rw [if_pos hkey, routeOf_key right ht hright left hkey]
      split <;> simp_all

/-! ### The documented forms -/

/-- What `strtol` leaves of an element is a part of it. -/
theorem elementRest_isInfix (s : Bytes) : elementRest s <:+: s :=
  (strtol_rest_suffix 10 (cstr s)).isInfix.trans (List.takeWhile_prefix _).isInfix

/-- The table's name comes out as it is written exactly when `strtol` leaves the
whole segment. -/
theorem dropLast_elementRest_iff {x : Bytes} (hx : x ≠ []) :
    (elementRest (x ++ str "s")).dropLast = x ↔ elementRest (x ++ str "s") = x ++ str "s" := by
  constructor
  · intro h
    refine (elementRest_isInfix _).eq_of_length ?_
    have hlen := congrArg List.length h
    have hpos := List.length_pos_iff.mpr hx
    rw [List.length_dropLast] at hlen
    have hs : (str "s").length = 1 := rfl
    rw [List.length_append, hs]
    omega
  · intro h
    rw [h]
    simp [str]

theorem elementRest_numeral {k : Bytes} (h : Numeral k) : elementRest k = [] := by
  rw [elementRest, cstr_of_numeral h, strtol_numeral h]

theorem elementNumber_numeral {k : Bytes} (h : Numeral k) :
    elementNumber k = toInt32 (clampLong (digitsValue 10 k)) := by
  rw [elementNumber, cstr_of_numeral h, strtol_numeral h]

theorem length_plural {x : Bytes} (hx : x ≠ []) : 2 ≤ (x ++ str "s").length := by
  have hpos := List.length_pos_iff.mpr hx
  have hs : (str "s").length = 1 := rfl
  rw [List.length_append, hs]
  omega

/-- A table's name that `strtol` leaves nothing of does not read back. -/
theorem not_readsBack {r : Route} (h : elementRest (r.table ++ str "s") = []) : ¬ ReadsBack r := by
  rintro ⟨hrest, -, -⟩
  rw [h] at hrest
  simp [str] at hrest

/-- **A documented form is classified as it is meant exactly when it reads back.** -/
theorem routeOf_documented_iff {segments : List Bytes} {r : Route} (h : Documented segments r) :
    routeOf segments = some r ↔ ReadsBack r := by
  cases h with
  | @table x hx =>
    by_cases ht : elementRest (x ++ str "s") = []
    · -- the name of the table is read as a number
      rw [routeOf_numbers (by simpa using ht)]
      simp [not_readsBack (r := ⟨x, 0, [], 0⟩) ht]
    · rw [routeOf_table [] ht (by simp) rfl, ReadsBack, ← dropLast_elementRest_iff hx]
      constructor
      · intro h
        split at h
        · injection h with h
          exact ⟨congrArg Route.table h, by norm_num, by norm_num⟩
        · cases h
      · rintro ⟨hdrop, -, -⟩
        rw [if_pos (two_le_of_dropLast hx hdrop), hdrop]
  | @row x k hx hk hv =>
    have hknum := elementRest_numeral hk
    have hkval := elementNumber_numeral hk
    by_cases ht : elementRest (x ++ str "s") = []
    · rw [routeOf_numbers (by simp [ht, hknum])]
      simp [not_readsBack (r := ⟨x, digitsValue 10 k, [], 0⟩) ht]
    · rw [ReadsBack, ← dropLast_elementRest_iff hx]
      by_cases hkey : elementNumber k = 0
      · -- a key that is read as 0 is no key
        rw [routeOf_table [k] ht (by simpa using hknum) (by simpa using hkey)]
        constructor
        · intro h
          split at h
          · injection h with h
            have := congrArg Route.tableKey h
            simp at this
            omega
          · cases h
        · rintro ⟨-, hlt, -⟩
          rw [hkval, toInt32_clampLong_nat_iff.mpr (by simpa using hlt)] at hkey
          omega
      · have hroute := routeOf_key [k] ht (by simpa using hknum) []
          (by simpa using hkey)
        rw [List.nil_append] at hroute
        rw [hroute]
        simp only [List.head?_cons, Option.elim_some, hkval]
        constructor
        · intro h
          split at h
          · injection h with h
            have htable := congrArg Route.table h
            have hkeys := congrArg Route.tableKey h
            simp only at htable hkeys
            refine ⟨htable, ?_, by norm_num⟩
            have := toInt32_clampLong_nat_iff.mp hkeys
            simpa using this
          · cases h
        · rintro ⟨hdrop, hlt, -⟩
          rw [toInt32_clampLong_nat_iff.mpr (by simpa using hlt),
            if_pos (two_le_of_dropLast hx hdrop), hdrop]
  | @children y p x hy hp hv hx =>
    have hpnum := elementRest_numeral hp
    have hpval := elementNumber_numeral hp
    by_cases ht : elementRest (x ++ str "s") = []
    · -- the target is read as a number, and what stands for the parent is taken for the table
      simp only [not_readsBack (r := ⟨x, 0, y, digitsValue 10 p⟩) ht, iff_false]
      by_cases hparent : elementRest (y ++ str "s") = []
      · rw [routeOf_numbers (by simp [ht, hparent, hpnum])]
        simp
      · have hright : ∀ s ∈ [p, x ++ str "s"], elementRest s = [] := by simp [ht, hpnum]
        by_cases hkey : elementNumber p = 0
        · rw [routeOf_table _ hparent hright (by simpa using hkey)]
          split <;> simp [hy.symm]
        · have hroute := routeOf_key _ hparent hright [] (by simpa using hkey)
          rw [List.nil_append] at hroute
          rw [hroute]
          split <;> simp [hy.symm]
    · have hroute := routeOf_parent [] ht (by simp) [] (y ++ str "s") p rfl
      simp only [List.nil_append, List.cons_append] at hroute
      rw [hroute, ReadsBack, ← dropLast_elementRest_iff hx, hpval]
      -- the plural of the parent is stripped as well
      have hplural : (y ++ str "s").dropLast = y := by simp [str]
      have hlen := length_plural hy
      constructor
      · intro h
        split at h
        · injection h with h
          have htable := congrArg Route.table h
          have hkeys := congrArg Route.parentKey h
          simp only at htable hkeys
          refine ⟨htable, by norm_num, ?_⟩
          have := toInt32_clampLong_nat_iff.mp hkeys
          simpa using this
        · cases h
      · rintro ⟨hdrop, -, hlt⟩
        have hval : toInt32 (clampLong (digitsValue 10 p)) = digitsValue 10 p :=
          toInt32_clampLong_nat_iff.mpr (by simpa using hlt)
        rw [if_pos ⟨two_le_of_dropLast hx hdrop, by rw [hval]; exact_mod_cast hv, hlen⟩, hdrop,
          hval, hplural]

/-- The segments of a documented form are not empty. -/
theorem documented_ne_nil {segments : List Bytes} {r : Route} (h : Documented segments r) :
    segments ≠ [] ∧ ∀ s ∈ segments, s ≠ [] := by
  cases h with
  | table hx => simp [str]
  | row hx hk _ => simp [str, hk.1]
  | children hy hp _ hx => simp [str, hp.1]

/-- The code takes a documented URI apart into the segments of its form. -/
theorem uriElements_documented {uri rest : Bytes} {r : Route}
    (hpath : upTo (chr '?') uri = str "/API/" ++ rest)
    (hdoc : Documented (rest.splitOn (chr '/')) r) :
    uriElements uri = some (rest.splitOn (chr '/')) := by
  have hstrip : stripQuery uri = str "/API/" ++ rest := by
    have hhead : find (str "?") uri ≠ some 0 := by
      intro hfind
      have hfront : uri.head? = some (chr '?') := find_singleton_eq_zero.mp hfind
      rw [upTo] at hpath
      cases uri with
      | nil => cases hfront
      | cons b s =>
        cases hfront
        simp [str] at hpath
    rw [stripQuery, if_pos hhead, hpath]
  have hlen : (str "/API/").length = 5 := rfl
  rw [uriElements, hstrip, substrFrom?, if_pos (by rw [List.length_append, hlen]; omega),
    Option.map_some, ← hlen, List.drop_left]
  congr 1
  exact List.filter_eq_self.mpr fun s hs => by simpa using (documented_ne_nil hdoc).2 s hs

/-- Objects for different routes are different. -/
theorem restObject_inj {method : Bytes} {r r' : Route}
    (h : restObject method r = restObject method r') : r = r' := by
  have hacc := congrArg RestObject.access h
  simp only [restObject, DataAccess.setTable, DataAccess.setParent, DataAccess.mk.injEq] at hacc
  obtain ⟨-, -, htable, hkey, hparent, hparentKey, -⟩ := hacc
  cases r
  cases r'
  simp_all

theorem create_documented_iff {uri : Bytes} {r : Route} (h : DocumentedUri uri r) (method : Bytes) :
    create method uri = some (some (restObject method r)) ↔ ReadsBack r := by
  obtain ⟨rest, hpath, hdoc⟩ := h
  rw [create, uriElements_documented hpath hdoc, Option.map_some,
    if_neg (documented_ne_nil hdoc).1, ← routeOf_documented_iff hdoc]
  constructor
  · intro h
    obtain ⟨r', hr', heq⟩ := Option.map_eq_some_iff.mp (Option.some.inj h)
    rw [hr', restObject_inj heq]
  · intro h
    rw [h, Option.map_some]

theorem create_eq_none_iff (method uri : Bytes) :
    create method uri = some none ↔
      ∃ elements, uriElements uri = some elements ∧ ¬ Taken elements := by
  have htaken : ∀ es : List Bytes, ¬ Taken es ↔ routeOf es = none := by
    intro es
    rw [← routeOf_isSome_iff, Option.not_isSome_iff_eq_none]
  simp only [create, htaken]
  cases hes : uriElements uri with
  | none => simp
  | some es =>
    by_cases hnil : es = []
    · have hroute : routeOf [] = none := routeOf_numbers (by simp)
      simp [hnil, hroute]
    · simp [hnil]

/-- Conditions on one table tell different keys apart. -/
theorem keyCondition_inj {table : Bytes} {op : String} {key key' : ℤ}
    (h : keyCondition table op key = keyCondition table op key') : key = key' :=
  decimal_injective (List.append_cancel_left h)

/-- **Exact routing keeps different keys apart**: the objects of two URIs for rows
of one table have different conditions in their statements. -/
theorem routes_apart {uri uri' : Bytes} {r r' : Route} (hex : RoutesExactly uri)
    (hex' : RoutesExactly uri') (h : DocumentedUri uri r) (h' : DocumentedUri uri' r')
    (hne : r.tableKey ≠ r'.tableKey) (method op) :
    ∃ o o', create method uri = some (some o) ∧ create method uri' = some (some o') ∧
      (r.table = r'.table → keyCondition o.access.table op o.access.tableKey
        ≠ keyCondition o'.access.table op o'.access.tableKey) := by
  refine ⟨_, _, hex.created r h method, hex'.created r' h' method, fun htable heq => hne ?_⟩
  simp only [restObject, DataAccess.setTable, DataAccess.setParent, htable] at heq
  exact keyCondition_inj heq

/-- **Routing is exact exactly under `RouteCondition`.** -/
theorem routesExactly_iff (uri : Bytes) : RoutesExactly uri ↔ RouteCondition uri := by
  constructor
  · intro h
    refine ⟨fun r hr => ?_, fun hnone => ?_⟩
    · exact (create_documented_iff hr []).mp (h.created r hr [])
    · exact (create_eq_none_iff [] uri).mp (h.rejected hnone [])
  · rintro ⟨hdoc, hother⟩
    have hcreated : ∀ r, DocumentedUri uri r → ∀ method,
        create method uri = some (some (restObject method r)) := by
      intro r hr method
      exact (create_documented_iff hr method).mpr (hdoc r hr)
    refine ⟨hcreated, fun hnone method => ?_, fun r hr _ method => ?_⟩
    · exact (create_eq_none_iff method uri).mpr (hother hnone)
    · refine ⟨_, hcreated r hr method, fun op key => ?_⟩
      simp only [restObject, DataAccess.setTable, DataAccess.setParent]
      constructor
      · intro h
        exact (keyCondition_inj h).symm
      · rintro rfl
        rfl

/-- The digit in front of a table's name is dropped: `/API/1Wires/7` is a
documented path for the table `1Wire`, and addresses the table `Wire`. -/
theorem digits_dropped : ¬ RoutesExactly (str "/API/1Wires/7") := by
  intro h
  have hdoc : DocumentedUri (str "/API/1Wires/7") ⟨str "1Wire", 7, [], 0⟩ := by
    refine ⟨str "1Wires/7", by decide, ?_⟩
    exact Documented.row (x := str "1Wire") (k := str "7") (by decide) (by decide) (by decide)
  exact absurd (h.created _ hdoc []) (by decide)

end Domoticz
