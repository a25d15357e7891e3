import Domoticz.CLib.Search
import Domoticz.Web.PercentDecoding

/-!
# The parameters of a query

`CheckForPageOverride` decodes the whole URI first, and refuses it if that fails.  Then it takes the
raw query apart: a name goes up to the next `=`, its value up to the next `&` behind that.  So a
member without `=` becomes a part of the next name.  Names are not decoded, and whether the value
could be is not asked.

## Main definitions

* `uriParameters` — what is made of a URI.
* `queryPairs` — the loop over the query, on what is left of it.
* `Uri` — a path and a query.
* `Written` — the members that a list of parameters is written as.
* `Inverted` — what is asked of the parameters.
* `PlainNames`, `Adjoined` — names without escapes, and members that stand in front of a name.

## Main results

* `queryFrom_eq` — the loop inserts the pairs.
* `inverted_iff` — **the parameters are those of the query exactly if, where it is well-formed, its
  names are plain and nothing is in front of them, and where it is not, a piece of it cannot be
  read.**
* `name_not_decoded` — a name with a blank.
-/

namespace Domoticz

open CLib

/-! ### The loop -/

/-- What `cWebem::CheckForPageOverride` makes of a URI: a bad request, or the parameters, to which a
multipart body may still add its field. -/
def uriParameters (uri : Bytes) : Option (Except Status (List (Bytes × Bytes))) :=
  (urlDecode? uri).bind fun decoded =>
    if decoded.1 = false then some (.error .badRequest)
    else (queryParameters? uri).map .ok

/-- A value of the query: the browser sends blanks as +, and whether it can be decoded is not
asked. -/
def decodeValue (value : Bytes) : Bytes :=
  (urlDecode (value.map fun b => if b = chr '+' then chr ' ' else b)).2

/-- The names and values of a query. -/
def queryPairs (s : Bytes) : List (Bytes × Bytes) :=
  match _h : cut (str "=") s with
  | none => []
  | some (name, rest) =>
      match _h' : cut (str "&") rest with
      | none => [(name, decodeValue rest)]
      | some (value, rest') => (name, decodeValue value) :: queryPairs rest'
termination_by s.length
decreasing_by
  have h1 := length_of_cut _h
  have h2 := length_of_cut _h'
  have hs : (str "=").length = 1 := rfl
  omega

/-- The multimap that some pairs are inserted into, one after the other. -/
def insertAll (params pairs : List (Bytes × Bytes)) : List (Bytes × Bytes) :=
  pairs.foldl (fun params p => insertParameter p.1 p.2 params) params

theorem insertAll_cons (params pairs : List (Bytes × Bytes)) (p : Bytes × Bytes) :
    insertAll params (p :: pairs) = insertAll (insertParameter p.1 p.2 params) pairs := rfl

section Pairs

variable {s name value rest rest' : Bytes}

theorem queryPairs_of_none (h : cut (str "=") s = none) : queryPairs s = [] := by
  rw [queryPairs]
  split
  · rfl
  · next h' =>
    rw [h] at h'
    cases h'

theorem queryPairs_of_last (h : cut (str "=") s = some (name, rest))
    (h' : cut (str "&") rest = none) : queryPairs s = [(name, decodeValue rest)] := by
  rw [queryPairs]
  split
  · next hnone =>
    rw [h] at hnone
    cases hnone
  · next hsome =>
    rw [h] at hsome
    cases hsome
    split
    · rfl
    · next hmore =>
      rw [h'] at hmore
      cases hmore

theorem queryPairs_of_more (h : cut (str "=") s = some (name, rest))
    (h' : cut (str "&") rest = some (value, rest')) :
    queryPairs s = (name, decodeValue value) :: queryPairs rest' := by
  rw [queryPairs]
  split
  · next hnone =>
    rw [h] at hnone
    cases hnone
  · next hsome =>
    rw [h] at hsome
    cases hsome
    split
    · next hlast =>
      rw [h'] at hlast
      cases hlast
    · next hmore =>
      rw [h'] at hmore
      cases hmore
      rfl

end Pairs

/-- The loop inserts the pairs of the query. -/
theorem queryFrom_eq (uri : Bytes) {p : ℕ} (hp : p ≤ uri.length) (params : List (Bytes × Bytes)) :
    queryFrom uri p params = some (insertAll params (queryPairs (uri.drop p))) := by
  have hlen : (str "=").length = 1 := rfl
  have hlen' : (str "&").length = 1 := rfl
  induction hn : uri.length - p using Nat.strong_induction_on generalizing p params with
  | _ n ih =>
    have hfind := @findFrom_eq_cut (str "=") _ _ hp
    rw [queryFrom]
    split
    · next hnone =>
      rw [hnone, eq_comm, Option.map_eq_none_iff] at hfind
      -- no further equals sign
      rw [queryPairs_of_none hfind]
      rfl
    · next q hq =>
      obtain ⟨hpq, hql⟩ := findFrom_bounds hq
      rw [hq, eq_comm, Option.map_eq_some_iff] at hfind
      obtain ⟨⟨name, rest⟩, hcut, rfl⟩ := hfind
      obtain ⟨hname, hrest⟩ := cut_drop hcut
      dsimp only at hpq hql ⊢
      rw [substr?_of_le hp, sizeSub_of_le hpq, Nat.add_sub_cancel_left, hname, Option.bind_some]
      simp only [urlDecode?_eq, Option.map_some, hlen] at hrest ⊢
      have hfind' := @findFrom_eq_cut (str "&") uri (p + name.length + 1)
        (by rw [hlen] at hql; exact hql)
      rw [hrest] at hfind'
      split
      · next hnone =>
        rw [hnone, eq_comm, Option.map_eq_none_iff] at hfind'
        -- the last value
        rw [substrFrom?_of_le (by omega), hrest, queryPairs_of_last hcut hfind']
        rfl
      · next q' hq' =>
        obtain ⟨hqq, hql'⟩ := findFrom_bounds hq'
        rw [hq', eq_comm, Option.map_eq_some_iff] at hfind'
        obtain ⟨⟨value, rest'⟩, hcut', rfl⟩ := hfind'
        dsimp only at hqq hql' ⊢
        have hcut'' := hcut'
        rw [← hrest] at hcut''
        obtain ⟨hvalue, hrest'⟩ := cut_drop hcut''
        rw [substr?_of_le (by omega), sizeSub_of_le hqq, Nat.add_sub_cancel_left, hvalue,
          Option.bind_some, Option.bind_some, ih _ (by omega) (by omega) _ rfl,
          queryPairs_of_more hcut hcut', insertAll_cons]
        rw [hlen'] at hrest'
        rw [hrest']
        rfl

/-! ### The members of a query -/

/-- A URI with a query; the path in front of it is well-formed. -/
structure Uri where
  path : Bytes
  query : Bytes
  path_plain : chr '?' ∉ path
  path_wellFormed : WellFormed path

/-- The URI as it is requested. -/
def Uri.text (u : Uri) : Bytes := u.path ++ chr '?' :: u.query

/-- What stands between the separators of the query. -/
def Uri.members (u : Uri) : List Bytes := u.query.splitOn (chr '&')

/-- Some members are a list of parameters: a name and a value, each encoded, with a `=` between
them.  Members without it stand for nothing. -/
inductive Written : List (Bytes × Bytes) → List Bytes → Prop
  | nil : Written [] []
  | pair {name value n v : Bytes} {l : List (Bytes × Bytes)} {ms : List Bytes} :
      Encodes name n → Encodes value v → chr '=' ∉ n → chr '&' ∉ n → chr '&' ∉ v → Written l ms →
      Written ((name, value) :: l) ((n ++ chr '=' :: v) :: ms)
  | stray {m : Bytes} {l : List (Bytes × Bytes)} {ms : List Bytes} :
      WellFormed m → chr '=' ∉ m → chr '&' ∉ m → Written l ms → Written l (m :: ms)

/-- What is asked of the parameters of a URI. -/
structure Inverted (u : Uri) : Prop where
  inverts : ∀ l ms, Written l ms → u.query = [chr '&'].intercalate ms →
    uriParameters u.text = some (.ok (insertAll [] l))
  refuses : (∃ m ∈ u.members, ¬ WellFormed m) →
    uriParameters u.text = some (.error .badRequest)

/-- The names of the members have neither escapes nor blanks. -/
def PlainNames (ms : List Bytes) : Prop :=
  ∀ n v, n ++ chr '=' :: v ∈ ms → chr '=' ∉ n → chr '%' ∉ n ∧ chr '+' ∉ n

/-- No member without `=` stands in front of one with it. -/
def NothingInFront (ms : List Bytes) : Prop :=
  ms.Pairwise fun m m' => chr '=' ∈ m' → chr '=' ∈ m

/-- The parameters that some members stand for. -/
def decodedPairs (ms : List Bytes) : List (Bytes × Bytes) :=
  ms.filterMap fun m => (cut (str "=") m).map fun c => (percentDecoded c.1, percentDecoded c.2)

/-- The pairs that the loop makes of some members, with a text in front of them. -/
def joinedPairs (front : Bytes) : List Bytes → List (Bytes × Bytes)
  | [] => []
  | m :: ms =>
      match cut (str "=") m with
      | some (n, v) => (front ++ n, decodeValue v) :: joinedPairs [] ms
      | none => joinedPairs (front ++ m ++ [chr '&']) ms

section Members

variable {front m n v : Bytes} {ms : List Bytes}

theorem joinedPairs_pair (h : chr '=' ∉ n) : joinedPairs front ((n ++ chr '=' :: v) :: ms) =
    (front ++ n, decodeValue v) :: joinedPairs [] ms := by
  have hcut : cut (str "=") (n ++ chr '=' :: v) = some (n, v) := cut_singleton h v
  rw [joinedPairs, hcut]

theorem joinedPairs_stray (h : chr '=' ∉ m) : joinedPairs front (m :: ms) =
    joinedPairs (front ++ m ++ [chr '&']) ms := by
  have hcut : cut (str "=") m = none := cut_singleton_eq_none_iff.mpr h
  rw [joinedPairs, hcut]

theorem decodedPairs_pair (h : chr '=' ∉ n) : decodedPairs ((n ++ chr '=' :: v) :: ms) =
    (percentDecoded n, percentDecoded v) :: decodedPairs ms := by
  have hcut : cut (str "=") (n ++ chr '=' :: v) = some (n, v) := cut_singleton h v
  rw [decodedPairs, List.filterMap_cons, hcut]
  rfl

theorem decodedPairs_stray (h : chr '=' ∉ m) : decodedPairs (m :: ms) = decodedPairs ms := by
  have hcut : cut (str "=") m = none := cut_singleton_eq_none_iff.mpr h
  rw [decodedPairs, List.filterMap_cons, hcut]
  rfl

/-- A member is a pair, or has no `=`. -/
theorem member_cases (m : Bytes) :
    (∃ n v, m = n ++ chr '=' :: v ∧ chr '=' ∉ n) ∨ chr '=' ∉ m := by
  by_cases h : chr '=' ∈ m
  · exact .inl (List.eq_append_cons_of_mem h)
  · exact .inr h

end Members

/-- The pairs of a query, by its members. -/
theorem queryPairs_intercalate {front : Bytes} {ms : List Bytes} (hfront : chr '=' ∉ front)
    (hms : ∀ m ∈ ms, chr '&' ∉ m) :
    queryPairs (front ++ [chr '&'].intercalate ms) = joinedPairs front ms := by
  have hstop {s : Bytes} (h : chr '=' ∉ s) : queryPairs s = [] :=
    queryPairs_of_none (cut_singleton_eq_none_iff.mpr h)
  induction ms generalizing front with
  | nil =>
    rw [List.intercalate_nil, List.append_nil]
    exact hstop hfront
  | cons m ms ih =>
    rw [List.forall_mem_cons] at hms
    obtain ⟨hm, hms⟩ := hms
    rcases member_cases m with ⟨n, v, rfl, hn⟩ | hstray
    · rw [joinedPairs_pair hn]
      have hname : chr '=' ∉ front ++ n := List.not_mem_append hfront hn
      have hv : chr '&' ∉ v := fun h => hm (List.mem_append_right _ (List.mem_cons_of_mem _ h))
      cases ms with
      | nil =>
        rw [List.intercalate_singleton, ← List.append_assoc]
        exact queryPairs_of_last (cut_singleton hname v) (cut_singleton_eq_none_iff.mpr hv)
      | cons m' ms =>
        rw [List.intercalate_cons_cons, ← ih List.not_mem_nil hms, List.nil_append]
        refine @queryPairs_of_more _ _ _ (v ++ chr '&' :: [chr '&'].intercalate (m' :: ms)) _ ?_
          (cut_singleton hv _)
        simp only [List.append_assoc, List.cons_append, List.nil_append]
        rw [← List.append_assoc front n]
        exact cut_singleton hname _
    · rw [joinedPairs_stray hstray]
      cases ms with
      | nil =>
        rw [List.intercalate_singleton]
        exact hstop (List.not_mem_append hfront hstray)
      | cons m' ms =>
        rw [List.intercalate_cons_cons, ← List.append_assoc, ← List.append_assoc]
        refine ih ?_ hms
        refine List.not_mem_append (List.not_mem_append hfront hstray) ?_
        decide

/-! ### Well-formed members -/

/-- A byte that is no digit ends the triples in front of it. -/
theorem wellFormed_append_cons {c : UInt8} (hc : c ≠ chr '%') (hdigit : isDigit 16 c = false)
    (s t : Bytes) : WellFormed (s ++ c :: t) ↔ WellFormed s ∧ WellFormed t := by
  simp only [wellFormed_iff]
  induction s using pieces_induction with
  | nil =>
    rw [List.nil_append, pieces_plain hc, List.forall_mem_cons]
    exact (and_iff_right trivial).trans (and_iff_right (List.forall_mem_nil _)).symm
  | plain d s hd ih =>
    rw [List.cons_append, pieces_plain hd, pieces_plain hd, List.forall_mem_cons,
      List.forall_mem_cons, ih, and_assoc]
  | escape a b s ih =>
    rw [List.cons_append, List.cons_append, List.cons_append, pieces_escape, pieces_escape,
      List.forall_mem_cons, List.forall_mem_cons, ih, and_assoc]
  | cutOff s hs =>
    rw [pieces_short hs]
    refine iff_of_false (fun h => ?_) fun h => h.1 _ List.mem_cons_self
    rcases s with _ | ⟨a, _ | ⟨b, s⟩⟩
    · rcases t with _ | ⟨b, t⟩
      · exact h _ List.mem_cons_self
      · rw [List.cons_append, List.nil_append, pieces_escape] at h
        rw [(h _ List.mem_cons_self).1] at hdigit
        cases hdigit
    · rw [List.cons_append, List.cons_append, List.nil_append, pieces_escape] at h
      rw [(h _ List.mem_cons_self).2] at hdigit
      cases hdigit
    · rw [List.length_cons, List.length_cons] at hs
      omega

theorem pieces_append {s : Bytes} (h : WellFormed s) (t : Bytes) :
    pieces (s ++ t) = pieces s ++ pieces t := by
  rw [wellFormed_iff] at h
  induction s using pieces_induction with
  | nil => rfl
  | plain c s hc ih =>
    rw [pieces_plain hc, List.forall_mem_cons] at h
    rw [List.cons_append, pieces_plain hc, pieces_plain hc, ih h.2, List.cons_append]
  | escape a b s ih =>
    rw [pieces_escape, List.forall_mem_cons] at h
    rw [List.cons_append, List.cons_append, List.cons_append, pieces_escape, pieces_escape, ih h.2,
      List.cons_append]
  | cutOff s hs =>
    rw [pieces_short hs] at h
    exact absurd (h _ List.mem_cons_self) id

/-- A query is well-formed exactly if its members are. -/
theorem wellFormed_iff_members (s : Bytes) :
    WellFormed s ↔ ∀ m ∈ s.splitOn (chr '&'), WellFormed m := by
  induction hn : s.length using Nat.strong_induction_on generalizing s with
  | _ n ih =>
    by_cases hc : chr '&' ∈ s
    · obtain ⟨front, rest, rfl, hfront⟩ := List.eq_append_cons_of_mem hc
      rw [List.length_append, List.length_cons] at hn
      rw [List.splitOn_append_cons_self_of_not_mem hfront, List.forall_mem_cons,
        wellFormed_append_cons (by decide) (by decide), ih _ (by omega) rest rfl]
    · rw [List.splitOn_eq_singleton hc, List.forall_mem_singleton]

theorem WellFormed.of_pair {n v : Bytes} (h : WellFormed (n ++ chr '=' :: v)) :
    WellFormed n ∧ WellFormed v :=
  (wellFormed_append_cons (by decide) (by decide) n v).mp h

/-- A digit has the value of half a byte. -/
theorem digitValue_of_denoted {a b : UInt8} (ha : isDigit 16 a = true) (hb : isDigit 16 b = true) :
    digitValue a = some ((Piece.escape a b).denoted.toNat / 16) ∧
      digitValue b = some ((Piece.escape a b).denoted.toNat % 16) := by
  obtain ⟨x, hx, hx16⟩ : ∃ x, digitValue a = some x ∧ x < 16 := by
    simpa [isDigit, Option.any_eq_true] using ha
  obtain ⟨y, hy, hy16⟩ : ∃ y, digitValue b = some y ∧ y < 16 := by
    simpa [isDigit, Option.any_eq_true] using hb
  have hvalue : (Piece.escape a b).denoted.toNat = x * 16 + y := by
    simp [Piece.denoted, digitsValue, hx, hy]
    omega
  rw [hvalue, hx, hy, Option.some.injEq, Option.some.injEq]
  omega

/-- A well-formed text is an encoding of its decoding. -/
theorem encodes_percentDecoded {s : Bytes} (h : WellFormed s) : Encodes (percentDecoded s) s := by
  rw [wellFormed_iff] at h
  rw [percentDecoded]
  induction s using pieces_induction with
  | nil => exact .nil
  | plain c s hc ih =>
    rw [pieces_plain hc, List.forall_mem_cons] at h
    rw [pieces_plain hc, List.map_cons, Piece.denoted]
    by_cases hplus : c = chr '+'
    · rw [if_pos hplus, hplus]
      exact .blank (ih h.2)
    · rw [if_neg hplus]
      exact .plain hc hplus (ih h.2)
  | escape a b s ih =>
    rw [pieces_escape, List.forall_mem_cons] at h
    obtain ⟨ha, hb⟩ := digitValue_of_denoted h.1.1 h.1.2
    rw [pieces_escape, List.map_cons]
    exact .escape ha hb (ih h.2)
  | cutOff s hs =>
    rw [pieces_short hs] at h
    exact absurd (h _ List.mem_cons_self) id

/-- Well-formed members are written for what they stand for. -/
theorem written_decodedPairs {ms : List Bytes} (hms : ∀ m ∈ ms, chr '&' ∉ m)
    (hwell : ∀ m ∈ ms, WellFormed m) : Written (decodedPairs ms) ms := by
  induction ms with
  | nil => exact .nil
  | cons m ms ih =>
    rw [List.forall_mem_cons] at hms hwell
    have htail := ih hms.2 hwell.2
    rcases member_cases m with ⟨n, v, rfl, hn⟩ | hstray
    · obtain ⟨hname, hvalue⟩ := hwell.1.of_pair
      have hplain := hms.1
      rw [List.mem_append, List.mem_cons, not_or, not_or] at hplain
      rw [decodedPairs_pair hn]
      exact .pair (encodes_percentDecoded hname) (encodes_percentDecoded hvalue) hn hplain.1
        hplain.2.2 htail
    · rw [decodedPairs_stray hstray]
      exact .stray hwell.1 hstray hms.1 htail

/-- What members are written for is what they stand for. -/
theorem Written.eq_decodedPairs {l : List (Bytes × Bytes)} {ms : List Bytes} (h : Written l ms) :
    l = decodedPairs ms ∧ ∀ m ∈ ms, chr '&' ∉ m ∧ WellFormed m := by
  induction h with
  | nil => exact ⟨rfl, List.forall_mem_nil _⟩
  | pair hname hvalue hn hname' hvalue' _ ih =>
    obtain ⟨hnameProper, hnameText⟩ := hname.proper
    obtain ⟨hvalueProper, hvalueText⟩ := hvalue.proper
    rw [decodedPairs_pair hn, hnameText, hvalueText, ← ih.1]
    refine ⟨rfl, List.forall_mem_cons.mpr ⟨⟨?_, ?_⟩, ih.2⟩⟩
    · rw [List.mem_append, List.mem_cons, not_or, not_or]
      exact ⟨hname', by decide, hvalue'⟩
    · rw [wellFormed_append_cons (by decide) (by decide), wellFormed_iff, wellFormed_iff]
      exact ⟨hnameProper, hvalueProper⟩
  | stray hwell hstray hm _ ih =>
    rw [decodedPairs_stray hstray]
    exact ⟨ih.1, List.forall_mem_cons.mpr ⟨⟨hm, hwell⟩, ih.2⟩⟩

/-! ### What the loop makes of the members -/

/-- A blank that is written as a plus sign may as well be one. -/
theorem percentDecoded_blanks {v : Bytes} (h : WellFormed v) :
    WellFormed (v.map fun b => if b = chr '+' then chr ' ' else b) ∧
      percentDecoded (v.map fun b => if b = chr '+' then chr ' ' else b) = percentDecoded v := by
  rw [wellFormed_iff] at h ⊢
  rw [percentDecoded, percentDecoded]
  induction v using pieces_induction with
  | nil => exact ⟨h, rfl⟩
  | plain c s hc ih =>
    rw [pieces_plain hc, List.forall_mem_cons] at h
    obtain ⟨hproper, htext⟩ := ih h.2
    have hc' : (if c = chr '+' then chr ' ' else c) ≠ chr '%' := by
      split
      · decide
      · exact hc
    rw [List.map_cons, pieces_plain hc', pieces_plain hc, List.forall_mem_cons, List.map_cons,
      List.map_cons, htext]
    refine ⟨⟨trivial, hproper⟩, congrArg (· :: _) ?_⟩
    simp only [Piece.denoted]
    by_cases hplus : c = chr '+'
    · rw [if_pos hplus]
      rfl
    · rw [if_neg hplus, if_neg hplus]
  | escape a b s ih =>
    rw [pieces_escape, List.forall_mem_cons] at h
    obtain ⟨hproper, htext⟩ := ih h.2
    have hkept {d : UInt8} (hd : isDigit 16 d = true) : (if d = chr '+' then chr ' ' else d) = d := by
      apply if_neg
      rintro rfl
      exact absurd hd (by decide)
    have hpercent : (if chr '%' = chr '+' then chr ' ' else chr '%') = chr '%' := by decide
    rw [List.map_cons, List.map_cons, List.map_cons, hkept h.1.1, hkept h.1.2, hpercent,
      pieces_escape, pieces_escape, List.forall_mem_cons, List.map_cons, List.map_cons, htext]
    exact ⟨⟨h.1, hproper⟩, rfl⟩
  | cutOff s hs =>
    rw [pieces_short hs] at h
    exact absurd (h _ List.mem_cons_self) id

/-- The value of a well-formed text is what it stands for. -/
theorem decodeValue_of_wellFormed {v : Bytes} (h : WellFormed v) :
    decodeValue v = percentDecoded v := by
  obtain ⟨hwell, htext⟩ := percentDecoded_blanks h
  rw [decodeValue, urlDecode_of_wellFormed hwell, htext]

/-- A decoding is not longer than the text, and only without escapes as long. -/
theorem length_percentDecoded {s : Bytes} (h : WellFormed s) :
    (percentDecoded s).length ≤ s.length ∧
      ((percentDecoded s).length = s.length → chr '%' ∉ s) := by
  rw [wellFormed_iff] at h
  rw [percentDecoded, List.length_map]
  induction s using pieces_induction with
  | nil => exact ⟨Nat.le_refl 0, fun _ => List.not_mem_nil⟩
  | plain c s hc ih =>
    rw [pieces_plain hc, List.forall_mem_cons] at h
    obtain ⟨hle, heq⟩ := ih h.2
    rw [pieces_plain hc, List.length_cons, List.length_cons, List.mem_cons, not_or]
    exact ⟨Nat.succ_le_succ hle, fun h => ⟨hc.symm, heq (Nat.succ.inj h)⟩⟩
  | escape a b s ih =>
    rw [pieces_escape, List.forall_mem_cons] at h
    obtain ⟨hle, -⟩ := ih h.2
    rw [pieces_escape, List.length_cons, List.length_cons, List.length_cons, List.length_cons]
    omega
  | cutOff s hs =>
    rw [pieces_short hs] at h
    exact absurd (h _ List.mem_cons_self) id

/-- Without escapes a decoding has no plus sign, and without these it is the text. -/
theorem percentDecoded_plain {s : Bytes} (h : chr '%' ∉ s) :
    chr '+' ∉ percentDecoded s ∧ (chr '+' ∉ s → percentDecoded s = s) := by
  induction s with
  | nil => exact ⟨List.not_mem_nil, fun _ => rfl⟩
  | cons c s ih =>
    rw [List.mem_cons, not_or] at h
    obtain ⟨hplus, htext⟩ := ih h.2
    rw [percentDecoded] at hplus htext
    rw [percentDecoded, pieces_plain (Ne.symm h.1), List.map_cons, List.mem_cons, List.mem_cons,
      not_or, not_or, Piece.denoted]
    by_cases hc : c = chr '+'
    · rw [if_pos hc]
      exact ⟨⟨by decide, hplus⟩, fun h => absurd hc.symm h.1⟩
    · rw [if_neg hc]
      exact ⟨⟨Ne.symm hc, hplus⟩, fun h => congrArg (c :: ·) (htext h.2)⟩

/-- The bytes of all names. -/
def nameBytes (l : List (Bytes × Bytes)) : Bytes := l.flatMap Prod.fst

/-- The names of the pairs are no shorter than those that the members stand for; and if they are
not longer, then there are no escapes in them and nothing in front of them. -/
theorem length_nameBytes {ms : List Bytes} (hwell : ∀ m ∈ ms, WellFormed m) (front : Bytes) :
    (nameBytes (decodedPairs ms)).length ≤ (nameBytes (joinedPairs front ms)).length ∧
      ((nameBytes (joinedPairs front ms)).length = (nameBytes (decodedPairs ms)).length →
        (∀ n v, n ++ chr '=' :: v ∈ ms → chr '=' ∉ n → chr '%' ∉ n) ∧ NothingInFront ms ∧
          (front ≠ [] → ∀ m ∈ ms, chr '=' ∉ m)) := by
  induction ms generalizing front with
  | nil =>
    refine ⟨Nat.le_refl 0, fun _ => ⟨?_, List.Pairwise.nil, fun _ => List.forall_mem_nil _⟩⟩
    intro n v h
    cases h
  | cons m ms ih =>
    rw [List.forall_mem_cons] at hwell
    rcases member_cases m with ⟨n, v, rfl, hn⟩ | hstray
    · obtain ⟨hle, heq⟩ := ih hwell.2 []
      obtain ⟨hlen, hplain⟩ := length_percentDecoded hwell.1.of_pair.1
      rw [joinedPairs_pair hn, decodedPairs_pair hn]
      simp only [nameBytes, List.flatMap_cons, List.length_append] at hle heq ⊢
      refine ⟨by omega, fun h => ?_⟩
      obtain ⟨hnames, hfront, -⟩ := heq (by omega)
      refine ⟨fun n' v' hmem hn' => ?_, List.pairwise_cons.mpr ⟨fun m' _ _ => ?_, hfront⟩, ?_⟩
      · rcases List.mem_cons.mp hmem with hsame | hmem
        · have hcut := cut_singleton hn' v'
          rw [hsame, cut_singleton hn v, Option.some.injEq, Prod.mk.injEq] at hcut
          rw [← hcut.1]
          exact hplain (by omega)
        · exact hnames n' v' hmem hn'
      · exact List.mem_append_right _ List.mem_cons_self
      · intro hne
        have hpos := List.length_pos_iff.mpr hne
        omega
    · obtain ⟨hle, heq⟩ := ih hwell.2 (front ++ m ++ [chr '&'])
      rw [joinedPairs_stray hstray, decodedPairs_stray hstray]
      refine ⟨hle, fun h => ?_⟩
      obtain ⟨hnames, hfront, hnone⟩ := heq h
      have hno := hnone (List.append_ne_nil_of_right_ne_nil _ (List.cons_ne_nil _ _))
      refine ⟨fun n' v' hmem hn' => ?_, List.pairwise_cons.mpr ⟨fun m' hm' h => ?_, hfront⟩,
        fun _ => List.forall_mem_cons.mpr ⟨hstray, hno⟩⟩
      · rcases List.mem_cons.mp hmem with rfl | hmem
        · exact absurd (List.mem_append_right _ List.mem_cons_self) hstray
        · exact hnames n' v' hmem hn'
      · exact absurd h (hno m' hm')

/-- Each byte of a name that is written is one of a name that is found. -/
theorem mem_nameBytes {ms : List Bytes} {n v : Bytes} (hmem : n ++ chr '=' :: v ∈ ms)
    (hn : chr '=' ∉ n) (front : Bytes) {b : UInt8} (hb : b ∈ n) :
    b ∈ nameBytes (joinedPairs front ms) := by
  induction ms generalizing front with
  | nil => cases hmem
  | cons m ms ih =>
    rcases List.mem_cons.mp hmem with rfl | hmem'
    · rw [joinedPairs_pair hn, nameBytes, List.flatMap_cons, List.mem_append, List.mem_append]
      exact .inl (.inr hb)
    · rcases member_cases m with ⟨n', v', rfl, hn'⟩ | hstray
      · rw [joinedPairs_pair hn', nameBytes, List.flatMap_cons, List.mem_append]
        exact .inr (ih hmem' [])
      · rw [joinedPairs_stray hstray]
        exact ih hmem' _

theorem plus_notMem_decodedPairs {ms : List Bytes}
    (h : ∀ n v, n ++ chr '=' :: v ∈ ms → chr '=' ∉ n → chr '%' ∉ n) :
    chr '+' ∉ nameBytes (decodedPairs ms) := by
  intro hplus
  obtain ⟨p, hp, hplus⟩ := List.mem_flatMap.mp hplus
  obtain ⟨m, hm, hcut⟩ := List.mem_filterMap.mp hp
  obtain ⟨⟨n, v⟩, hc, rfl⟩ := Option.map_eq_some_iff.mp hcut
  obtain ⟨rfl, hn⟩ := cut_singleton_eq_some_iff.mp hc
  exact (percentDecoded_plain (h n v hm hn)).1 hplus

/-- Plain names with nothing in front of them are found as they are. -/
theorem joinedPairs_eq {ms : List Bytes} (hwell : ∀ m ∈ ms, WellFormed m) (hplain : PlainNames ms)
    (hfront : NothingInFront ms) : joinedPairs [] ms = decodedPairs ms := by
  have hnone (front : Bytes) {ms : List Bytes} (h : ∀ m ∈ ms, chr '=' ∉ m) :
      joinedPairs front ms = [] ∧ decodedPairs ms = [] := by
    induction ms generalizing front with
    | nil => exact ⟨rfl, rfl⟩
    | cons m ms ih =>
      obtain ⟨hm, hms⟩ := List.forall_mem_cons.mp h
      rw [joinedPairs_stray hm, decodedPairs_stray hm]
      exact ih _ hms
  induction ms with
  | nil => rfl
  | cons m ms ih =>
    rw [List.forall_mem_cons] at hwell
    obtain ⟨hfirst, hrest⟩ := List.pairwise_cons.mp hfront
    have hnames : PlainNames ms := fun n v hmem => hplain n v (List.mem_cons_of_mem _ hmem)
    rcases member_cases m with ⟨n, v, rfl, hn⟩ | hstray
    · obtain ⟨hpercent, hplus⟩ := hplain n v List.mem_cons_self hn
      rw [joinedPairs_pair hn, decodedPairs_pair hn, ih hwell.2 hnames hrest, List.nil_append,
        decodeValue_of_wellFormed hwell.1.of_pair.2, (percentDecoded_plain hpercent).2 hplus]
    · have hno : ∀ m' ∈ ms, chr '=' ∉ m' := fun m' hm' h => hstray (hfirst m' hm' h)
      rw [joinedPairs_stray hstray, decodedPairs_stray hstray, (hnone _ hno).1, (hnone [] hno).2]

/-! ### The multimap -/

theorem insertParameter_perm (name value : Bytes) (params : List (Bytes × Bytes)) :
    (insertParameter name value params).Perm ((name, value) :: params) := by
  induction params with
  | nil => exact List.Perm.refl _
  | cons p params ih =>
    rw [insertParameter]
    split
    · exact List.Perm.refl _
    · exact (ih.cons p).trans (List.Perm.swap _ _ _)

/-- A multimap has the pairs that were inserted. -/
theorem insertAll_perm (params pairs : List (Bytes × Bytes)) :
    (insertAll params pairs).Perm (pairs ++ params) := by
  induction pairs generalizing params with
  | nil => exact List.Perm.refl _
  | cons p pairs ih =>
    rw [insertAll_cons]
    exact ((ih _).trans ((insertParameter_perm p.1 p.2 params).append_left pairs)).trans
      List.perm_middle

/-! ### Right parameters -/

/-- What becomes of a URI. -/
theorem uriParameters_text (u : Uri) : uriParameters u.text =
    if ∃ p ∈ pieces u.query, ¬ p.Readable then some (.error .badRequest)
    else some (.ok (insertAll [] (joinedPairs [] u.members))) := by
  have hquestion : find (str "?") u.text = some u.path.length :=
    find_singleton_append u.query u.path_plain
  have hlength : u.path.length + 1 ≤ u.text.length := by
    rw [Uri.text, List.length_append, List.length_cons]
    omega
  have hdrop : u.text.drop (u.path.length + 1) = u.query := by
    rw [Uri.text, ← List.drop_drop, List.drop_left]
    rfl
  have hparams : queryParameters? u.text = some (insertAll [] (joinedPairs [] u.members)) := by
    have hmembers := @queryPairs_intercalate [] _ List.not_mem_nil
      fun m hm => notMem_of_mem_splitOn (s := u.query) hm
    rw [List.nil_append, List.intercalate_splitOn] at hmembers
    simp only [queryParameters?, hquestion]
    rw [substrFrom?_of_le hlength, hdrop, Option.bind_some, queryFrom_eq _ (Nat.zero_le _),
      List.drop_zero, hmembers]
    rfl
  have hdecode : (urlDecode u.text).1 = true ↔ ¬ ∃ p ∈ pieces u.query, ¬ p.Readable := by
    have hpath : ∀ p ∈ pieces u.path, p.Readable :=
      fun p hp => ((wellFormed_iff u.path).mp u.path_wellFormed p hp).readable
    have hquestion : (Piece.plain (chr '?')).Readable := trivial
    rw [urlDecode_fst, Uri.text, pieces_append u.path_wellFormed, pieces_plain (by decide),
      List.forall_mem_append, List.forall_mem_cons, and_iff_right hpath, and_iff_right hquestion]
    push Not
    rfl
  rw [uriParameters, urlDecode?_eq, Option.bind_some, hparams]
  by_cases hread : ∃ p ∈ pieces u.query, ¬ p.Readable
  · rw [if_pos (Bool.eq_false_iff.mpr fun h => hdecode.mp h hread), if_pos hread]
  · rw [if_neg (ne_false_of_eq_true (hdecode.mpr hread)), if_neg hread]
    rfl

/-- **The parameters are those of the query exactly if, where it is well-formed, its names are
plain and nothing is in front of them, and where it is not, a piece of it cannot be read.** -/
theorem inverted_iff (u : Uri) : Inverted u ↔
    ((∀ m ∈ u.members, WellFormed m) → PlainNames u.members ∧ NothingInFront u.members) ∧
      ((∃ m ∈ u.members, ¬ WellFormed m) → ∃ p ∈ pieces u.query, ¬ p.Readable) := by
  have hplain : ∀ m ∈ u.members, chr '&' ∉ m := fun m hm => notMem_of_mem_splitOn hm
  have hjoin : u.query = [chr '&'].intercalate u.members := (List.intercalate_splitOn _).symm
  have hread (h : ∀ m ∈ u.members, WellFormed m) : ¬ ∃ p ∈ pieces u.query, ¬ p.Readable := by
    rintro ⟨p, hp, hnot⟩
    have hproper := (wellFormed_iff _).mp ((wellFormed_iff_members u.query).mpr h)
    exact hnot (hproper p hp).readable
  constructor
  · intro h
    refine ⟨fun hwell => ?_, fun hbad => ?_⟩
    · have hpairs := h.inverts _ _ (written_decodedPairs hplain hwell) hjoin
      rw [uriParameters_text, if_neg (hread hwell), Option.some.injEq, Except.ok.injEq] at hpairs
      -- the same bytes stand in the names, whatever is joined to them
      have hperm : (nameBytes (joinedPairs [] u.members)).Perm
          (nameBytes (decodedPairs u.members)) := by
        have hleft := insertAll_perm [] (joinedPairs [] u.members)
        have hright := insertAll_perm [] (decodedPairs u.members)
        rw [hpairs, List.append_nil] at hleft
        rw [List.append_nil] at hright
        exact (hleft.symm.trans hright).flatMap_right Prod.fst
      obtain ⟨hpercent, hfront, -⟩ := (length_nameBytes hwell []).2 hperm.length_eq
      refine ⟨fun n v hmem hn => ⟨hpercent n v hmem hn, fun hplus => ?_⟩, hfront⟩
      exact plus_notMem_decodedPairs hpercent (hperm.subset (mem_nameBytes hmem hn [] hplus))
    · have hrefused := h.refuses hbad
      rw [uriParameters_text] at hrefused
      by_contra hnone
      rw [if_neg hnone] at hrefused
      cases hrefused
  · rintro ⟨hok, hbad⟩
    refine ⟨fun l ms hwritten hquery => ?_, fun h => ?_⟩
    · obtain ⟨rfl, hms⟩ := hwritten.eq_decodedPairs
      -- the members are what stands between the ampersands
      have hsame : decodedPairs ms = decodedPairs u.members ∧ ∀ m ∈ u.members, WellFormed m := by
        cases ms with
        | nil =>
          rw [Uri.members, hquery]
          exact ⟨rfl, List.forall_mem_singleton.mpr ((wellFormed_iff []).mpr (List.forall_mem_nil _))⟩
        | cons m ms =>
          have hmembers : u.members = m :: ms := by
            rw [Uri.members, hquery]
            exact List.splitOn_intercalate _ (fun m' hm' => (hms m' hm').1) (List.cons_ne_nil _ _)
          rw [hmembers]
          exact ⟨rfl, fun m' hm' => (hms m' hm').2⟩
      obtain ⟨hnames, hfront⟩ := hok hsame.2
      rw [uriParameters_text, if_neg (hread hsame.2), joinedPairs_eq hsame.2 hnames hfront,
        hsame.1]
    · rw [uriParameters_text, if_pos (hbad h)]

/-! ### A name with a blank -/

/-- `/json.htm?a+b=1`. -/
def blankName : Uri where
  path := str "/json.htm"
  query := str "a+b=1"
  path_plain := by decide
  path_wellFormed := (wellFormed_iff _).mpr (by decide)

/-- The plus sign stays in the name. -/
theorem name_not_decoded :
    uriParameters blankName.text = some (.ok [(str "a+b", str "1")]) ∧ ¬ Inverted blankName := by
  have hmembers : blankName.members = [str "a+b=1"] := rfl
  constructor
  · rw [uriParameters_text, if_neg (by decide), hmembers]
    rfl
  · intro h
    have hname : Encodes (str "a b") (str "a+b") :=
      .plain (by decide) (by decide) (.blank (.plain (by decide) (by decide) .nil))
    have hvalue : Encodes (str "1") (str "1") := .plain (by decide) (by decide) .nil
    have hpairs := h.inverts [(str "a b", str "1")] [str "a+b=1"]
      (.pair hname hvalue (by decide) (by decide) (by decide) .nil) rfl
    rw [uriParameters_text, if_neg (by decide), hmembers, Option.some.injEq, Except.ok.injEq]
      at hpairs
    exact absurd hpairs (by decide)

end Domoticz
