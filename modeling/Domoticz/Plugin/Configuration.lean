import Domoticz.Plugin.Written
import Mathlib.Data.List.Perm.Basic

/-!
# The configuration of an interface

`PythontoJSON` escapes nothing, writes floats with six decimals and has no text for `None`;
`JSONtoPython` makes a `str` of a `bool` in a list and an `int` of a whole float.  The objects
that survive being stored are those that meet none of this.

## Main definitions

* `Returns` — what comes back of the text of an object is the same object.
* `Restored` — the objects that do, by their parts.

## Main results

* `returns_iff` — the parts decide.
* `configuration_restored_iff` — exactly these configurations survive.
-/

namespace Domoticz.PythonJson

open CLib JsonReader Text

/-! ### Objects from values -/

/-- The object made of a value in a list or a dictionary. -/
def ofValue (inList : Bool) (v : Value) : Option PyObject :=
  if isContainer v then JSONtoPython v else if inList then ofItem v else ofMember v

/-- What comes back of the text of an object is the same object. -/
def Returns (inList : Bool) (x : PyObject) : Prop :=
  ∃ v y, value x = some v ∧ ofValue inList v = some y ∧ same x y = true

/-- A float that is given back by its six decimals, and is not taken for an `int`. -/
def RestoredFloat (d : UInt64) : Prop :=
  Double.readDouble (Double.toText d) = some d ∧
    ∀ i ∈ Double.toIntegral d, ¬(-2 ^ 31 ≤ i ∧ i < 2 ^ 32)

/-- An object of at most so many levels that is restored from its text; `inList` if it is an
item of a list. -/
def Restored : ℕ → Bool → PyObject → Prop
  | 0, _, _ => False
  | _ + 1, inList, .bool _ => inList = false
  | _ + 1, _, .int i => -2 ^ 31 ≤ i ∧ i < 2 ^ 32
  | _ + 1, _, .float d => RestoredFloat d
  | _ + 1, _, .str s => PlainText s
  | levels + 1, _, .list items => ∀ x ∈ items, Restored levels true x
  | levels + 1, _, .dict entries =>
      ∀ e ∈ entries, PlainText e.1 ∧ Restored levels false e.2
  | _ + 1, _, _ => False

/-- What is restored fits into JSON, and its texts are plain. -/
theorem fits_of_restored {levels : ℕ} {inList : Bool} {x : PyObject}
    (h : Restored levels inList x) : Fits levels inList x ∧ Plain levels x := by
  induction levels generalizing inList x with
  | zero => cases h
  | succ levels ih =>
    cases x with
    | none => cases h
    | bytes s => cases h
    | bytearray s => cases h
    | tuple items => cases h
    | bool b => exact ⟨h, trivial⟩
    | int i => exact ⟨h, trivial⟩
    | float d => exact ⟨trivial, trivial⟩
    | str s => exact ⟨trivial, h⟩
    | list items => exact ⟨fun x hx => (ih (h x hx)).1, fun x hx => (ih (h x hx)).2⟩
    | dict entries =>
      exact ⟨fun e he => (ih (h e he).2).1, fun e he => ⟨(h e he).1, (ih (h e he).2).2⟩⟩

/-! ### Numbers and texts -/

theorem decodeDigits_toDigits {maxIntegerValue n : ℕ} (h : n < maxIntegerValue / 10) :
    decodeDigits maxIntegerValue 0 ((Nat.toDigits 10 n).map chr) = some n := by
  have hvalue : ((Nat.toDigits 10 n).map chr).foldl
      (fun acc b => acc * 10 + (digitValue b).getD 0) 0 = n := digitsValue_toDigits n
  rw [decodeDigits_eq (numeral_toDigits n).2 0 (by rwa [hvalue]), hvalue]

/-- What is made of a number is that of any value it is. -/
theorem ofValue_of_ofNumber {v : Value} {x : PyObject} (h : ofNumber v = some x) (inList : Bool) :
    ofValue inList v = some x := by
  have hitem : ofItem v = some x := by
    rw [ofItem, h]
  cases v with
  | array items => cases h
  | object members => cases h
  | bool b => cases h
  | _ => cases inList <;> exact hitem

theorem decodeNumber_natCast {n : ℕ} (h : n < 2 ^ 32) :
    decodeNumber (decimal n) = some (if n ≤ 2 ^ 31 - 1 then .int n else .uint n) := by
  obtain ⟨hne, hall⟩ := numeral_toDigits n
  have hhead : ((Nat.toDigits 10 n).map chr).head? ≠ some (chr '-') := by
    intro heq
    have hminus := List.all_eq_true.mp hall _ (List.mem_of_mem_head? heq)
    exact absurd hminus (by decide)
  have hdigits : decodeDigits (2 ^ 64 - 1) 0 ((Nat.toDigits 10 n).map chr) = some n :=
    decodeDigits_toDigits (by omega)
  have hdecimal : decimal n = (Nat.toDigits 10 n).map chr := rfl
  rw [hdecimal, decodeNumber]
  simp only [hhead, decide_false, Bool.false_eq_true, if_false, hdigits]
  split
  · rfl
  · rfl

theorem decodeDigits_negSucc {n : ℕ} (h : n < 2 ^ 31) :
    decodeDigits (2 ^ 63) 0 ((Nat.toDigits 10 (n + 1)).map chr) = some (n + 1) := by
  have hlt : n + 1 < 2 ^ 63 / 10 := by omega
  exact decodeDigits_toDigits hlt

theorem decodeNumber_negSucc {n : ℕ} (h : n < 2 ^ 31) :
    decodeNumber (decimal (.negSucc n)) = some (.int (.negSucc n)) := by
  rw [decimal, decodeNumber]
  simp only [List.head?_cons, decide_true, if_true, List.drop_succ_cons, List.drop_zero]
  rw [decodeDigits_negSucc h]
  rfl

theorem ofNumber_of_asUInt {v : Value} {i : ℤ} (h : asUInt? v = some i) :
    ofNumber v = some (.int i) := by
  rw [ofNumber, h]

theorem ofNumber_of_asInt {v : Value} {i : ℤ} (hnone : asUInt? v = none)
    (h : Json.asInt? doubles v = some i) : ofNumber v = some (.int i) := by
  rw [ofNumber, hnone]
  simp only [h]

/-- An integer of 32 bits is read as itself. -/
theorem ofNumber_decodeNumber {i : ℤ} (h : -2 ^ 31 ≤ i ∧ i < 2 ^ 32) :
    ∃ v, decodeNumber (decimal i) = some v ∧ ofNumber v = some (.int i) := by
  cases i with
  | ofNat n =>
    have hn : n < 2 ^ 32 := by
      have hcast : (n : ℤ) < 2 ^ 32 := h.2
      omega
    refine ⟨_, decodeNumber_natCast hn, ?_⟩
    split
    · have hrange : 0 ≤ (n : ℤ) ∧ (n : ℤ) ≤ 4294967295 := by omega
      apply ofNumber_of_asUInt
      rw [asUInt?, if_pos hrange]
      rfl
    · have hrange : n ≤ 4294967295 := by omega
      apply ofNumber_of_asUInt
      rw [asUInt?, if_pos hrange]
      rfl
  | negSucc n =>
    have hn : n < 2 ^ 31 := by omega
    refine ⟨_, decodeNumber_negSucc hn, ?_⟩
    have hnegative : ¬(0 ≤ Int.negSucc n ∧ Int.negSucc n ≤ 4294967295) := by
      rintro ⟨hpos, -⟩
      omega
    have hin : Json.inInt (.negSucc n) = true := by
      simp only [Json.inInt, Bool.and_eq_true, decide_eq_true_eq]
      omega
    apply ofNumber_of_asInt
    · rw [asUInt?, if_neg hnegative]
    · rw [Json.asInt?, if_pos hin]

theorem returns_int (inList : Bool) {i : ℤ} (h : -2 ^ 31 ≤ i ∧ i < 2 ^ 32) :
    Returns inList (.int i) := by
  obtain ⟨v, hv, hnumber⟩ := ofNumber_decodeNumber h
  have hlong : asLong i = i := if_pos (by omega)
  refine ⟨v, .int i, ?_, ofValue_of_ofNumber hnumber inList, beq_self_eq_true i⟩
  rw [value, hlong, hv]

/-- A double is an `int` if it is a whole number of 32 bits. -/
theorem ofNumber_real (d : UInt64) : ofNumber (.real d) =
    some (match (Double.toIntegral d).filter fun i => -2 ^ 31 ≤ i ∧ i < 2 ^ 32 with
      | some i => .int i
      | none => .float d) := by
  have huint : asUInt? (.real d) =
      (Double.toIntegral d).filter fun i => 0 ≤ i ∧ i ≤ 4294967295 := rfl
  have hint : Json.asInt? doubles (.real d) = (Double.toIntegral d).filter Json.inInt := rfl
  have hdouble : Json.asDouble? doubles (.real d) = some d := rfl
  rw [ofNumber, huint, hint, hdouble]
  cases Double.toIntegral d with
  | none => rfl
  | some i =>
    simp only [Option.filter_some, Json.inInt]
    grind

theorem ofNumber_real_eq_float_iff {e d : UInt64} :
    ofNumber (.real e) = some (.float d) ↔
      e = d ∧ ∀ i ∈ Double.toIntegral e, ¬(-2 ^ 31 ≤ i ∧ i < 2 ^ 32) := by
  rw [ofNumber_real]
  cases hi : (Double.toIntegral e).filter fun i => -2 ^ 31 ≤ i ∧ i < 2 ^ 32 with
  | none =>
    have hnone : ∀ i ∈ Double.toIntegral e, ¬(-2 ^ 31 ≤ i ∧ i < 2 ^ 32) := by
      simpa [Option.filter_eq_none_iff] using hi
    rw [Option.some.injEq, PyObject.float.injEq, and_iff_left hnone]
  | some i =>
    obtain ⟨hmem, hrange⟩ := Option.filter_eq_some_iff.mp hi
    refine iff_of_false (fun h => by cases h) ?_
    rintro ⟨-, h⟩
    exact h i hmem (of_decide_eq_true hrange)

/-- A float comes back as itself if it is given back by its text and is no `int`. -/
theorem returns_float_iff (inList : Bool) (d : UInt64) :
    Returns inList (.float d) ↔ RestoredFloat d := by
  constructor
  · rintro ⟨v, y, hv, hy, hsame⟩
    rw [value] at hv
    obtain ⟨e, he, rfl⟩ := Option.map_eq_some_iff.mp hv
    have hnumber : ofNumber (.real e) = some y := by
      rw [ofNumber_real, ← hy, ofValue_of_ofNumber (ofNumber_real e) inList]
    cases y with
    | float d' =>
      obtain rfl : d = d' := eq_of_beq hsame
      obtain ⟨rfl, hint⟩ := ofNumber_real_eq_float_iff.mp hnumber
      exact ⟨he, hint⟩
    | _ => cases hsame
  · rintro ⟨hread, hint⟩
    have hnumber : ofNumber (.real d) = some (.float d) :=
      ofNumber_real_eq_float_iff.mpr ⟨rfl, hint⟩
    refine ⟨.real d, .float d, ?_, ofValue_of_ofNumber hnumber inList, beq_self_eq_true d⟩
    rw [value, hread]
    rfl

/-- A plain text comes back as itself. -/
theorem returns_str (inList : Bool) {s : PyStr} (h : PlainText s) : Returns inList (.str s) := by
  obtain ⟨b, hb, -⟩ := h
  have hitem : ofItem (.string b) = some (.str s) := by
    show (decodeUTF8 b).map PyObject.str = _
    rw [decodeUTF8_eq_some_iff.mpr hb]
    rfl
  refine ⟨.string b, .str s, ?_, ?_, beq_self_eq_true s⟩
  · rw [value, hb]
    rfl
  · cases inList <;> exact hitem

/-! ### Lists -/

theorem returns_items_iff {items : List PyObject} :
    (∃ vs ys, valueItems items = some vs ∧ listItems vs = some ys ∧ sameItems items ys = true) ↔
      ∀ x ∈ items, Returns true x := by
  induction items with
  | nil => exact iff_of_true ⟨[], [], rfl, rfl, rfl⟩ (List.forall_mem_nil _)
  | cons x items ih =>
    rw [List.forall_mem_cons, ← ih]
    constructor
    · rintro ⟨vs, ys, hvs, hys, hsame⟩
      rw [valueItems] at hvs
      obtain ⟨v, hv, hmap⟩ := Option.bind_eq_some_iff.mp hvs
      obtain ⟨vs', hvs', rfl⟩ := Option.map_eq_some_iff.mp hmap
      rw [listItems] at hys
      obtain ⟨y, hy, hmap⟩ := Option.bind_eq_some_iff.mp hys
      obtain ⟨ys', hys', rfl⟩ := Option.map_eq_some_iff.mp hmap
      rw [sameItems, Bool.and_eq_true] at hsame
      exact ⟨⟨v, y, hv, hy, hsame.1⟩, vs', ys', hvs', hys', hsame.2⟩
    · rintro ⟨⟨v, y, hv, hy, hxy⟩, vs, ys, hvs, hys, hsame⟩
      have hy' : (if isContainer v then JSONtoPython v else ofItem v) = some y := hy
      refine ⟨v :: vs, y :: ys, ?_, ?_, ?_⟩
      · rw [valueItems, hv, hvs]
        rfl
      · rw [listItems, hy', hys]
        rfl
      · rw [sameItems, hxy, hsame]
        rfl

theorem returns_list_iff (inList : Bool) {items : List PyObject} :
    Returns inList (.list items) ↔ ∀ x ∈ items, Returns true x := by
  rw [← returns_items_iff]
  constructor
  · rintro ⟨v, y, hv, hy, hsame⟩
    rw [value] at hv
    obtain ⟨vs, hvs, rfl⟩ := Option.map_eq_some_iff.mp hv
    have hy' : JSONtoPython (.array vs) = some y := hy
    rw [JSONtoPython] at hy'
    obtain ⟨ys, hys, rfl⟩ := Option.map_eq_some_iff.mp hy'
    exact ⟨vs, ys, hvs, hys, hsame⟩
  · rintro ⟨vs, ys, hvs, hys, hsame⟩
    refine ⟨.array vs, .list ys, ?_, ?_, hsame⟩
    · rw [value, hvs]
      rfl
    · show JSONtoPython (.array vs) = _
      rw [JSONtoPython, hys]
      rfl

/-! ### Dictionaries -/

/-- An entry and the member that its text stands for. -/
def Stands (e : PyStr × PyObject) (m : Bytes × Value) : Prop :=
  asUTF8 e.1 = some m.1 ∧ value e.2 = some m.2

/-- A member and the entry that is made of it. -/
def Makes (m : Bytes × Value) (e : PyStr × PyObject) : Prop :=
  decodeUTF8 (cstr m.1) = some e.1 ∧ ofValue false m.2 = some e.2

theorem setMember_perm {name : Bytes} {members : List (Bytes × Value)}
    (h : name ∉ members.map Prod.fst) (v : Value) :
    (setMember name v members).Perm ((name, v) :: members) := by
  induction members with
  | nil => exact List.Perm.refl _
  | cons m members ih =>
    obtain ⟨name', v'⟩ := m
    obtain ⟨hne, hmem⟩ := not_or.mp (mt List.mem_cons.mpr h)
    rw [setMember, if_neg hne]
    split
    · exact List.Perm.refl _
    · exact ((ih hmem).cons _).trans (List.Perm.swap _ _ _)

/-- The members of a dictionary are those of its entries, in some order. -/
theorem valueMembers_perm {entries : PyDict} {members members' : List (Bytes × Value)}
    (hnodup : (entries.map Prod.fst).Nodup)
    (hnew : ∀ e ∈ entries, ∀ name ∈ asUTF8 e.1, name ∉ members.map Prod.fst)
    (h : valueMembers members entries = some members') :
    ∃ own, List.Forall₂ Stands entries own ∧ members'.Perm (own ++ members) := by
  induction entries generalizing members with
  | nil =>
    cases h
    exact ⟨[], .nil, List.Perm.refl _⟩
  | cons e entries ih =>
    obtain ⟨key, x⟩ := e
    obtain ⟨hkey, hrest⟩ := List.nodup_cons.mp hnodup
    obtain ⟨hfirst, hnew'⟩ := List.forall_mem_cons.mp hnew
    rw [valueMembers] at h
    obtain ⟨name, hname, h⟩ := Option.bind_eq_some_iff.mp h
    obtain ⟨v, hv, h⟩ := Option.bind_eq_some_iff.mp h
    have hperm := setMember_perm (hfirst name hname) v
    have hothers : ∀ e ∈ entries, ∀ n ∈ asUTF8 e.1,
        n ∉ (setMember name v members).map Prod.fst := by
      intro e he n hn hmem
      rcases List.mem_cons.mp ((hperm.map Prod.fst).mem_iff.mp hmem) with rfl | hmem
      · have hmap := List.mem_map_of_mem (f := Prod.fst) he
        rw [asUTF8_injective hn hname] at hmap
        exact hkey hmap
      · exact hnew' e he n hn hmem
    obtain ⟨own, hown, hall⟩ := ih hrest hothers h
    refine ⟨(name, v) :: own, .cons ⟨hname, hv⟩ hown, hall.trans ?_⟩
    exact (hperm.append_left own).trans List.perm_middle

theorem exists_valueMembers {entries : PyDict} {own : List (Bytes × Value)}
    (h : List.Forall₂ Stands entries own) (members : List (Bytes × Value)) :
    ∃ members', valueMembers members entries = some members' := by
  induction h generalizing members with
  | nil => exact ⟨members, rfl⟩
  | cons hfirst _ ih =>
    obtain ⟨members', h⟩ := ih _
    refine ⟨members', ?_⟩
    rw [valueMembers, hfirst.1, hfirst.2]
    exact h

theorem setItem_of_notMem {key : PyStr} {entries : PyDict} (h : key ∉ entries.map Prod.fst)
    (x : PyObject) : setItem key x entries = entries ++ [(key, x)] := by
  induction entries with
  | nil => rfl
  | cons e entries ih =>
    obtain ⟨key', x'⟩ := e
    obtain ⟨hne, hmem⟩ := not_or.mp (mt List.mem_cons.mpr h)
    rw [setItem, if_neg (Ne.symm hne), ih hmem]
    rfl

/-- Members with different keys become entries in their order. -/
theorem dictEntries_of_makes {members : List (Bytes × Value)} {entries own : PyDict}
    (h : List.Forall₂ Makes members own) (hnodup : ((entries ++ own).map Prod.fst).Nodup) :
    dictEntries entries members = some (entries ++ own) := by
  induction h generalizing entries with
  | nil =>
    rw [dictEntries, List.append_nil]
  | @cons m e members own hfirst _ ih =>
    obtain ⟨name, v⟩ := m
    obtain ⟨key, x⟩ := e
    have hkey : key ∉ entries.map Prod.fst := by
      rw [List.map_append, List.nodup_append] at hnodup
      exact fun hmem => hnodup.2.2 key hmem key List.mem_cons_self rfl
    have hx : (if isContainer v then JSONtoPython v else ofMember v) = some x := hfirst.2
    have hnodup' : ((entries ++ [(key, x)] ++ own).map Prod.fst).Nodup := by
      rwa [← List.append_cons]
    rw [dictEntries, hfirst.1, Option.bind_some, hx, Option.bind_some, setItem_of_notMem hkey,
      ih hnodup', ← List.append_cons]

theorem makes_of_dictEntries {members : List (Bytes × Value)} {entries entries' : PyDict}
    (h : dictEntries entries members = some entries') :
    ∃ own, List.Forall₂ Makes members own := by
  induction members generalizing entries with
  | nil => exact ⟨[], .nil⟩
  | cons m members ih =>
    obtain ⟨name, v⟩ := m
    rw [dictEntries] at h
    obtain ⟨key, hkey, h⟩ := Option.bind_eq_some_iff.mp h
    obtain ⟨x, hx, h⟩ := Option.bind_eq_some_iff.mp h
    obtain ⟨own, hown⟩ := ih h
    exact ⟨(key, x) :: own, .cons ⟨hkey, hx⟩ hown⟩

/-- An entry and the one that comes back for it. -/
def Comes (e e' : PyStr × PyObject) : Prop :=
  e'.1 = e.1 ∧ ∃ v, value e.2 = some v ∧ ofValue false v = some e'.2

theorem comes_of_stands {entries w : PyDict} {own : List (Bytes × Value)}
    (hplain : ∀ e ∈ entries, PlainText e.1) (hstands : List.Forall₂ Stands entries own)
    (hmakes : List.Forall₂ Makes own w) : List.Forall₂ Comes entries w := by
  induction hstands generalizing w with
  | nil =>
    cases hmakes
    exact .nil
  | @cons e m entries own hfirst _ ih =>
    cases hmakes with
    | @cons _ e' _ w hmake hmakes =>
      obtain ⟨⟨b, hb, hzero, -⟩, hrest⟩ := List.forall_mem_cons.mp hplain
      refine .cons ⟨?_, m.2, hfirst.2, hmake.2⟩ (ih hrest hmakes)
      obtain rfl : m.1 = b := Option.some.inj (hfirst.1.symm.trans hb)
      have hkey := hmake.1
      rw [cstr_of_notMem hzero, decodeUTF8_eq_some_iff.mpr hb] at hkey
      exact (Option.some.inj hkey).symm

theorem keys_of_comes {entries w : PyDict} (h : List.Forall₂ Comes entries w) :
    w.map Prod.fst = entries.map Prod.fst := by
  induction h with
  | nil => rfl
  | cons hfirst _ ih => rw [List.map_cons, List.map_cons, hfirst.1, ih]

theorem exists_of_comes {entries w : PyDict} (h : List.Forall₂ Comes entries w) :
    ∀ e ∈ entries, ∃ e' ∈ w, Comes e e' := by
  induction h with
  | nil => exact List.forall_mem_nil _
  | cons hfirst _ ih =>
    refine List.forall_mem_cons.mpr ⟨⟨_, List.mem_cons_self, hfirst⟩, ?_⟩
    intro e he
    obtain ⟨e', he', hcomes⟩ := ih e he
    exact ⟨e', List.mem_cons_of_mem _ he', hcomes⟩

/-- The dictionary that comes back has the same keys, each with what comes back of its object. -/
theorem dictEntries_of_stands {entries : PyDict} {own members : List (Bytes × Value)} {w : PyDict}
    (hnodup : (entries.map Prod.fst).Nodup) (hplain : ∀ e ∈ entries, PlainText e.1)
    (hstands : List.Forall₂ Stands entries own) (hperm : members.Perm own)
    (hmakes : List.Forall₂ Makes members w) :
    dictEntries [] members = some w ∧ entries.length = w.length ∧
      ∀ e ∈ entries, ∃ v y, value e.2 = some v ∧ ofValue false v = some y ∧
        w.lookup e.1 = some y := by
  obtain ⟨w', hmakes', hperm'⟩ := List.perm_comp_forall₂ hperm.symm hmakes
  have hcomes := comes_of_stands hplain hstands hmakes'
  have hkeys : (w.map Prod.fst).Nodup := by
    rw [← (hperm'.map Prod.fst).nodup_iff, keys_of_comes hcomes]
    exact hnodup
  refine ⟨dictEntries_of_makes hmakes hkeys, hcomes.length_eq.trans hperm'.length_eq, ?_⟩
  intro e he
  obtain ⟨e', he', hkey, v, hv, hy⟩ := exists_of_comes hcomes e he
  refine ⟨v, e'.2, hv, hy, ?_⟩
  rw [← hkey]
  exact lookup_of_mem hkeys (hperm'.mem_iff.mp he')

theorem exists_stands {entries : PyDict} (hplain : ∀ e ∈ entries, PlainText e.1)
    (h : ∀ e ∈ entries, Returns false e.2) : ∃ own, List.Forall₂ Stands entries own := by
  induction entries with
  | nil => exact ⟨[], .nil⟩
  | cons e entries ih =>
    obtain ⟨⟨b, hb, -⟩, hplains⟩ := List.forall_mem_cons.mp hplain
    obtain ⟨⟨v, -, hv, -⟩, hreturns⟩ := List.forall_mem_cons.mp h
    obtain ⟨own, hown⟩ := ih hplains hreturns
    exact ⟨(b, v) :: own, .cons ⟨hb, hv⟩ hown⟩

theorem exists_makes {entries : PyDict} {own : List (Bytes × Value)}
    (hplain : ∀ e ∈ entries, PlainText e.1) (h : ∀ e ∈ entries, Returns false e.2)
    (hstands : List.Forall₂ Stands entries own) : ∃ w, List.Forall₂ Makes own w := by
  induction hstands with
  | nil => exact ⟨[], .nil⟩
  | @cons e m entries own hfirst _ ih =>
    obtain ⟨⟨b, hb, hzero, -⟩, hplains⟩ := List.forall_mem_cons.mp hplain
    obtain ⟨⟨v, y, hv, hy, -⟩, hreturns⟩ := List.forall_mem_cons.mp h
    obtain ⟨w, hw⟩ := ih hplains hreturns
    obtain rfl : m.1 = b := Option.some.inj (hfirst.1.symm.trans hb)
    obtain rfl : m.2 = v := Option.some.inj (hfirst.2.symm.trans hv)
    refine ⟨(e.1, y) :: w, .cons ⟨?_, hy⟩ hw⟩
    rw [cstr_of_notMem hzero]
    exact decodeUTF8_eq_some_iff.mpr hb

theorem returns_dict_iff (inList : Bool) {entries : PyDict}
    (hnodup : (entries.map Prod.fst).Nodup) (hplain : ∀ e ∈ entries, PlainText e.1) :
    Returns inList (.dict entries) ↔ ∀ e ∈ entries, Returns false e.2 := by
  have hnew : ∀ e ∈ entries, ∀ name ∈ asUTF8 e.1,
      name ∉ ([] : List (Bytes × Value)).map Prod.fst := by
    intro e _ name _
    exact List.not_mem_nil
  constructor
  · rintro ⟨v, y, hv, hy, hsame⟩ e he
    rw [value] at hv
    obtain ⟨members, hmembers, rfl⟩ := Option.map_eq_some_iff.mp hv
    have hy' : JSONtoPython (.object members) = some y := hy
    rw [JSONtoPython] at hy'
    obtain ⟨entries', hentries', rfl⟩ := Option.map_eq_some_iff.mp hy'
    -- the members of the text stand in another order
    obtain ⟨own, hstands, hperm⟩ := valueMembers_perm hnodup hnew hmembers
    rw [List.append_nil] at hperm
    obtain ⟨w, hmakes⟩ := makes_of_dictEntries hentries'
    obtain ⟨heq, -, hall⟩ := dictEntries_of_stands hnodup hplain hstands hperm hmakes
    obtain rfl : entries' = w := Option.some.inj (hentries'.symm.trans heq)
    rw [same, Bool.and_eq_true] at hsame
    obtain ⟨y', hlookup', hsame'⟩ := sameEntries_iff.mp hsame.2 e he
    obtain ⟨v', y, hv', hy', hlookup⟩ := hall e he
    obtain rfl : y' = y := Option.some.inj (hlookup'.symm.trans hlookup)
    exact ⟨v', y', hv', hy', hsame'⟩
  · intro h
    obtain ⟨own, hown⟩ := exists_stands hplain h
    obtain ⟨members, hmembers⟩ := exists_valueMembers hown []
    obtain ⟨own', hstands, hperm⟩ := valueMembers_perm hnodup hnew hmembers
    rw [List.append_nil] at hperm
    obtain ⟨w', hmakes'⟩ := exists_makes hplain h hstands
    -- the same entries, in the order of the text
    obtain ⟨w, hmakes, -⟩ := List.perm_comp_forall₂ hperm hmakes'
    obtain ⟨heq, hlength, hall⟩ := dictEntries_of_stands hnodup hplain hstands hperm hmakes
    refine ⟨.object members, .dict w, ?_, ?_, ?_⟩
    · rw [value, hmembers]
      rfl
    · show JSONtoPython (.object members) = _
      rw [JSONtoPython, heq]
      rfl
    · rw [same, hlength, beq_self_eq_true, Bool.true_and, sameEntries_iff]
      intro e he
      obtain ⟨v, y, hv, hy, hlookup⟩ := hall e he
      obtain ⟨v', y', hv', hy', hsame⟩ := h e he
      obtain rfl : v = v' := Option.some.inj (hv.symm.trans hv')
      obtain rfl : y = y' := Option.some.inj (hy.symm.trans hy')
      exact ⟨y, hlookup, hsame⟩

/-! ### Objects -/

/-- What comes back of an object that JSON has room for; the induction is on the levels. -/
theorem returns_iff {levels : ℕ} {inList : Bool} {x : PyObject} (hdistinct : Distinct x)
    (hfits : Fits levels inList x) (hplain : Plain levels x) :
    Returns inList x ↔ Restored levels inList x := by
  induction levels generalizing inList x with
  | zero => cases hfits
  | succ levels ih =>
    cases x with
    | none => cases hfits
    | bytes s => cases hfits
    | bytearray s => cases hfits
    | tuple items => cases hfits
    | bool b =>
      obtain rfl : inList = false := hfits
      exact iff_of_true ⟨.bool b, .bool b, rfl, rfl, beq_self_eq_true b⟩ rfl
    | int i => exact iff_of_true (returns_int inList hfits) hfits
    | float d => exact returns_float_iff inList d
    | str s => exact iff_of_true (returns_str inList hplain) hplain
    | list items =>
      cases hdistinct with
      | list hdistinct =>
        rw [returns_list_iff]
        exact forall₂_congr fun x hx => ih (hdistinct x hx) (hfits x hx) (hplain x hx)
    | dict entries =>
      cases hdistinct with
      | dict hnodup hdistinct =>
        rw [returns_dict_iff inList hnodup fun e he => (hplain e he).1]
        exact forall₂_congr fun e he =>
          (ih (hdistinct e he) (hfits e he) (hplain e he).2).trans
            (and_iff_right (hplain e he).1).symm

/-- The text of a dictionary with plain texts is read as its value. -/
theorem parse_dict {entries : PyDict} (hfits : Fits stackLimit false (.dict entries))
    (hplain : Plain stackLimit (.dict entries)) :
    ∃ text, PythontoJSON (.dict entries) = some text ∧
      (parse text).toOption = value (.dict entries) := by
  have hentries : ∀ e ∈ entries, PlainText e.1 ∧
      ∃ text, PythontoJSON e.2 = some text ∧ Reads 999 text (value e.2) :=
    fun e he => ⟨(hplain e he).1, exists_reads (hfits e he) (hplain e he).2⟩
  obtain ⟨text, htext, hsolid, hread⟩ := outcome_dict hentries
  refine ⟨text, htext, ?_⟩
  have hdrop : text.dropWhile isWhitespace = text ++ [] := by
    have h := hsolid.dropWhile []
    rwa [List.append_nil] at h ⊢
  rw [parse_eq, show stackLimit = 999 + 1 from rfl, hread text [] hdrop, Option.map_map]
  exact Option.map_id'

theorem toOption_eq_some_iff {ε α : Type} {x : Except ε α} {a : α} :
    x.toOption = some a ↔ x = .ok a := by
  cases x with
  | error e => exact iff_of_false (fun h => by cases h) fun h => by cases h
  | ok b => exact ⟨fun h => congrArg _ (Option.some.inj h), fun h => by cases h; rfl⟩

/-- Only dictionaries come back, and those that do are restored. -/
theorem restored_of_roundTrips {c : Configuration} (h : RoundTrips c) :
    (∃ entries, c.object = .dict entries) ∧ Restored stackLimit false c.object := by
  obtain ⟨object, hdistinct⟩ := c
  obtain ⟨text, w, htext, hw, hsame⟩ := h
  -- an empty dictionary is restored whatever it comes from
  have hempty (hw : w = .dict []) : (∃ entries, object = .dict entries) ∧
      Restored stackLimit false object := by
    subst hw
    rcases same_cases hsame with rfl | ⟨_, _, rfl, heq, -⟩ | ⟨_, _, rfl, heq, -⟩ |
      ⟨entries, _, rfl, heq, hlength, -⟩
    · exact ⟨⟨[], rfl⟩, List.forall_mem_nil _⟩
    · cases heq
    · cases heq
    · cases heq
      obtain rfl := List.eq_nil_of_length_eq_zero hlength
      exact ⟨⟨[], rfl⟩, List.forall_mem_nil _⟩
  unfold fromText at hw
  split at hw
  · exact hempty (Option.some.inj hw).symm
  · cases hw
  · next members hparse =>
    obtain ⟨hworth, hnests⟩ := parse_sound hparse
    have hfits := JSONtoPython_fits hnests hw false
    have hplain : Plain stackLimit object := plain_of_same hdistinct hfits hsame htext
      ((worth_JSONtoPython_le hnests hw).trans hworth)
    have hfits' := fits_of_same hsame hfits
    have hdict : ∃ entries, object = .dict entries := by
      rw [JSONtoPython] at hw
      obtain ⟨entries', -, rfl⟩ := Option.map_eq_some_iff.mp hw
      rcases same_cases hsame with rfl | ⟨_, _, rfl, heq, -⟩ | ⟨_, _, rfl, heq, -⟩ |
        ⟨entries, _, rfl, -⟩
      · exact ⟨entries', rfl⟩
      · cases heq
      · cases heq
      · exact ⟨entries, rfl⟩
    refine ⟨hdict, (returns_iff hdistinct hfits' hplain).mp ?_⟩
    obtain ⟨entries, rfl⟩ := hdict
    obtain ⟨text', htext', hread⟩ := parse_dict hfits' hplain
    obtain rfl : text = text' := Option.some.inj (htext.symm.trans htext')
    rw [hparse] at hread
    exact ⟨.object members, w, hread.symm, hw, hsame⟩
  · exact hempty (Option.some.inj hw).symm

/-! ### What stands in a column -/

theorem zero_notMem_toText (d : UInt64) : 0 ∉ Double.toText d := by
  cases hd : Double.isFinite d with
  | true =>
    obtain ⟨s, whole, fraction, htext, hwhole, hfraction⟩ := Double.exists_parts hd
    have hzero {l : Bytes} (h : l.all (CLib.isDigit 10) = true) : 0 ∉ l := fun hmem =>
      absurd (List.all_eq_true.mp h 0 hmem) (by decide)
    have hsign : 0 ∉ Double.signText s := by
      cases s <;> decide
    rw [htext, List.mem_append, List.mem_append, List.mem_cons]
    rintro (h | h | h | h)
    · exact hsign h
    · exact hzero hwhole.2 h
    · exact absurd h (by decide)
    · exact hzero hfraction h
  | false =>
    rcases toText_of_not_finite hd with h | h | h | h
    · rw [h]
      decide
    · rw [h]
      decide
    · rw [h]
      decide
    · rw [h]
      decide

theorem zero_notMem_stdString {s : PyStr} {b : Bytes} (h : stdString s = some b) : 0 ∉ b := by
  obtain ⟨utf8, -, rfl⟩ := Option.map_eq_some_iff.mp h
  exact zero_notMem_cstr utf8

theorem notMem_setLast {b c : UInt8} {s : Bytes} (hne : b ≠ c) (h : b ∉ s) : b ∉ setLast c s := by
  rw [setLast, List.mem_append, List.mem_singleton]
  rintro (hmem | heq)
  · exact h (List.mem_of_mem_dropLast hmem)
  · exact hne heq

theorem zero_notMem_quote {b : Bytes} (hb : 0 ∉ b) : 0 ∉ quote b := by
  rw [quote, List.mem_cons, List.mem_append, List.mem_singleton]
  rintro (h | h | h)
  · exact absurd h (by decide)
  · exact hb h
  · exact absurd h (by decide)

theorem zero_notMem_itemTexts {items : List PyObject} {s : Bytes} (h : itemTexts items = some s)
    (hitems : ∀ x ∈ items, ∀ t, PythontoJSON x = some t → 0 ∉ t) : 0 ∉ s := by
  induction items generalizing s with
  | nil =>
    cases h
    exact List.not_mem_nil
  | cons x items ih =>
    rw [itemTexts] at h
    obtain ⟨t, ht, h⟩ := Option.bind_eq_some_iff.mp h
    obtain ⟨u, hu, rfl⟩ := Option.map_eq_some_iff.mp h
    obtain ⟨hfirst, hrest⟩ := List.forall_mem_cons.mp hitems
    rw [List.mem_append, List.mem_cons]
    rintro (h | h | h)
    · exact hfirst t ht h
    · exact absurd h (by decide)
    · exact ih hu hrest h

theorem zero_notMem_entryTexts {entries : PyDict} {s : Bytes} (h : entryTexts entries = some s)
    (hentries : ∀ e ∈ entries, ∀ t, PythontoJSON e.2 = some t → 0 ∉ t) : 0 ∉ s := by
  induction entries generalizing s with
  | nil =>
    cases h
    exact List.not_mem_nil
  | cons e entries ih =>
    obtain ⟨key, x⟩ := e
    rw [entryTexts] at h
    obtain ⟨k, hk, h⟩ := Option.bind_eq_some_iff.mp h
    obtain ⟨t, ht, h⟩ := Option.bind_eq_some_iff.mp h
    obtain ⟨u, hu, rfl⟩ := Option.map_eq_some_iff.mp h
    obtain ⟨hfirst, hrest⟩ := List.forall_mem_cons.mp hentries
    rw [List.mem_append, List.mem_append, List.mem_append, List.mem_cons]
    rintro (((h | h) | h) | h | h)
    · exact zero_notMem_quote (zero_notMem_stdString hk) h
    · exact absurd h (by decide)
    · exact hfirst t ht h
    · exact absurd h (by decide)
    · exact ih hu hrest h

/-- There is no NUL in the text of an object; the induction is on the levels. -/
theorem zero_notMem_text {levels : ℕ} {inList : Bool} {x : PyObject} {text : Bytes}
    (hfits : Fits levels inList x) (h : PythontoJSON x = some text) : 0 ∉ text := by
  induction levels generalizing inList x text with
  | zero => cases hfits
  | succ levels ih =>
    rw [PythontoJSON.eq_def] at h
    cases x with
    | none => cases hfits
    | bytes s => cases hfits
    | bytearray s => cases hfits
    | tuple items => cases hfits
    | bool b =>
      cases h
      cases b <;> decide
    | int i =>
      cases h
      exact notMem_decimal _ rfl (by decide)
    | float d =>
      cases h
      exact zero_notMem_toText d
    | str s =>
      obtain ⟨b, hb, rfl⟩ := Option.map_eq_some_iff.mp h
      exact zero_notMem_quote (zero_notMem_stdString hb)
    | list items =>
      obtain ⟨s, hs, rfl⟩ := Option.map_eq_some_iff.mp h
      apply notMem_setLast (by decide)
      rw [List.mem_append, not_or]
      refine ⟨by decide, zero_notMem_itemTexts hs ?_⟩
      intro x hx t ht
      exact ih (hfits x hx) ht
    | dict entries =>
      obtain ⟨s, hs, rfl⟩ := Option.map_eq_some_iff.mp h
      apply notMem_setLast (by decide)
      rw [List.mem_append, not_or]
      refine ⟨by decide, zero_notMem_entryTexts hs ?_⟩
      intro e he t ht
      exact ih (hfits e he) ht

/-! ### Configurations -/

theorem roundTrips_of_restored {c : Configuration} (hdict : ∃ entries, c.object = .dict entries)
    (h : Restored stackLimit false c.object) : RoundTrips c := by
  obtain ⟨object, hdistinct⟩ := c
  obtain ⟨entries, rfl⟩ := hdict
  obtain ⟨hfits, hplain⟩ := fits_of_restored h
  obtain ⟨v, w, hv, hw, hsame⟩ := (returns_iff hdistinct hfits hplain).mpr h
  obtain ⟨text, htext, hread⟩ := parse_dict hfits hplain
  refine ⟨text, w, htext, ?_, hsame⟩
  have hparse := toOption_eq_some_iff.mp (hread.trans hv)
  rw [value] at hv
  obtain ⟨members, -, rfl⟩ := Option.map_eq_some_iff.mp hv
  rw [fromText, hparse]
  exact hw

/-- The text of a dictionary starts with its bracket, so nothing is taken off it. -/
theorem not_delimited_dict {entries : PyDict} {text : Bytes}
    (h : PythontoJSON (.dict entries) = some text) : ¬ SQLHelper.Delimited text := by
  rw [PythontoJSON] at h
  obtain ⟨s, -, rfl⟩ := Option.map_eq_some_iff.mp h
  have hhead : (setLast (chr '\x7d') (str "\x7b " ++ s)).head? = some (chr '\x7b') := rfl
  have hsingle : some (chr '\x7b') ≠ some 0x27 := by decide
  have hdouble : some (chr '\x7b') ≠ some 0x22 := by decide
  rintro (⟨hfirst, -⟩ | ⟨hfirst, -⟩)
  · exact hsingle (hhead.symm.trans hfirst)
  · exact hdouble (hhead.symm.trans hfirst)

/-- What comes back from its text does so from the database. -/
theorem survives_of_roundTrips {c : Configuration} (h : RoundTrips c) : Survives c := by
  obtain ⟨⟨entries, hdict⟩, hrestored⟩ := restored_of_roundTrips h
  obtain ⟨text, w, htext, hw, hsame⟩ := h
  have hcstr : cstr text = text :=
    cstr_of_notMem (zero_notMem_text (fits_of_restored hrestored).1 htext)
  have hparameter : SQLHelper.addParameter text = text := by
    rw [hdict] at htext
    exact (SQLHelper.addParameter_eq_self_iff text).mpr (not_delimited_dict htext)
  intro self row hself
  have hupdate : CInterface_update self row = some { row with
      Configuration := text
      Active := SQLHelper.addParameter (decimal self.Active.toInt) } := by
    rw [CInterface_update, hself, htext, Option.map_some, hparameter]
  have hrefresh : (CInterface_refresh { row with
      Configuration := text
      Active := SQLHelper.addParameter (decimal self.Active.toInt) }).map
        CInterface.Configuration = some w := by
    rw [CInterface_refresh, hcstr, hw]
    rfl
  obtain ⟨self', hself', hconfiguration⟩ := Option.map_eq_some_iff.mp hrefresh
  refine ⟨_, self', hupdate, hself', ?_⟩
  rw [hself, hconfiguration]
  exact hsame

/-- **A configuration comes back as the same object exactly if** it is a dictionary whose parts
are restored. -/
theorem configuration_restored_iff (c : Configuration) : RoundTrips c ∧ Survives c ↔
    (∃ entries, c.object = .dict entries) ∧ Restored stackLimit false c.object := by
  constructor
  · rintro ⟨hround, -⟩
    exact restored_of_roundTrips hround
  · rintro ⟨hdict, hrestored⟩
    have hround := roundTrips_of_restored hdict hrestored
    exact ⟨hround, survives_of_roundTrips hround⟩

/-- A quote in a text. -/
def quoted : Configuration where
  object := .dict [(pyStr "Name", .str (pyStr "\""))]
  distinct := by
    refine .dict (List.nodup_singleton _) ?_
    rw [List.forall_mem_singleton]
    exact .str

/-- It is not escaped, and the text is not read. -/
theorem quote_lost : ¬(RoundTrips quoted ∧ Survives quoted) := by
  rintro ⟨hround, -⟩
  have hrestored := (restored_of_roundTrips hround).2
  obtain ⟨-, b, hb, -, hquote, -⟩ := hrestored _ List.mem_cons_self
  obtain rfl : [0x22] = b := Option.some.inj ((by decide : asUTF8 (pyStr "\"") = _).symm.trans hb)
  exact hquote List.mem_cons_self

end Domoticz.PythonJson
