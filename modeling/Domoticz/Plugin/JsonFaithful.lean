import Domoticz.JsonRoundTrip
import Domoticz.Plugin.JsonTree

/-!
# What JSON means as Python objects

A JSON value and a Python object are compared as Python compares: `null` is `None`, a number an
`int` or a `float` of the same value.  `JSONtoPython` has no case for `null`, which is converted to
an empty `str`, none for a `bool` in a list, and 32 bits for an integer: others become a `float`.

## Main definitions

* `Same` — a scalar and a Python object of the same value.
* `Faithful` — the trees that are converted to an equal object.
* `Conveys` — a text and what was made of it.

## Main results

* `converts_same_iff` — **a tree is converted to an equal object exactly if it is faithful.**
* `exists_conveys_iff` — a text is given as what it says exactly if it is a faithful object.
-/

namespace Domoticz.PythonJson

open CLib JsonReader

/-- A scalar and a Python object are equal; an `int` equals a `float` of its value. -/
inductive Same : Value → PyObject → Prop
  | null : Same .null .none
  | bool {b : Bool} : Same (.bool b) (.bool b)
  | string {s : Bytes} {t : PyStr} : asUTF8 t = some s → Same (.string s) (.str t)
  | int {i : ℤ} : Same (.int i) (.int i)
  | uint {n : ℕ} : Same (.uint n) (.int n)
  | real {d : UInt64} : Same (.real d) (.float d)
  | intFloat {i : ℤ} {d : UInt64} : Double.toIntegral d = some i → Same (.int i) (.float d)
  | uintFloat {n : ℕ} {d : UInt64} : Double.toIntegral d = some n → Same (.uint n) (.float d)
  | realInt {d : UInt64} {i : ℤ} : Double.toIntegral d = some i → Same (.real d) (.int i)

/-- An integer of 32 bits, signed or unsigned, or one that is a double. -/
def Narrow (i : ℤ) : Prop :=
  -2147483648 ≤ i ∧ i ≤ 4294967295 ∨ Double.toIntegral (Double.ofInt i) = some i

/-- The scalars that have an equal object where they are members. -/
def Kept : Value → Prop
  | .null => False
  | .string s => IsUTF8 s
  | .int i => Narrow i
  | .uint n => Narrow n
  | _ => True

/-- A tree of which nothing is lost: the scalars are kept, no `bool` is an element of an array,
and the names are UTF-8 without NUL. -/
structure Faithful (tree : Value) : Prop where
  scalars : ∀ v, Inside v tree → isContainer v = false → Kept v
  elements : ∀ b, ¬ IsElement (.bool b) tree
  names : ∀ members, Inside (.object members) tree → ∀ m ∈ members, IsUTF8 m.1 ∧ 0 ∉ m.1

/-! ### The scalars -/

theorem ofNumber_int (i : ℤ) : ofNumber (.int i) =
    some (if -2147483648 ≤ i ∧ i ≤ 4294967295 then .int i else .float (Double.ofInt i)) := by
  have huint : asUInt? (.int i) = if 0 ≤ i ∧ i ≤ 4294967295 then some i else none := rfl
  have hint : Json.asInt? doubles (.int i) = if Json.inInt i then some i else none := rfl
  have hdouble : Json.asDouble? doubles (.int i) = some (Double.ofInt i) := rfl
  rw [ofNumber, huint, hint, hdouble]
  by_cases hlarge : 0 ≤ i ∧ i ≤ 4294967295
  · rw [if_pos hlarge]
    show some (PyObject.int i) = _
    rw [if_pos ⟨by omega, hlarge.2⟩]
  · rw [if_neg hlarge]
    by_cases hsmall : Json.inInt i = true
    · rw [if_pos hsmall]
      simp only [Json.inInt, Bool.and_eq_true, decide_eq_true_eq] at hsmall
      rw [if_pos ⟨hsmall.1, by omega⟩]
    · rw [if_neg hsmall]
      simp only [Json.inInt, Bool.and_eq_true, decide_eq_true_eq] at hsmall
      rw [if_neg (by omega)]
      rfl

theorem ofNumber_uint (n : ℕ) : ofNumber (.uint n) =
    some (if n ≤ 4294967295 then .int n else .float (Double.ofInt n)) := by
  have huint : asUInt? (.uint n) = if n ≤ 4294967295 then some (n : ℤ) else none := rfl
  have hint : Json.asInt? doubles (.uint n) = if n ≤ 2147483647 then some (n : ℤ) else none := rfl
  have hdouble : Json.asDouble? doubles (.uint n) = some (Double.ofInt n) := rfl
  rw [ofNumber, huint, hint, hdouble]
  by_cases hlarge : n ≤ 4294967295
  · rw [if_pos hlarge, if_pos hlarge]
  · rw [if_neg hlarge, if_neg (by omega), if_neg hlarge]
    rfl

/-- A number with a fraction is a `float`, any other an `int` if it has 32 bits. -/
theorem same_ofNumber_real (d : UInt64) : ∃ x, ofNumber (.real d) = some x ∧ Same (.real d) x := by
  have huint : asUInt? (.real d) =
      (Double.toIntegral d).filter fun i => 0 ≤ i ∧ i ≤ 4294967295 := rfl
  have hint : Json.asInt? doubles (.real d) = (Double.toIntegral d).filter Json.inInt := rfl
  rw [ofNumber, huint, hint]
  cases hd : Double.toIntegral d with
  | none => exact ⟨.float d, rfl, .real⟩
  | some i =>
    by_cases hlarge : 0 ≤ i ∧ i ≤ 4294967295
    · exact ⟨.int i, by simp [Option.filter, hlarge], .realInt hd⟩
    · by_cases hsmall : Json.inInt i = true
      · exact ⟨.int i, by simp [Option.filter, hlarge, hsmall], .realInt hd⟩
      · exact ⟨.float d, by simp [Option.filter, hlarge, hsmall]; rfl, .real⟩

/-- What is made of an integer equals it. -/
theorem same_integer_iff {v : Value} {i : ℤ} {small : Prop} [Decidable small]
    (hv : ∀ x, Same v x ↔ x = .int i ∨ ∃ d, x = .float d ∧ Double.toIntegral d = some i) :
    Same v (if small then .int i else .float (Double.ofInt i)) ↔
      small ∨ Double.toIntegral (Double.ofInt i) = some i := by
  rw [hv]
  by_cases hsmall : small
  · simp [hsmall]
  · simp [hsmall]

theorem same_int_iff {i : ℤ} {x : PyObject} :
    Same (.int i) x ↔ x = .int i ∨ ∃ d, x = .float d ∧ Double.toIntegral d = some i := by
  constructor
  · intro h
    cases h with
    | int => exact .inl rfl
    | intFloat hd => exact .inr ⟨_, rfl, hd⟩
  · rintro (rfl | ⟨d, rfl, hd⟩)
    · exact .int
    · exact .intFloat hd

theorem same_uint_iff {n : ℕ} {x : PyObject} :
    Same (.uint n) x ↔ x = .int n ∨ ∃ d, x = .float d ∧ Double.toIntegral d = some (n : ℤ) := by
  constructor
  · intro h
    cases h with
    | uint => exact .inl rfl
    | uintFloat hd => exact .inr ⟨_, rfl, hd⟩
  · rintro (rfl | ⟨d, rfl, hd⟩)
    · exact .uint
    · exact .uintFloat hd

/-- An element equals what is made of it, but for `null` and a `bool`. -/
theorem exists_same_ofItem_iff {v : Value} (hv : isContainer v = false) :
    (∃ x, ofItem v = some x ∧ Same v x) ↔ Kept v ∧ ∀ b, v ≠ .bool b := by
  have hnumber {x : PyObject} (hx : ofNumber v = some x) : ofItem v = some x := by
    rw [ofItem, hx]
  cases v with
  | null =>
    refine iff_of_false ?_ And.left
    rintro ⟨x, hx, hsame⟩
    cases hsame
    cases hx
  | int i =>
    rw [hnumber (ofNumber_int i)]
    simp only [Option.some.injEq, exists_eq_left', same_integer_iff fun _ => same_int_iff]
    exact (and_iff_left fun b h => by cases h).symm
  | uint n =>
    rw [hnumber (ofNumber_uint n)]
    simp only [Option.some.injEq, exists_eq_left', same_integer_iff fun _ => same_uint_iff]
    rw [and_iff_left (fun b h => by cases h), Kept, Narrow]
    exact or_congr_left ⟨fun h => ⟨by omega, by omega⟩, fun h => by omega⟩
  | real d =>
    obtain ⟨x, hx, hsame⟩ := same_ofNumber_real d
    exact iff_of_true ⟨x, hnumber hx, hsame⟩ ⟨trivial, fun b h => by cases h⟩
  | string s =>
    have hitem : ofItem (.string s) = (decodeUTF8 s).map .str := rfl
    rw [hitem, and_iff_left fun b h => by cases h]
    constructor
    · rintro ⟨x, hx, hsame⟩
      cases hsame with
      | string ht => exact ⟨_, ht⟩
    · rintro ⟨t, ht⟩
      exact ⟨.str t, by rw [decodeUTF8_eq_some_iff.mpr ht]; rfl, .string ht⟩
  | bool b =>
    refine iff_of_false ?_ fun h => h.2 b rfl
    rintro ⟨x, hx, hsame⟩
    cases hsame
    exact ofItem_bool b hx
  | array items => cases hv
  | object members => cases hv

theorem exists_same_ofMember_iff {v : Value} (hv : isContainer v = false) :
    (∃ x, ofMember v = some x ∧ Same v x) ↔ Kept v := by
  by_cases hbool : ∃ b, v = .bool b
  · obtain ⟨b, rfl⟩ := hbool
    exact iff_of_true ⟨.bool b, rfl, .bool⟩ trivial
  · rw [not_exists] at hbool
    rw [ofMember_eq_ofItem hbool, exists_same_ofItem_iff hv, and_iff_left hbool]

/-! ### Trees -/

/-- **A tree is converted to an equal object exactly if it is faithful.** -/
theorem converts_same_iff (t : Tree) : Converts Same t.value ↔ Faithful t.value := by
  rw [converts_iff_placed t.value t.distinct t.container]
  constructor
  · intro h
    refine ⟨fun v hv hscalar => ?_, fun b hb => ?_, h.names⟩
    · rcases isElement_or_isMember t.container hscalar hv with helement | hmember
      · exact ((exists_same_ofItem_iff hscalar).mp (h.elements v helement hscalar)).1
      · exact (exists_same_ofMember_iff hscalar).mp (h.members v hmember hscalar)
    · exact ((exists_same_ofItem_iff rfl).mp (h.elements _ hb rfl)).2 b rfl
  · intro h
    refine ⟨h.names, fun v hv hscalar => ?_, fun v hv hscalar => ?_⟩
    · refine (exists_same_ofItem_iff hscalar).mpr ⟨h.scalars v hv.inside hscalar, fun b hb => ?_⟩
      exact h.elements b (hb ▸ hv)
    · exact (exists_same_ofMember_iff hscalar).mpr (h.scalars v hv.inside hscalar)

/-- The names in what the reader makes are different. -/
theorem distinct_of_isMade {levels : ℕ} {v : Value} (h : JsonWriter.IsMade levels v) :
    ∀ members, Inside (.object members) v → (members.map Prod.fst).Nodup := by
  intro members hinside
  have hwritable := h.writable
  clear h
  generalize heq : Json.object members = w at hinside
  induction hinside generalizing levels with
  | self =>
    subst heq
    cases levels with
    | zero => exact hwritable.elim
    | succ levels =>
      refine List.Pairwise.imp (fun {a b} (hlt : a < b) => ?_) hwritable.1
      rintro rfl
      exact List.lt_irrefl _ hlt
  | item hw _ ih =>
    cases levels with
    | zero => exact hwritable.elim
    | succ levels => exact ih (hwritable _ hw)
  | member hm _ ih =>
    cases levels with
    | zero => exact hwritable.elim
    | succ levels => exact ih (hwritable.2 _ hm)

/-! ### Texts -/

/-- A text is an object of which nothing is lost. -/
def Conveyed (body : Bytes) : Prop :=
  ∃ members, parse body = .ok (.object members) ∧ Faithful (.object members)

/-- What was made of a text is the object that it says. -/
def Conveys (body : Bytes) (t : Translated) : Prop :=
  ∃ members x, parse body = .ok (.object members) ∧ t = .object x ∧ Image Same (.object members) x

/-- **A text is given as what it says exactly if nothing is lost of it.** -/
theorem exists_conveys_iff (body : Bytes) :
    (∃ t, translate body = .ok t ∧ Conveys body t) ↔ Conveyed body := by
  have htree {members : List (Bytes × Value)} (hparse : parse body = .ok (.object members)) :
      Converts Same (.object members) ↔ Faithful (.object members) :=
    converts_same_iff ⟨.object members, rfl, distinct_of_isMade (JsonWriter.parse_isMade hparse)⟩
  constructor
  · rintro ⟨t, ht, members, x, hparse, rfl, himage⟩
    refine ⟨members, hparse, (htree hparse).mp ⟨x, ?_, himage⟩⟩
    rw [translate_eq_object_iff, fromText, hparse] at ht
    exact ht
  · rintro ⟨members, hparse, hfaithful⟩
    obtain ⟨x, hx, himage⟩ := (htree hparse).mpr hfaithful
    refine ⟨.object x, ?_, members, x, hparse, rfl, himage⟩
    rw [translate_eq_object_iff, fromText, hparse]
    exact hx

end Domoticz.PythonJson
