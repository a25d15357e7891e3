import Domoticz.Plugin.PythonJson
import Domoticz.Web.Rest

/-!
# The columns of a body

`getFieldsAndValues` pushes the name of a member and then, by the type of its value, a text.  Where
it knows no text it pushes none, and the lists are found to be of different length in the end.  An
integer that is no `int` is taken for a double, and a double is written with six decimals.

## Main definitions

* `Permitted`, `permitted` — the columns that may be written, and the members of a body that are
  among them.
* `ExactText`, `Representable` — the exact text of a value, and the values that have one.
* `Right` — what is asked of a body.
* `Kept` — the values whose text is exact.

## Main results

* `exactText_iff` — the text of a value is exact exactly if it is kept.
* `unpacked_iff` — **a body is right exactly if a value has no text or all values are kept.**
* `integer_as_double` — an integer that is no `int`.
-/

namespace Domoticz.BodyColumns

open CLib PythonJson

/-! ### What is asked of a body -/

/-- A column that may be written. -/
def Permitted (da : DataAccess) (name : Bytes) : Prop :=
  name ∈ da.getValidFields ∧ name ≠ da.table ++ str "ID" ∧ name ≠ str "Timestamp"

instance (da : DataAccess) (name : Bytes) : Decidable (Permitted da name) :=
  inferInstanceAs (Decidable (_ ∧ _))

/-- The members of a body that are columns that may be written. -/
def permitted (da : DataAccess) (root : Json UInt64) : List (Bytes × Json UInt64) :=
  root.members.filter fun m => Permitted da m.1

/-- The exact text of a value.  The text of a double is that of the integer it is equal to, or one
that it is read from. -/
def ExactText (v : Json UInt64) (text : Bytes) : Prop :=
  match v with
  | .string s => text = s
  | .bool b => text = if b then str "1" else str "0"
  | .int i => text = decimal i
  | .uint n => text = decimal n
  | .real d => (∃ i, Double.toIntegral d = some i ∧ text = decimal i) ∨
      Double.readDouble text = some d
  | _ => False

/-- A value that has a text. -/
def Representable : Json UInt64 → Prop
  | .null => False
  | .array _ => False
  | .object _ => False
  | _ => True

/-- The body as the reader has it; after an exception the request is a bad one, too. -/
def body (content : Bytes) : Option (Json UInt64) := (JsonReader.parse content).toOption

/-- What is asked of a body. -/
structure Right (content : Bytes) (da : DataAccess) : Prop where
  /-- Each position has a column that may be written, and the exact text of its value. -/
  sound : ∀ fields values, getFieldsAndValues doubles (body content) da = .ok (fields, values) →
    fields.length = values.length ∧ 0 < fields.length ∧
      ∃ root, JsonReader.parse content = .ok root ∧ ∀ (i : ℕ) (field value : Bytes),
        fields[i]? = some field → values[i]? = some value → Permitted da field ∧
          ∃ v, (permitted da root)[i]? = some (field, v) ∧ ExactText v value
  /-- If one of the values has no text, the request is a bad one and no statement is executed. -/
  refused : ∀ root, JsonReader.parse content = .ok root →
    (∃ m ∈ permitted da root, ¬ Representable m.2) →
      getFieldsAndValues doubles (body content) da = .error .badRequest ∧
        ∀ req : Request, req.content = content → req.contentLength ≠ 0 →
          post doubles body req da = .reply .badRequest ∧
            ∀ da' : DataAccess, da'.stripForbiddenFields = da →
              put doubles body req da' = .reply .badRequest ∧
                patch doubles body req da' = .reply .badRequest

/-- A value whose text is exact: a string without a NUL, a truth value, an `int`, or a double that
is equal to one or that six decimals are enough for. -/
def Kept : Json UInt64 → Prop
  | .string s => 0 ∉ s
  | .bool _ => True
  | .int i => Json.inInt i = true
  | .uint n => n ≤ 2147483647
  | .real d => (∃ i, Double.toIntegral d = some i ∧ Json.inInt i = true) ∨
      Double.readDouble (Double.toText d) = some d
  | _ => False

/-! ### Texts -/

/-- There is a point in the text of a double, or it is no number. -/
theorem mem_toText (d : UInt64) : chr '.' ∈ Double.toText d ∨ chr 'n' ∈ Double.toText d := by
  have hfixed (n : ℕ) : chr '.' ∈ Double.fixed n :=
    List.mem_append_right _ List.mem_cons_self
  unfold Double.toText
  split
  · exact Or.inr (List.mem_append_right _ (by decide))
  · split
    · exact Or.inr (by decide)
    · exact Or.inr (by decide)
  · exact Or.inl (List.mem_append_right _ (hfixed _))
  · exact Or.inl (List.mem_append_right _ (hfixed _))

/-- The text of a double is not that of an integer. -/
theorem toText_ne_decimal (d : UInt64) (i : ℤ) : Double.toText d ≠ decimal i := by
  intro h
  have hmem := mem_toText d
  rw [h] at hmem
  rcases hmem with hmem | hmem
  · exact notMem_decimal i (by decide) (by decide) hmem
  · exact notMem_decimal i (by decide) (by decide) hmem

theorem valueText_isSome_iff (v : Json UInt64) :
    (∃ text, valueText doubles v = some text) ↔ Representable v := by
  cases v with
  | null => exact iff_of_false (by rintro ⟨_, h⟩; cases h) id
  | array items => exact iff_of_false (by rintro ⟨_, h⟩; cases h) id
  | object ms => exact iff_of_false (by rintro ⟨_, h⟩; cases h) id
  | string s => exact iff_of_true ⟨_, rfl⟩ trivial
  | bool b => exact iff_of_true ⟨_, rfl⟩ trivial
  | int i =>
    refine iff_of_true ?_ trivial
    unfold valueText
    cases Json.asInt? doubles (.int i) with
    | some i' => exact ⟨_, rfl⟩
    | none => exact ⟨_, rfl⟩
  | uint n =>
    refine iff_of_true ?_ trivial
    unfold valueText
    cases Json.asInt? doubles (.uint n) with
    | some i' => exact ⟨_, rfl⟩
    | none => exact ⟨_, rfl⟩
  | real d =>
    refine iff_of_true ?_ trivial
    unfold valueText
    cases Json.asInt? doubles (.real d) with
    | some i' => exact ⟨_, rfl⟩
    | none => exact ⟨_, rfl⟩

theorem valueText_int (i : ℤ) : valueText doubles (.int i) =
    some (if Json.inInt i = true then decimal i else Double.toText (Double.ofInt i)) := by
  simp only [valueText, Json.asInt?, Json.asDouble?, doubles]
  by_cases h : Json.inInt i = true
  · rw [if_pos h, if_pos h]
  · rw [if_neg h, if_neg h]
    rfl

theorem valueText_uint (n : ℕ) : valueText doubles (.uint n) =
    some (if n ≤ 2147483647 then decimal n else Double.toText (Double.ofInt n)) := by
  simp only [valueText, Json.asInt?, Json.asDouble?, doubles]
  by_cases h : n ≤ 2147483647
  · rw [if_pos h, if_pos h]
  · rw [if_neg h, if_neg h]
    rfl

/-- An integer is written as one, or as a double. -/
theorem ite_text_iff {p : Prop} [Decidable p] {i : ℤ} {d : UInt64} :
    (if p then decimal i else Double.toText d) = decimal i ↔ p := by
  by_cases h : p
  · rw [if_pos h]
    exact iff_of_true rfl h
  · rw [if_neg h]
    exact iff_of_false (toText_ne_decimal d i) h

/-- The text of a double. -/
theorem exactText_real_iff {d : UInt64} {text : Bytes}
    (h : valueText doubles (.real d) = some text) : ExactText (.real d) text ↔ Kept (.real d) := by
  simp only [valueText, Json.asInt?, Json.asDouble?, doubles] at h
  unfold ExactText Kept
  cases hint : (Double.toIntegral d).filter Json.inInt with
  | some i =>
    obtain ⟨hi, hrange⟩ := Option.filter_eq_some_iff.mp hint
    rw [hint] at h
    cases h
    exact iff_of_true (Or.inl ⟨i, hi, rfl⟩) (Or.inl ⟨i, hi, hrange⟩)
  | none =>
    rw [hint] at h
    cases h
    have hno : ¬ ∃ i, Double.toIntegral d = some i ∧ Double.toText d = decimal i := by
      rintro ⟨i, -, htext⟩
      exact toText_ne_decimal d i htext
    have hrange : ¬ ∃ i, Double.toIntegral d = some i ∧ Json.inInt i = true := by
      rintro ⟨i, hi, hrange⟩
      rw [Option.filter_eq_some_iff.mpr ⟨hi, hrange⟩] at hint
      cases hint
    simp only
    rw [or_iff_right hno, or_iff_right hrange]

/-- The text of a value is exact exactly if it is kept. -/
theorem exactText_iff {v : Json UInt64} {text : Bytes} (h : valueText doubles v = some text) :
    ExactText v text ↔ Kept v := by
  cases v with
  | null => cases h
  | array items => cases h
  | object ms => cases h
  | string s =>
    cases h
    exact cstr_eq_self_iff s
  | bool b =>
    cases h
    refine iff_of_true ?_ trivial
    cases b with
    | false => exact (by decide : decimal 0 = str "0")
    | true => exact (by decide : decimal 1 = str "1")
  | int i =>
    rw [valueText_int] at h
    cases h
    exact ite_text_iff
  | uint n =>
    rw [valueText_uint] at h
    cases h
    exact ite_text_iff
  | real d => exact exactText_real_iff h

/-! ### Bodies -/

section Body

variable {content : Bytes} {da : DataAccess} {root : Json UInt64}

/-- The members that are written are those that are permitted. -/
theorem filter_isWritten (da : DataAccess) (root : Json UInt64) :
    root.members.filter (isWritten da) = permitted da root := by
  refine List.filter_congr fun m _ => ?_
  rw [Bool.eq_iff_iff, decide_eq_true_iff]
  simp only [isWritten, Permitted, Bool.and_eq_true, bne_iff_ne, List.any_eq_true, beq_iff_eq,
    DataAccess.getValidFields, List.mem_map]
  tauto

theorem body_eq (h : JsonReader.parse content = .ok root) : body content = some root := by
  rw [body, h]
  rfl

/-- A body that is unpacked is JSON. -/
theorem exists_root {fields values : List Bytes}
    (h : getFieldsAndValues doubles (body content) da = .ok (fields, values)) :
    ∃ root, JsonReader.parse content = .ok root := by
  cases hparse : JsonReader.parse content with
  | ok root => exact ⟨root, rfl⟩
  | error e =>
    rw [body, hparse] at h
    cases h

/-- A value without a text: the lists are of different length. -/
theorem getFieldsAndValues_refused (h : ∃ m ∈ permitted da root, ¬ Representable m.2) :
    getFieldsAndValues doubles (some root) da = .error .badRequest := by
  obtain ⟨m, hm, hno⟩ := h
  have hlength : ¬ (root.members.filter (isWritten da)).length =
      ((root.members.filter (isWritten da)).filterMap fun m => valueText doubles m.2).length := by
    rw [filter_isWritten, eq_comm, List.filterMap_length_eq_length]
    intro hall
    exact hno ((valueText_isSome_iff m.2).mp (Option.isSome_iff_exists.mp (hall m hm)))
  unfold getFieldsAndValues
  simp only [List.length_map]
  rw [if_pos hlength]

/-- Values that all have a text. -/
theorem exists_getFieldsAndValues (h : ∀ m ∈ permitted da root, Representable m.2)
    (hne : permitted da root ≠ []) : ∃ values,
      getFieldsAndValues doubles (some root) da =
        .ok ((permitted da root).map Prod.fst, values) ∧
      values.map some = (permitted da root).map fun m => valueText doubles m.2 := by
  have hsome : ((permitted da root).filterMap fun m => valueText doubles m.2).length =
      (permitted da root).length := by
    rw [List.filterMap_length_eq_length]
    exact fun m hm => Option.isSome_iff_exists.mpr ((valueText_isSome_iff m.2).mpr (h m hm))
  refine ⟨_, getFieldsAndValues_eq_ok_iff.mpr ?_, map_some_filterMap_iff.mpr hsome⟩
  rw [filter_isWritten]
  exact ⟨rfl, fun hnil => hne (List.map_eq_nil_iff.mp hnil), map_some_filterMap_iff.mpr hsome⟩

/-- A handler that cannot unpack the body replies that. -/
theorem handlers_refused
    (h : getFieldsAndValues doubles (body content) da = .error .badRequest) {req : Request}
    (hcontent : req.content = content) (hlength : req.contentLength ≠ 0) :
    post doubles body req da = .reply .badRequest ∧
      ∀ da' : DataAccess, da'.stripForbiddenFields = da →
        put doubles body req da' = .reply .badRequest ∧
          patch doubles body req da' = .reply .badRequest := by
  refine ⟨?_, fun da' hda => ?_⟩
  · rw [post, if_neg hlength, hcontent, h]
  · have hmodify : modify doubles body req da' = .reply .badRequest := by
      rw [modify, if_neg hlength, hcontent, hda, h]
    exact ⟨hmodify, hmodify⟩

/-- The text at the position of a member. -/
theorem valueText_of_getElem? {l : List (Bytes × Json UInt64)} {values : List Bytes}
    (h : values.map some = l.map fun m => valueText doubles m.2) {i : ℕ}
    {m : Bytes × Json UInt64} (hm : l[i]? = some m) :
    ∃ text, values[i]? = some text ∧ valueText doubles m.2 = some text := by
  have hi := congrArg (fun l => l[i]?) h
  simp only [List.getElem?_map] at hi
  rw [hm, Option.map_some] at hi
  obtain ⟨text, htext, heq⟩ := Option.map_eq_some_iff.mp hi
  exact ⟨text, htext, heq.symm⟩

end Body

/-- **A body is right exactly if a value has no text or all values are kept.** -/
theorem unpacked_iff (content : Bytes) (da : DataAccess) : Right content da ↔
    ∀ root, JsonReader.parse content = .ok root →
      (∃ m ∈ permitted da root, ¬ Representable m.2) ∨ ∀ m ∈ permitted da root, Kept m.2 := by
  constructor
  · intro h root hroot
    by_cases hall : ∀ m ∈ permitted da root, Representable m.2
    · refine Or.inr fun m hm => ?_
      obtain ⟨values, hok, hvalues⟩ := exists_getFieldsAndValues hall (List.ne_nil_of_mem hm)
      rw [← body_eq hroot] at hok
      obtain ⟨-, -, root', hroot', hsound⟩ := h.sound _ _ hok
      obtain rfl := Except.ok.inj (hroot.symm.trans hroot')
      obtain ⟨i, hi⟩ := List.mem_iff_getElem?.mp hm
      obtain ⟨text, htext, hvalue⟩ := valueText_of_getElem? hvalues hi
      have hfield : ((permitted da root).map Prod.fst)[i]? = some m.1 := by
        rw [List.getElem?_map, hi, Option.map_some]
      obtain ⟨-, v, hv, hexact⟩ := hsound i m.1 text hfield htext
      have hm2 : m.2 = v := congrArg Prod.snd (Option.some.inj (hi.symm.trans hv))
      rw [← hm2] at hexact
      exact (exactText_iff hvalue).mp hexact
    · push Not at hall
      exact Or.inl hall
  · intro h
    refine ⟨fun fields values hok => ?_, fun root hroot hno => ?_⟩
    · obtain ⟨root, hroot⟩ := exists_root hok
      rw [body_eq hroot] at hok
      obtain ⟨hne, hlength, -⟩ := getFieldsAndValues_valid hok
      obtain ⟨hfields, -, hvalues⟩ := getFieldsAndValues_eq_ok_iff.mp hok
      rw [filter_isWritten] at hfields hvalues
      refine ⟨hlength, List.length_pos_of_ne_nil hne, root, hroot, ?_⟩
      intro i field value hfield hvalue
      rw [hfields, List.getElem?_map] at hfield
      obtain ⟨m, hm, rfl⟩ := Option.map_eq_some_iff.mp hfield
      have hmem := List.mem_of_getElem? hm
      obtain ⟨text, htext, hvalueText⟩ := valueText_of_getElem? hvalues hm
      obtain rfl := Option.some.inj (hvalue.symm.trans htext)
      refine ⟨of_decide_eq_true (List.mem_filter.mp hmem).2, m.2, hm, ?_⟩
      -- the statement is executed, so that every value has a text
      rcases h root hroot with hno | hkept
      · rw [getFieldsAndValues_refused hno] at hok
        cases hok
      · exact (exactText_iff hvalueText).mpr (hkept m hmem)
    · have hrefused := getFieldsAndValues_refused hno
      rw [← body_eq hroot] at hrefused
      exact ⟨hrefused, fun req hcontent hlength => handlers_refused hrefused hcontent hlength⟩

/-- A body with an integer that is no `int`. -/
def largeMaximum : Bytes := str "\x7b\"Maximum\":3000000000\x7d"

/-- The column that it is for. -/
def unit : DataAccess :=
  { table := str "Unit", validFields := [⟨[], str "Maximum", str "INTEGER", [], [], []⟩] }

/-- The integer of a body that is an object of a single one. -/
def onlyInteger : Json UInt64 → Option ℕ
  | .object [(_, .uint n)] => some n
  | _ => none

/-- It is written with six decimals. -/
theorem integer_as_double :
    (getFieldsAndValues doubles (body largeMaximum) unit).toOption =
        some ([str "Maximum"], [str "3000000000.000000"]) ∧
      ¬ Right largeMaximum unit := by
  have hok : (getFieldsAndValues doubles (body largeMaximum) unit).toOption =
      some ([str "Maximum"], [str "3000000000.000000"]) := by decide +kernel
  refine ⟨hok, fun h => ?_⟩
  cases hget : getFieldsAndValues doubles (body largeMaximum) unit with
  | error status =>
    rw [hget] at hok
    cases hok
  | ok r =>
    rw [hget] at hok
    obtain rfl := Option.some.inj hok
    obtain ⟨-, -, root, hroot, hsound⟩ := h.sound _ _ hget
    obtain ⟨-, v, hv, hexact⟩ := hsound 0 _ _ rfl rfl
    have honly : (JsonReader.parse largeMaximum).toOption.bind onlyInteger = some 3000000000 := by
      decide +kernel
    rw [hroot, Except.toOption, Option.bind_some] at honly
    unfold onlyInteger at honly
    split at honly
    · have hmem := List.mem_of_mem_filter (List.mem_of_getElem? hv)
      rw [Json.members, List.mem_singleton] at hmem
      cases honly
      cases hmem
      have hdiffers : str "3000000000.000000" ≠ decimal 3000000000 := by decide
      exact hdiffers hexact
    · cases honly

end Domoticz.BodyColumns
