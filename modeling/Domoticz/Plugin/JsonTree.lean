import Domoticz.Plugin.PythonJson

/-!
# Trees of JSON values

`JSONtoPython` as a map of trees: an array becomes a list, an object a dictionary, and a
scalar what one function makes of it, wherever it stands.  The two loops of the source do
not agree on that function: the one over arrays has no case for `isBool`.

The tree that is meant is given by a relation for the scalars, the graph of such a function or
another one.

## Main definitions

* `Inside`, `IsElement`, `IsMember` — where a value stands in a tree.
* `Image`, `Converts` — the tree of Python objects over a relation for the scalars.
* `Readable` — the texts and names that `JSONtoPython` can make a `str` of.

## Main results

* `converts_iff_placed` — which trees are converted, by what becomes of the scalars in them.
* `homomorphism_iff` — for which sets of trees there is such a function.
-/

namespace Domoticz.PythonJson

open CLib JsonReader

/-! ### Values in a tree -/

/-- A value that stands in another, or is the other. -/
inductive Inside : Value → Value → Prop
  | self (v : Value) : Inside v v
  | item {v w : Value} {items : List Value} : w ∈ items → Inside v w → Inside v (.array items)
  | member {v : Value} {m : Bytes × Value} {members : List (Bytes × Value)} : m ∈ members →
      Inside v m.2 → Inside v (.object members)

/-- An element of an array in the tree. -/
def IsElement (v tree : Value) : Prop := ∃ items, Inside (.array items) tree ∧ v ∈ items

/-- A member of an object in the tree. -/
def IsMember (v tree : Value) : Prop :=
  ∃ members, Inside (.object members) tree ∧ ∃ m ∈ members, m.2 = v

/-- A JSON tree; only an array or an object is converted. -/
structure Tree where
  value : Value
  container : isContainer value = true
  distinct : ∀ members, Inside (.object members) value → (members.map Prod.fst).Nodup

theorem inside_array_iff {v : Value} {items : List Value} :
    Inside v (.array items) ↔ v = .array items ∨ ∃ w ∈ items, Inside v w := by
  constructor
  · intro h
    cases h with
    | self => exact .inl rfl
    | item hw h => exact .inr ⟨_, hw, h⟩
  · rintro (rfl | ⟨w, hw, h⟩)
    · exact .self _
    · exact .item hw h

theorem inside_object_iff {v : Value} {members : List (Bytes × Value)} :
    Inside v (.object members) ↔ v = .object members ∨ ∃ m ∈ members, Inside v m.2 := by
  constructor
  · intro h
    cases h with
    | self => exact .inl rfl
    | member hm h => exact .inr ⟨_, hm, h⟩
  · rintro (rfl | ⟨m, hm, h⟩)
    · exact .self _
    · exact .member hm h

/-- Only itself stands in a scalar. -/
theorem inside_scalar {v w : Value} (hw : isContainer w = false) (h : Inside v w) : v = w := by
  cases h with
  | self => rfl
  | item => cases hw
  | member => cases hw

/-- What holds of a tree is shown of the scalars, and of arrays and objects from their parts. -/
theorem tree_induction {P : Value → Prop} (scalar : ∀ v, isContainer v = false → P v)
    (array : ∀ items, (∀ v ∈ items, P v) → P (.array items))
    (object : ∀ members, (∀ m ∈ members, P m.2) → P (.object members)) (v : Value) : P v := by
  refine Json.rec (motive_1 := P) (motive_2 := fun items => ∀ v ∈ items, P v)
    (motive_3 := fun members => ∀ m ∈ members, P m.2) (motive_4 := fun m => P m.2)
    ?_ ?_ ?_ ?_ ?_ ?_ ?_ ?_ ?_ ?_ ?_ ?_ ?_ v
  · exact scalar _ rfl
  · exact fun i => scalar _ rfl
  · exact fun n => scalar _ rfl
  · exact fun d => scalar _ rfl
  · exact fun s => scalar _ rfl
  · exact fun b => scalar _ rfl
  · exact array
  · exact object
  · exact List.forall_mem_nil _
  · exact fun v items hv hitems => List.forall_mem_cons.mpr ⟨hv, hitems⟩
  · exact List.forall_mem_nil _
  · exact fun m members hm hmembers => List.forall_mem_cons.mpr ⟨hm, hmembers⟩
  · exact fun name v hv => hv

theorem isElement_array_iff {v : Value} {items : List Value} :
    IsElement v (.array items) ↔ v ∈ items ∨ ∃ w ∈ items, IsElement v w := by
  constructor
  · rintro ⟨items', hinside, hv⟩
    rcases inside_array_iff.mp hinside with heq | ⟨w, hw, h⟩
    · cases heq
      exact .inl hv
    · exact .inr ⟨w, hw, items', h, hv⟩
  · rintro (hv | ⟨w, hw, items', h, hv⟩)
    · exact ⟨items, .self _, hv⟩
    · exact ⟨items', .item hw h, hv⟩

theorem isElement_object_iff {v : Value} {members : List (Bytes × Value)} :
    IsElement v (.object members) ↔ ∃ m ∈ members, IsElement v m.2 := by
  constructor
  · rintro ⟨items', hinside, hv⟩
    rcases inside_object_iff.mp hinside with heq | ⟨m, hm, h⟩
    · cases heq
    · exact ⟨m, hm, items', h, hv⟩
  · rintro ⟨m, hm, items', h, hv⟩
    exact ⟨items', .member hm h, hv⟩

theorem isMember_array_iff {v : Value} {items : List Value} :
    IsMember v (.array items) ↔ ∃ w ∈ items, IsMember v w := by
  constructor
  · rintro ⟨members', hinside, hv⟩
    rcases inside_array_iff.mp hinside with heq | ⟨w, hw, h⟩
    · cases heq
    · exact ⟨w, hw, members', h, hv⟩
  · rintro ⟨w, hw, members', h, hv⟩
    exact ⟨members', .item hw h, hv⟩

theorem isMember_object_iff {v : Value} {members : List (Bytes × Value)} :
    IsMember v (.object members) ↔
      (∃ m ∈ members, m.2 = v) ∨ ∃ m ∈ members, IsMember v m.2 := by
  constructor
  · rintro ⟨members', hinside, hv⟩
    rcases inside_object_iff.mp hinside with heq | ⟨m, hm, h⟩
    · cases heq
      exact .inl hv
    · exact .inr ⟨m, hm, members', h, hv⟩
  · rintro (hv | ⟨m, hm, members', h, hv⟩)
    · exact ⟨members, .self _, hv⟩
    · exact ⟨members', .member hm h, hv⟩

theorem Inside.trans {u v w : Value} (huv : Inside u v) (hvw : Inside v w) : Inside u w := by
  induction hvw with
  | self => exact huv
  | item hw _ ih => exact .item hw ih
  | member hm _ ih => exact .member hm ih

theorem IsElement.inside {v tree : Value} (h : IsElement v tree) : Inside v tree := by
  obtain ⟨items, hinside, hv⟩ := h
  exact (Inside.item hv (.self v)).trans hinside

theorem IsMember.inside {v tree : Value} (h : IsMember v tree) : Inside v tree := by
  obtain ⟨members, hinside, m, hm, rfl⟩ := h
  exact (Inside.member hm (.self m.2)).trans hinside

/-- A scalar in an array or an object is an element or a member there. -/
theorem isElement_or_isMember {v tree : Value} (htree : isContainer tree = true)
    (hv : isContainer v = false) (h : Inside v tree) : IsElement v tree ∨ IsMember v tree := by
  induction h with
  | self =>
    rw [htree] at hv
    cases hv
  | @item w items hw h ih =>
    cases hcontainer : isContainer w with
    | true =>
      rcases ih hcontainer with helement | hmember
      · exact .inl (isElement_array_iff.mpr (.inr ⟨w, hw, helement⟩))
      · exact .inr (isMember_array_iff.mpr ⟨w, hw, hmember⟩)
    | false =>
      obtain rfl := inside_scalar hcontainer h
      exact .inl (isElement_array_iff.mpr (.inl hw))
  | @member m members hm h ih =>
    cases hcontainer : isContainer m.2 with
    | true =>
      rcases ih hcontainer with helement | hmember
      · exact .inl (isElement_object_iff.mpr ⟨m, hm, helement⟩)
      · exact .inr (isMember_object_iff.mpr (.inr ⟨m, hm, hmember⟩))
    | false =>
      have heq := inside_scalar hcontainer h
      exact .inr (isMember_object_iff.mpr (.inl ⟨m, hm, heq.symm⟩))

/-! ### The tree of Python objects -/

/-- The tree over a relation for the scalars: arrays are lists of the same length, objects
are dictionaries with the same keys. -/
inductive Image (R : Value → PyObject → Prop) : Value → PyObject → Prop
  | scalar {v : Value} {x : PyObject} : isContainer v = false → R v x → Image R v x
  | list {items : List Value} {xs : List PyObject} : items.length = xs.length →
      (∀ v x, (v, x) ∈ items.zip xs → Image R v x) → Image R (.array items) (.list xs)
  | dict {members : List (Bytes × Value)} {entries : PyDict} :
      (∀ name, name ∈ members.map Prod.fst ↔ ∃ e ∈ entries, asUTF8 e.1 = some name) →
      (∀ m ∈ members, ∀ e ∈ entries, asUTF8 e.1 = some m.1 → Image R m.2 e.2) →
      Image R (.object members) (.dict entries)

/-- The value is converted to a tree over the relation. -/
def Converts (R : Value → PyObject → Prop) (v : Value) : Prop :=
  ∃ x, JSONtoPython v = some x ∧ Image R v x

/-- The value is converted to its tree. -/
def Homomorphic (scalar : Value → PyObject) (v : Value) : Prop :=
  Converts (fun v x => x = scalar v) v

/-- The bytes of some `str`. -/
def IsUTF8 (b : Bytes) : Prop := ∃ s, asUTF8 s = some b

/-- Every text in a tree is UTF-8, and every name is too and has no NUL. -/
structure Readable (tree : Value) : Prop where
  texts : ∀ s, Inside (.string s) tree → IsUTF8 s
  names : ∀ members, Inside (.object members) tree → ∀ m ∈ members, IsUTF8 m.1 ∧ 0 ∉ m.1

theorem isUTF8_iff {b : Bytes} : IsUTF8 b ↔ decodeUTF8 b ≠ none := by
  rw [Option.ne_none_iff_exists']
  exact exists_congr fun s => decodeUTF8_eq_some_iff.symm

section Relation

variable {R : Value → PyObject → Prop}

theorem image_scalar_iff {v : Value} {x : PyObject} (hv : isContainer v = false) :
    Image R v x ↔ R v x := by
  constructor
  · intro h
    cases h with
    | scalar _ h => exact h
    | list => cases hv
    | dict => cases hv
  · exact .scalar hv

theorem image_array_iff {items : List Value} {x : PyObject} : Image R (.array items) x ↔
    ∃ xs, x = .list xs ∧ List.Forall₂ (Image R) items xs := by
  constructor
  · intro h
    cases h with
    | scalar hv => cases hv
    | list hlength hall => exact ⟨_, rfl, List.forall₂_iff_zip.mpr ⟨hlength, hall _ _⟩⟩
  · rintro ⟨xs, rfl, hall⟩
    obtain ⟨hlength, hzip⟩ := List.forall₂_iff_zip.mp hall
    exact .list hlength fun v x => hzip

theorem image_object_iff {members : List (Bytes × Value)} {entries : PyDict} :
    Image R (.object members) (.dict entries) ↔
      (∀ name, name ∈ members.map Prod.fst ↔ ∃ e ∈ entries, asUTF8 e.1 = some name) ∧
        ∀ m ∈ members, ∀ e ∈ entries, asUTF8 e.1 = some m.1 → Image R m.2 e.2 := by
  refine ⟨fun h => ?_, fun h => .dict h.1 h.2⟩
  generalize heq : Json.object members = v at h
  generalize heq' : PyObject.dict entries = x at h
  cases h with
  | scalar hv =>
    subst heq
    cases hv
  | list => cases heq
  | dict hkeys hall =>
    cases heq
    cases heq'
    exact ⟨hkeys, hall⟩

end Relation

/-! ### The loops -/

/-- What is made of an item or a member, by what is made of a scalar there. -/
def made (ofScalar : Value → Option PyObject) (v : Value) : Option PyObject :=
  if isContainer v then JSONtoPython v else ofScalar v

theorem listItems_cons (v : Value) (items : List Value) : listItems (v :: items) =
    (made ofItem v).bind fun x => (listItems items).map (x :: ·) := rfl

theorem dictEntries_cons (entries : PyDict) (m : Bytes × Value) (members : List (Bytes × Value)) :
    dictEntries entries (m :: members) = (decodeUTF8 (cstr m.1)).bind fun key =>
      (made ofMember m.2).bind fun x => dictEntries (setItem key x entries) members := rfl

/-- A container is to be converted to its tree, a scalar to what is related to it. -/
theorem exists_made_iff {ofScalar : Value → Option PyObject} {R : Value → PyObject → Prop}
    {v : Value} : (∃ x, made ofScalar v = some x ∧ Image R v x) ↔
      (isContainer v = true → Converts R v) ∧
        (isContainer v = false → ∃ x, ofScalar v = some x ∧ R v x) := by
  cases hv : isContainer v with
  | true =>
    have hmade : made ofScalar v = JSONtoPython v := if_pos hv
    rw [hmade]
    exact ⟨fun h => ⟨fun _ => h, fun h => by cases h⟩, fun h => h.1 rfl⟩
  | false =>
    have hmade : made ofScalar v = ofScalar v := if_neg (by rw [hv]; exact Bool.false_ne_true)
    simp only [hmade, image_scalar_iff hv]
    exact ⟨fun h => ⟨fun h => (by cases h), fun _ => h⟩, fun h => h.2 trivial⟩

theorem listItems_eq_some_iff {items : List Value} {xs : List PyObject} :
    listItems items = some xs ↔ List.Forall₂ (fun v x => made ofItem v = some x) items xs := by
  induction items generalizing xs with
  | nil =>
    rw [List.forall₂_nil_left_iff]
    exact ⟨fun h => (Option.some.inj h).symm, fun h => congrArg some h.symm⟩
  | cons v items ih =>
    rw [listItems_cons, List.forall₂_cons_left_iff]
    constructor
    · intro h
      obtain ⟨x, hx, h⟩ := Option.bind_eq_some_iff.mp h
      obtain ⟨xs', hxs', rfl⟩ := Option.map_eq_some_iff.mp h
      exact ⟨x, xs', hx, ih.mp hxs', rfl⟩
    · rintro ⟨x, xs', hx, hall, rfl⟩
      rw [hx, Option.bind_some, ih.mpr hall, Option.map_some]

section Related

variable {α β : Type} {R : α → β → Prop} {l : List α} {xs : List β}

theorem exists_right_of_forall₂ (h : List.Forall₂ R l xs) {a : α} (ha : a ∈ l) :
    ∃ x ∈ xs, R a x := by
  induction h with
  | nil => cases ha
  | cons hR _ ih =>
    rcases List.mem_cons.mp ha with rfl | ha
    · exact ⟨_, List.mem_cons_self, hR⟩
    · obtain ⟨x, hx, h⟩ := ih ha
      exact ⟨x, List.mem_cons_of_mem _ hx, h⟩

theorem exists_left_of_forall₂ (h : List.Forall₂ R l xs) {x : β} (hx : x ∈ xs) :
    ∃ a ∈ l, R a x := exists_right_of_forall₂ h.flip hx

/-- Related to each of a list is some object if a list of objects is related to the list. -/
theorem exists_forall₂_iff : (∃ xs, List.Forall₂ R l xs) ↔ ∀ a ∈ l, ∃ x, R a x := by
  induction l with
  | nil => exact iff_of_true ⟨[], .nil⟩ (List.forall_mem_nil _)
  | cons a l ih =>
    rw [List.forall_mem_cons, ← ih]
    constructor
    · rintro ⟨xs, h⟩
      obtain ⟨x, xs', hx, hxs, rfl⟩ := List.forall₂_cons_left_iff.mp h
      exact ⟨⟨x, hx⟩, xs', hxs⟩
    · rintro ⟨⟨x, hx⟩, xs, hxs⟩
      exact ⟨x :: xs, .cons hx hxs⟩

end Related

/-- An array is converted to its tree if each of its elements is. -/
theorem converts_array_iff {R : Value → PyObject → Prop} {items : List Value} :
    Converts R (.array items) ↔ ∀ v ∈ items, ∃ x, made ofItem v = some x ∧ Image R v x := by
  rw [← exists_forall₂_iff]
  constructor
  · rintro ⟨x, hx, himage⟩
    rw [JSONtoPython] at hx
    obtain ⟨xs, hxs, rfl⟩ := Option.map_eq_some_iff.mp hx
    obtain ⟨xs', heq, hall⟩ := image_array_iff.mp himage
    cases heq
    exact ⟨xs, (listItems_eq_some_iff.mp hxs).mp (fun v x => And.intro) hall⟩
  · rintro ⟨xs, hall⟩
    refine ⟨.list xs, ?_, image_array_iff.mpr ⟨xs, rfl, hall.imp fun v x h => h.2⟩⟩
    rw [JSONtoPython, listItems_eq_some_iff.mpr (hall.imp fun v x h => h.1), Option.map_some]

theorem setItem_of_new {key : PyStr} {x : PyObject} {entries : PyDict}
    (h : ∀ e ∈ entries, e.1 ≠ key) : setItem key x entries = entries ++ [(key, x)] := by
  induction entries with
  | nil => rfl
  | cons e entries ih =>
    obtain ⟨hne, hentries⟩ := List.forall_mem_cons.mp h
    rw [setItem, if_neg hne, ih hentries, List.cons_append]

theorem key_of_mem_setItem {key : PyStr} {x : PyObject} {entries : PyDict} {e : PyStr × PyObject}
    (he : e ∈ setItem key x entries) : e.1 = key ∨ e.1 ∈ entries.map Prod.fst := by
  induction entries with
  | nil => exact .inl (congrArg Prod.fst (List.mem_singleton.mp he))
  | cons e' entries ih =>
    rw [setItem] at he
    split at he
    · next heq =>
      rcases List.mem_cons.mp he with rfl | he
      · exact .inl heq
      · exact .inr (List.mem_cons_of_mem _ (List.mem_map_of_mem he))
    · rcases List.mem_cons.mp he with rfl | he
      · exact .inr List.mem_cons_self
      · exact (ih he).imp_right (List.mem_cons_of_mem _)

/-- Every key is one that was there or that of a member. -/
theorem key_of_mem_dictEntries {members : List (Bytes × Value)} {entries out : PyDict}
    (h : dictEntries entries members = some out) {e : PyStr × PyObject} (he : e ∈ out) :
    e.1 ∈ entries.map Prod.fst ∨ ∃ m ∈ members, asUTF8 e.1 = some (cstr m.1) := by
  induction members generalizing entries with
  | nil =>
    cases h
    exact .inl (List.mem_map_of_mem he)
  | cons m members ih =>
    rw [dictEntries_cons] at h
    obtain ⟨key, hkey, h⟩ := Option.bind_eq_some_iff.mp h
    obtain ⟨x, -, h⟩ := Option.bind_eq_some_iff.mp h
    rcases ih h with hold | ⟨m', hm', hname⟩
    · obtain ⟨e', he', heq⟩ := List.mem_map.mp hold
      rw [← heq]
      refine (key_of_mem_setItem he').symm.imp_right fun heq' => ?_
      rw [heq']
      exact ⟨m, List.mem_cons_self, decodeUTF8_eq_some_iff.mp hkey⟩
    · exact .inr ⟨m', List.mem_cons_of_mem _ hm', hname⟩

/-- Members of different names without NULs are added in their order. -/
theorem dictEntries_eq_some_iff {members : List (Bytes × Value)} {entries out : PyDict}
    (hnodup : (members.map Prod.fst).Nodup) (hnul : ∀ m ∈ members, 0 ∉ m.1)
    (hnew : ∀ m ∈ members, ∀ e ∈ entries, asUTF8 e.1 ≠ some m.1) :
    dictEntries entries members = some out ↔ ∃ added, out = entries ++ added ∧
      List.Forall₂ (fun m e => asUTF8 e.1 = some m.1 ∧ made ofMember m.2 = some e.2)
        members added := by
  induction members generalizing entries with
  | nil =>
    constructor
    · intro h
      cases h
      exact ⟨[], (List.append_nil _).symm, .nil⟩
    · rintro ⟨added, rfl, hadded⟩
      cases hadded
      rw [List.append_nil]
      rfl
  | cons m members ih =>
    obtain ⟨hname, hnodup⟩ := List.nodup_cons.mp hnodup
    obtain ⟨hm, hmembers⟩ := List.forall_mem_cons.mp hnul
    obtain ⟨hnewm, hnews⟩ := List.forall_mem_cons.mp hnew
    have hcstr : cstr m.1 = m.1 := (cstr_eq_self_iff m.1).mpr hm
    -- with the key of `m` behind them, the entries still have none of the other names
    have hset {key : PyStr} {x : PyObject} (hkey : asUTF8 key = some m.1) :
        setItem key x entries = entries ++ [(key, x)] ∧
          ∀ m' ∈ members, ∀ e ∈ entries ++ [(key, x)], asUTF8 e.1 ≠ some m'.1 := by
      refine ⟨setItem_of_new fun e he heq => hnewm e he (heq ▸ hkey), fun m' hm' e he heq => ?_⟩
      rcases List.mem_append.mp he with he | he
      · exact hnews m' hm' e he heq
      · rw [List.mem_singleton.mp he, hkey] at heq
        exact hname (Option.some.inj heq ▸ List.mem_map_of_mem hm')
    rw [dictEntries_cons, hcstr]
    constructor
    · intro h
      obtain ⟨key, hkey, h⟩ := Option.bind_eq_some_iff.mp h
      obtain ⟨x, hx, h⟩ := Option.bind_eq_some_iff.mp h
      have hutf8 := decodeUTF8_eq_some_iff.mp hkey
      obtain ⟨heq, hnew'⟩ := hset (x := x) hutf8
      rw [heq] at h
      obtain ⟨added, rfl, hadded⟩ := (ih hnodup hmembers hnew').mp h
      refine ⟨(key, x) :: added, ?_, .cons ⟨hutf8, hx⟩ hadded⟩
      rw [List.append_assoc, List.singleton_append]
    · rintro ⟨added, rfl, hadded⟩
      obtain ⟨e, added', ⟨hutf8, hx⟩, hadded', rfl⟩ := List.forall₂_cons_left_iff.mp hadded
      obtain ⟨heq, hnew'⟩ := hset (x := e.2) hutf8
      rw [decodeUTF8_eq_some_iff.mpr hutf8, Option.bind_some, hx, Option.bind_some, heq]
      refine (ih hnodup hmembers hnew').mpr ⟨added', ?_, hadded'⟩
      rw [List.append_assoc, List.singleton_append]

/-- An object is converted to its tree if its names are read in full and each of its members
is converted. -/
theorem converts_object_iff {R : Value → PyObject → Prop} {members : List (Bytes × Value)}
    (hnodup : (members.map Prod.fst).Nodup) : Converts R (.object members) ↔
      ∀ m ∈ members, (IsUTF8 m.1 ∧ 0 ∉ m.1) ∧
        ∃ x, made ofMember m.2 = some x ∧ Image R m.2 x := by
  have hnone : ∀ m ∈ members, ∀ e ∈ ([] : PyDict), asUTF8 e.1 ≠ some m.1 :=
    fun m hm e he => absurd he List.not_mem_nil
  constructor
  · rintro ⟨x, hx, himage⟩
    rw [JSONtoPython] at hx
    obtain ⟨entries, hentries, rfl⟩ := Option.map_eq_some_iff.mp hx
    obtain ⟨hkeys, hall⟩ := image_object_iff.mp himage
    -- a key has no NUL, and every name is a key
    have hname : ∀ m ∈ members, IsUTF8 m.1 ∧ 0 ∉ m.1 := by
      intro m hm
      obtain ⟨e, he, hutf8⟩ := (hkeys m.1).mp (List.mem_map_of_mem hm)
      refine ⟨⟨e.1, hutf8⟩, ?_⟩
      rcases key_of_mem_dictEntries hentries he with hold | ⟨m', -, hm'⟩
      · exact absurd hold List.not_mem_nil
      · rw [Option.some.inj (hutf8.symm.trans hm')]
        exact zero_notMem_cstr _
    obtain ⟨added, heq, hadded⟩ :=
      (dictEntries_eq_some_iff hnodup (fun m hm => (hname m hm).2) hnone).mp hentries
    obtain rfl : entries = added := heq
    intro m hm
    obtain ⟨e, he, hutf8, hmade⟩ := exists_right_of_forall₂ hadded hm
    exact ⟨hname m hm, e.2, hmade, hall m hm e he hutf8⟩
  · intro h
    have hall : ∀ m ∈ members, ∃ e : PyStr × PyObject,
        (asUTF8 e.1 = some m.1 ∧ made ofMember m.2 = some e.2) ∧ Image R m.2 e.2 := by
      intro m hm
      obtain ⟨⟨⟨key, hkey⟩, -⟩, x, hx, himage⟩ := h m hm
      exact ⟨(key, x), ⟨hkey, hx⟩, himage⟩
    obtain ⟨entries, hentries⟩ := exists_forall₂_iff.mpr hall
    have hdict : dictEntries [] members = some entries :=
      (dictEntries_eq_some_iff hnodup (fun m hm => (h m hm).1.2) hnone).mpr
        ⟨entries, rfl, hentries.imp fun m e he => he.1⟩
    refine ⟨.dict entries, ?_, image_object_iff.mpr ⟨fun name => ⟨fun hmem => ?_, ?_⟩, ?_⟩⟩
    · rw [JSONtoPython, hdict, Option.map_some]
    · obtain ⟨m, hm, rfl⟩ := List.mem_map.mp hmem
      obtain ⟨e, he, ⟨hutf8, -⟩, -⟩ := exists_right_of_forall₂ hentries hm
      exact ⟨e, he, hutf8⟩
    · rintro ⟨e, he, hutf8⟩
      obtain ⟨m, hm, ⟨hutf8', -⟩, -⟩ := exists_left_of_forall₂ hentries he
      rw [hutf8] at hutf8'
      rw [Option.some.inj hutf8']
      exact List.mem_map_of_mem hm
    · intro m hm e he hutf8
      obtain ⟨m', hm', ⟨hutf8', -⟩, himage⟩ := exists_left_of_forall₂ hentries he
      have hname : m'.1 = m.1 := Option.some.inj (hutf8'.symm.trans hutf8)
      rwa [List.inj_on_of_nodup_map hnodup hm' hm hname] at himage

/-! ### Where the scalars stand -/

/-- What `JSONtoPython` relies on, by the places in a tree. -/
structure Placed (R : Value → PyObject → Prop) (tree : Value) : Prop where
  names : ∀ members, Inside (.object members) tree → ∀ m ∈ members, IsUTF8 m.1 ∧ 0 ∉ m.1
  elements : ∀ v, IsElement v tree → isContainer v = false → ∃ x, ofItem v = some x ∧ R v x
  members : ∀ v, IsMember v tree → isContainer v = false → ∃ x, ofMember v = some x ∧ R v x

theorem placed_scalar {R : Value → PyObject → Prop} {v : Value} (hv : isContainer v = false) :
    Placed R v := by
  have hinside {w : Value} (hw : isContainer w = true) : ¬ Inside w v := by
    intro h
    rw [inside_scalar hv h, hv] at hw
    cases hw
  constructor
  · exact fun members h => absurd h (hinside rfl)
  · rintro w ⟨items, h, -⟩
    exact absurd h (hinside rfl)
  · rintro w ⟨members, h, -⟩
    exact absurd h (hinside rfl)

theorem placed_array_iff {R : Value → PyObject → Prop} {items : List Value} :
    Placed R (.array items) ↔ ∀ v ∈ items,
      Placed R v ∧ (isContainer v = false → ∃ x, ofItem v = some x ∧ R v x) := by
  constructor
  · intro h v hv
    refine ⟨⟨fun members hm => h.names members (.item hv hm), fun w hw => ?_, fun w hw => ?_⟩, ?_⟩
    · exact h.elements w (isElement_array_iff.mpr (.inr ⟨v, hv, hw⟩))
    · exact h.members w (isMember_array_iff.mpr ⟨v, hv, hw⟩)
    · exact h.elements v (isElement_array_iff.mpr (.inl hv))
  · intro h
    constructor
    · intro members hinside
      rcases inside_array_iff.mp hinside with heq | ⟨v, hv, hinside⟩
      · cases heq
      · exact (h v hv).1.names members hinside
    · intro w hw
      rcases isElement_array_iff.mp hw with hw | ⟨v, hv, hw⟩
      · exact (h w hw).2
      · exact (h v hv).1.elements w hw
    · intro w hw
      obtain ⟨v, hv, hw⟩ := isMember_array_iff.mp hw
      exact (h v hv).1.members w hw

theorem placed_object_iff {R : Value → PyObject → Prop} {members : List (Bytes × Value)} :
    Placed R (.object members) ↔ ∀ m ∈ members, (IsUTF8 m.1 ∧ 0 ∉ m.1) ∧
      Placed R m.2 ∧ (isContainer m.2 = false → ∃ x, ofMember m.2 = some x ∧ R m.2 x) := by
  constructor
  · intro h m hm
    refine ⟨h.names members (.self _) m hm, ⟨?_, fun w hw => ?_, fun w hw => ?_⟩, ?_⟩
    · exact fun members' hm' => h.names members' (.member hm hm')
    · exact h.elements w (isElement_object_iff.mpr ⟨m, hm, hw⟩)
    · exact h.members w (isMember_object_iff.mpr (.inr ⟨m, hm, hw⟩))
    · exact h.members m.2 (isMember_object_iff.mpr (.inl ⟨m, hm, rfl⟩))
  · intro h
    constructor
    · intro members' hinside
      rcases inside_object_iff.mp hinside with heq | ⟨m, hm, hinside⟩
      · cases heq
        exact fun m hm => (h m hm).1
      · exact (h m hm).2.1.names members' hinside
    · intro w hw
      obtain ⟨m, hm, hw⟩ := isElement_object_iff.mp hw
      exact (h m hm).2.1.elements w hw
    · intro w hw
      rcases isMember_object_iff.mp hw with ⟨m, hm, rfl⟩ | ⟨m, hm, hw⟩
      · exact (h m hm).2.2
      · exact (h m hm).2.1.members w hw

/-- The induction is on the tree, with one lemma for each of the two loops. -/
theorem converts_iff_placed {R : Value → PyObject → Prop} (tree : Value)
    (hdistinct : ∀ members, Inside (.object members) tree → (members.map Prod.fst).Nodup)
    (htree : isContainer tree = true) : Converts R tree ↔ Placed R tree := by
  have hpart {v : Value} (hv : isContainer v = true → (Converts R v ↔ Placed R v)) :
      (isContainer v = true → Converts R v) ↔ Placed R v := by
    cases hcontainer : isContainer v with
    | true => exact ⟨fun h => (hv hcontainer).mp (h rfl), fun h _ => (hv hcontainer).mpr h⟩
    | false => exact iff_of_true (fun h => by cases h) (placed_scalar hcontainer)
  induction tree using tree_induction with
  | scalar v hv =>
    rw [htree] at hv
    cases hv
  | array items ih =>
    rw [converts_array_iff, placed_array_iff]
    refine forall₂_congr fun v hv => ?_
    rw [exists_made_iff, hpart (ih v hv fun members h => hdistinct members (.item hv h))]
  | object members ih =>
    rw [converts_object_iff (hdistinct members (.self _)), placed_object_iff]
    refine forall₂_congr fun m hm => ?_
    rw [exists_made_iff, hpart (ih m hm fun members h => hdistinct members (.member hm h))]

/-! ### The scalars -/

theorem ofMember_eq_ofItem {v : Value} (hv : ∀ b, v ≠ .bool b) : ofMember v = ofItem v := by
  unfold ofMember
  split
  · next b => exact absurd rfl (hv b)
  · rfl

/-- Something is made of a scalar, unless it is a text that is not UTF-8. -/
theorem ofItem_ne_none_iff {v : Value} (hv : isContainer v = false) :
    ofItem v ≠ none ↔ ∀ s, v = .string s → IsUTF8 s := by
  have hnumber {d : UInt64} (hd : Json.asDouble? doubles v = some d) : ofItem v ≠ none := by
    obtain ⟨x, hx⟩ := Option.ne_none_iff_exists'.mp (ofNumber_ne_none hd)
    rw [ofItem, hx]
    exact Option.some_ne_none x
  cases v with
  | null => exact iff_of_true (by decide) (fun s h => by cases h)
  | int i => exact iff_of_true (hnumber rfl) (fun s h => by cases h)
  | uint n => exact iff_of_true (hnumber rfl) (fun s h => by cases h)
  | real d => exact iff_of_true (hnumber rfl) (fun s h => by cases h)
  | bool b => exact iff_of_true (by cases b <;> decide) (fun s h => by cases h)
  | string s =>
    have hitem : ofItem (.string s) = (decodeUTF8 s).map .str := rfl
    rw [hitem, Ne, Option.map_eq_none_iff, ← Ne, ← isUTF8_iff]
    exact ⟨fun h s' heq => by cases heq; exact h, fun h => h s rfl⟩
  | array items => cases hv
  | object members => cases hv

theorem ofMember_ne_none_iff {v : Value} (hv : isContainer v = false) :
    ofMember v ≠ none ↔ ∀ s, v = .string s → IsUTF8 s := by
  cases v with
  | bool b => exact iff_of_true (Option.some_ne_none _) (fun s h => by cases h)
  | _ => exact ofItem_ne_none_iff hv

theorem ofItem_bool (b : Bool) : ofItem (.bool b) ≠ some (.bool b) := by
  intro h
  obtain ⟨s, -, heq⟩ := Option.map_eq_some_iff.mp h
  cases heq

/-- The scalars have one value each, wherever they stand in the trees, if and only if the texts
and names can be read and no `bool` stands in an array and in an object as well. -/
theorem homomorphism_iff (trees : Set Tree) :
    (∃ scalar : Value → PyObject, ∀ t ∈ trees, Homomorphic scalar t.value) ↔
      (∀ t ∈ trees, Readable t.value) ∧
        ∀ b : Bool, ¬ ((∃ t ∈ trees, IsElement (.bool b) t.value) ∧
          ∃ t ∈ trees, IsMember (.bool b) t.value) := by
  have hplaced {scalar : Value → PyObject} : (∀ t ∈ trees, Homomorphic scalar t.value) ↔
      ∀ t ∈ trees, Placed (fun v x => x = scalar v) t.value :=
    forall₂_congr fun t _ => converts_iff_placed t.value t.distinct t.container
  simp only [hplaced]
  constructor
  · rintro ⟨scalar, h⟩
    refine ⟨fun t ht => ⟨fun s hs => ?_, (h t ht).names⟩, ?_⟩
    · rcases isElement_or_isMember t.container rfl hs with helement | hmember
      · obtain ⟨x, hvalue, -⟩ := (h t ht).elements _ helement rfl
        exact (ofItem_ne_none_iff rfl).mp (by rw [hvalue]; exact Option.some_ne_none _) s rfl
      · obtain ⟨x, hvalue, -⟩ := (h t ht).members _ hmember rfl
        exact (ofMember_ne_none_iff rfl).mp (by rw [hvalue]; exact Option.some_ne_none _) s rfl
    · rintro b ⟨⟨t, ht, helement⟩, t', ht', hmember⟩
      obtain ⟨x, hitem, rfl⟩ := (h t ht).elements _ helement rfl
      obtain ⟨x, hvalue, rfl⟩ := (h t' ht').members _ hmember rfl
      have hbool : some _ = some (scalar (.bool b)) := hvalue
      exact ofItem_bool b (hitem.trans hbool.symm)
  · rintro ⟨hreadable, hbool⟩
    classical
    -- a `bool` in some array has the value it has there, every other scalar that of a member
    let scalar : Value → PyObject := fun v =>
      if ∃ b, v = .bool b ∧ ∃ t ∈ trees, IsElement (.bool b) t.value then (ofItem v).getD .none
      else (ofMember v).getD .none
    have hsome {o : Option PyObject} (ho : o ≠ none) : o = some (o.getD .none) := by
      obtain ⟨x, rfl⟩ := Option.ne_none_iff_exists'.mp ho
      rfl
    refine ⟨scalar, fun t ht => ⟨(hreadable t ht).names, fun v hv hscalar => ?_,
      fun v hv hscalar => ?_⟩⟩
    · have hne := (ofItem_ne_none_iff hscalar).mpr fun s heq =>
        (hreadable t ht).texts s (heq ▸ hv.inside)
      refine ⟨_, ?_, rfl⟩
      show _ = some (ite _ _ _)
      split
      · exact hsome hne
      · next hnot =>
        rw [ofMember_eq_ofItem fun b heq => hnot ⟨b, heq, t, ht, heq ▸ hv⟩]
        exact hsome hne
    · have hne := (ofMember_ne_none_iff hscalar).mpr fun s heq =>
        (hreadable t ht).texts s (heq ▸ hv.inside)
      refine ⟨_, ?_, rfl⟩
      show _ = some (ite _ _ _)
      rw [if_neg]
      · exact hsome hne
      · rintro ⟨b, rfl, helement⟩
        exact hbool b ⟨helement, t, ht, hv⟩

/-- The tree `{"a": true, "b": [true]}`. -/
def trueTwice : Value :=
  .object [(str "a", .bool true), (str "b", .array [.bool true])]

/-- In the object it is `True`, in the array `"true"`. -/
theorem true_differs : ¬ ∀ trees : Set Tree,
    ∃ scalar : Value → PyObject, ∀ t ∈ trees, Homomorphic scalar t.value := by
  intro h
  have hdistinct : ∀ members, Inside (.object members) trueTwice →
      (members.map Prod.fst).Nodup := by
    intro members hinside
    rcases inside_object_iff.mp hinside with heq | ⟨m, hm, hinside⟩
    · cases heq
      decide
    · rcases List.mem_cons.mp hm with rfl | hm
      · cases inside_scalar rfl hinside
      · rw [List.mem_singleton.mp hm] at hinside
        rcases inside_array_iff.mp hinside with heq | ⟨v, hv, hinside⟩
        · cases heq
        · rw [List.mem_singleton.mp hv] at hinside
          cases inside_scalar rfl hinside
  obtain ⟨scalar, hall⟩ := h {⟨trueTwice, rfl, hdistinct⟩}
  have hplaced := (converts_iff_placed trueTwice hdistinct rfl).mp (hall _ rfl)
  have helement : IsElement (.bool true) trueTwice :=
    ⟨_, .member (List.mem_cons_of_mem _ List.mem_cons_self) (.self _), List.mem_cons_self⟩
  have hmember : IsMember (.bool true) trueTwice := ⟨_, .self _, _, List.mem_cons_self, rfl⟩
  obtain ⟨x, hitem, rfl⟩ := hplaced.elements _ helement rfl
  obtain ⟨x, hvalue, rfl⟩ := hplaced.members _ hmember rfl
  have hbool : some _ = some (scalar (.bool true)) := hvalue
  exact ofItem_bool true (hitem.trans hbool.symm)

end Domoticz.PythonJson
