import Domoticz.Plugin.PythonJson
import Domoticz.Web.Subscriptions

/-!
# Packets of any form

`Handle` is given what arrives as a text or as binary data.  It asks the JSON value for two of its
members and makes texts of them, without a look at its form: a value that is no object, and a member
that is an array or an object, raise an exception; and so does a document that is nested too deep.
A number or a truth value is made a text, too.

## Main definitions

* `onReceiveText` — `CWebsocket::OnReceiveText` and `OnReceiveBinary`.
* `StringValued` — an object whose members are texts.
* `Unbroken` — what is asked of a packet.
* `Meets` — when that is so.

## Main results

* `eraseP_append_eq_self_iff` — a list that loses an entry and is given one at its end.
* `unbroken_iff` — **a packet is handled right exactly under `Meets`.**
* `array_throws` — a packet that is an array.
-/

namespace Domoticz.Packets

open CLib

/-! ### Handling a packet -/

/-- What comes of a packet: whether `Handle` returns, and what has become of the subscriptions.  It
writes nothing. -/
structure Handled where
  returns : Bool
  vSubscriptions : List Subscription
  sent : List Bytes := []

variable (dbl : Doubles UInt64) (cfg : AccessConfig)

/-- `CWebsocket::OnReceiveText`, and `OnReceiveBinary`, which unpacks nothing. -/
def onReceiveText (vSubscriptions : List Subscription) (packet_data : Bytes) : Handled :=
  match JsonReader.parse packet_data with
  | .error .stackLimit => { returns := false, vSubscriptions }
  | .error .syntaxError =>
      let r := handle dbl cfg vSubscriptions (none : Option (Json UInt64))
      { returns := r.1, vSubscriptions := r.2 }
  | .ok value =>
      let r := handle dbl cfg vSubscriptions (some value)
      { returns := r.1, vSubscriptions := r.2 }

/-- The members that are asked for. -/
def memberNames : List Bytes := [str "unsubscribe", str "subscribe"]

/-- A JSON object whose two members are texts, as far as it has them. -/
def StringValued (packet_data : Bytes) : Prop :=
  ∃ members, JsonReader.parse packet_data = .ok (.object members) ∧
    ∀ name ∈ memberNames, ∀ v, members.lookup name = some v → ∃ s, v = .string s

/-- What is asked of a packet. -/
structure Unbroken (vSubscriptions : List Subscription) (packet_data : Bytes) : Prop where
  returns : (onReceiveText dbl cfg vSubscriptions packet_data).returns = true
  unchanged : ¬ StringValued packet_data →
    (onReceiveText dbl cfg vSubscriptions packet_data).vSubscriptions = vSubscriptions ∧
      (onReceiveText dbl cfg vSubscriptions packet_data).sent = []

/-- The text that is made of a member. -/
def memberText (members : List (Bytes × JsonReader.Value)) (name : Bytes) : Option Bytes :=
  ((members.lookup name).getD .null).asString? dbl

/-- Some texts leave the subscriptions alone: there is none of that name, and none can be made; or
the one that is taken away is put back, as those behind it are the same. -/
def LeavesAlone (vSubscriptions : List Subscription) (sUnsubscribe sSubscribe : Bytes) : Prop :=
  (sUnsubscribe = [] ∨ ∀ s ∈ vSubscriptions, s.sTable ≠ sUnsubscribe) ∧
      (sSubscribe = [] ∨ capturedFields cfg sSubscribe.dropLast = none) ∨
    sUnsubscribe ≠ [] ∧ sSubscribe = sUnsubscribe ∧
      ∃ vFields, capturedFields cfg sSubscribe.dropLast = some vFields ∧
        ∃ front back, vSubscriptions = front ++ back ∧ back ≠ [] ∧
          (∀ s ∈ front, s.sTable ≠ sUnsubscribe) ∧ ∀ s ∈ back, s = ⟨sSubscribe, vFields⟩

/-- When a packet is handled right: it is not nested too deep, a null or an object, with members
that are neither arrays nor objects; and if these are no texts, what is made of them leaves the
subscriptions alone. -/
structure Meets (vSubscriptions : List Subscription) (packet_data : Bytes) : Prop where
  depth : JsonReader.parse packet_data ≠ .error .stackLimit
  object : ∀ value, JsonReader.parse packet_data = .ok value →
    value = .null ∨ ∃ members, value = .object members
  scalar : ∀ members, JsonReader.parse packet_data = .ok (.object members) →
    ∀ name ∈ memberNames, ∀ v, members.lookup name = some v →
      (∀ items, v ≠ .array items) ∧ ∀ ms, v ≠ .object ms
  idle : ∀ members, JsonReader.parse packet_data = .ok (.object members) →
    ¬ StringValued packet_data →
      ∀ sUnsubscribe, memberText dbl members (str "unsubscribe") = some sUnsubscribe →
        ∀ sSubscribe, memberText dbl members (str "subscribe") = some sSubscribe →
          LeavesAlone cfg vSubscriptions sUnsubscribe sSubscribe

/-! ### Taking away and putting back -/

/-- A list that moves up, and is given an entry at its end. -/
theorem forall_eq_of_concat {α : Type*} {a y : α} {l : List α} (h : l ++ [y] = a :: l) :
    ∀ x ∈ a :: l, x = y := by
  induction l generalizing a with
  | nil =>
    rw [← h]
    exact List.forall_mem_singleton.mpr rfl
  | cons b l ih =>
    obtain ⟨rfl, htail⟩ := List.cons.inj h
    have hall := ih htail
    exact List.forall_mem_cons.mpr ⟨hall b List.mem_cons_self, hall⟩

theorem concat_eq_cons {α : Type*} {a y : α} {l : List α} (h : ∀ x ∈ a :: l, x = y) :
    l ++ [y] = a :: l := by
  induction l generalizing a with
  | nil => rw [h a List.mem_cons_self, List.nil_append]
  | cons b l ih =>
    obtain ⟨ha, hl⟩ := List.forall_mem_cons.mp h
    have hb := hl b List.mem_cons_self
    rw [List.cons_append, ih hl, ha, hb]

/-- A list loses an entry and is given one at its end, and is the same: all from the first one that
could be lost are the one that is given. -/
theorem eraseP_append_eq_self_iff {α : Type*} {p : α → Bool} {l : List α} {y : α} :
    l.eraseP p ++ [y] = l ↔ ∃ front back, l = front ++ back ∧ back ≠ [] ∧
      (∀ x ∈ front, p x = false) ∧ (∀ x ∈ back, x = y) ∧ p y = true := by
  induction l with
  | nil =>
    refine iff_of_false (fun h => List.cons_ne_nil _ _ h) ?_
    rintro ⟨front, back, h, hne, -⟩
    exact hne (List.append_eq_nil_iff.mp h.symm).2
  | cons a l ih =>
    cases ha : p a with
    | true =>
      rw [List.eraseP_cons_of_pos ha]
      constructor
      · intro h
        have hall := forall_eq_of_concat h
        refine ⟨[], a :: l, rfl, List.cons_ne_nil _ _, List.forall_mem_nil _, hall, ?_⟩
        rwa [← hall a List.mem_cons_self]
      · rintro ⟨front, back, h, -, hfront, hback, -⟩
        cases front with
        | nil =>
          rw [List.nil_append] at h
          rw [← h] at hback
          exact concat_eq_cons hback
        | cons b front =>
          -- the first entry would be one that could not be lost
          have hb := hfront b List.mem_cons_self
          rw [← (List.cons.inj h).1, ha] at hb
          cases hb
    | false =>
      rw [List.eraseP_cons_of_neg (ne_true_of_eq_false ha), List.cons_append, List.cons_inj_right, ih]
      constructor
      · rintro ⟨front, back, rfl, hne, hfront, hback⟩
        exact ⟨a :: front, back, rfl, hne, List.forall_mem_cons.mpr ⟨ha, hfront⟩, hback⟩
      · rintro ⟨front, back, h, hne, hfront, hback, hy⟩
        cases front with
        | nil =>
          rw [List.nil_append] at h
          rw [← h] at hback
          rw [hback a List.mem_cons_self, hy] at ha
          cases ha
        | cons b front =>
          obtain ⟨-, rfl⟩ := List.cons.inj h
          exact ⟨front, back, rfl, hne, (List.forall_mem_cons.mp hfront).2, hback, hy⟩

/-! ### What is left of the subscriptions -/

variable {dbl cfg} {subs : List Subscription} {u t : Bytes}

theorem unsubscribe_eq_self_iff :
    unsubscribe u subs = subs ↔ u = [] ∨ ∀ s ∈ subs, s.sTable ≠ u := by
  unfold unsubscribe
  split
  · rename_i hu
    exact iff_of_true rfl (Or.inl hu)
  · rename_i hu
    rw [List.eraseP_eq_self_iff, or_iff_right hu]
    simp only [beq_iff_eq]

/-- A subscription that is not made. -/
theorem subscribe_eq_self (h : t = [] ∨ capturedFields cfg t.dropLast = none) :
    subscribe cfg t subs = subs := by
  unfold subscribe
  split
  · rfl
  · rename_i ht
    rw [or_iff_right ht] at h
    rw [h]

/-- A subscription that is made. -/
theorem subscribe_eq_append {vFields : List Bytes} (ht : t ≠ [])
    (h : capturedFields cfg t.dropLast = some vFields) :
    subscribe cfg t subs = subs ++ [⟨t, vFields⟩] := by
  unfold subscribe
  rw [if_neg ht, h]

/-- The subscriptions are as before exactly if the texts leave them alone. -/
theorem subscribe_unsubscribe_eq_self_iff :
    subscribe cfg t (unsubscribe u subs) = subs ↔ LeavesAlone cfg subs u t := by
  by_cases hnone : t = [] ∨ capturedFields cfg t.dropLast = none
  · rw [subscribe_eq_self hnone, unsubscribe_eq_self_iff, LeavesAlone, and_iff_left hnone]
    refine (or_iff_left ?_).symm
    rintro ⟨hu, rfl, vFields, hsome, -⟩
    rcases hnone with hnil | hnone
    · exact hu hnil
    · rw [hnone] at hsome
      cases hsome
  · obtain ⟨ht, hcaptured⟩ := not_or.mp hnone
    obtain ⟨vFields, hsome⟩ := Option.ne_none_iff_exists'.mp hcaptured
    rw [subscribe_eq_append ht hsome, LeavesAlone, or_iff_right fun h => hnone h.2]
    by_cases hu : u = []
    · refine iff_of_false (fun h => ?_) fun h => h.1 hu
      have hlength := congrArg List.length h
      rw [unsubscribe, if_pos hu, List.length_append, List.length_singleton] at hlength
      omega
    · rw [unsubscribe, if_neg hu, eraseP_append_eq_self_iff]
      simp only [beq_eq_false_iff_ne, beq_iff_eq]
      constructor
      · rintro ⟨front, back, h, hne, hfront, hback, rfl⟩
        exact ⟨hu, rfl, vFields, hsome, front, back, h, hne, hfront, hback⟩
      · rintro ⟨-, rfl, vFields', hsome', front, back, h, hne, hfront, hback⟩
        cases hsome.symm.trans hsome'
        exact ⟨front, back, h, hne, hfront, hback, rfl⟩

/-! ### The texts of a packet -/

/-- A value is made a text unless it is an array or an object. -/
theorem asString?_isSome_iff {v : Json UInt64} :
    (∃ s, v.asString? dbl = some s) ↔ (∀ items, v ≠ .array items) ∧ ∀ ms, v ≠ .object ms := by
  cases v with
  | array items =>
    refine iff_of_false ?_ fun h => h.1 items rfl
    rintro ⟨_, h⟩
    cases h
  | object ms =>
    refine iff_of_false ?_ fun h => h.2 ms rfl
    rintro ⟨_, h⟩
    cases h
  | _ => exact iff_of_true ⟨_, rfl⟩ ⟨fun _ h => (by cases h), fun _ h => (by cases h)⟩

/-- A member is made a text unless it is there and an array or an object. -/
theorem memberText_isSome_iff {members : List (Bytes × JsonReader.Value)} {name : Bytes} :
    (∃ s, memberText dbl members name = some s) ↔ ∀ v, members.lookup name = some v →
      (∀ items, v ≠ .array items) ∧ ∀ ms, v ≠ .object ms := by
  unfold memberText
  cases h : members.lookup name with
  | none => exact iff_of_true ⟨[], rfl⟩ fun v hv => by cases hv
  | some v =>
    rw [Option.getD_some, asString?_isSome_iff]
    constructor
    · rintro hv w hw
      cases hw
      exact hv
    · exact fun hv => hv v rfl

/-- A packet that is an object. -/
theorem handle_object (members : List (Bytes × JsonReader.Value)) :
    handle dbl cfg subs (some (.object members)) =
      match memberText dbl members (str "unsubscribe") with
      | none => (false, subs)
      | some sUnsubscribe =>
          match memberText dbl members (str "subscribe") with
          | none => (false, unsubscribe sUnsubscribe subs)
          | some sSubscribe => (true, subscribe cfg sSubscribe (unsubscribe sUnsubscribe subs)) :=
  rfl

/-! ### Packets -/

section Object

variable {packet_data : Bytes} {members : List (Bytes × JsonReader.Value)}
  (hparse : JsonReader.parse packet_data = .ok (.object members))

include hparse

theorem onReceiveText_object : onReceiveText dbl cfg subs packet_data =
    { returns := (handle dbl cfg subs (some (.object members))).1
      vSubscriptions := (handle dbl cfg subs (some (.object members))).2 } := by
  rw [onReceiveText, hparse]

/-- A packet that is an object is handled to the end exactly if its members are made texts. -/
theorem returns_object_iff : (onReceiveText dbl cfg subs packet_data).returns = true ↔
    ∃ u t, memberText dbl members (str "unsubscribe") = some u ∧
      memberText dbl members (str "subscribe") = some t := by
  rw [onReceiveText_object hparse, handle_object]
  cases hu : memberText dbl members (str "unsubscribe") with
  | none =>
    refine iff_of_false Bool.false_ne_true ?_
    rintro ⟨u, t, h, -⟩
    cases h
  | some u =>
    cases ht : memberText dbl members (str "subscribe") with
    | none =>
      refine iff_of_false Bool.false_ne_true ?_
      rintro ⟨u, t, -, h⟩
      cases h
    | some t => exact iff_of_true rfl ⟨u, t, rfl, rfl⟩

/-- What is left of the subscriptions then. -/
theorem vSubscriptions_object (hu : memberText dbl members (str "unsubscribe") = some u)
    (ht : memberText dbl members (str "subscribe") = some t) :
    (onReceiveText dbl cfg subs packet_data).vSubscriptions =
      subscribe cfg t (unsubscribe u subs) := by
  rw [onReceiveText_object hparse, handle_object, hu, ht]

/-- The condition on an object. -/
theorem meets_object_iff : Meets dbl cfg subs packet_data ↔
    ∃ u t, memberText dbl members (str "unsubscribe") = some u ∧
      memberText dbl members (str "subscribe") = some t ∧
        (¬ StringValued packet_data → LeavesAlone cfg subs u t) := by
  constructor
  · intro h
    obtain ⟨u, hu⟩ := memberText_isSome_iff.mpr
      (h.scalar members hparse _ (List.mem_cons_self ..))
    obtain ⟨t, ht⟩ := memberText_isSome_iff.mpr
      (h.scalar members hparse _ (List.mem_cons_of_mem _ (List.mem_cons_self ..)))
    exact ⟨u, t, hu, ht, fun hs => h.idle members hparse hs u hu t ht⟩
  · rintro ⟨u, t, hu, ht, hidle⟩
    have hsame (ms : List (Bytes × JsonReader.Value))
        (h : JsonReader.parse packet_data = .ok (.object ms)) : members = ms := by
      rw [hparse] at h
      exact Json.object.inj (Except.ok.inj h)
    refine ⟨fun h => ?_, fun value h => ?_, fun ms h => ?_, fun ms h hs u' hu' t' ht' => ?_⟩
    · rw [hparse] at h
      cases h
    · rw [hparse] at h
      exact Or.inr ⟨members, (Except.ok.inj h).symm⟩
    · obtain rfl := hsame ms h
      refine List.forall_mem_cons.mpr ⟨?_, List.forall_mem_singleton.mpr ?_⟩
      · exact memberText_isSome_iff.mp ⟨u, hu⟩
      · exact memberText_isSome_iff.mp ⟨t, ht⟩
    · obtain rfl := hsame ms h
      cases hu.symm.trans hu'
      cases ht.symm.trans ht'
      exact hidle hs

end Object

section Null

variable {packet_data : Bytes} (hparse : JsonReader.parse packet_data = .ok .null)

include hparse

/-- A packet that is null has no members, and none is missed. -/
theorem unbroken_null : Unbroken dbl cfg subs packet_data := by
  have hreceive : onReceiveText dbl cfg subs packet_data =
      { returns := true, vSubscriptions := subs } := by
    rw [onReceiveText, hparse]
    rfl
  exact ⟨by rw [hreceive], fun _ => by rw [hreceive]; exact ⟨rfl, rfl⟩⟩

theorem meets_null : Meets dbl cfg subs packet_data := by
  have hobject (members : List (Bytes × JsonReader.Value)) :
      JsonReader.parse packet_data ≠ .ok (.object members) := by
    rw [hparse]
    exact fun h => by cases h
  refine ⟨fun h => ?_, fun value h => Or.inl ?_, fun members h => ?_, fun members h => ?_⟩
  · rw [hparse] at h
    cases h
  · rw [hparse] at h
    exact (Except.ok.inj h).symm
  · exact absurd h (hobject members)
  · exact absurd h (hobject members)

end Null

/-- A value that has no members at all. -/
theorem member?_of_scalar {value : JsonReader.Value} {name : Bytes}
    (h : ¬ (value = .null ∨ ∃ members, value = .object members)) : value.member? name = none := by
  obtain ⟨hnull, hobject⟩ := not_or.mp h
  cases value with
  | null => exact absurd rfl hnull
  | object members => exact absurd ⟨members, rfl⟩ hobject
  | _ => rfl

/-- **A packet is handled right exactly under `Meets`.** -/
theorem unbroken_iff (dbl : Doubles UInt64) (cfg : AccessConfig)
    (vSubscriptions : List Subscription) (packet_data : Bytes) :
    Unbroken dbl cfg vSubscriptions packet_data ↔ Meets dbl cfg vSubscriptions packet_data := by
  cases hparse : JsonReader.parse packet_data with
  | error e =>
    cases e with
    | stackLimit =>
      refine iff_of_false (fun h => ?_) fun h => h.depth hparse
      -- the reader throws, and nobody catches it
      have hreturns := h.returns
      rw [onReceiveText, hparse] at hreturns
      cases hreturns
    | syntaxError =>
      refine iff_of_true ⟨?_, fun _ => ⟨?_, ?_⟩⟩ ⟨?_, ?_, ?_, ?_⟩
      · rw [onReceiveText, hparse]
        rfl
      · rw [onReceiveText, hparse]
        rfl
      · rw [onReceiveText, hparse]
      all_goals
        rw [hparse]
      · exact fun h => by cases h
      · exact fun _ h => by cases h
      · exact fun _ h => by cases h
      · exact fun _ h => by cases h
  | ok value =>
    by_cases hform : value = .null ∨ ∃ members, value = .object members
    · rcases hform with rfl | ⟨members, rfl⟩
      · exact iff_of_true (unbroken_null hparse) (meets_null hparse)
      · rw [meets_object_iff hparse]
        constructor
        · intro h
          -- both members are read as lists of names
          obtain ⟨u, t, hu, ht⟩ := (returns_object_iff hparse).mp h.returns
          refine ⟨u, t, hu, ht, fun hs => ?_⟩
          rw [← subscribe_unsubscribe_eq_self_iff, ← vSubscriptions_object hparse hu ht]
          exact (h.unchanged hs).1
        · rintro ⟨u, t, hu, ht, hidle⟩
          refine ⟨(returns_object_iff hparse).mpr ⟨u, t, hu, ht⟩, fun hs => ⟨?_, ?_⟩⟩
          · rw [vSubscriptions_object hparse hu ht, subscribe_unsubscribe_eq_self_iff]
            exact hidle hs
          · rw [onReceiveText_object hparse]
    · refine iff_of_false (fun h => ?_) fun h => hform (h.object value hparse)
      have hreturns := h.returns
      rw [onReceiveText, hparse] at hreturns
      simp only [handle, member?_of_scalar hform, Option.bind_none, Bool.false_eq_true] at hreturns

/-- A packet that is an array: it is asked for a member, and an exception raised. -/
theorem array_throws : ¬ ∀ (cfg : AccessConfig) (vSubscriptions : List Subscription)
    (packet_data : Bytes), Unbroken PythonJson.doubles cfg vSubscriptions packet_data := by
  intro h
  have hreturns := (h Subscriptions.interfaceAccess [] (str "[1]")).returns
  have hthrows : (onReceiveText PythonJson.doubles Subscriptions.interfaceAccess []
      (str "[1]")).returns = false := by decide +kernel
  rw [hthrows] at hreturns
  cases hreturns

end Domoticz.Packets
