import Domoticz.Transition
import Domoticz.Web.Push

/-!
# Subscriptions over a whole connection

A client of the websocket subscribes to tables and unsubscribes from them.  `Handle` appends a
subscription without a look at those that are there and takes the first one away;
`DatabaseUpdate` uses the first one.  To the client a table is subscribed or not, and its last
subscription counts.

## Main definitions

* `Operation`, `operations` — what the packets of a client ask for and are granted.
* `Known`, `know` — what a client knows to be subscribed.
* `pushed`, `expected` — what is written for an update, and what the client counts on.
* `Meets` — the operations after which the two agree.

## Main results

* `handle_eq` — `Handle` carries out the operations one after the other.
* `expected_iff` — **what is pushed is what is expected exactly if every operation meets that.**
* `still_pushed` — a table that was subscribed twice is pushed after it was unsubscribed.
-/

namespace Domoticz.Subscriptions

open CLib

/-! ### Operations -/

/-- What a packet asks for.  A subscription that is granted comes with its fields. -/
inductive Operation
  | unsubscribe (sTable : Bytes)
  | subscribe (sTable : Bytes) (vFields : List Bytes)

/-- The operation on the subscriptions. -/
def apply (subs : List Subscription) : Operation → List Subscription
  | .unsubscribe sTable => subs.eraseP fun s => s.sTable == sTable
  | .subscribe sTable vFields => subs ++ [⟨sTable, vFields⟩]

section Packets

variable {D : Type} (dbl : Doubles D)

/-- A text member of a packet; none where `Handle` ends with an exception. -/
def text? (name : Bytes) (value : Json D) : Option Bytes :=
  (value.member? name).bind (Json.asString? dbl)

/-- What a packet asks for and is granted, with the rights at that time. -/
def operations (cfg : AccessConfig) (packet : Option (Json D)) : List Operation :=
  match packet with
  | none => []
  | some value =>
      match text? dbl (str "unsubscribe") value with
      | none => []
      | some sUnsubscribe =>
          (if sUnsubscribe = [] then [] else [.unsubscribe sUnsubscribe]) ++
            match text? dbl (str "subscribe") value with
            | none => []
            | some sSubscribe =>
                if sSubscribe = [] then []
                else ((capturedFields cfg sSubscribe.dropLast).map (.subscribe sSubscribe)).toList

/-- `Handle` carries out the operations of a packet one after the other. -/
theorem handle_eq (cfg : AccessConfig) (subs : List Subscription) (packet : Option (Json D)) :
    (handle dbl cfg subs packet).2 = (operations dbl cfg packet).foldl apply subs := by
  cases packet with
  | none => rfl
  | some value =>
    have hunsubscribe (name : Bytes) : unsubscribe name subs =
        (if name = [] then [] else [Operation.unsubscribe name]).foldl apply subs := by
      rw [unsubscribe]
      split
      · rfl
      · rfl
    have hsubscribe (name : Bytes) (subs : List Subscription) : subscribe cfg name subs =
        (if name = [] then []
          else ((capturedFields cfg name.dropLast).map
            (Operation.subscribe name)).toList).foldl apply subs := by
      rw [subscribe]
      split
      · rfl
      · cases capturedFields cfg name.dropLast with
        | none => rfl
        | some vFields => rfl
    unfold handle operations text?
    simp only
    cases (value.member? (str "unsubscribe")).bind (Json.asString? dbl) with
    | none => rfl
    | some sUnsubscribe =>
      simp only
      rw [List.foldl_append, ← hunsubscribe]
      cases (value.member? (str "subscribe")).bind (Json.asString? dbl) with
      | none => rfl
      | some sSubscribe => exact hsubscribe sSubscribe _

/-- What the packets of a connection ask for, each with the rights at its time. -/
def allOperations (packets : List (AccessConfig × Option (Json D))) : List Operation :=
  packets.flatMap fun p => operations dbl p.1 p.2

/-- The subscriptions after some packets. -/
theorem handle_all (packets : List (AccessConfig × Option (Json D))) (subs : List Subscription) :
    packets.foldl (fun subs p => (handle dbl p.1 subs p.2).2) subs =
      (allOperations dbl packets).foldl apply subs := by
  induction packets generalizing subs with
  | nil => rfl
  | cons p packets ih =>
    rw [List.foldl_cons, ih, handle_eq, allOperations, allOperations, List.flatMap_cons,
      List.foldl_append]

end Packets

/-! ### What is pushed -/

/-- What `DatabaseUpdate` writes for an update. -/
def pushed (subs : List Subscription) (e : UpdateEntry) : List (List (Bytes × PushValue)) :=
  (databaseUpdate subs e).toList

/-- What a client knows: the tables that are subscribed, with the fields of the last time. -/
abbrev Known := Bytes → Option (List Bytes)

/-- What the client has asked for last. -/
def know (known : Known) : Operation → Known
  | .unsubscribe sTable => Function.update known sTable none
  | .subscribe sTable vFields => Function.update known sTable (some vFields)

/-- What a client counts on: nothing of a table that is not subscribed, and otherwise the row
once, with the fields of the last subscription. -/
def expected (known : Known) (e : UpdateEntry) : List (List (Bytes × PushValue)) :=
  match known (e.table ++ str "s") with
  | none => []
  | some vFields => (databaseUpdate [⟨e.table ++ str "s", vFields⟩] e).toList

/-- For every update whose lists belong together the client gets what it counts on. -/
def AsExpected (subs : List Subscription) (known : Known) : Prop :=
  ∀ e : UpdateEntry, e.columnTypes.length = e.columns.length →
    e.values.length = e.columns.length → pushed subs e = expected known e

/-- An operation after which it does: a table is unsubscribed while it has one subscription at
most, and subscribed while it has none, or with the fields that its first one has. -/
def Meets (subs : List Subscription) : Operation → Prop
  | .unsubscribe sTable => (∃ T, sTable = T ++ str "s") →
      (subs.filter fun s => s.sTable == sTable).length ≤ 1
  | .subscribe sTable vFields => (∃ T, sTable = T ++ str "s") →
      ∀ s, subs.find? (fun s => s.sTable == sTable) = some s → ∀ c, c ∈ s.vFields ↔ c ∈ vFields

/-! ### The subscriptions of a table -/

/-- The fields of the subscriptions of a table. -/
def fieldsOf (subs : List Subscription) (sTable : Bytes) : List (List Bytes) :=
  (subs.filter fun s => s.sTable == sTable).map Subscription.vFields

theorem fieldsOf_unsubscribe (subs : List Subscription) (sTable : Bytes) :
    fieldsOf (apply subs (.unsubscribe sTable)) sTable = (fieldsOf subs sTable).tail := by
  induction subs with
  | nil => rfl
  | cons s subs ih =>
    rw [apply, fieldsOf, fieldsOf] at *
    by_cases h : (s.sTable == sTable) = true
    · simp only [List.eraseP_cons, List.filter_cons, h, cond_true, if_true, List.map_cons,
        List.tail_cons]
    · rw [Bool.not_eq_true] at h
      simp only [List.eraseP_cons, List.filter_cons, h, cond_false, Bool.false_eq_true, if_false,
        ih]

theorem fieldsOf_unsubscribe_ne (subs : List Subscription) {sTable sTable' : Bytes}
    (h : sTable' ≠ sTable) :
    fieldsOf (apply subs (.unsubscribe sTable)) sTable' = fieldsOf subs sTable' := by
  induction subs with
  | nil => rfl
  | cons s subs ih =>
    rw [apply, fieldsOf, fieldsOf] at *
    by_cases hs : (s.sTable == sTable) = true
    · have hne : (s.sTable == sTable') = false := by
        rw [eq_of_beq hs]
        exact beq_false_of_ne h.symm
      simp only [List.eraseP_cons, List.filter_cons, hs, hne, cond_true, Bool.false_eq_true,
        if_false]
    · rw [Bool.not_eq_true] at hs
      simp only [List.eraseP_cons, List.filter_cons, hs, cond_false]
      split
      · rw [List.map_cons, List.map_cons, ih]
      · exact ih

theorem fieldsOf_subscribe (subs : List Subscription) (sTable : Bytes) (vFields : List Bytes) :
    fieldsOf (apply subs (.subscribe sTable vFields)) sTable =
      fieldsOf subs sTable ++ [vFields] := by
  rw [apply, fieldsOf, fieldsOf, List.filter_append, List.map_append, List.filter_cons,
    if_pos (beq_self_eq_true sTable)]
  rfl

theorem fieldsOf_subscribe_ne (subs : List Subscription) {sTable sTable' : Bytes}
    (h : sTable' ≠ sTable) (vFields : List Bytes) :
    fieldsOf (apply subs (.subscribe sTable vFields)) sTable' = fieldsOf subs sTable' := by
  have hne : ¬ (sTable == sTable') = true := by
    rw [beq_iff_eq]
    exact h.symm
  rw [apply, fieldsOf, fieldsOf, List.filter_append, List.filter_cons, if_neg hne, List.filter_nil,
    List.append_nil]

/-- The first subscription of a table is the one in use. -/
theorem find_eq_head? (subs : List Subscription) (sTable : Bytes) :
    (subs.find? fun s => s.sTable == sTable).map Subscription.vFields =
      (fieldsOf subs sTable).head? := by
  rw [fieldsOf, List.head?_map, List.head?_filter]

/-! ### One table -/

/-- The row that is pushed with some fields. -/
def rowOf (vFields : List Bytes) (e : UpdateEntry) : List (Bytes × PushValue) :=
  if e.columns ≠ [] then
    (e.columns.zipIdx.filter fun c => vFields.contains c.1).map fun c => (c.1, e.pushValue c.2)
  else [(e.table ++ str "ID", .int (Int.bmod (e.rowIdx * -1) (2 ^ 64)))]

theorem databaseUpdate_eq (subs : List Subscription) (e : UpdateEntry) :
    databaseUpdate subs e =
      (fieldsOf subs (e.table ++ str "s")).head?.map fun vFields => rowOf vFields e := by
  rw [← find_eq_head?, databaseUpdate, Option.map_map]
  rfl

theorem expected_eq (known : Known) (e : UpdateEntry) :
    expected known e =
      ((known (e.table ++ str "s")).map fun vFields => rowOf vFields e).toList := by
  unfold expected
  cases known (e.table ++ str "s") with
  | none => rfl
  | some vFields =>
    simp only [databaseUpdate, List.find?_cons, beq_self_eq_true, Option.map_some]
    rfl

/-- The same fields give the same rows. -/
theorem rowOf_congr {vFields vFields' : List Bytes} (h : ∀ c, c ∈ vFields ↔ c ∈ vFields')
    (e : UpdateEntry) : rowOf vFields e = rowOf vFields' e := by
  have hcontains (c : Bytes) : vFields.contains c = vFields'.contains c := by
    rw [Bool.eq_iff_iff, List.contains_iff_mem, List.contains_iff_mem]
    exact h c
  unfold rowOf
  simp only [hcontains]

/-- An update of a single column. -/
def single (T c : Bytes) : UpdateEntry where
  action := str "Update"
  table := T
  rowIdx := 1
  columns := [c]
  columnTypes := [str "TEXT"]
  values := [[]]

theorem rowOf_single (vFields : List Bytes) (T c : Bytes) :
    rowOf vFields (single T c) ≠ [] ↔ c ∈ vFields := by
  have hrow : rowOf vFields (single T c) =
      if vFields.contains c then [(c, (single T c).pushValue 0)] else [] := by
    show (([(c, 0)] : List (Bytes × ℕ)).filter fun c => vFields.contains c.1).map _ = _
    rw [List.filter_cons]
    split
    · rfl
    · rfl
  rw [hrow, ← List.contains_iff_mem]
  split
  · next h => exact iff_of_true (List.cons_ne_nil _ _) h
  · next h => exact iff_of_false (fun hne => hne rfl) h

/-- A table of whose subscriptions the first has the fields of the one that counts. -/
def Agrees (subs : List Subscription) (known : Known) (sTable : Bytes) : Prop :=
  match (fieldsOf subs sTable).head?, known sTable with
  | none, none => True
  | some vFields, some vFields' => ∀ c, c ∈ vFields ↔ c ∈ vFields'
  | _, _ => False

/-- What is pushed of a table is as expected exactly if the two agree on it. -/
theorem agrees_iff (subs : List Subscription) (known : Known) (T : Bytes) :
    Agrees subs known (T ++ str "s") ↔
      ∀ e : UpdateEntry, e.table = T → e.columnTypes.length = e.columns.length →
        e.values.length = e.columns.length → pushed subs e = expected known e := by
  unfold Agrees
  cases hhead : (fieldsOf subs (T ++ str "s")).head? with
  | none =>
    have hpushed (e : UpdateEntry) (he : e.table = T) : pushed subs e = [] := by
      rw [pushed, databaseUpdate_eq, he, hhead]
      rfl
    cases hknown : known (T ++ str "s") with
    | none =>
      refine iff_of_true trivial fun e he _ _ => ?_
      rw [hpushed e he, expected_eq, he, hknown]
      rfl
    | some vFields' =>
      refine iff_of_false not_false fun h => ?_
      have hsingle := h (single T []) rfl rfl rfl
      rw [hpushed _ rfl, expected_eq] at hsingle
      rw [show (single T []).table = T from rfl, hknown] at hsingle
      cases hsingle
  | some vFields =>
    have hpushed (e : UpdateEntry) (he : e.table = T) : pushed subs e = [rowOf vFields e] := by
      rw [pushed, databaseUpdate_eq, he, hhead]
      rfl
    cases hknown : known (T ++ str "s") with
    | none =>
      -- a column that no subscription has
      refine iff_of_false not_false fun h => ?_
      obtain ⟨c, hc⟩ : ∃ c, c ∉ vFields := by
        by_contra hall
        push Not at hall
        exact Set.infinite_univ (vFields.finite_toSet.subset fun c _ => hall c)
      have hsingle := h (single T c) rfl rfl rfl
      rw [hpushed _ rfl, expected_eq] at hsingle
      rw [show (single T c).table = T from rfl, hknown] at hsingle
      cases hsingle
    | some vFields' =>
      have hexpected (e : UpdateEntry) (he : e.table = T) :
          expected known e = [rowOf vFields' e] := by
        rw [expected_eq, he, hknown]
        rfl
      constructor
      · intro hfields e he _ _
        rw [hpushed e he, hexpected e he, rowOf_congr hfields]
      · intro h c
        have hsingle := h (single T c) rfl rfl rfl
        rw [hpushed _ rfl, hexpected _ rfl] at hsingle
        rw [← rowOf_single vFields T c, ← rowOf_single vFields' T c, (List.cons.inj hsingle).1]

theorem asExpected_iff (subs : List Subscription) (known : Known) :
    AsExpected subs known ↔ ∀ T, Agrees subs known (T ++ str "s") := by
  constructor
  · intro h T
    rw [agrees_iff]
    exact fun e _ => h e
  · intro h e
    exact (agrees_iff subs known e.table).mp (h e.table) e rfl

/-! ### Runs -/

/-- What a client knows is the last of the subscriptions of a table. -/
def Tracks (subs : List Subscription) (known : Known) : Prop :=
  ∀ T, known (T ++ str "s") = (fieldsOf subs (T ++ str "s")).getLast?

/-- An operation leaves the other tables as they are. -/
theorem agrees_of_ne (subs : List Subscription) (known : Known) (op : Operation) {sTable : Bytes}
    (h : match op with
      | .unsubscribe sTable' => sTable ≠ sTable'
      | .subscribe sTable' _ => sTable ≠ sTable') :
    fieldsOf (apply subs op) sTable = fieldsOf subs sTable ∧
      know known op sTable = known sTable := by
  cases op with
  | unsubscribe sTable' =>
    exact ⟨fieldsOf_unsubscribe_ne subs h, Function.update_of_ne h _ _⟩
  | subscribe sTable' vFields =>
    exact ⟨fieldsOf_subscribe_ne subs h vFields, Function.update_of_ne h _ _⟩

/-- After an operation it is as expected exactly if the operation meets the condition. -/
theorem agrees_apply_iff {subs : List Subscription} {known : Known}
    (hagrees : ∀ T, Agrees subs known (T ++ str "s")) (op : Operation) :
    (∀ T, Agrees (apply subs op) (know known op) (T ++ str "s")) ↔ Meets subs op := by
  cases op with
  | unsubscribe sTable =>
    have hself : know known (.unsubscribe sTable) sTable = none := Function.update_self _ _ _
    -- the next subscription to the table comes to the front
    have hlength : (fieldsOf subs sTable).tail.head? = none ↔
        (subs.filter fun s => s.sTable == sTable).length ≤ 1 := by
      rw [List.head?_eq_none_iff, ← List.length_eq_zero_iff, List.length_tail, fieldsOf,
        List.length_map]
      omega
    constructor
    · rintro h ⟨T, rfl⟩
      have hT := h T
      rw [Agrees, hself, fieldsOf_unsubscribe] at hT
      rw [← hlength]
      cases hhead : (fieldsOf subs (T ++ str "s")).tail.head? with
      | none => rfl
      | some vFields =>
        rw [hhead] at hT
        exact hT.elim
    · intro h T
      by_cases heq : T ++ str "s" = sTable
      · have hnone := hlength.mpr (h ⟨T, heq.symm⟩)
        rw [Agrees, heq, hself, fieldsOf_unsubscribe, hnone]
        trivial
      · obtain ⟨hfields, hknown⟩ := agrees_of_ne subs known (.unsubscribe sTable) heq
        rw [Agrees, hfields, hknown]
        exact hagrees T
  | subscribe sTable vFields =>
    have hself : know known (.subscribe sTable vFields) sTable = some vFields :=
      Function.update_self _ _ _
    have hfirst := find_eq_head? subs sTable
    constructor
    · rintro h ⟨T, rfl⟩
      have hT := h T
      rw [Agrees, hself, fieldsOf_subscribe] at hT
      cases hhead : (fieldsOf subs (T ++ str "s")).head? with
      | none =>
        intro s hs
        rw [hs, hhead] at hfirst
        cases hfirst
      | some first =>
        -- the new subscription stands behind the first one, which keeps to be found
        rw [List.head?_append, hhead] at hT
        intro s hs
        rw [hs, hhead] at hfirst
        rw [Option.some.inj hfirst]
        exact hT
    · intro h T
      by_cases heq : T ++ str "s" = sTable
      · have hfields := h ⟨T, heq.symm⟩
        rw [Agrees, heq, hself, fieldsOf_subscribe, List.head?_append]
        cases hfind : subs.find? fun s => s.sTable == sTable with
        | none =>
          rw [hfind] at hfirst
          rw [← hfirst]
          exact fun c => Iff.rfl
        | some s =>
          rw [hfind] at hfirst
          rw [← hfirst]
          exact hfields s hfind
      · obtain ⟨hfields, hknown⟩ := agrees_of_ne subs known (.subscribe sTable vFields)
          heq
        rw [Agrees, hfields, hknown]
        exact hagrees T

theorem tracks_apply {subs : List Subscription} {known : Known} {op : Operation}
    (htracks : Tracks subs known) (hmeets : Meets subs op) :
    Tracks (apply subs op) (know known op) := by
  intro T
  cases op with
  | unsubscribe sTable =>
    by_cases heq : T ++ str "s" = sTable
    · have hlength := hmeets ⟨T, heq.symm⟩
      have htail : (fieldsOf subs sTable).tail = [] := by
        rw [← List.length_eq_zero_iff, List.length_tail, fieldsOf, List.length_map]
        omega
      rw [heq, fieldsOf_unsubscribe, htail]
      exact Function.update_self _ _ _
    · obtain ⟨hfields, hknown⟩ := agrees_of_ne subs known (.unsubscribe sTable) heq
      rw [hfields, hknown]
      exact htracks T
  | subscribe sTable vFields =>
    by_cases heq : T ++ str "s" = sTable
    · rw [heq, fieldsOf_subscribe, List.getLast?_concat]
      exact Function.update_self _ _ _
    · obtain ⟨hfields, hknown⟩ := agrees_of_ne subs known (.subscribe sTable vFields)
          heq
      rw [hfields, hknown]
      exact htracks T

/-- The subscriptions of a connection, and what its client knows. -/
structure State where
  subs : List Subscription
  known : Known

/-- What an operation does, and what the client knows of it. -/
def step (s : State) (op : Operation) : State := ⟨apply s.subs op, know s.known op⟩

/-- A new connection. -/
def start : State := ⟨[], fun _ => none⟩

theorem always_iff {s : State} (htracks : Tracks s.subs s.known)
    (hagrees : ∀ T, Agrees s.subs s.known (T ++ str "s")) (ops : List Operation) :
    (∀ done, done <+: ops →
        AsExpected (done.foldl step s).subs (done.foldl step s).known) ↔
      Transition.Throughout step (fun s op => Meets s.subs op) s ops := by
  have hstep (s : State) (op : Operation) :
      (Tracks s.subs s.known ∧ ∀ T, Agrees s.subs s.known (T ++ str "s")) →
        (AsExpected (step s op).subs (step s op).known ↔ Meets s.subs op) := by
    rintro ⟨-, hagrees⟩
    rw [asExpected_iff]
    exact agrees_apply_iff hagrees op
  rw [Transition.forall_prefix_iff (P := fun s : State => AsExpected s.subs s.known),
    and_iff_right ((asExpected_iff _ _).mpr hagrees)]
  refine Transition.throughout_congr_of_kept (fun s op hI hP => ?_) hstep ⟨htracks, hagrees⟩ ops
  exact ⟨tracks_apply hI.1 ((hstep s op hI).mp hP), (asExpected_iff _ _).mp hP⟩

/-- **What is pushed is what is expected**, after each operation of any packets, **exactly if
every operation** finds no table that it unsubscribes subscribed twice, and none that it
subscribes subscribed with other fields. -/
theorem expected_iff {D : Type} (dbl : Doubles D)
    (packets : List (AccessConfig × Option (Json D))) :
    (∀ done, done <+: allOperations dbl packets →
        AsExpected (done.foldl step start).subs (done.foldl step start).known) ↔
      Transition.Throughout step (fun s op => Meets s.subs op) start
        (allOperations dbl packets) := by
  refine always_iff (fun T => rfl) (fun T => ?_) _
  unfold Agrees
  trivial

/-- The rights of an administrator to the interfaces. -/
def interfaceAccess : AccessConfig where
  users := [⟨str "Admin", str "3"⟩]
  tableAccess :=
    [⟨str "Interface", str "3", str "1", str "1", str "1", str "0", str "1", [], [], []⟩]
  tableInfo table := if table = str "Interface" then
    [⟨str "0", str "Name", str "TEXT", str "1", [], str "0"⟩] else []

/-- The packets of a client that subscribes twice and unsubscribes once. -/
def twice : List (AccessConfig × Option (Json Unit)) :=
  let packet (name : String) := (interfaceAccess,
    some (.object [(str name, .string (str "Interfaces"))]))
  [packet "subscribe", packet "subscribe", packet "unsubscribe"]

/-- A table that was subscribed twice is pushed after it was unsubscribed. -/
theorem still_pushed :
    ¬ ∀ done,
      done <+: allOperations (⟨fun _ => none, fun _ => (), fun _ => []⟩ : Doubles Unit) twice →
      AsExpected (done.foldl step start).subs (done.foldl step start).known := by
  intro h
  have hlast := h _ (List.prefix_refl _) (single (str "Interface") (str "Name")) rfl rfl
  exact absurd hlast (by decide)

end Domoticz.Subscriptions
