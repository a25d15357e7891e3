import Domoticz.Web.Rest

/-!
# The field filter of the REST interface

`TableAccess` names, for each table, the columns a `PUT` or a `PATCH` may write
and those a `GET` hides.  The filter is meant to keep exactly the listed columns
of the first two and to drop exactly the listed ones of the last.  It departs
from that in two ways: it looks for the name anywhere in the text of the list,
and it passes over the second column whenever it has removed the first.  Behind
the filter an update sets the time stamp of its table, listed or not.

## Main definitions

* `FieldFilterExact da` — what the filter is for.
* `FilterCondition da` — at each position the loop examines, occurring in the
  text of the list and being an element of it agree, a second column that is
  passed over is one to keep, and no time stamp is set that is not listed.

## Main results

* `fieldFilterExact_iff` — **the filter does what it is for exactly under
  `FilterCondition`.**
* `patch_value_keeps_name` — with the access rows of a new installation a `PATCH`
  of `Value` may write the column `Name`.
-/

namespace Domoticz

open CLib

/-- The filter keeps the listed columns of `PUT` and `PATCH` and drops those of
`GET`, in order; and an update assigns only columns of the configured list. -/
structure FieldFilterExact (da : DataAccess) : Prop where
  keepsPut : da.verb = str "PUT" → da.putFields ≠ str "*" →
    da.stripForbiddenFields.validFields = da.validFields.filter (isListed da.putFields)
  keepsPatch : da.verb = str "PATCH" → da.patchFields ≠ str "*" →
    da.stripForbiddenFields.validFields = da.validFields.filter (isListed da.patchFields)
  dropsGet : da.verb = str "GET" →
    da.stripForbiddenFields.validFields =
      da.validFields.filter fun f => !isListed da.dontGETFields f
  putAssigns : da.verb = str "PUT" → da.putFields ≠ str "*" →
    ∀ (D : Type) (dbl : Doubles D) (parse : Bytes → Option (Json D)) (req : Request)
      (fields : List Bytes) (ts : Bool) (values : List Bytes),
      put dbl parse req da = .update fields ts values →
        ∀ name ∈ assignedColumns fields ts, name ∈ fieldList da.putFields
  patchAssigns : da.verb = str "PATCH" → da.patchFields ≠ str "*" →
    ∀ (D : Type) (dbl : Doubles D) (parse : Bytes → Option (Json D)) (req : Request)
      (fields : List Bytes) (ts : Bool) (values : List Bytes),
      patch dbl parse req da = .update fields ts values →
        ∀ name ∈ assignedColumns fields ts, name ∈ fieldList da.patchFields

/-- A table with a time stamp has it on the list, or nothing on the list that an update could
bind. -/
def StampListed (da : DataAccess) (config : Bytes) : Prop :=
  da.hasTimestamp = true → str "Timestamp" ∈ fieldList config ∨
    ∀ f ∈ da.validFields, isListed config f = true → f.name = da.table ++ str "ID"

/-- At each position the loop of the verb examines, occurring in the text of the
list and being an element of it agree, and a second column it passes over is one
to keep; an update sets no time stamp that is not listed. -/
def FilterCondition (da : DataAccess) : Prop :=
  (da.verb = str "PUT" → da.putFields ≠ str "*" →
    ExaminedRight (fun f => !contains da.putFields f.name) (isListed da.putFields)
      da.validFields ∧ StampListed da da.putFields) ∧
  (da.verb = str "PATCH" → da.patchFields ≠ str "*" →
    ExaminedRight (fun f => !contains da.patchFields f.name) (isListed da.patchFields)
      da.validFields ∧ StampListed da da.patchFields) ∧
  (da.verb = str "GET" → da.dontGETFields ≠ [] →
    ExaminedRight (fun f => contains da.dontGETFields f.name)
      (fun f => !isListed da.dontGETFields f) da.validFields)

/-! ### The loop of each verb -/

theorem validFields_put {da : DataAccess} (hv : da.verb = str "PUT")
    (hs : da.putFields ≠ str "*") :
    da.stripForbiddenFields.validFields
      = eraseLoop (fun f => !contains da.putFields f.name) da.validFields 0 := by
  rw [DataAccess.stripForbiddenFields, if_pos ⟨hv, hs⟩, DataAccess.strip]

theorem validFields_patch {da : DataAccess} (hv : da.verb = str "PATCH")
    (hs : da.patchFields ≠ str "*") :
    da.stripForbiddenFields.validFields
      = eraseLoop (fun f => !contains da.patchFields f.name) da.validFields 0 := by
  have hput : ¬ da.verb = str "PUT" := by rw [hv]; decide
  rw [DataAccess.stripForbiddenFields, if_neg (fun h => hput h.1), if_pos ⟨hv, hs⟩,
    DataAccess.strip]

theorem validFields_get {da : DataAccess} (hv : da.verb = str "GET") :
    da.stripForbiddenFields.validFields =
      if da.dontGETFields = [] then da.validFields
      else eraseLoop (fun f => contains da.dontGETFields f.name) da.validFields 0 := by
  have hput : ¬ da.verb = str "PUT" := by rw [hv]; decide
  have hpatch : ¬ da.verb = str "PATCH" := by rw [hv]; decide
  rw [DataAccess.stripForbiddenFields, if_neg (fun h => hput h.1), if_neg (fun h => hpatch h.1)]
  by_cases hd : da.dontGETFields = []
  · rw [if_neg (fun h => h.2 hd), if_pos hd]
  · rw [if_pos ⟨hv, hd⟩, if_neg hd, DataAccess.strip]

/-- With nothing configured nothing is listed. -/
theorem isListed_nil (f : ColumnInfo) : isListed [] f = false := rfl

/-- A filter that keeps the listed columns leaves only listed names to bind. -/
theorem bound_listed {D : Type} {dbl : Doubles D} {parse : Bytes → Option (Json D)}
    {req : Request} {da : DataAccess} {config : Bytes} {fields values : List Bytes} {ts : Bool}
    (hkeep : da.stripForbiddenFields.validFields = da.validFields.filter (isListed config))
    (hupd : modify dbl parse req da = .update fields ts values) {name : Bytes}
    (hname : name ∈ fields) :
    ∃ f ∈ da.validFields, isListed config f = true ∧ f.name = name := by
  have hleft := modify_fields hupd name hname
  rw [DataAccess.getValidFields, hkeep] at hleft
  obtain ⟨f, hf, rfl⟩ := List.mem_map.mp hleft
  exact ⟨f, List.mem_filter.mp hf |>.1, List.mem_filter.mp hf |>.2, rfl⟩

/-- Behind such a filter an update sets listed columns only if the time stamp is one, or there
is nothing else that it could bind. -/
theorem assigned_listed {D : Type} {dbl : Doubles D} {parse : Bytes → Option (Json D)}
    {req : Request} {da : DataAccess} {config : Bytes} {fields values : List Bytes} {ts : Bool}
    (hkeep : da.stripForbiddenFields.validFields = da.validFields.filter (isListed config))
    (hstamp : StampListed da config) (hupd : modify dbl parse req da = .update fields ts values) :
    ∀ name ∈ assignedColumns fields ts, name ∈ fieldList config := by
  obtain ⟨hne, hbound, hts⟩ := modify_update hupd
  intro name hname
  rcases List.mem_append.mp hname with hname | hname
  · obtain ⟨f, -, hlisted, rfl⟩ := bound_listed hkeep hupd hname
    exact List.contains_iff_mem.mp hlisted
  · -- the time stamp is set
    obtain ⟨hset, rfl⟩ : ts = true ∧ name = str "Timestamp" := by
      cases ts with
      | false => cases hname
      | true => exact ⟨rfl, List.mem_singleton.mp hname⟩
    rcases hstamp (hts ▸ hset) with hlisted | hnone
    · exact hlisted
    · obtain ⟨first, hfirst⟩ := List.exists_mem_of_ne_nil fields hne
      obtain ⟨f, hf, hlisted, rfl⟩ := bound_listed hkeep hupd hfirst
      exact absurd (hnone f hf hlisted) (hbound f.name hfirst).2

/-- With a time stamp that is not listed, a body that binds one listed column sets it. -/
theorem stampListed_of_assigned {da : DataAccess} {config : Bytes}
    (hkeep : da.stripForbiddenFields.validFields = da.validFields.filter (isListed config))
    (hassigned : ∀ (dbl : Doubles Unit) (parse : Bytes → Option (Json Unit)) (req : Request)
      (fields : List Bytes) (ts : Bool) (values : List Bytes),
      modify dbl parse req da = .update fields ts values →
        ∀ name ∈ assignedColumns fields ts, name ∈ fieldList config) :
    StampListed da config := by
  intro hts
  by_cases hstamp : str "Timestamp" ∈ fieldList config
  · exact .inl hstamp
  · refine .inr fun f hf hlisted => ?_
    by_contra hid
    -- the body is an object of that column alone
    let root : Json Unit := .object [(f.name, .string [])]
    have hmem : f ∈ da.stripForbiddenFields.validFields := by
      rw [hkeep]
      exact List.mem_filter.mpr ⟨hf, hlisted⟩
    have hne : f.name ≠ str "Timestamp" := by
      intro h
      exact hstamp (h ▸ List.contains_iff_mem.mp hlisted)
    have hwritten : isWritten da.stripForbiddenFields (f.name, (.string [] : Json Unit)) = true := by
      simp only [isWritten, DataAccess.table_stripForbiddenFields, Bool.and_eq_true, bne_iff_ne,
        List.any_eq_true, beq_iff_eq]
      exact ⟨⟨hid, hne⟩, f, hmem, rfl⟩
    have hmodify : modify noDoubles (fun _ => some root) { content := [], contentLength := 1 } da =
        .update [f.name] true [[]] := by
      have hget : getFieldsAndValues noDoubles (some root) da.stripForbiddenFields =
          .ok ([f.name], [[]]) := by
        rw [getFieldsAndValues_eq_ok_iff]
        have hmembers : root.members = [(f.name, .string [])] := rfl
        rw [hmembers, List.filter_cons_of_pos hwritten]
        exact ⟨rfl, List.cons_ne_nil _ _, rfl⟩
      rw [modify, if_neg (by decide), hget, hts]
    exact hstamp (hassigned _ _ _ _ _ _ hmodify _ (List.mem_append_right _ List.mem_cons_self))

/-! ### When the filter is exact -/

/-- **The filter does what it is for exactly when the loop decides right wherever
it looks, what it does not look at may stay, and no time stamp is set that is not listed.** -/
theorem fieldFilterExact_iff (da : DataAccess) : FieldFilterExact da ↔ FilterCondition da := by
  constructor
  · intro h
    refine ⟨fun hv hs => ⟨?_, ?_⟩, fun hv hs => ⟨?_, ?_⟩, fun hv hd => ?_⟩
    · rw [← eraseLoop_eq_filter_iff, ← validFields_put hv hs]
      exact h.keepsPut hv hs
    · exact stampListed_of_assigned (h.keepsPut hv hs) (h.putAssigns hv hs Unit)
    · rw [← eraseLoop_eq_filter_iff, ← validFields_patch hv hs]
      exact h.keepsPatch hv hs
    · exact stampListed_of_assigned (h.keepsPatch hv hs) (h.patchAssigns hv hs Unit)
    · have hget := h.dropsGet hv
      rw [validFields_get hv, if_neg hd] at hget
      exact (eraseLoop_eq_filter_iff _ _ _).mp hget
  · rintro ⟨hput, hpatch, hget⟩
    have hputKeep : da.verb = str "PUT" → da.putFields ≠ str "*" →
        da.stripForbiddenFields.validFields = da.validFields.filter (isListed da.putFields) := by
      intro hv hs
      rw [validFields_put hv hs, eraseLoop_eq_filter_iff]
      exact (hput hv hs).1
    have hpatchKeep : da.verb = str "PATCH" → da.patchFields ≠ str "*" →
        da.stripForbiddenFields.validFields = da.validFields.filter (isListed da.patchFields) := by
      intro hv hs
      rw [validFields_patch hv hs, eraseLoop_eq_filter_iff]
      exact (hpatch hv hs).1
    refine ⟨hputKeep, hpatchKeep, fun hv => ?_, fun hv hs => ?_, fun hv hs => ?_⟩
    · rw [validFields_get hv]
      split
      · next hd => simp [hd, isListed_nil]
      · next hd => exact (eraseLoop_eq_filter_iff _ _ _).mpr (hget hv hd)
    · intro D dbl parse req fields ts values hupd
      exact assigned_listed (hputKeep hv hs) (hput hv hs).2 hupd
    · intro D dbl parse req fields ts values hupd
      exact assigned_listed (hpatchKeep hv hs) (hpatch hv hs).2 hupd

/-- The columns of the table `Value`. -/
def valueColumns : List ColumnInfo :=
  let column cid name type notnull pk : ColumnInfo :=
    ⟨str cid, str name, str type, str notnull, [], str pk⟩
  [column "0" "ValueID" "INTEGER" "0" "1", column "1" "Name" "TEXT" "0" "0",
    column "2" "InternalID" "TEXT" "0" "0", column "3" "DeviceID" "INTEGER" "1" "0",
    column "4" "UnitID" "INTEGER" "1" "0", column "5" "Value" "TEXT" "0" "0",
    column "6" "RetentionDays" "INTEGER" "0" "0", column "7" "RetentionInterval" "INTEGER" "0" "0",
    column "8" "Debug" "INTEGER" "0" "0", column "9" "Timestamp" "TEXT" "0" "0"]

/-- A `PATCH` of `Value` with the access row of a new installation, which permits
the column `Value` alone. -/
def valuePatch : DataAccess :=
  { user := str "Admin", verb := str "PATCH", table := str "Value", tableKey := 1,
    putFields := str "*", patchFields := str "Value", validFields := valueColumns }

/-- The column behind the removed primary key stays. -/
theorem patch_value_keeps_name : ¬ FieldFilterExact valuePatch := by
  intro h
  have hkeep := h.keepsPatch rfl (by decide)
  rw [validFields_patch rfl (by decide), eraseLoop_zero] at hkeep
  exact absurd hkeep (by decide)

end Domoticz
