import Domoticz.Plugin.Devices
import Domoticz.Transition

/-!
# The keys of the dictionaries

Every Device and every Value is put into its dictionary under its `InternalID`, and removed under
the `InternalID` it has then.  A refresh can change it, and the key stays what it was.  With a text
that is not UTF-8 the process ends, at once where it is a key, else when the object is copied.

## Main definitions

* `Keyed` — every object stands under its `InternalID`.
* `Exact` — a delete callback removes the entry of the row, and no other.
* `Steady` — no update changes an `InternalID`, a Value that is deleted is in one Device only, and
  the texts that are needed are UTF-8.

## Main results

* `dictionary_keyed_iff` — **the keys are right in all states of a run exactly if all its callbacks
  are steady.**
* `renamed_device_kept` — a Device that was renamed is not removed.
-/

namespace Domoticz.Objects

open Dictionary Transition

/-! ### What is to hold -/

/-- Every key is the `InternalID` of its object. -/
def Keyed (Devices : Dictionary PyText CDevice) : Prop :=
  Devices.KeyedBy CDevice.InternalID ∧ ∀ e ∈ Devices, e.2.Values.KeyedBy CValue.InternalID

/-- A callback, and the tables when it is processed. -/
structure Event where
  db : Database
  callback : Callback

/-- What an event makes of `Devices`; the dictionary stays where the process ends. -/
def step (Devices : Dictionary PyText CDevice) (e : Event) : Dictionary PyText CDevice :=
  (processLocked e.db Devices e.callback).elim Devices Processed.Devices

/-- A Device without one of its Values. -/
def CDevice.without (ValueID : RowID) : CDevice → CDevice :=
  CDevice.withValues fun Values => Values.filterValues fun v => v.ValueID ≠ ValueID

/-- A delete callback removes the entry of the row, and no other. -/
def Exact (Devices : Dictionary PyText CDevice) (e : Event) : Prop :=
  match e.callback with
  | .onDeleteDevice DeviceID =>
      step Devices e = Devices.filterValues fun d => d.DeviceID ≠ DeviceID
  | .onDeleteValue ValueID => step Devices e = Devices.mapValues (CDevice.without ValueID)
  | _ => True

/-- What is to hold of every callback. -/
structure Holds (Devices : Dictionary PyText CDevice) (e : Event) : Prop where
  survives : processLocked e.db Devices e.callback ≠ none
  keyed : Keyed (step Devices e)
  exact : Exact Devices e
  noError : ∀ p ∈ processLocked e.db Devices e.callback, p.keyError = false

/-- The dictionary after `CInterface_init`, if the process survives it. -/
def loadDevices (db : Database) (InterfaceID : RowID) : Option (Dictionary PyText CDevice) :=
  ((db.devices.filter (·.columns.InterfaceID = InterfaceID)).map DeviceRow.DeviceID).foldlM
    (addDeviceToDict db) .empty

/-! ### When it does -/

/-- The Device holds the Value. -/
def CDevice.Has (d : CDevice) (ValueID : RowID) : Prop := ∃ e ∈ d.Values, e.2.ValueID = ValueID

/-- The texts that are needed to make the object of a Value are UTF-8. -/
def ValueLoads (db : Database) (ValueID : RowID) : Prop :=
  ∀ c, db.value ValueID = some c → c.InternalID ≠ none

/-- The texts that are needed to make the object of a Device are UTF-8. -/
structure DeviceLoads (db : Database) (DeviceID : RowID) : Prop where
  device : ∀ c, db.device DeviceID = some c → c.InternalID ≠ none
  active : ∀ c, db.device DeviceID = some c → c.Active = true → c.updates = true
  values : ∀ ValueID ∈ valuesToLoad db DeviceID, ValueLoads db ValueID

/-- No update changes an `InternalID`, a Value that is deleted is in one Device only, the texts that
an object is made with are UTF-8, and those of an object that is copied are there. -/
def Steady (Devices : Dictionary PyText CDevice) (e : Event) : Prop :=
  match e.callback with
  | .onCreateDevice DeviceID =>
      (∀ d ∈ Devices, d.2.DeviceID ≠ DeviceID) → DeviceLoads e.db DeviceID
  | .onUpdateDevice DeviceID =>
      ∀ d ∈ Devices, d.2.DeviceID = DeviceID → d.2.copies = true ∧
        ∀ c, e.db.device DeviceID = some c → c.InternalID = d.2.InternalID
  | .onCreateValue DeviceID ValueID =>
      ∀ d ∈ Devices, d.2.DeviceID = DeviceID → ¬ d.2.Has ValueID → ValueLoads e.db ValueID
  | .onUpdateValue DeviceID ValueID =>
      ∀ d ∈ Devices, d.2.DeviceID = DeviceID → ∀ v ∈ d.2.Values, v.2.ValueID = ValueID →
        v.2.copies = true ∧ ∀ c, e.db.value ValueID = some c → c.InternalID = v.2.InternalID
  | .onDeleteValue ValueID =>
      ∀ d ∈ Devices, d.2.Has ValueID → ∀ d' ∈ Devices, d'.2.Has ValueID → d = d'
  | _ => True

/-! ### The invariant -/

/-- No key is a null pointer. -/
def Real {α : Type} (d : Dictionary PyText α) : Prop := ∀ e ∈ d, e.1 ≠ none

/-- Keys are right and no row is there twice. -/
structure Sound (Devices : Dictionary PyText CDevice) : Prop where
  real : Real Devices
  keyed : Devices.KeyedBy CDevice.InternalID
  distinct : Devices.Distinct CDevice.DeviceID
  values_real : ∀ e ∈ Devices, Real e.2.Values
  values_keyed : ∀ e ∈ Devices, e.2.Values.KeyedBy CValue.InternalID
  values_distinct : ∀ e ∈ Devices, e.2.Values.Distinct CValue.ValueID

theorem Sound.toKeyed {Devices : Dictionary PyText CDevice} (h : Sound Devices) : Keyed Devices :=
  ⟨h.keyed, h.values_keyed⟩

theorem Real.setItem {α : Type} {d : Dictionary PyText α} (h : Real d) {key : PyText}
    (hkey : key ≠ none) (a : α) : Real (d.setItem key a) := by
  intro e he
  rcases mem_setItem.mp he with rfl | ⟨he, -⟩
  · exact hkey
  · exact h e he

theorem addValueToDict_eq_some_iff {db : Database} {Values Values' : Dictionary PyText CValue}
    {ValueID : RowID} : addValueToDict db Values ValueID = some Values' ↔
      (loadValue db ValueID).InternalID ≠ none ∧
        Values' = Values.setItem (loadValue db ValueID).InternalID (loadValue db ValueID) := by
  rw [addValueToDict, Option.ite_none_left_eq_some, Option.some.injEq, eq_comm (b := Values')]

theorem addValueToDict_ne_none_iff (db : Database) (Values : Dictionary PyText CValue)
    (ValueID : RowID) : addValueToDict db Values ValueID ≠ none ↔ ValueLoads db ValueID := by
  have hor : (loadValue db ValueID).columns = db.value ValueID := Option.or_none
  rw [addValueToDict, Ne, ite_eq_left_iff, Classical.not_imp, CValue.InternalID, hor, ValueLoads]
  cases db.value ValueID with
  | none => simp
  | some c => simp

/-- What is kept of the Values of a Device. -/
structure SoundValues (Values : Dictionary PyText CValue) : Prop where
  real : Real Values
  keyed : Values.KeyedBy CValue.InternalID

theorem SoundValues.add {db : Database} {Values Values' : Dictionary PyText CValue}
    {ValueID : RowID} (h : SoundValues Values) (hadd : addValueToDict db Values ValueID = some Values') :
    SoundValues Values' := by
  obtain ⟨hne, rfl⟩ := addValueToDict_eq_some_iff.mp hadd
  exact ⟨h.real.setItem hne _, h.keyed.setItem _⟩

theorem addValueToDict_distinct {db : Database} {Values Values' : Dictionary PyText CValue}
    (h : Values.Distinct CValue.ValueID) {ValueID : RowID}
    (hnew : ∀ e ∈ Values, e.2.ValueID ≠ ValueID)
    (hadd : addValueToDict db Values ValueID = some Values') : Values'.Distinct CValue.ValueID := by
  obtain ⟨-, rfl⟩ := addValueToDict_eq_some_iff.mp hadd
  exact h.setItem hnew _

theorem mem_of_addValueToDict {db : Database} {Values Values' : Dictionary PyText CValue}
    {ValueID : RowID} (hadd : addValueToDict db Values ValueID = some Values')
    {e : PyText × CValue} (he : e ∈ Values') : e.2.ValueID = ValueID ∨ e ∈ Values := by
  obtain ⟨-, rfl⟩ := addValueToDict_eq_some_iff.mp hadd
  rcases mem_setItem.mp he with rfl | ⟨he, -⟩
  · exact .inl rfl
  · exact .inr he

section Folds

variable {α : Type} {add : Dictionary PyText α → RowID → Option (Dictionary PyText α)}

/-- A fold that adds objects of different numbers. -/
theorem foldlM_distinct (id : α → RowID) (I : Dictionary PyText α → Prop)
    (hadd : ∀ d i d', add d i = some d' → I d → d.Distinct id → (∀ e ∈ d, id e.2 ≠ i) →
      I d' ∧ d'.Distinct id)
    (hmem : ∀ d i d', add d i = some d' → ∀ e ∈ d', id e.2 = i ∨ e ∈ d) {ids : List RowID}
    (hids : ids.Nodup) {d d' : Dictionary PyText α} (hI : I d) (hd : d.Distinct id)
    (hnew : ∀ e ∈ d, id e.2 ∉ ids) (hfold : ids.foldlM add d = some d') :
    I d' ∧ d'.Distinct id := by
  induction ids generalizing d with
  | nil =>
    cases hfold
    exact ⟨hI, hd⟩
  | cons i ids ih =>
    rw [List.nodup_cons] at hids
    rw [List.foldlM_cons] at hfold
    obtain ⟨d₁, hd₁, hrest⟩ := Option.bind_eq_some_iff.mp hfold
    obtain ⟨hI', hd'⟩ :=
      hadd d i d₁ hd₁ hI hd fun e he heq => hnew e he (heq ▸ List.mem_cons_self)
    refine ih hids.2 hI' hd' (fun e he hmem' => ?_) hrest
    rcases hmem d i d₁ hd₁ e he with hi | he
    · exact hids.1 (hi ▸ hmem')
    · exact hnew e he (List.mem_cons_of_mem _ hmem')

/-- A fold is there if each of its steps is. -/
theorem foldlM_ne_none_iff {P : RowID → Prop} (hadd : ∀ d i, add d i ≠ none ↔ P i)
    (ids : List RowID) (d : Dictionary PyText α) : ids.foldlM add d ≠ none ↔ ∀ i ∈ ids, P i := by
  induction ids generalizing d with
  | nil => exact iff_of_true (Option.some_ne_none d) (List.forall_mem_nil _)
  | cons i ids ih =>
    rw [List.foldlM_cons, List.forall_mem_cons]
    cases hd : add d i with
    | none =>
      have hnot := mt (hadd d i).mpr (not_not.mpr hd)
      exact iff_of_false (fun h => h rfl) fun h => hnot h.1
    | some d' =>
      have hi := (hadd d i).mp (by rw [hd]; exact Option.some_ne_none d')
      rw [and_iff_right hi]
      exact ih d'

end Folds

theorem nodup_valuesToLoad (db : Database) (DeviceID : RowID) :
    (valuesToLoad db DeviceID).Nodup := by
  have hall : (db.valuesOf DeviceID).Nodup := by
    rw [Database.valuesOf, List.Nodup, List.pairwise_map]
    exact (db.values_sorted.sublist List.filter_sublist).imp fun h => ne_of_lt h
  rw [valuesToLoad]
  split
  · exact hall
  · exact hall.sublist (List.tail_sublist _)

theorem nodup_devicesOf (db : Database) (InterfaceID : RowID) :
    ((db.devices.filter (·.columns.InterfaceID = InterfaceID)).map DeviceRow.DeviceID).Nodup := by
  rw [List.Nodup, List.pairwise_map]
  exact (db.devices_sorted.sublist List.filter_sublist).imp fun h => ne_of_lt h

theorem loadValues_sound {db : Database} {DeviceID : RowID} {Values : Dictionary PyText CValue}
    (h : loadValues db DeviceID = some Values) :
    SoundValues Values ∧ Values.Distinct CValue.ValueID := by
  have hempty : SoundValues .empty := ⟨fun e he => absurd he (not_mem_empty e), keyedBy_empty⟩
  exact foldlM_distinct CValue.ValueID SoundValues
    (fun d i d' hadd hs hd hnew => ⟨hs.add hadd, addValueToDict_distinct hd hnew hadd⟩)
    (fun d i d' hadd e he => mem_of_addValueToDict hadd he) (nodup_valuesToLoad db DeviceID) hempty
    distinct_empty (fun e he => absurd he (not_mem_empty e)) h

/-- What `AddDeviceToDict` adds. -/
theorem exists_of_addDeviceToDict {db : Database} {Devices Devices' : Dictionary PyText CDevice}
    {DeviceID : RowID} (h : addDeviceToDict db Devices DeviceID = some Devices') :
    ∃ d : CDevice, d.DeviceID = DeviceID ∧ d.InternalID ≠ none ∧
      (SoundValues d.Values ∧ d.Values.Distinct CValue.ValueID) ∧
      Devices' = Devices.setItem d.InternalID d := by
  obtain ⟨d, hload, hset⟩ := Option.bind_eq_some_iff.mp h
  obtain ⟨hne, heq⟩ := Option.ite_none_left_eq_some.mp hset
  rw [loadDevice, Option.ite_none_right_eq_some] at hload
  obtain ⟨Values, hvalues, rfl⟩ := Option.map_eq_some_iff.mp hload.2
  exact ⟨_, rfl, hne, loadValues_sound hvalues, (Option.some.inj heq).symm⟩

theorem addDeviceToDict_ne_none_iff (db : Database) (Devices : Dictionary PyText CDevice)
    (DeviceID : RowID) : addDeviceToDict db Devices DeviceID ≠ none ↔ DeviceLoads db DeviceID := by
  have hvalues : loadValues db DeviceID ≠ none ↔
      ∀ ValueID ∈ valuesToLoad db DeviceID, ValueLoads db ValueID :=
    foldlM_ne_none_iff (addValueToDict_ne_none_iff db) _ _
  have hactive : ((db.device DeviceID).all fun c => !c.Active || c.updates) = true ↔
      ∀ c, db.device DeviceID = some c → c.Active = true → c.updates = true := by
    cases db.device DeviceID with
    | none => simp
    | some c =>
      rw [Option.all_some, Bool.or_eq_true, Bool.not_eq_true', ← Bool.not_eq_true, ← imp_iff_not_or]
      simp
  have hdevice (Values : Dictionary PyText CValue) :
      (⟨DeviceID, (db.device DeviceID).map fun c => { c with Active := false }, Values⟩ :
        CDevice).InternalID ≠ none ↔ ∀ c, db.device DeviceID = some c → c.InternalID ≠ none := by
    cases hd : db.device DeviceID with
    | none => simp [CDevice.InternalID]
    | some c => simp [CDevice.InternalID]
  unfold addDeviceToDict loadDevice
  by_cases ha : ((db.device DeviceID).all fun c => !c.Active || c.updates) = true
  · rw [if_pos ha]
    cases hv : loadValues db DeviceID with
    | none =>
      rw [hv] at hvalues
      exact iff_of_false (fun h => h rfl) fun h => hvalues.mpr h.values rfl
    | some Values =>
      have hall := hvalues.mp (by rw [hv]; exact Option.some_ne_none Values)
      rw [Option.map_some, Option.bind_some, Ne, ite_eq_left_iff, Classical.not_imp]
      constructor
      · rintro ⟨hne, -⟩
        exact ⟨(hdevice Values).mp hne, hactive.mp ha, hall⟩
      · rintro ⟨hd, -, -⟩
        exact ⟨(hdevice Values).mpr hd, Option.some_ne_none _⟩
  · rw [if_neg ha]
    exact iff_of_false (fun h => h rfl) fun h => ha (hactive.mpr h.active)

theorem Sound.addDeviceToDict {Devices Devices' : Dictionary PyText CDevice} (h : Sound Devices)
    {db : Database} {DeviceID : RowID} (hnew : ∀ e ∈ Devices, e.2.DeviceID ≠ DeviceID)
    (hadd : addDeviceToDict db Devices DeviceID = some Devices') : Sound Devices' := by
  obtain ⟨d, rfl, hne, ⟨hvalues, hdistinct⟩, rfl⟩ := exists_of_addDeviceToDict hadd
  refine ⟨h.real.setItem hne d, h.keyed.setItem d, h.distinct.setItem hnew _, ?_, ?_, ?_⟩
  · intro e he
    rcases mem_setItem.mp he with rfl | ⟨he, -⟩
    · exact hvalues.real
    · exact h.values_real e he
  · intro e he
    rcases mem_setItem.mp he with rfl | ⟨he, -⟩
    · exact hvalues.keyed
    · exact h.values_keyed e he
  · intro e he
    rcases mem_setItem.mp he with rfl | ⟨he, -⟩
    · exact hdistinct
    · exact h.values_distinct e he

theorem sound_empty : Sound .empty where
  real := fun e he => absurd he (not_mem_empty e)
  keyed := keyedBy_empty
  distinct := distinct_empty
  values_real := fun e he => absurd he (not_mem_empty e)
  values_keyed := fun e he => absurd he (not_mem_empty e)
  values_distinct := fun e he => absurd he (not_mem_empty e)

theorem sound_loadDevices {db : Database} {InterfaceID : RowID}
    {Devices : Dictionary PyText CDevice} (h : loadDevices db InterfaceID = some Devices) :
    Sound Devices := by
  refine (foldlM_distinct CDevice.DeviceID Sound ?_ ?_ (nodup_devicesOf db InterfaceID)
    sound_empty distinct_empty (fun e he => absurd he (not_mem_empty e)) h).1
  · intro d i d' hadd hs _ hnew
    have hsound := hs.addDeviceToDict hnew hadd
    exact ⟨hsound, hsound.distinct⟩
  · intro d i d' hadd e he
    obtain ⟨pDevice, rfl, -, -, rfl⟩ := exists_of_addDeviceToDict hadd
    rcases mem_setItem.mp he with rfl | ⟨he, -⟩
    · exact .inl rfl
    · exact .inr he

/-- A change of one Device keeps the invariant if it keeps it in this Device. -/
theorem Sound.modify {Devices : Dictionary PyText CDevice} (h : Sound Devices) {key : PyText}
    {d : CDevice} (hd : (key, d) ∈ Devices) {f : CDevice → CDevice}
    (hid : ∀ d, (f d).DeviceID = d.DeviceID) (hkey : (f d).InternalID = d.InternalID)
    (hreal : Real (f d).Values) (hkeyed : (f d).Values.KeyedBy CValue.InternalID)
    (hdistinct : (f d).Values.Distinct CValue.ValueID) : Sound (Devices.modify key f) where
  real := by
    intro e he
    rcases mem_modify.mp he with ⟨d', hd', rfl⟩ | ⟨he, -⟩
    · exact fun hkey => h.real _ hd' hkey
    · exact h.real e he
  keyed := (keyedBy_modify_iff h.keyed hd f).mpr hkey
  distinct := h.distinct.modify hid key
  values_real := by
    intro e he
    rcases mem_modify.mp he with ⟨d', hd', rfl⟩ | ⟨he, -⟩
    · rw [value_unique hd' hd]
      exact hreal
    · exact h.values_real e he
  values_keyed := by
    intro e he
    rcases mem_modify.mp he with ⟨d', hd', rfl⟩ | ⟨he, -⟩
    · rw [value_unique hd' hd]
      exact hkeyed
    · exact h.values_keyed e he
  values_distinct := by
    intro e he
    rcases mem_modify.mp he with ⟨d', hd', rfl⟩ | ⟨he, -⟩
    · rw [value_unique hd' hd]
      exact hdistinct
    · exact h.values_distinct e he

theorem Sound.erase {Devices : Dictionary PyText CDevice} (h : Sound Devices) (key : PyText) :
    Sound (Devices.erase key) where
  real := fun e he => h.real e (mem_erase.mp he).1
  keyed := h.keyed.erase key
  distinct := h.distinct.erase key
  values_real := fun e he => h.values_real e (mem_erase.mp he).1
  values_keyed := fun e he => h.values_keyed e (mem_erase.mp he).1
  values_distinct := fun e he => h.values_distinct e (mem_erase.mp he).1

/-! ### Updates -/

theorem CDevice.refresh_InternalID_iff (db : Database) (d : CDevice) :
    (d.refresh db).InternalID = d.InternalID ↔
      ∀ c, db.device d.DeviceID = some c → c.InternalID = d.InternalID := by
  unfold CDevice.refresh CDevice.InternalID
  cases db.device d.DeviceID with
  | none => simp
  | some c => simp

theorem CValue.refresh_InternalID_iff (db : Database) (v : CValue) :
    (v.refresh db).InternalID = v.InternalID ↔
      ∀ c, db.value v.ValueID = some c → c.InternalID = v.InternalID := by
  unfold CValue.refresh CValue.InternalID
  cases db.value v.ValueID with
  | none => simp
  | some c => simp

/-- The Device that is found, under the invariant. -/
theorem Sound.find_iff {Devices : Dictionary PyText CDevice} (h : Sound Devices) {DeviceID : RowID}
    {e : PyText × CDevice} :
    findDevice Devices DeviceID = some e ↔ e ∈ Devices ∧ e.2.DeviceID = DeviceID := by
  constructor
  · intro hf
    exact ⟨mem_of_find hf, by simpa using find_spec hf⟩
  · rintro ⟨he, hid⟩
    exact h.distinct.find_eq he hid

theorem find_none_iff {Devices : Dictionary PyText CDevice} {DeviceID : RowID} :
    findDevice Devices DeviceID = none ↔ ∀ e ∈ Devices, e.2.DeviceID ≠ DeviceID := by
  rw [findDevice, find_eq_none]
  simp only [decide_eq_true_iff, ne_eq]

/-- What a callback leaves. -/
theorem step_of_some {Devices : Dictionary PyText CDevice} {e : Event} {p : Processed}
    (h : processLocked e.db Devices e.callback = some p) : step Devices e = p.Devices := by
  rw [step, h, Option.elim_some]

/-- A callback that is survived, and leaves the invariant. -/
theorem holds_of_some {Devices : Dictionary PyText CDevice} {e : Event} {p : Processed}
    (h : processLocked e.db Devices e.callback = some p) (herror : p.keyError = false)
    (hsound : Sound p.Devices) (hexact : Exact Devices e) :
    Holds Devices e ∧ Sound (step Devices e) := by
  have hstep := step_of_some h
  refine ⟨⟨?_, ?_, hexact, ?_⟩, ?_⟩
  · rw [h]
    exact Option.some_ne_none p
  · rw [hstep]
    exact hsound.toKeyed
  · rw [h]
    rintro _ ⟨⟩
    exact herror
  · rw [hstep]
    exact hsound

/-- What a callback may do that changes no Device. -/
theorem holds_of_eq {Devices : Dictionary PyText CDevice} (h : Sound Devices) {e : Event}
    (heq : processLocked e.db Devices e.callback = some { Devices }) (hexact : Exact Devices e) :
    Holds Devices e ∧ Sound (step Devices e) := holds_of_some heq rfl h hexact

section Callbacks

variable {Devices : Dictionary PyText CDevice} (h : Sound Devices) (db : Database)

include h

theorem holds_onCreateDevice (DeviceID : RowID) :
    (Holds Devices ⟨db, .onCreateDevice DeviceID⟩ ↔ Steady Devices ⟨db, .onCreateDevice DeviceID⟩) ∧
      (Holds Devices ⟨db, .onCreateDevice DeviceID⟩ →
        Sound (step Devices ⟨db, .onCreateDevice DeviceID⟩)) := by
  cases hf : findDevice Devices DeviceID with
  | some e =>
    obtain ⟨hholds, hsound⟩ := holds_of_eq (e := ⟨db, .onCreateDevice DeviceID⟩) h
      (by simp only [processLocked, hf]) trivial
    refine ⟨iff_of_true hholds fun hnew => ?_, fun _ => hsound⟩
    obtain ⟨he, hid⟩ := h.find_iff.mp hf
    exact absurd hid (hnew e he)
  | none =>
    have hnew := find_none_iff.mp hf
    have hloads := addDeviceToDict_ne_none_iff db Devices DeviceID
    cases hadd : Objects.addDeviceToDict db Devices DeviceID with
    | none =>
      have hprocess : processLocked db Devices (.onCreateDevice DeviceID) = none := by
        simp only [processLocked, hf, hadd, Option.map_none]
      have hnot : ¬ Holds Devices ⟨db, .onCreateDevice DeviceID⟩ := fun hh => hh.survives hprocess
      rw [hadd] at hloads
      exact ⟨iff_of_false hnot fun hs => hloads.mpr (hs hnew) rfl, fun hh => absurd hh hnot⟩
    | some Devices' =>
      rw [hadd] at hloads
      obtain ⟨hholds, hsound⟩ := @holds_of_some Devices
        ⟨db, .onCreateDevice DeviceID⟩ ⟨Devices', loadWritten db DeviceID, false⟩
        (by simp only [processLocked, hf, hadd, Option.map_some]) rfl (h.addDeviceToDict hnew hadd)
        trivial
      exact ⟨iff_of_true hholds fun _ => hloads.mp (Option.some_ne_none _), fun _ => hsound⟩

theorem holds_onUpdateDevice (DeviceID : RowID) :
    (Holds Devices ⟨db, .onUpdateDevice DeviceID⟩ ↔ Steady Devices ⟨db, .onUpdateDevice DeviceID⟩) ∧
      (Holds Devices ⟨db, .onUpdateDevice DeviceID⟩ →
        Sound (step Devices ⟨db, .onUpdateDevice DeviceID⟩)) := by
  cases hf : findDevice Devices DeviceID with
  | none =>
    obtain ⟨hholds, hsound⟩ := holds_of_eq (e := ⟨db, .onUpdateDevice DeviceID⟩) h
      (by simp only [processLocked, hf]) trivial
    refine ⟨iff_of_true hholds fun d hd hid => ?_, fun _ => hsound⟩
    exact absurd hid (find_none_iff.mp hf d hd)
  | some e =>
    obtain ⟨key, d⟩ := e
    obtain ⟨hd, hid⟩ := h.find_iff.mp hf
    obtain rfl : d.DeviceID = DeviceID := hid
    have hsteady : Steady Devices ⟨db, .onUpdateDevice d.DeviceID⟩ ↔
        d.copies = true ∧ (d.refresh db).InternalID = d.InternalID := by
      rw [CDevice.refresh_InternalID_iff]
      constructor
      · intro hs
        exact hs (key, d) hd rfl
      · intro hs d' hd' hid'
        rw [h.distinct d' hd' _ hd hid']
        exact hs
    rw [hsteady]
    cases hcopies : d.copies with
    | false =>
      have hprocess : processLocked db Devices (.onUpdateDevice d.DeviceID) = none := by
        simp only [processLocked, hf, hcopies, Bool.false_eq_true, if_false]
      -- a text that is not UTF-8 ends the process
      have hnot : ¬ Holds Devices ⟨db, .onUpdateDevice d.DeviceID⟩ := fun hh => hh.survives hprocess
      exact ⟨iff_of_false hnot fun hs => Bool.false_ne_true hs.1, fun hh => absurd hh hnot⟩
    | true =>
      have hprocess : processLocked db Devices (.onUpdateDevice d.DeviceID) =
          some { Devices := Devices.modify key (CDevice.refresh db) } := by
        simp only [processLocked, hf, hcopies, if_true]
      have hholds (hs : (d.refresh db).InternalID = d.InternalID) :=
        holds_of_some (e := ⟨db, .onUpdateDevice d.DeviceID⟩) hprocess rfl
          (h.modify hd (fun _ => rfl) hs (h.values_real _ hd) (h.values_keyed _ hd)
            (h.values_distinct _ hd)) trivial
      -- the key stays, so the Device must still be keyed by it
      have hkept (hh : Holds Devices ⟨db, .onUpdateDevice d.DeviceID⟩) :
          (d.refresh db).InternalID = d.InternalID := by
        have hkeyed := hh.keyed.1
        rw [step_of_some (e := ⟨db, .onUpdateDevice d.DeviceID⟩) hprocess] at hkeyed
        exact (keyedBy_modify_iff h.keyed hd _).mp hkeyed
      exact ⟨⟨fun hh => ⟨rfl, hkept hh⟩, fun hs => (hholds hs.2).1⟩, fun hh => (hholds (hkept hh)).2⟩

theorem holds_onDeleteDevice (DeviceID : RowID) :
    Holds Devices ⟨db, .onDeleteDevice DeviceID⟩ ∧
      Sound (step Devices ⟨db, .onDeleteDevice DeviceID⟩) := by
  cases hf : findDevice Devices DeviceID with
  | none =>
    have hprocess : processLocked db Devices (.onDeleteDevice DeviceID) = some { Devices } := by
      simp only [processLocked, hf]
    refine holds_of_eq h hprocess ?_
    have hall : ∀ e ∈ Devices, decide (e.2.DeviceID ≠ DeviceID) = true :=
      fun e he => decide_eq_true (find_none_iff.mp hf e he)
    exact (step_of_some (e := ⟨db, .onDeleteDevice DeviceID⟩) hprocess).trans
      (filterValues_eq_self hall).symm
  | some e =>
    obtain ⟨key, d⟩ := e
    obtain ⟨hd, hid⟩ := h.find_iff.mp hf
    obtain rfl : d.DeviceID = DeviceID := hid
    have hkey : d.InternalID = key := h.keyed _ hd
    have hreal : d.InternalID ≠ none := by
      rw [hkey]
      exact h.real _ hd
    have hdel : Devices.delItem d.InternalID = some (Devices.erase d.InternalID) := by
      rw [hkey]
      exact delItem_of_mem hd
    have hprocess : processLocked db Devices (.onDeleteDevice d.DeviceID) =
        some { Devices := Devices.erase d.InternalID } := by
      simp only [processLocked, hf, hdel, if_neg hreal]
    refine holds_of_some (e := ⟨db, .onDeleteDevice d.DeviceID⟩) hprocess rfl (h.erase _) ?_
    exact (step_of_some (e := ⟨db, .onDeleteDevice d.DeviceID⟩) hprocess).trans
      (erase_keyed h.keyed h.distinct hd)

theorem holds_onCreateValue (DeviceID ValueID : RowID) :
    (Holds Devices ⟨db, .onCreateValue DeviceID ValueID⟩ ↔
        Steady Devices ⟨db, .onCreateValue DeviceID ValueID⟩) ∧
      (Holds Devices ⟨db, .onCreateValue DeviceID ValueID⟩ →
        Sound (step Devices ⟨db, .onCreateValue DeviceID ValueID⟩)) := by
  cases hf : findDevice Devices DeviceID with
  | none =>
    obtain ⟨hholds, hsound⟩ := holds_of_eq (e := ⟨db, .onCreateValue DeviceID ValueID⟩) h
      (by simp only [processLocked, hf]) trivial
    refine ⟨iff_of_true hholds fun d hd hid => ?_, fun _ => hsound⟩
    exact absurd hid (find_none_iff.mp hf d hd)
  | some e =>
    obtain ⟨key, d⟩ := e
    obtain ⟨hd, hid⟩ := h.find_iff.mp hf
    cases hv : d.findValue ValueID with
    | some v =>
      obtain ⟨hholds, hsound⟩ := holds_of_eq (e := ⟨db, .onCreateValue DeviceID ValueID⟩) h
        (by simp only [processLocked, hf, hv]) trivial
      refine ⟨iff_of_true hholds fun d' hd' hid' hhas => ?_, fun _ => hsound⟩
      obtain rfl := h.distinct d' hd' _ hd (hid'.trans hid.symm)
      exact absurd ⟨v, mem_of_find hv, by simpa using find_spec hv⟩ hhas
    | none =>
      have hnew : ∀ v ∈ d.Values, v.2.ValueID ≠ ValueID := by
        intro v hmem heq
        exact find_eq_none.mp hv v hmem (decide_eq_true heq)
      have hsteady : Steady Devices ⟨db, .onCreateValue DeviceID ValueID⟩ ↔
          ValueLoads db ValueID := by
        constructor
        · intro hs
          exact hs (key, d) hd hid fun ⟨v, hmem, heq⟩ => hnew v hmem heq
        · intro hs _ _ _ _
          exact hs
      rw [hsteady, ← addValueToDict_ne_none_iff db d.Values]
      cases hadd : addValueToDict db d.Values ValueID with
      | none =>
        have hprocess : processLocked db Devices (.onCreateValue DeviceID ValueID) = none := by
          simp only [processLocked, hf, hv, hadd, Option.map_none]
        have hnot : ¬ Holds Devices ⟨db, .onCreateValue DeviceID ValueID⟩ :=
          fun hh => hh.survives hprocess
        exact ⟨iff_of_false hnot fun hs => hs rfl, fun hh => absurd hh hnot⟩
      | some Values =>
        have hvalues := (SoundValues.mk (h.values_real _ hd) (h.values_keyed _ hd)).add hadd
        obtain ⟨hholds, hsound⟩ := @holds_of_some Devices
          ⟨db, .onCreateValue DeviceID ValueID⟩
          { Devices := Devices.modify key (CDevice.withValues fun _ => Values) }
          (by simp only [processLocked, hf, hv, hadd, Option.map_some]) rfl
          (h.modify hd (fun _ => rfl) rfl hvalues.real hvalues.keyed
            (addValueToDict_distinct (h.values_distinct _ hd) hnew hadd)) trivial
        exact ⟨iff_of_true hholds (Option.some_ne_none _), fun _ => hsound⟩

theorem holds_onUpdateValue (DeviceID ValueID : RowID) :
    (Holds Devices ⟨db, .onUpdateValue DeviceID ValueID⟩ ↔
        Steady Devices ⟨db, .onUpdateValue DeviceID ValueID⟩) ∧
      (Holds Devices ⟨db, .onUpdateValue DeviceID ValueID⟩ →
        Sound (step Devices ⟨db, .onUpdateValue DeviceID ValueID⟩)) := by
  cases hf : findDevice Devices DeviceID with
  | none =>
    obtain ⟨hholds, hsound⟩ := holds_of_eq (e := ⟨db, .onUpdateValue DeviceID ValueID⟩) h
      (by simp only [processLocked, hf]) trivial
    refine ⟨iff_of_true hholds fun d hd hid => ?_, fun _ => hsound⟩
    exact absurd hid (find_none_iff.mp hf d hd)
  | some e =>
    obtain ⟨key, d⟩ := e
    obtain ⟨hd, hid⟩ := h.find_iff.mp hf
    cases hv : d.findValue ValueID with
    | none =>
      obtain ⟨hholds, hsound⟩ := holds_of_eq (e := ⟨db, .onUpdateValue DeviceID ValueID⟩) h
        (by simp only [processLocked, hf, hv]) trivial
      refine ⟨iff_of_true hholds fun d' hd' hid' v hmem heq => ?_, fun _ => hsound⟩
      -- the Device of an identifier is the only one
      obtain rfl := h.distinct d' hd' _ hd (hid'.trans hid.symm)
      exact absurd (decide_eq_true heq) (find_eq_none.mp hv v hmem)
    | some e =>
      obtain ⟨valueKey, v⟩ := e
      have hmem : (valueKey, v) ∈ d.Values := mem_of_find hv
      have hvid : v.ValueID = ValueID := by simpa using find_spec hv
      subst hvid
      have hkeyed := h.values_keyed _ hd
      have hdistinct := h.values_distinct _ hd
      have hsteady : Steady Devices ⟨db, .onUpdateValue DeviceID v.ValueID⟩ ↔
          v.copies = true ∧ (v.refresh db).InternalID = v.InternalID := by
        rw [CValue.refresh_InternalID_iff]
        constructor
        · intro hs
          exact hs (key, d) hd hid (valueKey, v) hmem rfl
        · intro hs d' hd' hid' v' hmem' hvid'
          obtain rfl := h.distinct d' hd' _ hd (hid'.trans hid.symm)
          obtain rfl := hdistinct v' hmem' _ hmem hvid'
          exact hs
      rw [hsteady]
      cases hcopies : v.copies with
      | false =>
        have hprocess : processLocked db Devices (.onUpdateValue DeviceID v.ValueID) = none := by
          simp only [processLocked, hf, hv, hcopies, Bool.false_eq_true, if_false]
        -- a text that is not UTF-8 ends the process
        have hnot : ¬ Holds Devices ⟨db, .onUpdateValue DeviceID v.ValueID⟩ :=
          fun hh => hh.survives hprocess
        exact ⟨iff_of_false hnot fun hs => Bool.false_ne_true hs.1, fun hh => absurd hh hnot⟩
      | true =>
        let refreshed := CDevice.withValues fun Values => Values.modify valueKey (CValue.refresh db)
        have hprocess : processLocked db Devices (.onUpdateValue DeviceID v.ValueID) =
            some { Devices := Devices.modify key refreshed } := by
          simp only [processLocked, hf, hv, hcopies, if_true, refreshed]
        have hmodify := keyedBy_modify_iff hkeyed hmem (CValue.refresh db)
        have hreal : Real (d.Values.modify valueKey (CValue.refresh db)) := by
          intro e he
          rcases mem_modify.mp he with ⟨v', hv', rfl⟩ | ⟨he, -⟩
          · exact fun hkey => h.values_real _ hd _ hv' hkey
          · exact h.values_real _ hd e he
        have hholds (hs : (v.refresh db).InternalID = v.InternalID) :=
          holds_of_some (e := ⟨db, .onUpdateValue DeviceID v.ValueID⟩) hprocess rfl
            (h.modify hd (fun _ => rfl) rfl hreal (hmodify.mpr hs)
              (hdistinct.modify (f := CValue.refresh db) (fun _ => rfl) valueKey)) trivial
        -- the key stays, so the Value must still be keyed by it
        have hkept (hh : Holds Devices ⟨db, .onUpdateValue DeviceID v.ValueID⟩) :
            (v.refresh db).InternalID = v.InternalID := by
          have hvalues := hh.keyed.2
          rw [step_of_some (e := ⟨db, .onUpdateValue DeviceID v.ValueID⟩) hprocess] at hvalues
          exact hmodify.mp (hvalues (key, refreshed d) (mem_modify.mpr (.inl ⟨d, hd, rfl⟩)))
        exact ⟨⟨fun hh => ⟨rfl, hkept hh⟩, fun hs => (hholds hs.2).1⟩,
          fun hh => (hholds (hkept hh)).2⟩

end Callbacks

/-! ### Deleting a Value -/

/-- Where keys are right, the key that is found is that of the Value. -/
theorem keyToDelete_eq_some_iff {d : CDevice} (hkeyed : d.Values.KeyedBy CValue.InternalID)
    (hdistinct : d.Values.Distinct CValue.ValueID) (ValueID : RowID) (key : PyText) :
    d.keyToDelete ValueID = some key ↔ ∃ v, (key, v) ∈ d.Values ∧ v.ValueID = ValueID := by
  have hitem (e : PyText × CValue) (he : e ∈ d.Values) :
      e.2.InternalID = none ∨ (d.Values.getItem e.2.InternalID).isSome = true := by
    rw [hkeyed e he, Option.isSome_iff_exists]
    exact .inr ⟨e.2, getItem_eq_some.mpr he⟩
  constructor
  · intro h
    obtain ⟨e, hfind, rfl⟩ := Option.map_eq_some_iff.mp h
    have he := mem_of_find hfind
    have hspec := find_spec hfind
    rw [decide_eq_true_iff] at hspec
    refine ⟨e.2, ?_, hspec.1⟩
    rw [hkeyed e he]
    exact he
  · rintro ⟨v, hmem, hid⟩
    have hfind : (d.Values.find fun v => v.ValueID = ValueID ∧
        (v.InternalID = none ∨ (d.Values.getItem v.InternalID).isSome)) = some (key, v) := by
      refine find_of_unique hmem (decide_eq_true ⟨hid, hitem _ hmem⟩) fun e he hp => ?_
      exact hdistinct e he _ hmem ((of_decide_eq_true hp).1.trans hid.symm)
    rw [CDevice.keyToDelete, hfind]
    exact congrArg some (hkeyed _ hmem)

theorem without_eq_self {d : CDevice} {ValueID : RowID} (h : ¬ d.Has ValueID) :
    d.without ValueID = d := by
  have hall : ∀ e ∈ d.Values, decide (e.2.ValueID ≠ ValueID) = true :=
    fun e he => decide_eq_true fun heq => h ⟨e, he, heq⟩
  show { d with Values := d.Values.filterValues fun v => v.ValueID ≠ ValueID } = d
  rw [filterValues_eq_self hall]

theorem not_has_without (d : CDevice) (ValueID : RowID) : ¬ (d.without ValueID).Has ValueID := by
  rintro ⟨e, he, heq⟩
  exact of_decide_eq_true (mem_filterValues.mp he).2 heq

section Callbacks

variable {Devices : Dictionary PyText CDevice} (h : Sound Devices) (db : Database)

include h

theorem holds_onDeleteValue (ValueID : RowID) :
    (Holds Devices ⟨db, .onDeleteValue ValueID⟩ ↔ Steady Devices ⟨db, .onDeleteValue ValueID⟩) ∧
      Sound (step Devices ⟨db, .onDeleteValue ValueID⟩) := by
  have hkey (e : PyText × CDevice) (he : e ∈ Devices) (key : PyText) :=
    keyToDelete_eq_some_iff (h.values_keyed e he) (h.values_distinct e he) ValueID key
  cases hs : searchValue Devices ValueID with
  | none =>
    -- no Device has the Value, and the dictionary stays
    have hnone : ∀ e ∈ Devices, ¬ e.2.Has ValueID := by
      rintro e he ⟨⟨key, v⟩, hmem, hid⟩
      have hfound := List.findSome?_eq_none_iff.mp hs e he
      rw [(hkey e he key).mpr ⟨v, hmem, hid⟩] at hfound
      cases hfound
    have hprocess : processLocked db Devices (.onDeleteValue ValueID) = some { Devices } := by
      simp only [processLocked, hs]
    have hstep : step Devices ⟨db, .onDeleteValue ValueID⟩ = Devices :=
      step_of_some (e := ⟨db, .onDeleteValue ValueID⟩) hprocess
    have hexact : Exact Devices ⟨db, .onDeleteValue ValueID⟩ :=
      hstep.trans (mapValues_eq_self fun e he => without_eq_self (hnone e he)).symm
    obtain ⟨hholds, hsound⟩ := holds_of_eq (e := ⟨db, .onDeleteValue ValueID⟩) h hprocess hexact
    exact ⟨iff_of_true hholds fun d hd hhas => absurd hhas (hnone d hd), hsound⟩
  | some found =>
    obtain ⟨key, internalID⟩ := found
    obtain ⟨d, hd, v, hmem, hid⟩ : ∃ d, (key, d) ∈ Devices ∧
        ∃ v, (internalID, v) ∈ d.Values ∧ v.ValueID = ValueID := by
      obtain ⟨e, he, hfound⟩ := List.exists_of_findSome?_eq_some hs
      obtain ⟨k', hk', heq⟩ := Option.map_eq_some_iff.mp hfound
      cases heq
      exact ⟨e.2, he, (hkey e he _).mp hk'⟩
    subst hid
    have hinternal : v.InternalID = internalID := h.values_keyed _ hd _ hmem
    -- the first Device that has it loses it
    let erased := CDevice.withValues fun Values => Values.erase internalID
    have hne : internalID ≠ none := h.values_real _ hd _ hmem
    have hprocess : processLocked db Devices (.onDeleteValue v.ValueID) =
        some { Devices := Devices.modify key erased } := by
      simp only [processLocked, hs, if_neg hne, erased]
    have hstep : step Devices ⟨db, .onDeleteValue v.ValueID⟩ = Devices.modify key erased :=
      step_of_some (e := ⟨db, .onDeleteValue v.ValueID⟩) hprocess
    have herased : erased d = d.without v.ValueID := by
      have hfilter := erase_keyed (h.values_keyed _ hd) (h.values_distinct _ hd) hmem
      rw [hinternal] at hfilter
      show { d with Values := d.Values.erase internalID } = _
      rw [hfilter]
      rfl
    have hreal : Real (d.Values.erase internalID) :=
      fun e he => h.values_real _ hd e (mem_erase.mp he).1
    have hsound : Sound (Devices.modify key erased) :=
      h.modify hd (fun _ => rfl) rfl hreal ((h.values_keyed _ hd).erase _)
        ((h.values_distinct _ hd).erase _)
    have hhas : d.Has v.ValueID := ⟨_, hmem, rfl⟩
    refine ⟨⟨fun hh => ?_, fun hsteady => ?_⟩, hstep ▸ hsound⟩
    · -- a second Device with the Value keeps it
      have honly : ∀ d' ∈ Devices, d'.2.Has v.ValueID → d' = (key, d) := by
        intro d' hd' hhas'
        by_contra hne
        have hkey' : d'.1 ≠ key := by
          intro heq
          obtain ⟨k', d'⟩ := d'
          cases heq
          exact hne (by rw [value_unique hd' hd])
        have hstays : d' ∈ step Devices ⟨db, .onDeleteValue v.ValueID⟩ := by
          rw [hstep]
          exact mem_modify.mpr (.inr ⟨hd', hkey'⟩)
        rw [show step Devices ⟨db, .onDeleteValue v.ValueID⟩ = _ from hh.exact] at hstays
        obtain ⟨d'', -, heq⟩ := mem_mapValues.mp hstays
        rw [← heq] at hhas'
        exact not_has_without _ _ hhas'
      intro d' hd' hhas' d'' hd'' hhas''
      rw [honly d' hd' hhas', honly d'' hd'' hhas'']
    · refine (holds_of_some hprocess rfl hsound ?_).1
      refine hstep.trans (modify_eq_mapValues (fun d' hd' => ?_) fun e he hne => ?_)
      · rw [value_unique hd' hd]
        exact herased
      · refine without_eq_self fun hhas' => hne ?_
        rw [hsteady e he hhas' _ hd hhas]

end Callbacks

/-! ### Runs -/

theorem holds_iff {Devices : Dictionary PyText CDevice} (h : Sound Devices) (e : Event) :
    (Holds Devices e ↔ Steady Devices e) ∧ (Holds Devices e → Sound (step Devices e)) := by
  obtain ⟨db, callback⟩ := e
  cases callback with
  | onCreateDevice DeviceID => exact holds_onCreateDevice h db DeviceID
  | onUpdateDevice DeviceID => exact holds_onUpdateDevice h db DeviceID
  | onDeleteDevice DeviceID =>
    obtain ⟨hholds, hsound⟩ := holds_onDeleteDevice h db DeviceID
    exact ⟨iff_of_true hholds trivial, fun _ => hsound⟩
  | onCreateValue DeviceID ValueID => exact holds_onCreateValue h db DeviceID ValueID
  | onUpdateValue DeviceID ValueID => exact holds_onUpdateValue h db DeviceID ValueID
  | onDeleteValue ValueID =>
    obtain ⟨hholds, hsound⟩ := holds_onDeleteValue h db ValueID
    exact ⟨hholds, fun _ => hsound⟩

/-- **In all states of a run the keys are right and deletes are exact exactly if no update changes
an `InternalID`, no Value that is deleted is in two Devices, and the texts that are needed are
UTF-8.** -/
theorem dictionary_keyed_iff (db : Database) (InterfaceID : RowID) (events : List Event) :
    (∀ Devices ∈ loadDevices db InterfaceID, Throughout step Holds Devices events) ↔
      ∀ Devices ∈ loadDevices db InterfaceID, Throughout step Steady Devices events :=
  forall₂_congr fun _ hload =>
    throughout_congr_of_kept (I := Sound) (fun _ e hs => (holds_iff hs e).2)
      (fun _ e hs => (holds_iff hs e).1) (sound_loadDevices hload) events

/-! ### A Device that is renamed -/

/-- The tables with one Device. -/
def oneDevice (InternalID : String) : Database where
  devices :=
    [⟨1, ⟨1, some "Lamp", some InternalID, some "", false, false, false, some ""⟩⟩]
  values := []
  devices_sorted := List.pairwise_singleton _ _
  values_sorted := .nil

/-- A Device that is renamed stands under its old key, and is not removed when it is deleted. -/
theorem renamed_device_kept :
    ¬ ∀ (db : Database) (InterfaceID : RowID) (events : List Event),
      ∀ Devices ∈ loadDevices db InterfaceID, Throughout step Holds Devices events := by
  intro h
  have hload : (loadDevices (oneDevice "a") 1).isSome = true := by decide
  have herror : ∀ Devices ∈ loadDevices (oneDevice "a") 1,
      ¬ ∀ p ∈ processLocked (oneDevice "b")
        (step Devices ⟨oneDevice "b", .onUpdateDevice 1⟩) (.onDeleteDevice 1),
          p.keyError = false := by decide
  obtain ⟨-, hdelete, -⟩ := h (oneDevice "a") 1
    [⟨oneDevice "b", .onUpdateDevice 1⟩, ⟨oneDevice "b", .onDeleteDevice 1⟩] _
    (Option.get_mem hload)
  exact herror _ (Option.get_mem hload) hdelete.noError

end Domoticz.Objects
