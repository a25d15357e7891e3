import Mathlib.Data.List.Chain
import Mathlib.Data.List.Range
import Mathlib.Tactic

/-!
# The main loop

`MainWorker::Do_Work` waits for half a second and works in every second pass.  Minutely and hourly
jobs are due when the minute or the hour of the local time differs from the last one served and
the last time is long enough ago.  A check of all hardware collects what has been silent for too
long, and the next working pass restarts it.

## Main definitions

* `Worker`, `Pass`, `Job` — the variables, what a pass finds, and what it does.
* `pass`, `run` — the loop.
* `seconds` — the passes that work.
* `Paced` — a clock that does not go back and takes at most fifteen seconds from pass to pass.

## Main results

* `jobs_served` — what every step keeps holds of the jobs of a run.
* `minutes_served` — **every minute is served once**, in any zone that is shifted by whole hours.
* `hours_served` — **every hour and every midnight is served once.**
* `restarts_eq` — **what is restarted is what a check has found silent**, once.
-/

namespace Domoticz.Schedule

/-! ### The loop -/

/-- What the loop does. -/
inductive Job
  | startDomoticzHardware
  | restartHardware (interfaceID : ℤ)
  | tzset
  | removeExpiredData
  | scheduleShortlog
  /-- The user name and the password are cleared. -/
  | resetPassword
  | handleLogNotifications
  | getSunSettings
  | scheduleDay
  | isUpdateAvailable
  | handleAutomaticBackups
  | heartbeatCheck
  deriving DecidableEq

/-- What `HeartbeatCheck` reads of an interface. -/
structure Hardware where
  interfaceID : ℤ
  skipReceiveCheck : Bool
  dataTimeout : ℤ
  lastHeartbeatReceive : ℤ

/-- What a pass of the loop finds. -/
structure Pass where
  atime : ℤ
  /-- The clock as the check of the hardware reads it. -/
  now : ℤ
  hardware : List Hardware
  /-- Whether there is a row for an interface. -/
  known : ℤ → Bool
  /-- Whether there is a file `resetpwd`. -/
  resetFile : Bool
  notificationLogsEnabled : Bool

/-- The variables of the loop. -/
structure Worker where
  startHardware : Bool
  hardwareStartCounter : ℕ
  devicesToRestart : List ℤ
  scheduleLastMinute : ℤ
  scheduleLastHour : ℤ
  scheduleLastMinuteTime : ℤ
  scheduleLastHourTime : ℤ
  scheduleLastDayTime : ℤ
  forceLogNotificationCheck : Bool
  secondCounter : ℕ
  heartbeatCounter : ℕ

/-- The hardware of which nothing was received for too long. -/
def silent (p : Pass) : List ℤ :=
  (p.hardware.filter fun h => !h.skipReceiveCheck && decide (0 < h.dataTimeout) &&
    decide (h.dataTimeout < p.now - h.lastHeartbeatReceive) && p.known h.interfaceID).map
      Hardware.interfaceID

section Loop

-- local time less UTC, as `localtime_r` knows it
variable (offset : ℤ → ℤ)

/-- `tm_min` of the local time. -/
def tmMin (t : ℤ) : ℤ := (t + offset t) / 60 % 60

/-- `tm_hour` of the local time. -/
def tmHour (t : ℤ) : ℤ := (t + offset t) / 3600 % 24

/-- The constructor at some time, and what `AddAllDomoticzHardware` leaves. -/
def start (t : ℤ) (startHardware : Bool) : Worker where
  startHardware := startHardware
  hardwareStartCounter := 0
  devicesToRestart := []
  scheduleLastMinute := tmMin offset t
  scheduleLastHour := tmHour offset t
  scheduleLastMinuteTime := 0
  scheduleLastHourTime := 0
  scheduleLastDayTime := 0
  forceLogNotificationCheck := false
  secondCounter := 0
  heartbeatCounter := 0

/-- The start of the hardware. -/
def starting (w : Worker) : Worker × List Job :=
  if w.startHardware then
    let w := { w with hardwareStartCounter := w.hardwareStartCounter + 1 }
    if 2 ≤ w.hardwareStartCounter then
      ({ w with startHardware := false }, [.startDomoticzHardware])
    else (w, [])
  else (w, [])

/-- The interfaces that are to be restarted are, if they still have a row. -/
def restarting (p : Pass) (w : Worker) : Worker × List Job :=
  ({ w with devicesToRestart := [] },
    (w.devicesToRestart.filter p.known).map .restartHardware)

/-- What is done in a new minute. -/
def serveMinute (p : Pass) (w : Worker) : Worker × List Job :=
  let min := tmMin offset p.atime
  if p.atime - w.scheduleLastMinuteTime > 30 then
    ({ w with scheduleLastMinuteTime := p.atime, scheduleLastMinute := min },
      [.tzset] ++ (if min % 3 = 0 then [.removeExpiredData] else []) ++
        (if min % 10 = 0 then [.scheduleShortlog] else []) ++
        (if p.resetFile then [.resetPassword] else []))
  else (w, [])

/-- The check of the notifications about the log, every five minutes or when it is asked for. -/
def notifyLogs (p : Pass) (w : Worker) : Worker × List Job :=
  if p.notificationLogsEnabled ∧
      (tmMin offset p.atime % 5 = 0 ∨ w.forceLogNotificationCheck) then
    ({ w with forceLogNotificationCheck := false }, [.handleLogNotifications])
  else (w, [])

/-- What is due when the minute has changed. -/
def minutely (p : Pass) (w : Worker) : Worker × List Job :=
  if tmMin offset p.atime ≠ w.scheduleLastMinute then
    let r₁ := serveMinute offset p w
    let r₂ := notifyLogs offset p r₁.1
    (r₂.1, r₁.2 ++ r₂.2)
  else (w, [])

/-- The schedule of the day is due: it is the hour of midnight, and twelve hours since the last. -/
def DayDue (p : Pass) (w : Worker) : Prop :=
  tmHour offset p.atime = 0 ∧ p.atime - w.scheduleLastDayTime > 12 * 60 * 60

instance (p : Pass) (w : Worker) : Decidable (DayDue offset p w) :=
  inferInstanceAs (Decidable (_ ∧ _))

/-- The schedule of the hour is due: the hour has changed, and half an hour has gone by. -/
def HourDue (p : Pass) (w : Worker) : Prop :=
  tmHour offset p.atime ≠ w.scheduleLastHour ∧ p.atime - w.scheduleLastHourTime > 30 * 60

instance (p : Pass) (w : Worker) : Decidable (HourDue offset p w) :=
  inferInstanceAs (Decidable (_ ∧ _))

/-- What is due when the hour has changed. -/
def hourly (p : Pass) (w : Worker) : Worker × List Job :=
  let hour := tmHour offset p.atime
  if HourDue offset p w then
    let w := { w with scheduleLastHourTime := p.atime, scheduleLastHour := hour }
    let r : Worker × List Job :=
      if DayDue offset p w then ({ w with scheduleLastDayTime := p.atime }, [.scheduleDay])
      else (w, [])
    (r.1, [.getSunSettings] ++ r.2 ++
      (if hour = 5 ∨ hour = 17 then [.isUpdateAvailable] else []) ++ [.handleAutomaticBackups])
  else (w, [])

/-- The check of the hardware, in every fourteenth working pass. -/
def heartbeat (p : Pass) (w : Worker) : Worker × List Job :=
  if 12 < w.heartbeatCounter then
    ({ w with heartbeatCounter := 0, devicesToRestart := silent p }, [.heartbeatCheck])
  else ({ w with heartbeatCounter := w.heartbeatCounter + 1 }, [])

/-- A pass that works. -/
def work (p : Pass) (w : Worker) : Worker × List Job :=
  let r₁ := starting w
  let r₂ := restarting p r₁.1
  let r₃ := minutely offset p r₂.1
  let r₄ := hourly offset p r₃.1
  let r₅ := heartbeat p r₄.1
  (r₅.1, r₁.2 ++ r₂.2 ++ r₃.2 ++ r₄.2 ++ r₅.2)

/-- A pass of the loop. -/
def pass (p : Pass) (w : Worker) : Worker × List Job :=
  if w.secondCounter + 1 < 2 then ({ w with secondCounter := w.secondCounter + 1 }, [])
  else work offset p { w with secondCounter := 0 }

/-- Passes one after the other, and the jobs with their times. -/
def run : List Pass → Worker → Worker × List (ℤ × Job)
  | [], w => (w, [])
  | p :: ps, w =>
      let r := pass offset p w
      let rest := run ps r.1
      (rest.1, r.2.map (p.atime, ·) ++ rest.2)

/-- The passes that work. -/
def seconds : List Pass → List Pass
  | _ :: p :: ps => p :: seconds ps
  | _ => []

/-- Only passes that work. -/
def runSeconds : List Pass → Worker → Worker × List (ℤ × Job)
  | [], w => (w, [])
  | p :: ps, w =>
      let r := work offset p w
      let rest := runSeconds ps r.1
      (rest.1, r.2.map (p.atime, ·) ++ rest.2)

/-! ### A pass that works -/

/-- The schedule of the minute is due. -/
def MinuteDue (p : Pass) (w : Worker) : Prop :=
  tmMin offset p.atime ≠ w.scheduleLastMinute ∧ p.atime - w.scheduleLastMinuteTime > 30

instance (p : Pass) (w : Worker) : Decidable (MinuteDue offset p w) :=
  inferInstanceAs (Decidable (_ ∧ _))

/-- What a due minute depends on. -/
def lastMinute (w : Worker) : ℤ × ℤ := (w.scheduleLastMinute, w.scheduleLastMinuteTime)

/-- What a due hour and a due day depend on. -/
def lastHour (w : Worker) : ℤ × ℤ × ℤ :=
  (w.scheduleLastHour, w.scheduleLastHourTime, w.scheduleLastDayTime)

variable {offset}

section Parts

variable (p : Pass) (w : Worker)

theorem keeps_starting : lastMinute (starting w).1 = lastMinute w ∧
    lastHour (starting w).1 = lastHour w := by
  unfold starting
  dsimp only
  split_ifs <;> exact ⟨rfl, rfl⟩

theorem keeps_heartbeat : lastMinute (heartbeat p w).1 = lastMinute w ∧
    lastHour (heartbeat p w).1 = lastHour w := by
  unfold heartbeat
  split_ifs <;> exact ⟨rfl, rfl⟩

theorem keeps_notifyLogs : lastMinute (notifyLogs offset p w).1 = lastMinute w ∧
    lastHour (notifyLogs offset p w).1 = lastHour w := by
  unfold notifyLogs
  split_ifs <;> exact ⟨rfl, rfl⟩

theorem lastHour_minutely : lastHour (minutely offset p w).1 = lastHour w := by
  unfold minutely
  split_ifs
  · dsimp only
    rw [(keeps_notifyLogs p _).2, serveMinute]
    split <;> rfl
  · rfl

theorem lastMinute_hourly : lastMinute (hourly offset p w).1 = lastMinute w := by
  unfold hourly
  dsimp only
  split_ifs <;> rfl

theorem lastMinute_minutely : lastMinute (minutely offset p w).1 =
    if MinuteDue offset p w then (tmMin offset p.atime, p.atime) else lastMinute w := by
  by_cases hmin : tmMin offset p.atime ≠ w.scheduleLastMinute
  · rw [minutely, if_pos hmin]
    dsimp only
    rw [(keeps_notifyLogs p _).1, serveMinute]
    by_cases htime : p.atime - w.scheduleLastMinuteTime > 30
    · have hdue : MinuteDue offset p w := ⟨hmin, htime⟩
      rw [if_pos htime, if_pos hdue]
      rfl
    · have hdue : ¬ MinuteDue offset p w := fun h => htime h.2
      rw [if_neg htime, if_neg hdue]
  · have hdue : ¬ MinuteDue offset p w := fun h => hmin h.1
    rw [minutely, if_neg hmin, if_neg hdue]

theorem lastHour_hourly : lastHour (hourly offset p w).1 =
    if HourDue offset p w then
      (tmHour offset p.atime, p.atime,
        if DayDue offset p w then p.atime else w.scheduleLastDayTime)
    else lastHour w := by
  unfold hourly
  dsimp only
  split
  · have hday : DayDue offset p
        { w with scheduleLastHourTime := p.atime, scheduleLastHour := tmHour offset p.atime } ↔
          DayDue offset p w := Iff.rfl
    by_cases h : DayDue offset p w
    · rw [if_pos (hday.mpr h), if_pos h]
      rfl
    · rw [if_neg (hday.not.mpr h), if_neg h]
      rfl
  · rfl

section Congr

variable {p w} {w' : Worker}

theorem minuteDue_congr (h : lastMinute w = lastMinute w') :
    MinuteDue offset p w ↔ MinuteDue offset p w' := by
  simp only [lastMinute, Prod.mk.injEq] at h
  simp only [MinuteDue, h.1, h.2]

theorem hourDue_congr (h : lastHour w = lastHour w') :
    HourDue offset p w ↔ HourDue offset p w' := by
  simp only [lastHour, Prod.mk.injEq] at h
  simp only [HourDue, h.1, h.2.1]

theorem dayDue_congr (h : lastHour w = lastHour w') :
    DayDue offset p w ↔ DayDue offset p w' := by
  simp only [lastHour, Prod.mk.injEq] at h
  simp only [DayDue, h.2.2]

end Congr

/-- What the minutes find. -/
theorem keeps_restarting : lastMinute (restarting p (starting w).1).1 = lastMinute w ∧
    lastHour (restarting p (starting w).1).1 = lastHour w := keeps_starting w

/-- What the hours find. -/
theorem keeps_minutely :
    lastHour (minutely offset p (restarting p (starting w).1).1).1 = lastHour w :=
  (lastHour_minutely p _).trans (keeps_restarting p w).2

theorem lastMinute_work : lastMinute (work offset p w).1 =
    if MinuteDue offset p w then (tmMin offset p.atime, p.atime) else lastMinute w := by
  have hfound := (keeps_restarting p w).1
  rw [work]
  dsimp only
  rw [(keeps_heartbeat p _).1, lastMinute_hourly, lastMinute_minutely, hfound]
  exact if_congr (minuteDue_congr hfound) rfl rfl

theorem lastHour_work : lastHour (work offset p w).1 =
    if HourDue offset p w then
      (tmHour offset p.atime, p.atime,
        if DayDue offset p w then p.atime else w.scheduleLastDayTime)
    else lastHour w := by
  have hfound := @keeps_minutely offset p w
  have hday := congrArg (·.2.2) hfound
  dsimp only [lastHour] at hday
  rw [work]
  dsimp only
  rw [(keeps_heartbeat p _).2, lastHour_hourly, hfound, hday]
  simp only [hourDue_congr hfound, dayDue_congr hfound]

/-! #### The jobs -/

/-- The minutes of an hour that a job is for. -/
def atMinute : Job → ℤ → Bool
  | .tzset, _ => true
  | .removeExpiredData, min => min % 3 = 0
  | .scheduleShortlog, min => min % 10 = 0
  | _, _ => false

/-- The hours of a day that a job is for. -/
def atHour : Job → ℤ → Bool
  | .getSunSettings, _ => true
  | .handleAutomaticBackups, _ => true
  | .isUpdateAvailable, hour => hour = 5 ∨ hour = 17
  | .scheduleDay, hour => hour = 0
  | _, _ => false

theorem mem_starting {j : Job} (h : j ∈ (starting w).2) : j = .startDomoticzHardware := by
  unfold starting at h
  dsimp only at h
  split_ifs at h
  · exact List.mem_singleton.mp h
  · cases h
  · cases h

theorem mem_heartbeat {j : Job} (h : j ∈ (heartbeat p w).2) : j = .heartbeatCheck := by
  unfold heartbeat at h
  split_ifs at h
  · exact List.mem_singleton.mp h
  · cases h

theorem mem_restarting {j : Job} (h : j ∈ (restarting p w).2) : ∃ i, j = .restartHardware i := by
  obtain ⟨i, -, rfl⟩ := List.mem_map.mp h
  exact ⟨i, rfl⟩

theorem count_minutely {j : Job} (hj : j ∈ [.tzset, .removeExpiredData, .scheduleShortlog]) :
    (minutely offset p w).2.count j =
      if MinuteDue offset p w ∧ atMinute j (tmMin offset p.atime) then 1 else 0 := by
  have hnotify : (notifyLogs offset p (serveMinute offset p w).1).2.count j = 0 := by
    unfold notifyLogs
    split_ifs
    · fin_cases hj <;> rfl
    · rfl
  by_cases hmin : tmMin offset p.atime ≠ w.scheduleLastMinute
  · rw [minutely, if_pos hmin]
    dsimp only
    rw [List.count_append, hnotify, Nat.add_zero, serveMinute]
    by_cases htime : p.atime - w.scheduleLastMinuteTime > 30
    · have hdue : MinuteDue offset p w := ⟨hmin, htime⟩
      simp only [if_pos htime, hdue, true_and]
      simp only [List.mem_cons, List.not_mem_nil, or_false] at hj
      rcases hj with rfl | rfl | rfl
      · simp only [atMinute]
        split_ifs <;> rfl
      · simp only [atMinute, decide_eq_true_eq]
        split_ifs <;> rfl
      · simp only [atMinute, decide_eq_true_eq]
        split_ifs <;> rfl
    · have hdue : ¬ MinuteDue offset p w := fun h => htime h.2
      rw [if_neg htime, if_neg fun h => hdue h.1]
      rfl
  · have hdue : ¬ MinuteDue offset p w := fun h => hmin h.1
    rw [minutely, if_neg hmin, if_neg fun h => hdue h.1]
    rfl

theorem count_hourly {j : Job}
    (hj : j ∈ [.getSunSettings, .scheduleDay, .isUpdateAvailable, .handleAutomaticBackups]) :
    (hourly offset p w).2.count j =
      if HourDue offset p w ∧ (j = .scheduleDay → DayDue offset p w) ∧
        atHour j (tmHour offset p.atime) then 1 else 0 := by
  by_cases hdue : HourDue offset p w
  · have hday : DayDue offset p
        { w with scheduleLastHourTime := p.atime, scheduleLastHour := tmHour offset p.atime } ↔
          DayDue offset p w := Iff.rfl
    rw [hourly, if_pos hdue]
    simp only [hdue, true_and, hday]
    simp only [List.mem_cons, List.not_mem_nil, or_false] at hj
    rcases hj with rfl | rfl | rfl | rfl
    · simp only [atHour, reduceCtorEq, false_implies, true_and]
      split_ifs <;> rfl
    · have hzero : DayDue offset p w → tmHour offset p.atime = 0 := And.left
      simp only [atHour, true_implies, decide_eq_true_eq]
      split_ifs <;> first | rfl | (exfalso; tauto)
    · simp only [atHour, reduceCtorEq, false_implies, true_and, decide_eq_true_eq]
      split_ifs <;> rfl
    · simp only [atHour, reduceCtorEq, false_implies, true_and]
      split_ifs <;> rfl
  · rw [hourly, if_neg hdue, if_neg fun h => hdue h.1]
    rfl

theorem mem_minutely {j : Job} (h : j ∈ (minutely offset p w).2) :
    j ∈ [.tzset, .removeExpiredData, .scheduleShortlog, .resetPassword,
      .handleLogNotifications] := by
  have hserve : (serveMinute offset p w).2 ⊆
      [.tzset, .removeExpiredData, .scheduleShortlog, .resetPassword] := by
    unfold serveMinute
    dsimp only
    split_ifs <;> simp
  have hnotify (w' : Worker) : (notifyLogs offset p w').2 ⊆ [.handleLogNotifications] := by
    unfold notifyLogs
    split_ifs <;> simp
  unfold minutely at h
  split_ifs at h
  · rcases List.mem_append.mp h with h | h
    · exact List.mem_append_left [.handleLogNotifications] (hserve h)
    · exact List.mem_append_right [.tzset, .removeExpiredData, .scheduleShortlog, .resetPassword]
        (hnotify _ h)
  · cases h

theorem mem_hourly {j : Job} (h : j ∈ (hourly offset p w).2) :
    j ∈ [.getSunSettings, .scheduleDay, .isUpdateAvailable, .handleAutomaticBackups] := by
  have hsubset : (hourly offset p w).2 ⊆
      [.getSunSettings, .scheduleDay, .isUpdateAvailable, .handleAutomaticBackups] := by
    unfold hourly
    dsimp only
    split_ifs <;> simp
  exact hsubset h

/-- The jobs of the minutes in a working pass. -/
theorem count_minute_work {j : Job}
    (hj : j ∈ [.tzset, .removeExpiredData, .scheduleShortlog]) :
    (work offset p w).2.count j =
      if MinuteDue offset p w ∧ atMinute j (tmMin offset p.atime) then 1 else 0 := by
  have hstart : (starting w).2.count j = 0 := List.count_eq_zero.mpr fun h => by
    rw [mem_starting w h] at hj
    simp at hj
  have hrestart : (restarting p (starting w).1).2.count j = 0 := List.count_eq_zero.mpr fun h => by
    obtain ⟨i, rfl⟩ := mem_restarting p _ h
    simp at hj
  have hhour : (hourly offset p (minutely offset p (restarting p (starting w).1).1).1).2.count j =
      0 := List.count_eq_zero.mpr fun h => by
    have hmem := mem_hourly p _ h
    fin_cases hj <;> simp at hmem
  have hheart (w' : Worker) : (heartbeat p w').2.count j = 0 := List.count_eq_zero.mpr fun h => by
    rw [mem_heartbeat p _ h] at hj
    simp at hj
  rw [work]
  simp only [List.count_append, hstart, hrestart, hhour, hheart, zero_add, add_zero]
  rw [count_minutely p _ hj]
  simp only [minuteDue_congr (keeps_restarting p w).1]

/-- The jobs of the hours in a working pass. -/
theorem count_hour_work {j : Job}
    (hj : j ∈ [.getSunSettings, .scheduleDay, .isUpdateAvailable, .handleAutomaticBackups]) :
    (work offset p w).2.count j =
      if HourDue offset p w ∧ (j = .scheduleDay → DayDue offset p w) ∧
        atHour j (tmHour offset p.atime) then 1 else 0 := by
  have hstart : (starting w).2.count j = 0 := List.count_eq_zero.mpr fun h => by
    rw [mem_starting w h] at hj
    simp at hj
  have hrestart : (restarting p (starting w).1).2.count j = 0 := List.count_eq_zero.mpr fun h => by
    obtain ⟨i, rfl⟩ := mem_restarting p _ h
    simp at hj
  have hminute : (minutely offset p (restarting p (starting w).1).1).2.count j = 0 :=
      List.count_eq_zero.mpr fun h => by
    have hmem := mem_minutely p _ h
    fin_cases hj <;> simp at hmem
  have hheart (w' : Worker) : (heartbeat p w').2.count j = 0 := List.count_eq_zero.mpr fun h => by
    rw [mem_heartbeat p _ h] at hj
    simp at hj
  rw [work]
  simp only [List.count_append, hstart, hrestart, hminute, hheart, zero_add, add_zero]
  rw [count_hourly p _ hj]
  simp only [hourDue_congr (keeps_minutely p w), dayDue_congr (keeps_minutely p w)]

end Parts

/-! ### Runs -/

/-- The times at which a job is done. -/
def times (j : Job) (log : List (ℤ × Job)) : List ℤ :=
  (log.filter (·.2 = j)).map Prod.fst

/-- The numbers above `a` up to `b`. -/
def between (a b : ℤ) : List ℤ := (List.range (b - a).toNat).map fun i : ℕ => a + 1 + i

/-- The clock does not go back, and it takes at most `k` seconds from pass to pass. -/
def Paced (k t : ℤ) (ps : List Pass) : Prop :=
  (t :: ps.map Pass.atime).IsChain fun s t => s ≤ t ∧ t ≤ s + k

/-- The time of the last pass. -/
def lastTime (t : ℤ) : List Pass → ℤ
  | [] => t
  | p :: ps => lastTime p.atime ps

theorem between_self (a : ℤ) : between a a = [] := by
  rw [between, sub_self]
  rfl

theorem between_succ {a b : ℤ} (h : a + 1 ≤ b) : between a b = (a + 1) :: between (a + 1) b := by
  have hsplit : (b - a).toNat = (b - (a + 1)).toNat + 1 := by omega
  rw [between, between, hsplit, List.range_succ_eq_map, List.map_cons, List.map_map]
  refine congrArg₂ _ (by simp) (List.map_congr_left fun i _ => ?_)
  simp only [Function.comp_apply, Nat.succ_eq_add_one]
  push_cast
  ring

theorem times_append (j : Job) (log log' : List (ℤ × Job)) :
    times j (log ++ log') = times j log ++ times j log' := by
  rw [times, List.filter_append, List.map_append]
  rfl

theorem times_of_pass (j : Job) (t : ℤ) (jobs : List Job) :
    times j (jobs.map (t, ·)) = List.replicate (jobs.count j) t := by
  induction jobs with
  | nil => rfl
  | cons j' jobs ih =>
    rw [times] at ih
    rw [times, List.map_cons, List.filter_cons, List.count_cons]
    by_cases h : j' = j
    · subst h
      rw [if_pos (by simp), List.map_cons, ih, if_pos (by simp), List.replicate_succ]
    · rw [if_neg (by simpa using h), ih, if_neg (by simpa using h), Nat.add_zero]

theorem le_lastTime {k t : ℤ} {ps : List Pass} (h : Paced k t ps) : t ≤ lastTime t ps := by
  induction ps generalizing t with
  | nil => exact le_rfl
  | cons p ps ih =>
    obtain ⟨⟨hle, -⟩, hrest⟩ := List.isChain_cons_cons.mp h
    exact hle.trans (ih hrest)

/-- What every working pass keeps holds of a run: if a pass is one index ahead of the last at most,
and the job is done in the passes that are ahead, then it is done once for each index.  The
induction is on the passes. -/
theorem jobs_served {j : Job} (index : ℤ → ℤ) (hmono : ∀ s t, s ≤ t → index s ≤ index t)
    {due : ℤ → Bool} (Inv : ℤ → Worker → Prop)
    (hstep : ∀ t p w, Inv t w → t ≤ p.atime → p.atime ≤ t + 30 →
      Inv p.atime (work offset p w).1 ∧
        (index p.atime = index t ∧ (work offset p w).2.count j = 0 ∨
          index p.atime = index t + 1 ∧
            (work offset p w).2.count j = if due (index p.atime) then 1 else 0))
    {ps : List Pass} {t : ℤ} {w : Worker} (hinv : Inv t w) (hpaced : Paced 30 t ps) :
    (times j (runSeconds offset ps w).2).map index =
      (between (index t) (index (lastTime t ps))).filter due := by
  induction ps generalizing t w with
  | nil =>
    rw [lastTime, between_self]
    rfl
  | cons p ps ih =>
    obtain ⟨⟨hle, hlt⟩, hrest⟩ := List.isChain_cons_cons.mp hpaced
    obtain ⟨hinv', hcase⟩ := hstep t p w hinv hle hlt
    have hge := hmono _ _ (le_lastTime hrest)
    rw [runSeconds]
    dsimp only
    rw [times_append, List.map_append, ih hinv' hrest, times_of_pass, List.map_replicate, lastTime]
    rcases hcase with ⟨hsame, hcount⟩ | ⟨hnext, hcount⟩
    · rw [hcount, hsame]
      rfl
    · rw [hnext] at hge
      rw [hcount, hnext, @between_succ (index t) _ hge, List.filter_cons]
      split <;> rfl

theorem secondCounter_work (p : Pass) (w : Worker) :
    (work offset p w).1.secondCounter = w.secondCounter := by
  have hstart : (starting w).1.secondCounter = w.secondCounter := by
    unfold starting
    dsimp only
    split_ifs <;> rfl
  have hminute (w : Worker) : (minutely offset p w).1.secondCounter = w.secondCounter := by
    have hserve : (serveMinute offset p w).1.secondCounter = w.secondCounter := by
      unfold serveMinute
      dsimp only
      split <;> rfl
    unfold minutely
    split
    · dsimp only
      rw [← hserve, notifyLogs]
      split <;> rfl
    · rfl
  have hhour (w : Worker) : (hourly offset p w).1.secondCounter = w.secondCounter := by
    unfold hourly
    dsimp only
    split_ifs <;> rfl
  have hheart (w : Worker) : (heartbeat p w).1.secondCounter = w.secondCounter := by
    unfold heartbeat
    split <;> rfl
  rw [work]
  dsimp only
  rw [hheart, hhour, hminute]
  exact hstart

/-- Every second pass works; the induction takes two passes at a time. -/
theorem log_run (ps : List Pass) {w : Worker} (hw : w.secondCounter = 0) :
    (run offset ps w).2 = (runSeconds offset (seconds ps) w).2 := by
  induction ps using seconds.induct generalizing w with
  | case1 q p ps ih =>
    have hsame : { w with secondCounter := 0 } = w := by rw [← hw]
    have hfirst : pass offset q w = ({ w with secondCounter := 1 }, []) := by
      rw [pass, hw]
      rfl
    have hsecond : pass offset p { w with secondCounter := 1 } = work offset p w := by
      rw [pass, if_neg (by show ¬ 1 + 1 < 2; decide)]
      exact congrArg _ hsame
    rw [run, run, hfirst]
    dsimp only
    rw [hsecond, seconds, runSeconds]
    dsimp only
    rw [List.map_nil, List.nil_append, ih ((secondCounter_work p w).trans hw)]
  | case2 ps hps =>
    cases ps with
    | nil => rfl
    | cons q ps =>
      cases ps with
      | nil =>
        rw [run, pass, hw]
        rfl
      | cons p ps => exact absurd rfl (hps q p ps)

/-- Working passes are twice as far apart. -/
theorem Paced.seconds {k t : ℤ} {ps : List Pass} (h : Paced k t ps) :
    Paced (2 * k) t (seconds ps) := by
  induction ps using Schedule.seconds.induct generalizing t with
  | case1 q p ps ih =>
    obtain ⟨⟨hle, hlt⟩, hrest⟩ := List.isChain_cons_cons.mp h
    obtain ⟨⟨hle', hlt'⟩, hrest'⟩ := List.isChain_cons_cons.mp hrest
    rw [Schedule.seconds]
    exact List.isChain_cons_cons.mpr ⟨⟨hle.trans hle', by linarith⟩, ih hrest'⟩
  | case2 ps hps =>
    cases ps with
    | nil => exact List.isChain_singleton t
    | cons q ps =>
      cases ps with
      | nil => exact List.isChain_singleton t
      | cons p ps => exact absurd rfl (hps q p ps)

/-! ### Minutes and hours -/

/-- The last minute was served in its first half. -/
structure MinuteServed (c t : ℤ) (w : Worker) : Prop where
  minute : w.scheduleLastMinute = (t + c) / 60 % 60
  time : w.scheduleLastMinuteTime + c < 60 * ((t + c) / 60) + 30

/-- The last hour was served in its first half minute, and so was the last day. -/
structure HourServed (c t : ℤ) (w : Worker) : Prop where
  hour : w.scheduleLastHour = (t + c) / 3600 % 24
  time : w.scheduleLastHourTime + c < 3600 * ((t + c) / 3600) + 30
  day : w.scheduleLastDayTime + c < 86400 * ((t + c) / 86400) + 30

/-- A minute is due as soon as it has begun. -/
theorem minuteServed_work {c : ℤ} (hzone : ∀ t, offset t % 3600 = c % 3600) {t : ℤ} {p : Pass}
    {w : Worker} (h : MinuteServed c t w) (hle : t ≤ p.atime) (hlt : p.atime ≤ t + 30) :
    MinuteServed c p.atime (work offset p w).1 ∧
      ((p.atime + c) / 60 = (t + c) / 60 ∧ ¬ MinuteDue offset p w ∨
        (p.atime + c) / 60 = (t + c) / 60 + 1 ∧ MinuteDue offset p w) := by
  obtain ⟨hminute, htime⟩ := h
  have hmin : tmMin offset p.atime = (p.atime + c) / 60 % 60 := by
    have hz := hzone p.atime
    rw [tmMin]
    omega
  have hlast := @lastMinute_work offset p w
  by_cases hnew : (p.atime + c) / 60 = (t + c) / 60
  · have hdue : ¬ MinuteDue offset p w := fun hdue => hdue.1 (by rw [hmin, hminute, hnew])
    rw [if_neg hdue] at hlast
    have hlast₁ : (work offset p w).1.scheduleLastMinute = _ := congrArg Prod.fst hlast
    have hlast₂ : (work offset p w).1.scheduleLastMinuteTime = _ := congrArg Prod.snd hlast
    refine ⟨⟨?_, ?_⟩, .inl ⟨hnew, hdue⟩⟩
    · rw [hlast₁, hnew]
      exact hminute
    · rw [hlast₂, hnew]
      exact htime
  · have hdue : MinuteDue offset p w := by
      refine ⟨?_, by omega⟩
      rw [hmin, hminute]
      omega
    rw [if_pos hdue] at hlast
    have hlast₁ : (work offset p w).1.scheduleLastMinute = _ := congrArg Prod.fst hlast
    have hlast₂ : (work offset p w).1.scheduleLastMinuteTime = _ := congrArg Prod.snd hlast
    refine ⟨⟨hlast₁.trans hmin, ?_⟩, .inr ⟨by omega, hdue⟩⟩
    rw [hlast₂]
    dsimp only
    omega

/-- An hour is due as soon as it has begun, and so is a day. -/
theorem hourServed_work {c : ℤ} (hzone : ∀ t, offset t = c) {t : ℤ} {p : Pass} {w : Worker}
    (h : HourServed c t w) (hle : t ≤ p.atime) (hlt : p.atime ≤ t + 30) :
    HourServed c p.atime (work offset p w).1 ∧
      ((p.atime + c) / 3600 = (t + c) / 3600 ∧ ¬ HourDue offset p w ∨
        (p.atime + c) / 3600 = (t + c) / 3600 + 1 ∧ HourDue offset p w ∧
          (tmHour offset p.atime = 0 → DayDue offset p w)) := by
  obtain ⟨hhour, htime, hday⟩ := h
  have htm : tmHour offset p.atime = (p.atime + c) / 3600 % 24 := by rw [tmHour, hzone]
  have hlast := @lastHour_work offset p w
  by_cases hnew : (p.atime + c) / 3600 = (t + c) / 3600
  · -- the hour has been served before
    have hdue : ¬ HourDue offset p w := fun hdue => hdue.1 (by rw [htm, hhour, hnew])
    rw [if_neg hdue] at hlast
    have hlast₁ : (work offset p w).1.scheduleLastHour = _ := congrArg Prod.fst hlast
    have hlast₂ : (work offset p w).1.scheduleLastHourTime = _ := congrArg (·.2.1) hlast
    have hlast₃ : (work offset p w).1.scheduleLastDayTime = _ := congrArg (·.2.2) hlast
    refine ⟨⟨?_, ?_, ?_⟩, .inl ⟨hnew, hdue⟩⟩
    · rw [hlast₁, hnew]
      exact hhour
    · rw [hlast₂, hnew]
      exact htime
    · rw [hlast₃]
      dsimp only [lastHour]
      omega
  · have hdue : HourDue offset p w := by
      refine ⟨?_, by omega⟩
      rw [htm, hhour]
      omega
    -- a pass comes within 30 s, so no hour is left out
    have hnext : (p.atime + c) / 3600 = (t + c) / 3600 + 1 := by omega
    have hmidnight : tmHour offset p.atime = 0 → DayDue offset p w := by
      intro hzero
      refine ⟨hzero, ?_⟩
      rw [htm] at hzero
      omega
    rw [if_pos hdue] at hlast
    have hlast₁ : (work offset p w).1.scheduleLastHour = _ := congrArg Prod.fst hlast
    have hlast₂ : (work offset p w).1.scheduleLastHourTime = _ := congrArg (·.2.1) hlast
    have hlast₃ : (work offset p w).1.scheduleLastDayTime = _ := congrArg (·.2.2) hlast
    refine ⟨⟨hlast₁.trans htm, ?_, ?_⟩, .inr ⟨hnext, hdue, hmidnight⟩⟩
    · rw [hlast₂]
      dsimp only
      omega
    · rw [hlast₃]
      dsimp only
      split
      · next hdue' =>
        have hzero := hdue'.1
        rw [htm] at hzero
        omega
      · omega

/-- **Every minute is served once, as soon as it has begun**, in a zone that is shifted by whole
hours only. -/
theorem minutes_served {c t₀ : ℤ} (hzone : ∀ t, offset t % 3600 = c % 3600)
    (hclock : 24 * 60 * 60 ≤ t₀) (startHardware : Bool) {ps : List Pass} (hpaced : Paced 15 t₀ ps)
    {j : Job} (hj : j ∈ [.tzset, .removeExpiredData, .scheduleShortlog]) :
    (times j (run offset ps (start offset t₀ startHardware)).2).map (fun t => (t + c) / 60) =
      (between ((t₀ + c) / 60) ((lastTime t₀ (seconds ps) + c) / 60)).filter fun m =>
        atMinute j (m % 60) := by
  rw [log_run _ rfl]
  refine jobs_served (fun t => (t + c) / 60) ?_ (MinuteServed c) ?_ ?_
    hpaced.seconds
  · intro s t hst
    omega
  · intro t p w hinv hle hlt
    obtain ⟨hinv', hcase⟩ := minuteServed_work hzone hinv hle hlt
    refine ⟨hinv', ?_⟩
    have hmin : tmMin offset p.atime = (p.atime + c) / 60 % 60 := by
      have hz := hzone p.atime
      rw [tmMin]
      omega
    rcases hcase with ⟨hsame, hdue⟩ | ⟨hnext, hdue⟩
    · exact .inl ⟨hsame, (count_minute_work p w hj).trans (if_neg fun h => hdue h.1)⟩
    · refine .inr ⟨hnext, (count_minute_work p w hj).trans ?_⟩
      simp only [hdue, true_and, hmin]
  · constructor
    · have hz := hzone t₀
      show tmMin offset t₀ = _
      rw [tmMin]
      omega
    · show 0 + c < _
      omega

/-- **Every hour and every midnight is served once**, in a zone that is not shifted. -/
theorem hours_served {c t₀ : ℤ} (hzone : ∀ t, offset t = c) (hclock : 24 * 60 * 60 ≤ t₀)
    (startHardware : Bool) {ps : List Pass} (hpaced : Paced 15 t₀ ps) {j : Job}
    (hj : j ∈ [.getSunSettings, .scheduleDay, .isUpdateAvailable, .handleAutomaticBackups]) :
    (times j (run offset ps (start offset t₀ startHardware)).2).map (fun t => (t + c) / 3600) =
      (between ((t₀ + c) / 3600) ((lastTime t₀ (seconds ps) + c) / 3600)).filter fun h =>
        atHour j (h % 24) := by
  rw [log_run _ rfl]
  refine jobs_served (fun t => (t + c) / 3600) ?_ (HourServed c) ?_ ?_
    hpaced.seconds
  · intro s t hst
    omega
  · intro t p w hinv hle hlt
    obtain ⟨hinv', hcase⟩ := hourServed_work hzone hinv hle hlt
    refine ⟨hinv', ?_⟩
    have htm : tmHour offset p.atime = (p.atime + c) / 3600 % 24 := by rw [tmHour, hzone]
    rcases hcase with ⟨hsame, hdue⟩ | ⟨hnext, hdue, hmidnight⟩
    · exact .inl ⟨hsame, (count_hour_work p w hj).trans (if_neg fun h => hdue h.1)⟩
    · refine .inr ⟨hnext, (count_hour_work p w hj).trans ?_⟩
      rw [htm] at hmidnight ⊢
      refine if_congr ⟨fun h => h.2.2, fun h => ⟨hdue, ?_, h⟩⟩ rfl rfl
      rintro rfl
      exact hmidnight (of_decide_eq_true h)
  · refine ⟨?_, ?_, ?_⟩
    · show tmHour offset t₀ = _
      rw [tmHour, hzone]
    · show 0 + c < _
      omega
    · show 0 + c < _
      omega

/-- A minute that begins with the second pass, an hour east of Greenwich. -/
theorem minutes_served_once :
    let ps : List Pass := [⟨86445, 86445, [], fun _ => true, false, false⟩,
      ⟨86460, 86460, [], fun _ => true, false, false⟩]
    (times .tzset (run (fun _ => 3600) ps (start (fun _ => 3600) 86435 false)).2).map
        (fun t => (t + 3600) / 60) =
      (between ((86435 + 3600) / 60) ((lastTime 86435 (seconds ps) + 3600) / 60)).filter fun m =>
        atMinute .tzset (m % 60) := by
  refine minutes_served (fun _ => rfl) (by decide) false ?_ (by decide)
  exact List.isChain_cons_cons.mpr ⟨by decide, List.isChain_cons_cons.mpr
    ⟨by decide, List.isChain_singleton _⟩⟩

/-- A midnight. -/
theorem hours_served_midnight :
    let ps : List Pass := [⟨172795, 172795, [], fun _ => true, false, false⟩,
      ⟨172800, 172800, [], fun _ => true, false, false⟩]
    (times .scheduleDay (run (fun _ => 0) ps (start (fun _ => 0) 172790 false)).2).map
        (fun t => (t + 0) / 3600) =
      (between ((172790 + 0) / 3600) ((lastTime 172790 (seconds ps) + 0) / 3600)).filter fun h =>
        atHour .scheduleDay (h % 24) := by
  refine hours_served (fun _ => rfl) (by decide) false ?_ (by decide)
  exact List.isChain_cons_cons.mpr ⟨by decide, List.isChain_cons_cons.mpr
    ⟨by decide, List.isChain_singleton _⟩⟩

/-! ### Silent hardware -/

/-- The interface that a job restarts. -/
def Job.restartedID? : Job → Option ℤ
  | .restartHardware i => some i
  | _ => none

/-- What is restarted, in the order of the restarts. -/
def restarted (log : List (ℤ × Job)) : List ℤ := log.filterMap fun e => e.2.restartedID?

/-- What is found silent in every fourteenth pass, and still known in the next one. -/
def foundSilent : ℕ → List Pass → List ℤ
  | n, p :: q :: ps =>
      (if n % 14 = 13 then (silent p).filter q.known else []) ++ foundSilent (n + 1) (q :: ps)
  | _, _ => []

/-- The counter of the checks, and what has been found since the last restarts. -/
structure Counts (n : ℕ) (pending : List ℤ) (w : Worker) : Prop where
  heartbeatCounter : w.heartbeatCounter = n % 14
  devicesToRestart : w.devicesToRestart = pending

theorem counts_work {n : ℕ} {pending : List ℤ} (p : Pass) {w : Worker} (h : Counts n pending w) :
    Counts (n + 1) (if n % 14 = 13 then silent p else []) (work offset p w).1 ∧
      (work offset p w).2.filterMap Job.restartedID? = pending.filter p.known := by
  obtain ⟨hcounter, hpending⟩ := h
  -- only the last part touches the counter and the list of interfaces
  have hstart : (starting w).1.heartbeatCounter = w.heartbeatCounter ∧
      (starting w).1.devicesToRestart = w.devicesToRestart := by
    unfold starting
    dsimp only
    split_ifs <;> exact ⟨rfl, rfl⟩
  have hminute (w : Worker) : (minutely offset p w).1.heartbeatCounter = w.heartbeatCounter ∧
      (minutely offset p w).1.devicesToRestart = w.devicesToRestart := by
    have hserve : (serveMinute offset p w).1.heartbeatCounter = w.heartbeatCounter ∧
        (serveMinute offset p w).1.devicesToRestart = w.devicesToRestart := by
      unfold serveMinute
      dsimp only
      split <;> exact ⟨rfl, rfl⟩
    unfold minutely
    split
    · dsimp only
      rw [← hserve.1, ← hserve.2, notifyLogs]
      split <;> exact ⟨rfl, rfl⟩
    · exact ⟨rfl, rfl⟩
  have hhour (w : Worker) : (hourly offset p w).1.heartbeatCounter = w.heartbeatCounter ∧
      (hourly offset p w).1.devicesToRestart = w.devicesToRestart := by
    unfold hourly
    dsimp only
    split_ifs <;> exact ⟨rfl, rfl⟩
  have hnone {jobs : List Job} (hjobs : ∀ j ∈ jobs, j.restartedID? = none) :
      jobs.filterMap Job.restartedID? = [] := List.filterMap_eq_nil_iff.mpr hjobs
  constructor
  · rw [work]
    dsimp only
    generalize hw : (hourly offset p (minutely offset p (restarting p (starting w).1).1).1).1 = w'
    -- the heartbeat comes last, with the counter of the pass before
    have hcounter' : w'.heartbeatCounter = n % 14 := by
      rw [← hw, (hhour _).1, (hminute _).1]
      exact hstart.1.trans hcounter
    have hpending' : w'.devicesToRestart = [] := by
      rw [← hw, (hhour _).2, (hminute _).2]
      rfl
    unfold heartbeat
    by_cases hlast : n % 14 = 13
    · rw [if_pos hlast, if_pos (show 12 < w'.heartbeatCounter by omega)]
      exact ⟨by show 0 = _; omega, rfl⟩
    · rw [if_neg hlast, if_neg (show ¬ 12 < w'.heartbeatCounter by omega)]
      exact ⟨by show _ + 1 = _; omega, hpending'⟩
  · rw [work]
    dsimp only
    -- the other parts restart nothing
    have hstartJobs : (starting w).2.filterMap Job.restartedID? = [] :=
      hnone fun j hj => by rw [mem_starting w hj]; rfl
    have hminuteJobs (w' : Worker) : (minutely offset p w').2.filterMap Job.restartedID? = [] :=
      hnone fun j hj => by
        have hmem := mem_minutely p w' hj
        fin_cases hmem <;> rfl
    have hhourJobs (w' : Worker) : (hourly offset p w').2.filterMap Job.restartedID? = [] :=
      hnone fun j hj => by
        have hmem := mem_hourly p w' hj
        fin_cases hmem <;> rfl
    have hheartJobs (w' : Worker) : (heartbeat p w').2.filterMap Job.restartedID? = [] :=
      hnone fun j hj => by rw [mem_heartbeat p w' hj]; rfl
    simp only [List.filterMap_append, hstartJobs, hminuteJobs, hhourJobs, hheartJobs,
      List.nil_append, List.append_nil]
    rw [restarting, hstart.2, hpending, List.filterMap_map]
    exact List.filterMap_some

/-- The induction is on the passes. -/
theorem restarted_runSeconds {n : ℕ} {pending : List ℤ} {ps : List Pass} {w : Worker}
    (h : Counts n pending w) : restarted (runSeconds offset ps w).2 =
      (ps.head?.elim [] fun p => pending.filter p.known) ++ foundSilent n ps := by
  induction ps generalizing n pending w with
  | nil => rfl
  | cons p ps ih =>
    obtain ⟨hcounts, hrestarted⟩ := @counts_work offset _ _ p _ h
    have hrest := ih hcounts
    rw [restarted] at hrest
    rw [restarted, runSeconds]
    dsimp only
    rw [List.filterMap_append, List.filterMap_map, hrest]
    refine congrArg₂ _ hrestarted ?_
    cases ps with
    | nil => rfl
    | cons q ps =>
      rw [foundSilent]
      refine congrArg (· ++ _) ?_
      show List.filter q.known _ = _
      split <;> rfl

/-- **What is restarted is what every fourteenth working pass has found silent**, in the next
working pass and only there. -/
theorem restarts_eq (t₀ : ℤ) (startHardware : Bool) (ps : List Pass) :
    restarted (run offset ps (start offset t₀ startHardware)).2 = foundSilent 0 (seconds ps) := by
  have hcounts : Counts 0 [] (start offset t₀ startHardware) := ⟨rfl, rfl⟩
  rw [log_run _ rfl, restarted_runSeconds hcounts]
  cases seconds ps <;> rfl

end Loop

end Domoticz.Schedule
