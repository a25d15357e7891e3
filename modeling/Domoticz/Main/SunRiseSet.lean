import Domoticz.CLib.Rounding
import Mathlib.Data.Rat.Floor

/-!
# Rise and set of the sun on the clock

`GetSunRiseSet` takes the times of a day in UTC to the time zone, and rounds them to minutes.  The
offset of the zone is cut to whole hours, a time is wrapped once and not at midnight itself, a
minute that is rounded up to 60 is carried in two of the nine times only, and noon is the mean of a
rise and a set that were wrapped before.

The numbers are exact.

## Main definitions

* `Almanac` — what is computed with sines and cosines.
* `utcToLocal`, `getSunRiseSet` — the functions.
* `localClock`, `Shown` — the local time on a clock, and that the results are that.
* `Clear` — the times for which they are.

## Main results

* `hourMin_eq_clock_iff`, `fixed_eq_clock_iff` — when hour and minute are a time on the clock.
* `shown_iff` — **the results are local times exactly for these.**
* `half_hour_lost` — times for which they are not.
-/

namespace Domoticz.SunRiseSet

open CLib

/-! ### The functions -/

/-- An hour and a minute of the results. -/
structure HourMin where
  Hour : ℤ
  Min : ℤ
  deriving DecidableEq, Repr

/-- The start and the end of a twilight. -/
structure Twilight where
  Start : HourMin
  End : HourMin
  deriving DecidableEq, Repr

/-- `_tSubRiseSetResults`. -/
structure Results where
  latit : ℚ
  longit : ℚ
  year : ℤ
  month : ℤ
  day : ℤ
  SunRise : HourMin
  SunSet : HourMin
  Daylength : HourMin
  SunAtSouth : HourMin
  CivilTwilight : Twilight
  NauticalTwilight : Twilight
  AstronomicalTwilight : Twilight

/-- The way of the sun to an altitude: the return code of `__sunriset__`, and the hours between the
south and the altitude. -/
structure Arc where
  rc : ℤ
  t : ℚ
  t_nonneg : 0 ≤ t
  t_le : t ≤ 12
  /-- The sun passes the altitude, or is always above or below it. -/
  passes : rc = 0 ∨ (rc = 1 ∧ t = 12) ∨ (rc = -1 ∧ t = 0)

/-- What is computed with sines and cosines, for a date and a place.  The time at which the sun is
at south does not depend on the altitude. -/
structure Almanac where
  tsouth : (year month day : ℤ) → (lon : ℚ) → ℚ
  arc : (year month day : ℤ) → (lon lat altit : ℚ) → (upper_limb : Bool) → Arc
  daylen : (year month day : ℤ) → (lon lat altit : ℚ) → (upper_limb : Bool) → ℚ
  tsouth_nonneg : ∀ year month day lon, 0 ≤ tsouth year month day lon
  tsouth_le : ∀ year month day lon, tsouth year month day lon ≤ 24

/-- What `__sunriset__` returns: whether the sun rises and sets, and the times in UTC. -/
structure Sunriset where
  rc : ℤ
  trise : ℚ
  tset : ℚ

/-- `__sunriset__`. -/
def Almanac.sunriset (a : Almanac) (year month day : ℤ) (lon lat altit : ℚ) (upper_limb : Bool) :
    Sunriset where
  rc := (a.arc year month day lon lat altit upper_limb).rc
  trise := a.tsouth year month day lon - (a.arc year month day lon lat altit upper_limb).t
  tset := a.tsouth year month day lon + (a.arc year month day lon lat altit upper_limb).t

/-- `boost::posix_time::time_duration`, as it is between two zones. -/
structure UtcOffset where
  /-- Microseconds. -/
  ticks : ℤ
  lower : -12 * 3600000000 ≤ ticks
  upper : ticks ≤ 14 * 3600000000

/-- The offset in hours, by a division of integers. -/
def UtcOffset.timezone (uoffset : UtcOffset) : ℤ := uoffset.ticks.tdiv 3600000000

/-- `UtcToLocal`. -/
def utcToLocal (time tz : ℚ) : ℚ :=
  let time := time + tz
  if time > 24 then time - 24 else if time < 0 then time + 24 else time

/-- The whole hours of a time, and the rest rounded to minutes. -/
def hourMin (time : ℚ) : HourMin := ⟨(modf time).2, roundAway ((modf time).1 * 60)⟩

/-- What is done to the rise and the set about a rounding issue. -/
def HourMin.fixed (p : HourMin) : HourMin := if p.Min > 59 then ⟨(p.Hour + 1).tmod 24, 0⟩ else p

/-- The start and the end of a twilight, which are zero if there is none. -/
def twilight (s : Sunriset) (tz : ℚ) : Twilight :=
  if s.rc = 0 then ⟨hourMin (utcToLocal s.trise tz), hourMin (utcToLocal s.tset tz)⟩
  else ⟨⟨0, 0⟩, ⟨0, 0⟩⟩

/-- `GetSunRiseSet`. -/
def getSunRiseSet (a : Almanac) (uoffset : UtcOffset) (latit longit : ℚ) (year month day : ℤ) :
    Results :=
  let timezone : ℚ := uoffset.timezone
  let rs := a.sunriset year month day longit latit (-35 / 60) true
  let civ := a.sunriset year month day longit latit (-6) false
  let naut := a.sunriset year month day longit latit (-12) false
  let astr := a.sunriset year month day longit latit (-18) false
  let rise := utcToLocal rs.trise timezone
  let set := utcToLocal rs.tset timezone
  { latit, longit, year, month, day
    Daylength := hourMin (a.daylen year month day longit latit (-35 / 60) true)
    SunAtSouth := hourMin ((rise + set) / 2)
    SunRise := if rs.rc = 0 then (hourMin rise).fixed else ⟨0, 0⟩
    SunSet := if rs.rc = 0 then (hourMin set).fixed else ⟨0, 0⟩
    CivilTwilight := twilight civ timezone
    NauticalTwilight := twilight naut timezone
    AstronomicalTwilight := twilight astr timezone }

/-! ### Clocks -/

/-- A number of minutes on a clock. -/
def clock (minutes : ℤ) : HourMin := ⟨minutes % 1440 / 60, minutes % 60⟩

/-- A time in UTC as local time, rounded to the nearest minute, on a clock. -/
def localClock (uoffset : UtcOffset) (utc : ℚ) : HourMin :=
  clock (round (60 * (utc + uoffset.ticks / 3600000000)))

/-- An hour and a minute that a clock shows. -/
def HourMin.Valid (p : HourMin) : Prop := 0 ≤ p.Hour ∧ p.Hour < 24 ∧ 0 ≤ p.Min ∧ p.Min < 60

/-- The start and the end of a twilight are local times. -/
structure Twilight.Shown (uoffset : UtcOffset) (s : Sunriset) (p : Twilight) : Prop where
  start : p.Start = localClock uoffset s.trise
  stop : p.End = localClock uoffset s.tset
  start_valid : p.Start.Valid
  stop_valid : p.End.Valid

/-- The results are local times. -/
structure Shown (a : Almanac) (uoffset : UtcOffset) (latit longit : ℚ) (year month day : ℤ)
    (r : Results) : Prop where
  sunRise : r.SunRise =
    localClock uoffset (a.sunriset year month day longit latit (-35 / 60) true).trise
  sunSet : r.SunSet =
    localClock uoffset (a.sunriset year month day longit latit (-35 / 60) true).tset
  sunAtSouth : r.SunAtSouth = localClock uoffset (a.tsouth year month day longit)
  valid : r.SunRise.Valid ∧ r.SunSet.Valid ∧ r.SunAtSouth.Valid
  civil : r.CivilTwilight.Shown uoffset (a.sunriset year month day longit latit (-6) false)
  nautical : r.NauticalTwilight.Shown uoffset (a.sunriset year month day longit latit (-12) false)
  astronomical :
    r.AstronomicalTwilight.Shown uoffset (a.sunriset year month day longit latit (-18) false)

/-! ### The times that are shown as they should be -/

/-- What the division leaves of the offset, in hours. -/
def UtcOffset.dropped (uoffset : UtcOffset) : ℚ := uoffset.ticks.tmod 3600000000 / 3600000000

/-- What is dropped does not change the minute. -/
def MinuteKept (uoffset : UtcOffset) (utc : ℚ) : Prop :=
  round (60 * (utc + uoffset.dropped)) = round (60 * utc)

/-- The time is not a half minute or less before the full hour. -/
def NotCarried (utc : ℚ) : Prop := 120 * Int.fract utc < 119

/-- A time that is not fixed: one day is enough, and midnight is not hit. -/
structure TimeClear (uoffset : UtcOffset) (utc : ℚ) : Prop where
  kept : MinuteKept uoffset utc
  midnight : utc + uoffset.timezone ≠ 24
  day : utc + uoffset.timezone < 48
  carried : NotCarried utc

/-- A time that is fixed. -/
structure FixedClear (uoffset : UtcOffset) (utc : ℚ) : Prop where
  kept : MinuteKept uoffset utc
  midnight : utc + uoffset.timezone ≠ 24
  day : utc + uoffset.timezone < 48 ∨ ¬ NotCarried utc

/-- It is midnight, which is shown when the sun does not rise or set. -/
def Midnight (uoffset : UtcOffset) (utc : ℚ) : Prop :=
  round (60 * (utc + uoffset.ticks / 3600000000)) % 1440 = 0

/-- Rise and set. -/
def RiseSetClear (uoffset : UtcOffset) (s : Sunriset) : Prop :=
  if s.rc = 0 then FixedClear uoffset s.trise ∧ FixedClear uoffset s.tset
  else Midnight uoffset s.trise ∧ Midnight uoffset s.tset

/-- The start and the end of a twilight. -/
def TwilightClear (uoffset : UtcOffset) (s : Sunriset) : Prop :=
  if s.rc = 0 then TimeClear uoffset s.trise ∧ TimeClear uoffset s.tset
  else Midnight uoffset s.trise ∧ Midnight uoffset s.tset

/-- The date is another one than in UTC. -/
def OtherDay (uoffset : UtcOffset) (utc : ℚ) : Prop :=
  utc + uoffset.timezone < 0 ∨ 24 < utc + uoffset.timezone

/-- Noon, between a rise and a set `t` hours before and after it. -/
structure NoonClear (uoffset : UtcOffset) (tsouth t : ℚ) : Prop where
  kept : MinuteKept uoffset tsouth
  carried : NotCarried tsouth
  alike : OtherDay uoffset (tsouth - t) ↔ OtherDay uoffset (tsouth + t)
  midnight : ¬ (t = 0 ∧ tsouth + uoffset.timezone = 24)

/-- All of them. -/
structure Clear (a : Almanac) (uoffset : UtcOffset) (latit longit : ℚ) (year month day : ℤ) :
    Prop where
  riseSet : RiseSetClear uoffset (a.sunriset year month day longit latit (-35 / 60) true)
  noon : NoonClear uoffset (a.tsouth year month day longit)
    (a.arc year month day longit latit (-35 / 60) true).t
  civil : TwilightClear uoffset (a.sunriset year month day longit latit (-6) false)
  nautical : TwilightClear uoffset (a.sunriset year month day longit latit (-12) false)
  astronomical : TwilightClear uoffset (a.sunriset year month day longit latit (-18) false)

/-! ### The offset -/

section Offset

variable (uoffset : UtcOffset)

/-- The offset is the whole hours and what is dropped. -/
theorem UtcOffset.hours_eq :
    (uoffset.ticks : ℚ) / 3600000000 = uoffset.timezone + uoffset.dropped := by
  have hticks : (3600000000 * uoffset.timezone + uoffset.ticks.tmod 3600000000 : ℚ) =
      uoffset.ticks := by
    exact_mod_cast Int.mul_tdiv_add_tmod uoffset.ticks 3600000000
  rw [dropped, ← hticks]
  ring

theorem UtcOffset.timezone_bounds :
    (-12 : ℚ) ≤ uoffset.timezone ∧ (uoffset.timezone : ℚ) ≤ 14 := by
  have hlower : -12 ≤ uoffset.timezone :=
    Int.tdiv_le_tdiv (a := -12 * 3600000000) (by decide) uoffset.lower
  have hupper : uoffset.timezone ≤ 14 :=
    Int.tdiv_le_tdiv (b := 14 * 3600000000) (by decide) uoffset.upper
  exact_mod_cast And.intro hlower hupper

/-- Less than an hour is dropped. -/
theorem UtcOffset.abs_dropped_le : |uoffset.dropped| ≤ 1 := by
  have hlow := Int.lt_tmod_of_pos uoffset.ticks (b := 3600000000) (by decide)
  have hhigh := Int.tmod_lt_of_pos uoffset.ticks (b := 3600000000) (by decide)
  have hlow' : (-3600000000 : ℚ) ≤ uoffset.ticks.tmod 3600000000 := by exact_mod_cast hlow.le
  have hhigh' : (uoffset.ticks.tmod 3600000000 : ℚ) ≤ 3600000000 := by exact_mod_cast hhigh.le
  rw [dropped, abs_le]
  constructor
  · linarith
  · linarith

end Offset

/-! ### The clock -/

theorem clock_valid (minutes : ℤ) : (clock minutes).Valid := by
  simp only [HourMin.Valid, clock]
  omega

/-- A time from midnight on has less than a minute more than its whole minutes. -/
theorem hourMin_of_nonneg {time : ℚ} (h : 0 ≤ time) :
    hourMin time = ⟨⌊time⌋, round (60 * Int.fract time)⟩ := by
  have hfract := Int.fract_nonneg time
  rw [hourMin, modf_of_nonneg h, roundAway_of_nonneg (by positivity), mul_comm]

theorem round_fract_bounds (time : ℚ) :
    0 ≤ round (60 * Int.fract time) ∧ round (60 * Int.fract time) ≤ 60 := by
  have hnonneg := Int.fract_nonneg time
  have hlt := Int.fract_lt_one time
  constructor
  · have hle := round_mono (show (0 : ℚ) ≤ 60 * Int.fract time by positivity)
    rwa [round_zero] at hle
  · have hle := round_mono (show 60 * Int.fract time ≤ (60 : ℕ) by push_cast; linarith)
    rwa [round_natCast] at hle

/-- The minute is rounded up to 60 from half a minute before the full hour on. -/
theorem round_fract_lt_iff (time : ℚ) : round (60 * Int.fract time) < 60 ↔ NotCarried time := by
  rw [round_eq, Int.floor_lt, NotCarried]
  push_cast
  constructor
  · intro h
    linarith
  · intro h
    linarith

/-- Hour and minute of a time are a number of minutes on the clock. -/
theorem hourMin_eq_clock_iff {time : ℚ} (h : 0 ≤ time) (minutes : ℤ) :
    hourMin time = clock minutes ↔
      ⌊time⌋ < 24 ∧ NotCarried time ∧ round (60 * time) % 1440 = minutes % 1440 := by
  have hround := round_mul_eq 60 time
  have hbounds := round_fract_bounds time
  have hfloor := Int.floor_nonneg.mpr h
  push_cast at hround
  rw [hourMin_of_nonneg h, clock, HourMin.mk.injEq, ← round_fract_lt_iff, hround]
  -- the minutes are 60 times the hours and a rest from 0 to 60
  omega

/-- The same of a time that is fixed, of which the hour may be too large if it is carried. -/
theorem fixed_eq_clock_iff {time : ℚ} (h : 0 ≤ time) (minutes : ℤ) :
    (hourMin time).fixed = clock minutes ↔
      (⌊time⌋ < 24 ∨ ¬ NotCarried time) ∧ round (60 * time) % 1440 = minutes % 1440 := by
  have hround := round_mul_eq 60 time
  have hbounds := round_fract_bounds time
  have hfloor := Int.floor_nonneg.mpr h
  push_cast at hround
  rw [hourMin_of_nonneg h, clock, ← round_fract_lt_iff, hround]
  simp only [HourMin.fixed]
  split
  · next hmin =>
    rw [HourMin.mk.injEq, Int.tmod_eq_emod_of_nonneg (by omega)]
    omega
  · next hmin =>
    rw [HourMin.mk.injEq]
    omega

/-! ### Local times -/

section Local

variable (uoffset : UtcOffset) (utc : ℚ)

/-- The days that `utcToLocal` goes back or on.  It does so when the date is another one. -/
theorem exists_utcToLocal_eq (h : -24 ≤ utc + uoffset.timezone) :
    ∃ days : ℤ, utcToLocal utc uoffset.timezone = utc + uoffset.timezone + 24 * days ∧
      (OtherDay uoffset utc ↔ ¬ 2 ∣ days) ∧ 0 ≤ utcToLocal utc uoffset.timezone ∧
      (utcToLocal utc uoffset.timezone < 24 ↔
        utc + uoffset.timezone ≠ 24 ∧ utc + uoffset.timezone < 48) := by
  unfold utcToLocal OtherDay
  simp only
  split
  · next hlate =>
    refine ⟨-1, by push_cast; ring, ?_, by linarith, ?_⟩
    · exact iff_of_true (.inr hlate) (by decide)
    · constructor
      · intro hlt
        exact ⟨hlate.ne', by linarith⟩
      · rintro ⟨-, hlt⟩
        linarith
  · next hlate =>
    split
    · next hearly =>
      refine ⟨1, by push_cast; ring, ?_, by linarith, ?_⟩
      · exact iff_of_true (.inl hearly) (by decide)
      · exact iff_of_true (by linarith) ⟨by linarith, by linarith⟩
    · next hearly =>
      refine ⟨0, by push_cast; ring, ?_, by linarith, ?_⟩
      · refine iff_of_false ?_ (by decide)
        rintro (h | h)
        · exact hearly h
        · exact hlate h
      · rw [lt_iff_le_and_ne, and_iff_right (not_lt.mp hlate)]
        exact (and_iff_left (by linarith)).symm

/-- Local time in minutes, by what is kept of the offset. -/
theorem round_local_eq :
    round (60 * (utc + uoffset.ticks / 3600000000)) =
      round (60 * (utc + uoffset.dropped)) + 60 * uoffset.timezone := by
  rw [uoffset.hours_eq, ← round_add_intCast]
  congr 1
  push_cast
  ring

/-- What is dropped moves the minute by at most 60. -/
theorem abs_round_dropped_le :
    |round (60 * (utc + uoffset.dropped)) - round (60 * utc)| ≤ 60 := by
  have hdropped : |60 * uoffset.dropped| ≤ (60 : ℤ) := by
    rw [abs_mul]
    have h := uoffset.abs_dropped_le
    push_cast
    norm_num
    linarith
  rw [mul_add]
  exact abs_round_add_sub_le _ hdropped

/-- The minutes of a time that was moved by half days, and those of local time. -/
theorem round_mod_eq_iff {time : ℚ} {halves : ℤ}
    (h : time = utc + uoffset.timezone + 12 * halves) :
    round (60 * time) % 1440 = round (60 * (utc + uoffset.ticks / 3600000000)) % 1440 ↔
      MinuteKept uoffset utc ∧ 2 ∣ halves := by
  have htime : round (60 * time) = round (60 * utc) + (60 * uoffset.timezone + 720 * halves) := by
    rw [h, ← round_add_intCast]
    congr 1
    push_cast
    ring
  have hdropped := abs_le.mp (abs_round_dropped_le uoffset utc)
  rw [htime, round_local_eq, MinuteKept]
  -- half a day is more than the hour by which the minutes can be off
  omega

/-- The fraction of an hour is that of the time in UTC. -/
theorem notCarried_iff {time : ℚ} {halves : ℤ}
    (h : time = utc + uoffset.timezone + 12 * halves) : NotCarried time ↔ NotCarried utc := by
  have hfract : Int.fract time = Int.fract utc := by
    rw [h, ← Int.fract_add_intCast utc (uoffset.timezone + 12 * halves)]
    congr 1
    push_cast
    ring
  rw [NotCarried, NotCarried, hfract]

theorem floor_lt_iff (time : ℚ) : ⌊time⌋ < 24 ↔ time < 24 := by
  rw [Int.floor_lt]
  norm_num

/-- A time that is not fixed. -/
theorem hourMin_eq_localClock_iff (h : -24 ≤ utc + uoffset.timezone) :
    hourMin (utcToLocal utc uoffset.timezone) = localClock uoffset utc ↔
      TimeClear uoffset utc := by
  obtain ⟨days, htime, -, hnonneg, hlt⟩ := exists_utcToLocal_eq uoffset utc h
  have hhalves : utcToLocal utc uoffset.timezone =
      utc + uoffset.timezone + 12 * ((2 * days : ℤ) : ℚ) := by
    rw [htime]
    push_cast
    ring
  rw [localClock, hourMin_eq_clock_iff hnonneg, round_mod_eq_iff uoffset utc hhalves,
    notCarried_iff uoffset utc hhalves, floor_lt_iff, hlt]
  constructor
  · rintro ⟨⟨hmidnight, hday⟩, hcarried, hkept, -⟩
    exact ⟨hkept, hmidnight, hday, hcarried⟩
  · rintro ⟨hkept, hmidnight, hday, hcarried⟩
    exact ⟨⟨hmidnight, hday⟩, hcarried, hkept, dvd_mul_right 2 days⟩

/-- A time that is fixed.  At midnight itself there is no minute to carry. -/
theorem fixed_eq_localClock_iff (h : -24 ≤ utc + uoffset.timezone) :
    (hourMin (utcToLocal utc uoffset.timezone)).fixed = localClock uoffset utc ↔
      FixedClear uoffset utc := by
  obtain ⟨days, htime, -, hnonneg, hlt⟩ := exists_utcToLocal_eq uoffset utc h
  have hhalves : utcToLocal utc uoffset.timezone =
      utc + uoffset.timezone + 12 * ((2 * days : ℤ) : ℚ) := by
    rw [htime]
    push_cast
    ring
  have hmidnight (hcarried : ¬ NotCarried utc) : utc + uoffset.timezone ≠ 24 := by
    intro hutc
    have hfract : Int.fract utc = 0 := by
      rw [eq_sub_of_add_eq hutc]
      exact_mod_cast Int.fract_intCast (24 - uoffset.timezone)
    rw [NotCarried, hfract] at hcarried
    norm_num at hcarried
  rw [localClock, fixed_eq_clock_iff hnonneg, round_mod_eq_iff uoffset utc hhalves,
    notCarried_iff uoffset utc hhalves, floor_lt_iff, hlt]
  constructor
  · rintro ⟨⟨hne, hday⟩ | hcarried, hkept, -⟩
    · exact ⟨hkept, hne, .inl hday⟩
    · exact ⟨hkept, hmidnight hcarried, .inr hcarried⟩
  · rintro ⟨hkept, hne, hday⟩
    refine ⟨?_, hkept, dvd_mul_right 2 days⟩
    rcases hday with hday | hcarried
    · exact .inl ⟨hne, hday⟩
    · exact .inr hcarried

/-- The zeros of a day without rise and set. -/
theorem zero_eq_localClock_iff :
    (⟨0, 0⟩ : HourMin) = localClock uoffset utc ↔ Midnight uoffset utc := by
  rw [localClock, clock, HourMin.mk.injEq, Midnight]
  omega

/-! ### Noon -/

variable {uoffset} {utc}

theorem utcToLocal_of_neg {time tz : ℚ} (h : time + tz < 0) :
    utcToLocal time tz = time + tz + 24 := by
  simp only [utcToLocal]
  rw [if_neg (by linarith), if_pos h]

theorem utcToLocal_of_gt {time tz : ℚ} (h : 24 < time + tz) :
    utcToLocal time tz = time + tz - 24 := by
  simp only [utcToLocal]
  rw [if_pos h]

theorem utcToLocal_of_not_otherDay (h : ¬ OtherDay uoffset utc) :
    utcToLocal utc uoffset.timezone = utc + uoffset.timezone := by
  rw [OtherDay, not_or] at h
  simp only [utcToLocal]
  rw [if_neg h.2, if_neg h.1]

/-- Noon is before midnight, or there is no time between rise and set and it is midnight. -/
theorem noon_lt_iff {tsouth t : ℚ} (hsouth : tsouth ≤ 24) (hnonneg : 0 ≤ t) (hle : t ≤ 12)
    (halike : OtherDay uoffset (tsouth - t) ↔ OtherDay uoffset (tsouth + t)) :
    (utcToLocal (tsouth - t) uoffset.timezone + utcToLocal (tsouth + t) uoffset.timezone) / 2 < 24 ↔
      ¬ (t = 0 ∧ tsouth + uoffset.timezone = 24) := by
  obtain ⟨-, hupper⟩ := uoffset.timezone_bounds
  by_cases hother : OtherDay uoffset (tsouth - t)
  · -- an offset of 14 hours takes noon to 14 o'clock of the next day at the latest
    have hset := halike.mp hother
    refine iff_of_true ?_ ?_
    · rcases hother with hrise | hrise
      · rw [utcToLocal_of_neg hrise]
        rcases hset with hset | hset
        · rw [utcToLocal_of_neg hset]
          linarith
        · rw [utcToLocal_of_gt hset]
          linarith
      · rw [utcToLocal_of_gt hrise, utcToLocal_of_gt (by linarith)]
        linarith
    · rintro ⟨rfl, hsum⟩
      rcases hother with hrise | hrise
      · linarith
      · linarith
  · -- neither was wrapped: noon is at 24 only if the set is not behind it
    have hset := mt halike.mpr hother
    rw [utcToLocal_of_not_otherDay hother, utcToLocal_of_not_otherDay hset]
    rw [OtherDay, not_or] at hset
    constructor
    · rintro hlt ⟨rfl, hsum⟩
      linarith
    · intro h
      by_contra hge
      refine h ⟨by linarith [hset.2], by linarith [hset.2]⟩

/-- The mean of rise and set. -/
theorem noon_eq_localClock_iff {tsouth t : ℚ} (hzero : 0 ≤ tsouth) (hsouth : tsouth ≤ 24)
    (hnonneg : 0 ≤ t) (hle : t ≤ 12) :
    hourMin ((utcToLocal (tsouth - t) uoffset.timezone +
        utcToLocal (tsouth + t) uoffset.timezone) / 2) = localClock uoffset tsouth ↔
      NoonClear uoffset tsouth t := by
  obtain ⟨hlower, -⟩ := uoffset.timezone_bounds
  obtain ⟨back, hrise, hback, hrise0, -⟩ :=
    exists_utcToLocal_eq uoffset (tsouth - t) (by linarith)
  obtain ⟨on, hset, hon, hset0, -⟩ := exists_utcToLocal_eq uoffset (tsouth + t) (by linarith)
  have hmean : (utcToLocal (tsouth - t) uoffset.timezone +
      utcToLocal (tsouth + t) uoffset.timezone) / 2 =
        tsouth + uoffset.timezone + 12 * ((back + on : ℤ) : ℚ) := by
    rw [hrise, hset]
    push_cast
    ring
  have heven : 2 ∣ back + on ↔ (OtherDay uoffset (tsouth - t) ↔ OtherDay uoffset (tsouth + t)) := by
    rw [hback, hon]
    omega
  rw [localClock, hourMin_eq_clock_iff (by linarith), round_mod_eq_iff uoffset tsouth hmean,
    notCarried_iff uoffset tsouth hmean, floor_lt_iff, heven]
  constructor
  · rintro ⟨hlt, hcarried, hkept, halike⟩
    exact ⟨hkept, hcarried, halike, (noon_lt_iff hsouth hnonneg hle halike).mp hlt⟩
  · rintro ⟨hkept, hcarried, halike, hmidnight⟩
    exact ⟨(noon_lt_iff hsouth hnonneg hle halike).mpr hmidnight, hcarried, hkept, halike⟩

end Local

/-! ### Main results -/

theorem twilight_shown_iff (uoffset : UtcOffset) {s : Sunriset} (hrise : -12 ≤ s.trise)
    (hset : -12 ≤ s.tset) :
    (twilight s uoffset.timezone).Shown uoffset s ↔ TwilightClear uoffset s := by
  obtain ⟨hlower, -⟩ := uoffset.timezone_bounds
  have hvalid {p : HourMin} {utc : ℚ} (h : p = localClock uoffset utc) : p.Valid := by
    rw [h]
    exact clock_valid _
  have hshown (p : Twilight) : p.Shown uoffset s ↔
      p.Start = localClock uoffset s.trise ∧ p.End = localClock uoffset s.tset := by
    constructor
    · intro h
      exact ⟨h.start, h.stop⟩
    · rintro ⟨hstart, hstop⟩
      exact ⟨hstart, hstop, hvalid hstart, hvalid hstop⟩
  rw [hshown, twilight, TwilightClear]
  split
  · exact and_congr (hourMin_eq_localClock_iff uoffset _ (by linarith))
      (hourMin_eq_localClock_iff uoffset _ (by linarith))
  · exact and_congr (zero_eq_localClock_iff uoffset _) (zero_eq_localClock_iff uoffset _)

/-- **The results are local times exactly for these.** -/
theorem shown_iff (a : Almanac) (uoffset : UtcOffset) (latit longit : ℚ) (year month day : ℤ) :
    Shown a uoffset latit longit year month day
        (getSunRiseSet a uoffset latit longit year month day) ↔
      Clear a uoffset latit longit year month day := by
  obtain ⟨hlower, -⟩ := uoffset.timezone_bounds
  have hsouth := a.tsouth_nonneg year month day longit
  have hsouth' := a.tsouth_le year month day longit
  -- no time is further off than half a day from the south
  have hrise (altit : ℚ) (upper_limb : Bool) :
      -12 ≤ (a.sunriset year month day longit latit altit upper_limb).trise := by
    have ht := (a.arc year month day longit latit altit upper_limb).t_le
    change -12 ≤ a.tsouth year month day longit - _
    linarith
  have hset (altit : ℚ) (upper_limb : Bool) :
      -12 ≤ (a.sunriset year month day longit latit altit upper_limb).tset := by
    have ht := (a.arc year month day longit latit altit upper_limb).t_nonneg
    change -12 ≤ a.tsouth year month day longit + _
    linarith
  have hriseSet : RiseSetClear uoffset (a.sunriset year month day longit latit (-35 / 60) true) ↔
      (getSunRiseSet a uoffset latit longit year month day).SunRise =
        localClock uoffset (a.sunriset year month day longit latit (-35 / 60) true).trise ∧
      (getSunRiseSet a uoffset latit longit year month day).SunSet =
        localClock uoffset (a.sunriset year month day longit latit (-35 / 60) true).tset := by
    simp only [getSunRiseSet, RiseSetClear]
    split
    · exact and_congr (fixed_eq_localClock_iff uoffset _ (by linarith [hrise (-35 / 60) true])).symm
        (fixed_eq_localClock_iff uoffset _ (by linarith [hset (-35 / 60) true])).symm
    · exact and_congr (zero_eq_localClock_iff uoffset _).symm
        (zero_eq_localClock_iff uoffset _).symm
  have hnoon : (getSunRiseSet a uoffset latit longit year month day).SunAtSouth =
      localClock uoffset (a.tsouth year month day longit) ↔
        NoonClear uoffset (a.tsouth year month day longit)
          (a.arc year month day longit latit (-35 / 60) true).t :=
    noon_eq_localClock_iff hsouth hsouth' (a.arc year month day longit latit (-35 / 60) true).t_nonneg
      (a.arc year month day longit latit (-35 / 60) true).t_le
  have hcivil := twilight_shown_iff uoffset (hrise (-6) false) (hset (-6) false)
  have hnautical := twilight_shown_iff uoffset (hrise (-12) false) (hset (-12) false)
  have hastronomical := twilight_shown_iff uoffset (hrise (-18) false) (hset (-18) false)
  constructor
  · intro h
    exact ⟨hriseSet.mpr ⟨h.sunRise, h.sunSet⟩, hnoon.mp h.sunAtSouth, hcivil.mp h.civil,
      hnautical.mp h.nautical, hastronomical.mp h.astronomical⟩
  · intro h
    obtain ⟨hsunRise, hsunSet⟩ := hriseSet.mp h.riseSet
    have hsunAtSouth := hnoon.mpr h.noon
    refine ⟨hsunRise, hsunSet, hsunAtSouth, ?_, hcivil.mpr h.civil, hnautical.mpr h.nautical,
      hastronomical.mpr h.astronomical⟩
    rw [hsunRise, hsunSet, hsunAtSouth]
    exact ⟨clock_valid _, clock_valid _, clock_valid _⟩

/-- An almanac in which all days are alike, and the sun passes every altitude. -/
def everyDay (tsouth t : ℚ) (hsouth : 0 ≤ tsouth ∧ tsouth ≤ 24) (ht : 0 ≤ t ∧ t ≤ 12) : Almanac where
  tsouth _ _ _ _ := tsouth
  arc _ _ _ _ _ _ _ := ⟨0, t, ht.1, ht.2, .inl rfl⟩
  daylen _ _ _ _ _ _ _ := 2 * t
  tsouth_nonneg _ _ _ _ := hsouth.1
  tsouth_le _ _ _ _ := hsouth.2

/-- A rise at one o'clock and a set at one o'clock. -/
def equinox : Almanac := everyDay 7 6 (by norm_num) (by norm_num)

/-- A set half an hour after midnight. -/
def summer : Almanac := everyDay (27 / 2) 11 (by norm_num) (by norm_num)

/-- A twilight that starts 18 seconds before six o'clock. -/
def dawn : Almanac := everyDay 12 (1201 / 200) (by norm_num) (by norm_num)

/-- Five hours and a half. -/
def halfHour : UtcOffset where
  ticks := 19800000000
  lower := by decide
  upper := by decide

/-- The offset of a place that has none. -/
def greenwich : UtcOffset where
  ticks := 0
  lower := by decide
  upper := by decide

/-- Half an hour of the offset is lost; a set behind midnight takes noon to the night; a twilight
starts at 60 minutes past five. -/
theorem half_hour_lost :
    ¬ Shown equinox halfHour 0 0 2024 6 1 (getSunRiseSet equinox halfHour 0 0 2024 6 1) ∧
      ¬ Shown summer greenwich 0 0 2024 6 1 (getSunRiseSet summer greenwich 0 0 2024 6 1) ∧
      ¬ Shown dawn greenwich 0 0 2024 6 1 (getSunRiseSet dawn greenwich 0 0 2024 6 1) := by
  refine ⟨?_, ?_, ?_⟩
  · intro h
    exact absurd h.sunRise (by decide +kernel)
  · intro h
    exact absurd h.sunAtSouth (by decide +kernel)
  · intro h
    exact absurd h.civil.start (by decide +kernel)

end Domoticz.SunRiseSet
