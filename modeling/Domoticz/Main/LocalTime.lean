import Domoticz.CLib.Loop
import Domoticz.CLib.Number

/-!
# Times that are put together

`ParseSQLdatetime` and `constructTime` call `mktime` until the time that comes back agrees with the
`tm_isdst` that was asked for.  What is asked for next depends on the last answer, from the third
call on the hour is advanced by one, and the number of the call is an `unsigned char`: there is
nothing that comes to an end by itself.

## Main definitions

* `Mktime` — `mktime`, an arbitrary function.
* `iteration` — an iteration of the loop that both functions have.
* `parseSQLdatetime`, `constructTime` — the functions.
* `Proper` — what is asked of them.
* `Stuck` — the answers of `mktime` that lead in a circle.

## Main results

* `iteration_eq_inr_iff` — the iterations that do not end the loop.
* `halts_iff` — the loop ends unless it is stuck.
* `local_time_iff` — **a time is put together properly exactly if `mktime` does not lead in a circle.**
* `circle` — a function for which it does.
-/

namespace Domoticz.LocalTime

open CLib

/-! ### The loop -/

/-- The fields of a `struct tm` besides `tm_isdst`. -/
structure Fields where
  tm_year : ℤ
  tm_mon : ℤ
  tm_mday : ℤ
  tm_hour : ℤ
  tm_min : ℤ
  tm_sec : ℤ

/-- An hour later. -/
def Fields.later (f : Fields) : Fields := { f with tm_hour := f.tm_hour + 1 }

/-- `mktime`: the time, and the normalised `tm_isdst`.  The other fields are normalised, too, and
set again before they are read. -/
structure Mktime where
  time : Fields → ℤ → ℤ
  tm_isdst : Fields → ℤ → ℤ
  normalised : ∀ f isdst, tm_isdst f isdst = -1 ∨ tm_isdst f isdst = 0 ∨ tm_isdst f isdst = 1

/-- The variables of the loop. -/
structure State where
  i : ℕ
  isdst : ℤ

/-- What `mktime` is called with. -/
structure Call where
  fields : Fields
  isdst : ℤ

section Functions

variable (mk : Mktime) (f : Fields)

/-- The fields of an iteration; the hour is advanced from the third one on. -/
def State.fields (s : State) : Fields := if 1 < s.i then f.later else f

/-- An iteration: what is returned, with the last call of `mktime`, or the next state. -/
def iteration (s : State) : (Bool × Call) ⊕ State :=
  let result := s.fields f
  if mk.time result s.isdst = -1 then
    if s.isdst = 0 then .inl (false, ⟨result, s.isdst⟩)
    else .inr ⟨(s.i + 1) % 256, 0⟩
  else if mk.tm_isdst result s.isdst = s.isdst ∨ s.isdst = -1 then
    .inl (true, ⟨result, s.isdst⟩)
  else if s.i = 0 then .inr ⟨(s.i + 1) % 256, mk.tm_isdst result s.isdst⟩
  -- time is inside DST "black hole" range
  else .inr ⟨(s.i + 1) % 256, -1⟩

/-- A part of the text as a number. -/
def component (szSQLdate : Bytes) (pos n : ℕ) : ℤ := atoi (cstr ((szSQLdate.drop pos).take n))

/-- The fields of a text. -/
def sqlFields (szSQLdate : Bytes) : Fields where
  tm_year := component szSQLdate 0 4 - 1900
  tm_mon := component szSQLdate 5 2 - 1
  tm_mday := component szSQLdate 8 2
  tm_hour := component szSQLdate 11 2
  tm_min := component szSQLdate 14 2
  tm_sec := component szSQLdate 17 2

/-- What a function has returned within so many iterations, with the last call of `mktime`. -/
abbrev Returned := ℕ → Option (Bool × Option Call)

/-- The loop of both functions. -/
def loop (isdst : ℤ) : Returned := fun n =>
  (Loop.run (iteration mk f) n ⟨0, isdst⟩).map fun r => (r.1, some r.2)

/-- `ParseSQLdatetime`. -/
def parseSQLdatetime (szSQLdate : Bytes) (isdst : ℤ) : Returned := fun n =>
  if szSQLdate.length < 19 then some (false, none) else loop mk (sqlFields szSQLdate) isdst n

/-- `constructTime`. -/
def constructTime (year month day hour minute second isdst : ℤ) : Returned :=
  loop mk ⟨year - 1900, month - 1, day, hour, minute, second⟩ isdst

end Functions

/-- What one of the functions is given. -/
inductive Date
  | sql (szSQLdate : Bytes) (length : 19 ≤ szSQLdate.length)
  | components (year month day hour minute second : ℤ)

/-- What it returns. -/
def Date.returned (mk : Mktime) (isdst : ℤ) : Date → Returned
  | .sql szSQLdate _ => parseSQLdatetime mk szSQLdate isdst
  | .components year month day hour minute second =>
      constructTime mk year month day hour minute second isdst

/-- The fields of the first call. -/
def Date.fields : Date → Fields
  | .sql szSQLdate _ => sqlFields szSQLdate
  | .components year month day hour minute second =>
      ⟨year - 1900, month - 1, day, hour, minute, second⟩

/-- What is asked of the functions. -/
structure Proper (mk : Mktime) (returned : Returned) : Prop where
  terminates : ∃ n r, returned n = some r
  /-- The last call succeeded with the value that was asked for, or with -1. -/
  sound : ∀ n last, returned n = some (true, last) → ∃ c, last = some c ∧
    mk.time c.fields c.isdst ≠ -1 ∧ (mk.tm_isdst c.fields c.isdst = c.isdst ∨ c.isdst = -1)

/-! ### Answers that lead in a circle -/

section Circle

variable (mk : Mktime) (f : Fields)

/-- `mktime` fails, and another value is asked for. -/
def Fails (isdst : ℤ) : Prop := mk.time f isdst = -1 ∧ isdst ≠ 0

/-- `mktime` answers with another value than the one it was asked for. -/
def Differs (isdst r : ℤ) : Prop :=
  mk.time f isdst ≠ -1 ∧ isdst ≠ -1 ∧ mk.tm_isdst f isdst = r ∧ r ≠ isdst

/-- What is asked for after the first call. -/
def First (isdst isdst' : ℤ) : Prop :=
  (Fails mk f isdst ∧ isdst' = 0) ∨ Differs mk f isdst isdst'

/-- What is asked for after any other call. -/
def Next (isdst isdst' : ℤ) : Prop :=
  (Fails mk f isdst ∧ isdst' = 0) ∨ ((∃ r, Differs mk f isdst r) ∧ isdst' = -1)

/-- What is asked for after two calls. -/
def Leads (isdst isdst' : ℤ) : Prop := ∃ d, First mk f isdst d ∧ Next mk f d isdst'

/-- With the hour advanced, `mktime` fails for -1 and answers 0 with another value; and what is
asked for in the end repeats itself in the first two calls. -/
structure Stuck (isdst : ℤ) : Prop where
  later : Fails mk f.later (-1) ∧ ∃ r, Differs mk f.later 0 r
  repeats : ∃ d d', Leads mk f isdst d ∧ Leads mk f d d' ∧ Leads mk f d' d'

end Circle

/-! ### Iterations -/

section Iterations

variable {mk : Mktime} {f : Fields}

/-- An iteration that does not end the loop. -/
theorem iteration_eq_inr_iff {i : ℕ} {d : ℤ} {s : State} :
    iteration mk f ⟨i, d⟩ = .inr s ↔ s.i = (i + 1) % 256 ∧
      ((Fails mk (State.fields f ⟨i, d⟩) d ∧ s.isdst = 0) ∨
        ∃ r, Differs mk (State.fields f ⟨i, d⟩) d r ∧ s.isdst = if i = 0 then r else -1) := by
  obtain ⟨i', d'⟩ := s
  unfold iteration Fails Differs
  simp only
  generalize State.fields f ⟨i, d⟩ = result
  split
  · next hfail =>
    have hno : ¬ ∃ r, (mk.time result d ≠ -1 ∧ d ≠ -1 ∧ mk.tm_isdst result d = r ∧ r ≠ d) ∧
        d' = if i = 0 then r else -1 := by
      rintro ⟨r, ⟨htime, -⟩, -⟩
      exact htime hfail
    rw [or_iff_left hno]
    split
    · next hd => exact iff_of_false (fun h => by cases h) fun h => h.2.1.2 hd
    · next hd =>
      rw [Sum.inr.injEq, State.mk.injEq, eq_comm, eq_comm (a := 0)]
      exact and_congr_right fun _ => ⟨fun h => ⟨⟨hfail, hd⟩, h⟩, fun h => h.2⟩
  · next htime =>
    have hno : ¬ ((mk.time result d = -1 ∧ d ≠ 0) ∧ d' = 0) := fun h => htime h.1.1
    rw [or_iff_right hno]
    split
    · next hgood =>
      refine iff_of_false (fun h => by cases h) ?_
      rintro ⟨-, r, ⟨-, hd, rfl, hne⟩, -⟩
      exact hgood.elim hne hd
    · next hgood =>
      obtain ⟨hne, hd⟩ := not_or.mp hgood
      have hdiffers : (∃ r, (mk.time result d ≠ -1 ∧ d ≠ -1 ∧ mk.tm_isdst result d = r ∧ r ≠ d) ∧
          d' = if i = 0 then r else -1) ↔ d' = if i = 0 then mk.tm_isdst result d else -1 := by
        constructor
        · rintro ⟨r, ⟨-, -, rfl, -⟩, h⟩
          exact h
        · exact fun h => ⟨_, ⟨htime, hd, rfl, hne⟩, h⟩
      rw [hdiffers]
      split
      · rw [Sum.inr.injEq, State.mk.injEq, eq_comm, eq_comm (b := d')]
      · rw [Sum.inr.injEq, State.mk.injEq, eq_comm, eq_comm (b := d')]

/-- The first iteration. -/
theorem iteration_zero_iff {d : ℤ} {s : State} :
    iteration mk f ⟨0, d⟩ = .inr s ↔ s.i = 1 ∧ First mk f d s.isdst := by
  rw [iteration_eq_inr_iff]
  simp only [if_true, exists_eq_right']
  rfl

/-- The second one. -/
theorem iteration_one_iff {d : ℤ} {s : State} :
    iteration mk f ⟨1, d⟩ = .inr s ↔ s.i = 2 ∧ Next mk f d s.isdst := by
  rw [iteration_eq_inr_iff]
  simp only [if_neg Nat.one_ne_zero, exists_and_right]
  rfl

/-- A later one. -/
theorem iteration_later_iff {i : ℕ} (h : 1 < i) {d : ℤ} {s : State} :
    iteration mk f ⟨i, d⟩ = .inr s ↔ s.i = (i + 1) % 256 ∧ Next mk f.later d s.isdst := by
  have hfields : State.fields f ⟨i, d⟩ = f.later := if_pos h
  have hne : i ≠ 0 := by omega
  rw [iteration_eq_inr_iff, hfields]
  simp only [if_neg hne, exists_and_right]
  rfl

/-! ### Rounds -/

/-- After the second call 0 or -1 is asked for. -/
theorem Next.eq_or_eq {d d' : ℤ} (h : Next mk f d d') : d' = 0 ∨ d' = -1 :=
  h.imp And.right And.right

/-- A round of two calls. -/
theorem Leads.steps {d d' : ℤ} (h : Leads mk f d d') :
    Loop.Steps (iteration mk f) 2 ⟨0, d⟩ ⟨2, d'⟩ := by
  obtain ⟨e, hfirst, hnext⟩ := h
  exact .succ (iteration_zero_iff.mpr ⟨rfl, hfirst⟩) (.one (iteration_one_iff.mpr ⟨rfl, hnext⟩))

/-- From -1 a round leads to -1 only. -/
theorem Leads.eq_of_neg_one {d : ℤ} (h : Leads mk f (-1) d) : d = -1 := by
  obtain ⟨e, hfirst, hnext⟩ := h
  rcases hfirst with ⟨-, rfl⟩ | hdiffers
  · rcases hnext with ⟨hfails, -⟩ | ⟨-, hd⟩
    · exact absurd rfl hfails.2
    · exact hd
  · exact absurd rfl hdiffers.2.1

/-- The later calls alternate. -/
def Alternates (mk : Mktime) (f : Fields) : Prop :=
  Fails mk f.later (-1) ∧ ∃ r, Differs mk f.later 0 r

theorem Alternates.next_neg_one (h : Alternates mk f) : Next mk f.later (-1) 0 := Or.inl ⟨h.1, rfl⟩

theorem Alternates.next_zero (h : Alternates mk f) : Next mk f.later 0 (-1) := Or.inr ⟨h.2, rfl⟩

/-- Two later calls. -/
theorem Alternates.steps_two (h : Alternates mk f) {i : ℕ} (hi : 1 < i) (hlt : i < 255) {d : ℤ}
    (hd : d = 0 ∨ d = -1) : Loop.Steps (iteration mk f) 2 ⟨i, d⟩ ⟨(i + 2) % 256, d⟩ := by
  have hmod : (i + 1) % 256 = i + 1 := Nat.mod_eq_of_lt (by omega)
  rcases hd with rfl | rfl
  · exact .succ ((iteration_later_iff hi).mpr ⟨hmod.symm, h.next_zero⟩)
      (.one ((iteration_later_iff (by omega)).mpr ⟨rfl, h.next_neg_one⟩))
  · exact .succ ((iteration_later_iff hi).mpr ⟨hmod.symm, h.next_neg_one⟩)
      (.one ((iteration_later_iff (by omega)).mpr ⟨rfl, h.next_zero⟩))

/-- The later calls go on until the number of the call has come round. -/
theorem Alternates.steps (h : Alternates mk f) {d : ℤ} (hd : d = 0 ∨ d = -1) :
    Loop.Steps (iteration mk f) 254 ⟨2, d⟩ ⟨0, d⟩ := by
  have hpairs (k : ℕ) (hk : k ≤ 127) :
      Loop.Steps (iteration mk f) (2 * k) ⟨2, d⟩ ⟨(2 + 2 * k) % 256, d⟩ := by
    induction k with
    | zero => exact .zero _
    | succ k ih =>
      have hmod : (2 + 2 * k) % 256 = 2 + 2 * k := Nat.mod_eq_of_lt (by omega)
      have hfront := ih (by omega)
      rw [hmod] at hfront
      exact hfront.trans (h.steps_two (by omega) (by omega) hd)
  exact hpairs 127 le_rfl

/-- A later call that does not end the loop, behind one that did not. -/
theorem alternates_of_next {d d' d'' : ℤ} (hd : d = 0 ∨ d = -1) (h : Next mk f.later d d')
    (h' : Next mk f.later d' d'') : Alternates mk f := by
  have hzero (e : ℤ) (h : Next mk f.later 0 e) : e = -1 ∧ ∃ r, Differs mk f.later 0 r := by
    rcases h with ⟨hfails, -⟩ | ⟨hdiffers, he⟩
    · exact absurd rfl hfails.2
    · exact ⟨he, hdiffers⟩
  have hneg (e : ℤ) (h : Next mk f.later (-1) e) : e = 0 ∧ Fails mk f.later (-1) := by
    rcases h with ⟨hfails, he⟩ | ⟨⟨r, hdiffers⟩, -⟩
    · exact ⟨he, hfails⟩
    · exact absurd rfl hdiffers.2.1
  rcases hd with rfl | rfl
  · obtain ⟨rfl, hdiffers⟩ := hzero _ h
    exact ⟨(hneg _ h').2, hdiffers⟩
  · obtain ⟨rfl, hfails⟩ := hneg _ h
    exact ⟨hfails, (hzero _ h').2⟩

/-- A loop that does not end takes a round, and is then where it was with what that leads to. -/
theorem exists_leads_of_not_halts {d : ℤ} (h : ¬ Loop.Halts (iteration mk f) ⟨0, d⟩) :
    Alternates mk f ∧ ∃ d', Leads mk f d d' ∧ (d' = 0 ∨ d' = -1) ∧
      ¬ Loop.Halts (iteration mk f) ⟨0, d'⟩ := by
  obtain ⟨s₁, h₁, hnot₁⟩ := Loop.exists_inr_of_not_halts h
  obtain ⟨hi₁, hfirst⟩ := iteration_zero_iff.mp h₁
  obtain ⟨i₁, d₁⟩ := s₁
  cases hi₁
  obtain ⟨s₂, h₂, hnot₂⟩ := Loop.exists_inr_of_not_halts hnot₁
  obtain ⟨hi₂, hnext⟩ := iteration_one_iff.mp h₂
  obtain ⟨i₂, d₂⟩ := s₂
  cases hi₂
  obtain ⟨s₃, h₃, hnot₃⟩ := Loop.exists_inr_of_not_halts hnot₂
  obtain ⟨hi₃, hlater⟩ := (iteration_later_iff (by decide)).mp h₃
  obtain ⟨i₃, d₃⟩ := s₃
  cases hi₃
  obtain ⟨s₄, h₄, -⟩ := Loop.exists_inr_of_not_halts hnot₃
  obtain ⟨-, hlater'⟩ := (iteration_later_iff (by decide)).mp h₄
  have halternates := alternates_of_next hnext.eq_or_eq hlater hlater'
  refine ⟨halternates, d₂, ⟨d₁, hfirst, hnext⟩, hnext.eq_or_eq, ?_⟩
  rwa [← (halternates.steps hnext.eq_or_eq).halts_iff]

/-- The loop ends unless it is stuck. -/
theorem halts_iff (d : ℤ) : Loop.Halts (iteration mk f) ⟨0, d⟩ ↔ ¬ Stuck mk f d := by
  have hround {d d' : ℤ} (h : Leads mk f d d') (halternates : Alternates mk f) :
      Loop.Steps (iteration mk f) 256 ⟨0, d⟩ ⟨0, d'⟩ := by
    have hsteps := h.steps
    obtain ⟨e, -, hnext⟩ := h
    exact hsteps.trans (halternates.steps hnext.eq_or_eq)
  rw [← not_iff_not, not_not]
  constructor
  · intro h
    obtain ⟨halternates, d₁, hleads₁, hd₁, h₁⟩ := exists_leads_of_not_halts h
    obtain ⟨-, d₂, hleads₂, hd₂, h₂⟩ := exists_leads_of_not_halts h₁
    obtain ⟨-, d₃, hleads₃, -, -⟩ := exists_leads_of_not_halts h₂
    refine ⟨halternates, ?_⟩
    -- there are only two values, and from -1 there is no way back
    rcases hd₁ with rfl | rfl
    · rcases hd₂ with rfl | rfl
      · exact ⟨0, 0, hleads₁, hleads₂, hleads₂⟩
      · obtain rfl := hleads₃.eq_of_neg_one
        exact ⟨0, -1, hleads₁, hleads₂, hleads₃⟩
    · obtain rfl := hleads₂.eq_of_neg_one
      exact ⟨-1, -1, hleads₁, hleads₂, hleads₂⟩
  · rintro ⟨halternates, d₁, d₂, hleads₁, hleads₂, hcycle⟩
    rw [(hround hleads₁ halternates).halts_iff, (hround hleads₂ halternates).halts_iff]
    exact Loop.not_halts_of_cycle (hround hcycle halternates) (by omega)

end Iterations

/-! ### The functions -/

/-- A time that is returned is that of a last call that succeeded. -/
theorem succeeds_of_iteration {mk : Mktime} {f : Fields} {s : State} {c : Call}
    (h : iteration mk f s = .inl (true, c)) :
    mk.time c.fields c.isdst ≠ -1 ∧ (mk.tm_isdst c.fields c.isdst = c.isdst ∨ c.isdst = -1) := by
  unfold iteration at h
  simp only at h
  split at h
  · split at h
    · cases h
    · cases h
  · next htime =>
    split at h
    · next hgood =>
      cases h
      exact ⟨htime, hgood⟩
    · split at h
      · cases h
      · cases h

theorem proper_loop_iff (mk : Mktime) (f : Fields) (isdst : ℤ) :
    Proper mk (loop mk f isdst) ↔ ¬ Stuck mk f isdst := by
  rw [← halts_iff]
  constructor
  · intro h
    obtain ⟨n, r, hr⟩ := h.terminates
    obtain ⟨r', hrun, -⟩ := Option.map_eq_some_iff.mp hr
    exact ⟨n, r', hrun⟩
  · rintro ⟨n, r, hrun⟩
    refine ⟨⟨n, (r.1, some r.2), by rw [loop, hrun, Option.map_some]⟩, fun n last h => ?_⟩
    obtain ⟨r', hrun', heq⟩ := Option.map_eq_some_iff.mp h
    obtain ⟨b, c⟩ := r'
    cases heq
    obtain ⟨m, t, -, hlast⟩ := Loop.exists_last_of_run hrun'
    exact ⟨c, rfl, succeeds_of_iteration hlast⟩

/-- **A time is put together properly exactly if `mktime` does not lead in a circle.** -/
theorem local_time_iff (mk : Mktime) (date : Date) (isdst : ℤ) :
    Proper mk (date.returned mk isdst) ↔ ¬ Stuck mk date.fields isdst := by
  cases date with
  | sql szSQLdate length =>
    have hloop : parseSQLdatetime mk szSQLdate isdst = loop mk (sqlFields szSQLdate) isdst := by
      funext n
      rw [parseSQLdatetime, if_neg (Nat.not_lt.mpr length)]
    rw [Date.returned, hloop]
    exact proper_loop_iff mk _ isdst
  | components year month day hour minute second => exact proper_loop_iff mk _ isdst

/-- A `mktime` that has a time for 0 only, and says that it is one of the summer. -/
def zeroOnly : Mktime where
  time _ isdst := if isdst = 0 then 0 else -1
  tm_isdst _ _ := 1
  normalised _ _ := Or.inr (Or.inr rfl)

/-- The loop does not end for it. -/
theorem circle : ¬ Proper zeroOnly (parseSQLdatetime zeroOnly (str "2020-03-29 02:30:00") 0) := by
  have hloop : parseSQLdatetime zeroOnly (str "2020-03-29 02:30:00") 0 =
      loop zeroOnly (sqlFields (str "2020-03-29 02:30:00")) 0 := by
    funext n
    rw [parseSQLdatetime, if_neg (by decide)]
  have htime (f : Fields) : zeroOnly.time f 0 = 0 := rfl
  have hdiffers (f : Fields) : Differs zeroOnly f 0 1 :=
    ⟨by rw [htime]; decide, by decide, rfl, by decide⟩
  have hfails (f : Fields) (d : ℤ) (hd : d ≠ 0) : Fails zeroOnly f d := ⟨if_neg hd, hd⟩
  have hleads (f : Fields) : Leads zeroOnly f 0 0 :=
    ⟨1, Or.inr (hdiffers f), Or.inl ⟨hfails f 1 (by decide), rfl⟩⟩
  rw [hloop, proper_loop_iff, not_not]
  exact ⟨⟨hfails _ _ (by decide), 1, hdiffers _⟩, 0, 0, hleads _, hleads _, hleads _⟩

end Domoticz.LocalTime
