import Domoticz.CLib.Number
import Domoticz.CLib.SortedMap

/-!
# Log lines

`CLogger::Log` keeps the last lines of each level for the web interface, and `GetLog` merges them.
An error that is written to the console is cut behind its time stamp, to be coloured from there on;
that is done before the line is kept, and it raises an exception where lines have no time stamp and
the error is short.

## Main definitions

* `szIntLog`, `log` — `CLogger::Log`.
* `getLog` — `CLogger::GetLog`.
* `retained` — the lines of a level that are to be kept.
* `Right` — what is asked of the logger after some calls.
* `CutShort` — the calls that end with an exception.

## Main results

* `buffers_eq` — the buffers after calls that return.
* `right_run_iff` — **the logger is right during a run exactly if no call is cut short.**
* `error_lost` — a short error.
-/

namespace Domoticz.Logger

open CLib

/-! ### Lines -/

/-- `_eLogLevel`. -/
abbrev Level := ℕ

/-- `LOG_NORM`. -/
def LOG_NORM : Level := 0x0000001

/-- `LOG_STATUS`. -/
def LOG_STATUS : Level := 0x0000002

/-- `LOG_ERROR`. -/
def LOG_ERROR : Level := 0x0000004

/-- `LOG_DEBUG_INT`, the level of what `Debug` logs. -/
def LOG_DEBUG_INT : Level := 0x0000008

/-- `LOG_ALL`. -/
def LOG_ALL : Level := 0xFFFFFFF

/-- `DEBUG_NORM`. -/
def DEBUG_NORM : ℕ := 0x0000001

/-- `DEBUG_THREADIDS`. -/
def DEBUG_THREADIDS : ℕ := 0x0000030

/-- `MAX_LOG_LINE_BUFFER`, the lines that are kept of a level. -/
def MAX_LOG_LINE_BUFFER : ℕ := 100

/-- `MAX_LOG_LINE_LENGTH`, the size of the buffer of a line. -/
def MAX_LOG_LINE_LENGTH : ℕ := 2048 * 3

/-- `_tLogLineStruct`. -/
structure LogLine where
  logtime : ℤ
  level : Level
  logmessage : Bytes
  deriving DecidableEq, Repr

/-- How the logger is set up. -/
structure Config where
  m_log_flags : ℕ := LOG_NORM ||| LOG_STATUS ||| LOG_ERROR
  m_debug_flags : ℕ := DEBUG_NORM
  m_bEnableLogTimestamps : Bool := true
  m_bEnableErrorsToNotificationSystem : Bool := false
  g_bRunAsDaemon : Bool := false

/-- The fields of a `struct tm` that a time stamp shows, and the milliseconds. -/
structure LocalTime where
  tm_year : ℤ
  tm_mon : ℕ
  tm_mday : ℕ
  tm_hour : ℕ
  tm_min : ℕ
  tm_sec : ℕ
  ms : ℕ

/-- A call of `Log`: the level and the formatted text, and what it reads of the system. -/
structure Call where
  level : Level
  text : Bytes
  localtime : LocalTime
  pthread_self : ℕ
  /-- What `mytime` is at the notification, when it is compared and at the line. -/
  notified : ℤ
  compared : ℤ
  logtime : ℤ

/-- A text that is filled up with zeros. -/
def setw (n : ℕ) (s : Bytes) : Bytes := List.replicate (n - s.length) (chr '0') ++ s

/-- `TimeToString` with `TF_DateTimeMs`. -/
def LocalTime.toText (t : LocalTime) : Bytes :=
  decimal (t.tm_year + 1900) ++ str "-" ++ setw 2 (decimal (t.tm_mon + 1)) ++ str "-" ++
    setw 2 (decimal t.tm_mday) ++ str " " ++ setw 2 (decimal t.tm_hour) ++ str ":" ++
    setw 2 (decimal t.tm_min) ++ str ":" ++ setw 2 (decimal t.tm_sec) ++ str "." ++
    setw 3 (decimal t.ms)

/-- What `vsnprintf` leaves in the buffer, as a C string. -/
def cbuffer (c : Call) : Bytes := cstr (c.text.take (MAX_LOG_LINE_LENGTH - 1))

/-- The time stamp of a line. -/
def stamp (cfg : Config) (c : Call) : Bytes :=
  if cfg.m_bEnableLogTimestamps then c.localtime.toText ++ str "  " else []

/-- The thread of a line. -/
def threadId (cfg : Config) (c : Call) : Bytes :=
  if cfg.m_log_flags &&& LOG_DEBUG_INT ≠ 0 ∧ cfg.m_debug_flags &&& DEBUG_THREADIDS ≠ 0 then
    str "[" ++ setw 4 ((Nat.toDigits 16 c.pthread_self).map chr) ++ str "] "
  else []

/-- The name of a level. -/
def levelName (level : Level) : Bytes :=
  if level &&& LOG_STATUS ≠ 0 then str "Status: "
  else if level &&& LOG_ERROR ≠ 0 then str "Error: "
  else if level &&& LOG_DEBUG_INT ≠ 0 then str "Debug: "
  else []

/-- The line that is written. -/
def szIntLog (cfg : Config) (c : Call) : Bytes :=
  stamp cfg c ++ threadId cfg c ++ levelName c.level ++ cbuffer c

/-- `IsLogLevelEnabled`. -/
def Config.isLogLevelEnabled (cfg : Config) (level : Level) : Bool :=
  cfg.m_log_flags &&& level != 0

/-! ### The logger -/

/-- `CLogger`; what is written to the console, the file and the syslog is left out. -/
structure CLogger where
  m_lastlog : SortedMap Level (List LogLine) := .empty
  m_notification_log : List LogLine := []
  m_LastLogNotificationsSend : ℤ := 0
  /-- `ForceLogNotificationCheck` was called. -/
  forced : Bool := false

/-- A line is added to a buffer that is kept short. -/
def push (line : LogLine) (buffer : List LogLine) : List LogLine :=
  (if MAX_LOG_LINE_BUFFER ≤ buffer.length then buffer.tail else buffer) ++ [line]

/-- The part of `Log` that has errors sent as notifications. -/
def notify (cfg : Config) (c : Call) (s : CLogger) : CLogger :=
  if c.level &&& LOG_ERROR ≠ 0 ∧ cfg.m_bEnableErrorsToNotificationSystem then
    let m_notification_log := push ⟨c.notified, c.level, szIntLog cfg c⟩ s.m_notification_log
    { s with
      m_notification_log
      forced := s.forced ||
        (m_notification_log.length == 1 && 5 ≤ c.compared - s.m_LastLogNotificationsSend) }
  else s

/-- An error is coloured on the console from its 25th byte on, and an exception raised if it has
none. -/
def coloured (cfg : Config) (c : Call) : Bool :=
  cfg.g_bRunAsDaemon || c.level != LOG_ERROR || (substrFrom? (szIntLog cfg c) 25).isSome

/-- The line that a call adds to its buffer. -/
def line (cfg : Config) (c : Call) : LogLine := ⟨c.logtime, c.level, szIntLog cfg c⟩

/-- `CLogger::Log`, and whether it returns. -/
def log (cfg : Config) (s : CLogger) (c : Call) : Bool × CLogger :=
  if cfg.isLogLevelEnabled c.level then
    let s := notify cfg c s
    if coloured cfg c then
      let m_lastlog := s.m_lastlog.alter c.level fun itt =>
        itt.elim [line cfg c] (push (line cfg c))
      (true, { s with m_lastlog })
    else (false, s)
  else (true, s)

/-- The logger after some calls. -/
def logAll (cfg : Config) (calls : List Call) : CLogger :=
  calls.foldl (fun s c => (log cfg s c).2) {}

/-- The lines that `GetLog` takes from a buffer. -/
def since (lastlogtime : ℤ) (buffer : List LogLine) : List LogLine :=
  buffer.filter fun itt => lastlogtime < itt.logtime

/-- `CLogger::GetLog`. -/
def getLog (s : CLogger) (level : Level) (lastlogtime : ℤ) : List LogLine :=
  stableSort LogLine.logtime <|
    if level ≠ LOG_ALL then (s.m_lastlog.find? level).elim [] (since lastlogtime)
    else s.m_lastlog.entries.flatMap fun itt => since lastlogtime itt.2

/-! ### What is asked of it -/

/-- The buffer of a level. -/
def CLogger.buffer (s : CLogger) (level : Level) : List LogLine := (s.m_lastlog.find? level).getD []

/-- The lines that were logged at a level. -/
def logged (cfg : Config) (calls : List Call) (level : Level) : List LogLine :=
  (calls.filter fun c => cfg.isLogLevelEnabled c.level && c.level == level).map (line cfg)

/-- The last of them. -/
def retained (cfg : Config) (calls : List Call) (level : Level) : List LogLine :=
  (logged cfg calls level).rtake MAX_LOG_LINE_BUFFER

/-- A result of `GetLog` reports the lines that are retained of a level, or of all: the lines of a
level and a time, in the order in which they were logged, and all by their time. -/
structure Reports (retained : Level → List LogLine) (level : Level) (lastlogtime : ℤ)
    (result : List LogLine) : Prop where
  lines : ∀ (l : Level) (t : ℤ), result.filter (fun itt => itt.level == l && itt.logtime == t) =
    if (level = LOG_ALL ∨ l = level) ∧ lastlogtime < t then
      (retained l).filter fun itt => itt.logtime == t
    else []
  sorted : result.Pairwise fun a b => a.logtime ≤ b.logtime

/-- What is asked of the logger after some calls. -/
structure Right (cfg : Config) (calls : List Call) : Prop where
  buffers : ∀ level, (logAll cfg calls).buffer level = retained cfg calls level
  reports : ∀ level lastlogtime, Reports (retained cfg calls) level lastlogtime
    (getLog (logAll cfg calls) level lastlogtime)

/-- A call whose line is shorter than what is coloured otherwise. -/
structure CutShort (cfg : Config) (c : Call) : Prop where
  enabled : cfg.isLogLevelEnabled c.level = true
  foreground : cfg.g_bRunAsDaemon = false
  error : c.level = LOG_ERROR
  bare : cfg.m_bEnableLogTimestamps = false
  short : (threadId cfg c).length + (cbuffer c).length < 18

/-! ### Short lines -/

theorem le_length_setw (n : ℕ) (s : Bytes) : n ≤ (setw n s).length := by
  rw [setw, List.length_append, List.length_replicate]
  omega

/-- A time stamp is longer than what a line without one needs. -/
theorem le_length_stamp {cfg : Config} (h : cfg.m_bEnableLogTimestamps = true) (c : Call) :
    18 ≤ (stamp cfg c).length := by
  have hyear := List.length_pos_of_ne_nil (decimal_ne_nil (c.localtime.tm_year + 1900))
  have hms := le_length_setw 3 (decimal c.localtime.ms)
  have hpart (z : ℤ) := le_length_setw 2 (decimal z)
  have hmon := hpart (c.localtime.tm_mon + 1)
  have hmday := hpart c.localtime.tm_mday
  have hhour := hpart c.localtime.tm_hour
  have hmin := hpart c.localtime.tm_min
  have hsec := hpart c.localtime.tm_sec
  have hdash : (str "-").length = 1 := rfl
  have hcolon : (str ":").length = 1 := rfl
  rw [stamp, if_pos h, LocalTime.toText]
  simp only [List.length_append]
  omega

/-- The line of an error. -/
theorem length_szIntLog (cfg : Config) {c : Call} (h : c.level = LOG_ERROR) :
    (szIntLog cfg c).length =
      (stamp cfg c).length + (threadId cfg c).length + 7 + (cbuffer c).length := by
  have hname : (levelName c.level).length = 7 := by
    rw [h]
    rfl
  rw [szIntLog, List.length_append, List.length_append, List.length_append, hname]

/-- A call that is carried out is coloured unless it is cut short. -/
theorem coloured_eq_false_iff {cfg : Config} {c : Call}
    (henabled : cfg.isLogLevelEnabled c.level = true) :
    coloured cfg c = false ↔ CutShort cfg c := by
  have hsome : (substrFrom? (szIntLog cfg c) 25).isSome = false ↔ (szIntLog cfg c).length < 25 := by
    rw [substrFrom?]
    split
    · next h => exact iff_of_false (fun h => by cases h) (by omega)
    · next h => exact iff_of_true rfl (by omega)
  rw [coloured, Bool.or_eq_false_iff, Bool.or_eq_false_iff, hsome, bne_eq_false_iff_eq]
  constructor
  · rintro ⟨⟨hdaemon, herror⟩, hshort⟩
    rw [length_szIntLog cfg herror] at hshort
    have hbare : cfg.m_bEnableLogTimestamps = false := by
      by_contra hstamp
      have hle := le_length_stamp (Bool.not_eq_false _ ▸ hstamp) c
      omega
    exact ⟨henabled, hdaemon, herror, hbare, by omega⟩
  · intro h
    have hstamp : (stamp cfg c).length = 0 := by
      rw [stamp, h.bare, if_neg Bool.false_ne_true]
      rfl
    have hshort := h.short
    rw [length_szIntLog cfg h.error, hstamp]
    exact ⟨⟨h.foreground, h.error⟩, by omega⟩

/-! ### Buffers -/

section Run

variable {cfg : Config} {calls : List Call} {c : Call}

/-- A buffer with the last lines has the last lines after one was added. -/
theorem push_rtake (x : LogLine) (l : List LogLine) :
    push x (l.rtake MAX_LOG_LINE_BUFFER) = (l ++ [x]).rtake MAX_LOG_LINE_BUFFER := by
  rw [push, show MAX_LOG_LINE_BUFFER = 99 + 1 from rfl, List.rtake_concat_succ]
  congr 1
  rw [List.rtake, List.rtake, List.length_drop]
  split
  · rw [List.tail_drop]
    congr 1
    omega
  · rw [show l.length - (99 + 1) = l.length - 99 by omega]

theorem logAll_concat : logAll cfg (calls ++ [c]) = (log cfg (logAll cfg calls) c).2 :=
  List.foldl_concat ..

theorem logged_concat (level : Level) : logged cfg (calls ++ [c]) level = logged cfg calls level ++
    if cfg.isLogLevelEnabled c.level = true ∧ c.level = level then [line cfg c] else [] := by
  rw [logged, List.filter_append, List.map_append]
  congr 1
  by_cases h : cfg.isLogLevelEnabled c.level = true ∧ c.level = level
  · rw [if_pos h, List.filter_cons_of_pos (by simpa using h)]
    rfl
  · rw [if_neg h, List.filter_cons_of_neg (by simpa using h)]
    rfl

/-- The notifications have no part in the buffers. -/
theorem m_lastlog_notify (s : CLogger) : (notify cfg c s).m_lastlog = s.m_lastlog := by
  unfold notify
  split
  · rfl
  · rfl

/-- A call that is carried out adds its line to the buffer of its level. -/
theorem buffer_log (s : CLogger) (henabled : cfg.isLogLevelEnabled c.level = true)
    (h : ¬ CutShort cfg c) (level : Level) : (log cfg s c).2.buffer level =
      if c.level = level then push (line cfg c) (s.buffer level) else s.buffer level := by
  have hcoloured : coloured cfg c = true := by
    rw [← Bool.not_eq_false, coloured_eq_false_iff henabled]
    exact h
  rw [log, if_pos henabled, if_pos hcoloured]
  simp only [CLogger.buffer, m_lastlog_notify]
  split
  · next hlevel =>
    rw [hlevel, SortedMap.find?_alter_self, Option.getD_some]
    cases s.m_lastlog.find? level with
    | none => rfl
    | some buffer => rfl
  · next hlevel => rw [SortedMap.find?_alter_of_ne _ _ (Ne.symm hlevel)]

/-- Any other call leaves the buffers as they are. -/
theorem buffer_log_of_cutShort (s : CLogger)
    (h : cfg.isLogLevelEnabled c.level = true → CutShort cfg c) (level : Level) :
    (log cfg s c).2.buffer level = s.buffer level := by
  unfold log
  split
  · next henabled =>
    rw [(coloured_eq_false_iff henabled).mpr (h henabled), if_neg Bool.false_ne_true,
      CLogger.buffer, m_lastlog_notify, CLogger.buffer]
  · rfl

/-- The buffers after calls that return. -/
theorem buffers_eq (h : ∀ c ∈ calls, ¬ CutShort cfg c) (level : Level) :
    (logAll cfg calls).buffer level = retained cfg calls level := by
  induction calls using List.reverseRecOn with
  | nil => rfl
  | append_singleton calls c ih =>
    obtain ⟨hcalls, hc⟩ := List.forall_mem_append.mp h
    have ih := ih hcalls
    rw [logAll_concat, retained, logged_concat]
    by_cases henabled : cfg.isLogLevelEnabled c.level = true
    · rw [buffer_log _ henabled (hc c (List.mem_singleton_self c)), ih, retained]
      by_cases hlevel : c.level = level
      · rw [if_pos hlevel, if_pos ⟨henabled, hlevel⟩, push_rtake]
      · rw [if_neg hlevel, if_neg fun hand => hlevel hand.2, List.append_nil]
    · rw [buffer_log_of_cutShort _ (fun hen => absurd hen henabled), ih, retained,
        if_neg fun hand => henabled hand.1, List.append_nil]

/-! ### Reports -/

/-- The lines that are retained of a level are of that level. -/
theorem level_of_mem_retained {level : Level} {x : LogLine} (h : x ∈ retained cfg calls level) :
    x.level = level := by
  have hmem : x ∈ logged cfg calls level := List.mem_of_mem_drop h
  obtain ⟨c, hc, rfl⟩ := List.mem_map.mp hmem
  have hboth := (List.mem_filter.mp hc).2
  rw [Bool.and_eq_true, beq_iff_eq] at hboth
  exact hboth.2

/-- Of the lines of a level and a time, those that `GetLog` takes from the buffer of a level. -/
theorem filter_since {retained : List LogLine} {level l : Level} {lastlogtime t : ℤ}
    (h : ∀ x ∈ retained, x.level = level) :
    (since lastlogtime retained).filter (fun itt => itt.level == l && itt.logtime == t) =
      if l = level ∧ lastlogtime < t then retained.filter fun itt => itt.logtime == t else [] := by
  rw [since, List.filter_filter]
  split
  · next hboth =>
    refine List.filter_congr fun x hx => ?_
    rw [h x hx, hboth.1, beq_self_eq_true, Bool.true_and]
    by_cases ht : x.logtime = t
    · simp [ht, hboth.2]
    · simp [ht]
  · next hnot =>
    rw [List.filter_eq_nil_iff]
    intro x hx hall
    simp only [Bool.and_eq_true, beq_iff_eq, decide_eq_true_eq] at hall
    obtain ⟨⟨hl, rfl⟩, hlt⟩ := hall
    exact hnot ⟨hl.symm.trans (h x hx), hlt⟩

/-- What is taken of a buffer that may not be there. -/
theorem elim_since {β : Type*} {s : CLogger} {level : Level} {lastlogtime : ℤ}
    (f : List LogLine → List β) (hnil : f [] = []) :
    (s.m_lastlog.find? level).elim [] (fun b => f (since lastlogtime b)) =
      f (since lastlogtime (s.buffer level)) := by
  rw [CLogger.buffer]
  cases s.m_lastlog.find? level with
  | none => exact hnil.symm
  | some b => rfl

/-- Buffers that are right are reported right. -/
theorem reports_of_buffers
    (h : ∀ level, (logAll cfg calls).buffer level = retained cfg calls level)
    (level : Level) (lastlogtime : ℤ) :
    Reports (retained cfg calls) level lastlogtime
      (getLog (logAll cfg calls) level lastlogtime) := by
  have hlevels (l : Level) : ∀ x ∈ (logAll cfg calls).buffer l, x.level = l := by
    intro x hx
    rw [h l] at hx
    exact level_of_mem_retained hx
  refine ⟨fun l t => ?_, pairwise_stableSort _ _⟩
  have hsame (a b : LogLine) (ha : (a.level == l && a.logtime == t) = true)
      (hb : (b.level == l && b.logtime == t) = true) : a.logtime = b.logtime := by
    rw [Bool.and_eq_true, beq_iff_eq, beq_iff_eq] at ha hb
    exact ha.2.trans hb.2.symm
  rw [getLog, filter_stableSort _ _ hsame, ← h l]
  by_cases hall : level = LOG_ALL
  · -- the lines of the level are in its own buffer only
    have hother (e : Level × List LogLine) (he : e ∈ (logAll cfg calls).m_lastlog.entries)
        (hne : e.1 ≠ l) : (since lastlogtime e.2).filter
          (fun itt => itt.level == l && itt.logtime == t) = [] := by
      have hbuffer : (logAll cfg calls).buffer e.1 = e.2 := by
        rw [CLogger.buffer, SortedMap.find?_of_mem _ he, Option.getD_some]
      have hlevel := hlevels e.1
      rw [hbuffer] at hlevel
      rw [filter_since hlevel, if_neg fun hand => hne hand.1.symm]
    rw [if_neg (not_not.mpr hall), List.filter_flatMap, SortedMap.flatMap_entries _ hother,
      elim_since (fun b => b.filter fun itt => itt.level == l && itt.logtime == t) rfl,
      filter_since (hlevels l)]
    simp only [true_and, hall, true_or]
  · have helim : ((logAll cfg calls).m_lastlog.find? level).elim [] (since lastlogtime) =
        since lastlogtime ((logAll cfg calls).buffer level) := elim_since id rfl
    rw [if_pos hall, helim, filter_since (hlevels level)]
    simp only [hall, false_or]
    by_cases hl : l = level
    · rw [hl]
    · rw [if_neg fun hand => hl hand.1, if_neg fun hand => hl hand.1]

/-- The condition holds of the last call of a run in which the buffers are right. -/
theorem not_cutShort_of_right (hcalls : ∀ c ∈ calls, ¬ CutShort cfg c)
    (hright : Right cfg (calls ++ [c])) : ¬ CutShort cfg c := by
  intro hc
  have hbuffer := hright.buffers c.level
  rw [logAll_concat, buffer_log_of_cutShort _ (fun _ => hc), buffers_eq hcalls, retained, retained,
    logged_concat, if_pos ⟨hc.enabled, rfl⟩, show MAX_LOG_LINE_BUFFER = 99 + 1 from rfl,
    List.rtake_concat_succ] at hbuffer
  -- the same line was retained before, and that call would have been cut short, too
  have hmem : line cfg c ∈ (logged cfg calls c.level).rtake (99 + 1) := by
    rw [hbuffer]
    exact List.mem_append_right _ (List.mem_singleton_self _)
  obtain ⟨c', hc', hline⟩ := List.mem_map.mp (List.mem_of_mem_drop hmem)
  obtain ⟨hmem', hboth⟩ := List.mem_filter.mp hc'
  rw [Bool.and_eq_true] at hboth
  obtain ⟨-, hlevel, htext⟩ := LogLine.mk.inj hline
  refine hcalls c' hmem' ((coloured_eq_false_iff hboth.1).mp ?_)
  rw [coloured, hlevel, htext, ← coloured]
  exact (coloured_eq_false_iff hc.enabled).mpr hc

end Run

/-- **The logger is right during a run exactly if no call is cut short.** -/
theorem right_run_iff (cfg : Config) (calls : List Call) :
    (∀ run, run <+: calls → Right cfg run) ↔ ∀ c ∈ calls, ¬ CutShort cfg c := by
  constructor
  · intro h
    induction calls using List.reverseRecOn with
    | nil => exact List.forall_mem_nil _
    | append_singleton calls c ih =>
      have hcalls := ih fun run hrun => h run (hrun.trans (List.prefix_append _ _))
      refine List.forall_mem_append.mpr ⟨hcalls, List.forall_mem_singleton.mpr ?_⟩
      exact not_cutShort_of_right hcalls (h _ (List.prefix_refl _))
  · intro h run hrun
    have hbuffers := buffers_eq fun c hc => h c (hrun.subset hc)
    exact ⟨hbuffers, reports_of_buffers hbuffers⟩

/-- A logger in the foreground whose lines have no time stamps. -/
def bareConfig : Config := { m_bEnableLogTimestamps := false }

/-- A short error. -/
def shortError : Call where
  level := LOG_ERROR
  text := str "Out of memory"
  localtime := ⟨120, 0, 1, 0, 0, 0, 0⟩
  pthread_self := 0
  notified := 0
  compared := 0
  logtime := 0

/-- The call ends with an exception, and the line is not kept. -/
theorem error_lost : (log bareConfig {} shortError).1 = false ∧
    (logAll bareConfig [shortError]).buffer LOG_ERROR = [] ∧ ¬ Right bareConfig [shortError] := by
  refine ⟨by decide, by decide, fun h => ?_⟩
  have hbuffer := h.buffers LOG_ERROR
  exact absurd hbuffer (by decide)

end Domoticz.Logger
