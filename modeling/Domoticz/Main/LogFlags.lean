import Domoticz.CLib.Search
import Domoticz.Main.Logger

/-!
# Lists of log flags

The options `-loglevel` and `-debuglevel` are comma separated lists of names, or a number.  Two
copies of one loop read them.  A number ends the loop wherever it stands; the copy for the debug
flags stores it as log flags, and misses an `else`, so that it does not know `all`.

## Main definitions

* `parse` — the loop, for a ladder of names.
* `setLogFlags`, `setDebugFlags` — `CLogger::SetLogFlags` and `CLogger::SetDebugFlags`.
* `Sets` — what is asked of either of them.
* `LogFlagsClear`, `DebugFlagsClear` — the lists that are read as they should be.

## Main results

* `parse_eq` — what the loop comes to, by the elements of the list.
* `flags_set_iff` — **the flags are set as asked exactly for these lists.**
* `wrong_word` — a number, `all` and a number in a list.
-/

namespace Domoticz.Logger

open CLib

/-! ### Splitting -/

/-- `StringSplit`, for a delimiter of one byte. -/
def stringSplit (delim : UInt8) (s : Bytes) : List Bytes :=
  match _h : cut [delim] s with
  | some (front, rest) => front :: stringSplit delim rest
  | none => if s = [] then [] else [s]
termination_by s.length
decreasing_by
  have hlength := length_of_cut _h
  rw [List.length_singleton] at hlength
  omega

/-- `stdstring_ltrim`. -/
def stdstringLtrim (s : Bytes) : Bytes := s.dropWhile (· == chr ' ')

/-- `stdstring_rtrim`. -/
def stdstringRtrim (s : Bytes) : Bytes := (s.reverse.dropWhile (· == chr ' ')).reverse

/-- `stdstring_trim`. -/
def stdstringTrim (s : Bytes) : Bytes := stdstringLtrim (stdstringRtrim s)

/-- `is_number`. -/
def isNumber (s : Bytes) : Bool :=
  s.all (fun b => isDigit 10 b || b == chr '.' || b == chr '-' || b == chr ' ' || b == 0) && s != []

/-- The elements of a comma separated list, trimmed, without the blank ones. -/
def elements (s : Bytes) : List Bytes :=
  ((s.splitOn (chr ',')).map stdstringTrim).filter (· ≠ [])

/-- `StringSplit` leaves out an empty element at the end. -/
theorem filter_stringSplit (s : Bytes) :
    ((stringSplit (chr ',') s).map stdstringTrim).filter (· ≠ []) = elements s := by
  induction hn : s.length using Nat.strong_induction_on generalizing s with
  | _ n ih =>
    unfold stringSplit elements
    split
    · next front rest h =>
      obtain ⟨rfl, hfront⟩ := cut_singleton_eq_some_iff.mp h
      rw [List.length_append, List.length_cons] at hn
      have hrest := ih rest.length (by omega) rest rfl
      rw [elements] at hrest
      rw [List.splitOn_append_cons_self_of_not_mem hfront, List.map_cons, List.map_cons,
        List.filter_cons, List.filter_cons, hrest]
    · next h =>
      rw [List.splitOn_eq_singleton (cut_singleton_eq_none_iff.mp h)]
      -- the text that is left is no element if it is empty, which would be a blank one
      split
      · next hs =>
        subst hs
        rfl
      · rfl

/-! ### The loop -/

/-- How the loop over a list ends. -/
inductive Parsed
  /-- `return true` at a number. -/
  | number (n : ℤ)
  /-- `return false`. -/
  | invalid
  /-- The loop is left at the end of the list. -/
  | flags (iFlags : ℕ)
  deriving DecidableEq, Repr

/-- The loop of `SetLogFlags` and `SetDebugFlags`.  A `ladder` adds the flag of a name to the flags
there are. -/
def parse (ladder : Bytes → ℕ → Option ℕ) : List Bytes → ℕ → Parsed
  | [], iFlags => .flags iFlags
  | itt :: flags, iFlags =>
      let wflag := stdstringTrim itt
      if wflag = [] then parse ladder flags iFlags
      else if isNumber wflag then .number (atoi (cstr wflag))
      else
        match ladder wflag iFlags with
        | some iFlags => parse ladder flags iFlags
        | none => .invalid

/-- The conversion of an `int` to a `uint32_t`. -/
def toUInt32 (z : ℤ) : ℕ := (z % 2 ^ 32).toNat

/-- `SetLogFlags` of a word. -/
def Config.setLogWord (cfg : Config) (iFlags : ℕ) : Config := { cfg with m_log_flags := iFlags }

/-- `SetDebugFlags` of a word. -/
def Config.setDebugWord (cfg : Config) (iFlags : ℕ) : Config := { cfg with m_debug_flags := iFlags }

/-- The names that `SetLogFlags` knows. -/
def logLadder (wflag : Bytes) (iFlags : ℕ) : Option ℕ :=
  if wflag = str "all" then some (iFlags ||| LOG_ALL)
  else if wflag = str "normal" then some (iFlags ||| LOG_NORM)
  else if wflag = str "status" then some (iFlags ||| LOG_STATUS)
  else if wflag = str "error" then some (iFlags ||| LOG_ERROR)
  else if wflag = str "debug" then some (iFlags ||| LOG_DEBUG_INT)
  else none

/-- What both functions do: whether they succeed, and the flags then.  `setNumber` sets a number and
`setFlags` the flags of the names. -/
def readFlags (ladder : Bytes → ℕ → Option ℕ) (setNumber setFlags : Config → ℕ → Config)
    (cfg : Config) (sFlags : Bytes) : Bool × Config :=
  match parse ladder (stringSplit (chr ',') sFlags) 0 with
  | .number n => (true, setNumber cfg (toUInt32 n))
  | .invalid => (false, cfg)
  | .flags iFlags => (true, setFlags cfg iFlags)

/-- `CLogger::SetLogFlags`. -/
def setLogFlags (cfg : Config) (sFlags : Bytes) : Bool × Config :=
  readFlags logLadder Config.setLogWord Config.setLogWord cfg sFlags

/-- `DEBUG_HARDWARE`. -/
def DEBUG_HARDWARE : ℕ := 0x0000002

/-- `DEBUG_RECEIVED`. -/
def DEBUG_RECEIVED : ℕ := 0x0000004

/-- `DEBUG_WEBSERVER`. -/
def DEBUG_WEBSERVER : ℕ := 0x0000008

/-- `DEBUG_EVENTSYSTEM`. -/
def DEBUG_EVENTSYSTEM : ℕ := 0x0000010

/-- `DEBUG_PYTHON`. -/
def DEBUG_PYTHON : ℕ := 0x0000020

/-- `DEBUG_ALL`. -/
def DEBUG_ALL : ℕ := 0xFFFFFFF

/-- The names that `SetDebugFlags` knows.  There is no `else` behind `all`. -/
def debugLadder (wflag : Bytes) (iFlags : ℕ) : Option ℕ :=
  let iFlags := if wflag = str "all" then iFlags ||| DEBUG_ALL else iFlags
  if wflag = str "normal" then some (iFlags ||| DEBUG_NORM)
  else if wflag = str "hardware" then some (iFlags ||| DEBUG_HARDWARE)
  else if wflag = str "received" then some (iFlags ||| DEBUG_RECEIVED)
  else if wflag = str "webserver" then some (iFlags ||| DEBUG_WEBSERVER)
  else if wflag = str "eventsystem" then some (iFlags ||| DEBUG_EVENTSYSTEM)
  else if wflag = str "python" then some (iFlags ||| DEBUG_PYTHON)
  else if wflag = str "thread_id" then some (iFlags ||| DEBUG_THREADIDS)
  else none

/-- `CLogger::SetDebugFlags`.  A number is set with `SetLogFlags`. -/
def setDebugFlags (cfg : Config) (sFlags : Bytes) : Bool × Config :=
  readFlags debugLadder Config.setLogWord Config.setDebugWord cfg sFlags

/-! ### What the names stand for -/

/-- Names, and the flags that they stand for. -/
abbrev Names := List (Bytes × ℕ)

/-- The names that `SetLogFlags` knows. -/
def logNames : Names :=
  [(str "all", LOG_ALL), (str "normal", LOG_NORM), (str "status", LOG_STATUS),
    (str "error", LOG_ERROR), (str "debug", LOG_DEBUG_INT)]

/-- The names of debug flags without `all`. -/
def debugNames : Names :=
  [(str "normal", DEBUG_NORM), (str "hardware", DEBUG_HARDWARE), (str "received", DEBUG_RECEIVED),
    (str "webserver", DEBUG_WEBSERVER), (str "eventsystem", DEBUG_EVENTSYSTEM),
    (str "python", DEBUG_PYTHON), (str "thread_id", DEBUG_THREADIDS)]

/-- The names that `SetDebugFlags` knows. -/
def allDebugNames : Names := (str "all", DEBUG_ALL) :: debugNames

/-- The flags of a name. -/
def flagOf (names : Names) (e : Bytes) : Option ℕ := (names.find? (·.1 == e)).map (·.2)

/-- The flags of all names in a list. -/
def union (names : Names) (es : List Bytes) : ℕ :=
  es.foldl (fun iFlags e => iFlags ||| (flagOf names e).getD 0) 0

/-- A text that is not one of the names. -/
def unnamed (names : Names) (e : Bytes) : Bool := (flagOf names e).isNone

/-- Every element of a list is a name. -/
def Documented (names : Names) (es : List Bytes) : Prop := ∀ e ∈ es, unnamed names e = false

instance (names : Names) (es : List Bytes) : Decidable (Documented names es) :=
  inferInstanceAs (Decidable (∀ e ∈ es, _))

/-- A text is the number: digits, with a minus or without. -/
inductive Denotes : Bytes → ℤ → Prop
  | digits {ds : Bytes} (h : Numeral ds) : Denotes ds (digitsValue 10 ds)
  | minus {ds : Bytes} (h : Numeral ds) : Denotes (chr '-' :: ds) (-(digitsValue 10 ds : ℤ))

/-- The list is a single number. -/
def Single (es : List Bytes) (n : ℤ) : Prop := ∃ e, es = [e] ∧ Denotes e n

/-- What is asked of the reading of a list: when it succeeds, and what becomes of its `own` flags
and of the `other` ones. -/
structure Sets (names : Names) (own other : Config → ℕ) (cfg : Config) (sFlags : Bytes)
    (result : Bool × Config) : Prop where
  succeeds : result.1 = true ↔
    Documented names (elements sFlags) ∨ ∃ n, Single (elements sFlags) n
  names : Documented names (elements sFlags) → own result.2 = union names (elements sFlags)
  number : ∀ n, Single (elements sFlags) n → own result.2 = toUInt32 n
  failure : result.1 = false → own result.2 = own cfg
  other : other result.2 = other cfg

/-- The first element that is no name is not taken for a number, or it is the whole list and a
number that `strtol` reads. -/
def LogFlagsClear (sFlags : Bytes) : Prop :=
  ∀ e, (elements sFlags).find? (unnamed logNames) = some e →
    isNumber e = true →
      ∃ n, Single (elements sFlags) n ∧ toUInt32 (clampLong n) = toUInt32 n

/-- The same of debug flags, when both kinds of flags are already that number; and if the first
element that is no name is `all`, then there is one that is no name at all. -/
def DebugFlagsClear (cfg : Config) (sFlags : Bytes) : Prop :=
  ∀ e, (elements sFlags).find? (unnamed debugNames) = some e →
    (isNumber e = true →
      ∃ n, Single (elements sFlags) n ∧ cfg.m_debug_flags = toUInt32 n ∧
        cfg.m_log_flags = toUInt32 (clampLong n)) ∧
    (e = str "all" → ¬ Documented allDebugNames (elements sFlags))

/-! ### Numbers -/

theorem toUInt32_toInt32 (z : ℤ) : toUInt32 (toInt32 z) = toUInt32 z := by
  rw [toUInt32, toUInt32, toInt32]
  congr 1
  exact Int.bmod_emod

/-- A number is taken for one. -/
theorem isNumber_of_denotes {e : Bytes} {n : ℤ} (h : Denotes e n) : isNumber e = true := by
  have hdigits {ds : Bytes} (hds : Numeral ds) :
      ds.all (fun b => isDigit 10 b || b == chr '.' || b == chr '-' || b == chr ' ' || b == 0) =
        true := by
    rw [List.all_eq_true]
    intro b hb
    simp [List.all_eq_true.mp hds.2 b hb]
  cases h with
  | digits hds => simpa [isNumber, hdigits hds] using hds.1
  | minus hds => simp [isNumber, hdigits hds]

/-- A text is one number. -/
theorem Denotes.unique {e : Bytes} {n n' : ℤ} (h : Denotes e n) (h' : Denotes e n') : n = n' := by
  have hminus (ds : Bytes) : ¬ Numeral (chr '-' :: ds) := by
    intro hds
    exact absurd (List.all_eq_true.mp hds.2 _ List.mem_cons_self) (by decide)
  cases h with
  | digits hds =>
    cases h' with
    | digits => rfl
    | minus => exact absurd hds (hminus _)
  | minus =>
    cases h' with
    | digits hds => exact absurd hds (hminus _)
    | minus => rfl

/-- What `atoi` makes of a number. -/
theorem atoi_of_denotes {e : Bytes} {n : ℤ} (h : Denotes e n) :
    atoi (cstr e) = toInt32 (clampLong n) := by
  cases h with
  | digits hds => rw [cstr_of_numeral hds, atoi, strtol_numeral hds]
  | @minus ds hds =>
    have hzero : (0 : UInt8) ∉ chr '-' :: ds := by
      intro h
      rcases List.mem_cons.mp h with h | h
      · cases h
      · exact absurd (List.all_eq_true.mp hds.2 0 h) (by decide)
    have hsign : takeSign ((chr '-' :: ds).dropWhile isSpace) = (true, ds ++ []) := by
      rw [List.append_nil]
      rfl
    rw [cstr_of_notMem hzero, atoi, strtol_of_takeSign hsign hds (by simp)]
    rfl

/-! ### The ladders -/

/-- A ladder that knows some names, none of which is taken for a number. -/
structure Knows (names : Names) (ladder : Bytes → ℕ → Option ℕ) : Prop where
  adds : ∀ wflag iFlags, ladder wflag iFlags = (flagOf names wflag).map (iFlags ||| ·)
  not_number : ∀ e, isNumber e = true → unnamed names e = true

theorem flagOf_nil (e : Bytes) : flagOf [] e = none := rfl

theorem flagOf_cons (name : Bytes) (flag : ℕ) (names : Names) (e : Bytes) :
    flagOf ((name, flag) :: names) e = if e = name then some flag else flagOf names e := by
  rw [flagOf, List.find?_cons]
  by_cases he : e = name
  · rw [if_pos he, beq_iff_eq.mpr he.symm]
    rfl
  · rw [if_neg he, beq_eq_false_iff_ne.mpr (Ne.symm he)]
    rfl

/-- Of names that are no numbers. -/
theorem unnamed_of_isNumber {names : Names} (h : ∀ n ∈ names, isNumber n.1 = false) {e : Bytes}
    (he : isNumber e = true) : unnamed names e = true := by
  have hnone : names.find? (·.1 == e) = none := by
    rw [List.find?_eq_none]
    intro n hn heq
    rw [← beq_iff_eq.mp heq, h n hn] at he
    cases he
  rw [unnamed, flagOf, hnone]
  rfl

theorem logLadder_knows : Knows logNames logLadder where
  adds := by
    intro wflag iFlags
    simp only [logNames, flagOf_cons, flagOf_nil, apply_ite (Option.map _), Option.map_some,
      Option.map_none]
    rfl
  not_number := by
    intro e
    exact unnamed_of_isNumber (by decide)

/-- Behind `all` the ladder of the debug flags goes on, and finds no name. -/
theorem debugLadder_knows : Knows debugNames debugLadder where
  adds := by
    intro wflag iFlags
    simp only [debugNames, flagOf_cons, flagOf_nil, apply_ite (Option.map _), Option.map_some,
      Option.map_none]
    -- what was added for `all` is lost when no other name fits
    by_cases hall : wflag = str "all"
    · subst hall
      rfl
    · simp only [debugLadder, if_neg hall]
  not_number := by
    intro e
    exact unnamed_of_isNumber (by decide)

/-! ### The loop by the elements -/

section Loop

variable {names : Names} {ladder : Bytes → ℕ → Option ℕ} (h : Knows names ladder)

include h

/-- The loop stops at the first element that is no name. -/
theorem parse_eq (flags : List Bytes) (iFlags : ℕ) :
    parse ladder flags iFlags =
      (((flags.map stdstringTrim).filter (· ≠ [])).find? (unnamed names)).elim
        (.flags (((flags.map stdstringTrim).filter (· ≠ [])).foldl
          (fun iFlags e => iFlags ||| (flagOf names e).getD 0) iFlags))
        (fun e => if isNumber e then .number (atoi (cstr e)) else .invalid) := by
  induction flags generalizing iFlags with
  | nil => rfl
  | cons itt flags ih =>
    rw [parse, List.map_cons]
    by_cases hblank : stdstringTrim itt = []
    · rw [if_pos hblank, List.filter_cons_of_neg (by simp [hblank])]
      exact ih iFlags
    · rw [if_neg hblank, List.filter_cons_of_pos (by simp [hblank]), List.find?_cons,
        List.foldl_cons, h.adds]
      -- numbers are looked for before the names
      by_cases hnumber : isNumber (stdstringTrim itt) = true
      · rw [if_pos hnumber, h.not_number _ hnumber]
        exact (if_pos hnumber).symm
      · rw [if_neg hnumber]
        cases hflag : flagOf names (stdstringTrim itt) with
        | none =>
          simp only [unnamed, hflag, Option.isNone_none, Option.map_none, Option.elim_some]
          rw [if_neg hnumber]
        | some flag =>
          simp only [unnamed, hflag, Option.isNone_some, Option.map_some, Option.getD_some]
          exact ih (iFlags ||| flag)

/-- What a function does with a list, by its elements. -/
theorem readFlags_eq (setNumber setFlags : Config → ℕ → Config) (cfg : Config) (sFlags : Bytes) :
    readFlags ladder setNumber setFlags cfg sFlags =
      ((elements sFlags).find? (unnamed names)).elim
        (true, setFlags cfg (union names (elements sFlags)))
        (fun e => if isNumber e then (true, setNumber cfg (toUInt32 (atoi (cstr e))))
          else (false, cfg)) := by
  rw [readFlags, parse_eq h, filter_stringSplit]
  cases (elements sFlags).find? (unnamed names) with
  | none => rfl
  | some e =>
    rw [Option.elim_some, Option.elim_some]
    by_cases he : isNumber e = true
    · rw [if_pos he, if_pos he]
    · rw [if_neg he, if_neg he]

end Loop

/-! ### What is asked, in the three cases -/

/-- A single number is the only element. -/
theorem Single.eq_of_mem {es : List Bytes} {n : ℤ} (h : Single es n) {e : Bytes} (he : e ∈ es) :
    es = [e] ∧ Denotes e n := by
  obtain ⟨e', rfl, hdenotes⟩ := h
  rw [List.mem_singleton.mp he]
  exact ⟨rfl, hdenotes⟩

theorem Single.unique {es : List Bytes} {n n' : ℤ} (h : Single es n) (h' : Single es n') :
    n = n' := by
  obtain ⟨e, rfl, hdenotes⟩ := h
  exact hdenotes.unique (h'.eq_of_mem List.mem_cons_self).2

section Cases

variable {names : Names} {own other : Config → ℕ} {cfg : Config} {sFlags : Bytes} {e : Bytes}

/-- All elements are names. -/
theorem sets_of_documented (hnumber : ∀ e, isNumber e = true → unnamed names e = true)
    (hnames : Documented names (elements sFlags)) {cfg' : Config}
    (hown : own cfg' = union names (elements sFlags)) (hother : other cfg' = other cfg) :
    Sets names own other cfg sFlags (true, cfg') where
  succeeds := iff_of_true rfl (.inl hnames)
  names := by
    intro _
    exact hown
  number := by
    rintro n ⟨e, he, hdenotes⟩
    have hunnamed := hnumber e (isNumber_of_denotes hdenotes)
    rw [hnames e (by simp [he])] at hunnamed
    cases hunnamed
  failure := by
    intro h
    cases h
  other := hother

/-- The list is refused. -/
theorem sets_of_refused_iff :
    Sets names own other cfg sFlags (false, cfg) ↔
      ¬ Documented names (elements sFlags) ∧ ∀ n, ¬ Single (elements sFlags) n := by
  constructor
  · intro h
    have hnot := mt h.succeeds.mpr Bool.false_ne_true
    rw [not_or, not_exists] at hnot
    exact hnot
  · rintro ⟨hnames, hsingle⟩
    refine ⟨iff_of_false Bool.false_ne_true ?_, ?_, ?_, ?_, rfl⟩
    · rintro (h | ⟨n, h⟩)
      · exact hnames h
      · exact hsingle n h
    · intro h
      exact absurd h hnames
    · intro n h
      exact absurd h (hsingle n)
    · intro _
      rfl

/-- The list succeeds although an element is no name. -/
theorem sets_of_unnamed_iff (he : e ∈ elements sFlags) (hunnamed : unnamed names e = true)
    {cfg' : Config} :
    Sets names own other cfg sFlags (true, cfg') ↔
      ∃ n, Single (elements sFlags) n ∧ own cfg' = toUInt32 n ∧ other cfg' = other cfg := by
  have hnames : ¬ Documented names (elements sFlags) := by
    intro h
    rw [h e he] at hunnamed
    cases hunnamed
  constructor
  · intro h
    obtain ⟨n, hn⟩ := (h.succeeds.mp rfl).resolve_left hnames
    exact ⟨n, hn, h.number n hn, h.other⟩
  · rintro ⟨n, hn, hown, hother⟩
    refine ⟨iff_of_true rfl (.inr ⟨n, hn⟩), ?_, ?_, ?_, hother⟩
    · intro h
      exact absurd h hnames
    · intro n' hn'
      rw [hown, hn.unique hn']
    · intro h
      cases h

end Cases

/-! ### Main results -/

/-- Both functions, by the first element that the ladder does not know. -/
theorem sets_readFlags_iff {names known : Names} {ladder : Bytes → ℕ → Option ℕ}
    (setNumber setFlags : Config → ℕ → Config) (own other : Config → ℕ)
    (hladder : Knows known ladder) (hnumber : ∀ e, isNumber e = true → unnamed names e = true)
    (hknown : ∀ e, unnamed known e = false → flagOf names e = flagOf known e)
    (hown : ∀ cfg iFlags, own (setFlags cfg iFlags) = iFlags)
    (hother : ∀ cfg iFlags, other (setFlags cfg iFlags) = other cfg) (cfg : Config)
    (sFlags : Bytes) :
    Sets names own other cfg sFlags (readFlags ladder setNumber setFlags cfg sFlags) ↔
      ∀ e, (elements sFlags).find? (unnamed known) = some e →
        if isNumber e then ∃ n, Single (elements sFlags) n ∧
          own (setNumber cfg (toUInt32 (clampLong n))) = toUInt32 n ∧
            other (setNumber cfg (toUInt32 (clampLong n))) = other cfg
        else ¬ Documented names (elements sFlags) := by
  rw [readFlags_eq hladder]
  cases hfind : (elements sFlags).find? (unnamed known) with
  | none =>
    have hall : ∀ e ∈ elements sFlags, unnamed known e = false := by
      intro e he
      simpa using List.find?_eq_none.mp hfind e he
    have hnames : Documented names (elements sFlags) := by
      intro e he
      rw [unnamed, hknown e (hall e he)]
      exact hall e he
    have hunion : union known (elements sFlags) = union names (elements sFlags) := by
      refine List.foldl_ext _ _ _ fun iFlags e he => ?_
      rw [hknown e (hall e he)]
    refine iff_of_true (sets_of_documented hnumber hnames ?_ (hother _ _)) ?_
    · rw [hown, hunion]
    · intro e he
      cases he
  | some e =>
    have hmem := List.mem_of_find?_eq_some hfind
    simp only [Option.elim_some, Option.some.injEq, forall_eq']
    by_cases hnum : isNumber e = true
    · rw [if_pos hnum, if_pos hnum, sets_of_unnamed_iff hmem (hnumber e hnum)]
      refine exists_congr fun n => and_congr_right fun hn => ?_
      rw [atoi_of_denotes (hn.eq_of_mem hmem).2, toUInt32_toInt32]
    · rw [if_neg hnum, if_neg hnum, sets_of_refused_iff, and_iff_left_iff_imp]
      intro _ n hn
      exact hnum (isNumber_of_denotes (hn.eq_of_mem hmem).2)

theorem setLogFlags_iff (cfg : Config) (sFlags : Bytes) :
    Sets logNames Config.m_log_flags Config.m_debug_flags cfg sFlags (setLogFlags cfg sFlags) ↔
      LogFlagsClear sFlags := by
  rw [setLogFlags, sets_readFlags_iff Config.setLogWord Config.setLogWord Config.m_log_flags
    Config.m_debug_flags logLadder_knows logLadder_knows.not_number (fun _ _ => rfl)
    (fun _ _ => rfl) (fun _ _ => rfl), LogFlagsClear]
  refine forall_congr' fun e => forall_congr' fun he => ?_
  by_cases hnumber : isNumber e = true
  · rw [if_pos hnumber, imp_iff_right hnumber]
    refine exists_congr fun n => and_congr_right fun _ => ?_
    exact and_iff_left rfl
  · rw [if_neg hnumber]
    refine iff_of_true ?_ fun h => absurd h hnumber
    intro hnames
    have hunnamed : unnamed logNames e = true := List.find?_some he
    rw [hnames e (List.mem_of_find?_eq_some he)] at hunnamed
    cases hunnamed

/-- A name of the ladder has the flags that it is to have. -/
theorem flagOf_allDebugNames {e : Bytes} (h : unnamed debugNames e = false) :
    flagOf allDebugNames e = flagOf debugNames e := by
  rw [allDebugNames, flagOf_cons, if_neg]
  rintro rfl
  exact absurd h (by decide)

theorem setDebugFlags_iff (cfg : Config) (sFlags : Bytes) :
    Sets allDebugNames Config.m_debug_flags Config.m_log_flags cfg sFlags
      (setDebugFlags cfg sFlags) ↔ DebugFlagsClear cfg sFlags := by
  have hnumber (e : Bytes) (he : isNumber e = true) : unnamed allDebugNames e = true :=
    unnamed_of_isNumber (by decide) he
  rw [setDebugFlags, sets_readFlags_iff Config.setLogWord Config.setDebugWord
    Config.m_debug_flags Config.m_log_flags debugLadder_knows hnumber
    (fun _ h => flagOf_allDebugNames h) (fun _ _ => rfl) (fun _ _ => rfl), DebugFlagsClear]
  refine forall_congr' fun e => forall_congr' fun he => ?_
  by_cases hnum : isNumber e = true
  · -- a number is written to the log flags: it is harmless only where both were it already
    have hall : e ≠ str "all" := by
      rintro rfl
      exact absurd hnum (by decide)
    rw [if_pos hnum, imp_iff_right hnum, and_iff_left fun h => absurd h hall]
    refine exists_congr fun n => and_congr_right fun _ => and_congr_right fun _ => ?_
    exact eq_comm
  · rw [if_neg hnum, and_iff_right fun h => absurd h hnum]
    constructor
    · intro h _
      exact h
    · intro h hnames
      by_cases hall : e = str "all"
      · exact h hall hnames
      · have hunnamed : unnamed debugNames e = true := List.find?_some he
        have hdocumented := hnames e (List.mem_of_find?_eq_some he)
        rw [unnamed, allDebugNames, flagOf_cons, if_neg hall, ← unnamed, hunnamed] at hdocumented
        cases hdocumented

/-- **The flags are set as asked exactly for these lists.** -/
theorem flags_set_iff (cfg : Config) (sFlags : Bytes) :
    (Sets logNames Config.m_log_flags Config.m_debug_flags cfg sFlags (setLogFlags cfg sFlags) ↔
      LogFlagsClear sFlags) ∧
    (Sets allDebugNames Config.m_debug_flags Config.m_log_flags cfg sFlags
      (setDebugFlags cfg sFlags) ↔ DebugFlagsClear cfg sFlags) :=
  ⟨setLogFlags_iff cfg sFlags, setDebugFlags_iff cfg sFlags⟩

/-- A number becomes the log flags, `all` is refused, and behind a number everything is
accepted. -/
theorem wrong_word :
    ¬ Sets allDebugNames Config.m_debug_flags Config.m_log_flags {} (str "8")
        (setDebugFlags {} (str "8")) ∧
      ¬ Sets allDebugNames Config.m_debug_flags Config.m_log_flags {} (str "all")
        (setDebugFlags {} (str "all")) ∧
      ¬ Sets logNames Config.m_log_flags Config.m_debug_flags {} (str "status,1,bogus")
        (setLogFlags {} (str "status,1,bogus")) := by
  refine ⟨?_, ?_, ?_⟩
  · rw [setDebugFlags, readFlags_eq debugLadder_knows]
    intro h
    exact absurd h.other (by decide)
  · rw [setDebugFlags, readFlags_eq debugLadder_knows]
    intro h
    exact absurd (h.succeeds.mpr (.inl (by decide))) (by decide)
  · rw [setLogFlags, readFlags_eq logLadder_knows]
    intro h
    rcases h.succeeds.mp (by decide) with hnames | ⟨n, e, he, -⟩
    · exact absurd hnames (by decide)
    · have hlength : (elements (str "status,1,bogus")).length = 3 := by decide
      rw [he] at hlength
      cases hlength

end Domoticz.Logger
