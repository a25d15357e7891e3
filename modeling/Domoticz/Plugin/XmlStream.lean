import Mathlib.Data.List.DropRight
import Domoticz.CLib.Search
import Domoticz.Stream.Known
import Domoticz.Text.Xml

/-!
# Decoding a stream of XML elements

`CPluginProtocolXML::ProcessInbound` in `PluginProtocols.cpp` takes the name of the
first tag in its buffer and looks for the end tag with that name.  What stands up to it
is a message; one more byte is skipped if there is one.

## Main definitions

* `State` — what the protocol keeps between reads.
* `topLevel`, `loop`, `processInbound`, `run` — the code.
* `KeepsUp` — after every read all complete elements are delivered and the rest is retained.
* `Clean` — the buffers whose elements the code can tell apart.

## Main results

* `keepsUp_elements_iff` — **the protocol keeps up exactly with clean buffers.**
* `adjacent_element_lost` — of two elements side by side the second is lost.
-/

namespace Domoticz.XmlStream

open CLib Stream Text Text.Xml

/-! ### The code -/

/-- The members of `CPluginProtocolXML`. -/
structure State where
  m_Tag : Bytes := []
  m_sRetainedData : Bytes := []

/-- Step over `<?xml version="1.0" encoding="utf-8"?>` if present.  Without a `?>` the position
of its end is `npos`, which is -1 as an `int`, and one byte is stepped over. -/
def skipDeclaration (sData : Bytes) : Bytes :=
  if contains sData (str "<?xml") then
    match find (str "?>") sData with
    | some iEnd => sData.drop (iEnd + 2)
    | none => sData.drop 1
  else sData

/-- The name of the tag that `sData` starts with, if its end is there. -/
def tagName (sData : Bytes) : Bytes :=
  match sData.findIdx? (fun b => b == chr ' ' || b == chr '>') with
  | some iEnd => (sData.drop 1).take (iEnd - 1)
  | none => []

/-- The tag to look for and the text to look in; none if there is no start of a tag. -/
def topLevel (m_Tag sData : Bytes) : Option (Bytes × Bytes) :=
  if m_Tag = [] then
    (find [chr '<'] (skipDeclaration sData)).map fun iStart =>
      (tagName ((skipDeclaration sData).drop iStart), (skipDeclaration sData).drop iStart)
  else some (m_Tag, sData)

/-- The end tag that is looked for. -/
def endTag (m_Tag : Bytes) : Bytes := str "</" ++ m_Tag ++ str ">"

theorem length_endTag (m_Tag : Bytes) : (endTag m_Tag).length = m_Tag.length + 3 := by
  have hopen : (str "</").length = 2 := rfl
  have hclose : (str ">").length = 1 := rfl
  rw [endTag, List.length_append, List.length_append, hopen, hclose]
  omega

theorem length_skipDeclaration_le (sData : Bytes) :
    (skipDeclaration sData).length ≤ sData.length := by
  unfold skipDeclaration
  split
  · split <;> exact (List.drop_sublist _ _).length_le
  · exact le_refl _

theorem length_topLevel_le {m_Tag sData tag text : Bytes}
    (h : topLevel m_Tag sData = some (tag, text)) :
    text.length ≤ sData.length := by
  unfold topLevel at h
  split at h
  · obtain ⟨iStart, -, heq⟩ := Option.map_eq_some_iff.mp h
    cases heq
    exact (List.drop_sublist _ _).length_le.trans (length_skipDeclaration_le sData)
  · cases h
    exact le_refl _

/-- The loop: what it delivers, and the state it leaves. -/
def loop (m_Tag sData : Bytes) : List Bytes × State :=
  match htop : topLevel m_Tag sData with
  | none => ([], ⟨m_Tag, skipDeclaration sData⟩)
  | some (tag, text) =>
      match hpos : find (endTag tag) text with
      | none => ([], ⟨tag, text⟩)
      | some iPos =>
          -- one byte behind the end tag goes as well
          let rest := if iPos + tag.length + 3 = text.length then []
            else text.drop (iPos + tag.length + 3 + 1)
          have : rest.length < sData.length := by
            have hle := length_topLevel_le htop
            have hend := find_add_length_le hpos
            rw [length_endTag] at hend
            have hrest : rest.length ≤ text.length - (tag.length + 3) := by
              unfold rest
              split
              · exact Nat.zero_le _
              · rw [List.length_drop]
                omega
            omega
          (text.take (iPos + tag.length + 3) :: (loop [] rest).1, (loop [] rest).2)
termination_by sData.length

/-- One read. -/
def processInbound (s : State) (m_Buffer : Bytes) : State × List Bytes :=
  ((loop s.m_Tag (s.m_sRetainedData ++ m_Buffer)).2, (loop s.m_Tag (s.m_sRetainedData ++ m_Buffer)).1)

/-- Reads one after the other, and all that is delivered. -/
def run (reads : List Bytes) : State × List Bytes :=
  reads.foldl (fun r read => ((processInbound r.1 read).1, r.2 ++ (processInbound r.1 read).2)) ({}, [])

/-! ### What is to be delivered -/

/-- Elements with white space in front of each. -/
def stream (items : List Spaced) : Bytes := Known.join Spaced.text items

/-- The reads in which a stream, or a beginning of it, arrives. -/
structure Arrival (items : List Spaced) where
  reads : List Bytes
  flatten_prefix : reads.flatten <+: stream items

/-- A text without the white space in front of it. -/
def strip (s : Bytes) : Bytes := s.dropWhile isWhitespace

/-- The elements that have arrived. -/
def arrived (items : List Spaced) (done : List Bytes) : List Spaced :=
  Known.complete Spaced.text items done.flatten

/-- What has arrived behind them. -/
def incomplete (items : List Spaced) (done : List Bytes) : Bytes :=
  Known.pending Spaced.text items done.flatten

/-- After every read the elements that have arrived are delivered, once, in order and with
their texts, and what has arrived of the next one is retained, whatever white space is in
front of it. -/
def KeepsUp {items : List Spaced} (a : Arrival items) : Prop :=
  ∀ done, done <+: a.reads →
    (run done).2 = (arrived items done).map (fun i => i.element.text) ∧
      strip (run done).1.m_sRetainedData = strip (incomplete items done)

/-- The elements that a read completes. -/
def completed (items : List Spaced) (done : List Bytes) (read : Bytes) : List Spaced :=
  (arrived items (done ++ [read])).drop (arrived items done).length

/-- If a tag is to be looked for, then there is no XML declaration to step over, or what is
stepped over is a byte of white space. -/
def Ready (m_Tag sData : Bytes) : Prop :=
  m_Tag = [] → contains sData (str "<?xml") = true → contains sData (str "?>") = false ∧
    ∃ b s, sData = b :: s ∧ isWhitespace b = true

/-- The first end tag with the name that stands in front of a blank or a `>` ends the text. -/
def Closes (text : Bytes) : Prop :=
  find (endTag (tagName text)) text = some (text.length - (endTag (tagName text)).length)

/-- The elements that a buffer completes close, each with nothing or white space behind it,
and what is behind the last one does not have the end tag of its first tag; no declaration
is stepped over in front of any of them. -/
def Clean : Bytes → Bytes → List Spaced → Prop
  | m_Tag, sData, [] => Ready m_Tag sData ∧ ¬ endTag (tagName (strip sData)) <:+: strip sData
  | m_Tag, sData, i :: items => Ready m_Tag sData ∧ Closes i.element.text ∧
      (∀ b, ((strip sData).drop i.element.text.length).head? = some b → isWhitespace b = true) ∧
      Clean [] ((strip sData).drop (i.element.text.length + 1)) items

/-! ### White space in front -/

theorem exists_space (s : Bytes) : ∃ ws, s = ws ++ strip s ∧ IsSpace ws := by
  refine ⟨s.takeWhile isWhitespace, List.takeWhile_append_dropWhile.symm, fun b hb => ?_⟩
  exact List.mem_takeWhile_imp hb

theorem strip_append {ws : Bytes} (h : IsSpace ws) (s : Bytes) : strip (ws ++ s) = strip s :=
  List.dropWhile_append_of_pos h

theorem strip_of_head {b : UInt8} {s : Bytes} (h : isWhitespace b = false) :
    strip (b :: s) = b :: s :=
  List.dropWhile_cons_of_neg (by rw [h]; exact Bool.false_ne_true)

theorem strip_strip (s : Bytes) : strip (strip s) = strip s :=
  List.dropWhile_idempotent _ _

theorem strip_append_congr {s t : Bytes} (h : strip s = strip t) (more : Bytes) :
    strip (s ++ more) = strip (t ++ more) := by
  obtain ⟨ws, hs, hws⟩ := exists_space s
  obtain ⟨ws', ht, hws'⟩ := exists_space t
  rw [hs, ht, List.append_assoc, List.append_assoc, strip_append hws, strip_append hws', h]

theorem strip_of_isSpace {ws : Bytes} (h : IsSpace ws) : strip ws = [] := by
  rw [← List.append_nil ws, strip_append h]
  rfl

theorem count_strip (s : Bytes) : (strip s).count (chr '<') = s.count (chr '<') := by
  obtain ⟨ws, hs, hws⟩ := exists_space s
  have hnone : ws.count (chr '<') = 0 := List.count_eq_zero_of_not_mem (hws.notMem rfl)
  calc (strip s).count (chr '<')
      = ws.count (chr '<') + (strip s).count (chr '<') := by rw [hnone, Nat.zero_add]
    _ = s.count (chr '<') := by rw [← List.count_append, ← hs]

/-- Nothing, or the start of a tag. -/
def Starts (s : Bytes) : Prop := s = [] ∨ ∃ t, s = chr '<' :: t

theorem text_starts (i : Spaced) (rest : Bytes) :
    strip (i.text ++ rest) = i.element.text ++ rest ∧ ∃ t, i.element.text ++ rest = chr '<' :: t := by
  obtain ⟨s, hs, -⟩ := i.element.exists_front
  have hfront : i.element.text ++ rest = chr '<' :: (s ++ rest) := by
    rw [hs]
    rfl
  refine ⟨?_, _, hfront⟩
  rw [Spaced.text, List.append_assoc, strip_append i.isSpace, hfront]
  exact strip_of_head rfl

theorem stream_cons (i : Spaced) (items : List Spaced) (rest : Bytes) :
    stream (i :: items) ++ rest = i.text ++ (stream items ++ rest) :=
  List.append_assoc _ _ _

theorem stream_starts (items : List Spaced) {rest : Bytes} (h : Starts (strip rest)) :
    Starts (strip (stream items ++ rest)) := by
  cases items with
  | nil => exact h
  | cons i items =>
    obtain ⟨hstrip, ht⟩ := text_starts i (stream items ++ rest)
    rw [stream_cons, hstrip]
    exact .inr ht

theorem count_stream (items : List Spaced) :
    ((items.map fun i => i.element.text).map (List.count (chr '<'))).sum =
      (stream items).count (chr '<') := by
  induction items with
  | nil => rfl
  | cons i items ih =>
    have hspace : i.space.count (chr '<') = 0 :=
      List.count_eq_zero_of_not_mem (i.isSpace.notMem rfl)
    have hjoin : stream (i :: items) = i.space ++ (i.element.text ++ stream items) :=
      List.append_assoc _ _ _
    rw [List.map_cons, List.map_cons, List.sum_cons, ih, hjoin, List.count_append,
      List.count_append, hspace, Nat.zero_add]

/-! ### The start of a tag -/

theorem ready_of_blank {m_Tag sData : Bytes} (h : strip sData = []) : Ready m_Tag sData := by
  intro _ hdecl
  obtain ⟨ws, hs, hws⟩ := exists_space sData
  rw [h, List.append_nil] at hs
  have hin := contains_iff_isInfix.mp hdecl
  have hlt : chr '<' ∈ sData := hin.subset List.mem_cons_self
  rw [hs] at hlt
  exact absurd hlt (hws.notMem rfl)

theorem topLevel_of_blank {sData : Bytes} (h : strip sData = []) :
    topLevel [] sData = none ∧ skipDeclaration sData = sData := by
  obtain ⟨ws, hs, hws⟩ := exists_space sData
  rw [h, List.append_nil] at hs
  have hlt : chr '<' ∉ sData := by
    rw [hs]
    exact hws.notMem rfl
  have hskip : skipDeclaration sData = sData := by
    refine if_neg fun hdecl => hlt ?_
    exact (contains_iff_isInfix.mp hdecl).subset List.mem_cons_self
  rw [topLevel, if_pos rfl, hskip, find_singleton_eq_none.mpr hlt]
  exact ⟨rfl, rfl⟩

/-- A buffer that is ready loses at most white space. -/
theorem strip_skipDeclaration {sData : Bytes} (h : Ready [] sData) :
    strip (skipDeclaration sData) = strip sData := by
  unfold skipDeclaration
  cases hdecl : contains sData (str "<?xml") with
  | false => rfl
  | true =>
    obtain ⟨hend, b, s, rfl, hb⟩ := h rfl hdecl
    have hnone : find (str "?>") (b :: s) = none := by
      rw [contains, Option.isSome_eq_false_iff, Option.isNone_iff_eq_none] at hend
      exact hend
    rw [if_pos rfl, hnone]
    exact (List.dropWhile_cons_of_pos hb).symm

/-- A buffer that loses no `<` is ready. -/
theorem ready_of_count {sData t : Bytes} (ht : strip sData = chr '<' :: t)
    (h : sData.count (chr '<') ≤ (skipDeclaration sData).count (chr '<')) : Ready [] sData := by
  obtain ⟨ws, hs, hws⟩ := exists_space sData
  rw [ht] at hs
  -- what is dropped beyond the white space takes the `<` with it
  have hdrop {n : ℕ} (hn : ws.length < n) :
      (sData.drop n).count (chr '<') < sData.count (chr '<') := by
    have hsub : sData.drop n = t.drop (n - (ws.length + 1)) := by
      have hlen : n = ws.length + (1 + (n - (ws.length + 1))) := by omega
      rw [hlen, ← List.drop_drop, hs, List.drop_left, ← List.drop_drop]
      congr 1
      omega
    rw [hsub, hs, List.count_append, List.count_cons_self]
    have := (List.drop_sublist (n - (ws.length + 1)) t).count_le (chr '<')
    omega
  intro _ hdecl
  rw [skipDeclaration, if_pos hdecl] at h
  cases hend : find (str "?>") sData with
  | some iEnd =>
    simp only [hend] at h
    have hbehind : ws.length < iEnd + 2 := by
      by_contra hle
      obtain ⟨rest, hrest⟩ := prefix_drop_of_find hend
      have hmem : chr '?' ∈ ws := by
        have hget : ws.drop iEnd ++ chr '<' :: t = chr '?' :: (str ">" ++ rest) := by
          rw [← List.drop_append_of_le_length (by omega), ← hs, ← hrest]
          rfl
        cases hw : ws.drop iEnd with
        | nil =>
          have hlen := congrArg List.length hw
          rw [List.length_drop, List.length_nil] at hlen
          omega
        | cons b u =>
          rw [hw] at hget
          obtain rfl := (List.cons_eq_cons.mp hget).1
          exact List.mem_of_mem_drop (hw ▸ List.mem_cons_self)
      exact hws.notMem rfl hmem
    exact absurd h (Nat.not_le_of_lt (hdrop hbehind))
  | none =>
    simp only [hend] at h
    refine ⟨by rw [contains, hend]; rfl, ?_⟩
    cases hw : ws with
    | nil =>
      rw [hw] at hdrop
      exact absurd h (Nat.not_le_of_lt (hdrop Nat.zero_lt_one))
    | cons b u =>
      rw [hw] at hs hws
      exact ⟨b, _, hs, hws b List.mem_cons_self⟩

/-- A tag that is looked for is the one the buffer starts with. -/
def Open (m_Tag sData : Bytes) : Prop :=
  m_Tag = [] ∨ (m_Tag = tagName sData ∧ ∃ t, sData = chr '<' :: t)

theorem topLevel_eq {m_Tag sData t : Bytes} (hready : Ready m_Tag sData) (hopen : Open m_Tag sData)
    (ht : strip sData = chr '<' :: t) :
    topLevel m_Tag sData = some (tagName (strip sData), strip sData) := by
  by_cases hnil : m_Tag = []
  · subst hnil
    obtain ⟨ws, hs, hws⟩ := exists_space (skipDeclaration sData)
    rw [strip_skipDeclaration hready, ht] at hs
    have hfind : find [chr '<'] (skipDeclaration sData) = some ws.length := by
      rw [hs]
      exact find_singleton_append t (hws.notMem rfl)
    rw [topLevel, if_pos rfl, hfind, Option.map_some, hs, List.drop_left, ht]
  · rcases hopen with h | ⟨htag, u, hu⟩
    · exact absurd h hnil
    · have hstrip : strip sData = sData := by
        rw [hu]
        exact strip_of_head rfl
      rw [topLevel, if_neg hnil, hstrip, ← htag]

theorem tagName_nil : tagName [] = [] := rfl

/-- The name of a tag does not depend on what is behind its end. -/
theorem tagName_append {s : Bytes} (t : Bytes)
    (h : (s.findIdx? fun b => b == chr ' ' || b == chr '>').isSome) :
    tagName (s ++ t) = tagName s := by
  obtain ⟨iEnd, hiEnd⟩ := Option.isSome_iff_exists.mp h
  have hlt : iEnd < s.length := (List.findIdx?_eq_some_iff_findIdx_eq.mp hiEnd).1
  rw [tagName, tagName, List.findIdx?_append, hiEnd]
  show ((s ++ t).drop 1).take (iEnd - 1) = (s.drop 1).take (iEnd - 1)
  rw [List.drop_append_of_le_length (by omega), List.take_append_of_le_length]
  rw [List.length_drop]
  omega

theorem tagName_text (i : Spaced) (rest : Bytes) :
    tagName (i.element.text ++ rest) = tagName i.element.text := by
  obtain ⟨s, hs, hmem⟩ := i.element.exists_front
  apply tagName_append
  rw [List.findIdx?_isSome, List.any_eq_true]
  refine ⟨0x3E, ?_, rfl⟩
  rw [hs]
  exact List.mem_cons_of_mem _ hmem

theorem tagName_of_ne_nil {s : Bytes} (t : Bytes) (h : tagName s ≠ []) :
    tagName (s ++ t) = tagName s := by
  apply tagName_append
  rw [Option.isSome_iff_ne_none]
  intro hnone
  rw [tagName, hnone] at h
  exact h rfl

/-! ### The loop -/

theorem loop_of_none {m_Tag sData : Bytes} (htop : topLevel m_Tag sData = none) :
    loop m_Tag sData = ([], ⟨m_Tag, skipDeclaration sData⟩) := by
  rw [loop]
  split
  · rfl
  · next h =>
    rw [htop] at h
    cases h

theorem loop_of_notFound {m_Tag sData tag text : Bytes} (htop : topLevel m_Tag sData = some (tag, text))
    (hpos : find (endTag tag) text = none) : loop m_Tag sData = ([], ⟨tag, text⟩) := by
  rw [loop]
  split
  · next h =>
    rw [htop] at h
    cases h
  · next h =>
    rw [htop] at h
    cases h
    split
    · rfl
    · next h =>
      rw [hpos] at h
      cases h

theorem loop_of_found {m_Tag sData tag text : Bytes} {iPos : ℕ}
    (htop : topLevel m_Tag sData = some (tag, text)) (hpos : find (endTag tag) text = some iPos) :
    loop m_Tag sData = (text.take (iPos + tag.length + 3) ::
      (loop [] (text.drop (iPos + tag.length + 3 + 1))).1,
      (loop [] (text.drop (iPos + tag.length + 3 + 1))).2) := by
  have hrest (n : ℕ) : (if n = text.length then [] else text.drop (n + 1)) = text.drop (n + 1) := by
    split
    · next h => rw [List.drop_eq_nil_of_le (by omega)]
    · rfl
  rw [loop]
  split
  · next h =>
    rw [htop] at h
    cases h
  · next h =>
    rw [htop] at h
    cases h
    split
    · next h =>
      rw [hpos] at h
      cases h
    · next h =>
      rw [hpos] at h
      cases h
      simp only [hrest]

theorem count_skipDeclaration_le (sData : Bytes) :
    (skipDeclaration sData).count (chr '<') ≤ sData.count (chr '<') := by
  unfold skipDeclaration
  split
  · split
    · exact (List.drop_sublist _ _).count_le _
    · exact (List.drop_sublist _ _).count_le _
  · exact le_refl _

/-- The loop delivers and retains no `<` that it steps over. -/
theorem count_loop_le (m_Tag sData : Bytes) :
    ((loop m_Tag sData).1.map (List.count (chr '<'))).sum +
        (loop m_Tag sData).2.m_sRetainedData.count (chr '<') ≤
      (if m_Tag = [] then skipDeclaration sData else sData).count (chr '<') := by
  have htext {m_Tag sData tag text : Bytes} (htop : topLevel m_Tag sData = some (tag, text)) :
      text.count (chr '<') ≤
        (if m_Tag = [] then skipDeclaration sData else sData).count (chr '<') := by
    by_cases hnil : m_Tag = []
    · rw [topLevel, if_pos hnil] at htop
      obtain ⟨iStart, -, heq⟩ := Option.map_eq_some_iff.mp htop
      cases heq
      rw [if_pos hnil]
      exact (List.drop_sublist _ _).count_le _
    · rw [topLevel, if_neg hnil] at htop
      cases htop
      rw [if_neg hnil]
  induction hn : sData.length using Nat.strong_induction_on generalizing m_Tag sData with
  | _ n ih =>
    cases htop : topLevel m_Tag sData with
    | none =>
      rw [loop_of_none htop]
      have hnil : m_Tag = [] := by
        by_contra hne
        rw [topLevel, if_neg hne] at htop
        cases htop
      rw [if_pos hnil, List.map_nil, List.sum_nil, Nat.zero_add]
    | some top =>
      obtain ⟨tag, text⟩ := top
      cases hpos : find (endTag tag) text with
      | none =>
        rw [loop_of_notFound htop hpos, List.map_nil, List.sum_nil, Nat.zero_add]
        exact htext htop
      | some iPos =>
        rw [loop_of_found htop hpos, List.map_cons, List.sum_cons]
        have hle := length_topLevel_le htop
        have hend := find_add_length_le hpos
        rw [length_endTag] at hend
        have hrest := ih (text.drop (iPos + tag.length + 3 + 1)).length
          (by rw [List.length_drop]; omega) [] _ rfl
        rw [if_pos rfl] at hrest
        -- the message is a beginning of the text, and one byte behind it is dropped
        have hsplit : (text.take (iPos + tag.length + 3)).count (chr '<') +
            (text.drop (iPos + tag.length + 3)).count (chr '<') = text.count (chr '<') := by
          rw [← List.count_append, List.take_append_drop]
        have hbyte : (text.drop (iPos + tag.length + 3 + 1)).count (chr '<') ≤
            (text.drop (iPos + tag.length + 3)).count (chr '<') := by
          rw [← List.drop_drop]
          exact (List.drop_sublist _ _).count_le _
        have hskip := count_skipDeclaration_le (text.drop (iPos + tag.length + 3 + 1))
        have htext' := htext htop
        show _ + _ + (loop [] (text.drop (iPos + tag.length + 3 + 1))).2.m_sRetainedData.count _ ≤ _
        omega

/-! ### Clean buffers -/

/-- What a clean buffer leaves to the next read. -/
structure Follows (s : State) (pending : Bytes) : Prop where
  retained : strip s.m_sRetainedData = strip pending
  m_Tag : s.m_Tag = tagName (strip pending)
  /-- Once there is a tag, nothing is in front of it. -/
  front : s.m_Tag ≠ [] → s.m_sRetainedData = strip pending

theorem follows_nil : Follows {} [] := ⟨rfl, rfl, fun h => absurd rfl h⟩

/-- The element at the front of a buffer, and where its end tag is looked for. -/
theorem closes_iff (i : Spaced) (rest : Bytes) {iPos : ℕ}
    (h : iPos + (tagName i.element.text).length + 3 = i.element.text.length) :
    find (endTag (tagName i.element.text)) (i.element.text ++ rest) = some iPos ↔
      Closes i.element.text := by
  have hlen := length_endTag (tagName i.element.text)
  rw [find_append_iff rest (by omega), Closes,
    show i.element.text.length - (endTag (tagName i.element.text)).length = iPos by omega]

/-- Behind an element that closes the loop goes on one byte further. -/
theorem loop_of_closes {m_Tag sData rest : Bytes} {i : Spaced} (hready : Ready m_Tag sData)
    (hopen : Open m_Tag sData) (hs : strip sData = i.element.text ++ rest)
    (h : Closes i.element.text) :
    loop m_Tag sData =
      (i.element.text :: (loop [] (rest.drop 1)).1, (loop [] (rest.drop 1)).2) := by
  obtain ⟨-, t, ht⟩ := text_starts i rest
  have htop := topLevel_eq hready hopen (hs.trans ht)
  rw [hs, tagName_text] at htop
  have hle := find_add_length_le h
  have hlen := length_endTag (tagName i.element.text)
  have hend : i.element.text.length - (endTag (tagName i.element.text)).length +
      (tagName i.element.text).length + 3 = i.element.text.length := by omega
  rw [loop_of_found htop ((closes_iff i rest hend).mpr h), hend, List.take_left, ← List.drop_drop,
    List.drop_left]

theorem strip_drop_one {s : Bytes} (h : ∀ b, s.head? = some b → isWhitespace b = true) :
    strip (s.drop 1) = strip s := by
  cases s with
  | nil => rfl
  | cons b s => exact (List.dropWhile_cons_of_pos (h b rfl)).symm

/-- The induction is on the elements that the buffer completes. -/
theorem loop_of_clean {items : List Spaced} {pending m_Tag sData : Bytes}
    (hp : Starts (strip pending)) (hs : strip sData = strip (stream items ++ pending))
    (hopen : Open m_Tag sData) (h : Clean m_Tag sData items) :
    (loop m_Tag sData).1 = items.map (fun i => i.element.text) ∧
      Follows (loop m_Tag sData).2 pending := by
  induction items generalizing m_Tag sData with
  | nil =>
    obtain ⟨hready, hend⟩ := h
    have hs' : strip sData = strip pending := hs
    rcases hp with hnil | ⟨t, ht⟩
    · rw [hnil] at hs'
      have htag : m_Tag = [] := by
        rcases hopen with htag | ⟨-, u, rfl⟩
        · exact htag
        · cases hs'.symm.trans (strip_of_head rfl)
      obtain ⟨htop, hskip⟩ := topLevel_of_blank hs'
      rw [htag, loop_of_none htop, hskip]
      exact ⟨rfl, hs'.trans hnil.symm, by rw [hnil, tagName_nil], fun hne => absurd rfl hne⟩
    · have htop := topLevel_eq hready hopen (hs'.trans ht)
      rw [loop_of_notFound htop (find_eq_none_iff.mpr hend), hs']
      exact ⟨rfl, strip_strip pending, rfl, fun _ => rfl⟩
  | cons i items ih =>
    obtain ⟨hready, hcloses, hparted, hclean⟩ := h
    rw [stream_cons, (text_starts i _).1] at hs
    rw [hs, List.drop_left] at hparted
    rw [hs, ← List.drop_drop, List.drop_left] at hclean
    obtain ⟨hevents, hstate⟩ := ih (strip_drop_one hparted) (.inl rfl) hclean
    rw [loop_of_closes hready hopen hs hcloses]
    refine ⟨?_, hstate⟩
    rw [hevents]
    rfl

/-- What is delivered and retained says that no `<` was stepped over. -/
theorem ready_of_delivered {items : List Spaced} {pending m_Tag sData : Bytes}
    (hp : Starts (strip pending)) (hs : strip sData = strip (stream items ++ pending))
    (hevents : (loop m_Tag sData).1 = items.map fun i => i.element.text)
    (hretained : strip (loop m_Tag sData).2.m_sRetainedData = strip pending) :
    Ready m_Tag sData := by
  by_cases htag : m_Tag = []
  · subst htag
    rcases stream_starts items hp with hnil | ⟨t, ht⟩
    · exact ready_of_blank (hs.trans hnil)
    · refine ready_of_count (hs.trans ht) ?_
      have hle := count_loop_le [] sData
      rw [if_pos rfl, hevents, count_stream, ← count_strip (loop [] sData).2.m_sRetainedData,
        hretained, count_strip, ← List.count_append, ← count_strip, ← hs, count_strip] at hle
      exact hle
  · intro hnil
    exact absurd hnil htag

/-- The elements of a buffer that is dealt with; again by induction on what it completes. -/
theorem clean_of_loop {items : List Spaced} {pending m_Tag sData : Bytes}
    (hp : Starts (strip pending)) (hs : strip sData = strip (stream items ++ pending))
    (hopen : Open m_Tag sData)
    (hevents : (loop m_Tag sData).1 = items.map fun i => i.element.text)
    (hretained : strip (loop m_Tag sData).2.m_sRetainedData = strip pending) :
    Clean m_Tag sData items := by
  induction items generalizing m_Tag sData with
  | nil =>
    have hready := ready_of_delivered hp hs hevents hretained
    refine ⟨hready, fun hin => ?_⟩
    have hs' : strip sData = strip pending := hs
    rcases hp with hnil | ⟨t, ht⟩
    · rw [hs', hnil, List.infix_nil] at hin
      have hlen := congrArg List.length hin
      rw [length_endTag, List.length_nil] at hlen
      omega
    · have htop := topLevel_eq hready hopen (hs'.trans ht)
      rw [← contains_iff_isInfix, contains, Option.isSome_iff_exists] at hin
      obtain ⟨iPos, hpos⟩ := hin
      rw [loop_of_found htop hpos] at hevents
      cases hevents
  | cons i items ih =>
    have hready := ready_of_delivered hp hs hevents hretained
    rw [stream_cons, (text_starts i _).1] at hs
    obtain ⟨-, t, ht⟩ := text_starts i (stream items ++ pending)
    have htop := topLevel_eq hready hopen (hs.trans ht)
    rw [hs, tagName_text] at htop
    -- the first message is the element, so its end tag is found at its end
    have hcloses : Closes i.element.text := by
      cases hpos : find (endTag (tagName i.element.text))
          (i.element.text ++ (stream items ++ pending)) with
      | none =>
        rw [loop_of_notFound htop hpos] at hevents
        cases hevents
      | some iPos =>
        have hle := find_add_length_le hpos
        rw [length_endTag] at hle
        rw [loop_of_found htop hpos] at hevents
        have hlen := congrArg List.length (List.cons_eq_cons.mp hevents).1
        rw [List.length_take, Nat.min_eq_left (by omega)] at hlen
        exact (closes_iff i _ hlen).mp hpos
    rw [loop_of_closes hready hopen hs hcloses] at hevents hretained
    obtain ⟨-, hevents⟩ := List.cons_eq_cons.mp hevents
    -- otherwise the byte that is skipped is the `<` of the next element
    have hparted : ∀ b, (stream items ++ pending).head? = some b → isWhitespace b = true := by
      intro b hb
      by_contra hspace
      obtain ⟨s, hbehind⟩ := List.head?_eq_some_iff.mp hb
      rw [Bool.not_eq_true] at hspace
      have hfront : stream items ++ pending = chr '<' :: s := by
        rcases stream_starts items hp with hnil | ⟨u, hu⟩
        · rw [hbehind, strip_of_head hspace] at hnil
          cases hnil
        · rw [hbehind, strip_of_head hspace] at hu
          rw [hbehind, (List.cons_eq_cons.mp hu).1]
      have hle := count_loop_le [] ((stream items ++ pending).drop 1)
      have hskip := count_skipDeclaration_le ((stream items ++ pending).drop 1)
      have hcount : (stream items ++ pending).count (chr '<') =
          ((stream items ++ pending).drop 1).count (chr '<') + 1 := by
        rw [hfront]
        exact List.count_cons_self
      rw [if_pos rfl, hevents, count_stream, ← count_strip (loop [] _).2.m_sRetainedData,
        hretained, count_strip, ← List.count_append] at hle
      omega
    rw [Clean, hs, List.drop_left, ← List.drop_drop, List.drop_left]
    exact ⟨hready, hcloses, hparted, ih (strip_drop_one hparted) (.inl rfl) hevents hretained⟩

/-! ### Streams -/

theorem run_concat (reads : List Bytes) (read : Bytes) :
    run (reads ++ [read]) = ((processInbound (run reads).1 read).1,
      (run reads).2 ++ (processInbound (run reads).1 read).2) := by
  rw [run, List.foldl_append]
  rfl

theorem not_le_of_text (i : Spaced) : ¬ i.text.length ≤ ([] : List Bytes).flatten.length := by
  obtain ⟨s, hs, -⟩ := i.element.exists_front
  rw [Spaced.text, hs, List.length_append, List.length_cons, List.flatten_nil, List.length_nil]
  omega

theorem starts_of_prefix {i : Spaced} {s : Bytes} (h : s <+: i.text) : Starts (strip s) := by
  rcases List.prefix_or_prefix_of_prefix h (List.prefix_append i.space i.element.text) with
    hs | ⟨t, rfl⟩
  · exact .inl (strip_of_isSpace fun b hb => i.isSpace b (hs.subset hb))
  · rw [strip_append i.isSpace]
    have ht : t <+: i.element.text := (List.prefix_append_right_inj _).mp h
    obtain ⟨u, hu, -⟩ := i.element.exists_front
    rw [hu] at ht
    cases t with
    | nil => exact .inl rfl
    | cons b t =>
      obtain ⟨rfl, -⟩ := List.cons_prefix_cons.mp ht
      exact .inr ⟨t, rfl⟩

theorem arrived_nil (items : List Spaced) : arrived items [] = [] := by
  cases items with
  | nil => rfl
  | cons i items => rw [arrived, Known.complete, if_neg (not_le_of_text i)]

theorem incomplete_nil (items : List Spaced) : incomplete items [] = [] := by
  cases items with
  | nil => rfl
  | cons i items =>
    rw [incomplete, Known.pending, if_neg (not_le_of_text i)]
    rfl

/-- What a read adds to what has arrived. -/
theorem arrived_concat {items : List Spaced} {a : Arrival items} {done : List Bytes} {read : Bytes}
    (hpre : done ++ [read] <+: a.reads) :
    arrived items (done ++ [read]) = arrived items done ++ completed items done read ∧
      incomplete items done ++ read =
        stream (completed items done read) ++ incomplete items (done ++ [read]) ∧
      Starts (strip (incomplete items (done ++ [read]))) := by
  have hflat {l : List Bytes} (hl : l <+: a.reads) : l.flatten <+: stream items := by
    obtain ⟨rest, hrest⟩ := hl
    refine (List.prefix_append l.flatten rest.flatten).trans ?_
    rw [← List.flatten_append, hrest]
    exact a.flatten_prefix
  have hdone := hflat ((List.prefix_append done [read]).trans hpre)
  have hboth := hflat hpre
  obtain ⟨rest, hrest⟩ : ∃ rest, items = arrived items done ++ rest :=
    Known.exists_rest items done.flatten
  have hread : (done ++ [read]).flatten = done.flatten ++ read := by
    rw [List.flatten_append, List.flatten_singleton]
  have harrived : arrived items (done ++ [read]) = arrived items done ++ completed items done read := by
    have happend := (Known.complete_append read hdone hrest).1
    rw [← hread] at happend
    rw [completed, arrived, happend, arrived, List.drop_left]
  refine ⟨harrived, ?_, ?_⟩
  · have hjoin := Known.join_complete hboth
    have hjoin' := Known.join_complete hdone
    have heq : stream (arrived items done) ++ (incomplete items done ++ read) =
        stream (arrived items done) ++
          (stream (completed items done read) ++ incomplete items (done ++ [read])) := by
      have hsplit : stream (arrived items (done ++ [read])) =
          stream (arrived items done) ++ stream (completed items done read) := by
        rw [harrived]
        exact Known.join_append _ _
      rw [← List.append_assoc, ← List.append_assoc, ← hsplit]
      exact (congrArg (· ++ read) hjoin').trans (hread.symm.trans hjoin.symm)
    exact List.append_cancel_left heq
  · rcases Known.pending_prefix hboth with hnil | ⟨i, -, hi⟩
    · rw [incomplete, hnil]
      exact .inl rfl
    · exact starts_of_prefix hi

/-- The tag that is kept is the one the next buffer starts with. -/
theorem open_of_follows {s : State} {pending : Bytes} (hp : Starts (strip pending))
    (h : Follows s pending) (read : Bytes) : Open s.m_Tag (s.m_sRetainedData ++ read) := by
  by_cases hnil : s.m_Tag = []
  · exact .inl hnil
  · have hname : tagName (strip pending) ≠ [] := h.m_Tag ▸ hnil
    refine .inr ⟨?_, ?_⟩
    · rw [h.front hnil, tagName_of_ne_nil read hname, h.m_Tag]
    · rcases hp with hempty | ⟨t, ht⟩
      · rw [hempty] at hname
        exact absurd tagName_nil hname
      · rw [h.front hnil, ht]
        exact ⟨_, rfl⟩

/-- A read that finds the protocol as it should be. -/
theorem step_iff {items : List Spaced} {a : Arrival items} {done : List Bytes} {read : Bytes}
    (hpre : done ++ [read] <+: a.reads) (hp : Starts (strip (incomplete items done)))
    (hf : Follows (run done).1 (incomplete items done))
    (he : (run done).2 = (arrived items done).map fun i => i.element.text) :
    let buffer := (run done).1.m_sRetainedData ++ read
    (Clean (run done).1.m_Tag buffer (completed items done read) ↔
      (run (done ++ [read])).2 = (arrived items (done ++ [read])).map (fun i => i.element.text) ∧
        strip (run (done ++ [read])).1.m_sRetainedData = strip (incomplete items (done ++ [read]))) ∧
    (Clean (run done).1.m_Tag buffer (completed items done read) →
      Follows (run (done ++ [read])).1 (incomplete items (done ++ [read]))) := by
  intro buffer
  obtain ⟨harrived, hjoin, hp'⟩ := arrived_concat hpre
  have hopen := open_of_follows hp hf read
  have hs : strip buffer =
      strip (stream (completed items done read) ++ incomplete items (done ++ [read])) := by
    rw [← hjoin]
    exact strip_append_congr hf.retained read
  rw [run_concat, harrived, List.map_append, he]
  refine ⟨⟨fun h => ?_, fun h => ?_⟩, fun h => (loop_of_clean hp' hs hopen h).2⟩
  · obtain ⟨hevents, hstate⟩ := loop_of_clean hp' hs hopen h
    exact ⟨congrArg _ hevents, hstate.retained⟩
  · exact clean_of_loop hp' hs hopen (List.append_cancel_left h.1) h.2

/-- A protocol that keeps up also keeps the right tag. -/
theorem follows_of_keepsUp {items : List Spaced} {a : Arrival items} (h : KeepsUp a)
    {done : List Bytes} (hdone : done <+: a.reads) :
    Starts (strip (incomplete items done)) ∧ Follows (run done).1 (incomplete items done) := by
  induction done using List.reverseRecOn with
  | nil =>
    have hnil : incomplete items [] = [] := incomplete_nil items
    rw [hnil]
    exact ⟨.inl rfl, follows_nil⟩
  | append_singleton done read ih =>
    have hbefore := (List.prefix_append done [read]).trans hdone
    obtain ⟨hp, hf⟩ := ih hbefore
    obtain ⟨hiff, hstate⟩ := step_iff hdone hp hf (h done hbefore).1
    exact ⟨(arrived_concat hdone).2.2, hstate (hiff.mpr (h _ hdone))⟩

/-- Clean buffers keep the protocol as it should be; the induction is on the reads from their
end. -/
theorem follows_of_clean {items : List Spaced} {a : Arrival items}
    (h : ∀ done read, done ++ [read] <+: a.reads →
      Clean (run done).1.m_Tag ((run done).1.m_sRetainedData ++ read) (completed items done read))
    {done : List Bytes} (hdone : done <+: a.reads) :
    Starts (strip (incomplete items done)) ∧ Follows (run done).1 (incomplete items done) ∧
      (run done).2 = (arrived items done).map fun i => i.element.text := by
  induction done using List.reverseRecOn with
  | nil =>
    rw [incomplete_nil, arrived_nil]
    exact ⟨.inl rfl, follows_nil, rfl⟩
  | append_singleton done read ih =>
    obtain ⟨hp, hf, he⟩ := ih ((List.prefix_append done [read]).trans hdone)
    obtain ⟨hiff, hstate⟩ := step_iff hdone hp hf he
    have hclean := h done read hdone
    exact ⟨(arrived_concat hdone).2.2, hstate hclean, (hiff.mp hclean).1⟩

/-- The protocol keeps up exactly if the buffers are clean. -/
theorem keepsUp_elements_iff {items : List Spaced} (a : Arrival items) : KeepsUp a ↔
    ∀ done read, done ++ [read] <+: a.reads →
      Clean (run done).1.m_Tag ((run done).1.m_sRetainedData ++ read)
        (completed items done read) := by
  constructor
  · intro h done read hpre
    have hbefore := (List.prefix_append done [read]).trans hpre
    obtain ⟨hp, hf⟩ := follows_of_keepsUp h hbefore
    exact (step_iff hpre hp hf (h done hbefore).1).1.mpr (h _ hpre)
  · intro h done hdone
    obtain ⟨-, hf, he⟩ := follows_of_clean h hdone
    exact ⟨he, hf.retained⟩

/-- The text of an element without attributes and content. -/
def plainText (b : UInt8) : Bytes :=
  0x3C :: ([b] ++ [] ++ [] ++ str ">" ++ [] ++ str "</" ++ [b] ++ [] ++ str ">")

theorem noSpace : IsSpace [] := List.forall_mem_nil _

theorem plainText_derives {b : UInt8} (h : isNameStart b = true) :
    Derives .element (plainText b) := by
  have hname : IsName [b] := ⟨b, [], rfl, h, List.forall_mem_nil _⟩
  exact .element hname .nil noSpace .nothing noSpace

/-- An element without attributes and content. -/
def plainElement (b : UInt8) (h : isNameStart b = true) : Spaced where
  space := []
  isSpace := noSpace
  element := ⟨plainText b, plainText_derives h⟩

/-- Two elements side by side. -/
def adjacent : List Spaced := [plainElement 0x61 rfl, plainElement 0x62 rfl]

/-- Both in one read. -/
def adjacentArrival : Arrival adjacent where
  reads := [stream adjacent]
  flatten_prefix := by
    rw [List.flatten_singleton]

/-- Of two elements side by side the second is lost, and what is left of it is retained. -/
theorem adjacent_element_lost : ¬ KeepsUp adjacentArrival := by
  intro h
  have hread := (h [stream adjacent] (List.prefix_refl _)).1
  have htop : topLevel [] (stream adjacent) = some (str "a", stream adjacent) := rfl
  -- the first `<` behind the first element is that of the second end tag
  have hrest : topLevel [] ((stream adjacent).drop 8) = some (str "/b", str "</b>") := rfl
  have hloop : (loop [] (stream adjacent)).1 = [str "<a></a>"] := by
    have hpos : find (endTag (str "a")) (stream adjacent) = some 3 := rfl
    rw [loop_of_found htop hpos]
    show _ :: (loop [] ((stream adjacent).drop 8)).1 = _
    rw [loop_of_notFound hrest rfl]
    rfl
  have hrun : (run [stream adjacent]).2 = [str "<a></a>"] := hloop
  have htwo : (arrived adjacent [stream adjacent]).length = 2 := rfl
  rw [hrun] at hread
  have hlen := congrArg List.length hread
  rw [List.length_map, htwo] at hlen
  cases hlen

end Domoticz.XmlStream
