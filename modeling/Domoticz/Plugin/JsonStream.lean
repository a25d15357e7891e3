import Domoticz.CLib.Search
import Domoticz.Plugin.JsonFaithful
import Domoticz.Text.Json

/-!
# Decoding a stream of JSON objects

`CPluginProtocolJSON::ProcessInbound` in `PluginProtocols.cpp` puts each read behind
what it retained.  It cuts the buffer wherever a closing brace is directly followed by
an opening one, and takes the last piece for a whole message if it ends with a closing
brace and has as many opening as closing ones.  What the parser makes of a message is
translated by `JSONtoPython`, which may crash.

## Main definitions

* `Parser`, `Meaning`, `Correct` — a JSON parser, and what it has to make of the objects.
* `loop`, `processInbound` — the code.
* `KeepsUp` — after every read all complete objects are delivered and the rest is retained.
* `Clean` — the buffers whose objects the code can tell apart.

## Main results

* `keepsUp_objects_iff` — **the protocol keeps up exactly with clean buffers whose objects are
  translated faithfully.**
* `brace_in_string_stuck` — an object with a brace in a string is never delivered.
-/

namespace Domoticz.JsonStream

open CLib Stream Text Text.Json
open JsonReader (Value Failure)
open PythonJson (Same Image Inside Converts Faithful)

/-! ### The code -/

/-- `Json::Reader::parse`. -/
abbrev Parser := Bytes → Except Failure Value

/-- What an `onMessageCallback` carries. -/
inductive Event
  | message (pMessage : Translated)
  /-- The text itself, after a parse error. -/
  | data (sData : Bytes)

/-- The text between two messages. -/
def separator : Bytes := str "\x7d\x7b"

/-- The test for a whole message, on a buffer with a last byte. -/
def isWhole (last : UInt8) (sData : Bytes) : Bool :=
  last == chr '\x7d' && sData.count (chr '\x7b') == sData.count (chr '\x7d')

section Code

variable (parse : Parser)

/-- Parse a text and queue what becomes of it; the reader throws if it is nested too deep. -/
def queue (sMessage : Bytes) : Except Halt Event :=
  match parse sMessage with
  | .error e => if e = .stackLimit then .error .threw else .ok (.data sMessage)
  | .ok root =>
      if PythonJson.isObject root then (PythonJson.translated root).map .message
      else .ok (.data sMessage)

/-- The loop: what it queues, and what is left in `sData`.  The `substr` for the last
byte of an empty `sData` raises `std::out_of_range`. -/
def loop (sData : Bytes) : List Event × Except Halt Bytes :=
  match hpos : find separator sData with
  | some pos =>
      have : (sData.drop (pos + 1)).length < sData.length := by
        have hle : pos + 2 ≤ sData.length := find_add_length_le hpos
        rw [List.length_drop]
        omega
      match queue parse (sData.take (pos + 1)) with
      | .error halt => ([], .error halt)
      | .ok event => (event :: (loop (sData.drop (pos + 1))).1, (loop (sData.drop (pos + 1))).2)
  | none =>
      match sData.getLast? with
      | none => ([], .error .threw)
      | some last =>
          if isWhole last sData then
            match queue parse sData with
            | .error halt => ([], .error halt)
            | .ok event => ([event], .ok [])
          else ([], .ok sData)
termination_by sData.length

/-- One read, with what was retained before it; `none` when it does not come back.  An exception
leaves the protocol before anything is retained. -/
def processInbound (m_sRetainedData m_Buffer : Bytes) : Option (Bytes × List Event) :=
  match loop parse (m_sRetainedData ++ m_Buffer) with
  | (_, .error .stuck) => none
  | (events, .error .threw) => some (m_sRetainedData, events)
  | (events, .ok sData) => some (sData, events)

end Code

/-! ### What is to be delivered -/

/-- Objects with white space in front of each. -/
def stream (items : List Spaced) : Bytes := (items.map Spaced.text).flatten

/-- The reads in which a stream, or a beginning of it, arrives. -/
structure Arrival (items : List Spaced) where
  reads : List Bytes
  flatten_prefix : reads.flatten <+: stream items

/-- The value that every object has; the names in it are different. -/
structure Meaning where
  value : Object → Value
  isObject : ∀ o, PythonJson.isObject (value o) = true
  distinct : ∀ o members, Inside (.object members) (value o) → (members.map Prod.fst).Nodup

/-- The value of an object as a tree. -/
def Meaning.tree (m : Meaning) (o : Object) : PythonJson.Tree where
  value := m.value o
  container := PythonJson.isContainer_of_isObject (m.isObject o)
  distinct := m.distinct o

/-- The parser reads every object, with white space around it, as its value. -/
def Correct (parse : Parser) (m : Meaning) : Prop :=
  ∀ ws o ws', IsSpace ws → IsSpace ws' → parse (ws ++ o.text ++ ws') = .ok (m.value o)

/-- An event that brings the value of an object. -/
def Brings (m : Meaning) (i : Spaced) (e : Event) : Prop :=
  ∃ x, e = .message (.object x) ∧ Image Same (m.value i.object) x

/-- After every read all objects that are complete have been delivered, once, in order and
with their values, and what stands behind them is retained. -/
def KeepsUp (m : Meaning) {items : List Spaced} (a : Arrival items) : Prop :=
  ∀ parse, Correct parse m → code.Tracks (processInbound parse) id (Brings m) a.reads

/-- No object has an opening brace directly behind a closing one in it; behind an object the
next one, or what is there of it, starts without white space, or else nothing is there and
the object has as many opening as closing braces; and what is pending does not look like
something whole. -/
def Clean : List Spaced → Bytes → Prop
  | [], pending => ∀ last, pending.getLast? = some last →
      ¬ separator <:+: pending ∧ isWhole last pending = false
  | i :: items, pending => ¬ separator <:+: i.object.text ∧
      (if stream items ++ pending = [] then
        i.object.text.count (chr '\x7b') = i.object.text.count (chr '\x7d')
      else (stream items ++ pending).head? = some (chr '\x7b')) ∧
      Clean items pending

/-! ### The loop -/

section Loop

variable (parse : Parser)

/-- A message that is not the last. -/
theorem loop_find_iff {sData rest : Bytes} {pos : ℕ} {events : List Event}
    (h : find separator sData = some pos) : loop parse sData = (events, .ok rest) ↔
      ∃ e es, events = e :: es ∧ queue parse (sData.take (pos + 1)) = .ok e ∧
        loop parse (sData.drop (pos + 1)) = (es, .ok rest) := by
  rw [loop]
  split
  · next pos' h' =>
    obtain rfl : pos = pos' := Option.some.inj (h.symm.trans h')
    cases queue parse (sData.take (pos + 1)) with
    | error halt =>
      refine iff_of_false ?_ ?_
      · intro heq
        cases congrArg Prod.snd heq
      · rintro ⟨e, es, -, hqueue, -⟩
        cases hqueue
    | ok e =>
      simp only [Prod.mk.injEq, Except.ok.injEq]
      constructor
      · rintro ⟨rfl, hrest⟩
        exact ⟨e, _, rfl, rfl, Prod.ext rfl hrest⟩
      · rintro ⟨_, es, rfl, rfl, hloop⟩
        rw [hloop]
        exact ⟨rfl, rfl⟩
  · next h' =>
    rw [h] at h'
    cases h'

/-- The last message, or a part of one. -/
theorem loop_last_iff {sData rest : Bytes} {last : UInt8} {events : List Event}
    (h : ¬ separator <:+: sData) (hlast : sData.getLast? = some last) :
    loop parse sData = (events, .ok rest) ↔
      if isWhole last sData then ∃ e, queue parse sData = .ok e ∧ events = [e] ∧ rest = []
      else events = [] ∧ rest = sData := by
  have hnone := find_eq_none_iff.mpr h
  rw [loop]
  split
  · next pos h' =>
    rw [hnone] at h'
    cases h'
  · simp only [hlast]
    split
    · cases queue parse sData with
      | error halt =>
        refine iff_of_false ?_ ?_
        · intro heq
          cases congrArg Prod.snd heq
        · rintro ⟨e, hqueue, -⟩
          cases hqueue
      | ok e =>
        simp only [Prod.mk.injEq, Except.ok.injEq, exists_eq_left']
        exact and_congr eq_comm eq_comm
    · simp only [Prod.mk.injEq, Except.ok.injEq]
      exact and_congr eq_comm eq_comm

theorem loop_nil : loop parse [] = ([], .error .threw) := by
  rw [loop]
  rfl

end Loop

/-! ### The text of an object -/

theorem getLast?_text (i : Spaced) : i.text.getLast? = some (chr '\x7d') := by
  obtain ⟨inner, h, -⟩ := i.object.exists_inner
  rw [Spaced.text, h, ← List.append_assoc, List.getLast?_concat]
  rfl

theorem isWhole_text (i : Spaced) : isWhole (chr '\x7d') i.text = true ↔
    i.object.text.count (chr '\x7b') = i.object.text.count (chr '\x7d') := by
  rw [isWhole, Bool.and_eq_true, beq_iff_eq, beq_iff_eq, Spaced.text, List.count_append,
    List.count_append, List.count_eq_zero_of_not_mem (i.isSpace.notMem (b := chr '\x7b') rfl),
    List.count_eq_zero_of_not_mem (i.isSpace.notMem (b := chr '\x7d') rfl), Nat.zero_add, Nat.zero_add]
  exact and_iff_right rfl

/-- A separator is not in the white space in front of an object. -/
theorem isInfix_text_iff (i : Spaced) : separator <:+: i.text ↔ separator <:+: i.object.text := by
  constructor
  · intro h
    have hspace (ws : Bytes) (hws : IsSpace ws) (h : separator <:+: ws ++ i.object.text) :
        separator <:+: i.object.text := by
      induction ws with
      | nil => exact h
      | cons b ws ih =>
        obtain ⟨hb, hws⟩ := List.forall_mem_cons.mp hws
        rcases List.infix_cons_iff.mp h with hpre | hin
        · obtain rfl := (List.cons_prefix_cons.mp hpre).1
          cases hb
        · exact ih hws hin
    exact hspace i.space i.isSpace h
  · intro h
    exact h.trans (List.suffix_append _ _).isInfix

theorem stream_cons (i : Spaced) (items : List Spaced) (pending : Bytes) :
    stream (i :: items) ++ pending = i.text ++ (stream items ++ pending) :=
  List.append_assoc _ _ _

/-! ### Clean buffers -/

section Buffer

variable {parse : Parser} {m : Meaning}

/-- An object is queued as its value if its value is translated faithfully. -/
theorem Correct.queue_text (hr : Correct parse m) {i : Spaced}
    (h : Faithful (m.value i.object)) : ∃ e, queue parse i.text = .ok e ∧ Brings m i e := by
  have hparse := hr i.space i.object [] i.isSpace (List.forall_mem_nil _)
  rw [List.append_nil] at hparse
  obtain ⟨x, hx, himage⟩ := (PythonJson.converts_same_iff (m.tree i.object)).mpr h
  refine ⟨.message (.object x), ?_, x, rfl, himage⟩
  rw [queue, Spaced.text, hparse]
  simp only [m.isObject, if_true]
  have htranslated : PythonJson.translated (m.value i.object) = .ok (.object x) :=
    PythonJson.translated_eq_object_iff.mpr hx
  rw [htranslated]
  rfl

/-- The induction is on the objects of the buffer; each but the last is cut off where the
next one starts. -/
theorem loop_of_clean (hr : Correct parse m) {items : List Spaced} {pending : Bytes}
    (h : Clean items pending) (hfaithful : ∀ i ∈ items, Faithful (m.value i.object))
    (hne : stream items ++ pending ≠ []) :
    ∃ out, loop parse (stream items ++ pending) = (out, .ok pending) ∧
      List.Forall₂ (Brings m) items out := by
  induction items with
  | nil =>
    obtain ⟨last, hlast⟩ : ∃ last, pending.getLast? = some last :=
      ⟨_, List.getLast?_eq_some_getLast hne⟩
    obtain ⟨hsep, hwhole⟩ := h last hlast
    refine ⟨[], (loop_last_iff parse hsep hlast).mpr ?_, .nil⟩
    rw [hwhole, if_neg Bool.false_ne_true]
    exact ⟨rfl, rfl⟩
  | cons i items ih =>
    obtain ⟨hsep, hbehind, hclean⟩ := h
    obtain ⟨hi, hitems⟩ := List.forall_mem_cons.mp hfaithful
    obtain ⟨e, hqueue, hbrings⟩ := hr.queue_text hi
    rw [stream_cons]
    rw [← isInfix_text_iff] at hsep
    by_cases hnil : stream items ++ pending = []
    · -- the last message, with nothing behind it
      obtain ⟨hstream, rfl⟩ := List.append_eq_nil_iff.mp hnil
      obtain rfl : items = [] := by
        cases items with
        | nil => rfl
        | cons j items =>
          have hj := (List.append_eq_nil_iff.mp ((stream_cons j items []).symm.trans hnil)).1
          exact absurd hj (code.ne_nil j)
      rw [if_pos hnil] at hbehind
      refine ⟨[e], ?_, .cons hbrings .nil⟩
      rw [hnil, List.append_nil, loop_last_iff parse hsep (getLast?_text i),
        if_pos ((isWhole_text i).mpr hbehind)]
      exact ⟨e, hqueue, rfl, rfl⟩
    · rw [if_neg hnil] at hbehind
      obtain ⟨out, hloop, hout⟩ := ih hclean hitems hnil
      obtain ⟨s, hs⟩ : ∃ s, stream items ++ pending = chr '\x7b' :: s :=
        List.head?_eq_some_iff.mp hbehind
      obtain ⟨front, hfront⟩ := List.getLast?_eq_some_iff.mp (getLast?_text i)
      -- the separator is found where the message ends, and not in it
      have hfind : find separator (i.text ++ (stream items ++ pending)) = some front.length := by
        rw [hs, hfront]
        apply @find_of_not_isInfix front [chr '\x7d']
        rw [← hfront]
        exact hsep
      have hlen : front.length + 1 = i.text.length := by
        rw [hfront, List.length_append]
        rfl
      refine ⟨e :: out, (loop_find_iff parse hfind).mpr ⟨e, out, rfl, ?_⟩, .cons hbrings hout⟩
      rw [hlen, List.take_left, List.drop_left]
      exact ⟨hqueue, hloop⟩

end Buffer

/-! ### A parser that reads objects only -/

section Strict

variable {m : Meaning}

/-- The value of the object that a text is, but for white space around it. -/
noncomputable def strict (m : Meaning) : Parser := fun sData =>
  match code.next sData with
  | none => .error .syntaxError
  | some (i, ws) => if ws.all isWhitespace then .ok (m.value i.object) else .error .syntaxError

theorem strict_ok {sData : Bytes} {v : Value} (h : strict m sData = .ok v) :
    ∃ (i : Spaced) (ws : Bytes), sData = i.text ++ ws ∧ IsSpace ws ∧ v = m.value i.object := by
  unfold strict at h
  cases hnext : code.next sData with
  | none =>
    rw [hnext] at h
    cases h
  | some r =>
    obtain ⟨i, ws⟩ := r
    simp only [hnext] at h
    split at h
    · next hws =>
      exact ⟨i, ws, code.next_eq_some_iff.mp hnext, List.all_eq_true.mp hws,
        (Except.ok.inj h).symm⟩
    · cases h

theorem correct_strict (m : Meaning) : Correct (strict m) m := by
  intro ws o ws' hws hws'
  have hnext : code.next (ws ++ o.text ++ ws') = some (⟨ws, hws, o⟩, ws') :=
    code.next_eq_some_iff.mpr rfl
  unfold strict
  rw [hnext]
  exact if_pos (List.all_eq_true.mpr hws')

theorem strict_ne_stackLimit (m : Meaning) (sData : Bytes) :
    strict m sData ≠ .error .stackLimit := by
  unfold strict
  split
  · intro h
    cases h
  · split
    · intro h
      cases h
    · intro h
      cases h

theorem queue_strict_ne_threw (m : Meaning) (sMessage : Bytes) :
    queue (strict m) sMessage ≠ .error .threw := by
  unfold queue
  cases hparse : strict m sMessage with
  | error e =>
    have he : e ≠ .stackLimit := by
      rintro rfl
      exact strict_ne_stackLimit m sMessage hparse
    simp only [if_neg he]
    intro h
    cases h
  | ok root =>
    simp only
    split
    · cases htranslated : PythonJson.translated root with
      | error halt =>
        intro h
        cases h
        exact PythonJson.translated_ne_threw root htranslated
      | ok t =>
        intro h
        cases h
    · intro h
      cases h

/-- A text that ends with a brace and is queued as a message ends with an object. -/
theorem queue_strict {sMessage : Bytes} {t : Translated}
    (h : queue (strict m) sMessage = .ok (.message t))
    (hlast : sMessage.getLast? = some (chr '\x7d')) :
    ∃ j : Spaced, sMessage = j.text ∧ PythonJson.translated (m.value j.object) = .ok t := by
  unfold queue at h
  cases hparse : strict m sMessage with
  | error e =>
    simp only [hparse] at h
    split at h
    · cases h
    · cases h
  | ok root =>
    obtain ⟨j, ws, hs, hws, rfl⟩ := strict_ok hparse
    simp only [hparse, m.isObject, if_true] at h
    have ht : PythonJson.translated (m.value j.object) = .ok t := by
      cases htranslated : PythonJson.translated (m.value j.object) with
      | error halt =>
        rw [htranslated] at h
        cases h
      | ok t' =>
        rw [htranslated] at h
        cases h
        rfl
    rcases List.eq_nil_or_concat ws with rfl | ⟨ws', b, rfl⟩
    · exact ⟨j, hs.trans (List.append_nil _), ht⟩
    -- no white space is a brace
    · exfalso
      have hb := hws b (by rw [List.concat_eq_append]; exact List.mem_concat_self)
      rw [hs, List.concat_eq_append, ← List.append_assoc, List.getLast?_concat] at hlast
      rw [Option.some.inj hlast] at hb
      cases hb

/-- What is queued for an object has its value only if the value is translated faithfully. -/
theorem faithful_of_queue {i : Spaced} {e : Event} (h : queue (strict m) i.text = .ok e)
    (hbrings : Brings m i e) : Faithful (m.value i.object) := by
  obtain ⟨x, rfl, himage⟩ := hbrings
  obtain ⟨j, hj, ht⟩ := queue_strict h (getLast?_text i)
  have hsplit : j.text ++ [] = i.text ++ [] := by rw [hj]
  obtain ⟨rfl, -⟩ := Spaced.unique hsplit
  exact (PythonJson.converts_same_iff (m.tree j.object)).mp
    ⟨x, PythonJson.translated_eq_object_iff.mp ht, himage⟩

/-- The cut behind the first object of a buffer. -/
theorem cut_of_message {i : Spaced} {behind : Bytes} {pos : ℕ} {e : Event}
    (hpos : find separator (i.text ++ behind) = some pos)
    (hqueue : queue (strict m) ((i.text ++ behind).take (pos + 1)) = .ok e)
    (hbrings : Brings m i e) :
    (i.text ++ behind).take (pos + 1) = i.text ∧ (i.text ++ behind).drop (pos + 1) = behind ∧
      behind.head? = some (chr '\x7b') := by
  obtain ⟨rest, hrest⟩ := prefix_drop_of_find hpos
  have hdrop : (i.text ++ behind).drop (pos + 1) = chr '\x7b' :: rest := by
    rw [← List.drop_drop, ← hrest]
    rfl
  have htake : (i.text ++ behind).take (pos + 1) =
      (i.text ++ behind).take pos ++ [chr '\x7d'] := by
    rw [List.take_add, ← hrest]
    rfl
  obtain ⟨x, rfl, -⟩ := hbrings
  obtain ⟨j, hj, -⟩ := queue_strict hqueue (by rw [htake, List.getLast?_concat])
  have hsplit : j.text ++ (i.text ++ behind).drop (pos + 1) = i.text ++ behind := by
    rw [← hj, List.take_append_drop]
  obtain ⟨rfl, hbehind⟩ := Spaced.unique hsplit
  refine ⟨hj, hbehind, ?_⟩
  rw [← hbehind, hdrop]
  rfl

/-- What is delivered with the strict parser; the induction is on the objects of the buffer. -/
theorem clean_of_loop {items : List Spaced} {pending : Bytes} {out : List Event}
    (h : loop (strict m) (stream items ++ pending) = (out, .ok pending))
    (hout : List.Forall₂ (Brings m) items out) :
    Clean items pending ∧ ∀ i ∈ items, Faithful (m.value i.object) := by
  induction items generalizing out with
  | nil =>
    refine ⟨?_, List.forall_mem_nil _⟩
    cases hout
    intro last hlast
    have hloop : loop (strict m) pending = ([], .ok pending) := h
    have hsep : ¬ separator <:+: pending := by
      intro hin
      rw [← contains_iff_isInfix, contains, Option.isSome_iff_exists] at hin
      obtain ⟨pos, hpos⟩ := hin
      obtain ⟨e, es, hcons, -⟩ := (loop_find_iff _ hpos).mp hloop
      cases hcons
    refine ⟨hsep, ?_⟩
    rw [loop_last_iff _ hsep hlast] at hloop
    cases hwhole : isWhole last pending with
    | false => rfl
    | true =>
      rw [hwhole, if_pos rfl] at hloop
      obtain ⟨e, -, hcons, -⟩ := hloop
      cases hcons
  | cons i items ih =>
    obtain ⟨e, es, hbrings, hrest, rfl⟩ := List.forall₂_cons_left_iff.mp hout
    rw [stream_cons] at h
    cases hpos : find separator (i.text ++ (stream items ++ pending)) with
    | some pos =>
      obtain ⟨e', es', hcons, hqueue, hloop⟩ := (loop_find_iff _ hpos).mp h
      cases hcons
      obtain ⟨htake, hdrop, hhead⟩ := cut_of_message hpos hqueue hbrings
      have hsep : ¬ separator <:+: i.text := by
        rw [← htake]
        exact not_isInfix_take_of_find hpos (Nat.lt_succ_self _)
      rw [hdrop] at hloop
      rw [htake] at hqueue
      obtain ⟨hclean, hfaithful⟩ := ih hloop hrest
      have hne : stream items ++ pending ≠ [] := by
        intro hnil
        rw [hnil] at hhead
        cases hhead
      refine ⟨⟨mt (isInfix_text_iff i).mpr hsep, ?_, hclean⟩,
        List.forall_mem_cons.mpr ⟨faithful_of_queue hqueue hbrings, hfaithful⟩⟩
      rw [if_neg hne]
      exact hhead
    | none =>
      -- the whole buffer is the only message
      have hsep := find_eq_none_iff.mp hpos
      obtain ⟨last, hlast⟩ : ∃ last, (i.text ++ (stream items ++ pending)).getLast? = some last :=
        ⟨_, List.getLast?_eq_some_getLast (List.append_ne_nil_of_left_ne_nil (code.ne_nil i) _)⟩
      rw [loop_last_iff _ hsep hlast] at h
      cases hwhole : isWhole last (i.text ++ (stream items ++ pending)) with
      | false =>
        rw [hwhole, if_neg Bool.false_ne_true] at h
        cases h.1
      | true =>
        rw [hwhole, if_pos rfl] at h
        obtain ⟨e', hqueue, hcons, rfl⟩ := h
        cases hcons
        cases hrest
        have hnil : stream [] ++ ([] : Bytes) = [] := rfl
        rw [hnil, List.append_nil] at hsep hlast hwhole hqueue
        rw [getLast?_text i] at hlast
        obtain rfl := Option.some.inj hlast
        refine ⟨⟨mt (isInfix_text_iff i).mpr hsep, ?_, ?_⟩,
          List.forall_mem_singleton.mpr (faithful_of_queue hqueue hbrings)⟩
        · rw [if_pos hnil]
          exact (isWhole_text i).mp hwhole
        · intro last hlast
          cases hlast

/-- With the strict parser nothing raises an exception, if there is anything to look at. -/
theorem loop_strict_ne_threw (m : Meaning) {sData : Bytes} (hne : sData ≠ []) :
    (loop (strict m) sData).2 ≠ .error .threw := by
  fun_induction loop (strict m) sData with
  | case1 sData pos hpos _ halt hqueue =>
    rintro heq
    cases heq
    exact queue_strict_ne_threw m _ hqueue
  | case2 sData pos hpos _ event hqueue ih =>
    apply ih
    intro hnil
    have hle : pos + 2 ≤ sData.length := find_add_length_le hpos
    have hlen := congrArg List.length hnil
    rw [List.length_drop, List.length_nil] at hlen
    omega
  | case3 sData hpos hlast => exact absurd (List.getLast?_eq_none_iff.mp hlast) hne
  | case4 sData hpos last hlast hwhole halt hqueue =>
    intro heq
    cases heq
    exact queue_strict_ne_threw m _ hqueue
  | case5 =>
    intro heq
    cases heq
  | case6 =>
    intro heq
    cases heq

end Strict

/-! ### Streams -/

section Reads

variable {parse : Parser} {m : Meaning}

/-- A read of some bytes delivers what the loop does. -/
theorem stepTracks_of_loop {retained read : Bytes} {out : List Event}
    (h : loop parse (retained ++ read) = (out, .ok (code.pending (retained ++ read))))
    (hout : List.Forall₂ (Brings m) (code.complete (retained ++ read)) out) :
    code.StepTracks (processInbound parse) id (Brings m) retained read := by
  refine ⟨out, ?_, hout⟩
  rw [processInbound, h]
  rfl

theorem loop_of_stepTracks {retained read : Bytes} (hne : retained ++ read ≠ [])
    (h : code.StepTracks (processInbound (strict m)) id (Brings m) retained read) :
    ∃ out, loop (strict m) (retained ++ read) = (out, .ok (code.pending (retained ++ read))) ∧
      List.Forall₂ (Brings m) (code.complete (retained ++ read)) out := by
  obtain ⟨out, hstep, hout⟩ := h
  refine ⟨out, ?_, hout⟩
  have hthrew := loop_strict_ne_threw m hne
  unfold processInbound at hstep
  cases hloop : loop (strict m) (retained ++ read) with
  | mk events result =>
    simp only [hloop] at hstep
    rw [hloop] at hthrew
    cases result with
    | ok sData =>
      obtain ⟨hdata, rfl⟩ := Prod.mk.inj (Option.some.inj hstep)
      rw [hdata]
      rfl
    | error halt =>
      cases halt with
      | threw => exact absurd rfl hthrew
      | stuck => cases hstep

/-- A buffer is clean and its objects are translated faithfully exactly if it is dealt with,
whatever parser is correct. -/
theorem clean_iff (m : Meaning) (retained read : Bytes) :
    Clean (code.complete (retained ++ read)) (code.pending (retained ++ read)) ∧
        (∀ i ∈ code.complete (retained ++ read), Faithful (m.value i.object)) ↔
      ∀ parse, Correct parse m →
        code.StepTracks (processInbound parse) id (Brings m) retained read := by
  have hjoin : stream (code.complete (retained ++ read)) ++ code.pending (retained ++ read) =
      retained ++ read := code.join_complete _
  obtain ⟨hcomplete, hpending⟩ := code.complete_of_none code.next_nil
  constructor
  · rintro ⟨hclean, hfaithful⟩ parse hr
    by_cases hnil : retained ++ read = []
    · obtain ⟨rfl, rfl⟩ := List.append_eq_nil_iff.mp hnil
      refine ⟨[], ?_, ?_⟩
      · rw [processInbound, List.append_nil, loop_nil]
        show some (([] : Bytes), ([] : List Event)) = some (code.pending [], [])
        rw [hpending]
      · show List.Forall₂ (Brings m) (code.complete []) []
        rw [hcomplete]
        exact .nil
    · rw [← hjoin] at hnil
      obtain ⟨out, hloop, hout⟩ := loop_of_clean hr hclean hfaithful hnil
      rw [hjoin] at hloop
      exact stepTracks_of_loop hloop hout
  · intro h
    by_cases hnil : retained ++ read = []
    · rw [hnil, hcomplete, hpending]
      refine ⟨?_, List.forall_mem_nil _⟩
      intro last hlast
      cases hlast
    · obtain ⟨out, hloop, hout⟩ := loop_of_stepTracks hnil (h _ (correct_strict m))
      apply clean_of_loop _ hout
      rw [hjoin]
      exact hloop

end Reads

/-- What is pending of some reads, with the next read behind it. -/
noncomputable def buffer (done : List Bytes) (read : Bytes) : Bytes :=
  code.pending done.flatten ++ read

theorem clean_of_keepsUp {m : Meaning} {items : List Spaced} {a : Arrival items}
    (h : KeepsUp m a) {done : List Bytes} {read : Bytes} (hpre : done ++ [read] <+: a.reads) :
    Clean (code.complete (buffer done read)) (code.pending (buffer done read)) ∧
      ∀ i ∈ code.complete (buffer done read), Faithful (m.value i.object) := by
  rw [buffer, clean_iff]
  intro parse hr
  have hstep := (code.tracks_iff _ _ _ _).mp (h parse hr) done read hpre
  have hflat : done.flatMap id = done.flatten := List.flatMap_id
  rwa [hflat] at hstep

/-- The protocol keeps up exactly if the buffers are clean and the values of the objects are
translated faithfully. -/
theorem keepsUp_objects_iff (m : Meaning) {items : List Spaced} (a : Arrival items) :
    KeepsUp m a ↔ ∀ done read, done ++ [read] <+: a.reads →
      Clean (code.complete (buffer done read)) (code.pending (buffer done read)) ∧
        ∀ i ∈ code.complete (buffer done read), Faithful (m.value i.object) := by
  constructor
  · intro h done read hpre
    exact clean_of_keepsUp h hpre
  · intro h parse hr
    rw [code.tracks_iff]
    intro done read hpre
    have hflat : done.flatMap id = done.flatten := List.flatMap_id
    rw [hflat]
    exact (clean_iff m _ _).mp (h done read hpre) parse hr

/-- An object whose only value is a string with a closing brace. -/
def braceObject : Spaced where
  space := []
  isSpace := List.forall_mem_nil _
  object := {
    text := [0x7B, 0x22, 0x61, 0x22, 0x3A, 0x22, 0x7D, 0x22, 0x7D]
    derives := by
      have hname : Chars [0x61] := .plain (by decide) (by decide) (by decide) .nil
      have hbrace : Chars [0x7D] := .plain (by decide) (by decide) (by decide) .nil
      have hspace : IsSpace [] := List.forall_mem_nil _
      exact .object (.lastMember hspace hname hspace (.element hspace (.string hbrace) hspace)) }

/-- The object in one read. -/
def braceArrival : Arrival [braceObject] where
  reads := [braceObject.text]
  flatten_prefix := List.prefix_refl _

/-- A meaning that is right about the object. -/
def braceMeaning : Meaning where
  value _ := .object [(str "a", .string (str "\x7d"))]
  isObject _ := rfl
  distinct _ members h := by
    cases h with
    | self => decide
    | member hm hinside =>
      obtain rfl := List.mem_singleton.mp hm
      cases hinside

/-- An object with a brace in a string is never delivered. -/
theorem brace_in_string_stuck : ¬ KeepsUp braceMeaning braceArrival := by
  intro h
  obtain ⟨hclean, -⟩ := @clean_of_keepsUp _ _ _ h [] _ (List.prefix_refl _)
  have hbuffer : buffer [] braceObject.text = braceObject.text ++ [] := by
    rw [buffer, List.flatten_nil, (code.complete_of_none code.next_nil).2, List.append_nil,
      List.nil_append]
  obtain ⟨hcomplete, hpending⟩ := code.complete_encode braceObject []
  obtain ⟨hnil, hrest⟩ := code.complete_of_none code.next_nil
  rw [hbuffer, show braceObject.text = code.encode braceObject from rfl, hcomplete, hpending, hnil,
    hrest] at hclean
  have hempty : stream [] ++ ([] : Bytes) = [] := rfl
  have hcount := hclean.2.1
  rw [if_pos hempty] at hcount
  exact absurd hcount (by decide)

end Domoticz.JsonStream
