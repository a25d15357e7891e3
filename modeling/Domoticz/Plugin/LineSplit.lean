import Domoticz.Plugin.Protocol

/-!
# Lines that arrive in pieces

`CPluginProtocolLine::ProcessInbound` looks behind a carriage return for the line feed that
belongs to it, and finds nothing there when the read ends with the carriage return.  The
line feed is then the first byte of the next line.

A machine that takes the stream byte by byte, and keeps whether the last one was a carriage
return, does not depend on the reads.  The code is that machine, but for a memory that each
read clears.

## Main definitions

* `processInbound`, `runs` — `ProcessInbound`, for one read and for many.
* `scan`, `afterCR` — the machine, and its memory.
* `SplitIndependent` — the reads make no difference.

## Main results

* `loop_eq_scan` — the code on one read is the machine.
* `runs_eq_scan_iff` — on several it is, if no line feed was cut from its carriage return.
* `splitIndependent_iff` — **the reads make no difference exactly when none is cut there.**
-/

namespace Domoticz.Line

open CLib
open Http (CR LF)

/-- `CPluginProtocolLine::ProcessInbound`: what is retained, and the lines. -/
def processInbound (m_sRetainedData m_Buffer : Bytes) : Bytes × List Bytes :=
  ((loop (m_sRetainedData ++ m_Buffer)).2, (loop (m_sRetainedData ++ m_Buffer)).1)

/-- It is what a connection does with a read. -/
theorem processInbound_connection (m_sRetainedData : Bytes) (e : WebSocket.ReadEvent) :
    Connection.Protocol.processInbound (.line m_sRetainedData) e =
      some (.line (processInbound m_sRetainedData e.m_Buffer).1,
        (processInbound m_sRetainedData e.m_Buffer).2.map .buffer) := rfl

/-- The reads of a connection, one after the other. -/
def runs (m_sRetainedData : Bytes) : List Bytes → Bytes × List Bytes
  | [] => (m_sRetainedData, [])
  | read :: reads =>
      let p := processInbound m_sRetainedData read
      ((runs p.1 reads).1, p.2 ++ (runs p.1 reads).2)

/-! ### Byte by byte -/

/-- The lines of a stream, and what is left: `pending` is the line so far, and `wasCR` says that
a carriage return has just ended one. -/
def scan (pending : Bytes) (wasCR : Bool) : Bytes → List Bytes × Bytes
  | [] => ([], pending)
  | b :: s =>
      if b = CR then (pending :: (scan [] true s).1, (scan [] true s).2)
      else if b = LF ∧ wasCR = true then scan pending false s
      else scan (pending ++ [b]) false s

/-- Whether the last byte was a carriage return. -/
def afterCR (wasCR : Bool) : Bytes → Bool
  | [] => wasCR
  | b :: s => afterCR (b == CR) s

theorem afterCR_append (wasCR : Bool) (s t : Bytes) :
    afterCR wasCR (s ++ t) = afterCR (afterCR wasCR s) t := by
  induction s generalizing wasCR with
  | nil => rfl
  | cons b s ih => exact ih _

theorem afterCR_false_iff (s : Bytes) : afterCR false s = true ↔ s.getLast? = some CR := by
  cases s using List.reverseRecOn with
  | nil => simp [afterCR]
  | append_singleton s b => simp [afterCR_append, afterCR]

/-- The first byte decides what the memory is good for. -/
theorem scan_true {s : Bytes} (h : s.head? ≠ some LF) (pending : Bytes) :
    scan pending true s = scan pending false s := by
  cases s with
  | nil => rfl
  | cons b s =>
    have hb : b ≠ LF := fun heq => h (congrArg some heq)
    simp only [scan, hb, false_and]

theorem scan_append (pending : Bytes) (wasCR : Bool) (s t : Bytes) :
    scan pending wasCR (s ++ t) =
      ((scan pending wasCR s).1 ++ (scan (scan pending wasCR s).2 (afterCR wasCR s) t).1,
        (scan (scan pending wasCR s).2 (afterCR wasCR s) t).2) := by
  induction s generalizing pending wasCR with
  | nil => rfl
  | cons b s ih =>
    rw [List.cons_append, scan, scan, afterCR]
    by_cases hCR : b = CR
    · subst hCR
      rw [if_pos rfl, if_pos rfl, ih]
      rfl
    · have hflag : (b == CR) = false := beq_false_of_ne hCR
      rw [if_neg hCR, if_neg hCR, hflag]
      split
      · exact ih _ _
      · exact ih _ _

theorem CR_notMem_scan {pending : Bytes} (h : CR ∉ pending) (wasCR : Bool) (s : Bytes) :
    (∀ line ∈ (scan pending wasCR s).1, CR ∉ line) ∧ CR ∉ (scan pending wasCR s).2 := by
  induction s generalizing pending wasCR with
  | nil => exact ⟨List.forall_mem_nil _, h⟩
  | cons b s ih =>
    rw [scan]
    split
    · obtain ⟨hlines, hrest⟩ := ih List.not_mem_nil true
      exact ⟨List.forall_mem_cons.mpr ⟨h, hlines⟩, hrest⟩
    · next hCR =>
      split
      · exact ih h false
      · refine ih ?_ false
        rw [List.mem_append, List.mem_singleton, not_or]
        exact ⟨h, Ne.symm hCR⟩

/-- Every line feed stands behind a carriage return. -/
def LineFeedsFollow (s : Bytes) : Prop := ∀ a b, s = a ++ LF :: b → a.getLast? = some CR

theorem LF_notMem_scan {pending s : Bytes} {wasCR : Bool} (h : LF ∉ pending)
    (hs : ∀ a b, s = a ++ LF :: b → afterCR wasCR a = true) :
    ∀ line ∈ (scan pending wasCR s).1, LF ∉ line := by
  induction s generalizing pending wasCR with
  | nil => exact List.forall_mem_nil _
  | cons b s ih =>
    have hs' : ∀ a c, s = a ++ LF :: c → afterCR (b == CR) a = true := by
      intro a c heq
      exact hs (b :: a) c (congrArg (b :: ·) heq)
    rw [scan]
    split
    · next hCR =>
      subst hCR
      exact List.forall_mem_cons.mpr ⟨h, ih List.not_mem_nil hs'⟩
    · next hCR =>
      rw [beq_false_of_ne hCR] at hs'
      split
      · exact ih h hs'
      · next hLF =>
        refine ih ?_ hs'
        rw [List.mem_append, List.mem_singleton, not_or]
        refine ⟨h, ?_⟩
        rintro rfl
        exact hLF ⟨rfl, hs [] s rfl⟩

/-! ### The code -/

theorem loop_of_notMem {s : Bytes} (h : CR ∉ s) : loop s = ([], s) := by
  rw [loop, dif_neg h]

theorem loop_append_cons {pending : Bytes} (h : CR ∉ pending) (s : Bytes) :
    loop (pending ++ CR :: s) = (pending :: (loop (behind s)).1, (loop (behind s)).2) := by
  have hmem : CR ∈ pending ++ CR :: s := List.mem_append_right _ List.mem_cons_self
  have hdrop : (pending ++ CR :: s).drop (pending.length + 1) = s := by
    rw [List.drop_append, List.drop_of_length_le (Nat.le_succ _), Nat.add_sub_cancel_left]
    rfl
  rw [loop, dif_pos hmem]
  simp only [upTo_append_cons s h, hdrop]

/-- The code on one read is the machine; the induction is on what is still to be scanned. -/
theorem loop_eq_scan (s : Bytes) :
    (∀ pending, CR ∉ pending → loop (pending ++ s) = scan pending false s) ∧
      loop (behind s) = scan [] true s := by
  induction s with
  | nil =>
    refine ⟨fun pending h => ?_, loop_of_notMem List.not_mem_nil⟩
    rw [List.append_nil, loop_of_notMem h]
    rfl
  | cons b s ih =>
    have hfirst : ∀ pending, CR ∉ pending →
        loop (pending ++ b :: s) = scan pending false (b :: s) := by
      intro pending h
      rw [scan]
      by_cases hCR : b = CR
      · subst hCR
        rw [if_pos rfl, loop_append_cons h, ih.2]
      · have hpending : CR ∉ pending ++ [b] := by
          rw [List.mem_append, List.mem_singleton, not_or]
          exact ⟨h, Ne.symm hCR⟩
        rw [if_neg hCR, if_neg (fun hLF => Bool.false_ne_true hLF.2), ← ih.1 _ hpending,
          List.append_assoc]
        rfl
    refine ⟨hfirst, ?_⟩
    by_cases hLF : b = LF
    · subst hLF
      exact ih.1 [] List.not_mem_nil
    · have hhead : (b :: s).head? ≠ some LF := fun heq => hLF (Option.some.inj heq)
      rw [behind, if_neg hhead, scan_true hhead]
      exact hfirst [] List.not_mem_nil

theorem processInbound_eq {m_sRetainedData : Bytes} (h : CR ∉ m_sRetainedData) (read : Bytes) :
    processInbound m_sRetainedData read =
      ((scan m_sRetainedData false read).2, (scan m_sRetainedData false read).1) := by
  rw [processInbound, (loop_eq_scan read).1 _ h]

/-! ### What is left out -/

/-- The bytes that a scan leaves out. -/
def dropped (wasCR : Bool) : Bytes → ℕ
  | [] => 0
  | b :: s => (if b = CR ∨ (b = LF ∧ wasCR = true) then 1 else 0) + dropped (b == CR) s

/-- The bytes of lines and of what is left. -/
def weight (r : List Bytes × Bytes) : ℕ := (r.1.map List.length).sum + r.2.length

theorem weight_scan (pending : Bytes) (wasCR : Bool) (s : Bytes) :
    weight (scan pending wasCR s) + dropped wasCR s = pending.length + s.length := by
  induction s generalizing pending wasCR with
  | nil => simp [scan, weight, dropped]
  | cons b s ih =>
    rw [scan, dropped]
    by_cases hCR : b = CR
    · subst hCR
      have hrest := ih [] true
      rw [if_pos rfl, if_pos (.inl rfl), beq_self_eq_true]
      simp only [weight, List.map_cons, List.sum_cons, List.length_cons, List.length_nil]
        at hrest ⊢
      omega
    · rw [if_neg hCR, beq_false_of_ne hCR]
      by_cases hLF : b = LF ∧ wasCR = true
      · have hrest := ih pending false
        rw [if_pos hLF, if_pos (.inr hLF), List.length_cons]
        omega
      · have hrest := ih (pending ++ [b]) false
        rw [List.length_append, List.length_singleton] at hrest
        rw [if_neg hLF, if_neg (not_or.mpr ⟨hCR, hLF⟩), List.length_cons]
        omega

theorem dropped_append (wasCR : Bool) (s t : Bytes) :
    dropped wasCR (s ++ t) = dropped wasCR s + dropped (afterCR wasCR s) t := by
  induction s generalizing wasCR with
  | nil => rw [List.nil_append, dropped, afterCR, Nat.zero_add]
  | cons b s ih => rw [List.cons_append, dropped, dropped, afterCR, ih, Nat.add_assoc]

/-- The line feeds that are cut from their carriage return. -/
def cuts (wasCR : Bool) : List Bytes → ℕ
  | [] => 0
  | read :: reads =>
      (if wasCR = true ∧ read.head? = some LF then 1 else 0) + cuts (afterCR wasCR read) reads

/-- Those are what a scan leaves out and the code does not. -/
theorem dropped_cut (wasCR : Bool) (s : Bytes) :
    dropped wasCR s = dropped false s + if wasCR = true ∧ s.head? = some LF then 1 else 0 := by
  cases s with
  | nil => simp [dropped]
  | cons b s =>
    rw [dropped, dropped, List.head?_cons]
    by_cases hLF : b = LF
    · subst hLF
      have hCR : LF ≠ CR := by decide
      cases wasCR with
      | false => simp [hCR]
      | true =>
        simp only [hCR, true_and, or_true, if_true, and_false, or_false, Bool.false_eq_true,
          if_false]
        omega
    · have hsome : ¬ (wasCR = true ∧ some b = some LF) := fun h => hLF (Option.some.inj h.2)
      simp only [hLF, false_and, or_false, if_neg hsome, Nat.add_zero]

theorem weight_runs {m_sRetainedData : Bytes} (h : CR ∉ m_sRetainedData) (wasCR : Bool)
    (reads : List Bytes) :
    weight ((runs m_sRetainedData reads).2, (runs m_sRetainedData reads).1) =
      weight (scan m_sRetainedData wasCR reads.flatten) + cuts wasCR reads := by
  induction reads generalizing m_sRetainedData wasCR with
  | nil => rfl
  | cons read reads ih =>
    have hretained := (CR_notMem_scan h false read).2
    have hread := weight_scan m_sRetainedData false read
    have hrest := ih hretained (afterCR wasCR read)
    have hcode := weight_scan (scan m_sRetainedData false read).2 (afterCR wasCR read) reads.flatten
    have hwhole := weight_scan m_sRetainedData wasCR (read ++ reads.flatten)
    have hcut := dropped_cut wasCR read
    rw [dropped_append, List.length_append] at hwhole
    rw [List.flatten_cons, runs, processInbound_eq h, cuts]
    simp only [weight, List.map_append, List.sum_append] at hread hrest hcode hwhole ⊢
    omega

theorem runs_eq_scan {m_sRetainedData : Bytes} (h : CR ∉ m_sRetainedData) {wasCR : Bool}
    {reads : List Bytes} (hcuts : cuts wasCR reads = 0) :
    runs m_sRetainedData reads =
      ((scan m_sRetainedData wasCR reads.flatten).2,
        (scan m_sRetainedData wasCR reads.flatten).1) := by
  induction reads generalizing m_sRetainedData wasCR with
  | nil => rfl
  | cons read reads ih =>
    rw [cuts] at hcuts
    obtain ⟨hfirst, hrest⟩ := Nat.add_eq_zero_iff.mp hcuts
    have hscan : scan m_sRetainedData wasCR read = scan m_sRetainedData false read := by
      cases wasCR with
      | false => rfl
      | true =>
        refine scan_true (fun hLF => ?_) _
        rw [if_pos ⟨rfl, hLF⟩] at hfirst
        cases hfirst
    rw [List.flatten_cons, scan_append, hscan, runs, processInbound_eq h]
    simp only [ih (CR_notMem_scan h false read).2 hrest]

/-- The code is the machine if no line feed was cut from its carriage return, and otherwise
leaves out too little. -/
theorem runs_eq_scan_iff (reads : List Bytes) :
    runs [] reads = ((scan [] false reads.flatten).2, (scan [] false reads.flatten).1) ↔
      cuts false reads = 0 := by
  refine ⟨fun h => ?_, runs_eq_scan List.not_mem_nil⟩
  have hweight := weight_runs List.not_mem_nil false reads
  rw [h] at hweight
  exact Nat.add_eq_left.mp hweight.symm

/-- Where the cuts are. -/
theorem cuts_eq_zero_iff (wasCR : Bool) (reads : List Bytes) :
    cuts wasCR reads = 0 ↔ ∀ front read rest, reads = front ++ read :: rest →
      afterCR wasCR front.flatten = true → read.head? ≠ some LF := by
  induction reads generalizing wasCR with
  | nil => exact iff_of_true rfl fun front read rest h => by simp at h
  | cons read reads ih =>
    rw [cuts, Nat.add_eq_zero_iff, ih]
    constructor
    · rintro ⟨hfirst, hreads⟩ front r rest heq hCR
      cases front with
      | nil =>
        obtain ⟨rfl, -⟩ := List.cons.inj heq
        intro hLF
        rw [if_pos ⟨hCR, hLF⟩] at hfirst
        cases hfirst
      | cons read' front =>
        obtain ⟨rfl, hrest⟩ := List.cons.inj heq
        refine hreads front r rest hrest ?_
        rwa [List.flatten_cons, afterCR_append] at hCR
    · intro h
      refine ⟨?_, fun front r rest heq hCR => ?_⟩
      · rw [if_neg]
        rintro ⟨hCR, hLF⟩
        exact h [] read reads rfl hCR hLF
      · refine h (read :: front) r rest (congrArg (read :: ·) heq) ?_
        rwa [List.flatten_cons, afterCR_append]

/-! ### Any division into reads -/

/-- The reads deliver the lines that the stream has when it comes in one, and leave the same
bytes; no carriage return is delivered, and no line feed that belongs to one. -/
structure SplitIndependent (reads : List Bytes) : Prop where
  same : runs [] reads = runs [] [reads.flatten]
  carriageReturn : ∀ line ∈ (runs [] reads).2, CR ∉ line
  lineFeed : LineFeedsFollow reads.flatten → ∀ line ∈ (runs [] reads).2, LF ∉ line

theorem runs_singleton (s : Bytes) : runs [] [s] = ((scan [] false s).2, (scan [] false s).1) := by
  have hcuts : cuts false [s] = 0 := by simp [cuts]
  have hscan := runs_eq_scan List.not_mem_nil hcuts
  rwa [List.flatten_singleton] at hscan

/-- **The reads make no difference exactly when** none ends with a carriage return whose line
feed comes with the next byte. -/
theorem splitIndependent_iff (reads : List Bytes) :
    SplitIndependent reads ↔ ∀ front read rest, reads = front ++ read :: rest →
      front.flatten.getLast? = some CR → read.head? ≠ some LF := by
  have hcuts := cuts_eq_zero_iff false reads
  simp only [afterCR_false_iff] at hcuts
  rw [← hcuts, ← runs_eq_scan_iff]
  constructor
  · intro h
    rw [h.same, runs_singleton]
  · intro h
    refine ⟨by rw [h, runs_singleton], ?_, fun hfollow => ?_⟩
    · rw [h]
      exact (CR_notMem_scan List.not_mem_nil false reads.flatten).1
    · rw [h]
      refine LF_notMem_scan List.not_mem_nil fun a b heq => ?_
      rw [afterCR_false_iff]
      exact hfollow a b heq

/-- Two lines, cut between the carriage return and the line feed of the first: the second is
delivered with a line feed in front. -/
theorem line_feed_delivered :
    (runs [] [str "one\r", str "\ntwo\r\n"]).2 = [str "one", str "\ntwo"] ∧
      ¬ SplitIndependent [str "one\r", str "\ntwo\r\n"] := by
  have hlines : (runs [] [str "one\r", str "\ntwo\r\n"]).2 = [str "one", str "\ntwo"] := by
    rw [runs, processInbound_eq List.not_mem_nil, runs, processInbound_eq (by decide), runs]
    decide
  refine ⟨hlines, fun h => ?_⟩
  have hsame := h.same
  rw [runs_singleton] at hsame
  rw [hsame] at hlines
  exact absurd hlines (by decide)

end Domoticz.Line
