import Domoticz.Plugin.HttpResponse

/-!
# The reads in which a response arrives

Every read is a new parse of all there is, and the parse is sensitive to where the
data ends.  In a header line whose colon has arrived the loop over the headers does
not end; behind the carriage return of a blank line or of a chunk, and inside the last
chunk, the message is taken for complete.

## Main definitions

* `Reads` — a way to cut a response into reads.
* `DeliveredAs`, `Delivers` — it is delivered once and with its content, and nothing of it is
  retained.
* `Harmless` — the places where a response may be cut.

## Main results

* `quiet_of_harmless`, `harmless_of_quiet` — the parse of the beginning of a response.
* `deliveredAs_iff` — the runs in which a response is delivered.
* `delivers_iff` — **a response is delivered exactly if it is legible and every cut harmless.**
* `cut_header_stuck` — a cut inside a header line.
-/

namespace Domoticz.Http

open CLib

/-- A way to cut a response into reads. -/
structure Reads (bytes : Bytes) where
  reads : List Bytes
  ne_nil : ∀ read ∈ reads, read ≠ []
  flatten_eq : reads.flatten = bytes

/-- A response is delivered as a dictionary: in one message, and nothing of it is retained. -/
def DeliveredAs (m_JSON : Bool) {r : Response} (d : Reads r.bytes)
    (data : Dict) (m_JSON' : Bool) : Prop :=
  runs { m_JSON } d.reads = some ({ m_JSON := m_JSON' }, [.onMessage data])

/-- A response is delivered: one message, with its status and its complete body, and nothing
of it is retained. -/
def Delivers (m_JSON : Bool) (r : Response) (d : Reads r.bytes) : Prop :=
  ∃ data m_JSON', DeliveredAs m_JSON d data m_JSON' ∧ r.IsMessage data

/-! ### Harmless cuts -/

/-- A line that is cut has a colon and something behind it. -/
def Dangles (line : Bytes) : Prop :=
  (upTo (chr ':') (upTo CR line)).length + 2 ≤ (upTo CR line).length

/-- A line of a chunk that is cut is not taken for the last chunk: it starts with a number
that is not zero, and so does what is left of it when so many bytes are taken away, as long
as there are more. -/
inductive Awaits : Bytes → Prop
  | within {t : Bytes} : chunkSize t ≠ 0 → (chunkSize t < 0 ∨ t.length ≤ (chunkSize t).toNat) →
      Awaits t
  | beyond {t : Bytes} : 0 < chunkSize t → (chunkSize t).toNat < t.length →
      Awaits (t.drop (chunkSize t).toNat) → Awaits t

/-- What may have arrived of a response when a read ends. -/
inductive Harmless (r : Response) : Bytes → Prop
  /-- The beginning of the status line, without a colon and something behind it. -/
  | statusLine {t : Bytes} : t <+: r.statusLine ++ [CR] → ¬ Dangles t → Harmless r t
  /-- Some headers, and the beginning of another one up to its colon. -/
  | field {done more : List Field} {f : Field} {t : Bytes} : r.fields = done ++ f :: more →
      t <+: f.line ++ [CR] → ¬ Dangles t → Harmless r (r.front done ++ t)
  /-- All headers. -/
  | fields : Harmless r (r.front r.fields)
  /-- All headers and a carriage return. -/
  | blank {content : Bytes} : r.body = .length content → content.length ≠ 1 →
      Harmless r (r.front r.fields ++ [CR])
  /-- The beginning of a body that comes with its length. -/
  | content {content t : Bytes} : r.body = .length content → t <+: content → t ≠ content →
      Harmless r (r.head ++ t)
  /-- Some chunks, and the beginning of the line of another one. -/
  | chunkLine {done more : List Chunk} {c : Chunk} {last : LastChunk} {t : Bytes} :
      r.body = .chunked (done ++ c :: more) last → t <+: c.line ++ [CR] → t = [] ∨ Awaits t →
      Harmless r (r.head ++ (chunkBytes done ++ t))
  /-- Some chunks, and another one up to some of its data. -/
  | chunkData {done more : List Chunk} {c : Chunk} {last : LastChunk} {t : Bytes} :
      r.body = .chunked (done ++ c :: more) last → t <+: c.data →
      Harmless r (r.head ++ (chunkBytes done ++ (c.line ++ CR :: LF :: t)))
  /-- All chunks but the last. -/
  | chunks {chunks : List Chunk} {last : LastChunk} : r.body = .chunked chunks last →
      Harmless r (r.head ++ chunkBytes chunks)

/-- All cuts are harmless. -/
def Reads.Harmless {r : Response} (d : Reads r.bytes) : Prop :=
  ∀ done, done <+: d.reads → done ≠ [] → done ≠ d.reads → Http.Harmless r done.flatten

/-! ### Lines that are cut -/

theorem add_halt (st : HeaderState) (name text : Bytes) :
    (st.add name text).2 = none ∨ (st.add name text).2 = some .stuck := by
  unfold HeaderState.add
  simp only
  split
  · exact .inr rfl
  · exact .inl rfl

/-- A line that has not arrived to its line feed. -/
theorem extractLines_cut (st : HeaderState) {t : Bytes} (hne : t ≠ []) (hcr : t.head? ≠ some CR)
    (hlf : LF ∉ t) :
    (Dangles t → (extractLines st t).2 = .error .stuck) ∧
      (¬ Dangles t → extractLines st t = (st, .error .threw)) := by
  have hstart : ¬ (t.isEmpty ∨ t.head? = some CR) := by simp [hne, hcr]
  have hlen : (upTo CR t).length ≤ t.length := (List.takeWhile_prefix _).length_le
  rw [extractLines, if_neg hstart]
  by_cases hcolon : (upTo CR t).contains (chr ':') = true
  · simp only [hcolon, if_true]
    constructor
    · intro h
      have hsub : substrFrom? (upTo CR t) ((upTo (chr ':') (upTo CR t)).length + 2) =
          some ((upTo CR t).drop ((upTo (chr ':') (upTo CR t)).length + 2)) := if_pos h
      simp only [hsub]
      cases hadd : st.add (upTo (chr ':') (upTo CR t))
          ((upTo CR t).drop ((upTo (chr ':') (upTo CR t)).length + 2)) with
      | mk st' halt =>
        cases halt with
        | none => simp only [dif_neg hlf]
        | some halt =>
          have hstuck := add_halt st (upTo (chr ':') (upTo CR t))
            ((upTo CR t).drop ((upTo (chr ':') (upTo CR t)).length + 2))
          rw [hadd] at hstuck
          simp only [reduceCtorEq, Option.some.injEq, false_or] at hstuck
          rw [hstuck]
    · intro h
      have hsub : substrFrom? (upTo CR t) ((upTo (chr ':') (upTo CR t)).length + 2) = none := if_neg h
      simp only [hsub]
  · have hmem : chr ':' ∉ upTo CR t := by simpa using hcolon
    have hnot : ¬ Dangles t := by
      rw [Dangles, upTo_of_notMem hmem]
      omega
    simp only [hcolon, Bool.false_eq_true, if_false]
    refine ⟨fun h => absurd h hnot, fun _ => ?_⟩
    rw [substrFrom?, if_neg (by omega)]

/-- A line of a chunk that has not arrived to its line feed. -/
theorem chunkLoop_cut (p : Bytes) {t : Bytes} (hne : t ≠ []) (hlf : LF ∉ t) :
    chunkLoop p t = none ↔ Awaits t := by
  induction h : t.length using Nat.strong_induction_on generalizing t p with
  | _ n ih =>
    have hstart : chunkStart t = t := by
      unfold chunkStart
      split
      · exact past_of_notMem hlf
      · rfl
    have hstop : ¬ (t.isEmpty ∨ t = [CR, LF]) := by
      rintro (h | rfl)
      · exact hne (List.isEmpty_iff.mp h)
      · exact hlf (by decide)
    rw [chunkLoop, if_neg hstop]
    simp only [hstart, past_of_notMem hlf]
    split
    · next h0 =>
      refine iff_of_false (Option.some_ne_none p) ?_
      rintro (⟨hn, -⟩ | ⟨hpos, -, -⟩)
      · exact hn h0
      · omega
    · next h0 =>
      split
      · next hw => exact iff_of_true rfl (.within h0 hw)
      · next hw =>
        rw [not_or, not_lt, not_le] at hw
        have hdrop : t.drop (chunkSize t).toNat ≠ [] := by
          rw [Ne, List.drop_eq_nil_iff]
          omega
        rw [ih (t.drop (chunkSize t).toNat).length (by rw [List.length_drop]; omega) _ hdrop
          (fun hmem => hlf (List.mem_of_mem_drop hmem)) rfl]
        constructor
        · intro ha
          exact .beyond (by omega) hw.2 ha
        · rintro (⟨-, hneg | hle⟩ | ⟨-, -, ha⟩)
          · omega
          · omega
          · exact ha

/-- The parse of the beginning of the status line. -/
theorem attempt_statusLine (r : Response) (m_JSON : Bool) {t : Bytes}
    (hne : t ≠ []) (ht : t <+: r.statusLine ++ [CR]) :
    (Dangles t → (attempt false m_JSON t).2 = .halts .stuck) ∧
      (¬ Dangles t → attempt false m_JSON t = (m_JSON, .halts .threw)) := by
  have hlf : LF ∉ t := fun hmem => by
    have h := ht.subset hmem
    rw [List.mem_append, List.mem_singleton] at h
    rcases h with h | h
    · exact r.notMem_statusLine.2 h
    · exact absurd h (by decide)
  have hcr : t.head? ≠ some CR := by
    obtain ⟨b, s, rfl⟩ := List.exists_cons_of_ne_nil hne
    have hb : b = chr 'H' := (List.cons_prefix_cons.mp ht).1
    rw [hb]
    exact fun h => absurd (Option.some.inj h) (by decide)
  obtain ⟨hstuck, hthrew⟩ := extractLines_cut { m_JSON } hne hcr hlf
  have hheaders : extractHeaders m_JSON t = extractLines { m_JSON } t := by
    rw [extractHeaders, past_of_notMem hlf]
  constructor
  · intro hd
    have hs := hstuck hd
    unfold attempt attemptResponse attemptRequest
    rw [hheaders]
    cases he : extractLines { m_JSON } t with
    | mk st result =>
      rw [he] at hs
      obtain rfl : result = .error .stuck := hs
      split
      · rfl
      · rfl
  · intro hd
    unfold attempt attemptResponse attemptRequest
    rw [hheaders, hthrew hd]
    split
    · rfl
    · rfl

/-! ### Where a response can be cut -/

theorem prefix_append_cases {a b t : Bytes} (h : t <+: a ++ b) :
    t <+: a ∨ ∃ s, t = a ++ s ∧ s <+: b := by
  rcases List.prefix_or_prefix_of_prefix h (List.prefix_append a b) with h' | ⟨s, rfl⟩
  · exact .inl h'
  · exact .inr ⟨s, rfl, (List.prefix_append_right_inj a).mp h⟩

/-- A cut before or behind the end of a line. -/
theorem prefix_line_cases {x y t : Bytes} (h : t <+: x ++ CR :: LF :: y) :
    t <+: x ++ [CR] ∨ ∃ s, t = x ++ CR :: LF :: s ∧ s <+: y := by
  have hsplit : x ++ CR :: LF :: y = (x ++ [CR]) ++ LF :: y := by simp
  rw [hsplit] at h
  rcases prefix_append_cases h with h | ⟨s, rfl, hs⟩
  · exact .inl h
  · cases s with
    | nil =>
      rw [List.append_nil]
      exact .inl (List.prefix_refl _)
    | cons b s =>
      obtain ⟨rfl, hs'⟩ := List.cons_prefix_cons.mp hs
      exact .inr ⟨s, by simp, hs'⟩

theorem prefix_lines_cases {fields : List Field} {y t : Bytes} (h : t <+: lines fields ++ y) :
    (∃ done f more s, fields = done ++ f :: more ∧ t = lines done ++ s ∧ s <+: f.line ++ [CR]) ∨
      ∃ s, t = lines fields ++ s ∧ s <+: y := by
  induction fields generalizing t with
  | nil => exact .inr ⟨t, rfl, h⟩
  | cons f fields ih =>
    rw [lines, List.append_assoc, List.cons_append, List.cons_append] at h
    rcases prefix_line_cases h with h | ⟨s, rfl, hs⟩
    · exact .inl ⟨[], f, fields, t, rfl, rfl, h⟩
    · rcases ih hs with ⟨done, f', more, s', rfl, rfl, hs'⟩ | ⟨s', rfl, hs'⟩
      · exact .inl ⟨f :: done, f', more, s', rfl, by simp [lines], hs'⟩
      · exact .inr ⟨s', by simp [lines], hs'⟩

theorem prefix_chunks_cases {chunks : List Chunk} {y t : Bytes} (h : t <+: chunkBytes chunks ++ y) :
    (∃ done c more s, chunks = done ++ c :: more ∧ t = chunkBytes done ++ s ∧
        (s <+: c.line ++ [CR] ∨ ∃ d, s = c.line ++ CR :: LF :: d ∧ d <+: c.data ++ [CR])) ∨
      ∃ s, t = chunkBytes chunks ++ s ∧ s <+: y := by
  induction chunks generalizing t with
  | nil => exact .inr ⟨t, rfl, h⟩
  | cons c chunks ih =>
    rw [chunkBytes, List.append_assoc, List.cons_append, List.cons_append, List.append_assoc,
      List.cons_append, List.cons_append] at h
    rcases prefix_line_cases h with h | ⟨s, rfl, hs⟩
    · exact .inl ⟨[], c, chunks, t, rfl, rfl, .inl h⟩
    · rcases prefix_line_cases hs with hs | ⟨s', rfl, hs'⟩
      · exact .inl ⟨[], c, chunks, _, rfl, rfl, .inr ⟨s, rfl, hs⟩⟩
      · rcases ih hs' with ⟨done, c', more, s'', rfl, rfl, hs''⟩ | ⟨s'', rfl, hs''⟩
        · exact .inl ⟨c :: done, c', more, s'', rfl, by simp [chunkBytes], hs''⟩
        · exact .inr ⟨s'', by simp [chunkBytes], hs''⟩

/-- What may have arrived of a response. -/
inductive Cut (r : Response) : Bytes → Prop
  | statusLine {t : Bytes} : t <+: r.statusLine ++ [CR] → Cut r t
  | field {done more : List Field} {f : Field} {t : Bytes} : r.fields = done ++ f :: more →
      t <+: f.line ++ [CR] → Cut r (r.front done ++ t)
  | fields : Cut r (r.front r.fields)
  | blank : Cut r (r.front r.fields ++ [CR])
  | content {content t : Bytes} : r.body = .length content → t <+: content → t ≠ content →
      Cut r (r.head ++ t)
  | chunkLine {done more : List Chunk} {c : Chunk} {last : LastChunk} {t : Bytes} :
      r.body = .chunked (done ++ c :: more) last → t <+: c.line ++ [CR] →
      Cut r (r.head ++ (chunkBytes done ++ t))
  | chunkData {done more : List Chunk} {c : Chunk} {last : LastChunk} {t : Bytes} :
      r.body = .chunked (done ++ c :: more) last → t <+: c.data →
      Cut r (r.head ++ (chunkBytes done ++ (c.line ++ CR :: LF :: t)))
  | chunkEnd {done more : List Chunk} {c : Chunk} {last : LastChunk} :
      r.body = .chunked (done ++ c :: more) last →
      Cut r (r.head ++ (chunkBytes done ++ (c.line ++ CR :: LF :: (c.data ++ [CR]))))
  | chunks {chunks : List Chunk} {last : LastChunk} : r.body = .chunked chunks last →
      Cut r (r.head ++ chunkBytes chunks)
  | last {chunks : List Chunk} {last : LastChunk} {t : Bytes} : r.body = .chunked chunks last →
      t ≠ [] → t <+: last.bytes → Cut r (r.head ++ (chunkBytes chunks ++ t))

theorem cut_body {r : Response} {s : Bytes} (hs : s <+: r.body.bytes) (hne : s ≠ r.body.bytes) :
    Cut r (r.head ++ s) := by
  cases hb : r.body with
  | length content =>
    rw [hb] at hs hne
    exact .content hb hs hne
  | chunked chunks last =>
    rw [hb] at hs
    rcases prefix_chunks_cases hs with
      ⟨done, c, more, s', rfl, rfl, hs' | ⟨d, rfl, hd⟩⟩ | ⟨s', rfl, hs'⟩
    · exact .chunkLine hb hs'
    · rcases List.prefix_concat_iff.mp hd with rfl | hd
      · exact .chunkEnd hb
      · exact .chunkData hb hd
    · by_cases hnil : s' = []
      · rw [hnil, List.append_nil]
        exact .chunks hb
      · exact .last hb hnil hs'

theorem cut_of_prefix {r : Response} {t : Bytes} (ht : t <+: r.bytes) (hne : t ≠ r.bytes) :
    Cut r t := by
  have hbytes : r.bytes =
      r.statusLine ++ CR :: LF :: (lines r.fields ++ CR :: LF :: r.body.bytes) := by
    simp [Response.bytes, Response.head, Response.front]
  rw [hbytes] at ht
  rcases prefix_line_cases ht with h | ⟨s, rfl, hs⟩
  · exact .statusLine h
  rcases prefix_lines_cases hs with ⟨done, f, more, s', hf, rfl, hs'⟩ | ⟨s', rfl, hs'⟩
  · have hfront : r.statusLine ++ CR :: LF :: (lines done ++ s') = r.front done ++ s' := by
      simp [Response.front]
    rw [hfront]
    exact .field hf hs'
  rcases prefix_line_cases (x := []) hs' with h | ⟨s'', rfl, hs''⟩
  · rcases List.prefix_concat_iff.mp h with rfl | h
    · have hfront : r.statusLine ++ CR :: LF :: (lines r.fields ++ ([] ++ [CR])) =
          r.front r.fields ++ [CR] := by simp [Response.front]
      rw [hfront]
      exact .blank
    · obtain rfl := List.prefix_nil.mp h
      have hfront : r.statusLine ++ CR :: LF :: (lines r.fields ++ []) = r.front r.fields := by
        simp [Response.front]
      rw [hfront]
      exact .fields
  · have hhead : r.statusLine ++ CR :: LF :: (lines r.fields ++ ([] ++ CR :: LF :: s'')) =
        r.head ++ s'' := by simp [Response.head, Response.front]
    rw [hhead] at hne ⊢
    exact cut_body hs'' fun h => hne (by rw [h]; rfl)

/-! ### The parse of the beginning of a response -/

/-- A parse after which the next read is waited for. -/
def Quiet (result : Bool × Result) : Prop :=
  result.2 = .waits ∨ result.2 = .halts .threw

theorem not_quiet_stuck {result : Bool × Result} (h : result.2 = .halts .stuck) : ¬ Quiet result := by
  rw [Quiet, h]
  simp

theorem not_quiet_delivers {result : Bool × Result} {data : Dict} (h : result.2 = .delivers data) :
    ¬ Quiet result := by
  rw [Quiet, h]
  simp

theorem Awaits.ne_nil {t : Bytes} (h : Awaits t) : t ≠ [] := by
  rintro rfl
  have h0 : chunkSize [] = 0 := by decide
  cases h with
  | within hne => exact hne h0
  | beyond hpos => rw [h0] at hpos; exact absurd hpos (lt_irrefl 0)

theorem not_dangles_nil : ¬ Dangles [] := Nat.not_succ_le_zero 1

theorem Chunk.cut_line (c : Chunk) {t : Bytes} (ht : t <+: c.line ++ [CR]) :
    t.head? ≠ some CR ∧ LF ∉ t := by
  obtain ⟨more, hmore⟩ := ht
  constructor
  · intro hcr
    refine c.head_line [CR] ?_
    cases t with
    | nil => cases hcr
    | cons b s =>
      rw [← hmore]
      exact hcr
  · intro hmem
    have hline : LF ∈ c.line ++ [CR] := by
      rw [← hmore, List.mem_append]
      exact .inl hmem
    rw [List.mem_append, List.mem_singleton] at hline
    rcases hline with hline | hline
    · exact c.notMem_line.2 hline
    · exact absurd hline (by decide)

section Cut

variable {r : Response} (m_JSON : Bool)

/-- The parse of some headers and the beginning of another one. -/
theorem attempt_field (h : r.reading.2 = none) {done more : List Field} {f : Field} {t : Bytes}
    (hf : r.fields = done ++ f :: more) (ht : t <+: f.line ++ [CR]) :
    (Dangles t → (attempt false m_JSON (r.front done ++ t)).2 = .halts .stuck) ∧
      (¬ Dangles t → Quiet (attempt false m_JSON (r.front done ++ t)) ∧
        ((attempt false m_JSON (r.front done ++ t)).1 = true →
          m_JSON = true ∨ r.declaresJson = true)) := by
  obtain ⟨st, hread, hjson⟩ := Response.read_done h hf m_JSON
  obtain ⟨hhalts, hok⟩ := attempt_front r t hread
  by_cases hne : t = []
  · subst hne
    have hnil : extractLines st [] = (st, .ok []) := by rw [extractLines, if_pos (.inl rfl)]
    rw [hok _ _ hnil]
    exact ⟨fun hd => absurd hd not_dangles_nil, fun _ => ⟨.inl rfl, hjson⟩⟩
  · have hcr : t.head? ≠ some CR := by
      obtain ⟨b, s, rfl⟩ := List.exists_cons_of_ne_nil hne
      obtain ⟨b', s', hb'⟩ := List.exists_cons_of_ne_nil f.name_ne
      rw [Field.line, hb'] at ht
      obtain rfl : b = b' := (List.cons_prefix_cons.mp ht).1
      intro hb
      obtain rfl : b = CR := Option.some.inj hb
      exact f.name_ok.1 (by rw [hb']; exact List.mem_cons_self)
    have hlf : LF ∉ t := fun hmem => by
      have h := ht.subset hmem
      simp only [Field.line, List.mem_append, List.mem_cons, List.not_mem_nil, or_false] at h
      rcases h with (h | h | h) | h
      · exact f.name_ok.2.1 h
      · exact absurd h (by decide)
      · exact f.value_ok.2 h
      · exact absurd h (by decide)
    obtain ⟨hstuck, hthrew⟩ := extractLines_cut st hne hcr hlf
    constructor
    · intro hd
      have hs : extractLines st t = ((extractLines st t).1, .error .stuck) :=
        Prod.ext rfl (hstuck hd)
      rw [hhalts _ _ hs]
    · intro hd
      rw [hhalts _ _ (hthrew hd)]
      exact ⟨.inr rfl, hjson⟩

theorem flag_of_or {a b : Bool} (h : (a || b) = true) : a = true ∨ b = true :=
  (Bool.or_eq_true _ _).mp h

/-- Where a response is cut harmlessly, it is waited for. -/
theorem quiet_of_harmless (h : r.reading.2 = none) (hmeasured : r.Measured) {t : Bytes} (hne : t ≠ [])
    (ht : Harmless r t) : Quiet (attempt false m_JSON t) ∧
      ((attempt false m_JSON t).1 = true → m_JSON = true ∨ r.declaresJson = true) := by
  have hbody {s : Bytes} (hw : processBody false r.status (r.state m_JSON)
      (CR :: LF :: s) = .waits) : Quiet (attempt false m_JSON (r.head ++ s)) ∧
        ((attempt false m_JSON (r.head ++ s)).1 = true →
          m_JSON = true ∨ r.declaresJson = true) := by
    rw [attempt_head r m_JSON h s]
    exact ⟨.inl hw, flag_of_or⟩
  unfold Response.Measured at hmeasured
  cases ht with
  | statusLine ht hd =>
    rw [(attempt_statusLine r m_JSON hne ht).2 hd]
    exact ⟨.inr rfl, .inl⟩
  | field hf ht hd => exact (attempt_field m_JSON h hf ht).2 hd
  | fields =>
    have hfields := attempt_fields r m_JSON h (t := []) (.inl rfl)
    rw [List.append_nil] at hfields
    rw [hfields]
    exact ⟨.inl rfl, flag_of_or⟩
  | @blank content hb hone =>
    rw [hb] at hmeasured
    have hlen : r.reading.1.m_ContentLength ≠ (past LF [CR]).length := by
      have hcontent : r.reading.1.m_ContentLength = content.length := hmeasured
      rw [hcontent]
      intro h1
      have h2 : content.length = (past LF [CR]).length := by exact_mod_cast h1
      exact hone h2
    rw [attempt_fields r m_JSON h (.inr rfl),
      processBody_length m_JSON (Response.chunked_eq_false hb) _
        (List.cons_ne_nil _ _), if_neg hlen]
    exact ⟨.inl rfl, flag_of_or⟩
  | @content content t hb ht hneq =>
    rw [hb] at hmeasured
    have hlen : r.reading.1.m_ContentLength ≠ t.length := by
      have hcontent : r.reading.1.m_ContentLength = content.length := hmeasured
      rw [hcontent]
      intro h1
      have h2 : content.length = t.length := by exact_mod_cast h1
      exact hneq (ht.eq_of_length h2.symm)
    apply hbody
    rw [processBody_length m_JSON (Response.chunked_eq_false hb) _
      (List.cons_ne_nil _ _), past_blank, if_neg hlen]
  | @chunkLine done more c last t hb ht hawaits =>
    rw [hb] at hmeasured
    apply hbody
    rw [processBody_chunked m_JSON hmeasured _ (List.cons_ne_nil _ _), past_blank]
    have hloop : chunkLoop [] (chunkBytes done ++ t) = none := by
      obtain ⟨hcr, hlf⟩ := c.cut_line ht
      rw [chunkLoop_chunks [] done hcr]
      rcases hawaits with rfl | hawaits
      · rw [chunkLoop, if_pos (.inl rfl)]
      · exact (chunkLoop_cut _ hawaits.ne_nil hlf).mpr hawaits
    rw [hloop]
  | @chunkData done more c last t hb ht =>
    rw [hb] at hmeasured
    apply hbody
    rw [processBody_chunked m_JSON hmeasured _ (List.cons_ne_nil _ _), past_blank,
      chunkLoop_chunks [] done (c.head_line _), chunkLoop_data _ c ht]
  | @chunks chunks last hb =>
    rw [hb] at hmeasured
    have hloop : chunkLoop [] (chunkBytes chunks) = none := by
      have happ := chunkLoop_chunks [] chunks (t := []) (by simp)
      rw [List.append_nil] at happ
      rw [happ, chunkLoop, if_pos (.inl rfl)]
    apply hbody
    rw [processBody_chunked m_JSON hmeasured _ (List.cons_ne_nil _ _), past_blank, hloop]

/-- Where a response that is cut is waited for, the cut is harmless. -/
theorem harmless_of_quiet (h : r.reading.2 = none) (hmeasured : r.Measured) {t : Bytes} (hne : t ≠ [])
    (ht : Cut r t) (hquiet : Quiet (attempt false m_JSON t)) : Harmless r t := by
  -- a body whose chunks come to an end is delivered, and not waited for
  have hbody {s payload : Bytes} (hc : r.reading.1.m_Chunked = true)
      (hloop : chunkLoop [] s = some payload) :
      ¬ Quiet (attempt false m_JSON (r.head ++ s)) := by
    rw [attempt_head r m_JSON h s,
      processBody_chunked m_JSON hc _ (List.cons_ne_nil _ _), past_blank, hloop]
    exact not_quiet_delivers rfl
  unfold Response.Measured at hmeasured
  cases ht with
  | statusLine ht =>
    refine .statusLine ht fun hd => ?_
    exact not_quiet_stuck ((attempt_statusLine r m_JSON hne ht).1 hd) hquiet
  | field hf ht =>
    refine .field hf ht fun hd => ?_
    exact not_quiet_stuck ((attempt_field m_JSON h hf ht).1 hd) hquiet
  | fields => exact .fields
  | blank =>
    rw [attempt_fields r m_JSON h (.inr rfl)] at hquiet
    cases hb : r.body with
    | length content =>
      refine .blank hb fun hone => ?_
      rw [hb] at hmeasured
      -- the carriage return of the blank line is counted as the content
      have hlen : r.reading.1.m_ContentLength = (past LF [CR]).length := by
        have hcontent : r.reading.1.m_ContentLength = content.length := hmeasured
        rw [hcontent, hone]
        rfl
      obtain ⟨entry, hentry⟩ := exists_bodyEntry_cr (m_JSON || r.declaresJson)
      rw [processBody_length m_JSON (Response.chunked_eq_false hb) _
        (List.cons_ne_nil _ _), if_pos hlen, hentry] at hquiet
      exact not_quiet_delivers rfl hquiet
    | chunked chunks last =>
      rw [hb] at hmeasured
      have hloop : chunkLoop [] (past LF [CR]) = some [] := by
        -- the carriage return is read as a size of zero
        have hsize : chunkSize (chunkStart (past LF [CR])) = 0 := by decide
        rw [chunkLoop, if_neg (by decide)]
        simp only [hsize, if_true]
      rw [processBody_chunked m_JSON hmeasured _ (List.cons_ne_nil _ _), hloop] at hquiet
      exact absurd hquiet (not_quiet_delivers rfl)
  | content hb ht hneq => exact .content hb ht hneq
  | @chunkLine done more c last t hb ht =>
    refine .chunkLine hb ht ?_
    by_cases hnil : t = []
    · exact .inl hnil
    · right
      rw [hb] at hmeasured
      obtain ⟨hcr, hlf⟩ := c.cut_line ht
      by_contra hawaits
      -- the size is cut, and what is there of it ends the chunks
      rw [← chunkLoop_cut ([] ++ (done.map Chunk.data).flatten) hnil hlf,
        ← chunkLoop_chunks [] done hcr] at hawaits
      obtain ⟨payload, hloop⟩ := Option.ne_none_iff_exists'.mp hawaits
      exact hbody hmeasured hloop hquiet
  | chunkData hb ht => exact .chunkData hb ht
  | @chunkEnd done more c last hb =>
    rw [hb] at hmeasured
    -- the carriage return behind the data is read as the size of the next chunk
    have hloop := chunkLoop_chunks [] done (c.head_line (CR :: LF :: (c.data ++ [CR])))
    rw [chunkLoop_data_cr] at hloop
    exact absurd hquiet (hbody hmeasured hloop)
  | chunks hb => exact .chunks hb
  | @last chunks last t hb hnil ht =>
    rw [hb] at hmeasured
    have hloop := chunkLoop_chunks [] chunks (last.chunkSize_prefix hnil ht).1
    rw [last.chunkLoop_prefix _ hnil ht] at hloop
    exact absurd hquiet (hbody hmeasured hloop)

end Cut

/-! ### Delivery -/

/-- A read after which the next one is waited for. -/
theorem processInbound_quiet_iff {p q : Protocol} {read : Bytes}
    (hne : read ≠ []) : processInbound p read = some (q, []) ↔
      q = ⟨p.m_sRetainedData ++ read,
        (attempt false p.m_JSON (p.m_sRetainedData ++ read)).1⟩ ∧
      Quiet (attempt false p.m_JSON (p.m_sRetainedData ++ read)) := by
  have hempty : read.isEmpty = false := List.isEmpty_eq_false_iff.mpr hne
  unfold processInbound Quiet
  rw [hempty]
  cases ha : attempt false p.m_JSON (p.m_sRetainedData ++ read) with
  | mk m_JSON result =>
    simp only [ha]
    cases result with
    | waits => simp [eq_comm]
    | delivers data => simp
    | halts halt =>
      cases halt with
      | threw => simp [eq_comm]
      | stuck => simp

/-- A read that completes a message. -/
theorem processInbound_delivers_iff {p : Protocol} {read : Bytes}
    {m_JSON : Bool} {data : Dict} (hne : read ≠ []) :
    processInbound p read = some ({ m_JSON }, [.onMessage data]) ↔
      attempt false p.m_JSON (p.m_sRetainedData ++ read) =
        (m_JSON, .delivers data) := by
  have hempty : read.isEmpty = false := List.isEmpty_eq_false_iff.mpr hne
  unfold processInbound
  rw [hempty]
  cases ha : attempt false p.m_JSON (p.m_sRetainedData ++ read) with
  | mk m_JSON result =>
    simp only [ha]
    cases result with
    | waits => simp
    | delivers data => simp
    | halts halt =>
      cases halt with
      | threw => simp
      | stuck => simp

/-- A read that is never done with. -/
theorem processInbound_stuck {p : Protocol} {read : Bytes}
    (hne : read ≠ []) (h : (attempt false p.m_JSON (p.m_sRetainedData ++ read)).2 =
      .halts .stuck) : processInbound p read = none := by
  have hempty : read.isEmpty = false := List.isEmpty_eq_false_iff.mpr hne
  unfold processInbound
  rw [hempty]
  cases ha : attempt false p.m_JSON (p.m_sRetainedData ++ read) with
  | mk m_JSON result =>
    rw [ha] at h
    simp only [ha]
    obtain rfl : result = .halts .stuck := h
    rfl

theorem runs_concat_iff {p q : Protocol} {done : List Bytes}
    {read : Bytes} {events : List PluginEvent} :
    runs p (done ++ [read]) = some (q, events) ↔
      ∃ p' e e', runs p done = some (p', e) ∧
        processInbound p' read = some (q, e') ∧ events = e ++ e' := by
  rw [runs_append_iff]
  constructor
  · rintro ⟨p', e, e', hdone, hread, rfl⟩
    obtain ⟨p'', e₁, e₂, hread', hnil, rfl⟩ := runs_cons_iff.mp hread
    cases hnil
    exact ⟨p', e, e₁, hdone, hread', by rw [List.append_nil]⟩
  · rintro ⟨p', e, e', hdone, hread, rfl⟩
    exact ⟨p', e, e', hdone, runs_cons_iff.mpr ⟨q, e', [], hread, rfl, (List.append_nil _).symm⟩, rfl⟩

namespace Reads

variable {r : Response} (d : Reads r.bytes)

theorem flatten_ne_nil {rest : List Bytes} (h : ∀ read ∈ rest, read ≠ []) (hne : rest ≠ []) :
    rest.flatten ≠ [] := by
  intro hnil
  obtain ⟨read, rest, rfl⟩ := List.exists_cons_of_ne_nil hne
  exact h read List.mem_cons_self (List.flatten_eq_nil_iff.mp hnil read List.mem_cons_self)

/-- The last read. -/
theorem exists_last : ∃ done read, d.reads = done ++ [read] ∧ read ≠ [] ∧
    done.flatten ++ read = r.bytes := by
  rcases List.eq_nil_or_concat' d.reads with h | ⟨done, read, h⟩
  · have hbytes := d.flatten_eq
    rw [h] at hbytes
    cases hbytes
  · refine ⟨done, read, h, d.ne_nil read (by rw [h]; simp), ?_⟩
    rw [← List.flatten_concat, ← h, d.flatten_eq]

/-- What has arrived when a read ends that is not the last. -/
theorem cut {done : List Bytes} (h : done <+: d.reads) (hne : done ≠ []) (hall : done ≠ d.reads) :
    done.flatten ≠ [] ∧ Cut r done.flatten := by
  obtain ⟨rest, hrest⟩ := h
  have hdone : ∀ read ∈ done, read ≠ [] := fun read hmem =>
    d.ne_nil read (by rw [← hrest]; exact List.mem_append_left rest hmem)
  have hmore : rest.flatten ≠ [] := by
    refine flatten_ne_nil (fun read hmem => ?_) ?_
    · exact d.ne_nil read (by rw [← hrest]; exact List.mem_append_right done hmem)
    · rintro rfl
      rw [List.append_nil] at hrest
      exact hall hrest
  have hbytes : done.flatten ++ rest.flatten = r.bytes := by
    rw [← List.flatten_append, hrest, d.flatten_eq]
  refine ⟨flatten_ne_nil hdone hne, cut_of_prefix ⟨_, hbytes⟩ fun heq => ?_⟩
  rw [heq] at hbytes
  exact hmore (List.append_right_eq_self.mp hbytes)

end Reads

/-- Up to the last read nothing is delivered, if all cuts are harmless. -/
theorem runs_harmless (m_JSON : Bool) {r : Response}
    (d : Reads r.bytes) (hread : r.reading.2 = none) (hmeasured : r.Measured) (hcuts : d.Harmless)
    {done : List Bytes} (h : done <+: d.reads) (hall : done ≠ d.reads) :
    ∃ m_JSON', runs { m_JSON } done = some (⟨done.flatten, m_JSON'⟩, []) ∧
      (m_JSON' = true → m_JSON = true ∨ r.declaresJson = true) := by
  induction done using List.reverseRecOn with
  | nil => exact ⟨m_JSON, rfl, .inl⟩
  | append_singleton done read ih =>
    have hprefix : done <+: d.reads := (List.prefix_append done [read]).trans h
    have hneq : done ≠ d.reads := by
      rintro rfl
      exact absurd h.length_le (by simp)
    obtain ⟨m_JSON', hdone, hflag⟩ := ih hprefix hneq
    have hne : read ≠ [] := d.ne_nil read (h.subset (List.mem_append_right done List.mem_cons_self))
    have hbytes : (done ++ [read]).flatten = done.flatten ++ read := by
      rw [List.flatten_concat]
    obtain ⟨hquiet, hflag'⟩ := quiet_of_harmless m_JSON' hread hmeasured
      (d.cut h (by simp) hall).1 (hcuts _ h (by simp) hall)
    rw [hbytes] at hquiet hflag' ⊢
    refine ⟨_, runs_concat_iff.mpr ⟨_, [], [], hdone,
      (processInbound_quiet_iff hne).mpr ⟨rfl, hquiet⟩, rfl⟩, fun hj => ?_⟩
    rcases hflag' hj with hj | hj
    · exact hflag hj
    · exact .inr hj

/-- Up to the last read `m_JSON` is set by the response, or it was set before. -/
theorem flag_harmless {m_JSON flag : Bool} {r : Response}
    {d : Reads r.bytes} (hread : r.reading.2 = none) (hmeasured : r.Measured) (hcuts : d.Harmless)
    {done : List Bytes} (h : done <+: d.reads) (hall : done ≠ d.reads)
    (hrun : runs { m_JSON } done = some (⟨done.flatten, flag⟩, [])) :
    (flag || r.declaresJson) = (m_JSON || r.declaresJson) := by
  obtain ⟨flag', hrun', hflag⟩ := runs_harmless m_JSON d hread hmeasured hcuts h hall
  obtain rfl : flag = flag' := by
    rw [hrun'] at hrun
    cases hrun
    rfl
  cases hf : flag with
  | true =>
    rcases hflag hf with hj | hj
    · rw [hj]
    · rw [hj, Bool.or_true, Bool.or_true]
  | false =>
    cases hj : m_JSON with
    | false => rfl
    | true =>
      have htrue := runs_json hrun hj
      rw [hf] at htrue
      cases htrue

/-- The runs in which a response is delivered. -/
theorem deliveredAs_iff (m_JSON : Bool) {r : Response}
    (d : Reads r.bytes) {data : Dict} {m_JSON' : Bool} :
    DeliveredAs m_JSON d data m_JSON' ↔ (r.Legible ∧ d.Harmless) ∧
      m_JSON' = (m_JSON || r.declaresJson) ∧ r.delivered m_JSON = .ok data := by
  obtain ⟨done, read, hreads, hne, hbytes⟩ := d.exists_last
  have hprefix : done <+: d.reads := ⟨[read], hreads.symm⟩
  have hneq : done ≠ d.reads := by
    rw [hreads]
    exact fun h => absurd (congrArg List.length h) (by simp)
  rw [r.legible_iff]
  constructor
  · intro hrun
    have hsplit {done rest : List Bytes} (hd : done ++ rest = d.reads) (hrest : rest ≠ []) :
        ∃ flag, runs { m_JSON } done = some (⟨done.flatten, flag⟩, []) ∧
          runs ⟨done.flatten, flag⟩ rest =
            some ({ m_JSON := m_JSON' }, [.onMessage data]) := by
      rw [DeliveredAs, ← hd] at hrun
      refine runs_done hrun rfl (Reads.flatten_ne_nil (fun read hmem => ?_) hrest)
      exact d.ne_nil read (by rw [← hd]; exact List.mem_append_right done hmem)
    -- the last read completes the response
    obtain ⟨flag, hdone, hlast⟩ := hsplit hreads.symm (List.cons_ne_nil _ _)
    have hdelivers : attempt false flag r.bytes = (m_JSON', .delivers data) := by
      obtain ⟨p', e, e', hdone', hread, hevents⟩ := (@runs_concat_iff _ _ [] _ _).mp hlast
      cases hdone'
      rw [List.nil_append] at hevents
      rw [← hevents, processInbound_delivers_iff hne, hbytes] at hread
      exact hread
    obtain ⟨hread, hmeasured⟩ := attempt_delivers (congrArg Prod.snd hdelivers)
    rw [attempt_bytes flag hread hmeasured] at hdelivers
    obtain ⟨rfl, hdata⟩ := Prod.mk.inj hdelivers
    -- the reads before it are waited for
    have hcuts : d.Harmless := fun done h hnil hall => by
      obtain ⟨hne', hcut⟩ := d.cut h hnil hall
      obtain ⟨rest, hrest⟩ := h
      have hmore : rest ≠ [] := by
        rintro rfl
        rw [List.append_nil] at hrest
        exact hall hrest
      obtain ⟨flag', hdone', -⟩ := hsplit hrest hmore
      obtain ⟨done, read, rfl⟩ := (List.eq_nil_or_concat' done).resolve_left hnil
      obtain ⟨p, e, e', hbefore, hlast', hevents⟩ := runs_concat_iff.mp hdone'
      obtain ⟨rfl, rfl⟩ := List.append_eq_nil_iff.mp hevents.symm
      have hne'' : read ≠ [] := d.ne_nil read (by rw [← hrest]; simp)
      have hp := runs_retained hbefore
      obtain ⟨-, hq⟩ := (processInbound_quiet_iff hne'').mp hlast'
      rw [hp, List.nil_append] at hq
      rw [List.flatten_concat] at hne' hcut ⊢
      exact harmless_of_quiet p.m_JSON hread hmeasured hne' hcut hq
    have hflag := flag_harmless hread hmeasured hcuts hprefix hneq hdone
    refine ⟨⟨⟨hread, hmeasured⟩, hcuts⟩, hflag, ?_⟩
    rw [← Result.ofDict_eq_delivers_iff.mp hdata, Response.delivered, Response.delivered, hflag]
  · rintro ⟨⟨⟨hread, hmeasured⟩, hcuts⟩, rfl, hdata⟩
    obtain ⟨flag, hdone, -⟩ := runs_harmless m_JSON d hread hmeasured hcuts hprefix hneq
    have hflag := flag_harmless hread hmeasured hcuts hprefix hneq hdone
    rw [DeliveredAs, hreads]
    refine runs_concat_iff.mpr
      ⟨_, [], _, hdone, (processInbound_delivers_iff hne).mpr ?_, rfl⟩
    rw [hbytes, attempt_bytes flag hread hmeasured, hflag, Result.ofDict_eq_delivers_iff.mpr]
    rw [← hdata, Response.delivered, Response.delivered, hflag]

/-- **A response is delivered, once and complete, exactly if its headers can be read and mean
what they say, its content is not taken for JSON because of an earlier response, and is all
translated if it is JSON, and it is cut into reads at harmless places only.** -/
theorem delivers_iff (m_JSON : Bool) (r : Response) (d : Reads r.bytes) :
    Delivers m_JSON r d ↔ r.Legible ∧ (r.Plain m_JSON ∧ r.Translatable) ∧ d.Harmless := by
  rw [← r.delivered_isMessage_iff m_JSON]
  constructor
  · rintro ⟨data, m_JSON', h, hmessage⟩
    obtain ⟨⟨hlegible, hcuts⟩, -, hdata⟩ := (deliveredAs_iff m_JSON d).mp h
    exact ⟨hlegible, ⟨data, hdata, hmessage⟩, hcuts⟩
  · rintro ⟨hlegible, ⟨data, hdata, hmessage⟩, hcuts⟩
    exact ⟨data, _, (deliveredAs_iff m_JSON d).mpr ⟨⟨hlegible, hcuts⟩, rfl, hdata⟩, hmessage⟩

/-- `Content-Length: 0`. -/
def emptyLength : Field where
  name := str "Content-Length"
  value := str " 0"
  name_ne := by decide
  name_ok := by decide
  value_ok := by decide

/-- `HTTP/1.1 200 OK` with an empty body. -/
def emptyOk : Response where
  minor := chr '1'
  status := str "200"
  reason := str "OK"
  fields := [emptyLength]
  body := .length []
  minor_ok := by decide
  status_ok := ⟨rfl, List.all_eq_true.mp rfl⟩
  reason_ok := by decide
  declared := by
    refine ⟨⟨emptyLength, List.mem_cons_self, by decide⟩, fun f hf _ => ?_, fun f hf => ?_⟩
    · obtain rfl := List.mem_singleton.mp hf
      exact by decide
    · obtain rfl := List.mem_singleton.mp hf
      exact by decide

/-- The end of a read behind `Content-Length: ` is an endless loop. -/
theorem cut_header_stuck :
    ¬ ∀ (r : Response) (d : Reads r.bytes), Delivers false r d := by
  intro h
  let first := emptyOk.front [] ++ str "Content-Length: "
  let d : Reads emptyOk.bytes :=
    ⟨[first, emptyOk.bytes.drop first.length], by decide, by decide⟩
  obtain ⟨data, m_JSON', hrun, -⟩ := h emptyOk d
  obtain ⟨p, e, e', hread, -, -⟩ := runs_cons_iff.mp hrun
  have hline : str "Content-Length: " <+: emptyLength.line ++ [CR] := ⟨str "0" ++ [CR], by decide⟩
  have hdangles : Dangles (str "Content-Length: ") := by
    unfold Dangles
    decide
  have hread' : emptyOk.reading.2 = none := by decide
  have hfields : emptyOk.fields = [] ++ emptyLength :: [] := rfl
  have hstuck := (attempt_field false hread' hfields hline).1 hdangles
  rw [processInbound_stuck (by decide) hstuck] at hread
  cases hread

end Domoticz.Http
