import Domoticz.Plugin.HttpDelivery

/-!
# The headers of any buffer

`ExtractHeaders` is called with whatever has arrived.  Its loop takes a line up to the next
carriage return and goes on behind the next line feed; it ends in front of a carriage return and
at the end of the buffer.  A line that has no line feed yet is taken again and again, and one
without a byte behind its colon ends in an exception.

## Main definitions

* `passes`, `remainder` — what the passes of the loop begin with, and what is left of the buffer.
* `Extracts` — the buffers whose lines can be read.
* `Incomplete` — the header block has not arrived to its empty line.
* `Terminates` — the loop returns from a buffer, and the protocol can go on behind it.

## Main results

* `extractLines_ok_iff` — the buffers from which the loop returns, and with what.
* `terminates_iff` — **the loop returns and the protocol can go on exactly under `Extracts`.**
* `line_without_end` — a line of which the line feed has not arrived.
-/

namespace Domoticz.Http

open CLib

/-! ### The passes of the loop -/

/-- What each pass begins with, for a buffer behind its first line. -/
def passes (pData : Bytes) : List Bytes :=
  if pData.isEmpty ∨ pData.head? = some CR then []
  else if _ : LF ∈ pData then pData :: passes (past LF pData) else [pData]
termination_by pData.length
decreasing_by exact length_past_lt ‹_›

/-- What the loop leaves of the buffer. -/
def remainder (pData : Bytes) : Bytes :=
  if pData.isEmpty ∨ pData.head? = some CR then pData
  else if _ : LF ∈ pData then remainder (past LF pData) else pData
termination_by pData.length
decreasing_by exact length_past_lt ‹_›

/-- The name in front of the first colon of the line, and what stands two bytes behind it. -/
def entryOf (pData : Bytes) : Bytes × Bytes :=
  (upTo (chr ':') (upTo CR pData),
    (upTo CR pData).drop ((upTo (chr ':') (upTo CR pData)).length + 2))

instance Dangles.decidable (line : Bytes) : Decidable (Dangles line) :=
  inferInstanceAs (Decidable (_ ≤ _))

theorem colon_of_dangles {line : Bytes} (h : Dangles line) : chr ':' ∈ upTo CR line := by
  by_contra hnot
  rw [Dangles, upTo_of_notMem hnot] at h
  omega

/-- A pass. -/
theorem extractLines_pass (st : HeaderState) {pData : Bytes}
    (h : ¬ (pData.isEmpty ∨ pData.head? = some CR)) :
    extractLines st pData =
      if Dangles pData then
        match st.add (entryOf pData).1 (entryOf pData).2 with
        | (st, some halt) => (st, .error halt)
        | (st, none) =>
            if LF ∈ pData then extractLines st (past LF pData) else (st, .error .stuck)
      else (st, .error .threw) := by
  rw [extractLines, if_neg h]
  by_cases hcolon : chr ':' ∈ upTo CR pData
  · have hcontains : (upTo CR pData).contains (chr ':') = true := List.contains_iff_mem.mpr hcolon
    simp only [hcontains, if_true]
    by_cases hdangles : Dangles pData
    · have hsub : substrFrom? (upTo CR pData) ((upTo (chr ':') (upTo CR pData)).length + 2) =
          some (entryOf pData).2 := if_pos hdangles
      rw [if_pos hdangles]
      simp only [hsub]
      rfl
    · have hsub : substrFrom? (upTo CR pData) ((upTo (chr ':') (upTo CR pData)).length + 2) =
          none := if_neg hdangles
      rw [if_neg hdangles]
      simp only [hsub]
  · have hcontains : (upTo CR pData).contains (chr ':') = false := by
      rw [← Bool.not_eq_true, List.contains_iff_mem]
      exact hcolon
    have hlen : (upTo CR pData).length ≤ pData.length := (List.takeWhile_prefix _).length_le
    have hsub : substrFrom? (upTo CR pData) (pData.length + 2) = none := if_neg (by omega)
    rw [if_neg fun hdangles => hcolon (colon_of_dangles hdangles)]
    simp only [hcontains, Bool.false_eq_true, if_false, hsub]

/-- The lines are whole, and have something behind their colons. -/
def Whole (pData : Bytes) : Prop := ∀ p ∈ passes pData, Dangles p ∧ LF ∈ p

/-- The loop returns if the lines are whole and their entries can be added. -/
theorem extractLines_ok_iff (st st' : HeaderState) (pData rest : Bytes) :
    extractLines st pData = (st', .ok rest) ↔ Whole pData ∧
      st.addAll ((passes pData).map entryOf) = (st', none) ∧ remainder pData = rest := by
  induction h : pData.length using Nat.strong_induction_on generalizing st pData with
  | _ n ih =>
    by_cases hstop : pData.isEmpty ∨ pData.head? = some CR
    · rw [Whole, extractLines, if_pos hstop, passes, if_pos hstop, remainder, if_pos hstop,
        List.map_nil, HeaderState.addAll, and_iff_right (List.forall_mem_nil _), Prod.mk.injEq,
        Prod.mk.injEq, and_iff_left rfl, Except.ok.injEq]
    · rw [extractLines_pass st hstop, Whole, passes, if_neg hstop, remainder, if_neg hstop]
      by_cases hdangles : Dangles pData
      · rw [if_pos hdangles]
        by_cases hlf : LF ∈ pData
        · rw [dif_pos hlf, dif_pos hlf, List.map_cons, HeaderState.addAll, List.forall_mem_cons,
            and_iff_right (And.intro hdangles hlf)]
          cases hadd : st.add (entryOf pData).1 (entryOf pData).2 with
          | mk st₁ halt =>
            cases halt with
            | none =>
              simp only [if_pos hlf]
              exact ih _ (h ▸ length_past_lt hlf) st₁ _ rfl
            | some halt => simp
        · rw [dif_neg hlf, dif_neg hlf, List.forall_mem_singleton]
          refine iff_of_false ?_ fun hall => hlf hall.1.2
          split
          · exact fun h => by cases h
          · rw [if_neg hlf]
            exact fun h => by cases h
      · rw [if_neg hdangles]
        refine iff_of_false (fun h => by cases h) fun hall => hdangles ?_
        split at hall
        · exact (hall.1 _ List.mem_cons_self).1
        · exact (hall.1 _ List.mem_cons_self).1

/-! ### What is left -/

/-- What is left is the end of the buffer, in whole lines. -/
theorem exists_remainder (pData : Bytes) :
    remainder pData = pData ∨ ∃ front, pData = front ++ LF :: remainder pData := by
  induction hn : pData.length using Nat.strong_induction_on generalizing pData with
  | _ n ih =>
    rw [remainder]
    split
    · exact .inl rfl
    · split
      · next hlf =>
        right
        obtain ⟨front, rest, rfl, hnot⟩ := List.eq_append_cons_of_mem hlf
        rw [past_append_cons rest hnot]
        rcases ih rest.length (by rw [← hn, List.length_append, List.length_cons]; omega) rest rfl
          with heq | ⟨front', heq⟩
        · exact ⟨front, by rw [heq]⟩
        · refine ⟨front ++ LF :: front', ?_⟩
          conv_lhs => rw [heq]
          rw [List.append_assoc]
          rfl
      · exact .inl rfl

/-! ### What is noted -/

/-- The length that some headers declare. -/
def declaredLength (init : ℤ) (es : List (Bytes × Bytes)) : ℤ :=
  es.foldl (fun n e => if upper e.1 = str "CONTENT-LENGTH" then atoi e.2 else n) init

/-- Whether some headers declare that the body is in chunks. -/
def declaredChunked (es : List (Bytes × Bytes)) : Bool :=
  es.any fun e => upper e.1 == str "TRANSFER-ENCODING" && upper e.2 == str "CHUNKED"

theorem add_contentLength (st : HeaderState) (name text : Bytes) :
    (st.add name text).1.m_ContentLength =
      if upper name = str "CONTENT-LENGTH" then atoi text else st.m_ContentLength := by
  have hadd : (st.add name text).1.m_ContentLength = (st.note name text).m_ContentLength := by
    unfold HeaderState.add
    simp only
    split
    · rfl
    · rfl
  rw [hadd]
  split
  · next hname => rw [HeaderState.note, if_pos hname]
  · next hname => exact note_contentLength st text hname

theorem add_chunked (st : HeaderState) (name text : Bytes) :
    (st.add name text).1.m_Chunked = (st.m_Chunked ||
      (upper name == str "TRANSFER-ENCODING" && upper text == str "CHUNKED")) := by
  have hadd : (st.add name text).1.m_Chunked = (st.note name text).m_Chunked := by
    unfold HeaderState.add
    simp only
    split
    · rfl
    · rfl
  rw [hadd]
  by_cases hname : upper name = str "TRANSFER-ENCODING"
  · have hother : ¬ upper name = str "CONTENT-LENGTH" := by
      rw [hname]
      decide
    rw [HeaderState.note, if_neg hother, if_pos hname, hname, beq_self_eq_true, Bool.true_and]
  · rw [note_chunked st text hname, beq_false_of_ne hname, Bool.false_and, Bool.or_false]

theorem addAll_noted {st st' : HeaderState} {es : List (Bytes × Bytes)}
    (h : st.addAll es = (st', none)) :
    st'.m_ContentLength = declaredLength st.m_ContentLength es ∧
      st'.m_Chunked = (st.m_Chunked || declaredChunked es) := by
  induction es generalizing st with
  | nil =>
    cases h
    exact ⟨rfl, (Bool.or_false _).symm⟩
  | cons e es ih =>
    rw [HeaderState.addAll] at h
    have hlength := add_contentLength st e.1 e.2
    have hchunked := add_chunked st e.1 e.2
    cases hadd : st.add e.1 e.2 with
    | mk st₁ halt =>
      rw [hadd] at h hlength hchunked
      cases halt with
      | none =>
        obtain ⟨hlength', hchunked'⟩ := ih h
        rw [hlength', hchunked', hlength, hchunked, declaredChunked, declaredChunked,
          List.any_cons, Bool.or_assoc]
        exact ⟨rfl, rfl⟩
      | some halt => cases h

/-- The content type is JSON. -/
def declaresJson (es : List (Bytes × Bytes)) : Bool :=
  es.any fun e => jsonHeader e.1 e.2

theorem addAll_json {st st' : HeaderState} {es : List (Bytes × Bytes)}
    (h : st.addAll es = (st', none)) : st'.m_JSON = (st.m_JSON || declaresJson es) := by
  induction es generalizing st with
  | nil =>
    cases h
    exact (Bool.or_false _).symm
  | cons e es ih =>
    have hnote : (st.note e.1 e.2).m_JSON = (st.m_JSON || jsonHeader e.1 e.2) :=
      congrArg HeaderState.m_JSON (note_withJson st st.m_JSON e.1 e.2)
    have hadd := add_json st e.1 e.2
    rw [HeaderState.addAll] at h
    cases hst : st.add e.1 e.2 with
    | mk st₁ halt =>
      rw [hst] at h hadd
      cases halt with
      | none =>
        rw [ih h, declaresJson, declaresJson, List.any_cons, ← Bool.or_assoc, ← hnote]
        exact congrArg (· || _) hadd
      | some halt => cases h

/-! ### Incomplete blocks -/

/-- No line of the buffer is the empty one that ends a header block. -/
def Incomplete (b : Bytes) : Prop := ¬ [LF, CR, LF] <:+: b

/-- The loop returns from a buffer; and if its header block is incomplete, the read that completes
the buffer waits for more, without an exception: it delivers nothing and leaves all of it for the
next. -/
structure Terminates (m_JSON : Bool) (b : Bytes) : Prop where
  returns : ∃ st rest, extractHeaders m_JSON b = (st, .ok rest)
  resumes : Incomplete b → (attempt false m_JSON b).2 = .waits ∧
    ∀ m_sRetainedData read, read ≠ [] → m_sRetainedData ++ read = b →
      ∃ m_JSON', processInbound { m_sRetainedData, m_JSON } read =
        some ({ m_sRetainedData := b, m_JSON := m_JSON' }, [])

/-- The names and texts of the lines behind the first. -/
def bufferHeaders (b : Bytes) : List (Bytes × Bytes) := (passes (past LF b)).map entryOf

/-- What is taken for the body: it begins behind the next line feed, if there is one. -/
def taken (b : Bytes) : Bytes := past LF (remainder (past LF b))

/-- What is left of the buffer is taken for a whole body. -/
def TakenForBody (b : Bytes) : Prop :=
  b.take 4 = str "HTTP" ∧ remainder (past LF b) ≠ [] ∧
    upTo (chr ' ') (past (chr ' ') (upTo CR b)) ≠ [] ∧
      if declaredChunked (bufferHeaders b) then chunkLoop [] (taken b) ≠ none
      else declaredLength (-1) (bufferHeaders b) = (taken b).length

/-- A buffer whose lines can be read: every line behind the first one is whole, with a colon and
something behind it, and UTF-8 where it becomes a value by itself.  If the header block is
incomplete, what is left of it (which begins with a carriage return) is not taken for a body. -/
structure Extracts (b : Bytes) : Prop where
  whole : Whole (past LF b)
  text : ∀ done e more, bufferHeaders b = done ++ e :: more → buildString e.1 ≠ none →
    (∀ g ∈ done, cstr g.1 ≠ cstr e.1) → buildString e.2 ≠ none
  body : Incomplete b → ¬ TakenForBody b

theorem extractHeaders_ok_iff (m_JSON : Bool) (b : Bytes) :
    (∃ st rest, extractHeaders m_JSON b = (st, .ok rest)) ↔ Whole (past LF b) ∧
      ∀ done e more, bufferHeaders b = done ++ e :: more → buildString e.1 ≠ none →
        (∀ g ∈ done, cstr g.1 ≠ cstr e.1) → buildString e.2 ≠ none := by
  have hnone := addAll_eq_none_iff { m_JSON } (bufferHeaders b)
  simp only [List.map_nil, List.not_mem_nil, not_false_iff, forall_const] at hnone
  rw [← hnone]
  constructor
  · rintro ⟨st, rest, h⟩
    obtain ⟨hwhole, hadd, -⟩ := (extractLines_ok_iff _ _ _ _).mp h
    exact ⟨hwhole, congrArg Prod.snd hadd⟩
  · rintro ⟨hwhole, hadd⟩
    refine ⟨(({ m_JSON } : HeaderState).addAll (bufferHeaders b)).1, _,
      (extractLines_ok_iff _ _ _ _).mpr ⟨hwhole, ?_, rfl⟩⟩
    exact Prod.ext rfl hadd

/-- A block that is incomplete does not leave its empty line. -/
theorem remainder_of_incomplete {b : Bytes} (h : Incomplete b) :
    (remainder (past LF b)).take 2 ≠ [CR, LF] := by
  intro htake
  obtain ⟨t, ht⟩ : ∃ t, remainder (past LF b) = CR :: LF :: t := by
    refine ⟨(remainder (past LF b)).drop 2, ?_⟩
    conv_lhs => rw [← List.take_append_drop 2 (remainder (past LF b)), htake]
    rfl
  by_cases hlf : LF ∈ b
  · obtain ⟨front, rest, rfl, hnot⟩ := List.eq_append_cons_of_mem hlf
    rw [past_append_cons rest hnot] at ht
    apply h
    rcases exists_remainder rest with heq | ⟨front', heq⟩
    · refine ⟨front, t, ?_⟩
      rw [← heq, ht, List.append_assoc]
      rfl
    · refine ⟨front ++ LF :: front', t, ?_⟩
      rw [heq, ht]
      simp only [List.append_assoc, List.cons_append, List.nil_append]
  · rw [past_of_notMem hlf] at ht
    rcases exists_remainder b with heq | ⟨front, heq⟩
    · rw [heq] at ht
      exact hlf (by rw [ht]; exact List.mem_cons_of_mem _ List.mem_cons_self)
    · exact hlf (by rw [heq]; exact List.mem_append_right _ List.mem_cons_self)

/-- The parse of an incomplete block waits unless it takes what is left for the body. -/
theorem attempt_incomplete {m_JSON : Bool} {b rest : Bytes}
    {st : HeaderState} (hb : Incomplete b) (hst : extractHeaders m_JSON b = (st, .ok rest)) :
    (¬ TakenForBody b → attempt false m_JSON b = (st.m_JSON, .waits)) ∧
      (TakenForBody b → (attempt false m_JSON b).2 ≠ .waits) := by
  obtain ⟨-, hadd, rfl⟩ := (extractLines_ok_iff _ _ _ _).mp hst
  rw [← bufferHeaders] at hadd
  obtain ⟨hlength, hchunked⟩ := addAll_noted hadd
  rw [Bool.false_or] at hchunked
  unfold attempt TakenForBody
  by_cases hhttp : b.take 4 = str "HTTP"
  · rw [if_pos hhttp, attemptResponse, hst, and_iff_right hhttp]
    simp only
    by_cases hrest : remainder (past LF b) = []
    · rw [processBody, if_pos (List.isEmpty_iff.mpr hrest)]
      exact ⟨fun _ => rfl, fun h => absurd hrest h.1⟩
    · have hempty : ¬ (remainder (past LF b)).isEmpty = true := by
        rw [List.isEmpty_iff]
        exact hrest
      rw [processBody, if_neg hempty, and_iff_right hrest]
      simp only
      by_cases hstatus : upTo (chr ' ') (past (chr ' ') (upTo CR b)) = []
      · rw [if_pos (List.isEmpty_iff.mpr hstatus)]
        exact ⟨fun _ => rfl, fun h => absurd hstatus h.1⟩
      · have hstatus' : ¬ (upTo (chr ' ') (past (chr ' ') (upTo CR b))).isEmpty = true := by
          rw [List.isEmpty_iff]
          exact hstatus
        rw [if_neg hstatus', and_iff_right hstatus, hchunked, hlength, ← taken]
        by_cases hchunks : declaredChunked (bufferHeaders b) = true
        · rw [if_pos hchunks, if_pos hchunks]
          -- the chunks that are there have come to an end, or not
          cases chunkLoop [] (taken b) with
          | none => exact ⟨fun _ => rfl, fun h => absurd rfl h⟩
          | some sPayload => exact ⟨fun h => absurd nofun h, fun _ => queueResponse_ne_waits _ _ _⟩
        · rw [if_neg hchunks, if_neg hchunks]
          simp only [Bool.false_eq_true, or_false]
          by_cases heq : declaredLength (-1) (bufferHeaders b) = (taken b).length
          · simp only [heq, if_true]
            exact ⟨fun h => absurd trivial h, fun _ => queueResponse_ne_waits _ _ _⟩
          · simp only [heq, if_false]
            exact ⟨fun _ => trivial, fun h => absurd h not_false⟩
  · rw [if_neg hhttp, attemptRequest, hst]
    simp only
    rw [if_neg (remainder_of_incomplete hb)]
    exact ⟨fun _ => rfl, fun h => absurd h.1 hhttp⟩

/-- **The loop returns and the protocol can go on exactly if** the lines of the buffer can be
read. -/
theorem terminates_iff (m_JSON : Bool) (b : Bytes) :
    Terminates m_JSON b ↔ Extracts b := by
  constructor
  · rintro ⟨⟨st, rest, hst⟩, hresumes⟩
    obtain ⟨hwhole, htext⟩ := (extractHeaders_ok_iff m_JSON b).mp ⟨st, rest, hst⟩
    exact ⟨hwhole, htext, fun hb htaken =>
      (attempt_incomplete hb hst).2 htaken (hresumes hb).1⟩
  · rintro ⟨hwhole, htext, hbody⟩
    obtain ⟨st, rest, hst⟩ := (extractHeaders_ok_iff m_JSON b).mpr ⟨hwhole, htext⟩
    refine ⟨⟨st, rest, hst⟩, fun hb => ?_⟩
    have hwaits := (attempt_incomplete hb hst).1 (hbody hb)
    refine ⟨congrArg Prod.snd hwaits, fun m_sRetainedData read hne hread => ⟨st.m_JSON, ?_⟩⟩
    have hflush : read.isEmpty = false := List.isEmpty_eq_false_iff.mpr hne
    simp only [processInbound, hread, hflush, hwaits]

/-- A header line of which a read has brought the beginning: the loop does not end.  A status line
that is cut ends in an exception. -/
theorem line_without_end :
    (extractHeaders false (str "HTTP/1.1 200 OK\r\nDate: Thu")).2 = .error .stuck ∧
      (extractHeaders false (str "HTTP/1.1 2")).2 = .error .threw ∧
      ¬ ∀ b, Terminates false b := by
  have hstuck : (extractHeaders false (str "HTTP/1.1 200 OK\r\nDate: Thu")).2 = .error .stuck :=
    (extractLines_cut { m_JSON := false } (t := str "Date: Thu") (by decide) (by decide)
      (by decide)).1 (by decide)
  have hthrew : extractHeaders false (str "HTTP/1.1 2") = ({ m_JSON := false }, .error .threw) :=
    (extractLines_cut { m_JSON := false } (t := str "HTTP/1.1 2") (by decide) (by decide)
      (by decide)).2 (by decide)
  refine ⟨hstuck, congrArg Prod.snd hthrew, fun h => ?_⟩
  obtain ⟨st, rest, hst⟩ := (h (str "HTTP/1.1 200 OK\r\nDate: Thu")).returns
  rw [hst] at hstuck
  cases hstuck

end Domoticz.Http
