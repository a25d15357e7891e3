import Domoticz.CLib.Search
import Domoticz.Plugin.HttpOutbound

/-!
# From one plugin to another over HTTP

What `ProcessOutbound` makes of a dictionary is put together from texts, and `ProcessInbound` takes
it apart again: the first line at its blanks, a header at its first colon, and the body by the
length that is declared.

The credentials lose a byte on the way: `Authorization:Basic` has no blank behind its colon.  The
length of a text is that of its code points, not of its bytes, and a text ends at its first NUL.
Line feeds are sent as they are: the reader goes on behind each of them with a line that nobody
wrote, and where there is nothing in front of the next carriage return it takes the rest of the
headers for the body.

## Main definitions

* `Carries`, `RoundTrips` — one message is delivered, and it is the one that was sent.
* `within`, `Outgoing.inner`, `Outgoing.found` — the lines that the reader finds in a line, and the
  headers that it finds.
* `Unbroken` — no text ends the header block.
* `Meets` — when a message goes round.

## Main results

* `extractHeaders_lines_iff` — the headers are those of the lines and of the lines in them.
* `lookup_addAll_text_iff` — the headers that are kept as they are.
* `tidy_addAll` — what cannot be a name or a text.
* `roundTrips_iff_meets` — **a message whose texts do not end the header block goes round exactly
  under `Meets`.**
* `credentials_cut` — the credentials of a configured user.
-/

namespace Domoticz.Http

open CLib

/-! ### A message that arrives -/

/-- The data of a message in bytes, none if there is no data. -/
def carried (data : Dict) : Option Bytes :=
  match data.lookup (str "Data") with
  | none => some []
  | some (.bytes s) => some s
  | some _ => none

/-- What a message says in its first line. -/
def Start.Carried (data : Dict) : Start → Prop
  | .request verb url => ∃ v u, asUTF8 verb = some v ∧ asUTF8 (url.getD (pyStr "/")) = some u ∧
      data.lookup (str "Verb") = some (.text v) ∧ data.lookup (str "URL") = some (.text u)
  | .response status => ∃ s, asUTF8 status = some s ∧
      data.lookup (str "Status") = some (.text (upTo (chr ' ') s))

/-- A dictionary carries what was sent: the verb and the URL, or the status code; every header that
was supplied and every one that was added; and the bytes of the data. -/
structure Carries (parameters : Parameters) (info : Tm) (m : Outgoing) (data : Dict) : Prop where
  start : m.start.Carried data
  headers : ∃ m_Headers, data.lookup (str "Headers") = some (.dict m_Headers) ∧
    (∀ h ∈ m.headers, ∃ name text, asUTF8 h.1 = some name ∧ asUTF8 h.2 = some text ∧
      m_Headers.lookup name = some (.text text)) ∧
    ∀ e ∈ m.added parameters info, m_Headers.lookup e.1 = some (.text e.2)
  content : ∃ s, m.content = some s ∧ carried data = some s

/-- What is sent arrives as one message that carries it. -/
def RoundTrips (parameters : Parameters) (info : Tm) (m : Outgoing) :
    Prop :=
  ∃ bytes, processOutbound parameters info (some (.dict m.entries)) = some bytes ∧
    ∃ p data, processInbound {} bytes = some (p, [.onMessage data]) ∧
      Carries parameters info m data

/-! ### Lines in lines -/

/-- What the reader takes for lines in a line: what stands behind each of its line feeds. -/
def within : Bytes → List Bytes
  | [] => []
  | b :: line => if b = LF then line :: within line else within line

/-- The first line of a request. -/
def requestLine (v u : Bytes) : Bytes := v ++ str " " ++ u ++ str " HTTP/1.1"

/-- The first line of a response. -/
def statusLine (s : Bytes) : Bytes := str "HTTP/1.1 " ++ s

/-- The first line of a message; an upper-case verb is written as it is. -/
def Start.line : Start → Bytes
  | .request verb url =>
      requestLine ((stdString verb).getD []) ((stdString (url.getD (pyStr "/"))).getD [])
  | .response status => statusLine ((stdString status).getD [])

namespace Outgoing

variable (m : Outgoing)

/-- The lines that the reader finds in the first line and in those of the headers. -/
def inner : List Bytes :=
  within m.start.line ++ m.texts.flatMap fun e => within (headerLine e.1 e.2)

/-- The headers that the reader finds, in their order. -/
def found (info : Tm) : List (Bytes × Bytes) :=
  (within m.start.line).map entryOf ++
    (m.sent info).flatMap fun e => e :: (within (headerLine e.1 e.2)).map entryOf

end Outgoing

/-- A line does not end the header block. -/
def Continues (line : Bytes) : Prop := line ≠ [] ∧ line.head? ≠ some CR

/-- The header block does not end in a text: none has a line feed at its end, or in front of a
carriage return. -/
def Outgoing.Unbroken (m : Outgoing) : Prop := ∀ line ∈ m.inner, Continues line

/-- Data in bytes is of less than two gigabytes, and no header that is found in a response says that
it comes in chunks. -/
structure Outgoing.Plain (m : Outgoing) (info : Tm) : Prop where
  short : ∀ s, m.data = some (.bytes s) ∨ m.data = some (.bytearray s) → s.length < 2 ^ 31
  whole : ∀ status, m.start = .response status → declaredChunked (m.found info) = false

/-! ### The condition -/

/-- The first line is taken apart where it was put together: the verb has no blank and is not taken
for a response, and there is a status code. -/
def Start.Clean : Start → Prop
  | .request verb url => (∃ v, asUTF8 verb = some v ∧ (0 ∉ v ∧ CR ∉ v ∧ chr ' ' ∉ v) ∧
      ¬ str "HTTP" <+: v) ∧ asUTF8 (url.getD (pyStr "/")) ≠ none
  | .response status => ∃ s, asUTF8 status = some s ∧ upTo (chr ' ') s ≠ [] ∧
      0 ∉ upTo (chr ' ') s ∧ CR ∉ upTo (chr ' ') s

/-- No credentials are configured. -/
def Parameters.Empty (parameters : Parameters) : Prop :=
  stdString parameters.Username = some [] ∧ stdString parameters.Password = some []

/-- The number that the last length has. -/
def Outgoing.declared (m : Outgoing) (info : Tm) : ℤ := declaredLength (-1) (m.found info)

/-- The body is known for the content: its length is declared, which a request without one need not
do, and a response does not come in chunks, nor as JSON unless it is empty. -/
def Outgoing.Framed (m : Outgoing) (info : Tm) (content : Bytes) : Prop :=
  match m.start with
  | .request _ _ => m.declared info = -1 ∨ m.declared info = content.length
  | .response _ => m.declared info = content.length ∧ declaredChunked (m.found info) = false ∧
      (declaresJson (m.found info) = true → content = [])

/-- The lines in the texts are read without harm: each has something behind its colon, and a name
that is not sent; and of each name the first text has UTF-8. -/
structure Outgoing.Readable (m : Outgoing) (info : Tm) : Prop where
  dangles : ∀ line ∈ m.inner, Dangles line
  apart : ∀ line ∈ m.inner, (entryOf line).1 ∉ (m.sent info).map Prod.fst
  text : ∀ done e more, m.found info = done ++ e :: more → buildString e.1 ≠ none →
    (∀ g ∈ done, cstr g.1 ≠ cstr e.1) → buildString e.2 ≠ none

/-- A message that is taken apart where it was put together, and in whose texts the reader finds
nothing else that matters. -/
structure Meets (parameters : Parameters) (info : Tm) (m : Outgoing) : Prop where
  start : m.start.Clean
  headers : ∀ h ∈ m.headers, Clean h
  /-- A request needs no credentials. -/
  credentials : ∀ verb url, m.start = .request verb url → parameters.Empty
  readable : m.Readable info
  entire : ∀ data ∈ m.data, Entire data
  framed : ∀ content ∈ m.content, m.Framed info content

/-! ### What cannot be a name or a text -/

/-- The names have no NUL, no carriage return and no colon, and the texts none of the first two. -/
def Tidy (d : Dict) : Prop :=
  ∀ e ∈ d, (0 ∉ e.1 ∧ CR ∉ e.1 ∧ chr ':' ∉ e.1) ∧ ∀ t, e.2 = .text t → 0 ∉ t ∧ CR ∉ t

theorem notMem_cstr {b : UInt8} {s : Bytes} (h : b ∉ s) : b ∉ cstr s := fun hb =>
  h ((List.takeWhile_prefix _).subset hb)

theorem tidy_addHeader {d d' : Dict} {name text : Bytes} (hd : Tidy d)
    (hname : CR ∉ name ∧ chr ':' ∉ name) (htext : CR ∉ text)
    (h : addHeader d name text = some d') : Tidy d' := by
  unfold addHeader at h
  cases hlookup : d.lookup (cstr name) with
  | some prev =>
    simp only [hlookup] at h
    cases h
    intro e he
    obtain ⟨e', he', rfl⟩ := List.mem_map.mp he
    split
    · exact ⟨(hd e' he').1, nofun⟩
    · exact hd e' he'
  | none =>
    simp only [hlookup] at h
    split at h
    · cases h
      exact hd
    · obtain ⟨v, hv, rfl⟩ := Option.map_eq_some_iff.mp h
      intro e he
      rcases List.mem_append.mp he with he | he
      · exact hd e he
      · obtain rfl := List.mem_singleton.mp he
        refine ⟨⟨zero_notMem_cstr name, notMem_cstr hname.1, notMem_cstr hname.2⟩, ?_⟩
        rintro t rfl
        rw [text_of_buildString (by rw [hv]; nofun)] at hv
        cases hv
        exact ⟨zero_notMem_cstr text, notMem_cstr htext⟩

theorem add_eq_none {st st' : HeaderState} {name text : Bytes}
    (h : st.add name text = (st', none)) :
    addHeader st.m_Headers name text = some st'.m_Headers := by
  unfold HeaderState.add at h
  simp only [note_headers] at h
  split at h
  · cases h
  · next d hd =>
    cases h
    exact hd

theorem tidy_addAll {st st' : HeaderState} {es : List (Bytes × Bytes)} (hst : Tidy st.m_Headers)
    (hes : ∀ e ∈ es, (CR ∉ e.1 ∧ chr ':' ∉ e.1) ∧ CR ∉ e.2) (h : st.addAll es = (st', none)) :
    Tidy st'.m_Headers := by
  induction es generalizing st with
  | nil =>
    cases h
    exact hst
  | cons e es ih =>
    obtain ⟨⟨hname, htext⟩, hes'⟩ := List.forall_mem_cons.mp hes
    rw [HeaderState.addAll] at h
    cases hadd : st.add e.1 e.2 with
    | mk st₁ halt =>
      rw [hadd] at h
      cases halt with
      | none => exact ih (tidy_addHeader hst hname htext (add_eq_none hadd)) hes' h
      | some halt => cases h

theorem notMem_upTo (c : UInt8) (s : Bytes) : c ∉ upTo c s := fun hc => by
  have h := List.mem_takeWhile_imp hc
  simp at h

theorem entryOf_tidy (pData : Bytes) : (CR ∉ (entryOf pData).1 ∧ chr ':' ∉ (entryOf pData).1) ∧
    CR ∉ (entryOf pData).2 := by
  have hcr := notMem_upTo CR pData
  refine ⟨⟨fun h => hcr ((List.takeWhile_prefix _).subset h), notMem_upTo _ _⟩, fun h => ?_⟩
  exact hcr (List.mem_of_mem_drop h)

/-- The dictionary of any buffer is tidy. -/
theorem tidy_extractHeaders {m_JSON : Bool} {b rest : Bytes} {st : HeaderState}
    (h : extractHeaders m_JSON b = (st, .ok rest)) : Tidy st.m_Headers := by
  obtain ⟨-, hadd, -⟩ := (extractLines_ok_iff _ _ _ _).mp h
  have hnil : Tidy ({ m_JSON } : HeaderState).m_Headers := fun e he => absurd he List.not_mem_nil
  refine tidy_addAll hnil (fun e he => ?_) hadd
  obtain ⟨pData, -, rfl⟩ := List.mem_map.mp he
  exact entryOf_tidy pData

/-! ### The passes over lines -/

theorem within_of_notMem {line : Bytes} (h : LF ∉ line) : within line = [] := by
  induction line with
  | nil => rfl
  | cons b line ih =>
    rw [List.mem_cons, not_or] at h
    rw [within, if_neg (Ne.symm h.1), ih h.2]

theorem within_append_cons {front : Bytes} (t : Bytes) (h : LF ∉ front) :
    within (front ++ LF :: t) = t :: within t := by
  induction front with
  | nil => exact if_pos rfl
  | cons b front ih =>
    rw [List.mem_cons, not_or] at h
    rw [List.cons_append, within, if_neg (Ne.symm h.1), ih h.2]

/-- A line in a line is its end. -/
theorem suffix_of_mem_within {line p : Bytes} (h : p ∈ within line) : p <:+ line := by
  induction line with
  | nil => cases h
  | cons b line ih =>
    rw [within] at h
    split at h
    · rcases List.mem_cons.mp h with rfl | h
      · exact List.suffix_cons b p
      · exact (ih h).trans (List.suffix_cons b line)
    · exact (ih h).trans (List.suffix_cons b line)

theorem upTo_endLine (line rest : Bytes) : upTo CR (endLine line ++ rest) = upTo CR line := by
  rw [endLine, List.append_assoc]
  by_cases hcr : CR ∈ line
  · obtain ⟨front, t, rfl, hnot⟩ := List.eq_append_cons_of_mem hcr
    rw [List.append_assoc, List.cons_append, upTo_append_cons _ hnot, upTo_append_cons _ hnot]
  · exact (upTo_append_cons _ hcr).trans (upTo_of_notMem hcr).symm

theorem past_line {line : Bytes} (h : LF ∉ line) (rest : Bytes) :
    past LF (endLine line ++ rest) = rest := by
  have hcr : LF ∉ line ++ [CR] := by
    rw [List.mem_append, not_or]
    exact ⟨h, by decide⟩
  have hpast := past_append_cons rest hcr
  rw [List.append_assoc] at hpast
  rwa [endLine, List.append_assoc]

theorem past_within {front : Bytes} (t : Bytes) (h : LF ∉ front) (rest : Bytes) :
    past LF (endLine (front ++ LF :: t) ++ rest) = endLine t ++ rest := by
  rw [← past_append_cons (endLine t ++ rest) h]
  simp only [endLine, List.append_assoc, List.cons_append]

/-- A line is read with those in it, up to the next carriage return. -/
theorem passes_line {line : Bytes} (h : ∀ p ∈ line :: within line, Continues p) (rest : Bytes) :
    (passes (endLine line ++ rest)).map (upTo CR) =
        (line :: within line).map (upTo CR) ++ (passes rest).map (upTo CR) ∧
      ((∀ p ∈ passes rest, LF ∈ p) → ∀ p ∈ passes (endLine line ++ rest), LF ∈ p) ∧
      remainder (endLine line ++ rest) = remainder rest := by
  induction hn : line.length using Nat.strong_induction_on generalizing line with
  | _ n ih =>
    obtain ⟨⟨hne, hhead⟩, hwithin⟩ := List.forall_mem_cons.mp h
    have hstop : ¬ ((endLine line ++ rest).isEmpty ∨ (endLine line ++ rest).head? = some CR) := by
      obtain ⟨b, t, rfl⟩ := List.exists_cons_of_ne_nil hne
      simpa [endLine] using hhead
    have hlf : LF ∈ endLine line ++ rest :=
      List.mem_append_left _ (List.mem_append_right _ (by decide))
    rw [passes, if_neg hstop, dif_pos hlf, remainder, if_neg hstop, dif_pos hlf, List.map_cons,
      upTo_endLine, List.map_cons, List.cons_append, List.forall_mem_cons]
    -- the next line begins inside this one, or behind it
    by_cases hmem : LF ∈ line
    · obtain ⟨front, t, rfl, hfront⟩ := List.eq_append_cons_of_mem hmem
      have hlt : t.length < n := by
        rw [← hn, List.length_append, List.length_cons]
        omega
      rw [within_append_cons t hfront] at hwithin ⊢
      obtain ⟨hpasses, hlfs, hremainder⟩ := ih t.length hlt hwithin rfl
      rw [past_within t hfront, hpasses, hremainder]
      exact ⟨rfl, fun hrest => ⟨hlf, hlfs hrest⟩, rfl⟩
    · rw [past_line hmem, within_of_notMem hmem]
      exact ⟨rfl, fun hrest => ⟨hlf, hrest⟩, rfl⟩

/-- The lines of a block are read up to the blank one. -/
theorem passes_lines {lines : List Bytes}
    (h : ∀ line ∈ lines, ∀ p ∈ line :: within line, Continues p) (body : Bytes) :
    (passes (lines.flatMap endLine ++ CR :: LF :: body)).map (upTo CR) =
        (lines.flatMap fun line => line :: within line).map (upTo CR) ∧
      (∀ p ∈ passes (lines.flatMap endLine ++ CR :: LF :: body), LF ∈ p) ∧
      remainder (lines.flatMap endLine ++ CR :: LF :: body) = CR :: LF :: body := by
  induction lines with
  | nil =>
    have hstop : (CR :: LF :: body).isEmpty ∨ (CR :: LF :: body).head? = some CR := .inr rfl
    rw [List.flatMap_nil, List.nil_append, passes, if_pos hstop, remainder, if_pos hstop]
    exact ⟨rfl, List.forall_mem_nil _, rfl⟩
  | cons line lines ih =>
    obtain ⟨hline, hlines⟩ := List.forall_mem_cons.mp h
    obtain ⟨hpasses, hlf, hremainder⟩ := ih hlines
    obtain ⟨hpasses', hlf', hremainder'⟩ :=
      passes_line hline (lines.flatMap endLine ++ CR :: LF :: body)
    rw [List.flatMap_cons, List.append_assoc, hpasses', hpasses, hremainder', List.flatMap_cons,
      List.map_append]
    exact ⟨rfl, hlf' hlf, hremainder⟩

/-- The header of a pass is in its line up to the carriage return. -/
theorem entryOf_congr {p q : Bytes} (h : upTo CR p = upTo CR q) :
    entryOf p = entryOf q ∧ (Dangles p ↔ Dangles q) := by
  rw [entryOf, entryOf, Dangles, Dangles, h]
  exact ⟨rfl, Iff.rfl⟩

theorem entries_congr {l l' : List Bytes} (h : l.map (upTo CR) = l'.map (upTo CR)) :
    l.map entryOf = l'.map entryOf ∧ ((∀ p ∈ l, Dangles p) ↔ ∀ p ∈ l', Dangles p) := by
  have hself (p : Bytes) : upTo CR (upTo CR p) = upTo CR p := upTo_of_notMem (notMem_upTo CR p)
  constructor
  · have hmap (l : List Bytes) : l.map entryOf = (l.map (upTo CR)).map entryOf := by
      rw [List.map_map]
      exact List.map_congr_left fun p _ => (entryOf_congr (hself p)).1.symm
    rw [hmap l, hmap l', h]
  · have hall (l : List Bytes) : (∀ p ∈ l, Dangles p) ↔ ∀ p ∈ l.map (upTo CR), Dangles p := by
      rw [List.forall_mem_map]
      exact forall₂_congr fun p _ => (entryOf_congr (hself p)).2.symm
    rw [hall l, hall l', h]

/-- The lines that are read of a first line and some others. -/
def readLines (first : Bytes) (lines : List Bytes) : List Bytes :=
  within first ++ lines.flatMap fun line => line :: within line

/-- Behind the first line feed there are lines again. -/
theorem exists_lines (first : Bytes) (lines : List Bytes) (rest : Bytes) :
    ∃ lines' : List Bytes,
      past LF (endLine first ++ (lines.flatMap endLine ++ rest)) = lines'.flatMap endLine ++ rest ∧
        readLines first lines = lines'.flatMap fun line => line :: within line := by
  by_cases hmem : LF ∈ first
  · obtain ⟨front, t, rfl, hfront⟩ := List.eq_append_cons_of_mem hmem
    refine ⟨t :: lines, ?_, ?_⟩
    · rw [past_within t hfront, List.flatMap_cons, List.append_assoc]
    · rw [readLines, within_append_cons t hfront, List.flatMap_cons]
  · exact ⟨lines, past_line hmem _, by rw [readLines, within_of_notMem hmem, List.nil_append]⟩

/-- The headers are those of the lines behind the first one, and of the lines in them. -/
theorem extractHeaders_lines_iff (m_JSON : Bool) {first : Bytes} {lines : List Bytes}
    (h : ∀ p ∈ readLines first lines, Continues p) (body : Bytes) (st : HeaderState)
    (rest : Bytes) :
    extractHeaders m_JSON (endLine first ++ (lines.flatMap endLine ++ CR :: LF :: body)) =
        (st, .ok rest) ↔
      (∀ p ∈ readLines first lines, Dangles p) ∧
        ({ m_JSON } : HeaderState).addAll ((readLines first lines).map entryOf) = (st, none) ∧
          CR :: LF :: body = rest := by
  obtain ⟨lines', hpast, hread⟩ := exists_lines first lines (CR :: LF :: body)
  rw [hread] at h ⊢
  obtain ⟨hpasses, hlf, hremainder⟩ := @passes_lines lines'
    (fun line hline p hp => h p (List.mem_flatMap.mpr ⟨line, hline, hp⟩)) body
  obtain ⟨hentries, hdangles⟩ := entries_congr hpasses
  rw [extractHeaders, hpast, extractLines_ok_iff, Whole, hentries, hremainder, ← hdangles]
  refine and_congr_left fun _ => ?_
  exact ⟨fun hall p hp => (hall p hp).1, fun hall p hp => ⟨hall p hp, hlf p hp⟩⟩

/-! ### A block that ends early -/

/-- Where the block ends in a line, all that follows the line is taken for the body. -/
theorem continues_of_taken {line rest : Bytes}
    (h : (past LF (remainder (endLine line ++ rest))).length < rest.length) :
    ∀ p ∈ line :: within line, Continues p := by
  induction hn : line.length using Nat.strong_induction_on generalizing line with
  | _ n ih =>
    by_cases hstop : (endLine line ++ rest).isEmpty ∨ (endLine line ++ rest).head? = some CR
    · exfalso
      -- the block ends here, so all that is behind the next line feed is the body
      rw [remainder, if_pos hstop] at h
      by_cases hmem : LF ∈ line
      · obtain ⟨front, t, rfl, hfront⟩ := List.eq_append_cons_of_mem hmem
        rw [past_within t hfront, List.length_append] at h
        omega
      · rw [past_line hmem] at h
        omega
    · have hcontinues : Continues line := by
        constructor
        · rintro rfl
          exact hstop (.inr rfl)
        · intro hhead
          obtain ⟨t, rfl⟩ := List.head?_eq_some_iff.mp hhead
          exact hstop (.inr rfl)
      have hlf : LF ∈ endLine line ++ rest :=
        List.mem_append_left _ (List.mem_append_right _ (by decide))
      rw [remainder, if_neg hstop, dif_pos hlf] at h
      refine List.forall_mem_cons.mpr ⟨hcontinues, ?_⟩
      by_cases hmem : LF ∈ line
      · obtain ⟨front, t, rfl, hfront⟩ := List.eq_append_cons_of_mem hmem
        have hlt : t.length < n := by
          rw [← hn, List.length_append, List.length_cons]
          omega
        rw [past_within t hfront] at h
        rw [within_append_cons t hfront]
        exact ih t.length hlt h rfl
      · rw [within_of_notMem hmem]
        exact List.forall_mem_nil _

/-- A block of which no more than the body is taken for the body does not end early. -/
theorem continues_of_taken_block {first : Bytes} {lines : List Bytes} {body : Bytes}
    (h : (taken (endLine first ++ (lines.flatMap endLine ++ CR :: LF :: body))).length ≤
      body.length) : ∀ p ∈ readLines first lines, Continues p := by
  obtain ⟨lines', hpast, hread⟩ := exists_lines first lines (CR :: LF :: body)
  rw [taken, hpast] at h
  rw [hread]
  clear hpast hread
  induction lines' with
  | nil => exact List.forall_mem_nil _
  | cons line lines' ih =>
    rw [List.flatMap_cons, List.append_assoc] at h
    have hlt : body.length < (lines'.flatMap endLine ++ CR :: LF :: body).length := by
      rw [List.length_append, List.length_cons, List.length_cons]
      omega
    have hline := continues_of_taken (h.trans_lt hlt)
    rw [(passes_line hline _).2.2] at h
    rw [List.flatMap_cons]
    exact List.forall_mem_append.mpr ⟨hline, ih h⟩

/-- A pass begins with a line, with one in a line, or behind it. -/
theorem mem_passes_line {line rest p : Bytes} (h : p ∈ passes (endLine line ++ rest)) :
    (∃ q ∈ line :: within line, upTo CR p = upTo CR q) ∨ p ∈ passes rest := by
  induction hn : line.length using Nat.strong_induction_on generalizing line with
  | _ n ih =>
    rw [passes] at h
    split at h
    · cases h
    · have hlf : LF ∈ endLine line ++ rest :=
        List.mem_append_left _ (List.mem_append_right _ (by decide))
      rw [dif_pos hlf] at h
      rcases List.mem_cons.mp h with rfl | h
      · exact .inl ⟨line, List.mem_cons_self, upTo_endLine line rest⟩
      · by_cases hmem : LF ∈ line
        · obtain ⟨front, t, rfl, hfront⟩ := List.eq_append_cons_of_mem hmem
          have hlt : t.length < n := by
            rw [← hn, List.length_append, List.length_cons]
            omega
          rw [past_within t hfront] at h
          rw [within_append_cons t hfront]
          rcases ih t.length hlt h rfl with ⟨q, hq, heq⟩ | h
          · exact .inl ⟨q, List.mem_cons_of_mem _ hq, heq⟩
          · exact .inr h
        · rw [past_line hmem] at h
          exact .inr h

theorem past_suffix (c : UInt8) (s : Bytes) : past c s <:+ s := by
  by_cases h : c ∈ s
  · obtain ⟨front, t, rfl, hc⟩ := List.eq_append_cons_of_mem h
    rw [past_append_cons t hc]
    exact (List.suffix_cons c t).trans (List.suffix_append front _)
  · rw [past_of_notMem h]

/-- What is taken for the body is the end of the buffer. -/
theorem taken_suffix (b : Bytes) : taken b <:+ b := by
  have hremainder : remainder (past LF b) <:+ past LF b := by
    rcases exists_remainder (past LF b) with h | ⟨front, h⟩
    · exact ⟨[], h⟩
    · refine ⟨front ++ [LF], ?_⟩
      rw [List.append_assoc]
      exact h.symm
  exact (past_suffix _ _).trans (hremainder.trans (past_suffix _ _))

/-- No other headers are found, wherever the block ends. -/
theorem bufferHeaders_subset (first : Bytes) (lines : List Bytes) (body : Bytes) :
    bufferHeaders (endLine first ++ (lines.flatMap endLine ++ CR :: LF :: body)) ⊆
      (readLines first lines).map entryOf := by
  obtain ⟨lines', hpast, hread⟩ := exists_lines first lines (CR :: LF :: body)
  rw [bufferHeaders, hpast, hread]
  intro e he
  obtain ⟨p, hp, rfl⟩ := List.mem_map.mp he
  obtain ⟨q, hq, heq⟩ : ∃ q ∈ lines'.flatMap fun line => line :: within line,
      upTo CR p = upTo CR q := by
    clear hpast hread he
    induction lines' with
    | nil =>
      rw [List.flatMap_nil, List.nil_append, passes, if_pos (.inr rfl)] at hp
      cases hp
    | cons line lines' ih =>
      rw [List.flatMap_cons, List.append_assoc] at hp
      rw [List.flatMap_cons]
      rcases mem_passes_line hp with ⟨q, hq, heq⟩ | hp
      · exact ⟨q, List.mem_append_left _ hq, heq⟩
      · obtain ⟨q, hq, heq⟩ := ih hp
        exact ⟨q, List.mem_append_right _ hq, heq⟩
  exact List.mem_map.mpr ⟨q, hq, (entryOf_congr heq).1.symm⟩

/-! ### The headers of a name -/

theorem Sendable.upTo_headerLine {e : Bytes × Bytes} (h : Sendable e) :
    upTo CR (headerLine e.1 e.2) = headerLine e.1 e.2 ∧
      upTo (chr ':') (headerLine e.1 e.2) = e.1 := by
  constructor
  · apply upTo_of_notMem
    simp only [headerLine, List.mem_append, not_or]
    exact ⟨⟨h.name.2.1, by decide⟩, h.text.2⟩
  · rw [headerLine, List.append_assoc]
    exact upTo_append_cons _ h.name.2.2

theorem Sendable.entryOf {e : Bytes × Bytes} (h : Sendable e) :
    entryOf (headerLine e.1 e.2) = e := by
  obtain ⟨hline, hname⟩ := h.upTo_headerLine
  rw [Http.entryOf, hline, hname]
  have hlen : (e.1 ++ str ": ").length = e.1.length + 2 := List.length_append
  rw [headerLine, ← hlen, List.drop_left]

theorem Sendable.dangles {e : Bytes × Bytes} (h : Sendable e) : Dangles (headerLine e.1 e.2) := by
  obtain ⟨hline, hname⟩ := h.upTo_headerLine
  have hlen : (e.1 ++ str ": ").length = e.1.length + 2 := List.length_append
  rw [Dangles, hline, hname, headerLine, List.length_append, hlen]
  exact Nat.le_add_right _ _

theorem Sendable.buildString {e : Bytes × Bytes} (h : Sendable e) :
    buildString e.1 ≠ none ∧ buildString e.2 = some (.text e.2) := by
  rw [(buildString_eq_iff h.name.1).mpr ⟨rfl, h.utf8.1⟩]
  exact ⟨nofun, (buildString_eq_iff h.text.1).mpr ⟨rfl, h.utf8.2⟩⟩

/-- A line with something behind its colon does not end the block. -/
theorem Continues.of_dangles {line : Bytes} (h : Dangles line) : Continues line := by
  have hcolon := colon_of_dangles h
  cases line with
  | nil => cases hcolon
  | cons b line =>
    refine ⟨List.cons_ne_nil b line, fun hhead => ?_⟩
    obtain rfl : b = CR := Option.some.inj hhead
    have hnil : upTo CR (CR :: line) = [] := List.takeWhile_cons_of_neg (by simp)
    rw [hnil] at hcolon
    cases hcolon

/-- Headers of other names. -/
theorem lookup_addAll_ne {st st' : HeaderState} {es : List (Bytes × Bytes)} {name : Bytes}
    (hne : ∀ e ∈ es, name ≠ cstr e.1) (h : st.addAll es = (st', none)) :
    st'.m_Headers.lookup name = st.m_Headers.lookup name := by
  induction es generalizing st with
  | nil =>
    cases h
    rfl
  | cons e es ih =>
    obtain ⟨he, hes⟩ := List.forall_mem_cons.mp hne
    rw [HeaderState.addAll] at h
    cases hadd : st.add e.1 e.2 with
    | mk st₁ halt =>
      rw [hadd] at h
      cases halt with
      | some halt => cases h
      | none =>
        have hother := lookup_addHeader_ne (d := st.m_Headers) e.2 he
        rw [add_eq_none hadd, Option.getD_some] at hother
        exact (ih hes h).trans hother

/-- Another header of a name makes a list. -/
theorem lookup_addAll_again {st st' : HeaderState} {es : List (Bytes × Bytes)} {name : Bytes}
    {v : PyValue} (hv : st.m_Headers.lookup name = some v) (h : st.addAll es = (st', none)) :
    (∀ e ∈ es, name ≠ cstr e.1) ∨ ∃ l, st'.m_Headers.lookup name = some (.list l) := by
  induction es generalizing st v with
  | nil => exact .inl (List.forall_mem_nil _)
  | cons e es ih =>
    rw [HeaderState.addAll] at h
    cases hadd : st.add e.1 e.2 with
    | mk st₁ halt =>
      rw [hadd] at h
      cases halt with
      | some halt => cases h
      | none =>
        have hheaders := add_eq_none hadd
        by_cases hname : name = cstr e.1
        · rw [addHeader, ← hname, hv] at hheaders
          have hlist := Option.some.inj hheaders
          have hlookup := congrArg (List.lookup name) hlist
          rw [lookup_map_self _ hv] at hlookup
          rcases ih hlookup.symm h with hes | hes
          · exact .inr ⟨_, (lookup_addAll_ne hes h).trans hlookup.symm⟩
          · exact .inr hes
        · have hother := lookup_addHeader_ne (d := st.m_Headers) e.2 hname
          rw [hheaders, Option.getD_some] at hother
          rcases ih (hother.trans hv) h with hes | hes
          · exact .inl (List.forall_mem_cons.mpr ⟨hname, hes⟩)
          · exact .inr hes

/-- A name has a text exactly if one header has that name, with that text. -/
theorem lookup_addAll_text_iff {st st' : HeaderState} {es : List (Bytes × Bytes)}
    {name : Bytes} (hname : buildString name ≠ none) (hst : st.m_Headers.lookup name = none)
    (hzero : ∀ e ∈ es, 0 ∉ e.1) (h : st.addAll es = (st', none)) (text : Bytes) :
    st'.m_Headers.lookup name = some (.text text) ↔
      ∃ t, (es.filter fun e => e.1 = name) = [(name, t)] ∧ buildString t = some (.text text) := by
  induction es generalizing st with
  | nil =>
    cases h
    rw [hst]
    constructor
    · intro htext
      cases htext
    · rintro ⟨t, hnil, -⟩
      cases hnil
  | cons e es ih =>
    obtain ⟨he, hes⟩ := List.forall_mem_cons.mp hzero
    rw [HeaderState.addAll] at h
    cases hadd : st.add e.1 e.2 with
    | mk st₁ halt =>
      rw [hadd] at h
      cases halt with
      | some halt => cases h
      | none =>
        have hheaders := add_eq_none hadd
        by_cases hkey : e.1 = name
        · subst hkey
          rw [addHeader, cstr_of_notMem he, hst] at hheaders
          simp only [if_neg hname] at hheaders
          obtain ⟨v, hv, hsome⟩ := Option.map_eq_some_iff.mp hheaders
          have hlookup : st₁.m_Headers.lookup e.1 = some v := by
            rw [← hsome, lookup_append_singleton, hst, if_pos rfl]
            rfl
          have hne {g : Bytes × Bytes} (hg : g ∈ es) : e.1 ≠ cstr g.1 ↔ ¬ g.1 = e.1 := by
            rw [cstr_of_notMem (hes g hg)]
            exact ne_comm
          have hnil : (es.filter fun g => g.1 = e.1) = [] ↔ ∀ g ∈ es, e.1 ≠ cstr g.1 := by
            rw [List.filter_eq_nil_iff]
            exact forall₂_congr fun g hg => by rw [hne hg, decide_eq_true_iff]
          rw [List.filter_cons_of_pos (by simp)]
          simp only [List.cons.injEq, hnil]
          -- a second header of the name makes a list of it
          rcases lookup_addAll_again hlookup h with hother | ⟨l, hlist⟩
          · rw [lookup_addAll_ne hother h, hlookup]
            constructor
            · intro htext
              exact ⟨e.2, ⟨rfl, hother⟩, hv.trans htext⟩
            · rintro ⟨t, ⟨hsame, -⟩, ht⟩
              obtain rfl : e.2 = t := congrArg Prod.snd hsame
              exact hv.symm.trans ht
          · rw [hlist]
            constructor
            · intro htext
              cases htext
            · rintro ⟨t, ⟨hsame, hother⟩, ht⟩
              obtain rfl : e.2 = t := congrArg Prod.snd hsame
              rw [lookup_addAll_ne hother h, hlookup, ← hv, ht] at hlist
              cases hlist
        · have hother := lookup_addHeader_ne (d := st.m_Headers) e.2
            (by rw [cstr_of_notMem he]; exact Ne.symm hkey : name ≠ cstr e.1)
          rw [hheaders, Option.getD_some] at hother
          rw [List.filter_cons_of_neg (by simpa using hkey)]
          exact ih (hother.trans hst) hes h

/-! ### What is delivered -/

/-- What is delivered has the headers that were extracted, and a status or a verb. -/
theorem delivered_entries {m_JSON : Bool} {b : Bytes}
    {data : Dict} (hdelivers : (attempt false m_JSON b).2 = .delivers data) :
    (∃ st rest, extractHeaders m_JSON b = (st, .ok rest) ∧
      data.lookup (str "Headers") = some (.dict st.m_Headers)) ∧
    ((b.take 4 = str "HTTP" ∧ data.lookup (str "Verb") = none ∧
      upTo (chr ' ') (past (chr ' ') (upTo CR b)) ≠ [] ∧ data.lookup (str "Status") =
        some (.text (cstr (upTo (chr ' ') (past (chr ' ') (upTo CR b)))))) ∨
    (b.take 4 ≠ str "HTTP" ∧ data.lookup (str "Verb") =
      some (.text (cstr (upTo (chr ' ') (upToLast (chr ' ') (upTo CR b))))))) := by
  obtain ⟨m_JSON', h⟩ : ∃ m_JSON', attempt false m_JSON b =
      (m_JSON', .delivers data) := ⟨_, Prod.ext rfl hdelivers⟩
  unfold attempt at h
  split at h
  · next hhttp =>
    unfold attemptResponse at h
    simp only at h
    split at h
    · cases h
    · next st rest hst =>
      simp only [Prod.mk.injEq] at h
      have hbody := h.2
      unfold processBody at hbody
      simp only at hbody
      split at hbody
      · cases hbody
      · split at hbody
        · cases hbody
        · next hstatus =>
          rw [List.isEmpty_iff] at hstatus
          obtain ⟨payload, value, rfl⟩ : ∃ payload value, data =
              responseDict (upTo (chr ' ') (past (chr ' ') (upTo CR b))) st.m_Headers
                (dataEntry payload value) := by
            split at hbody
            · split at hbody
              · cases hbody
              · obtain ⟨-, entry, hentry, rfl⟩ := queueResponse_delivers_iff.mp hbody
                cases hentry
                exact ⟨_, _, rfl⟩
            · split at hbody
              · obtain ⟨-, entry, hentry, rfl⟩ := queueResponse_delivers_iff.mp hbody
                obtain ⟨value, rfl, -⟩ := bodyEntry_eq_ok_iff.mp hentry
                exact ⟨_, _, rfl⟩
              · cases hbody
          refine ⟨⟨st, rest, hst, rfl⟩, .inl ⟨hhttp, ?_, hstatus, rfl⟩⟩
          unfold responseDict dataEntry
          split
          · rfl
          · rfl
  · next hhttp =>
    unfold attemptRequest at h
    simp only at h
    split at h
    · cases h
    · next st rest hst =>
      split at h
      · split at h
        · have hdict := Result.ofDict_eq_delivers_iff.mp (congrArg Prod.snd h)
          obtain ⟨-, sURL, -, -, rfl⟩ := (requestDict_eq_ok_iff _ _ _ _).mp hdict
          exact ⟨⟨st, rest, hst, rfl⟩, .inr ⟨hhttp, rfl⟩⟩
        · cases h
      · cases h

/-! ### The first line -/

theorem upTo_append {c : UInt8} {s : Bytes} (t : Bytes) (h : c ∉ s) :
    upTo c (s ++ t) = s ++ upTo c t := by
  refine List.takeWhile_append_of_pos fun b hb => bne_iff_ne.mpr ?_
  rintro rfl
  exact h hb

/-- A byte below 128 is a character of its own. -/
theorem utf8EncodeChar_of_mem {c : Char} {b : UInt8} (hb : b < 128)
    (h : b ∈ String.utf8EncodeChar c) : String.utf8EncodeChar c = [b] := by
  have hlt : b.toNat < 128 := hb
  have hbyte {n : ℕ} (hle : 128 ≤ n) (hn : n < 256) : b ≠ UInt8.ofNat n := by
    intro heq
    have hnat := congrArg UInt8.toNat heq
    rw [UInt8.toNat_ofNat', Nat.mod_eq_of_lt hn] at hnat
    omega
  unfold String.utf8EncodeChar at h ⊢
  simp only at h ⊢
  split at h
  · rw [List.mem_singleton.mp h, if_pos ‹_›]
  · split at h
    · simp only [List.mem_cons, List.not_mem_nil, or_false] at h
      rcases h with h | h
      · exact absurd h (hbyte (by omega) (by omega))
      · exact absurd h (hbyte (by omega) (by omega))
    · split at h
      · simp only [List.mem_cons, List.not_mem_nil, or_false] at h
        rcases h with h | h | h
        · exact absurd h (hbyte (by omega) (by omega))
        · exact absurd h (hbyte (by omega) (by omega))
        · exact absurd h (hbyte (by omega) (by omega))
      · simp only [List.mem_cons, List.not_mem_nil, or_false] at h
        rcases h with h | h | h | h
        · exact absurd h (hbyte (by omega) (by omega))
        · exact absurd h (hbyte (by omega) (by omega))
        · exact absurd h (hbyte (by omega) (by omega))
        · exact absurd h (hbyte (by omega) (by omega))

/-- A text up to a character of one byte is a text. -/
theorem exists_asUTF8_upTo {b : UInt8} (hb : b < 128) {s : PyStr} {t : Bytes}
    (h : asUTF8 s = some t) : ∃ s', asUTF8 s' = some (upTo b t) := by
  induction s generalizing t with
  | nil =>
    cases h
    exact ⟨[], rfl⟩
  | cons x s ih =>
    cases x with
    | surrogate n => cases h
    | char c =>
      obtain ⟨rest, hrest, rfl⟩ := Option.map_eq_some_iff.mp h
      by_cases hmem : b ∈ String.utf8EncodeChar c
      · refine ⟨[], ?_⟩
        rw [utf8EncodeChar_of_mem hb hmem]
        exact congrArg some (@upTo_append_cons b [] rest List.not_mem_nil).symm
      · obtain ⟨s', hs'⟩ := ih hrest
        refine ⟨.char c :: s', ?_⟩
        rw [upTo_append _ hmem, asUTF8, hs']
        rfl
theorem upToLast_append_cons {c : UInt8} (s : Bytes) {t : Bytes} (h : c ∉ t) :
    upToLast c (s ++ c :: t) = s := by
  have ht : ∀ b ∈ t.reverse, (b != c) = true := fun b hb =>
    bne_iff_ne.mpr fun hbc => h (hbc ▸ List.mem_reverse.mp hb)
  rw [upToLast, List.reverse_append, List.reverse_cons, List.append_assoc,
    List.dropWhile_append_of_pos ht, List.singleton_append, List.dropWhile_cons_of_neg (by simp)]
  exact List.reverse_reverse s

/-- What is in front of the last blank of a request line. -/
theorem upToLast_requestLine (v u : Bytes) :
    upToLast (chr ' ') (requestLine v u) = v ++ chr ' ' :: u := by
  have hversion : chr ' ' ∉ str "HTTP/1.1" := by decide
  have hline : requestLine v u = (v ++ chr ' ' :: u) ++ chr ' ' :: str "HTTP/1.1" := by
    rw [requestLine, List.append_assoc, List.append_assoc, List.append_assoc]
    rfl
  rw [hline, upToLast_append_cons _ hversion]

/-- A request line begins like a response if its verb does. -/
theorem take_requestLine (v u rest : Bytes) :
    (endLine (requestLine v u) ++ rest).take 4 = str "HTTP" ↔ str "HTTP" <+: v := by
  have hline : endLine (requestLine v u) ++ rest =
      v ++ chr ' ' :: (u ++ str " HTTP/1.1" ++ [CR, LF] ++ rest) := by
    simp only [endLine, requestLine, List.append_assoc]
    rfl
  have hlen : (str "HTTP").length = 4 := by decide
  rw [hline, eq_comm, ← hlen, ← List.prefix_iff_eq_take]
  constructor
  · intro h
    rcases List.prefix_or_prefix_of_prefix h (List.prefix_append v _) with hv | hv
    · exact hv
    · obtain ⟨t, ht⟩ := hv
      cases t with
      | nil =>
        rw [← ht, List.append_nil]
      | cons b t =>
        -- a verb of less than four bytes is followed by a blank
        rw [← ht, List.prefix_append_right_inj] at h
        have hb := (List.cons_prefix_cons.mp h).1
        have hmem : b ∈ str "HTTP" := by
          rw [← ht]
          exact List.mem_append_right _ List.mem_cons_self
        rw [hb] at hmem
        exact absurd hmem (by decide)
  · exact fun h => h.trans (List.prefix_append _ _)

/-- What is in front of the first blank of a status line, behind the version. -/
theorem upTo_statusLine (s rest : Bytes) :
    upTo (chr ' ') (past (chr ' ') (upTo CR (endLine (statusLine s) ++ rest))) =
      upTo (chr ' ') (upTo CR s) := by
  have hversion : CR ∉ str "HTTP/1.1 " := by decide
  have hupTo : upTo CR (endLine (statusLine s) ++ rest) = str "HTTP/1.1 " ++ upTo CR s := by
    rw [upTo_endLine, statusLine, upTo_append _ hversion]
  have hblank : chr ' ' ∉ str "HTTP/1.1" := by decide
  have hpast : str "HTTP/1.1 " ++ upTo CR s = str "HTTP/1.1" ++ chr ' ' :: upTo CR s := rfl
  rw [hupTo, hpast, past_append_cons _ hblank]

/-- The status code arrives if it has neither NUL nor carriage return. -/
theorem statusCode_eq_iff (s : Bytes) :
    upTo (chr ' ') (upTo CR (cstr s)) = upTo (chr ' ') s ↔
      0 ∉ upTo (chr ' ') s ∧ CR ∉ upTo (chr ' ') s := by
  constructor
  · intro h
    rw [← h]
    constructor
    · intro hmem
      have hupTo := (List.takeWhile_prefix _).subset hmem
      exact zero_notMem_cstr s ((List.takeWhile_prefix _).subset hupTo)
    · intro hmem
      exact notMem_upTo CR (cstr s) ((List.takeWhile_prefix _).subset hmem)
  · rintro ⟨hzero, hcr⟩
    by_cases hs : chr ' ' ∈ s
    · obtain ⟨code, t, rfl, hnot⟩ := List.eq_append_cons_of_mem hs
      rw [upTo_append_cons t hnot] at hzero hcr ⊢
      have hcstr : cstr (code ++ chr ' ' :: t) = code ++ chr ' ' :: cstr t :=
        upTo_append (c := 0) _ hzero
      have hupTo : upTo CR (code ++ chr ' ' :: cstr t) = code ++ chr ' ' :: upTo CR (cstr t) :=
        upTo_append _ hcr
      rw [hcstr, hupTo, upTo_append_cons _ hnot]
    · rw [upTo_of_notMem hs] at hzero hcr ⊢
      rw [cstr_of_notMem hzero, upTo_of_notMem hcr, upTo_of_notMem hs]

/-! ### The parse of what is sent -/

/-- The URL is what follows the blank behind the verb. -/
theorem urlOf?_words {v u : Bytes} (hv : chr ' ' ∉ v) (hu : chr ' ' ∉ u) :
    urlOf? (v ++ chr ' ' :: u) = some u := by
  have hverb : upTo (chr ' ') (v ++ chr ' ' :: u) = v := upTo_append_cons u hv
  have hdrop : (v ++ chr ' ' :: u).drop (v.length + 1) = u := by
    rw [← List.drop_drop, List.drop_left]
    rfl
  have hlen : v.length + 1 ≤ (v ++ chr ' ' :: u).length := by
    rw [List.length_append, List.length_cons]
    omega
  have hfind : findFrom [chr ' '] (v ++ chr ' ' :: u) (v.length + 1) = none := by
    rw [findFrom, if_pos hlen, hdrop, find_singleton_eq_none.mpr hu]
    rfl
  simp only [urlOf?, hverb, hfind, Option.getD_none]
  rw [substr?, if_pos hlen, hdrop, List.take_of_length_le]
  rw [List.length_append, List.length_cons]
  omega

/-- The parse of a request whose verb and URL are UTF-8. -/
theorem attempt_requestLine_iff {v u : Bytes}
    (hbuild : buildString v ≠ none ∧ buildString u ≠ none) (hv : CR ∉ v ∧ chr ' ' ∉ v)
    (hu : CR ∉ u ∧ chr ' ' ∉ u) (hhttp : ¬ str "HTTP" <+: v) {lines : List Bytes}
    (h : ∀ p ∈ readLines (requestLine v u) lines, Continues p) (body : Bytes) (data : Dict) :
    (attempt false false
        (endLine (requestLine v u) ++ (lines.flatMap endLine ++ CR :: LF :: body))).2 =
          .delivers data ↔
      (∀ p ∈ readLines (requestLine v u) lines, Dangles p) ∧
        ∃ st, ({ m_JSON := false } : HeaderState).addAll
            ((readLines (requestLine v u) lines).map entryOf) = (st, none) ∧
          (st.m_ContentLength = -1 ∨ st.m_ContentLength = body.length) ∧
          data = [(str "Verb", .text (cstr v)), (str "URL", .text (cstr u)),
            (str "Headers", .dict st.m_Headers)] ++ dataEntry body (.bytes body) := by
  have hcr : CR ∉ requestLine v u := by
    simp only [requestLine, List.mem_append, not_or]
    exact ⟨⟨⟨hv.1, by decide⟩, hu.1⟩, by decide⟩
  have hverb : upTo (chr ' ') (v ++ chr ' ' :: u) = v := upTo_append_cons u hv.2
  have hdict (m_Headers : Dict) : requestDict (v ++ chr ' ' :: u) m_Headers body =
      .ok ([(str "Verb", .text (cstr v)), (str "URL", .text (cstr u)),
        (str "Headers", .dict m_Headers)] ++ dataEntry body (.bytes body)) := by
    rw [requestDict_eq_ok_iff, hverb]
    exact ⟨hbuild.1, u, urlOf?_words hv.2 hu.2, hbuild.2, rfl⟩
  have hextract := extractHeaders_lines_iff false h body
  rw [attempt, if_neg (mt (take_requestLine v u _).mp hhttp), attemptRequest, upTo_endLine,
    upTo_of_notMem hcr, upToLast_requestLine]
  cases hread : extractHeaders false
      (endLine (requestLine v u) ++ (lines.flatMap endLine ++ CR :: LF :: body)) with
  | mk st result =>
    cases result with
    | error halt =>
      constructor
      · intro hdelivers
        cases hdelivers
      · rintro ⟨hdangles, st', hadd, -⟩
        have hok := (hextract st' _).mpr ⟨hdangles, hadd, rfl⟩
        rw [hread] at hok
        cases hok
    | ok rest =>
      obtain ⟨hdangles, hadd, rfl⟩ := (hextract st rest).mp hread
      have htake : (CR :: LF :: body).take 2 = [CR, LF] := rfl
      have hrest : (CR :: LF :: body).drop 2 = body := rfl
      simp only [if_pos htake, hrest, Bool.false_eq_true, or_false, hdict]
      rw [and_iff_right hdangles]
      constructor
      · intro hdelivers
        split at hdelivers
        · next hframed =>
          cases hdelivers
          exact ⟨st, hadd, hframed, rfl⟩
        · cases hdelivers
      · rintro ⟨st', hadd', hframed, rfl⟩
        obtain rfl : st = st' := congrArg Prod.fst (hadd.symm.trans hadd')
        rw [if_pos hframed]
        rfl

/-- The parse of a response. -/
theorem attempt_responseLine_iff {s : Bytes} {lines : List Bytes}
    (h : ∀ p ∈ readLines (statusLine s) lines, Continues p) (body : Bytes) (data : Dict) :
    (attempt false false
        (endLine (statusLine s) ++ (lines.flatMap endLine ++ CR :: LF :: body))).2 =
          .delivers data ↔
      (∀ p ∈ readLines (statusLine s) lines, Dangles p) ∧
        ∃ st, ({ m_JSON := false } : HeaderState).addAll
            ((readLines (statusLine s) lines).map entryOf) = (st, none) ∧
          processBody false (upTo (chr ' ') (upTo CR s)) st (CR :: LF :: body) =
            .delivers data := by
  have hhttp : (endLine (statusLine s) ++ (lines.flatMap endLine ++ CR :: LF :: body)).take 4 =
      str "HTTP" := rfl
  have hextract := extractHeaders_lines_iff false h body
  rw [attempt, if_pos hhttp, attemptResponse, upTo_statusLine]
  cases hread : extractHeaders false
      (endLine (statusLine s) ++ (lines.flatMap endLine ++ CR :: LF :: body)) with
  | mk st result =>
    cases result with
    | error halt =>
      constructor
      · intro hdelivers
        cases hdelivers
      · rintro ⟨hdangles, st', hadd, -⟩
        have hok := (hextract st' _).mpr ⟨hdangles, hadd, rfl⟩
        rw [hread] at hok
        cases hok
    | ok rest =>
      obtain ⟨hdangles, hadd, rfl⟩ := (hextract st rest).mp hread
      rw [and_iff_right hdangles]
      constructor
      · intro hdelivers
        exact ⟨st, hadd, hdelivers⟩
      · rintro ⟨st', hadd', hdelivers⟩
        obtain rfl : st = st' := congrArg Prod.fst (hadd.symm.trans hadd')
        exact hdelivers

/-- The data of the chunks is shorter than they are. -/
theorem length_chunkLoop_lt {sPayload sData payload : Bytes}
    (h : chunkLoop sPayload sData = some payload) :
    payload.length < sPayload.length + sData.length := by
  fun_induction chunkLoop sPayload sData with
  | case1 => cases h
  | case2 sPayload sData hne =>
    cases h
    have hpos : sData ≠ [] := by
      rintro rfl
      exact hne (.inl rfl)
    have := List.length_pos_iff.mpr hpos
    omega
  | case3 => cases h
  | case4 sPayload sData hne size rest hsize hlen ih =>
    have hlt := ih h
    have hstart : (chunkStart sData).length ≤ sData.length := by
      unfold chunkStart
      split
      · exact length_past_le _ _
      · exact le_refl _
    have hrest : rest.length ≤ (chunkStart sData).length := length_past_le _ _
    rw [List.length_append, Nat.add_assoc, ← List.length_append, List.take_append_drop] at hlt
    omega

theorem carried_responseDict (m_Status : Bytes) (m_Headers : Dict) (payload : Bytes)
    (value : PyValue) :
    carried (responseDict m_Status m_Headers (dataEntry payload value)) =
      if payload = [] then some [] else carried [(str "Data", value)] := by
  unfold dataEntry
  by_cases hnil : payload = []
  · rw [if_pos (List.isEmpty_iff.mpr hnil), if_pos hnil]
    rfl
  · rw [if_neg (mt List.isEmpty_iff.mp hnil), if_neg hnil]
    rfl

theorem carried_request (verb url : Bytes) (m_Headers : Dict) (payload : Bytes) :
    carried ([(str "Verb", .text verb), (str "URL", .text url), (str "Headers", .dict m_Headers)] ++
      dataEntry payload (.bytes payload)) = some payload := by
  unfold dataEntry
  by_cases hnil : payload = []
  · rw [hnil]
    rfl
  · rw [if_neg (mt List.isEmpty_iff.mp hnil)]
    rfl

/-- The bytes of a payload are carried, those of JSON only if there are none. -/
theorem carried_payload (m_Status : Bytes) (m_Headers : Dict) (payload : Bytes) :
    carried (responseDict m_Status m_Headers (dataEntry payload (.bytes payload))) =
      some payload := by
  rw [carried_responseDict]
  split
  · next hnil => rw [hnil]
  · rfl

/-- When the data of a response is delivered; that of chunks is shorter than the body. -/
theorem processBody_blank_iff {m_Status body content : Bytes}
    {st : HeaderState} (htext : buildString m_Status ≠ none) (hlen : body.length ≤ content.length) :
    (∃ data, processBody false m_Status st (CR :: LF :: body) = .delivers data ∧
      carried data = some content) ↔
    m_Status ≠ [] ∧ st.m_Chunked = false ∧ st.m_ContentLength = body.length ∧ body = content ∧
      (st.m_JSON = true → content = []) := by
  have hpast : past LF (CR :: LF :: body) = body := rfl
  unfold processBody
  simp only [List.isEmpty_cons, Bool.false_eq_true, if_false, hpast, or_false]
  by_cases hstatus : m_Status = []
  · rw [if_pos (List.isEmpty_iff.mpr hstatus)]
    exact iff_of_false (fun h => by obtain ⟨data, hdata, -⟩ := h; cases hdata) fun h => h.1 hstatus
  · rw [if_neg (mt List.isEmpty_iff.mp hstatus), and_iff_right hstatus]
    cases hchunked : st.m_Chunked with
    | true =>
      rw [if_pos rfl]
      refine iff_of_false ?_ fun h => by cases h.1
      rintro ⟨data, hdata, hcontent⟩
      cases hloop : chunkLoop [] body with
      | none =>
        rw [hloop] at hdata
        cases hdata
      | some payload =>
        rw [hloop] at hdata
        obtain ⟨-, entry, hentry, rfl⟩ := queueResponse_delivers_iff.mp hdata
        cases hentry
        rw [carried_payload, Option.some.injEq] at hcontent
        -- the data in chunks is shorter than the body, and so than the content
        have hlt := length_chunkLoop_lt hloop
        rw [hcontent, List.length_nil] at hlt
        omega
    | false =>
      rw [if_neg Bool.false_ne_true, and_iff_right rfl]
      by_cases hlength : st.m_ContentLength = body.length
      · rw [if_pos hlength, and_iff_right hlength]
        simp only [queueResponse_delivers_iff, bodyEntry_eq_ok_iff]
        constructor
        · rintro ⟨data, ⟨-, entry, ⟨value, rfl, hvalue⟩, rfl⟩, hcontent⟩
          rw [carried_responseDict] at hcontent
          split at hcontent
          · next hnil =>
            obtain rfl : [] = content := Option.some.inj hcontent
            exact ⟨hnil, fun _ => rfl⟩
          · next hne =>
            have hbytes := hvalue hne
            split at hbytes
            · obtain ⟨t, rfl, -⟩ := hbytes
              cases hcontent
            · next hjson =>
              obtain rfl := hbytes
              exact ⟨Option.some.inj hcontent, fun h => absurd h hjson⟩
        · rintro ⟨rfl, hempty⟩
          refine ⟨_, ⟨htext, _, ⟨.bytes body, rfl, fun hne => ?_⟩, rfl⟩, carried_payload _ _ _⟩
          rw [if_neg fun hjson => hne (hempty hjson)]
      · rw [if_neg hlength]
        exact iff_of_false (fun h => by obtain ⟨data, hdata, -⟩ := h; cases hdata) fun h => hlength h.1

/-- The data of a message that is delivered is what is taken for the body, but for chunks. -/
theorem content_eq_taken {m_JSON : Bool} {b content : Bytes} {data : Dict}
    (hdelivers : (attempt false m_JSON b).2 = .delivers data) (hcarried : carried data = some content)
    (hwhole : b.take 4 = str "HTTP" → declaredChunked (bufferHeaders b) = false) :
    content = taken b := by
  obtain ⟨m_JSON', h⟩ : ∃ m_JSON', attempt false m_JSON b =
      (m_JSON', .delivers data) := ⟨_, Prod.ext rfl hdelivers⟩
  unfold attempt at h
  split at h
  · next hhttp =>
    unfold attemptResponse at h
    simp only at h
    split at h
    · cases h
    · next st rest hst =>
      obtain ⟨-, hadd, rfl⟩ := (extractLines_ok_iff _ _ _ _).mp hst
      -- there are no chunks, so the data is the body as it stands
      have hchunked : st.m_Chunked = false := by
        rw [(addAll_noted hadd).2, Bool.false_or]
        exact hwhole hhttp
      have hbody := congrArg Prod.snd h
      unfold processBody at hbody
      simp only [hchunked, Bool.false_eq_true, if_false, or_false] at hbody
      split at hbody
      · cases hbody
      · split at hbody
        · cases hbody
        · split at hbody
          · obtain ⟨-, entry, hentry, rfl⟩ := queueResponse_delivers_iff.mp hbody
            obtain ⟨value, rfl, hvalue⟩ := bodyEntry_eq_ok_iff.mp hentry
            rw [carried_responseDict] at hcarried
            split at hcarried
            · next hnil =>
              rw [taken, hnil]
              exact (Option.some.inj hcarried).symm
            · next hne =>
              have hbytes := hvalue hne
              split at hbytes
              · obtain ⟨t, rfl, -⟩ := hbytes
                cases hcarried
              · obtain rfl := hbytes
                exact (Option.some.inj hcarried).symm
          · cases hbody
  · unfold attemptRequest at h
    simp only at h
    split at h
    · cases h
    · next st rest hst =>
      obtain ⟨-, -, rfl⟩ := (extractLines_ok_iff _ _ _ _).mp hst
      split at h
      · next htake =>
        split at h
        · have hdict := Result.ofDict_eq_delivers_iff.mp (congrArg Prod.snd h)
          obtain ⟨-, sURL, -, -, rfl⟩ := (requestDict_eq_ok_iff _ _ _ _).mp hdict
          rw [carried_request, Option.some.injEq] at hcarried
          rw [taken, ← hcarried]
          conv_rhs => rw [← List.take_append_drop 2 (remainder (past LF b)), htake]
          exact (past_blank _).symm
        · cases h
      · cases h

/-! ### The lines of a message -/

/-- The lines behind the first one. -/
def sentLines (auth : Option Bytes) (es : List (Bytes × Bytes)) : List Bytes :=
  auth.toList.map authorizationLine ++ es.map fun e => headerLine e.1 e.2

/-- What is read of the credentials: their first byte is skipped. -/
def cutAuthorization (auth : Bytes) : Bytes × Bytes :=
  (str "Authorization", str "asic " ++ base64Encode auth)

theorem flatMap_sentLines (auth : Option Bytes) (es : List (Bytes × Bytes)) :
    (sentLines auth es).flatMap endLine =
      (auth.map fun auth => endLine (authorizationLine auth)).getD [] ++ block es := by
  rw [sentLines, List.flatMap_append, List.flatMap_map, List.flatMap_map, ← block]
  cases auth with
  | none => rfl
  | some auth => exact congrArg (· ++ block es) (List.append_nil (endLine (authorizationLine auth)))

theorem printable_base64Encode (s : Bytes) : Printable (base64Encode s) := by
  have hall : Printable (chr '=' :: base64Chars) := by decide
  exact fun b hb => hall b (mem_base64Encode hb)

theorem sendable_cutAuthorization (auth : Bytes) : Sendable (cutAuthorization auth) := by
  have hname : Printable (str "Authorization") ∧ chr ':' ∉ str "Authorization" := by decide
  exact sendable_of_printable hname.1 hname.2
    (printable_append.mpr ⟨by decide, printable_base64Encode auth⟩)

/-- Of the line of the credentials the first byte of the text is skipped. -/
theorem authorizationLine_spec (auth : Bytes) : Printable (authorizationLine auth) ∧
    Dangles (authorizationLine auth) ∧
      entryOf (authorizationLine auth) = cutAuthorization auth := by
  have hprintable : Printable (authorizationLine auth) :=
    printable_append.mpr ⟨by decide, printable_base64Encode auth⟩
  have hcr : CR ∉ authorizationLine auth := hprintable.notMem (by decide)
  have hline : upTo CR (authorizationLine auth) = authorizationLine auth := upTo_of_notMem hcr
  have hname : upTo (chr ':') (authorizationLine auth) = str "Authorization" := by
    have hcolon : chr ':' ∉ str "Authorization" := by decide
    exact upTo_append_cons (str "Basic " ++ base64Encode auth) hcolon
  refine ⟨hprintable, ?_, ?_⟩
  · have hlen : (str "Authorization").length + 2 ≤ (str "Authorization:Basic ").length := by decide
    rw [Dangles, hline, hname, authorizationLine, List.length_append]
    omega
  · rw [entryOf, hline, hname]
    rfl

/-- The headers that are read of some lines. -/
theorem readLines_sentLines (first : Bytes) (auth : Option Bytes) {es : List (Bytes × Bytes)}
    (h : ∀ e ∈ es, Sendable e) : (readLines first (sentLines auth es)).map entryOf =
      (within first).map entryOf ++ (auth.toList.map cutAuthorization ++
        es.flatMap fun e => e :: (within (headerLine e.1 e.2)).map entryOf) := by
  have hauth : (auth.toList.map authorizationLine).flatMap (fun line => line :: within line) =
      auth.toList.map authorizationLine := by
    rw [List.flatMap_map]
    cases auth with
    | none => rfl
    | some auth =>
      have hlf : LF ∉ authorizationLine auth :=
        (authorizationLine_spec auth).1.notMem (by decide)
      show (authorizationLine auth :: within (authorizationLine auth)) ++ [] = _
      rw [within_of_notMem hlf]
      rfl
  rw [readLines, sentLines, List.flatMap_append, hauth, List.map_append, List.map_append,
    List.map_map, List.map_flatMap, List.flatMap_map]
  congr 2
  · exact List.map_congr_left fun auth _ => (authorizationLine_spec auth).2.2
  · refine List.flatMap_congr fun e he => ?_
    rw [List.map_cons, (h e he).entryOf]

/-! ### What is found in a message -/

/-- What is added has no line feeds. -/
theorem Outgoing.within_added {m : Outgoing} {info : Tm} {e : Bytes × Bytes}
    (h : e ∈ m.addedFront info ∨ e ∈ m.addedLength) : within (headerLine e.1 e.2) = [] := by
  obtain ⟨hname, htext⟩ : Printable e.1 ∧ Printable e.2 := by
    rcases h with h | h
    · obtain ⟨name, hmem, hname, htext, -⟩ := mem_addedFront h
      have hall : ∀ name ∈ (["User-Agent", "Date", "Server"] : List String),
          Printable (str name) := by decide
      exact ⟨hname ▸ hall name hmem, htext⟩
    · obtain ⟨hname, htext, -⟩ := mem_addedLength h
      rw [hname]
      exact ⟨by decide, htext⟩
  refine within_of_notMem ?_
  simp only [headerLine, List.mem_append, not_or]
  exact ⟨⟨hname.notMem (by decide), by decide⟩, htext.notMem (by decide)⟩

theorem Outgoing.inner_eq (m : Outgoing) (info : Tm) : m.inner =
    within m.start.line ++ (m.sent info).flatMap fun e => within (headerLine e.1 e.2) := by
  have hnil {es : List (Bytes × Bytes)} (h : ∀ e ∈ es, within (headerLine e.1 e.2) = []) :
      es.flatMap (fun e => within (headerLine e.1 e.2)) = [] := List.flatMap_eq_nil_iff.mpr h
  rw [inner, sent, List.flatMap_append, List.flatMap_append, hnil fun e he => within_added (.inl he),
    hnil fun e he => @within_added m info e (.inr he), List.nil_append, List.append_nil]

/-- The headers that are found are those that are sent and those of the lines in them. -/
theorem Outgoing.found_perm (m : Outgoing) (info : Tm) :
    (m.found info).Perm (m.sent info ++ m.inner.map entryOf) := by
  have hsent := List.map_append_flatMap_perm (m.sent info) id
    fun e => (within (headerLine e.1 e.2)).map entryOf
  rw [List.map_id] at hsent
  rw [found, m.inner_eq info, List.map_append, List.map_flatMap]
  refine (hsent.symm.append_left _).trans ?_
  rw [← List.append_assoc, ← List.append_assoc]
  exact List.perm_append_comm.append_right _

/-- A line that is read is sent, or stands in a line that is. -/
theorem Outgoing.mem_readLines {m : Outgoing} {info : Tm} {auth : Option Bytes} {p : Bytes} :
    p ∈ readLines m.start.line (sentLines auth (m.sent info)) ↔
      p ∈ m.inner ∨ p ∈ sentLines auth (m.sent info) := by
  have hauth (a : Bytes) : within (authorizationLine a) = [] :=
    within_of_notMem ((authorizationLine_spec a).1.notMem (by decide))
  rw [readLines, m.inner_eq info]
  simp only [List.mem_append, List.mem_flatMap, List.mem_cons, sentLines, List.mem_map]
  constructor
  · rintro (h | ⟨line, hline, rfl | h⟩)
    · exact .inl (.inl h)
    · exact .inr hline
    · rcases hline with ⟨a, -, rfl⟩ | ⟨e, he, rfl⟩
      · rw [hauth] at h
        cases h
      · exact .inl (.inr ⟨e, he, h⟩)
  · rintro ((h | ⟨e, he, h⟩) | h)
    · exact .inl h
    · exact .inr ⟨_, .inr ⟨e, he, rfl⟩, .inr h⟩
    · exact .inr ⟨p, h, .inl rfl⟩

/-- A name is sent once. -/
theorem filter_key {l : List (Bytes × Bytes)} (hnodup : (l.map Prod.fst).Nodup) {e : Bytes × Bytes}
    (h : e ∈ l) : (l.filter fun g => g.1 = e.1) = [e] := by
  induction l with
  | nil => cases h
  | cons g l ih =>
    rw [List.map_cons, List.nodup_cons] at hnodup
    rcases List.mem_cons.mp h with rfl | h
    · have hnil : (l.filter fun g => g.1 = e.1) = [] := by
        refine List.filter_eq_nil_iff.mpr fun g hg => ?_
        rw [decide_eq_true_iff]
        rintro heq
        exact hnodup.1 (heq ▸ List.mem_map_of_mem hg)
      rw [List.filter_cons_of_pos (by simp), hnil]
    · have hne : g.1 ≠ e.1 := by
        rintro heq
        exact hnodup.1 (heq ▸ List.mem_map_of_mem h)
      rw [List.filter_cons_of_neg (by simpa using hne), ih hnodup.2 h]

/-- The header of a name that is sent is the only one that is found if no line in the texts has its
name. -/
theorem Outgoing.filter_found (m : Outgoing) {info : Tm} {e : Bytes × Bytes}
    (h : e ∈ m.sent info) (t : Bytes) : (m.found info).filter (fun g => g.1 = e.1) = [(e.1, t)] ↔
      (∀ line ∈ m.inner, (entryOf line).1 ≠ e.1) ∧ t = e.2 := by
  have hperm := (m.found_perm info).filter fun g => g.1 = e.1
  rw [List.filter_append, filter_key (Outgoing.nodup_sent info) h] at hperm
  have hnil : ((m.inner.map entryOf).filter fun g => g.1 = e.1) = [] ↔
      ∀ line ∈ m.inner, (entryOf line).1 ≠ e.1 := by
    rw [List.filter_eq_nil_iff, List.forall_mem_map]
    exact forall₂_congr fun line _ => by rw [decide_eq_true_iff]
  rw [← hnil]
  constructor
  · intro heq
    rw [heq] at hperm
    have hlength := hperm.length_eq
    rw [List.length_singleton, List.length_append, List.length_singleton] at hlength
    have hempty := List.eq_nil_of_length_eq_zero (by omega :
      ((m.inner.map entryOf).filter fun g => g.1 = e.1).length = 0)
    rw [hempty, List.append_nil, List.singleton_perm_singleton] at hperm
    exact ⟨hempty, congrArg Prod.snd hperm⟩
  · rintro ⟨hempty, rfl⟩
    rw [hempty, List.append_nil] at hperm
    exact List.perm_singleton.mp hperm

/-! ### What must be clean -/

/-- One message is delivered of a read if the parse of it delivers. -/
theorem processInbound_fresh_iff {bytes : Bytes} {data : Dict}
    (hne : bytes ≠ []) :
    (∃ p, processInbound {} bytes = some (p, [.onMessage data])) ↔
      (attempt false false bytes).2 = .delivers data := by
  have hflush : bytes.isEmpty = false := List.isEmpty_eq_false_iff.mpr hne
  unfold processInbound
  simp only [List.nil_append, hflush]
  cases ha : attempt false false bytes with
  | mk m_JSON result =>
    cases result with
    | waits => simp
    | halts halt =>
      cases halt with
      | threw => simp
      | stuck => simp
    | delivers data' => simp

/-- An empty read delivers nothing. -/
theorem ne_nil_of_delivers {p : Protocol} {bytes : Bytes}
    {data : Dict} (h : processInbound {} bytes = some (p, [.onMessage data])) : bytes ≠ [] := by
  rintro rfl
  have hextract : extractHeaders false [] = ({ m_JSON := false }, .ok []) := by
    rw [extractHeaders, past_of_notMem List.not_mem_nil, extractLines, if_pos (.inl rfl)]
  have hattempt : attempt true false [] = (false, .waits) := by
    rw [attempt, if_neg (by decide), attemptRequest, hextract]
    rfl
  unfold processInbound at h
  simp only [List.nil_append, List.isEmpty_nil, hattempt] at h
  cases h

theorem roundTrips_iff_attempt {parameters : Parameters} {info : Tm}
    {m : Outgoing} : RoundTrips parameters info m ↔
      ∃ bytes, processOutbound parameters info (some (.dict m.entries)) = some bytes ∧ bytes ≠ [] ∧
        ∃ data, (attempt false false bytes).2 = .delivers data ∧
          Carries parameters info m data := by
  constructor
  · rintro ⟨bytes, hbytes, p, data, hrun, hcarries⟩
    have hne := ne_nil_of_delivers hrun
    exact ⟨bytes, hbytes, hne, data, (processInbound_fresh_iff hne).mp ⟨p, hrun⟩, hcarries⟩
  · rintro ⟨bytes, hbytes, hne, data, hdelivers, hcarries⟩
    obtain ⟨p, hrun⟩ := (processInbound_fresh_iff hne).mpr hdelivers
    exact ⟨bytes, hbytes, p, data, hrun, hcarries⟩

theorem mem_of_mem_upToLast {b c : UInt8} {s : Bytes} (h : b ∈ upToLast c s) : b ∈ s := by
  unfold upToLast at h
  cases hd : s.reverse.dropWhile (· != c) with
  | nil =>
    rw [hd] at h
    exact h
  | cons x t =>
    rw [hd] at h
    have hsub := (List.dropWhile_suffix (l := s.reverse) (· != c)).subset
    rw [hd] at hsub
    exact List.mem_reverse.mp (hsub (List.mem_cons_of_mem _ (List.mem_reverse.mp h)))

/-- The headers that arrive are clean. -/
theorem headers_clean {parameters : Parameters} {info : Tm}
    {m : Outgoing} {bytes : Bytes} {data : Dict}
    (hdelivers : (attempt false false bytes).2 = .delivers data)
    (hcarries : Carries parameters info m data) : ∀ h ∈ m.headers, Clean h := by
  obtain ⟨⟨st, rest, hst, hheaders⟩, -⟩ := delivered_entries hdelivers
  obtain ⟨m_Headers, hdict, hsupplied, -⟩ := hcarries.headers
  rw [hheaders, Option.some.injEq, PyValue.dict.injEq] at hdict
  subst hdict
  intro h hh
  obtain ⟨name, text, hname, htext, hlookup⟩ := hsupplied h hh
  obtain ⟨hclean, hcleanText⟩ := tidy_extractHeaders hst _ (mem_of_lookup hlookup)
  exact ⟨name, text, hname, htext, hclean, hcleanText text rfl⟩

/-- A verb or a status code that arrives is clean. -/
theorem start_clean {parameters : Parameters} {info : Tm}
    {m : Outgoing} {bytes : Bytes} {data : Dict}
    (hbytes : processOutbound parameters info (some (.dict m.entries)) = some bytes)
    (hdelivers : (attempt false false bytes).2 = .delivers data)
    (hcarries : Carries parameters info m data) : m.start.Clean := by
  have hheaders := headers_clean hdelivers hcarries
  obtain ⟨-, hline⟩ := delivered_entries hdelivers
  have hcarried := hcarries.start
  have hok := m.start_ok
  cases hstart : m.start with
  | request verb url =>
    rw [hstart] at hcarried hok
    obtain ⟨v, u, hv, hu, hverb, -⟩ := hcarried
    have hcstr : stdString verb = some (cstr v) := congrArg (Option.map cstr) hv
    have hcstr' : stdString (url.getD (pyStr "/")) = some (cstr u) := congrArg (Option.map cstr) hu
    rw [Outgoing.processOutbound_request info hstart hcstr hcstr' hheaders] at hbytes
    obtain ⟨auth, -, hbody⟩ := Option.bind_eq_some_iff.mp hbytes
    obtain ⟨body, -, rfl⟩ := Option.map_eq_some_iff.mp hbody
    rcases hline with ⟨-, hnone, -⟩ | ⟨hhttp, hsome⟩
    · rw [hverb] at hnone
      cases hnone
    · rw [hverb, Option.some.injEq, PyValue.text.injEq] at hsome
      -- the verb that arrives has been cut at the first NUL
      have hzero : 0 ∉ v := by
        rw [hsome]
        exact zero_notMem_cstr _
      have hupper : upper (cstr v) = v := by
        rw [cstr_of_notMem hzero]
        exact hok.2.2.1 v hv
      refine ⟨⟨v, hv, ⟨hzero, ?_, ?_⟩, fun hprefix => hhttp ?_⟩, by rw [hu]; nofun⟩
      · rw [hsome]
        refine notMem_cstr fun hmem => ?_
        exact notMem_upTo CR _ (mem_of_mem_upToLast ((List.takeWhile_prefix _).subset hmem))
      · rw [hsome]
        exact notMem_cstr (notMem_upTo _ _)
      · rw [hupper, List.append_assoc, List.append_assoc, List.append_assoc]
        exact (take_requestLine v (cstr u) _).mpr hprefix
  | response status =>
    rw [hstart] at hcarried
    obtain ⟨s, hs, hstatus⟩ := hcarried
    have hcstr : stdString status = some (cstr s) := congrArg (Option.map cstr) hs
    rw [Outgoing.processOutbound_response parameters info hstart hcstr hheaders] at hbytes
    obtain ⟨body, -, rfl⟩ := Option.map_eq_some_iff.mp hbytes
    rw [List.append_assoc, List.append_assoc] at hline
    rcases hline with ⟨-, -, hcode, hsome⟩ | ⟨hhttp, -⟩
    · rw [← statusLine, upTo_statusLine] at hcode hsome
      rw [hstatus, Option.some.injEq, PyValue.text.injEq, cstr_of_notMem] at hsome
      · obtain ⟨hzero, hcr⟩ := (statusCode_eq_iff s).mp hsome.symm
        rw [← hsome] at hcode
        exact ⟨s, hs, hcode, hzero, hcr⟩
      · intro hmem
        have hupTo := (List.takeWhile_prefix _).subset hmem
        exact zero_notMem_cstr s ((List.takeWhile_prefix _).subset hupTo)
    · exact absurd rfl hhttp

/-! ### When a clean message goes round -/

section Sent

variable {parameters : Parameters} {info : Tm} {m : Outgoing}

/-- The first line has no NUL. -/
theorem zero_notMem_line (start : Start) : 0 ∉ start.line := by
  have hstd (s : PyStr) : 0 ∉ (stdString s).getD [] := by
    rw [stdString]
    cases asUTF8 s with
    | none => exact List.not_mem_nil
    | some b => exact zero_notMem_cstr b
  cases start with
  | request verb url =>
    simp only [Start.line, requestLine, List.mem_append, not_or]
    exact ⟨⟨⟨hstd verb, by decide⟩, hstd _⟩, by decide⟩
  | response status =>
    simp only [Start.line, statusLine, List.mem_append, not_or]
    exact ⟨by decide, hstd status⟩

theorem zero_notMem_sentLines (hheaders : ∀ h ∈ m.headers, Clean h) (auth : Option Bytes) :
    ∀ line ∈ sentLines auth (m.sent info), 0 ∉ line := by
  intro line hline
  rcases List.mem_append.mp hline with hline | hline
  · obtain ⟨a, -, rfl⟩ := List.mem_map.mp hline
    exact (authorizationLine_spec a).1.notMem (by decide)
  · obtain ⟨e, he, rfl⟩ := List.mem_map.mp hline
    have hsendable := Outgoing.sendable_sent hheaders e he
    simp only [headerLine, List.mem_append, not_or]
    exact ⟨⟨hsendable.name.1, by decide⟩, hsendable.text.1⟩

/-- Nor has the name of a header that is found. -/
theorem zero_notMem_entries (hheaders : ∀ h ∈ m.headers, Clean h) (auth : Option Bytes) :
    ∀ e ∈ (readLines m.start.line (sentLines auth (m.sent info))).map entryOf, 0 ∉ e.1 := by
  have hlines := @zero_notMem_sentLines info m hheaders
  intro e he hzero
  obtain ⟨p, hp, rfl⟩ := List.mem_map.mp he
  have hmem : 0 ∈ p :=
    ((List.takeWhile_prefix _).trans (List.takeWhile_prefix _)).subset hzero
  rcases Outgoing.mem_readLines.mp hp with hp | hp
  · rw [m.inner_eq info] at hp
    rcases List.mem_append.mp hp with hp | hp
    · exact zero_notMem_line m.start ((suffix_of_mem_within hp).subset hmem)
    · obtain ⟨e, he, hp⟩ := List.mem_flatMap.mp hp
      exact hlines none _ (List.mem_map_of_mem he) ((suffix_of_mem_within hp).subset hmem)
  · exact hlines auth p hp hmem

/-- The lines that are sent have something behind their colons. -/
theorem dangles_sentLines (hheaders : ∀ h ∈ m.headers, Clean h) (auth : Option Bytes) :
    ∀ line ∈ sentLines auth (m.sent info), Dangles line := by
  intro line hline
  rcases List.mem_append.mp hline with hline | hline
  · obtain ⟨a, -, rfl⟩ := List.mem_map.mp hline
    exact (authorizationLine_spec a).2.1
  · obtain ⟨e, he, rfl⟩ := List.mem_map.mp hline
    exact (Outgoing.sendable_sent hheaders e he).dangles

theorem dangles_readLines_iff (hheaders : ∀ h ∈ m.headers, Clean h) (auth : Option Bytes) :
    (∀ p ∈ readLines m.start.line (sentLines auth (m.sent info)), Dangles p) ↔
      ∀ line ∈ m.inner, Dangles line := by
  constructor
  · exact fun h line hline => h line (Outgoing.mem_readLines.mpr (.inl hline))
  · intro h p hp
    rcases Outgoing.mem_readLines.mp hp with hp | hp
    · exact h p hp
    · exact dangles_sentLines hheaders auth p hp

/-- No line ends the block of a message whose texts do not. -/
theorem continues_readLines (hheaders : ∀ h ∈ m.headers, Clean h) (hunbroken : m.Unbroken)
    (auth : Option Bytes) :
    ∀ p ∈ readLines m.start.line (sentLines auth (m.sent info)), Continues p := by
  intro p hp
  rcases Outgoing.mem_readLines.mp hp with hp | hp
  · exact hunbroken p hp
  · exact .of_dangles (dangles_sentLines hheaders auth p hp)

/-- What is found of a message without credentials. -/
theorem readLines_none (hheaders : ∀ h ∈ m.headers, Clean h) :
    (readLines m.start.line (sentLines none (m.sent info))).map entryOf = m.found info := by
  rw [readLines_sentLines _ none (Outgoing.sendable_sent hheaders)]
  rfl

/-- The headers that are sent are kept as they are if no line in the texts has the name of one. -/
theorem lookup_sent_iff (hheaders : ∀ h ∈ m.headers, Clean h) {st : HeaderState}
    (hadd : ({ m_JSON := false } : HeaderState).addAll (m.found info) = (st, none)) :
    (∀ e ∈ m.sent info, st.m_Headers.lookup e.1 = some (.text e.2)) ↔
      ∀ line ∈ m.inner, (entryOf line).1 ∉ (m.sent info).map Prod.fst := by
  have hzero := @zero_notMem_entries info m hheaders none
  rw [readLines_none hheaders] at hzero
  have hone {e : Bytes × Bytes} (he : e ∈ m.sent info) :
      st.m_Headers.lookup e.1 = some (.text e.2) ↔ ∀ line ∈ m.inner, (entryOf line).1 ≠ e.1 := by
    obtain ⟨hname, htext⟩ := (Outgoing.sendable_sent hheaders e he).buildString
    rw [lookup_addAll_text_iff hname rfl hzero hadd]
    simp only [m.filter_found he]
    constructor
    · rintro ⟨t, ⟨hne, -⟩, -⟩
      exact hne
    · exact fun hne => ⟨e.2, ⟨hne, rfl⟩, htext⟩
  constructor
  · intro h line hline hmem
    obtain ⟨e, he, heq⟩ := List.mem_map.mp hmem
    exact (hone he).mp (h e he) line hline heq.symm
  · intro h e he
    refine (hone he).mpr fun line hline heq => h line hline ?_
    rw [heq]
    exact List.mem_map_of_mem he

/-- The lines in the texts do no harm exactly if they are read, and leave what is sent. -/
theorem readable_iff (hheaders : ∀ h ∈ m.headers, Clean h) : m.Readable info ↔
    (∀ line ∈ m.inner, Dangles line) ∧
      ∃ st, ({ m_JSON := false } : HeaderState).addAll (m.found info) = (st, none) ∧
        ∀ e ∈ m.sent info, st.m_Headers.lookup e.1 = some (.text e.2) := by
  have hnone := addAll_eq_none_iff { m_JSON := false } (m.found info)
  simp only [List.map_nil, List.not_mem_nil, not_false_iff, forall_const] at hnone
  constructor
  · rintro ⟨hdangles, hapart, htext⟩
    have hadd : ({ m_JSON := false } : HeaderState).addAll (m.found info) =
        ((({ m_JSON := false } : HeaderState).addAll (m.found info)).1, none) :=
      Prod.ext rfl (hnone.mpr htext)
    exact ⟨hdangles, _, hadd, (lookup_sent_iff hheaders hadd).mpr hapart⟩
  · rintro ⟨hdangles, st, hadd, hlookup⟩
    exact ⟨hdangles, (lookup_sent_iff hheaders hadd).mp hlookup,
      hnone.mp (congrArg Prod.snd hadd)⟩

/-- The headers of a message without credentials are carried if those that are sent are there. -/
theorem headers_carried_iff (hheaders : ∀ h ∈ m.headers, Clean h)
    (hauth : ∀ verb url, m.start = .request verb url → m.addedAuthorization parameters = none)
    (d : Dict) :
    ((∀ h ∈ m.headers, ∃ name text, asUTF8 h.1 = some name ∧ asUTF8 h.2 = some text ∧
        d.lookup name = some (.text text)) ∧
      ∀ e ∈ m.added parameters info, d.lookup e.1 = some (.text e.2)) ↔
    ∀ e ∈ m.sent info, d.lookup e.1 = some (.text e.2) := by
  have hadded : m.added parameters info = m.addedFront info ++ m.addedLength := by
    rw [Outgoing.added]
    cases hstart : m.start with
    | request verb url =>
      rw [hauth verb url hstart]
      rfl
    | response status => rfl
  rw [hadded]
  constructor
  · rintro ⟨hsupplied, hadded⟩ e he
    rcases List.mem_append.mp he with he | he
    · rcases List.mem_append.mp he with he | he
      · exact hadded e (List.mem_append_left _ he)
      · obtain ⟨h, hh, hname, htext⟩ := Outgoing.mem_texts.mp he
        obtain ⟨name, text, hname', htext', hlookup⟩ := hsupplied h hh
        obtain rfl : e.1 = name := Option.some.inj (hname.symm.trans hname')
        obtain rfl : e.2 = text := Option.some.inj (htext.symm.trans htext')
        exact hlookup
    · exact hadded e (List.mem_append_right _ he)
  · intro h
    constructor
    · intro header hh
      obtain ⟨name, text, hname, htext, -⟩ := hheaders header hh
      have hmem : (name, text) ∈ m.texts := Outgoing.mem_texts.mpr ⟨header, hh, hname, htext⟩
      exact ⟨name, text, hname, htext, h _ (List.mem_append_left _ (List.mem_append_right _ hmem))⟩
    · intro e he
      apply h
      rcases List.mem_append.mp he with he | he
      · exact List.mem_append_left _ (List.mem_append_left _ he)
      · exact List.mem_append_right _ he

/-- The credentials do not arrive as they were meant. -/
theorem not_carried_of_credentials (hheaders : ∀ h ∈ m.headers, Clean h) {auth : Bytes}
    {st : HeaderState} {verb : PyStr} {url : Option PyStr} (hstart : m.start = .request verb url)
    (hauth : m.addedAuthorization parameters = some auth)
    (hadd : ({ m_JSON := false } : HeaderState).addAll
      ((readLines m.start.line (sentLines (some auth) (m.sent info))).map entryOf) = (st, none)) :
    ¬ ∀ e ∈ m.added parameters info, st.m_Headers.lookup e.1 = some (.text e.2) := by
  intro hadded
  have hmem : (str "Authorization", str "Basic " ++ base64Encode auth) ∈
      m.added parameters info := by
    rw [Outgoing.added, hstart, hauth]
    exact List.mem_append_left _ (List.mem_append_left _ (List.mem_singleton.mpr rfl))
  have hzero := @zero_notMem_entries info m hheaders (some auth)
  obtain ⟨hname, htext⟩ := (sendable_cutAuthorization auth).buildString
  have hname' : buildString (str "Authorization") ≠ none := hname
  have hlookup : st.m_Headers.lookup (str "Authorization") =
      some (.text (str "Basic " ++ base64Encode auth)) := hadded _ hmem
  obtain ⟨t, hfilter, ht⟩ := (lookup_addAll_text_iff hname' rfl hzero hadd _).mp hlookup
  -- the header that is read of the credentials is the only one of its name
  have hcut : cutAuthorization auth ∈
      ((readLines m.start.line (sentLines (some auth) (m.sent info))).map entryOf).filter
        fun e => e.1 = str "Authorization" := by
    rw [readLines_sentLines _ _ (Outgoing.sendable_sent hheaders)]
    refine List.mem_filter.mpr ⟨?_, decide_eq_true rfl⟩
    exact List.mem_append_right _ (List.mem_append_left _ (List.mem_singleton.mpr rfl))
  rw [hfilter, List.mem_singleton] at hcut
  obtain rfl : (cutAuthorization auth).2 = t := congrArg Prod.snd hcut
  rw [htext, Option.some.injEq, PyValue.text.injEq] at ht
  have hhead : some (chr 'a') = some (chr 'B') := congrArg List.head? ht
  exact absurd hhead (by decide)

/-- No credentials are added if there are none. -/
theorem addedAuthorization_eq_none_iff (hheaders : ∀ h ∈ m.headers, Clean h) :
    (∃ auth, authorization parameters (getItemString m.entries "Headers") = some auth) ∧
      m.addedAuthorization parameters = none ↔ parameters.Empty := by
  have hsupplies : m.supplies "Authorization:Basic" = false := by
    cases hlookup : m.headers.lookup (pyStr "Authorization:Basic") with
    | none =>
      rw [Outgoing.supplies, hlookup]
      rfl
    | some text =>
      obtain ⟨name, -, hname, -, ⟨-, -, hcolon⟩, -⟩ := hheaders _ (mem_of_lookup hlookup)
      have hbytes : asUTF8 (pyStr "Authorization:Basic") = some (str "Authorization:Basic") := by
        decide
      rw [hbytes, Option.some.injEq] at hname
      rw [← hname] at hcolon
      exact absurd (by decide) hcolon
  unfold authorization Outgoing.addedAuthorization Parameters.Empty
  rw [Outgoing.headerItem_eq, hsupplies]
  simp only [Bool.false_eq_true, if_false]
  cases stdString parameters.Username with
  | none => simp
  | some User =>
    cases stdString parameters.Password with
    | none => simp
    | some Pass => simp [credentials]

/-- What is sent for a clean request, in lines. -/
theorem processOutbound_requestLine (parameters : Parameters) (info : Tm) {verb : PyStr}
    {url : Option PyStr} {v u : Bytes} (hstart : m.start = .request verb url)
    (hv : asUTF8 verb = some v) (hzero : 0 ∉ v)
    (hu : stdString (url.getD (pyStr "/")) = some u) (hheaders : ∀ h ∈ m.headers, Clean h)
    (bytes : Bytes) : processOutbound parameters info (some (.dict m.entries)) = some bytes ↔
      (∃ auth, authorization parameters (getItemString m.entries "Headers") = some auth) ∧
        ∃ body, m.body = some body ∧ bytes = endLine (requestLine v u) ++
          ((sentLines (m.addedAuthorization parameters) (m.sent info)).flatMap endLine ++
            CR :: LF :: body) := by
  have hupper : upper v = v := by
    have hok := m.start_ok
    rw [hstart] at hok
    exact hok.2.2.1 v hv
  have hform (body : Bytes) : endLine (upper v ++ str " " ++ u ++ str " HTTP/1.1") ++
      m.writtenAuthorization parameters ++ block (m.sent info) ++ [CR, LF] ++ body =
      endLine (requestLine v u) ++
        ((sentLines (m.addedAuthorization parameters) (m.sent info)).flatMap endLine ++
          CR :: LF :: body) := by
    rw [hupper, ← requestLine, flatMap_sentLines, ← Outgoing.writtenAuthorization]
    simp only [List.append_assoc]
    rfl
  rw [Outgoing.processOutbound_request info hstart (stdString_of_notMem hv hzero) hu hheaders,
    Option.bind_eq_some_iff]
  constructor
  · rintro ⟨auth, hauth, hbody⟩
    obtain ⟨body, hsome, rfl⟩ := Option.map_eq_some_iff.mp hbody
    refine ⟨⟨auth, hauth⟩, body, hsome, ?_⟩
    rw [Outgoing.authorization_eq hauth, hform]
  · rintro ⟨⟨auth, hauth⟩, body, hbody, rfl⟩
    refine ⟨auth, hauth, Option.map_eq_some_iff.mpr ⟨body, hbody, ?_⟩⟩
    rw [Outgoing.authorization_eq hauth, hform]

/-- A clean request goes round if it needs no credentials, what is found in its texts does no harm,
and its data is all sent and framed. -/
theorem roundTrips_request_iff {verb : PyStr} {url : Option PyStr}
    (hstart : m.start = .request verb url) (hclean : m.start.Clean)
    (hheaders : ∀ h ∈ m.headers, Clean h) (hunbroken : m.Unbroken) :
    RoundTrips parameters info m ↔ parameters.Empty ∧ m.Readable info ∧
      (∀ data ∈ m.data, Entire data) ∧ ∀ content ∈ m.content, m.Framed info content := by
  have hok := m.start_ok
  rw [hstart] at hclean hok
  obtain ⟨⟨v, hv, ⟨hzero, hcr, hblank⟩, hhttp⟩, hurl⟩ := hclean
  obtain ⟨u, hu⟩ := Option.ne_none_iff_exists'.mp hurl
  have hvisible : ∀ c ∈ u, 32 < c := by
    cases url with
    | none =>
      obtain rfl : str "/" = u := by
        rw [← Option.some.injEq, ← hu]
        decide
      exact List.forall_mem_singleton.mpr (by decide)
    | some url => exact fun c hc => (hok.2.2.2 url rfl u hu c hc).1
  have hnot {c : UInt8} (hc : c ≤ 32) : c ∉ u := fun hmem =>
    absurd (hvisible c hmem) (UInt8.not_lt.mpr hc)
  have hstd := stdString_of_notMem hu (hnot (by decide))
  have hline : m.start.line = requestLine v u := by
    rw [hstart, Start.line, stdString_of_notMem hv hzero, hstd]
    rfl
  have hbytes := processOutbound_requestLine parameters info hstart hv hzero hstd hheaders
  have hbuild : buildString v ≠ none ∧ buildString u ≠ none := by
    rw [buildString_of_asUTF8 hv, buildString_of_asUTF8 hu]
    exact ⟨Option.some_ne_none _, Option.some_ne_none _⟩
  have hattempt (auth : Option Bytes) := attempt_requestLine_iff hbuild ⟨hcr, hblank⟩
    ⟨hnot (by decide), hnot (by decide)⟩ hhttp
    (hline ▸ @continues_readLines info m hheaders hunbroken auth)
  simp only [← hline] at hattempt hbytes
  rw [roundTrips_iff_attempt]
  constructor
  · rintro ⟨bytes, hsome, -, data, hdelivers, hcarries⟩
    obtain ⟨hauth, body, hbody, rfl⟩ := (hbytes bytes).mp hsome
    obtain ⟨hdangles, st, hadd, hframed, rfl⟩ := (hattempt _ body data).mp hdelivers
    obtain ⟨m_Headers, hdict, hcarried⟩ := hcarries.headers
    cases hdict
    -- credentials would be added, and would not arrive
    have hnone : m.addedAuthorization parameters = none := by
      cases hadded : m.addedAuthorization parameters with
      | none => rfl
      | some auth =>
        rw [hadded] at hadd
        exact absurd hcarried.2 (not_carried_of_credentials hheaders hstart hadded hadd)
    rw [hnone] at hdangles hadd
    rw [dangles_readLines_iff hheaders] at hdangles
    rw [readLines_none hheaders] at hadd
    rw [headers_carried_iff hheaders fun _ _ _ => hnone] at hcarried
    obtain ⟨content, hcontent, hsame⟩ := hcarries.content
    rw [carried_request, Option.some.injEq] at hsame
    refine ⟨(addedAuthorization_eq_none_iff hheaders).mp ⟨hauth, hnone⟩,
      (readable_iff hheaders).mpr ⟨hdangles, st, hadd, hcarried⟩,
      (Outgoing.body_spec hbody hcontent).2.mp hsame, fun content' hcontent' => ?_⟩
    rw [hcontent, Option.mem_some_iff] at hcontent'
    simp only [Outgoing.Framed, hstart]
    rw [← hcontent', ← hsame, Outgoing.declared, ← (addAll_noted hadd).1]
    exact hframed
  · rintro ⟨hempty, hreadable, hentire, hframed⟩
    obtain ⟨hauth, hnone⟩ := (addedAuthorization_eq_none_iff hheaders).mpr hempty
    obtain ⟨content, hcontent, hbody⟩ := Outgoing.exists_body hentire
    obtain ⟨hdangles, st, hadd, hlookup⟩ := (readable_iff hheaders).mp hreadable
    have hlength := hframed content hcontent
    simp only [Outgoing.Framed, hstart] at hlength
    rw [Outgoing.declared, ← (addAll_noted hadd).1] at hlength
    rw [← readLines_none hheaders] at hadd
    refine ⟨_, (hbytes _).mpr ⟨hauth, content, hbody, rfl⟩, by simp [endLine], _,
      (hattempt _ content _).mpr ⟨(dangles_readLines_iff hheaders _).mpr hdangles, st,
        by rw [hnone]; exact hadd, hlength, rfl⟩, ?_, ?_, content, hcontent,
      carried_request _ _ _ _⟩
    · rw [hstart, cstr_of_notMem hzero, cstr_of_notMem (hnot (by decide))]
      exact ⟨v, u, hv, hu, rfl, rfl⟩
    · exact ⟨st.m_Headers, rfl, (headers_carried_iff hheaders (fun _ _ _ => hnone) _).mpr hlookup⟩

/-- What is sent for a clean response, in lines. -/
theorem processOutbound_responseLine (parameters : Parameters) (info : Tm) {status : PyStr}
    {s : Bytes} (hstart : m.start = .response status) (hs : stdString status = some s)
    (hheaders : ∀ h ∈ m.headers, Clean h) (bytes : Bytes) :
    processOutbound parameters info (some (.dict m.entries)) = some bytes ↔
      ∃ body, m.body = some body ∧ bytes = endLine (statusLine s) ++
        ((sentLines none (m.sent info)).flatMap endLine ++ CR :: LF :: body) := by
  have hform (body : Bytes) :
      endLine (str "HTTP/1.1 " ++ s) ++ block (m.sent info) ++ [CR, LF] ++ body =
      endLine (statusLine s) ++ ((sentLines none (m.sent info)).flatMap endLine ++
        CR :: LF :: body) := by
    rw [← statusLine, flatMap_sentLines]
    simp only [List.append_assoc]
    rfl
  rw [Outgoing.processOutbound_response parameters info hstart hs hheaders,
    Option.map_eq_some_iff]
  simp only [hform, eq_comm (b := bytes)]

/-- A clean response goes round if what is found in its texts does no harm, and its data is all sent
and framed. -/
theorem roundTrips_response_iff {status : PyStr} (hstart : m.start = .response status)
    (hclean : m.start.Clean) (hheaders : ∀ h ∈ m.headers, Clean h) (hunbroken : m.Unbroken) :
    RoundTrips parameters info m ↔ m.Readable info ∧
      (∀ data ∈ m.data, Entire data) ∧ ∀ content ∈ m.content, m.Framed info content := by
  rw [hstart] at hclean
  obtain ⟨s, hs, hcode, hzero, hcr⟩ := hclean
  have hcodes := (statusCode_eq_iff s).mpr ⟨hzero, hcr⟩
  have htext : buildString (upTo (chr ' ') s) ≠ none := by
    obtain ⟨code, hcode⟩ := exists_asUTF8_upTo (by decide : chr ' ' < 128) hs
    rw [buildString_of_asUTF8 hcode]
    exact Option.some_ne_none _
  have hcstr : stdString status = some (cstr s) := congrArg (Option.map cstr) hs
  have hline : m.start.line = statusLine (cstr s) := by
    rw [hstart, Start.line, hcstr]
    rfl
  have hcontinues := @continues_readLines info m hheaders hunbroken none
  have hbytes := processOutbound_responseLine parameters info hstart hcstr hheaders
  have hattempt := attempt_responseLine_iff (hline ▸ hcontinues)
  have hextract := extractHeaders_lines_iff false hcontinues
  simp only [← hline, hcodes] at hattempt hbytes
  have hrequest : ∀ verb url, m.start = .request verb url →
      m.addedAuthorization parameters = none := by
    intro verb url hrequest
    rw [hstart] at hrequest
    cases hrequest
  rw [roundTrips_iff_attempt]
  constructor
  · rintro ⟨bytes, hsome, -, data, hdelivers, hcarries⟩
    obtain ⟨body, hbody, rfl⟩ := (hbytes bytes).mp hsome
    obtain ⟨hdangles, st, hadd, hprocess⟩ := (hattempt body data).mp hdelivers
    obtain ⟨⟨st', rest, hst', hdict⟩, -⟩ := delivered_entries hdelivers
    have hst := (hextract body st _).mpr ⟨hdangles, hadd, rfl⟩
    -- the headers that are delivered are those that were extracted
    obtain rfl : st = st' := congrArg Prod.fst (hst.symm.trans hst')
    obtain ⟨m_Headers, hdict', hcarried⟩ := hcarries.headers
    rw [hdict, Option.some.injEq, PyValue.dict.injEq] at hdict'
    subst hdict'
    rw [dangles_readLines_iff hheaders] at hdangles
    rw [readLines_none hheaders] at hadd
    rw [headers_carried_iff hheaders hrequest] at hcarried
    obtain ⟨content, hcontent, hsame⟩ := hcarries.content
    obtain ⟨hle, hentire⟩ := Outgoing.body_spec hbody hcontent
    obtain ⟨-, hchunked, hlength, rfl, hempty⟩ :=
      (processBody_blank_iff htext hle).mp ⟨data, hprocess, hsame⟩
    obtain ⟨hdeclared, hchunks⟩ := addAll_noted hadd
    refine ⟨(readable_iff hheaders).mpr ⟨hdangles, st, hadd, hcarried⟩, hentire.mp rfl,
      fun content' hcontent' => ?_⟩
    rw [hcontent, Option.mem_some_iff] at hcontent'
    simp only [Outgoing.Framed, hstart]
    rw [← hcontent', Outgoing.declared, ← hdeclared, ← Bool.false_or (declaredChunked _), ← hchunks,
      ← Bool.false_or (declaresJson _), ← addAll_json hadd]
    exact ⟨hlength, hchunked, hempty⟩
  · rintro ⟨hreadable, hentire, hframed⟩
    obtain ⟨content, hcontent, hbody⟩ := Outgoing.exists_body hentire
    obtain ⟨hdangles, st, hadd, hlookup⟩ := (readable_iff hheaders).mp hreadable
    obtain ⟨hdeclared, hchunks⟩ := addAll_noted hadd
    have hlength := hframed content hcontent
    simp only [Outgoing.Framed, hstart] at hlength
    rw [Outgoing.declared, ← hdeclared, ← Bool.false_or (declaredChunked _), ← hchunks,
      ← Bool.false_or (declaresJson _), ← addAll_json hadd] at hlength
    obtain ⟨data, hprocess, hcarried⟩ := (processBody_blank_iff htext (Nat.le_refl _)).mpr
      ⟨hcode, hlength.2.1, hlength.1, rfl, hlength.2.2⟩
    rw [← readLines_none hheaders] at hadd
    rw [← dangles_readLines_iff hheaders none] at hdangles
    have hdelivers := (hattempt content data).mpr ⟨hdangles, st, hadd, hprocess⟩
    have hst := (hextract content st _).mpr ⟨hdangles, hadd, rfl⟩
    obtain ⟨⟨st', rest, hst', hdict⟩, hstatus⟩ := delivered_entries hdelivers
    obtain rfl : st = st' := congrArg Prod.fst (hst.symm.trans hst')
    refine ⟨_, (hbytes _).mpr ⟨content, hbody, rfl⟩, by simp [endLine], data, hdelivers, ?_, ?_,
      content, hcontent, hcarried⟩
    · rw [hstart]
      rw [hline, upTo_statusLine, hcodes, cstr_of_notMem hzero] at hstatus
      rcases hstatus with ⟨-, -, -, hlookup'⟩ | ⟨hhttp, -⟩
      · exact ⟨s, hs, hlookup'⟩
      · exact absurd rfl hhttp
    · exact ⟨st.m_Headers, hdict, (headers_carried_iff hheaders hrequest _).mpr hlookup⟩

/-- What is sent of a clean message, in lines; what begins like a response is one, and has no
credentials. -/
theorem exists_sentLines {bytes : Bytes} (hclean : m.start.Clean)
    (hheaders : ∀ h ∈ m.headers, Clean h)
    (h : processOutbound parameters info (some (.dict m.entries)) = some bytes) :
    ∃ auth body, m.body = some body ∧
      (bytes.take 4 = str "HTTP" → auth = none ∧ ∃ status, m.start = .response status) ∧
      bytes = endLine m.start.line ++
        ((sentLines auth (m.sent info)).flatMap endLine ++ CR :: LF :: body) := by
  cases hstart : m.start with
  | request verb url =>
    rw [hstart] at hclean
    obtain ⟨⟨v, hv, ⟨hzero, -, -⟩, hhttp⟩, hurl⟩ := hclean
    obtain ⟨u, hu⟩ := Option.ne_none_iff_exists'.mp hurl
    have hstd : stdString (url.getD (pyStr "/")) = some (cstr u) := congrArg (Option.map cstr) hu
    obtain ⟨-, body, hbody, rfl⟩ := (processOutbound_requestLine parameters info hstart hv hzero
      hstd hheaders bytes).mp h
    refine ⟨m.addedAuthorization parameters, body, hbody, fun htake => ?_, ?_⟩
    · exact absurd ((take_requestLine v (cstr u) _).mp htake) hhttp
    · rw [Start.line, stdString_of_notMem hv hzero, hstd]
      rfl
  | response status =>
    rw [hstart] at hclean
    obtain ⟨s, hs, -⟩ := hclean
    have hcstr : stdString status = some (cstr s) := congrArg (Option.map cstr) hs
    obtain ⟨body, hbody, rfl⟩ :=
      (processOutbound_responseLine parameters info hstart hcstr hheaders bytes).mp h
    refine ⟨none, body, hbody, fun _ => ⟨rfl, status, rfl⟩, ?_⟩
    rw [Start.line, hcstr]
    rfl

/-- What is sent in front of the data has no NUL. -/
theorem zero_mem_of_taken (hheaders : ∀ h ∈ m.headers, Clean h) {auth : Option Bytes} {body : Bytes}
    (h : 0 ∈ taken (endLine m.start.line ++
      ((sentLines auth (m.sent info)).flatMap endLine ++ CR :: LF :: body))) : 0 ∈ body := by
  have hend {line : Bytes} (hline : 0 ∉ line) : 0 ∉ endLine line := by
    rw [endLine, List.mem_append, not_or]
    exact ⟨hline, by decide⟩
  have hmem := (taken_suffix _).subset h
  simp only [List.mem_append, List.mem_flatMap, List.mem_cons] at hmem
  rcases hmem with hmem | ⟨line, hline, hmem⟩ | hmem | hmem | hmem
  · exact absurd hmem (hend (zero_notMem_line m.start))
  · exact absurd hmem (hend (zero_notMem_sentLines hheaders auth line hline))
  · exact absurd hmem (by decide)
  · exact absurd hmem (by decide)
  · exact hmem

/-- A plain message that goes round has an unbroken block: what is taken for the body begins where
it does. -/
theorem unbroken_of_roundTrips (h : RoundTrips parameters info m) (hplain : m.Plain info) :
    m.Unbroken := by
  obtain ⟨bytes, hbytes, -, data, hdelivers, hcarries⟩ := roundTrips_iff_attempt.mp h
  have hheaders := headers_clean hdelivers hcarries
  have hclean := start_clean hbytes hdelivers hcarries
  obtain ⟨auth, body, hbody, hresponse, rfl⟩ := exists_sentLines hclean hheaders hbytes
  obtain ⟨content, hcontent, hcarried⟩ := hcarries.content
  have htaken := content_eq_taken hdelivers hcarried fun htake => by
    obtain ⟨rfl, status, hstart⟩ := hresponse htake
    have hsubset := bufferHeaders_subset m.start.line (sentLines none (m.sent info)) body
    rw [readLines_none hheaders] at hsubset
    have hwhole := hplain.whole status hstart
    rw [declaredChunked, List.any_eq_false] at hwhole ⊢
    exact fun e he => hwhole e (hsubset he)
  have hentire : ∀ data ∈ m.data, Entire data := by
    intro payload hpayload
    rw [Option.mem_def] at hpayload
    cases payload with
    | bytes s => exact hplain.short s (.inl hpayload)
    | bytearray s => exact hplain.short s (.inr hpayload)
    | str s =>
      rw [Outgoing.content, hpayload] at hcontent
      rw [Outgoing.body, hpayload] at hbody
      refine ⟨content, hcontent, fun hzero => ?_⟩
      -- a NUL of the text would be one of the body, which ends in front of it
      obtain ⟨b, -, rfl⟩ := Option.map_eq_some_iff.mp hbody
      rw [htaken] at hzero
      exact zero_notMem_cstr b (zero_mem_of_taken hheaders hzero)
  -- all data is sent, and no more than that is taken for the body
  have hsame := (Outgoing.body_spec hbody hcontent).2.mpr hentire
  rw [← hsame] at htaken
  have hcontinues := continues_of_taken_block (congrArg List.length htaken).ge
  exact fun line hline => hcontinues line (Outgoing.mem_readLines.mpr (.inl hline))

/-- **A message goes round exactly if** it is taken apart where it was put together, what is found
in its texts does no harm, and its data is all sent and framed; whether it is plain or not, if its
texts do not end the header block. -/
theorem roundTrips_iff_meets (parameters : Parameters) (info : Tm) (m : Outgoing) :
    RoundTrips parameters info m ∧ (m.Unbroken ∨ m.Plain info) ↔ Meets parameters info m := by
  constructor
  · rintro ⟨h, hor⟩
    have hunbroken := hor.elim id fun hplain => unbroken_of_roundTrips h hplain
    obtain ⟨bytes, hbytes, -, data, hdelivers, hcarries⟩ := roundTrips_iff_attempt.mp h
    have hheaders := headers_clean hdelivers hcarries
    have hclean := start_clean hbytes hdelivers hcarries
    cases hstart : m.start with
    | request verb url =>
      obtain ⟨hempty, hreadable, hentire, hframed⟩ :=
        (roundTrips_request_iff hstart hclean hheaders hunbroken).mp h
      exact ⟨hclean, hheaders, fun _ _ _ => hempty, hreadable, hentire, hframed⟩
    | response status =>
      obtain ⟨hreadable, hentire, hframed⟩ :=
        (roundTrips_response_iff hstart hclean hheaders hunbroken).mp h
      refine ⟨hclean, hheaders, fun verb url hrequest => ?_, hreadable, hentire, hframed⟩
      rw [hstart] at hrequest
      cases hrequest
  · rintro ⟨hclean, hheaders, hempty, hreadable, hentire, hframed⟩
    have hunbroken : m.Unbroken := fun line hline => .of_dangles (hreadable.dangles line hline)
    refine ⟨?_, .inl hunbroken⟩
    cases hstart : m.start with
    | request verb url =>
      exact (roundTrips_request_iff hstart hclean hheaders hunbroken).mpr
        ⟨hempty verb url hstart, hreadable, hentire, hframed⟩
    | response status =>
      exact (roundTrips_response_iff hstart hclean hheaders hunbroken).mpr
        ⟨hreadable, hentire, hframed⟩

end Sent

/-- A request without headers and data. -/
def getRequest : Outgoing where
  entries := [(pyStr "Verb", .str (pyStr "GET"))]
  start := .request (pyStr "GET") none
  headers := []
  data := none
  start_ok := by
    refine ⟨rfl, rfl, fun b hb => ?_, nofun⟩
    have hget : asUTF8 (pyStr "GET") = some (str "GET") := by decide
    rw [hget, Option.some.injEq] at hb
    rw [← hb]
    decide
  headers_ok := .inr ⟨rfl, rfl⟩
  keys_nodup := List.nodup_nil
  data_ok := rfl
  chunk_ok := rfl

theorem getRequest_clean : getRequest.start.Clean ∧ (∀ h ∈ getRequest.headers, Clean h) ∧
    getRequest.inner = [] := by
  have hget : asUTF8 (pyStr "GET") = some (str "GET") := by decide
  exact ⟨⟨⟨str "GET", hget, by decide, by decide⟩, by decide⟩, nofun, by decide⟩

example : Meets ⟨[], []⟩ epoch getRequest := by
  obtain ⟨hclean, hheaders, hinner⟩ := getRequest_clean
  refine ⟨hclean, hheaders, fun _ _ _ => ⟨rfl, rfl⟩, ⟨?_, ?_, ?_⟩, nofun, fun content _ => .inl rfl⟩
  · rw [hinner]
    exact List.forall_mem_nil _
  · rw [hinner]
    exact List.forall_mem_nil _
  · intro done e more hfound _ _
    have he : e ∈ getRequest.found epoch := hfound ▸ List.mem_append_right _ List.mem_cons_self
    obtain rfl := List.mem_singleton.mp (he : e ∈ [(str "User-Agent", str "Domoticz/1.0")])
    decide

/-- The credentials of a configured user: `Basic` arrives as `asic`. -/
theorem credentials_cut :
    getRequest.added ⟨pyStr "u", pyStr "p"⟩ epoch =
        [(str "Authorization", str "Basic dTpw"), (str "User-Agent", str "Domoticz/1.0")] ∧
      cutAuthorization (str "u:p") = (str "Authorization", str "asic dTpw") ∧
      ¬ ∀ parameters info m, RoundTrips parameters info m := by
  refine ⟨by decide, by decide, fun h => ?_⟩
  obtain ⟨hclean, hheaders, hinner⟩ := getRequest_clean
  have hunbroken : getRequest.Unbroken := by
    rw [Outgoing.Unbroken, hinner]
    exact List.forall_mem_nil _
  obtain ⟨⟨huser, -⟩, -⟩ := (roundTrips_request_iff rfl hclean hheaders hunbroken).mp
    (h ⟨pyStr "u", pyStr "p"⟩ epoch getRequest)
  exact absurd huser (by decide)

end Domoticz.Http
