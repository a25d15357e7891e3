import Domoticz.JsonStyledWriter

/-!
# Reading and writing JSON

A document that is read and written again, by either writer, is read as the same value.

## Main definitions

* `IsMade` — a value as the reader makes it.

## Main results

* `parse_isMade` — the reader makes no other values.
* `documents_of_value` — **the grammar is read, and no text of it has two meanings.**
* `write_round_trip` — **both writers keep every value that can be written.**
* `document_round_trip` — **what was read is kept.**
-/

namespace Domoticz.JsonWriter

open CLib JsonReader Text

/-- A value as the reader makes it, of at most so many levels. -/
structure IsMade (levels : ℕ) (v : Value) : Prop where
  writable : Writable levels v
  canonical_eq : canonical v = v

/-! ### Numbers -/

/-- The number of the digits is in range; the induction is on the digits. -/
theorem decodeDigits_le {maxIntegerValue value n : ℕ} {ds : Bytes}
    (h : decodeDigits maxIntegerValue value ds = some n) (hvalue : value ≤ maxIntegerValue) :
    n ≤ maxIntegerValue := by
  induction ds generalizing value with
  | nil =>
    rw [decodeDigits] at h
    exact Option.some.inj h ▸ hvalue
  | cons c ds ih =>
    rw [decodeDigits] at h
    simp only at h
    split at h
    · next hdigit =>
      have hle := digitValue_le hdigit
      split at h
      · cases h
      · next hover =>
        refine ih h ?_
        push Not at hover
        by_cases hthreshold : maxIntegerValue / 10 ≤ value
        · obtain ⟨hvalue', -, hlast⟩ := hover hthreshold
          omega
        · omega
    · cases h

theorem isMade_number {text : Bytes} {v : Value} (h : decodeNumber text = some v) (levels : ℕ) :
    IsMade (levels + 1) v := by
  unfold decodeNumber at h
  simp only at h
  split at h
  · obtain ⟨d, hd, rfl⟩ := Option.map_eq_some_iff.mp h
    exact ⟨Double.isFinite_of_readDouble hd, rfl⟩
  · next n hn =>
    split at h
    · next hnegative =>
      have hle : n ≤ 2 ^ 63 := by
        rw [if_pos hnegative] at hn
        exact decodeDigits_le hn (Nat.zero_le _)
      cases h
      exact ⟨⟨by omega, by omega⟩, if_pos (by omega)⟩
    · next hpositive =>
      have hle : n ≤ 2 ^ 64 - 1 := by
        rw [if_neg hpositive] at hn
        exact decodeDigits_le hn (Nat.zero_le _)
      split at h
      · next hsmall =>
        cases h
        exact ⟨⟨by omega, by omega⟩, if_pos (by omega)⟩
      · next hlarge =>
        cases h
        refine ⟨?_, if_neg hlarge⟩
        show n < 2 ^ 64
        omega

/-! ### Arrays and objects -/

/-- The names stay in their order. -/
theorem pairwise_setMember {members : List (Bytes × Value)}
    (h : (members.map Prod.fst).Pairwise (· < ·)) (name : Bytes) (v : Value) :
    ((setMember name v members).map Prod.fst).Pairwise (· < ·) := by
  induction members with
  | nil => exact List.pairwise_singleton _ _
  | cons m members ih =>
    obtain ⟨name', v'⟩ := m
    obtain ⟨hfirst, hmembers⟩ := List.pairwise_cons.mp h
    rw [setMember]
    split
    · next heq =>
      subst heq
      exact List.pairwise_cons.mpr ⟨hfirst, hmembers⟩
    · next hne =>
      split
      · next hlt =>
        refine List.pairwise_cons.mpr ⟨?_, h⟩
        intro n hn
        rcases List.mem_cons.mp hn with rfl | hn
        · exact hlt
        · exact List.lt_trans hlt (hfirst n hn)
      · next hge =>
        refine List.pairwise_cons.mpr ⟨?_, ih hmembers⟩
        intro n hn
        obtain ⟨m, hm, rfl⟩ := List.mem_map.mp hn
        rcases mem_setMember hm with rfl | hm
        · exact (List.le_iff_lt_or_eq.mp (List.not_lt.mp hge)).resolve_right (Ne.symm hne)
        · exact hfirst _ (List.mem_map_of_mem hm)

/-- Members as the reader makes them. -/
structure AreMade (levels : ℕ) (members : List (Bytes × Value)) : Prop where
  pairwise : (members.map Prod.fst).Pairwise (· < ·)
  isMade : ∀ m ∈ members, IsMade levels m.2

theorem AreMade.setMember {levels : ℕ} {members : List (Bytes × Value)} (h : AreMade levels members)
    {v : Value} (hv : IsMade levels v) (name : Bytes) :
    AreMade levels (setMember name v members) := by
  refine ⟨pairwise_setMember h.pairwise name v, ?_⟩
  intro m hm
  rcases mem_setMember hm with rfl | hm
  · exact hv
  · exact h.isMade m hm

theorem isMade_array {levels : ℕ} {items : List Value} (h : ∀ v ∈ items, IsMade levels v) :
    IsMade (levels + 1) (.array items) := by
  refine ⟨fun v hv => (h v hv).writable, ?_⟩
  rw [canonical, canonicalItems_eq, List.map_congr_left fun v hv => (h v hv).canonical_eq,
    List.map_id']

theorem isMade_object {levels : ℕ} {members : List (Bytes × Value)} (h : AreMade levels members) :
    IsMade (levels + 1) (.object members) := by
  refine ⟨⟨h.pairwise, fun m hm => (h.isMade m hm).writable⟩, ?_⟩
  have hsame : ∀ m ∈ members, (m.1, canonical m.2) = m := by
    intro m hm
    rw [(h.isMade m hm).canonical_eq]
  rw [canonical, canonicalMembers_eq, List.map_congr_left hsame, List.map_id']

section Loops

variable {element : (s : Bytes) → Except Failure (Parsed Value s)} {levels : ℕ}

theorem readElements_isMade (hall : ∀ s p, element s = .ok p → IsMade levels p.value) {s : Bytes}
    {p : Parsed (List Value) s} (h : readElements element s = .ok p) :
    ∀ v ∈ p.value, IsMade levels v := by
  fun_induction readElements element s with
  | case1 => cases h
  | case2 => cases h
  | case3 =>
    rename_i s first hfirst separator _ _ q hq ih
    cases h
    exact List.forall_mem_cons.mpr ⟨hall s first hfirst, ih hq⟩
  | case4 s first hfirst separator _ =>
    cases h
    exact List.forall_mem_cons.mpr ⟨hall s first hfirst, List.forall_mem_nil _⟩
  | case5 => cases h

theorem readArray_isMade (hall : ∀ s p, element s = .ok p → IsMade levels p.value) {s : Bytes}
    {p : Parsed (List Value) s} (h : readArray element s = .ok p) :
    ∀ v ∈ p.value, IsMade levels v := by
  unfold readArray at h
  split at h
  · split at h
    · cases h
      exact List.forall_mem_nil _
    · exact readElements_isMade hall h
  · exact readElements_isMade hall h

theorem readMembers_isMade (hall : ∀ s p, element s = .ok p → IsMade levels p.value)
    {last s : Bytes} {members : List (Bytes × Value)} {p : Parsed (List (Bytes × Value)) s}
    (hmembers : AreMade levels members) (h : readMembers element last members s = .ok p) :
    AreMade levels p.value := by
  fun_induction readMembers element last members s with
  | case1 => cases h
  | case2 =>
    cases h
    exact hmembers
  | case3 => cases h
  | case4 =>
    rename_i last members s name rest _ hname first hfirst comma _
    cases h
    exact hmembers.setMember (hall rest first hfirst) name
  | case5 => cases h
  | case6 =>
    rename_i last members s name rest _ hname first hfirst comma _ _ _ _ q hq ih
    have hq' := ih (hmembers.setMember (hall rest first hfirst) name) hq
    cases h
    exact hq'
  | case7 => cases h

end Loops

/-- The induction is on the levels that are left. -/
theorem readValue_isMade (levels : ℕ) (s : Bytes) (p : Parsed Value s)
    (h : readValue levels s = .ok p) : IsMade levels p.value := by
  induction levels generalizing s with
  | zero => cases h
  | succ levels ih =>
    unfold readValue at h
    simp only at h
    split at h
    · split at h
      · split at h
        · cases h
        · next q hq =>
          have hq' := readMembers_isMade ih ⟨List.Pairwise.nil, List.forall_mem_nil _⟩ hq
          cases h
          exact isMade_object hq'
      · split at h
        · cases h
        · next q hq =>
          have hq' := readArray_isMade ih hq
          cases h
          exact isMade_array hq'
      · split at h
        · next value hvalue =>
          cases h
          exact isMade_number hvalue levels
        · cases h
      · split at h
        · cases h
          exact ⟨trivial, rfl⟩
        · cases h
      · cases h
        exact ⟨trivial, rfl⟩
      · cases h
        exact ⟨trivial, rfl⟩
      · cases h
        exact ⟨trivial, rfl⟩
      · cases h
    · cases h

/-- The reader makes no other values. -/
theorem parse_isMade {document : Bytes} {v : Value} (h : parse document = .ok v) :
    IsMade stackLimit v := by
  unfold parse at h
  split at h
  · cases h
  · next p hp =>
    have hmade := readValue_isMade stackLimit document p hp
    cases h
    exact hmade

/-! ### Round trips -/

/-- **Every text of the grammar is read as what it denotes**, so it denotes one value only. -/
theorem documents_of_value {v : Value} {text ws rest : Bytes}
    (h : Spells stackLimit (.value v) text) (hws : IsSpace ws) (hrest : Stops rest) :
    parse (ws ++ (text ++ rest)) = .ok v ∧
      ∀ v', Spells stackLimit (.value v') text → v' = v := by
  have hread := parse_of_spells h hws hrest
  refine ⟨hread, fun v' h' => ?_⟩
  have hread' := parse_of_spells h' hws hrest
  exact Except.ok.inj (hread'.symm.trans hread)

/-- An array with blanks in it, in front of a comma. -/
theorem documents_of_value_array : parse ([0x20] ++ (str "[ 7 ]" ++ str ",")) =
    .ok (.array [.int 7]) := by
  have htext : Spells stackLimit (.value (.array [.int 7])) (str "[ 7 ]") :=
    .array (.item isSpace_blank (.number (integerText false 7) rfl) isSpace_blank)
  have hstops : Stops (str ",") := by
    intro c hc
    obtain rfl := Option.some.inj hc
    exact ⟨rfl, by decide, by decide, by decide⟩
  exact (documents_of_value htext isSpace_blank hstops).1

/-- **Both writers keep every value that can be written**, up to the types of its integers. -/
theorem write_round_trip (fast : FastWriter) (styled : StyledWriter)
    (hnull : fast.dropNullPlaceholders = false) {v : Value} (h : Writable stackLimit v) :
    parse (fast.write v) = .ok (canonical v) ∧
      (StyledWriter.NamesKept stackLimit v → parse (styled.write v) = .ok (canonical v)) :=
  ⟨FastWriter.parse_write hnull h, StyledWriter.parse_styled h⟩

/-- A name with a quote in it, and a number that is no integer. -/
theorem write_round_trip_object :
    let v : Value := .object [([0x22], .array [.uint 5, .real 0x3FB999999999999A])]
    parse (FastWriter.write {} v) = .ok (canonical v) ∧
      parse (StyledWriter.write v {}) = .ok (canonical v) := by
  intro v
  have hwritable : Writable stackLimit v := by
    refine ⟨List.pairwise_singleton _ _, fun m hm => ?_⟩
    obtain rfl := List.mem_singleton.mp hm
    exact List.forall_mem_cons.mpr ⟨by show 5 < 2 ^ 64; decide,
      List.forall_mem_cons.mpr ⟨by show Double.isFinite _ = true; decide, List.forall_mem_nil _⟩⟩
  obtain ⟨hfast, hstyled⟩ := write_round_trip {} {} rfl hwritable
  refine ⟨hfast, hstyled fun m hm => ?_⟩
  obtain rfl := List.mem_singleton.mp hm
  exact ⟨by decide, List.forall_mem_cons.mpr ⟨trivial, List.forall_mem_cons.mpr
    ⟨trivial, List.forall_mem_nil _⟩⟩⟩

/-- **What was read from a document is kept by both writers**, by `StyledWriter` if the document has
no slash: the comments of a document, which the reader keeps and this writer writes, are not modelled,
and there are none without one. -/
theorem document_round_trip (fast : FastWriter) (styled : StyledWriter)
    (hnull : fast.dropNullPlaceholders = false) {document : Bytes} {v : Value}
    (h : parse document = .ok v) :
    parse (fast.write v) = .ok v ∧
      (chr '/' ∉ document → StyledWriter.NamesKept stackLimit v →
        parse (styled.write v) = .ok v) := by
  obtain ⟨hwritable, hcanonical⟩ := parse_isMade h
  constructor
  · rw [FastWriter.parse_write hnull hwritable, hcanonical]
  · intro _ hnames
    rw [StyledWriter.parse_styled hwritable hnames, hcanonical]

theorem document_round_trip_array :
    parse (FastWriter.write {} (.array [.int 7])) = .ok (.array [.int 7]) ∧
      parse (StyledWriter.write (.array [.int 7]) {}) = .ok (.array [.int 7]) := by
  have htext : Spells stackLimit (.value (.array [.int 7])) (str "[ 7 ]") :=
    .array (.item isSpace_blank (.number (integerText false 7) rfl) isSpace_blank)
  have hread : parse ([] ++ (str "[ 7 ]" ++ [])) = .ok (.array [.int 7]) :=
    parse_of_spells htext isSpace_nil fun c hc => absurd hc (by simp)
  obtain ⟨hfast, hstyled⟩ := document_round_trip {} {} rfl hread
  exact ⟨hfast, hstyled (by decide) (List.forall_mem_singleton.mpr trivial)⟩

end Domoticz.JsonWriter
