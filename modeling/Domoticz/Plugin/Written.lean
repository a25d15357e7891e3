import Domoticz.JsonOutcome
import Domoticz.Plugin.PythonJsonWorth

/-!
# Reading what was written

An object that JSON has room for, with texts that need no escapes, is written as a text
that is read from its first byte to its last, wherever it stands in a document.  The only
texts that are not read are those of infinite and undefined floats.

## Main definitions

* `value` — the value that the text of an object stands for.
* `Reads` — a text is read as a value, or else not at all.

## Main results

* `exists_reads` — the text of an object is read as its value.
* `outcome_dict` — so is a whole document.
-/

namespace Domoticz.PythonJson

open CLib JsonReader Text

/-! ### What texts stand for -/

mutual

/-- The value that is read from the text of an object, if there is one. -/
def value : PyObject → Option Value
  | .str s => (asUTF8 s).map .string
  | .bool b => some (.bool b)
  | .int i => decodeNumber (decimal (asLong i))
  | .float d => (Double.readDouble (Double.toText d)).map .real
  | .list items => (valueItems items).map .array
  | .dict entries => (valueMembers [] entries).map .object
  | _ => none

/-- The items of a list as those of an array. -/
def valueItems : List PyObject → Option (List Value)
  | [] => some []
  | x :: items => (value x).bind fun v => (valueItems items).map (v :: ·)

/-- The members that are there, and those of the entries. -/
def valueMembers (members : List (Bytes × Value)) :
    List (PyStr × PyObject) → Option (List (Bytes × Value))
  | [] => some members
  | (key, x) :: entries =>
      (asUTF8 key).bind fun name => (value x).bind fun v =>
        valueMembers (setMember name v members) entries

end

/-- A text that starts with neither white space nor the end of a list. -/
def Solid (text : Bytes) : Prop := ∃ c t, text = c :: t ∧ isWhitespace c = false ∧ c ≠ chr ']'

/-- A text is read as a value, wherever it stands.  If it stands for none, nothing is read of it
or what follows is an error. -/
structure Reads (levels : ℕ) (text : Bytes) (v : Option Value) : Prop where
  solid : Solid text
  read : ∀ {v' s rest}, v = some v' → s.dropWhile isWhitespace = text ++ rest → Delimited rest →
    outcome (readValue levels s) = some (v', rest)
  fails : ∀ {s rest}, v = none → s.dropWhile isWhitespace = text ++ rest → Delimited rest →
    ∀ r ∈ outcome (readValue levels s), (readToken r.2).token = .error

theorem Solid.append {text : Bytes} (h : Solid text) (t : Bytes) : Solid (text ++ t) := by
  obtain ⟨c, u, rfl, hspace, hend⟩ := h
  exact ⟨c, u ++ t, rfl, hspace, hend⟩

theorem Solid.dropWhile {text : Bytes} (h : Solid text) (rest : Bytes) :
    (text ++ rest).dropWhile isWhitespace = text ++ rest := by
  obtain ⟨c, u, rfl, hspace, -⟩ := h
  exact dropWhile_of_solid hspace _

theorem Reads.of_outcome {levels : ℕ} {text : Bytes} {v : Option Value} (hsolid : Solid text)
    (h : ∀ s rest, s.dropWhile isWhitespace = text ++ rest → Delimited rest →
      outcome (readValue levels s) = v.map fun v => (v, rest)) : Reads levels text v := by
  constructor
  · exact hsolid
  · intro v' s rest hv hs hrest
    rw [h _ _ hs hrest, hv]
    rfl
  · intro s rest hv hs hrest r hr
    rw [h _ _ hs hrest, hv] at hr
    cases hr

/-! ### Texts and literals -/

theorem reads_str (levels : ℕ) {s : PyStr} (h : PlainText s) :
    ∃ text, PythontoJSON (.str s) = some text ∧ Reads (levels + 1) text (value (.str s)) := by
  obtain ⟨b, hb, hzero, hquote, hbackslash⟩ := h
  refine ⟨quote b, ?_, Reads.of_outcome ⟨_, _, rfl, rfl, by decide⟩ ?_⟩
  · rw [PythontoJSON, stdString_of_notMem hb hzero]
    rfl
  · intro s' rest hs _
    rw [quote, List.cons_append, List.append_assoc] at hs
    rw [outcome_readValue_of_cons levels hs (tokenOf_quote hquote hbackslash rest)
      (by simp), valueOf, decodeString_self hquote hbackslash, value, hb]
    rfl

theorem reads_bool (levels : ℕ) (b : Bool) :
    ∃ text, PythontoJSON (.bool b) = some text ∧ Reads (levels + 1) text (value (.bool b)) := by
  cases b with
  | false =>
    refine ⟨str "false", rfl, Reads.of_outcome ⟨_, _, rfl, rfl, by decide⟩ ?_⟩
    intro s rest hs _
    rw [@outcome_readValue_of_cons levels s (str "alse" ++ rest) rest (chr 'f') .false hs rfl
      (by decide)]
    rfl
  | true =>
    refine ⟨str "true", rfl, Reads.of_outcome ⟨_, _, rfl, rfl, by decide⟩ ?_⟩
    intro s rest hs _
    rw [@outcome_readValue_of_cons levels s (str "rue" ++ rest) rest (chr 't') .true hs rfl
      (by decide)]
    rfl

/-! ### Numbers -/

theorem solid_number {c : UInt8} (hc : JsonReader.isDigit c = true ∨ c = chr '-') (u : Bytes) :
    Solid (c :: u) := by
  have hne {b : UInt8} (hb : JsonReader.isDigit b = false) (hminus : b ≠ chr '-') : c ≠ b := by
    rintro rfl
    rcases hc with hc | hc
    · rw [hb] at hc
      cases hc
    · exact hminus hc
  refine ⟨c, u, rfl, ?_, hne rfl (by decide)⟩
  simp only [isWhitespace, Bool.or_eq_false_iff, beq_eq_false_iff_ne]
  exact ⟨⟨⟨hne rfl (by decide), hne rfl (by decide)⟩, hne rfl (by decide)⟩, hne rfl (by decide)⟩

/-- A number is read if its digits are. -/
theorem reads_number (levels : ℕ) {c : UInt8} {u : Bytes}
    (hc : JsonReader.isDigit c = true ∨ c = chr '-')
    (hu : ∀ rest, Delimited rest → readNumber (u ++ rest) = rest) :
    Reads (levels + 1) (c :: u) (decodeNumber (c :: u)) := by
  apply Reads.of_outcome (solid_number hc u)
  intro s rest hs hrest
  rw [outcome_readValue_of_cons levels hs (tokenOf_number hc (hu rest hrest)) (by simp), valueOf]

theorem reads_int (levels : ℕ) (i : ℤ) :
    ∃ text, PythontoJSON (.int i) = some text ∧ Reads (levels + 1) text (value (.int i)) := by
  refine ⟨decimal (asLong i), by rw [PythontoJSON], ?_⟩
  rw [value]
  cases asLong i with
  | ofNat n =>
    obtain ⟨hne, hall⟩ := numeral_toDigits n
    rw [decimal]
    obtain ⟨c, u, hcu⟩ := List.exists_cons_of_ne_nil hne
    rw [hcu] at hall ⊢
    rw [List.all_cons, Bool.and_eq_true] at hall
    exact reads_number levels (.inl hall.1) fun rest => readNumber_append hall.2
  | negSucc n =>
    rw [decimal]
    exact reads_number levels (.inr rfl) fun rest => readNumber_append (numeral_toDigits (n + 1)).2

/-- A text with a point is the text of a double. -/
theorem decodeNumber_point {text ds fraction : Bytes}
    (h : (if text.head? = some (chr '-') then text.drop 1 else text) =
      ds ++ chr '.' :: fraction) :
    decodeNumber text = (Double.readDouble text).map .real := by
  unfold decodeNumber
  simp only [decide_eq_true_eq, h, decodeDigits_point]

theorem reads_finite (levels : ℕ) {d : UInt64} (h : Double.isFinite d = true) :
    Reads (levels + 1) (Double.toText d) (value (.float d)) := by
  obtain ⟨s, whole, fraction, htext, ⟨hne, hall⟩, hfraction⟩ := Double.exists_parts h
  have hfraction' : fraction.all JsonReader.isDigit = true := hfraction
  rw [value]
  cases s with
  | negative =>
    have hcons : Double.toText d = chr '-' :: (whole ++ chr '.' :: fraction) := htext
    rw [← @decodeNumber_point _ whole fraction (by rw [hcons]; rfl), hcons]
    exact reads_number levels (.inr rfl) fun rest => readNumber_point hall hfraction'
  | positive =>
    obtain ⟨c, w, rfl⟩ := List.exists_cons_of_ne_nil hne
    have hcons : Double.toText d = c :: (w ++ chr '.' :: fraction) := htext
    rw [List.all_cons, Bool.and_eq_true] at hall
    have hminus : c ≠ chr '-' := by
      rintro rfl
      exact absurd hall.1 (by decide)
    rw [← @decodeNumber_point _ (c :: w) fraction
      (by rw [hcons, if_neg (by simpa using hminus)]; rfl), hcons]
    exact reads_number levels (.inl hall.1) fun rest => readNumber_point hall.2 hfraction'

/-- The texts of the other doubles. -/
theorem toText_of_not_finite {d : UInt64} (h : Double.isFinite d = false) :
    Double.toText d = str "inf" ∨ Double.toText d = str "-inf" ∨ Double.toText d = str "nan" ∨
      Double.toText d = str "-nan" := by
  unfold Double.isFinite at h
  unfold Double.toText
  split
  · next s _ =>
    cases s with
    | negative => exact .inr (.inl rfl)
    | positive => exact .inl rfl
  · split
    · exact .inr (.inr (.inl rfl))
    · exact .inr (.inr (.inr rfl))
  · next heq =>
    rw [heq] at h
    cases h
  · next heq =>
    rw [heq] at h
    cases h

/-- A word that is no literal. -/
theorem reads_word (levels : ℕ) {c : UInt8} {word : Bytes} (hsolid : Solid (c :: word))
    (h : ∀ rest, tokenOf c (word ++ rest) = (.error, word ++ rest)) :
    Reads (levels + 1) (c :: word) none := by
  apply Reads.of_outcome hsolid
  intro s rest hs _
  rw [outcome_readValue_of_cons levels hs (h rest) (by decide)]
  rfl

/-- The minus in front of such a word is a number of its own. -/
theorem reads_minus (levels : ℕ) {c : UInt8} {word : Bytes} (hsolid : Solid (c :: word))
    (h : ∀ rest, tokenOf c (word ++ rest) = (.error, word ++ rest))
    (hnumber : ∀ rest, readNumber (c :: word ++ rest) = c :: word ++ rest) :
    Reads (levels + 1) (chr '-' :: c :: word) none := by
  constructor
  · exact ⟨_, _, rfl, rfl, by decide⟩
  · intro v' s rest hv
    cases hv
  · intro s rest _ hs _ r hr
    have htoken : tokenOf (chr '-') ([] ++ (c :: word ++ rest)) =
        (.number [chr '-'], c :: word ++ rest) := tokenOf_number (.inr rfl) (hnumber rest)
    rw [outcome_readValue_of_cons levels hs htoken (by simp), valueOf] at hr
    obtain ⟨v, -, rfl⟩ := Option.map_eq_some_iff.mp hr
    -- the word behind the minus is no token
    have hdrop : (c :: word ++ rest).dropWhile isWhitespace = c :: (word ++ rest) :=
      hsolid.dropWhile rest
    rw [(readToken_of_cons hdrop).1, h rest]

theorem reads_float (levels : ℕ) (d : UInt64) :
    ∃ text, PythontoJSON (.float d) = some text ∧ Reads (levels + 1) text (value (.float d)) := by
  refine ⟨Double.toText d, by rw [PythontoJSON], ?_⟩
  cases hd : Double.isFinite d with
  | true => exact reads_finite levels hd
  | false =>
    have hinf : Solid (str "inf") := ⟨_, _, rfl, rfl, by decide⟩
    have hnan : Solid (str "nan") := ⟨_, _, rfl, rfl, by decide⟩
    rw [value]
    rcases toText_of_not_finite hd with h | h | h | h
    · rw [h]
      exact reads_word levels hinf fun rest => rfl
    · rw [h]
      exact reads_minus levels hinf (fun rest => rfl) fun rest => rfl
    · rw [h]
      exact reads_word levels hnan fun rest => rfl
    · rw [h]
      exact reads_minus levels hnan (fun rest => rfl) fun rest => rfl

/-! ### Lists -/

theorem setLast_append (c d : UInt8) (s : Bytes) : setLast c (s ++ [d]) = s ++ [c] := by
  rw [setLast, List.dropLast_concat]

section

variable {levels : ℕ}

/-- Where an item is not read, the list is not. -/
theorem behindItem_error {v : Value} {rest : Bytes} (h : (readToken rest).token = .error) :
    behindItem (readValue levels) v rest = none := by
  have hne : (readToken rest).token ≠ .comment := by
    rw [h]
    simp
  rw [behindItem, skipComments_of_ne hne, h]

theorem behindMember_error {name : Bytes} {members : List (Bytes × Value)} {rest : Bytes}
    (h : (readToken rest).token = .error) :
    behindMember (readValue levels) name members rest = none := by
  have hne : (readToken rest).token ≠ .comment := by
    rw [h]
    simp
  rw [behindMember, skipComments_of_ne hne, h, if_neg (by simp), if_neg (by simp)]

/-- The items of a list with commas between them; the induction is on the items. -/
theorem reads_items {items : List PyObject}
    (hitems : ∀ x ∈ items, ∃ text, PythontoJSON x = some text ∧ Reads levels text (value x))
    (hne : items ≠ []) : ∃ texts, itemTexts items = some (texts ++ [chr ',']) ∧ Solid texts ∧
      ∀ s rest, s.dropWhile isWhitespace = texts ++ chr ']' :: rest →
        outcome (readElements (readValue levels) s) =
          (valueItems items).map fun vs => (vs, rest) := by
  induction items with
  | nil => exact absurd rfl hne
  | cons x items ih =>
    obtain ⟨⟨text, htext, hreads⟩, hrest⟩ := List.forall_mem_cons.mp hitems
    -- an item that cannot be read ends the array
    have hnone {s rest : Bytes} (hv : value x = none)
        (hs : s.dropWhile isWhitespace = text ++ rest) (hdelimited : Delimited rest) :
        (outcome (readValue levels s)).bind
          (fun p => behindItem (readValue levels) p.1 p.2) = none := by
      rw [Option.bind_eq_none_iff]
      intro r hr
      exact behindItem_error (hreads.fails hv hs hdelimited r hr)
    cases items with
    | nil =>
      refine ⟨text, by rw [itemTexts, htext]; rfl, hreads.solid, ?_⟩
      intro s rest hs
      -- the last item, with the bracket behind it
      have hdelimited : Delimited (chr ']' :: rest) := ⟨_, _, rfl, .inr (.inl rfl)⟩
      rw [outcome_readElements, valueItems]
      cases hv : value x with
      | none => exact hnone hv hs hdelimited
      | some v =>
        obtain ⟨htoken, hbehind⟩ := @skipComments_punctuation (chr ']' :: rest) rest (chr ']')
          .arrayEnd rfl rfl (by decide)
        rw [hreads.read hv hs hdelimited]
        show behindItem (readValue levels) v (chr ']' :: rest) = _
        rw [behindItem, htoken, hbehind]
        rfl
    | cons y items =>
      -- an item with a comma behind it
      obtain ⟨texts, htexts, hsolid, hread⟩ := ih hrest (List.cons_ne_nil y items)
      refine ⟨text ++ chr ',' :: texts, ?_, hreads.solid.append _, ?_⟩
      · rw [itemTexts, htext, htexts, List.append_assoc]
        rfl
      · intro s rest hs
        rw [List.append_assoc, List.cons_append] at hs
        have hdelimited : Delimited (chr ',' :: (texts ++ chr ']' :: rest)) :=
          ⟨_, _, rfl, .inl rfl⟩
        rw [outcome_readElements, valueItems]
        cases hv : value x with
        | none => exact hnone hv hs hdelimited
        | some v =>
          obtain ⟨htoken, hbehind⟩ := @skipComments_punctuation
            (chr ',' :: (texts ++ chr ']' :: rest)) (texts ++ chr ']' :: rest) (chr ',')
            .arraySeparator rfl rfl (by decide)
          rw [hreads.read hv hs hdelimited]
          show behindItem (readValue levels) v (chr ',' :: (texts ++ chr ']' :: rest)) = _
          rw [behindItem, htoken, hbehind, hread _ rest (hsolid.dropWhile _), Option.map_map,
            Option.bind_some, Option.map_map]
          rfl

theorem reads_list {items : List PyObject}
    (hitems : ∀ x ∈ items, ∃ text, PythontoJSON x = some text ∧ Reads levels text (value x)) :
    ∃ text, PythontoJSON (.list items) = some text ∧
      Reads (levels + 1) text (value (.list items)) := by
  rw [value]
  by_cases hne : items = []
  · subst hne
    refine ⟨str "[]", rfl, Reads.of_outcome ⟨_, _, rfl, rfl, by decide⟩ ?_⟩
    intro s rest hs _
    rw [@outcome_readValue_of_cons levels s (chr ']' :: rest) (chr ']' :: rest) (chr '[')
      .arrayBegin hs rfl (by decide), valueOf,
      outcome_readArray_nil (readValue levels) (t := rest) rfl]
    rfl
  · obtain ⟨texts, htexts, hsolid, hread⟩ := reads_items hitems hne
    refine ⟨str "[ " ++ texts ++ [chr ']'], ?_,
      Reads.of_outcome ⟨_, _, rfl, rfl, by decide⟩ ?_⟩
    · rw [PythontoJSON, htexts, Option.map_some, ← List.append_assoc, setLast_append]
    · intro s rest hs _
      have hs' : s.dropWhile isWhitespace =
          chr '[' :: (chr ' ' :: (texts ++ chr ']' :: rest)) := by
        rw [hs, List.append_assoc, List.append_assoc]
        rfl
      have hdrop : (chr ' ' :: (texts ++ chr ']' :: rest)).dropWhile isWhitespace =
          texts ++ chr ']' :: rest := hsolid.dropWhile _
      obtain ⟨c, t, rfl, -, hc⟩ := hsolid
      rw [@outcome_readValue_of_cons levels s _ _ _ .arrayBegin hs' rfl (by decide), valueOf,
        outcome_readArray (readValue levels) hdrop hc, hread _ rest hdrop, Option.map_map,
        Option.map_map]
      rfl

/-! ### Dictionaries -/

/-- The key of an entry with its colon. -/
theorem outcome_readName_quote {last s b rest : Bytes} (hquote : 0x22 ∉ b) (hbackslash : 0x5C ∉ b)
    (hs : s.dropWhile isWhitespace = quote b ++ (str " :" ++ rest)) :
    outcome (readName last s) = some (some b, rest) := by
  rw [quote, List.cons_append, List.append_assoc] at hs
  have htoken := tokenOf_quote hquote hbackslash (str " :" ++ rest)
  obtain ⟨hname, hbehind⟩ := skipComments_of_cons hs (by
    rw [List.singleton_append, htoken]
    simp)
  rw [List.singleton_append, htoken] at hname hbehind
  dsimp only at hname hbehind
  obtain ⟨hcolon, hrest⟩ := readToken_of_cons (s := str " :" ++ rest) (c := chr ':') (t := rest) rfl
  rw [← hbehind] at hcolon hrest
  exact outcome_readName hname (decodeString_self hquote hbackslash) hcolon hrest

/-- The entries of a dictionary with commas between them; the induction is on the entries. -/
theorem reads_entries {entries : PyDict}
    (hentries : ∀ e ∈ entries, PlainText e.1 ∧
      ∃ text, PythontoJSON e.2 = some text ∧ Reads levels text (value e.2))
    (hne : entries ≠ []) : ∃ texts, entryTexts entries = some (texts ++ [chr ',']) ∧
      Solid texts ∧ ∀ last members s rest,
        s.dropWhile isWhitespace = texts ++ chr '\x7d' :: rest →
        outcome (readMembers (readValue levels) last members s) =
          (valueMembers members entries).map fun ms => (ms, rest) := by
  induction entries with
  | nil => exact absurd rfl hne
  | cons e entries ih =>
    obtain ⟨key, x⟩ := e
    obtain ⟨⟨⟨b, hb, hzero, hquote, hbackslash⟩, text, htext, hreads⟩, hrest⟩ :=
      List.forall_mem_cons.mp hentries
    have hkey : stdString key = some b := stdString_of_notMem hb hzero
    have hsolid : Solid (quote b ++ (str " :" ++ text)) := ⟨_, _, rfl, rfl, by decide⟩
    -- what is made of the entry, given what is behind it
    have hstep (last : Bytes) (members : List (Bytes × Value)) (s rest : Bytes)
        (hs : s.dropWhile isWhitespace = quote b ++ (str " :" ++ text) ++ rest)
        (hdelimited : Delimited rest) :
        outcome (readMembers (readValue levels) last members s) = (value x).bind fun v =>
          behindMember (readValue levels) b (setMember b v members) rest := by
      rw [List.append_assoc, List.append_assoc] at hs
      rw [outcome_readMembers, outcome_readName_quote hquote hbackslash hs]
      simp only [Option.bind_some]
      have hdrop := hreads.solid.dropWhile rest
      cases hv : value x with
      | none =>
        rw [Option.bind_none, Option.bind_eq_none_iff]
        intro r hr
        exact behindMember_error (hreads.fails hv hdrop hdelimited r hr)
      | some v =>
        rw [hreads.read hv hdrop hdelimited]
        rfl
    cases entries with
    | nil =>
      refine ⟨quote b ++ (str " :" ++ text), ?_, hsolid, ?_⟩
      · rw [entryTexts, hkey, htext]
        simp only [Option.bind_some, entryTexts, Option.map_some, List.append_assoc]
      · intro last members s rest hs
        obtain ⟨htoken, hbehind⟩ := @skipComments_punctuation (chr '\x7d' :: rest) rest (chr '\x7d')
          .objectEnd rfl rfl (by decide)
        rw [hstep last members s _ hs ⟨_, _, rfl, .inr (.inr rfl)⟩, valueMembers, hb]
        cases value x with
        | none => rfl
        | some v =>
          show behindMember (readValue levels) b (setMember b v members) _ = _
          rw [behindMember, htoken, hbehind]
          rfl
    | cons e entries =>
      obtain ⟨texts, htexts, hsolid', hread⟩ := ih hrest (List.cons_ne_nil e entries)
      refine ⟨quote b ++ (str " :" ++ text) ++ chr ',' :: texts, ?_, hsolid.append _, ?_⟩
      · rw [entryTexts, hkey, htext, htexts]
        simp only [Option.bind_some, Option.map_some, List.append_assoc, List.cons_append]
      · intro last members s rest hs
        rw [List.append_assoc _ (chr ',' :: texts), List.cons_append] at hs
        obtain ⟨htoken, hbehind⟩ := @skipComments_punctuation
          (chr ',' :: (texts ++ chr '\x7d' :: rest)) (texts ++ chr '\x7d' :: rest) (chr ',')
          .arraySeparator rfl rfl (by decide)
        rw [hstep last members s _ hs ⟨_, _, rfl, .inl rfl⟩, valueMembers, hb]
        cases value x with
        | none => rfl
        | some v =>
          show behindMember (readValue levels) b (setMember b v members) _ = _
          rw [behindMember, htoken, hbehind, hread _ _ _ rest (hsolid'.dropWhile _)]
          rfl

/-- A dictionary, alone or in front of something. -/
theorem outcome_dict {entries : PyDict}
    (hentries : ∀ e ∈ entries, PlainText e.1 ∧
      ∃ text, PythontoJSON e.2 = some text ∧ Reads levels text (value e.2)) :
    ∃ text, PythontoJSON (.dict entries) = some text ∧ Solid text ∧
      ∀ s rest, s.dropWhile isWhitespace = text ++ rest →
        outcome (readValue (levels + 1) s) =
          (value (.dict entries)).map fun v => (v, rest) := by
  rw [value]
  by_cases hne : entries = []
  · subst hne
    refine ⟨str "\x7b\x7d", rfl, ⟨_, _, rfl, rfl, by decide⟩, ?_⟩
    intro s rest hs
    obtain ⟨htoken, hbehind⟩ := @skipComments_punctuation (chr '\x7d' :: rest) rest (chr '\x7d')
      .objectEnd rfl rfl (by decide)
    rw [@outcome_readValue_of_cons levels s (chr '\x7d' :: rest) (chr '\x7d' :: rest)
      (chr '\x7b') .objectBegin hs rfl (by decide), valueOf,
      outcome_readMembers, outcome_readName_nil htoken, hbehind]
    rfl
  · obtain ⟨texts, htexts, hsolid, hread⟩ := reads_entries hentries hne
    refine ⟨str "\x7b " ++ texts ++ [chr '\x7d'], ?_, ⟨_, _, rfl, rfl, by decide⟩, ?_⟩
    · rw [PythontoJSON, htexts, Option.map_some, ← List.append_assoc, setLast_append]
    · intro s rest hs
      have hs' : s.dropWhile isWhitespace =
          chr '\x7b' :: (chr ' ' :: (texts ++ chr '\x7d' :: rest)) := by
        rw [hs, List.append_assoc, List.append_assoc]
        rfl
      have hdrop : (chr ' ' :: (texts ++ chr '\x7d' :: rest)).dropWhile isWhitespace =
          texts ++ chr '\x7d' :: rest := hsolid.dropWhile _
      rw [@outcome_readValue_of_cons levels s _ _ _ .objectBegin hs' rfl (by decide), valueOf,
        hread _ _ _ rest hdrop, Option.map_map, Option.map_map]
      rfl

end

/-- The text of an object is read as its value; the induction is on the levels. -/
theorem exists_reads {levels : ℕ} {inList : Bool} {x : PyObject} (hfits : Fits levels inList x)
    (hplain : Plain levels x) :
    ∃ text, PythontoJSON x = some text ∧ Reads levels text (value x) := by
  induction levels generalizing inList x with
  | zero => cases hfits
  | succ levels ih =>
    cases x with
    | none => cases hfits
    | bytes s => cases hfits
    | bytearray s => cases hfits
    | tuple items => cases hfits
    | bool b => exact reads_bool levels b
    | int i => exact reads_int levels i
    | float d => exact reads_float levels d
    | str s => exact reads_str levels hplain
    | list items => exact reads_list fun x hx => ih (hfits x hx) (hplain x hx)
    | dict entries =>
      have hentries : ∀ e ∈ entries, PlainText e.1 ∧
          ∃ text, PythontoJSON e.2 = some text ∧ Reads levels text (value e.2) :=
        fun e he => ⟨(hplain e he).1, ih (hfits e he) (hplain e he).2⟩
      obtain ⟨text, htext, hsolid, houtcome⟩ := outcome_dict hentries
      exact ⟨text, htext, Reads.of_outcome hsolid fun s rest hs _ => houtcome s rest hs⟩

end Domoticz.PythonJson
