import Domoticz.JsonWriter

/-!
# Writing JSON for people

`Json::StyledWriter` in `json_writer.cpp`, which writes the items of an array on one line if
they fit and every other value on a line of its own.  Comments of values are left out.

## Main definitions

* `StyledWriter`, with the text so far, the indentation and the texts of the items.
* `writeValue`, `write` — values.

## Main results

* `writes_value` — what is written of a value is white space and a text of the grammar.
* `parse_styled` — **the reader cannot tell what is written from what `FastWriter` writes.**
-/

namespace Domoticz.JsonWriter

open CLib JsonReader Text

/-- `valueToQuotedString`, which ends at the first NUL. -/
def valueToQuotedString (value : Bytes) : Bytes := valueToQuotedStringN (cstr value)

/-- `Json::StyledWriter`.  The comments that the reader keeps with a value are left out: what it
writes is here that of a value without any. -/
structure StyledWriter where
  childValues : List Bytes := []
  document : Bytes := []
  indentString : Bytes := []
  rightMargin : ℕ := 74
  indentSize : ℕ := 3
  addChildValues : Bool := false

/-- A value that `isMultineArray` does not put on a line. -/
def isNested : Value → Bool
  | .array items => !items.isEmpty
  | .object members => !members.isEmpty
  | _ => false

namespace StyledWriter

/-- `document_ += text`. -/
def put (text : Bytes) (w : StyledWriter) : StyledWriter := { w with document := w.document ++ text }

/-- `StyledWriter::pushValue`. -/
def pushValue (value : Bytes) (w : StyledWriter) : StyledWriter :=
  if w.addChildValues then { w with childValues := w.childValues ++ [value] } else w.put value

/-- What `writeIndent` puts behind the document. -/
def indentation (w : StyledWriter) : Bytes :=
  w.document.getLast?.elim w.indentString fun last =>
    if last = 0x20 then []
    else if last ≠ 0x0A then 0x0A :: w.indentString
    else w.indentString

/-- `StyledWriter::writeIndent`. -/
def writeIndent (w : StyledWriter) : StyledWriter := w.put w.indentation

/-- `StyledWriter::writeWithIndent`. -/
def writeWithIndent (value : Bytes) (w : StyledWriter) : StyledWriter := w.writeIndent.put value

/-- `StyledWriter::indent`. -/
def indent (w : StyledWriter) : StyledWriter :=
  { w with indentString := w.indentString ++ List.replicate w.indentSize 0x20 }

/-- `StyledWriter::unindent`. -/
def unindent (w : StyledWriter) : StyledWriter :=
  { w with indentString := w.indentString.take (w.indentString.length - w.indentSize) }

/-- `isMultineArray`; `each` is the loop that writes the items into `childValues_` and adds up
their lengths. -/
def isMultineArray (each : ℕ → StyledWriter → ℕ × StyledWriter) (items : List Value)
    (w : StyledWriter) : Bool × StyledWriter :=
  let isMultiLine := w.rightMargin ≤ items.length * 3 || items.any isNested
  let w := { w with childValues := [] }
  if isMultiLine then (true, w)
  else
    let r := each (4 + (items.length - 1) * 2) { w with addChildValues := true }
    (r.2.rightMargin ≤ r.1, { r.2 with addChildValues := false })

/-- The texts of the items on one line. -/
def oneLine (w : StyledWriter) (size : ℕ) : Bytes :=
  (List.range size).flatMap fun index =>
    (if 0 < index then str ", " else []) ++ w.childValues.getD index []

/-- `writeArrayValue`; `elements` is the loop that writes each item on a line, its text from
`childValues_` if there are any. -/
def writeArrayValue (each : ℕ → StyledWriter → ℕ × StyledWriter)
    (elements : Bool → StyledWriter → StyledWriter) (items : List Value) (w : StyledWriter) :
    StyledWriter :=
  if items = [] then w.pushValue (str "[]")
  else
    let r := isMultineArray each items w
    if r.1 then
      let w := (r.2.writeWithIndent (str "[")).indent
      (elements (w.childValues != []) w).unindent.writeWithIndent (str "]")
    else ((r.2.put (str "[ ")).put (r.2.oneLine items.length)).put (str " ]")

mutual

/-- `StyledWriter::writeValue`. -/
def writeValue : Value → StyledWriter → StyledWriter
  | .null, w => w.pushValue (str "null")
  | .int value, w => w.pushValue (valueToString value)
  | .uint value, w => w.pushValue (valueToStringUInt value)
  | .real value, w => w.pushValue (valueToStringReal value)
  | .string value, w => w.pushValue (valueToQuotedStringN value)
  | .bool value, w => w.pushValue (if value then str "true" else str "false")
  | .array items, w =>
      writeArrayValue (fun lineLength w => writeEach 0 lineLength items w)
        (fun hasChildValue w => writeElements hasChildValue 0 items w) items w
  | .object members, w =>
      if members = [] then w.pushValue (str "\x7b\x7d")
      else
        (writeMembers members (w.writeWithIndent (str "\x7b")).indent).unindent.writeWithIndent
          (str "\x7d")

/-- The loop of `isMultineArray`. -/
def writeEach (index lineLength : ℕ) : List Value → StyledWriter → ℕ × StyledWriter
  | [], w => (lineLength, w)
  | value :: items, w =>
      let w := writeValue value w
      writeEach (index + 1) (lineLength + (w.childValues.getD index []).length) items w

/-- The loop of `writeArrayValue` with a line for each item. -/
def writeElements (hasChildValue : Bool) (index : ℕ) : List Value → StyledWriter → StyledWriter
  | [], w => w
  | value :: items, w =>
      let w :=
        if hasChildValue then w.writeWithIndent (w.childValues.getD index [])
        else writeValue value w.writeIndent
      if items = [] then w else writeElements hasChildValue (index + 1) items (w.put (str ","))

/-- The loop over the members. -/
def writeMembers : List (Bytes × Value) → StyledWriter → StyledWriter
  | [], w => w
  | (name, value) :: members, w =>
      let w := writeValue value ((w.writeWithIndent (valueToQuotedString name)).put (str " : "))
      if members = [] then w else writeMembers members (w.put (str ","))

end

/-- `StyledWriter::write`. -/
def write (root : Value) (w : StyledWriter) : Bytes :=
  ((writeValue root { w with document := [], addChildValues := false, indentString := [] }).put
    (str "\n")).document

/-! ### What is written -/

/-- A writer with a text behind its document; the texts of the items may have changed. -/
structure Wrote (text : Bytes) (w w' : StyledWriter) : Prop where
  document : w'.document = w.document ++ text
  indentString : w'.indentString = w.indentString
  indentSize : w'.indentSize = w.indentSize
  addChildValues : w'.addChildValues = w.addChildValues

theorem wrote_put (text : Bytes) (w : StyledWriter) : Wrote text w (w.put text) := ⟨rfl, rfl, rfl, rfl⟩

theorem Wrote.trans {s t : Bytes} {w w' w'' : StyledWriter} (h : Wrote s w w')
    (h' : Wrote t w' w'') : Wrote (s ++ t) w w'' := by
  refine ⟨?_, h'.indentString.trans h.indentString, h'.indentSize.trans h.indentSize,
    h'.addChildValues.trans h.addChildValues⟩
  rw [h'.document, h.document, List.append_assoc]

/-- Between values: the indentation is white space, and values go into the document. -/
structure Ready (w : StyledWriter) : Prop where
  isSpace : IsSpace w.indentString
  addChildValues : w.addChildValues = false

theorem Wrote.ready {text : Bytes} {w w' : StyledWriter} (h : Wrote text w w') (hw : Ready w) :
    Ready w' :=
  ⟨h.indentString ▸ hw.isSpace, h.addChildValues.trans hw.addChildValues⟩

theorem isSpace_indentation {w : StyledWriter} (hw : Ready w) : IsSpace w.indentation := by
  unfold indentation
  cases w.document.getLast? with
  | none => exact hw.isSpace
  | some last =>
    rw [Option.elim_some]
    split_ifs
    · exact isSpace_nil
    · exact List.forall_mem_cons.mpr ⟨rfl, hw.isSpace⟩
    · exact hw.isSpace

theorem wrote_writeWithIndent (value : Bytes) (w : StyledWriter) :
    Wrote (w.indentation ++ value) w (w.writeWithIndent value) :=
  (wrote_put _ w).trans (wrote_put _ _)

theorem isSpace_blanks (k : ℕ) : IsSpace (List.replicate k 0x20) := by
  intro b hb
  rw [List.eq_of_mem_replicate hb]
  rfl

theorem ready_indent {w : StyledWriter} (hw : Ready w) : Ready w.indent := by
  refine ⟨?_, hw.addChildValues⟩
  intro b hb
  rcases List.mem_append.mp hb with hb | hb
  · exact hw.isSpace b hb
  · exact isSpace_blanks _ b hb

/-- What is written one level further in. -/
theorem Wrote.unindent {text : Bytes} {w w' : StyledWriter} (h : Wrote text w.indent w') :
    Wrote text w w'.unindent := by
  refine ⟨h.document, ?_, h.indentSize, h.addChildValues⟩
  show w'.indentString.take (w'.indentString.length - w'.indentSize) = w.indentString
  rw [h.indentString, h.indentSize]
  simp only [indent, List.length_append, List.length_replicate, Nat.add_sub_cancel, List.take_left']

/-- How a value is written: into `childValues_`, or into the document. -/
structure Writes (levels : ℕ) (v : Value) : Prop where
  pushed : isNested v = false → ∀ w : StyledWriter, w.addChildValues = true →
    ∃ t, writeValue v w = { w with childValues := w.childValues ++ [t] } ∧
      Spells levels (.value (canonical v)) t
  wrote : ∀ w : StyledWriter, Ready w → ∃ ws t, Wrote (ws ++ t) w (writeValue v w) ∧
    IsSpace ws ∧ Spells levels (.value (canonical v)) t

/-- A value that is a single text. -/
theorem writes_of_push {levels : ℕ} {v : Value} {t : Bytes}
    (hwrite : ∀ w, writeValue v w = pushValue t w) (h : Spells levels (.value (canonical v)) t) :
    Writes levels v := by
  constructor
  · intro _ w hw
    refine ⟨t, ?_, h⟩
    rw [hwrite, pushValue, if_pos hw]
  · intro w hw
    refine ⟨[], t, ?_, isSpace_nil, h⟩
    rw [hwrite, pushValue, hw.addChildValues]
    exact wrote_put t w

section Loops

variable {levels : ℕ}

/-- The texts of items. -/
def Texts (levels : ℕ) : List Value → List Bytes → Prop :=
  List.Forall₂ fun v t => Spells levels (.value (canonical v)) t

/-- The items without the nested ones are written into `childValues_`. -/
theorem exists_texts {items : List Value} (h : ∀ v ∈ items, Writes levels v)
    (hnested : ∀ v ∈ items, isNested v = false) (index lineLength : ℕ) {w : StyledWriter}
    (hw : w.addChildValues = true) : ∃ texts, Texts levels items texts ∧
      (writeEach index lineLength items w).2 = { w with childValues := w.childValues ++ texts } := by
  induction items generalizing index lineLength w with
  | nil => exact ⟨[], .nil, by rw [writeEach, List.append_nil]⟩
  | cons v items ih =>
    obtain ⟨hv, hitems⟩ := List.forall_mem_cons.mp h
    obtain ⟨hleaf, hleaves⟩ := List.forall_mem_cons.mp hnested
    obtain ⟨t, hwrite, ht⟩ := hv.pushed hleaf w hw
    obtain ⟨texts, htexts, hrest⟩ := ih hitems hleaves (index + 1)
      (lineLength + ((writeValue v w).childValues.getD index []).length)
      (w := writeValue v w) (by rw [hwrite]; exact hw)
    refine ⟨t :: texts, .cons ht htexts, ?_⟩
    rw [writeEach, hrest, hwrite, List.append_assoc]
    rfl

/-- The items from `childValues_`, each on a line; the induction is on the items. -/
theorem wrote_childValues {items : List Value} {texts : List Bytes}
    (h : Texts levels items texts) (hne : items ≠ []) {index : ℕ} {w : StyledWriter}
    (hw : Ready w) (hvalues : w.childValues.drop index = texts) :
    ∃ text, Wrote text w (writeElements true index items w) ∧
      Spells levels (.items (canonicalItems items)) text := by
  induction h generalizing index w with
  | nil => exact absurd rfl hne
  | @cons v t items texts ht htexts ih =>
    have hget : w.childValues.getD index [] = t := by
      rw [List.getD_eq_getElem?_getD, ← List.head?_drop, hvalues]
      rfl
    have hline := wrote_writeWithIndent t w
    have hspace := isSpace_indentation hw
    rw [writeElements, hget]
    cases htexts with
    | nil =>
      refine ⟨_, hline, ?_⟩
      have hitem := Spells.item hspace ht isSpace_nil
      rwa [List.append_nil] at hitem
    | @cons v' t' items texts ht' htexts' =>
      have hcomma := hline.trans (wrote_put (str ",") _)
      have hdrop : ((w.writeWithIndent t).put (str ",")).childValues.drop (index + 1) =
          t' :: texts := by
        rw [← List.drop_drop, show ((w.writeWithIndent t).put (str ",")).childValues =
          w.childValues from rfl, hvalues]
        rfl
      obtain ⟨text, hrest, hspells⟩ := ih (List.cons_ne_nil _ _) (hcomma.ready hw) hdrop
      refine ⟨_, hcomma.trans hrest, ?_⟩
      have hitems := Spells.items hspace ht isSpace_nil hspells
      rw [List.append_assoc, List.append_assoc]
      exact hitems

/-- The items one after the other, each on a line; the induction is on the items. -/
theorem wrote_elements {items : List Value} (h : ∀ v ∈ items, Writes levels v) (hne : items ≠ [])
    (index : ℕ) {w : StyledWriter} (hw : Ready w) :
    ∃ text, Wrote text w (writeElements false index items w) ∧
      Spells levels (.items (canonicalItems items)) text := by
  induction items generalizing index w with
  | nil => exact absurd rfl hne
  | cons v items ih =>
    obtain ⟨hv, hitems⟩ := List.forall_mem_cons.mp h
    have hindent := wrote_put w.indentation w
    obtain ⟨ws, t, hvalue, hws, ht⟩ := hv.wrote _ (hindent.ready hw)
    have hline := hindent.trans hvalue
    have hspace : IsSpace (w.indentation ++ ws) :=
      List.forall_mem_append.mpr ⟨isSpace_indentation hw, hws⟩
    rw [writeElements]
    cases items with
    | nil =>
      refine ⟨_, hline, ?_⟩
      have hitem := Spells.item hspace ht isSpace_nil
      rwa [List.append_nil, List.append_assoc] at hitem
    | cons v' items =>
      have hcomma := hline.trans (wrote_put (str ",") _)
      obtain ⟨text, hrest, hspells⟩ := ih hitems (List.cons_ne_nil _ _) (index + 1)
        (hcomma.ready hw)
      refine ⟨_, hcomma.trans hrest, ?_⟩
      have hitems' := Spells.items hspace ht isSpace_nil hspells
      rw [List.append_assoc, List.append_assoc, List.append_assoc]
      rwa [List.append_assoc] at hitems'

/-- The texts of the items on one line. -/
theorem oneLine_eq {w : StyledWriter} {t : Bytes} {texts : List Bytes}
    (h : w.childValues = t :: texts) :
    w.oneLine (texts.length + 1) = t ++ texts.flatMap fun t => str ", " ++ t := by
  have hrange (ts : List Bytes) : (List.range ts.length).flatMap (fun i => str ", " ++ ts.getD i []) =
      ts.flatMap fun t => str ", " ++ t := by
    induction ts with
    | nil => rfl
    | cons t ts ih =>
      rw [List.length_cons, List.range_succ_eq_map, List.flatMap_cons, List.flatMap_map,
        List.flatMap_cons]
      exact congrArg (str ", " ++ t ++ ·) ih
  rw [oneLine, h, List.range_succ_eq_map, List.flatMap_cons, List.flatMap_map]
  exact congrArg (t ++ ·) (hrange texts)

/-- The induction is on the items. -/
theorem spells_oneLine {v : Value} {items : List Value} {t : Bytes} {texts : List Bytes}
    (ht : Spells levels (.value (canonical v)) t) (h : Texts levels items texts) :
    Spells levels (.items (canonicalItems (v :: items)))
      (str " " ++ (t ++ ((texts.flatMap fun t => str ", " ++ t) ++ str " "))) := by
  induction h generalizing v t with
  | nil => exact .item isSpace_blank ht isSpace_blank
  | @cons v' t' items texts ht' htexts ih =>
    have hitems := Spells.items isSpace_blank ht isSpace_nil (ih ht')
    rw [List.flatMap_cons, List.append_assoc, List.append_assoc]
    exact hitems

/-- The members one after the other, each on a line; the induction is on the members. -/
theorem wrote_members {members : List (Bytes × Value)}
    (h : ∀ m ∈ members, Writes levels m.2) (hnames : ∀ m ∈ members, 0 ∉ m.1) (hne : members ≠ [])
    {w : StyledWriter} (hw : Ready w) : ∃ text, Wrote text w (writeMembers members w) ∧
      Spells levels (.members (canonicalMembers members)) text := by
  induction members generalizing w with
  | nil => exact absurd rfl hne
  | cons m members ih =>
    obtain ⟨name, v⟩ := m
    obtain ⟨hv, hmembers⟩ := List.forall_mem_cons.mp h
    obtain ⟨hname, hnames⟩ := List.forall_mem_cons.mp hnames
    have hspace := isSpace_indentation hw
    have hraw := quoted_flatMap name
    have hquoted : valueToQuotedString name = quoted (name.flatMap escapeByte) := by
      rw [valueToQuotedString, cstr_of_notMem hname, valueToQuotedStringN_eq]
    have hcolon := (wrote_writeWithIndent (valueToQuotedString name) w).trans
      (wrote_put (str " : ") _)
    obtain ⟨ws, t, hvalue, hws, ht⟩ := hv.wrote _ (hcolon.ready hw)
    have hline := hcolon.trans hvalue
    have hblank : IsSpace (0x20 :: ws) := List.forall_mem_cons.mpr ⟨rfl, hws⟩
    rw [writeMembers, canonicalMembers]
    cases members with
    | nil =>
      refine ⟨_, hline, ?_⟩
      have hmember := Spells.member hspace hraw isSpace_blank hblank ht isSpace_nil
      rw [hquoted, canonicalMembers]
      simpa [str, chr] using hmember
    | cons m members =>
      have hcomma := hline.trans (wrote_put (str ",") _)
      obtain ⟨text, hrest, hspells⟩ := ih hmembers hnames (List.cons_ne_nil m members)
        (hcomma.ready hw)
      refine ⟨_, hcomma.trans hrest, ?_⟩
      have hmembers' := Spells.members hspace hraw isSpace_blank hblank ht isSpace_nil hspells
      rw [hquoted]
      simpa [str, chr] using hmembers'

/-- `isMultineArray` writes nothing; the items are on one line only if their texts are known. -/
theorem isMultineArray_spec {items : List Value} (h : ∀ v ∈ items, Writes levels v)
    {w : StyledWriter} (hw : Ready w) :
    let r := isMultineArray (fun lineLength w => writeEach 0 lineLength items w) items w
    Wrote [] w r.2 ∧ ((r.1 = true ∧ r.2.childValues = []) ∨ Texts levels items r.2.childValues) := by
  unfold isMultineArray
  dsimp only
  split
  · exact ⟨⟨(List.append_nil _).symm, rfl, rfl, rfl⟩, .inl ⟨rfl, rfl⟩⟩
  · next hmulti =>
    rw [Bool.or_eq_true, not_or, Bool.not_eq_true, Bool.not_eq_true] at hmulti
    have hnested : ∀ v ∈ items, isNested v = false := by
      intro v hv
      exact Bool.not_eq_true _ ▸ List.any_eq_false.mp hmulti.2 v hv
    obtain ⟨texts, htexts, hrest⟩ := exists_texts h hnested 0 (4 + (items.length - 1) * 2)
      (w := { w with childValues := [], addChildValues := true }) rfl
    rw [hrest]
    exact ⟨⟨(List.append_nil _).symm, rfl, rfl, hw.addChildValues.symm⟩, .inr htexts⟩

/-- An array: empty, with a line for each item, or on one line. -/
theorem writes_array {items : List Value} (h : ∀ v ∈ items, Writes levels v) :
    Writes (levels + 1) (.array items) := by
  by_cases hne : items = []
  · subst hne
    exact writes_of_push (fun w => by rw [writeValue, writeArrayValue, if_pos rfl]; rfl)
      (.emptyArray isSpace_nil)
  have harray {text : Bytes} (htext : Spells levels (.items (canonicalItems items)) text) :
      Spells (levels + 1) (.value (canonical (.array items))) (chr '[' :: (text ++ [chr ']'])) := by
    rw [canonical]
    exact .array htext
  constructor
  · intro hnested
    rw [isNested, Bool.not_eq_false', List.isEmpty_iff] at hnested
    exact absurd hnested hne
  intro w hw
  rw [writeValue, writeArrayValue, if_neg hne]
  obtain ⟨hwrote, hcase⟩ := isMultineArray_spec h hw
  -- what `isMultineArray` has written, and the texts that it has kept
  generalize isMultineArray (fun lineLength w => writeEach 0 lineLength items w) items w = r
    at hwrote hcase
  dsimp only
  split
  · have hopen := hwrote.trans (wrote_writeWithIndent (str "[") r.2)
    have hready := ready_indent (hopen.ready hw)
    -- the items are written anew, or from the texts that were kept
    obtain ⟨text, htext, hspells⟩ : ∃ text, Wrote text ((r.2.writeWithIndent (str "[")).indent)
        (writeElements (((r.2.writeWithIndent (str "[")).indent).childValues != []) 0 items
          ((r.2.writeWithIndent (str "[")).indent)) ∧
        Spells levels (.items (canonicalItems items)) text := by
      rcases hcase with ⟨-, hnil⟩ | htexts
      · have hfalse : (((r.2.writeWithIndent (str "[")).indent).childValues != []) = false := by
          rw [show ((r.2.writeWithIndent (str "[")).indent).childValues = r.2.childValues from rfl,
            hnil]
          rfl
        rw [hfalse]
        exact wrote_elements h hne 0 hready
      · have htrue : (((r.2.writeWithIndent (str "[")).indent).childValues != []) = true := by
          rw [show ((r.2.writeWithIndent (str "[")).indent).childValues = r.2.childValues from rfl,
            bne_iff_ne]
          intro hnil
          rw [hnil] at htexts
          exact hne (List.forall₂_nil_right_iff.mp htexts)
        rw [htrue]
        exact wrote_childValues htexts hne hready rfl
    have hinner := htext.unindent
    have hclose := wrote_writeWithIndent (str "]") (writeElements
      (((r.2.writeWithIndent (str "[")).indent).childValues != []) 0 items
      ((r.2.writeWithIndent (str "[")).indent)).unindent
    have hspace := isSpace_indentation (hinner.ready (hopen.ready hw))
    refine ⟨r.2.indentation, _, ?_, isSpace_indentation (hwrote.ready hw),
      harray (hspells.append_space (by simp) hspace)⟩
    have hall := (hopen.trans hinner).trans hclose
    simpa [str, chr] using hall
  · next hone =>
    obtain ⟨v, items, rfl⟩ := List.exists_cons_of_ne_nil hne
    rcases hcase with ⟨htrue, -⟩ | htexts
    · exact absurd htrue hone
    · obtain ⟨t, texts, ht, hrest, hvalues⟩ := List.forall₂_cons_left_iff.mp htexts
      have hlen : (v :: items).length = texts.length + 1 :=
        congrArg (· + 1) hrest.length_eq
      have hall := ((hwrote.trans (wrote_put (str "[ ") r.2)).trans
        (wrote_put (r.2.oneLine (v :: items).length) _)).trans (wrote_put (str " ]") _)
      refine ⟨[], _, ?_, isSpace_nil, harray (spells_oneLine ht hrest)⟩
      rw [hlen, oneLine_eq hvalues]
      rw [hlen] at hall
      simpa [str, chr, oneLine_eq hvalues] using hall

/-- An object: empty, or with a line for each member. -/
theorem writes_object {members : List (Bytes × Value)}
    (hsorted : (members.map Prod.fst).Pairwise (· < ·)) (h : ∀ m ∈ members, Writes levels m.2)
    (hnames : ∀ m ∈ members, 0 ∉ m.1) : Writes (levels + 1) (.object members) := by
  by_cases hne : members = []
  · subst hne
    exact writes_of_push (fun w => by rw [writeValue, if_pos rfl]; rfl) (.emptyObject isSpace_nil)
  constructor
  · intro hnested
    rw [isNested, Bool.not_eq_false', List.isEmpty_iff] at hnested
    exact absurd hnested hne
  intro w hw
  have hopen := wrote_writeWithIndent (str "\x7b") w
  obtain ⟨text, htext, hspells⟩ := wrote_members h hnames hne (ready_indent (hopen.ready hw))
  have hinner := htext.unindent
  have hclose := wrote_writeWithIndent (str "\x7d") (writeMembers members
    ((w.writeWithIndent (str "\x7b")).indent)).unindent
  have hspace := isSpace_indentation (hinner.ready (hopen.ready hw))
  have hsorted' : ((canonicalMembers members).map Prod.fst).Pairwise (· < ·) := by
    rw [canonicalMembers_eq, List.map_map]
    exact hsorted
  have hobject := Spells.object (hspells.append_space (by simp) hspace)
  rw [@collect_of_pairwise [] _ hsorted'] at hobject
  rw [writeValue, if_neg hne, canonical]
  refine ⟨w.indentation, _, ?_, isSpace_indentation hw, hobject⟩
  have hall := (hopen.trans hinner).trans hclose
  simpa [str, chr] using hall

end Loops

/-- No name down to that level holds a NUL, where `valueToQuotedString` ends. -/
def NamesKept : ℕ → Value → Prop
  | levels + 1, .array items => ∀ v ∈ items, NamesKept levels v
  | levels + 1, .object members => ∀ m ∈ members, 0 ∉ m.1 ∧ NamesKept levels m.2
  | _, _ => True

/-- What is written of a value; the induction is on the levels. -/
theorem writes_value {levels : ℕ} {v : Value} (h : Writable levels v) (hnames : NamesKept levels v) :
    Writes levels v := by
  induction levels generalizing v with
  | zero => exact absurd h id
  | succ levels ih =>
    cases v with
    | null => exact writes_of_push (fun w => by rw [writeValue]) .null
    | int i => exact writes_of_push (fun w => by rw [writeValue]) (spells_int levels h)
    | uint n => exact writes_of_push (fun w => by rw [writeValue]) (spells_uint levels h)
    | real d => exact writes_of_push (fun w => by rw [writeValue]) (spells_real levels h)
    | string s =>
      refine writes_of_push (t := quoted (s.flatMap escapeByte)) (fun w => ?_)
        (.string (quoted_flatMap s))
      rw [writeValue, valueToQuotedStringN_eq]
    | bool b => exact writes_of_push (fun w => by rw [writeValue]) (.bool b)
    | array items => exact writes_array fun v hv => ih (h v hv) (hnames v hv)
    | object members =>
      exact writes_object h.1 (fun m hm => ih (h.2 m hm) (hnames m hm).2)
        fun m hm => (hnames m hm).1

/-- **What is written for people is read as the same value.** -/
theorem parse_styled {w : StyledWriter} {v : Value} (h : Writable stackLimit v)
    (hnames : NamesKept stackLimit v) : parse (w.write v) = .ok (canonical v) := by
  have hready : Ready { w with document := [], addChildValues := false, indentString := [] } :=
    ⟨isSpace_nil, rfl⟩
  obtain ⟨ws, t, hwrote, hws, ht⟩ := (writes_value h hnames).wrote _ hready
  have hwrite : w.write v = ws ++ (t ++ str "\n") := by
    rw [write, put, hwrote.document, List.nil_append, List.append_assoc]
  rw [hwrite]
  refine parse_of_spells ht hws fun c hc => ?_
  obtain rfl := Option.some.inj hc
  exact ⟨rfl, by decide, by decide, by decide⟩

end StyledWriter

end Domoticz.JsonWriter
