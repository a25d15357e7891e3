import Domoticz.Plugin.HttpExtraction
import Domoticz.Plugin.HttpFraming
import Domoticz.Plugin.Python

/-!
# The headers of a legal block

`ExtractHeaders` takes for the text of a header what stands two bytes behind its name.  That is
its value if there is one blank behind the colon and none behind the value.

## Main definitions

* `Legal`, `Block` — a header block as RFC 7230 has it, behind any first line.
* `Block.entry`, `Block.length`, `Block.chunked`, `Block.json` — what it says.
* `Faithful` — that is what `ExtractHeaders` makes of it.

## Main results

* `lookup_collect` — the entry of a name, from the fields of that name.
* `faithful_iff` — **the block is read as it is meant exactly if** it is written with single
  blanks, and its numbers and types are such that the code knows them.
* `text_cut` — a header without a blank loses its first byte.
-/

namespace Domoticz.Http

open CLib

/-! ### Legal blocks -/

/-- The bytes of a token. -/
def isTokenByte (b : UInt8) : Bool :=
  (chr 'a' ≤ b && b ≤ chr 'z') || (chr 'A' ≤ b && b ≤ chr 'Z') || (chr '0' ≤ b && b ≤ chr '9') ||
    (str "!#$%&'*+-.^_`|~").contains b

/-- The bytes of a field value: visible ones, blanks and tabs, and what is not ASCII. -/
def isValueByte (b : UInt8) : Bool := b == 9 || (32 ≤ b && b != 127)

/-- A field is legal; what surrounds its value is optional white space. -/
structure Legal (f : Field) : Prop where
  name : ∀ b ∈ f.name, isTokenByte b = true
  value : ∀ b ∈ f.value, isValueByte b = true

/-- A header block, between the first line of a message and its body. -/
structure Block where
  firstLine : Bytes
  fields : List Field
  body : Bytes
  firstLine_ok : LF ∉ firstLine
  legal : ∀ f ∈ fields, Legal f
  /-- The length is a number, and the same wherever it is given. -/
  length_ok : ∀ f ∈ fields, upper f.name = str "CONTENT-LENGTH" → Numeral (trim f.value) ∧
    ∀ g ∈ fields, upper g.name = str "CONTENT-LENGTH" →
      digitsValue 10 (trim f.value) = digitsValue 10 (trim g.value)

namespace Block

variable (b : Block)

/-- The bytes of a block and of what stands behind it. -/
def bytes : Bytes := b.firstLine ++ CR :: LF :: (lines b.fields ++ CR :: LF :: b.body)

/-- The fields of a name. -/
def named (name : Bytes) : List Field := b.fields.filter fun f => f.name = name

/-- The entry of a name: its value, or the list of all its values in order. -/
def entry (name : Bytes) : Option PyValue :=
  match b.named name with
  | [] => none
  | [f] => some (.text (trim f.value))
  | fields => some (.list (fields.map fun f => .text (trim f.value)))

/-- The length that is declared; minus one where there is none. -/
def length : ℤ :=
  match b.fields.find? fun f => upper f.name = str "CONTENT-LENGTH" with
  | none => -1
  | some f => digitsValue 10 (trim f.value)

/-- Whether the transfer encoding is chunked. -/
def chunked : Prop :=
  ∃ f ∈ b.fields, upper f.name = str "TRANSFER-ENCODING" ∧ upper (trim f.value) = str "CHUNKED"

/-- Whether the content type is JSON, with parameters or without. -/
def json : Prop :=
  ∃ f ∈ b.fields, upper f.name = str "CONTENT-TYPE" ∧
    upper (trim (upTo (chr ';') f.value)) = str "APPLICATION/JSON"

end Block

/-- `ExtractHeaders` returns from a block, with what it says.  `m_JSON` is what is left of the
blocks before. -/
def Faithful (m_JSON : Bool) (b : Block) : Prop :=
  ∃ st rest, extractHeaders m_JSON b.bytes = (st, .ok rest) ∧
    (∀ name, st.m_Headers.lookup name = b.entry name) ∧
    st.m_ContentLength = b.length ∧ (st.m_Chunked = true ↔ b.chunked) ∧
    (st.m_JSON = true ↔ b.json)

/-- A field that is read as it is meant: one blank and the value, which is UTF-8. -/
structure Plainly (f : Field) : Prop where
  value_ne : f.value ≠ []
  text : f.text = trim f.value
  utf8 : (ByteArray.mk (trim f.value).toArray).validateUTF8 = true

/-- A block that is read as it is meant.  The content type is JSON exactly if it says so in the
letters the code looks for, or if a block before it did. -/
structure ReadAsMeant (m_JSON : Bool) (b : Block) : Prop where
  plainly : ∀ f ∈ b.fields, Plainly f
  length : ∀ f ∈ b.fields, upper f.name = str "CONTENT-LENGTH" →
    digitsValue 10 (trim f.value) < 2 ^ 31
  json : (m_JSON = true ∨ ∃ f ∈ b.fields, upper f.name = str "CONTENT-TYPE" ∧
    contains (trim f.value) (str "application/json") = true) ↔ b.json

/-! ### Bytes -/

theorem token_ascii {b : UInt8} (h : isTokenByte b = true) : b < 128 ∧ b ≠ 0 := by
  have hrange : chr '!' ≤ b ∧ b ≤ chr '~' := by
    simp only [isTokenByte, Bool.or_eq_true, Bool.and_eq_true, decide_eq_true_eq] at h
    rcases h with ((⟨hlow, hhigh⟩ | ⟨hlow, hhigh⟩) | ⟨hlow, hhigh⟩) | hmem
    · exact ⟨UInt8.le_trans (by decide) hlow, UInt8.le_trans hhigh (by decide)⟩
    · exact ⟨UInt8.le_trans (by decide) hlow, UInt8.le_trans hhigh (by decide)⟩
    · exact ⟨UInt8.le_trans (by decide) hlow, UInt8.le_trans hhigh (by decide)⟩
    · have hall : (str "!#$%&'*+-.^_`|~").all (fun c => chr '!' ≤ c ∧ c ≤ chr '~') = true := by
        decide
      exact of_decide_eq_true (List.all_eq_true.mp hall b (List.contains_iff_mem.mp hmem))
  refine ⟨UInt8.lt_of_le_of_lt hrange.2 (by decide), ?_⟩
  rintro rfl
  exact absurd hrange.1 (by decide)

theorem value_ne_zero {b : UInt8} (h : isValueByte b = true) : b ≠ 0 := by
  rintro rfl
  exact absurd h (by decide)

theorem buildString_eq_iff {s v : Bytes} (h : 0 ∉ s) :
    buildString s = some (.text v) ↔ s = v ∧ (ByteArray.mk v.toArray).validateUTF8 = true := by
  rw [buildString, cstr_of_notMem h]
  split
  · next hvalid =>
    simp only [Option.some.injEq, PyValue.text.injEq]
    exact ⟨fun heq => ⟨heq, heq ▸ hvalid⟩, And.left⟩
  · next hvalid => exact iff_of_false (fun h => by cases h) fun h => hvalid (h.1 ▸ h.2)

/-- A name that is legal is a key. -/
theorem Legal.key {f : Field} (h : Legal f) : cstr f.name = f.name ∧ buildString f.name ≠ none := by
  have hzero : 0 ∉ f.name := fun hmem => (token_ascii (h.name 0 hmem)).2 rfl
  refine ⟨cstr_of_notMem hzero, ?_⟩
  have hvalid := validateUTF8_of_ascii fun b hb => (token_ascii (h.name b hb)).1
  rw [(buildString_eq_iff hzero).mpr ⟨rfl, hvalid⟩]
  nofun

theorem Legal.zero_notMem_text {f : Field} (h : Legal f) : 0 ∉ f.text := fun hmem =>
  value_ne_zero (h.value 0 (List.mem_of_mem_drop hmem)) rfl

/-! ### The dictionary -/

theorem lookup_map_self {d : Dict} {key : Bytes} {prev : PyValue} (v : PyValue)
    (h : d.lookup key = some prev) :
    (d.map fun e => if e.1 = key then (e.1, v) else e).lookup key = some v := by
  induction d with
  | nil => cases h
  | cons e d ih =>
    rw [List.map_cons]
    by_cases he : e.1 = key
    · rw [if_pos he, he, List.lookup_cons_self]
    · have hbeq : (key == e.1) = false := beq_false_of_ne fun heq => he heq.symm
      obtain ⟨name, value⟩ := e
      rw [List.lookup_cons, hbeq] at h
      rw [if_neg he, List.lookup_cons, hbeq]
      exact ih h

theorem lookup_map_ne {d : Dict} {key name : Bytes} (v : PyValue) (h : name ≠ key) :
    (d.map fun e => if e.1 = key then (e.1, v) else e).lookup name = d.lookup name := by
  induction d with
  | nil => rfl
  | cons e d ih =>
    obtain ⟨name', value⟩ := e
    rw [List.map_cons]
    by_cases he : name' = key
    · have hbeq : (name == name') = false := beq_false_of_ne fun heq => h (heq.trans he)
      rw [if_pos he, List.lookup_cons, hbeq, List.lookup_cons, hbeq]
      exact ih
    · rw [if_neg he, List.lookup_cons, List.lookup_cons, ih]

theorem lookup_append_singleton (d : Dict) (key name : Bytes) (v : PyValue) :
    (d ++ [(key, v)]).lookup name =
      (d.lookup name).or (if name = key then some v else none) := by
  rw [List.lookup_append, List.lookup_cons]
  by_cases h : name = key
  · rw [if_pos h, h, beq_self_eq_true]
  · rw [if_neg h, beq_false_of_ne h]
    rfl

/-- A header of another name changes nothing. -/
theorem lookup_addHeader_ne {d : Dict} {key name : Bytes} (text : Bytes) (h : name ≠ cstr key) :
    ((addHeader d key text).getD d).lookup name = d.lookup name := by
  unfold addHeader
  cases d.lookup (cstr key) with
  | none =>
    simp only
    split
    · rfl
    · cases buildString text with
      | none => rfl
      | some v =>
        rw [Option.map_some, Option.getD_some, lookup_append_singleton, if_neg h, Option.or_none]
  | some prev => exact lookup_map_ne _ h

/-- The entry of some fields of one name: the first by itself, and several as a list of those
that could be built. -/
def built : List Field → Option PyValue
  | [] => none
  | [f] => buildString f.text
  | fields => some (.list (fields.filterMap fun f => buildString f.text))

theorem text_of_buildString {s : Bytes} (h : buildString s ≠ none) :
    buildString s = some (.text (cstr s)) := by
  unfold buildString at h ⊢
  split at h
  · next hvalid => rw [if_pos hvalid]
  · exact absurd rfl h

/-- Another header of a name. -/
theorem lookup_addHeader_self {d : Dict} {f : Field} {fields : List Field}
    (hkey : cstr f.name = f.name ∧ buildString f.name ≠ none)
    (hlookup : d.lookup f.name = built fields)
    (hfirst : ∀ g ∈ (fields ++ [f]).head?, buildString g.text ≠ none) :
    ((addHeader d f.name f.text).getD d).lookup f.name = built (fields ++ [f]) := by
  unfold addHeader
  rw [hkey.1, hlookup]
  cases fields with
  | nil =>
    obtain ⟨v, hv⟩ := Option.ne_none_iff_exists'.mp (hfirst f rfl)
    simp only [built, if_neg hkey.2, List.nil_append, hv, Option.map_some, Option.getD_some]
    rw [lookup_append_singleton, if_pos rfl, hlookup]
    rfl
  | cons g fields =>
    have hv := text_of_buildString (hfirst g rfl)
    cases fields with
    | nil =>
      simp only [built, hv, Option.getD_some, List.singleton_append]
      rw [lookup_map_self _ (hlookup.trans hv), List.filterMap_cons, hv]
      cases hf : buildString f.text with
      | none => simp [hf]
      | some w => simp [hf]
    | cons g' fields =>
      simp only [built, Option.getD_some, List.cons_append]
      have happend : g :: g' :: (fields ++ [f]) = (g :: g' :: fields) ++ [f] := rfl
      have hlast : [f].filterMap (fun f => buildString f.text) =
          (buildString f.text).toList := by
        cases hf : buildString f.text with
        | none => simp [hf]
        | some w => simp [hf]
      rw [lookup_map_self _ hlookup, happend, List.filterMap_append, hlast]

/-- The entry of a name, from the fields of that name. -/
theorem lookup_collect {fields : List Field}
    (hkeys : ∀ f ∈ fields, cstr f.name = f.name ∧ buildString f.name ≠ none)
    (hfirst : ∀ done f more, fields = done ++ f :: more → (∀ g ∈ done, g.name ≠ f.name) →
      buildString f.text ≠ none) (name : Bytes) :
    (collect [] fields).lookup name = built (fields.filter fun f => f.name = name) := by
  induction fields using List.reverseRecOn with
  | nil => rfl
  | append_singleton fields f ih =>
    have hcollect (d : Dict) : collect d (fields ++ [f]) =
        (addHeader (collect d fields) f.name f.text).getD (collect d fields) := by
      clear ih hkeys hfirst
      induction fields generalizing d with
      | nil => rfl
      | cons g fields ih => exact ih _
    obtain ⟨hkeys', hkey⟩ := List.forall_mem_append.mp hkeys
    rw [List.forall_mem_singleton] at hkey
    have hprevious := ih hkeys' fun done g more heq hdone =>
      hfirst done g (more ++ [f]) (by rw [heq, List.append_assoc]; rfl) hdone
    rw [hcollect, List.filter_append]
    by_cases hname : f.name = name
    · subst hname
      rw [List.filter_cons_of_pos (by simp), List.filter_nil]
      refine lookup_addHeader_self hkey hprevious fun g hg => ?_
      cases hfilter : fields.filter fun g => g.name = f.name with
      | nil =>
        rw [hfilter] at hg
        obtain rfl := Option.some.inj hg
        refine hfirst fields f [] rfl fun g hmem heq => ?_
        have hnot := List.filter_eq_nil_iff.mp hfilter g hmem
        exact hnot (decide_eq_true heq)
      | cons g' rest =>
        rw [hfilter] at hg
        obtain rfl := Option.some.inj hg
        obtain ⟨done, more, rfl, hdone, hg', -⟩ := List.filter_eq_cons_iff.mp hfilter
        refine hfirst done g' (more ++ [f]) (by rw [List.append_assoc]; rfl) fun g hmem heq => ?_
        exact hdone g hmem (decide_eq_true (heq.trans (of_decide_eq_true hg')))
    · rw [List.filter_cons_of_neg (by simpa using hname), List.filter_nil, List.append_nil,
        lookup_addHeader_ne f.text (by rw [hkey.1]; exact Ne.symm hname)]
      exact hprevious

/-- All fields of a name are built as values exactly if the entry is that of these values. -/
theorem built_eq_iff (fields : List Field) (v : Field → PyValue) :
    built fields = (match fields with
      | [] => none
      | [f] => some (v f)
      | fields => some (.list (fields.map v))) ↔
      ∀ f ∈ fields, buildString f.text = some (v f) := by
  cases fields with
  | nil => exact iff_of_true rfl (List.forall_mem_nil _)
  | cons f fields =>
    cases fields with
    | nil =>
      rw [List.forall_mem_singleton]
      rfl
    | cons g fields =>
      rw [← List.filterMap_eq_map_iff_forall_eq_some]
      show some (PyValue.list _) = some (PyValue.list _) ↔ _
      rw [Option.some.injEq, PyValue.list.injEq]

/-! ### What is noted of a block -/

theorem declaredLength_of_forall {n init : ℤ} {es : List (Bytes × Bytes)}
    (h : ∀ e ∈ es, upper e.1 = str "CONTENT-LENGTH" → atoi e.2 = n) :
    declaredLength init es =
      if ∃ e ∈ es, upper e.1 = str "CONTENT-LENGTH" then n else init := by
  induction es generalizing init with
  | nil => simp [declaredLength]
  | cons e es ih =>
    obtain ⟨he, hes⟩ := List.forall_mem_cons.mp h
    have hcons : declaredLength init (e :: es) =
        declaredLength (if upper e.1 = str "CONTENT-LENGTH" then atoi e.2 else init) es := rfl
    rw [hcons, ih hes]
    simp only [List.exists_mem_cons_iff]
    by_cases hname : upper e.1 = str "CONTENT-LENGTH"
    · simp only [hname, if_true, he hname, ite_self, true_or]
    · simp only [hname, if_false, false_or]

theorem atoi_numeral {s : Bytes} (h : Numeral s) :
    atoi s = digitsValue 10 s ↔ digitsValue 10 s < 2 ^ 31 := by
  rw [atoi, strtol_numeral h, toInt32_clampLong_nat_iff]

/-- The length is noted as it is declared if it fits. -/
theorem length_iff {b : Block} (h : ∀ f ∈ b.fields, Plainly f) :
    declaredLength (-1) (headers b.fields) = b.length ↔
      ∀ f ∈ b.fields, upper f.name = str "CONTENT-LENGTH" →
        digitsValue 10 (trim f.value) < 2 ^ 31 := by
  unfold Block.length
  cases hfind : b.fields.find? fun f => upper f.name = str "CONTENT-LENGTH" with
  | none =>
    have hnone : ∀ f ∈ b.fields, upper f.name ≠ str "CONTENT-LENGTH" := fun f hf hname =>
      List.find?_eq_none.mp hfind f hf (decide_eq_true hname)
    refine iff_of_true ?_ fun f hf hname => absurd hname (hnone f hf)
    rw [declaredLength_of_forall (n := 0), if_neg]
    · rintro ⟨e, he, hname⟩
      obtain ⟨f, hf, rfl⟩ := List.mem_map.mp he
      exact hnone f hf hname
    · intro e he hname
      obtain ⟨f, hf, rfl⟩ := List.mem_map.mp he
      exact absurd hname (hnone f hf)
  | some f =>
    have hf := List.mem_of_find?_eq_some hfind
    have hname : upper f.name = str "CONTENT-LENGTH" := by
      simpa using List.find?_some hfind
    obtain ⟨hnumeral, hsame⟩ := b.length_ok f hf hname
    have hatoi : ∀ e ∈ headers b.fields, upper e.1 = str "CONTENT-LENGTH" →
        atoi e.2 = atoi (trim f.value) := by
      intro e he hname'
      obtain ⟨g, hg, rfl⟩ := List.mem_map.mp he
      show atoi g.text = _
      rw [(h g hg).text, atoi, atoi, strtol_numeral hnumeral,
        strtol_numeral (b.length_ok g hg hname').1, hsame g hg hname']
    have hexists : ∃ e ∈ headers b.fields, upper e.1 = str "CONTENT-LENGTH" :=
      ⟨_, List.mem_map_of_mem hf, hname⟩
    rw [declaredLength_of_forall hatoi, if_pos hexists]
    show atoi (trim f.value) = digitsValue 10 (trim f.value) ↔ _
    rw [atoi_numeral hnumeral]
    constructor
    · intro hlt g hg hname'
      rw [← hsame g hg hname']
      exact hlt
    · intro hall
      exact hall f hf hname

/-! ### The block -/

theorem extractHeaders_block (m_JSON : Bool) (b : Block) :
    extractHeaders m_JSON b.bytes = match ({ m_JSON } : HeaderState).read b.fields with
      | (st, none) => (st, .ok (CR :: LF :: b.body))
      | (st, some halt) => (st, .error halt) := by
  have hline : LF ∉ b.firstLine ++ [CR] := by
    rw [List.mem_append, not_or]
    exact ⟨b.firstLine_ok, by decide⟩
  have hpast : past LF b.bytes = lines b.fields ++ CR :: LF :: b.body := by
    have h := past_append_cons (lines b.fields ++ CR :: LF :: b.body) hline
    rw [List.append_assoc] at h
    exact h
  have hstop (st : HeaderState) : extractLines st (CR :: LF :: b.body) =
      (st, .ok (CR :: LF :: b.body)) := by
    rw [extractLines, if_pos (.inr rfl)]
  rw [extractHeaders, hpast, extractLines_lines]
  cases ({ m_JSON } : HeaderState).read b.fields with
  | mk st halt =>
    cases halt with
    | none => exact hstop st
    | some halt => rfl

/-- What is read, if it can be read. -/
theorem read_block {m_JSON : Bool} {b : Block} {st : HeaderState}
    (h : ({ m_JSON } : HeaderState).read b.fields = (st, none)) :
    (∀ name, st.m_Headers.lookup name = built (b.named name)) ∧
      st.m_ContentLength = declaredLength (-1) (headers b.fields) ∧
      st.m_Chunked = declaredChunked (headers b.fields) ∧
      st.m_JSON = (m_JSON || jsonFields b.fields) := by
  have hnone : (({ m_JSON } : HeaderState).read b.fields).2 = none := congrArg Prod.snd h
  have hfirst : (({ m_JSON } : HeaderState).read b.fields).1 = st := congrArg Prod.fst h
  obtain ⟨-, htexts⟩ := (read_eq_none_iff _ _).mp hnone
  have hkeys : ∀ f ∈ b.fields, cstr f.name = f.name ∧ buildString f.name ≠ none :=
    fun f hf => (b.legal f hf).key
  have hcollect := read_headers _ _ hnone
  rw [hfirst] at hcollect
  have hadd := h
  rw [read_eq_addAll (value_ne_of_read hnone)] at hadd
  obtain ⟨hlength, hchunked⟩ := addAll_noted hadd
  refine ⟨fun name => ?_, hlength, hchunked.trans (Bool.false_or _), ?_⟩
  · rw [hcollect]
    refine lookup_collect hkeys (fun done f more heq hdone => ?_) name
    have hf : f ∈ b.fields := heq ▸ List.mem_append_right _ List.mem_cons_self
    refine htexts done f more heq List.not_mem_nil (hkeys f hf).2 fun g hg hsame => ?_
    have hg' : g ∈ b.fields := heq ▸ List.mem_append_left _ hg
    rw [(hkeys g hg').1, (hkeys f hf).1] at hsame
    exact hdone g hg hsame
  · have hjson := read_withJson { m_JSON } m_JSON b.fields hnone
    rw [← hfirst]
    exact congrArg (fun p => p.1.m_JSON) hjson

theorem plainly_iff {f : Field} (h : Legal f) (hvalue : f.value ≠ []) :
    Plainly f ↔ buildString f.text = some (.text (trim f.value)) := by
  rw [buildString_eq_iff h.zero_notMem_text]
  exact ⟨fun hp => ⟨hp.text, hp.utf8⟩, fun hp => ⟨hvalue, hp.1, hp.2⟩⟩

/-- The dictionary is that of the block if every field is read as it is meant. -/
theorem dictionary_iff {b : Block} (hvalues : ∀ f ∈ b.fields, f.value ≠ []) :
    (∀ name, built (b.named name) = b.entry name) ↔ ∀ f ∈ b.fields, Plainly f := by
  have hentry (name : Bytes) : built (b.named name) = b.entry name ↔
      ∀ f ∈ b.named name, buildString f.text = some (.text (trim f.value)) :=
    built_eq_iff (b.named name) fun f => .text (trim f.value)
  constructor
  · intro h f hf
    rw [plainly_iff (b.legal f hf) (hvalues f hf)]
    refine (hentry f.name).mp (h f.name) f ?_
    exact List.mem_filter.mpr ⟨hf, decide_eq_true rfl⟩
  · intro h name
    rw [hentry]
    intro f hf
    have hmem := List.mem_of_mem_filter hf
    exact (plainly_iff (b.legal f hmem) (hvalues f hmem)).mp (h f hmem)

/-- What is noted, given that every field is read as it is meant. -/
theorem flags_iff {b : Block} (h : ∀ f ∈ b.fields, Plainly f) :
    (declaredChunked (headers b.fields) = true ↔ b.chunked) ∧
      (jsonFields b.fields = true ↔ ∃ f ∈ b.fields, upper f.name = str "CONTENT-TYPE" ∧
        contains (trim f.value) (str "application/json") = true) := by
  constructor
  · rw [declaredChunked, List.any_eq_true, Block.chunked]
    constructor
    · rintro ⟨e, he, hmatch⟩
      obtain ⟨f, hf, rfl⟩ := List.mem_map.mp he
      rw [Bool.and_eq_true, beq_iff_eq, beq_iff_eq] at hmatch
      exact ⟨f, hf, hmatch.1, (h f hf).text ▸ hmatch.2⟩
    · rintro ⟨f, hf, hname, hvalue⟩
      refine ⟨_, List.mem_map_of_mem hf, ?_⟩
      rw [Bool.and_eq_true, beq_iff_eq, beq_iff_eq]
      refine ⟨hname, ?_⟩
      show upper f.text = _
      rw [(h f hf).text, hvalue]
  · rw [jsonFields, List.any_eq_true]
    refine exists_congr fun f => and_congr_right fun hf => ?_
    rw [jsonHeader, Bool.and_eq_true, beq_iff_eq, (h f hf).text]

/-- **A header block is read as it is meant exactly if** every field has one blank in front of its
value and none behind it, and is UTF-8; the length is below `2 ^ 31`; and the content type holds
`application/json` if it is that, and no block before has left `m_JSON`. -/
theorem faithful_iff (m_JSON : Bool) (b : Block) : Faithful m_JSON b ↔ ReadAsMeant m_JSON b := by
  unfold Faithful
  rw [extractHeaders_block]
  constructor
  · rintro ⟨st, rest, hst, hdictionary, hlength, -, hjson⟩
    cases hread : ({ m_JSON } : HeaderState).read b.fields with
    | mk st' halt =>
      rw [hread] at hst
      cases halt with
      | some halt => cases hst
      | none =>
        obtain rfl : st' = st := congrArg Prod.fst hst
        obtain ⟨hlookup, hlength', -, hjson'⟩ := read_block hread
        have hvalues := value_ne_of_read (congrArg Prod.snd hread)
        have hplainly := (dictionary_iff hvalues).mp fun name =>
          (hlookup name).symm.trans (hdictionary name)
        refine ⟨hplainly, (length_iff hplainly).mp (hlength'.symm.trans hlength), ?_⟩
        rw [← (flags_iff hplainly).2, ← hjson, hjson', Bool.or_eq_true]
  · rintro ⟨hplainly, hlength, hjson⟩
    have hvalues : ∀ f ∈ b.fields, f.value ≠ [] := fun f hf => (hplainly f hf).value_ne
    have hnone : (({ m_JSON } : HeaderState).read b.fields).2 = none := by
      refine (read_eq_none_iff _ _).mpr ⟨hvalues, fun done f more heq _ _ _ => ?_⟩
      have hf : f ∈ b.fields := heq ▸ List.mem_append_right _ List.mem_cons_self
      rw [(plainly_iff (b.legal f hf) (hvalues f hf)).mp (hplainly f hf)]
      nofun
    cases hread : ({ m_JSON } : HeaderState).read b.fields with
    | mk st halt =>
      rw [hread] at hnone
      obtain rfl : halt = none := hnone
      obtain ⟨hlookup, hlength', hchunked, hjson'⟩ := read_block hread
      obtain ⟨hchunked', hjson''⟩ := flags_iff hplainly
      refine ⟨st, _, rfl, fun name => ?_, hlength'.trans ((length_iff hplainly).mpr hlength), ?_,
        ?_⟩
      · rw [hlookup, (dictionary_iff hvalues).mpr hplainly]
      · rw [hchunked, hchunked']
      · rw [hjson', Bool.or_eq_true, hjson'', hjson]

/-- A field without white space behind its colon. -/
def unspaced : Field where
  name := str "Server"
  value := str "nginx"
  name_ne := by decide
  name_ok := by decide
  value_ok := by decide

/-- A response whose header has no blank behind its colon. -/
def unspacedBlock : Block where
  firstLine := str "HTTP/1.1 200 OK"
  fields := [unspaced]
  body := []
  firstLine_ok := by decide
  legal := List.forall_mem_singleton.mpr
    ⟨List.all_eq_true.mp (by decide), List.all_eq_true.mp (by decide)⟩
  length_ok := by
    rw [List.forall_mem_singleton]
    exact fun h => absurd h (by decide)

/-- Its text is read without its first byte. -/
theorem text_cut :
    (∃ st rest, extractHeaders false unspacedBlock.bytes = (st, .ok rest) ∧
      st.m_Headers.lookup (str "Server") = some (.text (str "ginx"))) ∧
      ¬ Faithful false unspacedBlock := by
  have htext : buildString (str "ginx") = some (.text (str "ginx")) :=
    (buildString_eq_iff (by decide)).mpr ⟨rfl, validateUTF8_of_ascii fun b hb =>
      (token_ascii (List.all_eq_true.mp (by decide) b hb)).1⟩
  have hnone : (({ m_JSON := false } : HeaderState).read unspacedBlock.fields).2 = none := by
    refine (read_eq_none_iff _ _).mpr
      ⟨List.forall_mem_singleton.mpr (by decide), fun done f more heq _ _ _ => ?_⟩
    have hf : f ∈ unspacedBlock.fields := heq ▸ List.mem_append_right _ List.mem_cons_self
    rw [List.mem_singleton.mp hf, show unspaced.text = str "ginx" from rfl, htext]
    nofun
  have hextract := extractHeaders_block false unspacedBlock
  cases hread : ({ m_JSON := false } : HeaderState).read unspacedBlock.fields with
  | mk st halt =>
    rw [hread] at hnone hextract
    obtain rfl : halt = none := hnone
    have hlookup : st.m_Headers.lookup (str "Server") = some (.text (str "ginx")) :=
      ((read_block hread).1 _).trans htext
    refine ⟨⟨st, _, hextract, hlookup⟩, ?_⟩
    rintro ⟨st', rest, hst, hdictionary, -⟩
    obtain rfl : st = st' := congrArg Prod.fst (hextract.symm.trans hst)
    have hentry : some (PyValue.text (str "ginx")) = some (.text (str "nginx")) :=
      hlookup.symm.trans (hdictionary _)
    injection hentry with hentry
    injection hentry with hentry
    exact absurd hentry (by decide)

end Domoticz.Http
