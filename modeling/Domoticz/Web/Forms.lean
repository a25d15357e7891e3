import Domoticz.Web.Path

/-!
# Form bodies

The bodies of form submissions as `CheckForAction` reads them, and the look
`CheckForPageOverride` takes at a multipart body before it runs a page.  Both
give up at whatever they do not expect.

## Main definitions

* `formPairs` — `name=value&name=value`.
* `formParts` — the parts of a multipart form.
* `multipartField` — the field of a multipart body that a page is given.
-/

namespace Domoticz

open CLib

/-! ### The forms of an action -/

/-- The pairs of a form; the end of the text in front of a `=` gives up. -/
def formPairs (s : Bytes) : Option (List (Bytes × Bytes)) :=
  match _h : cut (str "=") s with
  | none => none
  | some (name, rest) =>
      let plain (value : Bytes) := value.map fun b => if b = chr '+' then chr ' ' else b
      match _h' : cut (str "&") rest with
      | none => some [(name, plain rest)]
      | some (value, rest') => (formPairs rest').map ((name, plain value) :: ·)
termination_by s.length
decreasing_by
  have h1 := length_of_cut _h
  have h2 := length_of_cut _h'
  have hs : (str "=").length = 1 := rfl
  omega

/-- The variable a part is for, from its first line. -/
def formVariable (header : Bytes) : Option Bytes :=
  if find (str "Content-Disposition") header = some 0 then
    (cut (str "name=\"") header).bind fun c => (cut (str "\"") c.2).map (·.1)
  else none

/-- The text behind the second line of a part, which is empty or a content type; after
the content type of a file one more line is skipped. -/
def formContent (contentType s : Bytes) : Option Bytes :=
  if contains contentType (str "application/octet-stream") ||
      contains contentType (str "application/json") ||
      contains contentType (str "Content-Type: text/xml") ||
      contains contentType (str "Content-Type: text/x-hex") ||
      contains contentType (str "Content-Type: image/") then
    (cut (str "\r\n") s).map (·.2)
  else if contentType ≠ [] then none
  else some s

/-- One part of a multipart form: its variable, its value, and the text behind it. -/
def formPart (boundary s : Bytes) : Option ((Bytes × Bytes) × Bytes) := do
  let (header, s) ← cut (str "\r\n") s
  let szVariable ← formVariable header
  let (contentType, s) ← cut (str "\r\n") s
  let s ← formContent contentType s
  let pos ← find boundary s
  -- `pos - 2` wraps around when the boundary follows at once
  let value := if 2 ≤ pos then s.take (pos - 2) else s
  let (_, rest) ← cut (str "\r\n") (s.drop (pos + boundary.length))
  return ((szVariable, value), rest)

theorem length_formContent {contentType s s' : Bytes} (h : formContent contentType s = some s') :
    s'.length ≤ s.length := by
  unfold formContent at h
  split at h
  · obtain ⟨⟨a, b⟩, hab, rfl⟩ := Option.map_eq_some_iff.mp h
    have := length_of_cut hab
    show b.length ≤ s.length
    omega
  · split at h
    · cases h
    · cases h
      exact Nat.le_refl _

theorem length_formPart {boundary s rest : Bytes} {p : Bytes × Bytes}
    (h : formPart boundary s = some (p, rest)) : rest.length < s.length := by
  have hcrlf : (str "\r\n").length = 2 := rfl
  obtain ⟨⟨header, s1⟩, h1, h⟩ := Option.bind_eq_some_iff.mp h
  obtain ⟨szVariable, -, h⟩ := Option.bind_eq_some_iff.mp h
  obtain ⟨⟨contentType, s2⟩, h2, h⟩ := Option.bind_eq_some_iff.mp h
  obtain ⟨s3, h3, h⟩ := Option.bind_eq_some_iff.mp h
  obtain ⟨pos, -, h⟩ := Option.bind_eq_some_iff.mp h
  obtain ⟨⟨front, rest'⟩, h4, heq⟩ := Option.bind_eq_some_iff.mp h
  cases heq
  have hs1 := length_of_cut h1
  have hs2 := length_of_cut h2
  have hs3 := length_formContent h3
  have hs4 := length_of_cut h4
  rw [List.length_drop] at hs4
  omega

/-- The parts of a multipart form. -/
def formParts (boundary s : Bytes) : Option (List (Bytes × Bytes)) :=
  if s = [] then some []
  else match _h : formPart boundary s with
    | none => none
    | some (p, rest) => (formParts boundary rest).map (p :: ·)
termination_by s.length
decreasing_by exact length_formPart _h

/-- The form of a `POST`, or of the path behind the action's name; `none` when the
action is not to be called. -/
def actionForm (req : Request) (afterCode : Bytes) : Option (List (Bytes × Bytes)) :=
  if req.method = str "POST" then
    match req.getReqHeader "Content-Type" with
    | some contentType =>
        if contains contentType (str "multipart/form-data") then
          -- the first line is our boundary
          match cut (str "\r\n") req.content with
          | none => none
          | some (boundary, rest) => (formParts boundary rest).filter fun ps => ps ≠ []
        else formPairs req.content
    | none => formPairs req.content
  else formPairs afterCode

/-! ### The multipart body of a page -/

/-- `safeGetline`: the line, the text behind it, and whether the end was hit.  At the
end of the text the line keeps what it held before. -/
def safeGetline (rest previous : Bytes) : Bytes × Bytes × Bool :=
  match rest with
  | [] => (previous, [], true)
  | _ =>
      let line := upTo (chr '\n') rest
      (if line.getLast? = some (chr '\r') then line.dropLast else line,
        (rest.dropWhile (· != chr '\n')).drop 1, !rest.contains (chr '\n'))

/-- What the scan of a multipart body comes to: a bad request, an exception, or the
field that is added to the parameters, if one is found. -/
inductive MultipartScan
  | badRequest
  | threw
  | field (entry : Option (Bytes × Bytes))
  deriving DecidableEq, Repr

theorem safeGetline_length (rest previous : Bytes) (h : (safeGetline rest previous).2.2 = false) :
    (safeGetline rest previous).2.1.length < rest.length := by
  cases rest with
  | nil => cases h
  | cons b s =>
    simp only [safeGetline, List.length_drop] at h ⊢
    have hle := (List.dropWhile_suffix (l := b :: s) (· != chr '\n')).length_le
    have hmem : chr '\n' ∈ b :: s :=
      List.contains_iff_mem.mp (by simpa only [Bool.not_eq_false'] using h)
    have hpos : 0 < ((b :: s).dropWhile (· != chr '\n')).length := by
      rw [List.length_pos_iff]
      intro hnil
      have := List.dropWhile_eq_nil_iff.mp hnil _ hmem
      simp at this
    simp only [List.length_cons] at hle ⊢
    omega

/-- The scan, in its state `ii`: the boundary, the disposition, the empty line in
front of the data. -/
def multipartScan (boundary rest previous : Bytes) (ii : ℕ) (vName : Bytes) : MultipartScan :=
  match _h : safeGetline rest previous with
  | (line, rest', eof) =>
      let next (ii : ℕ) (vName : Bytes) : MultipartScan :=
        if _heof : eof = true then .field none
        else multipartScan boundary rest' line ii vName
      match ii with
      | 0 => if line ≠ boundary then .badRequest else next 1 vName
      | 1 =>
          if contains line (str "Content-Disposition:") then
            match cut (str "name=\"") line with
            | none => .badRequest
            | some (_, name) =>
                match cut (str "\"") name with
                | none => .badRequest
                | some (name, _) => next 2 name
          else next 1 vName
      | _ =>
          if line = [] then
            -- at the end of the text the position is unknown, and its use raises an exception
            if eof then .threw
            else
              let tail := boundary.length + 6
              .field (some (vName,
                if tail ≤ rest'.length then rest'.take (rest'.length - tail) else rest'))
          else next ii vName
termination_by rest.length
decreasing_by
  have hlt := safeGetline_length rest previous
    (by rw [_h]; simpa using _heof)
  rw [_h] at hlt
  exact hlt

/-- The multipart field of a request, for `CheckForPageOverride`. -/
def multipartField (req : Request) : MultipartScan :=
  if req.method = str "POST" then
    match req.getReqHeader "Content-Type" with
    | some contentType =>
        if contains contentType (str "multipart") then
          match cut (str "boundary=") contentType with
          | none => .field none
          | some (_, boundary) => multipartScan (str "--" ++ boundary) req.content [] 0 []
        else .field none
    | none => .field none
  else .field none

end Domoticz
