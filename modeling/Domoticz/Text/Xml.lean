import Domoticz.Text.Lexical

/-!
# XML elements

The grammar of XML elements, as the bytes that its symbols derive: tags with
attributes, character data, references, CDATA sections, comments and processing
instructions.

## Main definitions

* `IsName`, `IsReference`, `Attributes` — the parts of a tag.
* `Symbol`, `Derives` — the grammar.
* `Element` — the text of an element.
-/

namespace Text.Xml

open CLib

/-- A byte of a character that XML admits. -/
def isChar (b : UInt8) : Bool := 0x20 ≤ b || b == 0x09 || b == 0x0A || b == 0x0D

/-- A letter, an underscore, a colon or a byte of a character beyond ASCII. -/
def isNameStart (b : UInt8) : Bool :=
  (0x41 ≤ b && b ≤ 0x5A) || (0x61 ≤ b && b ≤ 0x7A) || b == 0x5F || b == 0x3A || 0x80 ≤ b

/-- What may stand in a name behind its first byte. -/
def isNameByte (b : UInt8) : Bool := isNameStart b || isDigit b || b == 0x2D || b == 0x2E

/-- A name of an element or an attribute. -/
def IsName (s : Bytes) : Prop :=
  ∃ b t, s = b :: t ∧ isNameStart b = true ∧ ∀ c ∈ t, isNameByte c = true

/-- A reference to an entity or to a character by its number. -/
inductive IsReference : Bytes → Prop
  | entity {name : Bytes} : IsName name → IsReference (str "&" ++ name ++ str ";")
  | decimal {digits : Bytes} : IsDigits digits → IsReference (str "&#" ++ digits ++ str ";")
  | hexadecimal {digits : Bytes} : digits ≠ [] → (∀ b ∈ digits, isHexDigit b = true) →
      IsReference (str "&#x" ++ digits ++ str ";")

/-- What may stand between the quotes of an attribute.  A `>` may. -/
inductive AttributeValue (quote : UInt8) : Bytes → Prop
  | nil : AttributeValue quote []
  | plain {b : UInt8} {s : Bytes} : isChar b → b ≠ quote → b ≠ 0x3C → b ≠ 0x26 →
      AttributeValue quote s → AttributeValue quote (b :: s)
  | reference {r s : Bytes} : IsReference r → AttributeValue quote s → AttributeValue quote (r ++ s)

/-- Attributes of different names. -/
inductive Attributes : List Bytes → Bytes → Prop
  | nil : Attributes [] []
  | cons {ws name ws₁ ws₂ value rest : Bytes} {names : List Bytes} {quote : UInt8} :
      IsSpace ws → ws ≠ [] → IsName name → IsSpace ws₁ → IsSpace ws₂ →
      quote = 0x22 ∨ quote = 0x27 → AttributeValue quote value → name ∉ names →
      Attributes names rest →
      Attributes (name :: names)
        (ws ++ name ++ ws₁ ++ 0x3D :: ws₂ ++ quote :: value ++ quote :: rest)

/-- What the grammar derives texts from. -/
inductive Symbol
  | element
  /-- What may stand between the tags of an element. -/
  | content
  deriving DecidableEq, Repr

/-- The texts a symbol derives. -/
inductive Derives : Symbol → Bytes → Prop
  /-- An element of a single tag. -/
  | empty {name attributes ws : Bytes} {names : List Bytes} :
      IsName name → Attributes names attributes → IsSpace ws →
      Derives .element (0x3C :: (name ++ attributes ++ ws ++ str "/>"))
  | element {name attributes ws s ws' : Bytes} {names : List Bytes} :
      IsName name → Attributes names attributes → IsSpace ws → Derives .content s → IsSpace ws' →
      Derives .element
        (0x3C :: (name ++ attributes ++ ws ++ str ">" ++ s ++ str "</" ++ name ++ ws' ++ str ">"))
  | nothing : Derives .content []
  | charData {b : UInt8} {s : Bytes} : isChar b → b ≠ 0x3C → b ≠ 0x26 →
      ¬ str "]]>" <+: b :: s → Derives .content s → Derives .content (b :: s)
  | reference {r s : Bytes} : IsReference r → Derives .content s → Derives .content (r ++ s)
  | child {e s : Bytes} : Derives .element e → Derives .content s → Derives .content (e ++ s)
  | cdata {data s : Bytes} : (∀ b ∈ data, isChar b = true) → ¬ str "]]>" <:+: data ++ str "]]" →
      Derives .content s → Derives .content (str "<![CDATA[" ++ data ++ str "]]>" ++ s)
  | comment {data s : Bytes} : (∀ b ∈ data, isChar b = true) → ¬ str "--" <:+: data ++ str "-" →
      Derives .content s → Derives .content (str "<!--" ++ data ++ str "-->" ++ s)
  | instruction {target data s : Bytes} : IsName target → upper target ≠ str "XML" →
      (∀ b ∈ data, isChar b = true) → (∀ b, data.head? = some b → isWhitespace b = true) →
      ¬ str "?>" <:+: data → Derives .content s →
      Derives .content (str "<?" ++ target ++ data ++ str "?>" ++ s)

/-- The text of an element. -/
structure Element where
  text : Bytes
  derives : Derives .element text

/-- An element starts with `<` and has a `>`. -/
theorem Element.exists_front (e : Element) : ∃ s, e.text = 0x3C :: s ∧ 0x3E ∈ s := by
  obtain ⟨text, h⟩ := e
  have hend : (0x3E : UInt8) ∈ str ">" := List.mem_singleton_self _
  cases h with
  | empty => exact ⟨_, rfl, List.mem_append_right _ (List.mem_cons_of_mem _ hend)⟩
  | element => exact ⟨_, rfl, List.mem_append_right _ hend⟩

/-- An element with the white space in front of it. -/
structure Spaced where
  space : Bytes
  isSpace : IsSpace space
  element : Element

/-- An element with the space in front of it. -/
def Spaced.text (i : Spaced) : Bytes := i.space ++ i.element.text

end Text.Xml
