import Mathlib.Tactic.Lemma
import Typings.Markup.Escape
import Typings.Markup.Event

/-!
# The grammar of markup

Which events a text is a document of, given by derivations. White space, comments and instructions
may stand between the items of a document, attributes may stand apart as one likes, and values are
quoted either way. Names are what no delimiter ends.
-/

namespace Typings.Markup

namespace Grammar

/-- Nothing but white space. -/
def Blank (cs : List Char) : Prop :=
  ∀ c ∈ cs, isSpace c = true

/-- The character may stand in a name. -/
def InName (c : Char) : Prop :=
  isSpace c = false ∧ isQuote c = false ∧ c ∉ ['<', '>', '/', '=', '!', '?']

/-- The text is the name of an element or the key of an attribute. -/
structure IsName (name : String) : Prop where
  nonempty : name.toList ≠ []
  letters : ∀ c ∈ name.toList, InName c

instance : DecidablePred InName := fun _ => inferInstanceAs (Decidable (_ ∧ _ ∧ _))

lemma isName_iff {name : String} :
    IsName name ↔ name.toList ≠ [] ∧ name.toList.all (InName ·) = true := by
  rw [List.all_eq_true]
  exact ⟨fun h => ⟨h.nonempty, by simpa using h.letters⟩, fun h => ⟨h.1, by simpa using h.2⟩⟩

instance {name : String} : Decidable (IsName name) := decidable_of_iff' _ isName_iff

/-- What stands between `&` and `;` refers to the character. -/
inductive Refers : List Char → Char → Prop where
  | named {name c} : (name, c) ∈ namedCharacters → Refers name.toList c
  | number {digits c} :
    (∀ d ∈ digits, d ≠ '&' ∧ d ≠ ';') → characterOfNumber digits = .ok c → Refers ('#' :: digits) c

/-- The written value stands for the text. -/
inductive Escapes : List Char → List Char → Prop where
  | nil : Escapes [] []
  | plain {c written text} :
    c ≠ '&' → Escapes written text → Escapes (c :: written) (c :: text)
  | reference {r c written text} :
    Refers r c → Escapes written text → Escapes ('&' :: (r ++ ';' :: written)) (c :: text)

/-- The text is an attribute behind white space, its value as it is written. -/
inductive AttributeText : List Char → Attribute → Prop where
  | mk {blank key before after quote value} :
    Blank blank → blank ≠ [] → IsName key → Blank before → Blank after →
    isQuote quote = true → quote ∉ value.toList →
    AttributeText
      (blank ++ key.toList ++ before ++ '=' :: after ++ quote :: value.toList ++ [quote])
      (key, value)

/-- The text holds the attributes in order, no two with one key. -/
inductive AttributesText : List Char → List Attribute → Prop where
  | nil {blank} : Blank blank → AttributesText blank []
  | cons {cs rest a attributes} :
    AttributeText cs a → (∀ b ∈ attributes, b.1 ≠ a.1) → AttributesText rest attributes →
    AttributesText (cs ++ rest) (a :: attributes)

/-- The text is a tag between its brackets, without the slash of an empty element. -/
inductive TagText : List Char → Tag → Prop where
  | mk {name cs attributes} :
    IsName name → AttributesText cs attributes → TagText (name.toList ++ cs) ⟨name, attributes⟩

/-- The text is one piece of text of a document, without the white space around it. -/
structure IsText (text : String) : Prop where
  nonempty : text.toList ≠ []
  begins : ∀ c ∈ text.toList.head?, isSpace c = false
  ends : ∀ c ∈ text.toList.getLast?, isSpace c = false
  plain : ∀ c ∈ text.toList, c ≠ '<' ∧ c ≠ '&'

/-- The text is the content of an element, or of the whole document, with the given events. -/
inductive Content : List Char → List Event → Prop where
  | nil : Content [] []
  | space {c rest events} :
    isSpace c = true → Content rest events → Content (c :: rest) events
  | comment {body rest events} :
    ¬['-', '-'] <:+: body → Content rest events →
    Content ("<!--".toList ++ body ++ "-->".toList ++ rest) events
  | instruction {body rest events} :
    ¬['?', '>'] <:+: '?' :: body → Content rest events →
    Content ("<?".toList ++ body ++ "?>".toList ++ rest) events
  | text {text blank rest events} :
    IsText text → Blank blank → (∀ c ∈ rest.head?, c = '<') → Content rest events →
    Content (text.toList ++ blank ++ rest) (.text text :: events)
  | empty {cs tag rest events} :
    TagText cs tag → Content rest events →
    Content ('<' :: cs ++ "/>".toList ++ rest) (.empty tag :: events)
  | element {cs tag inner blank rest events events'} :
    TagText cs tag → Content inner events → Blank blank → Content rest events' →
    Content ('<' :: cs ++ '>' :: inner ++ "</".toList ++ tag.name.toList ++ blank ++ '>' :: rest)
      (.opened tag :: events ++ .closed :: events')

end Grammar

/-- The text is a document with the given events, perhaps behind a byte order mark. -/
inductive Spells : String → List Event → Prop where
  | plain {text events} :
    text.toList.head? ≠ some '\uFEFF' → Grammar.Content text.toList events → Spells text events
  | marked {text cs events} :
    text.toList = '\uFEFF' :: cs → Grammar.Content cs events → Spells text events

end Typings.Markup
