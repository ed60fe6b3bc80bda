/-!
# Attributes of a tag

Reading the attributes behind the name of a tag is lenient: what is no attribute is passed over,
and of two attributes with one key the first counts. Values are given as they are written.
-/

namespace Typings.Markup

/-- White space between the parts of markup: space, tab, carriage return and line feed. -/
def isSpace (c : Char) : Bool :=
  c == ' ' || c == '\t' || c == '\r' || c == '\n'

/-- Key and written value of an attribute. -/
abbrev Attribute := String × String

/-- Single and double quotes delimit values. -/
def isQuote (c : Char) : Bool :=
  c == '"' || c == '\''

namespace Attribute

/-- The place reached within a list of attributes. -/
inductive Place where
  /-- Between two attributes. -/
  | between
  /-- Inside a key. -/
  | key (text : String)
  /-- Behind a key, where the equals sign may follow. -/
  | afterKey (text : String)
  /-- Behind the equals sign, before the value. -/
  | afterEquals (key : String)
  /-- Inside a value. -/
  | value (key : String) (quote : Char) (text : String)
  /-- Inside a refused attribute, which ends at the next white space. -/
  | refused
  deriving DecidableEq, Repr

/-- The state of reading: the place, the keys met so far, and the attributes read so far. -/
structure State where
  place : Place
  keys : List String
  read : List Attribute
  deriving DecidableEq, Repr

/-- Behind the equals sign of a key: a key met before is refused. -/
def State.equals (s : State) (key : String) : State :=
  if s.keys.contains key then { s with place := .refused }
  else { s with place := .afterEquals key, keys := key :: s.keys }

/-- Reads one more character. -/
def State.step (s : State) (c : Char) : State :=
  match s.place with
  | .between => if isSpace c then s else { s with place := .key c.toString }
  | .key text =>
    if c = '=' then s.equals text
    else if isSpace c then { s with place := .afterKey text }
    else { s with place := .key (text.push c) }
  | .afterKey text =>
    if isSpace c then s
    else if c = '=' then s.equals text
    else { s with place := .key c.toString }
  | .afterEquals key =>
    if isSpace c then s
    else if isQuote c then { s with place := .value key c "" }
    else { s with place := .refused }
  | .value key quote text =>
    if c = quote then { s with place := .between, read := s.read ++ [(key, text)] }
    else { s with place := .value key quote (text.push c) }
  | .refused => if isSpace c then { s with place := .between } else s

/-- The attributes in a text, in order; an attribute that the text ends within is left out. -/
def ofText (cs : List Char) : List Attribute :=
  (cs.foldl State.step ⟨.between, [], []⟩).read

end Attribute

/-- Name and attributes of an element. -/
structure Tag where
  name : String
  attributes : List Attribute
  deriving DecidableEq, Repr

/-- The tag whose content is given: the name ends at the first white space. -/
def Tag.ofContent (content : List Char) : Tag :=
  ⟨String.ofList (content.takeWhile (!isSpace ·)),
    Attribute.ofText (content.dropWhile (!isSpace ·))⟩

end Typings.Markup
