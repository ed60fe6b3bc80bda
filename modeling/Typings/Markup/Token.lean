import Typings.Markup.Attribute
import Typings.Markup.Doctype
import Typings.Markup.Error

/-!
# Tokens of markup

Splitting a text into tags and the text between them. Comments, character data sections,
instructions, document types and references are passed over, apart from splitting the text around
them. Names are not checked, nor are references expanded.
-/

namespace Typings.Markup

/-- A token of a document. -/
inductive Token where
  /-- The start tag of an element. -/
  | opening (tag : Tag)
  /-- An element without content. -/
  | empty (tag : Tag)
  /-- The end tag of an element. -/
  | closing (name : String)
  /-- Text between markup, not blank, without white space at its ends. -/
  | text (content : String)
  deriving DecidableEq, Repr

/-- The text without the white space at its end. -/
def trimEnd (s : String) : String :=
  String.ofList (s.toList.reverse.dropWhile isSpace).reverse

/-- The content begins with the given text. -/
def startsWith (content start : String) : Bool :=
  start.toList.isPrefixOf content.toList

/-- The content ends with the given text. -/
def endsWith (content stop : String) : Bool :=
  stop.toList.isSuffixOf content.toList

namespace Token

/-- The token of a tag with the given content; a slash at its end makes the element empty. -/
def ofElement (content : String) : Token :=
  match content.toList.reverse with
  | '/' :: r => .empty (Tag.ofContent r.reverse)
  | _ => .opening (Tag.ofContent content.toList)

/-- The token of an end tag with the given content. A name of white space alone is kept. -/
def ofClosing (content : String) : Token :=
  let name := trimEnd content
  .closing (if name.isEmpty then content else name)

end Token

namespace Tokenizer

/-- The place reached within a document. -/
inductive Place where
  /-- Between items, before any text. -/
  | between
  | text (content : String)
  | reference
  /-- Behind an opening angle bracket. -/
  | bracket
  | element (content : String) (quote : Option Char)
  | closing (content : String) (quote : Option Char)
  | instruction (content : String)
  /-- Behind an opening angle bracket and an exclamation mark. -/
  | exclamation
  | comment (content : String)
  | characterData (content : String)
  | doctype (content : String) (inner : Doctype)
  deriving DecidableEq, Repr

/-- Where reading goes on, and the token that has become complete. -/
abbrev Step := Except Error (Place × Option Token)

/-- Goes on without a token. -/
def goOn (place : Place) : Step := .ok (place, none)

/-- Within a tag a quote opens a value and the same quote closes it. -/
def stepQuote (quote : Option Char) (c : Char) : Option Char :=
  match quote with
  | some q => if c = q then none else quote
  | none => if isQuote c then some c else none

/-- Reads one more character of the tag of an element. -/
def stepElement (content : String) (quote : Option Char) (c : Char) : Step :=
  if quote = none ∧ c = '>' then .ok (.between, some (.ofElement content))
  else goOn (.element (content.push c) (stepQuote quote c))

/-- Reads one more character of an end tag. -/
def stepClosing (content : String) (quote : Option Char) (c : Char) : Step :=
  if quote = none ∧ c = '>' then .ok (.between, some (.ofClosing content))
  else goOn (.closing (content.push c) (stepQuote quote c))

/-- Reads one more character of an instruction. The question mark that opens it may also close
it, which leaves it unclosed. -/
def stepInstruction (content : String) (c : Char) : Step :=
  if c = '>' && endsWith content "?" then
    if content = "?" then .error .unclosedInstruction else goOn .between
  else goOn (.instruction (content.push c))

/-- Reads one more character of a comment. -/
def stepComment (content : String) (c : Char) : Step :=
  if c = '>' && endsWith content "--" && 5 ≤ content.length then
    if startsWith content "!--" then goOn .between else .error .unclosedComment
  else goOn (.comment (content.push c))

/-- Reads one more character of a character data section. -/
def stepCharacterData (content : String) (c : Char) : Step :=
  if c = '>' && endsWith content "]]" then
    if startsWith content "![CDATA[" then goOn .between else .error .unclosedCharacterData
  else goOn (.characterData (content.push c))

/-- Ends a document type declaration, whose keyword may be in either case. -/
def finishDoctype (content : String) : Step :=
  if (content.toList.take 8).map Char.toUpper = "!DOCTYPE".toList then
    if (content.toList.drop 8).all isSpace then .error .unnamedDoctype else goOn .between
  else .error .unclosedDoctype

/-- Reads one more character of a document type declaration. -/
def stepDoctype (content : String) (inner : Doctype) (c : Char) : Step :=
  match inner.step c with
  | .ended => finishDoctype content
  | inner => goOn (.doctype (content.push c) inner)

/-- Reads one more character. -/
def Place.step (place : Place) (c : Char) : Step :=
  match place with
  | .between =>
    if isSpace c then goOn .between
    else if c = '<' then goOn .bracket
    else if c = '&' then goOn .reference
    else goOn (.text c.toString)
  | .text content =>
    if c = '<' then .ok (.bracket, some (.text (trimEnd content)))
    else if c = '&' then .ok (.reference, some (.text (trimEnd content)))
    else goOn (.text (content.push c))
  | .reference =>
    if c = ';' then goOn .between
    else if c = '&' ∨ c = '<' then .error .unclosedReference
    else goOn .reference
  | .bracket =>
    if c = '/' then goOn (.closing "" none)
    else if c = '?' then goOn (.instruction "?")
    else if c = '!' then goOn .exclamation
    else stepElement "" none c
  | .element content quote => stepElement content quote c
  | .closing content quote => stepClosing content quote c
  | .instruction content => stepInstruction content c
  | .exclamation =>
    if c = '-' then goOn (.comment "!-")
    else if c = '[' then goOn (.characterData "![")
    else if c = 'D' ∨ c = 'd' then goOn (.doctype ("!".push c) (.beforeSubset none))
    else .error .unknownMarkup
  | .comment content => stepComment content c
  | .characterData content => stepCharacterData content c
  | .doctype content inner => stepDoctype content inner c

/-- The error of a tag that the input ends within. -/
def unclosedTag : Option Char → Error
  | none => .unclosedTag
  | some quote => .unclosedValue quote

/-- An instruction is the declaration of the document when its name is `xml`. -/
def isDeclaration (content : String) : Bool :=
  startsWith content "?xml" &&
    match content.toList.drop 4 with
    | [] => true
    | c :: _ => isSpace c || c == '?'

/-- What the end of the input means: a last token, or an error. -/
def Place.finish : Place → Except Error (Option Token)
  | .between => .ok none
  | .text content => .ok (some (.text (trimEnd content)))
  | .reference => .error .unclosedReference
  | .bracket => .error .unclosedTag
  | .element _ quote | .closing _ quote => .error (unclosedTag quote)
  | .instruction content =>
    .error (if isDeclaration content then .unclosedDeclaration else .unclosedInstruction)
  | .exclamation => .error .unknownMarkup
  | .comment _ => .error .unclosedComment
  | .characterData _ => .error .unclosedCharacterData
  | .doctype _ _ => .error .unclosedDoctype

/-- The tokens of the rest of a document, and the error that ends them if one does. -/
def run : Place → List Char → List Token × Option Error
  | place, [] =>
    match place.finish with
    | .ok none => ([], none)
    | .ok (some token) => ([token], none)
    | .error e => ([], some e)
  | place, c :: r =>
    match place.step c with
    | .ok (place, none) => run place r
    | .ok (place, some token) =>
      let (tokens, failure) := run place r
      (token :: tokens, failure)
    | .error e => ([], some e)

end Tokenizer

/-- The tokens of a document, and the error that ends them if one does. One byte order mark at the
start is passed over. -/
def tokenize (document : String) : List Token × Option Error :=
  match document.toList with
  | '\uFEFF' :: r => Tokenizer.run .between r
  | cs => Tokenizer.run .between cs

end Typings.Markup
