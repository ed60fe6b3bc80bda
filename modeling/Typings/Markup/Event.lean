import Typings.Markup.Token

/-!
# Events of a document

The events of a document are its tags and texts in order, with every end tag checked against the
element that it closes. A document may end while elements are open: that is for its reader to judge.
-/

namespace Typings.Markup

/-- An event of a document. -/
inductive Event where
  /-- An element begins. -/
  | opened (tag : Tag)
  /-- An element without content. -/
  | empty (tag : Tag)
  /-- The innermost open element ends. -/
  | closed
  /-- Text, not blank. -/
  | text (content : String)
  deriving DecidableEq, Repr

/-- A document as it is read: its events, and the error that cuts them short if one does. -/
structure Document where
  events : List Event
  failure : Option Error
  deriving DecidableEq, Repr

namespace Document

/-- The document with one more event in front. -/
def cons (event : Event) (document : Document) : Document :=
  { document with events := event :: document.events }

/-- Checks end tags: `names` are the open elements from the innermost outwards. -/
def ofTokens (names : List String) : List Token → Option Error → Document
  | [], failure => ⟨[], failure⟩
  | .opening tag :: r, failure => (ofTokens (tag.name :: names) r failure).cons (.opened tag)
  | .empty tag :: r, failure => (ofTokens names r failure).cons (.empty tag)
  | .text content :: r, failure => (ofTokens names r failure).cons (.text content)
  | .closing name :: r, failure =>
    match names with
    | [] => ⟨[], some (.unmatchedEnd name)⟩
    | expected :: outer =>
      if name = expected then (ofTokens outer r failure).cons .closed
      else ⟨[], some (.mismatchedEnd expected name)⟩

/-- The document written in a text. -/
def ofText (text : String) : Document :=
  let (tokens, failure) := tokenize text
  ofTokens [] tokens failure

end Document

end Typings.Markup
