import Mathlib.Tactic.Lemma
import Typings.Markup.Event

/-!
# Nesting of elements

Which elements are open at a place of a document follows from the events in front of it. Every end
tag of a document closes the innermost of them, but a document may end while elements are open.
-/

namespace Typings.Markup

/-- The elements that are open behind an event, from the innermost outwards. -/
def openAfter (tags : List Tag) : Event → List Tag
  | .opened tag => tag :: tags
  | .closed => tags.tail
  | .empty _ | .text _ => tags

/-- The elements that events leave open, from the innermost outwards. -/
def openElements (events : List Event) : List Tag :=
  events.foldl openAfter []

/-- Inside the open elements, every end tag closes an element. -/
def Nested : List Tag → List Event → Prop
  | _, [] => True
  | tags, event :: rest => (event = .closed → tags ≠ []) ∧ Nested (openAfter tags event) rest

/-- Inside the open elements, no element begins directly in an element of the name. -/
def NoneBegins (name : String) : List Tag → List Event → Prop
  | _, [] => True
  | tags, .opened tag :: rest =>
    tags.head?.map (·.name) ≠ some name ∧ NoneBegins name (tag :: tags) rest
  | tags, .closed :: rest => NoneBegins name tags.tail rest
  | tags, .empty _ :: rest | tags, .text _ :: rest => NoneBegins name tags rest

/-- End tags are checked against the elements that are open. -/
lemma nested_ofTokens (tags : List Tag) (tokens : List Token) (failure : Option Error) :
    Nested tags (Document.ofTokens (tags.map (·.name)) tokens failure).events := by
  induction tokens generalizing tags with
  | nil => trivial
  | cons token rest ih =>
    cases token with
    | opening tag => exact ⟨nofun, ih (tag :: tags)⟩
    | empty tag => exact ⟨nofun, ih tags⟩
    | text content => exact ⟨nofun, ih tags⟩
    | closing name =>
      cases tags with
      | nil => trivial
      | cons tag tags =>
        rw [List.map_cons, Document.ofTokens]
        split
        · exact ⟨fun _ => by simp, ih tags⟩
        · trivial

/-- The end tags of a document close its elements. -/
lemma nested_ofText (text : String) : Nested [] (Document.ofText text).events :=
  nested_ofTokens [] _ _

end Typings.Markup
