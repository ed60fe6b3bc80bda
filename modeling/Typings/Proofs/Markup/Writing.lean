import Typings.Proofs.Markup.Canonical
import Typings.Proofs.Markup.Document

/-!
# Writing documents

A document without text can be written tag by tag: the tags in their canonical form, and for each
end of an element the end tag of the innermost element that is open. What is written reads back.
-/

namespace Typings.Markup

open Grammar

/-- A tag to write, with the attributes as they are meant. -/
inductive Mark where
  | opened (element : String) (attributes : List Attribute)
  | empty (element : String) (attributes : List Attribute)
  | closed

/-- The event that is read when the tag is written. -/
def Mark.event : Mark → Event
  | .opened element attributes => .opened (canonicalTag element attributes)
  | .empty element attributes => .empty (canonicalTag element attributes)
  | .closed => .closed

/-- The names in a tag are names, and no two attributes have one key. -/
structure Writable (element : String) (attributes : List Attribute) : Prop where
  name : IsName element
  keys : ∀ a ∈ attributes, IsName a.1
  distinct : attributes.Pairwise fun a b => b.1 ≠ a.1

instance (element : String) (attributes : List Attribute) :
    Decidable (Writable element attributes) :=
  decidable_of_iff (IsName element ∧ (∀ a ∈ attributes, IsName a.1) ∧
    attributes.Pairwise fun a b => b.1 ≠ a.1)
    ⟨fun h => ⟨h.1, h.2.1, h.2.2⟩, fun h => ⟨h.1, h.2, h.3⟩⟩

/-- Every tag can be written, and the elements that are open in the end are those that are open
before, from the innermost outwards. -/
def Nests : List String → List Mark → Prop
  | names, [] => names = []
  | names, .opened element attributes :: marks =>
    Writable element attributes ∧ Nests (element :: names) marks
  | names, .empty element attributes :: marks => Writable element attributes ∧ Nests names marks
  | [], .closed :: _ => False
  | name :: names, .closed :: marks => IsName name ∧ Nests names marks

instance decidableNests :
    (names : List String) → (marks : List Mark) → Decidable (Nests names marks)
  | names, [] => inferInstanceAs (Decidable (names = []))
  | names, .opened element attributes :: marks =>
    have := decidableNests (element :: names) marks
    inferInstanceAs (Decidable (Writable element attributes ∧ Nests (element :: names) marks))
  | names, .empty element attributes :: marks =>
    have := decidableNests names marks
    inferInstanceAs (Decidable (Writable element attributes ∧ Nests names marks))
  | [], .closed :: _ => .isFalse id
  | name :: names, .closed :: marks =>
    have := decidableNests names marks
    inferInstanceAs (Decidable (IsName name ∧ Nests names marks))

/-- The text of tags inside the open elements of the given names. -/
def written : List String → List Mark → List Char
  | _, [] => []
  | names, .opened element attributes :: marks =>
    '<' :: canonicalText element attributes ++ '>' :: written (element :: names) marks
  | names, .empty element attributes :: marks =>
    '<' :: canonicalText element attributes ++ "/>".toList ++ written names marks
  | names, .closed :: marks =>
    "</".toList ++ (names.headD "").toList ++ [] ++ '>' :: written names.tail marks

lemma Writable.tagText {element attributes} (h : Writable element attributes) :
    TagText (canonicalText element attributes) (canonicalTag element attributes) :=
  tagText_canonicalText h.name h.keys h.distinct

/-- What is written inside open elements is read as the tags. -/
lemma Document.after_written {names marks} (h : Nests names marks) :
    after names (written names marks) = ⟨marks.map Mark.event, none⟩ := by
  induction marks generalizing names with
  | nil =>
    obtain rfl : names = [] := by simpa [Nests] using h
    rfl
  | cons mark marks ih =>
    cases mark with
    | opened element attributes =>
      obtain ⟨hwritable, h⟩ : Writable element attributes ∧ Nests (element :: names) marks := by
        simpa [Nests] using h
      rw [written, after_opening hwritable.tagText]
      exact congrArg (Document.cons _) (ih h)
    | empty element attributes =>
      obtain ⟨hwritable, h⟩ : Writable element attributes ∧ Nests names marks := by
        simpa [Nests] using h
      rw [written, after_empty hwritable.tagText, ih h]
      rfl
    | closed =>
      cases names with
      | nil => exact absurd h (by simp [Nests])
      | cons name names =>
        obtain ⟨hname, h⟩ : IsName name ∧ Nests names marks := by simpa [Nests] using h
        have hblank : Blank [] := by simp [Blank]
        rw [written, List.headD_cons, after_closing hname hblank, List.tail_cons, ih h]
        rfl

/-- What is written reads back. -/
theorem ofText_written {marks} (h : Nests [] marks) :
    Document.ofText (.ofList (written [] marks)) = ⟨marks.map Mark.event, none⟩ := by
  -- A written document begins with a bracket.
  have hhead : (written [] marks).head? ≠ some '\uFEFF' := by
    cases marks with
    | nil => exact nofun
    | cons mark marks =>
      cases mark with
      | closed => exact absurd h (by simp [Nests])
      | opened element attributes => exact nofun
      | empty element attributes => exact nofun
  rw [← String.toList_ofList (l := written [] marks)] at hhead
  rw [Document.ofText, tokenize_of_head? hhead, String.toList_ofList]
  exact Document.after_written h

example : String.ofList (written [] [.opened "a" [("b", "<")], .empty "c" [], .closed]) =
    "<a b=\"&lt;\"><c/></a>" := by
  decide +kernel

end Typings.Markup
