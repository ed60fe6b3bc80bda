import Typings.Proofs.Markup.Writing

/-!
# Pieces of text

A text can be put together of pieces, each of which adds its events to those of whatever content
stands behind it: white space adds none, and an element adds its tags around the events of what is
in it.
-/

namespace Typings.Markup

open Grammar

/-- The piece of text adds the events in front of those of the content behind it. -/
def Adds (piece : String) (events : List Event) : Prop :=
  ∀ rest events', Content rest events' → Content (piece.toList ++ rest) (events ++ events')

/-- The element without content, written with one tag. -/
def emptyElement (element : String) (attributes : List Attribute) : String :=
  "<" ++ String.ofList (canonicalText element attributes) ++ "/>"

/-- The element around the given text. -/
def wrappedElement (element : String) (attributes : List Attribute) (inner : String) : String :=
  "<" ++ String.ofList (canonicalText element attributes) ++ ">" ++ inner ++ "</" ++ element ++ ">"

variable {piece piece' element : String} {attributes : List Attribute} {events events' : List Event}

/-- A piece is content itself. -/
lemma Adds.content (h : Adds piece events) : Content piece.toList events := by
  simpa using h [] [] .nil

/-- White space adds nothing. -/
lemma adds_blank (h : Blank piece.toList) : Adds piece [] := by
  intro rest events' hrest
  generalize piece.toList = cs at h
  induction cs with
  | nil => exact hrest
  | cons c cs ih =>
    obtain ⟨hc, hcs⟩ := List.forall_mem_cons.1 h
    exact .space hc (ih hcs)

/-- Pieces are joined with their events. -/
lemma Adds.append (h : Adds piece events) (h' : Adds piece' events') :
    Adds (piece ++ piece') (events ++ events') := by
  intro rest behind hrest
  rw [String.toList_append, List.append_assoc, List.append_assoc]
  exact h _ _ (h' _ _ hrest)

lemma adds_join {α : Type} {f : α → String} {g : α → List Event} {as : List α}
    (h : ∀ a ∈ as, Adds (f a) (g a)) : Adds (String.join (as.map f)) (as.flatMap g) := by
  induction as with
  | nil => exact adds_blank (by simp [Blank])
  | cons a as ih =>
    obtain ⟨ha, has⟩ := List.forall_mem_cons.1 h
    rw [List.map_cons, String.join_cons, List.flatMap_cons]
    exact ha.append (ih has)

/-- An element without content adds its tag. -/
lemma adds_emptyElement (h : Writable element attributes) :
    Adds (emptyElement element attributes) [.empty (canonicalTag element attributes)] := by
  intro rest behind hrest
  have hcontent := Content.empty h.tagText hrest
  simpa [emptyElement] using hcontent

/-- An element adds its tags around the events of what is in it. -/
lemma adds_wrappedElement (h : Writable element attributes) {inner : String}
    (hinner : Content inner.toList events) :
    Adds (wrappedElement element attributes inner)
      (.opened (canonicalTag element attributes) :: events ++ [.closed]) := by
  intro rest behind hrest
  have hblank : Blank [] := by simp [Blank]
  have hcontent := Content.element h.tagText hinner hblank hrest
  simpa [wrappedElement, canonicalTag] using hcontent

/-- A text is content. -/
lemma content_text {text : String} (h : IsText text) : Content text.toList [.text text] := by
  have hblank : Blank [] := by simp [Blank]
  have hcontent := Content.text h hblank (by simp) .nil
  simpa using hcontent

end Typings.Markup
