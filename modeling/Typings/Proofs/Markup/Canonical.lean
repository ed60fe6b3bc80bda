import Typings.Proofs.Markup.Attribute

/-!
# Canonical tags

One way to write a tag for each list of attributes: a space in front of each, its value in double
quotes, and every character that has a name written by its name.
-/

namespace Typings.Markup

open Grammar

/-- The character as it is written in a value. -/
def escapeChar (c : Char) : List Char :=
  match namedCharacters.find? (·.2 == c) with
  | some (name, _) => '&' :: (name.toList ++ [';'])
  | none => [c]

/-- The value as it is written. -/
def escape (value : String) : String :=
  String.ofList (value.toList.flatMap escapeChar)

/-- A value of characters that have no names is written as it is. -/
lemma escape_eq_self {value : String} (h : ∀ c ∈ value.toList, escapeChar c = [c]) :
    escape value = value := by
  rw [escape, ← String.toList_inj, String.toList_ofList, List.flatMap_congr h]
  simp

/-- What is written stands for the value. -/
lemma escapes_escape (value : String) : Escapes (escape value).toList value.toList := by
  rw [escape, String.toList_ofList]
  induction value.toList with
  | nil => exact .nil
  | cons c cs ih =>
    rw [List.flatMap_cons, escapeChar]
    cases hfind : namedCharacters.find? (·.2 == c) with
    | none =>
      refine .plain ?_ ih
      rintro rfl
      revert hfind
      decide
    | some named =>
      obtain ⟨name, d⟩ := named
      obtain rfl : d = c := by simpa using List.find?_some hfind
      have hrefers := Refers.named (List.mem_of_find?_eq_some hfind)
      simpa using Escapes.reference hrefers ih

/-- What is written holds no double quote. -/
lemma not_mem_escape (value : String) : '"' ∉ (escape value).toList := by
  rw [escape, String.toList_ofList, List.mem_flatMap]
  rintro ⟨c, -, hc⟩
  rw [escapeChar] at hc
  cases hfind : namedCharacters.find? (·.2 == c) with
  | none =>
    rw [hfind, List.mem_singleton] at hc
    subst hc
    revert hfind
    decide
  | some named =>
    rw [hfind] at hc
    have hnames : ∀ named ∈ namedCharacters, '"' ∉ '&' :: (named.1.toList ++ [';']) := by decide
    exact hnames named (List.mem_of_find?_eq_some hfind) hc

/-- The canonical tag of an element with the given attributes. -/
def canonicalTag (element : String) (attributes : List Attribute) : Tag :=
  ⟨element, attributes.map fun a => (a.1, escape a.2)⟩

/-- The attribute as it is written behind a name. -/
def attributeText (a : Attribute) : List Char :=
  [' '] ++ a.1.toList ++ [] ++ '=' :: [] ++ '"' :: (escape a.2).toList ++ ['"']

/-- The content of the canonical tag. -/
def canonicalText (element : String) (attributes : List Attribute) : List Char :=
  element.toList ++ attributes.flatMap attributeText

/-- The canonical tag is one of the grammar, when its names are and no key comes twice. -/
lemma tagText_canonicalText {element : String} {attributes : List Attribute}
    (hname : IsName element) (hkeys : ∀ a ∈ attributes, IsName a.1)
    (hdistinct : attributes.Pairwise fun a b => b.1 ≠ a.1) :
    TagText (canonicalText element attributes) (canonicalTag element attributes) := by
  refine .mk hname ?_
  induction attributes with
  | nil => exact .nil (by simp [Blank])
  | cons a attributes ih =>
    rw [List.forall_mem_cons] at hkeys
    rw [List.pairwise_cons] at hdistinct
    have hblank : Blank [' '] := by simp [Blank, isSpace]
    have hempty : Blank [] := by simp [Blank]
    refine .cons (.mk hblank (by simp) hkeys.1 hempty hempty rfl (not_mem_escape a.2)) ?_
      (ih hkeys.2 hdistinct.2)
    intro b hb
    obtain ⟨b', hb', rfl⟩ := List.mem_map.1 hb
    exact hdistinct.1 b' hb'

end Typings.Markup
