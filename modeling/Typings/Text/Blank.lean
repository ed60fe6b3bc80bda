import Typings.Text.Ranges

/-!
# White space

The Unicode property `White_Space`, trimming, and blank texts. A name made of white space alone
counts as missing throughout the library.
-/

namespace Typings.Text

/-- The ranges of white space. -/
def spaceRanges : List (Nat × Nat) :=
  [(0x9, 0xD), (0x20, 0x20), (0x85, 0x85), (0xA0, 0xA0), (0x1680, 0x1680), (0x2000, 0x200A),
   (0x2028, 0x2029), (0x202F, 0x202F), (0x205F, 0x205F), (0x3000, 0x3000)]

/-- White space of any script, line and page breaks included. -/
def isSpace (c : Char) : Bool :=
  inRanges spaceRanges c

/-- The text without the white space at its two ends. -/
def trim (s : String) : String :=
  String.ofList ((s.toList.dropWhile isSpace).reverse.dropWhile isSpace).reverse

/-- A text is blank when it holds nothing but white space. -/
def isBlank (s : String) : Bool :=
  s.toList.all isSpace

/-- ASCII white space is white space. -/
theorem isSpace_of_isWhitespace {c : Char} (h : c.isWhitespace = true) : isSpace c = true := by
  simp only [Char.isWhitespace, Bool.or_eq_true, decide_eq_true_eq] at h
  rcases h with ((rfl | rfl) | rfl) | rfl <;> decide

/-- A text is blank exactly when trimming leaves nothing of it. -/
theorem trim_eq_empty_iff {s : String} : trim s = "" ↔ isBlank s = true := by
  have dropped (cs : List Char) : cs.dropWhile isSpace = [] ↔ cs.all isSpace = true := by
    induction cs with
    | nil => simp
    | cons c r ih => by_cases h : isSpace c <;> simp [h, ih]
  have empty (cs : List Char) : String.ofList cs = "" ↔ cs = [] := by
    rw [← String.toList_inj, String.toList_ofList]; simp
  rw [trim, empty, List.reverse_eq_nil_iff, dropped, isBlank]
  simp only [List.all_eq_true, List.mem_reverse]
  refine ⟨fun h c hc => ?_, fun h c hc => h c (List.dropWhile_sublist _ |>.mem hc)⟩
  rw [← List.takeWhile_append_dropWhile (p := isSpace) (l := s.toList), List.mem_append] at hc
  rcases hc with hc | hc
  · exact List.all_eq_true.1 List.all_takeWhile c hc
  · exact h c hc

end Typings.Text
