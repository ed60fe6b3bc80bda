/-!
# Files

A file is what stands at a path: its bytes, or nothing. The text of a file exists only when its
bytes are well-formed UTF-8.
-/

namespace Typings

/-- What keeps a text from being read from a file or written to one. -/
inductive FileError where
  | notFound
  /-- The content is no text. -/
  | notText
  deriving DecidableEq, Repr

/-- The wording of a file error. -/
def FileError.message : FileError → String
  | .notFound => "No such file or directory (os error 2)"
  | .notText => "stream did not contain valid UTF-8"

/-- What stands at a path. -/
abbrev File := Option ByteArray

/-- The text of a file. -/
def File.text : File → Except FileError String
  | none => .error .notFound
  | some bytes =>
    match String.fromUTF8? bytes with
    | some text => .ok text
    | none => .error .notText

/-- Whether the folder that a file is written into is there. -/
inductive Folder where
  | present
  | missing
  deriving DecidableEq, Repr

/-- The file that holds a text written into a folder. -/
def Folder.write (text : String) : Folder → Except FileError File
  | .present => .ok (some text.toUTF8)
  | .missing => .error .notFound

/-- A text written to a file reads back. -/
theorem File.text_toUTF8 (s : String) : File.text (some s.toUTF8) = .ok s := by
  simp [File.text, String.fromUTF8?, s.isValidUTF8, String.fromUTF8]

end Typings
