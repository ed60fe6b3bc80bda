/-!
# Errors of markup

What stops the reading of a document: an item that the input ends before it is closed, an end tag
out of place, or an item that is none of the known ones.
-/

namespace Typings.Markup

/-- What makes a text no markup. -/
inductive Error where
  | unclosedTag
  | unclosedValue (quote : Char)
  | unclosedComment
  | unclosedCharacterData
  | unclosedDoctype
  | unclosedInstruction
  | unclosedDeclaration
  | unclosedReference
  | unknownMarkup
  | unnamedDoctype
  | mismatchedEnd (expected found : String)
  | unmatchedEnd (found : String)
  deriving DecidableEq, Repr

namespace Error

/-- The wording for an item of the given kind whose closing text was never found. -/
def notFound (item closing : String) : String :=
  item ++ " not closed: `" ++ closing ++ "` not found before end of input"

/-- The wording of an error. -/
def message : Error → String
  | unclosedTag => "syntax error: " ++ notFound "tag" ">"
  | unclosedValue quote => "syntax error: " ++ notFound "attribute value" quote.toString
  | unclosedComment => "syntax error: " ++ notFound "comment" "-->"
  | unclosedCharacterData => "syntax error: " ++ notFound "CDATA" "]]>"
  | unclosedDoctype => "syntax error: " ++ notFound "DOCTYPE" ">"
  | unclosedInstruction => "syntax error: " ++ notFound "processing instruction" "?>"
  | unclosedDeclaration => "syntax error: " ++ notFound "XML declaration" "?>"
  | unknownMarkup => "syntax error: unknown or missed symbol in markup"
  | unclosedReference =>
    "ill-formed document: " ++ notFound "entity or character reference" ";"
  | unnamedDoctype =>
    "ill-formed document: `<!DOCTYPE>` declaration does not contain a name of a document type"
  | mismatchedEnd expected found =>
    "ill-formed document: expected `</" ++ expected ++ ">`, but `</" ++ found ++ ">` was found"
  | unmatchedEnd found =>
    "ill-formed document: close tag `</" ++ found ++ ">` does not match any open tag"

end Error

end Typings.Markup
