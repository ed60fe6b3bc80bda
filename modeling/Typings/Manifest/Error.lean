import Typings.File
import Typings.Markup.Error
import Typings.Markup.Escape
import Typings.TypeRef.Expression

/-!
# Errors of manifests

What makes a text or a file no manifest of a module.
-/

namespace Typings

namespace Manifest

/-- What may be declared twice in a manifest, and may not. -/
inductive Declared where
  | type
  | property
  deriving DecidableEq, Repr

/-- The noun for a kind of declaration. -/
def Declared.noun : Declared → String
  | .type => "type"
  | .property => "property"

/-- What makes a text or a file no manifest. -/
inductive Error where
  | markup (error : Markup.Error)
  | escape (error : Markup.EscapeError)
  | missingAttribute (element name : String)
  | invalidAttribute (element name value : String)
  | unknownElement (element context : String)
  | expression (error : TypeRef.ExpressionError)
  | duplicate (declared : Declared) (name : String)
  /-- The text ends inside an element of that name. -/
  | unclosed (element name : String)
  | noModule
  | file (error : FileError)
  deriving DecidableEq, Repr

/-- The wording of an error. -/
def Error.message : Error → String
  | markup e => "XML parsing error: " ++ e.message
  | escape e => "XML escape error: " ++ e.message
  | missingAttribute element name =>
    "missing required attribute '" ++ name ++ "' on element '" ++ element ++ "'"
  | invalidAttribute element name value =>
    "invalid value '" ++ value ++ "' for attribute '" ++ name ++ "' on element '" ++ element ++ "'"
  | unknownElement element context =>
    "unknown element '" ++ element ++ "' in context '" ++ context ++ "'"
  | expression e => e.message
  | duplicate declared name => "duplicate " ++ declared.noun ++ " definition: '" ++ name ++ "'"
  | unclosed element name =>
    "invalid manifest structure: unexpected end of input inside <" ++ element ++ " name=\"" ++
      name ++ "\">"
  | noModule => "invalid manifest structure: No module element found"
  | file e => "IO error: " ++ e.message

end Manifest

end Typings
