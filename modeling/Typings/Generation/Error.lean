import Typings.Manifest.Error
import Typings.WellFormed.Error

/-!
# Errors of generation

What keeps declarations from being configured, generated or written.
-/

namespace Typings.Generation

/-- Why a type cannot be registered. -/
inductive RegistrationFault where
  /-- The reference is no user-defined type. -/
  | notUserDefined
  /-- The module does not define the type. -/
  | undescribed
  deriving DecidableEq, Repr

/-- The wording of a registration fault. -/
def RegistrationFault.message : RegistrationFault → String
  | .notUserDefined => "only user-defined types can be registered"
  | .undescribed => "type is not described by the provider"

/-- Why a mapping is refused. -/
inductive MappingFault where
  | blankScript
  | blankDefault
  deriving DecidableEq, Repr

/-- The wording of a mapping fault. -/
def MappingFault.message : MappingFault → String
  | .blankScript => "script type cannot be empty"
  | .blankDefault => "default value cannot be empty"

/-- The names that a transform can change. -/
inductive NameKind where
  /-- Names of classes and interfaces. -/
  | type
  | property
  deriving DecidableEq, Repr

/-- The word for a kind of names. -/
def NameKind.word : NameKind → String
  | .type => "class"
  | .property => "property"

/-- What keeps declarations from being generated. -/
inductive Error where
  | manifest (error : Manifest.Error)
  | malformed (error : WellFormed.Error)
  | file (error : FileError)
  | registration (type : TypeRef) (fault : RegistrationFault)
  | mapping (source : TypeRef) (fault : MappingFault)
  /-- A transform turned the name into a blank one. -/
  | blankName (kind : NameKind) (name : String)
  | unknownEnumStyle (word : String)
  /-- The type stands for an array of itself without end. -/
  | endless (type : TypeRef)
  deriving DecidableEq, Repr

/-- The wording of an error. -/
def Error.message : Error → String
  | manifest e => "parse error: " ++ e.message
  | malformed e => "schema error: " ++ e.message
  | file e => "IO error: " ++ e.message
  | registration type fault => "cannot register '" ++ type.text ++ "': " ++ fault.message
  | mapping source fault => "invalid mapping for '" ++ source.text ++ "': " ++ fault.message
  | blankName kind name =>
    "the " ++ kind.word ++ " name transform returned an empty name for '" ++ name ++ "'"
  | unknownEnumStyle word => "unsupported enum conversion: '" ++ word ++ "'"
  | endless type => "type '" ++ type.text ++ "' contains itself without end"

end Typings.Generation
