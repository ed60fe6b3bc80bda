import Typings.Generation.Mapping
import Typings.Generation.Options
import Typings.Module.Basic
import Typings.Text.Lowercase

/-!
# Names

The names that types and properties are written under. A transform given by the user has the last
word on the names of classes, interfaces and properties, but may not make them blank.
-/

namespace Typings.Generation

/-- What the spelling of types and properties depends on. -/
structure Context where
  /-- The module that describes the types. -/
  model : Module
  mappings : MappingTable := .builtin
  options : Options := {}
  /-- Changes the names of classes and interfaces. -/
  typeTransform : Option (String → String) := none
  /-- Changes the names of properties. -/
  propertyTransform : Option (String → String) := none

/-- Applies a transform to a name, if there is one. -/
def transformName (kind : NameKind) (transform : Option (String → String)) (name : String) :
    Except Error String :=
  match transform with
  | none => .ok name
  | some f => if Text.isBlank (f name) then .error (.blankName kind name) else .ok (f name)

/-- A name with arguments in angle brackets. -/
def applied (name : String) (args : List String) : String :=
  name ++ "<" ++ String.intercalate ", " args ++ ">"

/-- The name with its first character in lower case. -/
def lowerFirst (name : String) : String :=
  match name.toList with
  | [] => ""
  | c :: rest => String.ofList (Text.lowercase c ++ rest)

namespace Context

/-- The name of a definition behind the prefix of its kind. -/
def prefixedName (c : Context) (d : TypeDef) : String :=
  if (if d.isInterface then c.options.prefixInterfaces else c.options.prefixClasses) then
    "I" ++ d.name
  else d.name

/-- The name of a definition before the transform; a generic one shows its parameters. -/
def plainTypeName (c : Context) (d : TypeDef) : String :=
  if d.isGeneric then applied (c.prefixedName d) d.params else c.prefixedName d

/-- The name that a class or interface is declared under. -/
def typeName (c : Context) (d : TypeDef) : Except Error String :=
  transformName .type c.typeTransform (c.plainTypeName d)

/-- The name of a generic type applied to arguments that are written already. -/
def instanceName (c : Context) (d : TypeDef) (args : List String) : Except Error String :=
  transformName .type c.typeTransform (applied (c.prefixedName d) args)

/-- The name of an enumeration, which nothing changes. -/
def enumName (_ : Context) (d : TypeDef) : String :=
  d.name

/-- The name of a type that the module does not define. -/
def externalName (c : Context) (ref : TypeRef) : Except Error String :=
  transformName .type c.typeTransform ref.text

/-- The name that a property is written under. -/
def propertyName (c : Context) (name : String) : Except Error String :=
  transformName .property c.propertyTransform (lowerFirst name)

end Context

end Typings.Generation
