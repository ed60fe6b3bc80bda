import Typings.TypeRef.Basic

/-!
# Type definitions

The types that a module describes: classes and interfaces with their properties, and enumerations
with their members. Nothing here says that a definition is well formed; that is a property of the
module around it.
-/

namespace Typings

/-- The kinds of user-defined types. -/
inductive TypeKind where
  | classType
  | interfaceType
  | enumType
  deriving DecidableEq, Repr

/-- A member of an enumeration. Values have 64 bits. -/
structure EnumMember where
  name : String
  value : Int
  description : Option String := none
  deriving DecidableEq, Repr

/-- A property of a class or interface. -/
structure Property where
  name : String
  type : TypeRef
  /-- The property is declared to admit a missing value. -/
  nullable : Bool
  description : Option String := none
  deriving DecidableEq, Repr

/-- Declares a property: one of nullable type is nullable whether it is marked so or not. -/
def Property.declare (name : String) (type : TypeRef) (marked : Bool := false)
    (description : Option String := none) : Property :=
  ⟨name, type, type.isNullable || marked, description⟩

/-- The definition of a type. -/
structure TypeDef where
  name : String
  kind : TypeKind
  base : Option TypeRef := none
  /-- The generic parameters in order. -/
  params : List String := []
  /-- The properties that the type itself declares, in order. -/
  properties : List Property := []
  /-- The members of an enumeration in order. -/
  members : List EnumMember := []
  isAbstract : Bool := false
  /-- The type that a nested type is declared in. -/
  declaring : Option String := none
  description : Option String := none
  deriving DecidableEq, Repr

namespace TypeDef

/-- The definition is one of an enumeration. -/
def isEnum (d : TypeDef) : Bool := d.kind == .enumType

/-- The definition is one of an interface. -/
def isInterface (d : TypeDef) : Bool := d.kind == .interfaceType

/-- The definition is one of a class. -/
def isClass (d : TypeDef) : Bool := d.kind == .classType

/-- The definition has generic parameters. -/
def isGeneric (d : TypeDef) : Bool := !d.params.isEmpty

/-- The type is declared inside another type. -/
def isNested (d : TypeDef) : Bool := d.declaring.isSome

/-- The reference by the bare name, which is the identity of the definition. -/
def ref (d : TypeDef) : TypeRef := .named d.name

/-- The first property of that name. -/
def property? (d : TypeDef) (name : String) : Option Property :=
  d.properties.find? (·.name == name)

/-- The display name of a value is the name of the first member that carries it. -/
def displayName? (d : TypeDef) (value : Int) : Option String :=
  (d.members.find? (·.value == value)).map (·.name)

end TypeDef

end Typings
