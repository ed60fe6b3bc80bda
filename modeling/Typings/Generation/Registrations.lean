import Typings.TypeRef.Basic

/-!
# Registrations

The types to declare, what is left out of them, and the types that other files declare. Types,
enumerations and imports keep the order in which they were registered, each key once.
-/

namespace Typings.Generation

/-- Adds an element behind the others unless it is there. -/
def insertNew {α : Type} [BEq α] (a : α) (as : List α) : List α :=
  if as.contains a then as else as ++ [a]

/-- Adds elements one after the other. -/
def insertAll {α : Type} [BEq α] (added as : List α) : List α :=
  added.foldl (fun as a => insertNew a as) as

/-- What has been registered for a generation. -/
structure Registrations where
  /-- The types declared at the top. -/
  types : List TypeRef := []
  /-- The enumerations, registered by hand or met in properties. -/
  enums : List TypeRef := []
  excludedTypes : List TypeRef := []
  excludedNames : List String := []
  /-- The excluded properties with the types that own them. -/
  excludedProperties : List (TypeRef × String) := []
  /-- The imported types with the paths they come from. -/
  imports : List (TypeRef × String) := []
  deriving DecidableEq, Repr

namespace Registrations

/-- Registers a type. -/
def addType (r : Registrations) (type : TypeRef) : Registrations :=
  { r with types := insertNew type r.types }

/-- Registers an enumeration. -/
def addEnum (r : Registrations) (type : TypeRef) : Registrations :=
  { r with enums := insertNew type r.enums }

/-- Excludes the type of exactly that reference. -/
def excludeType (r : Registrations) (type : TypeRef) : Registrations :=
  { r with excludedTypes := insertNew type r.excludedTypes }

/-- Excludes the types of that name. -/
def excludeName (r : Registrations) (name : String) : Registrations :=
  { r with excludedNames := insertNew name r.excludedNames }

/-- Excludes a property of one type. -/
def excludeProperty (r : Registrations) (owner : TypeRef) (name : String) : Registrations :=
  { r with excludedProperties := insertNew (owner, name) r.excludedProperties }

/-- The type is imported. -/
def isImported (r : Registrations) (type : TypeRef) : Bool :=
  r.imports.any (·.1 == type)

/-- Imports a type from a path. The first import of a type stands. -/
def addImport (r : Registrations) (type : TypeRef) (path : String) : Registrations :=
  if r.isImported type then r else { r with imports := r.imports ++ [(type, path)] }

/-- The type is excluded by its reference or its name. -/
def isExcluded (r : Registrations) (type : TypeRef) (name : String) : Bool :=
  r.excludedTypes.contains type || r.excludedNames.contains name

/-- The property of a type is excluded. -/
def isPropertyExcluded (r : Registrations) (owner : TypeRef) (name : String) : Bool :=
  r.excludedProperties.contains (owner, name)

end Registrations

end Typings.Generation
