import Typings.Generation.Configuration
import Typings.Generation.Declaration
import Typings.Generation.Spelling
import Typings.Module.Properties

/-!
# Composing a script

What a script declares, apart from how it is written: the registered types bases first, each with
its properties, and behind them the enumerations, the registered ones and then those met in
properties, each once.
-/

namespace Typings.Generation

/-- Names and values of the members to write: those with one value are written once, under the name
of the first of them. -/
def enumMembers (d : TypeDef) (written : List String) : List EnumMember → List (String × Int)
  | [] => []
  | e :: rest =>
    let name := (d.displayName? e.value).getD e.name
    if name ∈ written then enumMembers d written rest
    else (name, e.value) :: enumMembers d (name :: written) rest

/-- The declaration of an enumeration. -/
def Context.declareEnum (c : Context) (d : TypeDef) : EnumDeclaration :=
  ⟨c.enumName d, enumMembers d [] d.members⟩

/-- The field of a property under its name. -/
def Context.field (c : Context) (named : String × Property) : Except Error Field := do
  .ok ⟨named.1, ← c.propertyType named.2, c.defaultValue named.2.type⟩

/-- The enumerations that properties are of, in order. -/
def Context.enumsOf (c : Context) (properties : List Property) : List TypeRef :=
  if c.options.includeEnums then
    properties.filterMap fun p => (c.model.enumDefinition? p.type).map TypeDef.ref
  else []

/-- A name that stays before another, or is the same. -/
def nameLe (a b : String) : Bool := decide (a ≤ b)

/-- The declaration of a registered type, with the enumerations that its properties are of. -/
structure Root where
  declaration : Declaration
  enums : List TypeRef
  deriving DecidableEq, Repr

namespace Configuration

/-- The properties of a type that are not excluded. -/
def visibleProperties (c : Configuration) (d : TypeDef) : List Property :=
  (c.model.properties d c.options.preserveInheritance).filter fun p =>
    !c.registrations.isPropertyExcluded d.ref p.name

/-- The properties to write, under their names and in their order. -/
def writtenProperties (c : Configuration) (d : TypeDef) :
    Except Error (List (String × Property)) := do
  let named ← (c.visibleProperties d).mapM fun p => do .ok (← c.propertyName p.name, p)
  if c.options.orderByName then .ok (named.mergeSort fun a b => nameLe a.1 b.1) else .ok named

/-- The fields of a type, with the enumerations that they are of. -/
def fields (c : Configuration) (d : TypeDef) : Except Error (List Field × List TypeRef) := do
  let properties ← c.writtenProperties d
  .ok (← properties.mapM c.field, c.enumsOf (properties.map (·.2)))

/-- Declares a class or interface. -/
def declareType (c : Configuration) (d : TypeDef) :
    Except Error (TypeDeclaration × List TypeRef) := do
  let name ← c.typeName d
  let base ← if c.options.preserveInheritance then c.baseName d else .ok none
  let (fields, enums) ← c.fields d
  .ok (⟨name, base, fields⟩, enums)

/-- Declares a registered type. -/
def declare (c : Configuration) (d : TypeDef) : Except Error Root :=
  if d.isEnum then .ok ⟨.enumeration (c.declareEnum d), []⟩
  else do
    let (declaration, enums) ← c.declareType d
    .ok ⟨.type declaration, enums⟩

/-- The definition to declare for a registered type: neither nested types, nor generic types with
arguments, nor excluded types are declared. -/
def rootDefinition? (c : Configuration) (ref : TypeRef) : Option TypeDef :=
  match ref with
  | .generic _ _ => none
  | ref =>
    (c.model.definition? ref).filter fun d =>
      !d.isNested && !c.registrations.isExcluded ref d.name

/-- The definitions to declare, those of lesser depth of inheritance first, and those of one depth
by name. -/
def roots (c : Configuration) : List TypeDef :=
  let found := c.registrations.types.filterMap fun ref =>
    (c.rootDefinition? ref).map fun d => (c.model.inheritanceDepth ref, d)
  (found.mergeSort fun a b => a.1 < b.1 || (a.1 == b.1 && nameLe a.2.name b.2.name)).map (·.2)

/-- The declaration of a registered enumeration, unless it is excluded. -/
def enumDeclaration? (c : Configuration) (ref : TypeRef) : Option EnumDeclaration :=
  (c.model.definition? ref).filter (fun d =>
    d.isEnum && !c.registrations.isExcluded ref d.name) |>.map c.declareEnum

/-- The imports in order. -/
def importList (c : Configuration) : Except Error (List Import) :=
  c.registrations.imports.mapM fun (ref, path) => do .ok ⟨← c.importName ref, path⟩

/-- The script of a configuration, and the enumerations known once it is composed. -/
def script (c : Configuration) : Except Error (Script × List TypeRef) := do
  let imports ← c.importList
  let roots ← c.roots.mapM c.declare
  let enums := insertAll (roots.flatMap (·.enums)) c.registrations.enums
  .ok (⟨imports, roots.map (·.declaration), enums.filterMap c.enumDeclaration?⟩, enums)

end Configuration

end Typings.Generation
