import Typings.Manifest.Error
import Typings.Markup.Event
import Typings.Module.Basic
import Typings.Text.Integer

/-!
# Elements of a manifest

What the tags of a manifest declare by their attributes. The expressions of a class or interface
stay unread in a draft until its element ends, because the generic parameters they may mention are
declared inside it.
-/

namespace Typings.Manifest

open Typings.Markup

/-- The attributes of a tag with their values unescaped. The first value that is not escaped
properly refuses the tag, whether the attribute is of use or not. -/
def attributes (tag : Tag) : Except Error (List Attribute) :=
  tag.attributes.mapM fun (key, value) =>
    match unescape value with
    | .ok text => .ok (key, text)
    | .error e => .error (.escape e)

/-- The value of an attribute that the element has to have. -/
def required (element name : String) (attributes : List Attribute) : Except Error String :=
  match attributes.lookup name with
  | some value => .ok value
  | none => .error (.missingAttribute element name)

/-- The value of a Boolean attribute, false where it is missing. -/
def flag (element name : String) (attributes : List Attribute) : Except Error Bool :=
  match attributes.lookup name with
  | none => .ok false
  | some value =>
    if value = "true" ∨ value = "1" then .ok true
    else if value = "false" ∨ value = "0" then .ok false
    else .error (.invalidAttribute element name value)

/-- The module that a `module` element declares, still without types. -/
def moduleOf (tag : Tag) : Except Error Module := do
  let attributes ← attributes tag
  .ok ⟨(attributes.lookup "name").getD "", attributes.lookup "description", []⟩

/-- The kind of type that an element of the given name declares. -/
def kindOf? (element : String) : Option TypeKind :=
  [("class", TypeKind.classType), ("interface", .interfaceType), ("enum", .enumType)].lookup element

/-- The name of the elements that declare types of a kind. -/
def elementOf : TypeKind → String
  | .classType => "class"
  | .interfaceType => "interface"
  | .enumType => "enum"

/-- A property whose type is still unread. -/
structure PropertyDraft where
  name : String
  expression : String
  marked : Bool
  description : Option String
  deriving DecidableEq, Repr

/-- A class or interface whose base and properties are still unread, with the types nested in it
that have been read. -/
structure TypeDraft where
  definition : TypeDef
  base : Option String
  properties : List PropertyDraft := []
  nested : List TypeDef := []
  deriving DecidableEq, Repr

/-- The class or interface that a tag declares, inside the type named `owner` if there is one. -/
def typeDraftOf (tag : Tag) (kind : TypeKind) (owner : Option String) : Except Error TypeDraft := do
  let attributes ← attributes tag
  let isAbstract ← flag (elementOf kind) "abstract" attributes
  let name ← required (elementOf kind) "name" attributes
  .ok
    { definition :=
        { name, kind, isAbstract
          declaring := (attributes.lookup "declaringType").or owner
          description := attributes.lookup "description" }
      base := attributes.lookup "base" }

/-- The generic parameter that a tag declares. -/
def paramOf (tag : Tag) : Except Error String := do
  required "typeParam" "name" (← attributes tag)

/-- The property that a tag declares. -/
def propertyDraftOf (tag : Tag) : Except Error PropertyDraft := do
  let attributes ← attributes tag
  let marked ← flag "property" "nullable" attributes
  let name ← required "property" "name" attributes
  let expression ← required "property" "type" attributes
  .ok ⟨name, expression, marked, attributes.lookup "description"⟩

/-- The enumeration that a tag declares, still without members. -/
def enumOf (tag : Tag) (owner : Option String) : Except Error TypeDef := do
  let attributes ← attributes tag
  let name ← required "enum" "name" attributes
  .ok
    { name, kind := .enumType
      declaring := (attributes.lookup "declaringType").or owner
      description := attributes.lookup "description" }

/-- The value that a text gives to a member. -/
def memberValue (text : String) : Except Error Int :=
  match Text.readInteger text with
  | some value => .ok value
  | none => .error (.invalidAttribute "value" "value" text)

/-- The value of a member that states none: one past the member before, as far as 64 bits go, and
zero for the first. -/
def nextValue (members : List EnumMember) : Int :=
  match members.getLast? with
  | none => 0
  | some m => min (m.value + 1) Text.maxInteger

/-- The member that a tag declares behind the members before it. -/
def memberOf (tag : Tag) (before : List EnumMember) : Except Error EnumMember := do
  let attributes ← attributes tag
  let value ← match attributes.lookup "value" with
    | some text => memberValue text
    | none => .ok (nextValue before)
  let name ← required "value" "name" attributes
  .ok ⟨name, value, attributes.lookup "description"⟩

/-- Reads a type expression with the given generic parameters in scope. -/
def readType (params : List String) (expression : String) : Except Error TypeRef :=
  match TypeRef.ofExpression params expression with
  | .ok type => .ok type
  | .error e => .error (.expression e)

/-- Reads the types of properties in order, behind those already read. No name may come twice. -/
def readProperties (owner : String) (params : List String) (done : List Property) :
    List PropertyDraft → Except Error (List Property)
  | [] => .ok done
  | p :: rest =>
    if done.any (·.name == p.name) then .error (.duplicate .property (owner ++ "." ++ p.name))
    else do
      let type ← readType params p.expression
      readProperties owner params (done ++ [.declare p.name type p.marked p.description]) rest

/-- The definition that a draft stands for once its element ends. -/
def TypeDraft.finish (draft : TypeDraft) : Except Error TypeDef := do
  let params := draft.definition.params
  let base ← draft.base.mapM (readType params)
  let properties ← readProperties draft.definition.name params [] draft.properties
  .ok { draft.definition with base, properties }

end Typings.Manifest
