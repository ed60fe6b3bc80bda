import Typings.Manifest.Element

/-!
# Reading a manifest

The events of a document are read one after the other. What has been read is a state: the module,
the types whose elements are open, and the place within the innermost of them.

A nested type follows the type around it in the module.
-/

namespace Typings.Manifest

open Typings.Markup

/-- The place reached within a module. -/
inductive Place where
  /-- In no element of a type. -/
  | outside
  /-- In a class or interface; `around` holds those around it from the innermost outwards. -/
  | inType (type : TypeDraft) (around : List TypeDraft)
  /-- In an enumeration. -/
  | inEnum (enumeration : TypeDef) (around : List TypeDraft)
  /-- In a member of an enumeration, with the last text met in it. -/
  | inMember (member : EnumMember) (text : Option String) (enumeration : TypeDef)
    (around : List TypeDraft)
  deriving DecidableEq, Repr

/-- The state of reading a manifest. -/
inductive State where
  /-- No module has begun. -/
  | before
  /-- A module has begun, and perhaps ended. -/
  | within (module : Module) (ended : Bool) (place : Place)
  deriving DecidableEq, Repr

/-- Adds types to a module in order; none may have the name of one before it. -/
def addTypes (m : Module) : List TypeDef → Except Error Module
  | [] => .ok m
  | d :: rest =>
    if m.has d.name then .error (.duplicate .type d.name) else addTypes (m.add d) rest

/-- Hands finished types to the type around them, or to the module where there is none. -/
def deliver (m : Module) (ended : Bool) (types : List TypeDef) :
    List TypeDraft → Except Error State
  | [] => do .ok (.within (← addTypes m types) ended .outside)
  | draft :: around =>
    .ok (.within m ended (.inType { draft with nested := draft.nested ++ types } around))

/-- Enters the element of a type. -/
def openType (m : Module) (ended : Bool) (tag : Tag) (kind : TypeKind)
    (around : List TypeDraft) : Except Error State := do
  let owner := around.head?.map (·.definition.name)
  match kind with
  | .enumType => .ok (.within m ended (.inEnum (← enumOf tag owner) around))
  | _ => .ok (.within m ended (.inType (← typeDraftOf tag kind owner) around))

/-- Reads the element of a type that has no content. -/
def emptyType (m : Module) (ended : Bool) (tag : Tag) (kind : TypeKind)
    (around : List TypeDraft) : Except Error State := do
  let owner := around.head?.map (·.definition.name)
  match kind with
  | .enumType => deliver m ended [← enumOf tag owner] around
  | _ => deliver m ended [← (← typeDraftOf tag kind owner).finish] around

/-- Reads an event before any module. -/
def stepBefore : Event → Except Error State
  | .opened tag =>
    if tag.name = "module" then do .ok (.within (← moduleOf tag) false .outside)
    else .error (.unknownElement tag.name "document")
  | .empty tag =>
    if tag.name = "module" then do .ok (.within (← moduleOf tag) true .outside)
    else .error (.unknownElement tag.name "document")
  | .closed | .text _ => .ok .before

/-- Reads an event in a module, outside its types. -/
def stepOutside (m : Module) (ended : Bool) : Event → Except Error State
  | .opened tag =>
    match kindOf? tag.name with
    | some kind => openType m ended tag kind []
    | none => .error (.unknownElement tag.name "module")
  | .empty tag =>
    match kindOf? tag.name with
    | some kind => emptyType m ended tag kind []
    | none => .error (.unknownElement tag.name "module")
  | .closed => .ok (.within m true .outside)
  | .text _ => .ok (.within m ended .outside)

/-- Reads an event in a class or interface. -/
def stepType (m : Module) (ended : Bool) (type : TypeDraft) (around : List TypeDraft) :
    Event → Except Error State
  | .opened tag =>
    match kindOf? tag.name with
    | some kind => openType m ended tag kind (type :: around)
    | none => .error (.unknownElement tag.name type.definition.name)
  | .empty tag =>
    if tag.name = "typeParam" then do
      let param ← paramOf tag
      let definition := { type.definition with params := type.definition.params ++ [param] }
      .ok (.within m ended (.inType { type with definition } around))
    else if tag.name = "property" then do
      let property ← propertyDraftOf tag
      .ok (.within m ended
        (.inType { type with properties := type.properties ++ [property] } around))
    else
      match kindOf? tag.name with
      | some kind => emptyType m ended tag kind (type :: around)
      | none => .error (.unknownElement tag.name type.definition.name)
  | .closed => do deliver m ended ((← type.finish) :: type.nested) around
  | .text _ => .ok (.within m ended (.inType type around))

/-- The enumeration with one more member. -/
def addMember (enumeration : TypeDef) (member : EnumMember) : TypeDef :=
  { enumeration with members := enumeration.members ++ [member] }

/-- Reads an event in an enumeration. -/
def stepEnum (m : Module) (ended : Bool) (enumeration : TypeDef) (around : List TypeDraft) :
    Event → Except Error State
  | .opened tag =>
    if tag.name = "value" then do
      let member ← memberOf tag enumeration.members
      .ok (.within m ended (.inMember member none enumeration around))
    else .error (.unknownElement tag.name enumeration.name)
  | .empty tag =>
    if tag.name = "value" then do
      let member ← memberOf tag enumeration.members
      .ok (.within m ended (.inEnum (addMember enumeration member) around))
    else .error (.unknownElement tag.name enumeration.name)
  | .closed => deliver m ended [enumeration] around
  | .text _ => .ok (.within m ended (.inEnum enumeration around))

/-- Reads an event in a member of an enumeration: only its text counts, and of several texts that
are not blank the last. -/
def stepMember (m : Module) (ended : Bool) (member : EnumMember) (text : Option String)
    (enumeration : TypeDef) (around : List TypeDraft) : Event → Except Error State
  | .opened _ | .empty _ => .ok (.within m ended (.inMember member text enumeration around))
  | .text content =>
    let text := if Text.isBlank content then text else some (Text.trim content)
    .ok (.within m ended (.inMember member text enumeration around))
  | .closed => do
    let value ← match text with
      | some text => memberValue text
      | none => .ok member.value
    .ok (.within m ended (.inEnum (addMember enumeration { member with value }) around))

/-- Reads one more event. -/
def State.step : State → Event → Except Error State
  | .before, event => stepBefore event
  | .within m ended place, event =>
    match place with
    | .outside => stepOutside m ended event
    | .inType type around => stepType m ended type around event
    | .inEnum enumeration around => stepEnum m ended enumeration around event
    | .inMember member text enumeration around =>
      stepMember m ended member text enumeration around event

/-- The module that has been read when the document ends. -/
def State.finish : State → Except Error Module
  | .before => .error .noModule
  | .within m ended place =>
    match place with
    | .outside => if ended then .ok m else .error (.unclosed "module" m.name)
    | .inType type _ =>
      .error (.unclosed (elementOf type.definition.kind) type.definition.name)
    | .inEnum enumeration _ => .error (.unclosed "enum" enumeration.name)
    | .inMember member _ _ _ => .error (.unclosed "value" member.name)

/-- The module that a document describes. An error of the manifest in the events counts before the
error of markup that cuts them short. -/
def ofDocument (document : Document) : Except Error Module := do
  let state ← document.events.foldlM State.step .before
  match document.failure with
  | some e => .error (.markup e)
  | none => state.finish

/-- The module that the text of a manifest describes. -/
def ofText (text : String) : Except Error Module :=
  ofDocument (.ofText text)

/-- The module that a file describes. -/
def ofFile (file : File) : Except Error Module :=
  match file.text with
  | .ok text => ofText text
  | .error e => .error (.file e)

end Typings.Manifest
