import Mathlib.Data.List.Forall2
import Typings.Manifest.Reader
import Typings.Proofs.Markup.Grammar

/-!
# Trees of a manifest

What a manifest says, as a tree of its elements: what each element states by its attributes, and
what stands inside it. A tree stands for a module, and it is written as the events of a document in
many ways: in what order attributes come, which defaults are left out, how values are escaped, and
whether an element without content is written with one tag or with two.
-/

namespace Typings.Manifest

open Typings.Markup

/-- A property, as its element states it. -/
structure PropertyNode where
  name : String
  type : TypeRef
  /-- The element says that the property is nullable. -/
  marked : Bool := false
  description : Option String := none

/-- The property that the element declares. -/
def PropertyNode.property (p : PropertyNode) : Property :=
  .declare p.name p.type p.marked p.description

/-- A member of an enumeration, as its element states it. -/
structure MemberNode where
  name : String
  /-- The value that an attribute of the element gives. -/
  stated : Option Int := none
  /-- The value that the text of the element gives. -/
  text : Option Int := none
  description : Option String := none

/-- The members that elements declare in order, where `next` is the value of a first one that states
none. The text counts before the attribute, and a member that states no value is one past the member
before it, as far as 64 bits go. -/
def membersOf (next : Int) : List MemberNode → List EnumMember
  | [] => []
  | m :: rest =>
    let value := m.text.getD (m.stated.getD next)
    ⟨m.name, value, m.description⟩ :: membersOf (min (value + 1) Text.maxInteger) rest

/-- What the element of an enumeration states by its attributes. -/
structure EnumHead where
  name : String
  declaring : Option String := none
  description : Option String := none

/-- The enumeration that an element declares inside the type named `owner`, if there is one. -/
def EnumHead.definition (head : EnumHead) (owner : Option String) (members : List MemberNode) :
    TypeDef :=
  { name := head.name, kind := .enumType, members := membersOf 0 members
    declaring := head.declaring.or owner, description := head.description }

/-- What the element of a class or interface states by its attributes. -/
structure ObjectHead where
  isInterface : Bool
  name : String
  base : Option TypeRef := none
  isAbstract : Bool := false
  declaring : Option String := none
  description : Option String := none

/-- The kind of type that the element declares. -/
def ObjectHead.kind (head : ObjectHead) : TypeKind :=
  if head.isInterface then .interfaceType else .classType

/-- The class or interface that an element declares inside the type named `owner`, if there is
one. -/
def ObjectHead.definition (head : ObjectHead) (owner : Option String) (params : List String)
    (properties : List PropertyNode) : TypeDef :=
  { name := head.name, kind := head.kind, base := head.base, params
    properties := properties.map (·.property), isAbstract := head.isAbstract
    declaring := head.declaring.or owner, description := head.description }

mutual

/-- The element of a type. -/
inductive Node where
  | object (head : ObjectHead) (items : List Item)
  | enumeration (head : EnumHead) (members : List MemberNode)

/-- An element in a class or interface. -/
inductive Item where
  | param (name : String)
  | property (property : PropertyNode)
  | nested (node : Node)

end

/-- The generic parameter that an element declares. -/
def Item.param? : Item → Option String
  | param name => some name
  | property _ | nested _ => none

/-- The property that an element states. -/
def Item.property? : Item → Option PropertyNode
  | property p => some p
  | param _ | nested _ => none

/-- The generic parameters that the elements in a class or interface declare. -/
def paramsOf (items : List Item) : List String :=
  items.filterMap (·.param?)

/-- The properties that the elements in a class or interface state. -/
def propertiesOf (items : List Item) : List PropertyNode :=
  items.filterMap (·.property?)

mutual

/-- The definitions that the element of a type stands for: its own, then those of the types nested
in it, in the order of their start tags. -/
def Node.definitions (owner : Option String) : Node → List TypeDef
  | .object head items =>
    head.definition owner (paramsOf items) (propertiesOf items) :: nestedDefinitions head.name items
  | .enumeration head members => [head.definition owner members]

/-- The definitions of the types nested in the type named `owner`. -/
def nestedDefinitions (owner : String) : List Item → List TypeDef
  | [] => []
  | item :: rest => item.definitions owner ++ nestedDefinitions owner rest

/-- The definitions that an element in the type named `owner` stands for. -/
def Item.definitions (owner : String) : Item → List TypeDef
  | .nested node => node.definitions (some owner)
  | .param _ | .property _ => []

end

/-- A manifest: the element of a module. -/
structure Tree where
  name : String
  description : Option String := none
  nodes : List Node

/-- The definitions that a manifest stands for, in the order of their start tags. -/
def Tree.definitions (tree : Tree) : List TypeDef :=
  tree.nodes.flatMap (·.definitions none)

/-- The module that a manifest stands for. -/
def Tree.module (tree : Tree) : Module :=
  ⟨tree.name, tree.description, tree.definitions⟩

/-- The tag is one of the named element and has the attributes, their values escaped. -/
structure Carries (tag : Tag) (element : String) (attributes : List Attribute) : Prop where
  name : tag.name = element
  values : List.Forall₂
    (fun written a => written.1 = a.1 ∧ Grammar.Escapes written.2.toList a.2.toList)
    tag.attributes attributes

/-- The ways to give a Boolean attribute; a missing one is false. -/
def flagTexts : Bool → List (Option String)
  | true => [some "true", some "1"]
  | false => [none, some "false", some "0"]

/-- The attributes state the property, its type where the generic parameters are in scope. -/
structure PropertyNode.StatedBy (p : PropertyNode) (params : List String)
    (attributes : List Attribute) : Prop where
  name : attributes.lookup "name" = some p.name
  type : (attributes.lookup "type").map (TypeRef.ofExpression params) = some (.ok p.type)
  marked : attributes.lookup "nullable" ∈ flagTexts p.marked
  description : attributes.lookup "description" = p.description

/-- The attributes state the member, apart from the text of its element. -/
structure MemberNode.StatedBy (m : MemberNode) (attributes : List Attribute) : Prop where
  name : attributes.lookup "name" = some m.name
  stated : (attributes.lookup "value").map Text.readInteger = m.stated.map some
  description : attributes.lookup "description" = m.description

/-- The attributes state the head of an enumeration. -/
structure EnumHead.StatedBy (head : EnumHead) (attributes : List Attribute) : Prop where
  name : attributes.lookup "name" = some head.name
  declaring : attributes.lookup "declaringType" = head.declaring
  description : attributes.lookup "description" = head.description

/-- The attributes state the head of a class or interface, its base where the generic parameters are
in scope. -/
structure ObjectHead.StatedBy (head : ObjectHead) (params : List String)
    (attributes : List Attribute) : Prop where
  name : attributes.lookup "name" = some head.name
  base : (attributes.lookup "base").map (TypeRef.ofExpression params) = head.base.map .ok
  isAbstract : attributes.lookup "abstract" ∈ flagTexts head.isAbstract
  declaring : attributes.lookup "declaringType" = head.declaring
  description : attributes.lookup "description" = head.description

/-- The events in the element of a member give it the value, if they give it one. -/
inductive GivesValue : List Event → Option Int → Prop where
  | empty : GivesValue [] none
  | blank {content} : Text.isBlank content = true → GivesValue [.text content] none
  | value {content value} :
    Text.readInteger (Text.trim content) = some value → GivesValue [.text content] (some value)

/-- The events are those of the element of a member. -/
inductive MemberNode.Writes : MemberNode → List Event → Prop where
  | empty {m tag attributes} :
    Carries tag "value" attributes → m.StatedBy attributes → m.text = none →
    MemberNode.Writes m [.empty tag]
  | element {m tag attributes texts} :
    Carries tag "value" attributes → m.StatedBy attributes → GivesValue texts m.text →
    MemberNode.Writes m (.opened tag :: texts ++ [.closed])

/-- The events are those of elements in order, where `writes` says what the events of each may be.
-/
inductive EachWrites {α : Type} (writes : α → List Event → Prop) : List α → List Event → Prop where
  | nil : EachWrites writes [] []
  | cons {node nodes events events'} :
    writes node events → EachWrites writes nodes events' →
    EachWrites writes (node :: nodes) (events ++ events')

/-- The elements of nodes are written one after the other. -/
lemma eachWrites_flatMap {α β : Type} {writes : β → List Event → Prop} {node : α → β}
    {events : α → List Event} {as : List α} (h : ∀ a ∈ as, writes (node a) (events a)) :
    EachWrites writes (as.map node) (as.flatMap events) := by
  induction as with
  | nil => exact .nil
  | cons a as ih =>
    obtain ⟨ha, has⟩ := List.forall_mem_cons.1 h
    exact .cons ha (ih has)

lemma EachWrites.append {β : Type} {writes : β → List Event → Prop} {nodes nodes' events events'}
    (h : EachWrites writes nodes events) (h' : EachWrites writes nodes' events') :
    EachWrites writes (nodes ++ nodes') (events ++ events') := by
  induction h with
  | nil => exact h'
  | cons hnode _ ih =>
    rw [List.cons_append, List.append_assoc]
    exact .cons hnode ih

mutual

/-- The events are those of the element of a type. -/
inductive Node.Writes : Node → List Event → Prop where
  | emptyObject {head tag attributes} :
    Carries tag (elementOf head.kind) attributes → head.StatedBy [] attributes →
    Node.Writes (.object head []) [.empty tag]
  | object {head items tag attributes events} :
    Carries tag (elementOf head.kind) attributes → head.StatedBy (paramsOf items) attributes →
    ItemsWrite (paramsOf items) items events →
    Node.Writes (.object head items) (.opened tag :: events ++ [.closed])
  | emptyEnumeration {head tag attributes} :
    Carries tag "enum" attributes → head.StatedBy attributes →
    Node.Writes (.enumeration head []) [.empty tag]
  | enumeration {head members tag attributes events} :
    Carries tag "enum" attributes → head.StatedBy attributes →
    EachWrites MemberNode.Writes members events →
    Node.Writes (.enumeration head members) (.opened tag :: events ++ [.closed])

/-- The events are those of the elements in a class or interface with the given parameters. -/
inductive ItemsWrite : List String → List Item → List Event → Prop where
  | nil {params} : ItemsWrite params [] []
  | param {params name tag attributes items events} :
    Carries tag "typeParam" attributes → attributes.lookup "name" = some name →
    ItemsWrite params items events → ItemsWrite params (.param name :: items) (.empty tag :: events)
  | property {params p tag attributes items events} :
    Carries tag "property" attributes → p.StatedBy params attributes →
    ItemsWrite params items events → ItemsWrite params (.property p :: items) (.empty tag :: events)
  | nested {params node items events events'} :
    node.Writes events → ItemsWrite params items events' →
    ItemsWrite params (.nested node :: items) (events ++ events')

end

/-- The attributes state the head of a module, whose name may be left out. -/
structure Tree.StatedBy (tree : Tree) (attributes : List Attribute) : Prop where
  name : (attributes.lookup "name").getD "" = tree.name
  description : attributes.lookup "description" = tree.description

/-- The events are those of the manifest. -/
inductive Tree.Writes : Tree → List Event → Prop where
  | empty {tree tag attributes} :
    Carries tag "module" attributes → tree.StatedBy attributes → tree.nodes = [] →
    Tree.Writes tree [.empty tag]
  | element {tree tag attributes events} :
    Carries tag "module" attributes → tree.StatedBy attributes →
    EachWrites Node.Writes tree.nodes events →
    Tree.Writes tree (.opened tag :: events ++ [.closed])

end Typings.Manifest
