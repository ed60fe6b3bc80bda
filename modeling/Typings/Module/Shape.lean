import Typings.Module.Iterable

/-!
# Shapes of references

What a reference denotes in a module. A nullable reference has the shape of what it wraps.
-/

namespace Typings

/-- What a reference denotes. -/
inductive Shape where
  | builtin (type : Builtin)
  | enumeration (definition : TypeDef)
  /-- A sequence, with the type of its elements when it is known. -/
  | iterable (element : Option TypeRef)
  /-- A generic type without arguments. -/
  | genericDefinition (definition : TypeDef)
  /-- A generic type applied to arguments. -/
  | genericInstance (definition : TypeDef) (args : List TypeRef)
  | classType (definition : TypeDef)
  | interfaceType (definition : TypeDef)
  | parameter (name : String)
  /-- A type that the module does not describe. -/
  | unknown
  deriving DecidableEq, Repr

namespace Module

/-- The shape of a generic type applied to arguments. -/
def classifyGeneric (m : Module) (name : String) (args : List TypeRef) : Shape :=
  if isCollectionName name then .iterable (TypeRef.generic name args).element?
  else
    match m.find? name with
    | none => .unknown
    | some d =>
      if m.isIterable (.generic name args) then .iterable (m.elementType? (.generic name args))
      else .genericInstance d args

/-- The shape of a bare name. -/
def classifyNamed (m : Module) (name : String) : Shape :=
  match m.find? name with
  | none => .unknown
  | some d =>
    if d.isEnum then .enumeration d
    else if m.isIterable (.named name) then .iterable (m.elementType? (.named name))
    else if d.isGeneric then .genericDefinition d
    else if d.isInterface then .interfaceType d
    else .classType d

/-- The shape of a reference. -/
def classify (m : Module) : TypeRef → Shape
  | .builtin b => if b = .enumerable then .iterable none else .builtin b
  | .parameter name => .parameter name
  | .nullable inner => m.classify inner
  | .array element => .iterable (some element)
  | .generic name args => m.classifyGeneric name args
  | .named name => m.classifyNamed name

/-- The enumeration behind its bare name or the nullable form of that. -/
def enumDefinition? (m : Module) (ref : TypeRef) : Option TypeDef :=
  match ref.withoutNullable with
  | .named name => (m.find? name).filter TypeDef.isEnum
  | _ => none

end Module

end Typings
