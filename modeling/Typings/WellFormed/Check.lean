import Typings.Text.Blank
import Typings.WellFormed.Error
import Typings.Module.Inheritance

/-!
# Checking a module

A module is checked name by name, then definition by definition, then for cycles of inheritance; the
first fault is reported. References to types that the module does not define are no faults: they
stand for foreign types.
-/

namespace Typings.WellFormed

open Typings.Text

/-- Checks the names of types and the types that nested ones are declared in; `seen` are the names
of the types before. -/
def checkNames (m : Module) (seen : List String) : List TypeDef → Except Error Unit
  | [] => .ok ()
  | d :: rest =>
    if isBlank d.name then .error (.unnamedType m.name)
    else if d.name ∈ seen then .error (.duplicate .type d.name m.name)
    else
      match d.declaring.filter (!m.has ·) with
      | some owner => .error (.undefined owner d.name)
      | none => checkNames m (d.name :: seen) rest

/-- Checks the members of an enumeration. -/
def checkMembers (owner : String) (seen : List String) : List EnumMember → Except Error Unit
  | [] => .ok ()
  | e :: rest =>
    if isBlank e.name then .error (.unnamedMember owner)
    else if e.name ∈ seen then .error (.duplicate .member e.name owner)
    else checkMembers owner (e.name :: seen) rest

/-- Checks the definition of an enumeration. -/
def checkEnum (d : TypeDef) : Except Error Unit :=
  if d.base.isSome || !d.properties.isEmpty then .error (.structuredEnum d.name)
  else if d.isGeneric then .error (.genericEnum d.name)
  else checkMembers d.name [] d.members

/-- Checks the generic parameters of a type. -/
def checkParams (owner : String) (seen : List String) : List String → Except Error Unit
  | [] => .ok ()
  | p :: rest =>
    if p ∈ seen then .error (.duplicate .parameter p owner)
    else checkParams owner (p :: seen) rest

mutual

/-- Checks that every type of the module that a reference applies has as many arguments as
parameters. A bare generic name is allowed: it stands for the type with its own parameters. -/
def checkReference (m : Module) (context : String) : TypeRef → Except Error Unit
  | .builtin _ | .parameter _ | .named _ => .ok ()
  | .nullable t | .array t => checkReference m context t
  | .generic name args =>
    match (m.find? name).filter (·.params.length != args.length) with
    | some d => .error (.arity d.name d.params.length args.length context)
    | none => checkArgs m context args

/-- Checks the arguments of a reference in order. -/
def checkArgs (m : Module) (context : String) : List TypeRef → Except Error Unit
  | [] => .ok ()
  | a :: rest => do
    checkReference m context a
    checkArgs m context rest

end

/-- A plain reference has no wrapper around it. -/
def isPlain : TypeRef → Bool
  | .nullable _ | .array _ => false
  | _ => true

/-- Checks the base of a type. -/
def checkBase (m : Module) (owner : String) (base : TypeRef) : Except Error Unit := do
  checkReference m (owner ++ " (base)") base
  if !isPlain base then .error (.wrappedBase base owner)
  else if (m.find? base.name).any TypeDef.isEnum then .error (.enumBase base.name owner)
  else .ok ()

/-- Checks the properties of a type. -/
def checkProperties (m : Module) (owner : String) (seen : List String) :
    List Property → Except Error Unit
  | [] => .ok ()
  | p :: rest =>
    if isBlank p.name then .error (.unnamedProperty owner)
    else if p.name ∈ seen then .error (.duplicate .property p.name owner)
    else do
      checkReference m (owner ++ "." ++ p.name) p.type
      checkProperties m owner (p.name :: seen) rest

/-- Checks the definition of a class or interface. -/
def checkType (m : Module) (d : TypeDef) : Except Error Unit :=
  if !d.members.isEmpty then .error (.membersOutsideEnum d.name)
  else do
    checkParams d.name [] d.params
    match d.base with
    | some base => checkBase m d.name base
    | none => .ok ()
    checkProperties m d.name [] d.properties

/-- Checks definitions in order. -/
def checkDefinitions (m : Module) : List TypeDef → Except Error Unit
  | [] => .ok ()
  | d :: rest => do
    if d.isEnum then checkEnum d else checkType m d
    checkDefinitions m rest

/-- Checks that no type lies on a cycle of inheritance. -/
def checkInheritance (m : Module) : List TypeDef → Except Error Unit
  | [] => .ok ()
  | d :: rest =>
    match m.cycle? d with
    | some path => .error (.circular path)
    | none => checkInheritance m rest

end Typings.WellFormed

/-- Checks that a module is well formed. -/
def Typings.Module.check (m : Module) : Except WellFormed.Error Unit := do
  WellFormed.checkNames m [] m.types
  WellFormed.checkDefinitions m m.types
  WellFormed.checkInheritance m m.types
