import Typings.TypeRef.Basic

/-!
# Faults of modules

What makes a module not well formed.
-/

namespace Typings.WellFormed

/-- What may be declared once only by its owner. -/
inductive Declared where
  | type
  | member
  | parameter
  | property
  deriving DecidableEq, Repr

/-- The noun for a kind of declaration. -/
def Declared.noun : Declared → String
  | .type => "type"
  | .member => "enum member"
  | .parameter => "generic parameter"
  | .property => "property"

/-- What makes a module not well formed. -/
inductive Error where
  | undefined (name context : String)
  | duplicate (declared : Declared) (name owner : String)
  /-- The names on an inheritance cycle, the first of them again at the end. -/
  | circular (path : List String)
  | arity (name : String) (expected found : Nat) (context : String)
  | unnamedType (module : String)
  | unnamedMember (owner : String)
  | unnamedProperty (owner : String)
  | structuredEnum (name : String)
  | genericEnum (name : String)
  | membersOutsideEnum (name : String)
  /-- A base under a nullable or array wrapper. -/
  | wrappedBase (base : TypeRef) (owner : String)
  | enumBase (base owner : String)
  deriving DecidableEq, Repr

/-- The wording of a fault. -/
def Error.message : Error → String
  | undefined name context => "type '" ++ name ++ "' referenced by '" ++ context ++ "' not found"
  | duplicate declared name owner =>
    "duplicate " ++ declared.noun ++ " '" ++ name ++ "' in '" ++ owner ++ "'"
  | circular path => "circular inheritance detected: " ++ String.intercalate " -> " path
  | arity name expected found context =>
    "type '" ++ name ++ "' expects " ++ toString expected ++ " generic argument(s), found " ++
      toString found ++ " in '" ++ context ++ "'"
  | unnamedType module => "validation error: type with empty name in module '" ++ module ++ "'"
  | unnamedMember owner =>
    "validation error: enum '" ++ owner ++ "' has a member with an empty name"
  | unnamedProperty owner => "validation error: '" ++ owner ++ "' has a property with an empty name"
  | structuredEnum name =>
    "validation error: enum '" ++ name ++ "' cannot declare a base type or properties"
  | genericEnum name => "validation error: enum '" ++ name ++ "' cannot declare generic parameters"
  | membersOutsideEnum name =>
    "validation error: '" ++ name ++ "' is not an enum and cannot declare members"
  | wrappedBase base owner =>
    "validation error: base type '" ++ base.text ++ "' of '" ++ owner ++ "' must be a plain type"
  | enumBase base owner =>
    "validation error: '" ++ owner ++ "' cannot derive from enum '" ++ base ++ "'"

end Typings.WellFormed
