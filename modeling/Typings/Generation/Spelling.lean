import Typings.Generation.Depth
import Typings.Module.Shape

/-!
# Spelling of types

How a reference is written as a script type. A mapping of the exact reference comes first; else the
shape of the reference decides, and what the module does not describe is `any`.

An iterable user type is written as the array of its elements, which its bases declare. A type whose
elements lead back to it has a spelling only where a mapping ends the way. The recursion carries a
bound on its depth, which is doubled until the reference is spelled within it; a reference that is
not spelled within the last of them has none.
-/

namespace Typings

namespace Generation

/-- The script type with `null` besides, unless it is an array or admits `null` already. -/
def withNull (script : String) : String :=
  if "[]".toList.isSuffixOf script.toList || " | null".toList.isSuffixOf script.toList then script
  else script ++ " | null"

/-- The error of a reference that is given up at the bound. -/
def Error.isEndless : Error → Bool
  | .endless _ => true
  | _ => false

/-- The outcome is that a reference is given up. -/
def isEndless {α : Type} : Except Error α → Bool
  | .ok _ => false
  | .error e => e.isEndless

namespace Context

/-- Writes a reference, going at most the given number of steps deep. -/
def spellWithin (c : Context) : Nat → TypeRef → Except Error String
  | 0, ref => .error (.endless ref)
  | bound + 1, ref =>
    match c.mappings.find? ref with
    | some mapping => .ok mapping.scalar
    | none =>
      match ref with
      | .nullable inner => c.spellWithin bound inner
      | ref =>
        match c.model.classify ref with
        | .enumeration d => .ok (c.enumName d)
        | .iterable (some element) =>
          match c.mappings.find? element with
          | some mapping => .ok mapping.array
          | none => (c.spellWithin bound element).map (· ++ "[]")
        | .iterable none => .ok "any[]"
        | .genericDefinition d | .classType d => c.typeName d
        | .genericInstance d args => do c.instanceName d (← args.mapM (c.spellWithin bound))
        | .parameter name => .ok name
        | .interfaceType d => .ok d.name
        | .builtin _ | .unknown => .ok "any"

/-- Doubles a depth until the reference is not given up at it, at most the given number of times. -/
def depthFrom (c : Context) (ref : TypeRef) : Nat → Nat → Nat
  | 0, depth => depth
  | doublings + 1, depth =>
    if isEndless (c.spellWithin depth ref) then c.depthFrom ref doublings (2 * depth) else depth

/-- How deep the spelling of a reference goes. -/
def spellingDepth (c : Context) (ref : TypeRef) : Nat :=
  c.depthFrom ref c.doublings (c.straightDepth ref)

/-- Writes a reference as a script type. -/
def spell (c : Context) (ref : TypeRef) : Except Error String :=
  c.spellWithin (c.spellingDepth ref) ref

/-- Writes references in order. -/
def spellAll (c : Context) (refs : List TypeRef) : Except Error (List String) :=
  refs.mapM c.spell

/-- A property without a mapping admits `null`: one of an enumeration when its type is nullable,
one of another user-defined type when it is declared so or all are made so. -/
def admitsNull (c : Context) (p : Property) : Bool :=
  match c.model.classify p.type with
  | .enumeration _ => p.type.isNullable
  | .builtin _ | .iterable _ => false
  | _ => p.nullable || c.options.makeNullable

/-- Writes the type of a property. A mapped type states itself whether it admits `null`. -/
def propertyType (c : Context) (p : Property) : Except Error String := do
  let script ← c.spell p.type
  if (c.mappings.find? p.type).isNone && c.admitsNull p then .ok (withNull script) else .ok script

/-- The literal that initialises a property of a type. -/
def defaultValue (c : Context) (ref : TypeRef) : String :=
  match c.mappings.find? ref with
  | some mapping => mapping.initial
  | none =>
    match c.model.classify ref with
    | .enumeration d =>
      match d.members with
      | e :: _ => if ref.isNullable then "null" else c.enumName d ++ "." ++ e.name
      | [] => "null"
    | .iterable _ => "[]"
    | _ => "null"

/-- The name of a defined type behind a reference. -/
def referenceName (c : Context) (d : TypeDef) : TypeRef → Except Error String
  | .generic _ args => do c.instanceName d (← c.spellAll args)
  | _ => c.typeName d

/-- The name of the base of a type, if the module defines it as a class or interface. -/
def baseName (c : Context) (d : TypeDef) : Except Error (Option String) :=
  match d.base with
  | none => .ok none
  | some base =>
    match c.model.definition? base with
    | none => .ok none
    | some b => if b.isEnum then .ok none else (c.referenceName b base).map some

/-- The name that a type is imported under. -/
def importName (c : Context) (ref : TypeRef) : Except Error String :=
  match c.model.definition? ref with
  | none => c.externalName ref
  | some d => if d.isEnum then .ok (c.enumName d) else c.referenceName d ref

end Context

end Generation

end Typings
