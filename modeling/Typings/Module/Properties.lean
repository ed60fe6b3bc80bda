import Typings.Module.Lineage

/-!
# Properties with their inheritance

The flattened view of a type holds its own properties and, behind them, those of its ancestors from
the nearest on. A name that has come already hides those that come later.
-/

namespace Typings

/-- Keeps the first property of each name that is not hidden. -/
def firstOfName (hidden : List String) : List Property → List Property
  | [] => []
  | p :: rest =>
    if p.name ∈ hidden then firstOfName hidden rest
    else p :: firstOfName (p.name :: hidden) rest

namespace Module

/-- The ancestors of a definition, from the nearest on, with generic arguments in their bases. -/
def ancestors (m : Module) (d : TypeDef) : List Link :=
  match d.base with
  | none => []
  | some base => m.lineageFrom Link.boundBase (m.names.filter (· != d.name)) base

/-- The properties that a type inherits. -/
def inheritedProperties (m : Module) (d : TypeDef) : List Property :=
  firstOfName (d.properties.map (·.name)) ((m.ancestors d).flatMap Link.properties)

/-- The properties of a type: its own, and unless only those are asked for, the inherited ones. -/
def properties (m : Module) (d : TypeDef) (declaredOnly : Bool) : List Property :=
  if declaredOnly then d.properties else d.properties ++ m.inheritedProperties d

end Module

end Typings
