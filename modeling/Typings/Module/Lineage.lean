import Typings.Module.Basic
import Typings.TypeRef.Substitution

/-!
# Lineages

The lineage of a reference holds the definitions met by following bases from it, each with the
reference that led to it. A walk enters each name at most once, so it ends on every module, whether
inheritance goes round in it or references grow from base to base.
-/

namespace Typings

/-- A definition and the reference that leads to it. -/
structure Link where
  ref : TypeRef
  definition : TypeDef
  deriving DecidableEq, Repr

namespace Link

/-- The arguments that the reference gives to the parameters of the definition. -/
def bindings (l : Link) : Bindings :=
  l.ref.bindings l.definition.params

/-- The base as it is declared. -/
def base (l : Link) : Option TypeRef :=
  l.definition.base

/-- The base with the arguments of the reference in it. -/
def boundBase (l : Link) : Option TypeRef :=
  l.definition.base.map (·.substitute l.bindings)

/-- The properties with the arguments of the reference in their types. -/
def properties (l : Link) : List Property :=
  l.definition.properties.map fun p => { p with type := p.type.substitute l.bindings }

end Link

namespace Module

/-- The definition of a user-defined type. Wrappers are not looked through. -/
def definition? (m : Module) : TypeRef → Option TypeDef
  | .named name | .generic name _ => m.find? name
  | _ => none

/-- Follows `next` from a reference as long as it leads to a definition of an unseen name. -/
def lineageFrom (m : Module) (next : Link → Option TypeRef) (unseen : List String)
    (ref : TypeRef) : List Link :=
  match m.definition? ref with
  | none => []
  | some d =>
    if d.name ∈ unseen then
      ⟨ref, d⟩ ::
        match next ⟨ref, d⟩ with
        | none => []
        | some base => m.lineageFrom next (unseen.filter (· != d.name)) base
    else []
termination_by unseen.length
decreasing_by
  have h : d.name ∈ unseen := ‹_›
  have lt : (unseen.filter (· != d.name)).length < unseen.length :=
    List.length_filter_lt_length_iff_exists.2 ⟨d.name, h, by simp⟩
  simpa using lt

/-- The lineage of a reference. -/
def lineage (m : Module) (next : Link → Option TypeRef) (ref : TypeRef) : List Link :=
  m.lineageFrom next m.names ref

/-- The references met on a walk: the first one, and those that the links lead on to. The last of
them may lead nowhere. -/
def chain (m : Module) (next : Link → Option TypeRef) (ref : TypeRef) : List TypeRef :=
  ref :: (m.lineage next ref).filterMap next

/-- The depth of inheritance: the type itself and all its ancestors. A built-in or undefined base
counts as one ancestor. -/
def inheritanceDepth (m : Module) (ref : TypeRef) : Nat :=
  (m.chain Link.base ref).length

end Module

end Typings
