import Typings.Module.Basic

/-!
# Inheritance by name

The trail of a type holds the names met by following bases from it. It ends where a type has no base
that the module defines, and at the first name that comes a second time.
-/

namespace Typings.Module

/-- The definition of the base of a type, by the name in the base whatever wraps it. -/
def baseDefinition? (m : Module) (d : TypeDef) : Option TypeDef :=
  d.base.bind fun base => m.find? base.name

/-- The names met by following bases, given the names not met so far. -/
def trailFrom (m : Module) (unseen : List String) (d : TypeDef) : List String :=
  match m.baseDefinition? d with
  | none => []
  | some b =>
    if b.name ∈ unseen then b.name :: m.trailFrom (unseen.filter (· != b.name)) b else [b.name]
termination_by unseen.length
decreasing_by
  have h : b.name ∈ unseen := ‹_›
  have lt : (unseen.filter (· != b.name)).length < unseen.length :=
    List.length_filter_lt_length_iff_exists.2 ⟨b.name, h, by simp⟩
  simpa using lt

/-- The names met by following bases from a type, without its own at the start. -/
def trail (m : Module) (d : TypeDef) : List String :=
  m.trailFrom (m.names.filter (· != d.name)) d

/-- The cycle that a type lies on: its trail from its own name, if it comes back to that. -/
def cycle? (m : Module) (d : TypeDef) : Option (List String) :=
  if (m.trail d).getLast? = some d.name then some (d.name :: m.trail d) else none

end Typings.Module
