import Typings.Definition

/-!
# Modules

A module is a named list of type definitions. A definition is found by its name; of several
definitions of one name the last is found, whatever the list holds besides.
-/

namespace Typings

/-- A module of type definitions, in the order of their declaration. -/
structure Module where
  name : String
  description : Option String := none
  types : List TypeDef := []
  deriving DecidableEq, Repr

namespace Module

/-- The definition of that name. -/
def find? (m : Module) (name : String) : Option TypeDef :=
  m.types.reverse.find? (·.name == name)

/-- The module defines a type of that name. -/
def has (m : Module) (name : String) : Bool :=
  (m.find? name).isSome

/-- The module with one more definition behind the others. -/
def add (m : Module) (d : TypeDef) : Module :=
  { m with types := m.types ++ [d] }

/-- The names of the types, in the order of their declaration. -/
def names (m : Module) : List String :=
  m.types.map (·.name)

/-- A definition that is found has the name it was looked up by. -/
theorem name_of_find? {m : Module} {name : String} {d : TypeDef} (h : m.find? name = some d) :
    d.name = name := by
  simpa using List.find?_some h

/-- A definition that is found belongs to the module. -/
theorem mem_of_find? {m : Module} {name : String} {d : TypeDef} (h : m.find? name = some d) :
    d ∈ m.types := by
  simpa using List.mem_of_find?_eq_some h

/-- A name is defined exactly when it is one of the names of the types. -/
theorem has_iff_mem_names {m : Module} {name : String} : m.has name = true ↔ name ∈ m.names := by
  simp [has, find?, names, List.find?_isSome]

/-- What is added is found under its name. -/
theorem find?_add_self (m : Module) (d : TypeDef) : (m.add d).find? d.name = some d := by
  simp [find?, add]

/-- What is added hides nothing of another name. -/
theorem find?_add_of_ne {m : Module} {d : TypeDef} {name : String} (h : d.name ≠ name) :
    (m.add d).find? name = m.find? name := by
  simp [find?, add, h]

end Module

end Typings
