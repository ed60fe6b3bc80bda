import Mathlib.Data.List.Nodup
import Typings.Module.Basic

/-!
# Looking definitions up

In a module whose types have different names, a definition is found by its name exactly when it is
one of the types.
-/

namespace Typings.Module

variable {m : Module}

/-- Types of one name are one type when the names of the module are different. -/
lemma eq_of_name_eq (distinct : m.names.Nodup) {d e} (hd : d ∈ m.types) (he : e ∈ m.types)
    (h : d.name = e.name) : d = e :=
  List.inj_on_of_nodup_map distinct hd he h

/-- A type is found by its name when the names of the module are different. -/
lemma find?_of_mem (distinct : m.names.Nodup) {d} (hd : d ∈ m.types) : m.find? d.name = some d := by
  have hhas : m.has d.name = true := has_iff_mem_names.2 (List.mem_map_of_mem hd)
  obtain ⟨e, he⟩ := Option.isSome_iff_exists.1 hhas
  rw [he, eq_of_name_eq distinct (mem_of_find? he) hd (name_of_find? he)]

/-- What a name finds is the type of that name, when the names of the module are different. -/
lemma find?_eq_some_iff (distinct : m.names.Nodup) {name d} :
    m.find? name = some d ↔ d ∈ m.types ∧ d.name = name := by
  constructor
  · intro h
    exact ⟨mem_of_find? h, name_of_find? h⟩
  · rintro ⟨hd, rfl⟩
    exact find?_of_mem distinct hd

end Typings.Module
