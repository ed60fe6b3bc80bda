import Typings.Proofs.Manifest.Finished
import Typings.Proofs.Module.Hiding
import Typings.Proofs.Module.Walk

/-!
# Declared nullability

The declaration of a property marks it as nullable when its type is. Flattening rewrites the types
of inherited properties and keeps their marks, so a property that is declared of the type of a
parameter takes a nullable type without the mark where a nullable type stands for the parameter.
This is the only way for the two to part.
-/

namespace Typings

/-- The property comes from a declaration. -/
def Property.Declared (p : Property) : Prop :=
  ∃ marked, p = .declare p.name p.type marked p.description

/-- A property comes from a declaration exactly when its type is not nullable or it is marked so. -/
lemma Property.declared_iff {p : Property} :
    p.Declared ↔ (p.type.isNullable = true → p.nullable = true) := by
  obtain ⟨name, type, nullable, description⟩ := p
  simp only [Declared, declare, Property.mk.injEq, true_and, and_true]
  constructor
  · rintro ⟨marked, rfl⟩ h
    rw [h, Bool.true_or]
  · intro h
    refine ⟨nullable, ?_⟩
    cases htype : type.isNullable with
    | true => rw [h htype, Bool.true_or]
    | false => rw [Bool.false_or]

/-- A substitution makes a reference nullable exactly when it is so already, or is a parameter that
a nullable reference stands for. -/
lemma TypeRef.isNullable_substitute {t : TypeRef} {σ : Bindings} :
    (t.substitute σ).isNullable = true ↔
      t.isNullable = true ∨ ∃ n u, t = .parameter n ∧ σ.find? n = some (.nullable u) := by
  cases t with
  | parameter n =>
    rw [substitute]
    cases h : σ.find? n with
    | none => simp [isNullable, h]
    | some a => simp [isNullable_iff, h]
  | _ => simp [substitute, isNullable]

namespace Module

variable {m : Module} {d : TypeDef} {p : Property}

/-- The properties of every type come from declarations. -/
def Declares (m : Module) : Prop :=
  ∀ d ∈ m.types, ∀ p ∈ d.properties, p.Declared

/-- The property is inherited from a declaration that does not mark it, of the type of a parameter
for which a nullable type stands. -/
def Filled (m : Module) (d : TypeDef) (p : Property) : Prop :=
  ∃ l ∈ m.ancestors d, ∃ q ∈ l.definition.properties, p = q.substitute l.bindings ∧
    q.nullable = false ∧ ∃ n u, q.type = .parameter n ∧ l.bindings.find? n = some (.nullable u)

/-- A property of a type is its own, or inherited with the arguments of an ancestor in its type. -/
lemma mem_properties {own : Bool} (h : p ∈ m.properties d own) :
    p ∈ d.properties ∨
      ∃ l ∈ m.ancestors d, ∃ q ∈ l.definition.properties, p = q.substitute l.bindings := by
  rw [properties] at h
  split at h
  case isTrue => exact .inl h
  case isFalse =>
    refine (List.mem_append.1 h).imp_right fun h => ?_
    obtain ⟨l, hl, hp⟩ := List.mem_flatMap.1 (mem_of_mem_firstOfName h)
    obtain ⟨q, hq, rfl⟩ := List.mem_map.1 hp
    exact ⟨l, hl, q, hq, rfl⟩

/-- The ancestors of a type are types of the module. -/
lemma mem_types_of_mem_ancestors {l} (h : l ∈ m.ancestors d) : l.definition ∈ m.types := by
  rw [ancestors] at h
  split at h
  case h_1 => cases h
  case h_2 base _ => exact mem_of_definition? (definition?_of_mem_lineageFrom h)

/-- In a module whose properties come from declarations, a property of a type is marked as its type
says, unless a nullable type stands for the parameter that it is declared of. -/
lemma declared_properties_iff (declares : m.Declares) (hd : d ∈ m.types) {own : Bool}
    (hp : p ∈ m.properties d own) : p.Declared ↔ ¬m.Filled d p := by
  rw [Property.declared_iff]
  constructor
  · rintro h ⟨l, _, q, _, rfl, hmark, n, u, htype, hfind⟩
    have hnullable : (q.substitute l.bindings).type.isNullable = true :=
      TypeRef.isNullable_substitute.2 (.inr ⟨n, u, htype, hfind⟩)
    exact Bool.eq_false_iff.1 hmark (h hnullable)
  · intro h hnullable
    rcases mem_properties hp with hp | ⟨l, hl, q, hq, rfl⟩
    · exact Property.declared_iff.1 (declares d hd p hp) hnullable
    · have hdeclared := Property.declared_iff.1
        (declares l.definition (mem_types_of_mem_ancestors hl) q hq)
      rcases TypeRef.isNullable_substitute.1 hnullable with hnullable | ⟨n, u, htype, hfind⟩
      · exact hdeclared hnullable
      · by_contra hmark
        exact h ⟨l, hl, q, hq, rfl, Bool.eq_false_iff.2 hmark, n, u, htype, hfind⟩

end Module

namespace Manifest

/-- Properties are finished by their declarations. -/
lemma established_declared : Established fun d => ∀ p ∈ d.properties, p.Declared where
  finish _ h p hp := by
    obtain ⟨draft, type, _, rfl⟩ := mem_properties_finish h hp
    exact ⟨draft.marked, rfl⟩
  enumeration h := by
    obtain ⟨name, declaring, description, rfl⟩ := begun_enumOf h
    simp
  member _ h := h

/-- The properties of a module that is read come from declarations. -/
lemma declares_ofText {text m} (h : ofText text = .ok m) : m.Declares :=
  established_declared.forall_types_ofText h

end Manifest

end Typings
