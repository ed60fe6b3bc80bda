import Typings.Proofs.Manifest.Finished
import Typings.Proofs.TypeRef.Scope
import Typings.Proofs.WellFormed.Rules

/-!
# The scope of definitions

Every definition that is read from a manifest mentions no parameters but its own, in its base as in
the types of its properties.
-/

namespace Typings

/-- The parameters that a definition mentions are its own. -/
def TypeDef.Scoped (d : TypeDef) : Prop :=
  ∀ ref ∈ d.references, ref.Scoped d.params

namespace Manifest

lemma ofExpression_of_readType {params expression t} (h : readType params expression = .ok t) :
    TypeRef.ofExpression params expression = .ok t := by
  rw [readType] at h
  cases hread : TypeRef.ofExpression params expression with
  | error e => rw [hread] at h; cases h
  | ok type =>
    rw [hread] at h
    cases h
    rfl

/-- Every reference of a finished definition is read in the scope of its parameters. -/
lemma exists_readType_of_mem_references {draft : TypeDraft} {d} (h : draft.finish = .ok d) {ref}
    (href : ref ∈ d.references) : ∃ expression, readType d.params expression = .ok ref := by
  rcases List.mem_append.1 href with href | href
  · obtain ⟨base, hbase, h⟩ := bind_eq_ok.1 h
    obtain ⟨properties, _, h⟩ := bind_eq_ok.1 h
    cases h
    obtain rfl := Option.mem_toList.1 href
    cases hdraft : draft.base with
    | none => rw [hdraft] at hbase; cases hbase
    | some expression =>
      rw [hdraft, Option.mapM_some] at hbase
      obtain ⟨type, htype, heq⟩ := bind_eq_ok.1 hbase
      cases heq
      exact ⟨expression, htype⟩
  · obtain ⟨p, hp, rfl⟩ := List.mem_map.1 href
    obtain ⟨draft, type, htype, rfl⟩ := mem_properties_finish h hp
    exact ⟨draft.expression, htype⟩

/-- A definition that is finished mentions its own parameters only. -/
lemma scoped_finish {draft : TypeDraft} {d} (h : draft.finish = .ok d) : d.Scoped := by
  intro ref href
  obtain ⟨expression, hread⟩ := exists_readType_of_mem_references h href
  exact TypeRef.scoped_ofExpression (ofExpression_of_readType hread)

/-- Definitions are finished with their own parameters only. -/
lemma established_scoped : Established TypeDef.Scoped where
  finish _ h := scoped_finish h
  enumeration h := by
    obtain ⟨name, declaring, description, rfl⟩ := begun_enumOf h
    exact nofun
  -- A member makes no reference.
  member _ h := h

/-- The definitions of a module that is read mention their own parameters only. -/
theorem scoped_ofText {text m} (h : ofText text = .ok m) : ∀ d ∈ m.types, d.Scoped :=
  established_scoped.forall_types_ofText h

end Manifest

end Typings
