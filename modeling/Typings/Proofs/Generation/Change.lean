import Typings.Generation.Configuration
import Typings.Proofs.Outcome

/-!
# Changes of a configuration

A step is accepted or refused by what it says and by the module, whatever has been configured
before. An accepted step makes a change, and a run of accepted steps makes their changes one after
the other.

A change touches one part of the configuration. What a part holds at the end of a run depends on the
changes that touch it alone, in their order.
-/

namespace Typings.Generation

/-- What an accepted step changes. -/
inductive Change where
  | types (refs : List TypeRef)
  | enumeration (ref : TypeRef)
  | mapping (entry : Mapping)
  | excludedType (ref : TypeRef)
  | excludedName (name : String)
  | excludedProperty (owner : TypeRef) (name : String)
  | import (ref : TypeRef) (path : String)
  | switch (switch : Switch) (value : Bool)
  | enumStyle (style : EnumStyle)
  | typeTransform (transform : String → String)
  | propertyTransform (transform : String → String)

/-- The change of registering a type. -/
def registration (m : Module) (ref : TypeRef) : Except Error Change :=
  match ref with
  | .named _ | .generic _ _ =>
    match m.definition? ref with
    | none => .error (.registration ref .undescribed)
    | some d => .ok (if d.isEnum then .enumeration ref else .types [ref])
  | _ => .error (.registration ref .notUserDefined)

/-- The change that a step makes, unless it is refused. -/
def Step.change (m : Module) : Step → Except Error Change
  | .addType expression => do registration m (← readRef expression)
  | .addTypeRef ref => registration m ref
  | .addModule =>
    .ok (.types ((m.types.filter fun d => d.isClass && !d.isAbstract).map TypeDef.ref))
  | .addMapping expression script initial nullable => do
    let ref ← readRef expression
    (Mapping.make ref script initial nullable).map .mapping
  | .excludeType expression => (readRef expression).map .excludedType
  | .excludeName name => .ok (.excludedName name)
  | .excludeProperty expression name => (readRef expression).map (.excludedProperty · name)
  | .addImport expression path => (readRef expression).map (.import · path)
  | .setSwitch switch value => .ok (.switch switch value)
  | .setEnumStyle style => .ok (.enumStyle style)
  | .setTypeTransform transform => .ok (.typeTransform transform)
  | .setPropertyTransform transform => .ok (.propertyTransform transform)

namespace Configuration

/-- Makes a change. -/
def make (c : Configuration) : Change → Configuration
  | .types refs => c.modifyRegistrations fun r => refs.foldl Registrations.addType r
  | .enumeration ref => c.modifyRegistrations (·.addEnum ref)
  | .mapping entry => { c with mappings := c.mappings.insert entry }
  | .excludedType ref => c.modifyRegistrations (·.excludeType ref)
  | .excludedName name => c.modifyRegistrations (·.excludeName name)
  | .excludedProperty owner name => c.modifyRegistrations (·.excludeProperty owner name)
  | .import ref path => c.modifyRegistrations (·.addImport ref path)
  | .switch switch value => { c with options := c.options.set value switch }
  | .enumStyle style => { c with options := { c.options with enumStyle := style } }
  | .typeTransform transform => { c with typeTransform := some transform }
  | .propertyTransform transform => { c with propertyTransform := some transform }

/-- Takes steps one after the other, as long as none is refused. -/
def run (c : Configuration) (steps : List Step) : Except Error Configuration :=
  steps.foldlM apply c

/-- Makes changes one after the other. -/
def makeAll (c : Configuration) (changes : List Change) : Configuration :=
  changes.foldl make c

variable {c : Configuration}

/-- Registering a type makes its change. -/
lemma register_eq (c : Configuration) (ref : TypeRef) :
    c.register ref = (registration c.model ref).map c.make := by
  cases ref with
  | named n =>
    rw [register, registration]
    cases c.model.definition? (.named n) with
    | none => rfl
    | some d => cases h : d.isEnum <;> simp [h, Except.map, make]
  | generic n args =>
    rw [register, registration]
    cases c.model.definition? (.generic n args) with
    | none => rfl
    | some d => cases h : d.isEnum <;> simp [h, Except.map, make]
  | _ => rfl

/-- A step that is not refused makes its change. -/
lemma apply_eq (c : Configuration) (step : Step) :
    c.apply step = (step.change c.model).map c.make := by
  cases step with
  | addType expression =>
    rw [apply, Step.change]
    cases readRef expression with
    | error e => rfl
    | ok ref => exact register_eq c ref
  | addTypeRef ref => exact register_eq c ref
  | addModule =>
    simp only [apply, Step.change, registerModule, Except.map, make, List.foldl_map]
  | addMapping expression script initial nullable =>
    rw [apply, Step.change]
    cases readRef expression with
    | error e => rfl
    | ok ref =>
      cases h : Mapping.make ref script initial nullable <;>
        simp [h, MappingTable.add, bind, Except.bind, Except.map, make]
  | excludeType expression => rw [apply, Step.change]; cases readRef expression <;> rfl
  | excludeProperty expression name => rw [apply, Step.change]; cases readRef expression <;> rfl
  | addImport expression path => rw [apply, Step.change]; cases readRef expression <;> rfl
  | _ => rfl

/-- No change touches the module. -/
@[simp] lemma model_make (c : Configuration) (change : Change) :
    (c.make change).model = c.model := by
  cases change <;> rfl

/-- A run that is not refused makes the changes of its steps. -/
lemma run_eq_ok {steps c'} :
    c.run steps = .ok c' ↔
      ∃ changes, steps.mapM (Step.change c.model) = .ok changes ∧ c' = c.makeAll changes := by
  -- Each step is judged by the module, which the changes before it have left alone.
  induction steps generalizing c with
  | nil =>
    simp only [run, List.foldlM_nil, List.mapM_nil, makeAll]
    constructor
    · intro h
      exact ⟨[], rfl, (Except.ok.inj h).symm⟩
    · rintro ⟨changes, h, rfl⟩
      cases h
      rfl
  | cons step rest ih =>
    rw [run, List.foldlM_cons, bind_eq_ok]
    simp only [mapM_eq_ok, List.forall₂_cons_left_iff, apply_eq, map_eq_ok]
    constructor
    · rintro ⟨_, ⟨change, hchange, rfl⟩, h⟩
      obtain ⟨changes, hchanges, rfl⟩ := ih.1 h
      rw [model_make, mapM_eq_ok] at hchanges
      exact ⟨_, ⟨change, changes, hchange, hchanges, rfl⟩, rfl⟩
    · rintro ⟨_, ⟨change, changes, hchange, hchanges, rfl⟩, rfl⟩
      refine ⟨c.make change, ⟨change, hchange, rfl⟩, ih.2 ⟨changes, ?_, rfl⟩⟩
      rw [model_make, mapM_eq_ok]
      exact hchanges

end Configuration

end Typings.Generation
