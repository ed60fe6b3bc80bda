import Typings.Proofs.Generation.Lines
import Typings.Proofs.Generation.Track

/-!
# Sessions

A configuration is built and used by calls, in any order: steps change it, and generating a script
makes it know the enumerations that were met. A call that is refused or fails leaves it as it was.

Whatever the calls, each registered type is there once and is no enumeration, and each enumeration
is known once, by its bare name unless a call has registered it by another reference.
-/

namespace Typings.Generation

/-- A call on a configuration. -/
inductive Call where
  | step (step : Step)
  | generate (kind : DeclarationKind)

/-- The call registers the reference. -/
def Call.Registers (ref : TypeRef) : Call → Prop
  | .step (.addType expression) => readRef expression = .ok ref
  | .step (.addTypeRef ref') => ref' = ref
  | _ => False

/-- What leads to a definition is its bare name, or applies it to arguments. -/
lemma eq_ref_or_generic_of_definition? {m : Module} {ref : TypeRef} {d : TypeDef}
    (h : m.definition? ref = some d) : ref = d.ref ∨ ∃ args, ref = .generic d.name args := by
  have hname := Module.name_of_definition? h
  cases ref with
  | named n => exact .inl (congrArg TypeRef.named hname.symm)
  | generic n args => exact .inr ⟨args, congrArg (TypeRef.generic · args) hname.symm⟩
  | _ => cases h

/-- The reference is user-defined and leads to a definition, which is that of an enumeration or not,
as the Boolean says. -/
def LeadsTo (m : Module) (isEnum : Bool) (ref : TypeRef) : Prop :=
  ∃ d, m.definition? ref = some d ∧ d.isEnum = isEnum ∧
    (ref = d.ref ∨ ∃ args, ref = .generic d.name args)

lemma leadsTo_of_definition? {m : Module} {ref d} (h : m.definition? ref = some d) :
    LeadsTo m d.isEnum ref :=
  ⟨d, h, rfl, eq_ref_or_generic_of_definition? h⟩

lemma LeadsTo.isEnum {m : Module} {isEnum ref d} (h : LeadsTo m isEnum ref)
    (hd : m.definition? ref = some d) : d.isEnum = isEnum := by
  obtain ⟨e, he, henum, _⟩ := h
  exact Option.some.inj (hd.symm.trans he) ▸ henum

/-- A reference is registered by what it leads to. -/
lemma registration_eq_ok {m : Module} {ref : TypeRef} {change : Change} :
    registration m ref = .ok change ↔
      ∃ d, m.definition? ref = some d ∧
        change = if d.isEnum then .enumeration ref else .types [ref] := by
  cases hd : m.definition? ref with
  | none =>
    cases ref with
    | named n => simp [registration, hd]
    | generic n args => simp [registration, hd]
    | _ => simp [registration]
  | some d =>
    -- Only names and applied names are defined.
    have hregistration : registration m ref =
        .ok (if d.isEnum then .enumeration ref else .types [ref]) := by
      cases ref with
      | named n => simp only [registration, hd]
      | generic n args => simp only [registration, hd]
      | _ => cases hd
    simp only [hregistration, Except.ok.injEq, Option.some.injEq, exists_eq_left']
    exact eq_comm

/-- What is registered is a class, an interface or an enumeration of the module, each in its place.
-/
lemma leadsTo_of_registration {m : Module} {ref change}
    (h : registration m ref = .ok change) :
    change = .types [ref] ∧ LeadsTo m false ref ∨
      change = .enumeration ref ∧ LeadsTo m true ref := by
  obtain ⟨d, hd, rfl⟩ := registration_eq_ok.1 h
  have hleads := leadsTo_of_definition? hd
  cases henum : d.isEnum with
  | false => exact .inl ⟨rfl, henum ▸ hleads⟩
  | true => exact .inr ⟨rfl, henum ▸ hleads⟩

namespace Step

variable {m : Module} {step : Step}

/-- A step registers a reference, or the classes of the module, or neither types nor enumerations.
-/
lemma change_cases {change} (h : step.change m = .ok change) :
    (∃ ref, (Call.step step).Registers ref ∧ registration m ref = .ok change) ∨
      change = .types ((m.types.filter fun d => d.isClass && !d.isAbstract).map TypeDef.ref) ∨
      (∀ refs, change ≠ .types refs) ∧ ∀ ref, change ≠ .enumeration ref := by
  cases step with
  | addType expression =>
    obtain ⟨ref, href, h⟩ := bind_eq_ok.1 h
    exact .inl ⟨ref, href, h⟩
  | addTypeRef ref => exact .inl ⟨ref, rfl, h⟩
  | addModule =>
    cases h
    exact .inr (.inl rfl)
  | addMapping expression script initial nullable =>
    obtain ⟨ref, _, h⟩ := bind_eq_ok.1 h
    obtain ⟨entry, _, rfl⟩ := map_eq_ok.1 h
    exact .inr (.inr ⟨nofun, nofun⟩)
  | excludeType expression =>
    obtain ⟨ref, _, rfl⟩ := map_eq_ok.1 h
    exact .inr (.inr ⟨nofun, nofun⟩)
  | excludeProperty expression name =>
    obtain ⟨ref, _, rfl⟩ := map_eq_ok.1 h
    exact .inr (.inr ⟨nofun, nofun⟩)
  | addImport expression path =>
    obtain ⟨ref, _, rfl⟩ := map_eq_ok.1 h
    exact .inr (.inr ⟨nofun, nofun⟩)
  | _ =>
    cases h
    exact .inr (.inr ⟨nofun, nofun⟩)

/-- The types that a step registers are classes and interfaces of the module. -/
lemma leadsTo_of_change_types (distinct : m.names.Nodup) {refs}
    (h : step.change m = .ok (.types refs)) : ∀ ref ∈ refs, LeadsTo m false ref := by
  rcases step.change_cases h with ⟨ref, _, hregistration⟩ | hclasses | ⟨hnone, _⟩
  · rcases leadsTo_of_registration hregistration with ⟨hchange, hleads⟩ | ⟨hchange, _⟩
    · obtain rfl := Change.types.inj hchange
      exact List.forall_mem_singleton.2 hleads
    · cases hchange
  · -- The classes are registered by name, without looking them up.
    obtain rfl := Change.types.inj hclasses
    intro ref href
    obtain ⟨d, hd, rfl⟩ := List.mem_map.1 href
    obtain ⟨hmem, hclass⟩ := List.mem_filter.1 hd
    have hkind : d.isEnum = false := by
      rw [Bool.and_eq_true, TypeDef.isClass, beq_iff_eq] at hclass
      rw [TypeDef.isEnum, hclass.1]
      rfl
    exact hkind ▸ leadsTo_of_definition? (Module.definition?_ref distinct hmem)
  · exact absurd rfl (hnone refs)

/-- The enumeration that a step registers is one of the module. -/
lemma leadsTo_of_change_enumeration {ref} (h : step.change m = .ok (.enumeration ref)) :
    LeadsTo m true ref := by
  rcases step.change_cases h with ⟨ref', _, hregistration⟩ | hclasses | ⟨_, hnone⟩
  · rcases leadsTo_of_registration hregistration with ⟨hchange, _⟩ | ⟨hchange, hleads⟩
    · cases hchange
    · exact Change.enumeration.inj hchange ▸ hleads
  · cases hclasses
  · exact absurd rfl (hnone ref)

/-- A step that adds an enumeration registers its reference. -/
lemma registers_of_change_enumeration {ref} (h : step.change m = .ok (.enumeration ref)) :
    (Call.step step).Registers ref := by
  rcases step.change_cases h with ⟨ref', hregisters, hregistration⟩ | hclasses | ⟨_, hnone⟩
  · obtain ⟨d, _, hchange⟩ := registration_eq_ok.1 hregistration
    split at hchange
    case isTrue => exact Change.enumeration.inj hchange ▸ hregisters
    case isFalse => cases hchange
  · cases hclasses
  · exact absurd rfl (hnone ref)

end Step

namespace Configuration

variable {c c' : Configuration} {kind : DeclarationKind} {calls : List Call}

/-- The configuration after a call. -/
def after (c : Configuration) : Call → Configuration
  | .step step =>
    match c.apply step with
    | .ok c' => c'
    | .error _ => c
  | .generate kind =>
    match c.generate kind with
    | .ok (_, c') => c'
    | .error _ => c

/-- The configuration after calls one after the other. -/
def afterAll (c : Configuration) (calls : List Call) : Configuration :=
  calls.foldl after c

/-- Registering a type expression is registering what it reads as. -/
lemma after_addType {expression ref} (h : readRef expression = .ok ref) :
    c.after (.step (.addType expression)) = c.after (.step (.addTypeRef ref)) := by
  rw [after, apply, h]
  rfl

lemma after_of_generate {out} (h : c.generate kind = .ok (out, c')) :
    c.after (.generate kind) = c' := by
  rw [after, h]

lemma after_of_generate_error {e} (h : c.generate kind = .error e) :
    c.after (.generate kind) = c := by
  rw [after, h]

/-- Writing a script to a file leaves the configuration as generating it does, be there a folder or
not. -/
lemma snd_write (folder : Folder) : (c.write kind folder).2 = c.after (.generate kind) := by
  rw [write, after]
  cases c.generate kind with
  | error e => rfl
  | ok result =>
    obtain ⟨text, c'⟩ := result
    dsimp only
    cases folder.write text <;> rfl

/-- A call leaves the configuration alone, makes the change of its step, or makes known the
enumerations of the written lines. -/
lemma after_cases (c : Configuration) (call : Call) :
    c.after call = c ∨
      (∃ step change, call = .step step ∧ step.change c.model = .ok change ∧
        c.after call = c.make change) ∨
      ∃ lines, c.after call =
        c.knowing (insertAll (c.enumsOfLines lines) c.registrations.enums) := by
  cases call with
  | step step =>
    rw [after]
    cases happly : c.apply step with
    | error e => exact .inl rfl
    | ok c' =>
      rw [apply_eq] at happly
      obtain ⟨change, hchange, rfl⟩ := map_eq_ok.1 happly
      exact .inr (.inl ⟨step, change, rfl, hchange, rfl⟩)
  | generate kind =>
    cases hgenerate : c.generate kind with
    | error e => exact .inl (after_of_generate_error hgenerate)
    | ok result =>
      obtain ⟨out, c'⟩ := result
      obtain ⟨script, enums, hscript, _, rfl⟩ := generate_eq_ok.1 hgenerate
      obtain ⟨lines, _, _, rfl⟩ := exists_lines_of_script hscript
      exact .inr (.inr ⟨lines, after_of_generate hgenerate⟩)

/-- No call touches the module. -/
lemma model_after (c : Configuration) (call : Call) : (c.after call).model = c.model := by
  rcases c.after_cases call with h | ⟨step, change, _, _, h⟩ | ⟨lines, h⟩
  · rw [h]
  · rw [h, model_make]
  · rw [h]
    rfl

/-- Each registered type is there once and is no enumeration, and each enumeration is known once. -/
structure Registered (c : Configuration) : Prop where
  types : c.registrations.types.Nodup
  enums : c.registrations.enums.Nodup
  proper : ∀ ref ∈ c.registrations.types, ∀ d, c.model.definition? ref = some d → d.isEnum = false

/-- The change of a step keeps what is registered in order. -/
lemma Registered.make (hc : c.Registered) (distinct : c.model.names.Nodup) {step : Step} {change}
    (h : step.change c.model = .ok change) : (c.make change).Registered where
  types := by
    have htypes : (c.makeAll [change]).registrations.types.Nodup := nodup_types_makeAll hc.types
    exact htypes
  enums := by
    rw [registrations_make]
    cases change with
    | enumeration ref => exact nodup_insertNew hc.enums
    | _ => exact hc.enums
  proper := by
    rw [registrations_make, model_make]
    cases change with
    | types refs =>
      intro ref href
      rcases mem_insertAll.1 href with href | href
      · exact hc.proper ref href
      · exact fun d => (step.leadsTo_of_change_types distinct h ref href).isEnum
    | _ => exact hc.proper

/-- A call keeps what is registered in order. -/
lemma Registered.after (hc : c.Registered) (distinct : c.model.names.Nodup) (call : Call) :
    (c.after call).Registered := by
  rcases c.after_cases call with h | ⟨step, change, _, hchange, h⟩ | ⟨lines, h⟩
  · rw [h]
    exact hc
  · rw [h]
    exact hc.make distinct hchange
  · rw [h]
    exact ⟨hc.types, nodup_insertAll hc.enums, hc.proper⟩

lemma Registered.afterAll (hc : c.Registered) (distinct : c.model.names.Nodup) (calls : List Call) :
    (c.afterAll calls).Registered := by
  induction calls generalizing c with
  | nil => exact hc
  | cons call calls ih => exact ih (hc.after distinct call) (c.model_after call ▸ distinct)

lemma registered_new (m : Module) : (new m).Registered :=
  ⟨List.nodup_nil, List.nodup_nil, by simp [new]⟩

/-- An enumeration that is known after a call was known before, or the call registers it, or it is
known by its bare name. -/
lemma mem_enums_after {call : Call} {ref} (h : ref ∈ (c.after call).registrations.enums) :
    ref ∈ c.registrations.enums ∨ call.Registers ref ∨ ∃ n, ref = .named n := by
  rcases c.after_cases call with hafter | ⟨step, change, rfl, hchange, hafter⟩ | ⟨lines, hafter⟩
  · rw [hafter] at h
    exact .inl h
  · rw [hafter, registrations_make] at h
    cases change with
    | enumeration ref' =>
      rcases mem_insertNew.1 h with h | rfl
      · exact .inl h
      · exact .inr (.inl (step.registers_of_change_enumeration hchange))
    | _ => exact .inl h
  · rw [hafter] at h
    rcases mem_insertAll.1 h with h | h
    · exact .inl h
    · rw [enumsOfLines_eq] at h
      split at h
      case isTrue =>
        obtain ⟨line, _, hline⟩ := List.mem_filterMap.1 h
        obtain ⟨d, _, rfl⟩ := Option.map_eq_some_iff.1 hline
        exact .inr (.inr ⟨d.name, rfl⟩)
      case isFalse => cases h

/-- An enumeration that is known after calls was known before, or a call registers it, or it is
known by its bare name. -/
lemma mem_enums_afterAll {ref} (h : ref ∈ (c.afterAll calls).registrations.enums) :
    ref ∈ c.registrations.enums ∨ (∃ call ∈ calls, call.Registers ref) ∨ ∃ n, ref = .named n := by
  induction calls generalizing c with
  | nil => exact .inl h
  | cons call calls ih =>
    rcases ih h with h | ⟨later, hlater, h⟩ | h
    · rcases mem_enums_after h with h | h | h
      · exact .inl h
      · exact .inr (.inl ⟨call, List.mem_cons_self, h⟩)
      · exact .inr (.inr h)
    · exact .inr (.inl ⟨later, List.mem_cons_of_mem _ hlater, h⟩)
    · exact .inr (.inr h)

end Configuration

end Typings.Generation
