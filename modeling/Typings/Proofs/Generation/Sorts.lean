import Typings.Proofs.Generation.Discovery
import Typings.Proofs.Generation.Uniqueness

/-!
# The sorts of registrations

A module that passes the check is described by its definitions, and whatever the calls on its
configuration, what is registered is described too: the types are classes and interfaces, the
enumerations are enumerations, and nothing is there twice. So nothing is left out of a script
because nothing describes it, and no root is an enumeration.
-/

namespace Typings.Generation

namespace Configuration

variable {c : Configuration}

/-- The registered types are classes and interfaces of the module, the enumerations are enumerations
of it, and no key is there twice. -/
structure WellSorted (c : Configuration) : Prop extends Registered c where
  described : ∀ ref ∈ c.registrations.types, LeadsTo c.model false ref
  enumerations : ∀ ref ∈ c.registrations.enums, LeadsTo c.model true ref
  imports : (c.registrations.imports.map Prod.fst).Nodup

/-- The enumerations that lines are of are enumerations of the module. -/
lemma leadsTo_of_mem_enumsOfLines {lines ref} (h : ref ∈ c.enumsOfLines lines) :
    LeadsTo c.model true ref := by
  rw [enumsOfLines_eq] at h
  split at h
  case isTrue =>
    obtain ⟨line, _, hline⟩ := List.mem_filterMap.1 h
    obtain ⟨d, hd, rfl⟩ := Option.map_eq_some_iff.1 hline
    obtain ⟨_, hfind, henum⟩ := Module.enumDefinition?_eq_some.1 hd
    have hdefinition : c.model.definition? d.ref = some d := hfind
    exact henum ▸ leadsTo_of_definition? hdefinition
  case isFalse => cases h

/-- An import of a type that is imported already changes nothing, so the imported types stay
different. -/
lemma nodup_imports_addImport {r : Registrations} {ref path} (h : (r.imports.map Prod.fst).Nodup) :
    ((r.addImport ref path).imports.map Prod.fst).Nodup := by
  rw [Registrations.imports_addImport]
  split
  case isTrue => exact h
  case isFalse hnew =>
    have hfresh : ref ∉ r.imports.map Prod.fst := by simpa using hnew
    rw [List.map_append]
    exact h.append (List.nodup_singleton _) (List.disjoint_singleton.2 hfresh)

namespace WellSorted

/-- The change of a step keeps what is registered well sorted. -/
lemma make (hc : c.WellSorted) (distinct : c.model.names.Nodup) {step : Step} {change}
    (h : step.change c.model = .ok change) : (c.make change).WellSorted where
  toRegistered := hc.toRegistered.make distinct h
  described := by
    rw [registrations_make, model_make]
    cases change with
    | types refs =>
      intro ref href
      rcases mem_insertAll.1 href with href | href
      · exact hc.described ref href
      · exact step.leadsTo_of_change_types distinct h ref href
    | _ => exact hc.described
  enumerations := by
    rw [registrations_make, model_make]
    cases change with
    | enumeration ref =>
      intro ref' href
      rcases mem_insertNew.1 href with href | rfl
      · exact hc.enumerations ref' href
      · exact step.leadsTo_of_change_enumeration h
    | _ => exact hc.enumerations
  imports := by
    rw [registrations_make]
    cases change with
    | «import» ref path => exact nodup_imports_addImport hc.imports
    | _ => exact hc.imports

/-- A call keeps what is registered well sorted. -/
lemma after (hc : c.WellSorted) (distinct : c.model.names.Nodup) (call : Call) :
    (c.after call).WellSorted := by
  rcases c.after_cases call with h | ⟨step, change, _, hchange, h⟩ | ⟨lines, h⟩
  · rw [h]
    exact hc
  · rw [h]
    exact hc.make distinct hchange
  · have hregistered := hc.toRegistered.after distinct call
    rw [h] at hregistered ⊢
    refine ⟨hregistered, hc.described, fun ref href => ?_, hc.imports⟩
    -- The enumerations that become known are found by the lines.
    rcases mem_insertAll.1 href with href | href
    · exact hc.enumerations ref href
    · exact leadsTo_of_mem_enumsOfLines href

lemma afterAll (hc : c.WellSorted) (distinct : c.model.names.Nodup) (calls : List Call) :
    (c.afterAll calls).WellSorted := by
  induction calls generalizing c with
  | nil => exact hc
  | cons call calls ih => exact ih (hc.after distinct call) (c.model_after call ▸ distinct)

end WellSorted

lemma wellSorted_new (m : Module) : (new m).WellSorted :=
  ⟨registered_new m, by simp [new], by simp [new], List.nodup_nil⟩

/-- The enumerations known once a script is composed are enumerations of the module. -/
lemma WellSorted.leadsTo_of_script (hc : c.WellSorted) {script enums}
    (h : c.script = .ok (script, enums)) : ∀ ref ∈ enums, LeadsTo c.model true ref := by
  obtain ⟨lines, _, _, rfl⟩ := exists_lines_of_script h
  intro ref href
  rcases mem_insertAll.1 href with href | href
  · exact hc.enumerations ref href
  · exact leadsTo_of_mem_enumsOfLines href

lemma model_afterAll (c : Configuration) (calls : List Call) :
    (c.afterAll calls).model = c.model := by
  induction calls generalizing c with
  | nil => rfl
  | cons call calls ih => exact (ih (c.after call)).trans (c.model_after call)

/-- Whatever the calls on a module that passes the check, what is registered is well sorted. So no
root is an enumeration, and every enumeration that is known when a script is composed is one of the
module. -/
theorem wellSorted_afterAll {m : Module} (check : m.check = .ok ()) (calls : List Call) :
    ((new m).afterAll calls).model = m ∧ ((new m).afterAll calls).WellSorted ∧
      (∀ d ∈ ((new m).afterAll calls).roots, d.isEnum = false) ∧
      ∀ script enums, ((new m).afterAll calls).script = .ok (script, enums) →
        ∀ ref ∈ enums, LeadsTo m true ref := by
  have distinct : (new m).model.names.Nodup := (Module.wellFormed_of_check check).distinct
  have hc := (wellSorted_new m).afterAll distinct calls
  have hmodel : ((new m).afterAll calls).model = m := model_afterAll (new m) calls
  refine ⟨hmodel, hc, fun d hd => hc.toRegistered.isEnum_of_mem_roots hd, fun script enums h => ?_⟩
  have hleads := hc.leadsTo_of_script h
  rw [hmodel] at hleads
  exact hleads

/-- A type that is not there is refused, the enumeration of the class is met when a script is
generated, and then it is registered with an argument. -/
def mixedCalls : List Call :=
  [.step (.addTypeRef (.named "Paper")), .step .addModule, .generate .interface,
    .step (.addTypeRef (.generic "Color" [.builtin .int32]))]

/-- What the calls register. -/
def mixedBox : Configuration :=
  { model := crayons
    registrations :=
      { types := [.named "Crayon"]
        enums := [.named "Color", .generic "Color" [.builtin .int32]] } }

lemma afterAll_mixedCalls : (new crayons).afterAll mixedCalls = mixedBox := by
  have hadded :
      ((new crayons).after (.step (.addTypeRef (.named "Paper")))).after (.step .addModule) =
        { model := crayons, registrations := { types := [.named "Crayon"] } } := rfl
  have hdeclare : Configuration.declare
      { model := crayons, registrations := { types := [.named "Crayon"] } } crayon =
        .ok crayonRoot := by
    decide +kernel
  have hgenerate := generate_of_singleton .interface rfl rfl hdeclare
  rw [mixedCalls, afterAll, List.foldl_cons, List.foldl_cons, hadded, List.foldl_cons,
    after_of_generate hgenerate]
  rfl

/-- Every key is in its place after the calls. -/
theorem wellSorted_afterAll_of_crayons :
    crayons.check = .ok () ∧ (new crayons).afterAll mixedCalls = mixedBox ∧ mixedBox.WellSorted ∧
      ∀ d ∈ mixedBox.roots, d.isEnum = false := by
  obtain ⟨_, hsorted, hroots, _⟩ := wellSorted_afterAll check_crayons mixedCalls
  rw [afterAll_mixedCalls] at hsorted hroots
  exact ⟨check_crayons, afterAll_mixedCalls, hsorted, hroots⟩

end Configuration

end Typings.Generation
