import Typings.Proofs.Generation.Alike
import Typings.Proofs.Generation.Track

/-!
# The order of configuration

Most steps may be taken in any order. The order matters among the imports, among the enumerations,
among the mappings of one source, among the values of one switch, and among the values of each of
the style of enumerations and the two transforms. Runs of the same steps that agree on the order
within every track end in configurations that generate alike.
-/

namespace Typings.Generation

/-- The step makes a change on the track. -/
def Step.isOn (m : Module) (track : Track) (step : Step) : Bool :=
  match step.change m with
  | .ok change => change.isOn track
  | .error _ => false

/-- The same steps in another order, each track in its old order. -/
structure Reordering (m : Module) (steps steps' : List Step) : Prop where
  perm : steps.Perm steps'
  order : ∀ track, steps.filter (Step.isOn m track) = steps'.filter (Step.isOn m track)

/-- Changes in another order that agree on every track lead to configurations that are alike. -/
lemma Configuration.alike_makeAll {c : Configuration} {changes changes' : List Change}
    (types : c.registrations.types.Nodup) (sources : c.mappings.sources.Nodup)
    (p : changes.Perm changes')
    (order : ∀ track, changes.filter (Change.isOn track) = changes'.filter (Change.isOn track)) :
    (c.makeAll changes).Alike (c.makeAll changes') where
  model := (model_makeAll c changes).trans (model_makeAll c changes').symm
  options := Options.eq_of_value_eq (fun s => agree_makeAll (order (.switch s)))
    (agree_makeAll (order .enumStyle))
  typeTransform := agree_makeAll (order .typeTransform)
  propertyTransform := agree_makeAll (order .propertyTransform)
  mapping source := agree_makeAll (order (.mapping source))
  sources := (List.perm_ext_iff_of_nodup (nodup_sources_makeAll sources)
    (nodup_sources_makeAll sources)).2 fun ref => holds_makeAll_congr p (.source ref)
  types := (List.perm_ext_iff_of_nodup (nodup_types_makeAll types)
    (nodup_types_makeAll types)).2 fun ref => holds_makeAll_congr p (.type ref)
  enums := agree_makeAll (order .enums)
  imports := agree_makeAll (order .imports)
  excluded ref name := by
    have htypes := holds_makeAll_congr (c := c) p (.excludedType ref)
    have hnames := holds_makeAll_congr (c := c) p (.excludedName name)
    simp only [Holds] at htypes hnames
    simp only [Registrations.isExcluded, List.contains_eq_mem, htypes, hnames]
  propertyExcluded owner name := by
    have hproperties := holds_makeAll_congr (c := c) p (.excludedProperty owner name)
    simp only [Holds] at hproperties
    simp only [Registrations.isPropertyExcluded, List.contains_eq_mem, hproperties]

/-- A track of the steps is the same track of their changes. -/
lemma Step.isOn_eq {m : Module} {step : Step} {change : Change} (h : step.change m = .ok change)
    (track : Track) : step.isOn m track = change.isOn track := by
  rw [Step.isOn, h]

/-- Steps that are not refused in one order are not refused in another that keeps the order within
each track, and then both generate the same text, or fail with the same error. -/
theorem Reordering.generate_eq {m : Module} {steps steps' : List Step} {c : Configuration}
    (reordering : Reordering m steps steps') (h : (Configuration.new m).run steps = .ok c) :
    ∃ c', (Configuration.new m).run steps' = .ok c' ∧
      ∀ kind, (c.generate kind).map Prod.fst = (c'.generate kind).map Prod.fst := by
  obtain ⟨changes, hchanges, rfl⟩ := Configuration.run_eq_ok.1 h
  obtain ⟨changes', hchanges', p⟩ := mapM_perm reordering.perm hchanges
  refine ⟨_, Configuration.run_eq_ok.2 ⟨changes', hchanges', rfl⟩, fun kind => ?_⟩
  -- Filtering the steps of a track and reading off changes commute.
  have order (track : Track) :
      changes.filter (Change.isOn track) = changes'.filter (Change.isOn track) := by
    have hon (step : Step) (change : Change) (hs : step.change m = .ok change) :
        step.isOn m track = change.isOn track := Step.isOn_eq hs track
    have hf := mapM_filter hon hchanges
    rw [reordering.order track, mapM_filter hon hchanges'] at hf
    exact (Except.ok.inj hf).symm
  have alike := Configuration.alike_makeAll (c := Configuration.new m) List.nodup_nil
    MappingTable.nodup_sources_builtin p order
  exact alike.generate kind

/-- A class with a property of an enumeration, and the class that it extends. -/
def palette : Module :=
  { name := "Palette"
    types := [
      { name := "Brush", kind := .classType, base := some (.named "Tool"),
        properties := [⟨"Paint", .named "Color", false, none⟩] },
      { name := "Tool", kind := .classType },
      { name := "Color", kind := .enumType, members := [⟨"Red", 0, none⟩] }] }

/-- Registers the descendant and sets one switch twice. -/
def brushSteps : List Step :=
  [.addTypeRef (.named "Brush"), .setSwitch .preserveInheritance false,
    .setSwitch .preserveInheritance true]

/-- Registers the ancestor and maps a type. -/
def toolSteps : List Step :=
  [.addMapping "int" "bigint" "0n" false, .addTypeRef (.named "Tool"), .excludeName "Glue"]

/-- The descendant may be registered before its ancestor or after it. -/
theorem Reordering.generate_eq_of_palette :
    Reordering palette (brushSteps ++ toolSteps) (toolSteps ++ brushSteps) ∧
      ∃ c c', (Configuration.new palette).run (brushSteps ++ toolSteps) = .ok c ∧
        (Configuration.new palette).run (toolSteps ++ brushSteps) = .ok c' ∧
        ∀ kind, (c.generate kind).map Prod.fst = (c'.generate kind).map Prod.fst := by
  have reordering : Reordering palette (brushSteps ++ toolSteps) (toolSteps ++ brushSteps) := by
    refine ⟨List.perm_append_comm, fun track => ?_⟩
    cases track with
    | switch s => cases s <;> rfl
    | _ => rfl
  obtain ⟨c, h⟩ : ∃ c, (Configuration.new palette).run (brushSteps ++ toolSteps) = .ok c := ⟨_, rfl⟩
  obtain ⟨c', h', same⟩ := reordering.generate_eq h
  exact ⟨reordering, c, c', h, h', same⟩

end Typings.Generation
