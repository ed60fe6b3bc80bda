import Typings.Proofs.Generation.Change
import Typings.Proofs.Generation.Keys

/-!
# Tracks and keys

A configuration has parts in which the order of changes shows, each on a track of its own, and
collections of keys in which it does not. Changes that are the same on a track leave its part the
same. Changes in another order leave the collections with the same keys.
-/

namespace Typings.Generation

/-- The value of a switch. -/
def Options.value (o : Options) : Switch → Bool
  | .includeEnums => o.includeEnums
  | .makeNullable => o.makeNullable
  | .orderByName => o.orderByName
  | .prefixClasses => o.prefixClasses
  | .prefixInterfaces => o.prefixInterfaces
  | .preserveInheritance => o.preserveInheritance

namespace Options

lemma value_set_self (o : Options) (value : Bool) (s : Switch) :
    (o.set value s).value s = value := by
  cases s <;> rfl

lemma value_set_of_ne (o : Options) (value : Bool) {s s' : Switch} (h : s ≠ s') :
    (o.set value s).value s' = o.value s' := by
  cases s <;> cases s' <;> simp_all [Options.set, Options.value]

lemma enumStyle_set (o : Options) (value : Bool) (s : Switch) :
    (o.set value s).enumStyle = o.enumStyle := by
  cases s <;> rfl

/-- The switches and the style of enumerations are all there is to options. -/
lemma eq_of_value_eq {o o' : Options} (values : ∀ s, o.value s = o'.value s)
    (style : o.enumStyle = o'.enumStyle) : o = o' := by
  obtain ⟨_, _, _, _, _, _, _⟩ := o
  obtain ⟨_, _, _, _, _, _, _⟩ := o'
  obtain rfl := values .includeEnums
  obtain rfl := values .makeNullable
  obtain rfl := values .orderByName
  obtain rfl := values .prefixClasses
  obtain rfl := values .prefixInterfaces
  obtain rfl := values .preserveInheritance
  obtain rfl := style
  rfl

end Options

/-- The parts of a configuration in which the order of changes shows. -/
inductive Track where
  | imports
  | enums
  | mapping (source : TypeRef)
  | switch (switch : Switch)
  | enumStyle
  | typeTransform
  | propertyTransform
  deriving DecidableEq, Repr

/-- The track that a change is on, if its order shows at all. -/
def Change.track? : Change → Option Track
  | .enumeration _ => some .enums
  | .mapping entry => some (.mapping entry.source)
  | .import _ _ => some .imports
  | .switch s _ => some (.switch s)
  | .enumStyle _ => some .enumStyle
  | .typeTransform _ => some .typeTransform
  | .propertyTransform _ => some .propertyTransform
  | .types _ | .excludedType _ | .excludedName _ | .excludedProperty _ _ => none

/-- Two configurations hold the same in the part that a track is about. -/
def Track.Agree (track : Track) (c c' : Configuration) : Prop :=
  match track with
  | .imports => c.registrations.imports = c'.registrations.imports
  | .enums => c.registrations.enums = c'.registrations.enums
  | .mapping source => c.mappings.find? source = c'.mappings.find? source
  | .switch s => c.options.value s = c'.options.value s
  | .enumStyle => c.options.enumStyle = c'.options.enumStyle
  | .typeTransform => c.typeTransform = c'.typeTransform
  | .propertyTransform => c.propertyTransform = c'.propertyTransform

namespace Track.Agree

variable {c₁ c₂ c₃ : Configuration} {track : Track}

lemma refl (track : Track) (c : Configuration) : track.Agree c c := by
  cases track <;> rfl

lemma symm (h : track.Agree c₁ c₂) : track.Agree c₂ c₁ := by
  cases track <;> exact Eq.symm h

lemma trans (h : track.Agree c₁ c₂) (h' : track.Agree c₂ c₃) : track.Agree c₁ c₃ := by
  cases track <;> exact Eq.trans h h'

end Track.Agree

/-- The change is on the track. -/
def Change.isOn (track : Track) (change : Change) : Bool :=
  change.track? == some track

/-- The keys of the collections of a configuration. -/
inductive Key where
  | source (ref : TypeRef)
  | type (ref : TypeRef)
  | excludedType (ref : TypeRef)
  | excludedName (name : String)
  | excludedProperty (owner : TypeRef) (name : String)

/-- The key is in its collection. -/
def Configuration.Holds (c : Configuration) : Key → Prop
  | .source ref => ref ∈ c.mappings.sources
  | .type ref => ref ∈ c.registrations.types
  | .excludedType ref => ref ∈ c.registrations.excludedTypes
  | .excludedName name => name ∈ c.registrations.excludedNames
  | .excludedProperty owner name => (owner, name) ∈ c.registrations.excludedProperties

/-- The change puts the key into its collection. -/
def Change.Adds : Change → Key → Prop
  | .mapping entry, .source ref => ref = entry.source
  | .types refs, .type ref => ref ∈ refs
  | .excludedType ref, .excludedType ref' => ref' = ref
  | .excludedName name, .excludedName name' => name' = name
  | .excludedProperty owner name, .excludedProperty owner' name' =>
    (owner', name') = (owner, name)
  | _, _ => False

namespace Configuration

variable {c c' : Configuration} {changes changes' : List Change}

/-- Only mappings change the mappings. -/
lemma mappings_make (c : Configuration) (change : Change) :
    (c.make change).mappings =
      match change with
      | .mapping entry => c.mappings.insert entry
      | _ => c.mappings := by
  cases change <;> rfl

/-- Only switches and the style of enumerations change the options. -/
lemma options_make (c : Configuration) (change : Change) :
    (c.make change).options =
      match change with
      | .switch s value => c.options.set value s
      | .enumStyle style => { c.options with enumStyle := style }
      | _ => c.options := by
  cases change <;> rfl

/-- What a change makes of the registrations. -/
lemma registrations_make (c : Configuration) (change : Change) :
    (c.make change).registrations =
      match change with
      | .types refs =>
        { c.registrations with types := insertAll refs c.registrations.types }
      | .enumeration ref => c.registrations.addEnum ref
      | .excludedType ref => c.registrations.excludeType ref
      | .excludedName name => c.registrations.excludeName name
      | .excludedProperty owner name => c.registrations.excludeProperty owner name
      | .import ref path =>
        { c.registrations with imports := (c.registrations.addImport ref path).imports }
      | _ => c.registrations := by
  cases change with
  | types refs => exact c.registrations.foldl_addType refs
  | «import» ref path => exact c.registrations.addImport_eq ref path
  | _ => rfl

/-- What every change keeps is kept by all of them. -/
lemma makeAll_induct {P : Configuration → Prop} (h : ∀ c change, P c → P (c.make change))
    (hc : P c) :
    P (c.makeAll changes) := by
  induction changes generalizing c with
  | nil => exact hc
  | cons change rest ih => exact ih (h c change hc)

/-- No change touches the module. -/
lemma model_makeAll (c : Configuration) (changes : List Change) :
    (c.makeAll changes).model = c.model :=
  makeAll_induct (P := fun c' => c'.model = c.model)
    (fun c' change hc => (model_make c' change).trans hc) rfl

/-- A change on a track leaves configurations agreeing that agree before it. -/
lemma agree_make {track : Track} {change : Change} (ht : change.track? = some track)
    (h : track.Agree c c') : track.Agree (c.make change) (c'.make change) := by
  cases change with
  | enumeration ref =>
    obtain rfl := Option.some.inj ht
    exact congrArg (insertNew ref) h
  | mapping entry =>
    obtain rfl := Option.some.inj ht
    simp only [Track.Agree, mappings_make, MappingTable.find?_insert_self]
  | «import» ref path =>
    obtain rfl := Option.some.inj ht
    simp only [Track.Agree, registrations_make, Registrations.imports_addImport]
    rw [show c.registrations.imports = c'.registrations.imports from h]
  | switch s value =>
    obtain rfl := Option.some.inj ht
    simp only [Track.Agree, options_make, Options.value_set_self]
  | enumStyle style =>
    obtain rfl := Option.some.inj ht
    rfl
  | typeTransform transform =>
    obtain rfl := Option.some.inj ht
    rfl
  | propertyTransform transform =>
    obtain rfl := Option.some.inj ht
    rfl
  | _ => cases ht

/-- A change that is not on a track leaves its part of the configuration alone. -/
lemma agree_make_self {track : Track} {change : Change} (ht : change.track? ≠ some track) :
    track.Agree (c.make change) c := by
  -- The case that is left of each track is the change on it, and that is excluded.
  cases track with
  | imports =>
    rw [Track.Agree, registrations_make]
    cases change with
    | «import» ref path => exact absurd rfl ht
    | _ => rfl
  | enums =>
    rw [Track.Agree, registrations_make]
    cases change with
    | enumeration ref => exact absurd rfl ht
    | _ => rfl
  | mapping source =>
    cases change with
    | mapping entry =>
      have hne : entry.source ≠ source := fun h => ht (congrArg (some ∘ Track.mapping) h)
      exact MappingTable.find?_insert_of_ne hne
    | _ => rfl
  | switch s =>
    cases change with
    | switch s' value =>
      have hne : s' ≠ s := fun h => ht (congrArg (some ∘ Track.switch) h)
      exact c.options.value_set_of_ne value hne
    | enumStyle style => cases s <;> rfl
    | _ => rfl
  | enumStyle =>
    cases change with
    | switch s value => exact c.options.enumStyle_set value s
    | enumStyle style => exact absurd rfl ht
    | _ => rfl
  | typeTransform =>
    cases change with
    | typeTransform transform => exact absurd rfl ht
    | _ => rfl
  | propertyTransform =>
    cases change with
    | propertyTransform transform => exact absurd rfl ht
    | _ => rfl

/-- What a run leaves of the part of a track is the work of the changes on it. -/
lemma agree_makeAll_filter {track : Track} (h : track.Agree c c') :
    track.Agree (c.makeAll changes) (c'.makeAll (changes.filter (Change.isOn track))) := by
  induction changes generalizing c c' with
  | nil => exact h
  | cons change rest ih =>
    have step : c.makeAll (change :: rest) = (c.make change).makeAll rest := rfl
    rw [step, List.filter_cons]
    by_cases ht : change.track? = some track
    · rw [if_pos (by simpa [Change.isOn] using ht)]
      exact ih (agree_make ht h)
    · rw [if_neg (by simpa [Change.isOn] using ht)]
      exact ih ((agree_make_self ht).trans h)

/-- Changes that are the same on a track lead to configurations that agree on it. -/
lemma agree_makeAll {track : Track}
    (h : changes.filter (Change.isOn track) = changes'.filter (Change.isOn track)) :
    track.Agree (c.makeAll changes) (c.makeAll changes') := by
  -- Both agree with what the changes on the track make of the configuration by themselves.
  refine (agree_makeAll_filter (.refl track c)).trans ?_
  rw [h]
  exact (agree_makeAll_filter (.refl track c)).symm

/-- After a change the keys of before are there and those that it adds. -/
lemma holds_make (c : Configuration) (change : Change) (key : Key) :
    (c.make change).Holds key ↔ c.Holds key ∨ change.Adds key := by
  cases key with
  | source ref =>
    rw [Holds, mappings_make]
    cases change with
    | mapping entry => rw [MappingTable.sources_insert, mem_insertNew]; rfl
    | _ => exact (or_iff_left not_false).symm
  | type ref =>
    rw [Holds, registrations_make]
    cases change with
    | types refs => exact mem_insertAll
    | _ => exact (or_iff_left not_false).symm
  | excludedType ref =>
    rw [Holds, registrations_make]
    cases change with
    | excludedType ref' => exact mem_insertNew
    | _ => exact (or_iff_left not_false).symm
  | excludedName name =>
    rw [Holds, registrations_make]
    cases change with
    | excludedName name' => exact mem_insertNew
    | _ => exact (or_iff_left not_false).symm
  | excludedProperty owner name =>
    rw [Holds, registrations_make]
    cases change with
    | excludedProperty owner' name' => exact mem_insertNew
    | _ => exact (or_iff_left not_false).symm

/-- After changes the keys of before are there and those that some of them add. -/
lemma holds_makeAll {key : Key} :
    (c.makeAll changes).Holds key ↔ c.Holds key ∨ ∃ change ∈ changes, change.Adds key := by
  induction changes generalizing c with
  | nil => simp [makeAll]
  | cons change rest ih =>
    have step : c.makeAll (change :: rest) = (c.make change).makeAll rest := rfl
    rw [step, ih, holds_make, List.exists_mem_cons_iff, or_assoc]

/-- Changes in another order leave the same keys. -/
lemma holds_makeAll_congr (p : changes.Perm changes') (key : Key) :
    (c.makeAll changes).Holds key ↔ (c.makeAll changes').Holds key := by
  simp only [holds_makeAll, p.mem_iff]

/-- Every change keeps each registered type once. -/
lemma nodup_types_makeAll (h : c.registrations.types.Nodup) :
    (c.makeAll changes).registrations.types.Nodup := by
  refine makeAll_induct (P := fun c => c.registrations.types.Nodup) (fun c change hc => ?_) h
  rw [registrations_make]
  cases change with
  | types refs => exact nodup_insertAll hc
  | _ => exact hc

/-- Every change keeps each mapped source once. -/
lemma nodup_sources_makeAll (h : c.mappings.sources.Nodup) :
    (c.makeAll changes).mappings.sources.Nodup := by
  refine makeAll_induct (P := fun c => c.mappings.sources.Nodup) (fun c change hc => ?_) h
  rw [mappings_make]
  cases change with
  | mapping entry => exact MappingTable.sources_insert _ entry ▸ nodup_insertNew hc
  | _ => exact hc

end Configuration

end Typings.Generation
