import Mathlib.Data.List.Nodup
import Typings.Manifest.Reader
import Typings.Proofs.Outcome

/-!
# What holds of finished definitions

The definition of a class or interface is finished when its element ends, that of an enumeration is
there from the start and gets its members one by one. A property of definitions that both ways bring
about holds of every definition of a manifest. While the manifest is read, it holds of the types of
the module, of the enumeration that is open, and of the types that wait, nested in the drafts whose
elements are open.
-/

namespace Typings.Manifest

open Typings.Markup

variable {P : TypeDef → Prop}

/-- The draft is one of a class or interface. -/
structure TypeDraft.IsObject (draft : TypeDraft) : Prop where
  kind : draft.definition.isEnum = false
  members : draft.definition.members = []

/-- A property of definitions that holds of the draft of a class or interface once it is finished,
of an enumeration without members, and of an enumeration that gets one more member. -/
structure Established (P : TypeDef → Prop) : Prop where
  finish : ∀ {draft d}, draft.IsObject → TypeDraft.finish draft = .ok d → P d
  enumeration : ∀ {tag owner d}, enumOf tag owner = .ok d → P d
  member : ∀ {d member}, d.isEnum = true → P d → P (addMember d member)

/-- The drafts are those of classes and interfaces, and the property holds of the finished types
that are nested in them. -/
def DraftsHold (P : TypeDef → Prop) (drafts : List TypeDraft) : Prop :=
  ∀ draft ∈ drafts, draft.IsObject ∧ ∀ d ∈ draft.nested, P d

/-- The types of the module have different names, and the property holds of each of them. -/
structure ModuleHolds (P : TypeDef → Prop) (m : Module) : Prop where
  distinct : m.names.Nodup
  types : ∀ d ∈ m.types, P d

/-- The property holds of what has been finished at a place, and of an enumeration that is open,
which is one. -/
def Place.Holds (P : TypeDef → Prop) : Place → Prop
  | .outside => True
  | .inType type around => DraftsHold P (type :: around)
  | .inEnum enumeration around | .inMember _ _ enumeration around =>
    enumeration.isEnum = true ∧ P enumeration ∧ DraftsHold P around

/-- The property holds of what has been finished. -/
def State.Holds (P : TypeDef → Prop) : State → Prop
  | .before => True
  | .within m _ place => ModuleHolds P m ∧ place.Holds P

/-- The types of a module with more types are those of before and those that are added, which have
new names. -/
lemma holds_addTypes {m m' : Module} {ds} (hm : ModuleHolds P m) (hds : ∀ d ∈ ds, P d)
    (h : addTypes m ds = .ok m') : ModuleHolds P m' := by
  induction ds generalizing m with
  | nil => exact Except.ok.inj h ▸ hm
  | cons d rest ih =>
    rw [List.forall_mem_cons] at hds
    rw [addTypes] at h
    split at h
    case isTrue => cases h
    case isFalse hnew =>
      refine ih ⟨?_, ?_⟩ hds.2 h
      · rw [Module.has_iff_mem_names] at hnew
        rw [Module.names, Module.add, List.map_append]
        exact hm.distinct.append (List.nodup_singleton _) (List.disjoint_singleton.2 hnew)
      · rw [Module.add, List.forall_mem_append, List.forall_mem_singleton]
        exact ⟨hm.types, hds.1⟩

/-- Handing over finished types of which the property holds keeps it. -/
lemma holds_deliver {m ended types around s} (hm : ModuleHolds P m)
    (haround : DraftsHold P around) (htypes : ∀ d ∈ types, P d)
    (h : deliver m ended types around = .ok s) : s.Holds P := by
  cases around with
  | nil =>
    obtain ⟨m', hm', h⟩ := bind_eq_ok.1 h
    cases h
    exact ⟨holds_addTypes hm htypes hm', trivial⟩
  | cons draft around =>
    cases h
    refine ⟨hm, ?_⟩
    rw [DraftsHold, List.forall_mem_cons] at haround
    obtain ⟨⟨hobject, hnested⟩, haround⟩ := haround
    rw [Place.Holds, DraftsHold, List.forall_mem_cons, List.forall_mem_append]
    exact ⟨⟨⟨hobject.kind, hobject.members⟩, hnested, htypes⟩, haround⟩

/-- A property that is read is declared by a draft, with a type that is read in the scope. -/
lemma mem_readProperties {owner params done drafts properties}
    (h : readProperties owner params done drafts = .ok properties) {p} (hp : p ∈ properties) :
    p ∈ done ∨ ∃ (draft : PropertyDraft) (type : TypeRef),
      readType params draft.expression = .ok type ∧
        p = .declare draft.name type draft.marked draft.description := by
  induction drafts generalizing done with
  | nil =>
    cases h
    exact .inl hp
  | cons draft rest ih =>
    rw [readProperties] at h
    split at h
    · cases h
    · obtain ⟨type, htype, hrest⟩ := bind_eq_ok.1 h
      rcases ih hrest with hp | hp
      · rcases List.mem_append.1 hp with hp | hp
        · exact .inl hp
        · exact .inr ⟨draft, type, htype, List.mem_singleton.1 hp⟩
      · exact .inr hp

/-- A property of a finished definition is declared by a draft, with a type that is read in the
scope of the definition. -/
lemma mem_properties_finish {draft : TypeDraft} {d} (h : draft.finish = .ok d) {p}
    (hp : p ∈ d.properties) :
    ∃ (draft : PropertyDraft) (type : TypeRef), readType d.params draft.expression = .ok type ∧
      p = .declare draft.name type draft.marked draft.description := by
  obtain ⟨base, _, h⟩ := bind_eq_ok.1 h
  obtain ⟨properties, hproperties, h⟩ := bind_eq_ok.1 h
  cases h
  exact (mem_readProperties hproperties hp).resolve_left List.not_mem_nil

/-- A draft begins with the kind of its tag, without members and without types nested in it. -/
lemma begun_typeDraftOf {tag kind owner draft} (h : typeDraftOf tag kind owner = .ok draft) :
    draft.definition.kind = kind ∧ draft.definition.members = [] ∧ draft.nested = [] := by
  obtain ⟨attributes, _, h⟩ := bind_eq_ok.1 h
  obtain ⟨isAbstract, _, h⟩ := bind_eq_ok.1 h
  obtain ⟨name, _, h⟩ := bind_eq_ok.1 h
  cases h
  exact ⟨rfl, rfl, rfl⟩

/-- A draft that begins with the tag of a class or interface is one of a class or interface. -/
lemma isObject_typeDraftOf {tag kind owner draft} (h : typeDraftOf tag kind owner = .ok draft)
    (hkind : kind ≠ .enumType) : draft.IsObject := by
  obtain ⟨rfl, hmembers, _⟩ := begun_typeDraftOf h
  exact ⟨beq_false_of_ne hkind, hmembers⟩

/-- An enumeration begins with no more than its name, perhaps inside a type and with a description.
-/
lemma begun_enumOf {tag owner d} (h : enumOf tag owner = .ok d) :
    ∃ name declaring description, d = { name, kind := .enumType, declaring, description } := by
  obtain ⟨attributes, _, h⟩ := bind_eq_ok.1 h
  obtain ⟨name, _, h⟩ := bind_eq_ok.1 h
  cases h
  exact ⟨name, _, _, rfl⟩

lemma isEnum_enumOf {tag owner d} (h : enumOf tag owner = .ok d) : d.isEnum = true := by
  obtain ⟨_, _, _, rfl⟩ := begun_enumOf h
  rfl

section Step

variable {m : Module} {ended : Bool} {tag : Tag} {kind : TypeKind} {around : List TypeDraft}
  {event : Event} {s : State}

/-- Entering a type begins an enumeration, or the draft of a class or interface. -/
lemma openType_cases (h : openType m ended tag kind around = .ok s) :
    (∃ owner d, kind = .enumType ∧ enumOf tag owner = .ok d ∧
        s = .within m ended (.inEnum d around)) ∨
      ∃ owner draft, kind ≠ .enumType ∧ typeDraftOf tag kind owner = .ok draft ∧
        s = .within m ended (.inType draft around) := by
  -- Classes and interfaces begin alike.
  have opened {owner} (hkind : kind ≠ .enumType) (h : (typeDraftOf tag kind owner >>= fun draft =>
      .ok (.within m ended (.inType draft around))) = Except.ok s) :
      ∃ owner draft, kind ≠ .enumType ∧ typeDraftOf tag kind owner = .ok draft ∧
        s = .within m ended (.inType draft around) := by
    obtain ⟨draft, hdraft, h⟩ := bind_eq_ok.1 h
    exact ⟨owner, draft, hkind, hdraft, (Except.ok.inj h).symm⟩
  cases kind with
  | enumType =>
    obtain ⟨d, hd, h⟩ := bind_eq_ok.1 h
    exact .inl ⟨_, d, rfl, hd, (Except.ok.inj h).symm⟩
  | classType => exact .inr (opened nofun h)
  | interfaceType => exact .inr (opened nofun h)

/-- A type without content is handed over, an enumeration as it begins and a class or interface once
its draft is finished. -/
lemma emptyType_cases (h : emptyType m ended tag kind around = .ok s) :
    ∃ d, deliver m ended [d] around = .ok s ∧
      ((∃ owner, kind = .enumType ∧ enumOf tag owner = .ok d) ∨
        ∃ owner draft, kind ≠ .enumType ∧ typeDraftOf tag kind owner = .ok draft ∧
          draft.finish = .ok d) := by
  have finished {owner} (hkind : kind ≠ .enumType) (h : (typeDraftOf tag kind owner >>= fun draft =>
      draft.finish >>= fun d => deliver m ended [d] around) = Except.ok s) :
      ∃ d, deliver m ended [d] around = .ok s ∧
        ((∃ owner, kind = .enumType ∧ enumOf tag owner = .ok d) ∨
          ∃ owner draft, kind ≠ .enumType ∧ typeDraftOf tag kind owner = .ok draft ∧
            draft.finish = .ok d) := by
    obtain ⟨draft, hdraft, h⟩ := bind_eq_ok.1 h
    obtain ⟨d, hd, h⟩ := bind_eq_ok.1 h
    exact ⟨d, h, .inr ⟨owner, draft, hkind, hdraft, hd⟩⟩
  cases kind with
  | enumType =>
    obtain ⟨d, hd, h⟩ := bind_eq_ok.1 h
    exact ⟨d, h, .inl ⟨_, rfl, hd⟩⟩
  | classType => exact finished nofun h
  | interfaceType => exact finished nofun h

/-- Entering a type keeps the property of what is finished. -/
lemma Established.openType (est : Established P) (hm : ModuleHolds P m)
    (haround : DraftsHold P around) (h : openType m ended tag kind around = .ok s) : s.Holds P := by
  rcases openType_cases h with ⟨owner, d, _, hd, rfl⟩ | ⟨owner, draft, hkind, hdraft, rfl⟩
  · exact ⟨hm, isEnum_enumOf hd, est.enumeration hd, haround⟩
  · refine ⟨hm, List.forall_mem_cons.2 ⟨⟨isObject_typeDraftOf hdraft hkind, ?_⟩, haround⟩⟩
    rw [(begun_typeDraftOf hdraft).2.2]
    simp

/-- Reading a type without content keeps the property of what is finished. -/
lemma Established.emptyType (est : Established P) (hm : ModuleHolds P m)
    (haround : DraftsHold P around) (h : emptyType m ended tag kind around = .ok s) :
    s.Holds P := by
  obtain ⟨d, h, hd⟩ := emptyType_cases h
  refine holds_deliver hm haround (List.forall_mem_singleton.2 ?_) h
  rcases hd with ⟨owner, _, hd⟩ | ⟨owner, draft, hkind, hdraft, hd⟩
  · exact est.enumeration hd
  · exact est.finish (isObject_typeDraftOf hdraft hkind) hd

/-- Reading an event before any module finishes nothing. -/
lemma holds_stepBefore (h : stepBefore event = .ok s) : s.Holds P := by
  have begun {tag ended} (h : (moduleOf tag >>= fun m => .ok (.within m ended .outside)) =
      Except.ok s) : s.Holds P := by
    obtain ⟨m, hm, h⟩ := bind_eq_ok.1 h
    obtain ⟨attributes, _, hm⟩ := bind_eq_ok.1 hm
    cases hm
    cases h
    exact ⟨⟨List.nodup_nil, by simp⟩, trivial⟩
  cases event with
  | opened tag =>
    rw [stepBefore] at h
    split at h
    · exact begun h
    · cases h
  | empty tag =>
    rw [stepBefore] at h
    split at h
    · exact begun h
    · cases h
  | closed => cases h; trivial
  | text content => cases h; trivial

/-- Reading an event outside the types keeps the property of what is finished. -/
lemma Established.stepOutside (est : Established P) (hm : ModuleHolds P m)
    (h : stepOutside m ended event = .ok s) : s.Holds P := by
  have haround : DraftsHold P [] := by simp [DraftsHold]
  cases event with
  | opened tag =>
    rw [Manifest.stepOutside] at h
    cases hkind : kindOf? tag.name with
    | none => rw [hkind] at h; cases h
    | some kind =>
      rw [hkind] at h
      exact est.openType hm haround h
  | empty tag =>
    rw [Manifest.stepOutside] at h
    cases hkind : kindOf? tag.name with
    | none => rw [hkind] at h; cases h
    | some kind =>
      rw [hkind] at h
      exact est.emptyType hm haround h
  | closed => cases h; exact ⟨hm, trivial⟩
  | text content => cases h; exact ⟨hm, trivial⟩

/-- Reading an event in a class or interface keeps the property of what is finished. -/
lemma Established.stepType (est : Established P) {type} (hm : ModuleHolds P m)
    (hdrafts : DraftsHold P (type :: around)) (h : stepType m ended type around event = .ok s) :
    s.Holds P := by
  obtain ⟨⟨hobject, hnested⟩, haround⟩ := List.forall_mem_cons.1 hdrafts
  cases event with
  | opened tag =>
    rw [Manifest.stepType] at h
    cases hkind : kindOf? tag.name with
    | none => rw [hkind] at h; cases h
    | some kind =>
      rw [hkind] at h
      exact est.openType hm hdrafts h
  | empty tag =>
    rw [Manifest.stepType] at h
    split at h
    · obtain ⟨param, _, h⟩ := bind_eq_ok.1 h
      cases h
      exact ⟨hm, List.forall_mem_cons.2 ⟨⟨⟨hobject.kind, hobject.members⟩, hnested⟩, haround⟩⟩
    split at h
    · obtain ⟨property, _, h⟩ := bind_eq_ok.1 h
      cases h
      exact ⟨hm, List.forall_mem_cons.2 ⟨⟨⟨hobject.kind, hobject.members⟩, hnested⟩, haround⟩⟩
    cases hkind : kindOf? tag.name with
    | none => rw [hkind] at h; cases h
    | some kind =>
      rw [hkind] at h
      exact est.emptyType hm hdrafts h
  | closed =>
    obtain ⟨d, hd, h⟩ := bind_eq_ok.1 h
    exact holds_deliver hm haround (List.forall_mem_cons.2 ⟨est.finish hobject hd, hnested⟩) h
  | text content => cases h; exact ⟨hm, hdrafts⟩

/-- Reading an event in an enumeration keeps the property of what is finished. -/
lemma Established.stepEnum (est : Established P) {enumeration} (hm : ModuleHolds P m)
    (henum : enumeration.isEnum = true) (hP : P enumeration) (haround : DraftsHold P around)
    (h : stepEnum m ended enumeration around event = .ok s) : s.Holds P := by
  cases event with
  | opened tag =>
    rw [Manifest.stepEnum] at h
    split at h
    · obtain ⟨member, _, h⟩ := bind_eq_ok.1 h
      cases h
      exact ⟨hm, henum, hP, haround⟩
    · cases h
  | empty tag =>
    rw [Manifest.stepEnum] at h
    split at h
    · obtain ⟨member, _, h⟩ := bind_eq_ok.1 h
      cases h
      exact ⟨hm, henum, est.member henum hP, haround⟩
    · cases h
  | closed => exact holds_deliver hm haround (List.forall_mem_singleton.2 hP) h
  | text content => cases h; exact ⟨hm, henum, hP, haround⟩

/-- Reading an event in a member keeps the property of what is finished. -/
lemma Established.stepMember (est : Established P) {member text enumeration}
    (hm : ModuleHolds P m) (henum : enumeration.isEnum = true) (hP : P enumeration)
    (haround : DraftsHold P around)
    (h : stepMember m ended member text enumeration around event = .ok s) : s.Holds P := by
  cases event with
  | opened tag => cases h; exact ⟨hm, henum, hP, haround⟩
  | empty tag => cases h; exact ⟨hm, henum, hP, haround⟩
  | text content => cases h; exact ⟨hm, henum, hP, haround⟩
  | closed =>
    -- The text changes the value of the member, and the enumeration gets it either way.
    cases text with
    | none => cases h; exact ⟨hm, henum, est.member henum hP, haround⟩
    | some content =>
      obtain ⟨value, _, h⟩ := bind_eq_ok.1 h
      cases h
      exact ⟨hm, henum, est.member henum hP, haround⟩

end Step

/-- Reading an event keeps the property of what is finished. -/
lemma Established.step (est : Established P) {s s' : State} {event : Event} (hs : s.Holds P)
    (h : s.step event = .ok s') : s'.Holds P := by
  cases s with
  | before => exact holds_stepBefore h
  | within m ended place =>
    obtain ⟨hm, hplace⟩ := hs
    cases place with
    | outside => exact est.stepOutside hm h
    | inType type around => exact est.stepType hm hplace h
    | inEnum enumeration around => exact est.stepEnum hm hplace.1 hplace.2.1 hplace.2.2 h
    | inMember member text enumeration around =>
      exact est.stepMember hm hplace.1 hplace.2.1 hplace.2.2 h

/-- A manifest is read to a state that gives the module. -/
lemma ofText_eq_ok {text : String} {m : Module} :
    ofText text = .ok m ↔
      (Document.ofText text).failure = none ∧
        ∃ s, (Document.ofText text).events.foldlM State.step .before = .ok s ∧
          s.finish = .ok m := by
  rw [ofText, ofDocument, bind_eq_ok]
  cases (Document.ofText text).failure with
  | some e => simp
  | none => simp

/-- A module is given outside of its types, behind its end. -/
lemma State.finish_eq_ok {s : State} {m : Module} :
    s.finish = .ok m ↔ s = .within m true .outside := by
  cases s with
  | before => exact ⟨nofun, nofun⟩
  | within m' ended place =>
    cases place with
    | outside => cases ended <;> simp [State.finish]
    | inType type around => exact ⟨nofun, nofun⟩
    | inEnum enumeration around => exact ⟨nofun, nofun⟩
    | inMember member text enumeration around => exact ⟨nofun, nofun⟩

/-- The types of a module that is read have different names, and a property that is established
holds of each of them. -/
theorem Established.holds_ofText (est : Established P) {text m} (h : ofText text = .ok m) :
    ModuleHolds P m := by
  obtain ⟨_, s, hrun, hfinish⟩ := ofText_eq_ok.1 h
  have start : State.Holds P .before := trivial
  have hs : s.Holds P := foldlM_induct (fun _ _ _ hs hstep => est.step hs hstep) start hrun
  rw [State.finish_eq_ok.1 hfinish] at hs
  exact hs.1

/-- A property that is established holds of the definitions of every module that is read. -/
theorem Established.forall_types_ofText (est : Established P) {text m} (h : ofText text = .ok m) :
    ∀ d ∈ m.types, P d :=
  (est.holds_ofText h).types

end Typings.Manifest
