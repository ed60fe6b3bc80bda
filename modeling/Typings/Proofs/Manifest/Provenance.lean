import Typings.Proofs.Manifest.Closing

/-!
# Where types come from

The types of a module that is read come from the elements of classes, interfaces and enumerations,
one from each element that is not passed over inside a member, in the order of their start tags. An
event begins at most one such element, and what the element declares joins what has been declared so
far, whether it waits in a draft or belongs to the module already.

The first element of the document is that of the module. Reading does not stop at its end: an
element that comes behind it is that of a type, and its type is added to the module. So the types
come from elements inside the module exactly when the document has no element beside it.
-/

namespace Typings

namespace Markup

/-- The tag of the element that begins with an event. -/
def Event.start? : Event → Option Tag
  | .opened tag | .empty tag => some tag
  | .closed | .text _ => none

/-- The tags of the elements that begin where no element is open. -/
def outerElements (tags : List Tag) : List Event → List Tag
  | [] => []
  | event :: rest =>
    (if tags = [] then event.start?.toList else []) ++ outerElements (openAfter tags event) rest

end Markup

/-- The kind and the name of a definition. -/
def TypeDef.heading (d : TypeDef) : TypeKind × String :=
  (d.kind, d.name)

namespace Manifest

open Typings.Markup

/-- The element of a type: its tag, and the elements that are open around it, from the innermost
outwards. -/
structure TypeElement where
  tag : Tag
  around : List Tag
  deriving DecidableEq, Repr

/-- The tag of the element of a type that begins with an event, behind known elements. What begins
inside a member is passed over. -/
def typeStart? (names : List String) (event : Event) : Option Tag :=
  event.start?.filter fun tag => (kindOf? tag.name).isSome && names.head? != some "value"

/-- The elements of types that begin with events, behind known elements and inside open ones. -/
def typeElementsFrom (names : List String) (tags : List Tag) : List Event → List TypeElement
  | [] => []
  | event :: rest =>
    (typeStart? names event).toList.map (⟨·, tags⟩) ++
      typeElementsFrom (knownAfter names event) (openAfter tags event) rest

/-- The elements of types in a document, in the order of their start tags. -/
def typeElements (events : List Event) : List TypeElement :=
  typeElementsFrom [] [] events

/-- The tag is that of an element that declares a type of the kind and the name. -/
def Declares (heading : TypeKind × String) (tag : Tag) : Prop :=
  kindOf? tag.name = some heading.1 ∧
    ∃ attributes, Manifest.attributes tag = .ok attributes ∧
      attributes.lookup "name" = some heading.2

/-- What drafts declare, and the finished types nested in them. -/
def draftsDeclared : List TypeDraft → List (TypeKind × String)
  | [] => []
  | draft :: around =>
    draftsDeclared around ++ draft.definition.heading :: draft.nested.map TypeDef.heading

/-- What has been declared at a place within a module and does not belong to the module yet. -/
def Place.declared : Place → List (TypeKind × String)
  | .outside => []
  | .inType type around => draftsDeclared (type :: around)
  | .inEnum enumeration around | .inMember _ _ enumeration around =>
    draftsDeclared around ++ [enumeration.heading]

/-- What has been declared since the module has begun, in the order of the start tags. -/
def State.declared? : State → Option (List (TypeKind × String))
  | .before => none
  | .within m _ place => some (m.types.map TypeDef.heading ++ place.declared)

section Declared

variable {m : Module} {ended : Bool} {tag : Tag} {kind : TypeKind} {around : List TypeDraft}
  {event : Event} {s : State} {names : List String}

lemma typeStart?_eq_some :
    typeStart? names event = some tag ↔
      event.start? = some tag ∧ (kindOf? tag.name).isSome ∧ names.head? ≠ some "value" := by
  rw [typeStart?, Option.filter_eq_some_iff, Bool.and_eq_true, bne_iff_ne]

/-- No element of a type begins with the tag of another element. -/
lemma typeStart?_of_kindOf?_eq_none (hstart : event.start? = some tag)
    (hkind : kindOf? tag.name = none) : typeStart? names event = none := by
  rw [typeStart?, hstart, Option.filter_some_neg]
  simp [hkind]

/-- No element of a type is read inside a member. -/
lemma typeStart?_of_value : typeStart? ("value" :: names) event = none := by
  rw [typeStart?, Option.filter_eq_none_iff]
  simp

lemma lookup_of_required {element name value : String} {attributes : List Attribute}
    (h : required element name attributes = .ok value) : attributes.lookup name = some value := by
  rw [required] at h
  split at h
  case h_1 found hfound => exact Except.ok.inj h ▸ hfound
  case h_2 => cases h

/-- A draft has the kind and the name that its tag declares. -/
lemma declares_typeDraftOf {owner draft} (h : typeDraftOf tag kind owner = .ok draft)
    (hkind : kindOf? tag.name = some kind) : Declares draft.definition.heading tag := by
  obtain ⟨attributes, hattributes, h⟩ := bind_eq_ok.1 h
  obtain ⟨isAbstract, _, h⟩ := bind_eq_ok.1 h
  obtain ⟨name, hname, h⟩ := bind_eq_ok.1 h
  cases h
  exact ⟨hkind, attributes, hattributes, lookup_of_required hname⟩

/-- An enumeration has the name that its tag declares. -/
lemma declares_enumOf {owner d} (h : enumOf tag owner = .ok d)
    (hkind : kindOf? tag.name = some .enumType) : Declares d.heading tag := by
  obtain ⟨attributes, hattributes, h⟩ := bind_eq_ok.1 h
  obtain ⟨name, hname, h⟩ := bind_eq_ok.1 h
  cases h
  exact ⟨hkind, attributes, hattributes, lookup_of_required hname⟩

/-- Finishing a draft keeps its kind and its name. -/
lemma heading_finish {draft : TypeDraft} {d} (h : draft.finish = .ok d) :
    d.heading = draft.definition.heading := by
  obtain ⟨base, _, h⟩ := bind_eq_ok.1 h
  obtain ⟨properties, _, h⟩ := bind_eq_ok.1 h
  cases h
  rfl

/-- Added types stand behind those of the module. -/
lemma types_addTypes {m' : Module} {ds} (h : addTypes m ds = .ok m') :
    m'.types = m.types ++ ds := by
  induction ds generalizing m with
  | nil =>
    cases h
    exact (List.append_nil _).symm
  | cons d rest ih =>
    rw [addTypes] at h
    split at h
    case isTrue => cases h
    case isFalse =>
      rw [ih h, Module.add, List.append_assoc]
      rfl

/-- Finished types stand behind all that has been declared around them. -/
lemma declared_deliver {types} (h : deliver m ended types around = .ok s) :
    s.declared? =
      some (m.types.map TypeDef.heading ++ draftsDeclared around ++ types.map TypeDef.heading) := by
  cases around with
  | nil =>
    obtain ⟨m', hm', h⟩ := bind_eq_ok.1 h
    cases h
    simp [State.declared?, Place.declared, draftsDeclared, types_addTypes hm']
  | cons draft around =>
    cases h
    simp [State.declared?, Place.declared, draftsDeclared]

/-- A type whose element is entered stands behind all that has been declared. -/
lemma declared_openType (hkind : kindOf? tag.name = some kind)
    (h : openType m ended tag kind around = .ok s) :
    ∃ heading, Declares heading tag ∧
      s.declared? = some (m.types.map TypeDef.heading ++ draftsDeclared around ++ [heading]) := by
  rcases openType_cases h with ⟨owner, d, rfl, hd, rfl⟩ | ⟨owner, draft, _, hdraft, rfl⟩
  · refine ⟨d.heading, declares_enumOf hd hkind, ?_⟩
    rw [State.declared?, Place.declared, List.append_assoc]
  · refine ⟨draft.definition.heading, declares_typeDraftOf hdraft hkind, ?_⟩
    rw [State.declared?, Place.declared, draftsDeclared, (begun_typeDraftOf hdraft).2.2,
      List.append_assoc]
    rfl

/-- A type without content stands behind all that has been declared. -/
lemma declared_emptyType (hkind : kindOf? tag.name = some kind)
    (h : emptyType m ended tag kind around = .ok s) :
    ∃ heading, Declares heading tag ∧
      s.declared? = some (m.types.map TypeDef.heading ++ draftsDeclared around ++ [heading]) := by
  obtain ⟨d, h, hd⟩ := emptyType_cases h
  refine ⟨d.heading, ?_, declared_deliver h⟩
  rcases hd with ⟨owner, rfl, hd⟩ | ⟨owner, draft, _, hdraft, hd⟩
  · exact declares_enumOf hd hkind
  · rw [heading_finish hd]
    exact declares_typeDraftOf hdraft hkind

/-- What an event adds behind known elements to what has been declared: the type whose element it
begins, if it begins one. -/
def AddsDeclared (names : List String) (event : Event) (before : List (TypeKind × String))
    (s : State) : Prop :=
  ∃ added, s.declared? = some (before ++ added) ∧
    List.Forall₂ Declares added (typeStart? names event).toList

/-- Nothing is added by an event that begins no element of a type. -/
lemma AddsDeclared.none {before} (hstart : typeStart? names event = none)
    (h : s.declared? = some before) : AddsDeclared names event before s := by
  refine ⟨[], ?_, ?_⟩
  · rw [h, List.append_nil]
  · rw [hstart]
    exact .nil

/-- An event that begins the element of a type adds what its tag declares. -/
lemma AddsDeclared.some {before} (hstart : event.start? = some tag)
    (hkind : kindOf? tag.name = some kind) (hvalue : names.head? ≠ some "value")
    (h : ∃ heading, Declares heading tag ∧ s.declared? = some (before ++ [heading])) :
    AddsDeclared names event before s := by
  obtain ⟨heading, hheading, h⟩ := h
  refine ⟨[heading], h, ?_⟩
  rw [typeStart?_eq_some.2 ⟨hstart, hkind ▸ rfl, hvalue⟩]
  exact .cons hheading .nil

lemma declared_stepOutside (h : stepOutside m ended event = .ok s) :
    AddsDeclared (moduleElement ended) event (m.types.map TypeDef.heading) s := by
  have hvalue : (moduleElement ended).head? ≠ some "value" := by cases ended <;> decide
  cases event with
  | opened tag =>
    rw [stepOutside] at h
    cases hkind : kindOf? tag.name with
    | none => rw [hkind] at h; cases h
    | some kind =>
      rw [hkind] at h
      have hdeclared := declared_openType hkind h
      rw [draftsDeclared, List.append_nil] at hdeclared
      exact .some rfl hkind hvalue hdeclared
  | empty tag =>
    rw [stepOutside] at h
    cases hkind : kindOf? tag.name with
    | none => rw [hkind] at h; cases h
    | some kind =>
      rw [hkind] at h
      have hdeclared := declared_emptyType hkind h
      rw [draftsDeclared, List.append_nil] at hdeclared
      exact .some rfl hkind hvalue hdeclared
  | closed => cases h; exact .none rfl (by simp [State.declared?, Place.declared])
  | text content => cases h; exact .none rfl (by simp [State.declared?, Place.declared])

lemma declared_stepType {type} (h : stepType m ended type around event = .ok s) :
    AddsDeclared (draftElements (type :: around) ++ moduleElement ended) event
      (m.types.map TypeDef.heading ++ draftsDeclared (type :: around)) s := by
  have hvalue := head?_draftElements_ne_value (type :: around) ended
  cases event with
  | opened tag =>
    rw [stepType] at h
    cases hkind : kindOf? tag.name with
    | none => rw [hkind] at h; cases h
    | some kind =>
      rw [hkind] at h
      exact .some rfl hkind hvalue (declared_openType hkind h)
  | empty tag =>
    rw [stepType] at h
    split at h
    case isTrue hname =>
      obtain ⟨param, _, h⟩ := bind_eq_ok.1 h
      cases h
      exact .none (typeStart?_of_kindOf?_eq_none rfl (hname ▸ rfl)) rfl
    split at h
    case isTrue hname =>
      obtain ⟨property, _, h⟩ := bind_eq_ok.1 h
      cases h
      exact .none (typeStart?_of_kindOf?_eq_none rfl (hname ▸ rfl)) rfl
    cases hkind : kindOf? tag.name with
    | none => rw [hkind] at h; cases h
    | some kind =>
      rw [hkind] at h
      exact .some rfl hkind hvalue (declared_emptyType hkind h)
  | closed =>
    -- The type is handed over with the types nested in it, in the order in which they wait.
    obtain ⟨d, hd, h⟩ := bind_eq_ok.1 h
    refine .none rfl ?_
    rw [declared_deliver h, draftsDeclared, List.map_cons, heading_finish hd, List.append_assoc]
  | text content => cases h; exact .none rfl rfl

lemma declared_stepEnum {enumeration} (h : stepEnum m ended enumeration around event = .ok s) :
    AddsDeclared ("enum" :: draftElements around ++ moduleElement ended) event
      (m.types.map TypeDef.heading ++ (draftsDeclared around ++ [enumeration.heading])) s := by
  cases event with
  | opened tag =>
    rw [stepEnum] at h
    split at h
    case isTrue hname =>
      obtain ⟨member, _, h⟩ := bind_eq_ok.1 h
      cases h
      exact .none (typeStart?_of_kindOf?_eq_none rfl (hname ▸ rfl)) rfl
    case isFalse => cases h
  | empty tag =>
    rw [stepEnum] at h
    split at h
    case isTrue hname =>
      obtain ⟨member, _, h⟩ := bind_eq_ok.1 h
      cases h
      exact .none (typeStart?_of_kindOf?_eq_none rfl (hname ▸ rfl)) rfl
    case isFalse => cases h
  | closed =>
    refine .none rfl ?_
    rw [declared_deliver h, List.append_assoc]
    rfl
  | text content => cases h; exact .none rfl rfl

lemma declared_stepMember {member text enumeration}
    (h : stepMember m ended member text enumeration around event = .ok s) :
    AddsDeclared ("value" :: "enum" :: draftElements around ++ moduleElement ended) event
      (m.types.map TypeDef.heading ++ (draftsDeclared around ++ [enumeration.heading])) s := by
  refine .none typeStart?_of_value ?_
  cases event with
  | opened tag => cases h; rfl
  | empty tag => cases h; rfl
  | text content => cases h; rfl
  | closed =>
    cases text with
    | none => cases h; rfl
    | some content =>
      obtain ⟨value, _, h⟩ := bind_eq_ok.1 h
      cases h
      rfl

end Declared

/-- An event adds to what has been declared the type whose element it begins. -/
lemma State.declared_step {s s' : State} {event : Event} {before}
    (hs : s.declared? = some before) (h : s.step event = .ok s') :
    AddsDeclared s.elements event before s' := by
  cases s with
  | before => cases hs
  | within m ended place =>
    cases hs
    cases place with
    | outside =>
      rw [Place.declared, List.append_nil]
      exact declared_stepOutside h
    | inType type around => exact declared_stepType h
    | inEnum enumeration around => exact declared_stepEnum h
    | inMember member text enumeration around => exact declared_stepMember h

/-- Events add to what has been declared the types whose elements they begin, in their order. -/
lemma State.declared_run {s s' : State} {events : List Event} {before} (tags : List Tag)
    (hs : s.declared? = some before) (h : events.foldlM State.step s = .ok s') :
    ∃ added, s'.declared? = some (before ++ added) ∧
      List.Forall₂ (fun heading e => Declares heading e.tag) added
        (typeElementsFrom s.elements tags events) := by
  induction events generalizing s tags before with
  | nil =>
    cases h
    exact ⟨[], by rw [hs, List.append_nil], .nil⟩
  | cons event rest ih =>
    rw [List.foldlM_cons] at h
    obtain ⟨s₁, hstep, h⟩ := bind_eq_ok.1 h
    obtain ⟨first, hfirst, hdeclares⟩ := declared_step hs hstep
    obtain ⟨added, hadded, hrest⟩ := ih (openAfter tags event) hfirst h
    have hfirst : List.Forall₂ (fun heading (e : TypeElement) => Declares heading e.tag) first
        ((typeStart? s.elements event).toList.map (⟨·, tags⟩)) :=
      List.forall₂_map_right_iff.2 hdeclares
    refine ⟨first ++ added, by rw [hadded, List.append_assoc], ?_⟩
    rw [typeElementsFrom, ← elements_step hstep]
    exact List.rel_append hfirst hrest

section Outer

variable {tags : List Tag} {events : List Event} {event : Event} {names : List String}

/-- The tags of the elements of types that begin where no element is open. -/
def outerTypeTags (elements : List TypeElement) : List Tag :=
  (elements.filter fun e => e.around = []).map (·.tag)

/-- Outside of all elements that reading knows of, the element of a type is all that may begin. -/
lemma typeStart?_of_outside {s s' : State} {before} (hs : s.declared? = some before)
    (houtside : s.elements = []) (h : s.step event = .ok s') :
    typeStart? [] event = event.start? := by
  cases s with
  | before => cases hs
  | within m ended place =>
    have hplace : place = .outside := by
      obtain ⟨hplace, _⟩ := List.append_eq_nil_iff.1 houtside
      cases place with
      | outside => rfl
      | inType type around => cases hplace
      | inEnum enumeration around => cases hplace
      | inMember member text enumeration around => cases hplace
    subst hplace
    rw [State.step] at h
    have begun {tag} (hstart : event.start? = some tag) (hkind : kindOf? tag.name ≠ none) :
        typeStart? [] event = event.start? := by
      rw [hstart]
      exact typeStart?_eq_some.2 ⟨hstart, Option.isSome_iff_ne_none.2 hkind, by simp⟩
    cases event with
    | opened tag =>
      refine begun rfl fun hkind => ?_
      rw [stepOutside, hkind] at h
      cases h
    | empty tag =>
      refine begun rfl fun hkind => ?_
      rw [stepOutside, hkind] at h
      cases h
    | closed => rfl
    | text content => rfl

/-- Reading knows of no more elements than are open. -/
lemma length_knownAfter_le (hclosed : event = .closed → tags ≠ [])
    (h : names.length ≤ tags.length) :
    (knownAfter names event).length ≤ (openAfter tags event).length := by
  cases event with
  | opened tag =>
    rw [knownAfter, openAfter, List.length_cons]
    split
    · exact Nat.le_succ_of_le h
    · exact Nat.succ_le_succ h
  | empty tag => exact h
  | text content => exact h
  | closed =>
    rw [knownAfter, openAfter, List.length_tail, List.length_tail]
    exact Nat.sub_le_sub_right h 1

/-- Once the module has begun, the elements that begin where none is open are those of types. -/
lemma outerTypeTags_run {s s' : State} {before} (nested : Nested tags events)
    (hknown : s.elements.length ≤ tags.length) (hs : s.declared? = some before)
    (h : events.foldlM State.step s = .ok s') :
    outerTypeTags (typeElementsFrom s.elements tags events) = outerElements tags events := by
  induction events generalizing s tags before with
  | nil => rfl
  | cons event rest ih =>
    rw [List.foldlM_cons] at h
    obtain ⟨s₁, hstep, h⟩ := bind_eq_ok.1 h
    obtain ⟨added, hadded, _⟩ := State.declared_step hs hstep
    have helements := State.elements_step hstep
    have hrest := ih nested.2 (helements ▸ length_knownAfter_le nested.1 hknown) hadded h
    rw [helements] at hrest
    rw [typeElementsFrom, outerElements, ← hrest, outerTypeTags, List.filter_append,
      List.map_append, outerTypeTags]
    congr 1
    by_cases htags : tags = []
    · subst htags
      have houtside : s.elements = [] := List.eq_nil_of_length_eq_zero (Nat.le_zero.1 hknown)
      rw [houtside, typeStart?_of_outside hs houtside hstep]
      cases event.start? <;> rfl
    · rw [if_neg htags]
      simp [htags]

/-- Where no element begins outside of all others, every element of a type lies inside the outermost
of those that are open. -/
lemma around_of_outerElements_eq_nil {root : Tag}
    (hroot : ∀ tag, tags.getLast? = some tag → tag = root) (h : outerElements tags events = []) :
    ∀ e ∈ typeElementsFrom names tags events, e.around.getLast? = some root := by
  induction events generalizing names tags with
  | nil => simp [typeElementsFrom]
  | cons event rest ih =>
    obtain ⟨hfirst, hrest⟩ := List.append_eq_nil_iff.1 h
    -- An element that begins here begins inside another one.
    have inside {tag} (hstart : event.start? = some tag) : tags.getLast? = some root := by
      cases hlast : tags.getLast? with
      | none =>
        rw [if_pos (List.getLast?_eq_none_iff.1 hlast), hstart] at hfirst
        cases hfirst
      | some last => rw [hroot last hlast]
    intro e he
    rcases List.mem_append.1 he with he | he
    · obtain ⟨tag, htag, rfl⟩ := List.mem_map.1 he
      exact inside (typeStart?_eq_some.1 (Option.mem_toList.1 htag)).1
    · refine ih (fun tag htag => ?_) hrest e he
      cases event with
      | opened opened =>
        have hlast := inside rfl
        rw [openAfter, List.getLast?_cons, hlast] at htag
        exact (Option.some.inj htag).symm
      | empty empty => exact hroot tag htag
      | text content => exact hroot tag htag
      | closed =>
        cases tags with
        | nil => cases htag
        | cons first outer =>
          refine hroot tag ?_
          rw [openAfter, List.tail_cons] at htag
          rw [List.getLast?_cons, htag]
          rfl

end Outer

/-- The elements of types in events, and what they declare. -/
structure Provides (events : List Event) (root : Tag) (others : List Tag)
    (headings : List (TypeKind × String)) : Prop where
  module : root.name = "module"
  outer : outerElements [] events = root :: others
  declared : List.Forall₂ (fun heading e => Declares heading e.tag) headings (typeElements events)
  types : outerTypeTags (typeElements events) = others
  inside : others = [] → ∀ e ∈ typeElements events, e.around.getLast? = some root

/-- What is read once the module has begun provides the types. -/
lemma provides_of_begun {s s' : State} {event : Event} {root : Tag} {rest : List Event}
    (hstart : event.start? = some root) (hname : root.name = "module")
    (nested : Nested [] (event :: rest)) (hs : s.declared? = some [])
    (helements : s.elements = knownAfter [] event) (h : rest.foldlM State.step s = .ok s') :
    ∃ others headings, s'.declared? = some headings ∧
      Provides (event :: rest) root others headings := by
  have hskip : typeElements (event :: rest) =
      typeElementsFrom (knownAfter [] event) (openAfter [] event) rest := by
    rw [typeElements, typeElementsFrom, typeStart?_of_kindOf?_eq_none hstart (hname ▸ rfl)]
    rfl
  obtain ⟨headings, hheadings, hdeclares⟩ := s.declared_run (openAfter [] event) hs h
  have hle : (knownAfter [] event).length ≤ (openAfter [] event).length :=
    length_knownAfter_le nested.1 (Nat.le_refl 0)
  have hroots := outerTypeTags_run nested.2 (helements ▸ hle) hs h
  rw [helements] at hdeclares hroots
  refine ⟨outerElements (openAfter [] event) rest, headings, hheadings, hname, ?_, ?_, ?_, ?_⟩
  · rw [outerElements, if_pos rfl, hstart]
    rfl
  · rw [hskip]
    exact hdeclares
  · rw [hskip]
    exact hroots
  · intro hothers
    rw [hskip]
    refine around_of_outerElements_eq_nil (fun tag htag => ?_) hothers
    -- Behind the tag of the module at most the module is open.
    cases event with
    | opened tag' =>
      cases hstart
      cases htag
      rfl
    | empty tag' => cases htag
    | closed => cases hstart
    | text content => cases hstart

/-- Before any module, a tag is that of a module, and what is no tag changes nothing. -/
lemma stepBefore_cases {event : Event} {s : State} (h : stepBefore event = .ok s) :
    (event.start? = none ∧ s = .before) ∨
      ∃ tag, event.start? = some tag ∧ tag.name = "module" ∧ s.declared? = some [] := by
  have begun {tag ended} (h : (moduleOf tag >>= fun m => .ok (.within m ended .outside)) =
      Except.ok s) : s.declared? = some [] := by
    obtain ⟨m, hm, h⟩ := bind_eq_ok.1 h
    obtain ⟨attributes, _, hm⟩ := bind_eq_ok.1 hm
    cases hm
    cases h
    rfl
  cases event with
  | opened tag =>
    rw [stepBefore] at h
    split at h
    case isTrue hname => exact .inr ⟨tag, rfl, hname, begun h⟩
    case isFalse => cases h
  | empty tag =>
    rw [stepBefore] at h
    split at h
    case isTrue hname => exact .inr ⟨tag, rfl, hname, begun h⟩
    case isFalse => cases h
  | closed => exact .inl ⟨rfl, (Except.ok.inj h).symm⟩
  | text content => exact .inl ⟨rfl, (Except.ok.inj h).symm⟩

/-- What is read to a module provides its types. -/
lemma provides_of_run {events s m} (nested : Nested [] events)
    (hrun : events.foldlM State.step .before = .ok s) (hfinish : s.finish = .ok m) :
    ∃ root others headings, s.declared? = some headings ∧ Provides events root others headings := by
  induction events with
  | nil => cases hrun; cases hfinish
  | cons event rest ih =>
    rw [List.foldlM_cons] at hrun
    obtain ⟨s₁, hstep, hrun⟩ := bind_eq_ok.1 hrun
    rcases stepBefore_cases hstep with ⟨hstart, rfl⟩ | ⟨tag, hstart, hname, hs⟩
    · cases event with
      | opened tag => cases hstart
      | empty tag => cases hstart
      | closed => exact absurd rfl (nested.1 rfl)
      | text content =>
        -- A text in front of the module counts for nothing.
        obtain ⟨root, others, headings, hs, provides⟩ := ih nested.2 hrun
        exact ⟨root, others, headings, hs,
          { provides with }⟩
    · exact ⟨tag, provides_of_begun hstart hname nested hs (State.elements_step hstep) hrun⟩

/-- The types of a module that is read come from the elements of types in its text, one from each
and in their order. The outermost elements are the module and, behind it, elements of types, which
are read alike. So every type comes from an element inside the module exactly when the text has no
element beside the module. -/
theorem types_inside_iff {text m} (h : ofText text = .ok m) :
    ∃ root others, root.name = "module" ∧
      outerElements [] (Document.ofText text).events = root :: others ∧
      List.Forall₂ (fun d e => Declares d.heading e.tag) m.types
        (typeElements (Document.ofText text).events) ∧
      outerTypeTags (typeElements (Document.ofText text).events) = others ∧
      ((∀ e ∈ typeElements (Document.ofText text).events, e.around.getLast? = some root) ↔
        others = []) := by
  obtain ⟨_, s, hrun, hfinish⟩ := ofText_eq_ok.1 h
  obtain ⟨root, others, headings, hs, provides⟩ :=
    provides_of_run (nested_ofText text) hrun hfinish
  rw [State.finish_eq_ok.1 hfinish, State.declared?, Place.declared, List.append_nil,
    Option.some.injEq] at hs
  have hdeclared := provides.declared
  rw [← hs, List.forall₂_map_left_iff] at hdeclared
  refine ⟨root, others, provides.module, provides.outer, hdeclared, provides.types,
    fun hinside => ?_, provides.inside⟩
  -- An element beside the module has no element around it.
  rw [← provides.types, outerTypeTags, List.map_eq_nil_iff, List.filter_eq_nil_iff]
  intro e he houter
  have hlast := hinside e he
  rw [of_decide_eq_true houter] at hlast
  cases hlast

/-- A manifest with a class and an enumeration nested in it. -/
def nestText : String :=
  "<module name=\"M\"><class name=\"A\"><enum name=\"E\"/></class></module>"

/-- The events of the manifest. -/
def nestEvents : List Event :=
  [.opened ⟨"module", [("name", "M")]⟩, .opened ⟨"class", [("name", "A")]⟩,
    .empty ⟨"enum", [("name", "E")]⟩, .closed, .closed]

/-- Both types come from elements inside the module, the enumeration from one inside the class too.
-/
theorem types_inside_iff_of_nest :
    ofText nestText =
        .ok ⟨"M", none, [{ name := "A", kind := .classType },
          { name := "E", kind := .enumType, declaring := some "A" }]⟩ ∧
      (Document.ofText nestText).events = nestEvents ∧
      outerElements [] nestEvents = [⟨"module", [("name", "M")]⟩] ∧
      ∀ e ∈ typeElements nestEvents, e.around.getLast? = some ⟨"module", [("name", "M")]⟩ := by
  have htext : ofText nestText =
      .ok ⟨"M", none, [{ name := "A", kind := .classType },
        { name := "E", kind := .enumType, declaring := some "A" }]⟩ := by
    decide +kernel
  have hevents : (Document.ofText nestText).events = nestEvents := by decide +kernel
  have houter : outerElements [] nestEvents = [⟨"module", [("name", "M")]⟩] := by decide
  obtain ⟨root, others, _, hroots, _, _, hinside⟩ := types_inside_iff htext
  rw [hevents] at hroots hinside
  obtain ⟨rfl, rfl⟩ := List.cons.inj (houter.symm.trans hroots)
  exact ⟨htext, hevents, houter, hinside.2 rfl⟩

/-- A module that ends at once, with a class behind it. -/
def trailingText : String :=
  "<module name=\"M\"></module><class name=\"A\"/>"

/-- The class behind the end of the module is added to it. -/
theorem not_forall_inside_of_ofText :
    ¬ ∀ text m, ofText text = .ok m → ∀ d ∈ m.types,
      ∃ e ∈ typeElements (Document.ofText text).events, Declares d.heading e.tag ∧
        e.around.getLast?.map (·.name) = some "module" := by
  intro h
  have htext : ofText trailingText = .ok ⟨"M", none, [{ name := "A", kind := .classType }]⟩ := by
    decide +kernel
  have helements : typeElements (Document.ofText trailingText).events =
      [⟨⟨"class", [("name", "A")]⟩, []⟩] := by
    decide +kernel
  obtain ⟨e, he, _, hinside⟩ := h trailingText _ htext _ List.mem_cons_self
  rw [helements, List.mem_singleton] at he
  subst he
  cases hinside

end Manifest

end Typings
