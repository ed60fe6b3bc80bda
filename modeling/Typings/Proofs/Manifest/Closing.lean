import Typings.Proofs.Manifest.Finished
import Typings.Proofs.Markup.Nesting

/-!
# Closing what is open

Reading a manifest keeps track of the elements that are open. It holds to the document except inside
a member: there it passes over what begins, and takes the next end tag for that of the member. From
there on it is ahead of the document, by one element for each that has begun inside a member, until
ends of elements come that close nothing it knows of.

When a manifest is read, no element is open that reading knows of. So the elements that the document
leaves open are those by which reading is ahead of it.
-/

namespace Typings.Manifest

open Typings.Markup

/-- The names of the elements that reading knows to be open behind an event, from the innermost
outwards. What begins inside a member is passed over. -/
def knownAfter (names : List String) : Event → List String
  | .opened tag => if names.head? = some "value" then names else tag.name :: names
  | .closed => names.tail
  | .empty _ | .text _ => names

/-- The event begins an element inside a member. -/
def isStray (names : List String) : Event → Bool
  | .opened _ => names.head? == some "value"
  | _ => false

/-- The event ends an element where reading knows of none. -/
def isSpare (names : List String) : Event → Bool
  | .closed => names.isEmpty
  | _ => false

/-- The number of events of a kind, behind known elements. -/
def countKnown (kind : List String → Event → Bool) : List String → List Event → Nat
  | _, [] => 0
  | names, event :: rest =>
    (if kind names event then 1 else 0) + countKnown kind (knownAfter names event) rest

/-- The number of elements that begin inside members. -/
def strayStarts (events : List Event) : Nat :=
  countKnown isStray [] events

/-- The number of ends that come where no element is known to be open. -/
def spareEnds (events : List Event) : Nat :=
  countKnown isSpare [] events

section Documents

variable {tags : List Tag} {names : List String} {events : List Event}

/-- The elements that are open are as many as the known ones with those that begin inside members,
but for those that spare ends close. -/
lemma length_open_add_countKnown (names : List String) (nested : Nested tags events) :
    (events.foldl openAfter tags).length + countKnown isSpare names events + names.length =
      (events.foldl knownAfter names).length + countKnown isStray names events + tags.length := by
  induction events generalizing tags names with
  | nil => simp only [List.foldl_nil, countKnown]; omega
  | cons event rest ih =>
    obtain ⟨hclosed, hrest⟩ := nested
    have ih := ih (knownAfter names event) hrest
    simp only [List.foldl_cons, countKnown]
    cases event with
    | empty tag => simpa [openAfter, knownAfter, isStray, isSpare] using ih
    | text content => simpa [openAfter, knownAfter, isStray, isSpare] using ih
    | opened tag =>
      by_cases hvalue : names.head? = some "value"
      · simp [openAfter, knownAfter, isStray, isSpare, hvalue] at ih ⊢
        omega
      · simp [openAfter, knownAfter, isStray, isSpare, hvalue] at ih ⊢
        omega
    | closed =>
      obtain ⟨tag, outer, rfl⟩ := List.exists_cons_of_ne_nil (hclosed rfl)
      cases names with
      | nil =>
        simp [openAfter, knownAfter, isStray, isSpare] at ih ⊢
        omega
      | cons name names =>
        simp [openAfter, knownAfter, isStray, isSpare] at ih ⊢
        omega

/-- Where nothing begins inside a member, the known elements are those that are open. -/
lemma known_eq_names_open (h : NoneBegins "value" tags events) :
    events.foldl knownAfter (tags.map (·.name)) = (events.foldl openAfter tags).map (·.name) := by
  induction events generalizing tags with
  | nil => rfl
  | cons event rest ih =>
    cases event with
    | empty tag => exact ih h
    | text content => exact ih h
    | closed =>
      have hknown : knownAfter (tags.map (·.name)) .closed = tags.tail.map (·.name) :=
        List.map_tail.symm
      rw [List.foldl_cons, hknown]
      exact ih h
    | opened tag =>
      obtain ⟨hvalue, h⟩ := h
      have hknown : knownAfter (tags.map (·.name)) (.opened tag) = (tag :: tags).map (·.name) := by
        rw [knownAfter, List.head?_map, if_neg hvalue, List.map_cons]
      rw [List.foldl_cons, hknown]
      exact ih h

end Documents

/-- The names of the elements of drafts. -/
def draftElements (drafts : List TypeDraft) : List String :=
  drafts.map (elementOf ·.definition.kind)

/-- The names of the elements that are open at a place within a module, from the innermost
outwards. -/
def Place.elements : Place → List String
  | .outside => []
  | .inType type around => draftElements (type :: around)
  | .inEnum _ around => "enum" :: draftElements around
  | .inMember _ _ _ around => "value" :: "enum" :: draftElements around

/-- The element of a module that has not ended. -/
def moduleElement (ended : Bool) : List String :=
  if ended then [] else ["module"]

/-- The names of the elements that are open, from the innermost outwards. -/
def State.elements : State → List String
  | .before => []
  | .within _ ended place => place.elements ++ moduleElement ended

section Step

variable {m : Module} {ended : Bool} {tag : Tag} {kind : TypeKind} {around : List TypeDraft}
  {event : Event} {s : State}

/-- A kind of type is declared by the elements of its name. -/
lemma elementOf_of_kindOf? {element} (h : kindOf? element = some kind) :
    elementOf kind = element := by
  simp only [kindOf?, List.lookup_cons, List.lookup_nil] at h
  split at h
  case h_1 heq => cases h; exact (eq_of_beq heq).symm
  split at h
  case h_1 heq => cases h; exact (eq_of_beq heq).symm
  split at h
  case h_1 heq => cases h; exact (eq_of_beq heq).symm
  case h_2 => cases h

/-- No type is declared by the element of a member. -/
lemma elementOf_ne_value (kind : TypeKind) : elementOf kind ≠ "value" := by
  cases kind <;> decide

lemma head?_draftElements_ne_value (drafts : List TypeDraft) (ended : Bool) :
    (draftElements drafts ++ moduleElement ended).head? ≠ some "value" := by
  cases drafts with
  | nil => cases ended <;> decide
  | cons draft drafts => simpa [draftElements] using elementOf_ne_value draft.definition.kind

/-- Finished types are handed over to what stands around them. -/
lemma elements_deliver {types} (h : deliver m ended types around = .ok s) :
    s.elements = draftElements around ++ moduleElement ended := by
  cases around with
  | nil =>
    obtain ⟨m', _, h⟩ := bind_eq_ok.1 h
    cases h
    rfl
  | cons draft around => cases h; rfl

/-- Entering a type opens its element. -/
lemma elements_openType (h : openType m ended tag kind around = .ok s) :
    s.elements = elementOf kind :: (draftElements around ++ moduleElement ended) := by
  rcases openType_cases h with ⟨owner, d, rfl, _, rfl⟩ | ⟨owner, draft, _, hdraft, rfl⟩
  · rfl
  · rw [State.elements, Place.elements, draftElements, List.map_cons, (begun_typeDraftOf hdraft).1]
    rfl

/-- A type without content opens nothing. -/
lemma elements_emptyType (h : emptyType m ended tag kind around = .ok s) :
    s.elements = draftElements around ++ moduleElement ended := by
  obtain ⟨d, h, _⟩ := emptyType_cases h
  exact elements_deliver h

lemma elements_stepBefore (h : stepBefore event = .ok s) : s.elements = knownAfter [] event := by
  cases event with
  | opened tag =>
    rw [stepBefore] at h
    split at h
    case isTrue hname =>
      obtain ⟨m, _, h⟩ := bind_eq_ok.1 h
      cases h
      simp [State.elements, Place.elements, moduleElement, knownAfter, hname]
    case isFalse => cases h
  | empty tag =>
    rw [stepBefore] at h
    split at h
    case isTrue =>
      obtain ⟨m, _, h⟩ := bind_eq_ok.1 h
      cases h
      rfl
    case isFalse => cases h
  | closed => cases h; rfl
  | text content => cases h; rfl

lemma elements_stepOutside (h : stepOutside m ended event = .ok s) :
    s.elements = knownAfter (moduleElement ended) event := by
  have hvalue : (moduleElement ended).head? ≠ some "value" := by cases ended <;> decide
  cases event with
  | opened tag =>
    rw [stepOutside] at h
    cases hkind : kindOf? tag.name with
    | none => rw [hkind] at h; cases h
    | some kind =>
      rw [hkind] at h
      rw [elements_openType h, elementOf_of_kindOf? hkind, knownAfter, if_neg hvalue]
      rfl
  | empty tag =>
    rw [stepOutside] at h
    cases hkind : kindOf? tag.name with
    | none => rw [hkind] at h; cases h
    | some kind =>
      rw [hkind] at h
      exact elements_emptyType h
  | closed => cases h; cases ended <;> rfl
  | text content => cases h; rfl

lemma elements_stepType {type} (h : stepType m ended type around event = .ok s) :
    s.elements = knownAfter (draftElements (type :: around) ++ moduleElement ended) event := by
  have hvalue := head?_draftElements_ne_value (type :: around) ended
  cases event with
  | opened tag =>
    rw [stepType] at h
    cases hkind : kindOf? tag.name with
    | none => rw [hkind] at h; cases h
    | some kind =>
      rw [hkind] at h
      rw [elements_openType h, elementOf_of_kindOf? hkind, knownAfter, if_neg hvalue]
  | empty tag =>
    rw [stepType] at h
    split at h
    · obtain ⟨param, _, h⟩ := bind_eq_ok.1 h
      cases h
      rfl
    split at h
    · obtain ⟨property, _, h⟩ := bind_eq_ok.1 h
      cases h
      rfl
    cases hkind : kindOf? tag.name with
    | none => rw [hkind] at h; cases h
    | some kind =>
      rw [hkind] at h
      exact elements_emptyType h
  | closed =>
    obtain ⟨d, _, h⟩ := bind_eq_ok.1 h
    exact elements_deliver h
  | text content => cases h; rfl

lemma elements_stepEnum {enumeration} (h : stepEnum m ended enumeration around event = .ok s) :
    s.elements = knownAfter ("enum" :: draftElements around ++ moduleElement ended) event := by
  cases event with
  | opened tag =>
    rw [stepEnum] at h
    split at h
    case isTrue hname =>
      obtain ⟨member, _, h⟩ := bind_eq_ok.1 h
      cases h
      simp [State.elements, Place.elements, knownAfter, hname]
    case isFalse => cases h
  | empty tag =>
    rw [stepEnum] at h
    split at h
    case isTrue =>
      obtain ⟨member, _, h⟩ := bind_eq_ok.1 h
      cases h
      rfl
    case isFalse => cases h
  | closed => exact elements_deliver h
  | text content => cases h; rfl

lemma elements_stepMember {member text enumeration}
    (h : stepMember m ended member text enumeration around event = .ok s) :
    s.elements =
      knownAfter ("value" :: "enum" :: draftElements around ++ moduleElement ended) event := by
  cases event with
  | opened tag => cases h; rfl
  | empty tag => cases h; rfl
  | text content => cases h; rfl
  | closed =>
    -- The text may give the member a value, and the member ends either way.
    cases text with
    | none => cases h; rfl
    | some content =>
      obtain ⟨value, _, h⟩ := bind_eq_ok.1 h
      cases h
      rfl

end Step

/-- Which elements reading knows to be open follows from the events alone. -/
lemma State.elements_step {s s' : State} {event : Event} (h : s.step event = .ok s') :
    s'.elements = knownAfter s.elements event := by
  cases s with
  | before => exact elements_stepBefore h
  | within m ended place =>
    cases place with
    | outside => exact elements_stepOutside h
    | inType type around => exact elements_stepType h
    | inEnum enumeration around => exact elements_stepEnum h
    | inMember member text enumeration around => exact elements_stepMember h

lemma State.elements_run {s s' : State} {events : List Event}
    (h : events.foldlM State.step s = .ok s') :
    s'.elements = events.foldl knownAfter s.elements := by
  induction events generalizing s with
  | nil => cases h; rfl
  | cons event rest ih =>
    rw [List.foldlM_cons] at h
    obtain ⟨s₁, hstep, h⟩ := bind_eq_ok.1 h
    rw [ih h, elements_step hstep, List.foldl_cons]

/-- When a manifest is read, no element is known to be open. -/
lemma known_ofText {text m} (h : ofText text = .ok m) :
    (Document.ofText text).events.foldl knownAfter [] = [] := by
  obtain ⟨_, s, hrun, hfinish⟩ := ofText_eq_ok.1 h
  have helements := State.elements_run hrun
  rw [State.finish_eq_ok.1 hfinish] at helements
  exact helements.symm

/-- The first tag in the events is one of a module. -/
def BeginsModule (events : List Event) : Prop :=
  ∃ texts tag rest, (∀ e ∈ texts, ∃ content, e = Event.text content) ∧ tag.name = "module" ∧
    (events = texts ++ .opened tag :: rest ∨ events = texts ++ .empty tag :: rest)

/-- What is read begins with the tag of the module. -/
lemma beginsModule_of_run {events s m} (nested : Nested [] events)
    (hrun : events.foldlM State.step .before = .ok s) (hfinish : s.finish = .ok m) :
    BeginsModule events := by
  induction events with
  | nil => cases hrun; cases hfinish
  | cons event rest ih =>
    rw [List.foldlM_cons] at hrun
    obtain ⟨s₁, hstep, hrun⟩ := bind_eq_ok.1 hrun
    cases event with
    | closed => exact absurd rfl (nested.1 rfl)
    | text content =>
      cases hstep
      obtain ⟨texts, tag, rest', htexts, hname, hrest⟩ := ih nested.2 hrun
      refine ⟨.text content :: texts, tag, rest',
        List.forall_mem_cons.2 ⟨⟨content, rfl⟩, htexts⟩, hname, ?_⟩
      exact hrest.imp (congrArg (_ :: ·)) (congrArg (_ :: ·))
    | opened tag =>
      rw [State.step, stepBefore] at hstep
      split at hstep
      case isTrue hname => exact ⟨[], tag, rest, by simp, hname, .inl rfl⟩
      case isFalse => cases hstep
    | empty tag =>
      rw [State.step, stepBefore] at hstep
      split at hstep
      case isTrue hname => exact ⟨[], tag, rest, by simp, hname, .inr rfl⟩
      case isFalse => cases hstep

/-- A manifest that is read begins with its module and leaves no element open, but for those that
begin inside members: it is complete exactly when as many ends come behind the end of the module as
elements begin inside members, and whenever none begins there. -/
theorem openElements_eq_nil_iff {text m} (h : ofText text = .ok m) :
    BeginsModule (Document.ofText text).events ∧
      (openElements (Document.ofText text).events = [] ↔
        spareEnds (Document.ofText text).events = strayStarts (Document.ofText text).events) ∧
      (NoneBegins "value" [] (Document.ofText text).events →
        openElements (Document.ofText text).events = []) := by
  have nested := nested_ofText text
  have hknown := known_ofText h
  obtain ⟨_, s, hrun, hfinish⟩ := ofText_eq_ok.1 h
  refine ⟨beginsModule_of_run nested hrun hfinish, ?_, fun hnone => ?_⟩
  · have hcount := length_open_add_countKnown [] nested
    rw [hknown] at hcount
    rw [← List.length_eq_zero_iff, openElements, spareEnds, strayStarts]
    simp only [List.length_nil, Nat.add_zero, Nat.zero_add] at hcount
    omega
  · have hnames := known_eq_names_open hnone
    rw [List.map_nil, hknown, eq_comm, List.map_eq_nil_iff] at hnames
    exact hnames

/-- A manifest whose only member holds an element without content. -/
def sealedText : String :=
  "<module name=\"M\"><enum name=\"E\"><value name=\"A\">1<x/></value></enum></module>"

/-- The events of the manifest. -/
def sealedEvents : List Event :=
  [.opened ⟨"module", [("name", "M")]⟩, .opened ⟨"enum", [("name", "E")]⟩,
    .opened ⟨"value", [("name", "A")]⟩, .text "1", .empty ⟨"x", []⟩, .closed, .closed, .closed]

/-- Nothing begins inside the member, and the manifest is complete. -/
theorem openElements_eq_nil_iff_of_sealed :
    ofText sealedText =
        .ok ⟨"M", none, [{ name := "E", kind := .enumType, members := [⟨"A", 1, none⟩] }]⟩ ∧
      (Document.ofText sealedText).events = sealedEvents ∧ NoneBegins "value" [] sealedEvents ∧
      openElements sealedEvents = [] := by
  have htext : ofText sealedText =
      .ok ⟨"M", none, [{ name := "E", kind := .enumType, members := [⟨"A", 1, none⟩] }]⟩ := by
    decide +kernel
  have hevents : (Document.ofText sealedText).events = sealedEvents := by decide +kernel
  have hnone : NoneBegins "value" [] sealedEvents := by simp [sealedEvents, NoneBegins]
  have hclosed := (openElements_eq_nil_iff htext).2.2
  rw [hevents] at hclosed
  exact ⟨htext, hevents, hnone, hclosed hnone⟩

/-- A text that ends in front of the end tag of its module, behind an element inside a member. -/
def tornText : String :=
  "<module name=\"M\"><enum name=\"E\"><value name=\"A\"><x></x></value></enum>"

/-- The end of the element is taken for that of the member, so that of the enumeration is taken for
that of the module, which stays open. -/
theorem not_forall_closed_of_ofText :
    ¬ ∀ text m, ofText text = .ok m → ∀ tag ∈ openElements (Document.ofText text).events,
      tag.name ∉ ["module", "class", "interface", "enum", "value"] := by
  intro h
  have htext : ofText tornText =
      .ok ⟨"M", none, [{ name := "E", kind := .enumType, members := [⟨"A", 0, none⟩] }]⟩ := by
    decide +kernel
  have hopen : openElements (Document.ofText tornText).events = [⟨"module", [("name", "M")]⟩] := by
    decide +kernel
  refine h tornText _ htext ⟨"module", [("name", "M")]⟩ ?_ (by decide)
  rw [hopen]
  exact List.mem_cons_self

end Typings.Manifest
