import Typings.Proofs.Manifest.Reading

/-!
# Numbering of members

The value of a member is the number in the text of its element, else the one in its attribute, else
one past the member before it. So a value depends on all that stand before; a numeral that is no
number refuses the enumeration, and the first of them is the one that is reported.
-/

namespace Typings.Manifest

open Typings.Markup

/-- The element of a member, with what stands in it for a value be it a number or not. -/
structure ValueElement where
  name : String
  /-- The value as an attribute states it. -/
  stated : Option String := none
  /-- The text between the tags. -/
  text : Option String := none
  description : Option String := none

namespace ValueElement

/-- The text without the white space at its ends, unless nothing else is in it. -/
def trimmed (e : ValueElement) : Option String :=
  (e.text.filter fun text => !Text.isBlank text).map Text.trim

/-- What stands for a value in the element, the attribute first. -/
def numerals (e : ValueElement) : List String :=
  e.stated.toList ++ e.trimmed.toList

/-- The attributes are those of the element. -/
structure StatedBy (e : ValueElement) (attributes : List Attribute) : Prop where
  name : attributes.lookup "name" = some e.name
  stated : attributes.lookup "value" = e.stated
  description : attributes.lookup "description" = e.description

/-- The events are those of the element. -/
inductive Writes : ValueElement → List Event → Prop where
  | empty {e tag attributes} :
    Carries tag "value" attributes → e.StatedBy attributes → e.text = none → Writes e [.empty tag]
  | element {e tag attributes} :
    Carries tag "value" attributes → e.StatedBy attributes →
    Writes e (.opened tag :: e.text.toList.map .text ++ [.closed])

/-- The value that the element gives a member, behind the member before it if there is one. -/
inductive Value (e : ValueElement) (before : Option EnumMember) : Int → Prop where
  | text {text value} :
    e.trimmed = some text → Text.readInteger text = some value → Value e before value
  | stated {text value} :
    e.trimmed = none → e.stated = some text → Text.readInteger text = some value →
    Value e before value
  | first : e.trimmed = none → e.stated = none → before = none → Value e before 0
  | next {previous} :
    e.trimmed = none → e.stated = none → before = some previous →
    Value e before (min (previous.value + 1) Text.maxInteger)

/-- The member is the one of the element, behind the member before it if there is one. One that the
element gives no number is greater than the one before, as far as 64 bits go. -/
structure Gives (e : ValueElement) (before : Option EnumMember) (m : EnumMember) : Prop where
  name : m.name = e.name
  description : m.description = e.description
  value : e.Value before m.value
  range : Text.minInteger ≤ m.value ∧ m.value ≤ Text.maxInteger
  greater : e.trimmed = none → e.stated = none → ∀ previous, before = some previous →
    previous.value ≠ Text.maxInteger → previous.value < m.value

/-- The numeral is no number. -/
def unreadable (numeral : String) : Bool :=
  (Text.readInteger numeral).isNone

/-- What the element states, once its numerals are numbers. -/
def node (e : ValueElement) : MemberNode :=
  ⟨e.name, e.stated.bind Text.readInteger, e.trimmed.bind Text.readInteger, e.description⟩

section Reading

variable {m : Module} {ended : Bool} {around : List TypeDraft} {enumeration : TypeDef}
  {e : ValueElement} {tag : Tag} {attributes : List Attribute} {events : List Event}

/-- A numeral that is a number has a value. -/
lemma map_readInteger {numeral : Option String} (h : numeral.toList.find? unreadable = none) :
    numeral.map Text.readInteger = (numeral.bind Text.readInteger).map some := by
  cases numeral with
  | none => rfl
  | some text =>
    cases hread : Text.readInteger text with
    | none => simp [unreadable, hread] at h
    | some value => simp [hread]

/-- The attributes state the member too, once the value among them is a number. -/
lemma StatedBy.node (h : e.StatedBy attributes)
    (hstated : e.stated.toList.find? unreadable = none) :
    e.node.StatedBy attributes :=
  ⟨h.name, h.stated ▸ map_readInteger hstated, h.description⟩

/-- The text is blank, or it has something in it without the white space at its ends. -/
lemma trimmed_cases (e : ValueElement) :
    (e.trimmed = none ∧ (e.text = none ∨ ∃ text, e.text = some text ∧ Text.isBlank text = true)) ∨
      ∃ text, e.text = some text ∧ Text.isBlank text = false ∧
        e.trimmed = some (Text.trim text) := by
  rw [trimmed]
  cases e.text with
  | none => exact .inl ⟨rfl, .inl rfl⟩
  | some text =>
    cases hblank : Text.isBlank text with
    | true => exact .inl ⟨by simp [hblank], .inr ⟨text, rfl, hblank⟩⟩
    | false => exact .inr ⟨text, rfl, hblank, by simp [hblank]⟩

/-- An element whose numerals are numbers is one of the member that it states. -/
lemma Writes.node (h : e.Writes events) (hstated : e.stated.toList.find? unreadable = none)
    (htrimmed : e.trimmed.toList.find? unreadable = none) : e.node.Writes events := by
  cases h with
  | empty hcarries hattributes htext =>
    refine .empty hcarries (hattributes.node hstated) ?_
    rw [ValueElement.node, trimmed, htext]
    rfl
  | element hcarries hattributes =>
    refine .element hcarries (hattributes.node hstated) ?_
    rw [ValueElement.node]
    rcases e.trimmed_cases with ⟨hnone, htext | ⟨text, htext, hblank⟩⟩ | ⟨text, htext, -, hsome⟩
    · rw [hnone, htext]
      exact .empty
    · rw [hnone, htext]
      exact .blank hblank
    · rw [hsome] at htrimmed
      rw [hsome, htext]
      cases hread : Text.readInteger (Text.trim text) with
      | none => simp [unreadable, hread] at htrimmed
      | some value =>
        dsimp only
        rw [Option.bind_some, hread]
        exact .value hread

lemma memberValue_of_unreadable {numeral : String} (h : unreadable numeral = true) :
    memberValue numeral = .error (.invalidAttribute "value" "value" numeral) := by
  rw [memberValue, Option.isNone_iff_eq_none.1 h]

/-- An attribute that is no number refuses the tag. -/
lemma memberOf_of_unreadable {numeral : String} (hcarries : Carries tag "value" attributes)
    (hattributes : e.StatedBy attributes) (hstated : e.stated = some numeral)
    (h : unreadable numeral = true) (before : List EnumMember) :
    memberOf tag before = .error (.invalidAttribute "value" "value" numeral) := by
  rw [memberOf, attributes_of_carries hcarries, ok_bind, hattributes.stated, hstated]
  dsimp only
  rw [memberValue_of_unreadable h]
  rfl

/-- The first numeral of an element that is no number refuses the enumeration. -/
lemma Writes.run_of_unreadable {numeral : String} (h : e.Writes events)
    (hfirst : e.numerals.find? unreadable = some numeral) :
    events.foldlM State.step (.within m ended (.inEnum enumeration around)) =
      .error (.invalidAttribute "value" "value" numeral) := by
  rw [numerals, List.find?_append, Option.or_eq_some_iff] at hfirst
  rcases hfirst with hfirst | ⟨hstated, hfirst⟩
  · -- The attribute is no number: the tag is refused.
    have hbad := List.find?_some hfirst
    have hstated : e.stated = some numeral := Option.mem_toList.1 (List.mem_of_find?_eq_some hfirst)
    cases h with
    | empty hcarries hattributes _ =>
      rw [List.foldlM_cons, State.step, stepEnum, if_pos hcarries.name,
        memberOf_of_unreadable hcarries hattributes hstated hbad]
      rfl
    | element hcarries hattributes =>
      rw [List.cons_append, List.foldlM_cons, State.step, stepEnum, if_pos hcarries.name,
        memberOf_of_unreadable hcarries hattributes hstated hbad]
      rfl
  · -- The text is no number: the end of the element is refused.
    have hbad := List.find?_some hfirst
    have htrimmed : e.trimmed = some numeral :=
      Option.mem_toList.1 (List.mem_of_find?_eq_some hfirst)
    rcases e.trimmed_cases with ⟨hnone, -⟩ | ⟨text, htext, hblank, hsome⟩
    · rw [hnone] at htrimmed
      cases htrimmed
    obtain rfl := Option.some.inj (htrimmed.symm.trans hsome)
    cases h with
    | empty hcarries hattributes hempty =>
      rw [htext] at hempty
      cases hempty
    | element hcarries hattributes =>
      rw [List.cons_append, List.foldlM_cons, State.step, stepEnum, if_pos hcarries.name,
        memberOf_of_carries hcarries (hattributes.node hstated), ok_bind, ok_bind, htext]
      simp only [Option.toList_some, List.map_cons, List.map_nil, List.singleton_append,
        List.foldlM_cons, State.step, stepMember, hblank, Bool.false_eq_true, if_false, ok_bind,
        memberValue_of_unreadable hbad]
      rfl

/-- The first numeral of the elements that is no number refuses the enumeration. -/
lemma run_of_unreadable {elements : List ValueElement} {numeral : String}
    (h : EachWrites Writes elements events)
    (hfirst : (elements.flatMap numerals).find? unreadable = some numeral) :
    events.foldlM State.step (.within m ended (.inEnum enumeration around)) =
      .error (.invalidAttribute "value" "value" numeral) := by
  induction h generalizing enumeration with
  | nil => cases hfirst
  | @cons e elements events events' he _ ih =>
    rw [List.flatMap_cons, List.find?_append, Option.or_eq_some_iff] at hfirst
    rw [List.foldlM_append]
    rcases hfirst with hhere | ⟨hhere, hlater⟩
    · rw [he.run_of_unreadable hhere]
      rfl
    · rw [numerals, List.find?_append, Option.or_eq_none_iff] at hhere
      rw [run_memberWrites (he.node hhere.1 hhere.2), ok_bind]
      exact ih hlater

/-- Elements whose numerals are numbers are those of the members that they state. -/
lemma eachWrites_node {elements : List ValueElement} (h : EachWrites Writes elements events)
    (hall : (elements.flatMap numerals).find? unreadable = none) :
    EachWrites MemberNode.Writes (elements.map node) events := by
  induction h with
  | nil => exact .nil
  | @cons e elements events events' he _ ih =>
    rw [List.flatMap_cons, List.find?_append, Option.or_eq_none_iff] at hall
    obtain ⟨hhere, hlater⟩ := hall
    rw [numerals, List.find?_append, Option.or_eq_none_iff] at hhere
    exact .cons (he.node hhere.1 hhere.2) (ih hlater)

end Reading

section Values

variable {e : ValueElement} {before : Option EnumMember} {value : Int}

/-- What stands for a value is read, where it is a number. -/
lemma exists_readInteger {numeral : Option String} (h : numeral.toList.find? unreadable = none)
    {text : String} (htext : numeral = some text) :
    ∃ value, numeral.bind Text.readInteger = some value ∧ Text.readInteger text = some value := by
  subst htext
  cases hread : Text.readInteger text with
  | none => simp [unreadable, hread] at h
  | some value => exact ⟨value, hread, rfl⟩

/-- The value of the member that an element states, behind members read before. -/
lemma value_node (hstated : e.stated.toList.find? unreadable = none)
    (htrimmed : e.trimmed.toList.find? unreadable = none) (done : List EnumMember) :
    e.Value done.getLast? (e.node.text.getD (e.node.stated.getD (nextValue done))) := by
  rw [node]
  dsimp only
  cases htext : e.trimmed with
  | some text =>
    obtain ⟨value, hbind, hread⟩ := exists_readInteger htrimmed htext
    rw [← htext, hbind]
    exact .text htext hread
  | none =>
    rw [Option.bind_none, Option.getD_none]
    cases hattribute : e.stated with
    | some text =>
      obtain ⟨value, hbind, hread⟩ := exists_readInteger hstated hattribute
      rw [← hattribute, hbind]
      exact .stated htext hattribute hread
    | none =>
      rw [Option.bind_none, Option.getD_none, nextValue]
      cases hbefore : done.getLast? with
      | none => exact .first htext hattribute rfl
      | some previous => exact .next htext hattribute rfl

/-- Values stay in the range of 64 bits. -/
lemma Value.range (h : e.Value before value)
    (hbefore : ∀ previous, before = some previous →
      Text.minInteger ≤ previous.value ∧ previous.value ≤ Text.maxInteger) :
    Text.minInteger ≤ value ∧ value ≤ Text.maxInteger := by
  cases h with
  | text _ hread => exact Text.readInteger_range hread
  | stated _ _ hread => exact Text.readInteger_range hread
  | first => decide
  | @next previous _ _ hprevious =>
    obtain ⟨hmin, hmax⟩ := hbefore previous hprevious
    have hrange : Text.minInteger ≤ Text.maxInteger := by decide
    omega

/-- A value that the element does not give is greater than the one before, as far as 64 bits go. -/
lemma Value.greater (h : e.Value before value) (htrimmed : e.trimmed = none)
    (hstated : e.stated = none)
    {previous : EnumMember} (hbefore : before = some previous)
    (hrange : previous.value ≤ Text.maxInteger) (hne : previous.value ≠ Text.maxInteger) :
    previous.value < value := by
  cases h with
  | text htext _ => cases htrimmed.symm.trans htext
  | stated _ hattribute _ => cases hstated.symm.trans hattribute
  | first _ _ hnone => cases hbefore.symm.trans hnone
  | next _ _ hsome =>
    cases hbefore.symm.trans hsome
    omega

/-- Elements whose numerals are numbers give the members that they state, one behind the other. -/
lemma gives_membersOf {elements : List ValueElement}
    (hall : (elements.flatMap numerals).find? unreadable = none) {done : List EnumMember}
    (hdone : ∀ m ∈ done, Text.minInteger ≤ m.value ∧ m.value ≤ Text.maxInteger) {i : Nat} {e m}
    (he : elements[i]? = some e)
    (hm : (membersOf (nextValue done) (elements.map node))[i]? = some m) :
    e.Gives (done ++ (membersOf (nextValue done) (elements.map node)).take i).getLast? m := by
  induction elements generalizing done i with
  | nil => cases he
  | cons first rest ih =>
    rw [List.flatMap_cons, List.find?_append, Option.or_eq_none_iff] at hall
    obtain ⟨hhere, hlater⟩ := hall
    rw [numerals, List.find?_append, Option.or_eq_none_iff] at hhere
    rw [List.map_cons, membersOf] at hm ⊢
    have hvalue := value_node hhere.1 hhere.2 done
    generalize first.node.text.getD (first.node.stated.getD (nextValue done)) = value at hvalue hm ⊢
    have hlast : ∀ previous, done.getLast? = some previous →
        Text.minInteger ≤ previous.value ∧ previous.value ≤ Text.maxInteger :=
      fun previous h => hdone previous (List.mem_of_getLast? h)
    have hrange := hvalue.range hlast
    cases i with
    | zero =>
      obtain rfl := Option.some.inj he
      obtain rfl := Option.some.inj hm
      rw [List.take_zero, List.append_nil]
      exact ⟨rfl, rfl, hvalue, hrange, fun htrimmed hstated previous hprevious =>
        hvalue.greater htrimmed hstated hprevious (hlast previous hprevious).2⟩
    | succ i =>
      rw [List.getElem?_cons_succ] at he hm
      have hdone' : ∀ m ∈ done ++ [⟨first.node.name, value, first.node.description⟩],
          Text.minInteger ≤ m.value ∧ m.value ≤ Text.maxInteger := by
        intro m hm
        rcases List.mem_append.1 hm with hm | hm
        · exact hdone m hm
        · rw [List.mem_singleton.1 hm]
          exact hrange
      have hgives := ih hlater hdone' he (by rwa [nextValue_append])
      rwa [nextValue_append, List.append_assoc] at hgives

lemma length_membersOf (next : Int) (nodes : List MemberNode) :
    (membersOf next nodes).length = nodes.length := by
  induction nodes generalizing next with
  | nil => rfl
  | cons node nodes ih =>
    rw [membersOf, List.length_cons, List.length_cons, ih]

end Values

end ValueElement

open ValueElement in
/-- The element of an enumeration is read as its members, each with the value that its element gives
it behind the one before, when every attribute and every text that is not blank is a number of 64
bits. Otherwise the first that is none is reported. -/
theorem run_enumeration (m : Module) (ended : Bool) (around : List TypeDraft) {tag : Tag}
    {attributes : List Attribute} {head : EnumHead} {elements : List ValueElement}
    {events : List Event} (hcarries : Carries tag "enum" attributes)
    (hhead : head.StatedBy attributes)
    (h : EachWrites ValueElement.Writes elements events) :
    ((∀ numeral ∈ elements.flatMap numerals, (Text.readInteger numeral).isSome = true) →
      ∃ members : List EnumMember,
        (Event.opened tag :: events ++ [Event.closed]).foldlM State.step
            (.within m ended (.inside around)) =
          deliver m ended
            [{ head.definition (around.head?.map (·.definition.name)) [] with members }] around ∧
        members.length = elements.length ∧
        ∀ (i : Nat) (e : ValueElement) (member : EnumMember),
          elements[i]? = some e → members[i]? = some member →
          e.Gives (members.take i).getLast? member) ∧
    ∀ numeral,
      (elements.flatMap numerals).find? (fun s => (Text.readInteger s).isNone) = some numeral →
      (Event.opened tag :: events ++ [Event.closed]).foldlM State.step
          (.within m ended (.inside around)) =
        .error (.invalidAttribute "value" "value" numeral) := by
  have hopened : (Event.opened tag :: events ++ [Event.closed]).foldlM State.step
        (.within m ended (.inside around)) =
      (events ++ [Event.closed]).foldlM State.step (.within m ended
        (.inEnum (head.definition (around.head?.map (·.definition.name)) []) around)) := by
    rw [List.cons_append, List.foldlM_cons, step_opened .enumType hcarries.name, openType,
      enumOf_of_carries hcarries hhead, ok_bind, ok_bind]
  rw [hopened, List.foldlM_append]
  constructor
  · intro hall
    have hfind : (elements.flatMap numerals).find? unreadable = none := by
      rw [List.find?_eq_none]
      intro numeral hnumeral
      rw [unreadable, Option.isNone_eq_false_iff.2 (hall numeral hnumeral)]
      exact Bool.false_ne_true
    refine ⟨membersOf 0 (elements.map node), ?_, ?_, fun i e member he hmember => ?_⟩
    · rw [run_eachMember (eachWrites_node h hfind), ok_bind, foldlM_singleton]
      rfl
    · rw [length_membersOf, List.length_map]
    · have hnone : ∀ m ∈ ([] : List EnumMember),
          Text.minInteger ≤ m.value ∧ m.value ≤ Text.maxInteger :=
        fun _ h => absurd h List.not_mem_nil
      exact gives_membersOf hfind hnone he hmember
  · intro numeral hnumeral
    rw [run_of_unreadable h hnumeral]
    rfl

/-- The greatest number in an attribute, no number behind it, and a number in the text besides. -/
def sizeElements (last : String) : List ValueElement :=
  [{ name := "Huge", stated := some "9223372036854775807" }, { name := "Vast", text := some " " },
    { name := "Tiny", stated := some "1", text := some last }]

/-- The events of the elements. -/
def sizeElementsEvents (last : String) : List Event :=
  [.empty (canonicalTag "value" [("name", "Huge"), ("value", "9223372036854775807")]),
    .opened (canonicalTag "value" [("name", "Vast")]), .text " ", .closed,
    .opened (canonicalTag "value" [("value", "1"), ("name", "Tiny")]), .text last, .closed]

lemma writes_sizeElementsEvents (last : String) :
    EachWrites ValueElement.Writes (sizeElements last) (sizeElementsEvents last) := by
  have huge : ValueElement.Writes { name := "Huge", stated := some "9223372036854775807" }
      [.empty (canonicalTag "value" [("name", "Huge"), ("value", "9223372036854775807")])] :=
    .empty (carries_canonicalTag _ _) ⟨rfl, rfl, rfl⟩ rfl
  have vast : ValueElement.Writes { name := "Vast", text := some " " }
      (.opened (canonicalTag "value" [("name", "Vast")]) :: [.text " "] ++ [.closed]) :=
    .element (carries_canonicalTag _ _) ⟨rfl, rfl, rfl⟩
  have tiny : ValueElement.Writes { name := "Tiny", stated := some "1", text := some last }
      (.opened (canonicalTag "value" [("value", "1"), ("name", "Tiny")]) ::
        [.text last] ++ [.closed]) :=
    .element (carries_canonicalTag _ _) ⟨rfl, rfl, rfl⟩
  exact .cons huge (.cons vast (.cons tiny .nil))

/-- The enumeration of the elements is read, and one with a text that is no number is refused. -/
theorem run_enumeration_of_sizes :
    (∃ members : List EnumMember,
      (Event.opened (canonicalTag "enum" [("name", "Size")]) ::
          sizeElementsEvents "\n 3 " ++ [Event.closed]).foldlM
          State.step (.within ⟨"Shop", none, []⟩ false .outside) =
        deliver ⟨"Shop", none, []⟩ false [{ name := "Size", kind := .enumType, members }] [] ∧
      members.length = 3 ∧
      ∀ (i : Nat) (e : ValueElement) (member : EnumMember), (sizeElements "\n 3 ")[i]? = some e →
        members[i]? = some member → e.Gives (members.take i).getLast? member) ∧
    (Event.opened (canonicalTag "enum" [("name", "Size")]) ::
        sizeElementsEvents "many" ++ [Event.closed]).foldlM
        State.step (.within ⟨"Shop", none, []⟩ false .outside) =
      .error (.invalidAttribute "value" "value" "many") := by
  have hstated : EnumHead.StatedBy { name := "Size" } [("name", "Size")] := ⟨rfl, rfl, rfl⟩
  have hcarries := carries_canonicalTag "enum" [("name", "Size")]
  constructor
  · exact (run_enumeration ⟨"Shop", none, []⟩ false [] hcarries hstated
      (writes_sizeElementsEvents "\n 3 ")).1 (by decide +kernel)
  · exact (run_enumeration ⟨"Shop", none, []⟩ false [] hcarries hstated
      (writes_sizeElementsEvents "many")).2 "many" (by decide +kernel)

/-- Behind the greatest number the next member repeats it, and a text counts before an attribute. -/
example :
    (Event.opened (canonicalTag "enum" [("name", "Size")]) ::
        sizeElementsEvents "\n 3 " ++ [Event.closed]).foldlM
        State.step (.within ⟨"Shop", none, []⟩ false .outside) =
      .ok (.within ⟨"Shop", none, [
        { name := "Size", kind := .enumType
          members := [⟨"Huge", 9223372036854775807, none⟩, ⟨"Vast", 9223372036854775807, none⟩,
            ⟨"Tiny", 3, none⟩] }]⟩ false .outside) := by
  decide +kernel

end Typings.Manifest
