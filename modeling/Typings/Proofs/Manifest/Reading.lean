import Typings.Proofs.Manifest.Drafts
import Typings.Proofs.Markup.Canonical
import Typings.Proofs.Markup.Document

/-!
# Reading manifests

The manifest that writes a tree reads as the module of the tree. The events of the element of a type
hand its definitions to what stands around it, so an element is read in the same way wherever it is
nested.
-/

namespace Typings.Manifest

open Typings.Markup
open Grammar

/-- The place inside the drafts, from the innermost outwards. -/
def Place.inside : List TypeDraft → Place
  | [] => .outside
  | draft :: around => .inType draft around

section Steps

variable {m : Module} {ended : Bool} {tag : Tag} {around : List TypeDraft}

lemma kindOf?_elementOf (kind : TypeKind) : kindOf? (elementOf kind) = some kind := by
  cases kind <;> rfl

/-- The start tag of a type is read in the same way wherever the type is nested. -/
lemma step_opened (kind : TypeKind) (h : tag.name = elementOf kind) :
    (State.within m ended (.inside around)).step (.opened tag) =
      openType m ended tag kind around := by
  cases around with
  | nil => simp [Place.inside, State.step, stepOutside, h, kindOf?_elementOf]
  | cons draft around => simp [Place.inside, State.step, stepType, h, kindOf?_elementOf]

/-- The tag of a type without content is read in the same way wherever the type is nested. -/
lemma step_empty (kind : TypeKind) (h : tag.name = elementOf kind) :
    (State.within m ended (.inside around)).step (.empty tag) =
      emptyType m ended tag kind around := by
  cases around with
  | nil => simp [Place.inside, State.step, stepOutside, h, kindOf?_elementOf]
  | cons draft around =>
    have hparam : elementOf kind ≠ "typeParam" := by cases kind <;> decide
    have hproperty : elementOf kind ≠ "property" := by cases kind <;> decide
    simp [Place.inside, State.step, stepType, h, hparam, hproperty, kindOf?_elementOf]

variable {events : List Event} {enumeration : TypeDef}

/-- The element of a member ends with the value that its text gives, if it gives one. -/
lemma run_givesValue {member value} (h : GivesValue events value) :
    (events ++ [Event.closed]).foldlM State.step
        (.within m ended (.inMember member none enumeration around)) =
      .ok (.within m ended (.inEnum
        (addMember enumeration { member with value := value.getD member.value }) around)) := by
  cases h with
  | empty => rfl
  | blank hblank =>
    simp only [List.singleton_append, List.foldlM_cons, State.step, stepMember, hblank]
    rfl
  | @value content value hvalue =>
    have hblank : ¬Text.isBlank content = true := by
      rw [← Text.trim_eq_empty_iff]
      intro hempty
      have hnone : Text.readInteger "" = none := by decide
      rw [hempty, hnone] at hvalue
      cases hvalue
    have hread : memberValue (Text.trim content) = .ok value := by rw [memberValue, hvalue]
    have htext : (State.within m ended (.inMember member none enumeration around)).step
          (.text content) =
        .ok (.within m ended (.inMember member (some (Text.trim content)) enumeration around)) := by
      rw [State.step, stepMember, if_neg hblank]
    rw [List.singleton_append, List.foldlM_cons, htext, ok_bind, List.foldlM_cons, State.step,
      stepMember]
    dsimp only
    rw [hread]
    rfl

/-- The element of a member adds it to the enumeration. -/
lemma run_memberWrites {node : MemberNode} (h : node.Writes events) :
    events.foldlM State.step (.within m ended (.inEnum enumeration around)) =
      .ok (.within m ended (.inEnum (addMember enumeration
        ⟨node.name, node.text.getD (node.stated.getD (nextValue enumeration.members)),
          node.description⟩) around)) := by
  cases h with
  | empty hcarries hstated htext =>
    simp only [List.foldlM_cons, State.step, stepEnum, hcarries.name, if_true,
      memberOf_of_carries hcarries hstated, ok_bind, htext]
    rfl
  | element hcarries hstated hvalue =>
    simp only [List.cons_append, List.foldlM_cons, State.step, stepEnum, hcarries.name, if_true,
      memberOf_of_carries hcarries hstated, ok_bind]
    exact run_givesValue hvalue

lemma nextValue_append (members : List EnumMember) (member : EnumMember) :
    nextValue (members ++ [member]) = min (member.value + 1) Text.maxInteger := by
  simp [nextValue]

/-- The elements of members add them to the enumeration in order. -/
lemma run_eachMember {members : List MemberNode} (h : EachWrites MemberNode.Writes members events) :
    events.foldlM State.step (.within m ended (.inEnum enumeration around)) =
      .ok (.within m ended (.inEnum
        { enumeration with
          members := enumeration.members ++ membersOf (nextValue enumeration.members) members }
        around)) := by
  induction h generalizing enumeration with
  | nil => simp [membersOf]; rfl
  | cons hnode _ ih =>
    rw [List.foldlM_append, run_memberWrites hnode, ok_bind, ih]
    simp [addMember, membersOf, nextValue_append]

end Steps

section Elements

variable {m : Module} {ended : Bool}

lemma openType_object {head : ObjectHead} {tag around} :
    openType m ended tag head.kind around =
      typeDraftOf tag head.kind (around.head?.map (·.definition.name)) >>= fun draft =>
        .ok (.within m ended (.inType draft around)) := by
  obtain ⟨isInterface, _⟩ := head
  cases isInterface <;> rfl

lemma emptyType_object {head : ObjectHead} {tag around} :
    emptyType m ended tag head.kind around =
      typeDraftOf tag head.kind (around.head?.map (·.definition.name)) >>= fun draft =>
        draft.finish >>= fun d => deliver m ended [d] around := by
  obtain ⟨isInterface, _⟩ := head
  cases isInterface <;> rfl

/-- In each definition the properties have distinct names. -/
def DistinctProperties (definitions : List TypeDef) : Prop :=
  ∀ d ∈ definitions, (d.properties.map (·.name)).Nodup

/-- A parameter is read into the draft. -/
lemma step_param {draft : TypeDraft} {around tag name attributes}
    (h : Carries tag "typeParam" attributes) (hname : attributes.lookup "name" = some name) :
    (State.within m ended (.inType draft around)).step (.empty tag) =
      .ok (.within m ended (.inType (draft.more [name] [] []) around)) := by
  rw [State.step, stepType, if_pos h.name, paramOf_of_carries h hname, ok_bind]
  simp [TypeDraft.more]

/-- A property is read into the draft, its type still unread. -/
lemma step_property {draft : TypeDraft} {around tag attributes params p}
    (h : Carries tag "property" attributes) (hp : PropertyNode.StatedBy p params attributes) :
    ∃ d, PropertyDraft.Reads params d p ∧
      (State.within m ended (.inType draft around)).step (.empty tag) =
        .ok (.within m ended (.inType (draft.more [] [d] []) around)) := by
  obtain ⟨d, hd, hreads⟩ := propertyDraftOf_of_carries h hp
  have hparam : tag.name ≠ "typeParam" := by
    rw [h.name]
    decide
  refine ⟨d, hreads, ?_⟩
  rw [State.step, stepType, if_neg hparam, if_pos h.name, hd, ok_bind]
  simp [TypeDraft.more]

-- By induction on the derivations of the events, for all drafts around. What the elements read so
-- far have left is in the innermost draft alone, and `more_more` adds what the next ones leave.
mutual

/-- The element of a type hands its definitions to what stands around it. -/
lemma Node.Writes.run {node : Node} {events owner} {around : List TypeDraft} :
    node.Writes events → around.head?.map (·.definition.name) = owner →
    DistinctProperties (node.definitions owner) →
    events.foldlM State.step (.within m ended (.inside around)) =
      deliver m ended (node.definitions owner) around
  | .emptyObject hcarries hstated, howner, hdistinct => by
    obtain ⟨base, hdraft, hbase⟩ := typeDraftOf_of_carries hcarries hstated owner
    have hfinish := finish_more owner [] hbase .nil (hdistinct _ List.mem_cons_self)
    rw [foldlM_singleton, step_empty _ hcarries.name, emptyType_object, howner, hdraft, ok_bind]
    exact congrArg (· >>= _) hfinish
  | @Node.Writes.object head items _ _ _ hcarries hstated hitems, howner, hdistinct => by
    obtain ⟨base, hdraft, hbase⟩ := typeDraftOf_of_carries hcarries hstated owner
    rw [Node.definitions] at hdistinct
    obtain ⟨hown, hnested⟩ := List.forall_mem_cons.1 hdistinct
    -- The drafts stay unread to the end: a parameter may be declared behind the property.
    obtain ⟨drafts, hdrafts, hrun⟩ := hitems.run (head.draft owner base) around hnested
    have hfinish := finish_more owner (nestedDefinitions head.name items) hbase hdrafts hown
    rw [List.cons_append, List.foldlM_cons, step_opened _ hcarries.name, openType_object, howner,
      hdraft, ok_bind, ok_bind, List.foldlM_append, hrun, ok_bind, foldlM_singleton]
    exact congrArg (· >>= _) hfinish
  | .emptyEnumeration hcarries hstated, howner, hdistinct => by
    rw [foldlM_singleton, step_empty .enumType hcarries.name, emptyType, howner,
      enumOf_of_carries hcarries hstated]
    rfl
  | .enumeration hcarries hstated hmembers, howner, hdistinct => by
    rw [List.cons_append, List.foldlM_cons, step_opened .enumType hcarries.name, openType,
      howner, enumOf_of_carries hcarries hstated, ok_bind, ok_bind, List.foldlM_append,
      run_eachMember hmembers, ok_bind, foldlM_singleton]
    rfl

/-- The elements in a class or interface are read into its draft. -/
lemma ItemsWrite.run {params items events} : ItemsWrite params items events →
    ∀ (draft : TypeDraft) (around : List TypeDraft),
    DistinctProperties (nestedDefinitions draft.definition.name items) →
    ∃ drafts, List.Forall₂ (PropertyDraft.Reads params) drafts (propertiesOf items) ∧
      events.foldlM State.step (.within m ended (.inType draft around)) =
        .ok (.within m ended (.inType (draft.more (paramsOf items) drafts
          (nestedDefinitions draft.definition.name items)) around))
  | .nil, draft, around, _ => ⟨[], .nil, by simp [TypeDraft.more, paramsOf, nestedDefinitions]; rfl⟩
  | @ItemsWrite.param _ name _ _ _ _ hcarries hname hitems, draft, around, hdistinct => by
    obtain ⟨drafts, hdrafts, hrun⟩ := hitems.run (draft.more [name] [] []) around hdistinct
    refine ⟨drafts, hdrafts, ?_⟩
    rw [List.foldlM_cons, step_param hcarries hname, ok_bind, hrun, more_more]
    rfl
  | .property hcarries hstated hitems, draft, around, hdistinct => by
    obtain ⟨d, hreads, hstep⟩ := step_property hcarries hstated
    obtain ⟨drafts, hdrafts, hrun⟩ := hitems.run (draft.more [] [d] []) around hdistinct
    refine ⟨d :: drafts, .cons hreads hdrafts, ?_⟩
    rw [List.foldlM_cons, hstep, ok_bind, hrun, more_more]
    rfl
  | @ItemsWrite.nested _ node _ inner _ hnode hitems, draft, around, hdistinct => by
    rw [nestedDefinitions, Item.definitions] at hdistinct
    obtain ⟨hinner, houter⟩ := List.forall_mem_append.1 hdistinct
    have howner : (draft :: around).head?.map (·.definition.name) =
        some draft.definition.name := rfl
    -- What the nested element delivers stands in the draft that it is nested in.
    have hnested : inner.foldlM State.step (.within m ended (.inside (draft :: around))) =
        .ok (.within m ended (.inType
          (draft.more [] [] (node.definitions (some draft.definition.name))) around)) := by
      rw [hnode.run howner hinner]
      simp [deliver, TypeDraft.more]
    obtain ⟨drafts, hdrafts, hrun⟩ :=
      hitems.run (draft.more [] [] (node.definitions (some draft.definition.name))) around houter
    refine ⟨drafts, hdrafts, ?_⟩
    rw [Place.inside] at hnested
    rw [List.foldlM_append, hnested, ok_bind, hrun, more_more]
    rfl

end

/-- Types of names that are new, and distinct, are added in order. -/
lemma addTypes_of_distinct {types : List TypeDef}
    (h : ((m.types ++ types).map (·.name)).Nodup) :
    addTypes m types = .ok { m with types := m.types ++ types } := by
  induction types generalizing m with
  | nil => simp [addTypes]
  | cons d types ih =>
    have hnew : ¬m.has d.name = true := by
      rw [Module.has_iff_mem_names, Module.names]
      intro hmem
      rw [List.map_append, List.nodup_append] at h
      exact h.2.2 _ hmem _ (List.mem_map_of_mem List.mem_cons_self) rfl
    have hrest : (((m.add d).types ++ types).map (·.name)).Nodup := by simpa [Module.add] using h
    rw [addTypes, if_neg hnew, ih hrest]
    simp [Module.add]

/-- The elements of the types outside of all others add their definitions to the module. -/
lemma run_eachNode {nodes : List Node} {events} (h : EachWrites Node.Writes nodes events)
    (hnames : ((m.types ++ nodes.flatMap (·.definitions none)).map (·.name)).Nodup)
    (hdistinct : DistinctProperties (nodes.flatMap (·.definitions none))) :
    events.foldlM State.step (.within m ended .outside) =
      .ok (.within { m with types := m.types ++ nodes.flatMap (·.definitions none) } ended
        .outside) := by
  induction h generalizing m with
  | nil => simp; rfl
  | @cons node nodes events events' hnode _ ih =>
    rw [List.flatMap_cons] at hnames hdistinct
    obtain ⟨hhere, hrest⟩ := List.forall_mem_append.1 hdistinct
    rw [← List.append_assoc] at hnames
    have hfront : ((m.types ++ node.definitions none).map (·.name)).Nodup := by
      rw [List.map_append] at hnames
      exact (List.nodup_append.1 hnames).1
    have howner : ([] : List TypeDraft).head?.map (·.definition.name) = none := rfl
    have hrun : events.foldlM State.step (.within m ended (.inside [])) =
        .ok (.within { m with types := m.types ++ node.definitions none } ended .outside) := by
      rw [hnode.run howner hhere, deliver, addTypes_of_distinct hfront, ok_bind]
    rw [Place.inside] at hrun
    rw [List.foldlM_append, hrun, ok_bind, ih hnames hrest, List.flatMap_cons, List.append_assoc]

end Elements

lemma moduleOf_of_carries {tree : Tree} {tag attributes} (h : Carries tag "module" attributes)
    (htree : tree.StatedBy attributes) :
    moduleOf tag = .ok ⟨tree.name, tree.description, []⟩ := by
  obtain ⟨hname, hdescription⟩ := htree
  rw [moduleOf, attributes_of_carries h, ok_bind, hname, hdescription]

/-- The events of a manifest describe the module that the manifest stands for. -/
lemma ofDocument_of_writes {tree : Tree} {events} (h : tree.Writes events)
    (hnames : (tree.definitions.map (·.name)).Nodup)
    (hdistinct : DistinctProperties tree.definitions) :
    ofDocument ⟨events, none⟩ = .ok tree.module := by
  cases h with
  | @empty tag _ hcarries hstated hnodes =>
    rw [ofDocument, foldlM_singleton, State.step, stepBefore, if_pos hcarries.name,
      moduleOf_of_carries hcarries hstated, ok_bind, ok_bind, Tree.module, Tree.definitions, hnodes]
    rfl
  | @element tag _ events hcarries hstated hnodes =>
    have hrun : events.foldlM State.step
          (.within ⟨tree.name, tree.description, []⟩ false .outside) =
        .ok (.within tree.module false .outside) := run_eachNode hnodes hnames hdistinct
    rw [ofDocument, List.cons_append, List.foldlM_cons, State.step, stepBefore,
      if_pos hcarries.name, moduleOf_of_carries hcarries hstated, ok_bind, ok_bind,
      List.foldlM_append, hrun, ok_bind, foldlM_singleton]
    rfl

/-- The text of a manifest is read as the module that the manifest stands for: it holds the types in
the order of their start tags, each with what its element and the elements in it state. -/
theorem ofText_of_writes {tree : Tree} {text events} (hspells : Spells text events)
    (hwrites : tree.Writes events) (hnames : (tree.definitions.map (·.name)).Nodup)
    (hdistinct : ∀ d ∈ tree.definitions, (d.properties.map (·.name)).Nodup) :
    ofText text = .ok tree.module := by
  rw [ofText, ofText_of_spells hspells]
  exact ofDocument_of_writes hwrites hnames hdistinct

lemma carries_canonicalTag (element : String) (attributes : List Attribute) :
    Carries (canonicalTag element attributes) element attributes := by
  refine ⟨rfl, ?_⟩
  rw [canonicalTag, List.forall₂_map_left_iff, List.forall₂_same]
  exact fun a _ => ⟨rfl, escapes_escape a.2⟩

/-- An enumeration of which only the first member has a value. -/
def sizes : Node :=
  .enumeration { name := "Size" } [{ name := "Small", text := some 3 }, { name := "Large" }]

/-- The events of the enumeration. -/
def sizesEvents : List Event :=
  [.opened (canonicalTag "enum" [("name", "Size")]),
    .opened (canonicalTag "value" [("name", "Small")]), .text "3", .closed,
    .empty (canonicalTag "value" [("name", "Large")]), .closed]

lemma writes_sizesEvents : sizes.Writes sizesEvents := by
  have three : GivesValue [.text "3"] (some 3) := .value (by decide +kernel)
  have small : MemberNode.Writes { name := "Small", text := some 3 }
      (.opened (canonicalTag "value" [("name", "Small")]) :: [.text "3"] ++ [.closed]) :=
    .element (carries_canonicalTag _ _) ⟨rfl, rfl, rfl⟩ three
  have large : MemberNode.Writes { name := "Large" }
      [.empty (canonicalTag "value" [("name", "Large")])] :=
    .empty (carries_canonicalTag _ _) ⟨rfl, rfl, rfl⟩ rfl
  exact .enumeration (carries_canonicalTag "enum" [("name", "Size")]) ⟨rfl, rfl, rfl⟩
    (.cons small (.cons large .nil))

/-- The property of a class, of a type that mentions a parameter of the class. -/
def contents : PropertyNode :=
  { name := "Items", type := .generic "List" [.nullable (.parameter "T")] }

/-- The manifest of a generic class that the enumeration is nested in. -/
def boxes : Tree :=
  { name := "Shop"
    nodes := [.object { isInterface := false, name := "Box", isAbstract := true }
      [.property contents, .param "T", .nested sizes]] }

/-- The events of the manifest. -/
def boxesEvents : List Event :=
  [.opened (canonicalTag "module" [("name", "Shop")]),
    .opened (canonicalTag "class" [("name", "Box"), ("abstract", "1")]),
    .empty (canonicalTag "property" [("name", "Items"), ("type", "List<T?>")]),
    .empty (canonicalTag "typeParam" [("name", "T")])] ++ sizesEvents ++ [.closed, .closed]

lemma writes_boxesEvents : boxes.Writes boxesEvents := by
  have items : ItemsWrite ["T"] [.property contents, .param "T", .nested sizes]
      (.empty (canonicalTag "property" [("name", "Items"), ("type", "List<T?>")]) ::
        .empty (canonicalTag "typeParam" [("name", "T")]) :: (sizesEvents ++ [])) :=
    .property (carries_canonicalTag _ _) ⟨rfl, by decide +kernel, by decide, rfl⟩
      (.param (carries_canonicalTag _ _) rfl (.nested writes_sizesEvents .nil))
  have box := @Node.Writes.object { isInterface := false, name := "Box", isAbstract := true }
    [.property contents, .param "T", .nested sizes] _ _ _
    (carries_canonicalTag "class" [("name", "Box"), ("abstract", "1")])
    ⟨rfl, rfl, by decide, rfl, rfl⟩ items
  exact @Tree.Writes.element boxes _ _ _ (carries_canonicalTag "module" [("name", "Shop")])
    ⟨rfl, rfl⟩ (.cons box .nil)

/-- The characters of the manifest. -/
def boxesText : List Char :=
  List.flatMap String.toList
    ["<!-- Boxes -->", "<module name=\"Shop\">", "<class name=\"Box\" abstract=\"1\">", "\n",
      "<property name=\"Items\"", " type=\"List&lt;T?&gt;\"/>", "<typeParam name=\"T\"/>",
      "<enum name=\"Size\">", "<value name=\"Small\">3 </value>", "<value name=\"Large\"/>",
      "</enum>", "</class>", "</module>"]

lemma spells_boxesText : Spells (.ofList boxesText) boxesEvents := by
  have tag (element : String) (attributes : List Attribute)
      (hnames : IsName element ∧ ∀ a ∈ attributes, IsName a.1)
      (hdistinct : attributes.Pairwise fun a b => b.1 ≠ a.1) :
      TagText (canonicalText element attributes) (canonicalTag element attributes) :=
    tagText_canonicalText hnames.1 hnames.2 hdistinct
  have hblank : Blank [] := by simp [Blank]
  have three : Content ("3".toList ++ [' '] ++ []) [.text "3"] :=
    .text ⟨by simp, by simp [isSpace], by simp [isSpace], by simp⟩ (by simp [Blank, isSpace])
      (by simp) .nil
  have large := Content.empty (tag "value" [("name", "Large")] (by decide) (by decide)) .nil
  have small := Content.element (tag "value" [("name", "Small")] (by decide) (by decide)) three
    hblank large
  have size := Content.element (tag "enum" [("name", "Size")] (by decide) (by decide)) small
    hblank .nil
  have param := Content.empty (tag "typeParam" [("name", "T")] (by decide) (by decide)) size
  have property := Content.empty (tag "property" [("name", "Items"), ("type", "List<T?>")]
    (by decide) (by decide)) param
  have box := Content.element (tag "class" [("name", "Box"), ("abstract", "1")] (by decide)
    (by decide)) (@Content.space '\n' _ _ rfl property) hblank .nil
  have shop := Content.element (tag "module" [("name", "Shop")] (by decide) (by decide)) box
    hblank .nil
  have document := @Content.comment " Boxes ".toList _ _ (by decide +kernel) shop
  have htext : (String.ofList boxesText).toList = boxesText := String.toList_ofList
  refine .plain ?_ ?_
  · rw [htext]
    decide +kernel
  · rw [htext]
    convert document using 1
    · decide +kernel
    · rfl

/-- The manifest of boxes is read: the enumeration follows the class that it is nested in, the type
of the property knows the parameter declared behind it, and a size continues the one before it. -/
theorem ofText_of_writes_of_boxes :
    Spells (.ofList boxesText) boxesEvents ∧ boxes.Writes boxesEvents ∧
      ofText (.ofList boxesText) = .ok
        { name := "Shop"
          types :=
            [{ name := "Box", kind := .classType, isAbstract := true, params := ["T"]
               properties :=
                [⟨"Items", .generic "List" [.nullable (.parameter "T")], false, none⟩] },
              { name := "Size", kind := .enumType, declaring := some "Box"
                members := [⟨"Small", 3, none⟩, ⟨"Large", 4, none⟩] }] } :=
  ⟨spells_boxesText, writes_boxesEvents,
    ofText_of_writes spells_boxesText writes_boxesEvents (by decide) (by decide)⟩

end Typings.Manifest
