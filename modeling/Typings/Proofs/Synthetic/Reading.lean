import Mathlib.Data.List.Nodup
import Typings.Proofs.Manifest.Reading
import Typings.Proofs.Markup.Pieces
import Typings.Proofs.Synthetic.Names

/-!
# Reading synthetic manifests

A synthetic module and the text of its manifest say the same: there is a tree that stands for the
module, and the text is put together of the elements of the tree, with white space between them.
-/

namespace Typings.Synthetic

open Manifest Markup
open Markup.Grammar (Content Blank IsText)

section Trees

/-- What the element of a member says. -/
def memberNode (m : Nat) : MemberNode :=
  { name := memberName m, text := some m }

/-- What the element of an enumeration says. -/
def enumNode (index : Nat) : Node :=
  .enumeration { name := enumName index } ((List.range 4).map memberNode)

/-- What the element of a property says. -/
def Shape.propertyNode (s : Shape) (c p : Nat) : PropertyNode :=
  { name := propertyName p, type := readOrObject (s.propertyExpression c p) }

/-- What the start tag of a class says. -/
def Shape.classHead (s : Shape) (c : Nat) : ObjectHead :=
  { isInterface := false, name := className c
    base := (s.baseIndex? c).map fun b => .named (className b) }

/-- What the element of a class says. -/
def Shape.classNode (s : Shape) (c : Nat) : Node :=
  .object (s.classHead c) (((List.range s.properties).map (s.propertyNode c)).map .property)

/-- What the manifest says. -/
def Shape.tree (s : Shape) : Tree :=
  { name := moduleName
    nodes := (List.range s.enums).map enumNode ++ (List.range s.classes).map s.classNode }

variable {properties : List PropertyNode}

lemma paramsOf_map_property : paramsOf (properties.map .property) = [] := by
  rw [paramsOf, List.filterMap_map, List.filterMap_eq_nil_iff]
  exact fun _ _ => rfl

lemma propertiesOf_map_property : propertiesOf (properties.map .property) = properties := by
  rw [propertiesOf, List.filterMap_map]
  exact List.filterMap_some

lemma nestedDefinitions_map_property {owner : String} :
    nestedDefinitions owner (properties.map .property) = [] := by
  induction properties with
  | nil => rfl
  | cons p properties ih => exact ih

lemma definitions_enumNode (index : Nat) :
    (enumNode index).definitions none = [enumDefinition index] := rfl

lemma definitions_classNode (s : Shape) (c : Nat) :
    (s.classNode c).definitions none = [s.classDefinition c] := by
  rw [Shape.classNode, Node.definitions, paramsOf_map_property, propertiesOf_map_property,
    nestedDefinitions_map_property, ObjectHead.definition, List.map_map]
  rfl

/-- The tree stands for the synthetic module. -/
lemma module_tree (s : Shape) : s.tree.module = s.toModule := by
  have hdefinitions : s.tree.definitions = s.toModule.types := by
    rw [Tree.definitions, Shape.tree, List.flatMap_append, List.flatMap_map, List.flatMap_map,
      Shape.toModule]
    simp only [definitions_enumNode, definitions_classNode, ← List.map_eq_flatMap]
  rw [Tree.module, hdefinitions]
  rfl

end Trees

section Distinct

lemma names_toModule (s : Shape) :
    s.toModule.names =
      (List.range s.enums).map enumName ++ (List.range s.classes).map className := by
  rw [Module.names, Shape.toModule, List.map_append, List.map_map, List.map_map]
  rfl

/-- The types have different names. -/
lemma nodup_names (s : Shape) : s.toModule.names.Nodup := by
  rw [names_toModule]
  refine List.Nodup.append ?_ ?_ ?_
  · exact List.nodup_range.map (append_toString_injective "Kind")
  · exact List.nodup_range.map (append_toString_injective "Model")
  · intro name henum hclass
    obtain ⟨i, _, rfl⟩ := List.mem_map.1 henum
    obtain ⟨j, _, heq⟩ := List.mem_map.1 hclass
    rw [← String.toList_inj, className, enumName] at heq
    simp at heq

/-- In each type the properties have different names. -/
lemma distinctProperties (s : Shape) : DistinctProperties s.toModule.types := by
  intro d hd
  rcases List.mem_append.1 hd with hd | hd
  · obtain ⟨i, _, rfl⟩ := List.mem_map.1 hd
    exact List.nodup_nil
  · obtain ⟨c, _, rfl⟩ := List.mem_map.1 hd
    rw [Shape.classDefinition, List.map_map]
    exact List.nodup_range.map (append_toString_injective "Field")

end Distinct

section Events

/-- The attributes of a class. -/
def Shape.classAttributes (s : Shape) (c : Nat) : List Attribute :=
  ("name", className c) :: (s.baseIndex? c).toList.map fun b => ("base", className b)

/-- The attributes of a property. -/
def Shape.propertyAttributes (s : Shape) (c p : Nat) : List Attribute :=
  [("name", propertyName p), ("type", s.propertyExpression c p)]

/-- The events of a member. -/
def memberEvents (m : Nat) : List Event :=
  .opened (canonicalTag "value" [("name", memberName m)]) :: [.text (toString m)] ++ [.closed]

/-- The events of an enumeration. -/
def enumEvents (index : Nat) : List Event :=
  .opened (canonicalTag "enum" [("name", enumName index)]) ::
    (List.range 4).flatMap memberEvents ++ [.closed]

/-- The event of a property. -/
def Shape.propertyEvent (s : Shape) (c p : Nat) : Event :=
  .empty (canonicalTag "property" (s.propertyAttributes c p))

/-- The events of a class. -/
def Shape.classEvents (s : Shape) (c : Nat) : List Event :=
  .opened (canonicalTag "class" (s.classAttributes c)) ::
    (List.range s.properties).map (s.propertyEvent c) ++ [.closed]

/-- The events of the manifest. -/
def Shape.events (s : Shape) : List Event :=
  .opened (canonicalTag "module" [("name", moduleName)]) ::
    ((List.range s.enums).flatMap enumEvents ++ (List.range s.classes).flatMap s.classEvents) ++
      [.closed]

/-- The text of a member gives it its value. -/
lemma givesValue_member {m : Nat} (h : m < 4) : GivesValue [.text (toString m)] (some m) := by
  have hread : ∀ m : Nat, m < 4 → Text.readInteger (Text.trim (toString m)) = some (m : Int) := by
    decide +kernel
  exact .value (hread m h)

lemma writes_memberNode {m : Nat} (h : m < 4) : (memberNode m).Writes (memberEvents m) :=
  .element (carries_canonicalTag "value" [("name", memberName m)]) ⟨rfl, rfl, rfl⟩
    (givesValue_member h)

lemma writes_enumNode (index : Nat) : (enumNode index).Writes (enumEvents index) := by
  refine .enumeration (carries_canonicalTag "enum" [("name", enumName index)]) ⟨rfl, rfl, rfl⟩ ?_
  exact eachWrites_flatMap fun m hm => writes_memberNode (List.mem_range.1 hm)

/-- The attributes of a property state it. -/
lemma statedBy_propertyAttributes (s : Shape) (c p : Nat) :
    (s.propertyNode c p).StatedBy [] (s.propertyAttributes c p) where
  name := rfl
  type := congrArg some (ofExpression_propertyExpression s c p)
  marked := List.mem_cons_self
  description := rfl

/-- The attributes of a class state its head. -/
lemma statedBy_classAttributes (s : Shape) (c : Nat) :
    (s.classHead c).StatedBy [] (s.classAttributes c) := by
  rw [Shape.classHead, Shape.classAttributes]
  cases s.baseIndex? c with
  | none => exact ⟨rfl, rfl, List.mem_cons_self, rfl, rfl⟩
  | some b =>
    exact ⟨rfl, congrArg some (ofExpression_className b), List.mem_cons_self, rfl, rfl⟩

lemma writes_classNode (s : Shape) (c : Nat) : (s.classNode c).Writes (s.classEvents c) := by
  refine .object (carries_canonicalTag "class" (s.classAttributes c)) ?_ ?_
  · rw [paramsOf_map_property]
    exact statedBy_classAttributes s c
  · rw [paramsOf_map_property]
    induction List.range s.properties with
    | nil => exact .nil
    | cons p ps ih =>
      exact .property (carries_canonicalTag "property" (s.propertyAttributes c p))
        (statedBy_propertyAttributes s c p) ih

/-- The events are those of the tree. -/
lemma writes_events (s : Shape) : s.tree.Writes s.events := by
  refine .element (carries_canonicalTag "module" [("name", moduleName)]) ⟨rfl, rfl⟩ ?_
  exact (eachWrites_flatMap fun i _ => writes_enumNode i).append
    (eachWrites_flatMap fun c _ => writes_classNode s c)

end Events

section Texts

lemma isName_name : Grammar.IsName "name" := by
  decide +kernel

/-- A tag with a name can be written. -/
lemma writable_name {element : String} (helement : Grammar.IsName element) (value : String) :
    Writable element [("name", value)] where
  name := helement
  keys := List.forall_mem_singleton.2 isName_name
  distinct := List.pairwise_singleton _ _

/-- A tag with a name and another attribute can be written. -/
lemma writable_name_and {element key : String} (helement : Grammar.IsName element)
    (hkey : Grammar.IsName key) (hne : key ≠ "name") (value value' : String) :
    Writable element [("name", value), (key, value')] where
  name := helement
  keys := List.forall_mem_cons.2 ⟨isName_name, List.forall_mem_singleton.2 hkey⟩
  distinct := List.pairwise_pair.2 hne

lemma blank_of_all {text : String} (h : text.toList.all isSpace = true) : Blank text.toList :=
  List.all_eq_true.1 h

/-- A number is text. -/
lemma isText_toString (n : Nat) : IsText (toString n) := by
  have hdigits : ∀ c ∈ digits, isSpace c = false ∧ c ≠ '<' ∧ c ≠ '&' :=
    List.all_iff_forall_prop.1 (by decide +kernel)
  have hnumber {c} (hc : c ∈ (toString n).toList) := hdigits c (mem_digits_of_mem_toString hc)
  exact
    { nonempty := toList_toString_ne_nil n
      begins := fun c hc => (hnumber (List.mem_of_head? hc)).1
      ends := fun c hc => (hnumber (List.mem_of_getLast? hc)).1
      plain := fun c hc => (hnumber hc).2 }

/-- An element between white space adds its events. -/
lemma adds_line {before piece after : String} {events : List Event}
    (hbefore : before.toList.all isSpace = true) (h : Adds piece events)
    (hafter : after.toList.all isSpace = true) : Adds (before ++ piece ++ after) events := by
  have hadds := ((adds_blank (blank_of_all hbefore)).append h).append
    (adds_blank (blank_of_all hafter))
  rwa [List.nil_append, List.append_nil] at hadds

@[simp] lemma escape_className (i : Nat) : escape (className i) = className i :=
  escape_eq_self (escapeChar_className i)

@[simp] lemma escape_enumName (i : Nat) : escape (enumName i) = enumName i :=
  escape_eq_self (escapeChar_enumName i)

@[simp] lemma escape_propertyName (i : Nat) : escape (propertyName i) = propertyName i :=
  escape_append_toString (List.all_iff_forall_prop.1 (by decide +kernel)) i

@[simp] lemma escape_memberName (i : Nat) : escape (memberName i) = memberName i :=
  escape_append_toString (List.all_iff_forall_prop.1 (by decide +kernel)) i

/-- The element of a member on a line of its own. -/
def memberText (m : Nat) : String :=
  "        " ++ wrappedElement "value" [("name", memberName m)] (toString m) ++ "\n"

lemma memberText_eq (m : Nat) :
    "        <value name=\"" ++ memberName m ++ "\">" ++ toString m ++ "</value>\n" =
      memberText m := by
  refine String.toList_inj.1 ?_
  simp [memberText, wrappedElement, canonicalText, attributeText]

lemma enumText_eq (index : Nat) :
    enumText index =
      "    " ++ wrappedElement "enum" [("name", enumName index)]
        ("\n" ++ String.join ((List.range 4).map memberText) ++ "    ") ++ "\n" := by
  have htext : enumText index =
      "    <enum name=\"" ++ enumName index ++ "\">\n" ++
        String.join ((List.range 4).map memberText) ++ "    </enum>\n" :=
    congrArg (fun member => "    <enum name=\"" ++ enumName index ++ "\">\n" ++
      String.join ((List.range 4).map member) ++ "    </enum>\n") (funext memberText_eq)
  refine String.toList_inj.1 ?_
  simp [htext, wrappedElement, canonicalText, attributeText]

lemma propertyText_eq (s : Shape) (c p : Nat) :
    s.propertyText c p =
      "        " ++ emptyElement "property" (s.propertyAttributes c p) ++ "\n" := by
  have htext : s.propertyText c p =
      "        <property name=\"" ++ propertyName p ++ "\" type=\"" ++
        escapeAngles (s.propertyExpression c p) ++ "\"/>\n" := rfl
  refine String.toList_inj.1 ?_
  simp [htext, escapeAngles_propertyExpression, emptyElement, Shape.propertyAttributes,
    canonicalText, attributeText]

lemma classText_eq (s : Shape) (c : Nat) :
    s.classText c =
      "    " ++ wrappedElement "class" (s.classAttributes c)
        ("\n" ++ String.join ((List.range s.properties).map (s.propertyText c)) ++ "    ") ++
        "\n" := by
  have htext : s.classText c =
      "    <class name=\"" ++ className c ++ "\"" ++
        (s.baseIndex? c).elim "" (fun b => " base=\"" ++ className b ++ "\"") ++ ">\n" ++
        String.join ((List.range s.properties).map (s.propertyText c)) ++ "    </class>\n" := by
    delta Shape.classText
    cases s.baseIndex? c <;> rfl
  refine String.toList_inj.1 ?_
  cases hbase : s.baseIndex? c <;>
    simp [htext, hbase, Shape.classAttributes, wrappedElement, canonicalText, attributeText]

lemma manifestText_eq (s : Shape) :
    s.manifestText =
      "" ++ wrappedElement "module" [("name", moduleName)]
        ("\n" ++ (String.join ((List.range s.enums).map enumText) ++
          String.join ((List.range s.classes).map s.classText)) ++ "") ++ "\n" := by
  have htext : s.manifestText =
      "<module name=\"" ++ moduleName ++ "\">\n" ++
        String.join ((List.range s.enums).map enumText) ++
        String.join ((List.range s.classes).map s.classText) ++ "</module>\n" := rfl
  have hname : escape moduleName = moduleName := by decide +kernel
  refine String.toList_inj.1 ?_
  simp [htext, wrappedElement, canonicalText, attributeText, hname]

lemma adds_memberText (m : Nat) : Adds (memberText m) (memberEvents m) := by
  refine adds_line (by decide) (adds_wrappedElement ?_ ?_) (by decide)
  · exact writable_name (by decide +kernel) (memberName m)
  · exact content_text (isText_toString m)

lemma adds_enumText (index : Nat) : Adds (enumText index) (enumEvents index) := by
  rw [enumText_eq]
  refine adds_line (by decide) (adds_wrappedElement ?_ (Adds.content ?_)) (by decide)
  · exact writable_name (by decide +kernel) (enumName index)
  · refine adds_line (by decide) (adds_join ?_) (by decide)
    exact fun m _ => adds_memberText m

lemma adds_propertyText (s : Shape) (c p : Nat) :
    Adds (s.propertyText c p) [s.propertyEvent c p] := by
  rw [propertyText_eq]
  refine adds_line (by decide) (adds_emptyElement ?_) (by decide)
  exact writable_name_and (by decide +kernel) (by decide +kernel) (by decide) _ _

lemma writable_classAttributes (s : Shape) (c : Nat) : Writable "class" (s.classAttributes c) := by
  rw [Shape.classAttributes]
  cases s.baseIndex? c with
  | none => exact writable_name (by decide +kernel) _
  | some b => exact writable_name_and (by decide +kernel) (by decide +kernel) (by decide) _ _

lemma adds_classText (s : Shape) (c : Nat) : Adds (s.classText c) (s.classEvents c) := by
  have hevents : (List.range s.properties).map (s.propertyEvent c) =
      (List.range s.properties).flatMap fun p => [s.propertyEvent c p] := List.map_eq_flatMap
  rw [classText_eq, Shape.classEvents, hevents]
  refine adds_line (by decide)
    (adds_wrappedElement (writable_classAttributes s c) (Adds.content ?_)) (by decide)
  refine adds_line (by decide) (adds_join ?_) (by decide)
  exact fun p _ => adds_propertyText s c p

/-- The text of the manifest spells its events. -/
lemma spells_manifestText (s : Shape) : Spells s.manifestText s.events := by
  refine .plain ?_ (Adds.content ?_)
  · rw [manifestText_eq]
    simp [wrappedElement]
  · rw [manifestText_eq]
    refine adds_line (by decide) (adds_wrappedElement ?_ (Adds.content ?_)) (by decide)
    · exact writable_name (by decide +kernel) moduleName
    · refine adds_line (by decide) (Adds.append ?_ ?_) (by decide)
      · exact adds_join fun i _ => adds_enumText i
      · exact adds_join fun c _ => adds_classText s c

end Texts

/-- The manifest of a synthetic module of any shape is read as the module. -/
theorem ofText_manifestText (s : Shape) : Manifest.ofText s.manifestText = .ok s.toModule := by
  have hdefinitions : s.tree.definitions = s.toModule.types := congrArg Module.types (module_tree s)
  rw [Manifest.ofText, ofText_of_spells (spells_manifestText s), ← module_tree]
  refine ofDocument_of_writes (writes_events s) ?_ ?_
  · rw [hdefinitions]
    exact nodup_names s
  · rw [hdefinitions]
    exact distinctProperties s

end Typings.Synthetic
