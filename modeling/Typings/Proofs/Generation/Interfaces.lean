import Mathlib.Data.String.Basic
import Typings.Generation.Interfaces
import Typings.Proofs.Generation.Discovery
import Typings.Proofs.Generation.Kinds
import Typings.Proofs.Generation.Termination

/-!
# Interfaces of a manifest

From the text of a manifest to the text of its interfaces: every manifest that is read and passes
the check has them, unless the spelling of a property goes on without end. There is one block for
each class that is neither abstract nor nested, and one for each enumeration that a property of
theirs is of.
-/

namespace Typings

open Typings.Generation

namespace Module

variable {m : Module}

/-- The properties of a type with those that it inherits, under the names they are written with and
in the order of these. -/
def namedProperties (m : Module) (d : TypeDef) : List (String × Property) :=
  ((m.properties d false).map fun p => (lowerFirst p.name, p)).mergeSort fun a b => nameLe a.1 b.1

/-- The named properties are those of the type. -/
lemma exists_mem_namedProperties {d p} :
    (∃ name, (name, p) ∈ m.namedProperties d) ↔ p ∈ m.properties d false := by
  simp [namedProperties, List.mem_mergeSort]

end Module

namespace Generation.Configuration

variable {m : Module} {d : TypeDef}

/-- The configuration that registers the classes of a module and leaves the options as they are. -/
def ofClasses (m : Module) : Configuration :=
  (Configuration.new m).registerModule

/-- The registered types are the classes that are not abstract. -/
lemma registrations_ofClasses (m : Module) :
    (ofClasses m).registrations =
      { types := insertAll
          ((m.types.filter fun d => d.isClass && !d.isAbstract).map TypeDef.ref) [] } := by
  have h := Registrations.foldl_addType {}
    ((m.types.filter fun d => d.isClass && !d.isAbstract).map TypeDef.ref)
  rw [List.foldl_map] at h
  exact h

/-- Nothing is excluded. -/
lemma isExcluded_ofClasses (m : Module) (ref : TypeRef) (name : String) :
    (ofClasses m).registrations.isExcluded ref name = false := by
  rw [registrations_ofClasses]
  rfl

/-- A bare name is declared when it names a type that is not nested. -/
lemma rootDefinition?_ofClasses {name} :
    (ofClasses m).rootDefinition? (.named name) = some d ↔
      m.find? name = some d ∧ d.isNested = false := by
  have hopen : (ofClasses m).rootDefinition? (.named name) =
      (m.find? name).filter fun d =>
        !d.isNested && !(ofClasses m).registrations.isExcluded (.named name) d.name := rfl
  simp only [hopen, Option.filter_eq_some_iff, isExcluded_ofClasses, Bool.not_false, Bool.and_true,
    Bool.not_eq_true']

/-- A class is declared unless it is abstract or nested. -/
lemma mem_roots_ofClasses (distinct : m.names.Nodup) :
    d ∈ (ofClasses m).roots ↔
      d ∈ m.types ∧ d.isClass = true ∧ d.isAbstract = false ∧ d.isNested = false := by
  simp only [mem_roots, registrations_ofClasses, mem_insertAll, List.not_mem_nil, false_or,
    List.mem_map, List.mem_filter, Bool.and_eq_true, Bool.not_eq_true']
  constructor
  · rintro ⟨_, ⟨e, ⟨he, hclass, habstract⟩, rfl⟩, hroot⟩
    obtain ⟨hd, hnested⟩ := rootDefinition?_ofClasses.1 hroot
    obtain rfl : e = d := Option.some.inj ((Module.find?_of_mem distinct he).symm.trans hd)
    exact ⟨he, hclass, habstract, hnested⟩
  · rintro ⟨hd, hclass, habstract, hnested⟩
    exact ⟨d.ref, ⟨d, ⟨hd, hclass, habstract⟩, rfl⟩,
      rootDefinition?_ofClasses.2 ⟨Module.find?_of_mem distinct hd, hnested⟩⟩

/-- The classes come by depth of inheritance and by name, each once. -/
lemma pairwise_roots_ofClasses (distinct : m.names.Nodup) :
    (ofClasses m).roots.Pairwise fun a b =>
      m.inheritanceDepth a.ref < m.inheritanceDepth b.ref ∨
        m.inheritanceDepth a.ref = m.inheritanceDepth b.ref ∧ a.name < b.name := by
  have hnodup : (ofClasses m).roots.Nodup := by
    rw [roots_eq, (List.mergeSort_perm _ _).nodup_iff, registrations_ofClasses]
    refine (nodup_insertAll List.nodup_nil).filterMap fun ref ref' d href href' => ?_
    rw [(eq_ref_of_rootDefinition? href).1, (eq_ref_of_rootDefinition? href').1]
  refine (hnodup.and (ofClasses m).pairwise_roots).imp_of_mem fun {a b} ha hb h => ?_
  rcases rootLe_iff.1 h.2 with hlt | ⟨heq, hle⟩
  · exact .inl hlt
  · refine .inr ⟨heq, lt_of_le_of_ne hle fun hname => h.1 ?_⟩
    exact Module.eq_of_name_eq distinct ((mem_roots_ofClasses distinct).1 ha).1
      ((mem_roots_ofClasses distinct).1 hb).1 hname

/-- The properties of a class are written as they are named. -/
lemma writtenProperties_ofClasses (m : Module) (d : TypeDef) :
    (ofClasses m).writtenProperties d = .ok (m.namedProperties d) := by
  have hvisible : (ofClasses m).visibleProperties d = m.properties d false := by
    refine List.filter_eq_self.2 fun p _ => ?_
    rw [registrations_ofClasses]
    rfl
  rw [writtenProperties_of_plain rfl, hvisible]
  rfl

/-- The lines of a class are its named properties. -/
lemma rootLines_ofClasses (henum : d.isEnum = false) :
    (ofClasses m).rootLines d = .ok (m.namedProperties d) := by
  rw [rootLines, henum]
  exact writtenProperties_ofClasses m d

/-- The questions that spelling the properties of the classes asks come to an end. -/
def PropertiesEnd (m : Module) : Prop :=
  ∀ d ∈ (ofClasses m).roots, ∀ p ∈ m.properties d false,
    Acc (fun part ref => (ofClasses m).AsksFor ref part) p.type

/-- A property has a field when the questions that spelling it asks come to an end. -/
lemma exists_field_ofClasses {named : String × Property}
    (ends : Acc (fun part ref => (ofClasses m).AsksFor ref part) named.2.type) :
    ∃ field, (ofClasses m).field named = .ok field := by
  obtain ⟨script, hscript⟩ := (Context.exists_spell_iff rfl).2 ends
  rw [Context.field, Context.propertyType, hscript, ok_bind]
  split <;> exact ⟨_, rfl⟩

/-- The name of a class, with its parameters if it is generic. -/
def className (d : TypeDef) : String :=
  if d.isGeneric then applied d.name d.params else d.name

/-- A class is declared under its name, without a base, with a field for each of its properties. -/
lemma declare_ofClasses (henum : d.isEnum = false) {fields}
    (hfields : (m.namedProperties d).mapM (ofClasses m).field = .ok fields) :
    (ofClasses m).declare d = .ok ⟨.type ⟨className d, none, fields⟩,
      (ofClasses m).enumsOf ((m.namedProperties d).map (·.2))⟩ := by
  have hname : (ofClasses m).typeName d = .ok (className d) := by
    have hplain : (ofClasses m).prefixedName d = d.name := by
      rw [Context.prefixedName, if_neg]
      cases d.isInterface <;> exact Bool.false_ne_true
    rw [Context.typeName, Context.plainTypeName, hplain]
    rfl
  have htype : (ofClasses m).declareType d = .ok (⟨className d, none, fields⟩,
      (ofClasses m).enumsOf ((m.namedProperties d).map (·.2))) := by
    refine declareType_eq_ok.2 ⟨hname, rfl, ?_⟩
    rw [Configuration.fields, writtenProperties_ofClasses, ok_bind, hfields]
    rfl
  rw [declare, henum, htype]
  rfl

/-- The block of a class: an interface with a line for each of its properties. -/
def ClassBlock (m : Module) (d : TypeDef) (block : String) : Prop :=
  ∃ types : List String,
    List.Forall₂ (fun line type => (ofClasses m).propertyType line.2 = .ok type)
      (m.namedProperties d) types ∧
    block = "export interface " ++ className d ++ "\n\x7b\n" ++
      String.join (List.zipWith (fun line type => "    " ++ line.1 ++ ": " ++ type ++ ";\n")
        (m.namedProperties d) types) ++ "\x7d\n\n"

/-- The block of an enumeration: a line for each of the members to write. -/
def EnumBlock (e : TypeDef) (block : String) : Prop :=
  block = "export enum " ++ e.name ++ "\n\x7b\n" ++
    String.join ((enumMembers e [] e.members).map fun member =>
      "    " ++ member.1 ++ " = " ++ toString member.2 ++ ",\n") ++ "\x7d\n\n"

/-- Fields have the names and types of the properties that they are made of, line by line. -/
lemma types_of_fields {lines : List (String × Property)} {fields : List Field}
    (h : lines.mapM (ofClasses m).field = .ok fields) :
    List.Forall₂ (fun line type => (ofClasses m).propertyType line.2 = .ok type) lines
        (fields.map Field.type) ∧
      fields.map (Field.text .interface) =
        List.zipWith (fun line type => "    " ++ line.1 ++ ": " ++ type ++ ";\n") lines
          (fields.map Field.type) := by
  rw [mapM_eq_ok] at h
  induction h with
  | nil => exact ⟨.nil, rfl⟩
  | @cons line field lines fields hfield _ ih =>
    obtain ⟨type, htype, hfield⟩ := bind_eq_ok.1 hfield
    cases hfield
    exact ⟨.cons htype ih.1, congrArg (List.cons _) ih.2⟩

/-- The text of a declared class is its block. -/
lemma classBlock_of_declare (henum : d.isEnum = false) {root}
    (h : (ofClasses m).declare d = .ok root) :
    ClassBlock m d ((ofClasses m).rootText .interface root) := by
  obtain ⟨lines, hlines, hfields, -⟩ := exists_rootLines_of_declare h
  cases hlines.symm.trans (rootLines_ofClasses henum)
  generalize root.declaration.fields = fields at hfields
  cases h.symm.trans (declare_ofClasses henum hfields)
  obtain ⟨htypes, htexts⟩ := types_of_fields hfields
  refine ⟨_, htypes, ?_⟩
  rw [← htexts, rootText, Declaration.text, TypeDeclaration.text_interface, ← String.toList_inj]
  simp [extendsText]

/-- The text of an enumeration is its block. -/
lemma enumBlock_declareEnum (m : Module) (e : TypeDef) :
    EnumBlock e (((ofClasses m).declareEnum e).text (ofClasses m).options.enumStyle ++ "\n") := by
  have hlines : EnumDeclaration.memberText (ofClasses m).options.enumStyle =
      fun member => "    " ++ member.1 ++ " = " ++ toString member.2 ++ ",\n" := rfl
  rw [EnumBlock, EnumDeclaration.text, hlines, ← String.toList_inj]
  simp [Context.declareEnum, Context.enumName]

/-- The enumerations that lines are of, each where it is met first. -/
def metEnums (m : Module) (lines : List (String × Property)) : List TypeRef :=
  (lines.filterMap fun line => (m.enumDefinition? line.2.type).map TypeDef.ref).eraseDups

/-- An enumeration is met in the lines of its bare name and of the nullable form of that. -/
lemma ref_mem_metEnums (distinct : m.names.Nodup) {lines ref} :
    ref ∈ metEnums m lines ↔ ∃ e ∈ m.types, e.isEnum = true ∧ ref = e.ref ∧
      ∃ line ∈ lines, line.2.type = e.ref ∨ line.2.type = .nullable e.ref := by
  simp only [metEnums, List.mem_eraseDups, List.mem_filterMap, Option.map_eq_some_iff,
    Module.enumDefinition?_eq_some]
  constructor
  · rintro ⟨line, hline, e, ⟨htype, hfind, henum⟩, rfl⟩
    exact ⟨e, Module.mem_of_find? hfind, henum, rfl, line, hline, htype⟩
  · rintro ⟨e, he, henum, rfl, line, hline, htype⟩
    exact ⟨line, hline, e, ⟨htype, Module.find?_of_mem distinct he, henum⟩, rfl⟩

/-- The enumerations known once the classes are declared are those met in their lines. -/
lemma knownEnums_ofClasses (classes : ∀ d ∈ (ofClasses m).roots, d.isEnum = false) {roots}
    (hroots : (ofClasses m).roots.mapM (ofClasses m).declare = .ok roots) :
    (ofClasses m).knownEnums roots =
      metEnums m ((ofClasses m).roots.flatMap m.namedProperties) := by
  obtain ⟨lines, hlines, -, henums⟩ := exists_lines_of_declare hroots
  have hrun : (ofClasses m).roots.mapM (ofClasses m).rootLines =
      .ok ((ofClasses m).roots.map m.namedProperties) := by
    rw [mapM_congr fun d hd => rootLines_ofClasses (classes d hd)]
    exact List.mapM_pure
  rw [hrun] at hlines
  cases hlines
  have hnone : (ofClasses m).registrations.enums = [] := by
    rw [registrations_ofClasses]
  rw [knownEnums, henums, hnone, insertAll_nil, enumsOfLines_eq]
  rfl

/-- The enumerations that are declared behind the classes are those met in their lines. -/
lemma map_ref_shownEnums_knowing (distinct : m.names.Nodup) (lines : List (String × Property)) :
    ((ofClasses m).knowing (metEnums m lines)).shownEnums.map TypeDef.ref = metEnums m lines := by
  rw [shownEnums, List.map_filterMap]
  refine (List.filterMap_congr fun ref href => ?_).trans List.filterMap_some
  obtain ⟨e, he, henum, rfl, -⟩ := (ref_mem_metEnums distinct).1 href
  have hshown : ((ofClasses m).knowing (metEnums m lines)).shownEnum? e.ref = some e :=
    shownEnum?_eq_some.2
      ⟨Module.definition?_ref distinct he, henum, isExcluded_ofClasses m e.ref e.name⟩
  rw [hshown]
  rfl

/-- An enumeration is declared behind the classes when a property of one of them is of it, or admits
it besides `null`. -/
lemma mem_shownEnums_knowing (distinct : m.names.Nodup) {classes : List TypeDef} {e} :
    e ∈ ((ofClasses m).knowing (metEnums m (classes.flatMap m.namedProperties))).shownEnums ↔
      e ∈ m.types ∧ e.isEnum = true ∧
        ∃ d ∈ classes, ∃ p ∈ m.properties d false, p.type = e.ref ∨ p.type = .nullable e.ref := by
  have hlines : (∃ line ∈ classes.flatMap m.namedProperties,
        line.2.type = e.ref ∨ line.2.type = .nullable e.ref) ↔
      ∃ d ∈ classes, ∃ p ∈ m.properties d false, p.type = e.ref ∨ p.type = .nullable e.ref := by
    simp only [List.mem_flatMap, Prod.exists]
    constructor
    · rintro ⟨name, p, ⟨d, hd, hp⟩, htype⟩
      exact ⟨d, hd, p, Module.exists_mem_namedProperties.1 ⟨name, hp⟩, htype⟩
    · rintro ⟨d, hd, p, hp, htype⟩
      obtain ⟨name, hp⟩ := Module.exists_mem_namedProperties.2 hp
      exact ⟨name, p, ⟨d, hd, hp⟩, htype⟩
  have hrefs := map_ref_shownEnums_knowing distinct (classes.flatMap m.namedProperties)
  constructor
  · intro he
    obtain ⟨ref, _, hshown⟩ := List.mem_filterMap.1 he
    have hmem := List.mem_map_of_mem (f := TypeDef.ref) he
    rw [hrefs] at hmem
    obtain ⟨e', he', henum, heq, hline⟩ := (ref_mem_metEnums distinct).1 hmem
    have htypes := Module.mem_of_definition? (shownEnum?_eq_some.1 hshown).1
    obtain rfl := Module.eq_of_name_eq distinct htypes he' (TypeRef.named.inj heq)
    exact ⟨he', henum, hlines.1 hline⟩
  · rintro ⟨he, henum, hline⟩
    have hmem : e.ref ∈ metEnums m (classes.flatMap m.namedProperties) :=
      (ref_mem_metEnums distinct).2 ⟨e, he, henum, rfl, hlines.2 hline⟩
    exact List.mem_filterMap.2 ⟨e.ref, hmem, shownEnum?_eq_some.2
      ⟨Module.definition?_ref distinct he, henum, isExcluded_ofClasses m e.ref e.name⟩⟩

/-- What the interfaces of a module are made of. -/
structure InterfacesText (m : Module) (classes enums : List TypeDef) (out : String) : Prop where
  /-- The classes are those of the module that are neither abstract nor nested. -/
  mem_classes : ∀ d, d ∈ classes ↔
    d ∈ m.types ∧ d.isClass = true ∧ d.isAbstract = false ∧ d.declaring = none
  /-- They come by depth of inheritance and by name, each once. -/
  sorted : classes.Pairwise fun a b =>
    m.inheritanceDepth a.ref < m.inheritanceDepth b.ref ∨
      m.inheritanceDepth a.ref = m.inheritanceDepth b.ref ∧ a.name < b.name
  /-- The enumerations are those that a property of one of the classes is of, or admits besides
  `null`. -/
  mem_enums : ∀ e, e ∈ enums ↔
    e ∈ m.types ∧ e.isEnum = true ∧
      ∃ d ∈ classes, ∃ p ∈ m.properties d false, p.type = e.ref ∨ p.type = .nullable e.ref
  nodup_enums : enums.Nodup
  /-- They come as their properties are written, class by class. -/
  enums_order : enums.map TypeDef.ref =
    ((classes.flatMap m.namedProperties).filterMap fun line =>
      (m.enumDefinition? line.2.type).map TypeDef.ref).eraseDups
  /-- There is one block for each of them and nothing else. -/
  text : ∃ classBlocks enumBlocks : List String,
    List.Forall₂ (ClassBlock m) classes classBlocks ∧
      List.Forall₂ EnumBlock enums enumBlocks ∧
      out = String.join classBlocks ++ String.join enumBlocks

/-- The interfaces of a well-formed module are generated when the properties of its classes end. -/
lemma exists_generate_ofClasses (distinct : m.names.Nodup) (ends : PropertiesEnd m) :
    ∃ out c' classes enums, (ofClasses m).generate .interface = .ok (out, c') ∧
      InterfacesText m classes enums out := by
  have hclasses {d} : d ∈ (ofClasses m).roots ↔
      d ∈ m.types ∧ d.isClass = true ∧ d.isAbstract = false ∧ d.declaring = none := by
    rw [mem_roots_ofClasses distinct, TypeDef.isNested, Option.isSome_eq_false_iff,
      Option.isNone_iff_eq_none]
  have hnotEnum : ∀ d ∈ (ofClasses m).roots, d.isEnum = false := by
    intro d hd
    have hclass : d.kind = .classType := eq_of_beq (hclasses.1 hd).2.1
    rw [TypeDef.isEnum, hclass]
    rfl
  obtain ⟨roots, hroots⟩ : ∃ roots, (ofClasses m).roots.mapM (ofClasses m).declare = .ok roots := by
    refine exists_mapM_eq_ok fun d hd => ?_
    obtain ⟨fields, hfields⟩ := exists_mapM_eq_ok fun line (hline : line ∈ m.namedProperties d) =>
      have hproperty := Module.exists_mem_namedProperties.1 ⟨line.1, hline⟩
      exists_field_ofClasses (ends d hd line.2 hproperty)
    exact ⟨_, declare_ofClasses (hnotEnum d hd) hfields⟩
  have himports : (ofClasses m).importList = .ok [] := by
    rw [importList, registrations_ofClasses]
    rfl
  have henums := knownEnums_ofClasses hnotEnum hroots
  have hrefs := map_ref_shownEnums_knowing distinct ((ofClasses m).roots.flatMap m.namedProperties)
  refine ⟨_, _, (ofClasses m).roots,
    ((ofClasses m).knowing (metEnums m ((ofClasses m).roots.flatMap m.namedProperties))).shownEnums,
    generate_of_declare .interface himports hroots, ?_⟩
  constructor
  · exact fun d => hclasses
  · exact pairwise_roots_ofClasses distinct
  · exact fun e => mem_shownEnums_knowing distinct
  · refine List.Nodup.of_map TypeDef.ref ?_
    rw [hrefs, metEnums, ← insertAll_nil]
    exact nodup_insertAll List.nodup_nil
  · exact hrefs
  · refine ⟨roots.map ((ofClasses m).rootText .interface), _, ?_, ?_, rfl⟩
    · rw [List.forall₂_map_right_iff]
      have hdeclared := (List.forall₂_and_left _ _).2 ⟨hnotEnum, mapM_eq_ok.1 hroots⟩
      exact hdeclared.imp fun d root h => classBlock_of_declare h.1 h.2
    · rw [henums, List.forall₂_map_right_iff, List.forall₂_same]
      exact fun e _ => enumBlock_declareEnum m e

/-- From a manifest to its interfaces. When the questions that spelling its properties asks come to
an end, its interfaces are generated exactly when it is read and passes the check. They are one
block for each class that is neither abstract nor nested, by depth of inheritance and name, and
behind them one block for each enumeration that a property of these classes is of, as the properties
are written. -/
theorem interfacesOfText_eq_ok_iff (text : String)
    (ends : ∀ m, Manifest.ofText text = .ok m → PropertiesEnd m) :
    ((∃ out, interfacesOfText text = .ok out) ↔
      ∃ m, Manifest.ofText text = .ok m ∧ m.check = .ok ()) ∧
    ∀ out, interfacesOfText text = .ok out →
      ∃ m classes enums, Manifest.ofText text = .ok m ∧ m.check = .ok () ∧
        InterfacesText m classes enums out := by
  have generated {m} (hread : Manifest.ofText text = .ok m) (hcheck : m.check = .ok ()) :
      ∃ out classes enums,
        interfacesOfText text = .ok out ∧ InterfacesText m classes enums out := by
    obtain ⟨out, c', classes, enums, hgenerate, hout⟩ :=
      exists_generate_ofClasses (Module.wellFormed_of_check hcheck).distinct (ends m hread)
    refine ⟨out, classes, enums, ?_, hout⟩
    rw [ofClasses] at hgenerate
    rw [interfacesOfText, hread]
    dsimp only
    rw [hcheck, hgenerate]
    rfl
  have read {out} (h : interfacesOfText text = .ok out) :
      ∃ m, Manifest.ofText text = .ok m ∧ m.check = .ok () := by
    rw [interfacesOfText] at h
    cases hread : Manifest.ofText text with
    | error e =>
      rw [hread] at h
      cases h
    | ok m =>
      rw [hread] at h
      dsimp only at h
      cases hcheck : m.check with
      | error e =>
        rw [hcheck] at h
        cases h
      | ok _ => exact ⟨m, rfl, hcheck⟩
  constructor
  · constructor
    · rintro ⟨out, h⟩
      exact read h
    · rintro ⟨m, hread, hcheck⟩
      obtain ⟨out, _, _, hout, _⟩ := generated hread hcheck
      exact ⟨out, hout⟩
  · intro out h
    obtain ⟨m, hread, hcheck⟩ := read h
    obtain ⟨out', classes, enums, hout, hmade⟩ := generated hread hcheck
    cases h.symm.trans hout
    exact ⟨m, classes, enums, hread, hcheck, hmade⟩

/-- A manifest of an abstract class, a class below it with a property of an enumeration, a class
that is a list, and an enumeration that nothing refers to. -/
def canvasMarks : List Markup.Mark :=
  [.opened "module" [("name", "Canvas")],
    .opened "enum" [("name", "Mood")], .empty "value" [("name", "Calm")], .closed,
    .opened "enum" [("name", "Color")], .empty "value" [("name", "Red")], .closed,
    .opened "class" [("name", "Shape"), ("abstract", "true")],
    .empty "property" [("name", "Fill"), ("type", "Color?")], .closed,
    .opened "class" [("name", "Circle"), ("base", "Shape")],
    .empty "property" [("name", "Radius"), ("type", "int")], .closed,
    .empty "class" [("name", "Circles"), ("base", "List<Circle>")], .closed]

/-- The module of the manifest. -/
def canvas : Module :=
  { name := "Canvas"
    types := [
      { name := "Mood", kind := .enumType, members := [⟨"Calm", 0, none⟩] },
      { name := "Color", kind := .enumType, members := [⟨"Red", 0, none⟩] },
      { name := "Shape", kind := .classType, isAbstract := true
        properties := [⟨"Fill", .nullable (.named "Color"), true, none⟩] },
      { name := "Circle", kind := .classType, base := some (.named "Shape")
        properties := [⟨"Radius", .builtin .int32, false, none⟩] },
      { name := "Circles", kind := .classType
        base := some (.generic "List" [.named "Circle"]) }] }

lemma ofText_canvasMarks :
    Manifest.ofText (.ofList (Markup.written [] canvasMarks)) = .ok canvas := by
  have hnests : Markup.Nests [] canvasMarks := by decide +kernel
  calc Manifest.ofText (.ofList (Markup.written [] canvasMarks))
      = Manifest.ofDocument ⟨canvasMarks.map Markup.Mark.event, none⟩ :=
        congrArg Manifest.ofDocument (Markup.ofText_written hnests)
    _ = .ok canvas := by decide +kernel

/-- The circles lead to nothing, since a circle is not iterable. -/
lemma propertiesEnd_canvas : PropertiesEnd canvas := by
  have straight : canvas.Straight := Module.straight_of_mentions (fun _ => 0) (by decide +kernel)
  exact fun _ _ p _ => Context.acc_of_straight straight p.type

/-- The circle and the circles have interfaces, and the color of the circle is declared behind them.
-/
theorem interfacesOfText_eq_ok_iff_of_canvas :
    (∀ m, Manifest.ofText (.ofList (Markup.written [] canvasMarks)) = .ok m → PropertiesEnd m) ∧
      canvas.check = .ok () ∧
      ∃ out classes enums,
        interfacesOfText (.ofList (Markup.written [] canvasMarks)) = .ok out ∧
          InterfacesText canvas classes enums out := by
  have ends : ∀ m, Manifest.ofText (.ofList (Markup.written [] canvasMarks)) = .ok m →
      PropertiesEnd m := by
    intro m h
    cases ofText_canvasMarks.symm.trans h
    exact propertiesEnd_canvas
  have check : canvas.check = .ok () := by decide +kernel
  obtain ⟨hiff, htext⟩ := interfacesOfText_eq_ok_iff _ ends
  obtain ⟨out, hout⟩ := hiff.2 ⟨canvas, ofText_canvasMarks, check⟩
  obtain ⟨m, classes, enums, hread, -, hmade⟩ := htext out hout
  cases ofText_canvasMarks.symm.trans hread
  exact ⟨ends, check, out, classes, enums, hout, hmade⟩

end Generation.Configuration

end Typings
