import Typings.Generation.Emission
import Typings.Proofs.Outcome

/-!
# What is written

A script that is written root by root and line by line is the text of the script that is composed as
a value. Each part of it is written as the text of its value, and the enumerations that it is of are
added to those known before.
-/

namespace Typings.Generation

/-- What is added in two parts is added one part after the other. -/
lemma insertAll_append {α : Type} [BEq α] (as bs known : List α) :
    insertAll (as ++ bs) known = insertAll bs (insertAll as known) :=
  List.foldl_append

/-- What a first line says of a base. -/
def extendsText : Option String → String
  | some base => " extends " ++ base
  | none => ""

/-- The constructor of a class. -/
def constructionText (name : String) (base : Option String) : String :=
  "    constructor(init?: Partial<" ++ name ++ ">) \x7b\n" ++
    (if base.isSome then "        super();\n" else "") ++
    "        Object.assign(this, init);\n" ++ "    \x7d\n"

/-- The text of an interface in its parts. -/
lemma TypeDeclaration.text_interface (d : TypeDeclaration) :
    d.text .interface =
      "export interface " ++ d.name ++ extendsText d.base ++ "\n" ++ "\x7b\n" ++
        String.join (d.fields.map (Field.text .interface)) ++ "\x7d\n" := by
  rw [text, headerText, String.append_empty]
  rfl

/-- The text of a class in its parts. -/
lemma TypeDeclaration.text_classKind (d : TypeDeclaration) :
    d.text .classKind =
      "export class " ++ d.name ++ extendsText d.base ++ "\n" ++ "\x7b\n" ++
        constructionText d.name d.base ++ String.join (d.fields.map (Field.text .classKind)) ++
        "\x7d\n" := by
  rw [text, headerText]
  rfl

namespace Emission

variable {α β : Type}

/-- What is asked for beside the writing meets no enumeration. -/
lemma runFrom_lift (x : Except Error α) (known : List TypeRef) :
    (liftM x : Emission α).runFrom known = (x, known) :=
  rfl

/-- A sequence goes on with the enumerations that its first part has met. -/
lemma runFrom_bind (x : Emission α) (f : α → Emission β) (known : List TypeRef) :
    (x >>= f).runFrom known =
      match x.runFrom known with
      | (.ok a, met) => (f a).runFrom met
      | (.error e, met) => (.error e, met) := by
  cases h : x.runFrom known with
  | mk outcome met =>
    have hrun : (ExceptT.run x).run known = (outcome, met) := h
    rw [runFrom, ExceptT.run_bind, StateT.run_bind, hrun]
    cases outcome <;> rfl

/-- What is written and the enumerations known then, when the writing succeeds. -/
def outcome (x : Emission α) (known : List TypeRef) : Except Error (α × List TypeRef) :=
  match x.runFrom known with
  | (.ok a, met) => .ok (a, met)
  | (.error e, _) => .error e

/-- A sequence succeeds when its parts do, the second one from what the first has met. -/
lemma outcome_bind (x : Emission α) (f : α → Emission β) (known : List TypeRef) :
    (x >>= f).outcome known = x.outcome known >>= fun found => (f found.1).outcome found.2 := by
  rw [outcome, outcome, runFrom_bind]
  rcases x.runFrom known with ⟨_ | a, met⟩ <;> rfl

/-- What is asked for beside the writing comes first, and the writing goes on from there. -/
lemma outcome_lift_bind (x : Except Error α) (f : α → Emission β) (known : List TypeRef) :
    (liftM x >>= f).outcome known = x >>= fun a => (f a).outcome known := by
  cases x <;> rfl

end Emission

namespace Configuration

open Emission

variable {c : Configuration} {kind : DeclarationKind}

/-- The enumeration that a property is of is added to those known. -/
lemma outcome_discover (p : Property) (known : List TypeRef) :
    (c.discover p).outcome known = .ok ((), insertAll (c.enumsOf [p]) known) := by
  rw [discover, Context.enumsOf]
  cases c.options.includeEnums with
  | false => rfl
  | true =>
    rw [if_pos rfl, List.filterMap_cons]
    cases c.model.enumDefinition? p.type <;> rfl

/-- A property is written as the line of its field. -/
lemma outcome_emitProperty (named : String × Property) (known : List TypeRef) :
    (c.emitProperty kind named).outcome known =
      (c.field named).map fun f => (f.text kind, insertAll (c.enumsOf [named.2]) known) := by
  rw [emitProperty, outcome_bind, outcome_discover, ok_bind, outcome_lift_bind, Context.field]
  cases c.propertyType named.2 with
  | error e => rfl
  | ok type => cases kind <;> rfl

/-- The enumerations of properties are those of the first and those of the others. -/
lemma enumsOf_cons (p : Property) (ps : List Property) :
    c.enumsOf (p :: ps) = c.enumsOf [p] ++ c.enumsOf ps := by
  rw [Context.enumsOf, Context.enumsOf, Context.enumsOf]
  split
  case isTrue => rw [← List.filterMap_append, List.singleton_append]
  case isFalse => rfl

/-- Properties are written as the lines of their fields. -/
lemma outcome_mapM_emitProperty (named : List (String × Property)) (known : List TypeRef) :
    (named.mapM (c.emitProperty kind)).outcome known =
      (named.mapM c.field).map fun fields =>
        (fields.map (Field.text kind), insertAll (c.enumsOf (named.map (·.2))) known) := by
  induction named generalizing known with
  | nil =>
    rw [List.map_nil, Context.enumsOf, List.filterMap_nil, ite_self]
    rfl
  | cons p rest ih =>
    have hmet : insertAll (c.enumsOf ((p :: rest).map (·.2))) known =
        insertAll (c.enumsOf (rest.map (·.2))) (insertAll (c.enumsOf [p.2]) known) := by
      rw [List.map_cons, enumsOf_cons, insertAll_append]
    rw [List.mapM_cons, List.mapM_cons, outcome_bind, outcome_emitProperty, hmet]
    cases c.field p with
    | error e => rfl
    | ok f =>
      rw [Except.map, ok_bind, ok_bind, outcome_bind, ih]
      cases rest.mapM c.field <;> rfl

/-- The properties of a type are written as the lines of its fields. -/
lemma outcome_emitProperties (d : TypeDef) (known : List TypeRef) :
    (c.emitProperties kind d).outcome known =
      (c.fields d).map fun found =>
        (String.join (found.1.map (Field.text kind)), insertAll found.2 known) := by
  rw [emitProperties, fields, outcome_lift_bind]
  cases c.writtenProperties d with
  | error e => rfl
  | ok named =>
    rw [ok_bind, ok_bind, outcome_bind, outcome_mapM_emitProperty]
    cases named.mapM c.field <;> rfl

/-- A class or interface is declared in three parts: its name, its base if bases are kept, and its
fields. -/
lemma declareType_eq (c : Configuration) (d : TypeDef) :
    c.declareType d = (do
      let name ← c.typeName d
      let base ← (if c.options.preserveInheritance then c.baseName d else .ok none)
      let found ← c.fields d
      .ok (⟨name, base, found.1⟩, found.2)) := by
  rw [declareType]
  congr 1
  funext name
  dsimp only
  split <;> rfl

/-- An interface is written in three parts: its name, its base and its lines. -/
lemma emitInterface_eq (c : Configuration) (d : TypeDef) :
    c.emitInterface d = (do
      let name ← c.typeName d
      let base ← (if c.options.preserveInheritance then c.baseName d else .ok none : Except _ _)
      let lines ← c.emitProperties .interface d
      return "export interface " ++ name ++ extendsText base ++ "\n" ++ "\x7b\n" ++ lines ++
        "\x7d\n") := by
  rw [emitInterface]
  congr 1
  funext name
  dsimp only
  split
  case isTrue =>
    congr 1
    funext base
    cases base <;> rfl
  case isFalse => rfl

/-- A class is written in three parts: its name, its base and its lines. -/
lemma emitClass_eq (c : Configuration) (d : TypeDef) :
    c.emitClass d = (do
      let name ← c.typeName d
      let base ← (if c.options.preserveInheritance then c.baseName d else .ok none : Except _ _)
      let lines ← c.emitProperties .classKind d
      return "export class " ++ name ++ extendsText base ++ "\n" ++ "\x7b\n" ++
        constructionText name base ++ lines ++ "\x7d\n") := by
  rw [emitClass]
  congr 1
  funext name
  dsimp only
  split <;> rfl

/-- A type is written as the text of its declaration when its three parts are put together as that
text is. -/
lemma outcome_parts (d : TypeDef) {text : String → Option String → String → String}
    (htext : ∀ declaration : TypeDeclaration, declaration.text kind =
      text declaration.name declaration.base
        (String.join (declaration.fields.map (Field.text kind)))) (known : List TypeRef) :
    Emission.outcome (do
      let name ← c.typeName d
      let base ← (if c.options.preserveInheritance then c.baseName d else .ok none : Except _ _)
      let lines ← c.emitProperties kind d
      return text name base lines) known =
      (c.declareType d).map fun found => (found.1.text kind, insertAll found.2 known) := by
  rw [declareType_eq, outcome_lift_bind]
  cases c.typeName d with
  | error e => rfl
  | ok name =>
    rw [ok_bind, ok_bind, outcome_lift_bind]
    cases if c.options.preserveInheritance then c.baseName d else .ok none with
    | error e => rfl
    | ok base =>
      rw [ok_bind, ok_bind, outcome_bind, outcome_emitProperties]
      cases c.fields d with
      | error e => rfl
      | ok found =>
        rw [ok_bind, Except.map, Except.map, htext]
        rfl

/-- An interface is written as the text of its declaration. -/
lemma outcome_emitInterface (d : TypeDef) (known : List TypeRef) :
    (c.emitInterface d).outcome known =
      (c.declareType d).map fun found => (found.1.text .interface, insertAll found.2 known) := by
  rw [emitInterface_eq]
  exact outcome_parts d TypeDeclaration.text_interface known

/-- A class is written as the text of its declaration. -/
lemma outcome_emitClass (d : TypeDef) (known : List TypeRef) :
    (c.emitClass d).outcome known =
      (c.declareType d).map fun found => (found.1.text .classKind, insertAll found.2 known) := by
  rw [emitClass_eq]
  exact outcome_parts d TypeDeclaration.text_classKind known

/-- A root is written as the text of its declaration. -/
lemma outcome_emitRoot (d : TypeDef) (known : List TypeRef) :
    (c.emitRoot kind d).outcome known =
      (c.declare d).map fun root =>
        (root.declaration.text kind c.options.enumStyle ++ "\n", insertAll root.enums known) := by
  rw [emitRoot.eq_def, declare]
  split
  case isTrue => rfl
  case isFalse =>
    cases kind with
    | interface =>
      rw [outcome_bind, outcome_emitInterface]
      cases c.declareType d <;> rfl
    | classKind =>
      rw [outcome_bind, outcome_emitClass]
      cases c.declareType d <;> rfl

/-- Roots are written as the texts of their declarations. -/
lemma outcome_mapM_emitRoot (ds : List TypeDef) (known : List TypeRef) :
    (ds.mapM (c.emitRoot kind)).outcome known =
      (ds.mapM c.declare).map fun roots =>
        (roots.map fun root => root.declaration.text kind c.options.enumStyle ++ "\n",
          insertAll (roots.flatMap (·.enums)) known) := by
  induction ds generalizing known with
  | nil => rfl
  | cons d rest ih =>
    rw [List.mapM_cons, List.mapM_cons, outcome_bind, outcome_emitRoot]
    cases c.declare d with
    | error e => rfl
    | ok root =>
      rw [Except.map, ok_bind, ok_bind, outcome_bind, ih]
      cases rest.mapM c.declare with
      | error e => rfl
      | ok roots =>
        change Except.ok (_, insertAll _ (insertAll _ _)) = Except.ok (_, insertAll (_ ++ _) _)
        rw [insertAll_append]
        rfl

/-- Everything is written as the text of the script that is composed from what is known. -/
lemma outcome_emit (known : List TypeRef) :
    (c.emit kind).outcome known = (do
      let imports ← c.importList
      let roots ← c.roots.mapM c.declare
      let enums := insertAll (roots.flatMap (·.enums)) known
      .ok (Script.text kind c.options.enumStyle
        ⟨imports, roots.map (·.declaration), enums.filterMap c.enumDeclaration?⟩, enums)) := by
  rw [emit, outcome_lift_bind]
  cases c.importList with
  | error e => rfl
  | ok imports =>
    rw [ok_bind, ok_bind, outcome_bind, outcome_mapM_emitRoot]
    cases c.roots.mapM c.declare with
    | error e => rfl
    | ok roots =>
      dsimp only [ok_bind]
      rw [Script.text, List.map_map]
      rfl

/-- What is generated is the text of the composed script, and the enumerations met in it are known
to the configuration then. -/
theorem generate_eq_script (c : Configuration) (kind : DeclarationKind) :
    c.generate kind = (do
      let (script, enums) ← c.script
      .ok (script.text kind c.options.enumStyle,
        { c with registrations := { c.registrations with enums } })) := by
  have houtcome : c.generate kind = (do
      let (text, enums) ← (c.emit kind).outcome c.registrations.enums
      .ok (text, { c with registrations := { c.registrations with enums } })) := by
    rw [generate, outcome]
    rcases (c.emit kind).runFrom c.registrations.enums with ⟨_ | text, met⟩ <;> rfl
  rw [houtcome, outcome_emit, script]
  cases c.importList with
  | error e => rfl
  | ok imports =>
    rw [ok_bind, ok_bind]
    cases c.roots.mapM c.declare <;> rfl

end Configuration

end Typings.Generation
