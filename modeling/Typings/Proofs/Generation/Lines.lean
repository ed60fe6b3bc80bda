import Typings.Proofs.Generation.Keys
import Typings.Proofs.Generation.Roots

/-!
# Written lines

A script writes the properties of the classes and interfaces among its roots, root by root, those of
one root in their order. The fields of its declarations are made of these lines one by one, and the
enumerations that become known are the ones that they are of.
-/

namespace Typings.Generation

/-- The fields of a declaration. An enumeration has none. -/
def Declaration.fields : Declaration → List Field
  | .type d => d.fields
  | .enumeration _ => []

namespace Configuration

variable {c : Configuration}

/-- The properties of a type that are not excluded, under the names that they are written
with, in the order of reflection. -/
def reflected (c : Configuration) (d : TypeDef) : Except Error (List (String × Property)) :=
  (c.visibleProperties d).mapM fun p => (c.propertyName p.name).map (·, p)

/-- Properties are named first, and then they are sorted if they are to be. -/
lemma writtenProperties_eq (c : Configuration) (d : TypeDef) :
    c.writtenProperties d = (c.reflected d).map fun named =>
      if c.options.orderByName then named.mergeSort fun a b => nameLe a.1 b.1 else named := by
  have hnamed : (fun p : Property => (do .ok (← c.propertyName p.name, p) : Except Error _)) =
      fun p => (c.propertyName p.name).map (·, p) := by
    funext p
    cases c.propertyName p.name <;> rfl
  rw [writtenProperties, hnamed, reflected]
  cases (c.visibleProperties d).mapM fun p => (c.propertyName p.name).map (·, p) with
  | error e => rfl
  | ok named =>
    rw [ok_bind]
    split <;> rfl

/-- Without a transform every property is written, under its name with the first character in lower
case. -/
lemma writtenProperties_of_plain (plain : c.propertyTransform = none) (d : TypeDef) :
    c.writtenProperties d =
      let named := (c.visibleProperties d).map fun p => (lowerFirst p.name, p)
      .ok (if c.options.orderByName then named.mergeSort fun a b => nameLe a.1 b.1 else named) := by
  have hname (p : Property) : (c.propertyName p.name).map (·, p) = pure (lowerFirst p.name, p) := by
    rw [Context.propertyName, plain]
    rfl
  rw [writtenProperties_eq, reflected]
  simp only [hname, List.mapM_pure]
  rfl

/-- The properties that a root is written with, under their names. -/
def rootLines (c : Configuration) (d : TypeDef) : Except Error (List (String × Property)) :=
  if d.isEnum then .ok [] else c.writtenProperties d

/-- The properties that are written, under their names, in the order of their lines. -/
def lines (c : Configuration) : Except Error (List (String × Property)) :=
  (c.roots.mapM c.rootLines).map List.flatten

/-- The enumerations that lines are of, in order. -/
def enumsOfLines (c : Configuration) (lines : List (String × Property)) : List TypeRef :=
  c.enumsOf (lines.map (·.2))

/-- The enumerations that lines are of are found one by one, when they are asked for. -/
lemma enumsOfLines_eq (c : Configuration) (lines : List (String × Property)) :
    c.enumsOfLines lines =
      if c.options.includeEnums then
        lines.filterMap fun line => (c.model.enumDefinition? line.2.type).map TypeDef.ref
      else [] := by
  rw [enumsOfLines, Context.enumsOf, List.filterMap_map]
  rfl

/-- Fewer lines are of fewer enumerations, in the same order. -/
lemma sublist_enumsOfLines {lines lines' : List (String × Property)} (h : lines'.Sublist lines) :
    (c.enumsOfLines lines').Sublist (c.enumsOfLines lines) := by
  rw [enumsOfLines_eq, enumsOfLines_eq]
  split
  case isTrue => exact h.filterMap _
  case isFalse => exact .refl _

/-- The same lines in another order are of the same enumerations in another order. -/
lemma enumsOfLines_perm {lines lines' : List (String × Property)} (h : lines.Perm lines') :
    (c.enumsOfLines lines).Perm (c.enumsOfLines lines') := by
  rw [enumsOfLines_eq, enumsOfLines_eq]
  split
  case isTrue => exact h.filterMap _
  case isFalse => exact .refl _

/-- A class or interface is declared when all three of its parts are found. -/
lemma declareType_eq_ok {d declaration enums} :
    c.declareType d = .ok (declaration, enums) ↔
      c.typeName d = .ok declaration.name ∧
        (if c.options.preserveInheritance then c.baseName d else .ok none) = .ok declaration.base ∧
        c.fields d = .ok (declaration.fields, enums) := by
  rw [declareType_eq, bind_eq_ok]
  simp only [bind_eq_ok]
  constructor
  · rintro ⟨name, hname, base, hbase, ⟨fields, enums⟩, hfields, h⟩
    cases h
    exact ⟨hname, hbase, hfields⟩
  · rintro ⟨hname, hbase, hfields⟩
    exact ⟨_, hname, _, hbase, _, hfields, rfl⟩

/-- A root is declared with the fields and the enumerations of its lines. -/
lemma exists_rootLines_of_declare {d root} (h : c.declare d = .ok root) :
    ∃ lines, c.rootLines d = .ok lines ∧ lines.mapM c.field = .ok root.declaration.fields ∧
      root.enums = c.enumsOfLines lines := by
  rw [declare] at h
  split at h
  case isTrue henum =>
    cases h
    refine ⟨[], if_pos henum, rfl, ?_⟩
    rw [enumsOfLines_eq, List.filterMap_nil, ite_self]
  case isFalse henum =>
    obtain ⟨⟨declaration, enums⟩, htype, h⟩ := bind_eq_ok.1 h
    cases h
    obtain ⟨lines, hlines, hfields⟩ := bind_eq_ok.1 (declareType_eq_ok.1 htype).2.2
    obtain ⟨made, hmade, hfields⟩ := bind_eq_ok.1 hfields
    cases hfields
    exact ⟨lines, (if_neg henum).trans hlines, hmade, rfl⟩

/-- Roots are declared with the fields and the enumerations of their lines. -/
lemma exists_lines_of_declare {ds : List TypeDef} {roots} (h : ds.mapM c.declare = .ok roots) :
    ∃ lines, (ds.mapM c.rootLines).map List.flatten = .ok lines ∧
      lines.mapM c.field = .ok (roots.flatMap (·.declaration.fields)) ∧
      roots.flatMap (·.enums) = c.enumsOfLines lines := by
  rw [mapM_eq_ok] at h
  induction h with
  | nil =>
    refine ⟨[], rfl, rfl, ?_⟩
    rw [enumsOfLines_eq, List.filterMap_nil, ite_self]
    rfl
  | @cons d root ds roots hroot _ ih =>
    obtain ⟨first, hfirst, hfields, henums⟩ := exists_rootLines_of_declare hroot
    obtain ⟨rest, hrest, hfields', henums'⟩ := ih
    obtain ⟨lists, hlists, rfl⟩ := map_eq_ok.1 hrest
    refine ⟨first ++ lists.flatten, map_eq_ok.2 ⟨first :: lists, ?_, rfl⟩, ?_, ?_⟩
    · rw [List.mapM_cons, hfirst, ok_bind, hlists, ok_bind]
      rfl
    · rw [List.mapM_append, hfields, ok_bind, hfields', ok_bind, List.flatMap_cons]
      rfl
    · rw [List.flatMap_cons, henums, henums', enumsOfLines_eq, enumsOfLines_eq, enumsOfLines_eq,
        List.filterMap_append]
      split <;> rfl

/-- The fields of a script are made of the lines that are written, and the enumerations known once
it is composed are those of before and those that the lines are of. -/
lemma exists_lines_of_script {script enums} (h : c.script = .ok (script, enums)) :
    ∃ lines, c.lines = .ok lines ∧
      lines.mapM c.field = .ok (script.roots.flatMap Declaration.fields) ∧
      enums = insertAll (c.enumsOfLines lines) c.registrations.enums := by
  obtain ⟨imports, roots, _, hroots, rfl, rfl⟩ := script_eq_ok.1 h
  obtain ⟨lines, hlines, hfields, henums⟩ := exists_lines_of_declare hroots
  refine ⟨lines, hlines, ?_, ?_⟩
  · rw [hfields, List.flatMap_map]
  · rw [knownEnums, henums]

end Configuration

end Typings.Generation
