import Typings.Proofs.Manifest.Scope
import Typings.Proofs.Markup.Writing
import Typings.Proofs.Module.Nullability
import Typings.Proofs.TypeRef.Derivation
import Typings.Proofs.WellFormed.Faults

/-!
# The form of definitions that are read

Much of what makes a module well formed holds of every module that is read, since a manifest has no
way to say otherwise: an enumeration takes nothing but members, a class or interface none, a
property of nullable type is marked so. The rest of it is refused while the manifest is read: names
that come twice, and type expressions that mention foreign parameters or apply a name to nothing.
What the check of such a module reports is never one of these faults.
-/

namespace Typings

namespace TypeRef

/-- Every generic type that occurs has arguments, and none goes by a name of the nullable form. -/
def Applied (ref : TypeRef) : Prop :=
  ∀ name args, (TypeRef.generic name args).Within ref →
    name ≠ "Nullable" ∧ name ≠ "System.Nullable" ∧ args ≠ []

section Applied

@[simp] lemma applied_builtin {b} : (TypeRef.builtin b).Applied := by simp [Applied]

@[simp] lemma applied_named {n} : (TypeRef.named n).Applied := by simp [Applied]

@[simp] lemma applied_parameter {n} : (TypeRef.parameter n).Applied := by simp [Applied]

lemma applied_nullable {t} : (TypeRef.nullable t).Applied ↔ t.Applied := by
  simp [Applied, Within.nullable_iff]

lemma applied_array {t} : (TypeRef.array t).Applied ↔ t.Applied := by
  simp [Applied, Within.array_iff]

/-- A generic type of another name with arguments is applied when its arguments are. -/
lemma applied_generic {n args} (hname : n ≠ "Nullable") (hname' : n ≠ "System.Nullable")
    (hne : args ≠ []) (hargs : ∀ a ∈ args, a.Applied) : (TypeRef.generic n args).Applied := by
  intro name as hwithin
  rcases Within.generic_iff.1 hwithin with heq | ⟨a, ha, hwithin⟩
  · cases heq
    exact ⟨hname, hname', hne⟩
  · exact hargs a ha name as hwithin

end Applied

-- By induction on derivations: the grammar has no other way to write a generic type.
mutual

/-- What an expression denotes is applied. -/
lemma Grammar.Derives.applied {scope cs t rest} : Grammar.Derives scope cs t rest → t.Applied
  | .parameter _ _ => applied_parameter
  | .builtin _ _ _ => applied_builtin
  | .named _ _ _ => applied_named
  | .generic _ hname hname' _ hargs _ =>
    applied_generic hname hname' hargs.applied.1 hargs.applied.2
  | .wrapper _ _ _ h _ => applied_nullable.2 h.applied
  | .array h _ _ => applied_array.2 h.applied
  | .nullable h _ _ => applied_nullable.2 h.applied

/-- There are arguments, and all of them are applied. -/
lemma Grammar.DerivesArgs.applied {scope cs args rest} :
    Grammar.DerivesArgs scope cs args rest → args ≠ [] ∧ ∀ a ∈ args, a.Applied
  | .last h => ⟨List.cons_ne_nil _ _, List.forall_mem_singleton.2 h.applied⟩
  | .more h _ hargs => ⟨List.cons_ne_nil _ _, List.forall_mem_cons.2 ⟨h.applied, hargs.applied.2⟩⟩

end

end TypeRef

/-- What a manifest gives every definition. -/
structure TypeDef.Formed (d : TypeDef) : Prop where
  propertiesDistinct : (d.properties.map (·.name)).Nodup
  /-- An enumeration has neither base nor parameters nor properties. -/
  enumeration : d.isEnum = true → d.base = none ∧ d.params = [] ∧ d.properties = []
  /-- A class or interface has no members. -/
  object : d.isEnum = false → d.members = []
  /-- The parameters that are mentioned are the definition's own. -/
  ownParams : ∀ ref ∈ d.references, ∀ p, (TypeRef.parameter p).Within ref → p ∈ d.params
  applied : ∀ ref ∈ d.references, ref.Applied
  /-- A property of nullable type is marked as nullable. -/
  declared : ∀ p ∈ d.properties, p.type.isNullable = true → p.nullable = true

namespace Manifest

open Typings.Markup

/-- A type that is read is applied. -/
lemma applied_readType {params expression t} (h : readType params expression = .ok t) :
    t.Applied := by
  obtain ⟨_, hderives, _⟩ := TypeRef.denotes_of_ofExpression (ofExpression_of_readType h)
  exact hderives.applied

/-- Properties that are read have names that differ from one another. -/
lemma nodup_readProperties {owner params done drafts properties}
    (hdone : (done.map (·.name)).Nodup)
    (h : readProperties owner params done drafts = .ok properties) :
    (properties.map (·.name)).Nodup := by
  induction drafts generalizing done with
  | nil => exact Except.ok.inj h ▸ hdone
  | cons draft rest ih =>
    rw [readProperties] at h
    split at h
    case isTrue => cases h
    case isFalse hnew =>
      obtain ⟨type, _, h⟩ := bind_eq_ok.1 h
      refine ih ?_ h
      have hfresh : draft.name ∉ done.map (·.name) := by simpa using hnew
      rw [List.map_append]
      exact hdone.append (List.nodup_singleton _) (List.disjoint_singleton.2 hfresh)

/-- Every way that a definition is finished gives it the form. -/
lemma established_formed : Established TypeDef.Formed where
  finish hobject h := by
    have hreads {ref} (href : ref ∈ _) := exists_readType_of_mem_references h href
    have hscoped := scoped_finish h
    have hdeclared := established_declared.finish hobject h
    obtain ⟨base, hbase, h⟩ := bind_eq_ok.1 h
    obtain ⟨properties, hproperties, h⟩ := bind_eq_ok.1 h
    cases h
    exact
      { propertiesDistinct := nodup_readProperties (by simp) hproperties
        enumeration := fun henum => absurd (hobject.kind.symm.trans henum) (by decide)
        object := fun _ => hobject.members
        ownParams := hscoped
        applied := fun ref href => (hreads href).elim fun _ h => applied_readType h
        declared := fun p hp => Property.declared_iff.1 (hdeclared p hp) }
  enumeration h := by
    obtain ⟨name, declaring, description, rfl⟩ := begun_enumOf h
    exact
      { propertiesDistinct := List.nodup_nil
        enumeration := fun _ => ⟨rfl, rfl, rfl⟩
        object := fun _ => rfl
        ownParams := nofun
        applied := nofun
        declared := nofun }
  member henum h :=
    { propertiesDistinct := h.propertiesDistinct
      enumeration := h.enumeration
      object := fun hobject => absurd (henum.symm.trans hobject) (by decide)
      ownParams := h.ownParams
      applied := h.applied
      declared := h.declared }

/-- The fault is one of those that definitions of the given form cannot have: a type or a property
comes twice, an enumeration has more than members, or another type has members. -/
def IsOfForm : WellFormed.Error → Prop
  | .duplicate .type _ _ | .duplicate .property _ _ => True
  | .structuredEnum _ | .genericEnum _ | .membersOutsideEnum _ => True
  | _ => False

/-- No such fault is found in a module whose definitions have the form. -/
lemma not_isOfForm_of_found {m e} (formed : ModuleHolds TypeDef.Formed m)
    (h : WellFormed.Error.Found m e) : ¬IsOfForm e := by
  intro hform
  cases e with
  | duplicate declared name owner =>
    cases declared with
    | type => exact List.nodup_iff_forall_not_duplicate.1 formed.distinct name h.2
    | property =>
      obtain ⟨d, hd, _, _, hname⟩ := h
      have hnames := (formed.types d hd).propertiesDistinct
      exact List.nodup_iff_forall_not_duplicate.1 hnames name hname
    | member => exact hform
    | parameter => exact hform
  | structuredEnum name =>
    obtain ⟨d, hd, _, henum, hstructured⟩ := h
    obtain ⟨hbase, _, hproperties⟩ := (formed.types d hd).enumeration henum
    exact hstructured.elim (· hbase) (· hproperties)
  | genericEnum name =>
    obtain ⟨d, hd, _, henum, hgeneric⟩ := h
    exact hgeneric ((formed.types d hd).enumeration henum).2.1
  | membersOutsideEnum name =>
    obtain ⟨d, hd, _, henum, hmembers⟩ := h
    exact hmembers ((formed.types d hd).object henum)
  | undefined name context => exact hform
  | circular path => exact hform
  | arity name expected found context => exact hform
  | unnamedType module => exact hform
  | unnamedMember owner => exact hform
  | unnamedProperty owner => exact hform
  | wrappedBase base owner => exact hform
  | enumBase base owner => exact hform

/-- The types of a module that is read are found by their names, which are different, and their
definitions have the form that a manifest gives them. The check of the module reports no fault of
that form. -/
theorem formed_of_ofText {text m} (h : ofText text = .ok m) :
    m.names.Nodup ∧ (∀ d ∈ m.types, m.find? d.name = some d) ∧ (∀ d ∈ m.types, d.Formed) ∧
      ∀ e, m.check = .error e → ¬IsOfForm e := by
  have formed := established_formed.holds_ofText h
  refine ⟨formed.distinct, fun d hd => ?_, formed.types, fun e he => ?_⟩
  · exact Module.find?_of_mem formed.distinct hd
  · exact not_isOfForm_of_found formed (WellFormed.found_of_check he)

/-- The tags of a manifest with an enumeration inside a generic type, which declares its parameter
twice. -/
def crateMarks : List Mark :=
  [.opened "module" [("name", "M")],
    .opened "class" [("name", "Crate"), ("base", "Box<T>")],
    .empty "typeParam" [("name", "T")],
    .empty "typeParam" [("name", "T")],
    .empty "property" [("name", "content"), ("type", "Dictionary<string, T>?[]?")],
    .opened "enum" [("name", "Kind")],
    .empty "value" [("name", "Light")],
    .closed,
    .closed,
    .closed]

/-- The module of the manifest. -/
def crateModule : Module :=
  ⟨"M", none,
    [{ name := "Crate"
       kind := .classType
       base := some (.generic "Box" [.parameter "T"])
       params := ["T", "T"]
       properties :=
         [⟨"content", .nullable (.array (.nullable
           (.generic "Dictionary" [.builtin .string, .parameter "T"]))), true, none⟩] },
      { name := "Kind"
        kind := .enumType
        members := [⟨"Light", 0, none⟩]
        declaring := some "Crate" }]⟩

/-- The manifest is read, its definitions have the form, and the check reports the parameter. -/
theorem formed_of_ofText_crate :
    ofText (.ofList (written [] crateMarks)) = .ok crateModule ∧
      (∀ d ∈ crateModule.types, d.Formed) ∧
      crateModule.check = .error (.duplicate .parameter "T" "Crate") := by
  have htext : ofText (.ofList (written [] crateMarks)) = .ok crateModule := by
    rw [ofText, ofText_written (by decide +kernel)]
    decide +kernel
  exact ⟨htext, (formed_of_ofText htext).2.2.1, by decide +kernel⟩

end Manifest

end Typings
