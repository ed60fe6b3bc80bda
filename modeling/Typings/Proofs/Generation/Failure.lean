import Typings.Proofs.Generation.Adequacy
import Typings.Proofs.Generation.Lines

/-!
# What keeps a script from being generated

A script is made of names, and a name fails only where a transform makes it blank. The transform of
type names is called for what is declared, extended and imported and for the arguments of generic
types at any depth; references to enumerations, interfaces, parameters and mapped types pass it by.
What it is called for in the heads of declarations, and what the transform of property names is
called for, is always reached.
-/

namespace Typings.Generation

namespace Context

variable {c : Context} {d : TypeDef} {ref : TypeRef} {e : Error}

/-- The references that are spelled for the name of a defined type behind a reference. -/
def argsOf : TypeRef → List TypeRef
  | .generic _ args => args
  | _ => []

/-- A defined type fails to be named at one of its arguments or at its name. -/
lemma nameFails_of_referenceName
    (ends : ∀ a ∈ argsOf ref, Acc (fun part ref => c.AsksFor ref part) a)
    (h : c.referenceName d ref = .error e) : c.NameFails .type e := by
  cases ref with
  | generic n args =>
    rcases bind_eq_error.1 h with hargs | ⟨texts, _, hname⟩
    · obtain ⟨a, ha, he⟩ := exists_of_mapM_eq_error hargs
      exact nameFails_of_spell_eq_error (ends a ha) he
    · exact nameFails_of_transformName hname
  | _ => exact nameFails_of_transformName h

/-- A transformed name is not blank. -/
lemma not_blank_of_transformName (kind : NameKind) {f : String → String} {name text : String}
    (htransform : c.transform kind = some f)
    (h : transformName kind (c.transform kind) name = .ok text) :
    Text.isBlank (f name) = false := by
  rw [htransform, transformName] at h
  split at h
  case isTrue => cases h
  case isFalse hblank => exact Bool.eq_false_iff.2 hblank

end Context

namespace Configuration

open Context (argsOf)

variable {c : Configuration} {kind : DeclarationKind} {d : TypeDef} {e : Error}

/-- The references that are spelled for a script: the types of the properties that are written, and
the arguments of the bases that are kept and of the types that are imported. -/
inductive Spells (c : Configuration) : TypeRef → Prop where
  | property {d p} :
    d ∈ c.roots → d.isEnum = false → p ∈ c.visibleProperties d → Spells c p.type
  | base {d base a} :
    d ∈ c.roots → d.isEnum = false → c.options.preserveInheritance = true → d.base = some base →
    a ∈ argsOf base → Spells c a
  | imported {ref path a} : (ref, path) ∈ c.registrations.imports → a ∈ argsOf ref → Spells c a

/-- The properties that are written are those that are not excluded. -/
lemma mem_visibleProperties_of_written {lines : List (String × Property)}
    (h : c.writtenProperties d = .ok lines) {line} (hline : line ∈ lines) :
    line.2 ∈ c.visibleProperties d := by
  rw [writtenProperties_eq] at h
  obtain ⟨named, hnamed, rfl⟩ := map_eq_ok.1 h
  have hmem : line ∈ named := by
    split at hline
    case isTrue => exact List.mem_mergeSort.1 hline
    case isFalse => exact hline
  obtain ⟨p, hp, hname⟩ := exists_left_of_forall₂ (mapM_eq_ok.1 hnamed) hmem
  obtain ⟨_, _, rfl⟩ := map_eq_ok.1 hname
  exact hp

/-- A line fails at the name of the property. -/
lemma nameFails_of_writtenProperties (h : c.writtenProperties d = .error e) :
    c.NameFails .property e := by
  rw [writtenProperties_eq, map_eq_error] at h
  obtain ⟨p, _, hname⟩ := exists_of_mapM_eq_error h
  exact Context.nameFails_of_transformName (map_eq_error.1 hname)

section Ends

variable (ends : ∀ ref, c.Spells ref → Acc (fun part ref => c.AsksFor ref part) ref)

include ends

/-- An import fails at a name. -/
lemma nameFails_of_importList (h : c.importList = .error e) : c.NameFails .type e := by
  obtain ⟨⟨ref, path⟩, hmem, h⟩ := exists_of_mapM_eq_error h
  rcases bind_eq_error.1 h with h | ⟨_, _, h⟩
  · rw [Context.importName] at h
    split at h
    · exact Context.nameFails_of_transformName h
    · split at h
      · cases h
      · exact Context.nameFails_of_referenceName (fun a ha => ends a (.imported hmem ha)) h
  · cases h

/-- The fields of a root fail at the name of a property or of a type. -/
lemma exists_nameFails_of_fields (hd : d ∈ c.roots) (henum : d.isEnum = false)
    (h : c.fields d = .error e) : ∃ kind, c.NameFails kind e := by
  rcases bind_eq_error.1 h with hlines | ⟨lines, hlines, h⟩
  · exact ⟨.property, nameFails_of_writtenProperties hlines⟩
  rcases bind_eq_error.1 h with h | ⟨_, _, h⟩
  · obtain ⟨line, hline, hfield⟩ := exists_of_mapM_eq_error h
    have hspells := Spells.property hd henum (mem_visibleProperties_of_written hlines hline)
    rcases bind_eq_error.1 hfield with htype | ⟨_, _, h⟩
    · rcases bind_eq_error.1 htype with hspell | ⟨_, _, h⟩
      · exact ⟨.type, Context.nameFails_of_spell_eq_error (ends _ hspells) hspell⟩
      · split at h <;> cases h
    · cases h
  · cases h

/-- A base that is kept fails at a name. -/
lemma nameFails_of_baseName (hd : d ∈ c.roots) (henum : d.isEnum = false)
    (hkept : c.options.preserveInheritance = true) (h : c.baseName d = .error e) :
    c.NameFails .type e := by
  rw [Context.baseName] at h
  split at h
  case h_1 => cases h
  case h_2 base hbase =>
    split at h
    · cases h
    · split at h
      · cases h
      · refine Context.nameFails_of_referenceName (fun a ha => ?_) (map_eq_error.1 h)
        exact ends a (.base hd henum hkept hbase ha)

/-- The declaration of a root fails at a name. -/
lemma exists_nameFails_of_declare (hd : d ∈ c.roots) (h : c.declare d = .error e) :
    ∃ kind, c.NameFails kind e := by
  rw [declare] at h
  split at h
  case isTrue => cases h
  case isFalse henum =>
    replace henum : d.isEnum = false := Bool.eq_false_iff.2 henum
    rcases bind_eq_error.1 h with h | ⟨_, _, h⟩
    · rw [declareType_eq] at h
      rcases bind_eq_error.1 h with hname | ⟨_, _, h⟩
      · exact ⟨.type, Context.nameFails_of_transformName hname⟩
      rcases bind_eq_error.1 h with hbase | ⟨_, _, h⟩
      · split at hbase
        case isTrue hkept => exact ⟨.type, nameFails_of_baseName ends hd henum hkept hbase⟩
        case isFalse => cases hbase
      rcases bind_eq_error.1 h with hfields | ⟨_, _, h⟩
      · exact exists_nameFails_of_fields ends hd henum hfields
      · cases h
    · cases h

/-- Generation fails at a name. -/
lemma exists_nameFails_of_generate (h : c.generate kind = .error e) :
    ∃ kind, c.NameFails kind e := by
  rw [generate_eq_script] at h
  rcases bind_eq_error.1 h with h | ⟨_, _, h⟩
  · rcases bind_eq_error.1 h with himports | ⟨_, _, h⟩
    · exact ⟨.type, nameFails_of_importList ends himports⟩
    rcases bind_eq_error.1 h with hroots | ⟨_, _, h⟩
    · obtain ⟨d, hd, hdeclare⟩ := exists_of_mapM_eq_error hroots
      exact exists_nameFails_of_declare ends hd hdeclare
    · cases h
  · cases h

end Ends

/-- Where a script is generated, the names of the declared types are not blank, nor are those of
their properties. -/
lemma not_blank_of_generate {out} (h : c.generate kind = .ok out) (hd : d ∈ c.roots)
    (henum : d.isEnum = false) :
    (∀ f, c.typeTransform = some f → Text.isBlank (f (c.plainTypeName d)) = false) ∧
      ∀ f, c.propertyTransform = some f → ∀ p ∈ c.visibleProperties d,
        Text.isBlank (f (lowerFirst p.name)) = false := by
  obtain ⟨script, enums, hscript, -, -⟩ := generate_eq_ok.1 h
  obtain ⟨imports, roots, -, hroots, -, -⟩ := script_eq_ok.1 hscript
  obtain ⟨root, -, hdeclare⟩ := exists_left_of_forall₂ (mapM_eq_ok.1 hroots).flip hd
  replace hdeclare : c.declare d = .ok root := hdeclare
  rw [declare, henum, if_neg Bool.false_ne_true] at hdeclare
  obtain ⟨⟨declaration, enums⟩, htype, -⟩ := bind_eq_ok.1 hdeclare
  obtain ⟨hname, -, hfields⟩ := declareType_eq_ok.1 htype
  refine ⟨fun f hf => Context.not_blank_of_transformName .type hf hname, fun f hf p hp => ?_⟩
  obtain ⟨lines, hlines, -⟩ := bind_eq_ok.1 hfields
  obtain ⟨named, hnamed, -⟩ := bind_eq_ok.1 hlines
  obtain ⟨line, -, hline⟩ := exists_left_of_forall₂ (mapM_eq_ok.1 hnamed).flip hp
  obtain ⟨text, hname, -⟩ := bind_eq_ok.1 hline
  exact Context.not_blank_of_transformName .property hf hname

/-- Generation fails exactly because of names that transforms make blank, where no type leads back
to itself on the way. It succeeds when the transforms make no name blank, and it fails at nothing
else; and it does fail when the name of a class or interface that is declared, or of a property that
is written in it, is made blank. -/
theorem generate_fails_at_blank_names (c : Configuration)
    (ends : ∀ ref, c.Spells ref → Acc (fun part ref => c.AsksFor ref part) ref)
    (kind : DeclarationKind) :
    ((∀ named f, c.transform named = some f → ∀ name, Text.isBlank (f name) = false) →
      ∃ out c', c.generate kind = .ok (out, c')) ∧
    (∀ e, c.generate kind = .error e → ∃ named f name, c.transform named = some f ∧
      Text.isBlank (f name) = true ∧ e = .blankName named name) ∧
    ∀ d ∈ c.roots, d.isEnum = false →
      ((∃ f, c.typeTransform = some f ∧ Text.isBlank (f (c.plainTypeName d)) = true) ∨
        ∃ f, c.propertyTransform = some f ∧ ∃ p ∈ c.visibleProperties d,
          Text.isBlank (f (lowerFirst p.name)) = true) →
      ∃ e, c.generate kind = .error e := by
  have fails : ∀ e, c.generate kind = .error e → ∃ named, c.NameFails named e :=
    fun e h => exists_nameFails_of_generate ends h
  refine ⟨fun plain => ?_, fails, fun d hd henum hblank => ?_⟩
  · cases h : c.generate kind with
    | ok out => exact ⟨out.1, out.2, rfl⟩
    | error e =>
      obtain ⟨named, f, name, hf, hblank, -⟩ := fails e h
      exact absurd hblank (Bool.eq_false_iff.1 (plain named f hf name))
  · cases h : c.generate kind with
    | error e => exact ⟨e, rfl⟩
    | ok out =>
      obtain ⟨hname, hproperties⟩ := not_blank_of_generate h hd henum
      rcases hblank with ⟨f, hf, hblank⟩ | ⟨f, hf, p, hp, hblank⟩
      · exact absurd hblank (Bool.eq_false_iff.1 (hname f hf))
      · exact absurd hblank (Bool.eq_false_iff.1 (hproperties f hf p hp))

/-- Trees are lists of trees, but are mapped. -/
def tree : TypeDef :=
  { name := "Tree", kind := .classType, base := some (.generic "List" [.named "Tree"]) }

/-- A secret holds trees. -/
def secret : TypeDef :=
  { name := "Secret", kind := .classType
    properties := [⟨"Nodes", .array (.named "Tree"), false, none⟩] }

/-- Secrets are declared, under names that a transform may change. -/
def secrets (transform : Option (String → String)) : Configuration :=
  { model := { name := "Vault", types := [tree, secret] }
    mappings := ⟨[⟨.named "Tree", "Node", "null", false⟩]⟩
    typeTransform := transform
    registrations := { types := [.named "Secret"] } }

lemma roots_secrets (transform) : (secrets transform).roots = [secret] := by
  have plain : (secrets none).roots = [secret] := by decide +kernel
  exact plain

/-- A tree leads back to itself, but the mapping ends the way. -/
lemma acc_of_spells_secrets {transform ref} (h : (secrets transform).Spells ref) :
    Acc (fun part ref => (secrets transform).AsksFor ref part) ref := by
  cases h with
  | @property d p hd _ hp =>
    rw [roots_secrets] at hd
    obtain rfl := List.mem_singleton.1 hd
    have hvisible : (secrets transform).visibleProperties secret = secret.properties := by
      have plain : (secrets none).visibleProperties secret = secret.properties := by decide +kernel
      exact plain
    rw [hvisible] at hp
    obtain rfl := List.mem_singleton.1 hp
    have hspell : (secrets transform).spellWithin 1 (.array (.named "Tree")) = .ok "Node[]" := rfl
    exact Context.acc_of_spellWithin_eq_ok hspell
  | base hd _ hkept => cases hkept
  | imported h _ => cases h

/-- A secret is declared unless its name is made blank. -/
theorem generate_fails_at_blank_names_of_secrets :
    (∃ out c', (secrets none).generate .classKind = .ok (out, c')) ∧
      ∃ e, (secrets (some fun name => if name = "Secret" then " " else name)).generate .classKind =
        .error e := by
  constructor
  · refine (generate_fails_at_blank_names (secrets none) (fun _ => acc_of_spells_secrets)
      .classKind).1 ?_
    rintro (_ | _) f hf <;> cases hf
  · refine (generate_fails_at_blank_names _ (fun _ => acc_of_spells_secrets)
      .classKind).2.2 secret ?_ rfl (.inl ⟨_, rfl, by decide +kernel⟩)
    rw [roots_secrets]
    exact List.mem_singleton_self secret

end Configuration

end Typings.Generation
