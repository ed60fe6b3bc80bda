import Typings.Proofs.Generation.Discovery

/-!
# One name at every place

The name of a class or interface is written in the header of its declaration, behind `extends` in a
declaration that it is the base of, and in its import. It is one name at all of these places. A
reference to a class has it too. A reference to an interface shows the bare name instead, which
nothing changes, so the two differ when a prefix or a transform does.
-/

namespace Typings.Generation

/-- The places where the name of a class or interface is written. -/
inductive NamePlace where
  | reference
  | header
  | extended
  | imported
  deriving DecidableEq, Repr

/-- A transform that is applied, if there is one, gives the name. -/
lemma eq_getD_of_transformName {kind transform name name'}
    (h : transformName kind transform name = .ok name') : name' = transform.getD id name := by
  cases transform with
  | none => exact (Except.ok.inj h).symm
  | some f =>
    rw [transformName] at h
    split at h
    · cases h
    · exact (Except.ok.inj h).symm

namespace Configuration

variable {c : Configuration} {d : TypeDef}

/-- A class or interface that goes by its bare name: the name finds it, and it has neither
parameters nor elements. -/
structure GoesByName (c : Configuration) (d : TypeDef) : Prop where
  found : c.model.find? d.name = some d
  object : d.isEnum = false
  plain : d.isGeneric = false
  single : c.model.isIterable d.ref = false

/-- What is written for a class or interface at a place. A reference is its bare name or a nullable
form of that, and no mapping replaces it. -/
inductive Names (c : Configuration) (d : TypeDef) : NamePlace → String → Prop where
  | reference {ref name} :
    TypeRef.Wraps d.name ref → c.NoMapping ref → c.spell ref = .ok name → Names c d .reference name
  | header {declaration enums} :
    c.declareType d = .ok (declaration, enums) → Names c d .header declaration.name
  | extended {derived declaration enums name} :
    c.options.preserveInheritance = true → derived.base = some d.ref →
    c.declareType derived = .ok (declaration, enums) → declaration.base = some name →
    Names c d .extended name
  | imported {imports path entry} :
    c.importList = .ok imports → ((d.ref, path), entry) ∈ c.registrations.imports.zip imports →
    Names c d .imported entry.name

/-- The shape of a class or interface that goes by its name. -/
lemma GoesByName.classifyNamed (hd : c.GoesByName d) :
    c.model.classifyNamed d.name = if d.isInterface then .interfaceType d else .classType d := by
  have hsingle : c.model.isIterable (.named d.name) = false := hd.single
  simp [Module.classifyNamed, hd.found, hd.object, hsingle, hd.plain]

/-- A class is referred to by the name that it is declared under, an interface by its bare name. -/
lemma GoesByName.spell (hd : c.GoesByName d) {ref} (hwraps : TypeRef.Wraps d.name ref)
    (hfree : c.NoMapping ref) :
    c.spell ref = if d.isInterface then .ok d.name else c.typeName d := by
  obtain ⟨bound, hspell⟩ := Context.exists_spellShape_of_wraps hwraps hfree
  rw [hspell, hd.classifyNamed]
  cases d.isInterface <;> rfl

/-- The base of a type has the name that it is declared under. -/
lemma GoesByName.baseName (hd : c.GoesByName d) {derived : TypeDef}
    (hbase : derived.base = some d.ref) : c.baseName derived = (c.typeName d).map some := by
  have hfound : c.model.definition? d.ref = some d := hd.found
  simp only [Context.baseName, hbase, hfound, hd.object]
  rfl

/-- A type is imported under the name that it is declared under. -/
lemma GoesByName.importName (hd : c.GoesByName d) : c.importName d.ref = c.typeName d := by
  have hfound : c.model.definition? d.ref = some d := hd.found
  simp only [Context.importName, hfound, hd.object]
  rfl

/-- Except in a reference to an interface, the name that is written is the one of the declaration.
-/
lemma GoesByName.typeName_eq (hd : c.GoesByName d) {p name} (h : c.Names d p name)
    (hplace : d.isInterface = true → p ≠ .reference) : c.typeName d = .ok name := by
  cases h with
  | reference hwraps hfree hspell =>
    have hclass : d.isInterface = false := Bool.eq_false_iff.2 fun h => hplace h rfl
    rw [hd.spell hwraps hfree, hclass] at hspell
    exact hspell
  | header hdeclare => exact (declareType_eq_ok.1 hdeclare).1
  | extended hpreserve hbase hdeclare hname =>
    have hdeclared := (declareType_eq_ok.1 hdeclare).2.1
    rw [if_pos hpreserve, hd.baseName hbase, hname] at hdeclared
    obtain ⟨name', htype, hname⟩ := map_eq_ok.1 hdeclared
    rw [htype, Option.some.inj hname]
  | imported himports hmem =>
    have hall := List.forall₂_iff_zip.1 (mapM_eq_ok.1 himports)
    obtain ⟨name, hname, hentry⟩ := bind_eq_ok.1 (hall.2 hmem)
    cases hentry
    rw [← hd.importName]
    exact hname

/-- A declared name is what the transform, if there is one, makes of the name behind the prefix. -/
lemma GoesByName.eq_of_typeName (hd : c.GoesByName d) {name} (h : c.typeName d = .ok name) :
    name = c.typeTransform.getD id (c.prefixedName d) := by
  have hplain : c.plainTypeName d = c.prefixedName d := if_neg (Bool.eq_false_iff.1 hd.plain)
  rw [Context.typeName, hplain] at h
  exact eq_getD_of_transformName h

/-- A reference to an interface is its bare name. -/
lemma GoesByName.bare_of_reference (hd : c.GoesByName d) (hinterface : d.isInterface = true) {name}
    (h : c.Names d .reference name) : name = d.name := by
  cases h with
  | reference hwraps hfree hspell =>
    rw [hd.spell hwraps hfree, hinterface] at hspell
    exact (Except.ok.inj hspell).symm

/-- A type that is declared with its base kept extends that base. -/
lemma GoesByName.exists_extended (hd : c.GoesByName d) {derived declaration enums}
    (hpreserve : c.options.preserveInheritance = true) (hbase : derived.base = some d.ref)
    (hdeclare : c.declareType derived = .ok (declaration, enums)) :
    ∃ name, declaration.base = some name := by
  have hdeclared := (declareType_eq_ok.1 hdeclare).2.1
  rw [if_pos hpreserve, hd.baseName hbase] at hdeclared
  obtain ⟨name, _, hname⟩ := map_eq_ok.1 hdeclared
  exact ⟨name, hname.symm⟩

/-- A class or interface is written by one name in the header of its declaration, behind `extends`
and in its import, and a class is referred to by that name too. A reference to an interface is its
bare name, and this is the declared name just where the transform turns the name behind the prefix
into the bare name. -/
theorem names_agree (hd : c.GoesByName d) :
    (∀ {p p' name name'}, c.Names d p name → c.Names d p' name' →
      (d.isInterface = true → (p = .reference ↔ p' = .reference)) → name = name') ∧
    (∀ {p bare name}, d.isInterface = true → c.Names d .reference bare → c.Names d p name →
      p ≠ .reference → bare = d.name ∧
        (bare = name ↔ c.typeTransform.getD id (c.prefixedName d) = d.name)) ∧
    ∀ {derived declaration enums}, c.options.preserveInheritance = true →
      derived.base = some d.ref → c.declareType derived = .ok (declaration, enums) →
        ∃ name, declaration.base = some name ∧ c.Names d .extended name := by
  refine ⟨fun {p p' name name'} h h' hsame => ?_, fun {p bare name} hinterface hbare h hplace => ?_,
    fun hpreserve hbase hdeclare => ?_⟩
  · by_cases hreference : d.isInterface = true ∧ p = .reference
    · obtain ⟨hinterface, rfl⟩ := hreference
      obtain rfl := (hsame hinterface).1 rfl
      rw [hd.bare_of_reference hinterface h, hd.bare_of_reference hinterface h']
    · have hdeclared : c.typeName d = .ok name :=
        hd.typeName_eq h fun hinterface hp => hreference ⟨hinterface, hp⟩
      have hdeclared' : c.typeName d = .ok name' :=
        hd.typeName_eq h' fun hinterface hp => hreference ⟨hinterface, (hsame hinterface).2 hp⟩
      exact Except.ok.inj (hdeclared.symm.trans hdeclared')
  · obtain rfl := hd.bare_of_reference hinterface hbare
    refine ⟨rfl, ?_⟩
    rw [hd.eq_of_typeName (hd.typeName_eq h fun _ => hplace)]
    exact eq_comm
  · obtain ⟨name, hname⟩ := hd.exists_extended hpreserve hbase hdeclare
    exact ⟨name, hname, .extended hpreserve hbase hdeclare hname⟩

/-- A class that another file declares. -/
def tag : TypeDef where
  name := "Tag"
  kind := .classType

/-- A class over the tag that refers to the tag as well. -/
def product : TypeDef where
  name := "Product"
  kind := .classType
  base := some (.named "Tag")
  properties := [{ name := "Mark", type := .nullable (.named "Tag"), nullable := true }]

/-- Products are declared and their tag is imported. Classes get a prefix. -/
def shop : Configuration where
  model := { name := "Shop", types := [tag, product] }
  options := { prefixClasses := true, preserveInheritance := true }
  registrations := { types := [product.ref], imports := [(tag.ref, "./tag")] }

theorem names_agree_of_shop :
    shop.GoesByName tag ∧ shop.Names tag .reference "ITag" ∧
      (∀ declaration enums, shop.declareType tag = .ok (declaration, enums) →
        declaration.name = "ITag") ∧
      (∀ declaration enums, shop.declareType product = .ok (declaration, enums) →
        declaration.base = some "ITag") ∧
      (∀ imports, shop.importList = .ok imports → imports.map Import.name = ["ITag"]) ∧
      (shop.generate .interface).map (·.1) = .ok
        ("import \x7b ITag \x7d from './tag';\n\n" ++
          "export interface IProduct extends ITag\n\x7b\n    mark: ITag | null;\n\x7d\n\n") := by
  have hd : shop.GoesByName tag := ⟨by decide, rfl, rfl, by decide +kernel⟩
  have href : shop.Names tag .reference "ITag" :=
    .reference (.nullable .bare)
      ⟨by decide +kernel, (by decide +kernel : shop.mappings.find? tag.ref = none)⟩
      (by decide +kernel)
  obtain ⟨same, -, extended⟩ := names_agree hd
  have named {p name} (h : shop.Names tag p name) : name = "ITag" :=
    same h href fun hinterface => absurd hinterface (by decide)
  refine ⟨hd, href, fun declaration enums h => named (.header h), fun declaration enums h => ?_,
    fun imports h => ?_, ?_⟩
  · obtain ⟨name, hbase, hname⟩ := extended rfl rfl h
    rw [hbase, named hname]
  · obtain ⟨entry, _, _, hnil, rfl⟩ := List.forall₂_cons_left_iff.1 (mapM_eq_ok.1 h)
    cases hnil
    rw [List.map_singleton, named (.imported h List.mem_cons_self)]
  · decide +kernel

/-- An interface that gets a prefix where it is declared. -/
def shape : TypeDef where
  name := "Shape"
  kind := .interfaceType

/-- The interface with prefixes switched on. -/
def shapes : Configuration where
  model := { name := "Shapes", types := [shape] }
  options := { prefixInterfaces := true }

theorem not_forall_names_agree :
    ¬ ∀ (c : Configuration) (d : TypeDef), c.GoesByName d → ∀ p p' name name',
      c.Names d p name → c.Names d p' name' → name = name' := by
  intro h
  have hd : shapes.GoesByName shape := ⟨by decide, rfl, rfl, by decide +kernel⟩
  have hreference : shapes.Names shape .reference "Shape" :=
    .reference .bare (by decide +kernel : shapes.mappings.find? shape.ref = none)
      (by decide +kernel)
  have hheader : shapes.Names shape .header "IShape" :=
    .header (by decide +kernel : shapes.declareType shape = .ok (⟨"IShape", none, []⟩, []))
  exact absurd (h shapes shape hd _ _ _ _ hreference hheader) (by decide)

end Configuration

end Typings.Generation
