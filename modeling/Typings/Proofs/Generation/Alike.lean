import Typings.Proofs.Generation.Keys
import Typings.Proofs.Generation.Roots

/-!
# Configurations that generate alike

A configuration keeps the order in which things were configured. Two configurations are alike when
they differ in nothing but the orders that a script does not show: mappings are read by their
source, exclusions by membership, and the registered types are sorted. The enumerations and the
imports are written in their order, so these must be the same.
-/

namespace Typings.Generation

/-- Two contexts that differ in nothing but the order of their mappings. -/
structure Context.Alike (c c' : Context) : Prop where
  model : c.model = c'.model
  options : c.options = c'.options
  typeTransform : c.typeTransform = c'.typeTransform
  propertyTransform : c.propertyTransform = c'.propertyTransform
  mapping : ∀ source, c.mappings.find? source = c'.mappings.find? source
  sources : c.mappings.sources.Perm c'.mappings.sources

/-- Two contexts that names and types are written alike in. Their mappings may be in another order,
and they may differ in the switches that no name or type depends on. -/
structure Context.SpellsAlike (c c' : Context) : Prop where
  model : c.model = c'.model
  includeEnums : c.options.includeEnums = c'.options.includeEnums
  makeNullable : c.options.makeNullable = c'.options.makeNullable
  prefixClasses : c.options.prefixClasses = c'.options.prefixClasses
  prefixInterfaces : c.options.prefixInterfaces = c'.options.prefixInterfaces
  typeTransform : c.typeTransform = c'.typeTransform
  propertyTransform : c.propertyTransform = c'.propertyTransform
  mapping : ∀ source, c.mappings.find? source = c'.mappings.find? source
  sources : c.mappings.sources.Perm c'.mappings.sources

namespace Context.SpellsAlike

variable {c c' : Context}

/-- Contexts that are alike spell alike. -/
lemma of_alike (h : Alike c c') : SpellsAlike c c' where
  model := h.model
  includeEnums := congrArg Options.includeEnums h.options
  makeNullable := congrArg Options.makeNullable h.options
  prefixClasses := congrArg Options.prefixClasses h.options
  prefixInterfaces := congrArg Options.prefixInterfaces h.options
  typeTransform := h.typeTransform
  propertyTransform := h.propertyTransform
  mapping := h.mapping
  sources := h.sources

-- Everything that spells is the same function of contexts that spell alike.

lemma prefixedName (h : SpellsAlike c c') : c.prefixedName = c'.prefixedName := by
  funext d
  simp only [Context.prefixedName, h.prefixClasses, h.prefixInterfaces]

lemma typeName (h : SpellsAlike c c') : c.typeName = c'.typeName := by
  funext d
  simp only [Context.typeName, plainTypeName, h.prefixedName, h.typeTransform]

lemma instanceName (h : SpellsAlike c c') : c.instanceName = c'.instanceName := by
  funext d args
  simp only [Context.instanceName, h.prefixedName, h.typeTransform]

lemma propertyName (h : SpellsAlike c c') : c.propertyName = c'.propertyName := by
  funext name
  simp only [Context.propertyName, h.propertyTransform]

/-- Types are spelled alike within any bound. -/
lemma spellWithin (h : SpellsAlike c c') (bound : Nat) :
    c.spellWithin bound = c'.spellWithin bound := by
  -- The spellings inside one another are within a smaller bound, whichever way a type is iterable.
  induction bound with
  | zero =>
    funext ref
    simp only [Context.spellWithin]
  | succ bound ih =>
    funext ref
    simp only [Context.spellWithin, ih, h.mapping, h.model, h.typeName, h.instanceName, enumName]

/-- Depths are doubled alike. -/
lemma depthFrom (h : SpellsAlike c c') : c.depthFrom = c'.depthFrom := by
  funext ref doublings depth
  induction doublings generalizing depth with
  | zero => rfl
  | succ doublings ih => simp only [Context.depthFrom, h.spellWithin, ih]

lemma spellingDepth (h : SpellsAlike c c') : c.spellingDepth = c'.spellingDepth := by
  funext ref
  simp only [Context.spellingDepth, h.depthFrom, straightDepth, doublings, ways, h.model,
    MappingTable.height_congr h.sources, (MappingTable.inside_perm h.sources).length_eq]

/-- Types are spelled alike. -/
lemma spell (h : SpellsAlike c c') : c.spell = c'.spell := by
  funext ref
  simp only [Context.spell, h.spellingDepth, h.spellWithin]

lemma admitsNull (h : SpellsAlike c c') : c.admitsNull = c'.admitsNull := by
  funext p
  rw [Context.admitsNull, Context.admitsNull, h.model, h.makeNullable]

lemma propertyType (h : SpellsAlike c c') : c.propertyType = c'.propertyType := by
  funext p
  simp only [Context.propertyType, h.spell, h.mapping, h.admitsNull]

lemma field (h : SpellsAlike c c') : c.field = c'.field := by
  funext named
  simp only [Context.field, defaultValue, h.propertyType, h.mapping, h.model, enumName]

lemma referenceName (h : SpellsAlike c c') : c.referenceName = c'.referenceName := by
  funext d ref
  cases ref <;> simp only [Context.referenceName, spellAll, h.spell, h.typeName, h.instanceName]

lemma baseName (h : SpellsAlike c c') : c.baseName = c'.baseName := by
  funext d
  simp only [Context.baseName, h.model, h.referenceName]

lemma importName (h : SpellsAlike c c') : c.importName = c'.importName := by
  funext ref
  simp only [Context.importName, externalName, h.model, h.typeTransform, h.referenceName, enumName]

lemma enumsOf (h : SpellsAlike c c') : c.enumsOf = c'.enumsOf := by
  funext properties
  simp only [Context.enumsOf, h.model, h.includeEnums]

lemma declareEnum (c c' : Context) : c.declareEnum = c'.declareEnum := rfl

end Context.SpellsAlike

namespace Configuration

/-- Two configurations that differ in nothing but orders that a script does not show. -/
structure Alike (c c' : Configuration) : Prop extends Context.Alike c.toContext c'.toContext where
  types : c.registrations.types.Perm c'.registrations.types
  enums : c.registrations.enums = c'.registrations.enums
  imports : c.registrations.imports = c'.registrations.imports
  excluded : ∀ ref name,
    c.registrations.isExcluded ref name = c'.registrations.isExcluded ref name
  propertyExcluded : ∀ owner name,
    c.registrations.isPropertyExcluded owner name = c'.registrations.isPropertyExcluded owner name

namespace Alike

variable {c c' : Configuration}

lemma spellsAlike (h : Alike c c') : c.SpellsAlike c'.toContext :=
  .of_alike h.toAlike

lemma rootDefinition? (h : Alike c c') : c.rootDefinition? = c'.rootDefinition? := by
  funext ref
  cases ref <;> simp only [Configuration.rootDefinition?, h.model, h.excluded]

/-- Alike configurations have the same roots in the same order. -/
lemma roots (h : Alike c c') : c.roots = c'.roots := by
  have perm : c.roots.Perm c'.roots := by
    rw [roots_eq, roots_eq, h.rootDefinition?]
    exact (List.mergeSort_perm _ _).trans
      ((h.types.filterMap _).trans (List.mergeSort_perm _ _).symm)
  refine perm.eq_of_pairwise (fun a b ha hb hab hba => ?_) c.pairwise_roots
    (h.model ▸ c'.pairwise_roots)
  -- Roots that stay before one another have one name, and a name is that of one root.
  rw [rootLe_iff] at hab hba
  have hname : a.name = b.name := String.le_antisymm (by grind) (by grind)
  obtain ⟨ref, _, href⟩ := mem_roots.1 ha
  obtain ⟨ref', _, href'⟩ := mem_roots.1 hb
  obtain ⟨rfl, hfind⟩ := eq_ref_of_rootDefinition? href
  obtain ⟨rfl, hfind'⟩ := eq_ref_of_rootDefinition? href'
  rw [TypeDef.ref, hname, h.model] at hfind
  exact Option.some.inj (hfind.symm.trans hfind')

lemma writtenProperties (h : Alike c c') : c.writtenProperties = c'.writtenProperties := by
  funext d
  simp only [Configuration.writtenProperties, visibleProperties, h.model, h.options,
    h.propertyExcluded, h.spellsAlike.propertyName]

lemma declareType (h : Alike c c') : c.declareType = c'.declareType := by
  funext d
  simp only [Configuration.declareType, fields, h.spellsAlike.typeName, h.spellsAlike.baseName,
    h.options, h.writtenProperties, h.spellsAlike.field, h.spellsAlike.enumsOf]

lemma declare (h : Alike c c') : c.declare = c'.declare := by
  funext d
  simp only [Configuration.declare, h.declareType,
    Context.SpellsAlike.declareEnum c.toContext c'.toContext]

lemma enumDeclaration? (h : Alike c c') : c.enumDeclaration? = c'.enumDeclaration? := by
  funext ref
  simp only [Configuration.enumDeclaration?, h.model, h.excluded,
    Context.SpellsAlike.declareEnum c.toContext c'.toContext]

/-- Alike configurations compose the same script, or fail alike. -/
lemma script (h : Alike c c') : c.script = c'.script := by
  simp only [Configuration.script, importList, h.imports, h.spellsAlike.importName, h.roots,
    h.declare, h.enums, h.enumDeclaration?]

/-- Alike configurations generate the same text, or fail alike. -/
lemma generate (h : Alike c c') (kind : DeclarationKind) :
    (c.generate kind).map Prod.fst = (c'.generate kind).map Prod.fst := by
  rw [Configuration.generate_eq_script, Configuration.generate_eq_script, h.script, h.options]
  cases c'.script <;> rfl

end Alike

end Configuration

end Typings.Generation
