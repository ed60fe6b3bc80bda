import Typings.Proofs.Generation.Alike
import Typings.Proofs.Generation.Blocks
import Typings.Proofs.Generation.Sorting
import Typings.Proofs.Module.Hiding

/-!
# Properties sorted by name

Whether properties are sorted by name decides about nothing but the order of lines. A script that is
sorted and one that is not fail or succeed together. They have the same imports, the same blocks in
the same order with the same lines in them, and the same enumerations are known in the end.

The two runs name the same properties one after the other and part when these are sorted. From there
on they go through the same properties in different orders, so they may fail with different errors
and meet enumerations in different orders.
-/

namespace Typings.Generation.Configuration

variable {c : Configuration} {d : TypeDef} {kind : DeclarationKind}

/-- The configuration with the switch that sorts properties by name. -/
def ordered (c : Configuration) (byName : Bool) : Configuration :=
  { c with options := c.options.set byName .orderByName }

/-- No name and no type depends on the switch. -/
lemma spellsAlike_ordered (c : Configuration) (byName : Bool) :
    (c.ordered byName).SpellsAlike c.toContext where
  model := rfl
  includeEnums := rfl
  makeNullable := rfl
  prefixClasses := rfl
  prefixInterfaces := rfl
  typeTransform := rfl
  propertyTransform := rfl
  mapping _ := rfl
  sources := .refl _

-- The roots and their properties are the same, and so are the parts of a block besides its lines.

lemma importList_ordered (c : Configuration) (byName : Bool) :
    (c.ordered byName).importList = c.importList := by
  rw [importList, importList, (c.spellsAlike_ordered byName).importName]
  rfl

lemma lineOf_ordered (c : Configuration) (byName : Bool) :
    (c.ordered byName).lineOf kind = c.lineOf kind := by
  funext line
  rw [Context.lineOf, Context.lineOf, (c.spellsAlike_ordered byName).field]

lemma enumsOfLines_ordered (c : Configuration) (byName : Bool) :
    (c.ordered byName).enumsOfLines = c.enumsOfLines := by
  funext lines
  rw [enumsOfLines, enumsOfLines, (c.spellsAlike_ordered byName).enumsOf]

/-- Properties of a type in the order of reflection, under the names that they are written with: its
own ones first and then, unless these are left to the base, those of its ancestors from the nearest
on. Excluded ones are left out. -/
structure Reflected (c : Configuration) (d : TypeDef) (named : List (String × Property)) :
    Prop where
  names : ∀ line ∈ named, c.propertyName line.2.name = .ok line.1
  order : named.map (·.2) =
    (d.properties ++
      if c.options.preserveInheritance then [] else c.model.inheritedProperties d).filter fun p =>
        !c.registrations.isPropertyExcluded d.ref p.name
  inherited :
    (c.model.inheritedProperties d).Sublist ((c.model.ancestors d).flatMap Link.properties)

/-- Properties are named in the order of reflection. -/
lemma reflected_of_eq_ok {named} (h : c.reflected d = .ok named) : c.Reflected d named := by
  have hall : List.Forall₂ (fun line p => c.propertyName line.2.name = .ok line.1 ∧ line.2 = p)
      named (c.visibleProperties d) := by
    refine ((mapM_eq_ok.1 h).imp fun p line hline => ?_).flip
    obtain ⟨name, hname, rfl⟩ := map_eq_ok.1 hline
    exact ⟨hname, rfl⟩
  obtain ⟨names, horder⟩ := (List.forall₂_and_left _ _).1 hall
  have horder : named.map (·.2) = c.visibleProperties d := by
    rwa [← List.forall₂_eq_eq_eq, List.forall₂_map_left_iff]
  refine ⟨names, ?_, firstOfName_sublist⟩
  rw [horder, visibleProperties, Module.properties]
  cases c.options.preserveInheritance with
  | true => rw [if_pos rfl, if_pos rfl, List.append_nil]
  | false => rfl

/-- The block of a root that is sorted by name beside the one that is not. They have the same text
before and behind the lines. -/
inductive SortedBlock (c : Configuration) (kind : DeclarationKind) : Block → Block → Prop where
  /-- An enumeration has no properties. -/
  | enumeration {block : Block} :
    block.definition.isEnum = true → block.lines = [] → SortedBlock c kind block block
  | type {d opening closing sorted named lines lines'} :
    d.isEnum = false →
    c.Reflected d named →
    SortedByName sorted named →
    sorted.mapM (c.lineOf kind) = .ok lines →
    named.mapM (c.lineOf kind) = .ok lines' →
    lines.Perm lines' →
    SortedBlock c kind ⟨d, opening, lines, closing⟩ ⟨d, opening, lines', closing⟩

/-- The same properties are written, or naming one of them fails. -/
lemma together_writtenProperties (c : Configuration) (d : TypeDef) :
    Together (fun sorted named => c.Reflected d named ∧ SortedByName sorted named)
      ((c.ordered true).writtenProperties d) ((c.ordered false).writtenProperties d) := by
  have hreflected (byName : Bool) : (c.ordered byName).reflected d = c.reflected d := rfl
  rw [writtenProperties_eq, writtenProperties_eq, hreflected, hreflected]
  cases h : c.reflected d with
  | error e => exact .error
  | ok named => exact .ok ⟨reflected_of_eq_ok h, sortedByName_mergeSort named⟩

lemma together_blockOf (c : Configuration) (kind : DeclarationKind) (d : TypeDef) :
    Together (c.SortedBlock kind) ((c.ordered true).blockOf kind d)
      ((c.ordered false).blockOf kind d) := by
  rw [blockOf, blockOf]
  split
  case isTrue henum => exact .ok (.enumeration henum rfl)
  case isFalse henum =>
    have hname (byName : Bool) : (c.ordered byName).typeName d = c.typeName d := by
      rw [(c.spellsAlike_ordered byName).typeName]
    have hbase (byName : Bool) : (c.ordered byName).baseName d = c.baseName d := by
      rw [(c.spellsAlike_ordered byName).baseName]
    rw [hname, hname, hbase, hbase, lineOf_ordered, lineOf_ordered]
    refine (Together.refl _).bind fun name _ _ _ heq => ?_
    cases heq
    refine (Together.refl _).bind fun base _ _ _ heq => ?_
    cases heq
    refine (c.together_writtenProperties d).bind fun sorted named _ _ h => ?_
    obtain ⟨hreflected, hsorted⟩ := h
    refine (Together.of_perm hsorted.perm).bind fun lines lines' hlines hlines' hperm => ?_
    exact .ok (.type (Bool.not_eq_true _ ▸ henum) hreflected hsorted hlines hlines' hperm)

/-- The same lines are written root by root, or naming one of them fails. -/
lemma together_lines (c : Configuration) :
    Together List.Perm (c.ordered true).lines (c.ordered false).lines := by
  have hroot (d : TypeDef) :
      Together List.Perm ((c.ordered true).rootLines d) ((c.ordered false).rootLines d) := by
    rw [rootLines, rootLines]
    split
    case isTrue => exact .ok (.refl [])
    case isFalse => exact (c.together_writtenProperties d).imp fun _ _ h => h.2.perm
  rw [lines, lines]
  exact (Together.mapM hroot c.roots).map fun _ _ hall => List.Perm.flatten_congr hall

/-- What is generated with properties sorted by name beside what is generated without. -/
inductive SortedScript (c : Configuration) (kind : DeclarationKind) :
    String × Configuration → String × Configuration → Prop where
  | mk {imports blocks blocks' known known'} :
    c.importList = .ok imports →
    c.roots.mapM ((c.ordered true).blockOf kind) = .ok blocks →
    c.roots.mapM ((c.ordered false).blockOf kind) = .ok blocks' →
    List.Forall₂ (c.SortedBlock kind) blocks blocks' →
    known.Perm known' →
    SortedScript c kind
      (Script.importsText imports ++ String.join (blocks.map Block.text) ++
        ((c.ordered true).knowing known).enumsText, (c.ordered true).knowing known)
      (Script.importsText imports ++ String.join (blocks'.map Block.text) ++
        ((c.ordered false).knowing known').enumsText, (c.ordered false).knowing known')

/-- Sorting properties by name is only an order. Sorted or not, generation fails both times, or it
succeeds both times with the same imports, with blocks that differ in nothing but the order of their
lines, and with the same enumerations known. -/
theorem generate_ordered (c : Configuration) (kind : DeclarationKind) :
    Together (c.SortedScript kind) ((c.ordered true).generate kind)
      ((c.ordered false).generate kind) := by
  rw [generate_eq_blocks, generate_eq_blocks, importList_ordered, importList_ordered]
  refine (Together.refl _).bind fun imports _ himports _ heq => ?_
  cases heq
  have hblocks := Together.mapM (c.together_blockOf kind) c.roots
  refine hblocks.bind fun blocks blocks' hblocks hblocks' hall => ?_
  refine c.together_lines.bind fun lines lines' _ _ hperm => ?_
  refine .ok (.mk himports hblocks hblocks' hall ?_)
  rw [enumsOfLines_ordered, enumsOfLines_ordered]
  exact insertAll_perm fun ref => (enumsOfLines_perm hperm).mem_iff

end Typings.Generation.Configuration
