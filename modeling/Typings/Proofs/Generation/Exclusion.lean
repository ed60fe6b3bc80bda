import Typings.Proofs.Generation.Blocks
import Typings.Proofs.Generation.Change
import Typings.Proofs.Generation.Sorting

/-!
# Exclusions

An exclusion takes out and changes nothing else. An excluded property takes its line out of the
block of the type that it is excluded for, also where the type inherits it, but not out of the
blocks of other types. An excluded type, by its reference or by its name, takes out its block. What
stays keeps its text and its place, since sorting is stable.
-/

namespace Typings.Generation

/-- Something that is left out of a script. -/
inductive Exclusion where
  /-- The type of exactly that reference. -/
  | type (ref : TypeRef)
  /-- The types of that name. -/
  | name (name : String)
  /-- A property of one type. -/
  | property (owner : TypeRef) (name : String)
  deriving DecidableEq, Repr

namespace Exclusion

/-- The change that makes the exclusion. -/
def change : Exclusion → Change
  | .type ref => .excludedType ref
  | .name n => .excludedName n
  | .property owner n => .excludedProperty owner n

/-- The exclusion is one of the type with that reference and name. -/
def covers (x : Exclusion) (ref : TypeRef) (name : String) : Bool :=
  match x with
  | .type t => ref == t
  | .name n => name == n
  | .property _ _ => false

/-- The exclusion is one of that property of the type. -/
def coversProperty (x : Exclusion) (owner : TypeRef) (name : String) : Bool :=
  match x with
  | .property t n => owner == t && name == n
  | _ => false

end Exclusion

/-- The block without the lines of the properties of that name. -/
def Block.without (b : Block) (name : String) : Block :=
  { b with lines := b.lines.filter fun line => line.1 != name }

namespace Exclusion

/-- The blocks that an exclusion leaves. -/
def kept : Exclusion → List Block → List Block
  | .type ref, blocks => blocks.filter fun b => b.definition.ref != ref
  | .name n, blocks => blocks.filter fun b => b.definition.name != n
  | .property owner n, blocks =>
    blocks.map fun b => if b.definition.ref = owner then b.without n else b

/-- Left of a block are the lines that are not covered. -/
def trim (x : Exclusion) (b : Block) : Block :=
  { b with lines := b.lines.filter fun line => !x.coversProperty b.definition.ref line.1 }

/-- An exclusion of types leaves all lines of the blocks that it leaves. -/
lemma map_trim_of_covers {x : Exclusion} (h : ∀ owner n, x.coversProperty owner n = false)
    (blocks : List Block) : blocks.map x.trim = blocks := by
  have htrim (b : Block) : x.trim b = b := by simp [trim, h]
  rw [funext htrim, List.map_id']

/-- Left are the blocks that are not covered, with the lines that are not. -/
lemma kept_eq (x : Exclusion) (blocks : List Block) :
    x.kept blocks =
      (blocks.filter fun b => !x.covers b.definition.ref b.definition.name).map x.trim := by
  cases x with
  | type ref =>
    rw [map_trim_of_covers fun _ _ => rfl]
    rfl
  | name n =>
    rw [map_trim_of_covers fun _ _ => rfl]
    rfl
  | property owner n =>
    have hall : (blocks.filter fun b =>
        !(property owner n).covers b.definition.ref b.definition.name) = blocks :=
      List.filter_eq_self.2 fun _ _ => rfl
    rw [kept, hall]
    refine List.map_congr_left fun b _ => ?_
    split
    case isTrue howner => simp [trim, coversProperty, Block.without, howner, bne]
    case isFalse howner => simp [trim, coversProperty, beq_eq_false_iff_ne.2 howner]

end Exclusion

namespace Configuration

variable {c : Configuration} {x : Exclusion} {d : TypeDef} {kind : DeclarationKind}

/-- The configuration with one more exclusion. -/
def excluding (c : Configuration) (x : Exclusion) : Configuration :=
  c.make x.change

-- An exclusion is a registration, and one beside those of types, enumerations and imports.
@[simp] lemma toContext_excluding (c : Configuration) (x : Exclusion) :
    (c.excluding x).toContext = c.toContext := by
  cases x <;> rfl

@[simp] lemma types_excluding (c : Configuration) (x : Exclusion) :
    (c.excluding x).registrations.types = c.registrations.types := by
  cases x <;> rfl

@[simp] lemma enums_excluding (c : Configuration) (x : Exclusion) :
    (c.excluding x).registrations.enums = c.registrations.enums := by
  cases x <;> rfl

@[simp] lemma importList_excluding (c : Configuration) (x : Exclusion) :
    (c.excluding x).importList = c.importList := by
  cases x <;> rfl

/-- Excluded are the types from before and those that the exclusion covers. -/
@[simp] lemma isExcluded_excluding (c : Configuration) (x : Exclusion) (ref : TypeRef)
    (n : String) :
    (c.excluding x).registrations.isExcluded ref n =
      (c.registrations.isExcluded ref n || x.covers ref n) := by
  rw [Bool.eq_iff_iff]
  cases x with
  | type t =>
    simp [excluding, Exclusion.change, make, modifyRegistrations, Registrations.excludeType,
      Registrations.isExcluded, Exclusion.covers, or_right_comm]
  | name m =>
    simp [excluding, Exclusion.change, make, modifyRegistrations, Registrations.excludeName,
      Registrations.isExcluded, Exclusion.covers, or_assoc]
  | property t m =>
    simp [excluding, Exclusion.change, make, modifyRegistrations, Registrations.excludeProperty,
      Registrations.isExcluded, Exclusion.covers]

/-- Excluded are the properties from before and those that the exclusion covers. -/
@[simp] lemma isPropertyExcluded_excluding (c : Configuration) (x : Exclusion) (owner : TypeRef)
    (n : String) :
    (c.excluding x).registrations.isPropertyExcluded owner n =
      (c.registrations.isPropertyExcluded owner n || x.coversProperty owner n) := by
  rw [Bool.eq_iff_iff]
  cases x with
  | property t m =>
    simp [excluding, Exclusion.change, make, modifyRegistrations, Registrations.excludeProperty,
      Registrations.isPropertyExcluded, Exclusion.coversProperty]
  | _ =>
    simp [excluding, Exclusion.change, make, modifyRegistrations, Registrations.excludeType,
      Registrations.excludeName, Registrations.isPropertyExcluded, Exclusion.coversProperty]

/-- A registered type is declared as before, unless it is covered. -/
lemma rootDefinition?_excluding (c : Configuration) (x : Exclusion) (ref : TypeRef) :
    (c.excluding x).rootDefinition? ref =
      (c.rootDefinition? ref).filter fun d => !x.covers d.ref d.name := by
  cases ref with
  | named n =>
    -- What is excluded is asked for the registered reference, which is that of the definition
    -- found.
    simp only [rootDefinition?, toContext_excluding, Option.filter_filter]
    cases hfound : c.model.definition? (.named n) with
    | none => rfl
    | some d =>
      have href : d.ref = .named n := congrArg TypeRef.named (Module.name_of_find? hfound)
      simp only [isExcluded_excluding, Option.filter_some, href, Bool.not_or, Bool.and_assoc]
  | generic n args => rfl
  | builtin b => rfl
  | parameter n => rfl
  | nullable t => rfl
  | array t => rfl

/-- The roots are those from before that are not covered, in their order. -/
lemma roots_excluding (c : Configuration) (x : Exclusion) :
    (c.excluding x).roots = c.roots.filter fun d => !x.covers d.ref d.name := by
  have hfound : c.registrations.types.filterMap (c.excluding x).rootDefinition? =
      (c.registrations.types.filterMap c.rootDefinition?).filter fun d =>
        !x.covers d.ref d.name := by
    rw [List.filter_filterMap]
    congr 1
    funext ref
    exact rootDefinition?_excluding c x ref
  rw [roots_eq, roots_eq, types_excluding, toContext_excluding, hfound,
    filter_mergeSort rootLe_trans rootLe_total]

/-- The properties to write are those from before that are not covered. -/
lemma visibleProperties_excluding (c : Configuration) (x : Exclusion) (d : TypeDef) :
    (c.excluding x).visibleProperties d =
      (c.visibleProperties d).filter fun p => !x.coversProperty d.ref p.name := by
  simp only [visibleProperties, toContext_excluding, isPropertyExcluded_excluding,
    List.filter_filter, Bool.not_or, Bool.and_comm]

/-- The properties are named as before, less those that are covered. -/
lemma reflected_excluding {named} (h : c.reflected d = .ok named) :
    (c.excluding x).reflected d =
      .ok (named.filter fun line => !x.coversProperty d.ref line.2.name) := by
  rw [reflected, visibleProperties_excluding, toContext_excluding]
  refine mapM_filter (fun p line hline => ?_) h
  obtain ⟨_, _, rfl⟩ := map_eq_ok.1 hline
  rfl

/-- The properties that are written are those from before that are not covered, in their order. -/
lemma writtenProperties_excluding {written} (h : c.writtenProperties d = .ok written) :
    (c.excluding x).writtenProperties d =
      .ok (written.filter fun line => !x.coversProperty d.ref line.2.name) := by
  rw [writtenProperties_eq] at h
  obtain ⟨named, hnamed, rfl⟩ := map_eq_ok.1 h
  rw [writtenProperties_eq, reflected_excluding hnamed, toContext_excluding]
  refine congrArg Except.ok ?_
  split
  case isTrue => exact (filter_mergeSort nameLe_trans nameLe_total _ _).symm
  case isFalse => rfl

/-- The lines of a root are those from before that are not covered, in their order. -/
lemma rootLines_excluding {lines} (h : c.rootLines d = .ok lines) :
    (c.excluding x).rootLines d =
      .ok (lines.filter fun line => !x.coversProperty d.ref line.2.name) := by
  rw [rootLines] at *
  split at h
  case isTrue henum =>
    cases h
    rw [if_pos henum]
    rfl
  case isFalse henum =>
    rw [if_neg henum]
    exact writtenProperties_excluding h

/-- The block of a root is the one from before, with the lines that are not covered. -/
lemma blockOf_excluding {b} (h : c.blockOf kind d = .ok b) :
    (c.excluding x).blockOf kind d = .ok (x.trim b) := by
  rw [blockOf] at *
  split at h
  case isTrue henum =>
    cases h
    rw [if_pos henum, toContext_excluding]
    rfl
  case isFalse henum =>
    obtain ⟨name, hname, h⟩ := bind_eq_ok.1 h
    obtain ⟨base, hbase, h⟩ := bind_eq_ok.1 h
    obtain ⟨written, hwritten, h⟩ := bind_eq_ok.1 h
    obtain ⟨lines, hlines, h⟩ := bind_eq_ok.1 h
    cases h
    have hkept := mapM_filter (p := fun line : String × Property =>
        !x.coversProperty d.ref line.2.name)
      (q := fun line : String × String => !x.coversProperty d.ref line.1)
      (fun line text htext => by
        obtain ⟨_, _, rfl⟩ := map_eq_ok.1 htext
        rfl) hlines
    rw [if_neg henum, toContext_excluding, hname, ok_bind, hbase, ok_bind,
      writtenProperties_excluding hwritten, ok_bind, hkept, ok_bind]
    rfl

/-- The blocks of the roots are those that the exclusion leaves. -/
lemma blocks_excluding {blocks} (h : c.roots.mapM (c.blockOf kind) = .ok blocks) :
    (c.excluding x).roots.mapM ((c.excluding x).blockOf kind) = .ok (x.kept blocks) := by
  have hkept := mapM_filter (p := fun d => !x.covers d.ref d.name)
    (q := fun b : Block => !x.covers b.definition.ref b.definition.name)
    (fun d b hb => by rw [definition_blockOf hb]) h
  rw [roots_excluding, Exclusion.kept_eq, mapM_eq_ok, List.forall₂_map_right_iff]
  exact (mapM_eq_ok.1 hkept).imp fun d b hb => blockOf_excluding hb

/-- The lines of roots that are left are among those of all roots. -/
lemma exists_lines_excluding {ds : List TypeDef} {lists} (p : TypeDef → Bool)
    (h : ds.mapM c.rootLines = .ok lists) :
    ∃ lists', (ds.filter p).mapM (c.excluding x).rootLines = .ok lists' ∧
      lists'.flatten.Sublist lists.flatten := by
  rw [mapM_eq_ok] at h
  induction h with
  | nil => exact ⟨[], rfl, .slnil⟩
  | @cons d lines ds lists hlines _ ih =>
    obtain ⟨lists', hlists', hsub⟩ := ih
    by_cases hd : p d
    · rw [List.filter_cons_of_pos hd]
      exact ⟨_, mapM_eq_ok.2 (.cons (rootLines_excluding hlines) (mapM_eq_ok.1 hlists')),
        List.filter_sublist.append hsub⟩
    · rw [List.filter_cons_of_neg hd]
      exact ⟨lists', hlists', hsub.trans (List.sublist_append_right lines lists.flatten)⟩

/-- The roots that are left are declared, with enumerations among those from before. -/
lemma exists_roots_excluding {roots blocks} (hroots : c.roots.mapM c.declare = .ok roots)
    (hblocks : c.roots.mapM (c.blockOf kind) = .ok blocks) :
    ∃ roots', (c.excluding x).roots.mapM (c.excluding x).declare = .ok roots' ∧
      roots'.map ((c.excluding x).rootText kind) = (x.kept blocks).map Block.text ∧
      ∀ ref ∈ roots'.flatMap (·.enums), ref ∈ roots.flatMap (·.enums) := by
  have hkept := blocks_excluding (x := x) hblocks
  have htexts := mapM_blockOf (c.excluding x) kind (c.excluding x).roots
  rw [hkept] at htexts
  obtain ⟨roots', hroots', htexts⟩ := map_eq_ok.1 htexts.symm
  refine ⟨roots', hroots', htexts, fun ref href => ?_⟩
  obtain ⟨_, hlines, -, henums⟩ := exists_lines_of_declare hroots
  obtain ⟨_, hlines', -, henums'⟩ := exists_lines_of_declare hroots'
  obtain ⟨lists, hlists, rfl⟩ := map_eq_ok.1 hlines
  obtain ⟨left, hleft, hsub⟩ :=
    exists_lines_excluding (x := x) (fun d => !x.covers d.ref d.name) hlists
  rw [roots_excluding, hleft] at hlines'
  cases hlines'
  rw [henums', enumsOfLines, toContext_excluding] at href
  rw [henums]
  exact (sublist_enumsOfLines hsub).subset href

/-- An enumeration is declared for a reference as before, unless it is covered. -/
lemma shownEnum?_excluding (c : Configuration) (x : Exclusion) (ref : TypeRef) :
    (c.excluding x).shownEnum? ref = (c.shownEnum? ref).filter fun d => !x.covers ref d.name := by
  simp only [shownEnum?, toContext_excluding, Option.filter_filter, isExcluded_excluding,
    Bool.not_or, Bool.and_assoc]

/-- An exclusion takes out of a script what it covers and nothing else. The imports are the same. An
excluded type loses its block, and an excluded property loses its line in the block of its type,
while all other blocks and lines stay as they are and where they are. No enumeration becomes known
that was not, and a known one is declared as before unless it is covered. -/
theorem generate_excluding {step : Step} (hstep : step.change c.model = .ok x.change) {out c'}
    (h : c.generate kind = .ok (out, c')) :
    c.apply step = .ok (c.excluding x) ∧
      ∃ imports blocks out' c'',
        c.importList = .ok imports ∧ (c.excluding x).importList = .ok imports ∧
        c.roots.mapM (c.blockOf kind) = .ok blocks ∧
        (c.excluding x).roots.mapM ((c.excluding x).blockOf kind) = .ok (x.kept blocks) ∧
        (c.excluding x).generate kind = .ok (out', c'') ∧
        out = Script.importsText imports ++ String.join (blocks.map Block.text) ++ c'.enumsText ∧
        out' = Script.importsText imports ++ String.join ((x.kept blocks).map Block.text) ++
          c''.enumsText ∧
        (∀ ref ∈ c''.registrations.enums, ref ∈ c'.registrations.enums) ∧
        (∀ ref d, c''.shownEnum? ref = some d ↔
          c'.shownEnum? ref = some d ∧ x.covers ref d.name = false) ∧
        ∀ d ∈ c''.shownEnums, d ∈ c'.shownEnums := by
  refine ⟨by rw [apply_eq, hstep]; rfl, ?_⟩
  obtain ⟨script, known, hscript, -, -⟩ := generate_eq_ok.1 h
  obtain ⟨imports, roots, himports, hroots, -, -⟩ := script_eq_ok.1 hscript
  cases h.symm.trans (generate_of_declare kind himports hroots)
  have htexts := mapM_blockOf c kind c.roots
  rw [hroots] at htexts
  obtain ⟨blocks, hblocks, htexts⟩ := map_eq_ok.1 htexts
  obtain ⟨roots', hroots', htexts', henums⟩ := exists_roots_excluding (x := x) hroots hblocks
  have himports' : (c.excluding x).importList = .ok imports := by
    rw [importList_excluding, himports]
  have hknown : ∀ ref ∈ (c.excluding x).knownEnums roots', ref ∈ c.knownEnums roots := by
    intro ref href
    rw [knownEnums, mem_insertAll, enums_excluding] at href
    rw [knownEnums, mem_insertAll]
    exact href.imp_right (henums ref)
  have hshown : ∀ ref d,
      ((c.excluding x).knowing ((c.excluding x).knownEnums roots')).shownEnum? ref = some d ↔
        (c.knowing (c.knownEnums roots)).shownEnum? ref = some d ∧
          x.covers ref d.name = false := by
    intro ref d
    show (c.excluding x).shownEnum? ref = some d ↔ c.shownEnum? ref = some d ∧ _
    rw [shownEnum?_excluding, Option.filter_eq_some_iff, Bool.not_eq_true']
  refine ⟨imports, blocks, _, _, himports, himports', hblocks, blocks_excluding hblocks,
    generate_of_declare kind himports' hroots', ?_, ?_, hknown, hshown, fun d hd => ?_⟩
  · rw [htexts]
    rfl
  · rw [htexts']
    rfl
  · obtain ⟨ref, href, hd⟩ := List.mem_filterMap.1 hd
    exact List.mem_filterMap.2 ⟨ref, hknown ref href, ((hshown ref d).1 hd).1⟩

/-- The kinds of a work. -/
def genre : TypeDef where
  name := "Genre"
  kind := .enumType
  members := [{ name := "Novel", value := 0 }]

/-- A work with two properties. -/
def work : TypeDef where
  name := "Work"
  kind := .classType
  properties := [⟨"Title", .builtin .string, false, none⟩, ⟨"Genre", genre.ref, false, none⟩]

/-- A print of a work, which is flattened with its properties. -/
def print : TypeDef where
  name := "Print"
  kind := .classType
  base := some work.ref

/-- Prints and works, with the print registered first. The properties keep their order. -/
def library : Configuration where
  model := { name := "Library", types := [print, work, genre] }
  options := { orderByName := false }
  registrations := { types := [print.ref, work.ref] }

/-- What both types are declared with. -/
def libraryRoot (name : String) : Root where
  declaration := .type ⟨name, none, [⟨"title", "string | null", "''"⟩,
    ⟨"genre", "Genre", "Genre.Novel"⟩]⟩
  enums := [genre.ref]

/-- The blocks of both types. -/
def libraryBlock (d : TypeDef) : Block where
  definition := d
  opening := "export interface " ++ d.name ++ "\n\x7b\n"
  lines := [("Title", "    title: string | null;\n"), ("Genre", "    genre: Genre;\n")]
  closing := "\x7d\n\n"

lemma roots_library : library.roots = [work, print] := by cbv

lemma declare_library :
    library.roots.mapM library.declare = .ok [libraryRoot "Work", libraryRoot "Print"] := by
  rw [roots_library]
  decide +kernel

lemma blockOf_library :
    library.roots.mapM (library.blockOf .interface) =
      .ok [libraryBlock work, libraryBlock print] := by
  rw [roots_library]
  decide +kernel

/-- The work loses the line of its kind, and the print keeps it. -/
theorem generate_excluding_of_library :
    (Step.excludeProperty "Work" "Genre").change library.model =
        .ok (Exclusion.property work.ref "Genre").change ∧
      ∃ out c', library.generate .interface = .ok (out, c') ∧ ∃ out' c'',
        (library.excluding (.property work.ref "Genre")).generate .interface = .ok (out', c'') ∧
        out' = "export interface Work\n\x7b\n    title: string | null;\n\x7d\n\n" ++
          "export interface Print\n\x7b\n    title: string | null;\n    genre: Genre;\n\x7d\n\n" ++
          c''.enumsText := by
  have hstep : (Step.excludeProperty "Work" "Genre").change library.model =
      .ok (Exclusion.property work.ref "Genre").change := by
    have hread : readRef "Work" = .ok work.ref := by decide +kernel
    rw [Step.change, hread]
    rfl
  have h := generate_of_declare .interface rfl declare_library
  obtain ⟨-, imports, blocks, out', c'', himports, -, hblocks, -, hgenerate, -, hout, -⟩ :=
    generate_excluding hstep h
  cases himports
  cases blockOf_library.symm.trans hblocks
  exact ⟨hstep, _, _, h, out', c'', hgenerate, hout⟩

end Configuration

end Typings.Generation
