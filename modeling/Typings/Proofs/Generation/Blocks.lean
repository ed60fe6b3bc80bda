import Typings.Proofs.Generation.Lines

/-!
# Blocks in their parts

A script writes one block for each root. A block opens with the first line of its root, holds one
line for each property that is written, and closes. What is generated is the imports, the blocks
and, behind them, the enumerations that are known then.
-/

namespace Typings.Generation

/-- The block of a root in its parts. -/
structure Block where
  /-- The definition of the root. -/
  definition : TypeDef
  /-- The text before the lines of properties. -/
  opening : String
  /-- The lines, each beside the name that the property has in the module. -/
  lines : List (String × String)
  /-- The text behind the lines, with the empty line. -/
  closing : String
  deriving DecidableEq, Repr

/-- The text of a block. -/
def Block.text (b : Block) : String :=
  b.opening ++ String.join (b.lines.map Prod.snd) ++ b.closing

namespace Context

/-- The line of a property beside the name that the property has in the module. -/
def lineOf (c : Context) (kind : DeclarationKind) (line : String × Property) :
    Except Error (String × String) :=
  (c.field line).map fun field => (line.2.name, field.text kind)

/-- The lines of a block are the texts of the fields. -/
lemma mapM_lineOf (c : Context) (kind : DeclarationKind) (written : List (String × Property)) :
    (written.mapM (c.lineOf kind)).map (List.map Prod.snd) =
      (written.mapM c.field).map (List.map (Field.text kind)) := by
  rw [← mapM_map, ← mapM_map]
  congr 1
  funext line
  rw [lineOf]
  cases c.field line <;> rfl

end Context

namespace Configuration

variable {c : Configuration} {d : TypeDef} {kind : DeclarationKind}

/-- The text before the fields of a declared class or interface. -/
def openingText (kind : DeclarationKind) (d : TypeDeclaration) : String :=
  d.headerText kind ++ "\x7b\n" ++
    match kind with
    | .interface => ""
    | .classKind => d.constructorText

/-- The block of a root in its parts. The lines of an enumeration are no properties. -/
def blockOf (c : Configuration) (kind : DeclarationKind) (d : TypeDef) : Except Error Block :=
  if d.isEnum then .ok ⟨d, (c.declareEnum d).text c.options.enumStyle, [], "\n"⟩
  else do
    let name ← c.typeName d
    let base ← (if c.options.preserveInheritance then c.baseName d else .ok none)
    let written ← c.writtenProperties d
    let lines ← written.mapM (c.lineOf kind)
    .ok ⟨d, openingText kind ⟨name, base, []⟩, lines, "\x7d\n\n"⟩

/-- A block consists of its parts. -/
lemma block_eq (c : Configuration) (kind : DeclarationKind) (d : TypeDef) :
    c.block kind d = (c.blockOf kind d).map Block.text := by
  rw [block, declare, blockOf]
  split
  · simp [Except.map, Declaration.text, Block.text, String.join]
  · rw [declareType_eq]
    cases c.typeName d with
    | error e => rfl
    | ok name =>
      cases if c.options.preserveInheritance then c.baseName d else .ok none with
      | error e => rfl
      | ok base =>
        rw [fields]
        cases c.writtenProperties d with
        | error e => rfl
        | ok written =>
          have hlines := c.mapM_lineOf kind written
          cases hfields : written.mapM c.field with
          | error e =>
            rw [hfields] at hlines
            simp only [ok_bind, hfields, map_eq_error.1 hlines]
            rfl
          | ok fields =>
            rw [hfields] at hlines
            obtain ⟨lines, hlines, htexts⟩ := map_eq_ok.1 hlines
            simp only [ok_bind, hfields, hlines]
            refine congrArg Except.ok ?_
            rw [Block.text, htexts]
            simp only [Declaration.text, TypeDeclaration.text, openingText, String.append_assoc]
            rfl

/-- A block is one of its definition. -/
lemma definition_blockOf {b} (h : c.blockOf kind d = .ok b) : b.definition = d := by
  rw [blockOf] at h
  split at h
  case isTrue => cases h; rfl
  case isFalse =>
    obtain ⟨_, _, h⟩ := bind_eq_ok.1 h
    obtain ⟨_, _, h⟩ := bind_eq_ok.1 h
    obtain ⟨_, _, h⟩ := bind_eq_ok.1 h
    obtain ⟨_, _, h⟩ := bind_eq_ok.1 h
    cases h
    rfl

/-- The texts of declared roots are those of their blocks. -/
lemma mapM_blockOf (c : Configuration) (kind : DeclarationKind) (ds : List TypeDef) :
    (ds.mapM (c.blockOf kind)).map (List.map Block.text) =
      (ds.mapM c.declare).map (List.map (c.rootText kind)) := by
  rw [← mapM_map, ← mapM_map]
  congr 1
  funext d
  exact (c.block_eq kind d).symm

/-- What a script declares as enumerations. -/
def enumsText (c : Configuration) : String :=
  String.join (c.shownEnums.map fun d => (c.declareEnum d).text c.options.enumStyle ++ "\n")

/-- What is generated is the imports, the blocks and the enumerations that are known then: those
known before and those that the written lines are of. -/
lemma generate_eq_blocks (c : Configuration) (kind : DeclarationKind) :
    c.generate kind = (do
      let imports ← c.importList
      let blocks ← c.roots.mapM (c.blockOf kind)
      let lines ← c.lines
      let known := insertAll (c.enumsOfLines lines) c.registrations.enums
      .ok (Script.importsText imports ++ String.join (blocks.map Block.text) ++
        (c.knowing known).enumsText, c.knowing known)) := by
  cases himports : c.importList with
  | error e =>
    rw [generate_eq_script, script, himports]
    rfl
  | ok imports =>
    have hblocks := mapM_blockOf c kind c.roots
    cases hroots : c.roots.mapM c.declare with
    | error e =>
      rw [hroots] at hblocks
      rw [generate_eq_script, script, himports, ok_bind, ok_bind, hroots, map_eq_error.1 hblocks]
      rfl
    | ok roots =>
      rw [hroots] at hblocks
      obtain ⟨blocks, hblocks, htexts⟩ := map_eq_ok.1 hblocks
      obtain ⟨lines, hlines, -, henums⟩ := exists_lines_of_declare hroots
      have hlines : c.lines = .ok lines := hlines
      rw [generate_of_declare kind himports hroots, ok_bind, hblocks, ok_bind, hlines, ok_bind,
        htexts, knownEnums, henums]
      rfl

end Configuration

end Typings.Generation
