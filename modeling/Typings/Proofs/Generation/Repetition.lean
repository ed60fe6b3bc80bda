import Typings.Proofs.Generation.Session

/-!
# Generating again

Neither the imports nor the roots of a script depend on the enumerations that are known. Composing a
script makes known what its lines are of, so composing it again finds nothing new, whichever way the
declarations are written.
-/

namespace Typings.Generation.Configuration

variable {c : Configuration}

/-- The configuration that knows the enumerations of its script composes the same script. -/
lemma script_knowing {script enums} (h : c.script = .ok (script, enums)) :
    (c.knowing enums).script = .ok (script, enums) := by
  obtain ⟨imports, roots, himports, hroots, rfl, rfl⟩ := script_eq_ok.1 h
  have known : (c.knowing (c.knownEnums roots)).knownEnums roots = c.knownEnums roots :=
    insertAll_of_subset fun ref href => mem_insertAll.2 (.inr href)
  -- The imports and the roots are composed without the enumerations.
  exact script_eq_ok.2 ⟨imports, roots, himports, hroots, known.symm, rfl⟩

/-- Generating has the same effect whether the text is written to a file or not. When it fails, it
changes nothing. When it succeeds, it adds the enumerations that the written lines are of, if they
are asked for, behind those that are known, in the order of the lines and each once; after it every
generation succeeds and changes nothing, and one of the same kind gives the same text. -/
theorem generate_effect (c : Configuration) (kind : DeclarationKind) :
    (∀ folder, (c.write kind folder).2 = c.after (.generate kind)) ∧
      (∀ e, c.generate kind = .error e → c.after (.generate kind) = c) ∧
      ∀ out c', c.generate kind = .ok (out, c') → c.after (.generate kind) = c' ∧
        (∃ (script : Script) (lines : List (String × Property)),
          out = script.text kind c.options.enumStyle ∧ c.lines = .ok lines ∧
          lines.mapM c.field = .ok (script.roots.flatMap Declaration.fields) ∧
          c' = c.knowing (c.registrations.enums ++
            ((if c.options.includeEnums then
                lines.filterMap fun line => (c.model.enumDefinition? line.2.type).map TypeDef.ref
              else []).filter fun ref => !c.registrations.enums.contains ref).eraseDups)) ∧
        (∀ kind', ∃ out', c'.generate kind' = .ok (out', c')) ∧
        c'.generate kind = .ok (out, c') := by
  refine ⟨snd_write, fun e => after_of_generate_error, fun out c' h => ⟨after_of_generate h, ?_⟩⟩
  obtain ⟨script, enums, hscript, rfl, rfl⟩ := generate_eq_ok.1 h
  obtain ⟨lines, hlines, hfields, henums⟩ := exists_lines_of_script hscript
  have again (kind' : DeclarationKind) :
      (c.knowing enums).generate kind' =
        .ok (script.text kind' c.options.enumStyle, c.knowing enums) :=
    generate_eq_ok.2 ⟨script, enums, script_knowing hscript, rfl, rfl⟩
  refine ⟨⟨script, lines, rfl, hlines, hfields, ?_⟩, fun kind' => ⟨_, again kind'⟩, again kind⟩
  rw [henums, insertAll_eq_append, enumsOfLines_eq]

/-- A class with properties of two enumerations. -/
def brush : TypeDef :=
  { name := "Brush", kind := .classType
    properties := [⟨"Paint", .named "Color", false, none⟩,
      ⟨"Gloss", .nullable (.named "Finish"), true, none⟩, ⟨"Base", .named "Color", false, none⟩] }

/-- The class is registered, and one of the enumerations is known. -/
def paintbox : Configuration :=
  { model :=
      { name := "Paintbox"
        types := [
          brush,
          { name := "Color", kind := .enumType, members := [⟨"Red", 0, none⟩] },
          { name := "Finish", kind := .enumType, members := [⟨"Matt", 0, none⟩] }] }
    options := { orderByName := false }
    registrations := { types := [.named "Brush"], enums := [.named "Finish"] } }

/-- The configuration that knows the other enumeration too. -/
def fullPaintbox : Configuration :=
  paintbox.knowing [.named "Finish", .named "Color"]

/-- The class with the enumerations of its properties. -/
def brushRoot : Root :=
  { declaration := .type ⟨"Brush", none, [⟨"paint", "Color", "Color.Red"⟩,
      ⟨"gloss", "Finish | null", "null"⟩, ⟨"base", "Color", "Color.Red"⟩]⟩
    enums := [.named "Color", .named "Finish", .named "Color"] }

/-- The script of the class and both enumerations. -/
def paintboxScript : Script :=
  { imports := []
    roots := [brushRoot.declaration]
    enums := [⟨"Finish", [("Matt", 0)]⟩, ⟨"Color", [("Red", 0)]⟩] }

/-- The enumeration that is met becomes known behind the one that is known, once. -/
theorem generate_effect_of_paintbox :
    paintbox.generate .interface =
        .ok (paintboxScript.text .interface .numeric, fullPaintbox) ∧
      paintbox.after (.generate .interface) = fullPaintbox ∧
      (∀ kind, ∃ out, fullPaintbox.generate kind = .ok (out, fullPaintbox)) ∧
      fullPaintbox.generate .interface =
        .ok (paintboxScript.text .interface .numeric, fullPaintbox) := by
  have h : paintbox.generate .interface =
      .ok (paintboxScript.text .interface .numeric, fullPaintbox) :=
    generate_of_singleton .interface
      (show paintbox.registrations.types.filterMap paintbox.rootDefinition? = [brush] from rfl) rfl
      (show paintbox.declare brush = .ok brushRoot by decide +kernel)
  obtain ⟨hafter, _, hkinds, hagain⟩ := (generate_effect paintbox .interface).2.2 _ _ h
  exact ⟨h, hafter, hkinds, hagain⟩

end Typings.Generation.Configuration
