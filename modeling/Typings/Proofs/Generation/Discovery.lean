import Typings.Proofs.Generation.Lines
import Typings.Proofs.Generation.Spelling
import Typings.Manifest.Reader
import Typings.Proofs.Markup.Writing

/-!
# Discovery of enumerations

A line is written as an enumeration when its type is one under any number of nullable wrappers, but
the enumeration is met in the line only when there is one wrapper at most. So an enumeration that is
met under more of them alone is not declared.
-/

namespace Typings

/-- The reference is a bare name under any number of nullable wrappers. -/
inductive TypeRef.Wraps (name : String) : TypeRef → Prop where
  | bare : Wraps name (.named name)
  | nullable {t} : Wraps name t → Wraps name (.nullable t)

namespace Module

variable {m : Module} {t : TypeRef} {d : TypeDef}

/-- A generic type applied to arguments is no enumeration. -/
lemma classifyGeneric_ne_enumeration {name args} :
    m.classifyGeneric name args ≠ .enumeration d := by
  intro h
  rw [classifyGeneric] at h
  split at h
  · cases h
  · split at h
    · cases h
    · split at h <;> cases h

/-- A bare name has the shape of an enumeration when it leads to one. -/
lemma classifyNamed_eq_enumeration {name} :
    m.classifyNamed name = .enumeration d ↔ m.find? name = some d ∧ d.isEnum = true := by
  rw [classifyNamed]
  cases m.find? name with
  | none => simp
  | some e =>
    dsimp only
    by_cases henum : e.isEnum = true
    · rw [if_pos henum, Shape.enumeration.injEq, Option.some.injEq]
      exact ⟨fun h => ⟨h, h ▸ henum⟩, And.left⟩
    · rw [if_neg henum]
      refine iff_of_false (fun h => ?_) fun h => henum (Option.some.inj h.1 ▸ h.2)
      split at h
      · cases h
      · split at h
        · cases h
        · split at h <;> cases h

/-- The references of the shape of an enumeration are its bare name and the nullable forms of that,
those of nullable forms among them. -/
lemma classify_eq_enumeration :
    m.classify t = .enumeration d ↔
      TypeRef.Wraps d.name t ∧ m.find? d.name = some d ∧ d.isEnum = true := by
  constructor
  · intro h
    induction t with
    | nullable t ih =>
      obtain ⟨hwraps, hd⟩ := ih h
      exact ⟨.nullable hwraps, hd⟩
    | named n =>
      obtain ⟨hd, henum⟩ := classifyNamed_eq_enumeration.1 h
      obtain rfl := name_of_find? hd
      exact ⟨.bare, hd, henum⟩
    | generic n args => exact absurd h classifyGeneric_ne_enumeration
    | builtin b =>
      rw [classify] at h
      split at h <;> cases h
    | parameter n => cases h
    | array t => cases h
  · rintro ⟨hwraps, hd⟩
    induction hwraps with
    | bare => exact classifyNamed_eq_enumeration.2 hd
    | nullable _ ih => exact ih

/-- The bare name of an enumeration and its nullable form are the references that it is met in. -/
lemma enumDefinition?_eq_some :
    m.enumDefinition? t = some d ↔
      (t = d.ref ∨ t = .nullable d.ref) ∧ m.find? d.name = some d ∧ d.isEnum = true := by
  have named {n : String} : (m.find? n).filter TypeDef.isEnum = some d ↔
      n = d.name ∧ m.find? d.name = some d ∧ d.isEnum = true := by
    rw [Option.filter_eq_some_iff]
    constructor
    · rintro ⟨hd, henum⟩
      obtain rfl := name_of_find? hd
      exact ⟨rfl, hd, henum⟩
    · rintro ⟨rfl, hd, henum⟩
      exact ⟨hd, henum⟩
  cases t with
  | named n => simpa [enumDefinition?, TypeRef.withoutNullable, TypeDef.ref] using named
  | nullable t =>
    cases t with
    | named n => simpa [enumDefinition?, TypeRef.withoutNullable, TypeDef.ref] using named
    | _ => simp [enumDefinition?, TypeRef.withoutNullable, TypeDef.ref]
  | _ => simp [enumDefinition?, TypeRef.withoutNullable, TypeDef.ref]

end Module

/-- Under one wrapper at most there is the bare name or the nullable form of it. -/
lemma TypeRef.Wraps.eq_or_eq_nullable {name : String} {t : TypeRef} (h : TypeRef.Wraps name t)
    (honce : t.withoutNullable.isNullable = false) :
    t = .named name ∨ t = .nullable (.named name) := by
  cases h with
  | bare => exact .inl rfl
  | nullable h =>
    cases h with
    | bare => exact .inr rfl
    | nullable => cases honce

namespace Generation

namespace Context

variable {c : Context} {d : TypeDef}

/-- Neither the reference nor what it wraps as nullable is mapped. -/
def NoMapping (c : Context) : TypeRef → Prop
  | .nullable t => c.mappings.find? (.nullable t) = none ∧ c.NoMapping t
  | t => c.mappings.find? t = none

/-- A bare name under nullable wrappers is spelled by the shape of the name when nothing maps it. -/
lemma exists_spellShape_of_wraps {name : String} {t : TypeRef} (hwraps : TypeRef.Wraps name t)
    (hfree : c.NoMapping t) :
    ∃ bound, c.spell t = c.spellShape bound (c.model.classifyNamed name) := by
  suffices within : ∀ bound, t.height ≤ bound →
      ∃ deeper, c.spellWithin bound t = c.spellShape deeper (c.model.classifyNamed name) from
    within _ (c.height_le_spellingDepth t)
  induction hwraps with
  | bare =>
    intro bound hbound
    obtain ⟨bound, rfl⟩ : ∃ deeper, bound = deeper + 1 := Nat.exists_eq_add_of_le' hbound
    exact ⟨bound, spellWithin_of_shape hfree rfl⟩
  | nullable _ ih =>
    intro bound hbound
    obtain ⟨bound, rfl⟩ := Nat.exists_eq_add_of_le' (Nat.le_of_add_left_le hbound)
    rw [spellWithin_nullable hfree.1]
    exact ih hfree.2 bound (Nat.le_of_succ_le_succ hbound)

/-- What has the shape of an enumeration is spelled as its name when nothing maps it. -/
lemma spell_of_classify {t : TypeRef} (h : c.model.classify t = .enumeration d)
    (hfree : c.NoMapping t) : c.spell t = .ok d.name := by
  obtain ⟨hwraps, hd⟩ := Module.classify_eq_enumeration.1 h
  obtain ⟨bound, hspell⟩ := exists_spellShape_of_wraps hwraps hfree
  rw [hspell, Module.classifyNamed_eq_enumeration.2 hd]
  rfl

end Context

namespace Configuration

variable {c c' : Configuration} {kind : DeclarationKind} {lines : List (String × Property)}
  {d : TypeDef}

/-- An enumeration of the module is met in lines whose type is its bare name or the nullable form of
that. -/
lemma ref_mem_enumsOfLines (included : c.options.includeEnums = true)
    (hd : c.model.find? d.name = some d) (henum : d.isEnum = true) :
    d.ref ∈ c.enumsOfLines lines ↔
      ∃ line ∈ lines, line.2.type = d.ref ∨ line.2.type = .nullable d.ref := by
  rw [enumsOfLines_eq, if_pos included]
  simp only [List.mem_filterMap, Option.map_eq_some_iff, Module.enumDefinition?_eq_some]
  constructor
  · rintro ⟨line, hline, e, ⟨htype, _, _⟩, href⟩
    exact ⟨line, hline, href ▸ htype⟩
  · rintro ⟨line, hline, htype⟩
    exact ⟨line, hline, d, ⟨htype, hd, henum⟩, rfl⟩

/-- Once a script is generated, the enumeration of a line is known exactly when it was known before
or some line is of its bare name or the nullable form of that; so it is when there is one wrapper at
most around the type of the line. One that is known and not excluded is declared. -/
theorem enumeration_known_iff (included : c.options.includeEnums = true) {out}
    (h : c.generate kind = .ok (out, c')) (hlines : c.lines = .ok lines) {line}
    (hline : line ∈ lines) (hshape : c.model.classify line.2.type = .enumeration d) :
    (c.NoMapping line.2.type → c.spell line.2.type = .ok d.name) ∧
      (d.ref ∈ c'.registrations.enums ↔ d.ref ∈ c.registrations.enums ∨
        ∃ line ∈ lines, line.2.type = d.ref ∨ line.2.type = .nullable d.ref) ∧
      (line.2.type.withoutNullable.isNullable = false → d.ref ∈ c'.registrations.enums) ∧
      (d.ref ∈ c'.registrations.enums → c.registrations.isExcluded d.ref d.name = false →
        d ∈ c'.shownEnums ∧ ∃ front blocks, out = front ++ String.join blocks ∧
          List.Forall₂ (fun d block => c.block kind d = .ok block) c'.shownEnums blocks) := by
  obtain ⟨hwraps, hd, henum⟩ := Module.classify_eq_enumeration.1 hshape
  obtain ⟨script, enums, hscript, _, rfl⟩ := generate_eq_ok.1 h
  have known : d.ref ∈ (c.knowing enums).registrations.enums ↔ d.ref ∈ c.registrations.enums ∨
      ∃ line ∈ lines, line.2.type = d.ref ∨ line.2.type = .nullable d.ref := by
    obtain ⟨lines', hlines', _, rfl⟩ := exists_lines_of_script hscript
    obtain rfl := Except.ok.inj (hlines.symm.trans hlines')
    rw [← ref_mem_enumsOfLines included hd henum]
    exact mem_insertAll
  refine ⟨Context.spell_of_classify hshape, known, fun honce => ?_, fun hknown hshown => ⟨?_, ?_⟩⟩
  · exact known.2 (.inr ⟨line, hline, hwraps.eq_or_eq_nullable honce⟩)
  · exact List.mem_filterMap.2 ⟨d.ref, hknown, shownEnum?_eq_some.2 ⟨hd, henum, hshown⟩⟩
  · obtain ⟨imports, roots, enums, rfl, _, henums⟩ := exists_blocks_of_generate_all h
    exact ⟨imports ++ String.join roots, enums, rfl, henums⟩

/-- An enumeration. -/
def paint : TypeDef :=
  { name := "Color", kind := .enumType, members := [⟨"Red", 0, none⟩] }

/-- A class with the given properties. -/
def painting (properties : List Property) : TypeDef :=
  { name := "Painting", kind := .classType, properties }

/-- The class and the enumeration, of which the class is registered. -/
def gallery (properties : List Property) : Configuration :=
  { model := { name := "Gallery", types := [paint, painting properties] }
    options := { orderByName := false }
    registrations := { types := [.named "Painting"] } }

/-- A property of the enumeration under two nullable wrappers. -/
def varnish : Property :=
  ⟨"Varnish", .nullable (.nullable (.named "Color")), true, none⟩

/-- A property of the enumeration under one nullable wrapper. -/
def ground : Property :=
  ⟨"Ground", .nullable (.named "Color"), true, none⟩

lemma roots_gallery {properties : List Property} :
    (gallery properties).registrations.types.filterMap (gallery properties).rootDefinition? =
      [painting properties] :=
  rfl

lemma lines_gallery {properties : List Property}
    (h : (gallery properties).rootLines (painting properties) = .ok lines) :
    (gallery properties).lines = .ok lines := by
  rw [Configuration.lines, roots_of_singleton roots_gallery, List.mapM_cons, h]
  simp [Except.map]

/-- The class with both properties. -/
def groundedRoot : Root :=
  { declaration := .type ⟨"Painting", none,
      [⟨"varnish", "Color | null", "null"⟩, ⟨"ground", "Color | null", "null"⟩]⟩
    enums := [.named "Color"] }

/-- The enumeration becomes known by the property with one wrapper, and is declared. -/
theorem enumeration_known_iff_of_gallery :
    ∃ out c', (gallery [varnish, ground]).generate .interface = .ok (out, c') ∧
      (gallery [varnish, ground]).lines = .ok [("varnish", varnish), ("ground", ground)] ∧
      (gallery [varnish, ground]).model.classify varnish.type = .enumeration paint ∧
      (gallery [varnish, ground]).model.classify ground.type = .enumeration paint ∧
      (gallery [varnish, ground]).spell varnish.type = .ok "Color" ∧
      paint.ref ∈ c'.registrations.enums ∧ paint ∈ c'.shownEnums := by
  have h := generate_of_singleton .interface roots_gallery rfl
    (show (gallery [varnish, ground]).declare _ = .ok groundedRoot by decide +kernel)
  have hlines := lines_gallery
    (show (gallery [varnish, ground]).rootLines _ = .ok [("varnish", varnish), ("ground", ground)]
      by decide +kernel)
  have hvarnish : (gallery [varnish, ground]).model.classify varnish.type = .enumeration paint := by
    decide +kernel
  have hground : (gallery [varnish, ground]).model.classify ground.type = .enumeration paint := by
    decide +kernel
  have hfree : (gallery [varnish, ground]).NoMapping varnish.type :=
    ⟨by decide +kernel, by decide +kernel,
      show (gallery [varnish, ground]).mappings.find? paint.ref = none by decide +kernel⟩
  obtain ⟨hspelled, _⟩ := enumeration_known_iff rfl h hlines List.mem_cons_self hvarnish
  obtain ⟨_, _, hknown, hshown⟩ := enumeration_known_iff rfl h hlines
    (List.mem_cons_of_mem _ List.mem_cons_self) hground
  exact ⟨_, _, h, hlines, hvarnish, hground, hspelled hfree, hknown rfl,
    (hshown (hknown rfl) (by decide +kernel)).1⟩

/-- The manifest of the class with the property of two wrappers. -/
def varnishMarks : List Markup.Mark :=
  [.opened "module" [("name", "Gallery")], .opened "enum" [("name", "Color")],
    .empty "value" [("name", "Red")], .closed, .opened "class" [("name", "Painting")],
    .empty "property" [("name", "Varnish"), ("type", "Nullable<Color?>")], .closed, .closed]

lemma ofText_varnishMarks :
    Manifest.ofText (.ofList (Markup.written [] varnishMarks)) = .ok (gallery [varnish]).model := by
  rw [Manifest.ofText, Markup.ofText_written (by decide +kernel)]
  decide +kernel

/-- The class with the property of two wrappers. -/
def varnishedRoot : Root :=
  { declaration := .type ⟨"Painting", none, [⟨"varnish", "Color | null", "null"⟩]⟩
    enums := [] }

/-- The enumeration of the only line does not become known. -/
theorem not_forall_enumeration_known :
    ¬ ∀ (text : String) (c : Configuration), Manifest.ofText text = .ok c.model →
      c.model.check = .ok () → c.options.includeEnums = true →
      ∀ kind out c' lines, c.generate kind = .ok (out, c') → c.lines = .ok lines →
        ∀ line ∈ lines, ∀ d, c.model.classify line.2.type = .enumeration d →
          d.ref ∈ c'.registrations.enums := by
  intro h
  have hgenerate := generate_of_singleton .interface roots_gallery rfl
    (show (gallery [varnish]).declare _ = .ok varnishedRoot by decide +kernel)
  have hlines := lines_gallery
    (show (gallery [varnish]).rootLines _ = .ok [("varnish", varnish)] by decide +kernel)
  have hknown := h _ (gallery [varnish]) ofText_varnishMarks (by decide +kernel) rfl .interface
    _ _ _ hgenerate hlines _ List.mem_cons_self paint (by decide +kernel)
  exact absurd hknown (by decide +kernel)

end Configuration

end Generation

end Typings
