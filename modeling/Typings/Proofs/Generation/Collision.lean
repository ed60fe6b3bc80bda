import Typings.Proofs.Generation.Lines
import Typings.Proofs.Module.Hiding

/-!
# Colliding names

Names of properties are compared as they are when a module is checked and when inherited properties
are hidden, but they are written with their first character in lower case. So two properties of a
block are written under one name exactly when their names differ in the case of that character only.
-/

namespace Typings

namespace Text

/-- One character alone has a lower-case form of two, the capital I with a dot above. -/
lemma lowercase_cases (x : Char) :
    x = '\u0130' ∧ lowercase x = ['i', '\u0307'] ∨ x ≠ '\u0130' ∧ ∃ y, lowercase x = [y] := by
  by_cases hx : x = '\u0130'
  · subst hx
    exact .inl ⟨rfl, rfl⟩
  · refine .inr ⟨hx, ?_⟩
    rw [lowercase, if_neg hx]
    split
    · exact ⟨_, rfl⟩
    · split
      · exact ⟨_, rfl⟩
      · exact ⟨_, rfl⟩

/-- The images of the runs lie behind the small Latin letters. -/
lemma lt_image_of_mem_lowercaseRuns : ∀ run ∈ lowercaseRuns, 'i'.toNat < run.2.2.2 := by
  decide +kernel

/-- The number of the character of a number is that number, or zero where it is of no character. -/
lemma toNat_ofNat_cases (n : Nat) : (Char.ofNat n).toNat = n ∨ (Char.ofNat n).toNat = 0 := by
  by_cases hvalid : n.isValidChar
  · rw [Char.ofNat, dif_pos hvalid]
    exact .inl rfl
  · rw [Char.ofNat, dif_neg hvalid]
    exact .inr rfl

/-- Two characters have a small i as their lower-case form. -/
lemma lowercase_eq_i {x : Char} : lowercase x = ['i'] ↔ x = 'i' ∨ x = 'I' := by
  constructor
  · intro h
    by_cases hascii : x.toNat < 128
    · have letters : ∀ n < 128, (Char.ofNat n).toLower = 'i' →
          Char.ofNat n = 'i' ∨ Char.ofNat n = 'I' := by decide
      rw [lowercase_ascii hascii, List.singleton_inj] at h
      have hx := letters x.toNat hascii
      rw [Char.ofNat_toNat] at hx
      exact hx h
    · rw [lowercase, if_neg hascii] at h
      split at h
      · cases h
      · split at h
        case h_1 run first last step image hrun =>
          have hlt : 'i'.toNat < image :=
            lt_image_of_mem_lowercaseRuns _ (List.mem_of_find?_eq_some hrun)
          have hnumber := toNat_ofNat_cases (image + (x.toNat - first))
          rw [List.singleton_inj.1 h] at hnumber
          rcases hnumber with hi | hzero
          · omega
          · exact absurd hzero (by decide)
        case h_2 =>
          exact .inl (List.singleton_inj.1 h)
  · rintro (rfl | rfl)
    · rfl
    · rfl

end Text

namespace Generation

open Text

/-- Names that are told apart by the case of their first character only. The lower-case form of the
capital I with a dot is a small i and the dot, so a name that has the dot in its rest counts too. -/
inductive DifferInCase : String → String → Prop where
  | first {x y rest} : x ≠ y → lowercase x = lowercase y →
      DifferInCase (.ofList (x :: rest)) (.ofList (y :: rest))
  | dotted {y rest} : y = 'i' ∨ y = 'I' →
      DifferInCase (.ofList ('\u0130' :: rest)) (.ofList (y :: '\u0307' :: rest))
  | undotted {x rest} : x = 'i' ∨ x = 'I' →
      DifferInCase (.ofList (x :: '\u0307' :: rest)) (.ofList ('\u0130' :: rest))

/-- A name that is not empty is written with the lower-case form of its first character. -/
lemma lowerFirst_cons (x : Char) (rest : List Char) :
    lowerFirst (.ofList (x :: rest)) = .ofList (lowercase x ++ rest) := by
  rw [lowerFirst, String.toList_ofList]

/-- Names that begin with characters are written alike only if they differ in case at most. -/
lemma eq_or_differInCase {x y : Char} {rest rest' : List Char}
    (h : lowercase x ++ rest = lowercase y ++ rest') :
    String.ofList (x :: rest) = .ofList (y :: rest') ∨
      DifferInCase (.ofList (x :: rest)) (.ofList (y :: rest')) := by
  rcases lowercase_cases x with ⟨rfl, hx⟩ | ⟨_, x', hx⟩
  · rcases lowercase_cases y with ⟨rfl, hy⟩ | ⟨_, y', hy⟩
    · exact .inl (by rw [List.append_cancel_left h])
    · rw [hx, hy] at h
      cases h
      exact .inr (.dotted (lowercase_eq_i.1 hy))
  · rcases lowercase_cases y with ⟨rfl, hy⟩ | ⟨_, y', hy⟩
    · rw [hx, hy] at h
      cases h
      exact .inr (.undotted (lowercase_eq_i.1 hx))
    · rw [hx, hy] at h
      cases h
      by_cases hxy : x = y
      · exact .inl (by rw [hxy])
      · exact .inr (.first hxy (hx.trans hy.symm))

/-- Names are written alike when they are the same or differ in case only. -/
lemma lowerFirst_eq_iff {a b : String} :
    lowerFirst a = lowerFirst b ↔ a = b ∨ DifferInCase a b := by
  constructor
  · intro h
    obtain ⟨as, rfl⟩ : ∃ as, a = .ofList as := ⟨_, String.ofList_toList.symm⟩
    obtain ⟨bs, rfl⟩ : ∃ bs, b = .ofList bs := ⟨_, String.ofList_toList.symm⟩
    have lowercase_ne_nil (x : Char) : lowercase x ≠ [] := by
      rcases lowercase_cases x with ⟨_, hx⟩ | ⟨_, _, hx⟩ <;> simp [hx]
    cases as with
    | nil =>
      cases bs with
      | nil => exact .inl rfl
      | cons y rest' =>
        rw [lowerFirst_cons] at h
        have hnil := (List.append_eq_nil_iff.1 (String.ofList_injective h).symm).1
        exact absurd hnil (lowercase_ne_nil y)
    | cons x rest =>
      cases bs with
      | nil =>
        rw [lowerFirst_cons] at h
        exact absurd (List.append_eq_nil_iff.1 (String.ofList_injective h)).1 (lowercase_ne_nil x)
      | cons y rest' =>
        rw [lowerFirst_cons, lowerFirst_cons] at h
        exact eq_or_differInCase (String.ofList_injective h)
  · rintro (rfl | h)
    · rfl
    · cases h with
      | first _ hlower => rw [lowerFirst_cons, lowerFirst_cons, hlower]
      | dotted hy =>
        rw [lowerFirst_cons, lowerFirst_cons, lowercase_eq_i.2 hy]
        rfl
      | undotted hx =>
        rw [lowerFirst_cons, lowerFirst_cons, lowercase_eq_i.2 hx]
        rfl

/-- Names that differ in case are not the same. -/
lemma DifferInCase.ne {a b : String} (h : DifferInCase a b) : a ≠ b := by
  cases h with
  | first hxy _ =>
    intro heq
    exact hxy (List.cons.inj (String.ofList_injective heq)).1
  | dotted hy =>
    intro heq
    obtain rfl := (List.cons.inj (String.ofList_injective heq)).1
    exact absurd hy (by decide)
  | undotted hx =>
    intro heq
    obtain rfl := (List.cons.inj (String.ofList_injective heq)).1
    exact absurd hx (by decide)

/-- Different names are written under different names when no two of them differ in case only. -/
lemma nodup_map_lowerFirst_iff {names : List String} (h : names.Nodup) :
    (names.map lowerFirst).Nodup ↔ ∀ a ∈ names, ∀ b ∈ names, ¬DifferInCase a b := by
  rw [List.nodup_map_iff_inj_on h]
  refine forall₂_congr fun a _ => forall₂_congr fun b _ => ?_
  rw [lowerFirst_eq_iff]
  constructor
  · intro hsame hdiffer
    exact hdiffer.ne (hsame (.inr hdiffer))
  · rintro hnot (heq | hdiffer)
    · exact heq
    · exact absurd hdiffer hnot

namespace Configuration

variable {c : Configuration} {d : TypeDef}

/-- Without a transform the names that are written are those of the properties with the first
character in lower case. -/
lemma exists_writtenProperties (plain : c.propertyTransform = none) (d : TypeDef) :
    ∃ lines, c.writtenProperties d = .ok lines ∧
      (lines.map Prod.fst).Perm (((c.visibleProperties d).map (·.name)).map lowerFirst) := by
  refine ⟨_, writtenProperties_of_plain plain d, ?_⟩
  have hnames : ((c.visibleProperties d).map fun p => (lowerFirst p.name, p)).map Prod.fst =
      ((c.visibleProperties d).map (·.name)).map lowerFirst := by
    rw [List.map_map, List.map_map]
    rfl
  rw [← hnames]
  split
  case isTrue => exact (List.mergeSort_perm _ _).map _
  case isFalse => exact .refl _

/-- A field has the name of its line. -/
lemma names_of_fields {lines : List (String × Property)} {fields : List Field}
    (h : lines.mapM c.field = .ok fields) : fields.map Field.name = lines.map Prod.fst := by
  rw [mapM_eq_ok] at h
  induction h with
  | nil => rfl
  | cons hfield _ ih =>
    obtain ⟨_, _, hmade⟩ := bind_eq_ok.1 hfield
    cases hmade
    rw [List.map_cons, List.map_cons, ih]

/-- The properties to write for a type of a checked module have different names. -/
lemma nodup_visibleProperties (wf : c.model.WellFormed) (hd : d ∈ c.model.types)
    (hobject : d.isEnum = false) : ((c.visibleProperties d).map (·.name)).Nodup := by
  have distinct := (wf.types d hd hobject).propertiesDistinct
  refine List.Nodup.sublist (List.filter_sublist.map _) ?_
  cases c.options.preserveInheritance with
  | false => exact Module.nodup_properties distinct
  | true => exact distinct

/-- The names in a declared class or interface are different just when no two of the properties to
write have names that differ in case only. -/
lemma nodup_names_of_declare (wf : c.model.WellFormed) (hd : d ∈ c.model.types)
    (plain : c.propertyTransform = none) (hobject : d.isEnum = false) {root}
    (h : c.declare d = .ok root) :
    (root.declaration.fields.map Field.name).Nodup ↔
      ∀ p ∈ c.visibleProperties d, ∀ q ∈ c.visibleProperties d, ¬DifferInCase p.name q.name := by
  obtain ⟨lines, hlines, hfields, -⟩ := exists_rootLines_of_declare h
  obtain ⟨written, hwritten, hnames⟩ := exists_writtenProperties plain d
  rw [rootLines, hobject, if_neg Bool.false_ne_true, hwritten] at hlines
  cases hlines
  rw [names_of_fields hfields, hnames.nodup_iff,
    nodup_map_lowerFirst_iff (nodup_visibleProperties wf hd hobject)]
  simp only [List.forall_mem_map]

/-- In a module that passes the check, the names that are written in the block of a class or
interface are different just when no two of the properties to write, its own and the inherited ones
that it is flattened with, have names that differ in the case of their first character only. -/
theorem nodup_names_iff (check : c.model.check = .ok ()) (plain : c.propertyTransform = none)
    {kind out c'} (h : c.generate kind = .ok (out, c')) :
    ∃ script enums, c.script = .ok (script, enums) ∧ out = script.text kind c.options.enumStyle ∧
      List.Forall₂ (fun d declaration => d.isEnum = false →
        ((declaration.fields.map Field.name).Nodup ↔
          ∀ p ∈ c.visibleProperties d, ∀ q ∈ c.visibleProperties d, ¬DifferInCase p.name q.name))
        c.roots script.roots := by
  obtain ⟨script, enums, hscript, hout, -⟩ := generate_eq_ok.1 h
  refine ⟨script, enums, hscript, hout, ?_⟩
  obtain ⟨imports, roots, -, hroots, -, rfl⟩ := script_eq_ok.1 hscript
  have wf := Module.wellFormed_of_check check
  have hdeclared : List.Forall₂ (fun d root => d ∈ c.model.types ∧ c.declare d = .ok root)
      c.roots roots :=
    (List.forall₂_and_left _ _).2 ⟨fun _ => mem_types_of_mem_roots, mapM_eq_ok.1 hroots⟩
  rw [List.forall₂_map_right_iff]
  exact hdeclared.imp fun d root h hobject => nodup_names_of_declare wf h.1 plain hobject h.2

/-- A type with an identifier. -/
def keyed : TypeDef where
  name := "Keyed"
  kind := .classType
  properties := [{ name := "Id", type := .builtin .int32, nullable := false }]

/-- A type over it with a property of its own. -/
def labelled (property : String) : TypeDef where
  name := "Labelled"
  kind := .classType
  base := some keyed.ref
  properties := [{ name := property, type := .builtin .string, nullable := false }]

/-- The second type registered, which is flattened with the property of the first. The properties
keep their order. -/
def labels (property : String) : Configuration where
  model := { name := "Labels", types := [keyed, labelled property] }
  options := { orderByName := false }
  registrations := { types := [(labelled property).ref] }

/-- What the second type is written with: a name for its own property, and the inherited one. -/
def labelsScript (name : String) : Script where
  imports := []
  roots := [.type ⟨"Labelled", none, [⟨name, "string | null", "''"⟩, ⟨"id", "number", "0"⟩]⟩]
  enums := []

theorem nodup_names_iff_of_labels :
    (labels "Name").model.check = .ok () ∧
      (labels "Name").generate .interface =
        .ok ((labelsScript "name").text .interface .numeric, labels "Name") ∧
      ((labelsScript "name").roots.flatMap fun d => d.fields.map Field.name) = ["name", "id"] ∧
      ∀ p ∈ (labels "Name").visibleProperties (labelled "Name"),
        ∀ q ∈ (labels "Name").visibleProperties (labelled "Name"), ¬DifferInCase p.name q.name := by
  have check : (labels "Name").model.check = .ok () := by decide +kernel
  have hscript : (labels "Name").script = .ok (labelsScript "name", []) := by decide +kernel
  have h : (labels "Name").generate .interface =
      .ok ((labelsScript "name").text .interface .numeric, labels "Name") :=
    generate_eq_ok.2 ⟨_, _, hscript, rfl, rfl⟩
  obtain ⟨script, _, hsame, -, hroots⟩ := nodup_names_iff check rfl h
  rw [hscript] at hsame
  cases hsame
  rw [roots_of_singleton (d := labelled "Name") rfl] at hroots
  obtain ⟨hnames, -⟩ := List.forall₂_cons.1 hroots
  exact ⟨check, h, by decide, (hnames rfl).1 (by decide)⟩

theorem not_forall_nodup_names :
    ¬ ∀ c : Configuration, c.model.check = .ok () → c.propertyTransform = none →
      ∀ script enums, c.script = .ok (script, enums) →
        ∀ d ∈ script.roots, (d.fields.map Field.name).Nodup := by
  intro h
  have hscript : (labels "id").script = .ok (labelsScript "id", []) := by decide +kernel
  exact absurd (h _ (by decide +kernel) rfl _ _ hscript _ List.mem_cons_self) (by decide)

end Configuration

end Generation

end Typings
