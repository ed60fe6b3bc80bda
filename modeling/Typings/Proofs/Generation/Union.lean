import Typings.Proofs.Generation.Spelling
import Typings.Proofs.Module.Plain
import Typings.Proofs.Outcome

/-!
# Arrays of unions

Script types read `A | null[]` as `A` or an array of `null`. A mapping leaves `null` out of its
array form, but an element without a mapping of its own is spelled as if it stood alone: the
nullable form of a mapped type brings the union of that mapping with it. This is the only way for an
array suffix to come behind a union.
-/

namespace Typings

namespace Generation

/-! ## Texts -/

/-- The text of an array of a union with `null`. -/
def unionArray : List Char := " | null[]".toList

/-- The ending of a union with `null`. -/
def nullEnding : List Char := " | null".toList

section Texts

variable {a b : List Char} {c : Char}

lemma not_unionArray_of_not_bracket (h : '[' ∉ a) : ¬unionArray <:+: a :=
  fun hi => h (hi.subset (by decide))

lemma not_unionArray_of_not_bar (h : '|' ∉ a) : ¬unionArray <:+: a :=
  fun hi => h (hi.subset (by decide))

lemma not_nullEnding_of_not_bar (h : '|' ∉ a) : ¬nullEnding <:+ a :=
  fun hs => h (hs.subset (by decide))

lemma not_nullEnding_concat (hc : c ≠ 'l') : ¬nullEnding <:+ a ++ [c] := by
  intro hs
  obtain hnil | ⟨t, ht, _⟩ := List.suffix_concat_iff.1 hs
  · exact absurd hnil (by decide)
  · have hlast : nullEnding.getLast? = some 'l' := by decide
    rw [ht, List.getLast?_concat] at hlast
    exact hc (Option.some.inj hlast)

/-- No array of a union goes over a character that it does not hold. -/
lemma unionArray_append_cons (hc : c ∉ unionArray) :
    unionArray <:+: a ++ c :: b ↔ unionArray <:+: a ∨ unionArray <:+: b := by
  constructor
  · intro h
    rw [List.infix_append_iff, List.infix_cons_iff] at h
    rcases h with h | (h | h) | ⟨l, r, hlr, hl, hr⟩
    · exact .inl h
    · -- It cannot begin with the character.
      obtain h | ⟨t, ht, _⟩ := List.prefix_cons_iff.1 h
      · cases h
      · exact absurd (by simp [ht]) hc
    · exact .inr h
    · -- Nor can it have the character inside.
      obtain rfl | ⟨t, rfl, _⟩ := List.prefix_cons_iff.1 hr
      · rw [List.append_nil] at hlr
        exact .inl (hlr ▸ hl.isInfix)
      · exact absurd (by simp [hlr]) hc
  · rintro (h | h)
    · exact h.trans (List.prefix_append a _).isInfix
    · exact (List.infix_cons h).trans (List.suffix_append a _).isInfix

/-- An array of a union begins with a space that a bar follows. -/
lemma unionArray_space_cons (h : a.head? ≠ some '|') :
    unionArray <:+: ' ' :: a ↔ unionArray <:+: a := by
  rw [List.infix_cons_iff, or_iff_right]
  rintro ⟨r, hr⟩
  obtain ⟨-, ha⟩ := List.cons.inj hr
  exact h (by rw [← ha]; rfl)

/-- An array suffix makes an array of a union out of a union. -/
lemma unionArray_append_suffix :
    unionArray <:+: a ++ ['[', ']'] ↔ unionArray <:+: a ∨ nullEnding <:+ a := by
  have split : unionArray = nullEnding ++ ['[', ']'] := by decide
  constructor
  · intro h
    rw [List.append_cons, List.infix_concat_iff, List.infix_concat_iff] at h
    rcases h with h | h | h
    · rw [← List.append_cons, split, List.suffix_append_self_iff] at h
      exact .inr h
    · -- It does not end in the opening bracket.
      obtain h | ⟨t, ht, _⟩ := List.suffix_concat_iff.1 h
      · cases h
      · have hlast : unionArray.getLast? = some ']' := by decide
        rw [ht, List.getLast?_concat] at hlast
        exact absurd hlast (by decide)
    · exact .inl h
  · rintro (h | h)
    · exact h.trans (List.prefix_append a _).isInfix
    · rw [split]
      exact (List.suffix_append_self_iff.2 h).isInfix

end Texts

/-! ## Spelling -/

/-- A spelled text as far as unions and arrays of unions go. -/
structure Spelled (union array : Prop) (text : String) : Prop where
  array : unionArray <:+: text.toList ↔ array
  ending : nullEnding <:+ text.toList ↔ union
  head : text.toList.head? ≠ some '|'

lemma head?_ne_bar_of_not_mem {cs : List Char} (h : '|' ∉ cs) : cs.head? ≠ some '|' :=
  fun hhead => h (List.mem_of_mem_head? hhead)

lemma head?_append_ne_bar {a b : List Char} (ha : a.head? ≠ some '|') (hb : b.head? ≠ some '|') :
    (a ++ b).head? ≠ some '|' := by
  cases a with
  | nil => exact hb
  | cons c a => exact ha

/-- A text without a bar is neither a union nor has an array of one. -/
lemma spelled_of_not_bar {text : String} (h : '|' ∉ text.toList) : Spelled False False text :=
  ⟨iff_false_intro (not_unionArray_of_not_bar h), iff_false_intro (not_nullEnding_of_not_bar h),
    head?_ne_bar_of_not_mem h⟩

/-- A mapping is spelled alone as a union when it is nullable, and never as an array of a union. -/
lemma Mapping.spelled_scalar {m : Mapping} (h : Plain m.script) :
    Spelled (m.nullable = true) False m.scalar := by
  rw [Mapping.scalar]
  split
  case isTrue hnullable =>
    refine ⟨iff_false_intro (not_unionArray_of_not_bracket ?_), iff_of_true ?_ hnullable, ?_⟩
    · simpa using h.2
    · rw [String.toList_append]
      exact List.suffix_append _ _
    · rw [String.toList_append]
      exact head?_append_ne_bar (head?_ne_bar_of_not_mem h.1) (by decide)
  case isFalse hnullable =>
    have hspelled := spelled_of_not_bar h.1
    exact ⟨hspelled.array, hspelled.ending.trans (by simp [hnullable]), hspelled.head⟩

/-- The array form of a mapping leaves `null` out. -/
lemma Mapping.spelled_array {m : Mapping} (h : Plain m.script) : Spelled False False m.array := by
  apply spelled_of_not_bar
  simpa [Mapping.array] using h.1

/-- An array of elements spelled alone is an array of a union when they are spelled as unions. -/
lemma Spelled.append_suffix {union array : Prop} {text : String} (h : Spelled union array text) :
    Spelled False (array ∨ union) (text ++ "[]") := by
  have htext : (text ++ "[]").toList = text.toList ++ ['[', ']'] := by simp
  refine ⟨?_, iff_false_intro ?_, ?_⟩
  · rw [htext, unionArray_append_suffix, h.array, h.ending]
  · intro hending
    rw [htext, List.append_cons] at hending
    exact not_nullEnding_concat (by decide) hending
  · rw [htext]
    exact head?_append_ne_bar h.head (by decide)

/-- Texts with commas between them have an array of a union when one of them has. -/
lemma unionArray_intercalate {texts : List String} (h : ∀ t ∈ texts, t.toList.head? ≠ some '|') :
    (String.intercalate ", " texts).toList.head? ≠ some '|' ∧
      (unionArray <:+: (String.intercalate ", " texts).toList ↔
        ∃ t ∈ texts, unionArray <:+: t.toList) := by
  induction texts with
  | nil => decide
  | cons t rest ih =>
    obtain ⟨ht, hrest⟩ := List.forall_mem_cons.1 h
    obtain ⟨ihhead, ih⟩ := ih hrest
    cases rest with
    | nil => simpa using ht
    | cons t' rest =>
      have hsplit : (String.intercalate ", " (t :: t' :: rest)).toList =
          t.toList ++ ',' :: ' ' :: (String.intercalate ", " (t' :: rest)).toList := by
        simp [String.intercalate_cons_cons]
      constructor
      · rw [hsplit]
        exact head?_append_ne_bar ht (by simp)
      · rw [List.exists_mem_cons_iff, hsplit, unionArray_append_cons (by decide),
          unionArray_space_cons ihhead, ih]

/-- A plain name applied to arguments has the arrays of unions of its arguments. -/
lemma spelled_applied {name : String} {texts : List String} (hname : '|' ∉ name.toList)
    (h : ∀ t ∈ texts, t.toList.head? ≠ some '|') :
    Spelled False (∃ t ∈ texts, unionArray <:+: t.toList) (applied name texts) := by
  have hsplit : (applied name texts).toList =
      name.toList ++ '<' :: ((String.intercalate ", " texts).toList ++ ['>']) := by
    simp [applied]
  refine ⟨?_, iff_false_intro ?_, ?_⟩
  · rw [hsplit, unionArray_append_cons (by decide), unionArray_append_cons (by decide),
      or_iff_right (not_unionArray_of_not_bar hname), (unionArray_intercalate h).2,
      or_iff_left (not_unionArray_of_not_bar List.not_mem_nil)]
  · intro hending
    rw [hsplit, ← List.cons_append, ← List.append_assoc] at hending
    exact not_nullEnding_concat (by decide) hending
  · rw [hsplit]
    exact head?_append_ne_bar (head?_ne_bar_of_not_mem hname) (by simp)

namespace Context

variable {c : Context} {scope : List String}

/-- A reference spelled as a union with `null`: a nullable mapping has it, or the nullable form,
which has no mapping, of such a reference. -/
inductive SpellsUnion (c : Context) : TypeRef → Prop where
  | mapped {ref mapping} :
    c.mappings.find? ref = some mapping → mapping.nullable = true → SpellsUnion c ref
  | nullable {inner} :
    c.mappings.find? (.nullable inner) = none → SpellsUnion c inner →
    SpellsUnion c (.nullable inner)

/-- A reference that is spelled through an array whose elements have no mapping, but are spelled as
unions. -/
inductive SpellsUnionArray (c : Context) : TypeRef → Prop where
  | nullable {inner} :
    c.mappings.find? (.nullable inner) = none → SpellsUnionArray c inner →
    SpellsUnionArray c (.nullable inner)
  | union {ref element} :
    c.mappings.find? ref = none → ref.isNullable = false →
    c.model.classify ref = .iterable (some element) → c.mappings.find? element = none →
    SpellsUnion c element → SpellsUnionArray c ref
  | element {ref element} :
    c.mappings.find? ref = none → ref.isNullable = false →
    c.model.classify ref = .iterable (some element) → c.mappings.find? element = none →
    SpellsUnionArray c element → SpellsUnionArray c ref
  | arg {ref d args a} :
    c.mappings.find? ref = none → ref.isNullable = false →
    c.model.classify ref = .genericInstance d args → a ∈ args →
    SpellsUnionArray c a → SpellsUnionArray c ref

/-- The shapes that are spelled through an array of a union. -/
def ShapeUnionArray (c : Context) : Shape → Prop
  | .iterable (some element) =>
    c.mappings.find? element = none ∧ (c.SpellsUnionArray element ∨ c.SpellsUnion element)
  | .genericInstance _ args => ∃ a ∈ args, c.SpellsUnionArray a
  | _ => False

lemma spellsUnion_of_mapped {ref mapping} (h : c.mappings.find? ref = some mapping) :
    c.SpellsUnion ref ↔ mapping.nullable = true := by
  refine ⟨fun hunion => ?_, .mapped h⟩
  cases hunion with
  | mapped h' hnullable =>
    rw [h, Option.some.injEq] at h'
    exact h' ▸ hnullable
  | nullable hnone => rw [h] at hnone; cases hnone

lemma not_spellsUnionArray_of_mapped {ref mapping} (h : c.mappings.find? ref = some mapping) :
    ¬c.SpellsUnionArray ref := by
  intro harray
  have hnone : c.mappings.find? ref = none := by
    cases harray with
    | nullable hnone => exact hnone
    | union hnone => exact hnone
    | element hnone => exact hnone
    | arg hnone => exact hnone
  rw [h] at hnone
  cases hnone

lemma spellsUnion_nullable {inner} (h : c.mappings.find? (.nullable inner) = none) :
    c.SpellsUnion (.nullable inner) ↔ c.SpellsUnion inner := by
  refine ⟨fun hunion => ?_, .nullable h⟩
  cases hunion with
  | mapped h' => rw [h] at h'; cases h'
  | nullable _ hinner => exact hinner

lemma spellsUnionArray_nullable {inner} (h : c.mappings.find? (.nullable inner) = none) :
    c.SpellsUnionArray (.nullable inner) ↔ c.SpellsUnionArray inner := by
  refine ⟨fun harray => ?_, .nullable h⟩
  cases harray with
  | nullable _ hinner => exact hinner
  | union _ hnot => cases hnot
  | element _ hnot => cases hnot
  | arg _ hnot => cases hnot

lemma not_spellsUnion_of_shape {ref} (h : c.mappings.find? ref = none)
    (hnot : ref.isNullable = false) : ¬c.SpellsUnion ref := by
  intro hunion
  cases hunion with
  | mapped h' => rw [h] at h'; cases h'
  | nullable => cases hnot

lemma spellsUnionArray_of_shape {ref} (h : c.mappings.find? ref = none)
    (hnot : ref.isNullable = false) :
    c.SpellsUnionArray ref ↔ c.ShapeUnionArray (c.model.classify ref) := by
  constructor
  · intro harray
    cases harray with
    | nullable => cases hnot
    | union _ _ hshape helement hunion =>
      rw [hshape]
      exact ⟨helement, .inr hunion⟩
    | element _ _ hshape helement harray =>
      rw [hshape]
      exact ⟨helement, .inl harray⟩
    | arg _ _ hshape ha harray =>
      rw [hshape]
      exact ⟨_, ha, harray⟩
  · intro hshape
    cases hclassify : c.model.classify ref with
    | iterable element =>
      rw [hclassify] at hshape
      cases element with
      | none => exact hshape.elim
      | some element =>
        obtain ⟨helement, harray | hunion⟩ := hshape
        · exact .element h hnot hclassify helement harray
        · exact .union h hnot hclassify helement hunion
    | genericInstance d args =>
      rw [hclassify] at hshape
      obtain ⟨a, ha, harray⟩ := hshape
      exact .arg h hnot hclassify ha harray
    | _ =>
      rw [hclassify] at hshape
      exact hshape.elim

/-- The names that a context spells types by are plain, but for what a mapping adds itself. -/
structure Plain (c : Context) (scope : List String) : Prop where
  model : c.model.Plain scope
  scripts : ∀ mapping ∈ c.mappings.entries, Typings.Plain mapping.script
  transform : c.typeTransform = none

variable {d : TypeDef} {bound : Nat}

lemma not_bar_prefixedName (hd : d.Plain scope) : '|' ∉ (c.prefixedName d).toList := by
  have hname : '|' ∉ d.name.toList := hd.name.1
  have hmarked : '|' ∉ ("I" ++ d.name).toList := by simpa using hname
  rw [Context.prefixedName]
  split_ifs
  · exact hmarked
  · exact hname
  · exact hmarked
  · exact hname

/-- The name of a type is neither a union nor has an array of one. -/
lemma Plain.spelled_typeName (hc : c.Plain scope) (hd : d.Plain scope) {text}
    (h : c.typeName d = .ok text) :
    Spelled False False text := by
  rw [typeName, hc.transform] at h
  cases h
  rw [plainTypeName]
  split
  · obtain ⟨harray, hending, hhead⟩ := spelled_applied (not_bar_prefixedName hd) fun p hp =>
      head?_ne_bar_of_not_mem (hd.params p hp).1
    refine ⟨harray.trans (iff_false_intro ?_), hending, hhead⟩
    rintro ⟨p, hp, hcontains⟩
    exact not_unionArray_of_not_bar (hd.params p hp).1 hcontains
  · exact spelled_of_not_bar (not_bar_prefixedName hd)

/-- A type applied to arguments has the arrays of unions of its arguments. -/
lemma Plain.spelled_instanceName (hc : c.Plain scope) (hd : d.Plain scope) {texts text}
    (htexts : ∀ t ∈ texts, t.toList.head? ≠ some '|') (h : c.instanceName d texts = .ok text) :
    Spelled False (∃ t ∈ texts, unionArray <:+: t.toList) text := by
  rw [instanceName, hc.transform] at h
  cases h
  exact spelled_applied (not_bar_prefixedName hd) htexts

/-- The arguments of a type are spelled one by one. -/
lemma exists_unionArray_iff {args : List TypeRef} {texts : List String}
    (hargs : ∀ a ∈ args, ∀ text, c.spellWithin bound a = .ok text →
      Spelled (c.SpellsUnion a) (c.SpellsUnionArray a) text)
    (h : List.Forall₂ (fun a text => c.spellWithin bound a = .ok text) args texts) :
    (∀ t ∈ texts, t.toList.head? ≠ some '|') ∧
      ((∃ t ∈ texts, unionArray <:+: t.toList) ↔ ∃ a ∈ args, c.SpellsUnionArray a) := by
  induction h with
  | nil => simp
  | cons ha _ ih =>
    rw [List.forall_mem_cons] at hargs
    obtain ⟨ihhead, ih⟩ := ih hargs.2
    have hspelled := hargs.1 _ ha
    rw [List.forall_mem_cons, List.exists_mem_cons_iff, List.exists_mem_cons_iff, ih,
      hspelled.array]
    exact ⟨⟨hspelled.head, ihhead⟩, Iff.rfl⟩

/-- What a shape is spelled as, from what the references in it are spelled as. -/
lemma Plain.spelled_shape (hc : c.Plain scope) {shape : Shape} (hshape : shape.Plain scope) {text}
    (ih : ∀ ref : TypeRef, ref.Scoped scope → ∀ text, c.spellWithin bound ref = .ok text →
      Spelled (c.SpellsUnion ref) (c.SpellsUnionArray ref) text)
    (h : c.spellShape bound shape = .ok text) : Spelled False (c.ShapeUnionArray shape) text := by
  cases shape with
  | enumeration d =>
    cases h
    exact spelled_of_not_bar hshape.name.1
  | iterable element =>
    cases element with
    | none =>
      cases h
      exact spelled_of_not_bar (by decide)
    | some element =>
      rw [spellShape] at h
      cases hmap : c.mappings.find? element with
      | some mapping =>
        rw [hmap] at h
        cases h
        have hspelled := Mapping.spelled_array
          (hc.scripts mapping (List.mem_of_find?_eq_some hmap))
        refine ⟨hspelled.array.trans (iff_of_false id ?_), hspelled.ending, hspelled.head⟩
        rintro ⟨hnone, _⟩
        rw [hmap] at hnone
        cases hnone
      | none =>
        rw [hmap] at h
        obtain ⟨inner, hinner, rfl⟩ := map_eq_ok.1 h
        have hspelled := (ih element (hshape element rfl) inner hinner).append_suffix
        exact ⟨hspelled.array.trans (and_iff_right hmap).symm, hspelled.ending, hspelled.head⟩
  | genericDefinition d => exact hc.spelled_typeName hshape h
  | classType d => exact hc.spelled_typeName hshape h
  | genericInstance d args =>
    obtain ⟨texts, htexts, h⟩ := bind_eq_ok.1 h
    obtain ⟨hheads, harrays⟩ := exists_unionArray_iff
      (fun a ha => ih a (hshape.2 a ha)) (mapM_eq_ok.1 htexts)
    obtain ⟨harray, hending, hhead⟩ := hc.spelled_instanceName hshape.1 hheads h
    exact ⟨harray.trans harrays, hending, hhead⟩
  | parameter name =>
    cases h
    exact spelled_of_not_bar hshape.1
  | interfaceType d =>
    cases h
    exact spelled_of_not_bar hshape.name.1
  | builtin b =>
    cases h
    exact spelled_of_not_bar (by decide)
  | unknown =>
    cases h
    exact spelled_of_not_bar (by decide)

/-- What a reference is spelled as. -/
lemma Plain.spelled (hc : c.Plain scope) {ref : TypeRef} (href : ref.Scoped scope) {text}
    (h : c.spellWithin bound ref = .ok text) :
    Spelled (c.SpellsUnion ref) (c.SpellsUnionArray ref) text := by
  induction bound generalizing ref text with
  | zero => cases h
  | succ bound ih =>
    cases hmap : c.mappings.find? ref with
    | some mapping =>
      rw [spellWithin_of_mapped hmap] at h
      cases h
      have hspelled := Mapping.spelled_scalar
        (hc.scripts mapping (List.mem_of_find?_eq_some hmap))
      exact ⟨hspelled.array.trans (iff_of_false id (not_spellsUnionArray_of_mapped hmap)),
        hspelled.ending.trans (spellsUnion_of_mapped hmap).symm, hspelled.head⟩
    | none =>
      by_cases hnullable : ∃ inner, ref = .nullable inner
      · obtain ⟨inner, rfl⟩ := hnullable
        rw [spellWithin_nullable hmap] at h
        rw [spellsUnion_nullable hmap, spellsUnionArray_nullable hmap]
        exact ih (TypeRef.scoped_nullable.1 href) h
      · have hnot : ref.isNullable = false := by
          cases ref with
          | nullable inner => exact absurd ⟨inner, rfl⟩ hnullable
          | _ => rfl
        rw [spellWithin_of_shape hmap hnot] at h
        have hspelled := hc.spelled_shape (hc.model.classify href)
          (fun ref href text h => ih href h) h
        exact ⟨hspelled.array.trans (spellsUnionArray_of_shape hmap hnot).symm,
          hspelled.ending.trans (iff_of_false id (not_spellsUnion_of_shape hmap hnot)),
          hspelled.head⟩

/-- In a module with plain names, and with plain scripts for mappings, the text of a reference has
an array of a union exactly where it is spelled through an array whose elements have no mapping, but
are spelled as unions. -/
theorem unionArray_spellWithin_iff (hc : c.Plain scope) {ref : TypeRef} (href : ref.Scoped scope)
    {text} (h : c.spellWithin bound ref = .ok text) :
    " | null[]".toList <:+: text.toList ↔ c.SpellsUnionArray ref :=
  (hc.spelled href h).array

/-- Generic lists whose elements are the nullable forms of their parameter. -/
def sparseLists : Context :=
  { model :=
      { name := "Lists"
        types := [
          { name := "Sparse", kind := .classType, params := ["T"]
            base := some (.generic "List" [.nullable (.parameter "T")]) }] } }

lemma plain_sparseLists : sparseLists.Plain ["T"] where
  model :=
    { types := by
        intro d hd
        obtain rfl := List.mem_singleton.1 hd
        refine ⟨by decide, by decide, ?_⟩
        rintro _ ⟨⟩
        simp
      scope := by decide }
  scripts := by decide
  transform := rfl

/-- The elements of a list of strings are spelled as unions, those of a list of numbers are mapped
in their nullable form. -/
theorem unionArray_spellWithin_iff_of_sparseLists :
    sparseLists.Plain ["T"] ∧
      sparseLists.spell (.generic "Sparse" [.builtin .string]) = .ok "string | null[]" ∧
      (" | null[]".toList <:+: "string | null[]".toList ↔
        sparseLists.SpellsUnionArray (.generic "Sparse" [.builtin .string])) ∧
      sparseLists.spell (.generic "Sparse" [.builtin .int32]) = .ok "number[]" ∧
      (" | null[]".toList <:+: "number[]".toList ↔
        sparseLists.SpellsUnionArray (.generic "Sparse" [.builtin .int32])) := by
  have hstring :
      sparseLists.spell (.generic "Sparse" [.builtin .string]) = .ok "string | null[]" := by
    decide +kernel
  have hint : sparseLists.spell (.generic "Sparse" [.builtin .int32]) = .ok "number[]" := by
    decide +kernel
  exact ⟨plain_sparseLists,
    hstring, unionArray_spellWithin_iff plain_sparseLists (by simp) hstring,
    hint, unionArray_spellWithin_iff plain_sparseLists (by simp) hint⟩

/-- An array of nullable strings is spelled with an array suffix behind a union. -/
theorem not_forall_spell_free_of_unionArray :
    ¬ ∀ (c : Context) (scope : List String) (ref : TypeRef) (text : String), c.Plain scope →
      ref.Scoped scope → c.spell ref = .ok text → ¬ " | null[]".toList <:+: text.toList := by
  intro h
  have plain : Context.Plain { model := { name := "Empty" } } [] :=
    ⟨⟨by simp, by simp⟩, by decide, rfl⟩
  have spelled : Context.spell { model := { name := "Empty" } }
      (.array (.nullable (.builtin .string))) = .ok "string | null[]" := by
    decide +kernel
  exact h _ [] _ _ plain (by simp) spelled ⟨"string".toList, [], rfl⟩

end Context

end Generation

end Typings
