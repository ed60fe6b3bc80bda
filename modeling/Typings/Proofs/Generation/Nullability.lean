import Typings.Proofs.Generation.Spelling
import Typings.Proofs.Markup.Writing
import Typings.Proofs.Module.Nullability
import Typings.Proofs.Outcome

/-!
# Nullability of flattened properties

Where only declared nullability counts, a property whose type is the nullable form of a class or
interface is written with `null` besides when it is marked as nullable. Its own properties and most
inherited ones are; the type of a parameter that a nullable type stands for loses the mark on the
way.
-/

namespace Typings.Generation

/-- A union with `null` is no array, and every other text is made one. -/
lemma suffix_withNull {text : String} (h : ¬"[]".toList <:+ text.toList) :
    " | null".toList <:+ (withNull text).toList := by
  rw [withNull]
  split
  case isTrue hsuffix =>
    simp only [Bool.or_eq_true, List.isSuffixOf_iff_suffix] at hsuffix
    exact hsuffix.resolve_left h
  case isFalse => exact ⟨text.toList, by simp⟩

namespace Context

variable {c : Context} {C : TypeDef} {p : Property}

/-- A class or interface by its bare name, without a mapping for it or for its nullable form. -/
structure Unmapped (c : Context) (C : TypeDef) : Prop where
  shape : c.model.classify C.ref = .classType C ∨ c.model.classify C.ref = .interfaceType C
  bare : c.mappings.find? C.ref = none
  nullable : c.mappings.find? (.nullable C.ref) = none

/-- The nullable form of a class or interface is spelled as the class or interface. -/
lemma Unmapped.spell_nullable (h : c.Unmapped C) : c.spell (.nullable C.ref) = c.spell C.ref := by
  obtain ⟨bound, hbound⟩ : ∃ bound, c.spellingDepth C.ref = bound + 1 :=
    Nat.exists_eq_add_of_le' (c.height_le_spellingDepth C.ref)
  obtain ⟨deeper, hdeeper⟩ : ∃ deeper, c.spellingDepth (.nullable C.ref) = deeper + 2 :=
    Nat.exists_eq_add_of_le' (c.height_le_spellingDepth (.nullable C.ref))
  rw [spell, spell, hbound, hdeeper, spellWithin_nullable h.nullable,
    spellWithin_of_shape h.bare rfl, spellWithin_of_shape h.bare rfl]
  -- The name of a class or interface does not depend on the bound.
  rcases h.shape with hshape | hshape
  · rw [hshape]
    rfl
  · rw [hshape]
    rfl

/-- Where only declared nullability counts, the nullable form of a class or interface is written
with `null` besides when the property is marked. -/
lemma Unmapped.propertyType_eq (h : c.Unmapped C) (hdeclared : c.options.makeNullable = false)
    (htype : p.type = .nullable C.ref) :
    c.propertyType p = (c.spell C.ref).map fun text =>
      if p.nullable then withNull text else text := by
  have hadmits : c.admitsNull p = p.nullable := by
    rw [admitsNull, htype, hdeclared, Bool.or_false]
    rcases h.shape with hshape | hshape
    · rw [Module.classify, hshape]
    · rw [Module.classify, hshape]
  rw [propertyType, htype, h.spell_nullable, h.nullable, hadmits]
  cases c.spell C.ref with
  | error e => rfl
  | ok text => cases p.nullable <;> rfl

/-- A property of a type is marked as nullable when its type is, and then written with `null`
besides though only declared nullability counts, unless a nullable type stands for the parameter
that it is declared of: then it is neither. -/
theorem declared_and_spelled_iff_of_flattened (declares : c.model.Declares) {d : TypeDef}
    (hd : d ∈ c.model.types) {own : Bool} (hp : p ∈ c.model.properties d own) :
    ((p.type.isNullable = true → p.nullable = true) ↔ ¬c.model.Filled d p) ∧
      ∀ C text, p.type = .nullable C.ref → c.Unmapped C → c.options.makeNullable = false →
        c.spell C.ref = .ok text →
          (¬c.model.Filled d p → c.propertyType p = .ok (withNull text) ∧
            (¬"[]".toList <:+ text.toList → " | null".toList <:+ (withNull text).toList)) ∧
          (c.model.Filled d p → c.propertyType p = .ok text) := by
  have hmarked := Property.declared_iff.symm.trans (Module.declared_properties_iff declares hd hp)
  refine ⟨hmarked, fun C text htype hC hdeclared htext => ?_⟩
  have hnullable : p.type.isNullable = true := by
    rw [htype]
    rfl
  have hspelled := hC.propertyType_eq hdeclared htype
  rw [htext] at hspelled
  constructor
  · intro hfilled
    rw [hmarked.2 hfilled hnullable] at hspelled
    exact ⟨hspelled, suffix_withNull⟩
  · intro hfilled
    have hunmarked : p.nullable = false :=
      Bool.eq_false_iff.2 fun h => hmarked.1 (fun _ => h) hfilled
    rw [hunmarked] at hspelled
    exact hspelled

/-- A manifest with a property of the type of a parameter, and one of its nullable form. -/
def wrapperMarks : List Markup.Mark :=
  [.opened "module" [("name", "M")], .empty "class" [("name", "C")],
    .opened "class" [("name", "B")], .empty "typeParam" [("name", "T")],
    .empty "property" [("name", "P"), ("type", "T")],
    .empty "property" [("name", "Q"), ("type", "T?")], .closed,
    .empty "class" [("name", "D"), ("base", "B<C?>")],
    .empty "class" [("name", "E"), ("base", "B<C>")], .closed]

/-- The class that the parameter stands for. -/
def plainClass : TypeDef :=
  { name := "C", kind := .classType }

/-- The type that inherits the property with a nullable type for the parameter. -/
def overNullable : TypeDef :=
  { name := "D", kind := .classType, base := some (.generic "B" [.nullable (.named "C")]) }

/-- The type that inherits the property with a type for the parameter that is not nullable. -/
def overPlain : TypeDef :=
  { name := "E", kind := .classType, base := some (.generic "B" [.named "C"]) }

/-- The module of the manifest. -/
def wrapperModule : Module :=
  { name := "M"
    types := [
      plainClass,
      { name := "B", kind := .classType, params := ["T"]
        properties := [
          ⟨"P", .parameter "T", false, none⟩, ⟨"Q", .nullable (.parameter "T"), true, none⟩] },
      overNullable, overPlain] }

/-- The context of the module in which only declared nullability counts. -/
def wrapperContext : Context :=
  { model := wrapperModule, options := { makeNullable := false } }

lemma ofText_wrapperMarks :
    Manifest.ofText (.ofList (Markup.written [] wrapperMarks)) = .ok wrapperModule := by
  rw [Manifest.ofText, Markup.ofText_written (by decide +kernel)]
  decide +kernel

lemma unmapped_plainClass : wrapperContext.Unmapped plainClass where
  shape := .inl (by decide +kernel)
  bare := by decide +kernel
  nullable := by decide +kernel

/-- The property of the nullable form of the parameter is marked as nullable and written so; the one
of the parameter itself is neither where a nullable type stands for it. -/
theorem declared_and_spelled_iff_of_flattened_of_wrapper :
    wrapperContext.model.Declares ∧ overPlain ∈ wrapperContext.model.types ∧
      overNullable ∈ wrapperContext.model.types ∧
      ⟨"Q", .nullable (.named "C"), true, none⟩ ∈ wrapperContext.model.properties overPlain false ∧
      ⟨"P", .nullable (.named "C"), false, none⟩ ∈
        wrapperContext.model.properties overNullable false ∧
      wrapperContext.spell plainClass.ref = .ok "C" ∧
      wrapperContext.propertyType ⟨"Q", .nullable (.named "C"), true, none⟩ = .ok "C | null" ∧
      wrapperContext.model.Filled overNullable ⟨"P", .nullable (.named "C"), false, none⟩ ∧
      wrapperContext.propertyType ⟨"P", .nullable (.named "C"), false, none⟩ = .ok "C" := by
  have declares : wrapperContext.model.Declares := Manifest.declares_ofText ofText_wrapperMarks
  have hplain : overPlain ∈ wrapperContext.model.types := by decide +kernel
  have hnullable : overNullable ∈ wrapperContext.model.types := by decide +kernel
  have hq : ⟨"Q", .nullable (.named "C"), true, none⟩ ∈
      wrapperContext.model.properties overPlain false := by decide +kernel
  have hp : ⟨"P", .nullable (.named "C"), false, none⟩ ∈
      wrapperContext.model.properties overNullable false := by decide +kernel
  have htext : wrapperContext.spell plainClass.ref = .ok "C" := by decide +kernel
  obtain ⟨markedQ, spelledQ⟩ := declared_and_spelled_iff_of_flattened declares hplain hq
  obtain ⟨markedP, spelledP⟩ := declared_and_spelled_iff_of_flattened declares hnullable hp
  have filledP : wrapperContext.model.Filled overNullable
      ⟨"P", .nullable (.named "C"), false, none⟩ := by
    by_contra hfilled
    exact absurd (markedP.2 hfilled rfl) Bool.false_ne_true
  exact ⟨declares, hplain, hnullable, hq, hp, htext,
    ((spelledQ plainClass "C" rfl unmapped_plainClass rfl htext).1 (markedQ.1 fun _ => rfl)).1,
    filledP, (spelledP plainClass "C" rfl unmapped_plainClass rfl htext).2 filledP⟩

/-- The property of the parameter is not marked as nullable where a nullable type stands for it, and
not written so. -/
theorem not_forall_declared_of_flattened :
    (¬ ∀ m : Module, m.Declares → ∀ d ∈ m.types, ∀ own, ∀ p ∈ m.properties d own,
      p.type.isNullable = true → p.nullable = true) ∧
      ¬ ∀ c : Context, c.model.Declares → c.options.makeNullable = false → ∀ d ∈ c.model.types,
        ∀ p ∈ c.model.properties d false, ∀ C, p.type = .nullable C.ref → c.Unmapped C →
          ∃ script, c.propertyType p = .ok script ∧ " | null".toList <:+ script.toList := by
  have declares : wrapperModule.Declares := Manifest.declares_ofText ofText_wrapperMarks
  have hd : overNullable ∈ wrapperModule.types := by decide +kernel
  have hp : ⟨"P", .nullable (.named "C"), false, none⟩ ∈
      wrapperModule.properties overNullable false := by decide +kernel
  constructor
  · intro h
    exact absurd (h wrapperModule declares overNullable hd false _ hp rfl) Bool.false_ne_true
  · intro h
    obtain ⟨script, hscript, hsuffix⟩ :=
      h wrapperContext declares rfl overNullable hd _ hp plainClass rfl unmapped_plainClass
    have hplain :
        wrapperContext.propertyType ⟨"P", .nullable (.named "C"), false, none⟩ = .ok "C" := by
      decide +kernel
    obtain rfl := Except.ok.inj (hplain.symm.trans hscript)
    exact absurd hsuffix (by decide)

end Context

end Typings.Generation
