import Typings.Proofs.Generation.Adequacy

/-!
# A mapped type in its surroundings

A mapping wins wherever its type stands: in arrays, in well-known collections and among the
arguments of user types, in any depth. What stands around the type is written as ever. An array
takes the bare script type of the mapping; every other place takes the script type with the `null`
that it admits.
-/

namespace Typings

/-- A user type with arguments that is not iterable is what its definition and the arguments make
it. -/
lemma Module.classify_of_not_iterable {m : Module} {name args d} (hd : m.find? name = some d)
    (h : m.isIterable (.generic name args) = false) :
    m.classify (.generic name args) = .genericInstance d args := by
  have hname : isCollectionName name = false := by
    refine Bool.eq_false_iff.2 fun hname => Bool.false_ne_true (h.symm.trans ?_)
    exact isIterable_of_isCollection hname
  rw [classify, classifyGeneric, hname, hd, h]
  rfl

namespace Generation

/-- A place in a reference where another one stands. -/
inductive Layer where
  | array
  | collection (name : String)
  /-- Between the arguments of a user type, which come with their texts. -/
  | argument (definition : TypeDef) (before after : List (TypeRef × String))

namespace Layer

/-- The place with a reference in it. -/
def around : Layer → TypeRef → TypeRef
  | .array, ref => .array ref
  | .collection name, ref => .generic name [ref]
  | .argument d before after, ref =>
    .generic d.name (before.map Prod.fst ++ ref :: after.map Prod.fst)

/-- How the place is written with a text in it. -/
def text (c : Context) : Layer → String → String
  | .array, inner | .collection _, inner => inner ++ "[]"
  | .argument d before after, inner =>
    applied (c.prefixedName d) (before.map Prod.snd ++ inner :: after.map Prod.snd)

/-- An element stands in the place. -/
def ofElement : Layer → Bool
  | .argument .. => false
  | .array | .collection _ => true

/-- A reference with places around it, the first of them outermost. -/
def fill (layers : List Layer) (ref : TypeRef) : TypeRef :=
  layers.foldr around ref

/-- What has a place around it is not nullable. -/
lemma isNullable_fill_cons (l : Layer) (layers : List Layer) (ref : TypeRef) :
    (fill (l :: layers) ref).isNullable = false := by
  cases l <;> rfl

end Layer

/-- How a mapped type is written with places around it. -/
def Mapping.within (m : Mapping) (c : Context) (layers : List Layer) : String :=
  layers.foldr (Layer.text c) (if layers.getLast?.any Layer.ofElement then m.script else m.scalar)

/-- The innermost place decides about the type, whatever is put around it. -/
lemma Mapping.within_cons_cons (m : Mapping) (c : Context) (l l' : Layer) (layers : List Layer) :
    m.within c (l :: l' :: layers) = l.text c (m.within c (l' :: layers)) := by
  rw [within, within, List.getLast?_cons_cons]
  rfl

/-- A place among arguments leaves the text that is put in it as it is. -/
lemma Mapping.within_argument (m : Mapping) (c : Context) (d : TypeDef) (before after)
    (layers : List Layer) : m.within c (.argument d before after :: layers) =
      (Layer.argument d before after).text c (m.within c layers) := by
  cases layers with
  | nil => rfl
  | cons l layers => exact m.within_cons_cons c _ l layers

namespace Context

open Layer (fill)

variable {c : Context} {ref element : TypeRef} {m : Mapping} {script : String}

section Parts

/-- References that are spelled are all spelled in one depth. -/
lemma exists_mapM_spellWithin {refs texts}
    (h : List.Forall₂ (fun ref text => c.spell ref = .ok text) refs texts) :
    ∃ bound, refs.mapM (c.spellWithin bound) = .ok texts := by
  suffices hall : ∃ bound,
      List.Forall₂ (fun ref text => c.spellWithin bound ref = .ok text) refs texts from
    hall.imp fun _ => mapM_eq_ok.2
  induction h with
  | nil => exact ⟨0, .nil⟩
  | @cons ref text _ _ hspell _ ih =>
    obtain ⟨bound, hrest⟩ := ih
    refine ⟨max (c.spellingDepth ref) bound, .cons ?_ (hrest.imp fun _ _ h => ?_)⟩
    · exact spellWithin_mono hspell (Nat.le_max_left _ _)
    · exact spellWithin_mono h (Nat.le_max_right _ _)

lemma spell_of_mapped (h : c.mappings.find? ref = some m) : c.spell ref = .ok m.scalar :=
  spell_eq_ok.2 ⟨1, spellWithin_of_mapped h⟩

variable (hmap : c.mappings.find? ref = none) (hnot : ref.isNullable = false)

include hmap hnot

/-- The array of a mapped type. -/
lemma spell_of_mapped_element (hshape : c.model.classify ref = .iterable (some element))
    (helement : c.mappings.find? element = some m) : c.spell ref = .ok m.array := by
  refine spell_eq_ok.2 ⟨1, ?_⟩
  rw [spellWithin_of_shape hmap hnot, hshape, spellShape, helement]

/-- The array of any other type. -/
lemma spell_of_element (hshape : c.model.classify ref = .iterable (some element))
    (helement : c.mappings.find? element = none) (h : c.spell element = .ok script) :
    c.spell ref = .ok (script ++ "[]") := by
  refine spell_eq_ok.2 ⟨c.spellingDepth element + 1, ?_⟩
  rw [spellWithin_of_shape hmap hnot, hshape, spellShape, helement]
  exact map_eq_ok.2 ⟨script, h, rfl⟩

/-- A user type with its arguments. -/
lemma spell_of_args {d args texts} (hshape : c.model.classify ref = .genericInstance d args)
    (h : List.Forall₂ (fun ref text => c.spell ref = .ok text) args texts)
    (hname : c.instanceName d texts = .ok script) : c.spell ref = .ok script := by
  obtain ⟨bound, hargs⟩ := exists_mapM_spellWithin h
  refine spell_eq_ok.2 ⟨bound + 1, ?_⟩
  rw [spellWithin_of_shape hmap hnot, hshape, spellShape, hargs, ok_bind, hname]

end Parts

/-- The places stand around a reference, and none of them is mapped with what stands in it. A user
type is not iterable with its arguments in it, and the other ones are spelled. -/
inductive Surrounds (c : Context) (ref : TypeRef) : List Layer → Prop where
  | nil : Surrounds c ref []
  | array {layers} :
    Surrounds c ref layers → c.mappings.find? (fill (.array :: layers) ref) = none →
    Surrounds c ref (.array :: layers)
  | collection {name layers} :
    Surrounds c ref layers → c.mappings.find? (fill (.collection name :: layers) ref) = none →
    isCollectionName name = true → Surrounds c ref (.collection name :: layers)
  | argument {d before after layers} :
    Surrounds c ref layers →
    c.mappings.find? (fill (.argument d before after :: layers) ref) = none →
    c.model.find? d.name = some d →
    c.model.isIterable (fill (.argument d before after :: layers) ref) = false →
    (∀ other ∈ before ++ after, c.spell other.1 = .ok other.2) →
    Surrounds c ref (.argument d before after :: layers)

/-- What has a place around it is not mapped. -/
lemma Surrounds.find?_eq_none {l layers} (h : c.Surrounds ref (l :: layers)) :
    c.mappings.find? (fill (l :: layers) ref) = none := by
  cases h with
  | array _ hmap => exact hmap
  | collection _ hmap _ => exact hmap
  | argument _ hmap _ _ _ => exact hmap

/-- One more array or collection around a reference. The mapping of what stands in it counts only
where that is the reference itself, since nothing else in the places is mapped. -/
lemma Surrounds.spell_of_ofElement {l layers} (h : c.Surrounds ref (l :: layers))
    (hrest : c.Surrounds ref layers) (hfound : c.mappings.find? ref = some m)
    (hl : l.ofElement = true)
    (hshape : c.model.classify (fill (l :: layers) ref) = .iterable (some (fill layers ref)))
    (hspell : c.spell (fill layers ref) = .ok (m.within c layers)) :
    c.spell (fill (l :: layers) ref) = .ok (m.within c (l :: layers)) := by
  have htext (inner : String) : l.text c inner = inner ++ "[]" := by
    cases l with
    | argument => cases hl
    | _ => rfl
  cases layers with
  | nil =>
    have harray : m.within c [l] = m.array := by
      rw [Mapping.within, List.getLast?_singleton, Option.any_some, if_pos hl]
      exact htext m.script
    rw [harray]
    exact spell_of_mapped_element h.find?_eq_none (Layer.isNullable_fill_cons ..) hshape hfound
  | cons l' layers =>
    rw [m.within_cons_cons c l l' layers, htext]
    exact spell_of_element h.find?_eq_none (Layer.isNullable_fill_cons ..) hshape
      hrest.find?_eq_none hspell

/-- A mapping wins in every depth. With any places around it, none of them mapped, the mapped type
is written by its mapping, each array or collection behind it as `[]` and each user type as its name
with its arguments in angle brackets. -/
theorem spell_fill (htransform : c.typeTransform = none) (hfound : c.mappings.find? ref = some m)
    {layers : List Layer} (h : c.Surrounds ref layers) :
    c.spell (fill layers ref) = .ok (m.within c layers) := by
  induction h with
  | nil => exact spell_of_mapped hfound
  | array hrest hmap ih =>
    exact (Surrounds.array hrest hmap).spell_of_ofElement hrest hfound rfl rfl ih
  | @collection name layers hrest hmap hname ih =>
    have hshape : c.model.classify (fill (.collection name :: layers) ref) =
        .iterable (some (fill layers ref)) := if_pos hname
    exact (Surrounds.collection hrest hmap hname).spell_of_ofElement hrest hfound rfl hshape ih
  | @argument d before after layers hrest hmap hd hsingle hspelled ih =>
    have hargs : List.Forall₂ (fun ref text => c.spell ref = .ok text)
        (before.map Prod.fst ++ fill layers ref :: after.map Prod.fst)
        (before.map Prod.snd ++ m.within c layers :: after.map Prod.snd) := by
      have hothers {others : List (TypeRef × String)} (hsub : others ⊆ before ++ after) :
          List.Forall₂ (fun ref text => c.spell ref = .ok text) (others.map Prod.fst)
            (others.map Prod.snd) := by
        rw [List.forall₂_map_left_iff, List.forall₂_map_right_iff, List.forall₂_same]
        exact fun other hother => hspelled other (hsub hother)
      exact List.rel_append (hothers (List.subset_append_left _ _))
        (.cons ih (hothers (List.subset_append_right _ _)))
    rw [m.within_argument]
    refine spell_of_args hmap (Layer.isNullable_fill_cons ..)
      (Module.classify_of_not_iterable hd hsingle) hargs ?_
    rw [instanceName, htransform]
    rfl

/-- A lookup has keys and values. -/
def lookup : TypeDef :=
  { name := "Lookup", kind := .classType, params := ["Key", "Value"] }

/-- Tags are labels that admit `null`. -/
def shop : Context :=
  { model := { name := "Shop", types := [{ name := "Tag", kind := .classType }, lookup] }
    mappings := MappingTable.builtin.insert ⟨.named "Tag", "Label", "null", true⟩ }

/-- The values of a lookup for numbers. -/
def values : Layer :=
  .argument lookup [(.builtin .int32, "number")] []

/-- A tag admits `null` as a value, but not as an element of a list of values. -/
theorem spell_fill_of_shop :
    shop.Surrounds (.named "Tag") [.array, values] ∧
      shop.Surrounds (.named "Tag") [.array, values, .collection "List"] ∧
      shop.spell (.array (.generic "Lookup" [.builtin .int32, .named "Tag"])) =
        .ok "Lookup<number, Label | null>[]" ∧
      shop.spell (.array (.generic "Lookup" [.builtin .int32, .generic "List" [.named "Tag"]])) =
        .ok "Lookup<number, Label[]>[]" := by
  have hfound : shop.mappings.find? (.named "Tag") = some ⟨.named "Tag", "Label", "null", true⟩ :=
    MappingTable.find?_insert_self ..
  have hkeys : shop.mappings.find? (.builtin .int32) =
      some ⟨.builtin .int32, "number", "0", false⟩ := by
    decide +kernel
  have hothers : ∀ other ∈ [(TypeRef.builtin .int32, "number")] ++ [],
      shop.spell other.1 = .ok other.2 :=
    List.forall_mem_singleton.2 (spell_of_mapped hkeys)
  have alone : shop.Surrounds (.named "Tag") [.array, values] :=
    .array (.argument .nil (by decide +kernel) (by decide +kernel) (by decide +kernel) hothers)
      (by decide +kernel)
  have listed : shop.Surrounds (.named "Tag") [.array, values, .collection "List"] :=
    .array (.argument (.collection .nil (by decide +kernel) (by decide +kernel)) (by decide +kernel)
      (by decide +kernel) (by decide +kernel) hothers) (by decide +kernel)
  exact ⟨alone, listed, (spell_fill rfl hfound alone).trans (by decide +kernel),
    (spell_fill rfl hfound listed).trans (by decide +kernel)⟩

end Context

end Generation

end Typings
