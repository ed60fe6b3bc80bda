import Mathlib.Data.List.Forall2
import Mathlib.Data.Option.Basic
import Typings.Proofs.Module.Iterable
import Typings.Proofs.TypeRef.Substitution

/-!
# Filling in arguments

A reference with some of its parameters replaced by arguments goes the same ways as the reference
itself, as long as these lead to no parameter. What one asks for is what the other asks for, with
arguments filled in. An argument is filled in only where the parameter stood, so a parameter that a
definition has left in its bases, and that bears the name of another one, stays.
-/

namespace Typings

namespace TypeRef

/-- The second reference is the first one with arguments in the place of some of its parameters. -/
inductive Fills (σ : Bindings) : TypeRef → TypeRef → Prop where
  | builtin {b} : Fills σ (.builtin b) (.builtin b)
  | named {n} : Fills σ (.named n) (.named n)
  | parameter {p} : Fills σ (.parameter p) (.parameter p)
  | argument {p a} : σ.find? p = some a → Fills σ (.parameter p) a
  | nullable {t t'} : Fills σ t t' → Fills σ (.nullable t) (.nullable t')
  | array {t t'} : Fills σ t t' → Fills σ (.array t) (.array t')
  | generic {n args args'} :
    List.Forall₂ (Fills σ) args args' → Fills σ (.generic n args) (.generic n args')

variable {σ τ τ' : Bindings} {t t' : TypeRef}

/-- Two substitutions are one filled into the other when they are so at each parameter. -/
lemma fills_substitute_substitute
    (h : ∀ p, Fills σ ((τ.find? p).getD (.parameter p)) ((τ'.find? p).getD (.parameter p)))
    (t : TypeRef) : Fills σ (t.substitute τ) (t.substitute τ') := by
  induction t with
  | builtin b => exact .builtin
  | named n => exact .named
  | parameter p => exact h p
  | nullable t ih => exact .nullable ih
  | array t ih => exact .array ih
  | generic n args ih =>
    rw [substitute, substitute, substituteArgs_eq_map, substituteArgs_eq_map]
    refine .generic ?_
    rw [List.forall₂_map_left_iff, List.forall₂_map_right_iff, List.forall₂_same]
    exact ih

/-- A substitution fills in its arguments. -/
lemma fills_substitute (σ : Bindings) (t : TypeRef) : Fills σ t (t.substitute σ) := by
  have h : Fills σ (t.substitute []) (t.substitute σ) := by
    refine fills_substitute_substitute (fun p => ?_) t
    cases hp : σ.find? p with
    | none => exact .parameter
    | some a => exact .argument hp
  rwa [substitute_nil] at h

/-- Filling in nothing is possible everywhere. -/
lemma fills_refl (σ : Bindings) (t : TypeRef) : Fills σ t t := by
  have h : Fills σ (t.substitute []) (t.substitute []) :=
    fills_substitute_substitute (fun _ => .parameter) t
  rwa [substitute_nil] at h

/-- Where bound arguments are filled in one by one, so is the one that is found. -/
lemma fills_find? {bs bs' : Bindings}
    (h : List.Forall₂ (fun b b' => b.1 = b'.1 ∧ Fills σ b.2 b'.2) bs bs') (p : String) :
    Option.Rel (Fills σ) (bs.find? p) (bs'.find? p) := by
  have hreverse := List.forall₂_reverse_iff.2 h
  rw [Bindings.find?, Bindings.find?]
  generalize bs.reverse = bs at hreverse
  generalize bs'.reverse = bs' at hreverse
  induction hreverse with
  | nil => exact .none
  | @cons b b' _ _ hb _ ih =>
    rw [List.lookup_cons, List.lookup_cons, ← hb.1]
    cases p == b.1 with
    | true => exact .some hb.2
    | false => exact ih

/-- The arguments of a reference are filled in one by one. -/
lemma Fills.bindings (h : Fills σ t t') (hproper : ∀ p, t ≠ .parameter p) (params : List String) :
    List.Forall₂ (fun b b' => b.1 = b'.1 ∧ Fills σ b.2 b'.2) (t.bindings params)
      (t'.bindings params) := by
  cases h with
  | parameter => exact absurd rfl (hproper _)
  | argument _ => exact absurd rfl (hproper _)
  | @generic n args args' hargs =>
    rw [TypeRef.bindings, TypeRef.bindings]
    clear hproper
    induction hargs generalizing params with
    | nil =>
      rw [List.zip_nil_right]
      exact .nil
    | cons ha _ ih =>
      cases params with
      | nil => exact .nil
      | cons q params => exact .cons ⟨rfl, ha⟩ (ih params)
  | _ => exact .nil

/-- A base with the arguments of the reference in it goes on to be filled in. -/
lemma Fills.substitute_bindings (h : Fills σ t t') (hproper : ∀ p, t ≠ .parameter p)
    (params : List String) (base : TypeRef) :
    Fills σ (base.substitute (t.bindings params)) (base.substitute (t'.bindings params)) := by
  refine fills_substitute_substitute (fun p => ?_) base
  have hfound := fills_find? (h.bindings hproper params) p
  revert hfound
  generalize (t.bindings params).find? p = found
  generalize (t'.bindings params).find? p = found'
  rintro (h | _)
  · exact h
  · exact .parameter

end TypeRef

namespace Module

open TypeRef (Fills)

variable {m : Module} {σ : Bindings} {t t' : TypeRef}

/-- Filling in arguments does not change the definition that a reference leads to. -/
lemma definition?_of_fills (h : Fills σ t t') (hproper : ∀ p, t ≠ .parameter p) :
    m.definition? t' = m.definition? t := by
  cases h with
  | parameter => exact absurd rfl (hproper _)
  | argument _ => exact absurd rfl (hproper _)
  | _ => rfl

lemma isCollection_of_fills (h : Fills σ t t') (hproper : ∀ p, t ≠ .parameter p) :
    t'.isCollection = t.isCollection := by
  cases h with
  | parameter => exact absurd rfl (hproper _)
  | argument _ => exact absurd rfl (hproper _)
  | _ => rfl

lemma isIterable_of_fills (h : Fills σ t t') (hproper : ∀ p, t ≠ .parameter p) :
    m.isIterable t' = m.isIterable t :=
  isIterable_congr (definition?_of_fills h hproper) (isCollection_of_fills h hproper)

/-- An iterable reference is no parameter. -/
lemma ne_parameter_of_isIterable (h : m.isIterable t = true) (p : String) : t ≠ .parameter p := by
  rintro rfl
  rw [isIterable_of_none rfl] at h
  cases h

/-- An iterable reference is not nullable. -/
lemma isNullable_of_isIterable (h : m.isIterable t = true) : t.isNullable = false := by
  cases t with
  | nullable t =>
    rw [isIterable_of_none rfl] at h
    cases h
  | _ => rfl

/-- The element found on a walk along bound bases from a reference, with the given names unseen. -/
def elementFrom (m : Module) (unseen : List String) (ref : TypeRef) : Option TypeRef :=
  ((ref :: (m.lineageFrom Link.boundBase unseen ref).filterMap Link.boundBase).find?
    TypeRef.isCollection).bind TypeRef.element?

/-- The walk ends at a collection. -/
lemma elementFrom_of_isCollection {unseen ref} (h : ref.isCollection = true) :
    m.elementFrom unseen ref = ref.element? := by
  rw [elementFrom, List.find?_cons, h]
  rfl

/-- The walk goes on from a user type to its bound base, with its name seen. -/
lemma elementFrom_of_next {unseen ref d next} (hc : ref.isCollection = false)
    (hd : m.definition? ref = some d) (hmem : d.name ∈ unseen)
    (hnext : Link.boundBase ⟨ref, d⟩ = some next) :
    m.elementFrom unseen ref = m.elementFrom (unseen.filter (· != d.name)) next := by
  rw [elementFrom, List.find?_cons, hc, lineageFrom_of_next hd hmem hnext,
    List.filterMap_cons_some hnext]
  rfl

/-- A reference leads on to one other at most. -/
lemma Follows.unique {next next'} (h : m.Follows t next) (h' : m.Follows t next') :
    next = next' := by
  obtain ⟨d, hd, hnext⟩ := follows_iff.1 h
  obtain ⟨d', hd', hnext'⟩ := follows_iff.1 h'
  cases hd.symm.trans hd'
  exact Option.some.inj (hnext.symm.trans hnext')

/-- A chain arrives at one collection at most. -/
lemma Arrives.unique {r r'} (h : m.Arrives t r) (h' : m.Arrives t r') : r = r' := by
  induction h with
  | here hc => exact ((arrives_of_isCollection hc).1 h').symm
  | follow hc hnext _ ih =>
    obtain ⟨next', hnext', h'⟩ := (arrives_of_not_isCollection hc).1 h'
    exact ih (hnext.unique hnext' ▸ h')

/-- When the walk along declared bases meets a collection, the chain arrives at one whatever
arguments are put in, and the element is that of the collection. -/
lemma exists_arrives_of_any {unseen} (σ : Bindings)
    (h : (t :: (m.lineageFrom Link.properBase unseen t).filterMap Link.properBase).any
      TypeRef.isCollection = true) :
    ∃ r, m.Arrives (t.substitute σ) r ∧ m.elementFrom unseen (t.substitute σ) = r.element? := by
  have here {unseen t} (σ : Bindings) (hc : TypeRef.isCollection t = true) :
      ∃ r, m.Arrives (t.substitute σ) r ∧
        m.elementFrom unseen (t.substitute σ) = r.element? := by
    have hc' : (t.substitute σ).isCollection = true := by
      rw [isCollection_of_fills (t.fills_substitute σ), hc]
      rintro p rfl
      cases hc
    exact ⟨_, .here hc', elementFrom_of_isCollection hc'⟩
  induction unseen, t using lineageFrom_induct m Link.properBase generalizing σ with
  | foreign unseen t hd =>
    rw [lineageFrom_of_none hd, List.filterMap_nil, List.any_cons, List.any_nil, Bool.or_false] at h
    exact here σ h
  | seen unseen t d hd hseen =>
    rw [lineageFrom_of_seen hd hseen, List.filterMap_nil, List.any_cons, List.any_nil,
      Bool.or_false] at h
    exact here σ h
  | last unseen t d hd hmem hnext =>
    rw [lineageFrom_of_last hd hmem hnext, List.filterMap_cons_none hnext, List.filterMap_nil,
      List.any_cons, List.any_nil, Bool.or_false] at h
    exact here σ h
  | link unseen t d base hd hmem hnext ih =>
    rw [lineageFrom_of_next hd hmem hnext, List.filterMap_cons_some hnext, List.any_cons,
      Bool.or_eq_true] at h
    cases hc : t.isCollection with
    | true => exact here σ hc
    | false =>
      rw [hc] at h
      have hproper : ∀ p, t ≠ .parameter p := by
        rintro p rfl
        cases hd
      obtain ⟨r, hr, helement⟩ := ih ((t.substitute σ).bindings d.params)
        (h.resolve_left Bool.false_ne_true)
      have hc' : (t.substitute σ).isCollection = false :=
        (isCollection_of_fills (t.fills_substitute σ) hproper).trans hc
      have hd' : m.definition? (t.substitute σ) = some d :=
        (definition?_of_fills (t.fills_substitute σ) hproper).trans hd
      have hnext' : Link.boundBase ⟨t.substitute σ, d⟩ =
          some (base.substitute ((t.substitute σ).bindings d.params)) :=
        Option.map_eq_some_iff.2 ⟨base, base_of_properBase hnext, rfl⟩
      refine ⟨r, .follow hc' (follows_iff.2 ⟨d, hd', hnext'⟩) hr, ?_⟩
      rw [elementFrom_of_next hc' hd' hmem hnext', helement]

/-- The chain of an iterable reference arrives at the collection that its element is of. -/
lemma exists_arrives (h : m.isIterable t = true) :
    ∃ r, m.Arrives t r ∧ m.elementType? t = r.element? := by
  have harrives := exists_arrives_of_any [] h
  rwa [TypeRef.substitute_nil] at harrives

/-- The reference is to an iterable user type. -/
def Expands (m : Module) (ref : TypeRef) : Prop :=
  ref.isCollection = false ∧ m.isIterable ref = true

lemma expands_of_fills (h : Fills σ t t') (hproper : ∀ p, t ≠ .parameter p) :
    m.Expands t' ↔ m.Expands t := by
  rw [Expands, Expands, isCollection_of_fills h hproper, isIterable_of_fills h hproper]

/-- What a reference to an iterable user type leads on to is iterable. -/
lemma Expands.exists_base (h : m.Expands t) :
    ∃ d base, m.definition? t = some d ∧ d.base = some base ∧ m.isIterable base = true ∧
      m.Follows t (base.substitute (t.bindings d.params)) := by
  obtain ⟨d, base, hd, hbase, hiterable⟩ := exists_base_of_isIterable h.1 h.2
  exact ⟨d, base, hd, hbase, hiterable, d, base, hd, hbase, rfl⟩

lemma Expands.isIterable_of_follows {next} (h : m.Expands t) (hnext : m.Follows t next) :
    m.isIterable next = true := by
  obtain ⟨d, base, _, _, hiterable, hfollows⟩ := h.exists_base
  rw [hnext.unique hfollows,
    isIterable_of_fills (base.fills_substitute _) (ne_parameter_of_isIterable hiterable), hiterable]

/-- A reference to an iterable user type has the name of a type. -/
lemma Expands.name_mem_names (h : m.Expands t) : t.name ∈ m.names := by
  obtain ⟨d, _, hd, _⟩ := h.exists_base
  exact name_of_definition? hd ▸ name_mem_of_definition? hd

/-- The element of a filled in collection is that of the collection, filled in. -/
lemma element?_of_fills (h : Fills σ t t') (hproper : ∀ p, t ≠ .parameter p) :
    Option.Rel (Fills σ) t.element? t'.element? := by
  cases h with
  | parameter => exact absurd rfl (hproper _)
  | argument _ => exact absurd rfl (hproper _)
  | array h => exact .some h
  | generic hargs =>
    rcases hargs with _ | ⟨ha, _ | ⟨hb, _⟩⟩
    · exact .none
    · exact .some ha
    · exact .none
  | _ => exact .none

/-- A filled in reference arrives where the reference does, with the arguments filled in. -/
lemma Arrives.fills {r} (h : m.Arrives t r) (hfills : Fills σ t t')
    (hiterable : m.isIterable t = true) :
    ∃ r', m.Arrives t' r' ∧ Fills σ r r' := by
  induction h generalizing t' with
  | here hc =>
    have hproper := ne_parameter_of_isIterable hiterable
    exact ⟨t', .here ((isCollection_of_fills hfills hproper).trans hc), hfills⟩
  | @follow t next r hc hnext _ ih =>
    have hproper := ne_parameter_of_isIterable hiterable
    obtain ⟨d, base, hd, hbase, rfl⟩ := hnext
    have hfollows : m.Follows t' (base.substitute (t'.bindings d.params)) :=
      ⟨d, base, (definition?_of_fills hfills hproper).trans hd, hbase, rfl⟩
    obtain ⟨r', hr', hfills'⟩ := ih (hfills.substitute_bindings hproper d.params base)
      (Expands.isIterable_of_follows ⟨hc, hiterable⟩ ⟨d, base, hd, hbase, rfl⟩)
    exact ⟨r', .follow ((isCollection_of_fills hfills hproper).trans hc) hfollows hr', hfills'⟩

/-- The element of a filled in reference is that of the reference, filled in. -/
lemma elementType?_of_fills (hfills : Fills σ t t') (hiterable : m.isIterable t = true) :
    Option.Rel (Fills σ) (m.elementType? t) (m.elementType? t') := by
  have hproper := ne_parameter_of_isIterable hiterable
  obtain ⟨r, hr, helement⟩ := exists_arrives hiterable
  obtain ⟨r', hr', helement'⟩ :=
    exists_arrives ((isIterable_of_fills hfills hproper).trans hiterable)
  obtain ⟨r'', hr'', hfills'⟩ := hr.fills hfills hiterable
  cases hr'.unique hr''
  rw [helement, helement']
  refine element?_of_fills hfills' ?_
  rintro p rfl
  cases hr.isCollection

end Module

/-- What the spelling of a shape asks for, when nothing is mapped. -/
def Shape.asked : Shape → List TypeRef
  | .iterable element => element.toList
  | .genericInstance _ args => args
  | _ => []

namespace Module

open TypeRef (Fills)

variable {m : Module} {σ : Bindings} {t t' : TypeRef}

/-- What the spelling of a reference asks for, when nothing is mapped. -/
def asked (m : Module) : TypeRef → List TypeRef
  | .nullable inner => [inner]
  | ref => (m.classify ref).asked

lemma asked_of_not_nullable (h : t.isNullable = false) : m.asked t = (m.classify t).asked := by
  cases t with
  | nullable t => cases h
  | _ => rfl

/-- An iterable reference asks for its element. -/
lemma asked_of_isIterable (h : m.isIterable t = true) : m.asked t = (m.elementType? t).toList := by
  have hnot := isNullable_of_isIterable h
  rw [asked_of_not_nullable hnot, (classify_eq_iterable hnot).2 ⟨h, rfl⟩]
  rfl

/-- A type applied to arguments is what its shape says. -/
lemma eq_generic_of_classify {d args} (hnot : t.isNullable = false)
    (h : m.classify t = .genericInstance d args) : ∃ name, t = .generic name args := by
  cases t with
  | builtin b =>
    rw [classify] at h
    split at h <;> cases h
  | nullable t => cases hnot
  | named n =>
    rw [classify, classifyNamed] at h
    split at h
    · cases h
    · repeat' split at h
      all_goals cases h
  | generic n as =>
    rw [classify, classifyGeneric] at h
    split at h
    · cases h
    · split at h
      · cases h
      · split at h
        · cases h
        · cases h
          exact ⟨n, rfl⟩
  | _ => cases h

/-- A reference asks for its parts, or for the element of a user type. -/
lemma mem_asked_cases {part : TypeRef} (h : part ∈ m.asked t) :
    part ∈ t.parts ∨ m.Expands t ∧ m.elementType? t = some part := by
  cases hnot : t.isNullable with
  | true =>
    obtain ⟨inner, rfl⟩ := TypeRef.isNullable_iff.1 hnot
    exact .inl h
  | false =>
    rw [asked_of_not_nullable hnot] at h
    cases hshape : m.classify t with
    | iterable element =>
      rw [hshape] at h
      cases Option.mem_toList.1 h
      obtain ⟨hiterable, helement⟩ := (classify_eq_iterable hnot).1 hshape
      cases hc : t.isCollection with
      | true =>
        rw [elementType?_of_isCollection hc] at helement
        exact .inl (TypeRef.mem_parts_of_element? helement)
      | false => exact .inr ⟨⟨hc, hiterable⟩, helement⟩
    | genericInstance d args =>
      obtain ⟨name, rfl⟩ := eq_generic_of_classify hnot hshape
      rw [hshape] at h
      exact .inl h
    | _ =>
      rw [hshape] at h
      cases h

/-- Filled in references ask for filled in ones. -/
lemma asked_of_fills (h : Fills σ t t') (hproper : ∀ p, t ≠ .parameter p) :
    List.Forall₂ (Fills σ) (m.asked t) (m.asked t') := by
  have hsame : List.Forall₂ (Fills σ) (m.asked t) (m.asked t) :=
    List.forall₂_same.2 fun part _ => part.fills_refl σ
  cases hiterable : m.isIterable t with
  | true =>
    have hrel := elementType?_of_fills h hiterable
    rw [asked_of_isIterable hiterable,
      asked_of_isIterable ((isIterable_of_fills h hproper).trans hiterable)]
    revert hrel
    generalize m.elementType? t = element
    generalize m.elementType? t' = element'
    rintro (h | _)
    · exact .cons h .nil
    · exact .nil
  | false =>
    have hiterable' := (isIterable_of_fills (m := m) h hproper).trans hiterable
    cases h with
    | parameter => exact absurd rfl (hproper _)
    | argument _ => exact absurd rfl (hproper _)
    | nullable h => exact .cons h .nil
    | array h => rw [isIterable_of_isCollection rfl] at hiterable; cases hiterable
    | builtin => exact hsame
    | named => exact hsame
    | @generic n args args' hargs =>
      rw [asked_of_not_nullable rfl, asked_of_not_nullable rfl, classify, classify, classifyGeneric,
        classifyGeneric, hiterable, hiterable']
      cases hc : isCollectionName n with
      | true =>
        have hcollection : (TypeRef.generic n args).isCollection = true := hc
        rw [isIterable_of_isCollection hcollection] at hiterable
        cases hiterable
      | false =>
        cases m.find? n with
        | none => exact .nil
        | some d => exact hargs

end Module

end Typings
