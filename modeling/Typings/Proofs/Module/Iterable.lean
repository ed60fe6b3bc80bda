import Typings.Module.Shape
import Typings.Proofs.Module.Walk
import Typings.Proofs.WellFormed.Rules

/-!
# What makes a type iterable

A reference is followed from base to base, with its arguments in each of them, until a collection is
met. Whether there is one, and what its elements are, are asked on different walks: one leaves the
bases as they are declared, the other substitutes in them, and each has its own record of the names
it has seen. In a module that passes the check both follow the same chain to its end.
-/

namespace Typings

/-- The element of a collection is one of its parts. -/
lemma TypeRef.mem_parts_of_element? {t e : TypeRef} (h : t.element? = some e) : e ∈ t.parts := by
  cases t with
  | array t => exact List.mem_singleton.2 (Option.some.inj h).symm
  | generic n args =>
    match args, h with
    | [_], h => exact List.mem_singleton.2 (Option.some.inj h).symm
  | _ => cases h

namespace Module

variable {m : Module}

/-- A proper base is the declared one. -/
lemma base_of_properBase {ref d base} (h : Link.properBase ⟨ref, d⟩ = some base) :
    d.base = some base := by
  rw [Link.properBase] at h
  split at h
  · cases h
  · exact h

section Iterable

variable {ref : TypeRef}

/-- A collection is iterable, whatever its definition says. -/
lemma isIterable_of_isCollection (h : ref.isCollection = true) : m.isIterable ref = true := by
  rw [isIterable, chain, List.any_cons, h, Bool.true_or]

/-- A collection gives its own element. -/
lemma elementType?_of_isCollection (h : ref.isCollection = true) :
    m.elementType? ref = ref.element? := by
  rw [elementType?, chain, List.find?_cons, h]
  rfl

/-- A reference that leads to no definition is iterable when it is a collection. -/
lemma isIterable_of_none (h : m.definition? ref = none) :
    m.isIterable ref = ref.isCollection := by
  rw [isIterable, chain_of_none h, List.any_cons, List.any_nil, Bool.or_false]

/-- An enumeration by its bare name is not iterable. -/
lemma isIterable_of_isEnum {name d} (hd : m.definition? (.named name) = some d)
    (henum : d.isEnum = true) : m.isIterable (.named name) = false := by
  have hend : Link.properBase ⟨.named name, d⟩ = none := if_pos henum
  rw [isIterable, chain_of_last hd hend]
  rfl

/-- A user type is iterable through a base that is iterable itself. -/
lemma exists_base_of_isIterable (hc : ref.isCollection = false) (h : m.isIterable ref = true) :
    ∃ d base, m.definition? ref = some d ∧ d.base = some base ∧ m.isIterable base = true := by
  rw [isIterable, chain, List.any_cons, hc, Bool.false_or, lineage] at h
  cases hd : m.definition? ref with
  | none =>
    rw [lineageFrom_of_none hd] at h
    cases h
  | some d =>
    have hmem := name_mem_of_definition? hd
    cases hnext : Link.properBase ⟨ref, d⟩ with
    | none =>
      rw [lineageFrom_of_last hd hmem hnext, List.filterMap_cons_none hnext] at h
      cases h
    | some base =>
      refine ⟨d, base, rfl, base_of_properBase hnext, ?_⟩
      rw [lineageFrom_of_next hd hmem hnext, List.filterMap_cons_some hnext, List.any_cons] at h
      rw [isIterable, chain, List.any_cons]
      -- The walk from the base alone has one name less behind it.
      have hprefix : (m.lineageFrom Link.properBase (m.names.filter (· != d.name)) base).filterMap
          Link.properBase <+: (m.lineage Link.properBase base).filterMap Link.properBase :=
        (lineageFrom_mono (List.filter_subset_self _)).filterMap _
      rw [Bool.or_eq_true] at h ⊢
      refine h.imp_right fun hany => ?_
      obtain ⟨r, hr, hcollection⟩ := List.any_eq_true.1 hany
      exact List.any_eq_true.2 ⟨r, hprefix.subset hr, hcollection⟩

end Iterable

section Substitution

variable {σ : Bindings} {ref : TypeRef}

/-- A substitution in a reference that is no parameter makes no collection of it, and undoes none.
-/
lemma isCollection_substitute (h : ∀ p, ref ≠ .parameter p) :
    (ref.substitute σ).isCollection = ref.isCollection := by
  cases ref with
  | parameter p => exact absurd rfl (h p)
  | _ => rfl

/-- Whether a reference is iterable depends on what it leads to and whether it is a collection. -/
lemma isIterable_congr {ref ref'} (hd : m.definition? ref = m.definition? ref')
    (hc : ref.isCollection = ref'.isCollection) : m.isIterable ref = m.isIterable ref' := by
  have hwalk : (m.lineage Link.properBase ref).filterMap Link.properBase =
      (m.lineage Link.properBase ref').filterMap Link.properBase := by
    cases hd' : m.definition? ref' with
    | none => rw [lineage, lineage, lineageFrom_of_none hd', lineageFrom_of_none (hd.trans hd')]
    | some d =>
      have hmem := name_mem_of_definition? hd'
      cases hnext : Link.properBase ⟨ref', d⟩ with
      | none =>
        rw [lineage, lineage, lineageFrom_of_last hd' hmem hnext,
          lineageFrom_of_last (hd.trans hd') hmem hnext]
        rfl
      | some base =>
        rw [lineage, lineage, lineageFrom_of_next hd' hmem hnext,
          lineageFrom_of_next (hd.trans hd') hmem hnext]
        rfl
  rw [isIterable, isIterable, chain, chain, List.any_cons, List.any_cons, hwalk, hc]

/-- A substitution in a reference that is no parameter keeps it iterable or not. -/
lemma isIterable_substitute (h : ∀ p, ref ≠ .parameter p) :
    m.isIterable (ref.substitute σ) = m.isIterable ref :=
  isIterable_congr (definition?_substitute h) (isCollection_substitute h)

end Substitution

/-- The walk along proper bases climbs them. -/
lemma climbs_properBase : m.Climbs Link.properBase := by
  intro ref d base b _ hnext hb
  exact Extends.baseDefinition? ⟨base, base_of_properBase hnext, hb⟩

/-- No base of the module is a bare parameter. -/
def BasesNamed (m : Module) : Prop :=
  ∀ d ∈ m.types, ∀ p, d.base ≠ some (.parameter p)

/-- The walk along bases with their arguments climbs them when no base is a bare parameter. -/
lemma climbs_boundBase (named : m.BasesNamed) : m.Climbs Link.boundBase := by
  intro ref d bound b hd hnext hb
  obtain ⟨base, hbase, rfl⟩ := Option.map_eq_some_iff.1 hnext
  rw [definition?_substitute fun p hp => named d (mem_of_definition? hd) p (hp ▸ hbase)] at hb
  exact Extends.baseDefinition? ⟨base, hbase, hb⟩

/-- A reference is followed to the base of the definition it names, with its arguments in it. -/
def Follows (m : Module) (ref next : TypeRef) : Prop :=
  ∃ d base, m.definition? ref = some d ∧ d.base = some base ∧
    next = base.substitute (ref.bindings d.params)

/-- The chain of a reference comes to a collection for the first time. -/
inductive Arrives (m : Module) : TypeRef → TypeRef → Prop where
  | here {r} : r.isCollection = true → Arrives m r r
  | follow {ref next r} :
    ref.isCollection = false → m.Follows ref next → Arrives m next r → Arrives m ref r

/-- What is arrived at is a collection. -/
lemma Arrives.isCollection {ref r} (h : m.Arrives ref r) : r.isCollection = true := by
  induction h with
  | here h => exact h
  | follow _ _ _ ih => exact ih

/-- What follows a reference is the bound base of its definition. -/
lemma follows_iff {ref next} :
    m.Follows ref next ↔ ∃ d, m.definition? ref = some d ∧ Link.boundBase ⟨ref, d⟩ = some next := by
  constructor
  · rintro ⟨d, base, hd, hbase, rfl⟩
    exact ⟨d, hd, Option.map_eq_some_iff.2 ⟨base, hbase, rfl⟩⟩
  · rintro ⟨d, hd, hnext⟩
    obtain ⟨base, hbase, rfl⟩ := Option.map_eq_some_iff.1 hnext
    exact ⟨d, base, hd, hbase, rfl⟩

/-- A collection that is no base comes to itself only. -/
lemma arrives_of_isCollection {ref r} (h : ref.isCollection = true) :
    m.Arrives ref r ↔ r = ref := by
  constructor
  · intro hr
    cases hr with
    | here _ => rfl
    | follow hc _ _ => rw [h] at hc; cases hc
  · rintro rfl
    exact .here h

/-- A reference that is no collection comes to what its base comes to. -/
lemma arrives_of_not_isCollection {ref r} (h : ref.isCollection = false) :
    m.Arrives ref r ↔ ∃ next, m.Follows ref next ∧ m.Arrives next r := by
  constructor
  · intro hr
    cases hr with
    | here hc => rw [h] at hc; cases hc
    | follow _ hnext hr => exact ⟨_, hnext, hr⟩
  · rintro ⟨next, hnext, hr⟩
    exact .follow h hnext hr

/-- A reference that leads no further comes to itself when it is a collection, and to nothing else.
-/
lemma arrives_of_last {ref r}
    (h : ∀ d, m.definition? ref = some d → Link.boundBase ⟨ref, d⟩ = none) :
    m.Arrives ref r ↔ ref.isCollection = true ∧ r = ref := by
  cases hc : ref.isCollection with
  | true =>
    rw [arrives_of_isCollection hc]
    exact ⟨fun hr => ⟨rfl, hr⟩, fun hr => hr.2⟩
  | false =>
    rw [arrives_of_not_isCollection hc]
    constructor
    · rintro ⟨next, hnext, _⟩
      obtain ⟨d, hd, hnext⟩ := follows_iff.1 hnext
      rw [h d hd] at hnext
      cases hnext
    · rintro ⟨h, _⟩
      cases h

/-- A reference that leads on comes to itself when it is a collection, and else to what the next one
comes to. -/
lemma arrives_of_next {ref d next r} (hd : m.definition? ref = some d)
    (hnext : Link.boundBase ⟨ref, d⟩ = some next) :
    m.Arrives ref r ↔ if ref.isCollection then r = ref else m.Arrives next r := by
  split
  case isTrue hc => exact arrives_of_isCollection hc
  case isFalse hc =>
    rw [arrives_of_not_isCollection (Bool.not_eq_true _ ▸ hc)]
    constructor
    · rintro ⟨next', hnext', hr⟩
      obtain ⟨d', hd', hnext'⟩ := follows_iff.1 hnext'
      cases hd.symm.trans hd'
      cases hnext.symm.trans hnext'
      exact hr
    · intro hr
      exact ⟨next, follows_iff.2 ⟨d, hd, hnext⟩, hr⟩

section Acyclic

variable (acyclic : m.Acyclic) (named : m.BasesNamed)
include acyclic named

/-- The first collection on the walk along bound bases is the one that the chain arrives at. -/
lemma find?_chain_eq_some_iff {ref r} :
    (m.chain Link.boundBase ref).find? TypeRef.isCollection = some r ↔ m.Arrives ref r := by
  induction ref using Climbs.chain_induct (climbs_boundBase named) acyclic with
  | last ref h =>
    rw [arrives_of_last h, chain_of_end h, List.find?_singleton]
    cases ref.isCollection <;> simp [eq_comm]
  | link ref d next hd hnext ih =>
    rw [arrives_of_next hd hnext, (climbs_boundBase named).chain_of_next acyclic hd hnext,
      List.find?_cons]
    cases ref.isCollection with
    | true => simp [eq_comm]
    | false => exact ih

/-- The walk along proper bases meets a collection exactly when the chain arrives at one. -/
lemma isIterable_iff (enumsBare : ∀ d ∈ m.types, d.isEnum = true → d.base = none) {ref} :
    m.isIterable ref = true ↔ ∃ r, m.Arrives ref r := by
  induction ref using Climbs.chain_induct (climbs_boundBase named) acyclic with
  | last ref h =>
    have hchain : m.chain Link.properBase ref = [ref] := by
      refine chain_of_end fun d hd => ?_
      have hbase : d.base = none := Option.map_eq_none_iff.1 (h d hd)
      rw [Link.properBase, hbase, ite_self]
    simp only [arrives_of_last h, isIterable, hchain, List.any_cons, List.any_nil, Bool.or_false,
      exists_and_left, exists_eq, and_true]
  | link ref d next hd hnext ih =>
    obtain ⟨base, hbase, rfl⟩ := Option.map_eq_some_iff.1 hnext
    have hmem := mem_of_definition? hd
    have hproper : Link.properBase ⟨ref, d⟩ = some base := by
      rw [Link.properBase, if_neg, hbase]
      intro henum
      rw [enumsBare d hmem henum] at hbase
      cases hbase
    have hparam : ∀ p, base ≠ .parameter p := fun p hp => named d hmem p (hp ▸ hbase)
    rw [isIterable_substitute hparam, isIterable] at ih
    rw [isIterable, climbs_properBase.chain_of_next acyclic hd hproper, List.any_cons,
      Bool.or_eq_true, ih]
    simp only [arrives_of_next hd hnext]
    cases ref.isCollection <;> simp

end Acyclic

section Shape

variable {ref : TypeRef} {element : Option TypeRef}

/-- The shape of a bare name is iterable exactly when the name is, and then has its element. -/
lemma classifyNamed_eq_iterable {name} :
    m.classifyNamed name = .iterable element ↔
      m.isIterable (.named name) = true ∧ m.elementType? (.named name) = element := by
  rw [classifyNamed]
  cases hd : m.find? name with
  | none =>
    have hnone : m.definition? (.named name) = none := hd
    simp [isIterable_of_none hnone, TypeRef.isCollection]
  | some d =>
    dsimp only
    cases henum : d.isEnum with
    | true => simp [isIterable_of_isEnum hd henum]
    | false =>
      cases hit : m.isIterable (.named name) with
      | true => simp
      | false =>
        simp only [Bool.false_eq_true, if_false, false_and, iff_false]
        split
        · exact nofun
        · split <;> exact nofun

/-- The shape of an applied type is iterable exactly when the type is, and then has its element. -/
lemma classifyGeneric_eq_iterable {name args} :
    m.classifyGeneric name args = .iterable element ↔
      m.isIterable (.generic name args) = true ∧ m.elementType? (.generic name args) = element := by
  rw [classifyGeneric]
  cases hc : isCollectionName name with
  | true =>
    have hcollection : (TypeRef.generic name args).isCollection = true := hc
    simp [isIterable_of_isCollection hcollection, elementType?_of_isCollection hcollection]
  | false =>
    have hcollection : (TypeRef.generic name args).isCollection = false := hc
    simp only [Bool.false_eq_true, if_false]
    cases hd : m.find? name with
    | none =>
      have hnone : m.definition? (.generic name args) = none := hd
      simp [isIterable_of_none hnone, hcollection]
    | some d => cases hit : m.isIterable (.generic name args) <;> simp

/-- The shape of a reference is iterable exactly when the reference is, and then has its element. -/
lemma classify_eq_iterable (h : ref.isNullable = false) :
    m.classify ref = .iterable element ↔
      m.isIterable ref = true ∧ m.elementType? ref = element := by
  cases ref with
  | builtin b =>
    rw [isIterable_of_none rfl, classify]
    by_cases hb : b = .enumerable
    · subst hb
      rw [if_pos rfl, elementType?_of_isCollection rfl]
      simp [TypeRef.isCollection, TypeRef.element?]
    · simp [hb, TypeRef.isCollection]
  | parameter n =>
    rw [isIterable_of_none rfl, classify]
    simp [TypeRef.isCollection]
  | nullable t => cases h
  | array t =>
    rw [isIterable_of_none rfl, classify, elementType?_of_isCollection rfl]
    simp [TypeRef.isCollection, TypeRef.element?]
  | named n => exact classifyNamed_eq_iterable
  | generic n args => exact classifyGeneric_eq_iterable

end Shape

/-- A collection with a known element is an array or a well-known collection of one argument. -/
lemma element?_eq_some {r e : TypeRef} :
    r.isCollection = true ∧ r.element? = some e ↔
      r = .array e ∨ ∃ name, isCollectionName name = true ∧ r = .generic name [e] := by
  constructor
  · rintro ⟨hc, he⟩
    cases r with
    | array t => exact .inl (congrArg TypeRef.array (Option.some.inj he))
    | generic name args =>
      match args, he with
      | [_], he => exact .inr ⟨name, hc, by rw [Option.some.inj he]⟩
    | _ => cases he
  · rintro (rfl | ⟨name, hname, rfl⟩)
    · exact ⟨rfl, rfl⟩
    · exact ⟨hname, rfl⟩

/-- A collection without a known element is the bare enumerable or a well-known collection of
another number of arguments. -/
lemma element?_eq_none {r : TypeRef} :
    r.isCollection = true ∧ r.element? = none ↔
      r = .builtin .enumerable ∨
        ∃ name args, isCollectionName name = true ∧ args.length ≠ 1 ∧ r = .generic name args := by
  constructor
  · rintro ⟨hc, he⟩
    cases r with
    | builtin b => exact .inl (congrArg TypeRef.builtin (eq_of_beq hc))
    | generic name args =>
      refine .inr ⟨name, args, hc, fun hone => ?_, rfl⟩
      obtain ⟨a, rfl⟩ := List.length_eq_one_iff.1 hone
      cases he
    | array t => cases he
    | _ => cases hc
  · rintro (rfl | ⟨name, args, hname, hone, rfl⟩)
    · exact ⟨rfl, rfl⟩
    · refine ⟨hname, ?_⟩
      match args, hone with
      | [], _ => rfl
      | _ :: _ :: _, _ => rfl

/-- Where no type of the name of a collection has a base, the chain ends at the first collection. -/
lemma arrives_iff_reflTransGen
    (bare : ∀ d ∈ m.types, isCollectionName d.name = true → d.base = none)
    {ref r} (hr : r.isCollection = true) :
    m.Arrives ref r ↔ Relation.ReflTransGen m.Follows ref r := by
  constructor
  · intro h
    induction h with
    | here _ => exact .refl
    | follow _ hnext _ ih => exact .head hnext (ih hr)
  · intro h
    induction h using Relation.ReflTransGen.head_induction_on with
    | refl => exact .here hr
    | @head ref next hnext _ ih =>
      refine .follow ?_ hnext ih
      obtain ⟨d, base, hd, hbase, -⟩ := hnext
      have hname : isCollectionName d.name = false := by
        by_contra hc
        rw [bare d (mem_of_definition? hd) (Bool.not_eq_false _ ▸ hc)] at hbase
        cases hbase
      rw [name_of_definition? hd] at hname
      cases ref with
      | named n => rfl
      | generic n args => exact hname
      | _ => cases hd

/-- In a module that passes the check and has no bare parameter for a base, a reference has the
shape of what its chain arrives at. It is iterable with an element when the chain comes to an array
or to a well-known collection of one argument, iterable without one when it comes to the bare
enumerable or to a well-known collection of another number of arguments, and else it is not iterable
in any sense.

The first collection decides. The chain could go on from it only where a type bears the name of a
well-known collection and has a base. -/
theorem classify_eq_iterable_iff (check : m.check = .ok ()) (named : m.BasesNamed) (ref : TypeRef)
    (h : ref.isNullable = false) :
    (∀ e, m.classify ref = .iterable (some e) ↔
      ∃ r, m.Arrives ref r ∧
        (r = .array e ∨ ∃ name, isCollectionName name = true ∧ r = .generic name [e])) ∧
    (m.classify ref = .iterable none ↔
      ∃ r, m.Arrives ref r ∧
        (r = .builtin .enumerable ∨
          ∃ name args, isCollectionName name = true ∧ args.length ≠ 1 ∧ r = .generic name args)) ∧
    ((¬∃ r, m.Arrives ref r) →
      (∀ element, m.classify ref ≠ .iterable element) ∧ m.isIterable ref = false ∧
        m.elementType? ref = none) ∧
    (∀ t, m.classify (.nullable t) = m.classify t) ∧
    ((∀ d ∈ m.types, isCollectionName d.name = true → d.base = none) →
      ∀ r, r.isCollection = true → (m.Arrives ref r ↔ Relation.ReflTransGen m.Follows ref r)) := by
  have wf := wellFormed_of_check check
  have iterable : m.isIterable ref = true ↔ ∃ r, m.Arrives ref r :=
    isIterable_iff wf.acyclic named fun d hd henum => (wf.enums d hd henum).base
  have found {r} : (m.chain Link.boundBase ref).find? TypeRef.isCollection = some r ↔
      m.Arrives ref r := find?_chain_eq_some_iff wf.acyclic named
  have shape (element : Option TypeRef) : m.classify ref = .iterable element ↔
      ∃ r, m.Arrives ref r ∧ r.isCollection = true ∧ r.element? = element := by
    rw [classify_eq_iterable h, iterable]
    constructor
    · rintro ⟨⟨r, hr⟩, helement⟩
      rw [elementType?, found.2 hr] at helement
      exact ⟨r, hr, hr.isCollection, helement⟩
    · rintro ⟨r, hr, _, helement⟩
      refine ⟨⟨r, hr⟩, ?_⟩
      rw [elementType?, found.2 hr]
      exact helement
  refine ⟨fun e => ?_, ?_, fun hnone => ⟨fun element hshape => ?_, ?_, ?_⟩, fun t => rfl,
    fun bare r hr => arrives_iff_reflTransGen bare hr⟩
  · rw [shape]
    exact exists_congr fun r => and_congr_right fun _ => element?_eq_some
  · rw [shape]
    exact exists_congr fun r => and_congr_right fun _ => element?_eq_none
  · obtain ⟨r, hr, _⟩ := (shape element).1 hshape
    exact hnone ⟨r, hr⟩
  · rw [← Bool.not_eq_true, iterable]
    exact hnone
  · cases hfind : (m.chain Link.boundBase ref).find? TypeRef.isCollection with
    | none => rw [elementType?, hfind]; rfl
    | some r => exact absurd ⟨r, found.1 hfind⟩ hnone

/-- A page is a list of rows, and a report is a page. -/
def pages : Module :=
  { name := "Pages"
    types := [
      { name := "Report", kind := .classType, base := some (.generic "Page" [.builtin .int32]) },
      { name := "Page", kind := .classType, params := ["Cell"]
        base := some (.generic "List" [.array (.parameter "Cell")]) }] }

/-- The elements of a report are found behind two bases, with the argument of the first in them. -/
theorem classify_eq_iterable_iff_of_pages :
    pages.check = .ok () ∧ pages.BasesNamed ∧ (TypeRef.named "Report").isNullable = false ∧
      pages.Arrives (.named "Report") (.generic "List" [.array (.builtin .int32)]) ∧
      pages.classify (.named "Report") = .iterable (some (.array (.builtin .int32))) := by
  have check : pages.check = .ok () := by decide +kernel
  have named : pages.BasesNamed := by simp [BasesNamed, pages]
  have arrives : pages.Arrives (.named "Report") (.generic "List" [.array (.builtin .int32)]) :=
    .follow (by decide +kernel) ⟨_, _, rfl, rfl, rfl⟩
      (.follow (by decide +kernel) ⟨_, _, rfl, rfl, rfl⟩ (.here (by decide +kernel)))
  exact ⟨check, named, rfl, arrives,
    ((classify_eq_iterable_iff check named _ rfl).1 _).2
      ⟨_, arrives, .inr ⟨"List", by decide +kernel, rfl⟩⟩⟩

/-- A type of the name of a collection, with another collection for its base. -/
def queuedList : Module :=
  { name := "Queued"
    types := [
      { name := "List", kind := .classType, params := ["T"]
        base := some (.generic "Queue" [.builtin .string]) }] }

/-- The chain may go on from a collection to another one, which does not count. -/
theorem not_classify_eq_iterable_iff_reflTransGen :
    ¬∀ (m : Module), m.check = .ok () → m.BasesNamed → ∀ ref : TypeRef, ref.isNullable = false →
      ∀ e, m.classify ref = .iterable (some e) ↔
        ∃ r, Relation.ReflTransGen m.Follows ref r ∧
          (r = .array e ∨ ∃ name, isCollectionName name = true ∧ r = .generic name [e]) := by
  intro h
  have check : queuedList.check = .ok () := by decide +kernel
  have named : queuedList.BasesNamed := by simp [BasesNamed, queuedList]
  have follows : queuedList.Follows (.generic "List" [.builtin .int32])
      (.generic "Queue" [.builtin .string]) :=
    ⟨_, _, rfl, rfl, rfl⟩
  have hshape := (h queuedList check named (.generic "List" [.builtin .int32]) rfl
    (.builtin .string)).2 ⟨_, .single follows, .inr ⟨"Queue", by decide +kernel, rfl⟩⟩
  have hint : queuedList.classify (.generic "List" [.builtin .int32]) =
      .iterable (some (.builtin .int32)) := by decide +kernel
  rw [hint] at hshape
  cases hshape

end Module

end Typings
