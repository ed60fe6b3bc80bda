import Typings.Module.Shape
import Typings.Proofs.Module.Walk
import Typings.Proofs.TypeRef.Substitution

/-!
# Plain names

Names without bars and brackets, which are the marks of unions and array suffixes in script types.
In a module whose names are plain, every shape of a reference mentions plain names only: what an
iterable type takes its elements from is reached through bases and arguments, and both are in scope.
-/

namespace Typings

/-- Text in which no union and no array suffix begins. -/
def Plain (text : String) : Prop :=
  '|' ∉ text.toList ∧ '[' ∉ text.toList

instance : DecidablePred Plain := fun _ => inferInstanceAs (Decidable (_ ∧ _))

/-- A type whose name and parameters are plain, and whose base has no parameters out of scope. -/
structure TypeDef.Plain (scope : List String) (d : TypeDef) : Prop where
  name : Typings.Plain d.name
  params : ∀ p ∈ d.params, Typings.Plain p
  base : ∀ base ∈ d.base, base.Scoped scope

/-- A module with plain names; the names of parameters in its bases are in the scope. -/
structure Module.Plain (scope : List String) (m : Module) : Prop where
  types : ∀ d ∈ m.types, d.Plain scope
  scope : ∀ p ∈ scope, Typings.Plain p

/-- Substituting arguments of a scope in a reference of that scope leads to the same scope; a
parameter without an argument stays. -/
lemma TypeRef.Scoped.substitute_of_args {scope : List String} {bindings : Bindings} {ref : TypeRef}
    (hs : ref.Scoped scope) (args : ∀ p a, (p, a) ∈ bindings → a.Scoped scope) :
    (ref.substitute bindings).Scoped scope := by
  induction ref with
  | builtin b => exact scoped_builtin
  | named n => exact scoped_named
  | parameter n =>
    rw [TypeRef.substitute]
    cases h : bindings.find? n with
    | none => exact hs
    | some a => exact args n a (Bindings.mem_of_find? h)
  | nullable t ih =>
    rw [TypeRef.substitute, scoped_nullable]
    exact ih (scoped_nullable.1 hs)
  | array t ih =>
    rw [TypeRef.substitute, scoped_array]
    exact ih (scoped_array.1 hs)
  | generic n as ih =>
    rw [TypeRef.substitute, substituteArgs_eq_map, scoped_generic]
    intro a ha
    obtain ⟨b, hb, rfl⟩ := List.mem_map.1 ha
    exact ih b hb (scoped_generic.1 hs b hb)

namespace Module

variable {m : Module} {scope : List String}

/-- The bases on a walk that binds parameters stay in the scope of the module. -/
lemma Plain.scoped_chain (hm : m.Plain scope) {ref : TypeRef} (href : ref.Scoped scope) :
    ∀ r ∈ m.chain Link.boundBase ref, r.Scoped scope := by
  have boundBase {ref : TypeRef} {d base} (hd : m.definition? ref = some d)
      (href : ref.Scoped scope) (hbase : Link.boundBase ⟨ref, d⟩ = some base) :
      base.Scoped scope := by
    obtain ⟨b, hb, rfl⟩ := Option.map_eq_some_iff.1 hbase
    refine ((hm.types d (mem_of_definition? hd)).base b hb).substitute_of_args fun p a ha => ?_
    exact href.of_mem_bindings ha
  rw [chain, List.forall_mem_cons]
  refine ⟨href, ?_⟩
  rw [lineage]
  generalize m.names = unseen
  induction unseen, ref using lineageFrom_induct m Link.boundBase with
  | foreign unseen ref hd => simp [lineageFrom_of_none hd]
  | seen unseen ref d hd hseen => simp [lineageFrom_of_seen hd hseen]
  | last unseen ref d hd hmem hnext => simp [lineageFrom_of_last hd hmem hnext, hnext]
  | link unseen ref d base hd hmem hnext ih =>
    have hbase := boundBase hd href hnext
    rw [lineageFrom_of_next hd hmem hnext, List.filterMap_cons_some hnext, List.forall_mem_cons]
    exact ⟨hbase, ih hbase⟩

/-- The element of a collection is in the scope of the collection. -/
lemma scoped_element? {ref element : TypeRef} (href : ref.Scoped scope)
    (h : ref.element? = some element) : element.Scoped scope := by
  unfold TypeRef.element? at h
  split at h
  · cases h
    exact TypeRef.scoped_array.1 href
  · cases h
    exact TypeRef.scoped_generic.1 href _ (by simp)
  · cases h

/-- The element of an iterable type is in the scope of the module. -/
lemma Plain.scoped_elementType? (hm : m.Plain scope) {ref element : TypeRef}
    (href : ref.Scoped scope) (h : m.elementType? ref = some element) : element.Scoped scope := by
  obtain ⟨collection, hfind, helement⟩ := Option.bind_eq_some_iff.1 h
  exact scoped_element? (hm.scoped_chain href collection (List.mem_of_find?_eq_some hfind)) helement

end Module

/-- What a shape mentions is plain. -/
def Shape.Plain (scope : List String) : Shape → Prop
  | .enumeration d | .genericDefinition d | .classType d | .interfaceType d => d.Plain scope
  | .genericInstance d args => d.Plain scope ∧ ∀ a ∈ args, a.Scoped scope
  | .iterable element => ∀ t ∈ element, t.Scoped scope
  | .parameter name => Typings.Plain name
  | .builtin _ | .unknown => True

/-- In a module with plain names references have plain shapes. -/
lemma Module.Plain.classify {m : Module} {scope : List String} (hm : m.Plain scope) {ref : TypeRef}
    (href : ref.Scoped scope) : (m.classify ref).Plain scope := by
  induction ref with
  | builtin b =>
    rw [Module.classify]
    split
    · simp [Shape.Plain]
    · trivial
  | named n =>
    rw [Module.classify, classifyNamed]
    cases h : m.find? n with
    | none => trivial
    | some d =>
      have hd := hm.types d (mem_of_find? h)
      dsimp only
      split_ifs
      · exact hd
      · exact fun t ht => hm.scoped_elementType? href ht
      · exact hd
      · exact hd
      · exact hd
  | parameter n => exact hm.scope n (TypeRef.scoped_parameter.1 href)
  | nullable t ih => exact ih (TypeRef.scoped_nullable.1 href)
  | array t ih =>
    rintro _ ⟨⟩
    exact TypeRef.scoped_array.1 href
  | generic n args ih =>
    rw [Module.classify, classifyGeneric]
    split
    case isTrue => exact fun t ht => scoped_element? href ht
    case isFalse =>
      cases h : m.find? n with
      | none => trivial
      | some d =>
        dsimp only
        split
        · exact fun t ht => hm.scoped_elementType? href ht
        · exact ⟨hm.types d (mem_of_find? h), TypeRef.scoped_generic.1 href⟩

end Typings
