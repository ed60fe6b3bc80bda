import Typings.Proofs.TypeRef.Occurrence
import Typings.TypeRef.Substitution

/-!
# Scopes and substitution

A reference is in scope when every parameter that occurs in it is. When the arguments of a reference
cover the parameters of a type, substituting them in a reference of that scope and substituting in
the outcome is the same as substituting in the arguments first.
-/

namespace Typings

namespace Bindings

/-- The bindings with a substitution made in each argument. -/
def substitute (bindings σ : Bindings) : Bindings :=
  bindings.map fun b => (b.1, b.2.substitute σ)

/-- The bindings give each of the parameters an argument. -/
def Covers (bindings : Bindings) (params : List String) : Prop :=
  ∀ p ∈ params, ∃ a, bindings.find? p = some a

variable {bindings σ : Bindings}

/-- A substitution in the arguments is one in the argument found. -/
lemma find?_substitute (bindings σ : Bindings) (p : String) :
    (bindings.substitute σ).find? p = (bindings.find? p).map (·.substitute σ) := by
  rw [find?, find?, substitute, ← List.map_reverse]
  induction bindings.reverse with
  | nil => rfl
  | cons b rest ih =>
    rw [List.map_cons, List.lookup_cons, List.lookup_cons]
    cases p == b.1 with
    | true => rfl
    | false => exact ih

/-- The argument found for a parameter is bound to it. -/
lemma mem_of_find? {p a} (h : bindings.find? p = some a) : (p, a) ∈ bindings := by
  obtain ⟨before, behind, heq, _⟩ := List.lookup_eq_some_iff.1 h
  rw [← List.mem_reverse, heq]
  exact List.mem_append_right _ List.mem_cons_self

/-- Some argument is found for a parameter that is bound. -/
lemma exists_find? {p a} (h : (p, a) ∈ bindings) : ∃ a', bindings.find? p = some a' := by
  rw [← Option.isSome_iff_exists, find?, List.lookup_isSome_iff]
  exact ⟨(p, a), List.mem_reverse.2 h, beq_self_eq_true p⟩

/-- A substitution in the arguments leaves the same parameters covered. -/
lemma Covers.substitute {params} (h : bindings.Covers params) :
    (bindings.substitute σ).Covers params := by
  intro p hp
  obtain ⟨a, ha⟩ := h p hp
  exact ⟨a.substitute σ, by rw [find?_substitute, ha, Option.map_some]⟩

/-- As many arguments as parameters cover the parameters. -/
lemma covers_zip {params : List String} {args : List TypeRef} (h : params.length = args.length) :
    Covers (params.zip args) params := by
  intro p hp
  rw [← List.map_fst_zip (Nat.le_of_eq h)] at hp
  obtain ⟨⟨_, a⟩, ha, rfl⟩ := List.mem_map.1 hp
  exact exists_find? ha

lemma covers_nil : bindings.Covers [] := by
  intro p hp
  cases hp

end Bindings

namespace TypeRef

/-- Every parameter that occurs in the reference is in scope. -/
def Scoped (scope : List String) (ref : TypeRef) : Prop :=
  ∀ p, (TypeRef.parameter p).Within ref → p ∈ scope

section Scoped

variable {scope : List String}

@[simp] lemma scoped_builtin {b} : (TypeRef.builtin b).Scoped scope := by simp [Scoped]

@[simp] lemma scoped_named {n} : (TypeRef.named n).Scoped scope := by simp [Scoped]

@[simp] lemma scoped_parameter {n} : (TypeRef.parameter n).Scoped scope ↔ n ∈ scope := by
  simp [Scoped]

@[simp] lemma scoped_nullable {t : TypeRef} : (nullable t).Scoped scope ↔ t.Scoped scope := by
  simp [Scoped, Within.nullable_iff]

@[simp] lemma scoped_array {t : TypeRef} : (array t).Scoped scope ↔ t.Scoped scope := by
  simp [Scoped, Within.array_iff]

@[simp] lemma scoped_generic {n args} :
    (generic n args).Scoped scope ↔ ∀ a ∈ args, a.Scoped scope := by
  simp only [Scoped, Within.generic_iff, reduceCtorEq, false_or]
  constructor
  · intro h a ha p hp
    exact h p ⟨a, ha, hp⟩
  · rintro h p ⟨a, ha, hp⟩
    exact h a ha p hp

end Scoped

variable {bindings σ : Bindings} {params scope : List String}

/-- Substituting covered parameters by arguments of a scope leads to that scope. -/
lemma Scoped.substitute {ref : TypeRef} (hs : ref.Scoped params) (covers : bindings.Covers params)
    (args : ∀ p a, (p, a) ∈ bindings → a.Scoped scope) :
    (ref.substitute bindings).Scoped scope := by
  induction ref with
  | builtin b => exact scoped_builtin
  | named n => exact scoped_named
  | parameter n =>
    obtain ⟨a, ha⟩ := covers n (scoped_parameter.1 hs)
    rw [TypeRef.substitute, ha]
    exact args n a (Bindings.mem_of_find? ha)
  | nullable t ih =>
    rw [TypeRef.substitute, scoped_nullable]
    exact ih (scoped_nullable.1 hs)
  | array t ih =>
    rw [TypeRef.substitute, scoped_array]
    exact ih (scoped_array.1 hs)
  | generic n as ih =>
    rw [TypeRef.substitute, substituteArgs_eq_map, scoped_generic]
    intro a ha
    obtain ⟨b, hb, rfl⟩ := List.mem_map.1 ha
    exact ih b hb (scoped_generic.1 hs b hb)

/-- Two substitutions are one with the second made in the arguments of the first, where the first
covers the parameters. -/
lemma substitute_substitute {ref : TypeRef} (hs : ref.Scoped params)
    (covers : bindings.Covers params) :
    (ref.substitute bindings).substitute σ = ref.substitute (bindings.substitute σ) := by
  induction ref with
  | builtin b => rfl
  | named n => rfl
  | parameter n =>
    -- An uncovered parameter would stay, and the second substitution could catch it.
    obtain ⟨a, ha⟩ := covers n (scoped_parameter.1 hs)
    simp only [TypeRef.substitute, Bindings.find?_substitute, ha, Option.map_some, Option.getD_some]
  | nullable t ih => simp only [TypeRef.substitute, ih (scoped_nullable.1 hs)]
  | array t ih => simp only [TypeRef.substitute, ih (scoped_array.1 hs)]
  | generic n as ih =>
    simp only [TypeRef.substitute, substituteArgs_eq_map, List.map_map, generic.injEq, true_and]
    exact List.map_congr_left fun a ha => ih a ha (scoped_generic.1 hs a ha)

/-- The parts of a reference with a substitution in it are its parts with the substitution in them.
-/
lemma parts_substitute {t : TypeRef} (h : ∀ p, t ≠ .parameter p) :
    (t.substitute σ).parts = t.parts.map (substitute σ) := by
  cases t with
  | parameter p => exact absurd rfl (h p)
  | generic n args => exact substituteArgs_eq_map σ args
  | _ => rfl

/-- No substitution leaves a reference as it is. -/
lemma substitute_nil (t : TypeRef) : t.substitute [] = t := by
  induction t with
  | builtin b => rfl
  | named n => rfl
  | parameter n => rfl
  | nullable t ih => rw [substitute, ih]
  | array t ih => rw [substitute, ih]
  | generic n args ih =>
    rw [substitute, substituteArgs_eq_map, List.map_congr_left ih, List.map_id']

/-- The arguments of a substituted reference are its arguments substituted. -/
lemma bindings_substitute {ref : TypeRef} (h : ∀ p, ref ≠ .parameter p) :
    (ref.substitute σ).bindings params = (ref.bindings params).substitute σ := by
  cases ref with
  | parameter p => exact absurd rfl (h p)
  | generic n args =>
    simp only [TypeRef.substitute, substituteArgs_eq_map, bindings, Bindings.substitute,
      List.zip_map_right]
    rfl
  | _ => rfl

/-- What a reference binds to parameters is among its parts. -/
lemma mem_parts_of_bindings {t a : TypeRef} {p} (h : (p, a) ∈ t.bindings params) :
    a ∈ t.parts := by
  cases t with
  | generic n args => exact (List.of_mem_zip h).2
  | _ => cases h

/-- The arguments of a reference are in its scope. -/
lemma Scoped.of_mem_bindings {ref : TypeRef} (hs : ref.Scoped scope) {p a}
    (h : (p, a) ∈ ref.bindings params) : a.Scoped scope := by
  cases ref with
  | generic n args => exact scoped_generic.1 hs a (List.of_mem_zip h).2
  | _ => cases h

end TypeRef

end Typings
