import Mathlib.Algebra.Group.Nat.Defs
import Mathlib.Logic.Function.Basic
import Typings.Proofs.Module.Expansion

/-!
# Outlines of bases

Which references are met on the way from a base is a matter of the arguments in it. When only some
references are known, one that is not known is as good as any other: it is replaced by a parameter
that nothing known mentions, and what is left of the base is its outline. Outlines are finite in
number, and a base with all of its arguments is its outline with strange arguments filled in.
-/

namespace Typings

namespace TypeRef

variable {t u : TypeRef}

lemma mem_insideArgs {args : List TypeRef} : t ∈ insideArgs args ↔ ∃ a ∈ args, t ∈ a.inside := by
  induction args with
  | nil => simp [insideArgs]
  | cons a rest ih => rw [insideArgs, List.mem_append, ih, List.exists_mem_cons_iff]

/-- What is listed inside a reference is what occurs in it. -/
lemma mem_inside : u ∈ t.inside ↔ u.Within t := by
  induction t with
  | builtin b => rw [inside, List.mem_singleton, Within.builtin_iff]
  | named n => rw [inside, List.mem_singleton, Within.named_iff]
  | parameter n => rw [inside, List.mem_singleton, Within.parameter_iff]
  | nullable t ih => rw [inside, List.mem_cons, ih, Within.nullable_iff]
  | array t ih => rw [inside, List.mem_cons, ih, Within.array_iff]
  | generic n args ih =>
    rw [inside, List.mem_cons, mem_insideArgs, Within.generic_iff]
    exact or_congr_right (exists_congr fun a => and_congr_right fun ha => ih a ha)

/-- A part of what occurs in a reference occurs in it. -/
lemma Within.of_mem_parts {part : TypeRef} (h : u.Within t) (hpart : part ∈ u.parts) :
    part.Within t := by
  induction h with
  | here => exact .of_part hpart .here
  | nullable _ ih => exact .nullable ih
  | array _ ih => exact .array ih
  | arg ha _ ih => exact .arg ha ih

/-- What occurs in a reference is no higher. -/
lemma Within.height_le (h : u.Within t) : u.height ≤ t.height := by
  induction h with
  | here => exact le_rfl
  | nullable _ ih => exact ih.trans (Nat.le_succ _)
  | array _ ih => exact ih.trans (Nat.le_succ _)
  | arg ha _ ih => exact (ih.trans (height_le_heightArgs ha)).trans (Nat.le_succ _)

lemma heightArgs_le {args : List TypeRef} {bound : Nat} (h : ∀ a ∈ args, a.height ≤ bound) :
    heightArgs args ≤ bound := by
  induction args with
  | nil => exact Nat.zero_le _
  | cons a rest ih =>
    obtain ⟨ha, hrest⟩ := List.forall_mem_cons.1 h
    exact Nat.max_le.2 ⟨ha, ih hrest⟩

/-- A substitution adds no more to the height of a reference than its arguments are high. -/
lemma height_substitute_le {σ : Bindings} {bound : Nat}
    (h : ∀ p a, σ.find? p = some a → a.height ≤ bound + 1) (t : TypeRef) :
    (t.substitute σ).height ≤ t.height + bound := by
  induction t with
  | builtin b => exact Nat.le_add_right _ _
  | named n => exact Nat.le_add_right _ _
  | parameter p =>
    rw [substitute]
    cases hp : σ.find? p with
    | none => exact Nat.le_add_right _ _
    | some a => exact (h p a hp).trans (Nat.add_comm bound 1).le
  | nullable t ih =>
    rw [substitute, height, height]
    omega
  | array t ih =>
    rw [substitute, height, height]
    omega
  | generic n args ih =>
    rw [substitute, substituteArgs_eq_map, height, height]
    have hargs : heightArgs (args.map (substitute σ)) ≤ heightArgs args + bound := by
      refine heightArgs_le (List.forall_mem_map.2 fun a ha => ?_)
      exact (ih a ha).trans (Nat.add_le_add_right (height_le_heightArgs ha) bound)
    omega

end TypeRef

/-- The known references with their parts are known. -/
def ClosedUnderParts (known : List TypeRef) : Prop :=
  ∀ t ∈ known, ∀ part ∈ t.parts, part ∈ known

/-- The arguments and the parameters that they stand for are not known. -/
def Strange (known : List TypeRef) (σ : Bindings) : Prop :=
  ∀ p a, σ.find? p = some a → .parameter p ∉ known ∧ a ∉ known

/-- A name for a parameter that no known reference has. -/
def strangeName (known : List TypeRef) (p : String) : String :=
  String.ofList (.replicate (known.foldl (fun length t => max length t.name.length) 0 + 1) '_') ++ p

lemma strangeName_injective (known : List TypeRef) : Function.Injective (strangeName known) := by
  intro p q h
  rw [strangeName, strangeName, ← String.toList_inj, String.toList_append,
    String.toList_append] at h
  exact String.toList_inj.1 (List.append_cancel_left h)

lemma parameter_strangeName_not_mem (known : List TypeRef) (p : String) :
    .parameter (strangeName known p) ∉ known := by
  intro hmem
  have hle := (le_foldl_max (fun t : TypeRef => t.name.length) known 0).2 _ hmem
  rw [TypeRef.name, strangeName, String.length_append, String.length_ofList,
    List.length_replicate] at hle
  omega

namespace Bindings

variable {known : List TypeRef} {bindings : Bindings}

/-- What is found among bindings whose parameters are renamed and whose arguments are changed. -/
lemma find?_map {rename : String → String} (hrename : Function.Injective rename)
    (f : String → TypeRef → TypeRef) (bindings : Bindings) (p : String) :
    find? (bindings.map fun b => (rename b.1, f b.1 b.2)) (rename p) =
      (bindings.find? p).map (f p) := by
  rw [find?, find?, ← List.map_reverse]
  induction bindings.reverse with
  | nil => rfl
  | cons b rest ih =>
    rw [List.map_cons, List.lookup_cons, List.lookup_cons]
    by_cases hp : p = b.1
    · simp [hp]
    · have hp' : rename p ≠ rename b.1 := fun h => hp (hrename h)
      rw [beq_false_of_ne hp, beq_false_of_ne hp']
      exact ih

/-- The bindings with a strange parameter in the place of every argument that is not known. -/
def outline (known : List TypeRef) (bindings : Bindings) : Bindings :=
  bindings.map fun b => (b.1, if b.2 ∈ known then b.2 else .parameter (strangeName known b.1))

/-- The arguments that the strange parameters of an outline stand for. -/
def strangers (known : List TypeRef) (bindings : Bindings) : Bindings :=
  bindings.map fun b =>
    (strangeName known b.1, if b.2 ∈ known then .parameter (strangeName known b.1) else b.2)

lemma find?_outline (p : String) :
    (bindings.outline known).find? p =
      (bindings.find? p).map fun a => if a ∈ known then a else .parameter (strangeName known p) :=
  find?_map Function.injective_id
    (fun p a => if a ∈ known then a else .parameter (strangeName known p)) bindings p

lemma find?_strangers (known : List TypeRef) (bindings : Bindings) (p : String) :
    (bindings.strangers known).find? (strangeName known p) =
      (bindings.find? p).map fun a => if a ∈ known then .parameter (strangeName known p) else a :=
  find?_map (strangeName_injective known)
    (fun p a => if a ∈ known then .parameter (strangeName known p) else a) bindings p

/-- What is found among strangers is an argument, or a parameter that stands for itself. -/
lemma strangers_cases {p : String} {a : TypeRef} (h : (bindings.strangers known).find? p = some a) :
    ∃ b ∈ bindings, p = strangeName known b.1 ∧ (a = .parameter p ∨ a = b.2 ∧ b.2 ∉ known) := by
  obtain ⟨b, hb, heq⟩ := List.mem_map.1 (mem_of_find? h)
  obtain ⟨rfl, rfl⟩ := Prod.mk.inj heq
  refine ⟨b, hb, rfl, ?_⟩
  split
  case isTrue => exact .inl rfl
  case isFalse hunknown => exact .inr ⟨rfl, hunknown⟩

lemma strange_strangers : Strange known (bindings.strangers known) := by
  intro p a h
  obtain ⟨b, _, rfl, hcases⟩ := strangers_cases h
  refine ⟨parameter_strangeName_not_mem known b.1, ?_⟩
  rcases hcases with rfl | ⟨rfl, hunknown⟩
  · exact parameter_strangeName_not_mem known b.1
  · exact hunknown

/-- What is found in an outline is known, or a parameter. -/
lemma outline_cases {p : String} {a : TypeRef} (h : (bindings.outline known).find? p = some a) :
    a ∈ known ∨ ∃ q, a = .parameter q := by
  rw [find?_outline, Option.map_eq_some_iff] at h
  obtain ⟨a', _, rfl⟩ := h
  split
  case isTrue hknown => exact .inl hknown
  case isFalse => exact .inr ⟨_, rfl⟩

end Bindings

namespace TypeRef

variable {known : List TypeRef} {σ : Bindings} {t t' : TypeRef}

/-- Strange arguments fill in an outline. -/
lemma fills_outline (known : List TypeRef) (bindings : Bindings) (base : TypeRef) :
    Fills (bindings.strangers known) (base.substitute (bindings.outline known))
      (base.substitute bindings) := by
  refine fills_substitute_substitute (fun p => ?_) base
  have hstranger := Bindings.find?_strangers known bindings p
  rw [Bindings.find?_outline]
  cases hp : bindings.find? p with
  | none => exact .parameter
  | some a =>
    rw [hp] at hstranger
    rw [Option.map_some, Option.getD_some, Option.getD_some]
    rw [Option.map_some] at hstranger
    split
    case isTrue => exact a.fills_refl _
    case isFalse hunknown =>
      rw [if_neg hunknown] at hstranger
      exact .argument hstranger

/-- Strange arguments in a reference leave it as it is, or it is unknown before and after. -/
lemma Fills.eq_or_not_mem (closed : ClosedUnderParts known) (strange : Strange known σ)
    (h : Fills σ t t') : t = t' ∨ t ∉ known ∧ t' ∉ known := by
  induction t generalizing t' with
  | builtin b =>
    cases h
    exact .inl rfl
  | named n =>
    cases h
    exact .inl rfl
  | parameter p =>
    cases h with
    | parameter => exact .inl rfl
    | argument hp => exact .inr (strange p t' hp)
  | nullable t ih =>
    cases h with
    | nullable h =>
      refine (ih h).imp (congrArg _) fun ⟨hunknown, hunknown'⟩ => ⟨fun hmem => ?_, fun hmem => ?_⟩
      · exact hunknown (closed _ hmem _ (List.mem_singleton_self _))
      · exact hunknown' (closed _ hmem _ (List.mem_singleton_self _))
  | array t ih =>
    cases h with
    | array h =>
      refine (ih h).imp (congrArg _) fun ⟨hunknown, hunknown'⟩ => ⟨fun hmem => ?_, fun hmem => ?_⟩
      · exact hunknown (closed _ hmem _ (List.mem_singleton_self _))
      · exact hunknown' (closed _ hmem _ (List.mem_singleton_self _))
  | generic n args ih =>
    cases h with
    | @generic _ _ args' hargs =>
      have hcases : args = args' ∨ (∃ a ∈ args, a ∉ known) ∧ ∃ a' ∈ args', a' ∉ known := by
        induction hargs with
        | nil => exact .inl rfl
        | @cons a a' args args' ha _ ihArgs =>
          obtain ⟨ihHere, ihRest⟩ := List.forall_mem_cons.1 ih
          rcases ihHere ha with rfl | ⟨hunknown, hunknown'⟩
          · refine (ihArgs ihRest).imp (congrArg _) fun ⟨hsome, hsome'⟩ => ⟨?_, ?_⟩
            · exact List.exists_mem_cons_of_exists hsome
            · exact List.exists_mem_cons_of_exists hsome'
          · exact .inr ⟨⟨a, List.mem_cons_self, hunknown⟩, ⟨a', List.mem_cons_self, hunknown'⟩⟩
      refine hcases.imp (congrArg _) fun ⟨⟨a, ha, hunknown⟩, a', ha', hunknown'⟩ => ⟨?_, ?_⟩
      · exact fun hmem => hunknown (closed _ hmem a ha)
      · exact fun hmem => hunknown' (closed _ hmem a' ha')

/-- Strange arguments in the arguments of a reference do not show in an outline. -/
lemma outline_bindings_of_fills (closed : ClosedUnderParts known) (strange : Strange known σ)
    (h : Fills σ t t') (hproper : ∀ p, t ≠ .parameter p) (params : List String) :
    (t.bindings params).outline known = (t'.bindings params).outline known := by
  have hbindings := h.bindings hproper params
  generalize t.bindings params = bindings at hbindings
  generalize t'.bindings params = bindings' at hbindings
  induction hbindings with
  | nil => rfl
  | @cons b b' _ _ hb _ ih =>
    rw [Bindings.outline, List.map_cons, ← Bindings.outline, ih, Bindings.outline, Bindings.outline,
      List.map_cons, hb.1]
    rcases hb.2.eq_or_not_mem closed strange with heq | ⟨hunknown, hunknown'⟩
    · rw [heq]
    · rw [if_neg hunknown, if_neg hunknown']

end TypeRef

namespace Module

open TypeRef (Fills)

variable {m : Module} {known : List TypeRef} {σ : Bindings} {t t' b b' : TypeRef}

/-- The reference is to a user type whose base has the outline. -/
def Outlines (m : Module) (known : List TypeRef) (t b : TypeRef) : Prop :=
  ∃ d base, m.definition? t = some d ∧ d.base = some base ∧
    b = base.substitute ((t.bindings d.params).outline known)

/-- Filling in strange arguments does not change the outline of the base. -/
lemma outlines_of_fills (closed : ClosedUnderParts known) (strange : Strange known σ)
    (h : Fills σ t t') (hproper : ∀ p, t ≠ .parameter p) :
    m.Outlines known t' b ↔ m.Outlines known t b := by
  rw [Outlines, Outlines, definition?_of_fills h hproper]
  simp only [TypeRef.outline_bindings_of_fills closed strange h hproper]

end Module

section Counting

variable {known : List TypeRef}

/-- Lists of a limited length, one after the other. -/
lemma length_flatMap_le {α β : Type} {f : α → List β} {bound : Nat} {as : List α}
    (h : ∀ a ∈ as, (f a).length ≤ bound) : (as.flatMap f).length ≤ as.length * bound := by
  induction as with
  | nil => exact Nat.zero_le _
  | cons a rest ih =>
    obtain ⟨ha, hrest⟩ := List.forall_mem_cons.1 h
    rw [List.flatMap_cons, List.length_append, List.length_cons, Nat.succ_mul, Nat.add_comm]
    exact Nat.add_le_add (ih hrest) ha

/-- All outlines of bindings: each parameter has a known argument or a strange one, and from one on
there are no arguments. -/
def allBindings (known : List TypeRef) : List String → List Bindings
  | [] => [[]]
  | p :: rest =>
    [] :: (known ++ [TypeRef.parameter (strangeName known p)]).flatMap fun a =>
      (allBindings known rest).map ((p, a) :: ·)

lemma nil_mem_allBindings (params : List String) : [] ∈ allBindings known params := by
  cases params with
  | nil => exact List.mem_singleton_self _
  | cons p rest => exact List.mem_cons_self

lemma outline_mem_allBindings (t : TypeRef) (params : List String) :
    (t.bindings params).outline known ∈ allBindings known params := by
  cases t with
  | generic n args =>
    rw [TypeRef.bindings]
    induction params generalizing args with
    | nil => exact List.mem_singleton_self _
    | cons p rest ih =>
      cases args with
      | nil => exact List.mem_cons_self
      | cons a args =>
        refine List.mem_cons_of_mem _ (List.mem_flatMap.2 ⟨_, ?_, List.mem_map.2 ⟨_, ih args, rfl⟩⟩)
        dsimp only
        split
        case isTrue hknown => exact List.mem_append_left _ hknown
        case isFalse => exact List.mem_append_right _ (List.mem_singleton_self _)
  | _ => exact nil_mem_allBindings params

lemma length_allBindings_le (known : List TypeRef) (params : List String) :
    (allBindings known params).length ≤ (known.length + 2) ^ params.length := by
  induction params with
  | nil => exact le_rfl
  | cons p rest ih =>
    have hpos : 1 ≤ (known.length + 2) ^ rest.length := Nat.one_le_pow _ _ (Nat.succ_pos _)
    have hlength : ((known ++ [TypeRef.parameter (strangeName known p)]).flatMap fun a =>
          (allBindings known rest).map ((p, a) :: ·)).length ≤
        (known.length + 1) * (known.length + 2) ^ rest.length := by
      have hone : (known ++ [TypeRef.parameter (strangeName known p)]).length = known.length + 1 :=
        List.length_append
      rw [← hone]
      refine length_flatMap_le fun a _ => ?_
      rw [List.length_map]
      exact ih
    rw [allBindings, List.length_cons, List.length_cons, Nat.pow_succ', Nat.succ_mul]
    exact Nat.add_le_add hlength hpos

namespace Module

variable {m : Module}

/-- All outlines of the bases of a module. -/
def allOutlines (m : Module) (known : List TypeRef) : List TypeRef :=
  m.types.flatMap fun d => d.base.toList.flatMap fun base =>
    (allBindings known d.params).map base.substitute

lemma Outlines.mem_allOutlines {t b} (h : m.Outlines known t b) : b ∈ m.allOutlines known := by
  obtain ⟨d, base, hd, hbase, rfl⟩ := h
  refine List.mem_flatMap.2 ⟨d, mem_of_definition? hd, List.mem_flatMap.2 ⟨base, ?_, ?_⟩⟩
  · exact Option.mem_toList.2 hbase
  · exact List.mem_map.2 ⟨_, outline_mem_allBindings t d.params, rfl⟩

lemma length_params_le_arity {d} (hd : d ∈ m.types) : d.params.length ≤ m.arity :=
  (le_foldl_max (fun d : TypeDef => d.params.length) m.types 0).2 d hd

lemma length_allOutlines_le (m : Module) (known : List TypeRef) :
    (m.allOutlines known).length ≤ m.types.length * (known.length + 2) ^ m.arity := by
  have heach : ∀ d ∈ m.types, (d.base.toList.flatMap fun base =>
      (allBindings known d.params).map base.substitute).length ≤ (known.length + 2) ^ m.arity := by
    intro d hd
    have hle := (length_allBindings_le known d.params).trans
      (Nat.pow_le_pow_right (Nat.succ_pos _) (length_params_le_arity hd))
    cases d.base with
    | none => exact Nat.zero_le _
    | some base => simpa using hle
  exact length_flatMap_le heach

/-- An outline is hardly higher than the base that it is of. -/
lemma Outlines.height_le {t b : TypeRef} {bound : Nat} (h : m.Outlines known t b)
    (hknown : ∀ t ∈ known, t.height ≤ bound) : b.height ≤ m.baseHeight + bound := by
  obtain ⟨d, base, hd, hbase, rfl⟩ := h
  refine (TypeRef.height_substitute_le (fun p a ha => ?_) base).trans
    (Nat.add_le_add_right (height_le_baseHeight (mem_of_definition? hd) hbase) bound)
  rcases Bindings.outline_cases ha with hmem | ⟨q, rfl⟩
  · exact (hknown a hmem).trans (Nat.le_succ bound)
  · exact Nat.le_add_left _ _

end Module

end Counting

end Typings
