import Mathlib.Tactic.Lemma
import Typings.TypeRef.Basic

/-!
# Occurrences in references

A reference occurs in another when it stands at some depth of it: below wrappers, among arguments,
or at the top. Induction over references comes with a hypothesis for every argument of a generic
type.
-/

namespace Typings.TypeRef

/-- Induction over references, with a hypothesis for each argument of a generic type. -/
@[elab_as_elim, induction_eliminator]
theorem induct {motive : TypeRef → Prop} (builtin : ∀ b, motive (.builtin b))
    (named : ∀ n, motive (.named n)) (parameter : ∀ n, motive (.parameter n))
    (nullable : ∀ t, motive t → motive (.nullable t)) (array : ∀ t, motive t → motive (.array t))
    (generic : ∀ n args, (∀ a ∈ args, motive a) → motive (.generic n args)) (ref : TypeRef) :
    motive ref := by
  refine @TypeRef.rec motive (fun args => ∀ a ∈ args, motive a)
    builtin named parameter nullable array generic ?_ ?_ ref
  · simp
  · intro a rest ha hrest
    exact List.forall_mem_cons.2 ⟨ha, hrest⟩

/-- A reference occurs in another one at some depth. -/
inductive Within (inner : TypeRef) : TypeRef → Prop where
  | here : Within inner inner
  | nullable {t} : Within inner t → Within inner (.nullable t)
  | array {t} : Within inner t → Within inner (.array t)
  | arg {n args a} : a ∈ args → Within inner a → Within inner (.generic n args)

/-- What occurs in a generic type is the type or occurs in one of its arguments. -/
lemma Within.generic_iff {inner n args} :
    Within inner (.generic n args) ↔ inner = .generic n args ∨ ∃ a ∈ args, Within inner a := by
  constructor
  · intro h
    cases h with
    | here => exact .inl rfl
    | arg ha h => exact .inr ⟨_, ha, h⟩
  · rintro (rfl | ⟨a, ha, h⟩)
    · exact .here
    · exact .arg ha h

lemma Within.nullable_iff {inner t} :
    Within inner (.nullable t) ↔ inner = .nullable t ∨ Within inner t := by
  constructor
  · intro h
    cases h with
    | here => exact .inl rfl
    | nullable h => exact .inr h
  · rintro (rfl | h)
    · exact .here
    · exact .nullable h

lemma Within.array_iff {inner t} :
    Within inner (.array t) ↔ inner = .array t ∨ Within inner t := by
  constructor
  · intro h
    cases h with
    | here => exact .inl rfl
    | array h => exact .inr h
  · rintro (rfl | h)
    · exact .here
    · exact .array h

@[simp] lemma Within.builtin_iff {inner b} : Within inner (.builtin b) ↔ inner = .builtin b :=
  ⟨fun h => by cases h; rfl, fun h => h ▸ .here⟩

@[simp] lemma Within.named_iff {inner n} : Within inner (.named n) ↔ inner = .named n :=
  ⟨fun h => by cases h; rfl, fun h => h ▸ .here⟩

@[simp] lemma Within.parameter_iff {inner n} : Within inner (.parameter n) ↔ inner = .parameter n :=
  ⟨fun h => by cases h; rfl, fun h => h ▸ .here⟩

/-- The references directly inside a reference. -/
def parts : TypeRef → List TypeRef
  | .nullable t | .array t => [t]
  | .generic _ args => args
  | _ => []

/-- Induction over references by their parts. -/
theorem parts_induct {motive : TypeRef → Prop} (step : ∀ t, (∀ u ∈ t.parts, motive u) → motive t)
    (ref : TypeRef) : motive ref := by
  induction ref with
  | builtin b => exact step _ nofun
  | named n => exact step _ nofun
  | parameter n => exact step _ nofun
  | nullable t ih => exact step _ (List.forall_mem_singleton.2 ih)
  | array t ih => exact step _ (List.forall_mem_singleton.2 ih)
  | generic n args ih => exact step _ ih

/-- What occurs in a part occurs in the whole. -/
lemma Within.of_part {inner t u : TypeRef} (hu : u ∈ t.parts) (h : inner.Within u) :
    inner.Within t := by
  cases t with
  | nullable t => exact .nullable (List.mem_singleton.1 hu ▸ h)
  | array t => exact .array (List.mem_singleton.1 hu ▸ h)
  | generic n args => exact .arg hu h
  | _ => cases hu

/-- A reference is nullable when it wraps another as nullable. -/
lemma isNullable_iff {t : TypeRef} : t.isNullable = true ↔ ∃ u, t = .nullable u := by
  cases t <;> simp [isNullable]

end Typings.TypeRef
