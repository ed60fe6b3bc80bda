import Mathlib.Tactic.Lemma
import Typings.Generation.Spelling

/-!
# Equations of spelling

A reference is spelled in one of three ways: by its mapping, as what it wraps when it is nullable,
and else by its shape.
-/

namespace Typings.Generation.Context

variable {c : Context} {bound : Nat} {ref : TypeRef}

/-- How a shape is spelled, when the references in it are spelled within the bound. -/
def spellShape (c : Context) (bound : Nat) : Shape → Except Error String
  | .enumeration d => .ok (c.enumName d)
  | .iterable (some element) =>
    match c.mappings.find? element with
    | some mapping => .ok mapping.array
    | none => (c.spellWithin bound element).map (· ++ "[]")
  | .iterable none => .ok "any[]"
  | .genericDefinition d | .classType d => c.typeName d
  | .genericInstance d args => do c.instanceName d (← args.mapM (c.spellWithin bound))
  | .parameter name => .ok name
  | .interfaceType d => .ok d.name
  | .builtin _ | .unknown => .ok "any"

/-- A mapped reference is spelled by its mapping. -/
lemma spellWithin_of_mapped {mapping} (h : c.mappings.find? ref = some mapping) :
    c.spellWithin (bound + 1) ref = .ok mapping.scalar := by
  simp only [spellWithin, h]

/-- A nullable reference without a mapping is spelled as what it wraps. -/
lemma spellWithin_nullable (h : c.mappings.find? (.nullable ref) = none) :
    c.spellWithin (bound + 1) (.nullable ref) = c.spellWithin bound ref := by
  simp only [spellWithin, h]

/-- Every other reference without a mapping is spelled by its shape. -/
lemma spellWithin_of_shape (h : c.mappings.find? ref = none) (hnot : ref.isNullable = false) :
    c.spellWithin (bound + 1) ref = c.spellShape bound (c.model.classify ref) := by
  have hnullable : ∀ inner, ref = .nullable inner → False := by
    rintro inner rfl
    cases hnot
  simp only [spellWithin, h]
  cases c.model.classify ref <;> rfl

/-- Depths are doubled from the given one on. -/
lemma le_depthFrom (c : Context) (ref : TypeRef) (doublings depth : Nat) :
    depth ≤ c.depthFrom ref doublings depth := by
  induction doublings generalizing depth with
  | zero => exact Nat.le_refl depth
  | succ doublings ih =>
    rw [depthFrom]
    split
    · exact Nat.le_trans (Nat.le_mul_of_pos_left depth Nat.two_pos) (ih (2 * depth))
    · exact Nat.le_refl depth

/-- A reference is spelled at least as deep as types go that do not come back. -/
lemma straightDepth_le_spellingDepth (c : Context) (ref : TypeRef) :
    c.straightDepth ref ≤ c.spellingDepth ref :=
  c.le_depthFrom ref c.doublings (c.straightDepth ref)

/-- Types that do not come back go at least as deep as the reference is high. -/
lemma height_le_straightDepth (c : Context) (ref : TypeRef) : ref.height ≤ c.straightDepth ref :=
  Nat.le_mul_of_pos_right _ (Nat.pow_pos (Nat.succ_pos c.model.baseHeight))

/-- A reference is spelled at least as deep as it is high. -/
lemma height_le_spellingDepth (c : Context) (ref : TypeRef) : ref.height ≤ c.spellingDepth ref :=
  Nat.le_trans (c.height_le_straightDepth ref) (c.straightDepth_le_spellingDepth ref)

end Typings.Generation.Context
