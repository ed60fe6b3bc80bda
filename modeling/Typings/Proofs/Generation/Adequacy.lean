import Mathlib.Algebra.Group.Nat.Defs
import Typings.Proofs.Generation.Progress

/-!
# The depth of spelling is enough

A reference is spelled whenever the chains of questions that spelling it asks come to an end,
whatever is mapped and however types mention one another. Where they end at all they do so within a
bound, and the depth of spelling is doubled until it is at that bound or the reference is spelled
before.
-/

namespace Typings.Generation.Context

variable {c : Context} {ref part next : TypeRef} {bound bound' : Nat}

/-- From a reference to its collection, spelling goes on along the bases. -/
lemma reaches_of_arrives {r} (h : c.model.Arrives ref r)
    (hiterable : c.model.isIterable ref = true) :
    Relation.ReflTransGen c.Goes ref r := by
  induction h with
  | here _ => exact .refl
  | follow hc hnext _ ih =>
    have hexpands : c.model.Expands _ := ⟨hc, hiterable⟩
    exact .head (.follow hexpands hnext) (ih (hexpands.isIterable_of_follows hnext))

/-- Spelling goes on to what it asks for, unless that is mapped. -/
lemma AsksFor.transGen (h : c.AsksFor ref part) (hpart : c.mappings.find? part = none) :
    Relation.TransGen c.Goes ref part := by
  by_cases hexpands : c.model.Expands ref
  · obtain ⟨r, harrives, helement⟩ := Module.exists_arrives hexpands.2
    have hmem := h.mem_asked
    rw [Module.asked_of_isIterable hexpands.2, helement] at hmem
    have hc := harrives.isCollection
    have hasked : part ∈ c.model.asked r := by
      rwa [Module.asked_of_isIterable (Module.isIterable_of_isCollection hc),
        Module.elementType?_of_isCollection hc]
    have hnot : ¬c.model.Expands r := fun h => Bool.false_ne_true (h.1.symm.trans hc)
    exact .tail' (reaches_of_arrives harrives hexpands.2) (.ask hnot hasked hpart)
  · exact .single (.ask hexpands h.mem_asked hpart)

/-- The chain to a collection does not go on for ever when its element does not, if that is not
mapped. -/
lemma acc_goes_of_arrives {r} (h : c.model.Arrives ref r)
    (hiterable : c.model.isIterable ref = true)
    (helement : ∀ e, r.element? = some e → c.mappings.find? e = none →
      Acc (fun u t => c.Goes t u) e) : Acc (fun u t => c.Goes t u) ref := by
  induction h with
  | @here r hc =>
    refine ⟨_, fun u hgoes => ?_⟩
    cases hgoes with
    | follow hexpands _ => exact absurd (hexpands.1.symm.trans hc) Bool.false_ne_true
    | ask _ hpart hmap =>
      rw [Module.asked_of_isIterable hiterable, Module.elementType?_of_isCollection hc] at hpart
      exact helement u (Option.mem_toList.1 hpart) hmap
  | @follow ref next r hc hnext _ ih =>
    have hexpands : c.model.Expands ref := ⟨hc, hiterable⟩
    refine ⟨_, fun u hgoes => ?_⟩
    cases hgoes with
    | follow _ hnext' =>
      cases hnext.unique hnext'
      exact ih (hexpands.isIterable_of_follows hnext) helement
    | ask hnot _ _ => exact absurd hexpands hnot

/-- Spelling a reference that is not mapped does not go on for ever when its questions end. -/
lemma acc_goes_of_acc (h : Acc (fun part ref => c.AsksFor ref part) ref)
    (hmap : c.mappings.find? ref = none) : Acc (fun u t => c.Goes t u) ref := by
  induction h with
  | intro ref _ ih =>
    by_cases hexpands : c.model.Expands ref
    · obtain ⟨r, harrives, heq⟩ := Module.exists_arrives hexpands.2
      refine acc_goes_of_arrives harrives hexpands.2 fun e he hpart => ?_
      have hmem : e ∈ c.model.asked ref := by
        rw [Module.asked_of_isIterable hexpands.2, heq]
        exact Option.mem_toList.2 he
      exact ih e (asksFor_of_mem_asked hmap hmem hpart) hpart
    · refine ⟨_, fun u hgoes => ?_⟩
      cases hgoes with
      | follow h _ => exact absurd h hexpands
      | ask _ hmem hpart => exact ih u (asksFor_of_mem_asked hmap hmem hpart) hpart

/-- Questions end within one more than spelling goes on. -/
lemma GoesWithin.endsWithin (h : c.GoesWithin bound ref) : c.EndsWithin (bound + 1) ref := by
  induction bound using Nat.strong_induction_on generalizing ref with | _ bound ih
  cases bound with
  | zero => exact h.elim
  | succ bound =>
    intro part hpart
    cases hmap : c.mappings.find? part with
    | none =>
      have within := ChainsWithin.of_transGen h (hpart.transGen hmap)
      exact ih bound (Nat.lt_succ_self bound) within
    | some mapping =>
      -- A mapped reference asks for nothing.
      exact fun u hasks => absurd (hasks.find?_eq_none.symm.trans hmap) (Option.some_ne_none _).symm

/-- A reference whose questions end does so within the growth of all outlines for each of its
levels. -/
lemma endsWithin_of_acc (h : Acc (fun part ref => c.AsksFor ref part) ref) :
    c.EndsWithin (ref.height * c.growth c.ways + 1) ref := by
  cases hmap : c.mappings.find? ref with
  | none => exact (goesWithin_of_acc (acc_goes_of_acc h hmap)).endsWithin
  | some mapping =>
    intro part hasks
    exact absurd (hasks.find?_eq_none.symm.trans hmap) (Option.some_ne_none _).symm

/-- A reference is given up at the last of the depths only. -/
lemma le_depthFrom_of_isEndless {doublings depth : Nat}
    (h : isEndless (c.spellWithin (c.depthFrom ref doublings depth) ref) = true) :
    2 ^ doublings * depth ≤ c.depthFrom ref doublings depth := by
  induction doublings generalizing depth with
  | zero => exact Nat.le_of_eq (Nat.one_mul depth)
  | succ doublings ih =>
    rw [depthFrom] at h ⊢
    split
    case isTrue hendless =>
      rw [if_pos hendless] at h
      rw [Nat.pow_succ, Nat.mul_assoc]
      exact ih h
    case isFalse hspelled =>
      rw [if_neg hspelled] at h
      exact absurd h hspelled

/-- The last of the depths is enough for the growth of all outlines. -/
lemma height_mul_growth_lt (c : Context) (ref : TypeRef) :
    ref.height * c.growth c.ways < 2 ^ c.doublings * c.straightDepth ref := by
  have hgrowth : c.growth c.ways ≤ 2 ^ ((c.model.baseHeight + c.mappings.height) * c.ways) := by
    rw [growth, Nat.pow_mul]
    exact Nat.pow_le_pow_left Nat.lt_two_pow_self _
  have hpos := Nat.mul_pos ref.height_pos (c.growth_pos c.ways)
  calc ref.height * c.growth c.ways
      < 2 * (ref.height * c.growth c.ways) := by omega
    _ ≤ 2 * (c.straightDepth ref * 2 ^ ((c.model.baseHeight + c.mappings.height) * c.ways)) :=
      Nat.mul_le_mul_left 2 (Nat.mul_le_mul (c.height_le_straightDepth ref) hgrowth)
    _ = 2 ^ c.doublings * c.straightDepth ref := by
      rw [doublings, Nat.pow_succ', Nat.mul_assoc, Nat.mul_comm (c.straightDepth ref)]

/-- A reference whose questions end is not given up. -/
lemma spell_not_endless (h : Acc (fun part ref => c.AsksFor ref part) ref) :
    isEndless (c.spell ref) = false := by
  by_contra hendless
  rw [Bool.not_eq_false] at hendless
  have hle : ref.height * c.growth c.ways + 1 ≤ c.spellingDepth ref :=
    (c.height_mul_growth_lt ref).trans_le (le_depthFrom_of_isEndless hendless)
  have hends := ChainsWithin.mono (endsWithin_of_acc h) hle
  exact Bool.false_ne_true ((EndsWithin.not_endless hends).symm.trans hendless)

/-- The spelling of a reference whose questions end fails at a name only. -/
lemma nameFails_of_spell_eq_error (h : Acc (fun part ref => c.AsksFor ref part) ref) {e}
    (he : c.spell ref = .error e) : c.NameFails .type e :=
  nameFails_of_spellWithin_eq_error he ((congrArg isEndless he).symm.trans (spell_not_endless h))

/-- What is spelled has questions that end. -/
lemma acc_of_spellWithin_eq_ok {script} (h : c.spellWithin bound ref = .ok script) :
    Acc (fun part ref => c.AsksFor ref part) ref := by
  induction bound generalizing ref script with
  | zero => cases h
  | succ bound ih =>
    refine ⟨_, fun part hpart => ?_⟩
    cases hpart with
    | nullable hmap =>
      rw [spellWithin_nullable hmap] at h
      exact ih h
    | element hmap hnot hshape helement =>
      rw [spellWithin_of_shape hmap hnot, hshape, spellShape, helement] at h
      obtain ⟨_, hpart, _⟩ := map_eq_ok.1 h
      exact ih hpart
    | arg hmap hnot hshape ha =>
      rw [spellWithin_of_shape hmap hnot, hshape, spellShape] at h
      obtain ⟨_, hargs, _⟩ := bind_eq_ok.1 h
      obtain ⟨_, _, hpart⟩ := exists_left_of_forall₂ (mapM_eq_ok.1 hargs).flip ha
      exact ih hpart

/-- What is spelled in one depth is spelled alike in every greater one. -/
lemma spellWithin_mono {script} (h : c.spellWithin bound ref = .ok script) (hle : bound ≤ bound') :
    c.spellWithin bound' ref = .ok script :=
  (spellWithin_eq_of_le (congrArg isEndless h) hle).trans h

/-- A reference is spelled as it is in any depth that is enough. -/
lemma spell_eq_ok {script : String} :
    c.spell ref = .ok script ↔ ∃ bound, c.spellWithin bound ref = .ok script := by
  constructor
  · exact fun h => ⟨_, h⟩
  · rintro ⟨bound, h⟩
    have hdepth := spell_not_endless (acc_of_spellWithin_eq_ok h)
    rcases Nat.le_total bound (c.spellingDepth ref) with hle | hle
    · exact spellWithin_mono h hle
    · exact (spellWithin_eq_of_le hdepth hle).symm.trans h

/-- A reference is spelled exactly when its questions end, where types keep their names. -/
theorem exists_spell_iff (htransform : c.typeTransform = none) :
    (∃ script, c.spell ref = .ok script) ↔ Acc (fun part ref => c.AsksFor ref part) ref := by
  constructor
  · rintro ⟨script, h⟩
    exact acc_of_spellWithin_eq_ok h
  · intro h
    cases hspell : c.spell ref with
    | ok script => exact ⟨script, rfl⟩
    | error e =>
      obtain ⟨f, _, heq, _⟩ := nameFails_of_spell_eq_error h hspell
      cases htransform.symm.trans heq

end Typings.Generation.Context
