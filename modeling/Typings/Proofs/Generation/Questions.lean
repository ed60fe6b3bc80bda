import Typings.Proofs.Generation.Spelling
import Typings.Proofs.Module.Filling
import Typings.Proofs.Outcome

/-!
# What spelling asks for

Spelling a reference asks for the spelling of other references: of what a nullable one wraps, of the
element of an iterable one, of the arguments of an applied type. How a reference is spelled depends
on these and on nothing else, so a reference whose chains of questions come to an end is spelled
alike in every depth that they fit into, and fails at a name only.
-/

namespace Typings

section Chains

variable {α : Type} {R : α → α → Prop} {a : α} {bound bound' : Nat}

/-- Every chain of a relation from the given one on has at most as many members as the bound says.
-/
def ChainsWithin (R : α → α → Prop) : Nat → α → Prop
  | 0, _ => False
  | bound + 1, a => ∀ b, R a b → ChainsWithin R bound b

lemma ChainsWithin.mono (h : ChainsWithin R bound a) (hle : bound ≤ bound') :
    ChainsWithin R bound' a := by
  induction bound generalizing a bound' with
  | zero => exact h.elim
  | succ bound ih =>
    obtain ⟨k, rfl⟩ := Nat.exists_eq_add_of_le hle
    rw [Nat.add_right_comm]
    exact fun b hb => ih (h b hb) (Nat.le_add_right _ _)

/-- No chain goes on without end. -/
lemma ChainsWithin.acc (h : ChainsWithin R bound a) : Acc (fun b a => R a b) a := by
  induction bound generalizing a with
  | zero => exact h.elim
  | succ bound ih => exact ⟨_, fun b hb => ih (h b hb)⟩

/-- What a chain comes to has shorter chains. -/
lemma ChainsWithin.of_transGen (h : ChainsWithin R (bound + 1) a) {b : α}
    (hb : Relation.TransGen R a b) : ChainsWithin R bound b := by
  induction hb with
  | single hb => exact h _ hb
  | tail _ hb ih =>
    cases bound with
    | zero => exact ih.elim
    | succ bound => exact (ih _ hb).mono (Nat.le_succ bound)

end Chains

namespace Generation.Context

variable {c : Context} {ref part : TypeRef} {bound bound' : Nat}

section Endless

variable {α β : Type} {x : Except Error α}

lemma isEndless_map {f : α → β} : isEndless (x.map f) = isEndless x := by
  cases x <;> rfl

/-- A sequence that is not given up has a first part that is not. -/
lemma not_endless_of_bind {f : α → Except Error β} (h : isEndless (x >>= f) = false) :
    isEndless x = false := by
  cases x with
  | ok a => rfl
  | error e => exact h

/-- A run over a list that is not given up does not change with what is given up on the list. -/
lemma mapM_eq_of_not_endless {f g : α → Except Error β} {as : List α}
    (hfg : ∀ a ∈ as, isEndless (f a) = false → g a = f a) (h : isEndless (as.mapM f) = false) :
    as.mapM g = as.mapM f := by
  induction as with
  | nil => rfl
  | cons a rest ih =>
    obtain ⟨ha, hrest⟩ := List.forall_mem_cons.1 hfg
    rw [List.mapM_cons] at h ⊢
    rw [List.mapM_cons, ha (not_endless_of_bind h)]
    cases hfa : f a with
    | error e => rfl
    | ok b =>
      rw [hfa, ok_bind] at h
      rw [ok_bind, ok_bind, ih hrest (not_endless_of_bind h)]

end Endless

/-- What spelling a reference asks for the spelling of. A mapping answers by itself, for the
reference and for the element of an array. -/
inductive AsksFor (c : Context) : TypeRef → TypeRef → Prop where
  | nullable {inner} : c.mappings.find? (.nullable inner) = none → AsksFor c (.nullable inner) inner
  | element {ref element} :
    c.mappings.find? ref = none → ref.isNullable = false →
    c.model.classify ref = .iterable (some element) → c.mappings.find? element = none →
    AsksFor c ref element
  | arg {ref d args a} :
    c.mappings.find? ref = none → ref.isNullable = false →
    c.model.classify ref = .genericInstance d args → a ∈ args → AsksFor c ref a

/-- A mapped reference asks for nothing. -/
lemma AsksFor.find?_eq_none (h : c.AsksFor ref part) : c.mappings.find? ref = none := by
  cases h with
  | nullable hmap => exact hmap
  | element hmap _ _ _ => exact hmap
  | arg hmap _ _ _ => exact hmap

/-- Spelling asks for nothing but what it would ask for without mappings. -/
lemma AsksFor.mem_asked (h : c.AsksFor ref part) : part ∈ c.model.asked ref := by
  cases h with
  | nullable _ => exact List.mem_singleton_self _
  | element _ hnot hshape _ =>
    rw [Module.asked_of_not_nullable hnot, hshape]
    exact List.mem_singleton_self _
  | arg _ hnot hshape ha =>
    rw [Module.asked_of_not_nullable hnot, hshape]
    exact ha

/-- What is asked for in a reference without a mapping is, unless it is the element of an array and
mapped. -/
lemma asksFor_of_mem_asked (hmap : c.mappings.find? ref = none) (h : part ∈ c.model.asked ref)
    (hpart : c.mappings.find? part = none) : c.AsksFor ref part := by
  cases hnot : ref.isNullable with
  | true =>
    obtain ⟨inner, rfl⟩ := TypeRef.isNullable_iff.1 hnot
    obtain rfl := List.mem_singleton.1 h
    exact .nullable hmap
  | false =>
    rw [Module.asked_of_not_nullable hnot] at h
    cases hshape : c.model.classify ref with
    | iterable element =>
      rw [hshape] at h
      cases Option.mem_toList.1 h
      exact .element hmap hnot hshape hpart
    | genericInstance d args =>
      rw [hshape] at h
      exact .arg hmap hnot hshape h
    | _ =>
      rw [hshape] at h
      cases h

/-- How a reference is spelled depends on how what it asks for is spelled. Where the reference is
not given up, nothing counts that is. -/
lemma spellWithin_congr
    (h : ∀ part, c.AsksFor ref part → isEndless (c.spellWithin bound part) = false →
      c.spellWithin bound' part = c.spellWithin bound part)
    (hspelled : isEndless (c.spellWithin (bound + 1) ref) = false) :
    c.spellWithin (bound' + 1) ref = c.spellWithin (bound + 1) ref := by
  cases hmap : c.mappings.find? ref with
  | some mapping => rw [spellWithin_of_mapped hmap, spellWithin_of_mapped hmap]
  | none =>
    cases hnot : ref.isNullable with
    | true =>
      obtain ⟨inner, rfl⟩ := TypeRef.isNullable_iff.1 hnot
      rw [spellWithin_nullable hmap] at hspelled ⊢
      rw [spellWithin_nullable hmap, h inner (.nullable hmap) hspelled]
    | false =>
      rw [spellWithin_of_shape hmap hnot] at hspelled ⊢
      rw [spellWithin_of_shape hmap hnot]
      cases hshape : c.model.classify ref with
      | iterable element =>
        rw [hshape] at hspelled
        cases element with
        | none => rfl
        | some element =>
          rw [spellShape] at hspelled ⊢
          rw [spellShape]
          cases helement : c.mappings.find? element with
          | some mapping => rfl
          | none =>
            rw [helement] at hspelled
            dsimp only at hspelled ⊢
            rw [isEndless_map] at hspelled
            rw [h element (.element hmap hnot hshape helement) hspelled]
      | genericInstance d args =>
        rw [hshape, spellShape] at hspelled
        rw [spellShape, spellShape, mapM_eq_of_not_endless
          (fun a ha => h a (.arg hmap hnot hshape ha)) (not_endless_of_bind hspelled)]
      | _ => rfl

/-- A reference that is not given up is spelled alike in every greater depth. -/
lemma spellWithin_eq_of_le (hspelled : isEndless (c.spellWithin bound ref) = false)
    (hle : bound ≤ bound') : c.spellWithin bound' ref = c.spellWithin bound ref := by
  induction bound generalizing ref bound' with
  | zero => cases hspelled
  | succ bound ih =>
    obtain ⟨k, rfl⟩ := Nat.exists_eq_add_of_le hle
    rw [Nat.add_right_comm]
    exact spellWithin_congr (fun part _ hpart => ih hpart (Nat.le_add_right _ _)) hspelled

/-- Every chain of questions from the reference on has at most as many references as the bound says.
-/
def EndsWithin (c : Context) : Nat → TypeRef → Prop :=
  ChainsWithin c.AsksFor

/-- The transform of the names of a kind. -/
def transform (c : Context) : NameKind → Option (String → String)
  | .type => c.typeTransform
  | .property => c.propertyTransform

/-- The error is that the transform of names of the kind turns the name into a blank one. -/
def NameFails (c : Context) (kind : NameKind) (e : Error) : Prop :=
  ∃ f name, c.transform kind = some f ∧ Text.isBlank (f name) = true ∧ e = .blankName kind name

/-- Only a transform keeps a name from being written. -/
lemma nameFails_of_transformName {kind : NameKind} {name : String} {e}
    (h : transformName kind (c.transform kind) name = .error e) : c.NameFails kind e := by
  cases htransform : c.transform kind with
  | none =>
    rw [htransform] at h
    cases h
  | some f =>
    rw [htransform, transformName] at h
    split at h
    case isTrue hblank =>
      cases h
      exact ⟨f, name, htransform, hblank, rfl⟩
    case isFalse => cases h

/-- Spelling fails at something that is asked for, or at a name. -/
lemma exists_asksFor_of_spellWithin_eq_error {e} (h : c.spellWithin (bound + 1) ref = .error e) :
    (∃ part, c.AsksFor ref part ∧ c.spellWithin bound part = .error e) ∨ c.NameFails .type e := by
  cases hmap : c.mappings.find? ref with
  | some mapping =>
    rw [spellWithin_of_mapped hmap] at h
    cases h
  | none =>
    cases hnot : ref.isNullable with
    | true =>
      obtain ⟨inner, rfl⟩ := TypeRef.isNullable_iff.1 hnot
      rw [spellWithin_nullable hmap] at h
      exact .inl ⟨inner, .nullable hmap, h⟩
    | false =>
      rw [spellWithin_of_shape hmap hnot] at h
      cases hshape : c.model.classify ref with
      | iterable element =>
        rw [hshape] at h
        cases element with
        | none => cases h
        | some element =>
          rw [spellShape] at h
          cases helement : c.mappings.find? element with
          | some mapping =>
            rw [helement] at h
            cases h
          | none =>
            rw [helement] at h
            exact .inl ⟨element, .element hmap hnot hshape helement, map_eq_error.1 h⟩
      | genericInstance d args =>
        rw [hshape, spellShape, bind_eq_error] at h
        rcases h with hargs | ⟨texts, _, hname⟩
        · obtain ⟨a, ha, he⟩ := exists_of_mapM_eq_error hargs
          exact .inl ⟨a, .arg hmap hnot hshape ha, he⟩
        · exact .inr (nameFails_of_transformName hname)
      | genericDefinition d =>
        rw [hshape] at h
        exact .inr (nameFails_of_transformName h)
      | classType d =>
        rw [hshape] at h
        exact .inr (nameFails_of_transformName h)
      | _ =>
        rw [hshape] at h
        cases h

/-- Spelling fails at a name, or where a reference is given up. -/
lemma nameFails_of_spellWithin_eq_error {e} (h : c.spellWithin bound ref = .error e)
    (hspelled : e.isEndless = false) : c.NameFails .type e := by
  induction bound generalizing ref with
  | zero =>
    cases h
    cases hspelled
  | succ bound ih =>
    rcases exists_asksFor_of_spellWithin_eq_error h with ⟨part, _, h⟩ | hname
    · exact ih h
    · exact hname

/-- A reference that ends is not given up. -/
lemma EndsWithin.not_endless (h : c.EndsWithin bound ref) :
    isEndless (c.spellWithin bound ref) = false := by
  induction bound generalizing ref with
  | zero => exact h.elim
  | succ bound ih =>
    cases hspell : c.spellWithin (bound + 1) ref with
    | ok script => rfl
    | error e =>
      rcases exists_asksFor_of_spellWithin_eq_error hspell with
        ⟨part, hpart, he⟩ | ⟨_, _, _, _, rfl⟩
      · exact (congrArg isEndless he).symm.trans (ih (h part hpart))
      · rfl

end Generation.Context

end Typings
