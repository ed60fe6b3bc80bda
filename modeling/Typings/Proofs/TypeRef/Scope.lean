import Typings.Proofs.Outcome
import Typings.Proofs.TypeRef.Substitution
import Typings.TypeRef.Expression

/-!
# The scope of expressions

The parameters that a type expression mentions are in the scope that it is read in. While it is
read, this holds of the types completed so far: the one in the place reached, and the arguments of
the pending generic types.
-/

namespace Typings.TypeRef

variable {scope : List String}

/-- A name read in a scope is in the scope. -/
lemma scoped_ofName (scope : List String) (name : String) : (ofName scope name).Scoped scope := by
  rw [ofName]
  split
  case isTrue h => exact scoped_parameter.2 (by simpa using h)
  case isFalse =>
    cases Builtin.ofName? name with
    | some b => exact scoped_builtin
    | none => exact scoped_named

/-- A name applied to arguments in scope is in the scope. -/
lemma scoped_apply {name args t} (hargs : ∀ a ∈ args, a.Scoped scope)
    (h : apply name args = .ok t) : t.Scoped scope := by
  simp only [apply] at h
  split at h
  case isTrue =>
    split at h
    case h_1 a =>
      cases h
      exact scoped_nullable.2 (hargs a List.mem_cons_self)
    case h_2 => cases h
  case isFalse =>
    cases h
    exact scoped_generic.2 hargs

namespace Expression

/-- A type that is complete at the place is in scope. -/
def Place.Scoped (scope : List String) : Place → Prop
  | .complete type | .bracket type => type.Scoped scope
  | .start | .name _ | .named _ => True

/-- The types completed so far are in scope. -/
structure State.Scoped (scope : List String) (s : State) : Prop where
  place : s.place.Scoped scope
  pending : ∀ p ∈ s.pending, ∀ a ∈ p.args, a.Scoped scope

/-- Going on after a complete type keeps the completed types in scope. -/
lemma scoped_afterType {position type pending c s} (htype : type.Scoped scope)
    (hpending : ∀ p ∈ pending, ∀ a ∈ p.args, a.Scoped scope)
    (h : afterType position type pending c = .ok s) : s.Scoped scope := by
  unfold afterType at h
  split at h
  · cases h
    exact ⟨htype, hpending⟩
  split at h
  · split at h
    · cases h
    · cases h
      exact ⟨scoped_nullable.2 htype, hpending⟩
  split at h
  · cases h
    exact ⟨htype, hpending⟩
  cases pending with
  | nil => cases h
  | cons p outer =>
    rw [List.forall_mem_cons] at hpending
    obtain ⟨hp, houter⟩ := hpending
    -- The type becomes the last argument of the innermost pending one.
    have hargs : ∀ a ∈ p.args ++ [type], a.Scoped scope := by
      rw [List.forall_mem_append, List.forall_mem_singleton]
      exact ⟨hp, htype⟩
    dsimp only at h
    split at h
    · cases h
      exact ⟨trivial, List.forall_mem_cons.2 ⟨hargs, houter⟩⟩
    split at h
    · obtain ⟨t, ht, rfl⟩ := map_eq_ok.1 h
      exact ⟨scoped_apply hargs ht, houter⟩
    · cases h

/-- Going on after a complete name keeps the completed types in scope. -/
lemma scoped_afterName {position name pending c s}
    (hpending : ∀ p ∈ pending, ∀ a ∈ p.args, a.Scoped scope)
    (h : afterName scope position name pending c = .ok s) : s.Scoped scope := by
  rw [afterName] at h
  split_ifs at h with hspace hopen
  · cases h
    exact ⟨trivial, hpending⟩
  · cases h
    exact ⟨trivial, List.forall_mem_cons.2 ⟨by simp, hpending⟩⟩
  · exact scoped_afterType (scoped_ofName scope name) hpending h

/-- Reading a character keeps the completed types in scope. -/
lemma State.Scoped.step {position c} {s s' : State} (hs : s.Scoped scope)
    (h : s.step scope position c = .ok s') : s'.Scoped scope := by
  obtain ⟨place, pending⟩ := s
  obtain ⟨hplace, hpending⟩ := hs
  cases place with
  | start =>
    simp only [State.step] at h
    split_ifs at h
    · cases h
      exact ⟨trivial, hpending⟩
    · cases h
      exact ⟨trivial, hpending⟩
  | name text =>
    simp only [State.step] at h
    split_ifs at h
    · cases h
      exact ⟨trivial, hpending⟩
    · exact scoped_afterName hpending h
  | named name => exact scoped_afterName hpending h
  | complete type => exact scoped_afterType hplace hpending h
  | bracket element =>
    simp only [State.step] at h
    split_ifs at h
    · cases h
      exact ⟨hplace, hpending⟩
    · cases h
      exact ⟨scoped_array.2 hplace, hpending⟩

/-- Reading characters keeps the completed types in scope. -/
lemma State.Scoped.run {position cs} {s s' : State} (hs : s.Scoped scope)
    (h : s.run scope position cs = .ok s') : s'.Scoped scope := by
  induction cs generalizing position s with
  | nil => exact Except.ok.inj h ▸ hs
  | cons c rest ih =>
    rw [State.run] at h
    cases hstep : s.step scope position c with
    | error e => rw [hstep] at h; cases h
    | ok s₁ =>
      rw [hstep] at h
      exact ih (hs.step hstep) h

/-- The type read in the end is in scope. -/
lemma State.Scoped.finish {s : State} {t} (hs : s.Scoped scope) (h : s.finish scope = .ok t) :
    t.Scoped scope := by
  obtain ⟨place, pending⟩ := s
  obtain ⟨hplace, _⟩ := hs
  cases place with
  | start => cases h
  | name text =>
    simp only [State.finish] at h
    split_ifs at h
    cases h
    exact scoped_ofName scope text
  | named name =>
    simp only [State.finish] at h
    split_ifs at h
    cases h
    exact scoped_ofName scope name
  | complete type =>
    simp only [State.finish] at h
    split_ifs at h
    cases h
    exact hplace
  | bracket element => cases h

end Expression

/-- The parameters of a type that is read are in scope. -/
lemma scoped_ofExpression {expression t} (h : ofExpression scope expression = .ok t) :
    t.Scoped scope := by
  rw [ofExpression] at h
  cases hrun : Expression.State.run scope 0 ⟨.start, []⟩ expression.toList with
  | error e => rw [hrun] at h; cases h
  | ok s =>
    have start : Expression.State.Scoped scope ⟨.start, []⟩ := ⟨trivial, by simp⟩
    have hs := start.run hrun
    rw [hrun] at h
    dsimp only at h
    cases hfinish : s.finish scope with
    | error e => rw [hfinish] at h; cases h
    | ok type =>
      rw [hfinish] at h
      cases h
      exact hs.finish hfinish

end Typings.TypeRef
