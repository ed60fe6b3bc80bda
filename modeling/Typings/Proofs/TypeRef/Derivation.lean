import Typings.Proofs.Outcome
import Typings.Proofs.TypeRef.Grammar

/-!
# Derivations behind a reading

A type expression that is read has a derivation in the grammar. What has been read up to some place
is a derivation that is still open: for every pending generic type its name and the arguments so
far, and the type at the place reached. Each character read keeps that.
-/

namespace Typings.TypeRef

open Typings.Text
open Grammar

variable {scope : List String}

/-! ## Names and marks -/

lemma continuesName_iff {c : Char} : continuesName c = true ↔ InName c := by
  simp [continuesName, InName, or_assoc]

lemma startsName_iff {c : Char} : startsName c = true ↔ isAlphabetic c = true ∨ c = '_' := by
  simp [startsName]

lemma isIncomplete_iff {name : String} :
    isIncomplete name = true ↔ name.toList.getLast? = some '.' := by
  simp [isIncomplete]

lemma isNullableName_iff {name : String} :
    isNullableName name = true ↔ name = "Nullable" ∨ name = "System.Nullable" := by
  simp [isNullableName]

/-- No white space is alphabetic. -/
lemma isAlphabetic_eq_false_of_isSpace {c : Char} (h : isSpace c = true) :
    isAlphabetic c = false := by
  have none : ∀ r ∈ spaceRanges, ∀ i < r.2 + 1 - r.1,
      isAlphabetic (Char.ofNat (r.1 + i)) = false := by
    decide +kernel
  obtain ⟨r, hr, hlow, hhigh⟩ := inRanges_iff.1 h
  have hc := none r hr (c.toNat - r.1) (by omega)
  rwa [Nat.add_sub_cancel' hlow, Char.ofNat_toNat] at hc

/-- The white space in front of a name is no part of it. -/
lemma isSpace_eq_false_of_starts {c : Char} (h : isAlphabetic c = true ∨ c = '_') :
    isSpace c = false := by
  rcases h with h | rfl
  · by_contra hc
    rw [Bool.not_eq_false] at hc
    rw [isAlphabetic_eq_false_of_isSpace hc] at h
    cases h
  · decide

namespace Grammar

/-- White space in front of what is left may be passed over too. -/
lemma Skips.snoc {cs c rest} (h : Skips cs (c :: rest)) (hc : isSpace c = true) :
    Skips cs rest := by
  generalize e : c :: rest = left at h
  induction h with
  | refl => exact e ▸ .space hc .refl
  | space hd _ ih => exact .space hd (ih e)

/-- A name without arguments denotes what it refers to. -/
lemma Name.derives {n cs rest} (h : Name n cs rest) : Derives scope cs (ofName scope n) rest := by
  rw [ofName]
  split
  case isTrue hn => exact .parameter h (by simpa using hn)
  case isFalse hn =>
    have hn : n ∉ scope := by simpa using hn
    cases hb : Builtin.ofName? n with
    | some b => exact .builtin h hn hb
    | none => exact .named h hn hb

end Grammar

namespace Expression

/-- The pending generic types are open in front of the rest: whatever arguments the rest begins
with, they belong to the innermost one, behind its arguments so far. -/
inductive Opened (scope : List String) (cs : List Char) : List Pending → List Char → Prop where
  | none : Opened scope cs [] cs
  | pending {n args outer r₀ r₁ r₂ rest} :
    Opened scope cs outer r₀ → Name n r₀ r₁ → Mark '<' r₁ r₂ →
    (∀ more r, DerivesArgs scope rest more r → DerivesArgs scope r₂ (args ++ more) r) →
    Opened scope cs (⟨n, args⟩ :: outer) rest

/-- The state is reached when all but the rest of the characters has been read. -/
inductive Reached (scope : List String) (cs : List Char) : State → List Char → Prop where
  | start {pending r₀ rest} :
    Opened scope cs pending r₀ → Skips r₀ rest → Reached scope cs ⟨.start, pending⟩ rest
  | name {text pending r₀ rest} :
    Opened scope cs pending r₀ → Skips r₀ (text.toList ++ rest) →
    (∃ c r, text.toList = c :: r ∧ (isAlphabetic c = true ∨ c = '_')) →
    (∀ c ∈ text.toList.tail, InName c) →
    Reached scope cs ⟨.name text, pending⟩ rest
  | named {n pending r₀ r₁ rest} :
    Opened scope cs pending r₀ → Name n r₀ r₁ → Skips r₁ rest →
    Reached scope cs ⟨.named n, pending⟩ rest
  | complete {t pending r₀ r₁ rest} :
    Opened scope cs pending r₀ → Derives scope r₀ t r₁ → Skips r₁ rest →
    Reached scope cs ⟨.complete t, pending⟩ rest
  | bracket {t pending r₀ r₁ r₂ rest} :
    Opened scope cs pending r₀ → Derives scope r₀ t r₁ → Mark '[' r₁ r₂ → Skips r₂ rest →
    Reached scope cs ⟨.bracket t, pending⟩ rest

variable {cs rest : List Char} {c : Char} {position : Nat} {s s' : State} {pending : List Pending}

/-- What a pending type with its last argument refers to. -/
lemma derives_of_apply {n args t cs r₁ r₂ r₃ rest} (hname : Name n cs r₁) (hopen : Mark '<' r₁ r₂)
    (hargs : DerivesArgs scope r₂ args r₃) (hclose : Mark '>' r₃ rest)
    (h : apply n args = .ok t) : Derives scope cs t rest := by
  simp only [apply] at h
  split at h
  case isTrue hn =>
    split at h
    case h_1 a =>
      cases h
      cases hargs with
      | last ha => exact .wrapper hname (isNullableName_iff.1 hn) hopen ha hclose
      | more _ _ hargs => cases hargs
    case h_2 => cases h
  case isFalse hn =>
    cases h
    rw [isNullableName_iff, not_or] at hn
    exact .generic hname hn.1 hn.2 hopen hargs hclose

/-- Going on after a complete type. -/
lemma reached_afterType {t r₀ r₁} (hopened : Opened scope cs pending r₀)
    (htype : Derives scope r₀ t r₁) (hskips : Skips r₁ (c :: rest))
    (h : afterType position t pending c = .ok s') : Reached scope cs s' rest := by
  unfold afterType at h
  split at h
  case isTrue hc =>
    cases h
    exact .complete hopened htype (hskips.snoc hc)
  split at h
  case isTrue hc =>
    subst hc
    split at h
    case isTrue => cases h
    case isFalse ht =>
      cases h
      exact .complete hopened (.nullable htype (by simpa using ht) hskips) .refl
  split at h
  case isTrue hc =>
    subst hc
    cases h
    exact .bracket hopened htype hskips .refl
  cases hopened with
  | none => cases h
  | pending houter hname hopen hargs =>
    dsimp only at h
    split at h
    case isTrue hc =>
      subst hc
      cases h
      refine .start (.pending houter hname hopen ?_) .refl
      intro more r hmore
      rw [List.append_assoc]
      exact hargs _ r (.more htype hskips hmore)
    split at h
    case isTrue hc =>
      subst hc
      obtain ⟨t', ht', rfl⟩ := map_eq_ok.1 h
      exact .complete houter
        (derives_of_apply hname hopen (hargs _ _ (.last htype)) hskips ht') .refl
    case isFalse => cases h

/-- Going on after a complete name. -/
lemma reached_afterName {n r₀ r₁} (hopened : Opened scope cs pending r₀) (hname : Name n r₀ r₁)
    (hskips : Skips r₁ (c :: rest)) (h : afterName scope position n pending c = .ok s') :
    Reached scope cs s' rest := by
  rw [afterName] at h
  split_ifs at h with hspace hopen
  · cases h
    exact .named hopened hname (hskips.snoc hspace)
  · subst hopen
    cases h
    exact .start (.pending hopened hname hskips fun _ _ hmore => hmore) .refl
  · exact reached_afterType hopened hname.derives hskips h

/-- Reading a character. -/
lemma Reached.step (hs : Reached scope cs s (c :: rest)) (h : s.step scope position c = .ok s') :
    Reached scope cs s' rest := by
  cases hs with
  | start hopened hskips =>
    simp only [State.step] at h
    split_ifs at h with hspace hstarts
    · cases h
      exact .start hopened (hskips.snoc hspace)
    · cases h
      refine .name hopened ?_ ⟨c, [], by simp, startsName_iff.1 hstarts⟩ ?_
      · simpa using hskips
      · simp
  | name hopened hskips hstarts hgoesOn =>
    simp only [State.step] at h
    split_ifs at h with hcontinues hincomplete
    · cases h
      obtain ⟨d, r, hd, hstart⟩ := hstarts
      refine .name hopened ?_ ⟨d, r ++ [c], by simp [hd], hstart⟩ ?_
      · simpa using hskips
      · intro e he
        simp only [String.toList_push, hd, List.cons_append, List.tail_cons, List.mem_append,
          List.mem_singleton] at he
        rcases he with he | rfl
        · exact hgoesOn e (by simpa [hd] using he)
        · exact continuesName_iff.1 hcontinues
    · refine reached_afterName hopened ⟨⟨hstarts, hgoesOn, ?_⟩, hskips, ?_⟩ .refl h
      · exact fun hlast => hincomplete (isIncomplete_iff.2 hlast)
      · rintro _ ⟨⟩ hc
        exact hcontinues (continuesName_iff.2 hc)
  | named hopened hname hskips => exact reached_afterName hopened hname hskips h
  | complete hopened htype hskips => exact reached_afterType hopened htype hskips h
  | bracket hopened htype hbracket hskips =>
    simp only [State.step] at h
    split_ifs at h with hspace hclose
    · cases h
      exact .bracket hopened htype hbracket (hskips.snoc hspace)
    · subst hclose
      cases h
      exact .complete hopened (.array htype hbracket hskips) .refl

/-- Reading characters. -/
lemma Reached.run (hs : Reached scope cs s rest) (h : s.run scope position rest = .ok s') :
    Reached scope cs s' [] := by
  induction rest generalizing position s with
  | nil => exact Except.ok.inj h ▸ hs
  | cons c rest ih =>
    rw [State.run] at h
    cases hstep : s.step scope position c with
    | error e => rw [hstep] at h; cases h
    | ok s₁ =>
      rw [hstep] at h
      exact ih (hs.step hstep) h

/-- The type read in the end has a derivation. -/
lemma Reached.finish {t} (hs : Reached scope cs s []) (h : s.finish scope = .ok t) :
    ∃ rest, Derives scope cs t rest ∧ Skips rest [] := by
  cases hs with
  | start => cases h
  | name hopened hskips hstarts hgoesOn =>
    simp only [State.finish] at h
    split_ifs at h with hincomplete hpending
    cases h
    cases hopened with
    | pending => cases hpending
    | none =>
      have hname : Name _ cs [] :=
        ⟨⟨hstarts, hgoesOn, fun hlast => hincomplete (isIncomplete_iff.2 hlast)⟩, hskips, by simp⟩
      exact ⟨[], hname.derives, .refl⟩
  | named hopened hname hskips =>
    simp only [State.finish] at h
    split_ifs at h with hpending
    cases h
    cases hopened with
    | pending => cases hpending
    | none => exact ⟨_, hname.derives, hskips⟩
  | complete hopened htype hskips =>
    simp only [State.finish] at h
    split_ifs at h with hpending
    cases h
    cases hopened with
    | pending => cases hpending
    | none => exact ⟨_, htype, hskips⟩
  | bracket => cases h

end Expression

/-- A type that is read is derived by the grammar. -/
lemma denotes_of_ofExpression {expression t} (h : ofExpression scope expression = .ok t) :
    Denotes scope expression t := by
  rw [ofExpression] at h
  cases hrun : Expression.State.run scope 0 ⟨.start, []⟩ expression.toList with
  | error e => rw [hrun] at h; cases h
  | ok s =>
    have start : Expression.Reached scope expression.toList ⟨.start, []⟩ expression.toList :=
      .start .none .refl
    have hs := start.run hrun
    rw [hrun] at h
    dsimp only at h
    cases hfinish : s.finish scope with
    | error e => rw [hfinish] at h; cases h
    | ok type =>
      rw [hfinish] at h
      cases h
      exact hs.finish hfinish

end Typings.TypeRef
