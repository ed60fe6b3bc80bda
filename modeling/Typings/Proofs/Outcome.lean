import Mathlib.Data.List.Perm.Basic
import Mathlib.Tactic.Lemma

/-!
# Outcomes

Inversion of computations that succeed or fail. A sequence succeeds with a result exactly when its
first part succeeds and the rest succeeds from there, so proofs take computations apart by these
lemmas and do not unfold the sequence.
-/

namespace Typings

variable {ε α β : Type}

/-- A sequence goes on from the result of its first part. -/
lemma ok_bind {a : α} {f : α → Except ε β} : .ok a >>= f = f a :=
  rfl

/-- A sequence succeeds when both of its parts do. -/
lemma bind_eq_ok {x : Except ε α} {f : α → Except ε β} {b : β} :
    x >>= f = .ok b ↔ ∃ a, x = .ok a ∧ f a = .ok b := by
  cases x with
  | error e => simp [bind, Except.bind]
  | ok a => simp [bind, Except.bind]

/-- A sequence fails when one of its parts does, the second one after the first has succeeded. -/
lemma bind_eq_error {x : Except ε α} {f : α → Except ε β} {e : ε} :
    x >>= f = .error e ↔ x = .error e ∨ ∃ a, x = .ok a ∧ f a = .error e := by
  cases x with
  | error e' => simp [bind, Except.bind]
  | ok a => simp [bind, Except.bind]

/-- Two checks succeed one after the other when both do. -/
lemma check_bind_eq_ok {x : Except ε Unit} {y : Unit → Except ε Unit} :
    x >>= y = .ok () ↔ x = .ok () ∧ y () = .ok () := by
  rw [bind_eq_ok]
  constructor
  · rintro ⟨_, hx, hy⟩
    exact ⟨hx, hy⟩
  · rintro ⟨hx, hy⟩
    exact ⟨(), hx, hy⟩

/-- A changed outcome is a success when the outcome is. -/
lemma map_eq_ok {x : Except ε α} {f : α → β} {b : β} :
    x.map f = .ok b ↔ ∃ a, x = .ok a ∧ f a = b := by
  cases x with
  | error e => simp [Except.map]
  | ok a => simp [Except.map]

/-- A changed outcome is a failure when the outcome is. -/
lemma map_eq_error {x : Except ε α} {f : α → β} {e : ε} : x.map f = .error e ↔ x = .error e := by
  cases x with
  | error e' => simp [Except.map]
  | ok a => simp [Except.map]

/-- Running over a list succeeds when running on each of its elements does, in order. -/
lemma mapM_eq_ok {f : α → Except ε β} {as : List α} {bs : List β} :
    as.mapM f = .ok bs ↔ List.Forall₂ (fun a b => f a = .ok b) as bs := by
  induction as generalizing bs with
  | nil =>
    rw [List.mapM_nil, List.forall₂_nil_left_iff]
    exact ⟨fun h => (Except.ok.inj h).symm, fun h => h ▸ rfl⟩
  | cons a as ih =>
    rw [List.mapM_cons, List.forall₂_cons_left_iff, bind_eq_ok]
    simp only [bind_eq_ok, ih]
    constructor
    · rintro ⟨b, hb, rest, hrest, heq⟩
      exact ⟨b, rest, hb, hrest, (Except.ok.inj heq).symm⟩
    · rintro ⟨b, rest, hb, hrest, rfl⟩
      exact ⟨b, hb, rest, hrest, rfl⟩

/-- Running over a list fails at one of its elements. -/
lemma exists_of_mapM_eq_error {f : α → Except ε β} {as : List α} {e : ε}
    (h : as.mapM f = .error e) : ∃ a ∈ as, f a = .error e := by
  induction as with
  | nil => cases h
  | cons a rest ih =>
    rw [List.mapM_cons, bind_eq_error] at h
    rcases h with ha | ⟨b, _, h⟩
    · exact ⟨a, List.mem_cons_self, ha⟩
    · rcases bind_eq_error.1 h with hrest | ⟨bs, _, hdone⟩
      · obtain ⟨a', ha', he⟩ := ih hrest
        exact ⟨a', List.mem_cons_of_mem a ha', he⟩
      · cases hdone

/-- Running over a list succeeds where running on each of its elements does. -/
lemma exists_mapM_eq_ok {f : α → Except ε β} {as : List α} (h : ∀ a ∈ as, ∃ b, f a = .ok b) :
    ∃ bs, as.mapM f = .ok bs := by
  cases hrun : as.mapM f with
  | ok bs => exact ⟨bs, rfl⟩
  | error e =>
    obtain ⟨a, ha, he⟩ := exists_of_mapM_eq_error hrun
    obtain ⟨b, hb⟩ := h a ha
    rw [hb] at he
    cases he

/-- Running over a list depends on what running on each of its elements gives. -/
lemma mapM_congr {f g : α → Except ε β} {as : List α} (h : ∀ a ∈ as, f a = g a) :
    as.mapM f = as.mapM g := by
  induction as with
  | nil => rfl
  | cons a rest ih =>
    obtain ⟨ha, hrest⟩ := List.forall_mem_cons.1 h
    rw [List.mapM_cons, List.mapM_cons, ha, ih hrest]

/-- Running over a list and changing each outcome is changing all results in the end. -/
lemma mapM_map {γ : Type} {f : α → Except ε β} {g : β → γ} {as : List α} :
    as.mapM (fun a => (f a).map g) = (as.mapM f).map (List.map g) := by
  induction as with
  | nil => rfl
  | cons a rest ih =>
    rw [List.mapM_cons, List.mapM_cons, ih]
    cases f a with
    | error e => rfl
    | ok b => cases rest.mapM f <;> rfl

/-- A run of one step is the step. -/
lemma foldlM_singleton {f : β → α → Except ε β} {a : α} {b : β} : [a].foldlM f b = f b a := by
  rw [List.foldlM_cons]
  exact bind_pure _

/-- What every step keeps is kept by a run of them. -/
lemma foldlM_induct {f : β → α → Except ε β} {P : β → Prop}
    (step : ∀ b a b', P b → f b a = .ok b' → P b') {as : List α} {b b' : β} (hb : P b)
    (h : as.foldlM f b = .ok b') : P b' := by
  induction as generalizing b with
  | nil => exact Except.ok.inj h ▸ hb
  | cons a rest ih =>
    rw [List.foldlM_cons, bind_eq_ok] at h
    obtain ⟨c, hc, hrest⟩ := h
    exact ih (step b a c hb hc) hrest

/-- A list in another order succeeds with the results in another order. -/
lemma mapM_perm {f : α → Except ε β} {as as' : List α} {bs : List β} (p : as.Perm as')
    (h : as.mapM f = .ok bs) : ∃ bs', as'.mapM f = .ok bs' ∧ bs.Perm bs' := by
  obtain ⟨bs', h', p'⟩ := List.perm_comp_forall₂ p.symm (mapM_eq_ok.1 h)
  exact ⟨bs', mapM_eq_ok.2 h', p'.symm⟩

/-- The elements of a kind succeed with the results of that kind. -/
lemma mapM_filter {f : α → Except ε β} {p : α → Bool} {q : β → Bool} {as : List α} {bs : List β}
    (hpq : ∀ a b, f a = .ok b → p a = q b) (h : as.mapM f = .ok bs) :
    (as.filter p).mapM f = .ok (bs.filter q) := by
  rw [mapM_eq_ok] at *
  induction h with
  | nil => exact .nil
  | @cons a b as bs hab _ ih =>
    rw [List.filter_cons, List.filter_cons, hpq a b hab]
    cases q b with
    | false => exact ih
    | true => exact .cons hab ih

/-- Two computations come out together: both fail, each with an error of its own, or both succeed
with related results. -/
inductive Together {γ : Type} (R : α → γ → Prop) : Except ε α → Except ε γ → Prop where
  | error {e e' : ε} : Together R (.error e) (.error e')
  | ok {a : α} {c : γ} : R a c → Together R (.ok a) (.ok c)

namespace Together

variable {γ δ : Type} {R : α → γ → Prop}

lemma refl (x : Except ε α) : Together Eq x x := by
  cases x with
  | error e => exact .error
  | ok a => exact .ok rfl

lemma imp {S : α → γ → Prop} {x : Except ε α} {y : Except ε γ} (h : Together R x y)
    (hrs : ∀ a c, R a c → S a c) : Together S x y := by
  cases h with
  | error => exact .error
  | ok hac => exact .ok (hrs _ _ hac)

/-- Sequences come out together when their first parts do and the rest does from related results. -/
lemma bind {S : β → δ → Prop} {x : Except ε α} {y : Except ε γ} {f : α → Except ε β}
    {g : γ → Except ε δ} (h : Together R x y)
    (hfg : ∀ a c, x = .ok a → y = .ok c → R a c → Together S (f a) (g c)) :
    Together S (x >>= f) (y >>= g) := by
  cases h with
  | error => exact .error
  | ok hac => exact hfg _ _ rfl rfl hac

lemma map {S : β → δ → Prop} {x : Except ε α} {y : Except ε γ} {f : α → β} {g : γ → δ}
    (h : Together R x y) (hfg : ∀ a c, R a c → S (f a) (g c)) :
    Together S (x.map f) (y.map g) := by
  cases h with
  | error => exact .error
  | ok hac => exact .ok (hfg _ _ hac)

/-- Runs over one list come out together when they do on each of its elements. -/
lemma mapM {f : β → Except ε α} {g : β → Except ε γ} (h : ∀ b, Together R (f b) (g b))
    (bs : List β) : Together (List.Forall₂ R) (bs.mapM f) (bs.mapM g) := by
  induction bs with
  | nil => exact .ok .nil
  | cons b bs ih =>
    rw [List.mapM_cons, List.mapM_cons]
    refine (h b).bind fun a c _ _ hac => ih.bind fun as cs _ _ hrest => ?_
    exact .ok (.cons hac hrest)

/-- Runs over a list and over the same list in another order come out together. -/
lemma of_perm {f : α → Except ε β} {as as' : List α} (p : as.Perm as') :
    Together List.Perm (as.mapM f) (as'.mapM f) := by
  cases h : as.mapM f with
  | ok bs =>
    obtain ⟨bs', h', hperm⟩ := mapM_perm p h
    rw [h']
    exact .ok hperm
  | error e =>
    -- A success in the other order would be one in this order.
    cases h' : as'.mapM f with
    | error e' => exact .error
    | ok bs' =>
      obtain ⟨bs, hok, -⟩ := mapM_perm p.symm h'
      cases h.symm.trans hok

end Together

end Typings
