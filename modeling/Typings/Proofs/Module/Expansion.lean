import Mathlib.Data.Finset.Card
import Mathlib.Logic.Relation
import Typings.Generation.Depth
import Typings.Proofs.Module.Filling

/-!
# Expansion of iterable types

The element of an iterable user type is made of the bases on its chain, with arguments put into
them, and can be larger than the reference it belongs to. An iterable type leads to the iterable
types that its base mentions. When no type leads back to itself, each has a rank that falls along
the way, and the elements of a type are made of types of a lesser rank and of the arguments that it
was given.
-/

namespace Typings

namespace TypeRef

/-- An argument is no higher than the highest. -/
lemma height_le_heightArgs {a : TypeRef} {args : List TypeRef} (ha : a ∈ args) :
    a.height ≤ heightArgs args := by
  induction args with
  | nil => cases ha
  | cons b rest ih =>
    rw [heightArgs]
    rcases List.mem_cons.1 ha with rfl | ha
    · exact Nat.le_max_left _ _
    · exact (ih ha).trans (Nat.le_max_right _ _)

/-- A part is lower than the whole. -/
lemma height_lt_of_part {t u : TypeRef} (hu : u ∈ t.parts) : u.height < t.height := by
  cases t with
  | nullable t => rw [List.mem_singleton.1 hu]; exact Nat.lt_succ_self _
  | array t => rw [List.mem_singleton.1 hu]; exact Nat.lt_succ_self _
  | generic n args => exact Nat.lt_succ_of_le (height_le_heightArgs hu)
  | _ => cases hu

lemma height_pos (t : TypeRef) : 0 < t.height := by
  cases t <;> exact Nat.succ_pos _

/-- The reference names the type, bare or applied to arguments. A well-known collection names none.
-/
def Names (ref : TypeRef) (name : String) : Prop :=
  ref = .named name ∨ ∃ args, isCollectionName name = false ∧ ref = .generic name args

mutual

/-- The types that are named at some depth of a reference. -/
def mentions : TypeRef → List String
  | .named n => [n]
  | .nullable t | .array t => t.mentions
  | .generic n args =>
    if isCollectionName n then mentionsArgs args else n :: mentionsArgs args
  | .builtin _ | .parameter _ => []

/-- The types that are named in arguments. -/
def mentionsArgs : List TypeRef → List String
  | [] => []
  | a :: rest => a.mentions ++ mentionsArgs rest

end

/-- What is named in arguments is named in one of them. -/
lemma mem_mentionsArgs {name : String} {args : List TypeRef} :
    name ∈ mentionsArgs args ↔ ∃ a ∈ args, name ∈ a.mentions := by
  induction args with
  | nil => simp [mentionsArgs]
  | cons a rest ih => rw [mentionsArgs, List.mem_append, ih, List.exists_mem_cons_iff]

/-- The mentioned types are those that something in the reference names. -/
lemma mem_mentions_of_within {name : String} {inner ref : TypeRef} (hnames : inner.Names name)
    (h : inner.Within ref) : name ∈ ref.mentions := by
  induction h with
  | here =>
    obtain rfl | ⟨args, hc, rfl⟩ := hnames
    · exact List.mem_singleton_self _
    · rw [mentions, hc]
      exact List.mem_cons_self
  | nullable _ ih => exact ih
  | array _ ih => exact ih
  | arg ha _ ih =>
    have hargs := mem_mentionsArgs.2 ⟨_, ha, ih⟩
    rw [mentions]
    split
    · exact hargs
    · exact List.mem_cons_of_mem _ hargs

end TypeRef

/-- What is named after a substitution is named before it, unless a parameter stands there. -/
lemma TypeRef.names_of_substitute {σ : Bindings} {t : TypeRef} (hproper : ∀ p, t ≠ .parameter p)
    {name : String} (h : (t.substitute σ).Names name) : t.Names name := by
  cases t with
  | parameter p => exact absurd rfl (hproper p)
  | named n => exact h
  | generic n args =>
    obtain h | ⟨_, hc, h⟩ := h
    · cases h
    · cases h
      exact .inr ⟨args, hc, rfl⟩
  | _ => obtain h | ⟨_, _, h⟩ := h <;> cases h

/-- The greatest value on a list bounds each of them. -/
lemma le_foldl_max {α : Type} (f : α → Nat) (as : List α) (first : Nat) :
    first ≤ as.foldl (fun height a => max height (f a)) first ∧
      ∀ a ∈ as, f a ≤ as.foldl (fun height a => max height (f a)) first := by
  induction as generalizing first with
  | nil => exact ⟨le_rfl, nofun⟩
  | cons b rest ih =>
    obtain ⟨hfirst, hrest⟩ := ih (max first (f b))
    refine ⟨(Nat.le_max_left _ _).trans hfirst, List.forall_mem_cons.2 ⟨?_, hrest⟩⟩
    exact (Nat.le_max_right _ _).trans hfirst

section Reach

variable {α : Type} {all : List α} {leads : α → α → Prop} {a b : α}

open scoped Classical in
/-- The number of those on a list that a relation leads to on the way. -/
noncomputable def reach (all : List α) (leads : α → α → Prop) (a : α) : Nat :=
  (all.toFinset.filter fun b => Relation.TransGen leads a b).card

/-- What does not lead back to itself leads to fewer than what leads to it. -/
lemma reach_lt (hmem : b ∈ all) (h : leads a b) (hback : ¬Relation.TransGen leads b b) :
    reach all leads b < reach all leads a := by
  classical
  refine Finset.card_lt_card (Finset.ssubset_iff.2 ⟨b, ?_, ?_⟩)
  · exact fun hself => hback (Finset.mem_filter.1 hself).2
  · intro c hc
    rcases Finset.mem_insert.1 hc with rfl | hc
    · exact Finset.mem_filter.2 ⟨List.mem_toFinset.2 hmem, .single h⟩
    · obtain ⟨hmem, hlead⟩ := Finset.mem_filter.1 hc
      exact Finset.mem_filter.2 ⟨hmem, .head h hlead⟩

/-- What does not lead back to itself leads to fewer than there are. -/
lemma reach_lt_length (hmem : a ∈ all) (hback : ¬Relation.TransGen leads a a) :
    reach all leads a < all.length := by
  classical
  calc reach all leads a
      < all.toFinset.card := Finset.card_lt_card
        (Finset.filter_ssubset.2 ⟨a, List.mem_toFinset.2 hmem, hback⟩)
    _ ≤ all.length := List.toFinset_card_le _

/-- What does not lead on without end does not lead back to itself. -/
lemma not_transGen_self (h : Acc (fun b a => leads a b) a) : ¬Relation.TransGen leads a a := by
  replace h := h.transGen
  induction h with
  | intro a _ ih => exact fun hback => ih a hback.swap hback

end Reach

namespace Module

variable {m : Module}

/-- No base is higher than the highest. -/
lemma height_le_baseHeight {d base} (hd : d ∈ m.types) (hbase : d.base = some base) :
    base.height ≤ m.baseHeight := by
  have h := (le_foldl_max (fun d : TypeDef => (d.base.map TypeRef.height).getD 0) m.types 0).2 d hd
  simp only [hbase, Option.map_some, Option.getD_some] at h
  exact h

/-- An iterable type leads to the iterable types that its base mentions. -/
def LeadsTo (m : Module) (name name' : String) : Prop :=
  m.isIterable (.named name) = true ∧ m.isIterable (.named name') = true ∧
    ∃ (d : TypeDef) (base ref : TypeRef), m.find? name = some d ∧ d.base = some base ∧
      ref.Names name' ∧ ref.Within base

/-- No iterable type leads back to itself. -/
def Straight (m : Module) : Prop :=
  ∀ name, ¬Relation.TransGen m.LeadsTo name name

/-- No type leads back to itself when the iterable types that bases mention come before those that
have the bases. -/
lemma straight_of_mentions (place : String → Nat)
    (h : ∀ d ∈ m.types, ∀ name' ∈ (d.base.map TypeRef.mentions).getD [],
      m.isIterable (.named name') = true → place name' < place d.name) : m.Straight := by
  have falls {name name'} (hlead : m.LeadsTo name name') : place name' < place name := by
    obtain ⟨_, hiterable, d, base, inner, hd, hbase, hnames, hwithin⟩ := hlead
    rw [← name_of_find? hd]
    refine h d (mem_of_find? hd) name' ?_ hiterable
    rw [hbase]
    exact TypeRef.mem_mentions_of_within hnames hwithin
  have chain {name name'} (hlead : Relation.TransGen m.LeadsTo name name') :
      place name' < place name := by
    induction hlead with
    | single hlead => exact falls hlead
    | tail _ hlead ih => exact (falls hlead).trans ih
  exact fun name hcycle => Nat.lt_irrefl _ (chain hcycle)

/-- A reference to an iterable user type names it. -/
lemma Expands.names {t} (h : m.Expands t) : t.Names t.name := by
  obtain ⟨d, _, hd, _⟩ := h.exists_base
  cases t with
  | named n => exact .inl rfl
  | generic n args => exact .inr ⟨args, h.1, rfl⟩
  | _ => cases hd

/-- A user type is iterable or not in whatever way it is referred to. -/
lemma Expands.isIterable_name {t} (h : m.Expands t) : m.isIterable (.named t.name) = true := by
  have hcongr : ∀ name, t.Names name → m.isIterable t = m.isIterable (.named name) := by
    rintro name (rfl | ⟨args, hc, rfl⟩)
    · rfl
    · exact isIterable_congr rfl hc
  rw [← hcongr _ h.names, h.2]

/-- The number of types that a type leads to on the way. -/
noncomputable def rank (m : Module) (name : String) : Nat :=
  reach m.names m.LeadsTo name

/-- What a type leads to has a lesser rank. -/
lemma Straight.rank_lt (straight : m.Straight) {name name'} (h : m.LeadsTo name name') :
    m.rank name' < m.rank name :=
  reach_lt (Expands.name_mem_names ⟨rfl, h.2.1⟩) h (straight name')

/-- The iterable types that a reference mentions have lesser ranks. -/
def Below (m : Module) (bound : Nat) (ref : TypeRef) : Prop :=
  ∀ (name : String) (inner : TypeRef), inner.Names name → inner.Within ref →
    m.isIterable (.named name) = true → m.rank name < bound

/-- What holds of the types that a reference mentions holds of the type it names and of its parts.
-/
lemma below_iff {bound t} : m.Below bound t ↔
    (∀ name, t.Names name → m.isIterable (.named name) = true → m.rank name < bound) ∧
      ∀ u ∈ t.parts, m.Below bound u := by
  constructor
  · intro h
    refine ⟨fun name hnames hiterable => h name t hnames .here hiterable, ?_⟩
    intro u hu name inner hnames hwithin
    exact h name inner hnames (.of_part hu hwithin)
  · rintro ⟨hself, hparts⟩ name inner hnames hwithin hiterable
    cases hwithin with
    | here => exact hself name hnames hiterable
    | nullable h => exact hparts _ (List.mem_singleton_self _) name inner hnames h hiterable
    | array h => exact hparts _ (List.mem_singleton_self _) name inner hnames h hiterable
    | arg ha h => exact hparts _ ha name inner hnames h hiterable

lemma Below.of_part {bound t u} (h : m.Below bound t) (hu : u ∈ t.parts) : m.Below bound u :=
  (below_iff.1 h).2 u hu

lemma Below.mono {bound bound' t} (h : m.Below bound t) (hle : bound ≤ bound') :
    m.Below bound' t :=
  fun name inner hnames hwithin hiterable => (h name inner hnames hwithin hiterable).trans_le hle

/-- The user type that a reference is to is one that it mentions. -/
lemma Below.rank_name_lt {bound t} (h : m.Below bound t) (hexpands : m.Expands t) :
    m.rank t.name < bound :=
  h _ t hexpands.names .here hexpands.isIterable_name

/-- A reference mentions what it mentioned before a substitution, and what the arguments mention. -/
lemma Below.substitute {bound t} {σ : Bindings} (h : m.Below bound t)
    (args : ∀ p a, σ.find? p = some a → m.Below bound a) : m.Below bound (t.substitute σ) := by
  induction t using TypeRef.parts_induct with | step t ih
  by_cases hparam : ∃ p, t = .parameter p
  · obtain ⟨p, rfl⟩ := hparam
    rw [TypeRef.substitute]
    cases hp : σ.find? p with
    | none => exact h
    | some a => exact args p a hp
  · have hproper : ∀ p, t ≠ .parameter p := fun p hp => hparam ⟨p, hp⟩
    obtain ⟨hself, hparts⟩ := below_iff.1 h
    refine below_iff.2 ⟨fun name hnames => hself name ?_, ?_⟩
    · exact TypeRef.names_of_substitute hproper hnames
    · rw [TypeRef.parts_substitute hproper, List.forall_mem_map]
      exact fun u hu => ih u hu (hparts u hu)

/-- The base of an iterable type mentions types of a lesser rank. -/
lemma Straight.below_base (straight : m.Straight) {name d base}
    (h : m.isIterable (.named name) = true) (hd : m.find? name = some d)
    (hbase : d.base = some base) : m.Below (m.rank name) base :=
  fun _ inner hnames hwithin hiterable =>
    straight.rank_lt ⟨h, hiterable, d, base, inner, hd, hbase, hnames, hwithin⟩

/-- What a reference to an iterable user type leads on to mentions types below the same rank. -/
lemma Below.of_follows {bound t next} (h : m.Below bound t) (straight : m.Straight)
    (hexpands : m.Expands t) (hnext : m.Follows t next) : m.Below bound next := by
  obtain ⟨d, base, hd, hbase, rfl⟩ := hnext
  have hrank := h.rank_name_lt hexpands
  have hbelow := straight.below_base hexpands.isIterable_name (find?_of_definition? hd) hbase
  refine (hbelow.mono hrank.le).substitute fun p a ha => ?_
  exact h.of_part (TypeRef.mem_parts_of_bindings (Bindings.mem_of_find? ha))

end Module

end Typings
