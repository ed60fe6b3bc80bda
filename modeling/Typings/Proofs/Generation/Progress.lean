import Typings.Proofs.Generation.Questions
import Typings.Proofs.Module.Outline

/-!
# How spelling goes on

Spelling goes on from a user type to its base and from every other reference to what it asks for,
until something is mapped. A base goes on like its outline, since an argument that occurs in no
mapped reference tells nothing about what is mapped around it. When a reference does not go on for
ever, no outline on the way comes back to itself: outlines have ranks, and with each rank the way
grows by a factor.
-/

namespace Typings

/-- Related lists have a related item on the left for every item on the right. -/
lemma exists_left_of_forall₂ {α β : Type} {R : α → β → Prop} {as : List α} {bs : List β}
    (h : List.Forall₂ R as bs) {b} (hb : b ∈ bs) : ∃ a ∈ as, R a b := by
  induction h with
  | nil => cases hb
  | cons hab _ ih =>
    rcases List.mem_cons.1 hb with rfl | hb
    · exact ⟨_, List.mem_cons_self, hab⟩
    · obtain ⟨a, ha, hab⟩ := ih hb
      exact ⟨a, List.mem_cons_of_mem _ ha, hab⟩

namespace Generation.Context

open TypeRef (Fills)

variable {c : Context} {σ : Bindings} {t t' u u' b b' : TypeRef} {bound bound' : Nat}

/-- The mapped references and what occurs in them. -/
def known (c : Context) : List TypeRef :=
  c.mappings.inside

lemma mem_known : t ∈ c.known ↔ ∃ e ∈ c.mappings.entries, t.Within e.source := by
  rw [known, MappingTable.inside, List.mem_flatMap]
  exact exists_congr fun e => and_congr_right fun _ => TypeRef.mem_inside

lemma closed_known : ClosedUnderParts c.known := by
  intro t ht part hpart
  obtain ⟨e, he, hwithin⟩ := mem_known.1 ht
  exact mem_known.2 ⟨e, he, hwithin.of_mem_parts hpart⟩

lemma height_le_of_mem_known (h : t ∈ c.known) : t.height ≤ c.mappings.height := by
  obtain ⟨e, he, hwithin⟩ := mem_known.1 h
  exact hwithin.height_le.trans
    ((le_foldl_max (fun e : Mapping => e.source.height) c.mappings.entries 0).2 e he)

lemma mem_known_of_find? {mapping} (h : c.mappings.find? t = some mapping) : t ∈ c.known := by
  have hsource := List.find?_some h
  exact mem_known.2 ⟨mapping, List.mem_of_find?_eq_some h, eq_of_beq hsource ▸ .here⟩

/-- Strange arguments in a reference do not change whether it is mapped. -/
lemma find?_of_fills (strange : Strange c.known σ) (h : Fills σ t t') :
    c.mappings.find? t' = none ↔ c.mappings.find? t = none := by
  have unmapped {t} (hunknown : t ∉ c.known) : c.mappings.find? t = none := by
    cases hmap : c.mappings.find? t with
    | none => rfl
    | some mapping => exact absurd (mem_known_of_find? hmap) hunknown
  rcases h.eq_or_not_mem closed_known strange with rfl | ⟨hunknown, hunknown'⟩
  · exact Iff.rfl
  · exact iff_of_true (unmapped hunknown') (unmapped hunknown)

/-- Spelling goes on from a user type to its base with the arguments in it, be that mapped or not,
and from every other reference to what it asks for, unless that is mapped. -/
inductive Goes (c : Context) : TypeRef → TypeRef → Prop where
  | follow {t next} : c.model.Expands t → c.model.Follows t next → Goes c t next
  | ask {t part} :
    ¬c.model.Expands t → part ∈ c.model.asked t → c.mappings.find? part = none → Goes c t part

/-- Nothing comes behind a parameter. -/
lemma not_goes_parameter {p} : ¬c.Goes (.parameter p) u := by
  intro h
  cases h with
  | follow hexpands _ => exact Module.ne_parameter_of_isIterable hexpands.2 p rfl
  | ask _ hpart _ => cases hpart

lemma Goes.ne_parameter (h : c.Goes t u) (p : String) : t ≠ .parameter p := by
  rintro rfl
  exact not_goes_parameter h

/-- Where a reference goes on, it does with strange arguments filled in. -/
lemma Goes.fills (strange : Strange c.known σ) (hfills : Fills σ t t') (h : c.Goes t u) :
    ∃ u', c.Goes t' u' ∧ Fills σ u u' := by
  have hproper := h.ne_parameter
  cases h with
  | follow hexpands hnext =>
    obtain ⟨d, base, hd, hbase, rfl⟩ := hnext
    have hfollows : c.model.Follows t' (base.substitute (t'.bindings d.params)) :=
      ⟨d, base, (Module.definition?_of_fills hfills hproper).trans hd, hbase, rfl⟩
    exact ⟨_, .follow ((Module.expands_of_fills hfills hproper).2 hexpands) hfollows,
      hfills.substitute_bindings hproper d.params base⟩
  | ask hexpands hpart hmap =>
    obtain ⟨part', hpart', hfills'⟩ :=
      exists_left_of_forall₂ (Module.asked_of_fills hfills hproper).flip hpart
    exact ⟨part', .ask (fun h => hexpands ((Module.expands_of_fills hfills hproper).1 h)) hpart'
      ((find?_of_fills strange hfills').2 hmap), hfills'⟩

/-- Where a reference with strange arguments filled in goes on, the reference does, unless it is the
parameter of one. -/
lemma exists_goes_of_fills (strange : Strange c.known σ) (hfills : Fills σ t t')
    (hproper : ∀ p, t ≠ .parameter p) (h : c.Goes t' u') : ∃ u, c.Goes t u ∧ Fills σ u u' := by
  cases h with
  | follow hexpands hnext =>
    obtain ⟨d, base, hd, hbase, rfl⟩ := hnext
    have hfollows : c.model.Follows t (base.substitute (t.bindings d.params)) :=
      ⟨d, base, (Module.definition?_of_fills hfills hproper).symm.trans hd, hbase, rfl⟩
    exact ⟨_, .follow ((Module.expands_of_fills hfills hproper).1 hexpands) hfollows,
      hfills.substitute_bindings hproper d.params base⟩
  | ask hexpands hpart hmap =>
    obtain ⟨part, hpart, hfills'⟩ :=
      exists_left_of_forall₂ (Module.asked_of_fills hfills hproper) hpart
    exact ⟨part, .ask (fun h => hexpands ((Module.expands_of_fills hfills hproper).2 h)) hpart
      ((find?_of_fills strange hfills').1 hmap), hfills'⟩

/-- With strange arguments filled in, a reference goes all the ways that it goes without them. -/
lemma exists_reaches_of_fills (strange : Strange c.known σ) (hfills : Fills σ t t')
    (h : Relation.ReflTransGen c.Goes t u) :
    ∃ u', Relation.ReflTransGen c.Goes t' u' ∧ Fills σ u u' := by
  induction h with
  | refl => exact ⟨t', .refl, hfills⟩
  | tail _ hgoes ih =>
    obtain ⟨inner, hreach, hinner⟩ := ih
    obtain ⟨u', hgoes', hfills'⟩ := hgoes.fills strange hinner
    exact ⟨u', hreach.tail hgoes', hfills'⟩

/-- Every way from the reference on has at most as many references as the bound says. -/
def GoesWithin (c : Context) : Nat → TypeRef → Prop :=
  ChainsWithin c.Goes

lemma goesWithin_parameter {p} (h : 0 < bound) : c.GoesWithin bound (.parameter p) := by
  obtain ⟨n, rfl⟩ := Nat.exists_eq_succ_of_ne_zero h.ne'
  exact fun u hgoes => absurd hgoes not_goes_parameter

/-- With strange arguments filled in, a reference goes no further than without them, and from the
arguments that it comes to. -/
lemma GoesWithin.of_fills (strange : Strange c.known σ) (h : c.GoesWithin bound t)
    (hfills : Fills σ t t')
    (args : ∀ p a, σ.find? p = some a → Relation.ReflTransGen c.Goes t' a → c.GoesWithin bound' a) :
    c.GoesWithin (bound + bound') t' := by
  induction bound generalizing t t' with
  | zero => exact h.elim
  | succ bound ih =>
    by_cases hparam : ∃ p, t = .parameter p
    · obtain ⟨p, rfl⟩ := hparam
      cases hfills with
      | parameter => exact ChainsWithin.mono h (Nat.le_add_right _ _)
      | argument hp => exact ChainsWithin.mono (args p t' hp .refl) (Nat.le_add_left _ _)
    · have hproper : ∀ p, t ≠ .parameter p := fun p hp => hparam ⟨p, hp⟩
      rw [Nat.add_right_comm]
      intro u' hgoes'
      obtain ⟨u, hgoes, hfills'⟩ := exists_goes_of_fills strange hfills hproper hgoes'
      exact ih (h u hgoes) hfills' fun p a ha hreach => args p a ha (.head hgoes' hreach)

/-- An outline leads on to the outlines of the user types that it comes to. -/
def LeadsOn (c : Context) (b b' : TypeRef) : Prop :=
  ∃ inner, Relation.ReflTransGen c.Goes b inner ∧ c.model.Expands inner ∧
    c.model.Outlines c.known inner b'

/-- The number of outlines that one leads on to. -/
noncomputable def onward (c : Context) (b : TypeRef) : Nat :=
  reach (c.model.allOutlines c.known) c.LeadsOn b

/-- The outlines of the user types that a reference comes to lead on to fewer outlines than the
bound says, and not without end. -/
def Onward (c : Context) (bound : Nat) (t : TypeRef) : Prop :=
  ∀ inner b, Relation.ReflTransGen c.Goes t inner → c.model.Expands inner →
    c.model.Outlines c.known inner b → Acc (fun b' b => c.LeadsOn b b') b ∧ c.onward b < bound

lemma Onward.of_goes (h : c.Onward bound t) (hgoes : c.Goes t u) : c.Onward bound u :=
  fun inner b hreach => h inner b (.head hgoes hreach)

/-- An outline comes to outlines that lead on to fewer than it does. -/
lemma onward_outline (hacc : Acc (fun b' b => c.LeadsOn b b') b) : c.Onward (c.onward b) b := by
  intro inner b' hreach hexpands houtline
  have hleads : c.LeadsOn b b' := ⟨inner, hreach, hexpands, houtline⟩
  have hacc' := hacc.inv hleads
  exact ⟨hacc', reach_lt houtline.mem_allOutlines hleads (not_transGen_self hacc')⟩

/-- When a reference does not go on for ever, the outline of its base does not lead on for ever. -/
lemma acc_leadsOn (h : Acc (fun u t => c.Goes t u) t) (hexpands : c.model.Expands t)
    (houtline : c.model.Outlines c.known t b) : Acc (fun b' b => c.LeadsOn b b') b := by
  replace h := h.transGen
  induction h generalizing b with
  | intro t _ ih =>
    obtain ⟨d, base, hd, hbase, rfl⟩ := houtline
    refine ⟨_, ?_⟩
    rintro b' ⟨inner, hreach, hinner, houtline'⟩
    -- What the outline comes to is what the base comes to, up to strange arguments.
    obtain ⟨inner', hreach', hfills⟩ := exists_reaches_of_fills Bindings.strange_strangers
      (TypeRef.fills_outline c.known (t.bindings d.params) base) hreach
    have hproper := Module.ne_parameter_of_isIterable hinner.2
    have hgoes : c.Goes t (base.substitute (t.bindings d.params)) :=
      .follow hexpands ⟨d, base, hd, hbase, rfl⟩
    exact ih inner' (Relation.TransGen.head' hgoes hreach').swap
      ((Module.expands_of_fills hfills hproper).2 hinner)
      ((Module.outlines_of_fills closed_known Bindings.strange_strangers hfills hproper).2
        houtline')

/-- The factor by which outlines of a rank add to the way of a reference. -/
def growth (c : Context) (rank : Nat) : Nat :=
  (c.model.baseHeight + c.mappings.height + 1) ^ rank

lemma growth_pos (c : Context) (rank : Nat) : 0 < c.growth rank :=
  Nat.pow_pos (Nat.succ_pos _)

/-- An outline that goes on within the factor of its rank goes on within that of every greater rank.
-/
lemma outline_mul_growth_lt {rank} (houtline : c.model.Outlines c.known t b)
    (hrank : rank < bound) :
    b.height * c.growth rank < c.growth bound := by
  have hheight := houtline.height_le fun t ht => height_le_of_mem_known ht
  calc b.height * c.growth rank
      ≤ (c.model.baseHeight + c.mappings.height) * c.growth rank := Nat.mul_le_mul_right _ hheight
    _ < (c.model.baseHeight + c.mappings.height + 1) * c.growth rank := by
      rw [Nat.succ_mul]
      exact Nat.lt_add_of_pos_right (c.growth_pos rank)
    _ = c.growth (rank + 1) := (Nat.pow_succ' ..).symm
    _ ≤ c.growth bound := Nat.pow_le_pow_right (Nat.succ_pos _) hrank

/-- A reference goes on within the growth of a bound for each of its levels, when the outlines that
it comes to lead on to fewer outlines than the bound says. -/
lemma Onward.goesWithin (h : c.Onward bound t) : c.GoesWithin (t.height * c.growth bound) t := by
  induction bound using Nat.strong_induction_on generalizing t with | _ bound ihBound
  induction t using TypeRef.parts_induct with | step t ih
  have hgrowth := c.growth_pos bound
  obtain ⟨n, hn⟩ := Nat.exists_eq_succ_of_ne_zero t.height_pos.ne'
  have hparts : ∀ part ∈ t.parts, c.Onward bound part → c.GoesWithin (n * c.growth bound) part := by
    intro part hpart honward
    have hle : part.height ≤ n := Nat.le_of_lt_succ (hn ▸ TypeRef.height_lt_of_part hpart)
    exact ChainsWithin.mono (ih part hpart honward) (Nat.mul_le_mul_right _ hle)
  -- One step of the way is left for each level, since the growth is never zero.
  obtain ⟨last, hlast⟩ := Nat.exists_eq_succ_of_ne_zero hgrowth.ne'
  have hbound : t.height * c.growth bound = n * c.growth bound + last + 1 := by
    rw [hn, Nat.succ_mul, hlast, Nat.add_succ]
  rw [hbound]
  intro u hgoes
  have honward : c.Onward bound u := h.of_goes hgoes
  cases hgoes with
  | ask hexpands hpart _ =>
    have hmem := (Module.mem_asked_cases hpart).resolve_right fun h => hexpands h.1
    exact ChainsWithin.mono (hparts u hmem honward) (Nat.le_add_right _ _)
  | follow hexpands hnext =>
    obtain ⟨d, base, hd, hbase, rfl⟩ := hnext
    have houtline : c.model.Outlines c.known t
        (base.substitute ((t.bindings d.params).outline c.known)) := ⟨d, base, hd, hbase, rfl⟩
    obtain ⟨hacc, hrank⟩ := h t _ .refl hexpands houtline
    have hgrows := outline_mul_growth_lt houtline hrank
    have hargs : ∀ p a, ((t.bindings d.params).strangers c.known).find? p = some a →
        Relation.ReflTransGen c.Goes (base.substitute (t.bindings d.params)) a →
        c.GoesWithin (n * c.growth bound) a := by
      intro p a ha hreach
      obtain ⟨b, hb, -, hcases⟩ := Bindings.strangers_cases ha
      have hmem : b.2 ∈ t.parts := TypeRef.mem_parts_of_bindings hb
      rcases hcases with rfl | ⟨rfl, -⟩
      · have hn : 0 < n := Nat.lt_of_lt_of_le b.2.height_pos
          (Nat.le_of_lt_succ (hn ▸ TypeRef.height_lt_of_part hmem))
        exact goesWithin_parameter (Nat.mul_pos hn hgrowth)
      · exact hparts b.2 hmem fun inner b' hinner => honward inner b' (hreach.trans hinner)
    have hway := (ihBound _ hrank (onward_outline hacc)).of_fills Bindings.strange_strangers
      (TypeRef.fills_outline c.known (t.bindings d.params) base) hargs
    refine ChainsWithin.mono hway ?_
    omega

/-- A reference that does not go on for ever goes on within the growth of all outlines. -/
lemma goesWithin_of_acc (h : Acc (fun u t => c.Goes t u) t) :
    c.GoesWithin (t.height * c.growth c.ways) t := by
  refine Onward.goesWithin fun inner b hreach hexpands houtline => ?_
  have hinner : Acc (fun u t => c.Goes t u) inner := by
    clear hexpands houtline
    induction hreach with
    | refl => exact h
    | tail _ hgoes ih => exact ih.inv hgoes
  have hacc := acc_leadsOn hinner hexpands houtline
  have hlength := c.model.length_allOutlines_le c.known
  exact ⟨hacc, (reach_lt_length houtline.mem_allOutlines (not_transGen_self hacc)).trans_le hlength⟩

end Generation.Context

end Typings
