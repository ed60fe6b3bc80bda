import Typings.Module.Lineage
import Typings.Proofs.Module.Acyclic
import Typings.Proofs.Module.Lookup

/-!
# Walks along bases

How a walk goes from one base to the next, and why it does not matter which names it has seen when
inheritance is acyclic: what a walk never meets need not be seen. From this the depth of inheritance
grows by one at every base, and strictly from an ancestor to its descendants.
-/

namespace Typings.Module

variable {m : Module} {next : Link → Option TypeRef}

/-- A walk ends where a reference leads to no definition. -/
lemma lineageFrom_of_none {unseen ref} (h : m.definition? ref = none) :
    m.lineageFrom next unseen ref = [] := by
  rw [lineageFrom, h]

/-- A walk ends where it comes to a seen name. -/
lemma lineageFrom_of_seen {unseen ref d} (h : m.definition? ref = some d) (hd : d.name ∉ unseen) :
    m.lineageFrom next unseen ref = [] := by
  rw [lineageFrom, h]
  simp [hd]

/-- A walk ends behind a link that leads no further. -/
lemma lineageFrom_of_last {unseen ref d} (h : m.definition? ref = some d) (hd : d.name ∈ unseen)
    (hnext : next ⟨ref, d⟩ = none) : m.lineageFrom next unseen ref = [⟨ref, d⟩] := by
  rw [lineageFrom, h]
  simp [hd, hnext]

/-- A walk goes on from an unseen name to the next reference, with that name seen. -/
lemma lineageFrom_of_next {unseen ref d base} (h : m.definition? ref = some d)
    (hd : d.name ∈ unseen) (hnext : next ⟨ref, d⟩ = some base) :
    m.lineageFrom next unseen ref =
      ⟨ref, d⟩ :: m.lineageFrom next (unseen.filter (· != d.name)) base := by
  rw [lineageFrom, h]
  simp [hd, hnext]

/-- Induction along a walk: it ends at once, behind its first link, or goes on from there. -/
@[elab_as_elim]
theorem lineageFrom_induct (m : Module) (next : Link → Option TypeRef)
    {motive : List String → TypeRef → Prop}
    (foreign : ∀ unseen ref, m.definition? ref = none → motive unseen ref)
    (seen : ∀ unseen ref d, m.definition? ref = some d → d.name ∉ unseen → motive unseen ref)
    (last : ∀ unseen ref d, m.definition? ref = some d → d.name ∈ unseen →
      next ⟨ref, d⟩ = none → motive unseen ref)
    (link : ∀ unseen ref d base, m.definition? ref = some d → d.name ∈ unseen →
      next ⟨ref, d⟩ = some base → motive (unseen.filter (· != d.name)) base → motive unseen ref)
    (unseen : List String) (ref : TypeRef) : motive unseen ref := by
  induction unseen, ref using lineageFrom.induct m with
  | case1 unseen ref h => exact foreign unseen ref h
  | case2 unseen ref d h hd ih =>
    cases hnext : next ⟨ref, d⟩ with
    | none => exact last unseen ref d h hd hnext
    | some base => exact link unseen ref d base h hd hnext (by simpa using ih base)
  | case3 unseen ref d h hd => exact seen unseen ref d h hd

/-- A walk that never meets a name goes the same way with that name seen already. -/
lemma lineageFrom_filter {name unseen ref}
    (h : ∀ l ∈ m.lineageFrom next unseen ref, l.definition.name ≠ name) :
    m.lineageFrom next (unseen.filter (· != name)) ref = m.lineageFrom next unseen ref := by
  induction unseen, ref using lineageFrom_induct m next with
  | foreign unseen ref hd => rw [lineageFrom_of_none hd, lineageFrom_of_none hd]
  | seen unseen ref d hd hseen =>
    rw [lineageFrom_of_seen hd hseen,
      lineageFrom_of_seen hd fun hmem => hseen (List.mem_filter.1 hmem).1]
  | last unseen ref d hd hmem hnext =>
    rw [lineageFrom_of_last hd hmem hnext] at h ⊢
    have hne : d.name ≠ name := h ⟨ref, d⟩ (by simp)
    rw [lineageFrom_of_last hd (List.mem_filter.2 ⟨hmem, by simpa using hne⟩) hnext]
  | link unseen ref d base hd hmem hnext ih =>
    rw [lineageFrom_of_next hd hmem hnext] at h ⊢
    have hne : d.name ≠ name := h ⟨ref, d⟩ (by simp)
    rw [lineageFrom_of_next hd (List.mem_filter.2 ⟨hmem, by simpa using hne⟩) hnext,
      List.filter_comm, ih fun l hl => h l (by simp [hl])]

/-- A walk that has seen more names ends no later. -/
lemma lineageFrom_mono {unseen unseen' ref} (h : unseen ⊆ unseen') :
    m.lineageFrom next unseen ref <+: m.lineageFrom next unseen' ref := by
  induction unseen, ref using lineageFrom_induct m next generalizing unseen' with
  | foreign unseen ref hd =>
    rw [lineageFrom_of_none hd]
    exact List.nil_prefix
  | seen unseen ref d hd hseen =>
    rw [lineageFrom_of_seen hd hseen]
    exact List.nil_prefix
  | last unseen ref d hd hmem hnext =>
    rw [lineageFrom_of_last hd hmem hnext]
    exact (lineageFrom_of_last hd (h hmem) hnext).symm ▸ List.prefix_rfl
  | link unseen ref d base hd hmem hnext ih =>
    rw [lineageFrom_of_next hd hmem hnext, lineageFrom_of_next hd (h hmem) hnext,
      List.prefix_cons_inj]
    exact ih (List.filter_subset _ h)

/-- What a reference leads to is found by the name of the reference. -/
lemma find?_of_definition? {ref d} (h : m.definition? ref = some d) :
    m.find? ref.name = some d := by
  cases ref with
  | named n => exact h
  | generic n args => exact h
  | _ => cases h

/-- What a reference leads to has the name of the reference. -/
lemma name_of_definition? {ref d} (h : m.definition? ref = some d) : d.name = ref.name :=
  name_of_find? (find?_of_definition? h)

/-- What a reference leads to is a type of the module. -/
lemma mem_of_definition? {ref d} (h : m.definition? ref = some d) : d ∈ m.types :=
  mem_of_find? (find?_of_definition? h)

/-- The name of what a reference leads to is a name of the module. -/
lemma name_mem_of_definition? {ref d} (h : m.definition? ref = some d) : d.name ∈ m.names :=
  List.mem_map_of_mem (mem_of_definition? h)

/-- A substitution in a reference that is no parameter leads to the same definition. -/
lemma definition?_substitute {σ : Bindings} {ref} (h : ∀ p, ref ≠ .parameter p) :
    m.definition? (ref.substitute σ) = m.definition? ref := by
  cases ref with
  | parameter p => exact absurd rfl (h p)
  | _ => rfl

/-- A reference leads nowhere when it leads nowhere after a substitution. -/
lemma definition?_eq_none_of_substitute {σ : Bindings} {ref}
    (h : m.definition? (ref.substitute σ) = none) :
    m.definition? ref = none := by
  cases ref with
  | parameter p => rfl
  | _ => exact h

/-- The reference of each link of a walk leads to the definition of the link. -/
lemma definition?_of_mem_lineageFrom {unseen ref l} (hl : l ∈ m.lineageFrom next unseen ref) :
    m.definition? l.ref = some l.definition := by
  induction unseen, ref using lineageFrom_induct m next with
  | foreign unseen ref h => rw [lineageFrom_of_none h] at hl; cases hl
  | seen unseen ref d h hseen => rw [lineageFrom_of_seen h hseen] at hl; cases hl
  | last unseen ref d h hmem hnext =>
    rw [lineageFrom_of_last h hmem hnext, List.mem_singleton] at hl
    exact hl ▸ h
  | link unseen ref d base h hmem hnext ih =>
    rw [lineageFrom_of_next h hmem hnext] at hl
    rcases List.mem_cons.1 hl with rfl | hl
    · exact h
    · exact ih hl

/-- The reference by its bare name leads to a type whose name the module finds. -/
lemma definition?_ref (distinct : m.names.Nodup) {d} (hd : d ∈ m.types) :
    m.definition? d.ref = some d :=
  find?_of_mem distinct hd

/-- A type and the definition that its base refers to. -/
def Extends (m : Module) (d b : TypeDef) : Prop :=
  ∃ base, d.base = some base ∧ m.definition? base = some b

/-- A definition that one or more bases lead to from another. -/
inductive Ancestor (m : Module) (a : TypeDef) : TypeDef → Prop where
  | base {d} : m.Extends d a → Ancestor m a d
  | step {d b} : m.Extends d b → Ancestor m a b → Ancestor m a d

/-- The definition that a base refers to is the one that its name finds. -/
lemma Extends.baseDefinition? {d b} (h : m.Extends d b) : m.baseDefinition? d = some b := by
  obtain ⟨base, hbase, hb⟩ := h
  rw [Module.baseDefinition?, hbase]
  exact find?_of_definition? hb

/-- The walk climbs bases: where it goes on to a type of the module, that is the one that the
declared base names. -/
def Climbs (m : Module) (next : Link → Option TypeRef) : Prop :=
  ∀ ⦃ref d base b⦄, m.definition? ref = some d → next ⟨ref, d⟩ = some base →
    m.definition? base = some b → m.baseDefinition? d = some b

/-- The walk along declared bases climbs them. -/
lemma climbs_base : m.Climbs Link.base := by
  intro ref d base b _ hnext hb
  exact Extends.baseDefinition? ⟨base, hnext, hb⟩

/-- The links of a walk that climbs bases lie on the climb from its first definition. -/
lemma Climbs.exists_climb?_of_mem_lineageFrom (climbs : m.Climbs next) {unseen ref d l}
    (hd : m.definition? ref = some d) (hl : l ∈ m.lineageFrom next unseen ref) :
    ∃ n, m.climb? n d = some l.definition := by
  induction unseen, ref using lineageFrom_induct m next generalizing d with
  | foreign unseen ref h => rw [lineageFrom_of_none h] at hl; cases hl
  | seen unseen ref e h hseen => rw [lineageFrom_of_seen h hseen] at hl; cases hl
  | last unseen ref e h hmem hnext =>
    rw [lineageFrom_of_last h hmem hnext, List.mem_singleton] at hl
    subst hl
    exact ⟨0, by rw [climb?, ← hd, h]⟩
  | link unseen ref e base h hmem hnext ih =>
    rw [lineageFrom_of_next h hmem hnext] at hl
    obtain rfl : e = d := Option.some.inj (h.symm.trans hd)
    rcases List.mem_cons.1 hl with rfl | hl
    · exact ⟨0, rfl⟩
    cases hb : m.definition? base with
    | none => rw [lineageFrom_of_none hb] at hl; cases hl
    | some b =>
      obtain ⟨n, hn⟩ := ih hb hl
      exact ⟨n + 1, climb?_succ_of (climbs h hnext hb) hn⟩

/-- The walk on from a type never comes back to it when inheritance is acyclic. -/
lemma Climbs.lineage_next_ne (climbs : m.Climbs next) (acyclic : m.Acyclic) {ref d base l}
    (hd : m.definition? ref = some d) (hnext : next ⟨ref, d⟩ = some base)
    (hl : l ∈ m.lineage next base) : l.definition.name ≠ d.name := by
  cases hb : m.definition? base with
  | none => rw [lineage, lineageFrom_of_none hb] at hl; cases hl
  | some b =>
    obtain ⟨n, hn⟩ := climbs.exists_climb?_of_mem_lineageFrom hb hl
    exact acyclic_iff.1 acyclic d (mem_of_definition? hd) n l.definition
      (climb?_succ_of (climbs hd hnext hb) hn)

/-- The references met from a type are its own and those met from the next one. What has been seen
plays no part in it. -/
lemma Climbs.chain_of_next (climbs : m.Climbs next) (acyclic : m.Acyclic) {ref d base}
    (hd : m.definition? ref = some d) (hnext : next ⟨ref, d⟩ = some base) :
    m.chain next ref = ref :: m.chain next base := by
  have hwalk : m.lineage next ref = ⟨ref, d⟩ :: m.lineage next base := by
    rw [lineage, lineageFrom_of_next hd (name_mem_of_definition? hd) hnext, lineageFrom_filter]
    · rfl
    · exact fun l hl => climbs.lineage_next_ne acyclic hd hnext hl
  rw [chain, hwalk, List.filterMap_cons_some hnext, chain]

/-- A reference that leads to no definition is met alone. -/
lemma chain_of_none {ref} (h : m.definition? ref = none) : m.chain next ref = [ref] := by
  rw [chain, lineage, lineageFrom_of_none h]
  rfl

/-- A type that leads no further is met alone. -/
lemma chain_of_last {ref d} (hd : m.definition? ref = some d) (hnext : next ⟨ref, d⟩ = none) :
    m.chain next ref = [ref] := by
  rw [chain, lineage, lineageFrom_of_last hd (name_mem_of_definition? hd) hnext,
    List.filterMap_cons_none hnext, List.filterMap_nil]

/-- A reference that leads no further is met alone. -/
lemma chain_of_end {ref} (h : ∀ d, m.definition? ref = some d → next ⟨ref, d⟩ = none) :
    m.chain next ref = [ref] := by
  cases hd : m.definition? ref with
  | none => exact chain_of_none hd
  | some d => exact chain_of_last hd (h d hd)

/-- Induction along the chain of a reference when inheritance is acyclic: it leads no further, or
goes on to the next one. -/
theorem Climbs.chain_induct (climbs : m.Climbs next) (acyclic : m.Acyclic) {motive : TypeRef → Prop}
    (last : ∀ ref, (∀ d, m.definition? ref = some d → next ⟨ref, d⟩ = none) → motive ref)
    (link : ∀ ref d base, m.definition? ref = some d → next ⟨ref, d⟩ = some base → motive base →
      motive ref)
    (ref : TypeRef) : motive ref := by
  induction hlen : (m.chain next ref).length using Nat.strong_induction_on generalizing ref with
  | _ n ih =>
    by_cases hgo : ∃ d base, m.definition? ref = some d ∧ next ⟨ref, d⟩ = some base
    · obtain ⟨d, base, hd, hnext⟩ := hgo
      refine link ref d base hd hnext (ih _ ?_ base rfl)
      rw [← hlen, climbs.chain_of_next acyclic hd hnext]
      exact Nat.lt_succ_self _
    · refine last ref fun d hd => ?_
      cases hnext : next ⟨ref, d⟩ with
      | none => rfl
      | some base => exact absurd ⟨d, base, hd, hnext⟩ hgo

/-- The depth of a type with a base is one more than that of the base. -/
lemma Acyclic.inheritanceDepth_base (acyclic : m.Acyclic) {ref d base}
    (hd : m.definition? ref = some d) (hbase : d.base = some base) :
    m.inheritanceDepth ref = m.inheritanceDepth base + 1 := by
  rw [inheritanceDepth, climbs_base.chain_of_next acyclic hd hbase]
  rfl

/-- The depth of a type without a base is one. -/
lemma inheritanceDepth_root {ref d} (hd : m.definition? ref = some d) (hbase : d.base = none) :
    m.inheritanceDepth ref = 1 := by
  rw [inheritanceDepth, chain_of_last hd (show Link.base ⟨ref, d⟩ = none from hbase)]
  rfl

/-- References to one definition have one depth. -/
lemma Acyclic.inheritanceDepth_congr (acyclic : m.Acyclic) {ref ref' d}
    (h : m.definition? ref = some d) (h' : m.definition? ref' = some d) :
    m.inheritanceDepth ref = m.inheritanceDepth ref' := by
  cases hbase : d.base with
  | none => rw [inheritanceDepth_root h hbase, inheritanceDepth_root h' hbase]
  | some base =>
    rw [acyclic.inheritanceDepth_base h hbase, acyclic.inheritanceDepth_base h' hbase]

/-- An ancestor has a lesser depth than its descendants. -/
lemma Ancestor.inheritanceDepth_lt (distinct : m.names.Nodup) (acyclic : m.Acyclic) {a d}
    (hd : d ∈ m.types) (h : m.Ancestor a d) :
    m.inheritanceDepth a.ref < m.inheritanceDepth d.ref := by
  have grows {d b} (hd : d ∈ m.types) (h : m.Extends d b) :
      b ∈ m.types ∧ m.inheritanceDepth d.ref = m.inheritanceDepth b.ref + 1 := by
    obtain ⟨base, hbase, hb⟩ := h
    have hmem := mem_of_definition? hb
    refine ⟨hmem, ?_⟩
    rw [acyclic.inheritanceDepth_base (definition?_ref distinct hd) hbase,
      acyclic.inheritanceDepth_congr hb (definition?_ref distinct hmem)]
  induction h with
  | base h =>
    rw [(grows hd h).2]
    exact Nat.lt_succ_self _
  | step h _ ih =>
    obtain ⟨hb, hdepth⟩ := grows hd h
    rw [hdepth]
    exact Nat.lt_succ_of_lt (ih hb)

end Typings.Module
