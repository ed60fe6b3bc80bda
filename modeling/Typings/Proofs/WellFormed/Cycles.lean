import Mathlib.Data.List.Chain
import Mathlib.Data.List.Nodup
import Typings.Proofs.Module.Acyclic
import Typings.Proofs.Module.Lookup
import Typings.Proofs.WellFormed.Faults
import Typings.Proofs.WellFormed.Rules

/-!
# Cycles that are reported

A type derives from at most one type, the one that its base finds by name. So there is at most one
cycle from a name back to it, and the trail that comes back to the name goes along it. A trail may
also run into a cycle that its first type does not lie on, and then nothing is reported for that
type.

The main statement is that the check reports a path exactly when everything else is in order and the
path is the cycle from the first type, in the order of declaration, that lies on a cycle at all.
-/

namespace Typings

namespace Module

/-- The base of the type that the first name finds finds a type of the second name. -/
def DerivesFrom (m : Module) (a b : String) : Prop :=
  ∃ d base e, m.find? a = some d ∧ d.base = some base ∧ m.find? base.name = some e ∧ e.name = b

/-- A cycle of inheritance: different names, each deriving from the next and the last from the
first. -/
structure Cycle (m : Module) (first : String) (between : List String) : Prop where
  distinct : (first :: between).Nodup
  derives : (first :: between ++ [first]).IsChain m.DerivesFrom

/-- The name is one of those on a cycle. -/
def OnCycle (m : Module) (name : String) : Prop :=
  ∃ first between, m.Cycle first between ∧ name ∈ first :: between

variable {m : Module} {d : TypeDef} {a b c name : String}

lemma derivesFrom_iff (hd : m.find? a = some d) :
    m.DerivesFrom a b ↔ ∃ e, m.baseDefinition? d = some e ∧ e.name = b := by
  constructor
  · rintro ⟨d', base, e, hd', hbase, he, hname⟩
    obtain rfl := Option.some.inj (hd.symm.trans hd')
    exact ⟨e, Option.bind_eq_some_iff.2 ⟨base, hbase, he⟩, hname⟩
  · rintro ⟨e, he, hname⟩
    obtain ⟨base, hbase, he⟩ := Option.bind_eq_some_iff.1 he
    exact ⟨d, base, e, hd, hbase, he, hname⟩

/-- A name derives from at most one other. -/
lemma DerivesFrom.unique (hb : m.DerivesFrom a b) (hc : m.DerivesFrom a c) : b = c := by
  obtain ⟨d, base, e, hd, hbase, he, rfl⟩ := hb
  obtain ⟨e', he', rfl⟩ := (derivesFrom_iff hd).1 hc
  have hsame : m.baseDefinition? d = some e := Option.bind_eq_some_iff.2 ⟨base, hbase, he⟩
  rw [hsame] at he'
  cases he'
  rfl

/-- From one name to another there is at most one way that does not come to it before. -/
lemma eq_of_isChain {l l' : List String} (h : (a :: l ++ [c]).IsChain m.DerivesFrom)
    (h' : (a :: l' ++ [c]).IsChain m.DerivesFrom) (hc : c ∉ l) (hc' : c ∉ l') : l = l' := by
  induction l generalizing a l' with
  | nil =>
    cases l' with
    | nil => rfl
    | cons b' l' =>
      have hb : c = b' := (List.isChain_cons_cons.1 h).1.unique (List.isChain_cons_cons.1 h').1
      exact absurd (hb ▸ List.mem_cons_self) hc'
  | cons b l ih =>
    obtain ⟨hb, hrest⟩ := List.isChain_cons_cons.1 h
    cases l' with
    | nil =>
      have hb' : b = c := hb.unique (List.isChain_cons_cons.1 h').1
      exact absurd (hb' ▸ List.mem_cons_self) hc
    | cons b' l' =>
      obtain ⟨hb', hrest'⟩ := List.isChain_cons_cons.1 h'
      obtain rfl := hb.unique hb'
      rw [List.mem_cons, not_or] at hc hc'
      rw [ih hrest hrest' hc.2 hc'.2]

/-- A way along names is a climb from the type of the first of them. -/
lemma exists_climb?_of_isChain {l : List String} (hd : m.find? a = some d)
    (h : (a :: l ++ [c]).IsChain m.DerivesFrom) :
    ∃ e, m.climb? (l.length + 1) d = some e ∧ e.name = c := by
  induction l generalizing a d with
  | nil =>
    obtain ⟨e, he, hname⟩ := (derivesFrom_iff hd).1 (List.isChain_cons_cons.1 h).1
    exact ⟨e, climb?_succ_of he rfl, hname⟩
  | cons b l ih =>
    obtain ⟨hb, hrest⟩ := List.isChain_cons_cons.1 h
    obtain ⟨e, he, rfl⟩ := (derivesFrom_iff hd).1 hb
    obtain ⟨e', he', hname⟩ := ih (find?_baseDefinition? he) hrest
    exact ⟨e', climb?_succ_of he he', hname⟩

/-- A trail goes along names that derive from one another. -/
lemma isChain_trailFrom {unseen} (hd : m.find? d.name = some d) :
    (d.name :: m.trailFrom unseen d).IsChain m.DerivesFrom := by
  induction unseen, d using trailFrom.induct m with
  | case1 unseen d hb =>
    rw [trailFrom, hb]
    exact List.isChain_singleton _
  | case2 unseen d b hb hmem ih =>
    rw [trailFrom, hb]
    simp only [hmem, if_true]
    apply List.isChain_cons_cons.2
    exact ⟨(derivesFrom_iff hd).2 ⟨b, hb, rfl⟩, by simpa using ih (find?_baseDefinition? hb)⟩
  | case3 unseen d b hb hmem =>
    rw [trailFrom, hb]
    simp only [hmem, if_false]
    exact List.isChain_pair.2 ((derivesFrom_iff hd).2 ⟨b, hb, rfl⟩)

/-- All names of a trail but the last are different and unseen. -/
lemma fresh_trailFrom {unseen init last} (h : m.trailFrom unseen d = init ++ [last]) :
    init.Nodup ∧ ∀ n ∈ init, n ∈ unseen := by
  induction unseen, d using trailFrom.induct m generalizing init with
  | case1 unseen d hb =>
    rw [trailFrom, hb] at h
    cases init <;> cases h
  | case2 unseen d b hb hmem ih =>
    rw [trailFrom, hb] at h
    simp only [hmem, if_true] at h
    cases init with
    | nil => exact ⟨List.nodup_nil, List.forall_mem_nil _⟩
    | cons n init =>
      obtain ⟨rfl, hrest⟩ := List.cons_eq_cons.1 h
      obtain ⟨hdistinct, hunseen⟩ := ih (by simpa using hrest)
      have hinit : ∀ n ∈ init, n ∈ unseen ∧ n ≠ b.name := by
        intro n hn
        simpa using hunseen n hn
      refine ⟨List.nodup_cons.2 ⟨fun hn => (hinit _ hn).2 rfl, hdistinct⟩, ?_⟩
      exact List.forall_mem_cons.2 ⟨hmem, fun n hn => (hinit n hn).1⟩
  | case3 unseen d b hb hmem =>
    rw [trailFrom, hb] at h
    simp only [hmem, if_false] at h
    cases init with
    | nil => exact ⟨List.nodup_nil, List.forall_mem_nil _⟩
    | cons n init =>
      obtain ⟨-, hrest⟩ := List.cons_eq_cons.1 h
      cases init <;> cases hrest

/-- What is reported for a type is a cycle from its name. -/
lemma exists_cycle_of_cycle? {path} (hd : m.find? d.name = some d) (h : m.cycle? d = some path) :
    ∃ between, path = d.name :: between ++ [d.name] ∧ m.Cycle d.name between := by
  rw [cycle?] at h
  split at h
  case isFalse => cases h
  case isTrue hlast =>
    cases h
    obtain ⟨between, htrail⟩ := List.getLast?_eq_some_iff.1 hlast
    obtain ⟨hdistinct, hunseen⟩ := fresh_trailFrom htrail
    have hderives : (d.name :: m.trail d).IsChain m.DerivesFrom := isChain_trailFrom hd
    rw [htrail] at hderives ⊢
    refine ⟨between, rfl, ⟨List.nodup_cons.2 ⟨fun hmem => ?_, hdistinct⟩, hderives⟩⟩
    simpa using hunseen _ hmem

/-- A cycle from the name of a type is what is reported for it. -/
lemma Cycle.cycle?_eq {between} (hd : m.find? d.name = some d) (h : m.Cycle d.name between) :
    m.cycle? d = some (d.name :: between ++ [d.name]) := by
  obtain ⟨e, he, hname⟩ := exists_climb?_of_isChain hd h.derives
  cases hcycle : m.cycle? d with
  | none => exact absurd hname (cycle?_eq_none_iff.1 hcycle _ e he)
  | some path =>
    obtain ⟨between', rfl, h'⟩ := exists_cycle_of_cycle? hd hcycle
    have hbetween : between' = between := by
      apply eq_of_isChain h'.derives h.derives
      · exact (List.nodup_cons.1 h'.distinct).1
      · exact (List.nodup_cons.1 h.distinct).1
    rw [hbetween]

/-- A cycle begins at each of its names. -/
lemma Cycle.rotate {first between} (h : m.Cycle first between) (hname : name ∈ first :: between) :
    ∃ between', m.Cycle name between' := by
  rcases List.mem_cons.1 hname with rfl | hname
  · exact ⟨between, h⟩
  obtain ⟨before, behind, rfl⟩ := List.append_of_mem hname
  obtain ⟨hdistinct, hderives⟩ := h
  have hsplit : (first :: before ++ [name]).IsChain m.DerivesFrom ∧
      (name :: behind ++ [first]).IsChain m.DerivesFrom := by
    rw [← List.cons_append, List.append_assoc] at hderives
    exact List.isChain_split.1 hderives
  refine ⟨behind ++ first :: before, ?_, ?_⟩
  · have hperm :
        (name :: (behind ++ first :: before)).Perm (first :: (before ++ name :: behind)) := by
      rw [← List.cons_append, ← List.cons_append]
      exact List.perm_append_comm
    exact hperm.nodup_iff.2 hdistinct
  · have hjoined := List.isChain_split.2 ⟨hsplit.2, hsplit.1⟩
    rwa [List.cons_append, List.append_assoc]

lemma onCycle_iff (hd : m.find? d.name = some d) : m.OnCycle d.name ↔ m.cycle? d ≠ none := by
  constructor
  · rintro ⟨first, between, h, hname⟩
    obtain ⟨between', h'⟩ := h.rotate hname
    rw [h'.cycle?_eq hd]
    exact Option.some_ne_none _
  · intro h
    obtain ⟨path, hpath⟩ := Option.ne_none_iff_exists'.1 h
    obtain ⟨between, -, h⟩ := exists_cycle_of_cycle? hd hpath
    exact ⟨d.name, between, h, List.mem_cons_self⟩

end Module

namespace WellFormed

variable {m : Module} {d : TypeDef} {e : Error} {path : List String}

/-- The error reports a cycle of inheritance. -/
def Error.IsCircular : Error → Prop
  | .circular _ => True
  | _ => False

lemma Misapplied.not_isCircular {ref} (h : Misapplied m ref e) : ¬e.IsCircular := by
  obtain ⟨d, args, context, -, -, -, rfl⟩ := h
  exact id

lemma not_isCircular_of_checkNames {seen ds} (h : checkNames m seen ds = .error e) :
    ¬e.IsCircular := by
  rcases checkNames_eq_error h with ⟨rfl, -⟩ | ⟨name, rfl, -⟩ | ⟨d, -, owner, rfl, -⟩ <;> exact id

lemma not_isCircular_of_checkEnum (h : checkEnum d = .error e) : ¬e.IsCircular := by
  rw [checkEnum] at h
  split at h
  case isTrue => cases h; exact id
  split at h
  case isTrue => cases h; exact id
  case isFalse => rcases checkMembers_eq_error h with ⟨rfl, -⟩ | ⟨name, rfl, -⟩ <;> exact id

lemma not_isCircular_of_checkBase {owner base} (h : checkBase m owner base = .error e) :
    ¬e.IsCircular := by
  rcases bind_eq_error.1 h with h | ⟨_, _, h⟩
  · exact (checkReference_eq_error h).not_isCircular
  split at h
  case isTrue => cases h; exact id
  split at h
  case isTrue => cases h; exact id
  case isFalse => cases h

lemma not_isCircular_of_checkProperties {owner seen ps}
    (h : checkProperties m owner seen ps = .error e) : ¬e.IsCircular := by
  rcases checkProperties_eq_error h with ⟨rfl, -⟩ | ⟨name, rfl, -⟩ | ⟨p, -, hmisapplied⟩
  · exact id
  · exact id
  · exact hmisapplied.not_isCircular

lemma not_isCircular_of_checkType (h : checkType m d = .error e) : ¬e.IsCircular := by
  rw [checkType] at h
  split at h
  case isTrue => cases h; exact id
  rcases bind_eq_error.1 h with h | ⟨_, _, h⟩
  · obtain ⟨name, rfl, -⟩ := checkParams_eq_error h
    exact id
  cases hbase : d.base with
  | none =>
    rw [hbase] at h
    exact not_isCircular_of_checkProperties h
  | some base =>
    rw [hbase] at h
    rcases bind_eq_error.1 h with h | ⟨_, _, h⟩
    · exact not_isCircular_of_checkBase h
    · exact not_isCircular_of_checkProperties h

lemma not_isCircular_of_checkDefinitions {ds} (h : checkDefinitions m ds = .error e) :
    ¬e.IsCircular := by
  induction ds with
  | nil => cases h
  | cons d rest ih =>
    rw [checkDefinitions] at h
    split at h
    case isTrue =>
      rcases bind_eq_error.1 h with h | ⟨_, _, h⟩
      · exact not_isCircular_of_checkEnum h
      · exact ih h
    case isFalse =>
      rcases bind_eq_error.1 h with h | ⟨_, _, h⟩
      · exact not_isCircular_of_checkType h
      · exact ih h

/-- A cycle is reported when inheritance alone is not in order. -/
lemma check_eq_circular :
    m.check = .error (.circular path) ↔
      checkNames m [] m.types = .ok () ∧ checkDefinitions m m.types = .ok () ∧
        checkInheritance m m.types = .error (.circular path) := by
  rw [Module.check, bind_eq_error]
  constructor
  · rintro (h | ⟨_, hnames, h⟩)
    · exact absurd trivial (not_isCircular_of_checkNames h)
    rcases bind_eq_error.1 h with h | ⟨_, hdefinitions, h⟩
    · exact absurd trivial (not_isCircular_of_checkDefinitions h)
    · exact ⟨hnames, hdefinitions, h⟩
  · rintro ⟨hnames, hdefinitions, h⟩
    exact .inr ⟨(), hnames, bind_eq_error.2 (.inr ⟨(), hdefinitions, h⟩)⟩

/-- The check reports a path exactly when names and definitions are in order and the path goes along
a cycle, from the first type that lies on any cycle and back to it. It is written with arrows
between the names. -/
theorem check_eq_circular_iff (m : Module) (path : List String) :
    m.check = .error (.circular path) ↔
      checkNames m [] m.types = .ok () ∧ checkDefinitions m m.types = .ok () ∧
        ∃ before d behind between,
          m.types = before ++ d :: behind ∧ (∀ e ∈ before, ¬m.OnCycle e.name) ∧
          path = d.name :: between ++ [d.name] ∧ m.Cycle d.name between ∧
          (Error.circular path).message = "circular inheritance detected: " ++
            String.intercalate " -> " (d.name :: between ++ [d.name]) := by
  rw [check_eq_circular]
  refine and_congr_right fun hnames => and_congr_right fun _ => ?_
  have distinct : m.names.Nodup := fresh_nil_left.1 (checkNames_eq_ok.1 hnames).1
  rw [checkInheritance_eq_error]
  constructor
  · rintro ⟨before, d, behind, path, htypes, hbefore, hpath, heq⟩
    cases heq
    have hfound {e} (he : e ∈ m.types) : m.find? e.name = some e := Module.find?_of_mem distinct he
    rw [htypes] at hfound
    obtain ⟨between, rfl, hcycle⟩ :=
      Module.exists_cycle_of_cycle? (hfound List.mem_append_cons_self) hpath
    refine ⟨before, d, behind, between, htypes, fun e he hon => ?_, rfl, hcycle, rfl⟩
    exact (Module.onCycle_iff (hfound (List.mem_append_left _ he))).1 hon (hbefore e he)
  · rintro ⟨before, d, behind, between, htypes, hbefore, rfl, hcycle, -⟩
    have hfound {e} (he : e ∈ m.types) : m.find? e.name = some e := Module.find?_of_mem distinct he
    rw [htypes] at hfound
    refine ⟨before, d, behind, _, htypes, fun e he => ?_, ?_, rfl⟩
    · by_contra hsome
      exact hbefore e he ((Module.onCycle_iff (hfound (List.mem_append_left _ he))).2 hsome)
    · exact hcycle.cycle?_eq (hfound List.mem_append_cons_self)

-- The first type leads to the cycle and does not lie on it.
example :
    Module.check
      { name := "Kin"
        types := [
          { name := "Guest", kind := .classType, base := some (.named "Host") },
          { name := "Host", kind := .classType, base := some (.named "Landlord") },
          { name := "Landlord", kind := .classType, base := some (.named "Host") }] } =
      .error (.circular ["Host", "Landlord", "Host"]) := by
  decide +kernel

end WellFormed

end Typings
