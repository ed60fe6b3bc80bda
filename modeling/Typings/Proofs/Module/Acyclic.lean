import Mathlib.Order.Nat
import Mathlib.Tactic.Lemma
import Typings.Module.Inheritance

/-!
# Inheritance without cycles

Following bases by name from a type gives a walk of definitions. The walk never comes back to a name
exactly when no type of the module lies on a cycle. A walk may run into a loop that its first type
is no part of; the types of the loop are then on a cycle themselves, and are types of the module.

The trail of a type is what the module records of its walk. The main statement is that no trail
comes back to where it began exactly when inheritance is acyclic.
-/

namespace Typings.Module

variable {m : Module}

/-- The definition that following the given number of bases by name leads to. -/
def climb? (m : Module) : Nat → TypeDef → Option TypeDef
  | 0, d => some d
  | n + 1, d => (m.baseDefinition? d).bind (m.climb? n)

/-- Following bases from a type of the module never comes back to a name already met. -/
def Acyclic (m : Module) : Prop :=
  ∀ d ∈ m.types, ∀ i j a b, i < j → m.climb? i d = some a → m.climb? j d = some b → a.name ≠ b.name

/-- A climb splits into its first part and the rest. -/
lemma climb?_add (i j : Nat) (d : TypeDef) :
    m.climb? (i + j) d = (m.climb? i d).bind (m.climb? j) := by
  induction i generalizing d with
  | zero => simp [climb?]
  | succ i ih =>
    rw [Nat.succ_add, climb?, climb?, Option.bind_assoc]
    congr 1
    funext b
    exact ih b

/-- What a climb leads to after one more base. -/
lemma climb?_succ_of {n d b a} (hb : m.baseDefinition? d = some b) (ha : m.climb? n b = some a) :
    m.climb? (n + 1) d = some a := by
  simp [climb?, hb, ha]

/-- The definition of a base is the one that its own name finds. -/
lemma find?_baseDefinition? {d b} (h : m.baseDefinition? d = some b) :
    m.find? b.name = some b := by
  obtain ⟨base, _, hb⟩ := Option.bind_eq_some_iff.1 h
  rw [name_of_find? hb]
  exact hb

/-- A climb of at least one base leads to a definition that its own name finds. -/
lemma find?_climb? {n d a} (h : m.climb? (n + 1) d = some a) : m.find? a.name = some a := by
  rw [climb?_add n 1] at h
  obtain ⟨e, _, he⟩ := Option.bind_eq_some_iff.1 h
  obtain ⟨b, hb, hba⟩ := Option.bind_eq_some_iff.1 he
  cases hba
  exact find?_baseDefinition? hb

/-- A climb from a type of the module stays in the module. -/
lemma mem_of_climb? {n d a} (hd : d ∈ m.types) (h : m.climb? n d = some a) : a ∈ m.types := by
  cases n with
  | zero => cases h; exact hd
  | succ n => exact mem_of_find? (find?_climb? h)

/-- Inheritance is acyclic when no type comes back to its own name. -/
lemma acyclic_iff :
    m.Acyclic ↔ ∀ d ∈ m.types, ∀ n b, m.climb? (n + 1) d = some b → b.name ≠ d.name := by
  constructor
  · intro h d hd n b hb
    exact (h d hd 0 (n + 1) d b n.succ_pos rfl hb).symm
  · intro h d hd i j a b hij ha hb
    obtain ⟨k, rfl⟩ := Nat.exists_eq_add_of_lt hij
    rw [Nat.add_assoc, climb?_add, ha] at hb
    exact (h a (mem_of_climb? hd ha) k b hb).symm

/-- The trail holds names that the climb leads to. -/
lemma exists_climb?_of_mem_trailFrom {unseen d name} (h : name ∈ m.trailFrom unseen d) :
    ∃ n b, m.climb? (n + 1) d = some b ∧ b.name = name := by
  induction unseen, d using trailFrom.induct m with
  | case1 unseen d hb =>
    rw [trailFrom, hb] at h
    cases h
  | case2 unseen d b hb hmem ih =>
    rw [trailFrom, hb] at h
    simp only [hmem, if_true] at h
    rcases List.mem_cons.1 h with rfl | h
    · exact ⟨0, b, climb?_succ_of hb rfl, rfl⟩
    · obtain ⟨n, a, ha, hname⟩ := ih (by simpa using h)
      exact ⟨n + 1, a, climb?_succ_of hb ha, hname⟩
  | case3 unseen d b hb hmem =>
    rw [trailFrom, hb] at h
    simp only [hmem, if_false, List.mem_singleton] at h
    exact ⟨0, b, climb?_succ_of hb rfl, h.symm⟩

/-- A trail ends at the first seen name that the climb comes to, when all names before it are
different and unseen. -/
lemma getLast?_trailFrom {unseen n d b} (hb : m.climb? (n + 1) d = some b) (seen : b.name ∉ unseen)
    (fresh : ∀ i < n, ∀ a, m.climb? (i + 1) d = some a → a.name ∈ unseen)
    (distinct : ∀ i j a e, i < j → j < n → m.climb? (i + 1) d = some a →
      m.climb? (j + 1) d = some e → e.name ≠ a.name) :
    (m.trailFrom unseen d).getLast? = some b.name := by
  induction n generalizing unseen d with
  | zero =>
    obtain ⟨e, he, heb⟩ := Option.bind_eq_some_iff.1 hb
    cases heb
    rw [trailFrom, he]
    simp [seen]
  | succ n ih =>
    obtain ⟨e, he, heb⟩ := Option.bind_eq_some_iff.1 hb
    have hmem : e.name ∈ unseen := fresh 0 n.succ_pos e (climb?_succ_of he rfl)
    have hlast : (m.trailFrom (unseen.filter (· != e.name)) e).getLast? = some b.name := by
      apply ih heb
      · exact fun h => seen (List.mem_filter.1 h).1
      · intro i hi a ha
        have hup := climb?_succ_of he ha
        have hne := distinct 0 (i + 1) e a i.succ_pos (Nat.succ_lt_succ hi)
          (climb?_succ_of he rfl) hup
        exact List.mem_filter.2 ⟨fresh (i + 1) (Nat.succ_lt_succ hi) a hup, by simpa using hne⟩
      · intro i j a c hij hj ha hc
        exact distinct (i + 1) (j + 1) a c (Nat.succ_lt_succ hij) (Nat.succ_lt_succ hj)
          (climb?_succ_of he ha) (climb?_succ_of he hc)
    rw [trailFrom, he]
    simp only [hmem, if_true]
    rw [List.getLast?_cons, hlast]
    rfl

/-- A climb that meets one name twice can leave out what lies between. -/
lemma climb?_shortcut {d i j a e} (hname : e.name = a.name) (ha : m.climb? (i + 1) d = some a)
    (he : m.climb? (j + 1) d = some e) (k : Nat) :
    m.climb? (j + 1 + k) d = m.climb? (i + 1 + k) d := by
  have heq : some e = some a := by
    rw [← find?_climb? he, ← find?_climb? ha, hname]
  rw [climb?_add (j + 1), climb?_add (i + 1), ha, he, heq]

/-- A type whose climb comes back to its name is reported as lying on a cycle. -/
lemma getLast?_trail {d n b} (hb : m.climb? (n + 1) d = some b) (hname : b.name = d.name) :
    (m.trail d).getLast? = some d.name := by
  classical
  -- The first return is what the trail sees: between repeated names the climb could be shortened.
  have hex : ∃ n b, m.climb? (n + 1) d = some b ∧ b.name = d.name := ⟨n, b, hb, hname⟩
  obtain ⟨e, he, hen⟩ := Nat.find_spec hex
  have first : ∀ i < Nat.find hex, ∀ a, m.climb? (i + 1) d = some a → a.name ≠ d.name :=
    fun i hi a ha hn => Nat.find_min hex hi ⟨a, ha, hn⟩
  rw [← hen, trail, ← hen]
  apply getLast?_trailFrom he
  · simp
  · intro i hi a ha
    have hmem : a.name ∈ m.names := List.mem_map_of_mem (mem_of_find? (find?_climb? ha))
    exact List.mem_filter.2 ⟨hmem, by simpa [hen] using first i hi a ha⟩
  · intro i j a c hij hj ha hc hca
    obtain ⟨k, hk⟩ := Nat.exists_eq_add_of_lt hj
    have hshort := climb?_shortcut hca ha hc (k + 1)
    have hend : j + 1 + (k + 1) = Nat.find hex + 1 := by omega
    rw [hend, he] at hshort
    exact first (i + (k + 1)) (by omega) e (by rw [hshort]; congr 1; omega) hen

/-- A type lies on no reported cycle exactly when no climb comes back to its name. -/
lemma cycle?_eq_none_iff {d} :
    m.cycle? d = none ↔ ∀ n b, m.climb? (n + 1) d = some b → b.name ≠ d.name := by
  have hnone : m.cycle? d = none ↔ (m.trail d).getLast? ≠ some d.name := by
    simp [cycle?]
  rw [hnone]
  constructor
  · intro h n b hb hname
    exact h (getLast?_trail hb hname)
  · intro h hlast
    obtain ⟨n, b, hb, hname⟩ := exists_climb?_of_mem_trailFrom (List.mem_of_getLast? hlast)
    exact h n b hb hname

/-- Inheritance is acyclic exactly when no type of the module is reported to lie on a cycle. -/
lemma acyclic_iff_cycle? : m.Acyclic ↔ ∀ d ∈ m.types, m.cycle? d = none := by
  simp only [acyclic_iff, cycle?_eq_none_iff]

end Typings.Module
