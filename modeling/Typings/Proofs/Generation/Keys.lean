import Mathlib.Data.List.Nodup
import Mathlib.Tactic.Lemma
import Typings.Generation.Depth
import Typings.Generation.Registrations

/-!
# Collections with each key once

Registrations hold each key once, and so does the table of mappings. A key that is there already
keeps its place, so the order in which keys are added shows in nothing but the order of the keys.
-/

namespace Typings.Generation

section Insertion

variable {α : Type} [BEq α] [LawfulBEq α] {a b : α} {as bs : List α}

/-- What is added is there besides what was there. -/
@[simp] lemma mem_insertNew : a ∈ insertNew b as ↔ a ∈ as ∨ a = b := by
  rw [insertNew]
  split
  case isTrue h =>
    have hb : b ∈ as := by simpa using h
    constructor
    · exact .inl
    · rintro (ha | rfl)
      · exact ha
      · exact hb
  case isFalse => rw [List.mem_append, List.mem_singleton]

/-- Adding keeps each key once. -/
lemma nodup_insertNew (h : as.Nodup) : (insertNew a as).Nodup := by
  rw [insertNew]
  split
  case isTrue => exact h
  case isFalse ha =>
    have ha : a ∉ as := by simpa using ha
    exact h.append (List.nodup_singleton a) (List.disjoint_singleton.2 ha)

/-- What is added one after the other is there besides what was there. -/
@[simp] lemma mem_insertAll : a ∈ insertAll bs as ↔ a ∈ as ∨ a ∈ bs := by
  induction bs generalizing as with
  | nil => simp [insertAll]
  | cons b bs ih =>
    have step : insertAll (b :: bs) as = insertAll bs (insertNew b as) := rfl
    rw [step, ih, mem_insertNew, List.mem_cons, or_assoc]

/-- Adding one after the other keeps each key once. -/
lemma nodup_insertAll (h : as.Nodup) : (insertAll bs as).Nodup := by
  induction bs generalizing as with
  | nil => exact h
  | cons b bs ih => exact ih (nodup_insertNew h)

/-- What is added comes behind what was there: the keys that are new, each at its first occurrence.
-/
lemma insertAll_eq_append (bs as : List α) :
    insertAll bs as = as ++ (bs.filter fun b => !as.contains b).eraseDups := by
  induction bs generalizing as with
  | nil => simp [insertAll]
  | cons b bs ih =>
    have step : insertAll (b :: bs) as = insertAll bs (insertNew b as) := rfl
    rw [step, ih, insertNew]
    by_cases hb : as.contains b = true
    · rw [if_pos hb, List.filter_cons_of_neg (by simpa using hb)]
    · rw [if_neg hb, List.filter_cons_of_pos (by simpa using hb), List.eraseDups_cons,
        List.filter_filter, List.append_assoc, List.singleton_append]
      -- What is new behind the key is new to what was there and differs from the key.
      congr 3
      refine List.filter_congr fun x _ => ?_
      rw [List.contains_append, List.contains_cons, List.contains_nil, Bool.or_false, Bool.not_or,
        Bool.and_comm]

/-- What is added to nothing stands at its first occurrence. -/
lemma insertAll_nil (bs : List α) : insertAll bs [] = bs.eraseDups := by
  have hall : (bs.filter fun b => !([] : List α).contains b) = bs :=
    List.filter_eq_self.2 fun _ _ => rfl
  rw [insertAll_eq_append, hall, List.nil_append]

/-- Adding the same keys in another order leaves the same keys in another order. -/
lemma insertAll_perm {bs' : List α} (h : ∀ b, b ∈ bs ↔ b ∈ bs') :
    (insertAll bs as).Perm (insertAll bs' as) := by
  rw [insertAll_eq_append, insertAll_eq_append, ← insertAll_nil, ← insertAll_nil]
  refine List.Perm.append_left as ((List.perm_ext_iff_of_nodup (nodup_insertAll List.nodup_nil)
    (nodup_insertAll List.nodup_nil)).2 fun b => ?_)
  rw [mem_insertAll, mem_insertAll, List.mem_filter, List.mem_filter, h b]

/-- Adding what is there changes nothing. -/
lemma insertAll_of_subset (h : ∀ b ∈ bs, b ∈ as) : insertAll bs as = as := by
  have hnew : (bs.filter fun b => !as.contains b) = [] := by
    rw [List.filter_eq_nil_iff]
    intro b hb
    simpa using h b hb
  rw [insertAll_eq_append, hnew, List.eraseDups_nil, List.append_nil]

end Insertion

/-- Types that are registered one after the other change nothing but the registered types. -/
lemma Registrations.foldl_addType (r : Registrations) (refs : List TypeRef) :
    refs.foldl Registrations.addType r = { r with types := insertAll refs r.types } := by
  induction refs generalizing r with
  | nil => rfl
  | cons ref refs ih => exact ih (r.addType ref)

/-- An import changes nothing but the imports. -/
lemma Registrations.addImport_eq (r : Registrations) (type : TypeRef) (path : String) :
    r.addImport type path = { r with imports := (r.addImport type path).imports } := by
  rw [addImport]
  split <;> rfl

/-- The first import of a type stands. -/
lemma Registrations.imports_addImport (r : Registrations) (type : TypeRef) (path : String) :
    (r.addImport type path).imports =
      if r.imports.any (·.1 == type) then r.imports else r.imports ++ [(type, path)] := by
  rw [addImport, isImported]
  split <;> rfl

namespace MappingTable

/-- The mapped sources, in the order of the table. -/
def sources (table : MappingTable) : List TypeRef :=
  table.entries.map Mapping.source

/-- The source of an entry is added to the sources. -/
lemma sources_insert (table : MappingTable) (entry : Mapping) :
    (table.insert entry).sources = insertNew entry.source table.sources := by
  obtain ⟨entries⟩ := table
  simp only [sources, insert]
  induction entries with
  | nil => rfl
  | cons e rest ih =>
    rw [insertEntry]
    by_cases h : e.source = entry.source
    · simp [h, insertNew]
    · rw [if_neg h, List.map_cons, ih]
      simp only [insertNew, List.map_cons, List.contains_cons]
      rw [beq_false_of_ne (Ne.symm h), Bool.false_or]
      split <;> rfl

/-- The height of a table is that of its sources. -/
lemma height_eq (table : MappingTable) :
    table.height = table.sources.foldl (fun height s => max height s.height) 0 := by
  rw [height, sources, List.foldl_map]

/-- The references inside a table are those inside its sources. -/
lemma inside_eq (table : MappingTable) : table.inside = table.sources.flatMap TypeRef.inside := by
  rw [inside, sources, List.flatMap_map]

variable {t t' : MappingTable}

/-- Sources in another order have the same height. -/
lemma height_congr (p : t.sources.Perm t'.sources) : t.height = t'.height := by
  rw [height_eq, height_eq]
  refine p.foldl_eq' (fun x _ y _ height => ?_) 0
  exact Nat.max_right_comm height x.height y.height

/-- Sources in another order have the same references inside them. -/
lemma inside_perm (p : t.sources.Perm t'.sources) : t.inside.Perm t'.inside := by
  rw [inside_eq, inside_eq]
  exact p.flatMap_right _

/-- The built-in types are mapped once each. -/
lemma nodup_sources_builtin : builtin.sources.Nodup := by
  decide +kernel

end MappingTable

end Typings.Generation
