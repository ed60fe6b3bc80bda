import Mathlib.Data.List.Basic
import Typings.Generation.Script
import Typings.Proofs.Text.Bytes

/-!
# Sorting by name

Properties are sorted by the names that they are written under. Sorting is stable, so it comes to
the same whether some of the properties are picked out before or after, and properties of one name
stay in their order.
-/

namespace Typings

section Sorting

variable {α : Type} {le : α → α → Bool}

/-- An element is sorted in between those that it does not stay before and those that it does. -/
lemma mergeSort_cons_eq (trans : ∀ a b c, le a b → le b c → le a c)
    (total : ∀ a b, le a b || le b a) (a : α) (as : List α) :
    (a :: as).mergeSort le =
      (as.mergeSort le).filter (fun b => !le a b) ++ a :: (as.mergeSort le).filter (le a) := by
  obtain ⟨before, behind, hcons, hrest, hbefore⟩ := List.mergeSort_cons trans total a as
  have hsorted := List.pairwise_mergeSort trans total (a :: as)
  rw [hcons] at hsorted
  have hbehind : ∀ b ∈ behind, le a b = true :=
    (List.pairwise_cons.1 (List.pairwise_append.1 hsorted).2.1).1
  rw [hcons, hrest, List.filter_append, List.filter_append, List.filter_eq_self.2 hbefore,
    List.filter_eq_self.2 hbehind, List.filter_eq_nil_iff.2, List.filter_eq_nil_iff.2,
    List.append_nil, List.nil_append]
  · intro b hb
    simpa using hbefore b hb
  · intro b hb
    simpa using hbehind b hb

/-- Sorting is stable, so picking out and sorting come to the same in either order. -/
lemma filter_mergeSort (trans : ∀ a b c, le a b → le b c → le a c)
    (total : ∀ a b, le a b || le b a) (p : α → Bool) (as : List α) :
    (as.mergeSort le).filter p = (as.filter p).mergeSort le := by
  induction as with
  | nil => simp
  | cons a as ih =>
    by_cases ha : p a
    · rw [mergeSort_cons_eq trans total, List.filter_append, List.filter_cons_of_pos ha,
        List.filter_comm p, List.filter_comm p, ih, List.filter_cons_of_pos ha,
        mergeSort_cons_eq trans total]
    · obtain ⟨before, behind, hcons, hrest, -⟩ := List.mergeSort_cons trans total a as
      rw [hcons, List.filter_append, List.filter_cons_of_neg ha, ← List.filter_append, ← hrest, ih,
        List.filter_cons_of_neg ha]

end Sorting

namespace Generation

lemma nameLe_trans (a b c : String × Property) (hab : nameLe a.1 b.1) (hbc : nameLe b.1 c.1) :
    nameLe a.1 c.1 := by
  simp only [nameLe, decide_eq_true_eq] at *
  exact String.le_trans hab hbc

lemma nameLe_total (a b : String × Property) : nameLe a.1 b.1 || nameLe b.1 a.1 := by
  simp only [nameLe, Bool.or_eq_true, decide_eq_true_eq]
  exact String.le_total a.1 b.1

/-- Properties under their names, sorted by the bytes of these. Properties of one name stay in their
order. -/
structure SortedByName (sorted named : List (String × Property)) : Prop where
  perm : sorted.Perm named
  ascending : sorted.Pairwise fun a b => Text.bytes a.1 ≤ Text.bytes b.1
  stable : ∀ name, sorted.filter (·.1 == name) = named.filter (·.1 == name)

/-- Sorted properties are sorted by name. -/
lemma sortedByName_mergeSort (named : List (String × Property)) :
    SortedByName (named.mergeSort fun a b => nameLe a.1 b.1) named where
  perm := List.mergeSort_perm named _
  ascending := by
    refine (List.pairwise_mergeSort nameLe_trans nameLe_total named).imp fun {a b} hab => ?_
    rw [nameLe, decide_eq_true_eq] at hab
    exact Text.bytes_le_iff.2 hab
  stable name := by
    rw [filter_mergeSort nameLe_trans nameLe_total]
    -- What goes by one name is sorted already.
    refine List.mergeSort_of_pairwise (List.pairwise_of_forall_mem_list fun a ha b hb => ?_)
    have han : a.1 = name := by simpa using (List.mem_filter.1 ha).2
    have hbn : b.1 = name := by simpa using (List.mem_filter.1 hb).2
    rw [han, hbn]
    exact decide_eq_true (String.le_refl name)

end Generation

end Typings
