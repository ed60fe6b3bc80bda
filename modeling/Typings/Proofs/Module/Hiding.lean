import Mathlib.Data.List.Nodup
import Mathlib.Tactic.Lemma
import Typings.Module.Properties
import Typings.Proofs.WellFormed.Rules

/-!
# Hiding by name

The first property of each name is kept, unless the name is hidden. What is hidden counts by
membership only, so hiding some names at first or in the end is the same.
-/

namespace Typings

open WellFormed

/-- The property with a substitution made in its type. -/
def Property.substitute (p : Property) (σ : Bindings) : Property :=
  { p with type := p.type.substitute σ }

/-- A substitution leaves the name of a property alone. -/
@[simp] lemma Property.name_substitute (p : Property) (σ : Bindings) :
    (p.substitute σ).name = p.name := rfl

variable {hidden hidden' : List String} {ps qs : List Property}

/-- Hiding the same names in another order keeps the same properties. -/
lemma firstOfName_congr (h : ∀ n, n ∈ hidden ↔ n ∈ hidden') :
    firstOfName hidden ps = firstOfName hidden' ps := by
  induction ps generalizing hidden hidden' with
  | nil => rfl
  | cons p rest ih =>
    rw [firstOfName, firstOfName]
    have hcons (n : String) : n ∈ p.name :: hidden ↔ n ∈ p.name :: hidden' := by
      rw [List.mem_cons, List.mem_cons, h]
    simp only [h p.name, ih h, ih hcons]

/-- Hiding further names is dropping what has them in the end. -/
lemma firstOfName_append_left :
    firstOfName (hidden ++ hidden') ps =
      (firstOfName hidden' ps).filter fun p => p.name ∉ hidden := by
  -- The names met so far join those hidden at first, so these vary in the induction.
  induction ps generalizing hidden' with
  | nil => rfl
  | cons p rest ih =>
    rw [firstOfName, firstOfName]
    by_cases h' : p.name ∈ hidden'
    · rw [if_pos (List.mem_append_right _ h'), if_pos h', ih]
    rw [if_neg h', List.filter_cons, ← ih]
    by_cases h : p.name ∈ hidden
    · rw [if_pos (List.mem_append_left _ h), if_neg (by simpa using h)]
      refine firstOfName_congr fun n => ?_
      -- The name is among those hidden already.
      constructor
      · rw [List.mem_append, List.mem_append]
        exact Or.imp_right (List.mem_cons_of_mem _)
      · rw [List.mem_append, List.mem_cons]
        rintro (hn | rfl | hn)
        · exact List.mem_append_left _ hn
        · exact List.mem_append_left _ h
        · exact List.mem_append_right _ hn
    · rw [if_neg (by simp [h, h']), if_pos (by simpa using h)]
      exact congrArg (p :: ·) (firstOfName_congr fun n => by simp [or_left_comm])

/-- Hiding names is dropping what has them in the end. -/
lemma firstOfName_eq_filter :
    firstOfName hidden ps = (firstOfName [] ps).filter fun p => p.name ∉ hidden := by
  rw [← firstOfName_append_left, List.append_nil]

/-- What comes first hides its names in what comes behind. -/
lemma firstOfName_append_right :
    firstOfName hidden (ps ++ qs) =
      firstOfName hidden ps ++ firstOfName (ps.map (·.name) ++ hidden) qs := by
  induction ps generalizing hidden with
  | nil => rfl
  | cons p rest ih =>
    rw [List.cons_append, firstOfName, firstOfName]
    by_cases h : p.name ∈ hidden
    · rw [if_pos h, if_pos h, ih]
      refine congrArg (_ ++ ·) (firstOfName_congr fun n => ?_)
      rw [List.map_cons, List.cons_append, List.mem_cons]
      constructor
      · exact .inr
      · rintro (rfl | hn)
        · exact List.mem_append_right _ h
        · exact hn
    · rw [if_neg h, if_neg h, ih, List.cons_append]
      exact congrArg (fun qs => p :: (_ ++ qs)) (firstOfName_congr fun n => by simp [or_left_comm])

/-- Properties whose names are fresh are all kept. -/
lemma firstOfName_of_fresh (h : Fresh hidden (ps.map (·.name))) : firstOfName hidden ps = ps := by
  induction ps generalizing hidden with
  | nil => rfl
  | cons p rest ih =>
    rw [List.map_cons, fresh_cons] at h
    rw [firstOfName, if_neg h.1, ih h.2]

/-- The names of the properties that are kept are fresh. -/
lemma fresh_firstOfName : Fresh hidden ((firstOfName hidden ps).map (·.name)) := by
  induction ps generalizing hidden with
  | nil => exact fresh_nil
  | cons p rest ih =>
    rw [firstOfName]
    split
    case isTrue => exact ih
    case isFalse h => exact fresh_cons.2 ⟨h, ih⟩

/-- The property that is kept of a name is the first. -/
lemma find?_firstOfName {n : String} (h : n ∉ hidden) :
    (firstOfName hidden ps).find? (·.name == n) = ps.find? (·.name == n) := by
  induction ps generalizing hidden with
  | nil => rfl
  | cons p rest ih =>
    rw [firstOfName]
    by_cases hp : p.name = n
    · rw [if_neg (hp ▸ h), List.find?_cons_of_pos (by simpa using hp),
        List.find?_cons_of_pos (by simpa using hp)]
    · have hne : n ∉ p.name :: hidden := by
        rw [List.mem_cons]
        rintro (rfl | hn)
        · exact hp rfl
        · exact h hn
      rw [List.find?_cons_of_neg (by simpa using hp)]
      split
      case isTrue => exact ih h
      case isFalse => rw [List.find?_cons_of_neg (by simpa using hp), ih hne]

/-- What is kept are some of the properties, in their order. -/
lemma firstOfName_sublist : (firstOfName hidden ps).Sublist ps := by
  induction ps generalizing hidden with
  | nil => exact .refl _
  | cons q rest ih =>
    rw [firstOfName]
    split
    case isTrue => exact ih.cons q
    case isFalse => exact ih.cons_cons q

/-- What is kept are some of the properties. -/
lemma mem_of_mem_firstOfName {p} (h : p ∈ firstOfName hidden ps) : p ∈ ps :=
  firstOfName_sublist.subset h

/-- A substitution in all types keeps the same properties. -/
lemma firstOfName_map_substitute {σ : Bindings} :
    firstOfName hidden (ps.map (·.substitute σ)) =
      (firstOfName hidden ps).map (·.substitute σ) := by
  induction ps generalizing hidden with
  | nil => rfl
  | cons p rest ih =>
    rw [List.map_cons, firstOfName, firstOfName, Property.name_substitute, ih, ih]
    split <;> rfl

namespace Module

variable {m : Module} {d : TypeDef}

/-- The properties of a type are the first of each name on the way from it to its ancestors. -/
lemma properties_eq_firstOfName (h : (d.properties.map (·.name)).Nodup) :
    m.properties d false =
      firstOfName [] (d.properties ++ (m.ancestors d).flatMap Link.properties) := by
  rw [properties, if_neg Bool.false_ne_true, inheritedProperties, firstOfName_append_right,
    firstOfName_of_fresh (fresh_nil_left.2 h), List.append_nil]

/-- The names of the properties of a type are different. -/
lemma nodup_properties (h : (d.properties.map (·.name)).Nodup) :
    ((m.properties d false).map (·.name)).Nodup := by
  rw [properties_eq_firstOfName h]
  exact fresh_nil_left.1 fresh_firstOfName

/-- A property of a type is the one that the nearest type with a property of its name declares. -/
lemma find?_properties (h : (d.properties.map (·.name)).Nodup) (n : String) :
    (m.properties d false).find? (·.name == n) =
      (d.properties :: (m.ancestors d).map Link.properties).findSome? (·.find? (·.name == n)) := by
  rw [properties_eq_firstOfName h, find?_firstOfName List.not_mem_nil, ← List.find?_flatten,
    List.flatten_cons, List.flatMap_def]

end Module

end Typings
