import Mathlib.Data.Nat.PSub
import Typings.Proofs.Synthetic.Reading
import Typings.Proofs.WellFormed.Rules

/-!
# Synthetic modules are well formed

Whatever the size, a class of a synthetic module refers to enumerations of the module, to classes
before it and to built-in types, and derives from the class before it or from none. So all that it
mentions is defined, bases lead to lesser and lesser indices, and the module passes the check.

The indices are found by remainders and predecessors. The arithmetic is repeated here with
remainders by zero and predecessors of zero missing, and none of them is ever asked for.
-/

namespace Typings.Synthetic

open Text

section Arithmetic

/-- The remainder of a division. There is none by zero. -/
def remainder? (a b : Nat) : Option Nat :=
  if b = 0 then none else some (a % b)

/-- The type expression of property `p` of class `c`, if all numbers on the way to it exist. -/
def Shape.propertyExpression? (s : Shape) (c p : Nat) : Option String := do
  let turn ← remainder? p 4
  if turn = 0 ∧ 0 < s.enums then return enumName (← remainder? (c + p) s.enums)
  else if turn = 1 ∧ 0 < c then return "List<" ++ className (← c.ppred) ++ ">"
  else if turn = 2 ∧ 0 < c then return className (← remainder? (c + p) c)
  else return scalarExpression (← remainder? (c + p) 6)

/-- The class that class `c` derives from, if all numbers on the way to it exist. -/
def Shape.base? (s : Shape) (c : Nat) : Option (Option Nat) := do
  if 1 < s.chainLength then
    let place ← remainder? c s.chainLength
    if place ≠ 0 then return some (← c.ppred) else return none
  else return none

lemma remainder?_of_pos {a b : Nat} (h : 0 < b) : remainder? a b = some (a % b) :=
  if_neg (Nat.ne_of_gt h)

lemma ppred_of_pos {n : Nat} (h : 0 < n) : n.ppred = some (n - 1) := by
  apply Nat.ppred_eq_some.2
  exact Nat.succ_pred_eq_of_pos h

lemma scalarExpression_mod (n : Nat) : scalarExpression (n % 6) = scalarExpression n := by
  rw [scalarExpression, scalarExpression, Nat.mod_mod]

/-- No remainder by zero is asked for, and no predecessor of zero, on the way to a type expression.
-/
lemma propertyExpression?_eq (s : Shape) (c p : Nat) :
    s.propertyExpression? c p = some (s.propertyExpression c p) := by
  rw [Shape.propertyExpression?, Shape.propertyExpression, remainder?_of_pos (by decide : 0 < 4)]
  show (if _ then _ else _) = _
  split
  case isTrue h =>
    rw [remainder?_of_pos h.2]
    rfl
  split
  case isTrue h =>
    rw [ppred_of_pos h.2]
    rfl
  split
  case isTrue h =>
    rw [remainder?_of_pos h.2]
    rfl
  case isFalse =>
    rw [remainder?_of_pos (by decide : 0 < 6), ← scalarExpression_mod]
    rfl

/-- No remainder by zero is asked for, and no predecessor of zero, on the way to a base. -/
lemma base?_eq (s : Shape) (c : Nat) : s.base? c = some (s.baseIndex? c) := by
  rw [Shape.base?, Shape.baseIndex?]
  by_cases hlength : 1 < s.chainLength
  · rw [if_pos hlength, remainder?_of_pos (Nat.zero_lt_of_lt hlength)]
    show (if _ then _ else _) = _
    by_cases hplace : c % s.chainLength ≠ 0
    · have hc : 0 < c := Nat.pos_of_ne_zero fun hc => hplace (by rw [hc, Nat.zero_mod])
      rw [if_pos hplace, if_pos ⟨hlength, hplace⟩, ppred_of_pos hc]
      rfl
    · rw [if_neg hplace, if_neg fun h => hplace h.2]
      rfl
  · rw [if_neg hlength, if_neg fun h => hlength h.1]
    rfl

end Arithmetic

section Mentions

/-- The reference mentions a type by that name, bare or with arguments; collections are none. -/
def Mentions (ref : TypeRef) (name : String) : Prop :=
  (TypeRef.named name).Within ref ∨
    ∃ args, (TypeRef.generic name args).Within ref ∧ isCollectionName name = false

/-- The built-in types that properties are of. -/
def scalarTypes : List TypeRef :=
  [.builtin .int32, .builtin .string, .builtin .decimal, .nullable (.builtin .dateTime),
    .builtin .guid, .builtin .boolean]

/-- What class `c` may refer to. -/
inductive Shape.Referable (s : Shape) (c : Nat) : TypeRef → Prop where
  | enumeration {i} : i < s.enums → Referable s c (.named (enumName i))
  | listOf {i} : i < c → Referable s c (.generic "List" [.named (className i)])
  | classType {i} : i < c → Referable s c (.named (className i))
  | scalar {t} : t ∈ scalarTypes → Referable s c t

variable {s : Shape} {c : Nat} {ref : TypeRef} {name : String}

lemma readOrObject_of_ofExpression {expression t} (h : TypeRef.ofExpression [] expression = .ok t) :
    readOrObject expression = t := by
  rw [readOrObject, h]

/-- The type of a property is one that its class may refer to. -/
lemma referable_readOrObject (s : Shape) (c p : Nat) :
    s.Referable c (readOrObject (s.propertyExpression c p)) := by
  rcases propertyExpression_cases s c p with ⟨i, hi, h⟩ | ⟨i, hi, h⟩ | ⟨i, hi, h⟩ | h
  · rw [h, readOrObject_of_ofExpression (ofExpression_enumName i)]
    exact .enumeration hi
  · rw [h, readOrObject_of_ofExpression (ofExpression_listOf i)]
    exact .listOf hi
  · rw [h, readOrObject_of_ofExpression (ofExpression_className i)]
    exact .classType hi
  · have hscalars : ∀ e ∈ ["int", "string", "decimal", "DateTime?", "Guid", "bool"],
        readOrObject e ∈ scalarTypes := by
      decide +kernel
    exact .scalar (hscalars _ h)

/-- A class derives from the one before it or from none. -/
lemma baseIndex?_eq_some {b} (h : s.baseIndex? c = some b) : b < c := by
  rw [Shape.baseIndex?] at h
  split at h
  case isTrue hplace =>
    cases h
    have hc : 0 < c := Nat.pos_of_ne_zero fun hc => hplace.2 (by rw [hc, Nat.zero_mod])
    exact Nat.sub_lt hc Nat.one_pos
  case isFalse => cases h

/-- The references of a class are those that it may make. -/
lemma referable_of_mem_references (h : ref ∈ (s.classDefinition c).references) :
    s.Referable c ref := by
  rw [TypeDef.references, List.mem_append] at h
  rcases h with h | h
  · obtain ⟨b, hb, rfl⟩ := Option.map_eq_some_iff.1 (Option.mem_toList.1 h)
    exact .classType (baseIndex?_eq_some hb)
  · obtain ⟨p, hp, rfl⟩ := List.mem_map.1 h
    obtain ⟨i, -, rfl⟩ := List.mem_map.1 hp
    exact referable_readOrObject s c i

/-- No name of a definition stands inside a built-in type. -/
lemma not_within_scalar (h : ref ∈ scalarTypes) :
    ¬(TypeRef.named name).Within ref ∧ ∀ args, ¬(TypeRef.generic name args).Within ref := by
  simp only [scalarTypes, List.mem_cons, List.not_mem_nil, or_false] at h
  rcases h with rfl | rfl | rfl | rfl | rfl | rfl <;> simp [TypeRef.Within.nullable_iff]

/-- What is applied to arguments in the references of a class is the list. -/
lemma Shape.Referable.eq_list {args} (h : s.Referable c ref)
    (hwithin : (TypeRef.generic name args).Within ref) : name = "List" := by
  cases h with
  | enumeration => cases TypeRef.Within.named_iff.1 hwithin
  | classType => cases TypeRef.Within.named_iff.1 hwithin
  | listOf =>
    rcases TypeRef.Within.generic_iff.1 hwithin with heq | ⟨a, ha, hwithin⟩
    · cases heq
      rfl
    · obtain rfl := List.mem_singleton.1 ha
      cases TypeRef.Within.named_iff.1 hwithin
  | scalar ht => exact absurd hwithin ((not_within_scalar ht).2 args)

lemma enumName_mem_names {i} (h : i < s.enums) : enumName i ∈ s.toModule.names := by
  rw [names_toModule]
  exact List.mem_append_left _ (List.mem_map_of_mem (List.mem_range.2 h))

lemma className_mem_names {i} (h : i < s.classes) : className i ∈ s.toModule.names := by
  rw [names_toModule]
  exact List.mem_append_right _ (List.mem_map_of_mem (List.mem_range.2 h))

/-- What a class mentions is a type of the module. -/
lemma Shape.Referable.mem_names (h : s.Referable c ref) (hc : c < s.classes)
    (hmentions : Mentions ref name) : name ∈ s.toModule.names := by
  rcases hmentions with hwithin | ⟨args, hwithin, hname⟩
  · cases h with
    | enumeration hi =>
      cases TypeRef.Within.named_iff.1 hwithin
      exact enumName_mem_names hi
    | classType hi =>
      cases TypeRef.Within.named_iff.1 hwithin
      exact className_mem_names (hi.trans hc)
    | listOf hi =>
      rcases TypeRef.Within.generic_iff.1 hwithin with heq | ⟨a, ha, hwithin⟩
      · cases heq
      · obtain rfl := List.mem_singleton.1 ha
        cases TypeRef.Within.named_iff.1 hwithin
        exact className_mem_names (hi.trans hc)
    | scalar ht => exact absurd hwithin (not_within_scalar ht).1
  · rw [h.eq_list hwithin] at hname
    have hlist : isCollectionName "List" = true := by decide +kernel
    cases hlist.symm.trans hname

end Mentions

section Rules

variable {s : Shape} {d e : TypeDef}

lemma isBlank_append {word : String} (h : isBlank word = false) (rest : String) :
    isBlank (word ++ rest) = false := by
  rw [isBlank, String.toList_append, List.all_append, Bool.and_eq_false_iff]
  exact .inl h

/-- The definitions of a synthetic module are those of its enumerations and its classes. -/
lemma mem_types_toModule :
    d ∈ s.toModule.types ↔
      (∃ i < s.enums, enumDefinition i = d) ∨ ∃ c < s.classes, s.classDefinition c = d := by
  simp only [Shape.toModule, List.mem_append, List.mem_map, List.mem_range]

lemma classDefinition_mem_types {c} (hc : c < s.classes) : s.classDefinition c ∈ s.toModule.types :=
  mem_types_toModule.2 (.inr ⟨c, hc, rfl⟩)

/-- A base leads from a class to one with a lesser index. -/
lemma baseDefinition?_classDefinition {c} (hc : c < s.classes)
    (h : s.toModule.baseDefinition? (s.classDefinition c) = some e) :
    ∃ b < c, e = s.classDefinition b := by
  obtain ⟨base, hbase, hfind⟩ := Option.bind_eq_some_iff.1 h
  obtain ⟨b, hb, rfl⟩ := Option.map_eq_some_iff.1 hbase
  have hlt := baseIndex?_eq_some hb
  obtain ⟨he, hname⟩ := (Module.find?_eq_some_iff (nodup_names s)).1 hfind
  refine ⟨b, hlt, ?_⟩
  apply Module.eq_of_name_eq (nodup_names s) he
  · exact classDefinition_mem_types (hlt.trans hc)
  · exact hname

/-- A climb leads from a class to ones with lesser indices. -/
lemma climb?_classDefinition {c n} (hc : c < s.classes)
    (h : s.toModule.climb? (n + 1) (s.classDefinition c) = some e) :
    ∃ b < c, e = s.classDefinition b := by
  induction n generalizing c with
  | zero =>
    obtain ⟨e', he', heq⟩ := Option.bind_eq_some_iff.1 h
    cases heq
    exact baseDefinition?_classDefinition hc he'
  | succ n ih =>
    obtain ⟨e', he', h⟩ := Option.bind_eq_some_iff.1 h
    obtain ⟨b, hb, rfl⟩ := baseDefinition?_classDefinition hc he'
    obtain ⟨b', hb', heq⟩ := ih (hb.trans hc) h
    exact ⟨b', hb'.trans hb, heq⟩

lemma acyclic_toModule (s : Shape) : s.toModule.Acyclic := by
  apply Module.acyclic_iff.2
  intro d hd n e he
  rcases mem_types_toModule.1 hd with ⟨i, _, rfl⟩ | ⟨c, hc, rfl⟩
  · cases he
  · obtain ⟨b, hb, rfl⟩ := climb?_classDefinition hc he
    intro hname
    exact Nat.ne_of_lt hb (append_toString_injective "Model" hname)

lemma enumRules_enumDefinition (i : Nat) : (enumDefinition i).EnumRules where
  base := rfl
  properties := rfl
  params := rfl
  membersNamed := by
    intro e he
    obtain ⟨m, -, rfl⟩ := List.mem_map.1 he
    exact isBlank_append (by decide +kernel) _
  membersDistinct := by
    rw [enumDefinition, List.map_map]
    exact List.nodup_range.map (append_toString_injective "Value")

/-- A class obeys the rules; its base is a class. -/
lemma typeRules_classDefinition {c} (hc : c < s.classes) :
    s.toModule.TypeRules (s.classDefinition c) where
  members := rfl
  paramsDistinct := List.nodup_nil
  propertiesNamed := by
    intro p hp
    obtain ⟨i, -, rfl⟩ := List.mem_map.1 hp
    exact isBlank_append (by decide +kernel) _
  propertiesDistinct := distinctProperties s _ (classDefinition_mem_types hc)
  base := by
    intro base hbase
    obtain ⟨b, -, rfl⟩ := Option.map_eq_some_iff.1 hbase
    refine ⟨nofun, nofun, fun e he henum hname => ?_⟩
    rcases mem_types_toModule.1 he with ⟨i, -, rfl⟩ | ⟨c', -, rfl⟩
    · have hfirst : (enumName i).toList.head? = (className b).toList.head? :=
        congrArg (fun n : String => n.toList.head?) hname
      simp [enumName, className] at hfirst
    · cases henum

/-- The module of any size is well formed. -/
lemma wellFormed_toModule (s : Shape) : s.toModule.WellFormed where
  named := by
    intro d hd
    rcases mem_types_toModule.1 hd with ⟨i, -, rfl⟩ | ⟨c, -, rfl⟩
    · exact isBlank_append (by decide +kernel) _
    · exact isBlank_append (by decide +kernel) _
  distinct := nodup_names s
  declaring := by
    intro d hd owner howner
    rcases mem_types_toModule.1 hd with ⟨i, -, rfl⟩ | ⟨c, -, rfl⟩ <;> cases howner
  enums := by
    intro d hd henum
    rcases mem_types_toModule.1 hd with ⟨i, -, rfl⟩ | ⟨c, -, rfl⟩
    · exact enumRules_enumDefinition i
    · cases henum
  types := by
    intro d hd henum
    rcases mem_types_toModule.1 hd with ⟨i, -, rfl⟩ | ⟨c, hc, rfl⟩
    · cases henum
    · exact typeRules_classDefinition hc
  saturated := by
    intro d hd ref href name args hwithin e he hname
    rcases mem_types_toModule.1 hd with ⟨i, -, rfl⟩ | ⟨c, -, rfl⟩
    · cases href
    · rw [(referable_of_mem_references href).eq_list hwithin] at hname
      rcases mem_types_toModule.1 he with ⟨i, -, rfl⟩ | ⟨c', -, rfl⟩
      · simp [enumDefinition, enumName, ← String.toList_inj] at hname
      · simp [Shape.classDefinition, className, ← String.toList_inj] at hname
  acyclic := acyclic_toModule s

end Rules

/-- A synthetic module is sound whatever its size. It has as many types as asked for. On the way to
type expressions and bases there is never a remainder by zero. Every type expression is read, so
that none is replaced. All that is mentioned in bases, properties and arguments is a type of the
module, and the module passes the check. -/
theorem toModule_sound (s : Shape) :
    s.toModule.types.length = s.enums + s.classes ∧
      (∀ c p, s.propertyExpression? c p = some (s.propertyExpression c p)) ∧
      (∀ c, s.base? c = some (s.baseIndex? c)) ∧
      (∀ c p, TypeRef.ofExpression [] (s.propertyExpression c p) =
        .ok (readOrObject (s.propertyExpression c p))) ∧
      (∀ d ∈ s.toModule.types, ∀ ref ∈ d.references, ∀ name, Mentions ref name →
        s.toModule.has name = true) ∧
      s.toModule.check = .ok () := by
  refine ⟨?_, propertyExpression?_eq s, base?_eq s, ofExpression_propertyExpression s, ?_, ?_⟩
  · simp [Shape.toModule]
  · intro d hd ref href name hmentions
    apply Module.has_iff_mem_names.2
    rcases mem_types_toModule.1 hd with ⟨i, -, rfl⟩ | ⟨c, hc, rfl⟩
    · cases href
    · exact (referable_of_mem_references href).mem_names hc hmentions
  · exact Module.check_of_wellFormed (wellFormed_toModule s)

end Typings.Synthetic
