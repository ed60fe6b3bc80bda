import Typings.Proofs.Module.Acyclic
import Typings.Proofs.Module.Lookup
import Typings.Proofs.Outcome
import Typings.Proofs.TypeRef.Occurrence
import Typings.WellFormed.Check

/-!
# The rules of well-formed modules

What makes a module well formed, said without the check: rules for the names of types, for
enumerations, for classes and interfaces, for applied types, and for inheritance. The main statement
is that the check accepts exactly the modules that obey the rules.

Each part of the check is met by the part of the rules that it decides, under the names seen so far
where it carries them along.
-/

namespace Typings

open Typings.Text

/-- The rules for an enumeration. -/
structure TypeDef.EnumRules (d : TypeDef) : Prop where
  base : d.base = none
  properties : d.properties = []
  params : d.params = []
  membersNamed : ∀ e ∈ d.members, isBlank e.name = false
  membersDistinct : (d.members.map (·.name)).Nodup

/-- The rules for the base of a class or interface: it has no wrapper and names no enumeration. -/
structure Module.BaseRules (m : Module) (base : TypeRef) : Prop where
  notNullable : ∀ t, base ≠ .nullable t
  notArray : ∀ t, base ≠ .array t
  notEnum : ∀ e ∈ m.types, e.isEnum → e.name ≠ base.name

/-- The rules for a class or interface. -/
structure Module.TypeRules (m : Module) (d : TypeDef) : Prop where
  members : d.members = []
  paramsDistinct : d.params.Nodup
  propertiesNamed : ∀ p ∈ d.properties, isBlank p.name = false
  propertiesDistinct : (d.properties.map (·.name)).Nodup
  base : ∀ base, d.base = some base → m.BaseRules base

/-- The references that a definition makes: its base and the types of its properties. -/
def TypeDef.references (d : TypeDef) : List TypeRef :=
  d.base.toList ++ d.properties.map (·.type)

/-- At every depth of a reference, a type of the module that is applied to arguments has as many
parameters as arguments. -/
def Module.Saturated (m : Module) (ref : TypeRef) : Prop :=
  ∀ name args, (TypeRef.generic name args).Within ref →
    ∀ d ∈ m.types, d.name = name → d.params.length = args.length

/-- The rules for a module. -/
structure Module.WellFormed (m : Module) : Prop where
  named : ∀ d ∈ m.types, isBlank d.name = false
  distinct : m.names.Nodup
  declaring : ∀ d ∈ m.types, ∀ owner, d.declaring = some owner → owner ∈ m.names
  enums : ∀ d ∈ m.types, d.isEnum = true → d.EnumRules
  types : ∀ d ∈ m.types, d.isEnum = false → m.TypeRules d
  saturated : ∀ d ∈ m.types, ∀ ref ∈ d.references, m.Saturated ref
  acyclic : m.Acyclic

namespace WellFormed

/-- Names that are different from one another and from those seen. -/
def Fresh (seen names : List String) : Prop :=
  names.Nodup ∧ ∀ n ∈ names, n ∉ seen

/-- No names are fresh whatever has been seen. -/
@[simp] lemma fresh_nil {seen} : Fresh seen [] := by simp [Fresh]

/-- Names are fresh when the first is unseen and the rest is fresh with it seen. -/
lemma fresh_cons {seen n names} :
    Fresh seen (n :: names) ↔ n ∉ seen ∧ Fresh (n :: seen) names := by
  rw [Fresh, Fresh, List.nodup_cons, List.forall_mem_cons]
  constructor
  · rintro ⟨⟨hn, hnames⟩, hseen, hrest⟩
    refine ⟨hseen, hnames, fun a ha => ?_⟩
    apply List.not_mem_cons_of_ne_of_not_mem
    · exact fun h => hn (h ▸ ha)
    · exact hrest a ha
  · rintro ⟨hseen, hnames, hrest⟩
    refine ⟨⟨fun hn => ?_, hnames⟩, hseen, fun a ha => ?_⟩
    · exact List.ne_of_not_mem_cons (hrest n hn) rfl
    · exact List.not_mem_of_not_mem_cons (hrest a ha)

/-- With nothing seen, names are fresh when they are different. -/
@[simp] lemma fresh_nil_left {names} : Fresh [] names ↔ names.Nodup := by simp [Fresh]

variable {m : Module}

/-- The names of types pass when they are given and fresh, and nested types are declared in types of
the module. -/
lemma checkNames_eq_ok {seen ds} :
    checkNames m seen ds = .ok () ↔
      Fresh seen (ds.map (·.name)) ∧ (∀ d ∈ ds, isBlank d.name = false) ∧
        ∀ d ∈ ds, ∀ owner, d.declaring = some owner → owner ∈ m.names := by
  induction ds generalizing seen with
  | nil => simp [checkNames]
  | cons d rest ih =>
    have hdeclaring : d.declaring.filter (!m.has ·) = none ↔
        ∀ owner, d.declaring = some owner → owner ∈ m.names := by
      simp [Option.filter_eq_none_iff, Module.has_iff_mem_names]
    rw [checkNames, List.map_cons, fresh_cons, List.forall_mem_cons, List.forall_mem_cons,
      ← hdeclaring]
    by_cases hblank : isBlank d.name = true
    · simp [hblank]
    by_cases hseen : d.name ∈ seen
    · simp [hblank, hseen]
    rw [if_neg hblank, if_neg hseen]
    cases d.declaring.filter (!m.has ·) with
    | some owner => simp
    | none => simp [hblank, hseen, ih]

/-- The members of an enumeration pass when their names are given and fresh. -/
lemma checkMembers_eq_ok {owner seen es} :
    checkMembers owner seen es = .ok () ↔
      Fresh seen (es.map (·.name)) ∧ ∀ e ∈ es, isBlank e.name = false := by
  induction es generalizing seen with
  | nil => simp [checkMembers]
  | cons e rest ih =>
    rw [checkMembers, List.map_cons, fresh_cons, List.forall_mem_cons]
    by_cases hblank : isBlank e.name = true
    · simp [hblank]
    by_cases hseen : e.name ∈ seen
    · simp [hblank, hseen]
    · simp [hblank, hseen, ih]

/-- The parameters of a type pass when they are fresh. -/
lemma checkParams_eq_ok {owner seen ps} :
    checkParams owner seen ps = .ok () ↔ Fresh seen ps := by
  induction ps generalizing seen with
  | nil => simp [checkParams]
  | cons p rest ih =>
    rw [checkParams, fresh_cons]
    by_cases hseen : p ∈ seen
    · simp [hseen]
    · simp [hseen, ih]

/-- An enumeration passes when it obeys its rules. -/
lemma checkEnum_eq_ok {d} : checkEnum d = .ok () ↔ d.EnumRules := by
  rw [checkEnum]
  by_cases hbare : d.base.isSome || !d.properties.isEmpty
  · rw [if_pos hbare]
    refine ⟨nofun, fun h => ?_⟩
    simp [h.base, h.properties] at hbare
  by_cases hgeneric : d.isGeneric
  · rw [if_neg hbare, if_pos hgeneric]
    refine ⟨nofun, fun h => ?_⟩
    simp [TypeDef.isGeneric, h.params] at hgeneric
  rw [if_neg hbare, if_neg hgeneric, checkMembers_eq_ok, fresh_nil_left]
  simp only [Bool.or_eq_true, Option.isSome_iff_ne_none, Bool.not_eq_true',
    List.isEmpty_eq_false_iff, not_or, not_not] at hbare
  constructor
  · rintro ⟨hdistinct, hnamed⟩
    exact ⟨hbare.1, hbare.2, by simpa [TypeDef.isGeneric] using hgeneric, hnamed, hdistinct⟩
  · intro h
    exact ⟨h.membersDistinct, h.membersNamed⟩

/-- A nullable reference is saturated when what it wraps is. -/
lemma saturated_nullable {t} : m.Saturated (.nullable t) ↔ m.Saturated t := by
  simp [Module.Saturated, TypeRef.Within.nullable_iff]

/-- An array is saturated when its element is. -/
lemma saturated_array {t} : m.Saturated (.array t) ↔ m.Saturated t := by
  simp [Module.Saturated, TypeRef.Within.array_iff]

/-- An applied type is saturated when the numbers agree at the top and its arguments are. -/
lemma saturated_generic {name args} :
    m.Saturated (.generic name args) ↔
      (∀ d ∈ m.types, d.name = name → d.params.length = args.length) ∧
        ∀ a ∈ args, m.Saturated a := by
  constructor
  · intro h
    exact ⟨h name args .here, fun a ha n as hw => h n as (.arg ha hw)⟩
  · rintro ⟨htop, hargs⟩ n as hw
    rcases TypeRef.Within.generic_iff.1 hw with heq | ⟨a, ha, hw⟩
    · cases heq
      exact htop
    · exact hargs a ha n as hw

/-- Arguments pass when each of them does. -/
lemma checkArgs_eq_ok {context args} :
    checkArgs m context args = .ok () ↔ ∀ a ∈ args, checkReference m context a = .ok () := by
  induction args with
  | nil => simp [checkArgs]
  | cons a rest ih => rw [checkArgs, check_bind_eq_ok, ih, List.forall_mem_cons]

/-- A reference passes when it is saturated. -/
lemma checkReference_eq_ok (distinct : m.names.Nodup) {context ref} :
    checkReference m context ref = .ok () ↔ m.Saturated ref := by
  induction ref with
  | builtin b => simp [checkReference, Module.Saturated]
  | named n => simp [checkReference, Module.Saturated]
  | parameter n => simp [checkReference, Module.Saturated]
  | nullable t ih => rw [checkReference, ih, saturated_nullable]
  | array t ih => rw [checkReference, ih, saturated_array]
  | generic name args ih =>
    have htop : (m.find? name).filter (·.params.length != args.length) = none ↔
        ∀ d ∈ m.types, d.name = name → d.params.length = args.length := by
      simp [Option.filter_eq_none_iff, Module.find?_eq_some_iff distinct]
    rw [checkReference, saturated_generic, ← htop]
    cases (m.find? name).filter (·.params.length != args.length) with
    | some d => simp
    | none =>
      simp only [checkArgs_eq_ok, true_and]
      exact forall₂_congr ih

/-- No enumeration has the name of a base when that finds none. -/
lemma any_isEnum_eq_false (distinct : m.names.Nodup) {name} :
    (m.find? name).any TypeDef.isEnum = false ↔ ∀ e ∈ m.types, e.isEnum → e.name ≠ name := by
  rw [Option.any_eq_false]
  simp only [Module.find?_eq_some_iff distinct]
  constructor
  · intro h e he henum hname
    exact absurd henum (by simpa using h e ⟨he, hname⟩)
  · rintro h e ⟨he, hname⟩
    simpa using fun henum => h e he henum hname

/-- A base passes when it is saturated and obeys its rules. -/
lemma checkBase_eq_ok (distinct : m.names.Nodup) {owner base} :
    checkBase m owner base = .ok () ↔ m.Saturated base ∧ m.BaseRules base := by
  rw [checkBase, check_bind_eq_ok, checkReference_eq_ok distinct]
  refine and_congr_right fun _ => ?_
  cases base with
  | nullable t => exact ⟨nofun, fun h => absurd rfl (h.notNullable t)⟩
  | array t => exact ⟨nofun, fun h => absurd rfl (h.notArray t)⟩
  | _ =>
    rw [if_neg (by simp [isPlain])]
    split
    next h =>
      refine ⟨nofun, fun rules => ?_⟩
      rw [(any_isEnum_eq_false distinct).2 rules.notEnum] at h
      cases h
    next h =>
      refine ⟨fun _ => ⟨nofun, nofun, ?_⟩, fun _ => rfl⟩
      exact (any_isEnum_eq_false distinct).1 (by simpa using h)

/-- The properties of a type pass when their names are given and fresh and their types saturated. -/
lemma checkProperties_eq_ok (distinct : m.names.Nodup) {owner seen ps} :
    checkProperties m owner seen ps = .ok () ↔
      Fresh seen (ps.map (·.name)) ∧ (∀ p ∈ ps, isBlank p.name = false) ∧
        ∀ p ∈ ps, m.Saturated p.type := by
  induction ps generalizing seen with
  | nil => simp [checkProperties]
  | cons p rest ih =>
    rw [checkProperties, List.map_cons, fresh_cons, List.forall_mem_cons, List.forall_mem_cons]
    by_cases hblank : isBlank p.name = true
    · simp [hblank]
    by_cases hseen : p.name ∈ seen
    · simp [hblank, hseen]
    rw [if_neg hblank, if_neg hseen, check_bind_eq_ok, checkReference_eq_ok distinct, ih]
    simp only [hblank, hseen]
    tauto

/-- A class or interface passes when it obeys its rules and its references are saturated. -/
lemma checkType_eq_ok (distinct : m.names.Nodup) {d} :
    checkType m d = .ok () ↔ m.TypeRules d ∧ ∀ ref ∈ d.references, m.Saturated ref := by
  by_cases hmembers : d.members = []
  case neg =>
    have herr : checkType m d = .error (.membersOutsideEnum d.name) := by simp [checkType, hmembers]
    rw [herr]
    exact ⟨nofun, fun h => absurd h.1.members hmembers⟩
  have hreferences : (∀ ref ∈ d.references, m.Saturated ref) ↔
      (∀ base, d.base = some base → m.Saturated base) ∧ ∀ p ∈ d.properties, m.Saturated p.type := by
    simp [TypeDef.references, or_imp, forall_and]
  have hbase : d.base.elim (.ok ()) (checkBase m d.name) = .ok () ↔
      ∀ base, d.base = some base → m.Saturated base ∧ m.BaseRules base := by
    cases d.base with
    | none => simp
    | some base => simp [checkBase_eq_ok distinct]
  have hparts : checkType m d = checkParams d.name [] d.params >>= fun _ =>
      d.base.elim (.ok ()) (checkBase m d.name) >>= fun _ =>
        checkProperties m d.name [] d.properties := by
    rw [checkType, if_neg (by simp [hmembers])]
    cases d.base <;> rfl
  rw [hparts, check_bind_eq_ok, check_bind_eq_ok, hbase, checkParams_eq_ok,
    checkProperties_eq_ok distinct, hreferences, fresh_nil_left, fresh_nil_left]
  constructor
  · rintro ⟨hparams, hbase, hdistinct, hnamed, hproperties⟩
    exact ⟨⟨hmembers, hparams, hnamed, hdistinct, fun b h => (hbase b h).2⟩,
      fun b h => (hbase b h).1, hproperties⟩
  · rintro ⟨rules, hbase, hproperties⟩
    exact ⟨rules.paramsDistinct, fun b h => ⟨hbase b h, rules.base b h⟩, rules.propertiesDistinct,
      rules.propertiesNamed, hproperties⟩

/-- Definitions pass when each of them does. -/
lemma checkDefinitions_eq_ok {ds} :
    checkDefinitions m ds = .ok () ↔
      ∀ d ∈ ds, (if d.isEnum then checkEnum d else checkType m d) = .ok () := by
  induction ds with
  | nil => simp [checkDefinitions]
  | cons d rest ih =>
    have hparts : checkDefinitions m (d :: rest) =
        (if d.isEnum then checkEnum d else checkType m d) >>= fun _ => checkDefinitions m rest := by
      rw [checkDefinitions]
      split <;> rfl
    rw [hparts, check_bind_eq_ok, ih, List.forall_mem_cons]

/-- Inheritance passes when no type is reported to lie on a cycle. -/
lemma checkInheritance_eq_ok {ds} :
    checkInheritance m ds = .ok () ↔ ∀ d ∈ ds, m.cycle? d = none := by
  induction ds with
  | nil => simp [checkInheritance]
  | cons d rest ih =>
    rw [checkInheritance, List.forall_mem_cons]
    cases m.cycle? d with
    | some path => simp
    | none => simp [ih]

/-- An enumeration without base and properties makes no references. -/
lemma references_of_enumRules {d : TypeDef} (h : d.EnumRules) : d.references = [] := by
  simp [TypeDef.references, h.base, h.properties]

/-- A definition passes when it obeys the rules of its kind and its references are saturated. -/
lemma checkDefinition_eq_ok (distinct : m.names.Nodup) {d} :
    (if d.isEnum then checkEnum d else checkType m d) = .ok () ↔
      (d.isEnum = true → d.EnumRules) ∧ (d.isEnum = false → m.TypeRules d) ∧
        ∀ ref ∈ d.references, m.Saturated ref := by
  cases henum : d.isEnum with
  | true =>
    rw [if_pos rfl, checkEnum_eq_ok]
    constructor
    · intro h
      exact ⟨fun _ => h, nofun, by simp [references_of_enumRules h]⟩
    · intro h
      exact h.1 rfl
  | false =>
    rw [if_neg (by simp), checkType_eq_ok distinct]
    simp

end WellFormed

namespace Module

/-- A module that passes the check is well formed. -/
lemma wellFormed_of_check {m : Module} (h : m.check = .ok ()) : m.WellFormed := by
  rw [check, check_bind_eq_ok, check_bind_eq_ok, WellFormed.checkNames_eq_ok,
    WellFormed.fresh_nil_left, WellFormed.checkDefinitions_eq_ok,
    WellFormed.checkInheritance_eq_ok, ← acyclic_iff_cycle?] at h
  obtain ⟨⟨distinct, named, declaring⟩, definitions, acyclic⟩ := h
  have rules d (hd : d ∈ m.types) :=
    (WellFormed.checkDefinition_eq_ok distinct).1 (definitions d hd)
  exact
    { named, distinct, declaring, acyclic
      enums := fun d hd => (rules d hd).1
      types := fun d hd => (rules d hd).2.1
      saturated := fun d hd => (rules d hd).2.2 }

/-- A well-formed module passes the check. -/
lemma check_of_wellFormed {m : Module} (h : m.WellFormed) : m.check = .ok () := by
  rw [check, check_bind_eq_ok, check_bind_eq_ok, WellFormed.checkNames_eq_ok,
    WellFormed.fresh_nil_left, WellFormed.checkDefinitions_eq_ok,
    WellFormed.checkInheritance_eq_ok, ← acyclic_iff_cycle?]
  refine ⟨⟨h.distinct, h.named, h.declaring⟩, fun d hd => ?_, h.acyclic⟩
  exact (WellFormed.checkDefinition_eq_ok h.distinct).2
    ⟨h.enums d hd, h.types d hd, h.saturated d hd⟩

/-- A module passes the check exactly when it is well formed. -/
theorem check_eq_ok_iff (m : Module) : m.check = .ok () ↔ m.WellFormed :=
  ⟨wellFormed_of_check, check_of_wellFormed⟩

end Module

end Typings
