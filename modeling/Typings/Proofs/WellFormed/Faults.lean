import Mathlib.Data.List.Duplicate
import Typings.Proofs.Outcome
import Typings.Proofs.TypeRef.Occurrence
import Typings.WellFormed.Check

/-!
# Faults that are reported

Whatever the check of a module reports is a fault of the module. What an error tells is found there:
the owner that it names, and at the owner the fault. Where names are said to come twice, the name
that is given does.
-/

namespace Typings.WellFormed

open Typings.Text

/-- The module has a type of the name, with the property. -/
def HasType (m : Module) (name : String) (P : TypeDef → Prop) : Prop :=
  ∃ d ∈ m.types, d.name = name ∧ P d

/-- What the error tells is found in the module. -/
def Error.Found (m : Module) : Error → Prop
  | .undefined owner name => HasType m name fun d => d.declaring = some owner ∧ m.has owner = false
  | .duplicate .type name module => module = m.name ∧ m.names.Duplicate name
  | .duplicate .member name owner =>
    HasType m owner fun d => d.isEnum = true ∧ (d.members.map (·.name)).Duplicate name
  | .duplicate .parameter name owner =>
    HasType m owner fun d => d.isEnum = false ∧ d.params.Duplicate name
  | .duplicate .property name owner =>
    HasType m owner fun d => d.isEnum = false ∧ (d.properties.map (·.name)).Duplicate name
  | .circular path => ∃ d ∈ m.types, m.cycle? d = some path
  | .arity name expected found _ =>
    HasType m name fun d => d.params.length = expected ∧ expected ≠ found ∧
      ∃ e ∈ m.types, ∃ ref : TypeRef, (e.base = some ref ∨ ∃ p ∈ e.properties, p.type = ref) ∧
        ∃ args, (TypeRef.generic name args).Within ref ∧ args.length = found
  | .unnamedType module => module = m.name ∧ ∃ d ∈ m.types, isBlank d.name = true
  | .unnamedMember owner =>
    HasType m owner fun d => d.isEnum = true ∧ ∃ e ∈ d.members, isBlank e.name = true
  | .unnamedProperty owner =>
    HasType m owner fun d => d.isEnum = false ∧ ∃ p ∈ d.properties, isBlank p.name = true
  | .structuredEnum name =>
    HasType m name fun d => d.isEnum = true ∧ (d.base ≠ none ∨ d.properties ≠ [])
  | .genericEnum name => HasType m name fun d => d.isEnum = true ∧ d.params ≠ []
  | .membersOutsideEnum name => HasType m name fun d => d.isEnum = false ∧ d.members ≠ []
  | .wrappedBase base owner => HasType m owner fun d => d.base = some base ∧ isPlain base = false
  | .enumBase name owner =>
    HasType m owner fun d => ∃ base, d.base = some base ∧ base.name = name ∧
      (m.find? name).any TypeDef.isEnum = true

/-- The name comes again: it has been seen before, or comes twice. -/
def Repeats (seen names : List String) (name : String) : Prop :=
  name ∈ names ∧ name ∈ seen ∨ names.Duplicate name

lemma repeats_cons_self {seen names name} (h : name ∈ seen) : Repeats seen (name :: names) name :=
  .inl ⟨List.mem_cons_self, h⟩

/-- A name that comes again behind one that is seen comes again with it. -/
lemma Repeats.cons {seen names name first} (h : Repeats (first :: seen) names name) :
    Repeats seen (first :: names) name := by
  rcases h with ⟨hname, hseen⟩ | h
  · rcases List.mem_cons.1 hseen with rfl | hseen
    · exact .inr (.cons_mem hname)
    · exact .inl ⟨List.mem_cons_of_mem _ hname, hseen⟩
  · exact .inr (.cons_duplicate h)

/-- With nothing seen, a name that comes again comes twice. -/
lemma Repeats.duplicate {names name} (h : Repeats [] names name) : names.Duplicate name :=
  h.resolve_left fun h => List.not_mem_nil h.2

variable {m : Module} {e : Error}

/-- What is reported of names of types: one is blank, one comes again, or an owner is undefined. -/
lemma checkNames_eq_error {seen ds} (h : checkNames m seen ds = .error e) :
    (e = .unnamedType m.name ∧ ∃ d ∈ ds, isBlank d.name = true) ∨
      (∃ name, e = .duplicate .type name m.name ∧ Repeats seen (ds.map (·.name)) name) ∨
      ∃ d ∈ ds, ∃ owner, e = .undefined owner d.name ∧ d.declaring = some owner ∧
        m.has owner = false := by
  induction ds generalizing seen with
  | nil => cases h
  | cons d rest ih =>
    rw [checkNames] at h
    split at h
    case isTrue hblank =>
      cases h
      exact .inl ⟨rfl, d, List.mem_cons_self, hblank⟩
    split at h
    case isTrue hseen =>
      cases h
      exact .inr (.inl ⟨d.name, rfl, repeats_cons_self hseen⟩)
    split at h
    case h_1 owner howner =>
      cases h
      rw [Option.filter_eq_some_iff] at howner
      exact .inr (.inr ⟨d, List.mem_cons_self, owner, rfl, howner.1, by simpa using howner.2⟩)
    case h_2 =>
      rcases ih h with ⟨he, d', hd', hblank⟩ | ⟨name, he, hname⟩ | ⟨d', hd', howner⟩
      · exact .inl ⟨he, d', List.mem_cons_of_mem _ hd', hblank⟩
      · exact .inr (.inl ⟨name, he, hname.cons⟩)
      · exact .inr (.inr ⟨d', List.mem_cons_of_mem _ hd', howner⟩)

/-- What is reported of members: a name is blank, or one comes again. -/
lemma checkMembers_eq_error {owner seen es} (h : checkMembers owner seen es = .error e) :
    (e = .unnamedMember owner ∧ ∃ x ∈ es, isBlank x.name = true) ∨
      ∃ name, e = .duplicate .member name owner ∧ Repeats seen (es.map (·.name)) name := by
  induction es generalizing seen with
  | nil => cases h
  | cons x rest ih =>
    rw [checkMembers] at h
    split at h
    case isTrue hblank =>
      cases h
      exact .inl ⟨rfl, x, List.mem_cons_self, hblank⟩
    split at h
    case isTrue hseen =>
      cases h
      exact .inr ⟨x.name, rfl, repeats_cons_self hseen⟩
    case isFalse =>
      rcases ih h with ⟨he, y, hy, hblank⟩ | ⟨name, he, hname⟩
      · exact .inl ⟨he, y, List.mem_cons_of_mem _ hy, hblank⟩
      · exact .inr ⟨name, he, hname.cons⟩

/-- What is reported of parameters: one comes again. -/
lemma checkParams_eq_error {owner seen ps} (h : checkParams owner seen ps = .error e) :
    ∃ name, e = .duplicate .parameter name owner ∧ Repeats seen ps name := by
  induction ps generalizing seen with
  | nil => cases h
  | cons p rest ih =>
    rw [checkParams] at h
    split at h
    case isTrue hseen =>
      cases h
      exact ⟨p, rfl, repeats_cons_self hseen⟩
    case isFalse =>
      obtain ⟨name, he, hname⟩ := ih h
      exact ⟨name, he, hname.cons⟩

/-- A type of the module is applied in the reference to another number of arguments than it has
parameters, as the error tells. -/
def Misapplied (m : Module) (ref : TypeRef) (e : Error) : Prop :=
  ∃ d args context, m.find? d.name = some d ∧ (TypeRef.generic d.name args).Within ref ∧
    d.params.length ≠ args.length ∧ e = .arity d.name d.params.length args.length context

lemma checkArgs_eq_error {context args} (h : checkArgs m context args = .error e) :
    ∃ a ∈ args, checkReference m context a = .error e := by
  induction args with
  | nil => cases h
  | cons a rest ih =>
    rw [checkArgs, bind_eq_error] at h
    rcases h with h | ⟨_, _, h⟩
    · exact ⟨a, List.mem_cons_self, h⟩
    · obtain ⟨b, hb, h⟩ := ih h
      exact ⟨b, List.mem_cons_of_mem _ hb, h⟩

/-- What is reported of a reference: a type is misapplied in it. -/
lemma checkReference_eq_error {context ref} (h : checkReference m context ref = .error e) :
    Misapplied m ref e := by
  induction ref with
  | builtin b => cases h
  | named n => cases h
  | parameter n => cases h
  | nullable t ih =>
    obtain ⟨d, args, context, hd, hwithin, hrest⟩ := ih h
    exact ⟨d, args, context, hd, .nullable hwithin, hrest⟩
  | array t ih =>
    obtain ⟨d, args, context, hd, hwithin, hrest⟩ := ih h
    exact ⟨d, args, context, hd, .array hwithin, hrest⟩
  | generic name args ih =>
    rw [checkReference] at h
    split at h
    case h_1 d hd =>
      cases h
      rw [Option.filter_eq_some_iff] at hd
      obtain ⟨hfind, hlength⟩ := hd
      obtain rfl := Module.name_of_find? hfind
      exact ⟨d, args, context, hfind, .here, by simpa using hlength, rfl⟩
    case h_2 =>
      obtain ⟨a, ha, h⟩ := checkArgs_eq_error h
      obtain ⟨d, args', context, hd, hwithin, hrest⟩ := ih a ha h
      exact ⟨d, args', context, hd, .arg ha hwithin, hrest⟩

/-- What is reported of properties: a name is blank, or one comes again, or a type is misapplied. -/
lemma checkProperties_eq_error {owner seen ps} (h : checkProperties m owner seen ps = .error e) :
    (e = .unnamedProperty owner ∧ ∃ p ∈ ps, isBlank p.name = true) ∨
      (∃ name, e = .duplicate .property name owner ∧ Repeats seen (ps.map (·.name)) name) ∨
      ∃ p ∈ ps, Misapplied m p.type e := by
  induction ps generalizing seen with
  | nil => cases h
  | cons p rest ih =>
    rw [checkProperties] at h
    split at h
    case isTrue hblank =>
      cases h
      exact .inl ⟨rfl, p, List.mem_cons_self, hblank⟩
    split at h
    case isTrue hseen =>
      cases h
      exact .inr (.inl ⟨p.name, rfl, repeats_cons_self hseen⟩)
    case isFalse =>
      rcases bind_eq_error.1 h with h | ⟨_, _, h⟩
      · exact .inr (.inr ⟨p, List.mem_cons_self, checkReference_eq_error h⟩)
      · rcases ih h with ⟨he, q, hq, hblank⟩ | ⟨name, he, hname⟩ | ⟨q, hq, hmisapplied⟩
        · exact .inl ⟨he, q, List.mem_cons_of_mem _ hq, hblank⟩
        · exact .inr (.inl ⟨name, he, hname.cons⟩)
        · exact .inr (.inr ⟨q, List.mem_cons_of_mem _ hq, hmisapplied⟩)

variable {d : TypeDef}

/-- A type that is misapplied in a base or a property is found so in the module. -/
lemma Misapplied.found {ref} (h : Misapplied m ref e) (hd : d ∈ m.types)
    (href : d.base = some ref ∨ ∃ p ∈ d.properties, p.type = ref) : e.Found m := by
  obtain ⟨d', args, context, hfind, hwithin, hlength, rfl⟩ := h
  exact ⟨d', Module.mem_of_find? hfind, rfl, rfl, hlength, d, hd, ref, href, args, hwithin, rfl⟩

/-- What is reported of an enumeration is found at it. -/
lemma found_of_checkEnum (hd : d ∈ m.types) (henum : d.isEnum = true)
    (h : checkEnum d = .error e) : e.Found m := by
  rw [checkEnum] at h
  split at h
  case isTrue hstructured =>
    cases h
    refine ⟨d, hd, rfl, henum, ?_⟩
    simpa [Option.isSome_iff_ne_none] using hstructured
  split at h
  case isTrue hgeneric =>
    cases h
    exact ⟨d, hd, rfl, henum, by simpa [TypeDef.isGeneric] using hgeneric⟩
  case isFalse =>
    rcases checkMembers_eq_error h with ⟨rfl, hblank⟩ | ⟨name, rfl, hname⟩
    · exact ⟨d, hd, rfl, henum, hblank⟩
    · exact ⟨d, hd, rfl, henum, hname.duplicate⟩

/-- What is reported of a base is found at its type. -/
lemma found_of_checkBase {base} (hd : d ∈ m.types) (hbase : d.base = some base)
    (h : checkBase m d.name base = .error e) : e.Found m := by
  rcases bind_eq_error.1 h with h | ⟨_, _, h⟩
  · exact (checkReference_eq_error h).found hd (.inl hbase)
  split at h
  case isTrue hplain =>
    cases h
    exact ⟨d, hd, rfl, hbase, by simpa using hplain⟩
  split at h
  case isTrue henum =>
    cases h
    exact ⟨d, hd, rfl, base, hbase, rfl, henum⟩
  case isFalse => cases h

/-- What is reported of a class or interface is found at it. -/
lemma found_of_checkType (hd : d ∈ m.types) (henum : d.isEnum = false)
    (h : checkType m d = .error e) : e.Found m := by
  rw [checkType] at h
  split at h
  case isTrue hmembers =>
    cases h
    exact ⟨d, hd, rfl, henum, by simpa using hmembers⟩
  rcases bind_eq_error.1 h with h | ⟨_, _, h⟩
  · obtain ⟨name, rfl, hname⟩ := checkParams_eq_error h
    exact ⟨d, hd, rfl, henum, hname.duplicate⟩
  have hproperties (h : checkProperties m d.name [] d.properties = .error e) : e.Found m := by
    rcases checkProperties_eq_error h with ⟨rfl, hblank⟩ | ⟨name, rfl, hname⟩ | ⟨p, hp, hmisapplied⟩
    · exact ⟨d, hd, rfl, henum, hblank⟩
    · exact ⟨d, hd, rfl, henum, hname.duplicate⟩
    · exact hmisapplied.found hd (.inr ⟨p, hp, rfl⟩)
  cases hbase : d.base with
  | none =>
    rw [hbase] at h
    exact hproperties h
  | some base =>
    rw [hbase] at h
    rcases bind_eq_error.1 h with h | ⟨_, _, h⟩
    · exact found_of_checkBase hd hbase h
    · exact hproperties h

/-- What is reported of definitions is found at one of them. -/
lemma found_of_checkDefinitions {ds} (hds : ∀ d ∈ ds, d ∈ m.types)
    (h : checkDefinitions m ds = .error e) : e.Found m := by
  induction ds with
  | nil => cases h
  | cons d rest ih =>
    obtain ⟨hd, hrest⟩ := List.forall_mem_cons.1 hds
    rw [checkDefinitions] at h
    cases henum : d.isEnum with
    | true =>
      rw [henum] at h
      rcases bind_eq_error.1 h with h | ⟨_, _, h⟩
      · exact found_of_checkEnum hd henum h
      · exact ih hrest h
    | false =>
      rw [henum] at h
      rcases bind_eq_error.1 h with h | ⟨_, _, h⟩
      · exact found_of_checkType hd henum h
      · exact ih hrest h

/-- What is reported of inheritance is the cycle of the first type that has one. -/
lemma checkInheritance_eq_error {ds} :
    checkInheritance m ds = .error e ↔
      ∃ before d behind path, ds = before ++ d :: behind ∧ (∀ d' ∈ before, m.cycle? d' = none) ∧
        m.cycle? d = some path ∧ e = .circular path := by
  induction ds with
  | nil => simp [checkInheritance]
  | cons d rest ih =>
    rw [checkInheritance]
    cases hcycle : m.cycle? d with
    | some path =>
      constructor
      · intro h
        cases h
        exact ⟨[], d, rest, path, rfl, nofun, hcycle, rfl⟩
      · rintro ⟨before, d', behind, path', hds, hbefore, hpath, rfl⟩
        cases before with
        | nil =>
          cases hds
          cases hcycle.symm.trans hpath
          rfl
        | cons first before =>
          cases hds
          cases hcycle.symm.trans (hbefore d List.mem_cons_self)
    | none =>
      rw [ih]
      constructor
      · rintro ⟨before, d', behind, path, rfl, hbefore, hpath, rfl⟩
        exact ⟨d :: before, d', behind, path, rfl, List.forall_mem_cons.2 ⟨hcycle, hbefore⟩,
          hpath, rfl⟩
      · rintro ⟨before, d', behind, path, hds, hbefore, hpath, rfl⟩
        cases before with
        | nil =>
          cases hds
          cases hcycle.symm.trans hpath
        | cons first before =>
          cases hds
          exact ⟨before, d', behind, path, rfl, (List.forall_mem_cons.1 hbefore).2, hpath, rfl⟩

/-- Whatever the check reports is found in the module. -/
theorem found_of_check (h : m.check = .error e) : e.Found m := by
  rcases bind_eq_error.1 h with h | ⟨_, _, h⟩
  · rcases checkNames_eq_error h with
      ⟨rfl, hblank⟩ | ⟨name, rfl, hname⟩ | ⟨d, hd, owner, rfl, howner⟩
    · exact ⟨rfl, hblank⟩
    · exact ⟨rfl, hname.duplicate⟩
    · exact ⟨d, hd, rfl, howner⟩
  rcases bind_eq_error.1 h with h | ⟨_, _, h⟩
  · exact found_of_checkDefinitions (fun _ hd => hd) h
  · obtain ⟨before, d, behind, path, htypes, -, hpath, rfl⟩ := checkInheritance_eq_error.1 h
    exact ⟨d, htypes ▸ List.mem_append_cons_self, hpath⟩

end Typings.WellFormed
