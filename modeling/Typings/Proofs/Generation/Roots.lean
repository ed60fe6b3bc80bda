import Mathlib.Data.List.Permutation
import Typings.Proofs.Generation.Emission
import Typings.Proofs.Module.Walk
import Typings.Proofs.WellFormed.Rules

/-!
# The order of roots

The definitions to declare are sorted by their depth of inheritance and then by name. In a module
that passes the check an ancestor has a lesser depth than its descendants, so its block stands
before theirs, in whatever order the types were registered.
-/

namespace Typings.Generation

/-- The order of roots: by depth of inheritance, and by name at one depth. -/
def rootLe (m : Module) (a b : TypeDef) : Bool :=
  m.inheritanceDepth a.ref < m.inheritanceDepth b.ref ||
    (m.inheritanceDepth a.ref == m.inheritanceDepth b.ref && nameLe a.name b.name)

variable {m : Module}

/-- A root stays before another of greater depth, and before one of the same depth and a greater
name. -/
lemma rootLe_iff {a b} :
    rootLe m a b = true ↔ m.inheritanceDepth a.ref < m.inheritanceDepth b.ref ∨
      m.inheritanceDepth a.ref = m.inheritanceDepth b.ref ∧ a.name ≤ b.name := by
  simp [rootLe, nameLe]

/-- The order of roots is transitive. -/
lemma rootLe_trans (a b c : TypeDef) (hab : rootLe m a b) (hbc : rootLe m b c) : rootLe m a c := by
  rw [rootLe_iff] at *
  rcases hab with hab | ⟨hab, hab'⟩
  · exact .inl (by omega)
  · rcases hbc with hbc | ⟨hbc, hbc'⟩
    · exact .inl (by omega)
    · exact .inr ⟨hab.trans hbc, String.le_trans hab' hbc'⟩

/-- The order of roots is total. -/
lemma rootLe_total (a b : TypeDef) : rootLe m a b || rootLe m b a := by
  rw [Bool.or_eq_true, rootLe_iff, rootLe_iff]
  rcases Nat.lt_trichotomy (m.inheritanceDepth a.ref) (m.inheritanceDepth b.ref) with h | h | h
  · exact .inl (.inl h)
  · rcases String.le_total a.name b.name with hn | hn
    · exact .inl (.inr ⟨h, hn⟩)
    · exact .inr (.inr ⟨h.symm, hn⟩)
  · exact .inr (.inl h)

namespace Configuration

variable {c : Configuration}

/-- A registered type that is declared is registered by its bare name. -/
lemma eq_ref_of_rootDefinition? {ref d} (h : c.rootDefinition? ref = some d) :
    ref = d.ref ∧ c.model.definition? ref = some d := by
  cases ref with
  | named n =>
    obtain ⟨hd, _⟩ := Option.filter_eq_some_iff.1 h
    exact ⟨congrArg TypeRef.named (Module.name_of_find? hd).symm, hd⟩
  | generic n args => cases h
  | builtin b => cases h
  | parameter n => cases h
  | nullable t => cases h
  | array t => cases h

/-- The roots are the definitions to declare for the registered types, in the order of roots. -/
lemma roots_eq (c : Configuration) :
    c.roots = (c.registrations.types.filterMap c.rootDefinition?).mergeSort (rootLe c.model) := by
  have hsnd : (c.registrations.types.filterMap fun ref =>
      (c.rootDefinition? ref).map fun d => (c.model.inheritanceDepth ref, d)).map (·.2) =
      c.registrations.types.filterMap c.rootDefinition? := by
    rw [List.map_filterMap]
    congr 1
    funext ref
    cases c.rootDefinition? ref <;> rfl
  rw [roots, List.map_mergeSort, hsnd]
  -- The depth that is sorted by is the one of the bare name.
  intro x hx y hy
  obtain ⟨ref, _, href⟩ := List.mem_filterMap.1 hx
  obtain ⟨ref', _, href'⟩ := List.mem_filterMap.1 hy
  obtain ⟨a, ha, rfl⟩ := Option.map_eq_some_iff.1 href
  obtain ⟨b, hb, rfl⟩ := Option.map_eq_some_iff.1 href'
  rw [(eq_ref_of_rootDefinition? ha).1, (eq_ref_of_rootDefinition? hb).1]
  rfl

/-- A single definition needs no sorting. -/
lemma roots_of_singleton {d} (h : c.registrations.types.filterMap c.rootDefinition? = [d]) :
    c.roots = [d] := by
  rw [roots_eq, h, List.mergeSort_singleton]

/-- The roots are the definitions to declare for the registered types. -/
lemma mem_roots {d} :
    d ∈ c.roots ↔ ∃ ref ∈ c.registrations.types, c.rootDefinition? ref = some d := by
  rw [roots_eq, List.mem_mergeSort, List.mem_filterMap]

/-- A root is a type of the module. -/
lemma mem_types_of_mem_roots {d} (h : d ∈ c.roots) : d ∈ c.model.types := by
  obtain ⟨ref, _, hd⟩ := mem_roots.1 h
  exact Module.mem_of_definition? (eq_ref_of_rootDefinition? hd).2

/-- The roots come in the order of roots. -/
lemma pairwise_roots (c : Configuration) : c.roots.Pairwise fun a b => rootLe c.model a b := by
  rw [roots_eq]
  exact List.pairwise_mergeSort rootLe_trans rootLe_total _

/-- Of two roots the one of lesser depth comes first, wherever they stand. -/
lemma lt_of_inheritanceDepth_lt {i j : Nat} {a b} (ha : c.roots[i]? = some a)
    (hb : c.roots[j]? = some b)
    (h : c.model.inheritanceDepth a.ref < c.model.inheritanceDepth b.ref) : i < j := by
  obtain ⟨hi, rfl⟩ := List.getElem?_eq_some_iff.1 ha
  obtain ⟨hj, rfl⟩ := List.getElem?_eq_some_iff.1 hb
  rcases Nat.lt_trichotomy i j with hij | rfl | hji
  · exact hij
  · exact absurd h (Nat.lt_irrefl _)
  · have hle := List.pairwise_iff_getElem.1 c.pairwise_roots j i hj hi hji
    rw [rootLe_iff] at hle
    omega

/-- The block of text that declares a root, with the empty line behind it. -/
def block (c : Configuration) (kind : DeclarationKind) (d : TypeDef) : Except Error String :=
  (c.declare d).map fun root => root.declaration.text kind c.options.enumStyle ++ "\n"

/-- The enumerations known once the roots are declared. -/
def knownEnums (c : Configuration) (roots : List Root) : List TypeRef :=
  insertAll (roots.flatMap (·.enums)) c.registrations.enums

/-- A script is composed when its imports are named and its roots declared. -/
lemma script_eq_ok {script enums} :
    c.script = .ok (script, enums) ↔
      ∃ imports roots, c.importList = .ok imports ∧ c.roots.mapM c.declare = .ok roots ∧
        enums = c.knownEnums roots ∧
        script = ⟨imports, roots.map (·.declaration), enums.filterMap c.enumDeclaration?⟩ := by
  simp only [Configuration.script, bind_eq_ok, knownEnums]
  constructor
  · rintro ⟨imports, himports, roots, hroots, h⟩
    cases h
    exact ⟨imports, roots, himports, hroots, rfl, rfl⟩
  · rintro ⟨imports, roots, himports, hroots, rfl, rfl⟩
    exact ⟨imports, himports, roots, hroots, rfl⟩

/-- The configuration that knows the given enumerations. -/
def knowing (c : Configuration) (enums : List TypeRef) : Configuration :=
  { c with registrations := { c.registrations with enums } }

/-- What is generated is the text of the script, and what changes are the known enumerations. -/
lemma generate_eq_ok {kind out c'} :
    c.generate kind = .ok (out, c') ↔
      ∃ script enums, c.script = .ok (script, enums) ∧
        out = script.text kind c.options.enumStyle ∧ c' = c.knowing enums := by
  rw [generate_eq_script, bind_eq_ok]
  constructor
  · rintro ⟨⟨script, enums⟩, hscript, hout⟩
    cases hout
    exact ⟨script, enums, hscript, rfl, rfl⟩
  · rintro ⟨script, enums, hscript, rfl, rfl⟩
    exact ⟨(script, enums), hscript, rfl⟩

/-- A single root is declared alone. -/
lemma generate_of_singleton (kind : DeclarationKind) {d root}
    (hroot : c.registrations.types.filterMap c.rootDefinition? = [d])
    (himports : c.registrations.imports = []) (hdeclare : c.declare d = .ok root) :
    c.generate kind =
      .ok (Script.text kind c.options.enumStyle
        ⟨[], [root.declaration], (c.knownEnums [root]).filterMap c.enumDeclaration?⟩,
        c.knowing (c.knownEnums [root])) := by
  refine generate_eq_ok.2 ⟨_, _, script_eq_ok.2 ⟨[], [root], ?_, ?_, rfl, rfl⟩, rfl, rfl⟩
  · rw [importList, himports]
    rfl
  · rw [roots_of_singleton hroot, List.mapM_cons, hdeclare]
    rfl

/-- The enumeration that is declared for a known reference, unless it is excluded. -/
def shownEnum? (c : Configuration) (ref : TypeRef) : Option TypeDef :=
  (c.model.definition? ref).filter fun d => d.isEnum && !c.registrations.isExcluded ref d.name

/-- The enumerations that are declared behind the roots. -/
def shownEnums (c : Configuration) : List TypeDef :=
  c.registrations.enums.filterMap c.shownEnum?

/-- A reference stands for an enumeration to declare when it leads to it and is not excluded. -/
lemma shownEnum?_eq_some {ref d} :
    c.shownEnum? ref = some d ↔ c.model.definition? ref = some d ∧ d.isEnum = true ∧
      c.registrations.isExcluded ref d.name = false := by
  rw [shownEnum?, Option.filter_eq_some_iff, Bool.and_eq_true, Bool.not_eq_true']

/-- The block of an enumeration is that of its declaration. -/
lemma block_of_isEnum {kind d} (h : d.isEnum = true) :
    c.block kind d = .ok ((c.declareEnum d).text c.options.enumStyle ++ "\n") := by
  rw [block, declare, if_pos h]
  rfl

/-- The text of a declared root, with the empty line behind it. -/
def rootText (c : Configuration) (kind : DeclarationKind) (root : Root) : String :=
  root.declaration.text kind c.options.enumStyle ++ "\n"

/-- Named imports and declared roots are written in their order, with the enumerations that are
known then behind them. -/
lemma generate_of_declare (kind : DeclarationKind) {imports roots}
    (himports : c.importList = .ok imports) (hroots : c.roots.mapM c.declare = .ok roots) :
    c.generate kind =
      .ok (Script.importsText imports ++ String.join (roots.map (c.rootText kind)) ++
        String.join ((c.knowing (c.knownEnums roots)).shownEnums.map fun d =>
          (c.declareEnum d).text c.options.enumStyle ++ "\n"),
        c.knowing (c.knownEnums roots)) := by
  refine generate_eq_ok.2
    ⟨_, _, script_eq_ok.2 ⟨imports, roots, himports, hroots, rfl, rfl⟩, ?_, rfl⟩
  have henums : (c.knownEnums roots).filterMap c.enumDeclaration? =
      (c.knowing (c.knownEnums roots)).shownEnums.map c.declareEnum := by
    rw [shownEnums, List.map_filterMap]
    rfl
  rw [Script.text, List.map_map, henums, List.map_map]
  rfl

/-- What is generated is the imports, the blocks of the roots in their order, and the blocks of the
enumerations that are known then. -/
lemma exists_blocks_of_generate_all {kind out c'} (h : c.generate kind = .ok (out, c')) :
    ∃ imports blocks enums, out = imports ++ String.join blocks ++ String.join enums ∧
      List.Forall₂ (fun d block => c.block kind d = .ok block) c.roots blocks ∧
      List.Forall₂ (fun d block => c.block kind d = .ok block) c'.shownEnums enums := by
  obtain ⟨script, known, hscript, -, -⟩ := generate_eq_ok.1 h
  obtain ⟨imports, roots, himports, hroots, -, -⟩ := script_eq_ok.1 hscript
  cases h.symm.trans (generate_of_declare kind himports hroots)
  refine ⟨Script.importsText imports, roots.map (c.rootText kind), _, rfl, ?_, ?_⟩
  · rw [List.forall₂_map_right_iff]
    exact (mapM_eq_ok.1 hroots).imp fun d root hd => map_eq_ok.2 ⟨root, hd, rfl⟩
  · rw [List.forall₂_map_right_iff, List.forall₂_same]
    intro d hd
    obtain ⟨ref, _, href⟩ := List.mem_filterMap.1 hd
    exact block_of_isEnum (shownEnum?_eq_some.1 href).2.1

/-- What is generated is the imports, the blocks of the roots in their order, and the enumerations.
-/
lemma exists_blocks_of_generate {kind out c'} (h : c.generate kind = .ok (out, c')) :
    ∃ imports blocks enums, out = imports ++ String.join blocks ++ enums ∧
      List.Forall₂ (fun d block => c.block kind d = .ok block) c.roots blocks := by
  obtain ⟨imports, blocks, enums, hout, hblocks, _⟩ := exists_blocks_of_generate_all h
  exact ⟨imports, blocks, String.join enums, hout, hblocks⟩

/-- In a module that passes the check, the block of an ancestor stands before those of its
descendants. -/
theorem ancestor_blocks_first (check : c.model.check = .ok ()) {kind out c'}
    (h : c.generate kind = .ok (out, c')) :
    ∃ imports blocks enums, out = imports ++ String.join blocks ++ enums ∧
      List.Forall₂ (fun d block => c.block kind d = .ok block) c.roots blocks ∧
      ∀ (i j : Nat) (a d : TypeDef), c.roots[i]? = some a → c.roots[j]? = some d →
        c.model.Ancestor a d → i < j := by
  obtain ⟨imports, blocks, enums, hout, hblocks⟩ := exists_blocks_of_generate h
  refine ⟨imports, blocks, enums, hout, hblocks, fun i j a d ha hd hanc => ?_⟩
  have wf := Module.wellFormed_of_check check
  have hmem := mem_types_of_mem_roots (List.mem_of_getElem? hd)
  exact lt_of_inheritanceDepth_lt ha hd (hanc.inheritanceDepth_lt wf.distinct wf.acyclic hmem)

/-- Three generations whose names come in the opposite order. -/
def generations : Module :=
  { name := "Generations"
    types := [
      { name := "Child", kind := .classType, base := some (.named "Parent") },
      { name := "Parent", kind := .classType, base := some (.named "Root") },
      { name := "Root", kind := .interfaceType }] }

/-- Three generations, registered with the youngest first. -/
def youngestFirst : Configuration :=
  { model := generations
    options := { preserveInheritance := true }
    registrations := { types := [.named "Child", .named "Root", .named "Parent"] } }

/-- The generations from the eldest on. -/
def eldestFirst : List TypeDef :=
  [{ name := "Root", kind := .interfaceType },
    { name := "Parent", kind := .classType, base := some (.named "Root") },
    { name := "Child", kind := .classType, base := some (.named "Parent") }]

lemma roots_youngestFirst : youngestFirst.roots = eldestFirst := by cbv

/-- The generation before comes first though neither names nor registrations say so. -/
theorem ancestor_blocks_first_of_generations :
    youngestFirst.model.check = .ok () ∧
      ∃ out c', youngestFirst.generate .interface = .ok (out, c') ∧
        ∃ imports blocks enums, out = imports ++ String.join blocks ++ enums ∧
          List.Forall₂ (fun d block => youngestFirst.block .interface d = .ok block)
            youngestFirst.roots blocks ∧
          ∀ (i j : Nat) (a d : TypeDef), youngestFirst.roots[i]? = some a →
            youngestFirst.roots[j]? = some d → youngestFirst.model.Ancestor a d → i < j := by
  have check : youngestFirst.model.check = .ok () := by decide +kernel
  have declare : youngestFirst.roots.mapM youngestFirst.declare =
      .ok [⟨.type ⟨"Root", none, []⟩, []⟩, ⟨.type ⟨"Parent", some "Root", []⟩, []⟩,
        ⟨.type ⟨"Child", some "Parent", []⟩, []⟩] := by
    rw [roots_youngestFirst]
    decide +kernel
  have h := generate_of_declare .interface rfl declare
  exact ⟨check, _, _, h, ancestor_blocks_first check h⟩

end Configuration

end Typings.Generation
