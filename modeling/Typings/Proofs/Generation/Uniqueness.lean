import Typings.Proofs.Generation.Session

/-!
# Declaring once

The definitions that a text declares are the roots and, behind them, the enumerations that are known
and not excluded. The roots are different definitions and none of them is an enumeration. The
enumerations are declared reference by reference, so one that is known by several references is
declared for each of them.
-/

namespace Typings.Generation

section Counting

variable {α β : Type} [DecidableEq β] {f : α → Option β} {as : List α} {b : β}

/-- A value is found once or not at all in a list of different keys exactly when no two of them lead
to it. -/
lemma count_filterMap_le_one_iff (h : as.Nodup) :
    (as.filterMap f).count b ≤ 1 ↔
      ∀ a ∈ as, ∀ a' ∈ as, f a = some b → f a' = some b → a = a' := by
  induction as with
  | nil => simp
  | cons x as ih =>
    obtain ⟨hx, h⟩ := List.nodup_cons.1 h
    by_cases hfx : f x = some b
    · -- No other key may lead to the value, since the first does.
      rw [List.filterMap_cons_some hfx, List.count_cons_self, Nat.add_one_le_iff,
        Nat.lt_one_iff, List.count_eq_zero, List.mem_filterMap]
      constructor
      · intro hnone a ha a' ha' hfa hfa'
        rcases List.mem_cons.1 ha with rfl | ha
        · rcases List.mem_cons.1 ha' with rfl | ha'
          · rfl
          · exact absurd ⟨a', ha', hfa'⟩ hnone
        · exact absurd ⟨a, ha, hfa⟩ hnone
      · rintro hone ⟨a, ha, hfa⟩
        exact hx (hone x List.mem_cons_self a (List.mem_cons_of_mem _ ha) hfx hfa ▸ ha)
    · have hcount : ((x :: as).filterMap f).count b = (as.filterMap f).count b := by
        cases hvalue : f x with
        | none => rw [List.filterMap_cons_none hvalue]
        | some y =>
          have hne : y ≠ b := fun heq => hfx (hvalue.trans (congrArg some heq))
          rw [List.filterMap_cons_some hvalue, List.count_cons_of_ne hne]
      rw [hcount, ih h]
      constructor
      · intro hone a ha a' ha' hfa hfa'
        rcases List.mem_cons.1 ha with rfl | ha
        · exact absurd hfa hfx
        rcases List.mem_cons.1 ha' with rfl | ha'
        · exact absurd hfa' hfx
        exact hone a ha a' ha' hfa hfa'
      · intro hone a ha a' ha'
        exact hone a (List.mem_cons_of_mem _ ha) a' (List.mem_cons_of_mem _ ha')

end Counting

namespace Configuration

variable {c c' : Configuration} {kind : DeclarationKind} {d : TypeDef}

lemma Registered.isEnum_of_mem_roots (hc : c.Registered) (hd : d ∈ c.roots) : d.isEnum = false := by
  obtain ⟨ref, href, hroot⟩ := mem_roots.1 hd
  exact hc.proper ref href d (eq_ref_of_rootDefinition? hroot).2

/-- The roots are different definitions. -/
lemma Registered.count_roots_le_one (hc : c.Registered) : c.roots.count d ≤ 1 := by
  rw [roots_eq, (List.mergeSort_perm _ _).count_eq, count_filterMap_le_one_iff hc.types]
  intro ref _ ref' _ href href'
  exact (eq_ref_of_rootDefinition? href).1.trans (eq_ref_of_rootDefinition? href').1.symm

lemma isEnum_of_mem_shownEnums (hd : d ∈ c.shownEnums) : d.isEnum = true := by
  obtain ⟨ref, _, href⟩ := List.mem_filterMap.1 hd
  exact (shownEnum?_eq_some.1 href).2.1

/-- A class or interface is declared at most once; an enumeration is when no two references to it
are known that are not excluded. -/
lemma Registered.count_declared_le_one_iff (hc : c.Registered) (hc' : c'.Registered) :
    (c.roots ++ c'.shownEnums).count d ≤ 1 ↔
      ∀ ref ∈ c'.registrations.enums, ∀ ref' ∈ c'.registrations.enums,
        c'.shownEnum? ref = some d → c'.shownEnum? ref' = some d → ref = ref' := by
  rw [← count_filterMap_le_one_iff hc'.enums, List.count_append]
  cases henum : d.isEnum with
  | true =>
    have hroots : c.roots.count d = 0 := by
      rw [List.count_eq_zero]
      exact fun hd => Bool.false_ne_true ((hc.isEnum_of_mem_roots hd).symm.trans henum)
    rw [hroots, Nat.zero_add]
    rfl
  | false =>
    have hshown : c'.shownEnums.count d = 0 := by
      rw [List.count_eq_zero]
      exact fun hd => Bool.false_ne_true (henum.symm.trans (isEnum_of_mem_shownEnums hd))
    rw [hshown, Nat.add_zero]
    exact iff_of_true hc.count_roots_le_one (hshown.trans_le (Nat.zero_le 1))

/-- Whatever the calls, a text declares each definition once or not at all, but for an enumeration
that is known by several references which are not excluded. This takes a call that registers the
enumeration with arguments. -/
theorem declared_once_iff {m : Module} (check : m.check = .ok ()) (calls : List Call)
    {kind out c'} (h : ((new m).afterAll calls).generate kind = .ok (out, c')) :
    ∃ imports blocks, out = imports ++ String.join blocks ∧
      List.Forall₂ (fun d block => ((new m).afterAll calls).block kind d = .ok block)
        (((new m).afterAll calls).roots ++ c'.shownEnums) blocks ∧
      ∀ d,
        ((((new m).afterAll calls).roots ++ c'.shownEnums).count d ≤ 1 ↔
          ∀ ref ∈ c'.registrations.enums, ∀ ref' ∈ c'.registrations.enums,
            c'.shownEnum? ref = some d → c'.shownEnum? ref' = some d → ref = ref') ∧
        ((∀ call ∈ calls, ∀ args, ¬call.Registers (.generic d.name args)) →
          (((new m).afterAll calls).roots ++ c'.shownEnums).count d ≤ 1) := by
  have distinct : (new m).model.names.Nodup := (Module.wellFormed_of_check check).distinct
  have hc := (registered_new m).afterAll distinct calls
  have hafter : ((new m).afterAll (calls ++ [.generate kind])) = c' := by
    rw [afterAll, List.foldl_append]
    exact after_of_generate h
  have hc' := (registered_new m).afterAll distinct (calls ++ [.generate kind])
  rw [hafter] at hc'
  obtain ⟨imports, blocks, enums, rfl, hblocks, henums⟩ := exists_blocks_of_generate_all h
  refine ⟨imports, blocks ++ enums, ?_, List.rel_append hblocks henums, fun d => ?_⟩
  · rw [String.join_append, String.append_assoc]
  have hiff := hc.count_declared_le_one_iff (d := d) hc'
  refine ⟨hiff, fun hcalls => hiff.2 ?_⟩
  -- Every reference to the enumeration is its bare name.
  have bare {ref} (href : ref ∈ c'.registrations.enums) (hshown : c'.shownEnum? ref = some d) :
      ref = d.ref := by
    rcases eq_ref_or_generic_of_definition? (shownEnum?_eq_some.1 hshown).1 with heq | ⟨args, rfl⟩
    · exact heq
    rw [← hafter] at href
    rcases mem_enums_afterAll href with href | ⟨call, hcall, href⟩ | ⟨n, href⟩
    · cases href
    · rcases List.mem_append.1 hcall with hcall | hcall
      · exact absurd href (hcalls call hcall args)
      · obtain rfl := List.mem_singleton.1 hcall
        cases href
    · cases href
  intro ref href ref' href' hshown hshown'
  exact (bare href hshown).trans (bare href' hshown').symm

/-- An enumeration. -/
def wax : TypeDef :=
  { name := "Color", kind := .enumType, members := [⟨"Red", 0, none⟩] }

/-- A class with a property of the enumeration. -/
def crayon : TypeDef :=
  { name := "Crayon", kind := .classType, properties := [⟨"Wax", .named "Color", false, none⟩] }

/-- The class and the enumeration. -/
def crayons : Module :=
  { name := "Crayons", types := [crayon, wax] }

lemma check_crayons : crayons.check = .ok () := by
  decide +kernel

/-- Registers the enumeration by its bare name, and the class with the module and alone. -/
def bareCalls : List Call :=
  [.step (.addTypeRef (.named "Color")), .step .addModule, .step (.addTypeRef (.named "Crayon")),
    .step (.setSwitch .orderByName false)]

/-- What the calls register. -/
def crayonBox : Configuration :=
  { model := crayons
    options := { orderByName := false }
    registrations := { types := [.named "Crayon"], enums := [.named "Color"] } }

/-- The declaration of the class. -/
def crayonRoot : Root :=
  { declaration := .type ⟨"Crayon", none, [⟨"wax", "Color", "Color.Red"⟩]⟩
    enums := [.named "Color"] }

/-- The class and the enumeration are declared once, however often they are registered and met. -/
theorem declared_once_iff_of_crayons :
    crayons.check = .ok () ∧ (new crayons).afterAll bareCalls = crayonBox ∧
      (∀ call ∈ bareCalls, ∀ name args, ¬call.Registers (.generic name args)) ∧
      ∃ out c', crayonBox.generate .interface = .ok (out, c') ∧
        (crayonBox.roots ++ c'.shownEnums).count wax ≤ 1 ∧
        (crayonBox.roots ++ c'.shownEnums).count crayon ≤ 1 := by
  have hafter : (new crayons).afterAll bareCalls = crayonBox := rfl
  have hbare : ∀ call ∈ bareCalls, ∀ name args, ¬call.Registers (.generic name args) := by
    simp [bareCalls, Call.Registers]
  have h := generate_of_singleton .interface
    (show crayonBox.registrations.types.filterMap crayonBox.rootDefinition? = [crayon] from rfl) rfl
    (show crayonBox.declare crayon = .ok crayonRoot by decide +kernel)
  obtain ⟨imports, blocks, _, _, honce⟩ := declared_once_iff check_crayons bareCalls (hafter ▸ h)
  rw [hafter] at honce
  refine ⟨check_crayons, hafter, hbare, _, _, h, (honce wax).2 ?_, (honce crayon).2 ?_⟩
  · exact fun call hcall => hbare call hcall wax.name
  · exact fun call hcall => hbare call hcall crayon.name

/-- Registers the enumeration by its bare name and with an argument. -/
def appliedCalls : List Call :=
  [.step (.addType "Color"), .step (.addType "Color<int>")]

/-- What the calls register. -/
def twofold : Configuration :=
  { model := crayons
    registrations := { enums := [.named "Color", .generic "Color" [.builtin .int32]] } }

lemma afterAll_appliedCalls : (new crayons).afterAll appliedCalls = twofold := by
  have hbare : readRef "Color" = .ok (.named "Color") := by decide +kernel
  have happlied : readRef "Color<int>" = .ok (.generic "Color" [.builtin .int32]) := by
    decide +kernel
  rw [appliedCalls, afterAll, List.foldl_cons, List.foldl_cons, List.foldl_nil, after_addType hbare,
    after_addType happlied]
  rfl

/-- Nothing but the enumeration is declared, and twice. -/
lemma generate_twofold :
    twofold.generate .interface =
      .ok ("export enum Color\n\x7b\n    Red = 0,\n\x7d\n\n" ++
        "export enum Color\n\x7b\n    Red = 0,\n\x7d\n\n", twofold) := by
  refine generate_eq_ok.2 ⟨_, _, script_eq_ok.2 ⟨[], [], rfl, ?_, rfl, rfl⟩, ?_, rfl⟩
  · have hfound : twofold.registrations.types.filterMap twofold.rootDefinition? = [] := rfl
    rw [roots_eq, hfound, List.mergeSort_nil]
    rfl
  · decide +kernel

/-- The enumeration is known by both references and declared twice. -/
theorem not_forall_declared_once :
    ¬ ∀ m : Module, m.check = .ok () → ∀ calls kind out c',
      ((new m).afterAll calls).generate kind = .ok (out, c') →
      ∀ d, (((new m).afterAll calls).roots ++ c'.shownEnums).count d ≤ 1 := by
  intro h
  have hcount := h crayons check_crayons appliedCalls .interface _ twofold
    (afterAll_appliedCalls ▸ generate_twofold) wax
  have hshown : twofold.shownEnums = [wax, wax] := by decide +kernel
  rw [List.count_append, hshown] at hcount
  exact absurd ((Nat.le_add_left _ _).trans hcount) (by decide)

end Configuration

end Typings.Generation
