import Typings.Proofs.Generation.Discovery

/-!
# Members of an enumeration

Members that share a value are written once. Two tests decide it: a member is shown under the name
of the first member with its value, and a name that is written already is passed over. Where the
names of the members differ the two agree, and what is written follows the values as they are first
met.
-/

namespace Typings

/-- The name is that of the first member with the value. -/
def TypeDef.FirstWith (d : TypeDef) (value : Int) (name : String) : Prop :=
  ∃ before e after, d.members = before ++ e :: after ∧ e.value = value ∧ e.name = name ∧
    ∀ other ∈ before, other.value ≠ value

namespace TypeDef

variable {d : TypeDef} {value value' : Int} {name name' : String}

/-- One name is shown for a value. -/
lemma FirstWith.name_unique (h : d.FirstWith value name) (h' : d.FirstWith value name') :
    name = name' := by
  obtain ⟨before, e, after, hmembers, rfl, rfl, hbefore⟩ := h
  obtain ⟨before', e', after', hmembers', hvalue, rfl, hbefore'⟩ := h'
  have hfind : d.members.find? (·.value == e.value) = some e :=
    List.find?_eq_some_iff_append.2
      ⟨beq_self_eq_true _, before, after, hmembers, by simpa using hbefore⟩
  have hfind' : d.members.find? (·.value == e.value) = some e' :=
    List.find?_eq_some_iff_append.2
      ⟨beq_iff_eq.2 hvalue, before', after', hmembers', by simpa using hbefore'⟩
  rw [Option.some.inj (hfind.symm.trans hfind')]

/-- Where the names of members differ, a name is shown for one value. -/
lemma FirstWith.value_unique (hnames : (d.members.map (·.name)).Nodup) (h : d.FirstWith value name)
    (h' : d.FirstWith value' name) : value = value' := by
  obtain ⟨before, e, after, hmembers, rfl, rfl, -⟩ := h
  obtain ⟨before', e', after', hmembers', rfl, hname, -⟩ := h'
  have he : e ∈ d.members := hmembers ▸ List.mem_append_right _ List.mem_cons_self
  have he' : e' ∈ d.members := hmembers' ▸ List.mem_append_right _ List.mem_cons_self
  rw [List.inj_on_of_nodup_map hnames he he' hname.symm]

end TypeDef

namespace Generation

variable {d : TypeDef}

/-- The name that a member is shown under is that of the first member with its value. -/
lemma firstWith_shown {e : EnumMember} (he : e ∈ d.members) :
    d.FirstWith e.value ((d.displayName? e.value).getD e.name) := by
  obtain ⟨first, hfirst⟩ : ∃ first, d.members.find? (·.value == e.value) = some first :=
    Option.isSome_iff_exists.1 (List.find?_isSome.2 ⟨e, he, beq_self_eq_true _⟩)
  obtain ⟨hvalue, before, after, hmembers, hbefore⟩ := List.find?_eq_some_iff_append.1 hfirst
  refine ⟨before, first, after, hmembers, eq_of_beq hvalue, ?_, fun other hother => ?_⟩
  · rw [TypeDef.displayName?, hfirst]
    rfl
  · simpa using hbefore other hother

/-- No name is written twice. -/
lemma nodup_enumMembers (written : List String) (rest : List EnumMember) :
    ((enumMembers d written rest).map (·.1)).Nodup ∧
      ∀ line ∈ enumMembers d written rest, line.1 ∉ written := by
  induction rest generalizing written with
  | nil => exact ⟨.nil, fun _ h => absurd h List.not_mem_nil⟩
  | cons e rest ih =>
    rw [enumMembers]
    generalize (d.displayName? e.value).getD e.name = name
    split
    case isTrue => exact ih written
    case isFalse hname =>
      obtain ⟨hnodup, hfresh⟩ := ih (name :: written)
      constructor
      · rw [List.map_cons, List.nodup_cons]
        refine ⟨fun hmem => ?_, hnodup⟩
        obtain ⟨line, hline, rfl⟩ := List.mem_map.1 hmem
        exact hfresh line hline List.mem_cons_self
      · intro line hline
        rcases List.mem_cons.1 hline with rfl | hline
        · exact hname
        · exact fun hmem => hfresh line hline (List.mem_cons_of_mem _ hmem)

/-- Behind members whose values are `seen`, the lines follow the other values as they are first met.
-/
lemma enumMembers_lines (hnames : (d.members.map (·.name)).Nodup) {seen : List Int}
    {written : List String}
    (hseen : ∀ {value name}, d.FirstWith value name → (name ∈ written ↔ value ∈ seen))
    {rest : List EnumMember} (hrest : rest ⊆ d.members) :
    List.Forall₂ (fun line value => line.2 = value ∧ d.FirstWith value line.1)
      (enumMembers d written rest) ((rest.map (·.value)).filter (· ∉ seen)).eraseDups := by
  induction rest generalizing seen written with
  | nil => exact .nil
  | cons e rest ih =>
    obtain ⟨he, hrest⟩ := List.cons_subset.1 hrest
    have hfirst := firstWith_shown he
    rw [enumMembers, List.map_cons]
    generalize (d.displayName? e.value).getD e.name = name at hfirst ⊢
    -- The name is written already exactly when the value is seen already.
    split
    case isTrue hname =>
      rw [List.filter_cons_of_neg (by simpa using (hseen hfirst).1 hname)]
      exact ih hseen hrest
    case isFalse hname =>
      have hvalue : e.value ∉ seen := fun h => hname ((hseen hfirst).2 h)
      rw [List.filter_cons_of_pos (by simpa using hvalue), List.eraseDups_cons, List.filter_filter]
      refine .cons ⟨rfl, hfirst⟩ ?_
      have hnext : ∀ {value' name'}, d.FirstWith value' name' →
          (name' ∈ name :: written ↔ value' ∈ e.value :: seen) := by
        intro value' name' h
        rw [List.mem_cons, List.mem_cons, hseen h]
        refine or_congr_left ⟨?_, ?_⟩
        · rintro rfl
          exact h.value_unique hnames hfirst
        · rintro rfl
          exact h.name_unique hfirst
      have hfilter : (rest.map (·.value)).filter (· ∉ e.value :: seen) =
          (rest.map (·.value)).filter fun value => !value == e.value && decide (value ∉ seen) := by
        refine List.filter_congr fun value _ => ?_
        by_cases hsame : value = e.value
        · simp [hsame]
        · simp [hsame]
      rw [← hfilter]
      exact ih hnext hrest

namespace Context

variable {c : Context} {p : Property}

/-- A property of the type of an enumeration is initialised by the first member. -/
lemma field_of_enumeration {name : String} {first : EnumMember} {rest : List EnumMember}
    (hfree : c.mappings.find? p.type = none) (hshape : c.model.classify p.type = .enumeration d)
    (hnot : p.type.isNullable = false) (hmembers : d.members = first :: rest) :
    c.field (name, p) = .ok ⟨name, d.name, d.name ++ "." ++ first.name⟩ := by
  have hspell : c.spell p.type = .ok d.name := by
    refine spell_of_classify hshape ?_
    have hwraps := (Module.classify_eq_enumeration.1 hshape).1
    generalize p.type = t at hwraps hfree hnot
    cases hwraps with
    | bare => exact hfree
    | nullable => cases hnot
  have hadmits : c.admitsNull p = false := by
    rw [admitsNull, hshape]
    exact hnot
  rw [field, propertyType, hspell, hadmits, defaultValue, hfree, hshape]
  simp only [hmembers, hnot]
  rfl

/-- The first member has a line of its own name. -/
lemma first_mem_declareEnum {first : EnumMember} {rest : List EnumMember}
    (hmembers : d.members = first :: rest) :
    (first.name, first.value) ∈ (c.declareEnum d).members := by
  have hname : d.displayName? first.value = some first.name := by
    rw [TypeDef.displayName?, hmembers,
      List.find?_cons_of_pos (by exact beq_self_eq_true first.value)]
    rfl
  have hlines : (c.declareEnum d).members = (first.name, first.value) ::
      enumMembers d [first.name] rest := by
    rw [declareEnum, hmembers, enumMembers, hname]
    rfl
  rw [hlines]
  exact List.mem_cons_self

/-- The block of an enumeration has a line for each name that it writes, and no name twice. Where
the names of the members differ, the lines follow the distinct values as they are first met, each
under the name of the first member with its value. The literal that initialises a property of the
enumeration names a member that has a line. -/
theorem declareEnum_faithful (c : Context) (d : TypeDef) (style : EnumStyle) :
    (c.declareEnum d).text style =
        "export enum " ++ d.name ++ "\n\x7b\n" ++
          String.join ((c.declareEnum d).members.map fun line =>
            match style with
            | .numeric => "    " ++ line.1 ++ " = " ++ toString line.2 ++ ",\n"
            | .string => "    " ++ line.1 ++ " = '" ++ line.1 ++ "',\n") ++ "\x7d\n" ∧
      ((c.declareEnum d).members.map (·.1)).Nodup ∧
      ((d.members.map (·.name)).Nodup →
        List.Forall₂ (fun line value => line.2 = value ∧ d.FirstWith value line.1)
          (c.declareEnum d).members (d.members.map (·.value)).eraseDups) ∧
      ∀ name p, c.mappings.find? p.type = none → c.model.classify p.type = .enumeration d →
        p.type.isNullable = false → d.members ≠ [] →
          ∃ member value, c.field (name, p) = .ok ⟨name, d.name, d.name ++ "." ++ member⟩ ∧
            (member, value) ∈ (c.declareEnum d).members := by
  refine ⟨?_, (nodup_enumMembers [] d.members).1, fun hnames => ?_,
    fun name p hfree hshape hnot hsome => ?_⟩
  · cases style with
    | numeric => rfl
    | string => rfl
  · have hseen : ∀ {value name}, d.FirstWith value name → (name ∈ [] ↔ value ∈ ([] : List Int)) :=
      fun _ => iff_of_false List.not_mem_nil List.not_mem_nil
    have hlines := enumMembers_lines hnames hseen (List.Subset.refl d.members)
    rwa [List.filter_eq_self.2 fun _ _ => decide_eq_true List.not_mem_nil] at hlines
  · obtain ⟨first, rest, hmembers⟩ := List.exists_cons_of_ne_nil hsome
    exact ⟨first.name, first.value, field_of_enumeration hfree hshape hnot hmembers,
      first_mem_declareEnum hmembers⟩

/-- An enumeration with two names for one value. -/
def levelEnum : TypeDef :=
  { name := "Level", kind := .enumType
    members := [⟨"Low", 0, none⟩, ⟨"Minimum", 0, none⟩, ⟨"High", 5, none⟩] }

/-- The context of the enumeration alone. -/
def levelContext : Context :=
  { model := { name := "Levels", types := [levelEnum] } }

/-- The second name of a value has no line, and a property is initialised by the first. -/
theorem declareEnum_faithful_of_level :
    (levelContext.declareEnum levelEnum).text .numeric =
        "export enum Level\n\x7b\n    Low = 0,\n    High = 5,\n\x7d\n" ∧
      List.Forall₂ (fun line value => line.2 = value ∧ levelEnum.FirstWith value line.1)
        (levelContext.declareEnum levelEnum).members [0, 5] ∧
      ∃ member value,
        levelContext.field ("grade", ⟨"Grade", .named "Level", false, none⟩) =
            .ok ⟨"grade", "Level", "Level." ++ member⟩ ∧
          (member, value) ∈ (levelContext.declareEnum levelEnum).members := by
  obtain ⟨htext, -, hlines, hinitial⟩ := declareEnum_faithful levelContext levelEnum .numeric
  refine ⟨htext.trans (by decide +kernel), hlines (by decide +kernel), ?_⟩
  exact hinitial "grade" ⟨"Grade", .named "Level", false, none⟩ (by decide +kernel)
    (by decide +kernel) rfl (by decide +kernel)

end Context

end Generation

end Typings
