import Typings.Proofs.Manifest.Scope
import Typings.Proofs.Markup.Document
import Typings.Proofs.Module.Hiding
import Typings.Proofs.Module.Walk

/-!
# Flattening inheritance

The walk from a type substitutes arguments in each base on its way and goes on from there. Read base
by base, the properties that a type inherits are those of its base with the arguments in their
types. The two agree when every base covers the parameters of what it refers to, since substitutions
then compose.

They part where a base is a bare parameter. By itself such a type inherits nothing, but the walk
from a type below it knows what stands for the parameter, and goes on to that when it is a type of
the module.
-/

namespace Typings.Module

variable {m : Module} {σ : Bindings}

/-- The reference is no parameter, and covers the parameters of what it refers to. -/
structure Applied (m : Module) (ref : TypeRef) : Prop where
  notParameter : ∀ p, ref ≠ .parameter p
  covers : ∀ d, m.definition? ref = some d → (ref.bindings d.params).Covers d.params

/-- Definitions mention their own parameters only, and the bases that are no parameters cover those
of what they refer to. -/
structure Closed (m : Module) : Prop where
  ownParams : ∀ d ∈ m.types, d.Scoped
  applied : ∀ d ∈ m.types, ∀ base, d.base = some base → (∀ p, base ≠ .parameter p) → m.Applied base

/-- Where the base of a link is a bare parameter, what stands for it is no type of the module. -/
def HaltsAtParameters (m : Module) (links : List Link) : Prop :=
  ∀ l ∈ links, ∀ p, l.base = some (.parameter p) →
    ∀ ref, l.boundBase = some ref → m.definition? ref = none

lemma HaltsAtParameters.tail {l links} (h : m.HaltsAtParameters (l :: links)) :
    m.HaltsAtParameters links :=
  fun k hk => h k (List.mem_cons_of_mem l hk)

/-- Where the base of a link is a bare parameter, what stands for it covers the parameters of what
it refers to. -/
def CoversAtParameters (m : Module) (links : List Link) : Prop :=
  ∀ l ∈ links, ∀ p, l.base = some (.parameter p) →
    ∀ ref, l.boundBase = some ref → ∀ d, m.definition? ref = some d →
      (ref.bindings d.params).Covers d.params

lemma CoversAtParameters.tail {l links} (h : m.CoversAtParameters (l :: links)) :
    m.CoversAtParameters links :=
  fun k hk => h k (List.mem_cons_of_mem l hk)

/-- Where a walk halts at parameters there is nothing to cover. -/
lemma HaltsAtParameters.covers {links} (h : m.HaltsAtParameters links) :
    m.CoversAtParameters links := by
  intro l hl p hp ref href d hd
  rw [h l hl p hp ref href] at hd
  cases hd

/-- A substitution keeps a reference applied. -/
lemma Applied.substitute {ref} (h : m.Applied ref) : m.Applied (ref.substitute σ) where
  notParameter p := by
    cases ref with
    | parameter q => exact absurd rfl (h.notParameter q)
    | _ => simp [TypeRef.substitute]
  covers d hd := by
    rw [definition?_substitute h.notParameter] at hd
    rw [TypeRef.bindings_substitute h.notParameter]
    exact (h.covers d hd).substitute

section Link

variable {ref : TypeRef} {d : TypeDef}

/-- A substitution in a link is one in its bound base. -/
lemma boundBase_substitute (closed : m.Closed) (applied : m.Applied ref)
    (hd : m.definition? ref = some d) :
    Link.boundBase ⟨ref.substitute σ, d⟩ = (Link.boundBase ⟨ref, d⟩).map (·.substitute σ) := by
  have hscoped := closed.ownParams d (mem_of_definition? hd)
  simp only [Link.boundBase, Link.bindings, TypeRef.bindings_substitute applied.notParameter]
  cases hbase : d.base with
  | none => rfl
  | some base =>
    have hs : base.Scoped d.params := hscoped base (by simp [TypeDef.references, hbase])
    rw [Option.map_some, Option.map_some, Option.map_some,
      TypeRef.substitute_substitute hs (applied.covers d hd)]

/-- A substitution in a link is one in its properties. -/
lemma properties_substitute (closed : m.Closed) (applied : m.Applied ref)
    (hd : m.definition? ref = some d) :
    Link.properties ⟨ref.substitute σ, d⟩ = (Link.properties ⟨ref, d⟩).map (·.substitute σ) := by
  have hscoped := closed.ownParams d (mem_of_definition? hd)
  simp only [Link.properties, Link.bindings, TypeRef.bindings_substitute applied.notParameter,
    List.map_map]
  refine List.map_congr_left fun p hp => ?_
  have hs : p.type.Scoped d.params :=
    hscoped p.type (List.mem_append_right _ (List.mem_map_of_mem hp))
  simp only [Function.comp, Property.substitute,
    TypeRef.substitute_substitute hs (applied.covers d hd)]

end Link

/-- Substituting in the reference that a walk begins with substitutes in the properties on it, where
the walk halts at parameters. A name that inheritance never comes to need not be unseen. -/
lemma properties_lineageFrom_substitute (closed : m.Closed) {name unseen ref}
    (applied : m.Applied ref)
    (avoids : ∀ d, m.definition? ref = some d → ∀ n a, m.climb? n d = some a → a.name ≠ name)
    (halts : m.HaltsAtParameters
      (m.lineageFrom Link.boundBase (unseen.filter (· != name)) (ref.substitute σ))) :
    (m.lineageFrom Link.boundBase (unseen.filter (· != name)) (ref.substitute σ)).flatMap
        Link.properties =
      ((m.lineageFrom Link.boundBase unseen ref).flatMap Link.properties).map (·.substitute σ) := by
  -- One induction for both walks: they meet the same definitions, and end at the same one.
  induction unseen, ref using lineageFrom_induct m Link.boundBase with
  | foreign unseen ref h =>
    have h' := (definition?_substitute (σ := σ) applied.notParameter).trans h
    rw [lineageFrom_of_none h, lineageFrom_of_none h']
    rfl
  | seen unseen ref d h hseen =>
    have h' := (definition?_substitute (σ := σ) applied.notParameter).trans h
    rw [lineageFrom_of_seen h hseen,
      lineageFrom_of_seen h' fun hmem => hseen (List.mem_filter.1 hmem).1]
    rfl
  | last unseen ref d h hmem hnext =>
    have h' := (definition?_substitute (σ := σ) applied.notParameter).trans h
    have hne : d.name ≠ name := avoids d h 0 d rfl
    have hmem' : d.name ∈ unseen.filter (· != name) := List.mem_filter.2 ⟨hmem, by simpa using hne⟩
    have hnext' : Link.boundBase ⟨ref.substitute σ, d⟩ = none := by
      rw [boundBase_substitute closed applied h, hnext, Option.map_none]
    rw [lineageFrom_of_last h hmem hnext, lineageFrom_of_last h' hmem' hnext',
      List.flatMap_singleton, List.flatMap_singleton, properties_substitute closed applied h]
  | link unseen ref d base h hmem hnext ih =>
    have h' := (definition?_substitute (σ := σ) applied.notParameter).trans h
    have hne : d.name ≠ name := avoids d h 0 d rfl
    have hmem' : d.name ∈ unseen.filter (· != name) := List.mem_filter.2 ⟨hmem, by simpa using hne⟩
    have hnext' : Link.boundBase ⟨ref.substitute σ, d⟩ = some (base.substitute σ) := by
      rw [boundBase_substitute closed applied h, hnext, Option.map_some]
    rw [lineageFrom_of_next h' hmem' hnext'] at halts ⊢
    rw [lineageFrom_of_next h hmem hnext, List.flatMap_cons, List.flatMap_cons, List.map_append,
      properties_substitute closed applied h]
    congr 1
    obtain ⟨declared, hdeclared, rfl⟩ := Option.map_eq_some_iff.1 hnext
    by_cases hparam : ∃ p, declared = .parameter p
    · -- Both walks end here: what stands for the parameter is no type of the module.
      obtain ⟨p, rfl⟩ := hparam
      have hend := halts _ List.mem_cons_self p hdeclared _ hnext'
      rw [lineageFrom_of_none hend, lineageFrom_of_none (definition?_eq_none_of_substitute hend)]
      rfl
    · have hproper : ∀ p, declared ≠ .parameter p := fun p hp => hparam ⟨p, hp⟩
      have happlied := closed.applied d (mem_of_definition? h) declared hdeclared hproper
      rw [List.filter_comm] at halts ⊢
      refine ih happlied.substitute (fun e he n a ha => ?_) halts.tail
      rw [definition?_substitute hproper] at he
      have hbase := Extends.baseDefinition? ⟨declared, hdeclared, he⟩
      exact avoids d h (n + 1) a (climb?_succ_of hbase ha)

/-- The properties on a walk mention the parameters in the scope of its first reference only, where
what stands for bare parameters covers the parameters of what it refers to. -/
lemma scoped_properties_lineageFrom (closed : m.Closed) {scope unseen ref}
    (hcovers : ∀ d, m.definition? ref = some d → (ref.bindings d.params).Covers d.params)
    (hs : ref.Scoped scope)
    (covers : m.CoversAtParameters (m.lineageFrom Link.boundBase unseen ref)) :
    ∀ p ∈ (m.lineageFrom Link.boundBase unseen ref).flatMap Link.properties,
      p.type.Scoped scope := by
  have bound {ref d} (hcovers : (ref.bindings d.params).Covers d.params) (hs : ref.Scoped scope)
      (hd : m.definition? ref = some d) {t} (ht : t ∈ d.references) :
      (t.substitute (ref.bindings d.params)).Scoped scope :=
    (closed.ownParams d (mem_of_definition? hd) t ht).substitute hcovers
      fun _ _ => hs.of_mem_bindings
  have properties {ref d} (hcovers : (ref.bindings d.params).Covers d.params)
      (hs : ref.Scoped scope) (hd : m.definition? ref = some d) :
      ∀ p ∈ Link.properties ⟨ref, d⟩, p.type.Scoped scope := by
    intro p hp
    obtain ⟨q, hq, rfl⟩ := List.mem_map.1 hp
    exact bound hcovers hs hd (List.mem_append_right _ (List.mem_map_of_mem hq))
  induction unseen, ref using lineageFrom_induct m Link.boundBase with
  | foreign unseen ref h => simp [lineageFrom_of_none h]
  | seen unseen ref d h hseen => simp [lineageFrom_of_seen h hseen]
  | last unseen ref d h hmem hnext =>
    rw [lineageFrom_of_last h hmem hnext, List.flatMap_singleton]
    exact properties (hcovers d h) hs h
  | link unseen ref d base h hmem hnext ih =>
    rw [lineageFrom_of_next h hmem hnext] at covers ⊢
    rw [List.flatMap_cons, List.forall_mem_append]
    refine ⟨properties (hcovers d h) hs h, ?_⟩
    obtain ⟨declared, hdeclared, rfl⟩ := Option.map_eq_some_iff.1 hnext
    have hin : declared ∈ d.references := by
      simp [TypeDef.references, show d.base = _ from hdeclared]
    refine ih ?_ (bound (hcovers d h) hs h hin) covers.tail
    by_cases hparam : ∃ p, declared = .parameter p
    · obtain ⟨p, rfl⟩ := hparam
      exact covers _ List.mem_cons_self p hdeclared _ hnext
    · have hproper : ∀ p, declared ≠ .parameter p := fun p hp => hparam ⟨p, hp⟩
      exact (closed.applied d (mem_of_definition? h) declared hdeclared hproper).substitute.covers

/-- No base is the bare name of a generic type. -/
def BasesApplied (m : Module) : Prop :=
  ∀ d ∈ m.types, ∀ name b, d.base = some (.named name) → m.find? name = some b → b.isGeneric = false

/-- A well-formed module is closed when its definitions mention their own parameters only and its
bases are applied. -/
lemma WellFormed.closed (wf : m.WellFormed) (ownParams : ∀ d ∈ m.types, d.Scoped)
    (bases : m.BasesApplied) : m.Closed where
  ownParams := ownParams
  applied d hd base hbase hproper := by
    refine ⟨hproper, fun b hb => ?_⟩
    cases base with
    | named name =>
      have hparams : b.params = [] := by simpa [TypeDef.isGeneric] using bases d hd name b hbase hb
      rw [hparams]
      exact Bindings.covers_nil
    | generic name args =>
      have hin : TypeRef.generic name args ∈ d.references := by simp [TypeDef.references, hbase]
      exact Bindings.covers_zip (wf.saturated d hd _ hin name args .here b (mem_of_definition? hb)
        (name_of_definition? hb))
    | _ => cases hb

/-- The properties that a type itself declares have different names. -/
lemma WellFormed.nodup_declared (wf : m.WellFormed) {d} (hd : d ∈ m.types) :
    (d.properties.map (·.name)).Nodup := by
  cases henum : d.isEnum with
  | false => exact (wf.types d hd henum).propertiesDistinct
  | true =>
    rw [(wf.enums d hd henum).properties]
    exact List.nodup_nil

/-- The ancestors of a type with a base are met on the walk from that. -/
lemma ancestors_of_base {d base} (h : d.base = some base) :
    m.ancestors d = m.lineageFrom Link.boundBase (m.names.filter (· != d.name)) base := by
  rw [ancestors, h]

/-- A type without a base has no ancestors. -/
lemma ancestors_of_none {d} (h : d.base = none) : m.ancestors d = [] := by
  rw [ancestors, h]

/-- The properties on the walk from a type are those on the walk from its base with the arguments of
the base in their types, where the walk halts at parameters. -/
lemma properties_ancestors (acyclic : m.Acyclic) (closed : m.Closed) {d base b} (hd : d ∈ m.types)
    (hbase : d.base = some base) (hb : m.definition? base = some b)
    (halts : m.HaltsAtParameters (m.ancestors d)) :
    (m.ancestors d).flatMap Link.properties =
      (b.properties ++ (m.ancestors b).flatMap Link.properties).map
        (·.substitute (base.bindings b.params)) := by
  have hext : m.baseDefinition? d = some b := Extends.baseDefinition? ⟨base, hbase, hb⟩
  have hne : b.name ≠ d.name := acyclic_iff.1 acyclic d hd 0 b (climb?_succ_of hext rfl)
  have hmem : b.name ∈ m.names.filter (· != d.name) :=
    List.mem_filter.2 ⟨name_mem_of_definition? hb, by simpa using hne⟩
  rw [ancestors_of_base hbase] at halts ⊢
  rw [List.map_append]
  cases hnext : b.base with
  | none =>
    have hlast : Link.boundBase ⟨base, b⟩ = none := by rw [Link.boundBase, hnext, Option.map_none]
    rw [lineageFrom_of_last hb hmem hlast, ancestors_of_none hnext]
    simp [Link.properties, Link.bindings, Property.substitute]
  | some declared =>
    have hlink : Link.boundBase ⟨base, b⟩ =
        some (declared.substitute (base.bindings b.params)) := by
      rw [Link.boundBase, hnext, Option.map_some, Link.bindings]
    rw [lineageFrom_of_next hb hmem hlink] at halts ⊢
    rw [List.flatMap_cons, ancestors_of_base hnext]
    congr 1
    by_cases hparam : ∃ p, declared = .parameter p
    · obtain ⟨p, rfl⟩ := hparam
      have hend := halts _ List.mem_cons_self p hnext _ hlink
      rw [lineageFrom_of_none hend, lineageFrom_of_none rfl]
      rfl
    · have hproper : ∀ p, declared ≠ .parameter p := fun p hp => hparam ⟨p, hp⟩
      have happlied := closed.applied b (mem_of_definition? hb) declared hnext hproper
      rw [List.filter_comm] at halts ⊢
      refine properties_lineageFrom_substitute closed happlied (fun e he n a ha => ?_) halts.tail
      -- What the climb from the base of the base comes to lies above the type itself.
      have hup := climb?_succ_of (Extends.baseDefinition? ⟨declared, hnext, he⟩) ha
      exact acyclic_iff.1 acyclic d hd (n + 1) a (climb?_succ_of hext hup)

/-- The properties of a type have different names, and each is the one that the nearest type with a
property of its name declares. Where the walk along the bases halts at parameters, they are its own
properties and, behind them, those of its base with the arguments of the base in their types,
without the names that the type declares itself. They mention its own parameters only, where what
stands for bare parameters on the walk covers the parameters of what it refers to. -/
theorem properties_eq_of_base {text : String} (read : Manifest.ofText text = .ok m)
    (check : m.check = .ok ()) (bases : m.BasesApplied) {d base b} (hd : d ∈ m.types)
    (hbase : d.base = some base) (hb : m.definition? base = some b) :
    (m.HaltsAtParameters (m.ancestors d) →
        m.properties d false =
          d.properties ++
            ((m.properties b false).map (·.substitute (base.bindings b.params))).filter
              (fun p => p.name ∉ d.properties.map (·.name))) ∧
      ((m.properties d false).map (·.name)).Nodup ∧
      (∀ n, (m.properties d false).find? (·.name == n) =
        (d.properties :: (m.ancestors d).map Link.properties).findSome? (·.find? (·.name == n))) ∧
      (m.CoversAtParameters (m.ancestors d) →
        ∀ p ∈ m.properties d false, p.type.Scoped d.params) := by
  have wf := wellFormed_of_check check
  have ownParams := Manifest.scoped_ofText read
  have closed := wf.closed ownParams bases
  have hown := wf.nodup_declared hd
  refine ⟨fun halts => ?_, nodup_properties hown, find?_properties hown, fun covers p hp => ?_⟩
  · rw [properties_eq_firstOfName (wf.nodup_declared (mem_of_definition? hb)),
      ← firstOfName_map_substitute, ← firstOfName_eq_filter,
      ← properties_ancestors wf.acyclic closed hd hbase hb halts]
    rfl
  · have hs : base.Scoped d.params := ownParams d hd base (by simp [TypeDef.references, hbase])
    have hproper : ∀ p, base ≠ .parameter p := by
      rintro p rfl
      cases hb
    rw [properties_eq_firstOfName hown] at hp
    rcases List.mem_append.1 (mem_of_mem_firstOfName hp) with hp | hp
    · exact ownParams d hd p.type (List.mem_append_right _ (List.mem_map_of_mem hp))
    · rw [ancestors_of_base hbase] at covers hp
      exact scoped_properties_lineageFrom closed (closed.applied d hd base hbase hproper).covers hs
        covers p hp

/-- A manifest with a type whose base is its own parameter, given a type of the module, a built-in
type, and a generic type by its bare name. -/
def mixinText : String :=
  "<module name='M'><class name='X'><property name='P' type='int'/></class>" ++
    "<class name='G'><typeParam name='U'/><property name='P' type='U'/></class>" ++
    "<class name='B' base='T'><typeParam name='T'/><property name='Q' type='T'/></class>" ++
    "<class name='D' base='B<X>'/><class name='E' base='B<int>'/>" ++
    "<class name='F' base='B<G>'/></module>"

/-- The type whose base is its own parameter. -/
def mixin : TypeDef :=
  { name := "B", kind := .classType, base := some (.parameter "T"), params := ["T"],
    properties := [⟨"Q", .parameter "T", false, none⟩] }

/-- The type that gives the parameter a type of the module. -/
def overOwn : TypeDef :=
  { name := "D", kind := .classType, base := some (.generic "B" [.named "X"]) }

/-- The type that gives the parameter a built-in type. -/
def overBuiltin : TypeDef :=
  { name := "E", kind := .classType, base := some (.generic "B" [.builtin .int32]) }

/-- The type that gives the parameter a generic type by its bare name. -/
def overGeneric : TypeDef :=
  { name := "F", kind := .classType, base := some (.generic "B" [.named "G"]) }

/-- The module of the manifest. -/
def mixinModule : Module :=
  { name := "M"
    types := [
      { name := "X", kind := .classType, properties := [⟨"P", .builtin .int32, false, none⟩] },
      { name := "G", kind := .classType, params := ["U"],
        properties := [⟨"P", .parameter "U", false, none⟩] },
      mixin, overOwn, overBuiltin, overGeneric] }

/-- The manifest describes the module. -/
lemma ofText_mixinText : Manifest.ofText mixinText = .ok mixinModule := by
  -- Part by part, since a text of this length takes the kernel long to split into characters.
  have hchars : mixinText.toList = _ :=
    String.toList_append.trans <| congrArg₂ _ (String.toList_append.trans <| congrArg₂ _
      (String.toList_append.trans <| congrArg₂ _ (String.toList_append.trans <| congrArg₂ _
        String.toList_ofList String.toList_ofList) String.toList_ofList) String.toList_ofList)
      String.toList_ofList
  have hhead : mixinText.toList.head? ≠ some '\uFEFF' := by
    rw [hchars]
    exact nofun
  rw [Manifest.ofText, Markup.Document.ofText, Markup.tokenize_of_head? hhead, hchars]
  decide +kernel

/-- The module passes the check. -/
lemma check_mixinModule : mixinModule.check = .ok () := by
  decide +kernel

/-- No base in the module is a bare name. -/
lemma basesApplied_mixinModule : mixinModule.BasesApplied := by
  intro d hd name b hbase
  simp only [mixinModule, mixin, overOwn, overBuiltin, overGeneric, List.mem_cons, List.not_mem_nil,
    or_false] at hd
  rcases hd with rfl | rfl | rfl | rfl | rfl | rfl <;> cases hbase

/-- Where the walk goes on through a parameter, a type may inherit more than its base has, and
mention parameters of others. -/
theorem not_properties_eq_of_base :
    (¬ ∀ (text : String) (m : Module), Manifest.ofText text = .ok m → m.check = .ok () →
      m.BasesApplied → ∀ d ∈ m.types, ∀ base b, d.base = some base → m.definition? base = some b →
        m.properties d false =
          d.properties ++
            ((m.properties b false).map (·.substitute (base.bindings b.params))).filter
              (fun p => p.name ∉ d.properties.map (·.name))) ∧
      ¬ ∀ (text : String) (m : Module), Manifest.ofText text = .ok m → m.check = .ok () →
        m.BasesApplied → ∀ d ∈ m.types, ∀ base b, d.base = some base → m.definition? base = some b →
          ∀ p ∈ m.properties d false, p.type.Scoped d.params := by
  constructor
  · intro h
    have hd := h mixinText mixinModule ofText_mixinText check_mixinModule basesApplied_mixinModule
      overOwn (by decide +kernel) (.generic "B" [.named "X"]) mixin rfl rfl
    exact absurd hd (by decide +kernel)
  · intro h
    have hp := h mixinText mixinModule ofText_mixinText check_mixinModule basesApplied_mixinModule
      overGeneric (by decide +kernel) (.generic "B" [.named "G"]) mixin rfl rfl
      ⟨"P", .parameter "U", false, none⟩ (by decide +kernel)
    exact absurd (TypeRef.scoped_parameter.1 hp) List.not_mem_nil

/-- The type that gives the parameter a built-in type inherits what its base has. -/
theorem properties_eq_of_base_of_mixin :
    Manifest.ofText mixinText = .ok mixinModule ∧ mixinModule.check = .ok () ∧
      mixinModule.BasesApplied ∧ overBuiltin ∈ mixinModule.types ∧
      mixinModule.definition? (.generic "B" [.builtin .int32]) = some mixin ∧
      mixinModule.HaltsAtParameters (mixinModule.ancestors overBuiltin) ∧
      mixinModule.properties overBuiltin false =
        overBuiltin.properties ++ ((mixinModule.properties mixin false).map
          (·.substitute [("T", .builtin .int32)])).filter
            (fun p => p.name ∉ overBuiltin.properties.map (·.name)) ∧
      ∀ p ∈ mixinModule.properties overBuiltin false, p.type.Scoped overBuiltin.params := by
  have hd : overBuiltin ∈ mixinModule.types := by decide +kernel
  have hb : mixinModule.definition? (.generic "B" [.builtin .int32]) = some mixin := by
    decide +kernel
  have hancestors : mixinModule.ancestors overBuiltin =
      [⟨.generic "B" [.builtin .int32], mixin⟩] := by decide +kernel
  have halts : mixinModule.HaltsAtParameters (mixinModule.ancestors overBuiltin) := by
    rw [hancestors]
    intro l hl p _ ref href
    obtain rfl := List.mem_singleton.1 hl
    obtain rfl := Option.some.inj href
    rfl
  have main := properties_eq_of_base ofText_mixinText check_mixinModule basesApplied_mixinModule
    hd rfl hb
  exact ⟨ofText_mixinText, check_mixinModule, basesApplied_mixinModule, hd, hb, halts, main.1 halts,
    main.2.2.2 halts.covers⟩

end Typings.Module
