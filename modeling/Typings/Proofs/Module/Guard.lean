import Mathlib.Data.Finset.Card
import Typings.Module.Iterable
import Typings.Module.Properties
import Typings.Proofs.Module.Walk

/-!
# Guarded walks

A walk along bases keeps the names that it has entered and ends before it would enter one again. So
it ends on every module, though a base may lead back to where the walk has been and references may
grow from base to base: each step enters one more name of the module, whatever the reference is.

The lineages of a module are found with the names that have not been entered yet. They are the same
walks. Where no name comes twice the guard plays no part, and the walk goes all the way along the
bases.
-/

namespace Typings.Module

/-- A walk under way: the names that it has entered, and the reference that it stands at. -/
structure Walk where
  entered : List String
  ref : TypeRef

/-- A step enters the name of the definition that the walk stands at, unless the walk has done so
before, and goes on to the next reference, if there is one. -/
def step? (m : Module) (next : Link → Option TypeRef) (w : Walk) : Option Walk :=
  (m.definition? w.ref).bind fun d =>
    if d.name ∈ w.entered then none
    else (next ⟨w.ref, d⟩).map fun base => ⟨d.name :: w.entered, base⟩

/-- The walk after that many steps, if it has not ended before. -/
def walk? (m : Module) (next : Link → Option TypeRef) : Nat → Walk → Option Walk
  | 0, w => some w
  | n + 1, w => (m.step? next w).bind (m.walk? next n)

/-- The walk stands at the given references, one after the other, and ends at the last of them. It
enters no name twice, and stands at one reference more than the module has names at most. -/
structure Ends (m : Module) (next : Link → Option TypeRef) (start : Walk) (refs : List TypeRef) :
    Prop where
  stands : ∀ i, (m.walk? next i start).map (·.ref) = refs[i]?
  once : ∀ i w, m.walk? next i start = some w → w.entered.Nodup
  bound : refs.length ≤ m.names.toFinset.card + 1

/-- The links on the way from a reference when nothing ends it but a type that leads no further and
a reference that leads to no type. -/
inductive Unguarded (m : Module) (next : Link → Option TypeRef) : TypeRef → List Link → Prop where
  | foreign {ref} :
    m.definition? ref = none →
    Unguarded m next ref []
  | last {ref d} :
    m.definition? ref = some d →
    next ⟨ref, d⟩ = none →
    Unguarded m next ref [⟨ref, d⟩]
  | link {ref d base links} :
    m.definition? ref = some d →
    next ⟨ref, d⟩ = some base →
    Unguarded m next base links →
    Unguarded m next ref (⟨ref, d⟩ :: links)

variable {m : Module} {next : Link → Option TypeRef}

section Steps

variable {w w' : Walk} {ref : TypeRef} {d : TypeDef}

lemma step?_eq_some :
    m.step? next w = some w' ↔
      ∃ d base, m.definition? w.ref = some d ∧ d.name ∉ w.entered ∧ next ⟨w.ref, d⟩ = some base ∧
        w' = ⟨d.name :: w.entered, base⟩ := by
  rw [step?, Option.bind_eq_some_iff]
  constructor
  · rintro ⟨d, hd, h⟩
    split at h
    case isTrue => cases h
    case isFalse hnew =>
      obtain ⟨base, hbase, rfl⟩ := Option.map_eq_some_iff.1 h
      exact ⟨d, base, hd, hnew, hbase, rfl⟩
  · rintro ⟨d, base, hd, hnew, hbase, rfl⟩
    exact ⟨d, hd, by rw [if_neg hnew, hbase]; rfl⟩

/-- Each step has entered one more name of the module, and none of them twice. -/
lemma entered_walk? {n} (h : m.walk? next n w = some w') (hw : w.entered.Nodup) :
    w'.entered.Nodup ∧ ∃ names, w'.entered = names ++ w.entered ∧ names.length = n ∧
      ∀ name ∈ names, name ∈ m.names := by
  induction n generalizing w with
  | zero =>
    cases h
    exact ⟨hw, [], rfl, rfl, nofun⟩
  | succ n ih =>
    obtain ⟨w₁, hstep, hrest⟩ := Option.bind_eq_some_iff.1 h
    obtain ⟨d, base, hd, hnew, -, rfl⟩ := step?_eq_some.1 hstep
    obtain ⟨hnodup, names, hnames, hlength, hmem⟩ := ih hrest (List.nodup_cons.2 ⟨hnew, hw⟩)
    refine ⟨hnodup, names ++ [d.name], ?_, ?_, ?_⟩
    · rw [hnames, List.append_assoc, List.singleton_append]
    · rw [List.length_append, hlength, List.length_singleton]
    · rw [List.forall_mem_append, List.forall_mem_singleton]
      exact ⟨hmem, name_mem_of_definition? hd⟩

/-- No walk takes more steps than the module has names. -/
lemma le_card_of_walk? {n} (h : m.walk? next n w = some w') (hw : w.entered.Nodup) :
    n ≤ m.names.toFinset.card := by
  obtain ⟨hnodup, names, hnames, rfl, hmem⟩ := entered_walk? h hw
  rw [hnames] at hnodup
  rw [← List.toFinset_card_of_nodup hnodup.of_append_left]
  apply Finset.card_le_card
  intro name hname
  exact List.mem_toFinset.2 (hmem name (List.mem_toFinset.1 hname))

/-- A lineage is a walk: what it has left to enter are the names that the walk has not entered. -/
lemma map_walk?_eq {unseen entered} (h : ∀ n ∈ m.names, n ∈ unseen ↔ n ∉ entered) (i : Nat) :
    (m.walk? next i ⟨entered, ref⟩).map (·.ref) =
      (ref :: (m.lineageFrom next unseen ref).filterMap next)[i]? := by
  induction unseen, ref using lineageFrom_induct m next generalizing entered i with
  | foreign unseen ref hd =>
    rw [lineageFrom_of_none hd]
    cases i with
    | zero => rfl
    | succ i => simp [walk?, step?, hd]
  | seen unseen ref d hd hseen =>
    have hentered : d.name ∈ entered := by
      by_contra hnew
      exact hseen ((h _ (name_mem_of_definition? hd)).2 hnew)
    rw [lineageFrom_of_seen hd hseen]
    cases i with
    | zero => rfl
    | succ i => simp [walk?, step?, hd, hentered]
  | last unseen ref d hd hmem hnext =>
    rw [lineageFrom_of_last hd hmem hnext, List.filterMap_cons_none hnext]
    cases i with
    | zero => rfl
    | succ i => simp [walk?, step?, hd, hnext]
  | link unseen ref d base hd hmem hnext ih =>
    have hnew : d.name ∉ entered := (h _ (name_mem_of_definition? hd)).1 hmem
    rw [lineageFrom_of_next hd hmem hnext, List.filterMap_cons_some hnext]
    cases i with
    | zero => rfl
    | succ i =>
      have hstep : m.step? next ⟨entered, ref⟩ = some ⟨d.name :: entered, base⟩ :=
        step?_eq_some.2 ⟨d, base, hd, hnew, hnext, rfl⟩
      rw [walk?, hstep, Option.bind_some, List.getElem?_cons_succ]
      apply ih
      intro n hn
      rw [List.mem_filter, h n hn, bne_iff_ne, List.mem_cons, not_or, and_comm]

/-- A walk ends when it stands at the given references. -/
lemma ends_of_stands {start refs} (hstart : start.entered.Nodup)
    (stands : ∀ i, (m.walk? next i start).map (·.ref) = refs[i]?) : m.Ends next start refs where
  stands := stands
  once i w hw := (entered_walk? hw hstart).1
  bound := by
    -- Were there more references, the walk would stand at one of them after too many steps.
    by_contra hlong
    have hlt : m.names.toFinset.card + 1 < refs.length := Nat.lt_of_not_le hlong
    have hstands := stands (m.names.toFinset.card + 1)
    rw [List.getElem?_eq_getElem hlt] at hstands
    obtain ⟨w, hw, -⟩ := Option.map_eq_some_iff.1 hstands
    exact Nat.not_succ_le_self _ (le_card_of_walk? hw hstart)

/-- The chain of a reference is a walk that has entered no name at its start. -/
lemma ends_chain (m : Module) (next : Link → Option TypeRef) (ref : TypeRef) :
    m.Ends next ⟨[], ref⟩ (m.chain next ref) := by
  apply ends_of_stands List.nodup_nil
  intro i
  exact map_walk?_eq (by simp) i

/-- The ancestors of a type are found by a walk that has entered the name of the type at its start.
-/
lemma ends_ancestors {base} (hbase : d.base = some base) :
    m.Ends Link.boundBase ⟨[d.name], base⟩
      (base :: (m.ancestors d).filterMap Link.boundBase) := by
  apply ends_of_stands (List.nodup_singleton _)
  intro i
  rw [ancestors, hbase]
  apply map_walk?_eq
  intro n hn
  simp [hn]

end Steps

section Guards

variable {ref : TypeRef} {d : TypeDef} {links : List Link}

/-- What is met with nothing to guard it comes from the module. -/
lemma Unguarded.name_mem_names (h : m.Unguarded next ref links) :
    ∀ l ∈ links, l.definition.name ∈ m.names := by
  induction h with
  | foreign => exact nofun
  | last hd => exact List.forall_mem_singleton.2 (name_mem_of_definition? hd)
  | link hd _ _ ih => exact List.forall_mem_cons.2 ⟨name_mem_of_definition? hd, ih⟩

/-- Where no name comes twice, a walk that has seen none of the names goes all the way. -/
lemma Unguarded.lineageFrom_eq {unseen} (h : m.Unguarded next ref links)
    (distinct : (links.map (·.definition.name)).Nodup)
    (hunseen : ∀ l ∈ links, l.definition.name ∈ unseen) :
    m.lineageFrom next unseen ref = links := by
  induction h generalizing unseen with
  | foreign hd => exact lineageFrom_of_none hd
  | last hd hnext => exact lineageFrom_of_last hd (hunseen _ List.mem_cons_self) hnext
  | @link ref d base links hd hnext _ ih =>
    obtain ⟨hmem, hrest⟩ := List.forall_mem_cons.1 hunseen
    rw [List.map_cons, List.nodup_cons] at distinct
    rw [lineageFrom_of_next hd hmem hnext, ih distinct.2]
    intro l hl
    refine List.mem_filter.2 ⟨hrest l hl, bne_iff_ne.2 fun hname => ?_⟩
    exact distinct.1 (hname ▸ List.mem_map_of_mem hl)

lemma Unguarded.chain_eq (h : m.Unguarded next ref links)
    (distinct : (links.map (·.definition.name)).Nodup) :
    m.chain next ref = ref :: links.filterMap next := by
  rw [chain, lineage, h.lineageFrom_eq distinct h.name_mem_names]

lemma Unguarded.ancestors_eq {base} (hbase : d.base = some base)
    (h : m.Unguarded Link.boundBase base links)
    (distinct : (d.name :: links.map (·.definition.name)).Nodup) : m.ancestors d = links := by
  rw [List.nodup_cons] at distinct
  rw [ancestors, hbase]
  apply h.lineageFrom_eq distinct.2
  intro l hl
  refine List.mem_filter.2 ⟨h.name_mem_names l hl, bne_iff_ne.2 fun hname => ?_⟩
  exact distinct.1 (hname ▸ List.mem_map_of_mem hl)

end Guards

/-- The questions about a module are answered by walks that end on every module: whether a reference
is iterable and what its elements are, at the first collection among the references of a walk, its
depth, by their number, and the properties of a type, behind its own. No walk enters a name twice,
so none stands at more references than one more than there are names, and no depth is greater. Where
no name comes twice on the way along the bases the guards change nothing: walks go all the way, and
the depth is one more than the number of bases on it. -/
theorem walks_end (m : Module) (ref : TypeRef) (d : TypeDef) :
    (∃ refs, m.Ends Link.properBase ⟨[], ref⟩ refs ∧
        m.isIterable ref = refs.any TypeRef.isCollection) ∧
      (∃ refs, m.Ends Link.boundBase ⟨[], ref⟩ refs ∧
        m.elementType? ref = (refs.find? TypeRef.isCollection).bind TypeRef.element?) ∧
      (∃ refs, m.Ends Link.base ⟨[], ref⟩ refs ∧ m.inheritanceDepth ref = refs.length) ∧
      m.inheritanceDepth ref ≤ m.names.toFinset.card + 1 ∧
      (∀ base, d.base = some base →
        m.Ends Link.boundBase ⟨[d.name], base⟩
            (base :: (m.ancestors d).filterMap Link.boundBase) ∧
          m.properties d false = d.properties ++
            firstOfName (d.properties.map (·.name)) ((m.ancestors d).flatMap Link.properties)) ∧
      (∀ next links, m.Unguarded next ref links → (links.map (·.definition.name)).Nodup →
        m.chain next ref = ref :: links.filterMap next) ∧
      (∀ base links, d.base = some base → m.Unguarded Link.boundBase base links →
        (d.name :: links.map (·.definition.name)).Nodup → m.ancestors d = links) ∧
      ∀ links, m.Unguarded Link.base ref links → (links.map (·.definition.name)).Nodup →
        m.inheritanceDepth ref = 1 + (links.filterMap Link.base).length := by
  refine ⟨⟨_, ends_chain m _ ref, rfl⟩, ⟨_, ends_chain m _ ref, rfl⟩, ⟨_, ends_chain m _ ref, rfl⟩,
    (ends_chain m _ ref).bound, fun _ hbase => ⟨ends_ancestors hbase, rfl⟩,
    fun _ _ => Unguarded.chain_eq, fun _ _ hbase h => h.ancestors_eq hbase,
    fun links h distinct => ?_⟩
  rw [inheritanceDepth, h.chain_eq distinct, List.length_cons, Nat.add_comm]

/-- A twig, whose base is a branch. -/
def twig : TypeDef where
  name := "Twig"
  kind := .classType
  base := some (.named "Branch")

/-- A branch, whose base is no type of the module. -/
def branch : TypeDef where
  name := "Branch"
  kind := .classType
  base := some (.named "Tree")

/-- A type whose references grow from base to base. -/
def fern : TypeDef where
  name := "Fern"
  kind := .classType
  base := some (.generic "Fern" [.generic "Fern" [.parameter "T"]])
  params := ["T"]

/-- A module in which one walk goes all the way, and another has to be ended. -/
def woods : Module :=
  { name := "Woods", types := [twig, branch, fern] }

/-- The twig has the branch and the foreign tree above it, and the branch is all that it inherits
from. -/
theorem walks_end_of_woods :
    woods.Unguarded Link.base twig.ref [⟨twig.ref, twig⟩, ⟨branch.ref, branch⟩] ∧
      woods.inheritanceDepth twig.ref = 3 ∧ woods.ancestors twig = [⟨branch.ref, branch⟩] := by
  have htwig : woods.definition? twig.ref = some twig := by decide +kernel
  have hbranch : woods.definition? branch.ref = some branch := by decide +kernel
  have htree : woods.definition? (.named "Tree") = none := by decide +kernel
  have hway : woods.Unguarded Link.base twig.ref [⟨twig.ref, twig⟩, ⟨branch.ref, branch⟩] :=
    .link htwig rfl (.link hbranch rfl (.foreign htree))
  have hbound : woods.Unguarded Link.boundBase branch.ref [⟨branch.ref, branch⟩] :=
    .link hbranch rfl (.foreign htree)
  obtain ⟨-, -, -, -, -, -, hancestors, hdepth⟩ := walks_end woods twig.ref twig
  exact ⟨hway, hdepth _ hway (by decide), hancestors _ _ rfl hbound (by decide)⟩

/-- The walk from a fern stands at one greater fern and goes no further. -/
example :
    woods.chain Link.boundBase (.generic "Fern" [.builtin .int32]) =
      [.generic "Fern" [.builtin .int32], .generic "Fern" [.generic "Fern" [.builtin .int32]]] := by
  cbv

end Typings.Module
