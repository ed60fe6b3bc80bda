import Mathlib.Data.Finset.Card
import Typings.Proofs.Generation.Keys

/-!
# The table of mappings over calls

The table of mappings is used by calls, each with the mapping of a source. A call whose script type
or initial value is blank is refused. Any other puts its mapping in the place of the one of its
source, or behind all others.

Whatever the calls, a source is mapped once: as the last accepted call of it says, or else as it was
at the beginning. The sources stand in the order in which they were first mapped.
-/

namespace Typings.Generation

namespace Mapping

/-- Neither the script type nor the initial value is blank. -/
def Accepted (m : Mapping) : Prop :=
  Text.trim m.script ≠ "" ∧ Text.trim m.initial ≠ ""

instance : DecidablePred Accepted :=
  fun _ => inferInstanceAs (Decidable (_ ∧ _))

/-- The calls that are accepted, in their order. -/
def accepted (calls : List Mapping) : List Mapping :=
  calls.filter fun call => call.Accepted

end Mapping

namespace MappingTable

variable {table : MappingTable} {entry : Mapping}

section Insertion

/-- An entry takes the place of one of its source, or comes behind all entries when there is none.
-/
lemma insertEntry_cases (entry : Mapping) (entries : List Mapping) :
    (∃ before old behind, entries = before ++ old :: behind ∧ old.source = entry.source ∧
        insertEntry entry entries = before ++ entry :: behind) ∨
      (∀ e ∈ entries, e.source ≠ entry.source) ∧
        insertEntry entry entries = entries ++ [entry] := by
  induction entries with
  | nil => exact .inr ⟨nofun, rfl⟩
  | cons e rest ih =>
    rw [insertEntry]
    split
    case isTrue h => exact .inl ⟨[], e, rest, rfl, h, rfl⟩
    case isFalse h =>
      rcases ih with ⟨before, old, behind, hrest, hsource, hinsert⟩ | ⟨hnew, hinsert⟩
      · exact .inl ⟨e :: before, old, behind, congrArg _ hrest, hsource, congrArg _ hinsert⟩
      · exact .inr ⟨List.forall_mem_cons.2 ⟨h, hnew⟩, congrArg _ hinsert⟩

lemma length_sources (table : MappingTable) : table.sources.length = table.size := by
  rw [sources, List.length_map, size]

/-- What is inserted hides what was there of its source, and nothing else. -/
lemma find?_insert (table : MappingTable) (entry : Mapping) (source : TypeRef) :
    (table.insert entry).find? source =
      if entry.source = source then some entry else table.find? source := by
  split
  case isTrue h => exact h ▸ find?_insert_self table entry
  case isFalse h => exact find?_insert_of_ne h

/-- Of what is inserted one after the other the last of a source is found, or else what was there.
-/
lemma find?_foldl_insert (entries : List Mapping) (table : MappingTable) (source : TypeRef) :
    (entries.foldl insert table).find? source =
      (entries.reverse.find? (·.source == source)).or (table.find? source) := by
  induction entries generalizing table with
  | nil => rfl
  | cons e rest ih =>
    -- A later entry counts before this one, and this one before what was there.
    rw [List.foldl_cons, ih, find?_insert, List.reverse_cons, List.find?_append, Option.or_assoc]
    by_cases h : e.source = source <;> simp [h]

/-- The sources of what is inserted one after the other are added to the sources. -/
lemma sources_foldl_insert (entries : List Mapping) (table : MappingTable) :
    (entries.foldl insert table).sources =
      insertAll (entries.map Mapping.source) table.sources := by
  induction entries generalizing table with
  | nil => rfl
  | cons e rest ih => rw [List.foldl_cons, ih, sources_insert]; rfl

lemma source_of_find? {source : TypeRef} (h : table.find? source = some entry) :
    entry.source = source := by
  have hsource := List.find?_some h
  exact eq_of_beq hsource

/-- What a source finds is the entry of that source, when each source is there once. -/
lemma find?_eq_some_iff (distinct : table.sources.Nodup) {source : TypeRef} :
    table.find? source = some entry ↔ entry ∈ table.entries ∧ entry.source = source := by
  constructor
  · intro h
    exact ⟨List.mem_of_find?_eq_some h, source_of_find? h⟩
  · rintro ⟨hmem, rfl⟩
    have hsome : (table.find? entry.source).isSome = true :=
      List.find?_isSome.2 ⟨entry, hmem, beq_self_eq_true _⟩
    obtain ⟨e, he⟩ := Option.isSome_iff_exists.1 hsome
    have hsame : e = entry :=
      List.inj_on_of_nodup_map distinct (List.mem_of_find?_eq_some he) hmem (source_of_find? he)
    exact hsame ▸ he

end Insertion

section Keys

/-- Puts an entry under a key: in the place of the one that is there, else behind all entries. -/
def putUnder (key : TypeRef) (entry : Mapping) : List (TypeRef × Mapping) → List (TypeRef × Mapping)
  | [] => [(key, entry)]
  | (k, e) :: rest => if k = key then (k, entry) :: rest else (k, e) :: putUnder key entry rest

/-- An ordered map in which each entry has been put under its source. -/
def ofEntries (entries : List Mapping) : List (TypeRef × Mapping) :=
  entries.foldl (fun pairs e => putUnder e.source e pairs) []

/-- The entries of the table with their sources as keys. -/
def keyed (table : MappingTable) : List (TypeRef × Mapping) :=
  table.entries.map fun e => (e.source, e)

/-- A key finds what its source finds. -/
lemma lookup_keyed (table : MappingTable) (source : TypeRef) :
    table.keyed.lookup source = table.find? source := by
  obtain ⟨entries⟩ := table
  simp only [keyed, find?]
  induction entries with
  | nil => rfl
  | cons e rest ih =>
    rw [List.map_cons, List.lookup_cons, List.find?_cons, ih, BEq.comm]

/-- Putting an entry under its source inserts it. -/
lemma putUnder_keyed (table : MappingTable) (entry : Mapping) :
    putUnder entry.source entry table.keyed = (table.insert entry).keyed := by
  obtain ⟨entries⟩ := table
  simp only [keyed, insert]
  induction entries with
  | nil => rfl
  | cons e rest ih =>
    rw [List.map_cons, putUnder, insertEntry]
    split
    case isTrue h => rw [List.map_cons, h]
    case isFalse => rw [List.map_cons, ih]

lemma foldl_putUnder_keyed (entries : List Mapping) (table : MappingTable) :
    entries.foldl (fun pairs e => putUnder e.source e pairs) table.keyed =
      (entries.foldl insert table).keyed := by
  induction entries generalizing table with
  | nil => rfl
  | cons e rest ih => rw [List.foldl_cons, putUnder_keyed, ih, List.foldl_cons]

/-- The mappings of the built-in types are those that are inserted into nothing one after the other.
-/
lemma foldl_insert_builtin : builtin.entries.foldl insert ⟨[]⟩ = builtin := by
  decide +kernel

/-- Entries that are inserted behind the mappings of the built-in types are kept under their
sources. -/
lemma ofEntries_builtin_append (entries : List Mapping) :
    ofEntries (builtin.entries ++ entries) = (entries.foldl insert builtin).keyed := by
  have hempty : ([] : List (TypeRef × Mapping)) = keyed ⟨[]⟩ := rfl
  rw [ofEntries, hempty, foldl_putUnder_keyed, List.foldl_append, foldl_insert_builtin]

end Keys

section Calls

/-- The answer to a call: the table with the mapping, or why the mapping is refused. -/
def answer (table : MappingTable) (call : Mapping) : Except Error MappingTable :=
  table.add call.source call.script call.initial call.nullable

/-- The table after a call. -/
def after (table : MappingTable) (call : Mapping) : MappingTable :=
  match table.answer call with
  | .ok table' => table'
  | .error _ => table

/-- The table after calls one after the other. -/
def afterAll (table : MappingTable) (calls : List Mapping) : MappingTable :=
  calls.foldl after table

/-- What a call answers and which table it leaves: it is refused and the table stays as it was, or
its mapping takes the place of the one of its source while the others stay where they are, or its
source is new and its mapping comes behind the others. -/
inductive Outcome (table : MappingTable) (call : Mapping) :
    Except Error MappingTable → MappingTable → Prop where
  | blankScript :
    Text.trim call.script = "" →
    Outcome table call (.error (.mapping call.source .blankScript)) table
  | blankInitial :
    Text.trim call.script ≠ "" → Text.trim call.initial = "" →
    Outcome table call (.error (.mapping call.source .blankDefault)) table
  | replaced {before old behind} :
    call.Accepted → table.entries = before ++ old :: behind → old.source = call.source →
    Outcome table call (.ok ⟨before ++ call :: behind⟩) ⟨before ++ call :: behind⟩
  | added :
    call.Accepted → (∀ e ∈ table.entries, e.source ≠ call.source) →
    Outcome table call (.ok ⟨table.entries ++ [call]⟩) ⟨table.entries ++ [call]⟩

/-- A call is refused for its script type before its initial value. Otherwise its mapping is
inserted. -/
lemma answer_eq (table : MappingTable) (call : Mapping) :
    table.answer call =
      if Text.trim call.script = "" then .error (.mapping call.source .blankScript)
      else if Text.trim call.initial = "" then .error (.mapping call.source .blankDefault)
      else .ok (table.insert call) := by
  simp only [answer, add, Mapping.make, Text.trim_eq_empty_iff]
  split
  case isTrue => rfl
  case isFalse => split <;> rfl

/-- A call inserts its mapping when it is accepted. -/
lemma after_eq (table : MappingTable) (call : Mapping) :
    table.after call = if call.Accepted then table.insert call else table := by
  rw [after, answer_eq]
  by_cases hscript : Text.trim call.script = ""
  · rw [if_pos hscript, if_neg fun h => h.1 hscript]
  by_cases hinitial : Text.trim call.initial = ""
  · rw [if_neg hscript, if_pos hinitial, if_neg fun h => h.2 hinitial]
  · rw [if_neg hscript, if_neg hinitial, if_pos ⟨hscript, hinitial⟩]

lemma outcome (table : MappingTable) (call : Mapping) :
    Outcome table call (table.answer call) (table.after call) := by
  rw [answer_eq, after_eq]
  by_cases hscript : Text.trim call.script = ""
  · rw [if_pos hscript, if_neg fun h => h.1 hscript]
    exact .blankScript hscript
  by_cases hinitial : Text.trim call.initial = ""
  · rw [if_neg hscript, if_pos hinitial, if_neg fun h => h.2 hinitial]
    exact .blankInitial hscript hinitial
  have haccepted : call.Accepted := ⟨hscript, hinitial⟩
  rw [if_neg hscript, if_neg hinitial, if_pos haccepted, insert]
  rcases insertEntry_cases call table.entries with
    ⟨before, old, behind, hentries, hsource, hinsert⟩ | ⟨hnew, hinsert⟩
  · rw [hinsert]
    exact .replaced haccepted hentries hsource
  · rw [hinsert]
    exact .added haccepted hnew

/-- Refused calls leave no trace: the accepted ones are inserted one after the other. -/
lemma afterAll_eq (table : MappingTable) (calls : List Mapping) :
    table.afterAll calls = (Mapping.accepted calls).foldl insert table := by
  rw [afterAll, Mapping.accepted, List.foldl_filter]
  congr 1
  funext table call
  simp only [after_eq, decide_eq_true_eq]

lemma nodup_sources_afterAll (distinct : table.sources.Nodup) (calls : List Mapping) :
    (table.afterAll calls).sources.Nodup := by
  rw [afterAll_eq, sources_foldl_insert]
  exact nodup_insertAll distinct

/-- The sources that are new follow those that are there, each where it is first accepted. -/
lemma sources_afterAll (table : MappingTable) (calls : List Mapping) :
    (table.afterAll calls).sources = table.sources ++
      (((Mapping.accepted calls).map Mapping.source).filter (· ∉ table.sources)).eraseDups := by
  rw [afterAll_eq, sources_foldl_insert, insertAll_eq_append]
  simp

/-- New elements, each at its first occurrence, are as many as there are different ones. -/
lemma length_eraseDups_filter (refs known : List TypeRef) :
    (refs.filter (· ∉ known)).eraseDups.length = (refs.toFinset \ known.toFinset).card := by
  -- What is added to nothing stands there once.
  rw [← insertAll_nil, ← List.toFinset_card_of_nodup (nodup_insertAll List.nodup_nil)]
  congr 1
  ext ref
  simp only [List.mem_toFinset, mem_insertAll, List.not_mem_nil, false_or, List.mem_filter,
    decide_eq_true_eq, Finset.mem_sdiff]

lemma size_afterAll (table : MappingTable) (calls : List Mapping) :
    (table.afterAll calls).size = table.size +
      (((Mapping.accepted calls).map Mapping.source).toFinset \ table.sources.toFinset).card := by
  rw [← length_sources, sources_afterAll, List.length_append, length_eraseDups_filter,
    length_sources]

end Calls

/-- What a table is after calls on the mappings of the built-in types. -/
structure Reflects (calls : List Mapping) (table : MappingTable) : Prop where
  /-- When the mappings of the built-in types and then the accepted ones are put under their
  sources, the entries of the table are there in their order, each under its own source. -/
  keyed : ofEntries (builtin.entries ++ Mapping.accepted calls) = table.keyed
  /-- A key finds what the table has for it. -/
  found : ∀ source,
    (ofEntries (builtin.entries ++ Mapping.accepted calls)).lookup source = table.find? source
  distinct : table.sources.Nodup
  stored : ∀ source entry,
    table.find? source = some entry ↔ entry ∈ table.entries ∧ entry.source = source
  /-- The last accepted call of a source stands, or else the mapping of the built-in type. -/
  last : ∀ source, table.find? source =
    ((Mapping.accepted calls).reverse.find? (·.source == source)).or (builtin.find? source)
  /-- The other sources follow the built-in types, each where it is first accepted. -/
  order : table.sources = builtin.sources ++
    (((Mapping.accepted calls).map Mapping.source).filter (· ∉ builtin.sources)).eraseDups
  size : table.size = builtin.size +
    (((Mapping.accepted calls).map Mapping.source).toFinset \ builtin.sources.toFinset).card
  /-- No source moves, whatever calls follow. -/
  unmoved : ∀ later, table.sources <+: (table.afterAll later).sources
  outcome : ∀ call, Outcome table call (table.answer call) (table.after call)

/-- Whatever the calls on the mappings of the built-in types, accepted and refused ones mixed, each
source is mapped once, as the last accepted call of it says or else as for the built-in type, and
the sources stand in the order in which they were first mapped. Each further call is refused and
leaves the table as it is, or puts its mapping in the place of the one of its source or behind all
others. -/
theorem reflects_afterAll (calls : List Mapping) : Reflects calls (builtin.afterAll calls) where
  keyed := by rw [ofEntries_builtin_append, afterAll_eq]
  found source := by rw [ofEntries_builtin_append, ← afterAll_eq, lookup_keyed]
  distinct := nodup_sources_afterAll nodup_sources_builtin calls
  stored _ _ := find?_eq_some_iff (nodup_sources_afterAll nodup_sources_builtin calls)
  last source := by rw [afterAll_eq, find?_foldl_insert]
  order := sources_afterAll builtin calls
  size := size_afterAll builtin calls
  unmoved later := by
    rw [sources_afterAll (builtin.afterAll calls)]
    exact List.prefix_append _ _
  outcome := outcome _

/-- A type is mapped, refused and mapped again, with a built-in type and a generic type in between,
and a generic type is refused. -/
def priceCalls : List Mapping :=
  [⟨.named "Price", "Decimal", "'0.00'", false⟩, ⟨.builtin .string, "string", "''", false⟩,
    ⟨.named "Price", " \t", "0", false⟩,
    ⟨.generic "Range" [.nullable (.named "Price")], "[Money, Money]", "[]", false⟩,
    ⟨.named "Price", "Money", "null", true⟩,
    ⟨.generic "Range" [.named "Price"], "Money[]", "", false⟩]

/-- The type keeps the place of its first mapping and has its last one, and the generic type that
was refused is not there. -/
theorem reflects_afterAll_of_prices :
    (builtin.afterAll priceCalls).sources =
        builtin.sources ++ [.named "Price", .generic "Range" [.nullable (.named "Price")]] ∧
      (builtin.afterAll priceCalls).find? (.named "Price") =
        some ⟨.named "Price", "Money", "null", true⟩ ∧
      (builtin.afterAll priceCalls).find? (.builtin .string) =
        some ⟨.builtin .string, "string", "''", false⟩ ∧
      (builtin.afterAll priceCalls).find? (.generic "Range" [.named "Price"]) = none ∧
      (builtin.afterAll priceCalls).size = builtin.size + 2 := by
  have h := reflects_afterAll priceCalls
  refine ⟨?_, ?_, ?_, ?_, ?_⟩
  · rw [h.order]
    decide +kernel
  · rw [h.last]
    decide +kernel
  · rw [h.last]
    decide +kernel
  · rw [h.last]
    decide +kernel
  · rw [h.size]
    decide +kernel

end MappingTable

end Typings.Generation
