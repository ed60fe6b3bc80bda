import Typings.Generation.Error
import Typings.Text.Blank

/-!
# Mappings

A mapping replaces a source type by a script type of a given spelling. The table of mappings keeps
the order in which sources were first mapped; a later mapping of a source takes the place of the
earlier one.
-/

namespace Typings.Generation

/-- How a source type is written. -/
structure Mapping where
  source : TypeRef
  /-- The script type. -/
  script : String
  /-- The literal that initialises a value of the type. -/
  initial : String
  /-- The type admits `null` wherever it stands alone. -/
  nullable : Bool
  deriving DecidableEq, Repr

namespace Mapping

/-- A mapping whose script type and initial value are not blank. -/
def make (source : TypeRef) (script initial : String) (nullable : Bool) : Except Error Mapping :=
  if Text.isBlank script then .error (.mapping source .blankScript)
  else if Text.isBlank initial then .error (.mapping source .blankDefault)
  else .ok ⟨source, script, initial, nullable⟩

/-- The type as it is written alone. -/
def scalar (m : Mapping) : String :=
  if m.nullable then m.script ++ " | null" else m.script

/-- The array of the type as it is written. -/
def array (m : Mapping) : String :=
  m.script ++ "[]"

end Mapping

/-- A table of mappings, in the order of their sources. -/
structure MappingTable where
  entries : List Mapping
  deriving DecidableEq, Repr

namespace MappingTable

/-- Puts an entry in the place of the first one with its source, else behind all entries. -/
def insertEntry (entry : Mapping) : List Mapping → List Mapping
  | [] => [entry]
  | e :: rest => if e.source = entry.source then entry :: rest else e :: insertEntry entry rest

/-- Adds a mapping, or replaces the one of the same source in its place. -/
def insert (table : MappingTable) (entry : Mapping) : MappingTable :=
  ⟨insertEntry entry table.entries⟩

/-- The mapping of a source. -/
def find? (table : MappingTable) (source : TypeRef) : Option Mapping :=
  table.entries.find? (·.source == source)

/-- The number of mappings. -/
def size (table : MappingTable) : Nat :=
  table.entries.length

/-- Adds or replaces a mapping, unless it is refused. -/
def add (table : MappingTable) (source : TypeRef) (script initial : String) (nullable : Bool) :
    Except Error MappingTable :=
  (Mapping.make source script initial nullable).map table.insert

/-- A type and its nullable form, both written as `script`. -/
def withNullable (type : Builtin) (script initial : String) : List Mapping :=
  [⟨.builtin type, script, initial, false⟩,
   ⟨.nullable (.builtin type), script, "null", true⟩]

/-- The numeric types in the order of the table. -/
def numericTypes : List Builtin :=
  [.byte, .signedByte, .decimal, .double, .single, .int32, .unsigned32, .int64, .unsigned64,
   .int16, .unsigned16]

/-- The mappings of the built-in types. -/
def builtin : MappingTable :=
  ⟨[⟨.builtin .string, "string", "''", true⟩, ⟨.builtin .object, "object", "null", true⟩] ++
    withNullable .dateTime "Date" "new Date()" ++
    withNullable .guid "string" "'00000000-0000-0000-0000-000000000000'" ++
    withNullable .boolean "boolean" "false" ++
    numericTypes.flatMap (withNullable · "number" "0")⟩

/-- What is inserted is found under its source. -/
theorem find?_insert_self (table : MappingTable) (entry : Mapping) :
    (table.insert entry).find? entry.source = some entry := by
  simp only [find?, insert]
  induction table.entries with
  | nil => simp [insertEntry]
  | cons e rest ih => by_cases h : e.source = entry.source <;> simp [insertEntry, h, ih]

/-- What is inserted hides nothing of another source. -/
theorem find?_insert_of_ne {table : MappingTable} {entry : Mapping} {source : TypeRef}
    (h : entry.source ≠ source) : (table.insert entry).find? source = table.find? source := by
  simp only [find?, insert]
  induction table.entries with
  | nil => simp [insertEntry, h]
  | cons e rest ih =>
    by_cases he : e.source = entry.source
    · simp [insertEntry, he, h]
    · rw [insertEntry, if_neg he]
      by_cases hs : e.source = source <;> simp [hs, ih]

end MappingTable

end Typings.Generation
