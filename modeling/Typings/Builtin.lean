/-!
# Built-in types

The scalar types that a manifest may name without defining them, the names they go by, and the
well-known generic collections.
-/

namespace Typings

/-- A type known without a definition. -/
inductive Builtin where
  | boolean
  | byte
  | signedByte
  | int16
  | unsigned16
  | int32
  | unsigned32
  | int64
  | unsigned64
  | single
  | double
  | decimal
  | character
  | string
  | object
  | dateTime
  | dateTimeOffset
  | timeSpan
  | guid
  /-- The non-generic enumerable, whose elements have no known type. -/
  | enumerable
  deriving DecidableEq, Repr

namespace Builtin

/-- Every name of every built-in type, without a qualifier. -/
def aliases : List (String × Builtin) :=
  [("bool", boolean), ("Boolean", boolean),
   ("byte", byte), ("Byte", byte),
   ("sbyte", signedByte), ("SByte", signedByte),
   ("short", int16), ("Int16", int16),
   ("ushort", unsigned16), ("UInt16", unsigned16),
   ("int", int32), ("Int32", int32),
   ("uint", unsigned32), ("UInt32", unsigned32),
   ("long", int64), ("Int64", int64),
   ("ulong", unsigned64), ("UInt64", unsigned64),
   ("float", single), ("Single", single),
   ("double", double), ("Double", double),
   ("decimal", decimal), ("Decimal", decimal),
   ("char", character), ("Char", character),
   ("string", string), ("String", string),
   ("object", object), ("Object", object),
   ("DateTime", dateTime), ("DateTimeOffset", dateTimeOffset),
   ("TimeSpan", timeSpan), ("Guid", guid),
   ("IEnumerable", enumerable), ("ICollection", enumerable),
   ("IList", enumerable), ("ArrayList", enumerable)]

/-- The name without one leading `qualifier`, where it has one. -/
def unqualified (qualifier name : String) : String :=
  if qualifier.toList.isPrefixOf name.toList then
    String.ofList (name.toList.drop qualifier.length)
  else name

/-- The built-in type of that name; the qualifiers `System.` and `Collections.` may lead. -/
def ofName? (name : String) : Option Builtin :=
  aliases.lookup (unqualified "Collections." (unqualified "System." name))

/-- The canonical name. -/
def name : Builtin → String
  | boolean => "bool"
  | byte => "byte"
  | signedByte => "sbyte"
  | int16 => "short"
  | unsigned16 => "ushort"
  | int32 => "int"
  | unsigned32 => "uint"
  | int64 => "long"
  | unsigned64 => "ulong"
  | single => "float"
  | double => "double"
  | decimal => "decimal"
  | character => "char"
  | string => "string"
  | object => "object"
  | dateTime => "DateTime"
  | dateTimeOffset => "DateTimeOffset"
  | timeSpan => "TimeSpan"
  | guid => "Guid"
  | enumerable => "IEnumerable"

/-- A value type has a nullable form distinct from itself. -/
def isValueType : Builtin → Bool
  | string | object | enumerable => false
  | _ => true

/-- The numeric types; neither Booleans nor characters are numbers. -/
def isNumeric : Builtin → Bool
  | byte | signedByte | int16 | unsigned16 | int32 | unsigned32 | int64 | unsigned64
  | single | double | decimal => true
  | _ => false

/-- The canonical name is a name of the type. -/
theorem ofName?_name (b : Builtin) : ofName? b.name = some b := by
  cases b <;> decide +kernel

end Builtin

/-- The short names of the generic collections whose single argument is the element type. -/
def collectionNames : List String :=
  ["IEnumerable", "ICollection", "IList", "IReadOnlyCollection", "IReadOnlyList", "List",
   "HashSet", "ISet", "SortedSet", "Collection", "ReadOnlyCollection", "ObservableCollection",
   "LinkedList", "Queue", "Stack"]

/-- The part of a qualified name after its last dot. -/
def shortName (name : String) : String :=
  String.ofList (name.toList.reverse.takeWhile (· != '.')).reverse

/-- A generic type is a collection when its short name is well known. -/
def isCollectionName (name : String) : Bool :=
  collectionNames.contains (shortName name)

end Typings
