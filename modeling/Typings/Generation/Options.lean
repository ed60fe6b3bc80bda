import Typings.Generation.Error
import Typings.Text.Blank

/-!
# Options

The switches that decide how declarations are written.
-/

namespace Typings.Generation

/-- How the members of an enumeration are written: by value or by name. -/
inductive EnumStyle where
  | numeric
  | string
  deriving DecidableEq, Repr

namespace EnumStyle

/-- The word for a style. -/
def word : EnumStyle → String
  | numeric => "numeric"
  | string => "string"

/-- The style that a word asks for, in any ASCII case and with white space around it. -/
def ofWord (word : String) : Except Error EnumStyle :=
  let plain := String.ofList ((Text.trim word).toList.map Char.toLower)
  if plain = "numeric" ∨ plain = "number" then .ok numeric
  else if plain = "string" then .ok string
  else .error (.unknownEnumStyle word)

end EnumStyle

/-- The switches of a generation. -/
structure Options where
  /-- Enumerations met in properties are declared too. -/
  includeEnums : Bool := true
  /-- Properties of user-defined types admit `null`, whether declared so or not. -/
  makeNullable : Bool := true
  /-- Properties are sorted by the name they are written under. -/
  orderByName : Bool := true
  /-- Names of classes get a leading `I`. -/
  prefixClasses : Bool := false
  /-- Names of interfaces get a leading `I`. -/
  prefixInterfaces : Bool := false
  /-- Declarations name their base and leave inherited properties to it. -/
  preserveInheritance : Bool := false
  enumStyle : EnumStyle := .numeric
  deriving DecidableEq, Repr

/-- The switches that are on or off. -/
inductive Switch where
  | includeEnums
  | makeNullable
  | orderByName
  | prefixClasses
  | prefixInterfaces
  | preserveInheritance
  deriving DecidableEq, Repr

/-- Turns a switch on or off. -/
def Options.set (o : Options) (value : Bool) : Switch → Options
  | .includeEnums => { o with includeEnums := value }
  | .makeNullable => { o with makeNullable := value }
  | .orderByName => { o with orderByName := value }
  | .prefixClasses => { o with prefixClasses := value }
  | .prefixInterfaces => { o with prefixInterfaces := value }
  | .preserveInheritance => { o with preserveInheritance := value }

end Typings.Generation
