import Typings.Module.Basic
import Typings.TypeRef.Expression

/-!
# Synthetic modules

Modules of any size, for measuring: enumerations with four members each, and classes in chains of
inheritance whose properties refer to the enumerations, to earlier classes and to built-in types.
Each module is given twice, as a value and as the text of its manifest.
-/

namespace Typings.Synthetic

/-- The size of a synthetic module. -/
structure Shape where
  classes : Nat := 100
  enums : Nat := 10
  /-- The number of properties of each class. -/
  properties : Nat := 10
  /-- The number of classes in a chain of inheritance. -/
  chainLength : Nat := 4
  deriving DecidableEq, Repr

/-- The name of a class. -/
def className (index : Nat) : String := "Model" ++ toString index

/-- The name of an enumeration. -/
def enumName (index : Nat) : String := "Kind" ++ toString index

/-- The name of a property. -/
def propertyName (index : Nat) : String := "Field" ++ toString index

/-- The name of a member. -/
def memberName (index : Nat) : String := "Value" ++ toString index

/-- The expression of the built-in type at an index, counted round. -/
def scalarExpression (index : Nat) : String :=
  match index % 6 with
  | 0 => "int"
  | 1 => "string"
  | 2 => "decimal"
  | 3 => "DateTime?"
  | 4 => "Guid"
  | _ => "bool"

/-- The name of every synthetic module. -/
def moduleName : String := "Bench.Models"

/-- The definition of an enumeration. -/
def enumDefinition (index : Nat) : TypeDef :=
  { name := enumName index, kind := .enumType
    members := (List.range 4).map fun m => { name := memberName m, value := m } }

/-- The type that an expression denotes; one that denotes none would be replaced by `object`. -/
def readOrObject (expression : String) : TypeRef :=
  match TypeRef.ofExpression [] expression with
  | .ok ref => ref
  | .error _ => .builtin .object

/-- The text with its angle brackets escaped. -/
def escapeAngles (text : String) : String :=
  String.join (text.toList.map fun c =>
    if c = '<' then "&lt;" else if c = '>' then "&gt;" else c.toString)

/-- The element of an enumeration. -/
def enumText (index : Nat) : String :=
  "    <enum name=\"" ++ enumName index ++ "\">\n" ++
    String.join ((List.range 4).map fun m =>
      "        <value name=\"" ++ memberName m ++ "\">" ++ toString m ++ "</value>\n") ++
    "    </enum>\n"

namespace Shape

/-- The type expression of property `p` of class `c`. -/
def propertyExpression (s : Shape) (c p : Nat) : String :=
  if p % 4 = 0 ∧ 0 < s.enums then enumName ((c + p) % s.enums)
  else if p % 4 = 1 ∧ 0 < c then "List<" ++ className (c - 1) ++ ">"
  else if p % 4 = 2 ∧ 0 < c then className ((c + p) % c)
  else scalarExpression (c + p)

/-- The class that class `c` derives from: the one before, unless `c` begins a chain. -/
def baseIndex? (s : Shape) (c : Nat) : Option Nat :=
  if 1 < s.chainLength ∧ c % s.chainLength ≠ 0 then some (c - 1) else none

/-- The definition of a class. -/
def classDefinition (s : Shape) (c : Nat) : TypeDef :=
  { name := className c, kind := .classType
    base := (s.baseIndex? c).map fun b => .named (className b)
    properties := (List.range s.properties).map fun p =>
      .declare (propertyName p) (readOrObject (s.propertyExpression c p)) }

/-- The synthetic module. -/
def toModule (s : Shape) : Module :=
  { name := moduleName
    types :=
      (List.range s.enums).map enumDefinition ++ (List.range s.classes).map s.classDefinition }

/-- The element of a property. -/
def propertyText (s : Shape) (c p : Nat) : String :=
  "        <property name=\"" ++ propertyName p ++ "\" type=\"" ++
    escapeAngles (s.propertyExpression c p) ++ "\"/>\n"

/-- The element of a class. -/
def classText (s : Shape) (c : Nat) : String :=
  let base :=
    match s.baseIndex? c with
    | some b => " base=\"" ++ className b ++ "\""
    | none => ""
  "    <class name=\"" ++ className c ++ "\"" ++ base ++ ">\n" ++
    String.join ((List.range s.properties).map (s.propertyText c)) ++ "    </class>\n"

/-- The manifest of the synthetic module. -/
def manifestText (s : Shape) : String :=
  "<module name=\"" ++ moduleName ++ "\">\n" ++ String.join ((List.range s.enums).map enumText) ++
    String.join ((List.range s.classes).map s.classText) ++ "</module>\n"

end Shape

end Typings.Synthetic
