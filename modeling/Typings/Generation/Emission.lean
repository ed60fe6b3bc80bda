import Typings.Generation.Script

/-!
# Writing a script

The roots are written one by one, an interface or a class with a line for each of its properties.
The enumerations that properties are of become known on the way, and those met stay known when
writing fails behind them.
-/

namespace Typings.Generation

/-- Writing that may fail, with the enumerations known so far. -/
abbrev Emission := ExceptT Error (StateM (List TypeRef))

/-- What is written when the given enumerations are known, and the enumerations known in the end. -/
def Emission.runFrom {α : Type} (x : Emission α) (known : List TypeRef) :
    Except Error α × List TypeRef :=
  x.run.run known

namespace Configuration

/-- Remembers the enumeration that a property is of. -/
def discover (c : Configuration) (p : Property) : Emission Unit :=
  match c.options.includeEnums, c.model.enumDefinition? p.type with
  | true, some d => modify (insertNew d.ref)
  | _, _ => pure ()

/-- The line of a property under its name. The enumeration that it is of becomes known before its
type is spelled. -/
def emitProperty (c : Configuration) (kind : DeclarationKind) (named : String × Property) :
    Emission String := do
  c.discover named.2
  let type ← c.propertyType named.2
  match kind with
  | .interface => return "    " ++ named.1 ++ ": " ++ type ++ ";\n"
  | .classKind =>
    let initial := c.defaultValue named.2.type
    return "    " ++ named.1 ++ ": " ++ type ++ " = " ++ initial ++ ";\n"

/-- The lines of the properties of a type. -/
def emitProperties (c : Configuration) (kind : DeclarationKind) (d : TypeDef) :
    Emission String := do
  let properties ← c.writtenProperties d
  return String.join (← properties.mapM (c.emitProperty kind))

/-- Writes a type as an interface. -/
def emitInterface (c : Configuration) (d : TypeDef) : Emission String := do
  let name ← c.typeName d
  let extended ← if c.options.preserveInheritance then do
      match ← c.baseName d with
      | some base => pure (" extends " ++ base)
      | none => pure ""
    else pure ""
  let lines ← c.emitProperties .interface d
  return "export interface " ++ name ++ extended ++ "\n" ++ "\x7b\n" ++ lines ++ "\x7d\n"

/-- Writes a type as a class, with a constructor that calls the one of the base if there is one. -/
def emitClass (c : Configuration) (d : TypeDef) : Emission String := do
  let name ← c.typeName d
  let base ← if c.options.preserveInheritance then c.baseName d else pure none
  let extended := match base with
    | some base => " extends " ++ base
    | none => ""
  let construction := "    constructor(init?: Partial<" ++ name ++ ">) \x7b\n" ++
    (if base.isSome then "        super();\n" else "") ++
    "        Object.assign(this, init);\n" ++ "    \x7d\n"
  let lines ← c.emitProperties .classKind d
  return "export class " ++ name ++ extended ++ "\n" ++ "\x7b\n" ++ construction ++ lines ++
    "\x7d\n"

/-- Writes a root with an empty line behind it. -/
def emitRoot (c : Configuration) (kind : DeclarationKind) (d : TypeDef) : Emission String := do
  let declaration ← if d.isEnum then pure ((c.declareEnum d).text c.options.enumStyle)
    else match kind with
      | .interface => c.emitInterface d
      | .classKind => c.emitClass d
  return declaration ++ "\n"

/-- The declarations of known enumerations, with an empty line behind each. -/
def emitEnums (c : Configuration) (known : List TypeRef) : String :=
  String.join ((known.filterMap c.enumDeclaration?).map fun d => d.text c.options.enumStyle ++ "\n")

/-- Writes the script: the imports, the roots, and the enumerations known once the roots are
written. -/
def emit (c : Configuration) (kind : DeclarationKind) : Emission String := do
  let imports ← c.importList
  let roots ← c.roots.mapM (c.emitRoot kind)
  let known ← get
  return Script.importsText imports ++ String.join roots ++ c.emitEnums known

/-- The text of the script, and the configuration that knows the enumerations met in it. A failure
leaves no trace in the configuration. -/
def generate (c : Configuration) (kind : DeclarationKind) :
    Except Error (String × Configuration) :=
  match (c.emit kind).runFrom c.registrations.enums with
  | (.error e, _) => .error e
  | (.ok text, enums) => .ok (text, { c with registrations := { c.registrations with enums } })

/-- Generates a script and writes it to a file. The enumerations met are known afterwards even when
the file cannot be written, but not when generation fails. -/
def write (c : Configuration) (kind : DeclarationKind) (folder : Folder) :
    Except Error File × Configuration :=
  match c.generate kind with
  | .error e => (.error e, c)
  | .ok (text, c) =>
    match folder.write text with
    | .error e => (.error (.file e), c)
    | .ok file => (.ok file, c)

end Configuration

end Typings.Generation
