import Typings.Generation.Options

/-!
# Declarations

A script is made of imports, declarations of types and declarations of enumerations. Each of them is
a value here, with the text that it stands for; a declared type stands as an interface or as a
class.
-/

namespace Typings.Generation

/-- The two ways to write the declaration of a type. -/
inductive DeclarationKind where
  | interface
  /-- A class, with a constructor and initial values. -/
  | classKind
  deriving DecidableEq, Repr

/-- A property of a declared type. -/
structure Field where
  name : String
  type : String
  /-- The initial value. -/
  initial : String
  deriving DecidableEq, Repr

/-- The declaration of a class or interface. -/
structure TypeDeclaration where
  name : String
  base : Option String
  fields : List Field
  deriving DecidableEq, Repr

/-- The declaration of an enumeration: names and values of its members. -/
structure EnumDeclaration where
  name : String
  members : List (String × Int)
  deriving DecidableEq, Repr

/-- A declaration. -/
inductive Declaration where
  | type (declaration : TypeDeclaration)
  | enumeration (declaration : EnumDeclaration)
  deriving DecidableEq, Repr

/-- A name that another file declares. -/
structure Import where
  name : String
  path : String
  deriving DecidableEq, Repr

/-- A whole script. -/
structure Script where
  imports : List Import
  roots : List Declaration
  enums : List EnumDeclaration
  deriving DecidableEq, Repr

/-- The line of a field. -/
def Field.text (kind : DeclarationKind) (f : Field) : String :=
  match kind with
  | .interface => "    " ++ f.name ++ ": " ++ f.type ++ ";\n"
  | .classKind => "    " ++ f.name ++ ": " ++ f.type ++ " = " ++ f.initial ++ ";\n"

namespace TypeDeclaration

/-- The word that a kind of declaration begins with. -/
def keyword : DeclarationKind → String
  | .interface => "interface"
  | .classKind => "class"

/-- The first line. -/
def headerText (kind : DeclarationKind) (d : TypeDeclaration) : String :=
  let extended :=
    match d.base with
    | some base => " extends " ++ base
    | none => ""
  "export " ++ keyword kind ++ " " ++ d.name ++ extended ++ "\n"

/-- The constructor of a class, which calls that of its base where it has one. -/
def constructorText (d : TypeDeclaration) : String :=
  "    constructor(init?: Partial<" ++ d.name ++ ">) \x7b\n" ++
    (if d.base.isSome then "        super();\n" else "") ++
    "        Object.assign(this, init);\n" ++
    "    \x7d\n"

/-- The text of a declaration. -/
def text (kind : DeclarationKind) (d : TypeDeclaration) : String :=
  d.headerText kind ++ "\x7b\n" ++
    (match kind with
      | .interface => ""
      | .classKind => d.constructorText) ++
    String.join (d.fields.map (Field.text kind)) ++ "\x7d\n"

end TypeDeclaration

namespace EnumDeclaration

/-- The line of a member. -/
def memberText (style : EnumStyle) (member : String × Int) : String :=
  match style with
  | .numeric => "    " ++ member.1 ++ " = " ++ toString member.2 ++ ",\n"
  | .string => "    " ++ member.1 ++ " = '" ++ member.1 ++ "',\n"

/-- The text of a declaration. -/
def text (style : EnumStyle) (d : EnumDeclaration) : String :=
  "export enum " ++ d.name ++ "\n\x7b\n" ++ String.join (d.members.map (memberText style)) ++
    "\x7d\n"

end EnumDeclaration

/-- The text of a declaration. -/
def Declaration.text (kind : DeclarationKind) (style : EnumStyle) : Declaration → String
  | .type d => d.text kind
  | .enumeration d => d.text style

/-- The line of an import. -/
def Import.text (i : Import) : String :=
  "import \x7b " ++ i.name ++ " \x7d from '" ++ i.path ++ "';\n"

namespace Script

/-- The text of the imports, with an empty line behind them if there are any. -/
def importsText (imports : List Import) : String :=
  String.join (imports.map Import.text) ++ if imports.isEmpty then "" else "\n"

/-- The text of a script. An empty line follows each declaration. -/
def text (kind : DeclarationKind) (style : EnumStyle) (s : Script) : String :=
  importsText s.imports ++
    String.join (s.roots.map fun d => d.text kind style ++ "\n") ++
    String.join (s.enums.map fun d => d.text style ++ "\n")

end Script

end Typings.Generation
