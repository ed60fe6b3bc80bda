import Typings.Text.Blank
import Typings.Text.Numeric
import Typings.TypeRef.Basic

/-!
# Type expressions

A type expression is a name, optionally applied to arguments in angle brackets, followed by any
number of suffixes: `[]` for an array and `?` for the nullable form. White space may stand before,
after and between the tokens.

Reading runs over the characters once. What has been read so far is a state: the place within the
innermost type, and the generic types around it whose arguments are still being read.
-/

namespace Typings.TypeRef

open Typings.Text

/-- What makes a text no type expression. -/
inductive ExpressionFault where
  | unexpectedEnd
  | expectedName (found : Char)
  | incompleteName (name : String)
  | nullableArity
  | repeatedNullable
  | unclosedArray
  | unexpectedArgument (found : Char)
  | trailing (found : Char) (position : Nat)
  deriving DecidableEq, Repr

/-- The wording of a fault. Positions count characters from zero. -/
def ExpressionFault.message : ExpressionFault → String
  | .unexpectedEnd => "unexpected end of input"
  | .expectedName c => "expected type name, found '" ++ c.toString ++ "'"
  | .incompleteName n => "incomplete qualified name '" ++ n ++ "'"
  | .nullableArity => "Nullable<> takes exactly one argument"
  | .repeatedNullable => "duplicate '?'"
  | .unclosedArray => "expected ']'"
  | .unexpectedArgument c => "unexpected '" ++ c.toString ++ "' in argument list"
  | .trailing c i => "unexpected '" ++ c.toString ++ "' at position " ++ toString i

/-- A text that is no type expression, with the fault found in it. -/
structure ExpressionError where
  expression : String
  fault : ExpressionFault
  deriving DecidableEq, Repr

/-- The wording of an expression error. -/
def ExpressionError.message (e : ExpressionError) : String :=
  "invalid type expression '" ++ e.expression ++ "': " ++ e.fault.message

/-- A name begins with a letter or an underscore. -/
def startsName (c : Char) : Bool :=
  isAlphabetic c || c == '_'

/-- A name goes on with letters, digits, underscores and dots. -/
def continuesName (c : Char) : Bool :=
  isAlphanumeric c || c == '_' || c == '.'

/-- A qualified name lacks its last part when a dot ends it. -/
def isIncomplete (name : String) : Bool :=
  name.toList.getLast? == some '.'

/-- The names under which the nullable form is written as a generic type. -/
def isNullableName (name : String) : Bool :=
  name == "Nullable" || name == "System.Nullable"

/-- What a name without arguments refers to: a parameter in scope, else a built-in type, else a
type of that name. -/
def ofName (scope : List String) (name : String) : TypeRef :=
  if scope.contains name then .parameter name
  else
    match Builtin.ofName? name with
    | some b => .builtin b
    | none => .named name

/-- What a name with arguments refers to. -/
def apply (name : String) (args : List TypeRef) : Except ExpressionFault TypeRef :=
  if isNullableName name then
    match args with
    | [a] => .ok (.nullable a)
    | _ => .error .nullableArity
  else .ok (.generic name args)

namespace Expression

/-- The place reached within the innermost type. -/
inductive Place where
  /-- A type has to begin here. -/
  | start
  /-- Inside a name. -/
  | name (text : String)
  /-- After a name, where arguments may follow. -/
  | named (name : String)
  /-- After a type, where suffixes may follow. -/
  | complete (type : TypeRef)
  /-- After the opening bracket of an array suffix. -/
  | bracket (element : TypeRef)
  deriving DecidableEq, Repr

/-- A generic type whose arguments are being read, with the arguments read so far. -/
structure Pending where
  name : String
  args : List TypeRef
  deriving DecidableEq, Repr

/-- The state of reading: the place, and the pending generic types from the innermost outwards. -/
structure State where
  place : Place
  pending : List Pending
  deriving DecidableEq, Repr

/-- Goes on after a complete type. -/
def afterType (position : Nat) (type : TypeRef) (pending : List Pending) (c : Char) :
    Except ExpressionFault State :=
  if isSpace c then .ok ⟨.complete type, pending⟩
  else if c = '?' then
    if type.isNullable then .error .repeatedNullable else .ok ⟨.complete (.nullable type), pending⟩
  else if c = '[' then .ok ⟨.bracket type, pending⟩
  else
    match pending with
    | [] => .error (.trailing c position)
    | p :: outer =>
      if c = ',' then .ok ⟨.start, ⟨p.name, p.args ++ [type]⟩ :: outer⟩
      else if c = '>' then
        (apply p.name (p.args ++ [type])).map fun t => ⟨.complete t, outer⟩
      else .error (.unexpectedArgument c)

/-- Goes on after a complete name. -/
def afterName (scope : List String) (position : Nat) (name : String) (pending : List Pending)
    (c : Char) : Except ExpressionFault State :=
  if isSpace c then .ok ⟨.named name, pending⟩
  else if c = '<' then .ok ⟨.start, ⟨name, []⟩ :: pending⟩
  else afterType position (ofName scope name) pending c

/-- Reads one more character, the one at the given position. -/
def State.step (scope : List String) (position : Nat) (s : State) (c : Char) :
    Except ExpressionFault State :=
  match s.place with
  | .start =>
    if isSpace c then .ok s
    else if startsName c then .ok ⟨.name c.toString, s.pending⟩
    else .error (.expectedName c)
  | .name text =>
    if continuesName c then .ok ⟨.name (text.push c), s.pending⟩
    else if isIncomplete text then .error (.incompleteName text)
    else afterName scope position text s.pending c
  | .named name => afterName scope position name s.pending c
  | .complete type => afterType position type s.pending c
  | .bracket element =>
    if isSpace c then .ok s
    else if c = ']' then .ok ⟨.complete (.array element), s.pending⟩
    else .error .unclosedArray

/-- Reads the characters from the given position on. -/
def State.run (scope : List String) : Nat → State → List Char → Except ExpressionFault State
  | _, s, [] => .ok s
  | i, s, c :: r =>
    match s.step scope i c with
    | .ok s => s.run scope (i + 1) r
    | .error e => .error e

/-- The type that the whole text denotes, once it has been read. -/
def State.finish (scope : List String) (s : State) : Except ExpressionFault TypeRef :=
  let close (type : TypeRef) : Except ExpressionFault TypeRef :=
    if s.pending.isEmpty then .ok type else .error .unexpectedEnd
  match s.place with
  | .start => .error .unexpectedEnd
  | .name text =>
    if isIncomplete text then .error (.incompleteName text) else close (ofName scope text)
  | .named name => close (ofName scope name)
  | .complete type => close type
  | .bracket _ => .error .unclosedArray

end Expression

/-- Reads a type expression; the names in `scope` are generic parameters. -/
def ofExpression (scope : List String) (expression : String) : Except ExpressionError TypeRef :=
  match Expression.State.run scope 0 ⟨.start, []⟩ expression.toList with
  | .error fault => .error ⟨expression, fault⟩
  | .ok state =>
    match state.finish scope with
    | .error fault => .error ⟨expression, fault⟩
    | .ok type => .ok type

end Typings.TypeRef
