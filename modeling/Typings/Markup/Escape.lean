/-!
# Escaped text

In the value of an attribute a reference between `&` and `;` stands for a character: one of five by
name, any other by its code point. Positions in errors count the bytes of the written value.
-/

namespace Typings.Markup

/-- What makes a text the number of no character. -/
inductive NumberFault where
  | signed
  | empty
  | invalidDigit
  | tooLarge
  | noCharacter (code : Nat)
  | null
  deriving DecidableEq, Repr

/-- The wording of a fault in a character's number. -/
def NumberFault.message : NumberFault → String
  | .signed => "unexpected number sign"
  | .empty => "cannot parse integer from empty string"
  | .invalidDigit => "invalid digit found in string"
  | .tooLarge => "number too large to fit in target type"
  | .noCharacter code => "`" ++ toString code ++ "` is not a valid codepoint"
  | .null => "0x0 character is not permitted in XML"

/-- What makes a value not escaped properly. -/
inductive EscapeError where
  | unclosed (start stop : Nat)
  | unknownName (start stop : Nat) (name : String)
  | number (fault : NumberFault)
  deriving DecidableEq, Repr

/-- The wording of a range of bytes. -/
def byteRange (start stop : Nat) : String :=
  toString start ++ ".." ++ toString stop

/-- The wording of an error. -/
def EscapeError.message : EscapeError → String
  | .unclosed start stop =>
    "Error while escaping character at range " ++ byteRange start stop ++
      ": Cannot find ';' after '&'"
  | .unknownName start stop name =>
    "at " ++ byteRange start stop ++ ": unrecognized entity `" ++ name ++ "`"
  | .number fault => "invalid character reference: " ++ fault.message

/-- The value of a digit in a radix up to sixteen; letters count in either case. -/
def digitValue? (radix : Nat) (c : Char) : Option Nat :=
  let value :=
    if c.isDigit then c.toNat - '0'.toNat
    else if 'a' ≤ c ∧ c ≤ 'f' then c.toNat - 'a'.toNat + 10
    else if 'A' ≤ c ∧ c ≤ 'F' then c.toNat - 'A'.toNat + 10
    else radix
  if value < radix then some value else none

/-- Appends a digit to a number of at most 32 bits. -/
def appendDigit (radix : Nat) (n : Nat) (c : Char) : Except NumberFault Nat :=
  match digitValue? radix c with
  | none => .error .invalidDigit
  | some d => if radix * n + d < 4294967296 then .ok (radix * n + d) else .error .tooLarge

/-- The number written in a radix, without a sign. -/
def readNumber (radix : Nat) : List Char → Except NumberFault Nat
  | [] => .error .empty
  | c :: r => if c = '+' ∨ c = '-' then .error .signed else (c :: r).foldlM (appendDigit radix) 0

/-- The character with the number between `&#` and `;`, hexadecimal behind an `x`. -/
def characterOfNumber (cs : List Char) : Except NumberFault Char := do
  let code ← match cs with
    | 'x' :: digits => readNumber 16 digits
    | digits => readNumber 10 digits
  if code = 0 then .error .null
  else if code.isValidChar then .ok (Char.ofNat code)
  else .error (.noCharacter code)

/-- The characters that have names. -/
def namedCharacters : List (String × Char) :=
  [("lt", '<'), ("gt", '>'), ("amp", '&'), ("apos", '\''), ("quot", '"')]

/-- The character that a reference stands for, given its text and where that begins. -/
def resolveReference (start : Nat) (reference : String) : Except EscapeError Char :=
  match reference.toList with
  | '#' :: number =>
    match characterOfNumber number with
    | .ok c => .ok c
    | .error fault => .error (.number fault)
  | _ =>
    match namedCharacters.lookup reference with
    | some c => .ok c
    | none => .error (.unknownName start (start + reference.utf8ByteSize) reference)

namespace Unescape

/-- The state of reading a value: the bytes read, the text they stand for, and the reference being
read, with where it began. -/
structure State where
  offset : Nat
  output : String
  reference : Option (Nat × String)
  deriving DecidableEq, Repr

/-- Reads one more character of a value of the given size. -/
def State.step (size : Nat) (s : State) (c : Char) : Except EscapeError State :=
  let next := s.offset + c.utf8Size
  match s.reference with
  | none =>
    if c = '&' then .ok ⟨next, s.output, some (s.offset, "")⟩
    else .ok ⟨next, s.output.push c, none⟩
  | some (start, text) =>
    if c = ';' then
      match resolveReference (start + 1) text with
      | .ok character => .ok ⟨next, s.output.push character, none⟩
      | .error e => .error e
    else if c = '&' then .error (.unclosed start size)
    else .ok ⟨next, s.output, some (start, text.push c)⟩

end Unescape

/-- The text that a written value stands for. -/
def unescape (value : String) : Except EscapeError String := do
  let size := value.utf8ByteSize
  let s ← value.toList.foldlM (Unescape.State.step size) ⟨0, "", none⟩
  match s.reference with
  | none => .ok s.output
  | some (start, _) => .error (.unclosed start size)

end Typings.Markup
