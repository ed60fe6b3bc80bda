/-!
# Document types

A document type declaration ends at the first `>` outside quotes and outside its internal subset.
Quotes count up to the subset; behind it the first `>` is the end. Within the subset, comments and
instructions are passed over, and the declarations of entities, attributes and notations may hold
quoted angle brackets.
-/

namespace Typings.Markup

/-- The place reached within a document type declaration. -/
inductive Doctype where
  /-- Before the internal subset, perhaps within quotes. -/
  | beforeSubset (quote : Option Char)
  /-- Inside the internal subset, between its items. -/
  | subset
  /-- Inside an item of the subset, read so far without its angle bracket. -/
  | item (text : String)
  /-- Inside a declaration whose quotes count. -/
  | declaration (quote : Option Char)
  /-- Inside a comment of the subset, with its last two characters. -/
  | comment (before last : Char)
  /-- Inside an instruction of the subset, with its last character. -/
  | instruction (last : Char)
  /-- Behind the internal subset, where quotes no longer count. -/
  | afterSubset
  /-- The declaration has ended. -/
  | ended
  deriving DecidableEq, Repr

namespace Doctype

/-- How an item that began with the given text goes on. -/
def ofItem (text : String) : Doctype :=
  if ["!ENTITY", "!ATTLIST", "!NOTATION"].contains text then .declaration none
  else if text = "!--" then .comment ' ' ' '
  else if text = "?" then .instruction ' '
  else .item text

/-- Reads one more character. -/
def step (place : Doctype) (c : Char) : Doctype :=
  match place with
  | .beforeSubset (some quote) => if c = quote then .beforeSubset none else place
  | .beforeSubset none =>
    if c = '>' then .ended
    else if c = '[' then .subset
    else if c = '"' ∨ c = '\'' then .beforeSubset (some c)
    else place
  | .subset =>
    if c = ']' then .afterSubset
    else if c = '<' then .item ""
    else place
  | .item text => if c = '>' then .subset else ofItem (text.push c)
  | .declaration (some quote) => if c = quote then .declaration none else place
  | .declaration none =>
    if c = '>' then .subset
    else if c = '"' ∨ c = '\'' then .declaration (some c)
    else place
  | .comment before last =>
    if before = '-' ∧ last = '-' ∧ c = '>' then .subset else .comment last c
  | .instruction last => if last = '?' ∧ c = '>' then .subset else .instruction c
  | .afterSubset => if c = '>' then .ended else place
  | .ended => .ended

end Doctype

end Typings.Markup
