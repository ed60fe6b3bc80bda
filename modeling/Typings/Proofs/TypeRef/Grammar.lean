import Mathlib.Tactic.Lemma
import Typings.TypeRef.Expression

/-!
# The grammar of type expressions

```text
type   := name ('<' type (',' type)* '>')? suffix*
suffix := '[]' | '?'
```

The grammar is a relation between the characters at the front of a text, the reference that they
denote and the characters left behind them. White space may stand in front of every token, the two
brackets of an array suffix being tokens of their own, and a name goes on as far as it can.
-/

namespace Typings.TypeRef

open Typings.Text

/-- The characters that a name goes on with: letters, digits, underscores and dots. -/
def InName (c : Char) : Prop :=
  isAlphanumeric c = true ∨ c = '_' ∨ c = '.'

/-- A name starts with a letter or an underscore, goes on with letters, digits, underscores and
dots, and does not end in a dot. -/
structure IsName (name : String) : Prop where
  starts : ∃ c rest, name.toList = c :: rest ∧ (isAlphabetic c = true ∨ c = '_')
  goesOn : ∀ c ∈ name.toList.tail, InName c
  complete : name.toList.getLast? ≠ some '.'

instance : DecidablePred InName := fun _ => inferInstanceAs (Decidable (_ ∨ _ ∨ _))

lemma isName_iff {name : String} : IsName name ↔
    name.toList.head?.any (fun c => isAlphabetic c || c == '_') = true ∧
      name.toList.tail.all (InName ·) = true ∧ name.toList.getLast? ≠ some '.' := by
  simp only [Option.any_eq_true, List.all_eq_true, decide_eq_true_eq, Bool.or_eq_true, beq_iff_eq]
  constructor
  · rintro ⟨⟨c, rest, hname, hc⟩, hgoesOn, hcomplete⟩
    exact ⟨⟨c, by simp [hname], hc⟩, hgoesOn, hcomplete⟩
  · rintro ⟨⟨c, hhead, hc⟩, hgoesOn, hcomplete⟩
    obtain ⟨rest, hname⟩ := List.head?_eq_some_iff.1 hhead
    exact ⟨⟨c, rest, hname, hc⟩, hgoesOn, hcomplete⟩

instance {name : String} : Decidable (IsName name) := decidable_of_iff' _ isName_iff

namespace Grammar

/-- The rest is left when white space at the front is passed over, as much of it as one likes. -/
inductive Skips : List Char → List Char → Prop where
  | refl {cs} : Skips cs cs
  | space {c cs rest} : isSpace c = true → Skips cs rest → Skips (c :: cs) rest

/-- The token at the front is the given mark. -/
def Mark (mark : Char) (cs rest : List Char) : Prop :=
  Skips cs (mark :: rest)

/-- The token at the front is the given name, which the character behind it does not continue. -/
structure Name (name : String) (cs rest : List Char) : Prop where
  isName : IsName name
  skips : Skips cs (name.toList ++ rest)
  maximal : ∀ c ∈ rest.head?, ¬InName c

mutual

/-- The type at the front denotes the given reference; the names in `scope` are parameters. -/
inductive Derives (scope : List String) : List Char → TypeRef → List Char → Prop where
  | parameter {n cs rest} : Name n cs rest → n ∈ scope → Derives scope cs (.parameter n) rest
  | builtin {n b cs rest} :
    Name n cs rest → n ∉ scope → Builtin.ofName? n = some b → Derives scope cs (.builtin b) rest
  | named {n cs rest} :
    Name n cs rest → n ∉ scope → Builtin.ofName? n = none → Derives scope cs (.named n) rest
  | generic {n args cs r₁ r₂ r₃ rest} :
    Name n cs r₁ → n ≠ "Nullable" → n ≠ "System.Nullable" →
    Mark '<' r₁ r₂ → DerivesArgs scope r₂ args r₃ → Mark '>' r₃ rest →
    Derives scope cs (.generic n args) rest
  | wrapper {n t cs r₁ r₂ r₃ rest} :
    Name n cs r₁ → n = "Nullable" ∨ n = "System.Nullable" →
    Mark '<' r₁ r₂ → Derives scope r₂ t r₃ → Mark '>' r₃ rest →
    Derives scope cs (.nullable t) rest
  | array {t cs r₁ r₂ rest} :
    Derives scope cs t r₁ → Mark '[' r₁ r₂ → Mark ']' r₂ rest → Derives scope cs (.array t) rest
  | nullable {t cs r₁ rest} :
    Derives scope cs t r₁ → t.isNullable = false → Mark '?' r₁ rest →
    Derives scope cs (.nullable t) rest

/-- The types at the front, with commas between them, denote the given references. -/
inductive DerivesArgs (scope : List String) : List Char → List TypeRef → List Char → Prop where
  | last {t cs rest} : Derives scope cs t rest → DerivesArgs scope cs [t] rest
  | more {t args cs r₁ r₂ rest} :
    Derives scope cs t r₁ → Mark ',' r₁ r₂ → DerivesArgs scope r₂ args rest →
    DerivesArgs scope cs (t :: args) rest

end

/-- The whole text denotes the given reference. -/
def Denotes (scope : List String) (text : String) (ref : TypeRef) : Prop :=
  ∃ rest, Derives scope text.toList ref rest ∧ Skips rest []

end Grammar

end Typings.TypeRef
