import Typings.Proofs.TypeRef.Acceptance
import Typings.Proofs.TypeRef.Occurrence

/-!
# Reading the text of a reference

The canonical text of a reference is derived by the grammar as that reference, in front of anything
that does not go on with a name. So it reads back, when its names stand for what they stood for.
-/

namespace Typings

/-- A canonical name is a name of a type expression. -/
lemma Builtin.isName_name (b : Builtin) : TypeRef.IsName b.name := by
  cases b <;> decide +kernel

namespace TypeRef

open Typings.Text
open Grammar

variable {scope : List String}

/-- At its top the reference is one that reading its text can give: its name means in the scope what
it stands for, and no other reference has the same text. -/
def Legible (scope : List String) : TypeRef → Prop
  | .builtin b => b.name ∉ scope
  | .named n => IsName n ∧ n ∉ scope ∧ Builtin.ofName? n = none
  | .parameter n => IsName n ∧ n ∈ scope
  | .nullable t => t.isNullable = false
  | .array _ => True
  | .generic n args => IsName n ∧ n ≠ "Nullable" ∧ n ≠ "System.Nullable" ∧ args ≠ []

instance : DecidablePred (Legible scope)
  | .builtin _ => inferInstanceAs (Decidable (_ ∉ _))
  | .named _ => inferInstanceAs (Decidable (_ ∧ _ ∉ _ ∧ _))
  | .parameter _ => inferInstanceAs (Decidable (_ ∧ _ ∈ _))
  | .nullable _ => inferInstanceAs (Decidable (_ = _))
  | .array _ => inferInstanceAs (Decidable True)
  | .generic _ _ => inferInstanceAs (Decidable (_ ∧ _ ≠ _ ∧ _ ≠ _ ∧ _ ≠ _))

/-- What the grammar says of the text of a reference, behind white space and in front of a rest that
does not go on with a name. -/
def DerivesText (scope : List String) (t : TypeRef) : Prop :=
  ∀ cs rest, Skips cs (t.text.toList ++ rest) → (∀ c ∈ rest.head?, ¬InName c) →
    Derives scope cs t rest

lemma not_inName_of_mark {mark : Char} (h : continuesName mark = false) (rest : List Char) :
    ∀ c ∈ (mark :: rest).head?, ¬InName c := by
  rintro _ ⟨⟩ hc
  rw [← continuesName_iff, h] at hc
  cases hc

/-- The texts of arguments derive the arguments. -/
lemma derivesArgs_texts {args : List TypeRef} (hne : args ≠ [])
    (hargs : ∀ a ∈ args, DerivesText scope a) {cs rest : List Char}
    (hskips : Skips cs ((String.intercalate ", " (args.map text)).toList ++ rest))
    (hrest : ∀ c ∈ rest.head?, ¬InName c) : DerivesArgs scope cs args rest := by
  induction args generalizing cs with
  | nil => exact absurd rfl hne
  | cons a more ih =>
    rw [List.forall_mem_cons] at hargs
    obtain ⟨ha, hmore⟩ := hargs
    cases more with
    | nil => exact .last (ha cs rest (by simpa using hskips) hrest)
    | cons b more =>
      have hcomma : continuesName ',' = false := by decide
      have hspace : isSpace ' ' = true := by decide
      refine .more (ha cs _ ?_ (not_inName_of_mark hcomma _)) .refl
        (ih (by simp) hmore (.space hspace .refl))
      simpa [String.intercalate_cons_cons] using hskips

/-- The text of a reference derives it. -/
lemma derivesText {t : TypeRef} (h : ∀ u : TypeRef, u.Within t → u.Legible scope) :
    DerivesText scope t := by
  induction t with
  | builtin b =>
    intro cs rest hskips hrest
    exact .builtin ⟨b.isName_name, hskips, hrest⟩ (h _ .here) b.ofName?_name
  | named n =>
    intro cs rest hskips hrest
    obtain ⟨hn, hscope, hb⟩ := h _ .here
    exact .named ⟨hn, hskips, hrest⟩ hscope hb
  | parameter n =>
    intro cs rest hskips hrest
    obtain ⟨hn, hscope⟩ := h _ .here
    exact .parameter ⟨hn, hskips, hrest⟩ hscope
  | nullable t ih =>
    intro cs rest hskips hrest
    have hmark : continuesName '?' = false := by decide
    refine .nullable (ih (fun u hu => h u (.nullable hu)) cs ('?' :: rest) ?_
      (not_inName_of_mark hmark rest)) (h _ .here) .refl
    simpa [text] using hskips
  | array t ih =>
    intro cs rest hskips hrest
    have hmark : continuesName '[' = false := by decide
    refine .array (ih (fun u hu => h u (.array hu)) cs ('[' :: ']' :: rest) ?_
      (not_inName_of_mark hmark _)) .refl .refl
    simpa [text] using hskips
  | generic n args ih =>
    intro cs rest hskips hrest
    obtain ⟨hn, hnullable, hnullable', hargs⟩ := h _ .here
    have hopen : continuesName '<' = false := by decide
    have hclose : continuesName '>' = false := by decide
    have hname : Name n cs
        ('<' :: ((String.intercalate ", " (args.map text)).toList ++ '>' :: rest)) :=
      ⟨hn, by simpa [text] using hskips, not_inName_of_mark hopen _⟩
    refine .generic hname hnullable hnullable' .refl ?_ .refl
    exact derivesArgs_texts hargs (fun a ha => ih a ha fun u hu => h u (.arg ha hu)) .refl
      (not_inName_of_mark hclose rest)

/-- The text of a reference reads back as the reference, when each reference in it is legible in the
scope. -/
theorem ofExpression_text {t : TypeRef} (h : ∀ u : TypeRef, u.Within t → u.Legible scope) :
    ofExpression scope t.text = .ok t := by
  refine ofExpression_of_denotes ⟨[], derivesText h _ [] ?_ (by simp), .refl⟩
  rw [List.append_nil]
  exact .refl

/-- The reference `System.Dictionary<string, List<T?>[]>?`. -/
def lookupTable : TypeRef :=
  .nullable (.generic "System.Dictionary"
    [.builtin .string, .array (.generic "List" [.nullable (.parameter "T")])])

/-- Where `T` is a parameter, the reference is read back from its text. -/
theorem ofExpression_text_of_lookupTable :
    (∀ u : TypeRef, u.Within lookupTable → u.Legible ["T"]) ∧
      lookupTable.text = "System.Dictionary<string, List<T?>[]>?" ∧
      ofExpression ["T"] lookupTable.text = .ok lookupTable := by
  have legible : ∀ u : TypeRef, u.Within lookupTable → u.Legible ["T"] := by
    intro u hu
    simp only [lookupTable, Within.nullable_iff, Within.generic_iff, Within.array_iff,
      List.mem_cons, List.not_mem_nil, or_false, exists_eq_or_imp, exists_eq_left,
      Within.builtin_iff, Within.parameter_iff] at hu
    rcases hu with rfl | rfl | rfl | rfl | rfl | rfl | rfl <;> decide +kernel
  exact ⟨legible, by decide +kernel, ofExpression_text legible⟩

end TypeRef

end Typings
