import Mathlib.Data.Bool.AllAny
import Mathlib.Data.List.Infix
import Typings.Proofs.Markup.Canonical
import Typings.Proofs.TypeRef.Text
import Typings.Synthetic

/-!
# Names and expressions of synthetic modules

The names in a synthetic module are words with an index behind them. Different indices make
different names, and each of them is a name of type expressions that no built-in type goes by. So
the type expressions of a synthetic module are all read, and none of them is replaced.
-/

namespace Typings

/-- No word that begins like no built-in type names one, whatever stands behind it. -/
lemma Builtin.ofName?_append {word rest : String}
    (hqualifiers : ∀ q ∈ ["System.", "Collections."],
      ¬q.toList <+: word.toList ∧ ¬word.toList <+: q.toList)
    (haliases : ∀ a ∈ aliases, ¬word.toList <+: a.1.toList) : ofName? (word ++ rest) = none := by
  have hword : word.toList <+: (word ++ rest).toList := by simp
  have hunqualified {q} (hq : q ∈ ["System.", "Collections."]) :
      unqualified q (word ++ rest) = word ++ rest := by
    obtain ⟨hshort, hlong⟩ := hqualifiers q hq
    have hnot : ¬q.toList.isPrefixOf (word ++ rest).toList = true := by
      rw [List.isPrefixOf_iff_prefix]
      intro h
      rcases List.prefix_or_prefix_of_prefix h hword with hqualified | hword
      · exact hshort hqualified
      · exact hlong hword
    rw [unqualified, if_neg hnot]
  rw [ofName?, hunqualified (by simp), hunqualified (by simp), List.lookup_eq_none_iff]
  intro a ha
  rw [bne_iff_ne]
  intro heq
  exact haliases a ha (heq ▸ hword)

namespace Synthetic

open TypeRef

/-- The decimal digits. -/
def digits : List Char := ['0', '1', '2', '3', '4', '5', '6', '7', '8', '9']

/-- An index is written in digits. -/
lemma mem_digits_of_mem_toString {n : Nat} {c : Char} (h : c ∈ (toString n).toList) :
    c ∈ digits := by
  rw [Nat.toString_eq_ofList_toDigits, String.toList_ofList] at h
  have hdigit : c.isDigit = true := Nat.isDigit_of_mem_toDigits (by decide) (by decide) h
  obtain ⟨hlow, hhigh⟩ : 48 ≤ c.toNat ∧ c.toNat ≤ 57 := by
    simpa [Char.isDigit, UInt32.le_iff_toNat_le] using hdigit
  have hall : ∀ i < 10, Char.ofNat (48 + i) ∈ digits := by decide
  have hc := hall (c.toNat - 48) (by omega)
  rwa [Nat.add_sub_cancel' hlow, Char.ofNat_toNat] at hc

lemma toList_toString_ne_nil (n : Nat) : (toString n).toList ≠ [] := by
  rw [Nat.toString_eq_ofList_toDigits, String.toList_ofList]
  exact Nat.toDigits_ne_nil

variable {word : String}

/-- Different indices make different names. -/
lemma append_toString_injective (word : String) :
    Function.Injective fun i : Nat => word ++ toString i := by
  intro i j h
  have htoString : toString i = toString j := by
    rw [← String.toList_inj, String.toList_append, String.toList_append,
      List.append_cancel_left_eq] at h
    exact String.toList_inj.1 h
  rw [Nat.toString_eq_ofList_toDigits, Nat.toString_eq_ofList_toDigits,
    String.ofList_inj] at htoString
  rw [← Nat.ofDigitChars_ten_toDigits (n := i), htoString, Nat.ofDigitChars_ten_toDigits]

/-- An index goes on with the name in front of it. -/
lemma isName_append_toString (h : IsName word) (i : Nat) : IsName (word ++ toString i) := by
  obtain ⟨⟨c, rest, hword, hstarts⟩, hgoesOn, _⟩ := h
  have hdigits : ∀ c ∈ digits, InName c ∧ c ≠ '.' :=
    List.all_iff_forall_prop.1 (by decide +kernel)
  have hnumber {c} (hc : c ∈ (toString i).toList) := hdigits c (mem_digits_of_mem_toString hc)
  refine ⟨⟨c, rest ++ (toString i).toList, ?_, hstarts⟩, ?_, ?_⟩
  · rw [String.toList_append, hword, List.cons_append]
  · rw [String.toList_append, hword, List.cons_append, List.tail_cons, List.forall_mem_append]
    rw [hword, List.tail_cons] at hgoesOn
    exact ⟨hgoesOn, fun c hc => (hnumber hc).1⟩
  · rw [String.toList_append, List.getLast?_append_of_ne_nil _ (toList_toString_ne_nil i)]
    exact fun hlast => (hnumber (List.mem_of_getLast? hlast)).2 rfl

/-- In the scope of no parameters the text of a reference reads as it when its names do. -/
lemma ofExpression_of_legible {t : TypeRef} {expression : String}
    (h : ∀ u : TypeRef, u.Within t → u.Legible []) (htext : t.text = expression) :
    ofExpression [] expression = .ok t := by
  subst htext
  have hderives := derivesText h t.text.toList [] (by simpa using .refl) (by simp)
  exact ofExpression_of_denotes ⟨[], hderives, .refl⟩

lemma legible_named {name : String} (hname : IsName name) (hbuiltin : Builtin.ofName? name = none) :
    ∀ u : TypeRef, u.Within (.named name) → u.Legible [] := by
  intro u hu
  obtain rfl := Within.named_iff.1 hu
  exact ⟨hname, List.not_mem_nil, hbuiltin⟩

lemma isName_className (i : Nat) : IsName (className i) :=
  isName_append_toString (by decide +kernel) i

lemma legible_className (i : Nat) :
    ∀ u : TypeRef, u.Within (.named (className i)) → u.Legible [] :=
  legible_named (isName_className i) (Builtin.ofName?_append (by decide) (by decide))

lemma legible_enumName (i : Nat) : ∀ u : TypeRef, u.Within (.named (enumName i)) → u.Legible [] :=
  legible_named (isName_append_toString (by decide +kernel) i)
    (Builtin.ofName?_append (by decide) (by decide))

/-- The name of a class reads as it. -/
lemma ofExpression_className (i : Nat) :
    ofExpression [] (className i) = .ok (.named (className i)) :=
  ofExpression_of_legible (legible_className i) rfl

lemma ofExpression_enumName (i : Nat) :
    ofExpression [] (enumName i) = .ok (.named (enumName i)) :=
  ofExpression_of_legible (legible_enumName i) rfl

/-- A list of a class is read. -/
lemma ofExpression_listOf (i : Nat) :
    ofExpression [] ("List<" ++ className i ++ ">") =
      .ok (.generic "List" [.named (className i)]) := by
  have legible :
      ∀ u : TypeRef, u.Within (.generic "List" [.named (className i)]) → u.Legible [] := by
    intro u hu
    rcases Within.generic_iff.1 hu with rfl | ⟨a, ha, hu⟩
    · exact ⟨by decide +kernel, by decide, by decide, List.cons_ne_nil _ _⟩
    · obtain rfl := List.mem_singleton.1 ha
      exact legible_className i u hu
  exact ofExpression_of_legible legible rfl

/-- What is read is not replaced. -/
lemma ofExpression_eq_readOrObject {expression t} (h : ofExpression [] expression = .ok t) :
    ofExpression [] expression = .ok (readOrObject expression) := by
  rw [readOrObject, h]

/-- The type expression of a property is one of four kinds: the name of an enumeration, a list of an
earlier class, the name of an earlier class, or a built-in type. -/
lemma propertyExpression_cases (s : Shape) (c p : Nat) :
    (∃ i < s.enums, s.propertyExpression c p = enumName i) ∨
      (∃ i < c, s.propertyExpression c p = "List<" ++ className i ++ ">") ∨
      (∃ i < c, s.propertyExpression c p = className i) ∨
      s.propertyExpression c p ∈ ["int", "string", "decimal", "DateTime?", "Guid", "bool"] := by
  rw [Shape.propertyExpression]
  split
  case isTrue h => exact .inl ⟨_, Nat.mod_lt _ h.2, rfl⟩
  split
  case isTrue h => exact .inr (.inl ⟨_, Nat.sub_lt h.2 Nat.one_pos, rfl⟩)
  split
  case isTrue h => exact .inr (.inr (.inl ⟨_, Nat.mod_lt _ h.2, rfl⟩))
  case isFalse =>
    refine .inr (.inr (.inr ?_))
    rw [scalarExpression]
    split <;> decide

/-- The type of a property is read. -/
lemma ofExpression_propertyExpression (s : Shape) (c p : Nat) :
    ofExpression [] (s.propertyExpression c p) = .ok (readOrObject (s.propertyExpression c p)) := by
  rcases propertyExpression_cases s c p with ⟨i, -, h⟩ | ⟨i, -, h⟩ | ⟨i, -, h⟩ | h
  · rw [h]
    exact ofExpression_eq_readOrObject (ofExpression_enumName i)
  · rw [h]
    exact ofExpression_eq_readOrObject (ofExpression_listOf i)
  · rw [h]
    exact ofExpression_eq_readOrObject (ofExpression_className i)
  · have hscalars : ∀ e ∈ ["int", "string", "decimal", "DateTime?", "Guid", "bool"],
        ofExpression [] e = .ok (readOrObject e) := by
      decide +kernel
    exact hscalars _ h

section Escaping

open Markup

/-- No character of the name has a name of its own. -/
lemma escapeChar_append_toString (h : ∀ c ∈ word.toList, escapeChar c = [c]) (i : Nat) :
    ∀ c ∈ (word ++ toString i).toList, escapeChar c = [c] := by
  have hdigits : ∀ c ∈ digits, escapeChar c = [c] := List.all_iff_forall_prop.1 (by decide +kernel)
  rw [String.toList_append, List.forall_mem_append]
  exact ⟨h, fun c hc => hdigits c (mem_digits_of_mem_toString hc)⟩

lemma escapeChar_className (i : Nat) : ∀ c ∈ (className i).toList, escapeChar c = [c] := by
  rw [className]
  exact escapeChar_append_toString (List.all_iff_forall_prop.1 (by decide +kernel)) i

lemma escapeChar_enumName (i : Nat) : ∀ c ∈ (enumName i).toList, escapeChar c = [c] := by
  rw [enumName]
  exact escapeChar_append_toString (List.all_iff_forall_prop.1 (by decide +kernel)) i

/-- A name is written as it is. -/
lemma escape_append_toString (h : ∀ c ∈ word.toList, escapeChar c = [c]) (i : Nat) :
    escape (word ++ toString i) = word ++ toString i :=
  escape_eq_self (escapeChar_append_toString h i)

/-- A text without ampersands and quotes is escaped when its angle brackets are. -/
lemma escapeAngles_eq_escape {text : String}
    (h : ∀ c ∈ text.toList, c ∈ ['<', '>'] ∨ escapeChar c = [c]) :
    escapeAngles text = escape text := by
  have hchars : ∀ c ∈ text.toList,
      (if c = '<' then "&lt;" else if c = '>' then "&gt;" else c.toString).toList =
        escapeChar c := by
    intro c hc
    by_cases hopen : c = '<'
    · subst hopen
      decide +kernel
    by_cases hclose : c = '>'
    · subst hclose
      decide +kernel
    have hplain : escapeChar c = [c] := (h c hc).resolve_left (by simp [hopen, hclose])
    simp [hopen, hclose, hplain]
  rw [escapeAngles, escape, ← String.toList_inj, String.toList_ofList, String.toList_join,
    List.flatMap_map]
  exact List.flatMap_congr hchars

/-- The type expression of a property is escaped when its angle brackets are. -/
lemma escapeAngles_propertyExpression (s : Shape) (c p : Nat) :
    escapeAngles (s.propertyExpression c p) = escape (s.propertyExpression c p) := by
  refine escapeAngles_eq_escape ?_
  rcases propertyExpression_cases s c p with ⟨i, -, h⟩ | ⟨i, -, h⟩ | ⟨i, -, h⟩ | h
  · rw [h]
    exact fun c hc => .inr (escapeChar_enumName i c hc)
  · have hlist : ∀ c ∈ "List<".toList, c ∈ ['<', '>'] ∨ escapeChar c = [c] :=
      List.all_iff_forall_prop.1 (by decide +kernel)
    rw [h, String.toList_append, String.toList_append, List.forall_mem_append,
      List.forall_mem_append]
    exact ⟨⟨hlist, fun c hc => .inr (escapeChar_className i c hc)⟩,
      List.all_iff_forall_prop.1 (by decide +kernel)⟩
  · rw [h]
    exact fun c hc => .inr (escapeChar_className i c hc)
  · have hscalars : ∀ e ∈ ["int", "string", "decimal", "DateTime?", "Guid", "bool"],
        e.toList.all (fun c => c ∈ ['<', '>'] ∨ escapeChar c = [c]) = true := by
      decide +kernel
    exact List.all_iff_forall_prop.1 (hscalars _ h)

end Escaping

end Synthetic

end Typings
