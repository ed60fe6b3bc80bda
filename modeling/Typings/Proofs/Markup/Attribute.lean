import Mathlib.Tactic.Lemma
import Typings.Proofs.Markup.Grammar
import Typings.Proofs.Outcome

/-!
# Reading tags and values

What the grammar says of a tag and of an escaped value is what reading them gives.
-/

namespace Typings

/-- A character pushed to a text stands in front of what is appended. -/
lemma push_append_ofList (s : String) (c : Char) (cs : List Char) :
    s.push c ++ String.ofList cs = s ++ String.ofList (c :: cs) := by
  simp [← String.toList_inj]

namespace Markup

open Grammar

section Unescape

open Unescape

variable {size : Nat} {output : String}

lemma resolveReference_of_refers {r c} (h : Refers r c) (start : Nat) :
    resolveReference start (String.ofList r) = .ok c := by
  cases h with
  | @named name c h =>
    simp only [namedCharacters, List.mem_cons, List.not_mem_nil, or_false, Prod.mk.injEq] at h
    rcases h with ⟨rfl, rfl⟩ | ⟨rfl, rfl⟩ | ⟨rfl, rfl⟩ | ⟨rfl, rfl⟩ | ⟨rfl, rfl⟩ <;> rfl
  | number _ h => simp [resolveReference, h]

lemma not_delimiter_of_refers {r c} (h : Refers r c) : ∀ d ∈ r, d ≠ '&' ∧ d ≠ ';' := by
  cases h with
  | @named name c h =>
    simp only [namedCharacters, List.mem_cons, List.not_mem_nil, or_false, Prod.mk.injEq] at h
    rcases h with ⟨rfl, rfl⟩ | ⟨rfl, rfl⟩ | ⟨rfl, rfl⟩ | ⟨rfl, rfl⟩ | ⟨rfl, rfl⟩ <;> simp
  | number h _ =>
    rw [List.forall_mem_cons]
    exact ⟨by decide, h⟩

/-- The text of a reference is read up to its end. -/
lemma foldlM_reference {r : List Char} (h : ∀ d ∈ r, d ≠ '&' ∧ d ≠ ';') (start offset : Nat)
    (text : String) :
    ∃ next, r.foldlM (State.step size) ⟨offset, output, some (start, text)⟩ =
      .ok ⟨next, output, some (start, text ++ String.ofList r)⟩ := by
  induction r generalizing offset text with
  | nil => exact ⟨offset, by simp; rfl⟩
  | cons d r ih =>
    rw [List.forall_mem_cons] at h
    obtain ⟨next, hnext⟩ := ih h.2 (offset + d.utf8Size) (text.push d)
    refine ⟨next, ?_⟩
    rw [← push_append_ofList, ← hnext, List.foldlM_cons]
    simp [State.step, h.1]
    rfl

/-- An escaped value is read as the text that it stands for. -/
lemma foldlM_escapes {written text} (h : Escapes written text) (offset : Nat) (output : String) :
    ∃ next, written.foldlM (State.step size) ⟨offset, output, none⟩ =
      .ok ⟨next, output ++ String.ofList text, none⟩ := by
  induction h generalizing offset output with
  | nil => exact ⟨offset, by simp; rfl⟩
  | @plain c written text hc _ ih =>
    obtain ⟨next, hnext⟩ := ih (offset + c.utf8Size) (output.push c)
    refine ⟨next, ?_⟩
    rw [← push_append_ofList, ← hnext, List.foldlM_cons]
    simp [State.step, hc]
    rfl
  | @reference r c written text hr _ ih =>
    obtain ⟨stop, hstop⟩ :
        ∃ stop, r.foldlM (State.step size) ⟨offset + '&'.utf8Size, output, some (offset, "")⟩ =
          .ok ⟨stop, output, some (offset, "" ++ String.ofList r)⟩ :=
      foldlM_reference (not_delimiter_of_refers hr) offset _ ""
    obtain ⟨next, hnext⟩ := ih (stop + ';'.utf8Size) (output.push c)
    refine ⟨next, ?_⟩
    have hopen : State.step size ⟨offset, output, none⟩ '&' =
        .ok ⟨offset + '&'.utf8Size, output, some (offset, "")⟩ := rfl
    have hclose : State.step size ⟨stop, output, some (offset, "" ++ String.ofList r)⟩ ';' =
        .ok ⟨stop + ';'.utf8Size, output.push c, none⟩ := by
      simp [State.step, resolveReference_of_refers hr]
    rw [← push_append_ofList, ← hnext, List.foldlM_cons, hopen, ok_bind, List.foldlM_append,
      hstop, ok_bind, List.foldlM_cons, hclose, ok_bind]

/-- An escaped value stands for its text. -/
lemma unescape_of_escapes {written text : String} (h : Escapes written.toList text.toList) :
    unescape written = .ok text := by
  obtain ⟨next, hnext⟩ :
      ∃ next, written.toList.foldlM (State.step written.utf8ByteSize) ⟨0, "", none⟩ =
        .ok ⟨next, "" ++ String.ofList text.toList, none⟩ := foldlM_escapes h 0 ""
  rw [unescape, hnext, ok_bind, String.empty_append, String.ofList_toList]

end Unescape

section Attributes

open Attribute

variable {keys : List String} {read : List Attribute}

/-- White space is passed over wherever it changes nothing. -/
lemma foldl_blank {s : State} {blank : List Char} (hs : ∀ c, isSpace c = true → s.step c = s)
    (h : Blank blank) : blank.foldl State.step s = s := by
  induction blank with
  | nil => rfl
  | cons c blank ih =>
    rw [Blank, List.forall_mem_cons] at h
    rw [List.foldl_cons, hs c h.1, ih h.2]

/-- Letters go on with a key. -/
lemma foldl_letters {text : String} {letters : List Char} (h : ∀ c ∈ letters, InName c) :
    letters.foldl State.step ⟨.key text, keys, read⟩ =
      ⟨.key (text ++ String.ofList letters), keys, read⟩ := by
  induction letters generalizing text with
  | nil => simp
  | cons c letters ih =>
    rw [List.forall_mem_cons] at h
    obtain ⟨⟨hspace, -, hmark⟩, hletters⟩ := h
    have hequals : c ≠ '=' := by
      rintro rfl
      simp at hmark
    rw [← push_append_ofList, ← ih hletters, List.foldl_cons]
    simp [State.step, hspace, hequals]

/-- A name is read as a key. -/
lemma foldl_name {name : String} (h : IsName name) :
    name.toList.foldl State.step ⟨.between, keys, read⟩ = ⟨.key name, keys, read⟩ := by
  obtain ⟨hne, hletters⟩ := h
  obtain ⟨c, letters, hname⟩ := List.exists_cons_of_ne_nil hne
  rw [hname, List.forall_mem_cons] at hletters
  have hstep : State.step ⟨.between, keys, read⟩ c = ⟨.key c.toString, keys, read⟩ := by
    simp [State.step, hletters.1.1]
  have hjoin : c.toString ++ String.ofList letters = name := by
    simp [← String.toList_inj, hname]
  rw [hname, List.foldl_cons, hstep, foldl_letters hletters.2, hjoin]

/-- The equals sign may stand apart from the key. -/
lemma step_equals {key : String} {blank : List Char} (h : Blank blank) (hkey : key ∉ keys) :
    State.step (blank.foldl State.step ⟨.key key, keys, read⟩) '=' =
      ⟨.afterEquals key, key :: keys, read⟩ := by
  have hspace : isSpace '=' = false := by decide
  cases blank with
  | nil => simp [State.step, State.equals, hkey]
  | cons c blank =>
    rw [Blank, List.forall_mem_cons] at h
    have hstep : State.step ⟨.key key, keys, read⟩ c = ⟨.afterKey key, keys, read⟩ := by
      have hc : c ≠ '=' := by
        rintro rfl
        rw [hspace] at h
        exact absurd h.1 (by decide)
      simp [State.step, h.1, hc]
    rw [List.foldl_cons, hstep, foldl_blank (fun d hd => by simp [State.step, hd]) h.2]
    simp [State.step, State.equals, hspace, hkey]

/-- A value is read up to its quote. -/
lemma foldl_value {key text : String} {quote : Char} {value : List Char} (h : quote ∉ value) :
    value.foldl State.step ⟨.value key quote text, keys, read⟩ =
      ⟨.value key quote (text ++ String.ofList value), keys, read⟩ := by
  induction value generalizing text with
  | nil => simp
  | cons c value ih =>
    rw [List.mem_cons, not_or] at h
    rw [← push_append_ofList, ← ih h.2, List.foldl_cons]
    simp [State.step, Ne.symm h.1]

/-- An attribute of a new key is read. -/
lemma foldl_attribute {cs : List Char} {a : Attribute} (h : AttributeText cs a)
    (hkey : a.1 ∉ keys) :
    cs.foldl State.step ⟨.between, keys, read⟩ = ⟨.between, a.1 :: keys, read ++ [a]⟩ := by
  cases h with
  | @mk blank key before after quote value hblank _ hname hbefore hafter hquote hvalue =>
    have hspace : isSpace quote = false := by
      rw [isQuote, Bool.or_eq_true, beq_iff_eq, beq_iff_eq] at hquote
      rcases hquote with rfl | rfl <;> decide
    have hopen : State.step ⟨.afterEquals key, key :: keys, read⟩ quote =
        ⟨.value key quote "", key :: keys, read⟩ := by
      simp [State.step, hspace, hquote]
    simp only [List.foldl_append, List.foldl_cons, List.foldl_nil]
    rw [foldl_blank (fun c hc => by simp [State.step, hc]) hblank, foldl_name hname,
      step_equals hbefore hkey, foldl_blank (fun c hc => by simp [State.step, hc]) hafter, hopen,
      foldl_value hvalue]
    simp [State.step]

/-- Attributes of distinct keys are read in order. -/
lemma foldl_attributes {cs : List Char} {attributes : List Attribute}
    (h : AttributesText cs attributes) (hkeys : ∀ a ∈ attributes, a.1 ∉ keys) :
    (cs.foldl State.step ⟨.between, keys, read⟩).read = read ++ attributes := by
  induction h generalizing keys read with
  | nil h => rw [foldl_blank (fun c hc => by simp [State.step, hc]) h, List.append_nil]
  | cons ha hfresh _ ih =>
    rw [List.forall_mem_cons] at hkeys
    rw [List.foldl_append, foldl_attribute ha hkeys.1, ih, List.append_assoc, List.singleton_append]
    intro b hb hmem
    rcases List.mem_cons.1 hmem with hb' | hb'
    · exact hfresh b hb hb'
    · exact hkeys.2 b hb hb'

end Attributes

/-- What stands behind the name of a tag is read as its attributes. -/
lemma attributes_ofText {cs attributes} (h : AttributesText cs attributes) :
    Attribute.ofText cs = attributes := by
  rw [Attribute.ofText, foldl_attributes h (by simp), List.nil_append]

/-- Behind the name of a tag stands white space, or nothing. -/
lemma isSpace_of_attributesText {cs attributes} (h : AttributesText cs attributes) :
    ∀ c ∈ cs.head?, isSpace c = true := by
  cases h with
  | nil h => exact fun c hc => h c (List.mem_of_mem_head? hc)
  | cons ha _ _ =>
    obtain ⟨hblank, hne, -, -, -, -, -⟩ := ha
    obtain ⟨c, rest, rfl⟩ := List.exists_cons_of_ne_nil hne
    rintro _ ⟨⟩
    exact hblank _ List.mem_cons_self

/-- The content of a tag is read as the tag. -/
lemma ofContent_of_tagText {cs tag} (h : TagText cs tag) : Tag.ofContent cs = tag := by
  cases h with
  | @mk name cs attributes hname hattributes =>
    have hletters : ∀ c ∈ name.toList, (!isSpace c) = true := by
      intro c hc
      simp [(hname.letters c hc).1]
    have hend : cs.takeWhile (!isSpace ·) = [] ∧ cs.dropWhile (!isSpace ·) = cs := by
      cases cs with
      | nil => exact ⟨rfl, rfl⟩
      | cons c cs => simp [isSpace_of_attributesText hattributes c rfl]
    rw [Tag.ofContent, List.takeWhile_append_of_pos hletters, List.dropWhile_append_of_pos hletters,
      hend.1, hend.2, List.append_nil, String.ofList_toList, attributes_ofText hattributes]

end Markup

end Typings
