import Typings.Proofs.Markup.Attribute

/-!
# Reading documents

A text that the grammar derives is read as the document of its events, without an error. What the
grammar joins is read one after the other: from between two items each item leads to between two
items again, whatever stands behind it.
-/

namespace Typings.Markup

open Grammar

lemma isSpace_iff {c : Char} :
    isSpace c = true ↔ c = ' ' ∨ c = '\t' ∨ c = '\r' ∨ c = '\n' := by
  simp [isSpace, or_assoc]

lemma endsWith_iff {s stop : String} : endsWith s stop = true ↔ stop.toList <:+ s.toList := by
  simp [endsWith]

lemma startsWith_iff {s start : String} :
    startsWith s start = true ↔ start.toList <+: s.toList := by
  simp [startsWith]

/-- A text is what trimming leaves of it with white space behind it. -/
lemma trimEnd_append_blank {s : String} {blank : List Char} (hblank : Blank blank)
    (hs : ∀ c ∈ s.toList.getLast?, isSpace c = false) : trimEnd (s ++ String.ofList blank) = s := by
  have hkept : s.toList.reverse.dropWhile isSpace = s.toList.reverse := by
    rw [← List.head?_reverse] at hs
    cases hcs : s.toList.reverse with
    | nil => rfl
    | cons c cs =>
      rw [hcs] at hs
      simp [hs c rfl]
  rw [trimEnd, String.toList_append, String.toList_ofList, List.reverse_append,
    List.dropWhile_append_of_pos fun c hc => hblank c (List.mem_reverse.1 hc), hkept,
    List.reverse_reverse, String.ofList_toList]

namespace Tokenizer

variable {content : String} {cs rest : List Char}

/-- Where no token is complete, reading goes on from the next place. -/
lemma run_goOn {place place' : Place} {c} (h : place.step c = goOn place') :
    run place (c :: rest) = run place' rest := by
  rw [run, h, goOn]

/-- A token that is complete stands in front of those of the rest. -/
lemma run_token {place place' : Place} {c token} (h : place.step c = .ok (place', some token)) :
    run place (c :: rest) = (token :: (run place' rest).1, (run place' rest).2) := by
  rw [run, h]

/-- Characters that a place takes into its content are read on from the same place. -/
lemma run_through (place : String → Place)
    (h : ∀ before c after, cs = before ++ c :: after →
      (place (content ++ String.ofList before)).step c =
        goOn (place ((content ++ String.ofList before).push c))) :
    run (place content) (cs ++ rest) = run (place (content ++ String.ofList cs)) rest := by
  induction cs generalizing content with
  | nil => simp
  | cons c cs ih =>
    have hstep : (place content).step c = goOn (place (content.push c)) := by
      simpa using h [] c cs rfl
    rw [List.cons_append, run_goOn hstep, ← push_append_ofList]
    refine ih fun before d after heq => ?_
    rw [push_append_ofList]
    exact h (c :: before) d after (by rw [heq, List.cons_append])

/-- Between items white space is passed over. -/
lemma run_blank (h : Blank cs) : run .between (cs ++ rest) = run .between rest := by
  induction cs with
  | nil => rfl
  | cons c cs ih =>
    rw [Blank, List.forall_mem_cons] at h
    have hstep : Place.between.step c = goOn .between := by simp [Place.step, h.1]
    rw [List.cons_append, run_goOn hstep, ih h.2]

/-- A comment is passed over. -/
lemma run_comment (h : ¬['-', '-'] <:+: cs) :
    run .between ("<!--".toList ++ cs ++ "-->".toList ++ rest) = run .between rest := by
  have hopen (r) : run .between ("<!--".toList ++ r) = run (.comment "!--") r := rfl
  have hlength (b : List Char) : ("!--" ++ String.ofList b).length = 3 + b.length := by
    have hmark : "!--".length = 3 := rfl
    simp only [String.length_append, String.length_ofList, hmark]
  -- Two hyphens at the end of what has been read would stand in the comment.
  have hthrough (r) :
      run (.comment "!--") (cs ++ r) = run (.comment ("!--" ++ String.ofList cs)) r := by
    refine run_through .comment fun before c after heq => ?_
    rw [Place.step, stepComment, if_neg]
    simp only [Bool.and_eq_true, decide_eq_true_eq, endsWith_iff, String.toList_append,
      String.toList_ofList, hlength]
    rintro ⟨⟨-, hhyphens⟩, hlong⟩
    have hbefore : ['-', '-'] <:+ before := by
      refine List.suffix_of_suffix_length_le hhyphens (List.suffix_append _ _) ?_
      simp only [List.length_cons, List.length_nil]
      omega
    rw [heq] at h
    exact h (hbefore.isInfix.trans (List.prefix_append _ _).isInfix)
  have hclose : run (.comment ("!--" ++ String.ofList cs)) ("-->".toList ++ rest) =
      run .between rest := by
    have hhyphen (content) :
        (Place.comment content).step '-' = goOn (.comment (content.push '-')) := rfl
    have hend : (Place.comment ((("!--" ++ String.ofList cs).push '-').push '-')).step '>' =
        goOn .between := by
      have hstart : startsWith ((("!--" ++ String.ofList cs).push '-').push '-') "!--" = true := by
        simp [startsWith_iff]
      have hstop : endsWith ((("!--" ++ String.ofList cs).push '-').push '-') "--" = true := by
        rw [endsWith_iff]
        simpa using List.suffix_append ('!' :: '-' :: '-' :: cs) ['-', '-']
      rw [Place.step, stepComment, if_pos (by simp [hstop, hlength]), if_pos hstart]
    exact (run_goOn (hhyphen _)).trans ((run_goOn (hhyphen _)).trans (run_goOn hend))
  rw [List.append_assoc, List.append_assoc, hopen, hthrough, hclose]

/-- An instruction is passed over. -/
lemma run_instruction (h : ¬['?', '>'] <:+: '?' :: cs) :
    run .between ("<?".toList ++ cs ++ "?>".toList ++ rest) = run .between rest := by
  have hopen (r) : run .between ("<?".toList ++ r) = run (.instruction "?") r := rfl
  -- A question mark in front of a bracket would end the instruction before its end.
  have hthrough (r) :
      run (.instruction "?") (cs ++ r) = run (.instruction ("?" ++ String.ofList cs)) r := by
    refine run_through .instruction fun before c after heq => ?_
    rw [Place.step, stepInstruction, if_neg]
    simp only [Bool.and_eq_true, decide_eq_true_eq, endsWith_iff, String.toList_append,
      String.toList_ofList]
    rintro ⟨rfl, start, hstart⟩
    refine h ⟨start, after, ?_⟩
    calc start ++ ['?', '>'] ++ after = start ++ "?".toList ++ '>' :: after := by simp
      _ = "?".toList ++ before ++ '>' :: after := by rw [hstart]
      _ = '?' :: cs := by simp [heq]
  have hclose : run (.instruction ("?" ++ String.ofList cs)) ("?>".toList ++ rest) =
      run .between rest := by
    have hmark (content) :
        (Place.instruction content).step '?' = goOn (.instruction (content.push '?')) :=
      rfl
    have hend : (Place.instruction (("?" ++ String.ofList cs).push '?')).step '>' =
        goOn .between := by
      have hlong : ("?" ++ String.ofList cs).push '?' ≠ "?" := by simp [← String.toList_inj]
      rw [Place.step, stepInstruction, if_pos, if_neg hlong]
      simp [endsWith_iff]
    exact (run_goOn (hmark _)).trans (run_goOn hend)
  rw [List.append_assoc, List.append_assoc, hopen, hthrough, hclose]

/-- A text is a token, up to the markup behind it. -/
lemma run_text {text : String} {blank} (htext : IsText text) (hblank : Blank blank)
    (hrest : ∀ c ∈ rest.head?, c = '<') :
    run .between (text.toList ++ blank ++ rest) =
      (.text text :: (run .between rest).1, (run .between rest).2) := by
  obtain ⟨hne, hbegins, hends, hplain⟩ := htext
  obtain ⟨c, letters, hcs⟩ := List.exists_cons_of_ne_nil hne
  have hopen (r) : run .between (text.toList ++ r) = run (.text c.toString) (letters ++ r) := by
    have hstep : Place.between.step c = goOn (.text c.toString) := by
      rw [hcs, List.forall_mem_cons] at hplain
      simp [Place.step, hbegins c (by rw [hcs]; rfl), hplain.1]
    rw [hcs, List.cons_append, run_goOn hstep]
  have hthrough (r) : run (.text c.toString) (letters ++ (blank ++ r)) =
      run (.text (text ++ String.ofList blank)) r := by
    have hjoin : c.toString ++ String.ofList (letters ++ blank) = text ++ String.ofList blank := by
      simp [← String.toList_inj, hcs]
    rw [← hjoin, ← List.append_assoc]
    refine run_through .text fun before d after heq => ?_
    have hd : d ≠ '<' ∧ d ≠ '&' := by
      have hmem : d ∈ letters ++ blank := by simp [heq]
      rcases List.mem_append.1 hmem with hmem | hmem
      · exact hplain d (by rw [hcs]; exact List.mem_cons_of_mem _ hmem)
      · rcases isSpace_iff.1 (hblank d hmem) with rfl | rfl | rfl | rfl <;> decide
    simp [Place.step, hd]
  rw [List.append_assoc, hopen, hthrough]
  cases rest with
  | nil => simp [run, Place.finish, trimEnd_append_blank hblank hends]
  | cons d rest =>
    obtain rfl := hrest d rfl
    have hend : (Place.text (text ++ String.ofList blank)).step '<' =
        .ok (.bracket, some (.text text)) := by
      simp [Place.step, trimEnd_append_blank hblank hends]
    rw [run_token hend]
    rfl

lemma inert_of_isSpace {c} (h : isSpace c = true) : isQuote c = false ∧ c ≠ '>' := by
  rcases isSpace_iff.1 h with rfl | rfl | rfl | rfl <;> decide

lemma inert_of_inName {c} (h : InName c) : isQuote c = false ∧ c ≠ '>' := by
  obtain ⟨-, hquote, hmark⟩ := h
  refine ⟨hquote, ?_⟩
  rintro rfl
  simp at hmark

/-- Within a tag the characters are taken into its content, and none of them ends it. -/
def Balanced (cs : List Char) : Prop :=
  ∀ content rest,
    run (.element content none) (cs ++ rest) =
      run (.element (content ++ String.ofList cs) none) rest

lemma Balanced.append {cs' : List Char} (h : Balanced cs) (h' : Balanced cs') :
    Balanced (cs ++ cs') := by
  intro content rest
  rw [List.append_assoc, h, h', String.ofList_append, String.append_assoc]

/-- Outside of values only quotes and the closing bracket matter. -/
lemma balanced_of_inert (h : ∀ c ∈ cs, isQuote c = false ∧ c ≠ '>') : Balanced cs := by
  intro content rest
  refine run_through (.element · none) fun before c after heq => ?_
  obtain ⟨hquote, hend⟩ := h c (by simp [heq])
  simp [Place.step, stepElement, stepQuote, hquote, hend]

/-- A quoted value may hold any character but its quote. -/
lemma balanced_quoted {quote value} (hquote : isQuote quote = true) (hvalue : quote ∉ value) :
    Balanced (quote :: value ++ [quote]) := by
  intro content rest
  have hopen : (Place.element content none).step quote =
      goOn (.element (content.push quote) (some quote)) := by
    have hmark : quote ≠ '>' := by
      rintro rfl
      revert hquote
      decide
    simp [Place.step, stepElement, stepQuote, hquote, hmark]
  have hthrough (r) : run (.element (content.push quote) (some quote)) (value ++ r) =
      run (.element (content.push quote ++ String.ofList value) (some quote)) r := by
    refine run_through (.element · (some quote)) fun before c after heq => ?_
    have hc : c ≠ quote := by
      rintro rfl
      exact hvalue (by simp [heq])
    simp [Place.step, stepElement, stepQuote, hc]
  have hclose (content') : (Place.element content' (some quote)).step quote =
      goOn (.element (content'.push quote) none) := by
    simp [Place.step, stepElement, stepQuote]
  have hjoin : (content.push quote ++ String.ofList value).push quote =
      content ++ String.ofList (quote :: (value ++ [quote])) := by
    simp [← String.toList_inj]
  rw [List.cons_append, List.cons_append, List.append_assoc, run_goOn hopen, hthrough,
    List.singleton_append, run_goOn (hclose _), hjoin]

lemma balanced_blank (h : Blank cs) : Balanced cs :=
  balanced_of_inert fun c hc => inert_of_isSpace (h c hc)

lemma balanced_name {name} (h : IsName name) : Balanced name.toList :=
  balanced_of_inert fun c hc => inert_of_inName (h.letters c hc)

lemma balanced_attributeText {a} (h : AttributeText cs a) : Balanced cs := by
  cases h with
  | mk hblank _ hname hbefore hafter hquote hvalue =>
    have hequals : Balanced ['='] := balanced_of_inert (by simp [isQuote])
    have hfront := ((balanced_blank hblank).append (balanced_name hname)).append
      (balanced_blank hbefore)
    have hmiddle := hequals.append (balanced_blank hafter)
    have hvalue := balanced_quoted hquote hvalue
    simpa using (hfront.append hmiddle).append hvalue

lemma balanced_attributesText {attributes} (h : AttributesText cs attributes) : Balanced cs := by
  induction h with
  | nil h => exact balanced_blank h
  | cons ha _ _ ih => exact (balanced_attributeText ha).append ih

lemma balanced_tagText {tag} (h : TagText cs tag) : Balanced cs := by
  cases h with
  | mk hname hattributes => exact (balanced_name hname).append (balanced_attributesText hattributes)

lemma ne_slash_of_append {cs' : List Char} (h : ∀ c ∈ cs.getLast?, c ≠ '/')
    (h' : ∀ c ∈ cs'.getLast?, c ≠ '/') : ∀ c ∈ (cs ++ cs').getLast?, c ≠ '/' := by
  intro c hc
  rw [List.getLast?_append, Option.mem_def, Option.or_eq_some_iff] at hc
  rcases hc with hc | ⟨-, hc⟩
  · exact h' c hc
  · exact h c hc

/-- The attributes of a tag end with a quote or with white space. -/
lemma ne_slash_of_attributesText {attributes} (h : AttributesText cs attributes) :
    ∀ c ∈ cs.getLast?, c ≠ '/' := by
  induction h with
  | nil h =>
    intro c hc
    rcases isSpace_iff.1 (h c (List.mem_of_mem_getLast? hc)) with rfl | rfl | rfl | rfl <;> decide
  | cons ha _ _ ih =>
    refine ne_slash_of_append ?_ ih
    obtain ⟨-, -, -, -, -, hquote, -⟩ := ha
    rw [List.getLast?_append]
    rintro _ ⟨⟩ rfl
    revert hquote
    decide

lemma ne_slash_of_tagText {tag} (h : TagText cs tag) : ∀ c ∈ cs.getLast?, c ≠ '/' := by
  cases h with
  | mk hname hattributes =>
    refine ne_slash_of_append ?_ (ne_slash_of_attributesText hattributes)
    rintro _ hc rfl
    obtain ⟨-, -, hmark⟩ := hname.letters _ (List.mem_of_mem_getLast? hc)
    simp at hmark

/-- A tag is read from its bracket on. -/
lemma run_bracket {tag} (h : TagText cs tag) :
    run .between ('<' :: (cs ++ rest)) = run (.element (String.ofList cs) none) rest := by
  have hbalanced := balanced_tagText h "" rest
  rw [String.empty_append] at hbalanced
  rw [← hbalanced]
  cases h with
  | @mk name cs attributes hname _ =>
    obtain ⟨c, letters, hletters⟩ := List.exists_cons_of_ne_nil hname.nonempty
    obtain ⟨-, -, hmark⟩ := hname.letters c (by simp [hletters])
    simp only [List.mem_cons, List.not_mem_nil, not_or, or_false] at hmark
    have hstep : Place.bracket.step c = (Place.element "" none).step c := by
      simp [Place.step, hmark]
    have hopen : Place.between.step '<' = goOn .bracket := rfl
    rw [run_goOn hopen, hletters, List.cons_append, List.cons_append, run, run, hstep]

/-- A start tag is a token. -/
lemma run_opening {tag} (h : TagText cs tag) :
    run .between ('<' :: cs ++ '>' :: rest) =
      (.opening tag :: (run .between rest).1, (run .between rest).2) := by
  have htag : Token.ofElement (String.ofList cs) = .opening tag := by
    rw [← ofContent_of_tagText h, Token.ofElement, String.toList_ofList]
    split
    · next r hr =>
      refine absurd rfl (ne_slash_of_tagText h '/' ?_)
      rw [← List.head?_reverse, hr]
      rfl
    · rfl
  rw [List.cons_append, run_bracket h, ← htag]
  exact run_token rfl

/-- The tag of an empty element is a token. -/
lemma run_empty {tag} (h : TagText cs tag) :
    run .between ('<' :: cs ++ "/>".toList ++ rest) =
      (.empty tag :: (run .between rest).1, (run .between rest).2) := by
  have htag : Token.ofElement ((String.ofList cs).push '/') = .empty tag := by
    rw [← ofContent_of_tagText h, Token.ofElement]
    simp
  have hslash : (Place.element (String.ofList cs) none).step '/' =
      goOn (.element ((String.ofList cs).push '/') none) := rfl
  rw [List.append_assoc, List.cons_append, run_bracket h, ← htag]
  exact (run_goOn hslash).trans (run_token rfl)

/-- An end tag is a token. -/
lemma run_closing {name : String} {blank} (hname : IsName name) (hblank : Blank blank) :
    run .between ("</".toList ++ name.toList ++ blank ++ '>' :: rest) =
      (.closing name :: (run .between rest).1, (run .between rest).2) := by
  have hopen (r) : run .between ("</".toList ++ r) = run (.closing "" none) r := rfl
  have hthrough (r) : run (.closing "" none) (name.toList ++ blank ++ r) =
      run (.closing (name ++ String.ofList blank) none) r := by
    have hjoin : "" ++ String.ofList (name.toList ++ blank) = name ++ String.ofList blank := by
      simp
    rw [← hjoin]
    refine run_through (.closing · none) fun before c after heq => ?_
    obtain ⟨hquote, hend⟩ : isQuote c = false ∧ c ≠ '>' := by
      have hmem : c ∈ name.toList ++ blank := by simp [heq]
      rcases List.mem_append.1 hmem with hmem | hmem
      · exact inert_of_inName (hname.letters c hmem)
      · exact inert_of_isSpace (hblank c hmem)
    simp [Place.step, stepClosing, stepQuote, hquote, hend]
  have hlast : ∀ c ∈ name.toList.getLast?, isSpace c = false :=
    fun c hc => (hname.letters c (List.mem_of_mem_getLast? hc)).1
  have hclosing : Token.ofClosing (name ++ String.ofList blank) = .closing name := by
    have hne : name ≠ "" := fun h => hname.nonempty (by rw [h]; rfl)
    simp [Token.ofClosing, trimEnd_append_blank hblank hlast, hne]
  rw [List.append_assoc, List.append_assoc, hopen, ← List.append_assoc, hthrough, ← hclosing]
  exact run_token rfl

end Tokenizer

open Tokenizer

namespace Document

/-- The rest of a document from between two items on, inside the open elements of the given names.
-/
def after (names : List String) (cs : List Char) : Document :=
  ofTokens names (run .between cs).1 (run .between cs).2

/-- The document with more events in front. -/
def prepend (events : List Event) (document : Document) : Document :=
  { document with events := events ++ document.events }

variable {names : List String} {cs blank rest : List Char} {tag : Tag}

lemma after_text {text} (htext : IsText text) (hblank : Blank blank)
    (hrest : ∀ c ∈ rest.head?, c = '<') :
    after names (text.toList ++ blank ++ rest) = (after names rest).cons (.text text) := by
  rw [after, run_text htext hblank hrest]
  rfl

lemma after_empty (h : TagText cs tag) :
    after names ('<' :: cs ++ "/>".toList ++ rest) = (after names rest).cons (.empty tag) := by
  rw [after, run_empty h]
  rfl

lemma after_opening (h : TagText cs tag) :
    after names ('<' :: cs ++ '>' :: rest) =
      (after (tag.name :: names) rest).cons (.opened tag) := by
  rw [after, run_opening h]
  rfl

lemma after_closing {name} (hname : IsName name) (hblank : Blank blank) :
    after (name :: names) ("</".toList ++ name.toList ++ blank ++ '>' :: rest) =
      (after names rest).cons .closed := by
  rw [after, run_closing hname hblank, ofTokens, if_pos rfl]
  rfl

lemma isName_of_tagText (h : TagText cs tag) : IsName tag.name := by
  cases h with
  | mk hname _ => exact hname

/-- What the grammar derives is read as its events, whatever markup stands behind it. -/
lemma after_content {events} (h : Content cs events) (hrest : ∀ c ∈ rest.head?, c = '<') :
    after names (cs ++ rest) = (after names rest).prepend events := by
  induction h generalizing names rest with
  | nil => rfl
  | @space c cs events hc _ ih =>
    have hblank : Blank [c] := by simpa [Blank] using hc
    change after names ([c] ++ (cs ++ rest)) = _
    rw [after, run_blank hblank, ← ih hrest, after]
  | comment hbody _ ih =>
    rw [← ih hrest, after, after, List.append_assoc, run_comment hbody]
  | instruction hbody _ ih =>
    rw [← ih hrest, after, after, List.append_assoc, run_instruction hbody]
  | @text text blank cs events htext hblank hcs _ ih =>
    have hbehind : ∀ c ∈ (cs ++ rest).head?, c = '<' := by
      cases cs with
      | nil => exact hrest
      | cons c cs => exact hcs
    rw [List.append_assoc, after_text htext hblank hbehind, ih hrest]
    rfl
  | empty htag _ ih =>
    rw [List.append_assoc, after_empty htag, ih hrest]
    rfl
  | @element cs tag inner blank outer events events' htag _ hblank _ ihinner ih =>
    have hend : ∀ c ∈ ("</".toList ++ tag.name.toList ++ blank ++ '>' :: (outer ++ rest)).head?,
        c = '<' := by
      rintro _ ⟨⟩
      rfl
    have hnest : '<' :: cs ++ '>' :: inner ++ "</".toList ++ tag.name.toList ++ blank ++
          '>' :: outer ++ rest =
        '<' :: cs ++ '>' :: (inner ++
          ("</".toList ++ tag.name.toList ++ blank ++ '>' :: (outer ++ rest))) := by
      simp
    rw [hnest, after_opening htag, ihinner hend, after_closing (isName_of_tagText htag) hblank,
      ih hrest]
    simp [prepend, Document.cons]

end Document

/-- A text without a byte order mark is read from its first character on. -/
lemma tokenize_of_head? {text : String} (h : text.toList.head? ≠ some '\uFEFF') :
    tokenize text = run .between text.toList := by
  rw [tokenize]
  split
  case h_1 r hr =>
    rw [hr] at h
    exact absurd rfl h
  case h_2 => rfl

/-- A text is read as the document that it spells, without an error. -/
theorem ofText_of_spells {text events} (h : Spells text events) :
    Document.ofText text = ⟨events, none⟩ := by
  have content {cs} (h : Grammar.Content cs events) :
      Document.ofTokens [] (run .between cs).1 (run .between cs).2 = ⟨events, none⟩ := by
    have hcontent : Document.after [] (cs ++ []) = (Document.after [] []).prepend events :=
      Document.after_content h (by simp)
    rw [List.append_nil] at hcontent
    refine hcontent.trans ?_
    simp [Document.after, run, Place.finish, Document.ofTokens, Document.prepend]
  cases h with
  | plain hmark h =>
    rw [Document.ofText, tokenize_of_head? hmark]
    exact content h
  | marked hmark h =>
    rw [Document.ofText, tokenize, hmark]
    exact content h

end Typings.Markup
