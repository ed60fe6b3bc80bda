import Typings.Proofs.TypeRef.Derivation

/-!
# Reading what the grammar derives

Every text that the grammar derives is read, so the reading of type expressions accepts exactly the
grammar. A derivation takes the state before a type to one where the type is complete, and the text
behind it is read from there on.
-/

namespace Typings.TypeRef

open Typings.Text
open Grammar

variable {scope : List String}

namespace Expression

/-- Reading the characters from the state on leads to the given type, wherever they stand in the
text. -/
inductive Accepts (scope : List String) (t : TypeRef) : State → List Char → Prop where
  | done {s} : s.finish scope = .ok t → Accepts scope t s []
  | step {s s' c rest} :
    (∀ position, s.step scope position c = .ok s') → Accepts scope t s' rest →
    Accepts scope t s (c :: rest)

variable {t : TypeRef} {s : State} {cs : List Char} {pending : List Pending}

/-- What is accepted is read. -/
lemma Accepts.run (h : Accepts scope t s cs) (position : Nat) :
    ∃ s', s.run scope position cs = .ok s' ∧ s'.finish scope = .ok t := by
  induction h generalizing position with
  | done h => exact ⟨_, rfl, h⟩
  | step hstep _ ih =>
    rw [State.run, hstep position]
    exact ih (position + 1)

/-- White space changes nothing outside of names. -/
lemma Accepts.skip {r} (h : Accepts scope t s r) (hs : ∀ text, s.place ≠ .name text)
    (hskips : Skips cs r) : Accepts scope t s cs := by
  induction hskips with
  | refl => exact h
  | space hc _ ih =>
    refine .step (fun position => ?_) (ih h)
    obtain ⟨place, pending⟩ := s
    cases place with
    | name text => exact absurd rfl (hs text)
    | start => simp [State.step, hc]
    | named n => simp [State.step, afterName, hc]
    | complete type => simp [State.step, afterType, hc]
    | bracket type => simp [State.step, hc]

/-- No complete type goes on with arguments. -/
lemma afterType_open {position t s'} : afterType position t pending '<' ≠ .ok s' := by
  intro h
  have hspace : isSpace '<' = false := by decide
  cases pending with
  | nil => simp [afterType, hspace] at h
  | cons p outer => simp [afterType, hspace] at h

/-- A name without arguments is a complete type. -/
lemma Accepts.bare {n} (h : Accepts scope t ⟨.complete (ofName scope n), pending⟩ cs) :
    Accepts scope t ⟨.named n, pending⟩ cs := by
  induction cs with
  | nil =>
    cases h with
    | done h => exact .done h
  | cons c rest ih =>
    cases h with
    | @step _ s' _ _ hstep h =>
      by_cases hspace : isSpace c = true
      · -- The name is still waiting for its arguments.
        have hs' : s' = ⟨.complete (ofName scope n), pending⟩ := by
          have h0 := hstep 0
          simp only [State.step, afterType, hspace, if_true] at h0
          exact (Except.ok.inj h0).symm
        subst hs'
        refine .step (fun position => ?_) (ih h)
        simp [State.step, afterName, hspace]
      · refine .step (fun position => ?_) h
        have hopen : c ≠ '<' := by
          rintro rfl
          exact afterType_open (hstep 0)
        simp only [State.step, afterName, hspace, hopen, if_false]
        exact hstep position

/-- The characters of a name are read into the name. -/
lemma Accepts.letters {n text letters rest} (hn : text.toList ++ letters = n.toList)
    (hletters : ∀ c ∈ letters, InName c) (h : Accepts scope t ⟨.name n, pending⟩ rest) :
    Accepts scope t ⟨.name text, pending⟩ (letters ++ rest) := by
  induction letters generalizing text with
  | nil =>
    rw [List.append_nil, String.toList_inj] at hn
    exact hn ▸ h
  | cons c letters ih =>
    rw [List.forall_mem_cons] at hletters
    have hn' : (text.push c).toList ++ letters = n.toList := by simpa using hn
    refine .step (fun position => ?_) (ih hn' hletters.2)
    simp [State.step, continuesName_iff.2 hletters.1]

/-- A name is read from the beginning of a type. -/
lemma Accepts.name {n r₀ r₁} (hname : Name n r₀ r₁)
    (h : Accepts scope t ⟨.named n, pending⟩ r₁) : Accepts scope t ⟨.start, pending⟩ r₀ := by
  obtain ⟨⟨⟨c, letters, hn, hstarts⟩, hgoesOn, hcomplete⟩, hskips, hmaximal⟩ := hname
  have hincomplete : ¬isIncomplete n = true := fun hi => hcomplete (isIncomplete_iff.1 hi)
  refine Accepts.skip ?_ (by simp) hskips
  -- Behind the name its end is noticed.
  have hend : Accepts scope t ⟨.name n, pending⟩ r₁ := by
    cases h with
    | done h => exact .done (by simpa [State.finish, hincomplete] using h)
    | @step _ _ d rest hstep h =>
      refine .step (fun position => ?_) h
      have hd : ¬continuesName d = true := fun hd => hmaximal d rfl (continuesName_iff.1 hd)
      simpa [State.step, hd, hincomplete] using hstep position
  have hstep (position) : State.step scope position ⟨.start, pending⟩ c =
      .ok ⟨.name c.toString, pending⟩ := by
    simp [State.step, isSpace_eq_false_of_starts hstarts, startsName_iff.2 hstarts]
  rw [hn, List.cons_append]
  refine .step hstep (hend.letters (by simp [hn]) ?_)
  rwa [hn] at hgoesOn

/-- A mark other than white space stands behind white space. -/
lemma Accepts.mark {c rest s'} (hmark : Mark c cs rest) (hs : ∀ text, s.place ≠ .name text)
    (hstep : ∀ position, s.step scope position c = .ok s') (h : Accepts scope t s' rest) :
    Accepts scope t s cs :=
  .skip (.step hstep h) hs hmark

end Expression

open Expression

lemma ofName_parameter {n} (h : n ∈ scope) : ofName scope n = .parameter n := by
  rw [ofName, if_pos (by simpa using h)]

lemma ofName_builtin {n b} (h : n ∉ scope) (hb : Builtin.ofName? n = some b) :
    ofName scope n = .builtin b := by
  rw [ofName, if_neg (by simpa using h), hb]

lemma ofName_named {n} (h : n ∉ scope) (hb : Builtin.ofName? n = none) :
    ofName scope n = .named n := by
  rw [ofName, if_neg (by simpa using h), hb]

lemma apply_generic {n args} (h : n ≠ "Nullable") (h' : n ≠ "System.Nullable") :
    apply n args = .ok (.generic n args) := by
  have hn : ¬isNullableName n = true := by
    rw [isNullableName_iff, not_or]
    exact ⟨h, h'⟩
  simp only [apply, hn]
  rfl

lemma apply_wrapper {n a} (h : n = "Nullable" ∨ n = "System.Nullable") :
    apply n [a] = .ok (.nullable a) := by
  simp only [apply, isNullableName_iff.2 h, if_true]

/-- The last argument is complete when the bracket behind it closes the arguments. -/
lemma Expression.Accepts.close {t a u cs rest n before} {pending : List Pending}
    (hclose : Mark '>' cs rest) (hu : apply n (before ++ [a]) = .ok u)
    (h : Accepts scope t ⟨.complete u, pending⟩ rest) :
    Accepts scope t ⟨.complete a, ⟨n, before⟩ :: pending⟩ cs := by
  refine .mark hclose (by simp) (fun position => ?_) h
  have hspace : isSpace '>' = false := by decide
  simp [State.step, afterType, hspace, hu, Except.map]

mutual

/-- A derived type is read completely, whatever generic types are pending around it. -/
lemma Grammar.Derives.accepts {t u cs rest} {pending : List Pending} :
    Derives scope cs u rest → Accepts scope t ⟨.complete u, pending⟩ rest →
    Accepts scope t ⟨.start, pending⟩ cs
  | .parameter hname hn, h => .name hname (.bare (by rwa [ofName_parameter hn]))
  | .builtin hname hn hb, h => .name hname (.bare (by rwa [ofName_builtin hn hb]))
  | .named hname hn hb, h => .name hname (.bare (by rwa [ofName_named hn hb]))
  | .generic hname hn hn' hopen hargs hclose, h => by
    refine .name hname (.mark hopen (by simp) (fun _ => rfl) ?_)
    exact hargs.accepts hclose (apply_generic hn hn') h
  | .wrapper hname hn hopen ht hclose, h => by
    refine .name hname (.mark hopen (by simp) (fun _ => rfl) ?_)
    exact ht.accepts (.close hclose (apply_wrapper hn) h)
  | .array ht hopen hclose, h => by
    refine ht.accepts (.mark hopen (by simp) (fun _ => rfl) ?_)
    exact .mark hclose (by simp) (fun _ => rfl) h
  | .nullable ht hnot hmark, h => by
    refine ht.accepts (.mark hmark (by simp) (fun _ => ?_) h)
    have hspace : isSpace '?' = false := by decide
    simp [State.step, afterType, hspace, hnot]

/-- Derived arguments are read behind those read before, up to the bracket that closes them. -/
lemma Grammar.DerivesArgs.accepts {t u cs r rest n args before} {pending : List Pending} :
    DerivesArgs scope cs args r → Mark '>' r rest → apply n (before ++ args) = .ok u →
    Accepts scope t ⟨.complete u, pending⟩ rest →
    Accepts scope t ⟨.start, ⟨n, before⟩ :: pending⟩ cs
  | .last ht, hclose, hu, h => ht.accepts (.close hclose hu h)
  | .more ht hcomma hargs, hclose, hu, h => by
    refine ht.accepts (.mark hcomma (by simp) (fun _ => rfl) ?_)
    exact hargs.accepts hclose (by simpa using hu) h

end

/-- A text that the grammar derives is read. -/
lemma ofExpression_of_denotes {expression t} (h : Denotes scope expression t) :
    ofExpression scope expression = .ok t := by
  obtain ⟨rest, hderives, hskips⟩ := h
  -- At the end of the text only white space is left behind the complete type.
  have hend : Accepts scope t ⟨.complete t, []⟩ rest := .skip (.done rfl) (by simp) hskips
  obtain ⟨s, hrun, hfinish⟩ := (hderives.accepts hend).run 0
  rw [ofExpression, hrun]
  dsimp only
  rw [hfinish]

/-- A text that is refused is named by the error. -/
lemma expression_of_ofExpression {expression e} (h : ofExpression scope expression = .error e) :
    e.expression = expression := by
  rw [ofExpression] at h
  split at h
  · cases h
    rfl
  split at h
  · cases h
    rfl
  · cases h

/-- Reading accepts exactly the texts that the grammar derives, and gives what they denote. Every
other text is refused, with an error that names it. -/
theorem ofExpression_iff_denotes (scope : List String) (expression : String) :
    (∀ t, ofExpression scope expression = .ok t ↔ Denotes scope expression t) ∧
    ((∃ fault, ofExpression scope expression = .error ⟨expression, fault⟩) ↔
      ∀ t, ¬Denotes scope expression t) := by
  have reads (t) : ofExpression scope expression = .ok t ↔ Denotes scope expression t :=
    ⟨denotes_of_ofExpression, ofExpression_of_denotes⟩
  refine ⟨reads, ?_, ?_⟩
  · rintro ⟨fault, hfault⟩ t ht
    rw [ofExpression_of_denotes ht] at hfault
    cases hfault
  · intro none
    cases h : ofExpression scope expression with
    | ok t => exact absurd ((reads t).1 h) (none t)
    | error e =>
      obtain ⟨expression', fault⟩ := e
      obtain rfl : expression' = expression := expression_of_ofExpression h
      exact ⟨fault, rfl⟩

example : ofExpression ["T"] " Lookup < T , int ? > [ ] " =
    .ok (.array (.generic "Lookup" [.parameter "T", .nullable (.builtin .int32)])) := by
  decide +kernel

end Typings.TypeRef
