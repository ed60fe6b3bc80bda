import Typings.Proofs.Generation.Lines

/-!
# Interfaces and classes

A script is written with interfaces or with classes, root by root. Both ways go in step: they fail
with one error, having met the same enumerations until then, or both succeed with the same imports,
the same enumerations and the same roots in the same order. The text of a class is the text of the
interface with another keyword, a constructor and initial values.
-/

namespace Typings.Generation

variable {α β γ δ : Type}

/-- Two outcomes agree when both are the same error or both are related results, and the same
enumerations are known then. -/
inductive Agree (R : α → β → Prop) :
    Except Error α × List TypeRef → Except Error β × List TypeRef → Prop where
  | error {e met} : Agree R (.error e, met) (.error e, met)
  | ok {a b met} : R a b → Agree R (.ok a, met) (.ok b, met)

namespace Emission

/-- Two ways of writing go in step when their outcomes agree, whatever is known at first. -/
def InStep (R : α → β → Prop) (x : Emission α) (y : Emission β) : Prop :=
  ∀ known, Agree R (x.runFrom known) (y.runFrom known)

namespace InStep

variable {R : α → β → Prop} {S : γ → δ → Prop}

lemma pure {a : α} {b : β} (h : R a b) : InStep R (Pure.pure a) (Pure.pure b) :=
  fun _ => .ok h

/-- The same writing goes in step with itself. -/
lemma refl (x : Emission α) : InStep Eq x x := by
  intro known
  rcases x.runFrom known with ⟨e | a, met⟩
  · exact .error
  · exact .ok rfl

/-- Sequences go in step when their first parts do and the rest does from related results. -/
lemma bind {x : Emission α} {y : Emission β} {f : α → Emission γ} {g : β → Emission δ}
    (h : InStep R x y) (hfg : ∀ a b, R a b → InStep S (f a) (g b)) :
    InStep S (x >>= f) (y >>= g) := by
  intro known
  rw [runFrom_bind, runFrom_bind]
  have hxy := h known
  generalize x.runFrom known = p at hxy
  generalize y.runFrom known = q at hxy
  cases hxy with
  | error => exact .error
  | @ok a b met hab => exact hfg a b hab met

/-- What is asked for beside the writing comes out the same for both. -/
lemma lift_bind {x : Except Error α} {f : α → Emission γ} {g : α → Emission δ}
    (h : ∀ a, x = .ok a → InStep S (f a) (g a)) : InStep S (liftM x >>= f) (liftM x >>= g) := by
  cases x with
  | error e => exact fun _ => .error
  | ok a => exact h a rfl

/-- Runs over one list go in step when each element does, with results that are related in pairs. -/
lemma mapM {R : α → β → γ → Prop} {f : α → Emission β} {g : α → Emission γ}
    (h : ∀ a, InStep (R a) (f a) (g a)) (as : List α) :
    InStep (fun bs cs => ∃ pairs : List (β × γ),
      List.Forall₂ (fun a pair => R a pair.1 pair.2) as pairs ∧
        bs = pairs.map (·.1) ∧ cs = pairs.map (·.2)) (as.mapM f) (as.mapM g) := by
  induction as with
  | nil => exact .pure ⟨[], .nil, rfl, rfl⟩
  | cons a rest ih =>
    rw [List.mapM_cons, List.mapM_cons]
    refine (h a).bind fun b c hbc => ih.bind ?_
    rintro _ _ ⟨pairs, hpairs, rfl, rfl⟩
    exact .pure ⟨(b, c) :: pairs, .cons hbc hpairs, rfl, rfl⟩

end InStep

end Emission

namespace Configuration

open Emission

variable {c : Configuration}

/-- The line of a property in an interface and in a class. The class goes on with an initial value
behind the same name and the same type. -/
def TwinLines (c : Configuration) (named : String × Property) (asInterface asClass : String) :
    Prop :=
  ∃ type, c.propertyType named.2 = .ok type ∧
    asInterface = "    " ++ named.1 ++ ": " ++ type ++ ";\n" ∧
    asClass =
      "    " ++ named.1 ++ ": " ++ type ++ " = " ++ c.defaultValue named.2.type ++ ";\n"

/-- The lines of a type in an interface and in a class, one for each property that is written. -/
def TwinBodies (c : Configuration) (d : TypeDef) (asInterface asClass : String) : Prop :=
  ∃ (properties : List (String × Property)) (lines : List (String × String)),
    c.writtenProperties d = .ok properties ∧
    List.Forall₂ (fun named line => c.TwinLines named line.1 line.2) properties lines ∧
    asInterface = String.join (lines.map (·.1)) ∧
    asClass = String.join (lines.map (·.2))

/-- A type written as an interface and as a class. The two differ in their keyword, in the
constructor that the class has behind its brace, which calls that of the base exactly when the first
line names one, and in their lines. -/
inductive TwinTexts (c : Configuration) (d : TypeDef) : String → String → Prop where
  | mk {name base asInterface asClass} :
    c.typeName d = .ok name →
    (if c.options.preserveInheritance then c.baseName d else .ok none) = .ok base →
    c.TwinBodies d asInterface asClass →
    TwinTexts c d
      ("export interface " ++ name ++ extendsText base ++ "\n" ++ "\x7b\n" ++ asInterface ++
        "\x7d\n")
      ("export class " ++ name ++ extendsText base ++ "\n" ++ "\x7b\n" ++
        constructionText name base ++ asClass ++ "\x7d\n")

/-- The block of a root in a script of interfaces beside its block in a script of classes. -/
inductive RootTexts (c : Configuration) (d : TypeDef) : String → String → Prop where
  /-- An enumeration is written in one way. -/
  | enumeration :
    d.isEnum = true →
    RootTexts c d ((c.declareEnum d).text c.options.enumStyle ++ "\n")
      ((c.declareEnum d).text c.options.enumStyle ++ "\n")
  | type {asInterface asClass} :
    d.isEnum = false →
    TwinTexts c d asInterface asClass →
    RootTexts c d (asInterface ++ "\n") (asClass ++ "\n")

/-- The lines of a property are written in step: what it is of becomes known in both, and its type
is spelled once for both. -/
lemma inStep_emitProperty (named : String × Property) :
    InStep (c.TwinLines named) (c.emitProperty .interface named)
      (c.emitProperty .classKind named) := by
  refine (InStep.refl _).bind fun _ _ _ => InStep.lift_bind fun type htype => ?_
  exact .pure ⟨type, htype, rfl, rfl⟩

/-- The lines of a type are written in step. -/
lemma inStep_emitProperties (d : TypeDef) :
    InStep (c.TwinBodies d) (c.emitProperties .interface d) (c.emitProperties .classKind d) := by
  refine InStep.lift_bind fun properties hproperties => ?_
  refine (InStep.mapM inStep_emitProperty properties).bind ?_
  rintro _ _ ⟨lines, hlines, rfl, rfl⟩
  exact .pure ⟨properties, lines, hproperties, hlines, rfl, rfl⟩

/-- A type is written as an interface in step with the class. -/
lemma inStep_emitInterface (d : TypeDef) :
    InStep (c.TwinTexts d) (c.emitInterface d) (c.emitClass d) := by
  rw [emitInterface_eq, emitClass_eq]
  refine InStep.lift_bind fun name hname => InStep.lift_bind fun base hbase => ?_
  exact (inStep_emitProperties d).bind fun _ _ hbodies => .pure (.mk hname hbase hbodies)

/-- Roots are written in step. -/
lemma inStep_emitRoot (d : TypeDef) :
    InStep (c.RootTexts d) (c.emitRoot .interface d) (c.emitRoot .classKind d) := by
  rw [emitRoot.eq_def, emitRoot.eq_def]
  split
  case isTrue henum => exact .pure (.enumeration henum)
  case isFalse henum =>
    refine (inStep_emitInterface d).bind fun asInterface asClass htexts => ?_
    exact .pure (.type (Bool.eq_false_iff.2 henum) htexts)

/-- Interfaces and classes agree. Whatever enumerations are known at first, both ways of writing a
script fail with one error, or both succeed with the same imports, the same enumerations, known and
written, and twin blocks for the same roots. -/
theorem interfaces_and_classes_agree (c : Configuration) (known : List TypeRef) :
    (∃ e met, (c.emit .interface).runFrom known = (.error e, met) ∧
      (c.emit .classKind).runFrom known = (.error e, met)) ∨
      ∃ (imports : List Import) (blocks : List (String × String)) (met : List TypeRef),
        c.importList = .ok imports ∧
        List.Forall₂ (fun d block => c.RootTexts d block.1 block.2) c.roots blocks ∧
        (c.emit .interface).runFrom known =
          (.ok (Script.importsText imports ++ String.join (blocks.map (·.1)) ++ c.emitEnums met),
            met) ∧
        (c.emit .classKind).runFrom known =
          (.ok (Script.importsText imports ++ String.join (blocks.map (·.2)) ++ c.emitEnums met),
            met) := by
  rw [emit, emit, runFrom_bind, runFrom_bind, runFrom_lift]
  cases c.importList with
  | error e => exact .inl ⟨e, known, rfl, rfl⟩
  | ok imports =>
    have hroots := InStep.mapM (inStep_emitRoot (c := c)) c.roots known
    dsimp only
    rw [runFrom_bind, runFrom_bind]
    generalize (c.roots.mapM (c.emitRoot .interface)).runFrom known = p at hroots
    generalize (c.roots.mapM (c.emitRoot .classKind)).runFrom known = q at hroots
    cases hroots with
    | @error e met => exact .inl ⟨e, met, rfl, rfl⟩
    | @ok _ _ met htexts =>
      obtain ⟨blocks, hblocks, rfl, rfl⟩ := htexts
      exact .inr ⟨imports, blocks, met, rfl, hblocks, rfl, rfl⟩

end Configuration

end Typings.Generation
