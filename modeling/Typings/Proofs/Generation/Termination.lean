import Typings.Proofs.Generation.Adequacy

/-!
# Spelling ends

The element of a user type is no part of the reference and may be larger. When no iterable type
leads back to itself, every chain of questions ends all the same, for every table of mappings and
however a type is applied, and it ends within the depth that spelling is given.
-/

namespace Typings.Generation.Context

variable {c : Context} {ref part t u b : TypeRef}

/-- The context without its mappings. -/
def unmapped (c : Context) : Context :=
  { c with mappings := ⟨[]⟩ }

/-- A mapping only spares questions. -/
lemma AsksFor.unmapped (h : c.AsksFor ref part) : c.unmapped.AsksFor ref part := by
  cases h with
  | nullable _ => exact .nullable rfl
  | element _ hnot hshape _ => exact .element rfl hnot hshape rfl
  | arg _ hnot hshape ha => exact .arg rfl hnot hshape ha

/-- A reference goes on to no iterable types but those that it mentions and those that these lead
to. -/
lemma Goes.below (h : c.Goes t u) (straight : c.model.Straight) {bound}
    (below : c.model.Below bound t) : c.model.Below bound u := by
  cases h with
  | follow hexpands hnext => exact below.of_follows straight hexpands hnext
  | ask hexpands hpart _ =>
    exact below.of_part ((Module.mem_asked_cases hpart).resolve_right fun h => hexpands h.1)

/-- Where nothing is mapped all arguments are strange, and the outline of a type mentions what its
base does. -/
lemma below_outline (straight : c.model.Straight) (hexpands : c.model.Expands t)
    (houtline : c.model.Outlines c.unmapped.known t b) : c.model.Below (c.model.rank t.name) b := by
  obtain ⟨d, base, hd, hbase, rfl⟩ := houtline
  have hbelow := straight.below_base hexpands.isIterable_name (Module.find?_of_definition? hd) hbase
  refine hbelow.substitute fun p a ha => ?_
  rcases Bindings.outline_cases ha with hknown | ⟨q, rfl⟩
  · cases hknown
  · refine Module.below_iff.2
      ⟨fun name hnames => ?_, fun part hpart => absurd hpart List.not_mem_nil⟩
    rcases hnames with h | ⟨_, _, h⟩ <;> cases h

/-- Where nothing is mapped no outline leads on without end when none of the types leads back to
itself. -/
lemma acc_leadsOn_of_straight (straight : c.model.Straight) (hexpands : c.model.Expands t)
    (houtline : c.model.Outlines c.unmapped.known t b) :
    Acc (fun b' b => c.unmapped.LeadsOn b b') b := by
  induction hrank : c.model.rank t.name using Nat.strong_induction_on generalizing t b with
  | _ rank ih =>
    have hbelow := below_outline straight hexpands houtline
    refine ⟨_, ?_⟩
    rintro b' ⟨inner, hreach, hinner, houtline'⟩
    have hbelow' : c.model.Below rank inner := by
      clear hinner houtline'
      induction hreach with
      | refl => exact hrank ▸ hbelow
      | tail _ hgoes ih => exact hgoes.below straight ih
    exact ih _ (hbelow'.rank_name_lt hinner) hinner houtline' rfl

/-- When no type leads back to itself, the questions of every reference end. -/
lemma acc_of_straight (straight : c.model.Straight) (ref : TypeRef) :
    Acc (fun part ref => c.AsksFor ref part) ref := by
  have honward : c.unmapped.Onward (c.model.allOutlines c.unmapped.known).length ref := by
    intro inner b _ hexpands houtline
    have hacc := acc_leadsOn_of_straight straight hexpands houtline
    exact ⟨hacc, reach_lt_length houtline.mem_allOutlines (not_transGen_self hacc)⟩
  exact Subrelation.accessible AsksFor.unmapped (ChainsWithin.acc honward.goesWithin.endsWithin)

/-- Spelling ends. When no iterable type leads back to itself, no chain of questions goes on without
end, whatever is mapped and whatever reference it begins with. So every depth from the one that
spelling is given on has one outcome, which is never that there is no end. -/
theorem asksFor_wellFounded (c : Context) (straight : c.model.Straight) :
    WellFounded (fun part ref => c.AsksFor ref part) ∧
      (∀ ref bound, c.spellingDepth ref ≤ bound → c.spellWithin bound ref = c.spell ref) ∧
      ∀ ref ref', c.spell ref ≠ .error (.endless ref') := by
  have spelled (ref : TypeRef) := spell_not_endless (acc_of_straight straight ref)
  refine ⟨⟨acc_of_straight straight⟩,
    fun ref bound hle => spellWithin_eq_of_le (spelled ref) hle, ?_⟩
  intro ref ref' h
  exact Bool.noConfusion ((spelled ref).symm.trans (congrArg isEndless h))

/-- Rows are a list, and a page is a list of rows of rows. -/
def ledger : Context :=
  { model :=
      { name := "Ledger"
        types := [
          { name := "Page", kind := .classType, params := ["Cell"]
            base :=
              some (.generic "List" [.generic "Rows" [.generic "Rows" [.parameter "Cell"]]]) },
          { name := "Rows", kind := .classType, params := ["Item"]
            base := some (.generic "List" [.parameter "Item"]) }] } }

/-- A page of pages is spelled, though its element is larger than it. -/
theorem asksFor_wellFounded_of_ledger :
    ledger.model.Straight ∧
      Acc (fun part ref => ledger.AsksFor ref part)
        (.generic "Page" [.generic "Page" [.builtin .int32]]) := by
  have straight : ledger.model.Straight :=
    Module.straight_of_mentions (fun name => if name = "Page" then 1 else 0) (by decide +kernel)
  exact ⟨straight, (asksFor_wellFounded ledger straight).1.apply _⟩

end Typings.Generation.Context
