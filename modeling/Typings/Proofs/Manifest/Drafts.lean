import Typings.Proofs.Manifest.Tree
import Typings.Proofs.Markup.Attribute

/-!
# Reading tags of a manifest

What the attributes of a tag state is what reading the tag gives, and a draft whose element has been
read completely gives the definition that the element stands for.
-/

namespace Typings.Manifest

open Typings.Markup

section Tags

variable {tag : Tag} {element name : String} {attributes : List Attribute} {owner : Option String}
  {params : List String}

lemma attributes_of_carries (h : Carries tag element attributes) :
    Manifest.attributes tag = .ok attributes := by
  rw [Manifest.attributes, mapM_eq_ok]
  refine h.values.imp ?_
  rintro ⟨key, written⟩ ⟨key', value⟩ ⟨rfl, hvalue⟩
  simp [unescape_of_escapes hvalue]

lemma required_of_lookup {value} (h : attributes.lookup name = some value) :
    required element name attributes = .ok value := by
  rw [required, h]

lemma flag_of_mem {b} (h : attributes.lookup name ∈ flagTexts b) :
    flag element name attributes = .ok b := by
  cases b with
  | true =>
    simp only [flagTexts, List.mem_cons, List.not_mem_nil, or_false] at h
    rcases h with h | h <;> simp [flag, h]
  | false =>
    simp only [flagTexts, List.mem_cons, List.not_mem_nil, or_false] at h
    rcases h with h | h | h <;> simp [flag, h]

lemma readType_of_ofExpression {expression t} (h : TypeRef.ofExpression params expression = .ok t) :
    readType params expression = .ok t := by
  rw [readType, h]

lemma paramOf_of_carries (h : Carries tag "typeParam" attributes)
    (hname : attributes.lookup "name" = some name) : paramOf tag = .ok name := by
  rw [paramOf, attributes_of_carries h, ok_bind, required_of_lookup hname]

/-- The draft reads as the property where the generic parameters are in scope. -/
structure PropertyDraft.Reads (params : List String) (draft : PropertyDraft) (p : PropertyNode) :
    Prop where
  name : draft.name = p.name
  type : TypeRef.ofExpression params draft.expression = .ok p.type
  marked : draft.marked = p.marked
  description : draft.description = p.description

lemma propertyDraftOf_of_carries {p : PropertyNode} (h : Carries tag "property" attributes)
    (hp : p.StatedBy params attributes) :
    ∃ draft, propertyDraftOf tag = .ok draft ∧ draft.Reads params p := by
  obtain ⟨hname, htype, hmarked, hdescription⟩ := hp
  obtain ⟨expression, hexpression, htype⟩ := Option.map_eq_some_iff.1 htype
  refine ⟨⟨p.name, expression, p.marked, p.description⟩, ?_, rfl, htype, rfl, rfl⟩
  rw [propertyDraftOf, attributes_of_carries h, ok_bind, flag_of_mem hmarked, ok_bind,
    required_of_lookup hname, ok_bind, required_of_lookup hexpression, ok_bind, hdescription]

lemma enumOf_of_carries {head : EnumHead} (h : Carries tag "enum" attributes)
    (hhead : head.StatedBy attributes) : enumOf tag owner = .ok (head.definition owner []) := by
  obtain ⟨hname, hdeclaring, hdescription⟩ := hhead
  rw [enumOf, attributes_of_carries h, ok_bind, required_of_lookup hname, ok_bind, hdeclaring,
    hdescription]
  rfl

lemma memberOf_of_carries {m : MemberNode} {before} (h : Carries tag "value" attributes)
    (hm : m.StatedBy attributes) :
    memberOf tag before = .ok ⟨m.name, m.stated.getD (nextValue before), m.description⟩ := by
  obtain ⟨hname, hstated, hdescription⟩ := hm
  rw [memberOf, attributes_of_carries h, ok_bind]
  cases htext : attributes.lookup "value" with
  | none =>
    rw [htext, Option.map_none, eq_comm, Option.map_eq_none_iff] at hstated
    rw [hstated, Option.getD_none]
    dsimp only
    rw [ok_bind, required_of_lookup hname, ok_bind, hdescription]
  | some text =>
    rw [htext, Option.map_some, eq_comm, Option.map_eq_some_iff] at hstated
    obtain ⟨value, hm, hread⟩ := hstated
    rw [hm, Option.getD_some]
    dsimp only
    rw [memberValue, ← hread]
    dsimp only
    rw [ok_bind, required_of_lookup hname, ok_bind, hdescription]

/-- The draft of a class or interface at the start of its element. -/
def ObjectHead.draft (head : ObjectHead) (owner base : Option String) : TypeDraft :=
  { definition :=
      { name := head.name, kind := head.kind, isAbstract := head.isAbstract
        declaring := head.declaring.or owner, description := head.description }
    base }

lemma typeDraftOf_of_carries {head : ObjectHead}
    (h : Carries tag (elementOf head.kind) attributes) (hhead : head.StatedBy params attributes)
    (owner : Option String) :
    ∃ base, typeDraftOf tag head.kind owner = .ok (head.draft owner base) ∧
      base.map (TypeRef.ofExpression params) = head.base.map .ok := by
  obtain ⟨hname, hbase, habstract, hdeclaring, hdescription⟩ := hhead
  refine ⟨attributes.lookup "base", ?_, hbase⟩
  rw [typeDraftOf, attributes_of_carries h, ok_bind, flag_of_mem habstract, ok_bind,
    required_of_lookup hname, ok_bind, hdeclaring, hdescription]
  rfl

end Tags

/-- Properties of distinct names are read in order, behind those read before. -/
lemma readProperties_of_reads {owner params done drafts properties}
    (h : List.Forall₂ (PropertyDraft.Reads params) drafts properties)
    (hdistinct : (done ++ properties.map (·.property)).Pairwise (·.name ≠ ·.name)) :
    readProperties owner params done drafts = .ok (done ++ properties.map (·.property)) := by
  induction h generalizing done with
  | nil => simp [readProperties]
  | @cons draft p drafts properties hdraft _ ih =>
    obtain ⟨hname, htype, hmarked, hdescription⟩ := hdraft
    have hfresh : ¬done.any (·.name == draft.name) = true := by
      rw [List.any_eq_true]
      rintro ⟨q, hq, heq⟩
      rw [List.map_cons, List.pairwise_append] at hdistinct
      refine hdistinct.2.2 q hq p.property List.mem_cons_self ?_
      rw [eq_of_beq heq, hname]
      rfl
    have hproperty : Property.declare draft.name p.type draft.marked draft.description =
        p.property := by
      rw [hname, hmarked, hdescription]
      rfl
    rw [readProperties, if_neg hfresh, readType_of_ofExpression htype, ok_bind, hproperty, ih]
    · simp
    · simpa using hdistinct

/-- The draft with what else has been read in its element. -/
def TypeDraft.more (draft : TypeDraft) (params : List String) (properties : List PropertyDraft)
    (nested : List TypeDef) : TypeDraft :=
  { draft with
    definition := { draft.definition with params := draft.definition.params ++ params }
    properties := draft.properties ++ properties
    nested := draft.nested ++ nested }

lemma more_more {draft : TypeDraft} {params params' properties properties' nested nested'} :
    (draft.more params properties nested).more params' properties' nested' =
      draft.more (params ++ params') (properties ++ properties') (nested ++ nested') := by
  simp [TypeDraft.more]

/-- A draft in which all of its element has been read stands for the definition of the element. -/
lemma finish_more {head : ObjectHead} {base params drafts properties} (owner : Option String)
    (nested : List TypeDef)
    (hbase : base.map (TypeRef.ofExpression params) = head.base.map .ok)
    (hdrafts : List.Forall₂ (PropertyDraft.Reads params) drafts properties)
    (hdistinct : ((properties.map (·.property)).map (·.name)).Nodup) :
    ((head.draft owner base).more params drafts nested).finish =
      .ok (head.definition owner params properties) := by
  have hread : base.mapM (readType params) = .ok head.base := by
    cases base with
    | none =>
      rw [Option.map_none, eq_comm, Option.map_eq_none_iff] at hbase
      rw [hbase]
      rfl
    | some expression =>
      rw [Option.map_some, eq_comm, Option.map_eq_some_iff] at hbase
      obtain ⟨t, ht, hexpression⟩ := hbase
      rw [Option.mapM_some, readType_of_ofExpression hexpression.symm, ht]
      rfl
  have hproperties : readProperties head.name params [] drafts =
      .ok (properties.map (·.property)) := by
    have hpairwise :
        ([] ++ properties.map PropertyNode.property).Pairwise
          fun p q : Property => p.name ≠ q.name := by
      rwa [List.nil_append, ← List.pairwise_map]
    exact readProperties_of_reads hdrafts hpairwise
  calc ((head.draft owner base).more params drafts nested).finish
      = base.mapM (readType params) >>= fun base =>
          readProperties head.name params [] drafts >>= fun properties =>
            .ok { head.definition owner params [] with base, properties } := rfl
    _ = .ok (head.definition owner params properties) := by
      rw [hread, ok_bind, hproperties, ok_bind]
      rfl

end Typings.Manifest
