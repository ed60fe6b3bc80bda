import Typings.Builtin
import Typings.Definition
import Typings.File
import Typings.Generation.Configuration
import Typings.Generation.Declaration
import Typings.Generation.Depth
import Typings.Generation.Emission
import Typings.Generation.Error
import Typings.Generation.Interfaces
import Typings.Generation.Mapping
import Typings.Generation.Names
import Typings.Generation.Options
import Typings.Generation.Registrations
import Typings.Generation.Script
import Typings.Generation.Spelling
import Typings.Manifest.Element
import Typings.Manifest.Error
import Typings.Manifest.Reader
import Typings.Markup.Attribute
import Typings.Markup.Doctype
import Typings.Markup.Error
import Typings.Markup.Escape
import Typings.Markup.Event
import Typings.Markup.Token
import Typings.Module.Basic
import Typings.Module.Inheritance
import Typings.Module.Iterable
import Typings.Module.Lineage
import Typings.Module.Properties
import Typings.Module.Shape
import Typings.Synthetic
import Typings.Text.Alphabetic
import Typings.Text.Blank
import Typings.Text.Integer
import Typings.Text.Lowercase
import Typings.Text.Numeric
import Typings.Text.Ranges
import Typings.TypeRef.Basic
import Typings.TypeRef.Expression
import Typings.TypeRef.Substitution
import Typings.WellFormed.Check
import Typings.WellFormed.Error
import Typings.Proofs.Module.Acyclic
import Typings.Proofs.Module.Guard
import Typings.Proofs.Module.Lookup
import Typings.Proofs.Outcome
import Typings.Proofs.TypeRef.Occurrence
import Typings.Proofs.WellFormed.Cycles
import Typings.Proofs.WellFormed.Rules
import Typings.Proofs.Generation.Emission
import Typings.Proofs.Generation.Roots
import Typings.Proofs.Generation.Change
import Typings.Proofs.Generation.Alike
import Typings.Proofs.Generation.Reordering
import Typings.Proofs.TypeRef.Scope
import Typings.Proofs.Manifest.Scope
import Typings.Proofs.Module.Hiding
import Typings.Proofs.Module.Flattening
import Typings.Proofs.TypeRef.Text
import Typings.Proofs.Generation.Union
import Typings.Proofs.Generation.Nullability
import Typings.Proofs.Generation.Discovery
import Typings.Proofs.Generation.Repetition
import Typings.Proofs.Generation.Uniqueness
import Typings.Proofs.Manifest.Reading
import Typings.Proofs.Module.Nullability
import Typings.Proofs.Generation.Kinds
import Typings.Proofs.Module.Iterable
import Typings.Proofs.Module.Expansion
import Typings.Proofs.Generation.Termination
import Typings.Proofs.Generation.Interfaces
import Typings.Proofs.Module.Filling
import Typings.Proofs.Generation.Adequacy
import Typings.Proofs.Manifest.Closing
import Typings.Proofs.Manifest.Form
import Typings.Proofs.Generation.Sorts
import Typings.Proofs.Synthetic.Reading
import Typings.Proofs.Synthetic.WellFormed
import Typings.Proofs.Manifest.Provenance
import Typings.Proofs.Generation.Naming
import Typings.Proofs.Generation.Collision
import Typings.Proofs.Generation.Exclusion
import Typings.Proofs.Generation.Members
import Typings.Proofs.Manifest.Numbering
import Typings.Proofs.Module.Outline
import Typings.Proofs.Generation.Progress
import Typings.Proofs.Generation.Surroundings
import Typings.Proofs.Generation.Failure
import Typings.Proofs.Text.Bytes
import Typings.Proofs.Generation.Sorting
import Typings.Proofs.Generation.Blocks
import Typings.Proofs.Generation.Ordering
import Typings.Proofs.Generation.Mappings
