import Typings.Generation.Names

/-!
# Depth of spelling

A bound on how deep the spelling of a reference goes. A user type that is iterable is written
through the elements that its bases declare, so types lead to one another.

Types that lead to one another without coming back lead at most through the whole module, each
adding to the height of the reference at most as a factor. A type that comes back to itself goes on
until a reference on its way is mapped. Which references on its way are depends on those of its
arguments that occur in mapped references; it does not matter what the others are. So there is a
number of ways to ask for the base of a type, and a type whose base comes to be asked for in the
same way again goes on without end. The bound allows for as many types one inside another.
-/

namespace Typings

namespace TypeRef

mutual

/-- The number of references inside one another. -/
def height : TypeRef → Nat
  | .builtin _ | .named _ | .parameter _ => 1
  | .nullable t | .array t => t.height + 1
  | .generic _ args => heightArgs args + 1

/-- The greatest height of an argument. -/
def heightArgs : List TypeRef → Nat
  | [] => 0
  | a :: rest => max a.height (heightArgs rest)

end

mutual

/-- The reference and all references inside it. -/
def inside : TypeRef → List TypeRef
  | .builtin b => [.builtin b]
  | .named n => [.named n]
  | .parameter n => [.parameter n]
  | .nullable t => .nullable t :: t.inside
  | .array t => .array t :: t.inside
  | .generic n args => .generic n args :: insideArgs args

/-- The arguments and all references inside them. -/
def insideArgs : List TypeRef → List TypeRef
  | [] => []
  | a :: rest => a.inside ++ insideArgs rest

end

end TypeRef

namespace Module

/-- The greatest height of a base. -/
def baseHeight (m : Module) : Nat :=
  m.types.foldl (fun height d => max height ((d.base.map TypeRef.height).getD 0)) 0

/-- The greatest number of parameters of a type. -/
def arity (m : Module) : Nat :=
  m.types.foldl (fun arity d => max arity d.params.length) 0

end Module

namespace Generation

/-- The greatest height of a mapped reference. -/
def MappingTable.height (table : MappingTable) : Nat :=
  table.entries.foldl (fun height e => max height e.source.height) 0

/-- The mapped references and all references inside them. -/
def MappingTable.inside (table : MappingTable) : List TypeRef :=
  table.entries.flatMap (·.source.inside)

namespace Context

/-- A bound on the steps from a reference through types that do not come back. -/
def straightDepth (c : Context) (ref : TypeRef) : Nat :=
  ref.height * Nat.pow (c.model.baseHeight + 1) c.model.types.length

/-- A bound on the ways to ask for the base of a type. For each of the parameters there is no
argument, or one that occurs in a mapped reference, or some other. -/
def ways (c : Context) : Nat :=
  c.model.types.length * Nat.pow (c.mappings.inside.length + 2) c.model.arity

/-- How often a depth is doubled until it is enough for types one inside another as often as there
are ways to ask for a base. -/
def doublings (c : Context) : Nat :=
  (c.model.baseHeight + c.mappings.height) * c.ways + 1

end Context

end Generation

end Typings
