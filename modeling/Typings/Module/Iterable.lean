import Typings.Module.Lineage

/-!
# Iterable types

Arrays, well-known collections and the non-generic enumerable are collections by themselves. A user
type is iterable when following its bases leads to a collection, and takes its element type from
there, with generic arguments substituted on the way.
-/

namespace Typings

namespace TypeRef

/-- The reference is a collection by itself. -/
def isCollection : TypeRef → Bool
  | .builtin b => b == .enumerable
  | .array _ => true
  | .generic name _ => isCollectionName name
  | _ => false

/-- The element of a collection: that of an array, or the only argument. -/
def element? : TypeRef → Option TypeRef
  | .array element => some element
  | .generic _ [arg] => some arg
  | _ => none

end TypeRef

/-- The base of a class or interface. -/
def Link.properBase (l : Link) : Option TypeRef :=
  if l.definition.isEnum then none else l.definition.base

namespace Module

/-- The reference denotes something iterable. -/
def isIterable (m : Module) (ref : TypeRef) : Bool :=
  (m.chain Link.properBase ref).any TypeRef.isCollection

/-- The element type of an iterable reference, when it is known. -/
def elementType? (m : Module) (ref : TypeRef) : Option TypeRef :=
  ((m.chain Link.boundBase ref).find? TypeRef.isCollection).bind TypeRef.element?

end Module

end Typings
