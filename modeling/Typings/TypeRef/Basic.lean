import Typings.Builtin

/-!
# Type references

A reference to a type is also its identity: references compare by structure, so a generic type
applied to different arguments gives different references, all of them different from the bare name.
-/

namespace Typings

/-- A reference to a type. -/
inductive TypeRef where
  | builtin (type : Builtin)
  /-- A type by its bare name: defined by a user, or foreign. -/
  | named (name : String)
  /-- A generic parameter in the place of a type. -/
  | parameter (name : String)
  | nullable (inner : TypeRef)
  | array (element : TypeRef)
  /-- A generic type applied to arguments. -/
  | generic (name : String) (args : List TypeRef)
  deriving Repr, Inhabited

namespace TypeRef

mutual

/-- References are equal when they have the same structure. -/
def decEq : (a b : TypeRef) → Decidable (a = b)
  | .builtin a, .builtin b => decidable_of_iff (a = b) (by simp)
  | .named a, .named b => decidable_of_iff (a = b) (by simp)
  | .parameter a, .parameter b => decidable_of_iff (a = b) (by simp)
  | .nullable a, .nullable b =>
    match decEq a b with
    | isTrue h => isTrue (by rw [h])
    | isFalse h => isFalse (by simpa using h)
  | .array a, .array b =>
    match decEq a b with
    | isTrue h => isTrue (by rw [h])
    | isFalse h => isFalse (by simpa using h)
  | .generic a as, .generic b bs =>
    if h : a = b then
      match decEqArgs as bs with
      | isTrue hs => isTrue (by rw [h, hs])
      | isFalse hs => isFalse (by simp [hs])
    else isFalse (by simp [h])
  | .builtin _, .named _ | .builtin _, .parameter _ | .builtin _, .nullable _
  | .builtin _, .array _ | .builtin _, .generic _ _ => isFalse (by simp)
  | .named _, .builtin _ | .named _, .parameter _ | .named _, .nullable _
  | .named _, .array _ | .named _, .generic _ _ => isFalse (by simp)
  | .parameter _, .builtin _ | .parameter _, .named _ | .parameter _, .nullable _
  | .parameter _, .array _ | .parameter _, .generic _ _ => isFalse (by simp)
  | .nullable _, .builtin _ | .nullable _, .named _ | .nullable _, .parameter _
  | .nullable _, .array _ | .nullable _, .generic _ _ => isFalse (by simp)
  | .array _, .builtin _ | .array _, .named _ | .array _, .parameter _
  | .array _, .nullable _ | .array _, .generic _ _ => isFalse (by simp)
  | .generic _ _, .builtin _ | .generic _ _, .named _ | .generic _ _, .parameter _
  | .generic _ _, .nullable _ | .generic _ _, .array _ => isFalse (by simp)

/-- Argument lists are equal when they agree position by position. -/
def decEqArgs : (as bs : List TypeRef) → Decidable (as = bs)
  | [], [] => isTrue rfl
  | [], _ :: _ | _ :: _, [] => isFalse (by simp)
  | a :: as, b :: bs =>
    match decEq a b with
    | isTrue h =>
      match decEqArgs as bs with
      | isTrue hs => isTrue (by rw [h, hs])
      | isFalse hs => isFalse (by simp [hs])
    | isFalse h => isFalse (by simp [h])

end

instance : DecidableEq TypeRef := decEq

/-- The name of the referenced type, whatever wraps it and whatever it is applied to. -/
def name : TypeRef → String
  | .builtin b => b.name
  | .named n | .parameter n | .generic n _ => n
  | .nullable t | .array t => t.name

/-- A reference is nullable when the outermost wrapper says so. -/
def isNullable : TypeRef → Bool
  | .nullable _ => true
  | _ => false

/-- The reference without one outermost nullable wrapper. -/
def withoutNullable : TypeRef → TypeRef
  | .nullable t => t
  | t => t

mutual

/-- The canonical type expression of a reference. -/
def text : TypeRef → String
  | .builtin b => b.name
  | .named n | .parameter n => n
  | .nullable t => t.text ++ "?"
  | .array t => t.text ++ "[]"
  | .generic n args => n ++ "<" ++ String.intercalate ", " (argTexts args) ++ ">"

/-- The expressions of the arguments, in order. -/
def argTexts : List TypeRef → List String
  | [] => []
  | a :: as => a.text :: argTexts as

end

/-- The texts of the arguments are the arguments' texts. -/
@[simp] theorem argTexts_eq_map (args : List TypeRef) : argTexts args = args.map text := by
  induction args with
  | nil => rfl
  | cons a as ih => simp [argTexts, ih]

end TypeRef

end Typings
