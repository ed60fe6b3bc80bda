import Typings.TypeRef.Basic

/-!
# Substitution

Replacing generic parameters by arguments, and the bindings that a reference gives to the
parameters of the definition it is applied to.
-/

namespace Typings

/-- Arguments for generic parameters. Of two bindings of one parameter the later counts. -/
abbrev Bindings := List (String × TypeRef)

/-- The argument bound to a parameter. -/
def Bindings.find? (bindings : Bindings) (parameter : String) : Option TypeRef :=
  bindings.reverse.lookup parameter

namespace TypeRef

mutual

/-- Replaces every bound parameter by its argument; an unbound one stays. -/
def substitute (bindings : Bindings) : TypeRef → TypeRef
  | .parameter n => (bindings.find? n).getD (.parameter n)
  | .nullable t => .nullable (t.substitute bindings)
  | .array t => .array (t.substitute bindings)
  | .generic n args => .generic n (substituteArgs bindings args)
  | .builtin b => .builtin b
  | .named n => .named n

/-- Replaces the parameters in every argument. -/
def substituteArgs (bindings : Bindings) : List TypeRef → List TypeRef
  | [] => []
  | a :: as => a.substitute bindings :: substituteArgs bindings as

end

/-- Substituting in a list of arguments substitutes in each of them. -/
@[simp] theorem substituteArgs_eq_map (bindings : Bindings) (args : List TypeRef) :
    substituteArgs bindings args = args.map (substitute bindings) := by
  induction args with
  | nil => rfl
  | cons a as ih => simp [substituteArgs, ih]

/-- The bindings of the parameters of a definition by a reference to it: its arguments in order,
and none for a bare name. -/
def bindings (params : List String) : TypeRef → Bindings
  | .generic _ args => params.zip args
  | _ => []

end TypeRef

end Typings
