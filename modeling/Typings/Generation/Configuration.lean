import Typings.Generation.Names
import Typings.Generation.Registrations
import Typings.Module.Lineage

/-!
# Configurations

A configuration holds all that a script is composed from: a module, how its types are spelled, and
what is registered of it. It is built step by step; a step that is refused leaves no trace.
-/

namespace Typings.Generation

/-- What a script is composed from. -/
structure Configuration extends Context where
  registrations : Registrations := {}

/-- A step of building a configuration. Types given as text are type expressions. -/
inductive Step where
  | addType (expression : String)
  | addTypeRef (ref : TypeRef)
  /-- Registers every class of the module that is not abstract. -/
  | addModule
  | addMapping (expression script initial : String) (nullable : Bool)
  | excludeType (expression : String)
  | excludeName (name : String)
  | excludeProperty (expression name : String)
  | addImport (expression path : String)
  | setSwitch (switch : Switch) (value : Bool)
  | setEnumStyle (style : EnumStyle)
  | setTypeTransform (transform : String → String)
  | setPropertyTransform (transform : String → String)

/-- Reads a type expression without parameters in scope. -/
def readRef (expression : String) : Except Error TypeRef :=
  match TypeRef.ofExpression [] expression with
  | .ok ref => .ok ref
  | .error e => .error (.manifest (.expression e))

namespace Configuration

/-- The configuration of a module before any step. -/
def new (m : Module) : Configuration :=
  { model := m }

/-- Changes the registrations. -/
def modifyRegistrations (c : Configuration) (f : Registrations → Registrations) : Configuration :=
  { c with registrations := f c.registrations }

/-- Registers a type that the module defines; enumerations go among the enumerations. -/
def register (c : Configuration) (ref : TypeRef) : Except Error Configuration :=
  match ref with
  | .named _ | .generic _ _ =>
    match c.model.definition? ref with
    | none => .error (.registration ref .undescribed)
    | some d =>
      if d.isEnum then .ok (c.modifyRegistrations (·.addEnum ref))
      else .ok (c.modifyRegistrations (·.addType ref))
  | _ => .error (.registration ref .notUserDefined)

/-- Registers the classes of the module that are not abstract. -/
def registerModule (c : Configuration) : Configuration :=
  c.modifyRegistrations fun r =>
    (c.model.types.filter fun d => d.isClass && !d.isAbstract).foldl (fun r d => r.addType d.ref) r

/-- Takes a step. -/
def apply (c : Configuration) : Step → Except Error Configuration
  | .addType expression => do c.register (← readRef expression)
  | .addTypeRef ref => c.register ref
  | .addModule => .ok c.registerModule
  | .addMapping expression script initial nullable => do
    let ref ← readRef expression
    .ok { c with mappings := ← c.mappings.add ref script initial nullable }
  | .excludeType expression => do
    let ref ← readRef expression
    .ok (c.modifyRegistrations (·.excludeType ref))
  | .excludeName name => .ok (c.modifyRegistrations (·.excludeName name))
  | .excludeProperty expression name => do
    let ref ← readRef expression
    .ok (c.modifyRegistrations (·.excludeProperty ref name))
  | .addImport expression path => do
    let ref ← readRef expression
    .ok (c.modifyRegistrations (·.addImport ref path))
  | .setSwitch switch value => .ok { c with options := c.options.set value switch }
  | .setEnumStyle style => .ok { c with options := { c.options with enumStyle := style } }
  | .setTypeTransform transform => .ok { c with typeTransform := some transform }
  | .setPropertyTransform transform => .ok { c with propertyTransform := some transform }

end Configuration

end Typings.Generation
