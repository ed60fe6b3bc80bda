import Typings.Generation.Emission
import Typings.Manifest.Reader
import Typings.WellFormed.Check

/-!
# Interfaces of a manifest

The shortest way from a manifest to a script: read the manifest, check the module, and declare every
class that is not abstract as an interface, with the options left as they are.
-/

namespace Typings.Generation

/-- The interfaces of all classes of a manifest that are not abstract. -/
def interfacesOfText (text : String) : Except Error String :=
  match Manifest.ofText text with
  | .error e => .error (.manifest e)
  | .ok m =>
    match m.check with
    | .error e => .error (.malformed e)
    | .ok () => do .ok (← (Configuration.new m).registerModule.generate .interface).1

/-- The interfaces of all classes of a manifest in a file that are not abstract. -/
def interfacesOfFile (file : File) : Except Error String :=
  match file.text with
  | .ok text => interfacesOfText text
  | .error e => .error (.file e)

end Typings.Generation
