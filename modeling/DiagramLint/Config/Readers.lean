import DiagramLint.Config.Decode
import DiagramLint.Config.Load
import DiagramLint.Files.Pattern

/-!
The readers with which the program loads configurations.
-/

namespace DiagramLint

/-- The readers of the program. -/
def Readers.builtin : Readers where
  yaml content := (Yaml.read content).bind Config.ofYaml?
  json content := (Json.read content).bind Config.ofJson?
  filePattern pattern :=
    match FilePattern.parse pattern with
    | .ok p => .ok p.isMatch
    | .error e => .error ("error parsing glob '" ++ pattern ++ "': " ++ e.message)

end DiagramLint
