import DiagramLint.Config.Basic
import DiagramLint.Files.Expand

/-!
Configuration files: loading one with everything it builds on, finding the one to use, and the
matcher that its file patterns make. How the formats and the patterns are read is left to readers
that are given.
-/

namespace DiagramLint

/-! ## What can be wrong -/

/-- What a configuration can say that cannot be used. -/
inductive InvalidConfig where
  | badFilePattern (pattern reason : String)
  | unknownFormat (extension : String)
  /-- Files build on each other in too long a chain. -/
  | tooDeep
  | badPathPattern (pattern : String) (reason : PathPatternError)
  deriving DecidableEq, Repr

namespace InvalidConfig

/-- The wording of what is wrong. -/
def message : InvalidConfig → String
  | badFilePattern pattern reason =>
    "Bad file pattern '" ++ pattern ++ "': " ++ reason
  | unknownFormat extension => "Unknown config file format: " ++ extension
  | tooDeep => "Maximum config inheritance depth exceeded"
  | badPathPattern pattern reason => "Invalid pattern '" ++ pattern ++ "': " ++ reason.message

end InvalidConfig

/-- Why there is no configuration. -/
inductive ConfigError where
  | unreadable (reason : ReadError)
  | badYaml
  | badJson
  | invalid (reason : InvalidConfig)
  deriving DecidableEq, Repr

namespace ConfigError

/-- The wording of an error. -/
def message : ConfigError → String
  | unreadable reason => "IO error: " ++ reason.message
  | badYaml => "YAML parse error"
  | badJson => "JSON parse error"
  | invalid reason => "Invalid configuration: " ++ reason.message

end ConfigError

/-! ## Reading -/

/-- What reads the formats of configuration files and the patterns for files. A pattern that can be
read tells which paths it matches; of one that cannot, there is an account of what is wrong. -/
structure Readers where
  yaml : Text → Option Config
  json : Text → Option Config
  filePattern : String → Except String (String → Bool)

/-- The patterns of a configuration, read. -/
structure FileMatcher where
  included : List (String → Bool)
  excluded : List (String → Bool)

namespace FileMatcher

/-- Whether a path is left out. -/
def isExcluded (m : FileMatcher) (path : String) : Bool := m.excluded.any (· path)

/-- Whether a file found in a directory is linted. -/
def isMatch (m : FileMatcher) (path : String) : Bool :=
  m.included.any (· path) && !m.isExcluded path

end FileMatcher

namespace Readers

/-- A file pattern, read; a bad one is an error of the configuration. -/
def readFilePattern (readers : Readers) (pattern : String) : Except ConfigError (String → Bool) :=
  (readers.filePattern pattern).mapError fun reason => .invalid (.badFilePattern pattern reason)

/-- The matcher of the patterns of a configuration. -/
def matcher (readers : Readers) (c : Config) : Except ConfigError FileMatcher := do
  return ⟨← c.included.mapM readers.readFilePattern, ← c.excluded.mapM readers.readFilePattern⟩

/-- The configuration in a file with an extension. -/
def decode (readers : Readers) (extension : String) (content : Text) :
    Except ConfigError Config :=
  if extension = "yaml" ∨ extension = "yml" then
    match readers.yaml content with
    | some c => .ok c
    | none => .error .badYaml
  else if extension = "json" then
    match readers.json content with
    | some c => .ok c
    | none => .error .badJson
  else .error (.invalid (.unknownFormat extension))

end Readers

namespace Config

/-! ## Loading -/

/-- How long a chain of files that build on each other may be. -/
def maxChain : Nat := 10

/-- The configuration in a file, merged into everything it builds on, `left` files deep at most.
Its bases come first, in order: presets by name, files by their place beside this one. -/
def loadFrom (readers : Readers) (tree : FileTree) :
    (left : Nat) → (path : String) → Except ConfigError Config
  | 0, _ => .error (.invalid .tooDeep)
  | left + 1, path => do
    let content ← (tree.read path).mapError .unreadable
    let own ← readers.decode (Path.extension path) content
    let base (name : String) : Except ConfigError Config :=
      match preset? name with
      | some preset => .ok preset
      | none => loadFrom readers tree left (Path.join (Path.parent path) name)
    let whole ←
      if own.bases.isEmpty then pure own
      else do
        let bases ← own.bases.mapM base
        pure ((bases.foldl merge {}).merge own)
    let _ ← readers.matcher whole
    return whole

/-- Load a configuration file. -/
def load (readers : Readers) (tree : FileTree) (path : String) : Except ConfigError Config :=
  loadFrom readers tree maxChain path

/-- The names of configuration files, in the order in which they are looked for. -/
def fileNames : List String :=
  [".merlintrc.yaml", ".merlintrc.yml", ".merlintrc.json", "merlint.yaml", "merlint.yml",
    "merlint.json"]

/-- The paths at which a configuration file is looked for: in the working directory, and then in
the home directory, if there is one. -/
def places (home : Option String) : List String :=
  fileNames ++ (home.toList.flatMap fun directory => fileNames.map (Path.join directory))

/-- Load the first configuration file that is found; the defaults when there is none. -/
def discover (readers : Readers) (tree : FileTree) (home : Option String) :
    Except ConfigError Config :=
  match (places home).find? tree.pathExists with
  | some path => load readers tree path
  | none => .ok {}

end Config

end DiagramLint
