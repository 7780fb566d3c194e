import DiagramLint.Config.Basic

/-!
The arguments of a command line: inputs, flags, settings with a value, and what they ask for.

A flag or setting has a long name behind two dashes; some have a letter behind one dash as well,
and letters can be written together. A value follows in the same argument, behind an equals sign
or right behind the letter, or it is the next argument. Behind two dashes alone everything is an
input.
-/

namespace DiagramLint.CommandLine

/-- What can be switched on. -/
inductive Flag where
  | strict
  | fix
  | write
  | diff
  | noColor
  | verbose
  | listCodes
  | exitZero
  deriving DecidableEq, Repr

/-- What can be given a value. -/
inductive Setting where
  | config
  | format
  | level
  | disable
  | ignore
  | jobs
  deriving DecidableEq, Repr

/-- What an option can be. -/
inductive Choice where
  | flag (flag : Flag)
  | setting (setting : Setting)
  | help
  | version
  deriving DecidableEq, Repr

/-- The options by their long names. -/
def byName : List (String × Choice) :=
  [("config", .setting .config), ("format", .setting .format), ("strict", .flag .strict),
    ("fix", .flag .fix), ("write", .flag .write), ("level", .setting .level),
    ("diff", .flag .diff), ("disable", .setting .disable), ("ignore", .setting .ignore),
    ("jobs", .setting .jobs), ("no-color", .flag .noColor), ("verbose", .flag .verbose),
    ("list-codes", .flag .listCodes), ("exit-zero", .flag .exitZero), ("help", .help),
    ("version", .version)]

/-- The options by their letters. -/
def byLetter : List (Char × Choice) :=
  [('c', .setting .config), ('f', .setting .format), ('j', .setting .jobs), ('v', .flag .verbose),
    ('h', .help), ('V', .version)]

/-- What a command line asks for. -/
structure Invocation where
  /-- Files, directories and path patterns. -/
  inputs : List String := []
  /-- The flags that are on. -/
  flags : List Flag := []
  /-- The configuration file. -/
  config : Option String := none
  format : Option OutputFormat := none
  level : Option Level := none
  jobs : Option Nat := none
  /-- Codes that are not reported. -/
  disabled : List String := []
  /-- Starts of codes that are not reported. -/
  ignored : List String := []
  deriving Repr

/-- Why arguments cannot be used. -/
inductive UsageError where
  | unknownOption (arg : String)
  | missingValue (arg : String)
  | unwantedValue (arg : String)
  | badValue (value : String)
  | repeated (arg : String)
  /-- Two flags exclude each other. -/
  | conflict
  /-- A flag is of no use without another one. -/
  | unmet
  deriving DecidableEq, Repr

namespace UsageError

/-- The wording of an error. -/
def message : UsageError → String
  | unknownOption arg => "unexpected argument '" ++ arg ++ "'"
  | missingValue arg => "a value is required for '" ++ arg ++ "'"
  | unwantedValue arg => "unexpected value in '" ++ arg ++ "'"
  | badValue value => "invalid value '" ++ value ++ "'"
  | repeated arg => "'" ++ arg ++ "' cannot be used multiple times"
  | conflict => "'--diff' cannot be used with '--write'"
  | unmet => "'--write' requires '--fix'"

end UsageError

/-- Why the reading of arguments ends early. -/
inductive Stop where
  | usage (error : UsageError)
  | help
  | version
  deriving DecidableEq, Repr

namespace Invocation

/-- Whether a flag is on. -/
def has (inv : Invocation) (flag : Flag) : Bool := inv.flags.contains flag

/-- The invocation with a flag, which must not be on yet. -/
def switchOn (inv : Invocation) (arg : String) (flag : Flag) : Except Stop Invocation :=
  if inv.has flag then .error (.usage (.repeated arg))
  else .ok { inv with flags := flag :: inv.flags }

/-- The number that a value spells, possibly behind a plus sign. -/
def number? (value : String) : Option Nat :=
  let digits := match value.toList with
    | '+' :: rest => rest
    | t => t
  let n := Text.digitsValue digits
  if digits.isEmpty || !digits.all Char.isDigit || n ≥ UInt64.size then none else some n

/-- The value of a setting that takes one, once: what it had must be nothing, and the value must be
one it can take. -/
def once (arg value : String) (had taken : Option α) : Except Stop (Option α) :=
  match had, taken with
  | some _, _ => .error (.usage (.repeated arg))
  | none, none => .error (.usage (.badValue value))
  | none, some a => .ok (some a)

/-- The invocation with a value for a setting. Lists of codes are divided by commas and add up. -/
def give (inv : Invocation) (arg : String) (setting : Setting) (value : String) :
    Except Stop Invocation := do
  let codes := (Text.splitWhere (· == ',') value.toList).map String.ofList
  match setting with
  | .config =>
    let taken := if value.isEmpty then none else some value
    return { inv with config := ← once arg value inv.config taken }
  | .format =>
    return { inv with format := ← once arg value inv.format (OutputFormat.byName.lookup value) }
  | .level => return { inv with level := ← once arg value inv.level (Level.byName.lookup value) }
  | .jobs => return { inv with jobs := ← once arg value inv.jobs (number? value) }
  | .disable => return { inv with disabled := inv.disabled ++ codes }
  | .ignore => return { inv with ignored := inv.ignored ++ codes }

/-- What the invocation says beside a configuration file. -/
def overrides (inv : Invocation) : Config.Overrides :=
  { format := inv.format
    strict := inv.has .strict
    level := inv.level
    jobs := inv.jobs
    disabled := inv.disabled
    ignored := inv.ignored }

end Invocation

/-- Whether an argument can be the value of the setting before it: it must not look like an
option. -/
def isValue (arg : String) : Bool :=
  match arg.toList with
  | '-' :: _ :: _ => false
  | _ => true

/-- Read an option behind two dashes; a setting may still need its value. -/
def readLong (inv : Invocation) (arg : String) (t : Text) :
    Except Stop (Invocation × Option Setting) := do
  let name := t.takeWhile (· != '=')
  let value? := if name.length < t.length then some (String.ofList (t.drop (name.length + 1))) else none
  match byName.lookup (String.ofList name), value? with
  | none, _ => .error (.usage (.unknownOption arg))
  | some (.setting setting), some value => return (← inv.give arg setting value, none)
  | some (.setting setting), none => return (inv, some setting)
  | some _, some _ => .error (.usage (.unwantedValue arg))
  | some (.flag flag), none => return (← inv.switchOn arg flag, none)
  | some .help, none => .error .help
  | some .version, none => .error .version

/-- Read letters behind one dash; a setting takes what follows its letter, or still needs its
value. -/
def readLetters (inv : Invocation) (arg : String) :
    Text → Except Stop (Invocation × Option Setting)
  | [] => .ok (inv, none)
  | c :: rest =>
    match byLetter.lookup c, rest with
    | none, _ => .error (.usage (.unknownOption arg))
    | some .help, _ => .error .help
    | some .version, _ => .error .version
    | some (.flag flag), rest => do readLetters (← inv.switchOn arg flag) arg rest
    | some (.setting setting), [] => .ok (inv, some setting)
    | some (.setting setting), '=' :: value => do
      return (← inv.give arg setting (String.ofList value), none)
    | some (.setting setting), value => do
      return (← inv.give arg setting (String.ofList value), none)

/-- Read arguments in order. -/
def readFrom (inv : Invocation) (args : List String) : Except Stop Invocation :=
  match args with
  | [] => .ok inv
  | arg :: rest =>
    match arg.toList with
    | ['-', '-'] => .ok { inv with inputs := inv.inputs ++ rest }
    | '-' :: c :: more => do
      let (inv, open?) ← if c = '-' then readLong inv arg more else readLetters inv arg (c :: more)
      match open?, rest with
      | none, rest => readFrom inv rest
      | some _, [] => .error (.usage (.missingValue arg))
      | some setting, value :: rest =>
        if isValue value then do readFrom (← inv.give arg setting value) rest
        else .error (.usage (.missingValue arg))
    | _ => readFrom { inv with inputs := inv.inputs ++ [arg] } rest
termination_by args.length

/-- What arguments ask for. Showing differences excludes writing, and writing needs repairs. -/
def read (args : List String) : Except Stop Invocation := do
  let inv ← readFrom {} args
  if inv.has .diff && inv.has .write then .error (.usage .conflict)
  else if inv.has .write && !inv.has .fix then .error (.usage .unmet)
  else return inv

end DiagramLint.CommandLine
