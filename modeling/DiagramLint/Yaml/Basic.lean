import DiagramLint.Json.Reader

/-!
YAML values. A scalar keeps its text and whether it was written plainly, because only a plain
scalar can stand for a number, a boolean or null; what it stands for is decided by who reads it.
-/

namespace DiagramLint

/-- A YAML value. -/
inductive Yaml where
  /-- A scalar, `plain` when it was written without quotes. -/
  | scalar (plain : Bool) (value : String)
  | list (items : List Yaml)
  | mapping (entries : List (Yaml × Yaml))
  deriving Repr, Inhabited

namespace Yaml

/-- The value where nothing is written. -/
def nothing : Yaml := .scalar true ""

/-- Whether nothing is written. -/
def isNothing : Yaml → Bool
  | .scalar true "" => true
  | _ => false

/-! ## What a plain text stands for -/

/-- Whether a plain text stands for null. -/
def isNullWord (s : String) : Bool := ["", "~", "null", "Null", "NULL"].contains s

/-- The boolean a plain text stands for. -/
def boolWord? (s : String) : Option Bool :=
  if ["true", "True", "TRUE"].contains s then some true
  else if ["false", "False", "FALSE"].contains s then some false
  else none

/-- The number that digits of a base spell; there must be one. -/
def digitsIn? (base : Nat) (t : Text) : Option Nat :=
  if t.isEmpty then none
  else
    t.foldlM (fun n c => do
      let digit ← Json.hexValue? c
      if digit < base then some (n * base + digit) else none) 0

/-- The number that digits behind the mark of their base spell. Without a mark they are decimal,
and start with a zero only when it is alone. -/
def magnitude? : Text → Option Nat
  | '0' :: 'x' :: rest => digitsIn? 16 rest
  | '0' :: 'o' :: rest => digitsIn? 8 rest
  | '0' :: 'b' :: rest => digitsIn? 2 rest
  | '0' :: _ :: _ => none
  | t => digitsIn? 10 t

/-- The integer a plain text stands for. -/
def integer? : Text → Option Int
  | '-' :: rest => (magnitude? rest).map fun n => -(n : Int)
  | '+' :: rest => (magnitude? rest).map Int.ofNat
  | t => (magnitude? t).map Int.ofNat

/-- The decimal a text without a sign stands for, as a mantissa and an exponent. -/
def decimal? (t : Text) : Option (Nat × Int) := do
  let whole := t.takeWhile Char.isDigit
  let t := t.dropWhile Char.isDigit
  let fraction := match t with
    | '.' :: rest => rest.takeWhile Char.isDigit
    | _ => []
  let t := match t with
    | '.' :: rest => rest.dropWhile Char.isDigit
    | t => t
  let exponent ← match t with
    | [] => some (0 : Int)
    | e :: '-' :: rest =>
      if e = 'e' ∨ e = 'E' then (digitsIn? 10 rest).map fun n => -(n : Int) else none
    | e :: '+' :: rest => if e = 'e' ∨ e = 'E' then (digitsIn? 10 rest).map Int.ofNat else none
    | e :: rest => if e = 'e' ∨ e = 'E' then (digitsIn? 10 rest).map Int.ofNat else none
  let mantissa ← digitsIn? 10 (whole ++ fraction)
  return (mantissa, exponent - fraction.length)

/-- Whether a text is digits behind a leading zero, which is no number. -/
def isPaddedDigits : Text → Bool
  | '0' :: c :: rest => (c :: rest).all Char.isDigit
  | _ => false

/-- The number with a fraction or an exponent that a plain text stands for. -/
def fraction? (t : Text) : Option JsonNumber := do
  let (sign, t) := match t with
    | '-' :: rest => ((-1 : Int), rest)
    | '+' :: rest => (1, rest)
    | t => (1, t)
  if isPaddedDigits t then none
  else
    let (mantissa, exponent) ← decimal? t
    return .decimal (sign * mantissa) exponent

/-- Whether a plain text stands for infinity or for no number at all. -/
def isUnbounded (s : String) : Bool :=
  [".inf", ".Inf", ".INF", "+.inf", "+.Inf", "+.INF", "-.inf", "-.Inf", "-.INF", ".nan", ".NaN",
    ".NAN"].contains s

/-- What a plain text stands for. JSON has no infinity and puts null in its place. -/
def plainValue (s : String) : Json :=
  if isNullWord s || isUnbounded s then .null
  else
    match boolWord? s, integer? s.toList, fraction? s.toList with
    | some b, _, _ => .bool b
    | _, some n, _ => .number (.integer n)
    | _, _, some n => .number n
    | _, _, _ => .string s

/-! ## Readings of a value -/

/-- The text of a scalar, however it is written. -/
def string? : Yaml → Option String
  | .scalar _ s => some s
  | _ => none

/-- The boolean a value is. -/
def bool? : Yaml → Option Bool
  | .scalar true s => boolWord? s
  | _ => none

/-- The count a value is: a plain integer without a minus that fits 64 bits. -/
def count? : Yaml → Option Nat
  | .scalar true s =>
    let magnitude := match s.toList with
      | '+' :: rest => magnitude? rest
      | t => magnitude? t
    magnitude.bind fun n => if n < UInt64.size then some n else none
  | _ => none

/-- The items of a list; nothing written is an empty list. -/
def items? : Yaml → Option (List Yaml)
  | .list items => some items
  | v => if v.isNothing then some [] else none

/-- The entries of a mapping; nothing written is an empty mapping. -/
def entries? : Yaml → Option (List (Yaml × Yaml))
  | .mapping entries => some entries
  | v => if v.isNothing then some [] else none

/-- The name under which a value stands as a key. -/
def keyName? : Json → Option String
  | .string s => some s
  | .bool true => some "true"
  | .bool false => some "false"
  | .number (.integer n) => some (toString n)
  | _ => none

mutual

/-- The JSON value that a value stands for; a mapping must not repeat a key. -/
def toJson? : Yaml → Option Json
  | .scalar true s => some (plainValue s)
  | .scalar false s => some (.string s)
  | .list items => (toJsonItems? items).map .array
  | .mapping entries => do
    let fields ← toJsonFields? entries
    if (fields.map (·.1)).eraseDups.length = fields.length then some (.object fields) else none

/-- `toJson?` of each item. -/
def toJsonItems? : List Yaml → Option (List Json)
  | [] => some []
  | v :: rest => do return (← toJson? v) :: (← toJsonItems? rest)

/-- `toJson?` of each entry. -/
def toJsonFields? : List (Yaml × Yaml) → Option (List (String × Json))
  | [] => some []
  | (key, v) :: rest => do
    return (← keyName? (← toJson? key), ← toJson? v) :: (← toJsonFields? rest)

end

end Yaml

end DiagramLint
