/-!
JSON values. An object keeps its fields in the order they were written, repeated names included;
a number remembers whether it was written as an integer.
-/

namespace DiagramLint

/-- A number: an integer, or `mantissa · 10 ^ exponent` for one written with a fraction or an
exponent. -/
inductive JsonNumber where
  | integer (value : Int)
  | decimal (mantissa exponent : Int)
  deriving DecidableEq, Repr, Inhabited

/-- A JSON value. -/
inductive Json where
  | null
  | bool (value : Bool)
  | number (value : JsonNumber)
  | string (value : String)
  | array (items : List Json)
  | object (fields : List (String × Json))
  deriving Repr, Inhabited

namespace Json

/-- The number that counts something. -/
def ofNat (n : Nat) : Json := .number (.integer n)

/-- A string, or null. -/
def ofString? : Option String → Json
  | some s => .string s
  | none => .null

/-- The boolean a value is. -/
def bool? : Json → Option Bool
  | .bool b => some b
  | _ => none

/-- The string a value is. -/
def string? : Json → Option String
  | .string s => some s
  | _ => none

/-- The items of an array. -/
def array? : Json → Option (List Json)
  | .array items => some items
  | _ => none

/-- The fields of an object. -/
def object? : Json → Option (List (String × Json))
  | .object fields => some fields
  | _ => none

/-- The count a value is: an integer that fits 64 bits without a sign. -/
def count? : Json → Option Nat
  | .number (.integer n) => if 0 ≤ n ∧ n < UInt64.size then some n.toNat else none
  | _ => none

/-- The strings of an array of strings. -/
def strings? (v : Json) : Option (List String) := do
  (← v.array?).mapM string?

/-- The field with a name; of several, the last. -/
def field? (name : String) : Json → Option Json
  | .object fields => fields.reverse.lookup name
  | _ => none

/-- The fields of a record whose possible names are `names`. An object gives them by name, and
must give each at most once; an array gives them by place. Names outside the record are passed
over. -/
def record? (names : List String) : Json → Option (List (String × Json))
  | .object fields =>
    let known := fields.filter fun field => names.contains field.1
    if (known.map (·.1)).eraseDups.length = known.length then some known else none
  | .array items => if items.length ≤ names.length then some (names.zip items) else none
  | _ => none

/-- A field that must be there. -/
def required (decode : Json → Option α) (fields : List (String × Json)) (name : String) :
    Option α :=
  (fields.lookup name).bind decode

/-- A field that may be missing or null. -/
def optional (decode : Json → Option α) (fields : List (String × Json)) (name : String) :
    Option (Option α) :=
  match fields.lookup name with
  | none | some .null => some none
  | some v => (decode v).map some

/-- A field that may be missing, but not null. -/
def defaulted (value : α) (decode : Json → Option α) (fields : List (String × Json))
    (name : String) : Option α :=
  match fields.lookup name with
  | none => some value
  | some v => decode v

/-- The choice named by a string, or by the single name of an object that holds null. -/
def choice? (choices : List (String × α)) : Json → Option α
  | .string s => choices.lookup s
  | .object [(name, .null)] => choices.lookup name
  | _ => none

mutual

/-- A value in which every object keeps only the last field of each name. -/
def lastWins : Json → Json
  | .array items => .array (lastWinsItems items)
  | .object fields => .object (lastWinsFields fields)
  | v => v

/-- `lastWins` of each item. -/
def lastWinsItems : List Json → List Json
  | [] => []
  | v :: rest => lastWins v :: lastWinsItems rest

/-- `lastWins` of each field that no later one repeats. -/
def lastWinsFields : List (String × Json) → List (String × Json)
  | [] => []
  | (name, v) :: rest =>
    if rest.any (·.1 == name) then lastWinsFields rest else (name, lastWins v) :: lastWinsFields rest

end

end Json

end DiagramLint
