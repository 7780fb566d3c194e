import DiagramLint.Json.Basic
import DiagramLint.Text.Casing

/-!
How far repairs may go.
-/

namespace DiagramLint

/-- A level of repairs. -/
inductive Level where
  /-- Only repairs that cannot change what a diagram means. -/
  | safe
  /-- Also guesses: block ends, missing brackets and arrows. -/
  | all
  deriving DecidableEq, Repr, Inhabited

namespace Level

/-- Whether a repair of level `a` is allowed at level `b`. -/
def within : (a b : Level) → Bool
  | .safe, _ => true
  | .all, .all => true
  | .all, .safe => false

/-- The written name. -/
def name : Level → String
  | .safe => "safe"
  | .all => "all"

/-- The level a user names, in any case. -/
def ofName? (s : String) : Except String Level :=
  match lowercase s with
  | "safe" => .ok .safe
  | "all" | "unsafe" => .ok .all
  | _ => .error ("Unknown fix level: " ++ s)

/-- Every level by its name. -/
def byName : List (String × Level) := [safe, all].map fun l => (l.name, l)

/-- The level a JSON value names exactly. -/
def ofJson? : Json → Option Level := Json.choice? byName

/-- The level as a JSON value. -/
def toJson (l : Level) : Json := .string l.name

end Level

end DiagramLint
