import DiagramLint.Json.Basic
import DiagramLint.Text.Basic

/-!
The text of a JSON value, compact or indented. Only the quotation mark, the backslash and the
controls below U+0020 are escaped.
-/

namespace DiagramLint

namespace Json

/-- A hexadecimal digit in lower case. -/
def hexDigit (n : Nat) : Char :=
  if n < 10 then Char.ofNat ('0'.toNat + n) else Char.ofNat ('a'.toNat + (n - 10))

/-- A character as it stands inside a string. -/
def escapeChar (c : Char) : Text :=
  if c = '"' then ['\\', '"']
  else if c = '\\' then ['\\', '\\']
  else if c = '\n' then ['\\', 'n']
  else if c = '\r' then ['\\', 'r']
  else if c = '\t' then ['\\', 't']
  else if c.toNat = 0x08 then ['\\', 'b']
  else if c.toNat = 0x0c then ['\\', 'f']
  else if c.toNat < 0x20 then
    ['\\', 'u', '0', '0', hexDigit (c.toNat / 16), hexDigit (c.toNat % 16)]
  else [c]

/-- A string with its quotation marks. -/
def renderString (s : String) : Text := '"' :: (s.toList.flatMap escapeChar ++ ['"'])

/-- The digits of an integer. -/
def renderInt (n : Int) : Text :=
  if n < 0 then '-' :: Nat.toDigits 10 n.natAbs else Nat.toDigits 10 n.natAbs

/-- A number; a decimal is written as its mantissa and its exponent. -/
def renderNumber : JsonNumber → Text
  | .integer n => renderInt n
  | .decimal m e => renderInt m ++ 'e' :: renderInt e

/-- How a value is laid out: on one line without blanks, or indented at a depth. -/
inductive Layout where
  | compact
  | indented (depth : Nat)
  deriving DecidableEq, Repr

namespace Layout

/-- The layout inside brackets. -/
def deeper : Layout → Layout
  | compact => compact
  | indented depth => indented (depth + 1)

/-- What separates a bracket or a comma from the item on its own line. -/
def lineBreak : Layout → Text
  | compact => []
  | indented depth => '\n' :: List.replicate (2 * depth) ' '

/-- What separates a name from its value. -/
def colon : Layout → Text
  | compact => [':']
  | indented _ => [':', ' ']

end Layout

mutual

/-- The text of a value. -/
def render (layout : Layout) : Json → Text
  | .null => "null".toList
  | .bool true => "true".toList
  | .bool false => "false".toList
  | .number n => renderNumber n
  | .string s => renderString s
  | .array [] => ['[', ']']
  | .array (v :: rest) =>
    '[' :: (layout.deeper.lineBreak ++ (render layout.deeper v ++
      renderItems layout rest))
  | .object [] => ['{', '}']
  | .object ((name, v) :: rest) =>
    '{' :: (layout.deeper.lineBreak ++ (renderString name ++ (layout.colon ++
      (render layout.deeper v ++ renderFields layout rest))))

/-- The items after the first of an array laid out by `layout`, and its closing bracket. -/
def renderItems (layout : Layout) : List Json → Text
  | [] => layout.lineBreak ++ [']']
  | v :: rest =>
    ',' :: (layout.deeper.lineBreak ++ (render layout.deeper v ++
      renderItems layout rest))

/-- The fields after the first of an object laid out by `layout`, and its closing bracket. -/
def renderFields (layout : Layout) : List (String × Json) → Text
  | [] => layout.lineBreak ++ ['}']
  | (name, v) :: rest =>
    ',' :: (layout.deeper.lineBreak ++ (renderString name ++ (layout.colon ++
      (render layout.deeper v ++ renderFields layout rest))))

end

/-- A value on one line without blanks. -/
def compact (v : Json) : String := String.ofList (render .compact v)

/-- A value with two blanks of indentation per level. -/
def pretty (v : Json) : String := String.ofList (render (.indented 0) v)

end Json

end DiagramLint
