import DiagramLint.Text.Basic

/-!
Terminal styles: texts between the control sequences that switch a style on and off.
-/

namespace DiagramLint

/-- A style of a terminal. -/
inductive TextStyle where
  | red
  | yellow
  | blue
  | cyan
  | boldRed
  | boldYellow
  | underlined
  deriving DecidableEq, Repr

namespace TextStyle

/-- The numbers that select a style. -/
def code : TextStyle → String
  | red => "31"
  | yellow => "33"
  | blue => "34"
  | cyan => "36"
  | boldRed => "1;31"
  | boldYellow => "1;33"
  | underlined => "4"

/-- The control sequence that selects some numbers. -/
def select (code : String) : Text := ('\x1b' :: '[' :: code.toList) ++ ['m']

/-- The control sequence that switches every style off. -/
def reset : Text := select "0"

/-- A text in which `style` follows every control sequence that switches styles off; `skip` is the
number of characters of such a sequence still to come. -/
def resumed (style : Text) : (skip : Nat) → Text → Text
  | _, [] => []
  | 0, c :: rest => c :: (if reset.isPrefixOf (c :: rest) then resumed style (reset.length - 1) rest
      else resumed style 0 rest)
  | 1, c :: rest => c :: (style ++ resumed style 0 rest)
  | n + 2, c :: rest => c :: resumed style (n + 1) rest

/-- A text in a style, when `colored` asks for it. -/
def paint (style : TextStyle) (colored : Bool) (t : Text) : Text :=
  if colored then select style.code ++ resumed (select style.code) 0 t ++ reset else t

end TextStyle

end DiagramLint
