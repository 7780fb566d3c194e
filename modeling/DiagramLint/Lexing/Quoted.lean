import DiagramLint.Text.Basic

/-!
Text in double quotes on one line. A backslash right before a quotation mark keeps it from
closing the text; everything else stands for itself.
-/

namespace DiagramLint

/-- What follows an opening quotation mark. -/
inductive Quoted where
  /-- The characters up to and with the closing quotation mark. -/
  | closed (image : Text)
  /-- The characters up to the end of the line, which comes first. -/
  | unterminated (image : Text)
  deriving DecidableEq, Repr

namespace Quoted

/-- The characters read. -/
def image : Quoted → Text
  | closed image => image
  | unterminated image => image

/-- The same with characters put in front. -/
def prepend (first : Text) : Quoted → Quoted
  | closed image => closed (first ++ image)
  | unterminated image => unterminated (first ++ image)

/-- Read what follows an opening quotation mark. -/
def read : Text → Quoted
  | [] => unterminated []
  | '\\' :: '"' :: rest => (read rest).prepend ['\\', '"']
  | c :: rest =>
    if c = '\n' then unterminated []
    else if c = '"' then closed ['"']
    else (read rest).prepend [c]

end Quoted

end DiagramLint
