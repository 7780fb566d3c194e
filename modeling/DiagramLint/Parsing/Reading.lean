import DiagramLint.Lexing.Token

/-!
Readings: what a parser makes of the tokens from some place on. A reading may fail to give a
value and may report errors either way; it always says which tokens are left. Every parser
recovers from a token that it does not expect in the same way: the token is reported, and the
parser goes on where the statement ends.
-/

namespace DiagramLint

/-- A value, if there is one, the errors reported and the tokens left. -/
structure Reading (κ ε α : Type) where
  value : Option α
  errors : List ε := []
  rest : List (Token κ)

namespace Reading

variable {κ ε α β : Type}

/-- A reading without errors. -/
def ok (value : α) (rest : List (Token κ)) : Reading κ ε α := { value := some value, rest }

/-- A reading without a value. -/
def fail (errors : List ε) (rest : List (Token κ)) : Reading κ ε α :=
  { value := none, errors, rest }

/-- The reading with errors put before its own. -/
def after (errors : List ε) (r : Reading κ ε α) : Reading κ ε α :=
  { r with errors := errors ++ r.errors }

/-- The reading with its value changed. -/
def map (f : α → β) (r : Reading κ ε α) : Reading κ ε β :=
  { value := r.value.map f, errors := r.errors, rest := r.rest }

/-- A reading that goes on with the next one if it has a value. -/
def andThen (r : Reading κ ε α) (next : α → List (Token κ) → Reading κ ε β) : Reading κ ε β :=
  match r.value with
  | none => fail r.errors r.rest
  | some a => (next a r.rest).after r.errors

end Reading

/-! ## Recovery -/

/-- What a parser recovers by: the kinds of a line end and of the end of the text, the kinds that
end a statement, and the error about a token that is not expected. -/
class Recovery (κ : Type) (ε : outParam Type) where
  newline : κ
  eof : κ
  endsStatement : κ → Bool
  endsStatement_eof : endsStatement eof = true
  /-- The error about a token: where it is, how wide, what it is, and what is expected. -/
  unexpected : Position → Nat → String → String → ε

section

variable {κ ε α : Type} [Recovery κ ε]

/-- The kind of the next token; past the last one, the end of the text. -/
def kindAhead : List (Token κ) → κ
  | [] => Recovery.eof
  | t :: _ => t.kind

/-- The tokens from the next one that ends a statement on. -/
def recover (ts : List (Token κ)) : List (Token κ) :=
  ts.dropWhile fun t => !Recovery.endsStatement t.kind

theorem recover_length_le (ts : List (Token κ)) : (recover ts).length ≤ ts.length :=
  (List.dropWhile_sublist _).length_le

variable [DecidableEq κ]

/-- A token as an error message names it. -/
def described (t : Token κ) : String :=
  if t.kind = Recovery.newline then "end of line"
  else if t.kind = Recovery.eof then "end of input"
  else "'" ++ t.image ++ "'"

/-- The error about the next token, if there is one. -/
def unexpected (expected : String) : List (Token κ) → List ε
  | [] => []
  | t :: _ => [Recovery.unexpected κ t.place t.width (described t) expected]

/-- The next token is not what it should be: it is reported, and its statement skipped. -/
def refuse (expected : String) (ts : List (Token κ)) : Reading κ ε α :=
  .fail (unexpected expected ts) (recover ts)

theorem refuse_length_le (expected : String) (ts : List (Token κ)) :
    (refuse expected ts : Reading κ ε α).rest.length ≤ ts.length :=
  recover_length_le ts

/-- The line must end now; if not, the next token is reported and the line skipped. -/
def endLine (r : Reading κ ε α) : Reading κ ε α :=
  if Recovery.endsStatement (kindAhead r.rest) then r
  else
    { r with errors := r.errors ++ unexpected "end of line" r.rest, rest := recover r.rest }

theorem endLine_length_le (r : Reading κ ε α) : (endLine r).rest.length ≤ r.rest.length := by
  unfold endLine
  split
  · exact Nat.le_refl _
  · exact recover_length_le _

end

/-- What a parser returns: a tree, if the text is a diagram at all, and the errors. -/
structure Parsed (τ ε : Type) where
  tree : Option τ
  errors : List ε

end DiagramLint
