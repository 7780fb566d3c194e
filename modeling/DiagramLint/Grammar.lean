import DiagramLint.Code
import DiagramLint.Diagnostic
import DiagramLint.Lexing.Token
import DiagramLint.Machine
import DiagramLint.Parsing.Reading

/-!
Linting with a grammar. A grammar says how a text becomes tokens, tokens a tree, and which
findings each stage adds; linting runs the stages in order and keeps a failure of one from
spoiling the others. Only a text that never becomes tokens is never linted:

* lexical errors are reported and only keep the parser from running;
* token checks run on any text;
* a failing analysis is reported as one diagnostic;
* a failing check of the tokens or of the tree is dropped and noted beside the diagnostics;
* every diagnostic is moved into the text.
-/

namespace DiagramLint

/-- The options a grammar can consult. -/
structure LintOptions where
  /-- Report lenient findings as errors. -/
  strict : Bool := false
  /-- Free settings by name; a name occurs once. -/
  settings : List (String × Json) := []
  deriving Inhabited

/-- The stages of linting that can fail without a diagnostic. -/
inductive Stage where
  | postLex
  | postParse
  deriving DecidableEq, Repr

/-- The written name of a stage. -/
def Stage.name : Stage → String
  | postLex => "post-lex"
  | postParse => "post-parse"

/-- A check that failed, and was dropped. -/
structure HookFailure where
  stage : Stage
  message : String
  deriving DecidableEq, Repr

/-- What linting a text reports: diagnostics in stage order, and the failed checks. -/
structure Report where
  diagnostics : List Diagnostic
  hookFailures : List HookFailure := []
  deriving DecidableEq, Repr, Inhabited

/-- A grammar over tokens of kind `κ`, trees `τ` and parse errors `ε`. -/
structure Grammar (κ τ ε : Type) where
  tokenize : Text → Except Fault (Lexed κ)
  /-- Checks on tokens, which run even when the text cannot be parsed. -/
  postLex : Text → List (Token κ) → Except String (List Diagnostic) := fun _ _ => .ok []
  parse : List (Token κ) → Parsed τ ε
  /-- The diagnostic for a parse error. -/
  explain : ε → Text → Diagnostic
  analyze : τ → List (Token κ) → LintOptions → Except String (List Diagnostic)
  /-- Checks that see the tree and everything reported before. -/
  postParse : Text → List (Token κ) → Option τ → List Diagnostic →
    Except String (List Diagnostic) := fun _ _ _ _ => .ok []

/-- The diagnostic for a lexical error. -/
def LexError.diagnostic (e : LexError) : Diagnostic :=
  ((Diagnostic.error ⟨e.line, e.column⟩ e.message).withCode Code.lexError).withLength e.length

/-- The diagnostic for a failed analysis. -/
def analysisFailed (reason : String) : Diagnostic :=
  (Diagnostic.error ⟨1, 1⟩ ("Semantic analysis failed: " ++ reason)).withCode Code.semanticError

/-- The diagnostics of a check that may have failed. -/
def hookDiagnostics : Except String (List Diagnostic) → List Diagnostic
  | .ok diagnostics => diagnostics
  | .error _ => []

/-- The note on a check that failed. -/
def hookFailure (stage : Stage) : Except String (List Diagnostic) → List HookFailure
  | .ok _ => []
  | .error reason => [⟨stage, "hook failed: " ++ reason⟩]

namespace Grammar

variable {κ τ ε : Type}

/-- The parse of a text: nothing after a lexical error. -/
def parseOf (g : Grammar κ τ ε) (lexed : Lexed κ) : Parsed τ ε :=
  if lexed.errors.isEmpty then g.parse lexed.tokens else ⟨none, []⟩

/-- The findings of the analysis, when there is a tree. -/
def analysisOf (g : Grammar κ τ ε) (tree : Option τ) (tokens : List (Token κ))
    (options : LintOptions) : List Diagnostic :=
  match tree with
  | none => []
  | some tree =>
    match g.analyze tree tokens options with
    | .ok diagnostics => diagnostics
    | .error reason => [analysisFailed reason]

/-- The diagnostics of every stage before the last one, for a text with its tokens. -/
def priorTo (g : Grammar κ τ ε) (t : Text) (options : LintOptions) (lexed : Lexed κ) :
    List Diagnostic :=
  let parsed := g.parseOf lexed
  lexed.errors.map LexError.diagnostic
  ++ hookDiagnostics (g.postLex t lexed.tokens)
  ++ parsed.errors.map (g.explain · t)
  ++ g.analysisOf parsed.tree lexed.tokens options

/-- What linting reports of a text with its tokens. -/
def report (g : Grammar κ τ ε) (t : Text) (options : LintOptions) (lexed : Lexed κ) : Report :=
  let postLex := g.postLex t lexed.tokens
  let prior := g.priorTo t options lexed
  let postParse := g.postParse t lexed.tokens (g.parseOf lexed).tree prior
  { diagnostics := (prior ++ hookDiagnostics postParse).map (·.clampTo t)
    hookFailures := hookFailure .postLex postLex ++ hookFailure .postParse postParse }

/-- Lint a text. -/
def lint (g : Grammar κ τ ε) (t : Text) (options : LintOptions) : Except Fault Report :=
  (g.tokenize t).map (g.report t options)

/-! ## Calls -/

/-- A use that linting makes of a grammar. -/
inductive Call where
  | tokenize
  | postLex
  | parse
  | explain
  | analyze (strict : Bool) (settings : Nat)
  | postParse (hasTree : Bool) (prior : Nat)
  deriving DecidableEq, Repr

/-- The uses that linting a text makes of a grammar once it has its tokens, in order. -/
def callsOn (g : Grammar κ τ ε) (t : Text) (options : LintOptions) (lexed : Lexed κ) :
    List Call :=
  let parsed := g.parseOf lexed
  .postLex
  :: (if lexed.errors.isEmpty then .parse :: parsed.errors.map fun _ => .explain else [])
  ++ (if parsed.tree.isSome then [.analyze options.strict options.settings.length] else [])
  ++ [.postParse parsed.tree.isSome (g.priorTo t options lexed).length]

/-- The uses that linting a text makes of a grammar, in order. -/
def calls (g : Grammar κ τ ε) (t : Text) (options : LintOptions) : List Call :=
  .tokenize :: ((g.tokenize t).toOption.map (g.callsOn t options)).getD []

end Grammar

end DiagramLint
