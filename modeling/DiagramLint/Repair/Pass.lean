import DiagramLint.Repair.Registry

/-!
One pass of repairs. Every diagnostic that can be repaired at a level gives a proposal; the pass
accepts proposals as long as they do not collide. A proposal that replaces a whole label comes
first and keeps every other repair off its line.
-/

namespace DiagramLint

/-- What tells two diagnostics apart for repairs: code, place and span. -/
def repairKey (code : String) (d : Diagnostic) : String × Nat × Nat × Nat :=
  (code, d.line, d.column, d.spanLength)

/-- A proposal and the line of its diagnostic. -/
structure Candidate where
  line : Nat
  proposal : Proposal
  deriving DecidableEq, Repr

/-- The proposal for a diagnostic with a code, if a level allows it. -/
def candidate? (registry : Registry) (t : Text) (level : Level) (code : String)
    (d : Diagnostic) : Except Fault (Option Candidate) :=
  match registry.get? code with
  | none => .ok none
  | some strategy =>
    if strategy.minLevel.within level then
      (strategy.propose t d).map fun proposal? =>
        (proposal?.filter fun p => p.level.within level && !p.edits.isEmpty).map (⟨d.line, ·⟩)
    else .ok none

/-- The proposals for diagnostics, in their order; one whose key is among `seen` gives none. -/
def candidates (registry : Registry) (t : Text) (level : Level)
    (seen : List (String × Nat × Nat × Nat)) : List Diagnostic → Except Fault (List Candidate)
  | [] => .ok []
  | d :: rest =>
    match d.code with
    | none => candidates registry t level seen rest
    | some code =>
      if seen.contains (repairKey code d) then candidates registry t level seen rest
      else do
        let own ← candidate? registry t level code d
        let others ← candidates registry t level (repairKey code d :: seen) rest
        return own.toList ++ others

/-- The proposals that replace a whole label before the others, each group in its order. -/
def wholeLineFirst (cs : List Candidate) : List Candidate :=
  cs.filter (·.proposal.wholeLine) ++ cs.filter (!·.proposal.wholeLine)

/-- What a pass has accepted. -/
structure Selection where
  /-- Lines of which a whole label is replaced; nothing else is accepted there. -/
  closedLines : List Nat := []
  ranges : List ByteRange := []
  edits : List Edit := []

namespace Selection

/-- Whether a proposal collides with what was accepted. -/
def collides (s : Selection) (ranges : List ByteRange) : Bool :=
  ranges.any fun r => s.ranges.any r.overlaps

/-- Accept a proposal, unless its line is closed or it collides. -/
def consider (t : Text) (s : Selection) (c : Candidate) : Selection :=
  let ranges := c.proposal.edits.map (·.resolve t)
  if s.closedLines.contains c.line || s.collides ranges then s
  else
    { closedLines := if c.proposal.wholeLine then c.line :: s.closedLines else s.closedLines
      ranges := s.ranges ++ ranges
      edits := s.edits ++ c.proposal.edits }

end Selection

/-- The edits that a pass accepts of some candidates. -/
def acceptedEdits (t : Text) (cs : List Candidate) : List Edit :=
  ((wholeLineFirst cs).foldl (Selection.consider t) {}).edits

/-- The edits of one pass over a text with diagnostics. -/
def selectEdits (registry : Registry) (t : Text) (diagnostics : List Diagnostic) (level : Level) :
    Except Fault (List Edit) :=
  (candidates registry t level [] diagnostics).map (acceptedEdits t)

end DiagramLint
