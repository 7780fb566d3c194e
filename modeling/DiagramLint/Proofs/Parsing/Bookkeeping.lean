-- Blocks in whole texts: what the flowchart and the sequence diagram parser
-- report about ends, and the trees they build, follow from matching the words
-- that open blocks with the words that close them.
import DiagramLint.Proofs.Flowchart.Blocks
import DiagramLint.Proofs.Sequence.Blocks

namespace DiagramLint

/-- In every text that starts with a header, correct or not, the ends that close nothing, the blocks
left open and the blocks around each statement are those of the tokens behind the header, matched
from left to right. -/
theorem block_bookkeeping_is_exact (t : Text) :
    (∀ gap header rest, (Flowchart.tokenize t).tokens = gap ++ header :: rest →
      (∀ x ∈ gap, x.kind.isSeparator = true) → header.kind = .header →
        Flowchart.KeepsBooks (Flowchart.tokenize t).tokens
          (Flowchart.blockSyntax.marks false rest)) ∧
      ∀ gap header rest, (Sequence.tokenize t).tokens = gap ++ header :: rest →
        (∀ x ∈ gap, x.kind = .newline) → header.kind = .header →
          Sequence.KeepsBooks (Sequence.tokenize t).tokens
            (Sequence.blockSyntax.marks true rest) := by
  constructor
  · intro gap header rest htokens hgap hheader
    exact Flowchart.parse_keepsBooks (Flowchart.terminated_tokenize t) (Flowchart.tidy_tokenize t)
      htokens hgap hheader
  · intro gap header rest htokens hgap hheader
    exact Sequence.parse_keepsBooks (Sequence.terminated_tokenize t) (Sequence.tidy_tokenize t)
      htokens hgap hheader

/-- A chart with an `end` too many and, behind it, a subgraph left open. -/
def unevenChart : Text := "flowchart TD\nend\nsubgraph one\nA-->B".toList

/-- A diagram with an `end` too many and, behind it, a block left open. -/
def unevenDiagram : Text := "sequenceDiagram\nend\nloop one\nA->>B: hi".toList

/-- The marks of the uneven chart. -/
def unevenChartMarks : List (Mark Flowchart.Statement) :=
  Flowchart.blockSyntax.marks false (Flowchart.tokenize unevenChart).tokens.tail

/-- The marks of the uneven diagram. -/
def unevenDiagramMarks : List (Mark Sequence.Statement) :=
  Sequence.blockSyntax.marks true (Sequence.tokenize unevenDiagram).tokens.tail

theorem uneven_blocks_keep_their_books :
    (Flowchart.KeepsBooks (Flowchart.tokenize unevenChart).tokens unevenChartMarks ∧
        (books [] unevenChartMarks).strays = [⟨2, 1⟩] ∧
        (books [] unevenChartMarks).leftOpen = [⟨"subgraph", ⟨3, 1⟩⟩]) ∧
      Sequence.KeepsBooks (Sequence.tokenize unevenDiagram).tokens unevenDiagramMarks ∧
        (books [] unevenDiagramMarks).strays = [⟨2, 1⟩] ∧
        (books [] unevenDiagramMarks).leftOpen = [⟨"loop", ⟨3, 1⟩⟩] := by
  refine ⟨⟨?_, by decide +kernel, by decide +kernel⟩, ?_, by decide +kernel, by decide +kernel⟩
  · exact (block_bookkeeping_is_exact unevenChart).1 [] ⟨.header, "flowchart", 1, 1⟩ _
      (by decide +kernel) (by simp) rfl
  · exact (block_bookkeeping_is_exact unevenDiagram).2 [] ⟨.header, "sequenceDiagram", 1, 1⟩ _
      (by decide +kernel) (by simp) rfl

end DiagramLint
