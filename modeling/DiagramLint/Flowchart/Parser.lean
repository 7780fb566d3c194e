import DiagramLint.Flowchart.Token
import DiagramLint.Flowchart.Tree
import DiagramLint.Parsing.Nesting
import DiagramLint.Parsing.Reading
import DiagramLint.Spelling
import DiagramLint.Text.Basic

/-!
The flowchart parser. It reads one statement after the other; after an error it goes on with the
next statement. Subgraphs are nested afterwards, from the run of statements.
-/

namespace DiagramLint.Flowchart

/-- A run of flowchart tokens. -/
abbrev Toks := List Tok

/-! ## Tokens ahead -/

/-- Whether a kind ends a statement. -/
def Kind.endsStatement (k : Kind) : Bool := k.isSeparator || k == .eof

instance : Recovery Kind ParseError where
  newline := .newline
  eof := .eof
  endsStatement := Kind.endsStatement
  endsStatement_eof := rfl
  unexpected := .unexpected

/-- The tokens behind line ends and semicolons. -/
def skipSeparators (ts : Toks) : Toks := ts.dropWhile (·.kind.isSeparator)

/-- The next token must end the statement; if not, it is reported and the statement skipped. -/
def endStatement (ts : Toks) : List ParseError × Toks :=
  if (kindAhead ts).endsStatement then ([], ts)
  else (unexpected "end of statement" ts, recover ts)

/-! ## Nodes and chains -/

/-- A reading of part of a flowchart. -/
abbrev Read (α : Type) := Reading Kind ParseError α

/-- The closing bracket of a shape. One that does not fit is reported and taken; one that is
missing is reported, and the statement goes on only at its end or at a link. -/
def shapeCloser (expected : String) : Toks → Read Unit
  | [] => .fail [] []
  | t :: ts =>
    if t.kind = .shapeClose then
      if t.image = expected then .ok () ts
      else { value := some (), errors := [.mismatchedCloser t.place t.image expected], rest := ts }
    else if t.kind.endsStatement || t.kind == .link then
      { value := some (), errors := [.unclosed t.place expected], rest := t :: ts }
    else .fail [.unclosed t.place expected] (recover (t :: ts))

/-- The tokens behind a class reference, if there is one. -/
def skipClassRef (ts : Toks) : Toks :=
  match ts with
  | t :: rest => if t.kind = .classRef then rest else ts
  | [] => []

/-- The label of a shape, if there is one. -/
def shapeLabel (ts : Toks) : Option String × Toks :=
  match ts with
  | t :: rest => if t.kind = .label ∨ t.kind = .quotedLabel then (some t.image, rest) else (none, ts)
  | [] => (none, [])

/-- A node whose id is the token just taken: its shape with a label, and its class. -/
def node (id : Tok) (ts : Toks) : Read Node :=
  match ts with
  | opener :: rest =>
    if opener.kind = .shapeOpen then
      let (label, rest) := shapeLabel rest
      (shapeCloser (closerFor opener.image) rest).andThen fun _ rest =>
        .ok { id := id.image, place := id.place, shape := some opener.image, label }
          (skipClassRef rest)
    else .ok { id := id.image, place := id.place } (skipClassRef ts)
  | [] => .ok { id := id.image, place := id.place } []

/-- Whether a token can be a node: an identifier, or the word `end`. -/
def startsNode (t : Tok) : Bool := t.kind == .ident || (t.kind == .keyword && t.image == "end")

/-- The node that must follow a link or an ampersand. -/
def nextNode (expected : String) : Toks → Except (Read Empty) (Tok × Toks)
  | [] => .error (.fail [] [])
  | t :: ts =>
    if startsNode t then .ok (t, ts)
    else .error (.fail (unexpected expected (t :: ts)) (recover (t :: ts)))

theorem skipClassRef_length_le (ts : Toks) : (skipClassRef ts).length ≤ ts.length := by
  unfold skipClassRef
  split
  · split <;> simp
  · simp

theorem shapeLabel_length_le (ts : Toks) : (shapeLabel ts).2.length ≤ ts.length := by
  unfold shapeLabel
  split
  · split <;> simp
  · simp

theorem shapeCloser_length_le (expected : String) (ts : Toks) :
    (shapeCloser expected ts).rest.length ≤ ts.length := by
  unfold shapeCloser
  split
  · simp [Reading.fail]
  · split
    · split <;> simp [Reading.ok]
    · split
      · simp
      · exact recover_length_le _

/-- A node takes no token that is not there. -/
theorem node_length_le (id : Tok) (ts : Toks) : (node id ts).rest.length ≤ ts.length := by
  unfold node
  split
  · rename_i opener rest
    split
    · have hl := shapeLabel_length_le rest
      have hc := shapeCloser_length_le (closerFor opener.image) (shapeLabel rest).2
      simp only [Reading.andThen]
      split
      · simp only [Reading.fail, List.length_cons]
        omega
      · simp only [Reading.after, Reading.ok, List.length_cons]
        have hs := skipClassRef_length_le (shapeCloser (closerFor opener.image) (shapeLabel rest).2).rest
        omega
    · simpa [Reading.ok] using skipClassRef_length_le (opener :: rest)
  · simp [Reading.ok]

theorem nextNode_length_lt {expected : String} {ts rest : Toks} {t : Tok}
    (h : nextNode expected ts = .ok (t, rest)) : rest.length < ts.length := by
  unfold nextNode at h
  split at h
  · cases h
  · split at h
    · cases h; simp
    · cases h

theorem nextNode_error_length_le {expected : String} {ts : Toks} {stop : Read Empty}
    (h : nextNode expected ts = .error stop) : stop.rest.length ≤ ts.length := by
  unfold nextNode at h
  split at h
  · cases h; simp [Reading.fail]
  · split at h
    · cases h
    · cases h; exact recover_length_le _

/-- Nodes joined by ampersands, the first of them starting at the token just taken. -/
def group (id : Tok) (ts : Toks) : Read (List Node) :=
  match (node id ts).value with
  | none => .fail (node id ts).errors (node id ts).rest
  | some n =>
    match _hr : (node id ts).rest with
    | [] => ⟨some [n], (node id ts).errors, []⟩
    | amp :: rest =>
      if amp.kind = .amp then
        match _hn : nextNode "a node after '&'" rest with
        | .error stop => .fail ((node id ts).errors ++ stop.errors) stop.rest
        | .ok (next, rest) => ((group next rest).map (n :: ·)).after (node id ts).errors
      else ⟨some [n], (node id ts).errors, amp :: rest⟩
termination_by ts.length
decreasing_by
  have := node_length_le id ts
  have := nextNode_length_lt _hn
  simp only [_hr, List.length_cons] at *
  omega

/-- A group takes no token that is not there. -/
theorem group_length_le (id : Tok) (ts : Toks) : (group id ts).rest.length ≤ ts.length := by
  fun_induction group id ts with
  | case1 id ts h => exact node_length_le id ts
  | case2 => simp
  | case3 id ts n h amp rest hr hk stop hn =>
    have := node_length_le id ts
    have := nextNode_error_length_le hn
    simp only [hr, List.length_cons, Reading.fail] at *
    omega
  | case4 id ts n h amp rest hr hk next rest' hn ih =>
    have := node_length_le id ts
    have := nextNode_length_lt hn
    simp only [hr, List.length_cons, Reading.after, Reading.map] at *
    omega
  | case5 id ts n h amp rest hr hk => simpa [hr] using node_length_le id ts

/-- The tokens behind the label of an edge, if there is one. -/
def skipEdgeLabel (ts : Toks) : Toks :=
  match ts with
  | t :: rest => if t.kind = .edgeLabel then rest else ts
  | [] => []

theorem skipEdgeLabel_length_le (ts : Toks) : (skipEdgeLabel ts).length ≤ ts.length := by
  unfold skipEdgeLabel
  split
  · split <;> simp
  · simp

/-- The links of a chain after its first group, each with the group it leads to. A node or a
keyword where a link should be is a missing arrow, or a second statement on the same line once
there was a link. -/
def chainTail (linked : Bool) (ts : Toks) : Read (List (String × List Node)) :=
  match ts with
  | [] => .ok [] []
  | t :: rest =>
    match t.kind with
    | .link | .invalidLink =>
      match _hn : nextNode "a node after the link" (skipEdgeLabel rest) with
      | .error stop => .fail stop.errors stop.rest
      | .ok (next, after) =>
        match (group next after).value with
        | none => .fail (group next after).errors (group next after).rest
        | some nodes =>
          ((chainTail true (group next after).rest).map ((t.image, nodes) :: ·)).after
            (group next after).errors
    | .newline | .semi | .eof => .ok [] (t :: rest)
    | .ident =>
      if linked then .fail [.trailingStatement t.place] (recover (t :: rest))
      else .fail [.missingArrow t.place t.width] (recover (t :: rest))
    | .keyword | .header => .fail [.trailingStatement t.place] (recover (t :: rest))
    | _ => .fail (unexpected "a link or the end of the statement" (t :: rest)) (recover (t :: rest))
termination_by ts.length
decreasing_by
  all_goals
    have := nextNode_length_lt _hn
    have := skipEdgeLabel_length_le rest
    have := group_length_le next after
    simp only [List.length_cons]
    omega

/-- A chain takes no token that is not there. -/
theorem chainTail_length_le (linked : Bool) (ts : Toks) :
    (chainTail linked ts).rest.length ≤ ts.length := by
  fun_induction chainTail linked ts with
  | case1 => simp [Reading.ok]
  | case2 linked t rest hk stop hn | case5 linked t rest hk stop hn =>
    have := nextNode_error_length_le hn
    have := skipEdgeLabel_length_le rest
    simp only [Reading.fail, List.length_cons]
    omega
  | case3 linked t rest hk next after hn hv | case6 linked t rest hk next after hn hv =>
    have := nextNode_length_lt hn
    have := skipEdgeLabel_length_le rest
    have := group_length_le next after
    simp only [Reading.fail, List.length_cons]
    omega
  | case4 linked t rest hk next after hn nodes hv ih
  | case7 linked t rest hk next after hn nodes hv ih =>
    have := nextNode_length_lt hn
    have := skipEdgeLabel_length_le rest
    have := group_length_le next after
    simp only [Reading.after, Reading.map, List.length_cons]
    omega
  | case8 | case9 | case10 => simp [Reading.ok]
  | case11 | case12 | case13 | case14 | case15 => exact recover_length_le _

/-- A chain whose first node is the token just taken. -/
def chain (id : Tok) (ts : Toks) : Read Chain :=
  (group id ts).andThen fun first rest =>
    (chainTail false rest).map fun tail =>
      { groups := first :: tail.map (·.2), links := tail.map (·.1) }

/-! ## Statements -/

/-- An open subgraph: its id and where it was opened. -/
structure OpenSubgraph where
  id : Option String
  place : Position
  deriving DecidableEq, Repr

/-- What a statement does to the nesting of subgraphs. -/
abbrev Event := BlockEvent OpenSubgraph Statement ParseError

/-- The words a misspelled first word is compared with. -/
def misspellable : List String :=
  ["subgraph", "direction", "classDef", "class", "style", "linkStyle", "click"]

/-- The id in the text of a subgraph: its first word, unless the text starts with the bracket of a
title. -/
def subgraphId (text : String) : Option String :=
  let word := text.toList.takeWhile fun c => !(isWhiteSpace c || c == '[')
  if word.isEmpty then none else some (String.ofList word)

/-- The text after a keyword, if there is one. -/
def keywordText (ts : Toks) : Option String × Toks :=
  match ts with
  | t :: rest => if t.kind = .text then (some t.image, rest) else (none, ts)
  | [] => (none, [])

/-- A statement that must end now. -/
def ended (event : Event) (ts : Toks) : Read Event :=
  { value := some event, errors := (endStatement ts).1, rest := (endStatement ts).2 }

/-- The keyword that an identifier misspells: only a word followed by another one, or by a
direction, is taken for a keyword rather than a node. -/
def misspelled (id : Tok) (ts : Toks) : Option String :=
  if kindAhead ts = .ident ∨ kindAhead ts = .direction then nearestKeyword id.image misspellable
  else none

/-- A statement that starts with a keyword. -/
def keywordStatement (t : Tok) (ts : Toks) : Read Event :=
  match t.image with
  | "subgraph" =>
    let (text, rest) := keywordText ts
    ended (.opened ⟨text.bind subgraphId, t.place⟩) rest
  | "end" => ended (.closed (.endWithoutBlock t.place)) ts
  | "direction" =>
    match ts with
    | value :: rest =>
      if value.kind = .direction then ended (.placed (.direction t.line value.image)) rest
      else .fail (unexpected "a direction (TB, TD, BT, RL or LR)" ts) (recover ts)
    | [] => .fail [] []
  | keyword => ended (.placed (.style t.line keyword)) (keywordText ts).2

/-- The statement that starts with the token just taken. -/
def statement (t : Tok) (ts : Toks) : Read Event :=
  match t.kind with
  | .keyword => keywordStatement t ts
  | .ident =>
    match misspelled t ts with
    | some suggestion => .fail [.misspelledKeyword t.place t.image suggestion] (recover ts)
    | none => (chain t ts).map fun c => .placed (.edges c)
  | _ => .fail (unexpected "a node, 'subgraph' or 'end'" (t :: ts)) (recover ts)

theorem keywordText_length_le (ts : Toks) : (keywordText ts).2.length ≤ ts.length := by
  unfold keywordText
  split
  · split <;> simp
  · simp

theorem ended_length_le (event : Event) (ts : Toks) :
    (ended event ts).rest.length ≤ ts.length := by
  unfold ended endStatement
  split
  · simp
  · exact recover_length_le ts

theorem chain_length_le (id : Tok) (ts : Toks) : (chain id ts).rest.length ≤ ts.length := by
  have hg := group_length_le id ts
  unfold chain Reading.andThen
  split
  · exact hg
  · have := chainTail_length_le false (group id ts).rest
    simp only [Reading.after, Reading.map]
    omega

/-- A statement takes no token that is not there. -/
theorem statement_length_le (t : Tok) (ts : Toks) : (statement t ts).rest.length ≤ ts.length := by
  unfold statement
  split
  · unfold keywordStatement
    split
    · exact Nat.le_trans (ended_length_le _ _) (keywordText_length_le ts)
    · exact ended_length_le _ _
    · split
      · split
        · exact Nat.le_trans (ended_length_le _ _) (by simp)
        · exact recover_length_le _
      · simp [Reading.fail]
    · exact Nat.le_trans (ended_length_le _ _) (keywordText_length_le ts)
  · split
    · exact recover_length_le _
    · simpa [Reading.map] using chain_length_le t ts
  · exact recover_length_le _

/-- The statements of a chart: what each does to the nesting, and its errors. -/
def statements (ts : Toks) : List (Option Event × List ParseError) :=
  match _hs : skipSeparators ts with
  | [] => []
  | t :: rest =>
    if t.kind = .eof then []
    else ((statement t rest).value, (statement t rest).errors) :: statements (statement t rest).rest
termination_by ts.length
decreasing_by
  have h1 : (skipSeparators ts).length ≤ ts.length := (List.dropWhile_sublist _).length_le
  have h2 := statement_length_le t rest
  simp only [_hs, List.length_cons] at h1
  omega

/-! ## Charts -/

/-- The subgraph made of an opening and a body. -/
def wrapSubgraph (s : OpenSubgraph) (body : List Statement) : Statement :=
  .subgraph s.id s.place body

/-- Where a text ends: at its last token. -/
def endPlace (ts : Toks) : Position := (ts.getLast?.map Token.place).getD ⟨1, 1⟩

/-- The direction behind a header, if there is one. -/
def headerDirection (ts : Toks) : Option String × Toks :=
  match ts with
  | t :: rest => if t.kind = .direction then (some t.image, rest) else (none, ts)
  | [] => (none, [])

/-- Parse a run of tokens. Without a header there is no tree. Every subgraph still open at the end
is reported there, innermost first, and closed. -/
def parse (ts : Toks) : Parsed Chart ParseError :=
  match skipSeparators ts with
  | [] => ⟨none, []⟩
  | header :: rest =>
    if header.kind = .header then
      let (direction, rest) := headerDirection rest
      let (headerErrors, rest) := endStatement rest
      let (nesting, errors) := Nesting.run wrapSubgraph {} (statements rest)
      let unclosed := nesting.blocks.map fun (block, _) =>
        ParseError.blockMissingEnd (endPlace ts) block.place.line
      { tree := some
          { headerLine := header.line
            direction
            statements := Nesting.unwind wrapSubgraph nesting.current nesting.blocks }
        errors := headerErrors ++ errors ++ unclosed }
    else ⟨none, unexpected "'flowchart' or 'graph' header" (header :: rest)⟩

end DiagramLint.Flowchart
