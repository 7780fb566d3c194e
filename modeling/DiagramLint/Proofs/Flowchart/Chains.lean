-- The grammar of flowchart nodes and chains, and its readers: a reader that
-- reports nothing has taken the tokens of a node, a group or a chain, and
-- every one of these is read back as what it stands for.
import DiagramLint.Flowchart.Parser
import DiagramLint.Proofs.Parsing.Derivations

namespace DiagramLint.Flowchart

/-! ## The grammar -/

/-- The kinds of a label in a shape. -/
def Kind.isLabel : Kind → Bool
  | .label | .quotedLabel => true
  | _ => false

/-- The kinds of a link, allowed or not. -/
def Kind.isLink : Kind → Bool
  | .link | .invalidLink => true
  | _ => false

/-- The shape of a node, if it has one, and the label inside. -/
inductive IsShape : Toks → Option String → Option String → Prop where
  | absent : IsShape [] none none
  | present {opener closer : Tok} {x : Toks} {label : Option String}
    (ho : opener.kind = .shapeOpen) (hl : Optionally Kind.isLabel x label)
    (hc : closer.kind = .shapeClose) (hi : closer.image = closerFor opener.image) :
    IsShape (opener :: (x ++ [closer])) (some opener.image) label

/-- A node: an identifier or the word `end`, a shape and a class. -/
inductive IsNode : Toks → Node → Prop where
  | node {id : Tok} {x y : Toks} {shape label name : Option String}
    (hid : id.kind = .ident ∨ id.kind = .keyword ∧ id.image = "end")
    (hs : IsShape x shape label) (hc : Optionally (· == .classRef) y name) :
    IsNode (id :: (x ++ y)) { id := id.image, place := id.place, shape, label }

/-- Nodes joined by ampersands. -/
inductive IsGroup : Toks → List Node → Prop where
  | one {x : Toks} {n : Node} (h : IsNode x n) : IsGroup x [n]
  | more {x y : Toks} {amp : Tok} {n : Node} {nodes : List Node} (h : IsNode x n)
    (ha : amp.kind = .amp) (hg : IsGroup y nodes) : IsGroup (x ++ amp :: y) (n :: nodes)

/-- Links, each with the group it leads to. -/
inductive IsTail : Toks → List (String × List Node) → Prop where
  | nil : IsTail [] []
  | link {link : Tok} {x y z : Toks} {label : Option String} {nodes : List Node}
    {tail : List (String × List Node)} (hl : link.kind.isLink = true)
    (he : Optionally (· == .edgeLabel) x label) (hg : IsGroup y nodes) (ht : IsTail z tail) :
    IsTail (link :: (x ++ (y ++ z))) ((link.image, nodes) :: tail)

/-- Groups with links between them. The first node of a chain is an identifier. -/
inductive IsChain : Toks → Chain → Prop where
  | chain {id : Tok} {x y : Toks} {first : List Node} {tail : List (String × List Node)}
    (hid : id.kind = .ident) (hg : IsGroup (id :: x) first) (ht : IsTail y tail) :
    IsChain (id :: (x ++ y)) { groups := first :: tail.map (·.2), links := tail.map (·.1) }

/-! ## Optional tokens -/

theorem shapeLabel_eq (ts : Toks) : shapeLabel ts = takeOptional Kind.isLabel ts := by
  cases ts with
  | nil => rfl
  | cons t rest =>
    simp only [shapeLabel, takeOptional]
    cases hk : t.kind <;> rfl

theorem skipClassRef_eq (ts : Toks) : skipClassRef ts = (takeOptional (· == .classRef) ts).2 := by
  cases ts with
  | nil => rfl
  | cons t rest =>
    simp only [skipClassRef, takeOptional, beq_iff_eq]
    split <;> rfl

theorem skipEdgeLabel_eq (ts : Toks) :
    skipEdgeLabel ts = (takeOptional (· == .edgeLabel) ts).2 := by
  cases ts with
  | nil => rfl
  | cons t rest =>
    simp only [skipEdgeLabel, takeOptional, beq_iff_eq]
    split <;> rfl

theorem startsNode_iff {t : Tok} :
    startsNode t = true ↔ t.kind = .ident ∨ t.kind = .keyword ∧ t.image = "end" := by
  simp [startsNode]

/-! ## What a reader takes -/

theorem shapeCloser_derives (expected : String) {ts : Toks} (h : Terminated .eof ts) :
    (shapeCloser expected ts).Derives
      (fun x _ => ∃ t, x = [t] ∧ t.kind = .shapeClose ∧ t.image = expected) (Terminated .eof) ts := by
  obtain ⟨t, ts, rfl⟩ := h.exists_cons
  simp only [shapeCloser]
  split
  · rename_i hk
    split
    · rename_i hi
      exact Reading.derives_ok (x := [t]) rfl ⟨t, rfl, hk, hi⟩ (h.tail (by simp [hk]))
    · exact Reading.derives_of_errors (by simp)
  · split
    · exact Reading.derives_of_errors (by simp)
    · exact Reading.derives_of_errors (by simp [Reading.fail])

theorem skipClassRef_derives {ts : Toks} (h : Terminated .eof ts) :
    Terminated .eof (skipClassRef ts) ∧
      ∃ x name, ts = x ++ skipClassRef ts ∧ Optionally (· == Kind.classRef) x name := by
  rw [skipClassRef_eq]
  obtain ⟨x, hx, hname⟩ := takeOptional_derives (· == Kind.classRef) ts
  exact ⟨takeOptional_terminated h rfl, x, _, hx, hname⟩

theorem node_derives {id : Tok} (hid : startsNode id = true) {ts : Toks}
    (h : Terminated .eof ts) :
    (node id ts).Derives (fun x => IsNode (id :: x)) (Terminated .eof) ts := by
  obtain ⟨t, ts, rfl⟩ := h.exists_cons
  simp only [node]
  split
  · rename_i hk
    have hopen : Terminated .eof ts := h.tail (by simp [hk])
    obtain ⟨x, hx, hlabel⟩ := takeOptional_derives Kind.isLabel ts
    have hcloser := shapeCloser_derives (closerFor t.image)
      (takeOptional_terminated (p := Kind.isLabel) hopen rfl)
    have hts : t :: ts = (t :: x) ++ (takeOptional Kind.isLabel ts).2 := congrArg (t :: ·) hx
    rw [shapeLabel_eq, hts]
    refine (hcloser.andThen ?_).prepend (t :: x)
    rintro _ _ ⟨closer, rfl, hck, hci⟩ hrest
    obtain ⟨hleft, y, name, hy, hname⟩ := skipClassRef_derives hrest
    refine Reading.derives_ok hy ?_ hleft
    simpa using IsNode.node (startsNode_iff.mp hid) (.present hk hlabel hck hci) hname
  · obtain ⟨hleft, y, name, hy, hname⟩ := skipClassRef_derives h
    refine Reading.derives_ok (x := y) hy ?_ hleft
    exact IsNode.node (startsNode_iff.mp hid) .absent hname

theorem startsNode_kind {t : Tok} (h : startsNode t = true) : t.kind ≠ .eof := by
  rcases startsNode_iff.mp h with hk | ⟨hk, -⟩ <;> simp [hk]

theorem nextNode_ok {expected : String} {ts rest : Toks} {t : Tok}
    (h : nextNode expected ts = .ok (t, rest)) : ts = t :: rest ∧ startsNode t = true := by
  unfold nextNode at h
  split at h
  · cases h
  · split at h
    · rename_i hs
      cases h
      exact ⟨rfl, hs⟩
    · cases h

theorem nextNode_error {expected : String} {ts : Toks} {stop : Read Empty}
    (h : nextNode expected ts = .error stop) (hne : ts ≠ []) : stop.errors ≠ [] := by
  unfold nextNode at h
  split at h
  · exact absurd rfl hne
  · split at h
    · cases h
    · cases h
      simp [Reading.fail, unexpected]

theorem group_derives {id : Tok} (hid : startsNode id = true) {ts : Toks}
    (h : Terminated .eof ts) :
    (group id ts).Derives (fun x => IsGroup (id :: x)) (Terminated .eof) ts := by
  fun_induction group id ts with
  | case1 id ts hv =>
    intro he
    obtain ⟨x, n, -, hn, -⟩ := node_derives hid h he
    rw [hv] at hn
    cases hn
  | case2 id ts n hv hr =>
    intro he
    obtain ⟨x, n, -, -, -, hrest⟩ := node_derives hid h he
    exact absurd hr hrest.ne_nil
  | case3 id ts n hv amp rest hr hk stop hn =>
    intro he
    obtain ⟨hnode, hstop⟩ := List.append_eq_nil_iff.mp he
    obtain ⟨x, n, -, -, -, hrest⟩ := node_derives hid h hnode
    rw [hr] at hrest
    exact absurd hstop (nextNode_error hn (hrest.tail (by simp [hk])).ne_nil)
  | case4 id ts n hv amp rest hr hk next rest' hn ih =>
    intro he
    obtain ⟨hnode, hlater⟩ := List.append_eq_nil_iff.mp he
    obtain ⟨x, n', hx, hn', hd, hrest⟩ := node_derives hid h hnode
    rw [hv, Option.some.injEq] at hn'
    subst hn'
    rw [hr] at hrest hx
    obtain ⟨rfl, hs⟩ := nextNode_ok hn
    have hnext := (hrest.tail (by simp [hk])).tail (startsNode_kind hs)
    obtain ⟨y, nodes, hy, hnodes, hg, hleft⟩ := ih hs hnext hlater
    refine ⟨x ++ amp :: next :: y, n :: nodes, ?_, ?_, .more hd hk hg, hleft⟩
    · simpa [Reading.after, Reading.map, ← hy] using hx
    · simp [Reading.after, Reading.map, hnodes]
  | case5 id ts n hv amp rest hr hk =>
    intro he
    obtain ⟨x, n', hx, hn', hd, hrest⟩ := node_derives hid h he
    rw [hv, Option.some.injEq] at hn'
    subst hn'
    rw [hr] at hrest hx
    exact ⟨x, [n], hx, rfl, .one hd, hrest⟩

theorem skipEdgeLabel_derives {ts : Toks} (h : Terminated .eof ts) :
    Terminated .eof (skipEdgeLabel ts) ∧
      ∃ x label, ts = x ++ skipEdgeLabel ts ∧ Optionally (· == Kind.edgeLabel) x label := by
  rw [skipEdgeLabel_eq]
  obtain ⟨x, hx, hlabel⟩ := takeOptional_derives (· == Kind.edgeLabel) ts
  exact ⟨takeOptional_terminated h rfl, x, _, hx, hlabel⟩

/-- The tokens behind a statement: its separator or the end of the text comes first. -/
abbrev StatementEnd : Toks → Prop := LineEnd .eof Kind.endsStatement

theorem statementEnd_cons {t : Tok} {ts : Toks} (h : Terminated .eof (t :: ts))
    (ht : t.kind.endsStatement = true) : StatementEnd (t :: ts) := by
  refine ⟨h, ?_⟩
  intro t' ht'
  cases ht'
  exact ht

theorem chainTail_derives (linked : Bool) {ts : Toks} (h : Terminated .eof ts) :
    (chainTail linked ts).Derives IsTail StatementEnd ts := by
  fun_induction chainTail linked ts with
  | case1 => exact absurd rfl h.ne_nil
  | case2 linked t rest hk stop hn | case5 linked t rest hk stop hn =>
    have hrest := h.tail (by simp [hk])
    exact Reading.derives_of_errors (nextNode_error hn (skipEdgeLabel_derives hrest).1.ne_nil)
  | case3 linked t rest hk next after hn hv | case6 linked t rest hk next after hn hv =>
    have hrest := h.tail (by simp [hk])
    obtain ⟨hskip, -⟩ := skipEdgeLabel_derives hrest
    obtain ⟨hnext, hs⟩ := nextNode_ok hn
    rw [hnext] at hskip
    intro he
    obtain ⟨x, nodes, -, hnodes, -⟩ := group_derives hs (hskip.tail (startsNode_kind hs)) he
    rw [hv] at hnodes
    cases hnodes
  | case4 linked t rest hk next after hn nodes hv ih
  | case7 linked t rest hk next after hn nodes hv ih =>
    have hrest := h.tail (by simp [hk])
    obtain ⟨hskip, x, label, hx, hlabel⟩ := skipEdgeLabel_derives hrest
    obtain ⟨hnext, hs⟩ := nextNode_ok hn
    rw [hnext] at hskip hx
    intro he
    obtain ⟨hgroup, hlater⟩ := List.append_eq_nil_iff.mp he
    obtain ⟨y, nodes', hy, hnodes, hg, hleft⟩ :=
      group_derives hs (hskip.tail (startsNode_kind hs)) hgroup
    rw [hv, Option.some.injEq] at hnodes
    subst hnodes
    obtain ⟨z, tail, hz, htail, ht, hend⟩ := ih hleft hlater
    refine ⟨t :: (x ++ (next :: y ++ z)), (t.image, nodes) :: tail, ?_, ?_,
      .link (by simp [hk, Kind.isLink]) hlabel hg ht, hend⟩
    · simpa [Reading.after, Reading.map, ← hz, ← hy] using hx
    · simp [Reading.after, Reading.map, htail]
  | case8 linked t rest hk | case9 linked t rest hk | case10 linked t rest hk =>
    refine Reading.derives_ok rfl .nil (statementEnd_cons h ?_)
    simp [hk, Kind.endsStatement, Kind.isSeparator]
  | case11 | case12 | case13 | case14 => exact Reading.derives_of_errors (by simp [Reading.fail])
  | case15 => exact Reading.derives_of_errors (by simp [Reading.fail, unexpected])

theorem chain_derives {id : Tok} (hid : id.kind = .ident) {ts : Toks} (h : Terminated .eof ts) :
    (chain id ts).Derives (fun x => IsChain (id :: x)) StatementEnd ts := by
  refine (group_derives (startsNode_iff.mpr (.inl hid)) h).andThen ?_
  intro x first hfirst hrest
  refine (chainTail_derives false hrest).map _ ?_
  intro y tail htail
  exact .chain hid hfirst htail

/-! ## What a reader gives back -/

/-- The kinds that go on with the node before them. -/
def Kind.continuesNode : Kind → Bool
  | .shapeOpen | .classRef => true
  | _ => false

/-- The kinds that go on with the group before them. -/
def Kind.continuesGroup (k : Kind) : Bool := k.continuesNode || k == .amp

theorem skipClassRef_append {x rest : Toks} {name : Option String}
    (h : Optionally (· == Kind.classRef) x name) (hr : NotAhead Kind.continuesNode rest) :
    skipClassRef (x ++ rest) = rest := by
  have hclass : NotAhead (· == Kind.classRef) rest := by
    refine hr.mono ?_
    intro k hk
    simp [beq_iff_eq.mp hk, Kind.continuesNode]
  rw [skipClassRef_eq, takeOptional_append h hclass]

theorem node_read {ts : Toks} {n : Node} (h : IsNode ts n) :
    ∃ id x, ts = id :: x ∧ startsNode id = true ∧
      ∀ rest, NotAhead Kind.continuesNode rest → node id (x ++ rest) = .ok n rest := by
  cases h with
  | @node id x y shape label name hid hs hc =>
    refine ⟨id, x ++ y, rfl, startsNode_iff.mpr hid, ?_⟩
    intro rest hrest
    have hskip := skipClassRef_append hc hrest
    cases hs with
    | absent =>
      cases hc with
      | absent =>
        cases rest with
        | nil => rfl
        | cons t rest =>
          have ht : t.kind ≠ .shapeOpen := by
            intro hk
            simpa [hk, Kind.continuesNode] using hrest t rfl
          simpa [node, ht] using congrArg (Reading.ok _) hskip
      | present t ht => simpa [node, beq_iff_eq.mp ht] using congrArg (Reading.ok _) hskip
    | @present opener closer x label ho hl hc hi =>
      have htake : shapeLabel (x ++ closer :: (y ++ rest)) = (label, closer :: (y ++ rest)) := by
        rw [shapeLabel_eq]
        exact takeOptional_append hl (notAhead_cons (by simp [hc, Kind.isLabel]))
      simp [node, ho, htake, shapeCloser, hc, hi, Reading.andThen, Reading.ok, Reading.after, hskip]

theorem nextNode_cons {expected : String} {t : Tok} {ts : Toks} (h : startsNode t = true) :
    nextNode expected (t :: ts) = .ok (t, ts) := by
  simp [nextNode, h]

theorem group_one {id : Tok} {ts rest : Toks} {n : Node} (h : node id ts = .ok n rest)
    (hr : NotAhead (· == .amp) rest) : group id ts = .ok [n] rest := by
  have hvalue : (node id ts).value = some n := by rw [h]; rfl
  have hrest : (node id ts).rest = rest := by rw [h]; rfl
  have herrors : (node id ts).errors = [] := by rw [h]; rfl
  unfold NotAhead at hr
  fun_cases group id ts <;> simp_all [Reading.ok]

theorem group_more {id amp next : Tok} {ts rest : Toks} {n : Node}
    (h : node id ts = .ok n (amp :: next :: rest)) (ha : amp.kind = .amp)
    (hn : startsNode next = true) : group id ts = (group next rest).map (n :: ·) := by
  have hvalue : (node id ts).value = some n := by rw [h]; rfl
  have hrest : (node id ts).rest = amp :: next :: rest := by rw [h]; rfl
  have herrors : (node id ts).errors = [] := by rw [h]; rfl
  fun_cases group id ts <;> simp_all [nextNode_cons, Reading.after]

theorem group_read {ts : Toks} {nodes : List Node} (h : IsGroup ts nodes) :
    ∃ id x, ts = id :: x ∧ startsNode id = true ∧
      ∀ rest, NotAhead Kind.continuesGroup rest → group id (x ++ rest) = .ok nodes rest := by
  induction h with
  | one hnode =>
    obtain ⟨id, x, rfl, hid, hread⟩ := node_read hnode
    refine ⟨id, x, rfl, hid, ?_⟩
    intro rest hrest
    refine group_one (hread rest (hrest.mono ?_)) (hrest.mono ?_)
    · intro k hk
      simp [Kind.continuesGroup, hk]
    · intro k hk
      simp [Kind.continuesGroup, hk]
  | @more _ _ amp n nodes hnode ha _ ih =>
    obtain ⟨id, x, rfl, hid, hread⟩ := node_read hnode
    obtain ⟨next, y, rfl, hnext, hlater⟩ := ih
    refine ⟨id, x ++ amp :: next :: y, rfl, hid, ?_⟩
    intro rest hrest
    have hamp : amp.kind.continuesNode = false := by simp [ha, Kind.continuesNode]
    have hfirst := hread (amp :: next :: (y ++ rest)) (notAhead_cons hamp)
    rw [List.append_assoc, List.cons_append, List.cons_append, group_more hfirst ha hnext,
      hlater rest hrest]
    rfl

theorem chainTail_end (linked : Bool) {t : Tok} (h : t.kind.endsStatement = true) (ts : Toks) :
    chainTail linked (t :: ts) = .ok [] (t :: ts) := by
  unfold chainTail
  cases hk : t.kind <;> simp_all [Kind.endsStatement, Kind.isSeparator]

theorem chainTail_link (linked : Bool) {t next : Tok} {ts after rest : Toks} {nodes : List Node}
    (ht : t.kind.isLink = true) (hn : skipEdgeLabel ts = next :: after)
    (hs : startsNode next = true) (hg : group next after = .ok nodes rest) :
    chainTail linked (t :: ts) = (chainTail true rest).map ((t.image, nodes) :: ·) := by
  have hvalue : (group next after).value = some nodes := by rw [hg]; rfl
  have hrest : (group next after).rest = rest := by rw [hg]; rfl
  have herrors : (group next after).errors = [] := by rw [hg]; rfl
  generalize hall : t :: ts = all
  fun_cases chainTail linked all <;> simp_all [nextNode_cons, Kind.isLink, Reading.after]

/-- What starts a tail or follows it does not go on with the group before. -/
theorem IsTail.notAhead {ts : Toks} {tail : List (String × List Node)} (h : IsTail ts tail)
    {t : Tok} {rest : Toks} (ht : t.kind.endsStatement = true) :
    NotAhead Kind.continuesGroup (ts ++ t :: rest) := by
  cases h with
  | nil =>
    refine notAhead_cons ?_
    cases hk : t.kind <;> simp_all [Kind.endsStatement, Kind.isSeparator, Kind.continuesGroup,
      Kind.continuesNode]
  | @link link _ _ _ _ _ _ hl _ _ _ =>
    refine notAhead_cons ?_
    cases hk : link.kind <;> simp_all [Kind.isLink, Kind.continuesGroup, Kind.continuesNode]

theorem chainTail_read {ts : Toks} {tail : List (String × List Node)} (h : IsTail ts tail)
    (linked : Bool) {t : Tok} {rest : Toks} (ht : t.kind.endsStatement = true) :
    chainTail linked (ts ++ t :: rest) = .ok tail (t :: rest) := by
  induction h generalizing linked with
  | nil => exact chainTail_end linked ht rest
  | @link link x _ z label nodes tail hl he hg htail ih =>
    obtain ⟨next, y, rfl, hnext, hread⟩ := group_read hg
    have hskip : skipEdgeLabel (x ++ next :: (y ++ (z ++ t :: rest))) =
        next :: (y ++ (z ++ t :: rest)) := by
      rw [skipEdgeLabel_eq, takeOptional_append he]
      refine notAhead_cons ?_
      rcases startsNode_iff.mp hnext with hk | ⟨hk, -⟩ <;> simp [hk]
    have hlater := chainTail_link linked hl hskip hnext (hread _ (htail.notAhead ht))
    simp only [List.cons_append, List.append_assoc, hlater, ih true]
    rfl

/-- A chain is read back as what it stands for. -/
theorem chain_read {ts : Toks} {c : Chain} (h : IsChain ts c) :
    ∃ id x, ts = id :: x ∧ id.kind = .ident ∧
      ∀ t rest, t.kind.endsStatement = true → chain id (x ++ t :: rest) = .ok c (t :: rest) := by
  cases h with
  | @chain id x y first tail hid hg ht =>
    obtain ⟨_, _, hx, -, hread⟩ := group_read hg
    cases hx
    refine ⟨id, x ++ y, rfl, hid, ?_⟩
    intro t rest hend
    have hgroup := hread (y ++ t :: rest) (ht.notAhead hend)
    have htail : chainTail false (y ++ t :: rest) = .ok tail (t :: rest) :=
      chainTail_read ht false hend
    simp [chain, hgroup, Reading.andThen, Reading.ok, Reading.after, Reading.map, htail]

end DiagramLint.Flowchart
