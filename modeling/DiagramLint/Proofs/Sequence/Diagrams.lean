-- The grammar of sequence diagrams, and its parser: it reports nothing exactly
-- on the diagrams of the grammar, and then returns the diagram the tokens
-- stand for, with its blocks and their branches.
import DiagramLint.Sequence.Parser
import DiagramLint.Proofs.Parsing.Derivations
import DiagramLint.Proofs.Parsing.Nested
import DiagramLint.Proofs.Parsing.Within

namespace DiagramLint.Sequence

/-! ## The grammar -/

/-- The text of a message, with the colon before it. -/
inductive IsMessageText : Toks → Option String → Prop where
  | absent : IsMessageText [] none
  | present {colon : Tok} {x : Toks} {text : Option String} (hc : colon.kind = .colon)
    (hx : Optionally (· == .text) x text) : IsMessageText (colon :: x) text

/-- A message: a sender, an arrow, a receiver and a text. -/
inductive IsMessage : Toks → Message → Prop where
  | message {sender arrow receiver : Tok} {x y : Toks} {sign text : Option String}
    (hs : sender.kind = .ident) (ha : arrow.kind.isArrow = true)
    (hx : Optionally (· == .activation) x sign) (hr : receiver.kind = .ident)
    (hy : IsMessageText y text) :
    IsMessage (sender :: arrow :: (x ++ receiver :: y))
      { sender := sender.image, receiver := receiver.image, arrow := arrow.image,
        line := sender.line, text }

/-- The keywords with a statement form of their own. -/
def formKeywords : List String :=
  blockKeywords ++ ["end", "else", "and", "option", "participant", "actor", "activate",
    "deactivate", "note"]

/-- A statement that leaves the blocks as they are. -/
inductive IsSimple : Toks → Statement → Prop where
  | participant {word text : Tok} (hk : word.kind = .keyword)
    (hi : word.image = "participant" ∨ word.image = "actor") (ht : text.kind = .text) :
    IsSimple [word, text] (.participant word.line word.image (firstName text.image))
  | activation {word target : Tok} (hk : word.kind = .keyword)
    (hi : word.image = "activate" ∨ word.image = "deactivate") (ht : target.kind = .ident) :
    IsSimple [word, target] (.activation word.line (word.image == "activate") target.image)
  | note {word text : Tok} (hk : word.kind = .keyword) (hi : word.image = "note")
    (ht : text.kind = .text) : IsSimple [word, text] (.note word.line)
  | directive {word : Tok} {x : Toks} {text : Option String} (hk : word.kind = .keyword)
    (hi : word.image ∉ formKeywords) (hx : Optionally (· == .text) x text) :
    IsSimple (word :: x) (.directive word.line word.image)
  | message {x : Toks} {m : Message} (h : IsMessage x m) : IsSimple x (.message m)

/-- The statements of a diagram, or those of a block with the given keyword, and the lines of the
branches of that block. Line ends stand anywhere between statements, and a line end or the end of
the text behind each. -/
inductive IsBody : Option String → Toks → List Nat → List Statement → Prop where
  | nil (around : Option String) : IsBody around [] [] []
  | gap {around : Option String} {t : Tok} {ts : Toks} {lines : List Nat} {ss : List Statement}
    (ht : t.kind.endsLine = true) (h : IsBody around ts lines ss) : IsBody around (t :: ts) lines ss
  | simple {around : Option String} {x ts : Toks} {t : Tok} {s : Statement} {lines : List Nat}
    {ss : List Statement} (hx : IsSimple x s) (ht : t.kind.endsLine = true)
    (h : IsBody around ts lines ss) : IsBody around (x ++ t :: ts) lines (s :: ss)
  | branch {parent : String} {word t : Tok} {x ts : Toks} {text : Option String}
    {lines : List Nat} {ss : List Statement} (hk : word.kind = .keyword)
    (hi : branchParent? word.image = some parent) (hx : Optionally (· == .text) x text)
    (ht : t.kind.endsLine = true) (h : IsBody (some parent) ts lines ss) :
    IsBody (some parent) (word :: (x ++ t :: ts)) (word.line :: lines) ss
  | block {around : Option String} {first t last t' : Tok} {x inner ts : Toks}
    {label : Option String} {branches lines : List Nat} {body ss : List Statement}
    (hf : first.kind = .keyword) (hfi : first.image ∈ blockKeywords)
    (hx : Optionally (· == .text) x label) (ht : t.kind.endsLine = true)
    (hb : IsBody (some first.image) inner branches body) (hl : last.kind = .keyword)
    (hli : last.image = "end") (ht' : t'.kind.endsLine = true) (h : IsBody around ts lines ss) :
    IsBody around (first :: (x ++ t :: (inner ++ last :: t' :: ts))) lines
      (.block { keyword := first.image, place := first.place, label, branches } body :: ss)

/-- A sequence diagram: a header and its statements, the first of them on the line of the header
or below. -/
inductive IsDiagram : Toks → Diagram → Prop where
  | diagram {gap ts : Toks} {header : Tok} {lines : List Nat} {ss : List Statement}
    (hg : ∀ t ∈ gap, t.kind = .newline) (hh : header.kind = .header)
    (hb : IsBody none ts lines ss) : IsDiagram (gap ++ header :: ts) ⟨header.line, ss⟩

/-- One statement and what it does to the nesting of blocks. -/
inductive IsLine : Toks → Event → Prop where
  | opened {word : Tok} {x : Toks} {label : Option String} (hk : word.kind = .keyword)
    (hi : word.image ∈ blockKeywords) (hx : Optionally (· == .text) x label) :
    IsLine (word :: x) (.opened { keyword := word.image, place := word.place, label })
  | closed {word : Tok} (hk : word.kind = .keyword) (hi : word.image = "end") :
    IsLine [word] (.closed (.endWithoutBlock word.place))
  | branched {word : Tok} {x : Toks} {text : Option String} {parent : String}
    (hk : word.kind = .keyword) (hi : branchParent? word.image = some parent)
    (hx : Optionally (· == .text) x text) : IsLine (word :: x) (branch word parent)
  | placed {x : Toks} {s : Statement} (h : IsSimple x s) : IsLine x (.placed s)

/-! ## What a reader takes -/

theorem trailing_eq (ts : Toks) : trailing ts = takeOptional (· == .text) ts := by
  cases ts with
  | nil => rfl
  | cons t rest => simp only [trailing, takeOptional, beq_iff_eq]

theorem skipActivation_eq (ts : Toks) :
    skipActivation ts = (takeOptional (· == .activation) ts).2 := by
  cases ts with
  | nil => rfl
  | cons t rest =>
    simp only [skipActivation, takeOptional, beq_iff_eq]
    split <;> rfl

/-- The tokens behind a statement: a line end or the end of the text comes first. -/
abbrev StatementEnd : Toks → Prop := LineEnd .eof Kind.endsLine

theorem trailing_derives {ts : Toks} (h : Terminated .eof ts) :
    Terminated .eof (trailing ts).2 ∧
      ∃ x, ts = x ++ (trailing ts).2 ∧ Optionally (· == Kind.text) x (trailing ts).1 := by
  rw [trailing_eq]
  exact ⟨takeOptional_terminated h rfl, takeOptional_derives _ ts⟩

theorem trailing_some {ts : Toks} {text : String} {rest : Toks}
    (h : trailing ts = (some text, rest)) : ∃ t, ts = t :: rest ∧ t.kind = .text ∧ t.image = text := by
  unfold trailing at h
  split at h
  · rename_i t later
    split at h
    · rename_i hk
      cases h
      exact ⟨t, rfl, hk, rfl⟩
    · cases h
  · cases h

/-- A keyword that needs a text behind it. -/
theorem needText_derives {α : Type} {D : Toks → α → Prop} (f : String → α) (expected : String)
    {ts : Toks} (h : Terminated .eof ts) (hd : ∀ t : Tok, t.kind = .text → D [t] (f t.image)) :
    (match trailing ts with
      | (some text, rest) => .ok (f text) rest
      | (none, _) => refuse expected ts : Read α).Derives D (Terminated .eof) ts := by
  split
  · rename_i text rest htrail
    obtain ⟨t, rfl, hk, rfl⟩ := trailing_some htrail
    exact Reading.derives_ok (x := [t]) rfl (hd t hk) (h.tail (by simp [hk]))
  · exact refuse_derives expected h _

/-- A keyword that needs a participant behind it. -/
theorem needIdent_derives {α : Type} {D : Toks → α → Prop} (f : Tok → α) (expected : String)
    {ts : Toks} (hd : ∀ t : Tok, t.kind = .ident → D [t] (f t)) :
    Terminated .eof ts →
      (match ts with
        | target :: rest =>
          if target.kind = .ident then .ok (f target) rest else refuse expected ts
        | [] => refuse expected [] : Read α).Derives D (Terminated .eof) ts := by
  intro h
  obtain ⟨t, rest, rfl⟩ := h.exists_cons
  simp only
  split
  · rename_i hk
    exact Reading.derives_ok (x := [t]) rfl (hd t hk) (h.tail (by simp [hk]))
  · exact refuse_derives expected h _

theorem branchParent?_eq_none {word : String} :
    branchParent? word = none ↔ word ≠ "else" ∧ word ≠ "and" ∧ word ≠ "option" := by
  unfold branchParent?
  split <;> simp_all

theorem declaration_derives {t : Tok} (ht : t.kind = .keyword)
    (hi : t.image ∉ blockKeywords) (hend : t.image ≠ "end") (hb : branchParent? t.image = none)
    {ts : Toks} (h : Terminated .eof ts) :
    (declaration t ts).Derives (fun x => IsSimple (t :: x)) (Terminated .eof) ts := by
  unfold declaration
  split
  · rename_i hw
    exact needText_derives _ _ h fun _ => .participant ht (.inl hw)
  · rename_i hw
    exact needText_derives _ _ h fun _ => .participant ht (.inr hw)
  · rename_i hw
    exact needIdent_derives _ _ (fun _ => .activation ht (.inl hw)) h
  · rename_i hw
    exact needIdent_derives _ _ (fun _ => .activation ht (.inr hw)) h
  · rename_i hw
    exact needText_derives _ _ h fun _ => .note ht hw
  · rename_i h1 h2 h3 h4 h5
    obtain ⟨hrest, x, hx, htext⟩ := trailing_derives h
    refine Reading.derives_ok hx (.directive ht ?_ htext) hrest
    obtain ⟨b1, b2, b3⟩ := branchParent?_eq_none.mp hb
    simp only [formKeywords, List.mem_append, List.mem_cons, List.not_mem_nil, or_false, not_or]
    exact ⟨hi, hend, b1, b2, b3, h1, h2, h3, h4, h5⟩

theorem keywordStatement_derives {t : Tok} (ht : t.kind = .keyword) {ts : Toks}
    (h : Terminated .eof ts) :
    (keywordStatement t ts).Derives (fun x => IsLine (t :: x)) (Terminated .eof) ts := by
  obtain ⟨hrest, x, hx, htext⟩ := trailing_derives h
  unfold keywordStatement
  split
  · rename_i hi
    exact Reading.derives_ok hx (.opened ht (List.contains_iff_mem.mp hi) htext) hrest
  · rename_i hi
    split
    · rename_i hend
      exact Reading.derives_ok (x := []) rfl (.closed ht hend) h
    · rename_i hend
      split
      · rename_i parent hb
        exact Reading.derives_ok hx (.branched ht hb htext) hrest
      · rename_i hb
        have hblock : t.image ∉ blockKeywords := fun hm => hi (List.contains_iff_mem.mpr hm)
        refine (declaration_derives ht hblock hend hb h).map _ ?_
        intro x s hs
        exact .placed hs

theorem messageText_derives (receiver : Tok) {ts : Toks} (h : Terminated .eof ts) :
    (messageText receiver ts).Derives IsMessageText (Terminated .eof) ts := by
  obtain ⟨t, ts, rfl⟩ := h.exists_cons
  simp only [messageText]
  split
  · rename_i hk
    obtain ⟨hrest, x, hx, htext⟩ := trailing_derives (h.tail (by simp [hk]))
    exact Reading.derives_ok (congrArg (t :: ·) hx) (.present hk htext) hrest
  · split
    · exact Reading.derives_ok (x := []) rfl .absent h
    · exact Reading.derives_of_errors (by simp)

theorem withoutArrow_derives {D : Toks → Message → Prop} {F : Toks → Prop} (sender : Tok)
    {ts rest : Toks} (h : Terminated .eof rest) : (withoutArrow sender rest).Derives D F ts := by
  unfold withoutArrow
  split
  · exact Reading.derives_of_errors (by simp [Reading.fail])
  · exact refuse_derives _ h _

theorem message_derives {sender : Tok} (hs : sender.kind = .ident) {ts : Toks}
    (h : Terminated .eof ts) :
    (message sender ts).Derives (fun x => IsMessage (sender :: x)) (Terminated .eof) ts := by
  obtain ⟨arrow, ts, rfl⟩ := h.exists_cons
  simp only [message]
  split
  · rename_i ha
    have hrest : Terminated .eof ts := h.tail (by intro hk; simp [hk, Kind.isArrow] at ha)
    obtain ⟨x, hx, hsign⟩ := takeOptional_derives (· == Kind.activation) ts
    have hafter := takeOptional_terminated (p := (· == Kind.activation)) hrest rfl
    rw [← skipActivation_eq] at hx hafter
    obtain ⟨receiver, later, hcons⟩ := hafter.exists_cons
    rw [hcons] at hx hafter ⊢
    simp only
    split
    · rename_i hr
      have hts : arrow :: ts = (arrow :: (x ++ [receiver])) ++ later := by simp [hx]
      rw [hts]
      refine Reading.Derives.prepend _ ?_
      refine (messageText_derives receiver (hafter.tail (by simp [hr]))).map _ ?_
      intro y text htext
      simpa using IsMessage.message hs ha hsign hr htext
    · exact refuse_derives _ hafter _
  · exact withoutArrow_derives sender h

theorem endLine_derives {α : Type} {D : Toks → α → Prop} {r : Read α} {ts : Toks}
    (h : r.Derives D (Terminated .eof) ts) : (endLine r).Derives D StatementEnd ts := by
  unfold endLine
  split
  · rename_i hends
    intro he
    obtain ⟨x, a, hx, hv, hd, hrest⟩ := h he
    obtain ⟨t, rest, hcons⟩ := hrest.exists_cons
    refine ⟨x, a, hx, hv, hd, hrest, ?_⟩
    intro t' ht'
    rw [hcons] at ht' hends
    cases ht'
    exact hends
  · intro he
    obtain ⟨hown, hmore⟩ := List.append_eq_nil_iff.mp he
    obtain ⟨-, -, -, -, -, hrest⟩ := h hown
    obtain ⟨t, rest, hcons⟩ := hrest.exists_cons
    rw [hcons] at hmore
    cases hmore

/-- Every token but a line end starts a statement. -/
theorem statement_derives {t : Tok} (ht : t.kind ≠ .newline) {ts : Toks} (h : Terminated .eof ts) :
    (statement t ts).Derives (fun x => IsLine (t :: x)) StatementEnd ts := by
  unfold statement
  split
  · rename_i hk
    exact absurd hk ht
  · rename_i hk
    exact endLine_derives (keywordStatement_derives hk h)
  · rename_i hk
    refine endLine_derives ((message_derives hk h).map _ ?_)
    intro x m hm
    exact .placed (.message hm)
  · refine endLine_derives (Reading.derives_of_errors ?_)
    simp [Reading.fail, unexpected]

/-! ## What a reader gives back -/

theorem trailing_read {x : Toks} {text : Option String} (h : Optionally (· == Kind.text) x text)
    {t : Tok} (ht : t.kind.endsLine = true) (rest : Toks) :
    trailing (x ++ t :: rest) = (text, t :: rest) := by
  rw [trailing_eq]
  refine takeOptional_append h (notAhead_cons ?_)
  cases hk : t.kind <;> simp_all [Kind.endsLine]

theorem endLine_read {α : Type} (a : α) {t : Tok} (ht : t.kind.endsLine = true) (rest : Toks) :
    endLine (.ok a (t :: rest) : Read α) = .ok a (t :: rest) :=
  endLine_of_ends ht

theorem messageText_read {x : Toks} {text : Option String} (h : IsMessageText x text)
    (receiver : Tok) {t : Tok} (ht : t.kind.endsLine = true) (rest : Toks) :
    messageText receiver (x ++ t :: rest) = .ok text (t :: rest) := by
  cases h with
  | absent =>
    have hk : t.kind ≠ .colon := by
      intro hk
      simp [hk, Kind.endsLine] at ht
    simp [messageText, hk, ht]
  | present hc hx => simp [messageText, hc, trailing_read hx ht]

theorem message_read {ts : Toks} {m : Message} (h : IsMessage ts m) :
    ∃ sender x, ts = sender :: x ∧ sender.kind = .ident ∧
      ∀ t rest, t.kind.endsLine = true → message sender (x ++ t :: rest) = .ok m (t :: rest) := by
  cases h with
  | @message sender arrow receiver x y sign text hs ha hx hr hy =>
    refine ⟨sender, arrow :: (x ++ receiver :: y), rfl, hs, ?_⟩
    intro t rest ht
    have hskip : skipActivation (x ++ receiver :: (y ++ t :: rest)) =
        receiver :: (y ++ t :: rest) := by
      rw [skipActivation_eq, takeOptional_append hx (notAhead_cons (by simp [hr]))]
    simp [message, ha, hskip, hr, messageText_read hy receiver ht, Reading.map, Reading.ok]

theorem keywordStatement_simple {t : Tok} (h : t.image ∉ blockKeywords) (hend : t.image ≠ "end")
    (hb : branchParent? t.image = none) (ts : Toks) :
    keywordStatement t ts = (declaration t ts).map .placed := by
  simp [keywordStatement, h, hend, hb]

theorem endsLine_of_keyword {t : Tok} (h : t.kind = .keyword) : t.kind.endsLine = false := by
  simp [h, Kind.endsLine]

theorem simple_read {ts : Toks} {s : Statement} (h : IsSimple ts s) :
    ∃ t x, ts = t :: x ∧ t.kind.endsLine = false ∧
      ∀ t' rest, t'.kind.endsLine = true →
        statement t (x ++ t' :: rest) = .ok (.placed s) (t' :: rest) := by
  cases h with
  | @participant word text hk hi ht =>
    refine ⟨word, [text], rfl, endsLine_of_keyword hk, ?_⟩
    intro t' rest ht'
    have hread : keywordStatement word (text :: t' :: rest) =
        .ok (.placed (.participant word.line word.image (firstName text.image))) (t' :: rest) := by
      rcases hi with hi | hi <;>
        simp [keywordStatement_simple, blockKeywords, branchParent?, declaration, hi, trailing, ht,
          Reading.map, Reading.ok]
    simp [statement, hk, hread, endLine_read _ ht']
  | @activation word target hk hi ht =>
    refine ⟨word, [target], rfl, endsLine_of_keyword hk, ?_⟩
    intro t' rest ht'
    have hread : keywordStatement word (target :: t' :: rest) =
        .ok (.placed (.activation word.line (word.image == "activate") target.image))
          (t' :: rest) := by
      rcases hi with hi | hi <;>
        simp [keywordStatement_simple, blockKeywords, branchParent?, declaration, hi, ht,
          Reading.map, Reading.ok]
    simp [statement, hk, hread, endLine_read _ ht']
  | @note word text hk hi ht =>
    refine ⟨word, [text], rfl, endsLine_of_keyword hk, ?_⟩
    intro t' rest ht'
    have hread : keywordStatement word (text :: t' :: rest) =
        .ok (.placed (.note word.line)) (t' :: rest) := by
      simp [keywordStatement_simple, blockKeywords, branchParent?, declaration, hi, trailing, ht,
        Reading.map, Reading.ok]
    simp [statement, hk, hread, endLine_read _ ht']
  | @directive word x text hk hi hx =>
    refine ⟨word, x, rfl, endsLine_of_keyword hk, ?_⟩
    intro t' rest ht'
    simp only [formKeywords, List.mem_append, List.mem_cons, List.not_mem_nil, or_false,
      not_or] at hi
    obtain ⟨hblock, hend, b1, b2, b3, hi⟩ := hi
    have hread : keywordStatement word (x ++ t' :: rest) =
        .ok (.placed (.directive word.line word.image)) (t' :: rest) := by
      rw [keywordStatement_simple hblock hend (branchParent?_eq_none.mpr ⟨b1, b2, b3⟩)]
      simp [declaration, hi, trailing_read hx ht', Reading.map, Reading.ok]
    simp [statement, hk, hread, endLine_read _ ht']
  | @message _ m hm =>
    obtain ⟨sender, x, rfl, hs, hread⟩ := message_read hm
    refine ⟨sender, x, rfl, by simp [hs, Kind.endsLine], ?_⟩
    intro t' rest ht'
    have hplaced := endLine_read (BlockEvent.placed (Statement.message m) : Event) ht' rest
    simp only [statement, hs, hread t' rest ht']
    exact hplaced

theorem not_block_of_branch {word parent : String} (h : branchParent? word = some parent) :
    word ∉ blockKeywords ∧ word ≠ "end" := by
  unfold branchParent? at h
  split at h
  · decide
  · decide
  · decide
  · cases h

theorem statement_read {ts : Toks} {event : Event} (h : IsLine ts event) :
    ∃ t x, ts = t :: x ∧ t.kind.endsLine = false ∧
      ∀ t' rest, t'.kind.endsLine = true →
        statement t (x ++ t' :: rest) = .ok event (t' :: rest) := by
  cases h with
  | @opened word x label hk hi hx =>
    refine ⟨word, x, rfl, endsLine_of_keyword hk, ?_⟩
    intro t' rest ht'
    simp [statement, hk, keywordStatement, hi, trailing_read hx ht', endLine_read _ ht']
  | @closed word hk hi =>
    refine ⟨word, [], rfl, endsLine_of_keyword hk, ?_⟩
    intro t' rest ht'
    simp [statement, hk, keywordStatement, hi, blockKeywords, endLine_read _ ht']
  | @branched word x text parent hk hi hx =>
    refine ⟨word, x, rfl, endsLine_of_keyword hk, ?_⟩
    intro t' rest ht'
    obtain ⟨hblock, hend⟩ := not_block_of_branch hi
    simp [statement, hk, keywordStatement, hblock, hend, hi, trailing_read hx ht',
      endLine_read _ ht']
  | placed hs => exact simple_read hs

/-! ## All statements -/

/-- The statements of a diagram, one after the other. -/
abbrev AreLines : Toks → List Event → Prop := Lines Kind.endsLine IsLine

theorem line_start {x : Toks} {event : Event} (h : IsLine x event) :
    ∃ t y, x = t :: y ∧ t.kind.endsLine = false := by
  obtain ⟨t, y, hx, ht, -⟩ := statement_read h
  exact ⟨t, y, hx, ht⟩

theorem statements_cons {t : Tok} (ht : t.kind ≠ .eof) (ts : Toks) :
    statements (t :: ts) =
      (((statement t ts).value, (statement t ts).errors) :: (statements (statement t ts).rest).1,
        (statements (statement t ts).rest).2) := by
  rw [statements, if_neg ht]

theorem statements_eof {t : Tok} (ht : t.kind = .eof) (ts : Toks) :
    statements (t :: ts) = ([], t :: ts) := by
  rw [statements, if_pos ht]

theorem statements_newline {t : Tok} (ht : t.kind = .newline) (ts : Toks) :
    statements (t :: ts) = ((none, []) :: (statements ts).1, (statements ts).2) := by
  rw [statements_cons (by simp [ht])]
  simp [statement, ht, Reading.fail]

/-- Without errors the statements reach the end of the text. -/
theorem statements_lines {ts : Toks} (h : Terminated .eof ts)
    (he : ∀ item ∈ (statements ts).1, item.2 = []) :
    AreLines ts ((statements ts).1.filterMap (·.1)) ∧ (statements ts).2 ≠ [] := by
  fun_induction statements ts with
  | case1 => exact absurd rfl h.ne_nil
  | case2 t rest hk =>
    have hrest := h.eq_nil hk
    subst hrest
    exact ⟨.gap (by simp [hk, Kind.endsLine]) .nil, by simp⟩
  | case3 t rest hk later left hs ih =>
    rw [hs] at ih
    have hrest := h.tail hk
    have hlater : ∀ item ∈ later, item.2 = [] := fun item hm => he item (List.mem_cons_of_mem _ hm)
    by_cases hn : t.kind = .newline
    · have hskip : statement t rest = .fail [] rest := by simp [statement, hn]
      rw [hskip] at ih ⊢
      obtain ⟨hlines, hleft⟩ := ih hrest hlater
      exact ⟨.gap (by simp [hn, Kind.endsLine]) hlines, hleft⟩
    · have hown : (statement t rest).errors = [] := he _ List.mem_cons_self
      obtain ⟨x, event, hx, hv, hline, hend⟩ := statement_derives hn hrest hown
      obtain ⟨hlines, hleft⟩ := ih hend.terminated hlater
      obtain ⟨t', rest', hcons, ht'⟩ := hend.exists_cons
      rw [hcons] at hx hlines
      have hts : t :: rest = (t :: x) ++ t' :: rest' := congrArg (t :: ·) hx
      refine ⟨?_, hleft⟩
      rw [hts, List.filterMap_cons, hv]
      exact .line hline ht' (hlines.of_gap ht' fun _ _ => line_start)

/-- What the statements of a run of lines are: one item for each line, none of them with an error,
and items without an event for the line ends. -/
structure Items (items : List (Option Event × List ParseError)) (es : List Event) : Prop where
  errors : ∀ item ∈ items, item.2 = []
  events : items.filterMap (·.1) = es

theorem statements_end {t : Tok} {ts : Toks} {es : List Event} (ht : t.kind.endsLine = true)
    (h : Terminated .eof (t :: ts)) (hl : AreLines ts es)
    (ih : Terminated .eof ts → Items (statements ts).1 es) : Items (statements (t :: ts)).1 es := by
  by_cases hk : t.kind = .eof
  · have hts := h.eq_nil hk
    subst hts
    rw [hl.eq_nil, statements_eof hk]
    exact ⟨by simp, rfl⟩
  · have hn : t.kind = .newline := by simpa [Kind.endsLine, hk] using ht
    obtain ⟨herrors, hevents⟩ := ih (h.tail hk)
    rw [statements_newline hn]
    exact ⟨by simpa using herrors, by simpa using hevents⟩

theorem statements_read {ts : Toks} {es : List Event} (h : AreLines ts es)
    (ht : Terminated .eof ts) : Items (statements ts).1 es := by
  induction h with
  | nil => exact absurd rfl ht.ne_nil
  | gap hend hl ih => exact statements_end hend ht hl ih
  | line hx hend hl ih =>
    obtain ⟨t, x, rfl, hstart, hread⟩ := statement_read hx
    obtain ⟨herrors, hevents⟩ := statements_end hend ht.of_append hl ih
    have heof : t.kind ≠ .eof := by
      intro hk
      simp [hk, Kind.endsLine] at hstart
    rw [List.cons_append, statements_cons heof, hread _ _ hend]
    exact ⟨by simpa [Reading.ok] using herrors, by simpa [Reading.ok] using hevents⟩

/-! ## Blocks -/

/-- A block head with more branches. -/
def BlockHead.branching (head : BlockHead) (lines : List Nat) : BlockHead :=
  { head with branches := head.branches ++ lines }

theorem map_branching_nil (around : Option BlockHead) : around.map (·.branching []) = around := by
  cases around <;> simp [BlockHead.branching]

theorem IsBody.gaps {around : Option String} {gap ts : Toks} {lines : List Nat}
    {ss : List Statement} (hg : ∀ t ∈ gap, t.kind.endsLine = true)
    (h : IsBody around ts lines ss) : IsBody around (gap ++ ts) lines ss := by
  induction gap with
  | nil => exact h
  | cons t gap ih =>
    exact .gap (hg t List.mem_cons_self) (ih fun t hm => hg t (List.mem_cons_of_mem _ hm))

theorem body_of_nested {around after : Option BlockHead} {es : List Event} {ss : List Statement}
    (h : Nested Statement.block around es after ss) {ts : Toks} (hl : AreLines ts es) :
    ∃ lines, after = around.map (·.branching lines) ∧
      IsBody (around.map (·.keyword)) ts lines ss := by
  induction h generalizing ts with
  | nil around =>
    have hbody := (IsBody.nil (around.map (·.keyword))).gaps hl.of_nil
    rw [List.append_nil] at hbody
    exact ⟨[], (map_branching_nil around).symm, hbody⟩
  | placed s _ ih =>
    obtain ⟨gap, x, t, rest, rfl, hgap, hx, ht, hrest⟩ := hl.exists_of_cons
    obtain ⟨lines, hafter, hbody⟩ := ih hrest
    cases hx with
    | placed hs => exact ⟨lines, hafter, (IsBody.simple hs ht hbody).gaps hgap⟩
  | @branched block changed after events later change outside hc _ ih =>
    obtain ⟨gap, x, t, rest, rfl, hgap, hx, ht, hrest⟩ := hl.exists_of_cons
    obtain ⟨lines, hafter, hbody⟩ := ih hrest
    cases hx with
    | @branched word x text parent hk hi hx =>
      simp only [Option.ite_none_right_eq_some, Option.some.injEq] at hc
      obtain ⟨rfl, rfl⟩ := hc
      refine ⟨word.line :: lines, ?_, (IsBody.branch hk hi hx ht hbody).gaps hgap⟩
      simpa [BlockHead.branching] using hafter
  | block u _ _ ihi ih =>
    obtain ⟨gap, x, t, rest, rfl, hgap, hx, ht, hrest⟩ := hl.exists_of_cons
    obtain ⟨inside, y, t', later, rfl, hinside, hy, ht', hlater⟩ := hrest.exists_of_append
    obtain ⟨branches, hended, hinner⟩ := ihi hinside
    obtain ⟨lines, hafter, hbody⟩ := ih hlater
    cases hended
    refine ⟨lines, hafter, ?_⟩
    cases hx with
    | opened hk hi hx =>
      cases hy with
      | closed hk' hi' => exact (IsBody.block hk hi hx ht hinner hk' hi' ht' hbody).gaps hgap

theorem nested_of_body {keyword : Option String} {ts : Toks} {lines : List Nat}
    {ss : List Statement} (h : IsBody keyword ts lines ss) :
    ∃ es, AreLines ts es ∧ ∀ around : Option BlockHead, around.map (·.keyword) = keyword →
      Nested Statement.block around es (around.map (·.branching lines)) ss := by
  induction h with
  | nil =>
    refine ⟨[], .nil, ?_⟩
    intro around _
    rw [map_branching_nil]
    exact .nil around
  | gap ht _ ih =>
    obtain ⟨es, hl, hn⟩ := ih
    exact ⟨es, .gap ht hl, hn⟩
  | @simple _ x ts t s _ ss hx ht _ ih =>
    obtain ⟨es, hl, hn⟩ := ih
    exact ⟨.placed s :: es, .line (.placed hx) ht hl, fun around ha => .placed s (hn around ha)⟩
  | @branch parent word _ _ _ _ _ _ hk hi hx ht _ ih =>
    obtain ⟨es, hl, hn⟩ := ih
    refine ⟨_, .line (.branched hk hi hx) ht hl, ?_⟩
    intro around ha
    obtain ⟨head, rfl, hp⟩ := Option.map_eq_some_iff.mp ha
    have hlater := hn (some (head.branching [word.line])) (congrArg some hp)
    refine .branched _ (if_pos hp) ?_
    simpa [BlockHead.branching] using hlater
  | block hf hfi hx ht _ hl hli ht' _ ihb ih =>
    obtain ⟨inside, hinside, hni⟩ := ihb
    obtain ⟨es, hes, hn⟩ := ih
    refine ⟨_, .line (.opened hf hfi hx) ht (hinside.append (.line (.closed hl hli) ht' hes)), ?_⟩
    intro around ha
    exact .block _ (hni _ rfl) (hn around ha)

/-- The statements bring no error and close every block exactly when they are those of a
diagram; they then reach the end of the text. -/
theorem run_statements_iff {ts : Toks} (h : Terminated .eof ts) {ss : List Statement} :
    Nesting.run Statement.block {} (statements ts).1 = (⟨ss, []⟩, []) ↔
      ∃ lines, IsBody none ts lines ss := by
  rw [Nesting.run_eq_iff_nested]
  constructor
  · rintro ⟨he, hn⟩
    obtain ⟨lines, -, hbody⟩ := body_of_nested hn (statements_lines h he).1
    exact ⟨lines, hbody⟩
  · rintro ⟨lines, hb⟩
    obtain ⟨es, hl, hn⟩ := nested_of_body hb
    obtain ⟨herrors, hevents⟩ := statements_read hl h
    rw [hevents]
    exact ⟨herrors, hn none rfl⟩

/-! ## Diagrams -/

theorem unclosed_eq_nil {blocks : List (BlockHead × List Statement)} {left : Toks}
    (hl : left ≠ []) (h : unclosed blocks left = []) : blocks = [] := by
  cases left with
  | nil => exact absurd rfl hl
  | cons eof left => exact List.map_eq_nil_iff.mp h

theorem parse_of_header {ts rest : Toks} {header : Tok}
    (hs : ts.dropWhile (·.kind == .newline) = header :: rest) (hh : header.kind = .header) :
    parse ts =
      let n := Nesting.run Statement.block {} (statements rest).1
      { tree := some ⟨header.line, Nesting.unwind Statement.block n.1.current n.1.blocks⟩
        errors := n.2 ++ unclosed n.1.blocks (statements rest).2 } := by
  simp [parse, hs, hh]

theorem diagram_of_parse {ts : Toks} (h : Terminated .eof ts) (he : (parse ts).errors = []) :
    ∃ diagram, IsDiagram ts diagram := by
  have hts : ts = ts.takeWhile (·.kind == .newline) ++ ts.dropWhile (·.kind == .newline) :=
    List.takeWhile_append_dropWhile.symm
  have hgap : ∀ t ∈ ts.takeWhile (·.kind == .newline), t.kind = .newline := by
    intro t ht
    exact beq_iff_eq.mp (List.all_eq_true.mp List.all_takeWhile t ht)
  obtain ⟨header, rest, hskip⟩ := (h.dropWhile (p := (· == Kind.newline)) rfl).exists_cons
  rw [hskip] at hts
  by_cases hh : header.kind = .header
  · rw [parse_of_header hskip hh] at he
    obtain ⟨hrun, hunclosed⟩ := List.append_eq_nil_iff.mp he
    rw [hts] at h
    have hrest : Terminated .eof rest := h.of_append.tail (by simp [hh])
    have herrors := (Nesting.run_eq_iff_runs.mp (Prod.ext rfl hrun)).1
    have hblocks := unclosed_eq_nil (statements_lines hrest herrors).2 hunclosed
    obtain ⟨lines, hbody⟩ := (run_statements_iff hrest).mp (Nesting.run_eq_of_closed hrun hblocks)
    rw [hts]
    exact ⟨_, .diagram hgap hh hbody⟩
  · simp [parse, hskip, hh, unexpected] at he

theorem parse_of_diagram {ts : Toks} (h : Terminated .eof ts) {diagram : Diagram}
    (hd : IsDiagram ts diagram) : parse ts = ⟨some diagram, []⟩ := by
  cases hd with
  | @diagram gap ts header lines ss hg hh hb =>
    have hskip : (gap ++ header :: ts).dropWhile (·.kind == .newline) = header :: ts := by
      rw [List.dropWhile_append_of_pos (by simpa using hg)]
      exact List.dropWhile_cons_of_neg (by simp [hh])
    have hrun := (run_statements_iff (h.of_append.tail (by simp [hh]))).mpr ⟨lines, hb⟩
    rw [parse_of_header hskip hh]
    cases (statements ts).2 <;> simp [hrun, unclosed, Nesting.unwind]

/-- A sequence diagram whose tokens end in their only end of text is parsed without errors exactly
when the grammar derives it, and then into the diagram that it derives. -/
theorem only_derivable_diagrams_parse_without_errors {ts : Toks} (h : Terminated .eof ts) :
    ((parse ts).errors = [] ↔ ∃ diagram, IsDiagram ts diagram) ∧
      ∀ diagram, IsDiagram ts diagram → (parse ts).tree = some diagram := by
  refine ⟨⟨diagram_of_parse h, ?_⟩, ?_⟩
  · rintro ⟨diagram, hd⟩
    rw [parse_of_diagram h hd]
  · intro diagram hd
    rw [parse_of_diagram h hd]

/-- A diagram with one block, a branch in it and a message in each branch. -/
def blockTokens : Toks :=
  [⟨.header, "sequenceDiagram", 1, 1⟩, ⟨.newline, "\n", 1, 16⟩, ⟨.keyword, "alt", 2, 1⟩,
    ⟨.text, "ok", 2, 5⟩, ⟨.newline, "\n", 2, 7⟩, ⟨.ident, "A", 3, 1⟩, ⟨.arrow, "->>", 3, 2⟩,
    ⟨.activation, "+", 3, 5⟩, ⟨.ident, "B", 3, 6⟩, ⟨.colon, ":", 3, 7⟩, ⟨.text, "hi", 3, 9⟩,
    ⟨.newline, "\n", 3, 11⟩, ⟨.keyword, "else", 4, 1⟩, ⟨.newline, "\n", 4, 5⟩,
    ⟨.ident, "B", 5, 1⟩, ⟨.arrow, "-->>", 5, 2⟩, ⟨.ident, "A", 5, 6⟩, ⟨.newline, "\n", 5, 7⟩,
    ⟨.keyword, "end", 6, 1⟩, ⟨.eof, "", 6, 4⟩]

/-- What these tokens stand for. -/
def blockDiagram : Diagram :=
  ⟨1, [.block { keyword := "alt", place := ⟨2, 1⟩, label := some "ok", branches := [4] }
    [.message { sender := "A", receiver := "B", arrow := "->>", line := 3, text := some "hi" },
      .message { sender := "B", receiver := "A", arrow := "-->>", line := 5, text := none }]]⟩

theorem blockTokens_derivable : IsDiagram blockTokens blockDiagram := by
  refine @IsDiagram.diagram [] _ _ [] _ (by simp) rfl (.gap rfl ?_)
  refine @IsBody.block _ _ _ _ _ [_] [_, _, _, _, _, _, _, _, _, _, _, _, _] _ _ _ _ _ _ rfl
    (by decide) (.present _ rfl) rfl ?_ rfl rfl rfl (.nil _)
  refine .simple (x := [_, _, _, _, _, _]) (.message ?_) rfl ?_
  · exact .message (x := [_]) (y := [_, _]) rfl rfl (.present _ rfl) rfl
      (.present rfl (.present _ rfl))
  · refine .branch (x := []) rfl rfl .absent rfl ?_
    refine .simple (x := [_, _, _]) (.message ?_) rfl (.nil _)
    exact .message (x := []) (y := []) rfl rfl .absent rfl .absent

theorem blockTokens_parse_without_errors :
    Terminated .eof blockTokens ∧ (parse blockTokens).errors = [] ∧
      (parse blockTokens).tree = some blockDiagram := by
  have hend : Terminated .eof blockTokens :=
    ⟨blockTokens.dropLast, ⟨.eof, "", 6, 4⟩, rfl, rfl, by decide⟩
  obtain ⟨herrors, htree⟩ := only_derivable_diagrams_parse_without_errors hend
  exact ⟨hend, herrors.mpr ⟨_, blockTokens_derivable⟩, htree _ blockTokens_derivable⟩

end DiagramLint.Sequence
