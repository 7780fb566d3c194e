-- What the rows of a sequence diagram do to its blocks. A row is read
-- without an error or not, and opens, closes or continues a block, by its own
-- tokens. So a diagram in which only ends are missing is one whose rows are
-- fine each and run through, and the ends missing are the blocks then open.
import Mathlib.Data.List.Forall2
import DiagramLint.Proofs.Parsing.Moves
import DiagramLint.Proofs.Sequence.Blocks
import DiagramLint.Proofs.Sequence.Pages

namespace DiagramLint.Sequence

/-! ## Moves of rows and of events -/

/-- What a line that starts with a keyword does to the blocks around it. -/
def wordMove (word : String) : BlockMove :=
  if blockKeywords.contains word then .opens word
  else if word = "end" then .closes
  else
    match branchParent? word with
    | some parent => .branches parent
    | none => .stays

/-- What a line does to the blocks around it, by its first token. -/
def shapeMove : List (Kind × String) → BlockMove
  | (.keyword, word) :: _ => wordMove word
  | _ => .stays

/-- What a line below the header does to the blocks around it. -/
def lineMove (line : Text) : BlockMove := shapeMove (rowShapes none line)

/-- What an event does to the blocks around it. -/
def eventMove : Event → BlockMove
  | .opened head => .opens head.keyword
  | .closed _ => .closes
  | .branched _ (.branchOutsideBlock _ _ parent) => .branches parent
  | _ => .stays

theorem wordMove_branch {word parent : String} (h : branchParent? word = some parent) :
    wordMove word = .branches parent := by
  obtain ⟨hblock, hend⟩ := not_block_of_branch h
  rw [wordMove, if_neg (by simpa using hblock), if_neg hend, h]

theorem wordMove_of_not_form {word : String} (h : word ∉ formKeywords) : wordMove word = .stays := by
  simp only [formKeywords, List.mem_append, List.mem_cons, List.not_mem_nil, or_false,
    not_or] at h
  obtain ⟨hblock, hend, helse, hand, hoption, -⟩ := h
  rw [wordMove, if_neg (by simpa using hblock), if_neg hend,
    branchParent?_eq_none.mpr ⟨helse, hand, hoption⟩]

/-- The event of a line does what the line does. -/
theorem eventMove_of_line {ts : Toks} {event : Event} (h : IsLine ts event) :
    eventMove event = shapeMove (ts.map Token.shape) := by
  have hword : ∀ {word : Tok} {x : Toks}, word.kind = .keyword →
      shapeMove ((word :: x).map Token.shape) = wordMove word.image := by
    intro word x hk
    rw [List.map_cons, Token.shape, hk]
    rfl
  cases h with
  | opened hk hi hx => rw [hword hk, wordMove, if_pos (List.contains_iff_mem.mpr hi)]; rfl
  | closed hk hi => rw [hword hk, hi]; rfl
  | branched hk hi hx => rw [hword hk, wordMove_branch hi]; rfl
  | placed hs =>
    cases hs with
    | participant hk hi ht =>
      rw [hword hk]
      rcases hi with hi | hi
      all_goals
        rw [hi]
        rfl
    | activation hk hi ht =>
      rw [hword hk]
      rcases hi with hi | hi
      all_goals
        rw [hi]
        rfl
    | note hk hi ht => rw [hword hk, hi]; rfl
    | directive hk hi hx => rw [hword hk, wordMove_of_not_form hi]; rfl
    | message hm =>
      cases hm with
      | message hs ha hx hr hy =>
        rw [List.map_cons, Token.shape, hs]
        rfl

/-! ## Lines alike -/

/-- Two tokens that are the same up to their places, or both arrows. -/
def Like (a b : Kind × String) : Prop := a = b ∨ a.1.isArrow = true ∧ b.1.isArrow = true

/-- Tokens that are alike one by one. -/
abbrev AllLike (xs ys : List (Kind × String)) : Prop := List.Forall₂ Like xs ys

theorem AllLike.refl (xs : List (Kind × String)) : AllLike xs xs :=
  List.forall₂_same.mpr fun _ _ => .inl rfl

theorem Like.eq_of_kind {a b : Tok} (h : Like a.shape b.shape) (ha : a.kind.isArrow = false) :
    b.kind = a.kind ∧ b.image = a.image := by
  rcases h with h | ⟨harrow, -⟩
  · exact ⟨(congrArg Prod.fst h).symm, (congrArg Prod.snd h).symm⟩
  · rw [show a.shape.1 = a.kind from rfl, ha] at harrow
    cases harrow

/-- Tokens that are alike one by one. -/
abbrev TokensLike (ts ts' : Toks) : Prop :=
  List.Forall₂ (fun a b : Tok => Like a.shape b.shape) ts ts'

theorem tokensLike_iff {ts ts' : Toks} :
    TokensLike ts ts' ↔ AllLike (ts.map Token.shape) (ts'.map Token.shape) := by
  rw [AllLike, List.forall₂_map_left_iff, List.forall₂_map_right_iff]

section

variable {a b : Tok} {x x' ts ts' : Toks}

theorem Like.keyword (h : Like a.shape b.shape) (ha : a.kind = .keyword) :
    b.kind = .keyword ∧ b.image = a.image := by
  obtain ⟨hk, hi⟩ := h.eq_of_kind (by rw [ha]; rfl)
  exact ⟨hk.trans ha, hi⟩

theorem Like.kind {k : Kind} (h : Like a.shape b.shape) (ha : a.kind = k)
    (hk : k.isArrow = false) : b.kind = k :=
  (h.eq_of_kind (by rw [ha]; exact hk)).1.trans ha

theorem Like.isArrow (h : Like a.shape b.shape) (ha : a.kind.isArrow = true) :
    b.kind.isArrow = true := by
  rcases h with h | ⟨-, h⟩
  · exact (congrArg (fun s : Kind × String => s.1.isArrow) h).symm.trans ha
  · exact h

theorem optionally_like {k : Kind} {text : Option String} (hk : k.isArrow = false)
    (h : Optionally (· == k) x text) (hx : TokensLike x x') :
    ∃ text', Optionally (· == k) x' text' := by
  cases h with
  | absent =>
    cases hx
    exact ⟨none, .absent⟩
  | present t ht =>
    obtain _ | ⟨hb, ⟨⟩⟩ := hx
    exact ⟨_, .present _ (beq_iff_eq.mpr (hb.kind (beq_iff_eq.mp ht) hk))⟩

theorem isMessageText_like {text : Option String} (h : IsMessageText x text)
    (hx : TokensLike x x') : ∃ text', IsMessageText x' text' := by
  cases h with
  | absent =>
    cases hx
    exact ⟨none, .absent⟩
  | present hc ht =>
    obtain _ | ⟨hcolon, hrest⟩ := hx
    obtain ⟨text', ht'⟩ := optionally_like rfl ht hrest
    exact ⟨_, .present (hcolon.kind hc rfl) ht'⟩

theorem isMessage_like {m : Message} (h : IsMessage ts m) (hlike : TokensLike ts ts') :
    ∃ m', IsMessage ts' m' := by
  cases h with
  | message hs ha hx hr hy =>
    obtain _ | ⟨hsender, _ | ⟨harrow, hlater⟩⟩ := hlike
    cases hx with
    | absent =>
      obtain _ | ⟨hreceiver, hrest⟩ := hlater
      obtain ⟨text, hy'⟩ := isMessageText_like hy hrest
      exact ⟨_, .message (hsender.kind hs rfl) (harrow.isArrow ha) .absent
        (hreceiver.kind hr rfl) hy'⟩
    | present t ht =>
      obtain _ | ⟨hsign, _ | ⟨hreceiver, hrest⟩⟩ := hlater
      obtain ⟨text, hy'⟩ := isMessageText_like hy hrest
      have hsign' := hsign.kind (beq_iff_eq.mp ht) rfl
      exact ⟨_, .message (hsender.kind hs rfl) (harrow.isArrow ha)
        (.present _ (beq_iff_eq.mpr hsign')) (hreceiver.kind hr rfl) hy'⟩

theorem isSimple_like {s : Statement} (h : IsSimple ts s) (hlike : TokensLike ts ts') :
    ∃ s', IsSimple ts' s' := by
  cases h with
  | participant hk hi ht =>
    obtain _ | ⟨hword, _ | ⟨htext, ⟨⟩⟩⟩ := hlike
    obtain ⟨hk', hi'⟩ := hword.keyword hk
    exact ⟨_, .participant hk' (hi' ▸ hi) (htext.kind ht rfl)⟩
  | activation hk hi ht =>
    obtain _ | ⟨hword, _ | ⟨htarget, ⟨⟩⟩⟩ := hlike
    obtain ⟨hk', hi'⟩ := hword.keyword hk
    exact ⟨_, .activation hk' (hi' ▸ hi) (htarget.kind ht rfl)⟩
  | note hk hi ht =>
    obtain _ | ⟨hword, _ | ⟨htext, ⟨⟩⟩⟩ := hlike
    obtain ⟨hk', hi'⟩ := hword.keyword hk
    exact ⟨_, .note hk' (hi' ▸ hi) (htext.kind ht rfl)⟩
  | directive hk hi hx =>
    obtain _ | ⟨hword, hrest⟩ := hlike
    obtain ⟨hk', hi'⟩ := hword.keyword hk
    obtain ⟨text, hx'⟩ := optionally_like rfl hx hrest
    exact ⟨_, .directive hk' (hi' ▸ hi) hx'⟩
  | message hm =>
    obtain ⟨m', hm'⟩ := isMessage_like hm hlike
    exact ⟨_, .message hm'⟩

/-- Tokens like those of a line are those of a line. -/
theorem isLine_like {event : Event} (h : IsLine ts event) (hlike : TokensLike ts ts') :
    ∃ event', IsLine ts' event' := by
  cases h with
  | opened hk hi hx =>
    obtain _ | ⟨hword, hrest⟩ := hlike
    obtain ⟨hk', hi'⟩ := hword.keyword hk
    obtain ⟨label, hx'⟩ := optionally_like rfl hx hrest
    exact ⟨_, .opened hk' (hi' ▸ hi) hx'⟩
  | closed hk hi =>
    obtain _ | ⟨hword, ⟨⟩⟩ := hlike
    obtain ⟨hk', hi'⟩ := hword.keyword hk
    exact ⟨_, .closed hk' (hi' ▸ hi)⟩
  | branched hk hi hx =>
    obtain _ | ⟨hword, hrest⟩ := hlike
    obtain ⟨hk', hi'⟩ := hword.keyword hk
    obtain ⟨text, hx'⟩ := optionally_like rfl hx hrest
    exact ⟨_, .branched hk' (hi' ▸ hi) hx'⟩
  | placed hs =>
    obtain ⟨s', hs'⟩ := isSimple_like hs hlike
    exact ⟨_, .placed hs'⟩

end

theorem shapeMove_like {xs ys : List (Kind × String)} (h : AllLike xs ys) :
    shapeMove ys = shapeMove xs := by
  have hcons : ∀ (a : Kind × String) xs,
      shapeMove (a :: xs) = if a.1 = .keyword then wordMove a.2 else .stays := by
    rintro ⟨kind, image⟩ xs
    cases kind <;> rfl
  have harrow : ∀ {a : Kind × String}, a.1.isArrow = true → a.1 ≠ .keyword := by
    intro a ha hk
    rw [hk] at ha
    cases ha
  cases h with
  | nil => rfl
  | cons hab _ =>
    rw [hcons, hcons]
    rcases hab with rfl | ⟨ha, hb⟩
    · rfl
    · rw [if_neg (harrow ha), if_neg (harrow hb)]

/-! ## Tokens of one line -/

theorem isLine_inline {ts : Toks} {event : Event} (h : IsLine ts event) :
    ∀ t ∈ ts, t.kind.endsLine = false := by
  have hoptional : ∀ {k : Kind} {x : Toks} {text : Option String}, k.endsLine = false →
      Optionally (· == k) x text → ∀ t ∈ x, t.kind.endsLine = false := by
    intro k x text hk h
    cases h with
    | absent => simp
    | present t ht =>
      intro t' hm
      rw [List.mem_singleton.mp hm, beq_iff_eq.mp ht]
      exact hk
  have hword : ∀ {t : Tok}, t.kind = .keyword → t.kind.endsLine = false := endsLine_of_keyword
  cases h with
  | opened hk hi hx => exact List.forall_mem_cons.mpr ⟨hword hk, hoptional rfl hx⟩
  | closed hk hi => exact List.forall_mem_singleton.mpr (hword hk)
  | branched hk hi hx => exact List.forall_mem_cons.mpr ⟨hword hk, hoptional rfl hx⟩
  | placed hs =>
    cases hs with
    | participant hk hi ht => simp [hk, ht, Kind.endsLine]
    | activation hk hi ht => simp [hk, ht, Kind.endsLine]
    | note hk hi ht => simp [hk, ht, Kind.endsLine]
    | directive hk hi hx => exact List.forall_mem_cons.mpr ⟨hword hk, hoptional rfl hx⟩
    | message hm =>
      cases hm with
      | message hs ha hx hr hy =>
        refine List.forall_mem_cons.mpr ⟨by simp [hs, Kind.endsLine],
          List.forall_mem_cons.mpr ⟨endsLine_of_isArrow ha, ?_⟩⟩
        intro t hm
        rcases List.mem_append.mp hm with hm | hm
        · exact hoptional rfl hx t hm
        · rcases List.mem_cons.mp hm with rfl | hm
          · simp [hr, Kind.endsLine]
          · cases hy with
            | absent => cases hm
            | present hc ht =>
              rcases List.mem_cons.mp hm with rfl | hm
              · simp [hc, Kind.endsLine]
              · exact hoptional rfl ht t hm

/-! ## Runs of events -/

/-- The keywords of open blocks, innermost first. -/
def openKeywords (n : Nesting BlockHead Statement) : List String := n.blocks.map (·.1.keyword)

/-- An event of a line is accepted where its move is. -/
theorem step_iff_act {ts : Toks} {event : Event} (h : IsLine ts event)
    (n : Nesting BlockHead Statement) :
    (eventMove event).act (openKeywords n) =
      if (n.step Statement.block event).2 = [] then
        some (openKeywords (n.step Statement.block event).1)
      else none := by
  obtain ⟨current, blocks⟩ := n
  cases h with
  | opened hk hi hx => rfl
  | placed hs => rfl
  | closed hk hi =>
    cases blocks with
    | nil => rfl
    | cons block blocks => rfl
  | @branched word x text parent hk hi hx =>
    cases blocks with
    | nil => rfl
    | cons block blocks =>
      obtain ⟨head, outer⟩ := block
      by_cases hp : head.keyword = parent
      · simp [eventMove, branch, BlockMove.act, openKeywords, Nesting.step, hp]
      · simp [eventMove, branch, BlockMove.act, openKeywords, Nesting.step, hp]

/-- Events of lines run without an error as far as their moves do. -/
theorem runs_iff_run {es : List Event} (h : ∀ e ∈ es, ∃ ts, IsLine ts e)
    (n : Nesting BlockHead Statement) (around : List String) :
    BlockMove.run (es.map eventMove) (openKeywords n) = some around ↔
      ∃ m, Nesting.Runs Statement.block n es m ∧ openKeywords m = around := by
  induction es generalizing n with
  | nil =>
    constructor
    · intro h
      exact ⟨n, .nil n, Option.some.inj h⟩
    · rintro ⟨m, hruns, rfl⟩
      cases hruns
      rfl
  | cons e es ih =>
    obtain ⟨ts, hline⟩ := h e List.mem_cons_self
    have hlater := ih fun e hm => h e (List.mem_cons_of_mem _ hm)
    rw [List.map_cons, BlockMove.run, step_iff_act hline]
    constructor
    · intro hrun
      split at hrun
      · rename_i hok
        obtain ⟨m, hruns, hm⟩ := (hlater _).mp hrun
        exact ⟨m, .cons (Prod.ext rfl hok) hruns, hm⟩
      · cases hrun
    · rintro ⟨m, hruns, hm⟩
      cases hruns with
      | cons hs hruns =>
        rw [hs, if_pos rfl]
        exact (hlater _).mpr ⟨m, hruns, hm⟩

/-! ## Rows of a page -/

/-- A row on its own has no token that ends a line. -/
theorem rowShapes_inline (previous : Option Tok) {x : Text} (hx : '\n' ∉ x) :
    ∀ shape ∈ rowShapes previous x, shape.1.endsLine = false := by
  obtain ⟨l, hl⟩ := run_finishes (rowReader previous x)
  have htiled := lexStep_covers.run (rowReader previous x) hl
  obtain ⟨body, eof, htokens, -, hbody⟩ := htiled.terminated
  rw [rowShapes, rowLexed, hl]
  change ∀ shape ∈ (l.tokens.map Token.shape).dropLast, _
  rw [htokens, List.map_append, List.map_singleton, List.dropLast_concat, List.forall_mem_map]
  intro t hm
  have hfeed : t.kind ≠ .newline := by
    intro hk
    obtain ⟨s, before, m, n, hat, hlays, -⟩ := htiled.exists_lays (Cursor.at_ofText x) t
      (by rw [htokens]; exact List.mem_append_left _ hm) (hbody t hm)
    obtain ⟨-, rest, hrest⟩ := hlays.lineFeed_eq hk (by decide)
    apply hx
    rw [hat.text_eq, hrest]
    simp
  simp [Token.shape, Kind.endsLine, hfeed, hbody t hm]

theorem append_cons_unique {x y xs ys : Toks} {s t : Tok} (hx : ∀ a ∈ x, a.kind.endsLine = false)
    (hy : ∀ a ∈ y, a.kind.endsLine = false) (hs : s.kind.endsLine = true)
    (ht : t.kind.endsLine = true) (h : x ++ s :: xs = y ++ t :: ys) : x = y ∧ xs = ys := by
  induction x generalizing y with
  | nil =>
    cases y with
    | nil => exact ⟨rfl, (List.cons.inj h).2⟩
    | cons b y =>
      rw [(List.cons.inj h).1, hy b List.mem_cons_self] at hs
      cases hs
  | cons a x ih =>
    cases y with
    | nil =>
      rw [← (List.cons.inj h).1, hx a List.mem_cons_self] at ht
      cases ht
    | cons b y =>
      obtain ⟨hab, htail⟩ := List.cons.inj h
      obtain ⟨hxy, hrest⟩ := ih (fun a hm => hx a (List.mem_cons_of_mem _ hm))
        (fun a hm => hy a (List.mem_cons_of_mem _ hm)) htail
      exact ⟨by rw [hab, hxy], hrest⟩

/-- The tokens before a line end are none, or those of one line. -/
theorem areLines_row {x rest : Toks} {t : Tok} {es : List Event}
    (hx : ∀ a ∈ x, a.kind.endsLine = false) (ht : t.kind.endsLine = true)
    (h : AreLines (x ++ t :: rest) es) :
    x = [] ∧ AreLines rest es ∨ ∃ e es', es = e :: es' ∧ IsLine x e ∧ AreLines rest es' := by
  generalize hall : x ++ t :: rest = all at h
  cases h with
  | nil => simp at hall
  | gap ht' h =>
    cases x with
    | nil =>
      cases hall
      exact .inl ⟨rfl, h⟩
    | cons a x =>
      rw [← (List.cons.inj hall).1, hx a List.mem_cons_self] at ht'
      cases ht'
  | line hline ht' h =>
    obtain ⟨rfl, rfl⟩ := append_cons_unique hx (isLine_inline hline) ht ht' hall
    exact .inr ⟨_, _, rfl, hline, h⟩

/-- A row without tokens, or with those of a line. -/
def RowFine (previous : Option Tok) (x : Text) : Prop :=
  rowShapes previous x = [] ∨
    ∃ ts event, ts.map Token.shape = rowShapes previous x ∧ IsLine ts event

/-- What rows do to the blocks around them, the first one behind a token. -/
def pageMoves : (previous : Option Tok) → List Text → List BlockMove
  | _, [] => []
  | previous, x :: below => shapeMove (rowShapes previous x) :: below.map lineMove

theorem pageMoves_none (rs : List Text) : pageMoves none rs = rs.map lineMove := by
  cases rs with
  | nil => rfl
  | cons x below => rfl

theorem exists_row {ts : Toks} {previous : Option Tok} {x : Text} {below : List Text}
    (hx : '\n' ∉ x) (hts : ts.map Token.shape = pageShapes previous (x :: below)) :
    ∃ row t rest, ts = row ++ t :: rest ∧ row.map Token.shape = rowShapes previous x ∧
      t.kind.endsLine = true ∧ (∀ a ∈ row, a.kind.endsLine = false) ∧
      rest.map Token.shape = pageShapes none below := by
  obtain ⟨row, later, rfl, hrow, hlater⟩ := List.map_eq_append_iff.mp hts
  obtain ⟨t, rest, rfl, ht, hrest⟩ := List.map_eq_cons_iff.mp hlater
  refine ⟨row, t, rest, rfl, hrow, ?_, ?_, hrest⟩
  · have hk := congrArg Prod.fst ht
    change t.kind = _ at hk
    rw [hk]
    split
    · rfl
    · rfl
  · intro a hm
    exact rowShapes_inline previous hx a.shape (by rw [← hrow]; exact List.mem_map_of_mem hm)

/-- The tokens of rows are those of lines as far as the rows are fine, and do what the rows do. -/
theorem areLines_page {ts : Toks} {previous : Option Tok} {rs : List Text}
    (hts : ts.map Token.shape = pageShapes previous rs) (hrs : ∀ x ∈ rs, '\n' ∉ x) :
    (∀ es, AreLines ts es → OnPage RowFine previous rs ∧ ∀ around : List String,
        BlockMove.run (es.map eventMove) around = BlockMove.run (pageMoves previous rs) around) ∧
      (OnPage RowFine previous rs → ∃ es, AreLines ts es) := by
  induction rs generalizing ts previous with
  | nil =>
    cases List.map_eq_nil_iff.mp hts
    refine ⟨?_, fun _ => ⟨[], .nil⟩⟩
    intro es h
    rw [h.eq_nil]
    exact ⟨trivial, fun _ => rfl⟩
  | cons x below ih =>
    obtain ⟨hx, hbelow⟩ := List.forall_mem_cons.mp hrs
    obtain ⟨row, t, rest, rfl, hrow, ht, hinline, hrest⟩ := exists_row hx hts
    obtain ⟨hdown, hup⟩ := ih hrest hbelow
    simp only [onPage_none, pageMoves_none] at hdown hup
    constructor
    · intro es h
      rcases areLines_row hinline ht h with ⟨rfl, hlines⟩ | ⟨e, es, rfl, hline, hlines⟩
      · obtain ⟨hfine, hmoves⟩ := hdown es hlines
        refine ⟨⟨.inl hrow.symm, hfine⟩, fun around => ?_⟩
        rw [hmoves around, pageMoves, ← hrow]
        rfl
      · obtain ⟨hfine, hmoves⟩ := hdown es hlines
        refine ⟨⟨.inr ⟨row, e, hrow, hline⟩, hfine⟩, fun around => ?_⟩
        rw [List.map_cons, pageMoves, ← hrow, ← eventMove_of_line hline, BlockMove.run,
          BlockMove.run]
        exact Option.bind_congr fun next _ => hmoves next
    · rintro ⟨hfirst, hfine⟩
      obtain ⟨es, hlines⟩ := hup hfine
      rcases hfirst with hnone | ⟨ts, event, hshapes, hline⟩
      · rw [hnone] at hrow
        cases List.map_eq_nil_iff.mp hrow
        exact ⟨es, .gap ht hlines⟩
      · have hlike : TokensLike ts row :=
          tokensLike_iff.mpr (by rw [hshapes, hrow]; exact .refl _)
        obtain ⟨event', hline'⟩ := isLine_like hline hlike
        exact ⟨event' :: es, .line hline' ht hlines⟩

theorem areLines_mem {ts : Toks} {es : List Event} (h : AreLines ts es) :
    ∀ e ∈ es, ∃ x, IsLine x e := by
  induction h with
  | nil => simp
  | gap _ _ ih => exact ih
  | line hx _ _ ih => exact List.forall_mem_cons.mpr ⟨⟨_, hx⟩, ih⟩

/-- The statements of a page bring no error exactly when the rows are fine and run through, which
leaves the same blocks open. -/
theorem nesting_page_iff {ts : Toks} {previous : Option Tok} {rs : List Text}
    (hterm : Terminated .eof ts) (hts : ts.map Token.shape = pageShapes previous rs)
    (hrs : ∀ x ∈ rs, '\n' ∉ x) (around : List String) :
    (Nesting.run Statement.block {} (statements ts).1).2 = [] ∧
        openKeywords (Nesting.run Statement.block {} (statements ts).1).1 = around ↔
      OnPage RowFine previous rs ∧ BlockMove.run (pageMoves previous rs) [] = some around := by
  obtain ⟨hdown, hup⟩ := areLines_page hts hrs
  constructor
  · rintro ⟨hnone, haround⟩
    obtain ⟨hown, hruns⟩ := Nesting.run_eq_iff_runs.mp (Prod.ext rfl hnone)
    have hlines := (statements_lines hterm hown).1
    obtain ⟨hfine, hmoves⟩ := hdown _ hlines
    refine ⟨hfine, ?_⟩
    rw [← hmoves]
    exact (runs_iff_run (areLines_mem hlines) {} around).mpr ⟨_, hruns, haround⟩
  · rintro ⟨hfine, hrun⟩
    obtain ⟨es, hlines⟩ := hup hfine
    obtain ⟨hown, hevents⟩ := statements_read hlines hterm
    rw [← (hdown es hlines).2] at hrun
    obtain ⟨m, hruns, hm⟩ := (runs_iff_run (areLines_mem hlines) {} around).mp hrun
    rw [← hevents] at hruns
    rw [Nesting.run_eq_iff_runs.mpr ⟨hown, hruns⟩]
    exact ⟨rfl, hm⟩

end DiagramLint.Sequence
