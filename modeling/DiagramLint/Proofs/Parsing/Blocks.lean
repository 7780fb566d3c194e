-- The blocks of a diagram, matched from left to right. Some tokens open a
-- block, some close the innermost one, some start a statement; from these
-- marks alone follow the ends that close nothing, the blocks left open and
-- the blocks around each statement. A nesting keeps exactly these books.
import DiagramLint.Parsing.Nesting
import DiagramLint.Proofs.Lexing.Scan
import DiagramLint.Proofs.Parsing.Within

namespace DiagramLint

/-! ## Marks and books -/

/-- A block, by the word that opens it and where that stands. -/
structure BlockName where
  keyword : String
  place : Position
  deriving DecidableEq, Repr

/-- What matters about a place of a diagram. -/
inductive Mark (σ : Type) where
  | opens (block : BlockName)
  | closes (place : Position)
  | holds (statement : σ)

/-- What stands in a tree: a block or a plain statement. -/
inductive Entry (σ : Type) where
  | block (name : BlockName)
  | statement (statement : σ)

/-- Blocks and statements in order, each with the blocks around it, innermost first. -/
abbrev Outline (σ : Type) := List (List BlockName × Entry σ)

/-- What comes of matching openings with ends: the ends that close nothing, the blocks left open,
innermost first, and what stands where. -/
structure Books (σ : Type) where
  strays : List Position
  leftOpen : List BlockName
  outline : Outline σ

variable {β κ σ ε : Type}

/-- The books of a run of marks with the blocks `around` open before it: an end closes the
innermost open block. -/
def books : (around : List BlockName) → List (Mark σ) → Books σ
  | around, [] => ⟨[], around, []⟩
  | around, .opens block :: later =>
    let b := books (block :: around) later
    { b with outline := (around, .block block) :: b.outline }
  | [], .closes place :: later =>
    let b := books [] later
    { b with strays := place :: b.strays }
  | _ :: around, .closes _ :: later => books around later
  | around, .holds statement :: later =>
    let b := books around later
    { b with outline := (around, .statement statement) :: b.outline }

/-- What a mark puts into a tree, if it puts something there. -/
def Mark.entry? : Mark σ → Option (Entry σ)
  | .opens block => some (.block block)
  | .closes _ => none
  | .holds statement => some (.statement statement)

/-- An outline has one entry for each opening and each statement, in their order. -/
theorem books_entries (around : List BlockName) (marks : List (Mark σ)) :
    (books around marks).outline.map Prod.snd = marks.filterMap Mark.entry? := by
  fun_induction books around marks with
  | case1 => rfl
  | case2 around block later b ih => simp [Mark.entry?, b, ih]
  | case3 place later b ih => exact ih
  | case4 block around place later ih => exact ih
  | case5 around statement later b ih => simp [Mark.entry?, b, ih]

/-- An end that closes nothing is one of the ends marked. -/
theorem mem_of_mem_strays {around : List BlockName} {marks : List (Mark σ)} {place : Position}
    (h : place ∈ (books around marks).strays) : .closes place ∈ marks := by
  fun_induction books around marks with
  | case1 => cases h
  | case2 around block later b ih => exact List.mem_cons_of_mem _ (ih h)
  | case3 place' later b ih =>
    rcases List.mem_cons.mp h with rfl | h
    · exact List.mem_cons_self
    · exact List.mem_cons_of_mem _ (ih h)
  | case4 block around place' later ih => exact List.mem_cons_of_mem _ (ih h)
  | case5 around statement later b ih => exact List.mem_cons_of_mem _ (ih h)

/-- The statement an event adds, if it adds one. -/
def BlockEvent.placed? : BlockEvent β σ ε → Option σ
  | .placed statement => some statement
  | _ => none

/-- The block an event opens, if it opens one. -/
def BlockEvent.opened? : BlockEvent β σ ε → Option β
  | .opened block => some block
  | _ => none

/-! ## Marks of tokens -/

/-- How the tokens of a language make blocks: which kinds stand between statements, which tokens
open a block, which close one, and what statement is read from a token on. A word may close a
block only where a statement starts. -/
structure BlockSyntax (κ σ : Type) where
  separates : κ → Bool
  opens : Token κ → Bool
  closes : (starts : Bool) → Token κ → Bool
  reads : Token κ → List (Token κ) → Option σ

namespace BlockSyntax

variable (b : BlockSyntax κ σ)

/-- The mark of a token with `rest` behind it; `starts` tells whether a separator stands before
it. -/
def markAt (starts : Bool) (t : Token κ) (rest : List (Token κ)) : Option (Mark σ) :=
  if b.opens t then some (.opens ⟨t.image, t.place⟩)
  else if b.closes starts t then some (.closes t.place)
  else if starts then (b.reads t rest).map .holds
  else none

/-- The marks of a run of tokens in order; `starts` is about the first of them. -/
def marks : (starts : Bool) → List (Token κ) → List (Mark σ)
  | _, [] => []
  | starts, t :: rest => (b.markAt starts t rest).toList ++ marks (b.separates t.kind) rest

/-- Only at the start of a statement do tokens open or close a block. -/
def Tidy : (starts : Bool) → List (Token κ) → Prop
  | _, [] => True
  | starts, t :: rest =>
    (starts = false → b.opens t = false ∧ b.closes false t = false) ∧ Tidy (b.separates t.kind) rest

variable {b}

/-- Every mark is that of a token. -/
theorem exists_markAt {starts : Bool} {ts : List (Token κ)} {m : Mark σ}
    (h : m ∈ b.marks starts ts) : ∃ t ∈ ts, ∃ starts rest, b.markAt starts t rest = some m := by
  induction ts generalizing starts with
  | nil => cases h
  | cons t rest ih =>
    rcases List.mem_append.mp h with h | h
    · exact ⟨t, List.mem_cons_self, starts, rest, Option.mem_toList.mp h⟩
    · obtain ⟨t', hm, hmark⟩ := ih h
      exact ⟨t', List.mem_cons_of_mem _ hm, hmark⟩

theorem markAt_closes {starts : Bool} {t : Token κ} {rest : List (Token κ)} {place : Position}
    (h : b.markAt starts t rest = some (.closes place)) :
    b.closes starts t = true ∧ place = t.place := by
  unfold markAt at h
  split at h
  · cases h
  · split at h
    · cases h
      exact ⟨‹_›, rfl⟩
    · split at h
      · obtain ⟨s, -, hs⟩ := Option.map_eq_some_iff.mp h
        cases hs
      · cases h

theorem markAt_false {t : Token κ} (h : b.opens t = false ∧ b.closes false t = false)
    (rest : List (Token κ)) : b.markAt false t rest = none := by
  simp [markAt, h.1, h.2]

theorem tidy_of_forall {starts : Bool} {ts : List (Token κ)}
    (h : ∀ t ∈ ts, b.opens t = false ∧ b.closes false t = false) : b.Tidy starts ts := by
  induction ts generalizing starts with
  | nil => trivial
  | cons t ts ih =>
    exact ⟨fun _ => h t List.mem_cons_self, ih fun t hm => h t (List.mem_cons_of_mem _ hm)⟩

theorem Tidy.start {ts : List (Token κ)} (h : b.Tidy false ts) : b.Tidy true ts := by
  cases ts with
  | nil => trivial
  | cons t rest => exact ⟨nofun, h.2⟩

/-- Whether a statement starts behind some tokens. -/
def startsAfter (b : BlockSyntax κ σ) (starts : Bool) (ts : List (Token κ)) : Bool :=
  match ts.getLast? with
  | none => starts
  | some t => b.separates t.kind

theorem startsAfter_cons (starts : Bool) (t : Token κ) (ts : List (Token κ)) :
    b.startsAfter starts (t :: ts) = b.startsAfter (b.separates t.kind) ts := by
  cases ts with
  | nil => rfl
  | cons t' ts => simp [startsAfter, List.getLast?_cons]

theorem tidy_append {starts : Bool} {xs ys : List (Token κ)} :
    b.Tidy starts (xs ++ ys) ↔ b.Tidy starts xs ∧ b.Tidy (b.startsAfter starts xs) ys := by
  induction xs generalizing starts with
  | nil => simp [Tidy, startsAfter]
  | cons t xs ih => rw [List.cons_append, Tidy, Tidy, ih, startsAfter_cons, and_assoc]

/-- Inside a statement no token opens a block. -/
theorem Tidy.opens_leftOf {ends : κ → Bool} (he : ∀ k, ends k = false → b.separates k = false)
    {ts left : List (Token κ)} (hl : LeftOf ends ts left) (h : b.Tidy false ts) :
    ∃ taken, ts = taken ++ left ∧ ∀ t ∈ taken, b.opens t = false := by
  obtain ⟨taken, rfl, htaken⟩ := hl
  refine ⟨taken, rfl, ?_⟩
  induction taken with
  | nil => exact fun _ hm => by cases hm
  | cons t taken ih =>
    obtain ⟨hmark, hrest⟩ := h
    rw [he t.kind (htaken t List.mem_cons_self)] at hrest
    rw [List.forall_mem_cons]
    exact ⟨(hmark rfl).1, ih (fun t hm => htaken t (List.mem_cons_of_mem _ hm)) hrest⟩

/-- Inside a statement nothing is marked. -/
theorem marks_leftOf {ends : κ → Bool} (he : ∀ k, ends k = false → b.separates k = false)
    {ts left : List (Token κ)} (hl : LeftOf ends ts left) (h : b.Tidy false ts) :
    b.marks false ts = b.marks false left ∧ b.Tidy false left := by
  obtain ⟨taken, rfl, htaken⟩ := hl
  induction taken with
  | nil => exact ⟨rfl, h⟩
  | cons t taken ih =>
    have hsep := he t.kind (htaken t List.mem_cons_self)
    obtain ⟨hmark, hrest⟩ := h
    rw [hsep] at hrest
    obtain ⟨hmarks, hleft⟩ := ih (fun t hm => htaken t (List.mem_cons_of_mem _ hm)) hrest
    refine ⟨?_, hleft⟩
    rw [List.cons_append, marks, markAt_false (hmark rfl), hsep, hmarks]
    rfl

/-- A statement is marked at its first token only. -/
theorem marks_statement {ends : κ → Bool} (he : ∀ k, ends k = false → b.separates k = false)
    {starts : Bool} {t : Token κ} (ht : ends t.kind = false) {rest left : List (Token κ)}
    (hl : LeftOf ends rest left) (h : b.Tidy starts (t :: rest)) :
    b.marks starts (t :: rest) = (b.markAt starts t rest).toList ++ b.marks false left ∧
      b.Tidy false left := by
  have hsep := he t.kind ht
  obtain ⟨-, hrest⟩ := h
  rw [hsep] at hrest
  obtain ⟨hmarks, hleft⟩ := marks_leftOf he hl hrest
  exact ⟨by rw [marks, hsep, hmarks], hleft⟩

theorem follows_after (s : Reader κ) (y : Yield κ) :
    (s.after y).follows true b.separates =
      b.startsAfter (s.follows true b.separates) y.tokens := by
  unfold Reader.follows Reader.after startsAfter
  cases y.tokens.getLast? with
  | none => rfl
  | some t => rfl

/-- Tokens that each step puts where they belong stand where they belong in the whole scan. -/
theorem tidy_run {step : LexStep κ} {eof : κ}
    (hstep : ∀ s, b.Tidy (s.follows true b.separates) (step s).tokens)
    (heof : ∀ image place, b.Tidy false [Token.ofText eof image place]) (s : Reader κ) :
    b.Tidy (s.follows true b.separates) (Scan.run step eof s).lexed.tokens := by
  induction hn : s.cursor.rest.length using Nat.strongRecOn generalizing s with
  | ind n ih =>
    rcases Scan.tokens_run step eof s with ⟨-, htoks⟩ | ⟨-, -, htoks⟩ | ⟨-, hlt, htoks⟩
    · rw [htoks]
      cases s.follows true b.separates with
      | false => exact heof _ _
      | true => exact (heof _ _).start
    · rw [htoks]
      trivial
    · rw [htoks]
      refine tidy_append.mpr ⟨hstep s, ?_⟩
      rw [← follows_after]
      exact ih _ (hn ▸ hlt) (s.after (step s)) rfl

end BlockSyntax

/-! ## The books of a nesting -/

/-- How the trees of a language hold its blocks: what an open block is called, which errors are
about an end that closes nothing, and the outline of statements. -/
structure BlockTree (β σ ε : Type) where
  wrap : β → List σ → σ
  name : β → BlockName
  stray : ε → Option Position
  outline : List BlockName → List σ → Outline σ
  outline_nil : ∀ around, outline around [] = []
  outline_append : ∀ around xs ys,
    outline around (xs ++ ys) = outline around xs ++ outline around ys
  outline_wrap : ∀ around block body, outline around [wrap block body] =
    (around, .block (name block)) :: outline (name block :: around) body

namespace BlockTree

variable (T : BlockTree β σ ε)

/-- The mark that an event stands for. -/
def mark : BlockEvent β σ ε → Option (Mark σ)
  | .opened block => some (.opens (T.name block))
  | .closed unmatched => (T.stray unmatched).map .closes
  | .placed statement => some (.holds statement)
  | .branched _ _ => none

/-- The marks of a run of statements. -/
def marks (items : List (Option (BlockEvent β σ ε) × List ε)) : List (Mark σ) :=
  items.filterMap fun item => item.1.bind T.mark

/-- An end reports that it closes nothing, a plain statement is no block, and a branch leaves its
block the name it has. -/
def Fits : BlockEvent β σ ε → Prop
  | .opened _ => True
  | .closed unmatched => (T.stray unmatched).isSome = true
  | .placed statement => ∀ around, T.outline around [statement] = [(around, .statement statement)]
  | .branched change outside =>
    T.stray outside = none ∧ ∀ block changed, change block = some changed →
      T.name changed = T.name block

/-- The names of open blocks. -/
def names (blocks : List (β × List σ)) : List BlockName := blocks.map fun block => T.name block.1

/-- The outline of everything read so far. -/
def soFar (current : List σ) : List (β × List σ) → Outline σ
  | [] => T.outline [] current
  | (block, outer) :: blocks =>
    soFar outer blocks ++ (T.names blocks, .block (T.name block)) ::
      T.outline (T.name block :: T.names blocks) current

variable {T}

theorem marks_cons (event : Option (BlockEvent β σ ε)) (errors : List ε)
    (items : List (Option (BlockEvent β σ ε) × List ε)) :
    T.marks ((event, errors) :: items) = (event.bind T.mark).toList ++ T.marks items := by
  unfold marks
  cases hm : event.bind T.mark <;> simp [hm]

theorem soFar_append (current more : List σ) (blocks : List (β × List σ)) :
    T.soFar (current ++ more) blocks =
      T.soFar current blocks ++ T.outline (T.names blocks) more := by
  cases blocks with
  | nil => exact T.outline_append _ _ _
  | cons block blocks =>
    simp only [soFar, T.outline_append, List.append_assoc, List.cons_append]
    rfl

/-- Closing a block changes nothing about what was read. -/
theorem soFar_wrap (current outer : List σ) (block : β) (blocks : List (β × List σ)) :
    T.soFar (outer ++ [T.wrap block current]) blocks =
      T.soFar current ((block, outer) :: blocks) := by
  rw [soFar_append, T.outline_wrap]
  rfl

theorem outline_unwind (current : List σ) (blocks : List (β × List σ)) :
    T.outline [] (Nesting.unwind T.wrap current blocks) = T.soFar current blocks := by
  induction blocks generalizing current with
  | nil => rfl
  | cons block blocks ih =>
    obtain ⟨block, outer⟩ := block
    rw [Nesting.unwind, ih, soFar_wrap]

/-- What is read where a statement starts is what its first token says: an opening, an end, or
neither. -/
structure ReadsAs (T : BlockTree β σ ε) (b : BlockSyntax κ σ) (t : Token κ)
    (rest : List (Token κ)) (value : Option (BlockEvent β σ ε)) : Prop where
  opened : b.opens t = true →
    ∃ block, value = some (.opened block) ∧ T.name block = ⟨t.image, t.place⟩
  closed : b.opens t = false → b.closes true t = true →
    ∃ unmatched, value = some (.closed unmatched) ∧ T.stray unmatched = some t.place
  plain : b.opens t = false → b.closes true t = false →
    ∀ event ∈ value, T.Fits event ∧ T.mark event = event.placed?.map .holds
  reads : b.reads t rest = value.bind BlockEvent.placed?

section

variable {b : BlockSyntax κ σ} {t : Token κ} {rest : List (Token κ)}
  {value : Option (BlockEvent β σ ε)}

theorem ReadsAs.bind_mark (h : T.ReadsAs b t rest value) :
    value.bind T.mark = b.markAt true t rest := by
  unfold BlockSyntax.markAt
  split
  · rename_i ho
    obtain ⟨block, rfl, hname⟩ := h.opened ho
    rw [← hname]
    rfl
  · rename_i ho
    split
    · rename_i hc
      obtain ⟨unmatched, rfl, hstray⟩ := h.closed (Bool.eq_false_iff.mpr ho) hc
      simp [mark, hstray]
    · rename_i hc
      have hplain := h.plain (Bool.eq_false_iff.mpr ho) (Bool.eq_false_iff.mpr hc)
      rw [if_pos rfl, h.reads]
      cases value with
      | none => rfl
      | some event => exact (hplain event rfl).2

theorem ReadsAs.fits (h : T.ReadsAs b t rest value) : ∀ event ∈ value, T.Fits event := by
  intro event he
  cases ho : b.opens t with
  | true =>
    obtain ⟨block, rfl, -⟩ := h.opened ho
    cases he
    trivial
  | false =>
    cases hc : b.closes true t with
    | true =>
      obtain ⟨unmatched, rfl, hstray⟩ := h.closed ho hc
      cases he
      exact Option.isSome_of_eq_some hstray
    | false => exact (h.plain ho hc event he).1

end

/-- The books from one nesting on, given what is reported up to another and the books from there
on. -/
structure Carries (T : BlockTree β σ ε) (n : Nesting β σ) (marks : List (Mark σ))
    (m : Nesting β σ) (errors : List ε) (later : List (Mark σ)) : Prop where
  strays : (books (T.names n.blocks) marks).strays =
    errors.filterMap T.stray ++ (books (T.names m.blocks) later).strays
  leftOpen : (books (T.names n.blocks) marks).leftOpen =
    (books (T.names m.blocks) later).leftOpen
  outline : T.soFar n.current n.blocks ++ (books (T.names n.blocks) marks).outline =
    T.soFar m.current m.blocks ++ (books (T.names m.blocks) later).outline

theorem carries_self (n : Nesting β σ) (marks : List (Mark σ)) : T.Carries n marks n [] marks :=
  ⟨rfl, rfl, rfl⟩

theorem Carries.trans {n m l : Nesting β σ} {marks later last : List (Mark σ)}
    {errors more : List ε} (h : T.Carries n marks m errors later)
    (h' : T.Carries m later l more last) : T.Carries n marks l (errors ++ more) last where
  strays := by rw [h.strays, h'.strays, List.filterMap_append, List.append_assoc]
  leftOpen := h.leftOpen.trans h'.leftOpen
  outline := h.outline.trans h'.outline

/-- Errors that are not about an end that closes nothing do not show in the books. -/
theorem Carries.report {n m : Nesting β σ} {marks later : List (Mark σ)} {errors more : List ε}
    (h : T.Carries n marks m errors later) (hm : ∀ e ∈ more, T.stray e = none) :
    T.Carries n marks m (errors ++ more) later where
  strays := by
    have hnone : more.filterMap T.stray = [] := List.filterMap_eq_nil_iff.mpr hm
    rw [h.strays, List.filterMap_append, hnone, List.append_nil]
  leftOpen := h.leftOpen
  outline := h.outline

/-- One event does to a nesting what its mark does to the books. -/
theorem carries_step (n : Nesting β σ) {event : BlockEvent β σ ε} (h : T.Fits event)
    (later : List (Mark σ)) :
    T.Carries n ((T.mark event).toList ++ later) (n.step T.wrap event).1 (n.step T.wrap event).2
      later := by
  obtain ⟨current, blocks⟩ := n
  cases event with
  | opened block =>
    refine ⟨rfl, rfl, ?_⟩
    simp [mark, Nesting.step, books, soFar, names, T.outline_nil]
  | placed statement =>
    refine ⟨rfl, rfl, ?_⟩
    simp [mark, Nesting.step, books, soFar_append, h (T.names blocks)]
  | closed unmatched =>
    obtain ⟨place, hplace⟩ := Option.isSome_iff_exists.mp h
    cases blocks with
    | nil =>
      refine ⟨?_, ?_, ?_⟩ <;> simp [mark, hplace, Nesting.step, books, names]
    | cons block blocks =>
      obtain ⟨block, outer⟩ := block
      refine ⟨?_, ?_, ?_⟩
      · simp [mark, hplace, Nesting.step, books, names]
      · simp [mark, hplace, Nesting.step, books, names]
      · simp [mark, hplace, Nesting.step, books, names, soFar_wrap]
  | branched change outside =>
    obtain ⟨houtside, hname⟩ := h
    cases blocks with
    | nil => exact (carries_self _ _).report (by simpa using houtside)
    | cons block blocks =>
      obtain ⟨block, outer⟩ := block
      simp only [Nesting.step]
      split
      · rename_i changed hchange
        have hsame := hname block changed hchange
        refine ⟨?_, ?_, ?_⟩ <;> simp [mark, names, soFar, hsame]
      · exact (carries_self _ _).report (by simpa using houtside)

/-- A run of statements does to a nesting what their marks do to the books. -/
theorem carries_run (n : Nesting β σ) {items : List (Option (BlockEvent β σ ε) × List ε)}
    (h : ∀ item ∈ items, (∀ event ∈ item.1, T.Fits event) ∧ ∀ e ∈ item.2, T.stray e = none) :
    T.Carries n (T.marks items) (n.run T.wrap items).1 (n.run T.wrap items).2 [] := by
  induction items generalizing n with
  | nil => exact carries_self n []
  | cons item items ih =>
    obtain ⟨event, errors⟩ := item
    obtain ⟨hevent, herrors⟩ := h _ List.mem_cons_self
    have hrest := fun n => ih n fun item hm => h item (List.mem_cons_of_mem _ hm)
    cases event with
    | none =>
      exact ((carries_self n _).report herrors).trans (hrest n)
    | some event =>
      rw [marks_cons]
      exact ((carries_step n (hevent event rfl) _).report herrors).trans (hrest _)

/-- From no open block on: the ends reported are those that close nothing, the blocks still open
are those left open, and the tree holds what the outline lists. -/
theorem books_run {items : List (Option (BlockEvent β σ ε) × List ε)}
    (h : ∀ item ∈ items, (∀ event ∈ item.1, T.Fits event) ∧ ∀ e ∈ item.2, T.stray e = none)
    {n : Nesting β σ} {errors : List ε} (hr : Nesting.run T.wrap {} items = (n, errors)) :
    books [] (T.marks items) =
      ⟨errors.filterMap T.stray, T.names n.blocks,
        T.outline [] (Nesting.unwind T.wrap n.current n.blocks)⟩ := by
  have hcarries := carries_run (T := T) {} h
  rw [hr] at hcarries
  obtain ⟨hstrays, hopen, houtline⟩ := hcarries
  simp only [names, List.map_nil, books, List.append_nil, soFar, T.outline_nil,
    List.nil_append] at hstrays hopen houtline
  rw [outline_unwind, ← houtline, ← hstrays, names, ← hopen]

end BlockTree

end DiagramLint
