-- Blocks that open and close in order. A run of events leaves no error and
-- no open block exactly when it is nested: statements, branches of the block
-- around them, and whole blocks, each with its own end.
import DiagramLint.Parsing.Nesting

namespace DiagramLint

variable {β σ ε : Type} {wrap : β → List σ → σ}

/-! ## Nested events -/

/-- The events between the start of a block and its end, or those of a whole diagram when there
is no block around them: the block before and after its branches, and the statements made. -/
inductive Nested (wrap : β → List σ → σ) :
    Option β → List (BlockEvent β σ ε) → Option β → List σ → Prop where
  | nil (around : Option β) : Nested wrap around [] around []
  | placed {around after : Option β} {events : List (BlockEvent β σ ε)} {later : List σ}
    (statement : σ) (h : Nested wrap around events after later) :
    Nested wrap around (.placed statement :: events) after (statement :: later)
  | branched {block changed : β} {after : Option β} {events : List (BlockEvent β σ ε)}
    {later : List σ} {change : β → Option β} (outside : ε) (hc : change block = some changed)
    (h : Nested wrap (some changed) events after later) :
    Nested wrap (some block) (.branched change outside :: events) after later
  | block {around after : Option β} {block ended : β} {inner events : List (BlockEvent β σ ε)}
    {body later : List σ} (unmatched : ε) (hi : Nested wrap (some block) inner (some ended) body)
    (h : Nested wrap around events after later) :
    Nested wrap around (.opened block :: (inner ++ .closed unmatched :: events)) after
      (wrap ended body :: later)

namespace Nesting

/-! ## Runs without errors -/

/-- Events that each bring about no error, from one nesting to another. -/
inductive Runs (wrap : β → List σ → σ) :
    Nesting β σ → List (BlockEvent β σ ε) → Nesting β σ → Prop where
  | nil (n : Nesting β σ) : Runs wrap n [] n
  | cons {n m final : Nesting β σ} {event : BlockEvent β σ ε} {events : List (BlockEvent β σ ε)}
    (hs : n.step wrap event = (m, [])) (h : Runs wrap m events final) :
    Runs wrap n (event :: events) final

theorem Runs.append {n m final : Nesting β σ} {first later : List (BlockEvent β σ ε)}
    (h : Runs wrap n first m) (hl : Runs wrap m later final) :
    Runs wrap n (first ++ later) final := by
  induction h with
  | nil => exact hl
  | cons hs _ ih => exact .cons hs (ih hl)

theorem run_eq_of_closed {n : Nesting β σ} {items : List (Option (BlockEvent β σ ε) × List ε)}
    (hr : (run wrap n items).2 = []) (hb : (run wrap n items).1.blocks = []) :
    run wrap n items = (⟨(run wrap n items).1.current, []⟩, []) := by
  generalize run wrap n items = result at hr hb
  obtain ⟨⟨current, blocks⟩, errors⟩ := result
  cases hr
  cases hb
  rfl

/-- A run over statements reports nothing exactly when no statement does and every event is
accepted. -/
theorem run_eq_iff_runs {n m : Nesting β σ} {items : List (Option (BlockEvent β σ ε) × List ε)} :
    run wrap n items = (m, []) ↔
      (∀ item ∈ items, item.2 = []) ∧ Runs wrap n (items.filterMap (·.1)) m := by
  induction items generalizing n with
  | nil =>
    simp only [run, Prod.mk.injEq, and_true, List.filterMap_nil, List.not_mem_nil, false_implies,
      implies_true, true_and]
    constructor
    · rintro rfl
      exact .nil n
    · intro h
      cases h
      rfl
  | cons item rest ih =>
    obtain ⟨event, errors⟩ := item
    cases event with
    | none =>
      simp only [run, List.nil_append, Prod.mk.injEq, List.append_eq_nil_iff,
        List.forall_mem_cons, List.filterMap_cons, and_assoc, ← ih (n := n)]
      rw [Prod.ext_iff]
      exact and_left_comm
    | some event =>
      simp only [run, Prod.mk.injEq, List.append_eq_nil_iff, List.forall_mem_cons,
        List.filterMap_cons]
      constructor
      · rintro ⟨hm, ⟨hown, herrors⟩, hlater⟩
        obtain ⟨hrest, hruns⟩ := ih.mp (Prod.ext hm hlater)
        exact ⟨⟨herrors, hrest⟩, .cons (Prod.ext rfl hown) hruns⟩
      · rintro ⟨⟨herrors, hrest⟩, hruns⟩
        cases hruns with
        | cons hs h =>
          rw [hs, ih.mpr ⟨hrest, h⟩]
          exact ⟨rfl, ⟨rfl, herrors⟩, rfl⟩

/-! ## Nested events run -/

/-- The open blocks with `around` as the innermost one, if there is such a block. -/
def openWith (around : Option β) (outer : List σ) (blocks : List (β × List σ)) :
    List (β × List σ) :=
  match around with
  | none => blocks
  | some block => (block, outer) :: blocks

theorem runs_of_nested {around after : Option β}
    {events : List (BlockEvent β σ ε)} {ss : List σ} (h : Nested wrap around events after ss)
    (current outer : List σ) (blocks : List (β × List σ)) :
    Runs wrap ⟨current, openWith around outer blocks⟩ events
      ⟨current ++ ss, openWith after outer blocks⟩ := by
  induction h generalizing current outer blocks with
  | nil => simpa using Runs.nil _
  | placed statement _ ih =>
    refine .cons rfl ?_
    simpa using ih (current ++ [statement]) outer blocks
  | branched outside hc _ ih =>
    refine .cons (by simp only [step, openWith, hc]) (ih current outer blocks)
  | @block around after block ended inner events body later unmatched _ _ ihi ih =>
    refine .cons rfl ?_
    refine Runs.append (ihi [] current (openWith around outer blocks)) ?_
    refine .cons rfl ?_
    simpa using ih (current ++ [wrap ended body]) outer blocks

/-! ## Runs are nested -/

/-- What a run that ends with no open block says about its events: at the top level they are
nested; inside a block they reach its end, and a run from there on is left. -/
def Reaches (wrap : β → List σ → σ) (current : List σ) (events : List (BlockEvent β σ ε))
    (final : List σ) : List (β × List σ) → Prop
  | [] => ∃ ss, Nested wrap none events none ss ∧ final = current ++ ss
  | (block, outer) :: blocks => ∃ inner unmatched rest ended body,
      events = inner ++ .closed unmatched :: rest ∧
        Nested wrap (some block) inner (some ended) body ∧
        Runs wrap ⟨outer ++ [wrap ended (current ++ body)], blocks⟩ rest ⟨final, []⟩

theorem Reaches.placed {current : List σ} {events : List (BlockEvent β σ ε)} {final : List σ}
    {blocks : List (β × List σ)} (s : σ) (h : Reaches wrap (current ++ [s]) events final blocks) :
    Reaches wrap current (.placed s :: events) final blocks := by
  cases blocks with
  | nil =>
    obtain ⟨ss, hn, hf⟩ := h
    exact ⟨s :: ss, .placed s hn, by simpa using hf⟩
  | cons b blocks =>
    obtain ⟨inner, u, rest, ended, body, rfl, hn, hr⟩ := h
    exact ⟨.placed s :: inner, u, rest, ended, s :: body, rfl, .placed s hn, by simpa using hr⟩

/-- A whole block read at a place is one more statement there. -/
theorem Reaches.block {current : List σ} {inner rest : List (BlockEvent β σ ε)} {final : List σ}
    {blocks : List (β × List σ)} {b ended : β} {body : List σ} (u : ε)
    (hi : Nested wrap (some b) inner (some ended) body)
    (h : Reaches wrap (current ++ [wrap ended body]) rest final blocks) :
    Reaches wrap current (.opened b :: (inner ++ .closed u :: rest)) final blocks := by
  cases blocks with
  | nil =>
    obtain ⟨ss, hn, hf⟩ := h
    exact ⟨wrap ended body :: ss, .block u hi hn, by simpa using hf⟩
  | cons c blocks =>
    obtain ⟨inner', u', rest', ended', body', rfl, hn, hr⟩ := h
    exact ⟨.opened b :: (inner ++ .closed u :: inner'), u', rest', ended', wrap ended body :: body',
      by simp, .block u hi hn, by simpa using hr⟩

theorem Runs.reaches {current : List σ} {blocks : List (β × List σ)}
    {events : List (BlockEvent β σ ε)} {final : List σ}
    (h : Runs wrap ⟨current, blocks⟩ events ⟨final, []⟩) :
    Reaches wrap current events final blocks := by
  -- the events behind the end of a block are fewer, but not the tail of the list
  induction hn : events.length using Nat.strongRecOn generalizing current blocks events with
  | ind n ih =>
    cases h with
    | nil => exact ⟨[], .nil none, by simp⟩
    | @cons _ m _ event events hs h =>
      have hlt : events.length < n := by rw [← hn]; simp
      cases event with
      | placed s =>
        cases hs
        exact (ih _ hlt h rfl).placed s
      | opened b =>
        cases hs
        obtain ⟨inner, u, rest, ended, body, rfl, hi, hr⟩ := ih _ hlt h rfl
        have hrest : rest.length < n := by
          simp only [List.length_append, List.length_cons] at hlt
          omega
        exact (ih _ hrest hr rfl).block u hi
      | closed u =>
        cases blocks with
        | nil => simp [step] at hs
        | cons b blocks =>
          cases hs
          exact ⟨[], u, events, b.1, [], rfl, .nil _, by simpa using h⟩
      | branched change outside =>
        cases blocks with
        | nil => simp [step] at hs
        | cons b blocks =>
          cases hc : change b.1 with
          | none => simp [step, hc] at hs
          | some changed =>
            simp only [step, hc, Prod.mk.injEq, and_true] at hs
            subst hs
            obtain ⟨inner, u, rest, ended, body, rfl, hi, hr⟩ := ih _ hlt h rfl
            exact ⟨.branched change outside :: inner, u, rest, ended, body, rfl,
              .branched outside hc hi, hr⟩

/-- A run ends without errors and without open blocks exactly when no statement has an error and
the events are nested; the statements are then those of the nested events. -/
theorem run_eq_iff_nested {items : List (Option (BlockEvent β σ ε) × List ε)} {ss : List σ} :
    run wrap {} items = (⟨ss, []⟩, []) ↔
      (∀ item ∈ items, item.2 = []) ∧ Nested wrap none (items.filterMap (·.1)) none ss := by
  rw [run_eq_iff_runs]
  refine and_congr_right fun _ => ?_
  constructor
  · intro h
    obtain ⟨ss', hn, hf⟩ := h.reaches
    rw [List.nil_append] at hf
    exact hf ▸ hn
  · intro h
    simpa [openWith] using runs_of_nested h [] [] []

end Nesting

end DiagramLint
