-- The laws of one pass. A pass goes through its proposals and accepts each
-- one that collides with nothing accepted before, so what it accepts never
-- collides and can always be applied.
import DiagramLint.Repair.Pass
import DiagramLint.Proofs.Edit.Splice
import DiagramLint.Proofs.Repair.Proposals

namespace DiagramLint

/-! ## Where proposals come from -/

/-- A proposal of a strategy for a diagnostic. -/
def Proposed (registry : Registry) (t : Text) (ds : List Diagnostic) (p : Proposal) : Prop :=
  ∃ d ∈ ds, ∃ code strategy, d.code = some code ∧ registry.get? code = some strategy ∧
    strategy.propose t d = .ok (some p)

theorem candidate?_eq_some {registry : Registry} {t : Text} {level : Level} {code : String}
    {d : Diagnostic} {c : Candidate} (h : candidate? registry t level code d = .ok (some c)) :
    ∃ strategy, registry.get? code = some strategy ∧ strategy.minLevel.within level = true ∧
      strategy.propose t d = .ok (some c.proposal) := by
  unfold candidate? at h
  split at h
  · cases h
  rename_i strategy hs
  refine ⟨strategy, hs, ?_⟩
  split at h
  · rename_i hlevel
    obtain ⟨proposal?, hp, h⟩ := map_eq_ok_iff.mp h
    obtain ⟨proposal, hfiltered, rfl⟩ := Option.map_eq_some_iff.mp h
    obtain ⟨rfl, -⟩ := Option.filter_eq_some_iff.mp hfiltered
    exact ⟨hlevel, hp⟩
  · cases h

/-- What the strategy for a code proposes is the candidate. -/
theorem candidate?_propose {registry : Registry} {t : Text} {level : Level} {code : String}
    {d : Diagnostic} {c : Candidate} {strategy : Strategy}
    (h : candidate? registry t level code d = .ok (some c)) (hs : registry.get? code = some strategy) :
    strategy.propose t d = .ok (some c.proposal) := by
  obtain ⟨own, hown, -, hp⟩ := candidate?_eq_some h
  rw [hs, Option.some.injEq] at hown
  exact hown ▸ hp

/-- A strategy of the built-in repairs proposes at the level of safe repairs only if it is safe. -/
theorem candidate?_safe {t : Text} {code : String} {d : Diagnostic} {c : Candidate}
    (strategy : Strategy) (h : candidate? Registry.builtin t .safe code d = .ok (some c))
    (hs : Registry.builtin.get? code = some strategy) :
    strategy.minLevel = .safe ∧ strategy.propose t d = .ok (some c.proposal) := by
  obtain ⟨strategy', hs', hlevel, hp⟩ := candidate?_eq_some h
  rw [hs, Option.some.injEq] at hs'
  subst hs'
  refine ⟨?_, hp⟩
  cases hmin : strategy.minLevel with
  | safe => rfl
  | all =>
    rw [hmin] at hlevel
    cases hlevel

theorem mem_candidates {registry : Registry} {t : Text} {level : Level}
    {seen : List (String × Nat × Nat × Nat)} {ds : List Diagnostic} {cs : List Candidate}
    (h : candidates registry t level seen ds = .ok cs) {c : Candidate} (hc : c ∈ cs) :
    ∃ d ∈ ds, ∃ code, d.code = some code ∧
      candidate? registry t level code d = .ok (some c) := by
  induction ds generalizing seen cs with
  | nil =>
    cases h
    cases hc
  | cons d rest ih =>
    have later : ∀ {seen cs}, candidates registry t level seen rest = .ok cs → c ∈ cs →
        ∃ e ∈ d :: rest, ∃ code, e.code = some code ∧
          candidate? registry t level code e = .ok (some c) := by
      intro seen cs h hc
      obtain ⟨e, he, hrest⟩ := ih h hc
      exact ⟨e, List.mem_cons_of_mem _ he, hrest⟩
    unfold candidates at h
    split at h
    · exact later h hc
    · rename_i code hcode
      split at h
      · exact later h hc
      · obtain ⟨own, hown, h⟩ := bind_eq_ok_iff.mp h
        obtain ⟨others, hothers, h⟩ := bind_eq_ok_iff.mp h
        cases h
        rcases List.mem_append.mp hc with hc | hc
        · rw [Option.mem_toList] at hc
          exact ⟨d, List.mem_cons_self, code, hcode, hc ▸ hown⟩
        · exact later hothers hc

theorem proposed_of_mem_candidates {registry : Registry} {t : Text} {level : Level}
    {seen : List (String × Nat × Nat × Nat)} {ds : List Diagnostic} {cs : List Candidate}
    (h : candidates registry t level seen ds = .ok cs) :
    ∀ c ∈ cs, Proposed registry t ds c.proposal := by
  intro c hc
  obtain ⟨d, hd, code, hcode, hcandidate⟩ := mem_candidates h hc
  obtain ⟨strategy, hs, -, hp⟩ := candidate?_eq_some hcandidate
  exact ⟨d, hd, code, strategy, hcode, hs, hp⟩

theorem mem_wholeLineFirst {cs : List Candidate} {c : Candidate} (h : c ∈ wholeLineFirst cs) :
    c ∈ cs := by
  rcases List.mem_append.mp h with h | h
  · exact (List.mem_filter.mp h).1
  · exact (List.mem_filter.mp h).1

/-! ## What a pass accepts -/

/-- The ranges accepted are those of the edits, no two of which collide. -/
structure Selection.Apart (t : Text) (s : Selection) : Prop where
  ranges_eq : s.ranges = s.edits.map (·.resolve t)
  apart : s.edits.Pairwise fun a b => (a.resolve t).overlaps (b.resolve t) = false

theorem Selection.apart_empty (t : Text) : Selection.Apart t {} := ⟨rfl, List.Pairwise.nil⟩

/-- Accepting a proposal of one edit, or leaving it, keeps what is accepted apart. -/
theorem Selection.Apart.consider {t : Text} {s : Selection} {c : Candidate} (h : s.Apart t)
    (hone : ∃ edit, c.proposal.edits = [edit]) : (Selection.consider t s c).Apart t := by
  obtain ⟨edit, hedit⟩ := hone
  unfold Selection.consider
  dsimp only
  split
  · exact h
  · rename_i hfree
    simp only [Bool.or_eq_true, not_or, Selection.collides, hedit, List.map_cons, List.map_nil,
      List.any_cons, List.any_nil, Bool.or_false, List.any_eq_true, not_exists, not_and,
      h.ranges_eq, List.mem_map] at hfree
    refine ⟨by simp [h.ranges_eq], ?_⟩
    rw [hedit, List.pairwise_append]
    refine ⟨h.apart, List.pairwise_singleton _ _, ?_⟩
    intro a ha b hb
    rw [List.mem_singleton] at hb
    subst hb
    have := hfree.2 (a.resolve t) ⟨a, ha, rfl⟩
    rw [ByteRange.overlaps_comm]
    simpa using this

theorem Selection.Apart.foldl_consider {t : Text} {cs : List Candidate} {s : Selection}
    (h : s.Apart t) (hone : ∀ c ∈ cs, ∃ edit, c.proposal.edits = [edit]) :
    (cs.foldl (Selection.consider t) s).Apart t := by
  induction cs generalizing s with
  | nil => exact h
  | cons c rest ih =>
    exact ih (h.consider (hone c List.mem_cons_self))
      fun c hc => hone c (List.mem_cons_of_mem _ hc)

/-- Every edit accepted was proposed. -/
theorem Selection.mem_foldl_consider {t : Text} {cs : List Candidate} {s : Selection} {edit : Edit}
    (h : edit ∈ (cs.foldl (Selection.consider t) s).edits) :
    edit ∈ s.edits ∨ ∃ c ∈ cs, edit ∈ c.proposal.edits := by
  induction cs generalizing s with
  | nil => exact Or.inl h
  | cons c rest ih =>
    rcases ih h with h | ⟨c', hc', h⟩
    · unfold Selection.consider at h
      dsimp only at h
      split at h
      · exact Or.inl h
      · rcases List.mem_append.mp h with h | h
        · exact Or.inl h
        · exact Or.inr ⟨c, List.mem_cons_self, h⟩
    · exact Or.inr ⟨c', List.mem_cons_of_mem _ hc', h⟩

section

variable {registry : Registry} {t : Text} {ds : List Diagnostic} {level : Level}
  {edits : List Edit} {edit : Edit}

theorem selectEdits_eq_ok_iff : selectEdits registry t ds level = .ok edits ↔
    ∃ cs, candidates registry t level [] ds = .ok cs ∧ acceptedEdits t cs = edits :=
  map_eq_ok_iff

theorem selectEdits_apart (h : selectEdits registry t ds level = .ok edits) :
    edits.Pairwise fun a b => (a.resolve t).overlaps (b.resolve t) = false := by
  obtain ⟨cs, hcs, rfl⟩ := selectEdits_eq_ok_iff.mp h
  refine (Selection.Apart.foldl_consider (Selection.apart_empty t) ?_).apart
  intro c hc
  obtain ⟨d, -, code, strategy, -, -, hp⟩ :=
    proposed_of_mem_candidates hcs c (mem_wholeLineFirst hc)
  exact Strategy.propose_single hp

/-- An edit accepted at a level is one of a candidate of that level. -/
theorem exists_candidate_of_mem_selectEdits (h : selectEdits registry t ds level = .ok edits)
    (hedit : edit ∈ edits) :
    ∃ d ∈ ds, ∃ code c, d.code = some code ∧
      candidate? registry t level code d = .ok (some c) ∧ edit ∈ c.proposal.edits := by
  obtain ⟨cs, hcs, rfl⟩ := selectEdits_eq_ok_iff.mp h
  rcases Selection.mem_foldl_consider hedit with h | ⟨c, hc, h⟩
  · simp at h
  · obtain ⟨d, hd, code, hcode, hcandidate⟩ := mem_candidates hcs (mem_wholeLineFirst hc)
    exact ⟨d, hd, code, c, hcode, hcandidate, h⟩

theorem mem_selectEdits (h : selectEdits registry t ds level = .ok edits) (hedit : edit ∈ edits) :
    ∃ p, Proposed registry t ds p ∧ edit ∈ p.edits := by
  obtain ⟨d, hd, code, c, hcode, hcandidate, hmem⟩ := exists_candidate_of_mem_selectEdits h hedit
  obtain ⟨strategy, hs, -, hp⟩ := candidate?_eq_some hcandidate
  exact ⟨c.proposal, ⟨d, hd, code, strategy, hcode, hs, hp⟩, hmem⟩

theorem applyEdits_selectEdits (h : selectEdits registry t ds level = .ok edits) :
    t.applyEdits edits = some (t.splice edits) :=
  Text.applyEdits_eq_splice (List.pairwise_map.mpr (selectEdits_apart h))

end

/-! ## When a pass has an answer -/

/-- The strategy that a pass asks about a diagnostic: the one registered for its code, if it may
act at the level. -/
def Registry.asks (registry : Registry) (level : Level) (d : Diagnostic) : Option Strategy :=
  (d.code.bind registry.get?).filter (·.minLevel.within level)

/-- Every strategy that a pass asks has an answer. -/
def Answered (registry : Registry) (level : Level) (t : Text) (ds : List Diagnostic) : Prop :=
  ∀ d ∈ ds, ∀ s, registry.asks level d = some s → s.Answers t d

variable {registry : Registry} {t : Text} {level : Level}

theorem exists_candidate?_iff {code : String} {d : Diagnostic} (hcode : d.code = some code) :
    (∃ c, candidate? registry t level code d = .ok c) ↔
      ∀ s, registry.asks level d = some s → s.Answers t d := by
  unfold candidate? Registry.asks
  rw [hcode, Option.bind_some]
  cases registry.get? code with
  | none => simp
  | some strategy =>
    by_cases hlevel : strategy.minLevel.within level = true
    · simp [hlevel, exists_map_eq_ok_iff, Strategy.exists_propose_iff]
    · simp [hlevel]

/-- Diagnostics of one key are answered alike, so that asking about the first of them is enough. -/
theorem answered_of_repairKey_eq {code : String} {d e : Diagnostic} (hd : d.code = some code)
    (he : e.code = some code) (hkey : repairKey code d = repairKey code e)
    (h : ∀ s, registry.asks level d = some s → s.Answers t d) :
    ∀ s, registry.asks level e = some s → s.Answers t e := by
  simp only [repairKey, Prod.mk.injEq, true_and] at hkey
  obtain ⟨hline, hcolumn, hlength⟩ := hkey
  intro s hs
  have hasked : registry.asks level d = some s := by
    rw [← hs, Registry.asks, Registry.asks, hd, he]
  have hanswer := h s hasked
  cases s with
  | replaceToken | repairBracket | encodeLabel =>
    simpa only [Strategy.Answers, Caret.of?, Caret.Fits, hline, hcolumn, hlength] using hanswer
  | replaceKeyword | closeBlock | splitStatement | insertText => trivial

theorem exists_candidates_iff {seen : List (String × Nat × Nat × Nat)} {ds : List Diagnostic}
    (hseen : ∀ d code, d.code = some code → repairKey code d ∈ seen →
      ∀ s, registry.asks level d = some s → s.Answers t d) :
    (∃ cs, candidates registry t level seen ds = .ok cs) ↔ Answered registry level t ds := by
  induction ds generalizing seen with
  | nil => exact iff_of_true ⟨_, rfl⟩ (by simp [Answered])
  | cons d rest ih =>
    have hcons : Answered registry level t (d :: rest) ↔
        (∀ s, registry.asks level d = some s → s.Answers t d) ∧ Answered registry level t rest :=
      List.forall_mem_cons
    rw [hcons, candidates]
    cases hcode : d.code with
    | none =>
      have hnone : registry.asks level d = none := by rw [Registry.asks, hcode]; rfl
      simp [ih hseen, hnone]
    | some code =>
      dsimp only
      split
      · rename_i hcontained
        rw [ih hseen, and_iff_right (hseen d code hcode (by simpa using hcontained))]
      · by_cases hown : ∀ s, registry.asks level d = some s → s.Answers t d
        · obtain ⟨own, hc⟩ := (exists_candidate?_iff hcode).mpr hown
          have hseen' : ∀ e code', e.code = some code' →
              repairKey code' e ∈ repairKey code d :: seen →
              ∀ s, registry.asks level e = some s → s.Answers t e := by
            intro e code' he hmem
            rcases List.mem_cons.mp hmem with hkey | hmem
            · obtain rfl : code' = code := congrArg Prod.fst hkey
              exact answered_of_repairKey_eq hcode he hkey.symm hown
            · exact hseen e code' he hmem
          rw [and_iff_right hown, ← ih hseen', hc]
          simp [bind_eq_ok_iff, pure, Except.pure]
        · refine iff_of_false (fun ⟨cs, h⟩ => ?_) fun h => hown h.1
          obtain ⟨own, hc, -⟩ := bind_eq_ok_iff.mp h
          exact hown ((exists_candidate?_iff hcode).mp ⟨own, hc⟩)

/-- A pass has an answer exactly when every strategy that it asks has one. -/
theorem exists_selectEdits_iff {ds : List Diagnostic} :
    (∃ edits, selectEdits registry t ds level = .ok edits) ↔ Answered registry level t ds := by
  unfold selectEdits
  rw [exists_map_eq_ok_iff]
  exact exists_candidates_iff (by simp)

/-! ## The law of a pass -/

/-- The edits of a pass never collide, and applying them to the text they were made for always
gives a text: each range lies on whole characters of the text when its turn comes. A pass has edits
to make, or none, exactly when every strategy that it asks has an answer. -/
theorem accepted_edits_never_collide (registry : Registry) (t : Text) (ds : List Diagnostic)
    (level : Level) :
    ((∃ edits, selectEdits registry t ds level = .ok edits) ↔ Answered registry level t ds) ∧
      ∀ edits, selectEdits registry t ds level = .ok edits →
        edits.Pairwise (fun a b => (a.resolve t).overlaps (b.resolve t) = false) ∧
          ∃ fixed, t.applyEdits edits = some fixed :=
  ⟨exists_selectEdits_iff, fun _ h => ⟨selectEdits_apart h, _, applyEdits_selectEdits h⟩⟩

/-- A link of a flowchart with too short an arrow. -/
def shortArrow : Text := "A -> B".toList

/-- A finding about the arrow that spans as many characters as 64 bits can count. -/
def overlongFinding : Diagnostic where
  line := 1
  column := 3
  message := "Invalid arrow"
  severity := .error
  code := some Code.arrowInvalid
  length := some maxWord

theorem an_overlong_finding_stops_a_pass :
    selectEdits Registry.builtin shortArrow [overlongFinding] .safe = .error .overflow := by
  decide +kernel

end DiagramLint
