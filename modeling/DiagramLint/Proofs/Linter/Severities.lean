-- Severities are for the reader only. Two linters that differ in how severe
-- they call their findings propose the same edits in every pass, and so come
-- to the same text in the same way, or to none; their reports differ in
-- severities alone.
import DiagramLint.Proofs.Linter.FreshLint

namespace DiagramLint

/-! ## Findings alike -/

/-- Two diagnostics that differ in their severity at most. -/
def Diagnostic.Alike (d d' : Diagnostic) : Prop := d' = { d with severity := d'.severity }

/-- Two lists of diagnostics that differ in severities at most. -/
abbrev AllAlike (ds ds' : List Diagnostic) : Prop := List.Forall₂ Diagnostic.Alike ds ds'

section

variable {d d' : Diagnostic} {ds ds' : List Diagnostic}

theorem Diagnostic.Alike.refl (d : Diagnostic) : d.Alike d := rfl

theorem Diagnostic.alike_withSeverity (h : d.Alike d') (s s' : Severity) :
    (d.withSeverity s).Alike (d'.withSeverity s') := by
  rw [h]
  rfl

theorem Diagnostic.alike_clampTo (h : d.Alike d') (t : Text) :
    (d.clampTo t).Alike (d'.clampTo t) := by
  rw [h]
  rfl

theorem AllAlike.refl (ds : List Diagnostic) : AllAlike ds ds :=
  List.forall₂_same.mpr fun d _ => .refl d

theorem AllAlike.append {later later' : List Diagnostic} (h : AllAlike ds ds')
    (hl : AllAlike later later') : AllAlike (ds ++ later) (ds' ++ later') :=
  List.rel_append h hl

theorem AllAlike.map (h : AllAlike ds ds') {f f' : Diagnostic → Diagnostic}
    (hf : ∀ d d', d.Alike d' → (f d).Alike (f' d')) : AllAlike (ds.map f) (ds'.map f') := by
  rw [AllAlike, List.forall₂_map_left_iff, List.forall₂_map_right_iff]
  exact h.imp hf

end

/-- Two attempts that come to results alike, or fail in the same way. -/
inductive AttemptsAlike {ε α : Type} (alike : α → α → Prop) : Except ε α → Except ε α → Prop where
  | ok {a a' : α} (h : alike a a') : AttemptsAlike alike (.ok a) (.ok a')
  | error (e : ε) : AttemptsAlike alike (.error e) (.error e)

theorem AttemptsAlike.map {ε α β : Type} {alike : α → α → Prop} {alike' : β → β → Prop}
    {attempt attempt' : Except ε α} (h : AttemptsAlike alike attempt attempt') {f f' : α → β}
    (hf : ∀ a a', alike a a' → alike' (f a) (f' a')) :
    AttemptsAlike alike' (attempt.map f) (attempt'.map f') := by
  cases h with
  | ok h => exact .ok (hf _ _ h)
  | error e => exact .error e

/-! ## Repairs do not look at severities -/

theorem propose_alike (s : Strategy) (t : Text) {d d' : Diagnostic} (h : d.Alike d') :
    s.propose t d' = s.propose t d := by
  rw [h]
  cases s <;> rfl

theorem candidates_alike (registry : Registry) (t : Text) (level : Level)
    {ds ds' : List Diagnostic} (h : AllAlike ds ds') (seen : List (String × Nat × Nat × Nat)) :
    candidates registry t level seen ds' = candidates registry t level seen ds := by
  induction h generalizing seen with
  | nil => rfl
  | @cons d d' ds ds' hd _ ih =>
    have hcandidate : ∀ code, candidate? registry t level code d' =
        candidate? registry t level code d := by
      intro code
      have hline : d'.line = d.line := by rw [hd]
      simp only [candidate?, propose_alike _ t hd, hline]
    have hcode : d'.code = d.code := by rw [hd]
    have hkey : ∀ code, repairKey code d' = repairKey code d := by
      intro code
      rw [hd]
      rfl
    simp only [candidates, hcode, hkey, hcandidate, ih]

/-- A pass accepts the same edits for findings alike. -/
theorem selectEdits_alike (registry : Registry) (t : Text) (level : Level)
    {ds ds' : List Diagnostic} (h : AllAlike ds ds') :
    selectEdits registry t ds' level = selectEdits registry t ds level := by
  rw [selectEdits, candidates_alike registry t level h]
  rfl

/-- Two outcomes of repairing a text that differ in the severities they report at most. -/
structure Outcome.Alike (o o' : Outcome) : Prop where
  fixed : o.fixed = o'.fixed
  passes : o.passes = o'.passes
  editsApplied : o.editsApplied = o'.editsApplied
  errors : AllAlike o.errors o'.errors

/-- Linters that find things alike in every text repair alike. -/
theorem convergeFrom_alike {lint lint' : Text → Except Fault (List Diagnostic)}
    (h : ∀ t, AttemptsAlike AllAlike (lint t) (lint' t)) (registry : Registry) (level : Level)
    (left count applied : Nat) (t : Text) :
    AttemptsAlike Outcome.Alike (convergeFrom lint registry level left count applied t)
      (convergeFrom lint' registry level left count applied t) := by
  induction left generalizing count applied t with
  | zero =>
    rw [convergeFrom_zero, convergeFrom_zero]
    exact (h t).map fun _ _ hds => ⟨rfl, rfl, rfl, hds⟩
  | succ left ih =>
    rw [convergeFrom_succ, convergeFrom_succ]
    have ht := h t
    generalize lint t = found at ht
    generalize lint' t = found' at ht
    cases ht with
    | error e => exact .error e
    | ok hds =>
      simp only [Except.bind, selectEdits_alike registry t level hds]
      cases selectEdits registry t _ level with
      | error e => exact .error e
      | ok edits =>
        dsimp only
        split
        · exact .ok ⟨rfl, rfl, rfl, hds⟩
        · exact ih _ _ _

/-! ## Strictness changes severities only -/

/-- Two options that differ in their strictness at most. -/
def LintOptions.Alike (o o' : LintOptions) : Prop := o.settings = o'.settings

/-- A grammar in which strictness changes severities only, and in which the last check does not
look at the severities of what was found before. -/
structure Grammar.Impartial {κ τ ε : Type} (g : Grammar κ τ ε) : Prop where
  analyze : ∀ tree tokens (o o' : LintOptions), o.Alike o' →
    AttemptsAlike AllAlike (g.analyze tree tokens o) (g.analyze tree tokens o')
  postParse : ∀ t tokens tree prior prior', AllAlike prior prior' →
    g.postParse t tokens tree prior' = g.postParse t tokens tree prior

namespace Grammar.Impartial

variable {κ τ ε : Type} {g : Grammar κ τ ε} {o o' : LintOptions}

theorem analysisOf (hg : g.Impartial) (h : o.Alike o') (tree : Option τ)
    (tokens : List (Token κ)) :
    AllAlike (g.analysisOf tree tokens o) (g.analysisOf tree tokens o') := by
  cases tree with
  | none => exact .nil
  | some tree =>
    have hresults := hg.analyze tree tokens o o' h
    unfold Grammar.analysisOf
    dsimp only
    generalize g.analyze tree tokens o = r at hresults
    generalize g.analyze tree tokens o' = r' at hresults
    cases hresults with
    | ok hds => exact hds
    | error reason => exact .refl _

theorem priorTo (hg : g.Impartial) (h : o.Alike o') (t : Text) (lexed : Lexed κ) :
    AllAlike (g.priorTo t o lexed) (g.priorTo t o' lexed) :=
  (AllAlike.refl _).append (hg.analysisOf h _ _)

theorem report (hg : g.Impartial) (h : o.Alike o') (t : Text) (lexed : Lexed κ) :
    AllAlike (g.report t o lexed).diagnostics (g.report t o' lexed).diagnostics := by
  have hprior := hg.priorTo h t lexed
  have hall : AllAlike
      (g.priorTo t o lexed ++ hookDiagnostics (g.postParse t lexed.tokens
        (g.parseOf lexed).tree (g.priorTo t o lexed)))
      (g.priorTo t o' lexed ++ hookDiagnostics (g.postParse t lexed.tokens
        (g.parseOf lexed).tree (g.priorTo t o' lexed))) := by
    rw [hg.postParse _ _ _ _ _ hprior]
    exact hprior.append (.refl _)
  exact hall.map fun _ _ hd => Diagnostic.alike_clampTo hd t

theorem diagnostics (hg : g.Impartial) (h : o.Alike o') (t : Text) :
    AttemptsAlike AllAlike ((g.lint t o).map (·.diagnostics)) ((g.lint t o').map (·.diagnostics)) := by
  unfold Grammar.lint
  cases g.tokenize t with
  | error e => exact .error e
  | ok lexed => exact .ok (hg.report h t lexed)

end Grammar.Impartial

/-! ## The built-in dialects -/

theorem alreadyReported_alike {prior prior' : List Diagnostic} (h : AllAlike prior prior')
    (code : String) (line : Nat) :
    alreadyReported prior' code line = alreadyReported prior code line := by
  induction h with
  | nil => rfl
  | @cons d d' _ _ hd _ ih =>
    simp only [alreadyReported, List.any_cons] at ih ⊢
    rw [ih, hd]
    rfl

theorem Flowchart.reservedIds_alike {prior prior' : List Diagnostic} (h : AllAlike prior prior')
    (previous : Option Tok) (tokens : List Tok) :
    reservedIds prior' previous tokens = reservedIds prior previous tokens := by
  induction tokens generalizing prior prior' previous with
  | nil => rfl
  | cons t rest ih =>
    have hmore : AllAlike (prior ++ [reservedFinding t]) (prior' ++ [reservedFinding t]) :=
      h.append (.refl _)
    simp only [reservedIds, alreadyReported_alike h, ih h, ih hmore]

theorem Flowchart.impartial : grammar.Impartial where
  analyze := by
    intro chart tokens o o' h
    have hrequired : directionRequired o' = directionRequired o := by
      rw [directionRequired, directionRequired, h]
    simp only [grammar, analyze, hrequired]
    cases directionRequired o with
    | error reason => exact .error reason
    | ok required =>
      refine .ok (AllAlike.append ?_ (.refl _))
      split
      · exact .cons rfl .nil
      · exact .nil
  postParse := by
    intro t tokens tree prior prior' h
    simp only [grammar, reservedIds_alike h]

theorem Pie.entryFindings_alike (strict strict' : Bool) (seen : List (String × Nat))
    (entries : List Entry) :
    AllAlike (entryFindings strict seen entries) (entryFindings strict' seen entries) := by
  induction entries generalizing seen with
  | nil => exact .nil
  | cons e rest ih =>
    have hvalue : AllAlike (valueFindings e strict) (valueFindings e strict') := by
      unfold valueFindings
      dsimp only
      split
      · exact .refl _
      · split
        · exact .cons rfl .nil
        · exact .nil
    unfold entryFindings
    refine hvalue.append ?_
    split
    · exact .cons rfl (ih _)
    · exact ih _

theorem Pie.impartial : grammar.Impartial where
  analyze := fun chart _ o o' _ => .ok (entryFindings_alike o.strict o'.strict [] chart.entries)
  postParse := fun _ _ _ _ _ _ => rfl

theorem Sequence.impartial : grammar.Impartial where
  analyze := fun _ _ _ _ _ => .ok .nil
  postParse := fun _ _ _ _ _ _ => rfl

/-- Strictness changes severities only in every built-in dialect. -/
theorem Dialect.diagnostics_alike {d : Dialect} (hd : d ∈ builtin) {o o' : LintOptions}
    (h : o.Alike o') (t : Text) :
    AttemptsAlike AllAlike (d.diagnostics o t) (d.diagnostics o' t) := by
  simp only [builtin, List.mem_cons, List.not_mem_nil, or_false] at hd
  rcases hd with rfl | rfl | rfl
  · exact Flowchart.impartial.diagnostics h t
  · exact Pie.impartial.diagnostics h t
  · exact Sequence.impartial.diagnostics h t

/-! ## Configured severities -/

namespace Linter

variable {l l' : Linter}

/-- Two linters that differ in their strictness and in configured severities at most. -/
structure Alike (l l' : Linter) : Prop where
  dialects : l'.dialects = l.dialects
  config : l'.config =
    { l.config with strict := l'.config.strict, severities := l'.config.severities }

theorem Alike.filter (h : l.Alike l') {ds ds' : List Diagnostic} (hds : AllAlike ds ds') :
    AllAlike (l.filter ds) (l'.filter ds') := by
  have hreported : ∀ d d', d.Alike d' → l'.isReported d' = l.isReported d := by
    intro d d' hd
    have henabled : l'.config.isEnabled = l.config.isEnabled := by
      rw [h.config]
      rfl
    rw [isReported, isReported, henabled, hd]
  have hkept : AllAlike (ds.filter l.isReported) (ds'.filter l'.isReported) := by
    refine List.rel_filter ?_ hds
    intro d d' hd
    simp only [hreported d d' hd]
  refine hkept.map ?_
  intro d d' hd
  obtain ⟨s, hs⟩ := l.exists_adjust d
  obtain ⟨s', hs'⟩ := l'.exists_adjust d'
  rw [hs, hs']
  exact Diagnostic.alike_withSeverity hd s s'

/-- Linters alike repair a text alike. -/
theorem Alike.fixText (h : l.Alike l') (hl : ∀ d ∈ l.dialects, d ∈ Dialect.builtin) (t : Text) :
    AttemptsAlike Outcome.Alike (l.fixText t) (l'.fixText t) := by
  have hdetect : l'.detect? t = l.detect? t := by
    rw [detect?, h.dialects, detect?]
  have hlevel : l'.config.level = l.config.level := by rw [h.config]
  unfold Linter.fixText
  rw [hdetect]
  cases hd : l.detect? t with
  | none =>
    have hunknown : l'.unknown = l.unknown := by
      rw [unknown, h.dialects, unknown]
    refine .ok ⟨rfl, rfl, rfl, h.filter ?_⟩
    rw [hunknown]
    exact .refl _
  | some d =>
    have hoptions : l.config.lintOptions.Alike l'.config.lintOptions := by
      rw [h.config]
      rfl
    have hbuiltin := hl d (List.mem_of_find?_eq_some hd)
    dsimp only
    rw [hlevel]
    have hlint (u : Text) : AttemptsAlike AllAlike (l.lintIn d u) (l'.lintIn d u) :=
      (Dialect.diagnostics_alike hbuiltin hoptions u).map fun _ _ hds => h.filter hds
    exact convergeFrom_alike hlint Registry.builtin l.config.level maxPasses 0 0 t

end Linter

/-! ## The law -/

/-- When a linter of built-in dialects repairs a text. -/
theorem Linter.exists_fixText_iff (l : Linter) (hl : ∀ d ∈ l.dialects, d ∈ Dialect.builtin)
    (t : Text) : (∃ o, l.fixText t = .ok o) ↔
      ∀ d, l.detect? t = some d → d.LexesThroughout (l.lintIn d) l.config.level t := by
  unfold fixText
  cases hd : l.detect? t with
  | none => simp
  | some d =>
    have hbuiltin := hl d (List.mem_of_find?_eq_some hd)
    simp [l.exists_converge_lintIn_iff hbuiltin]

/-- Severities never influence repairs: neither strictness nor the severities configured change
the text that comes out, the passes made or the edits applied, and the diagnostics left differ in
their severities alone. Nor do they decide on whether repairing comes to an end: it does exactly
when the lexer does, on the text and on every text that the first passes make of it. -/
theorem severities_never_influence_repairs (t : Text) :
    (∀ dialects, (∀ d ∈ dialects, d ∈ Dialect.builtin) →
      ∀ (config : Config) (strict : Bool) (severities : Named Severity),
        let l : Linter := { config, dialects }
        let l' : Linter := { config := { config with strict, severities }, dialects }
        AttemptsAlike Outcome.Alike (l.fixText t) (l'.fixText t) ∧
          ((∃ o, l.fixText t = .ok o) ↔
            ∀ d, l.detect? t = some d → d.LexesThroughout (l.lintIn d) config.level t)) ∧
    ∀ d ∈ Dialect.builtin, ∀ (settings : List (String × Json)) (level : Level),
      AttemptsAlike Outcome.Alike (d.fix t ⟨true, settings⟩ level)
          (d.fix t ⟨false, settings⟩ level) ∧
        ((∃ o, d.fix t ⟨true, settings⟩ level = .ok o) ↔
          d.LexesThroughout (d.diagnostics ⟨true, settings⟩) level t) := by
  constructor
  · intro dialects hd config strict severities l l'
    have halike : l.Alike l' := ⟨rfl, rfl⟩
    exact ⟨halike.fixText hd t, l.exists_fixText_iff hd t⟩
  · intro d hd settings level
    have hoptions : LintOptions.Alike ⟨true, settings⟩ ⟨false, settings⟩ := rfl
    exact ⟨convergeFrom_alike (Dialect.diagnostics_alike hd hoptions) Registry.builtin level
      maxPasses 0 0 t, Dialect.exists_fix_iff hd⟩

/-- A chart with a wrong arrow, which is repaired, and without a direction, which is reported the
more severely the stricter linting is. -/
def undirectedChart : Text := "flowchart\nA->B".toList

theorem undirectedChart_is_repaired_alike :
    (∀ d ∈ Dialect.builtin, d ∈ Dialect.builtin) ∧
    (∃ o o', ({} : Linter).fixText undirectedChart = .ok o ∧
      ({ config := { strict := true } } : Linter).fixText undirectedChart = .ok o' ∧
      o.Alike o' ∧ o.errors ≠ o'.errors) ∧
    Dialect.flowchart ∈ Dialect.builtin ∧
    ∃ o o', Dialect.flowchart.fix undirectedChart ⟨true, []⟩ .safe = .ok o ∧
      Dialect.flowchart.fix undirectedChart ⟨false, []⟩ .safe = .ok o' ∧ o.Alike o' := by
  have hlaw := severities_never_influence_repairs undirectedChart
  have hmem : Dialect.flowchart ∈ Dialect.builtin := List.mem_cons_self
  obtain ⟨hlinters, -⟩ := hlaw.1 _ (fun _ h => h) {} true []
  obtain ⟨hdialects, -⟩ := hlaw.2 _ hmem [] .safe
  have hdiffer : ∃ o, ({} : Linter).fixText undirectedChart = .ok o ∧
      ∃ o', ({ config := { strict := true } } : Linter).fixText undirectedChart = .ok o' ∧
        o.errors ≠ o'.errors := by decide +kernel
  have hreturns : ∃ o, Dialect.flowchart.fix undirectedChart ⟨true, []⟩ .safe = .ok o ∧
      o.passes = 1 := by decide +kernel
  refine ⟨fun _ h => h, ?_, hmem, ?_⟩
  · obtain ⟨o, ho, o', ho', hne⟩ := hdiffer
    rw [ho, ho'] at hlinters
    cases hlinters with
    | ok halike => exact ⟨o, o', ho, ho', halike, hne⟩
  · obtain ⟨o, ho, -⟩ := hreturns
    rw [ho] at hdialects ⊢
    generalize Dialect.flowchart.fix undirectedChart ⟨false, []⟩ .safe = other at hdialects ⊢
    cases hdialects with
    | ok halike => exact ⟨o, _, rfl, rfl, halike⟩

/-- No linter repairs a text that its first pass makes one that the lexer never gets through. -/
theorem spacedLabels_are_repaired_at_no_severity :
    ¬ ∃ o o', ({} : Linter).fixText spacedLabels = .ok o ∧
      ({ config := { strict := true } } : Linter).fixText spacedLabels = .ok o' ∧ o.Alike o' := by
  have hendless : ({} : Linter).fixText spacedLabels = .error .endless := by decide +kernel
  rw [hendless]
  exact fun ⟨_, _, h, _⟩ => nomatch h

end DiagramLint
