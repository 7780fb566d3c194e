-- The convergence law: repairing is a pass iterated until it changes nothing, five times at
-- most; what it reports belongs to the text it returns, and its counts are those of the passes
-- it made. It comes to an end exactly when five passes in a row do.
import DiagramLint.Repair.Convergence
import DiagramLint.Proofs.Repair.Selection

namespace DiagramLint

variable (lint : Text → Except Fault (List Diagnostic)) (registry : Registry) (level : Level)

/-! ## One pass -/

/-- The edits a pass accepts on a text. -/
def passEdits (t : Text) : Except Fault (List Edit) := do
  selectEdits registry t (← lint t) level

/-- The text after one pass. -/
def pass (t : Text) : Except Fault Text := do
  let (_, next) ← repairOnce registry level t (← lint t)
  return next

/-- A pass accepts the repair of a diagnostic with the code: the edits proposed for it are among
those the pass makes. -/
def Accepts (code : String) (t : Text) : Prop :=
  ∃ ds, lint t = .ok ds ∧ ∃ edits, selectEdits registry t ds level = .ok edits ∧
    ∃ d ∈ ds, d.code = some code ∧ ∃ c, candidate? registry t level code d = .ok (some c) ∧
      ∀ e ∈ c.proposal.edits, e ∈ edits

instance (code : String) (t : Text) : Decidable (Accepts lint registry level code t) :=
  inferInstanceAs (Decidable (∃ ds, lint t = .ok ds ∧
    ∃ edits, selectEdits registry t ds level = .ok edits ∧ ∃ d ∈ ds, d.code = some code ∧
      ∃ c, candidate? registry t level code d = .ok (some c) ∧
        ∀ e ∈ c.proposal.edits, e ∈ edits))

/-- A pass makes an edit that is proposed for a diagnostic with the code. -/
def AcceptsEdit (code : String) (t : Text) (edit : Edit) : Prop :=
  ∃ ds, lint t = .ok ds ∧ ∃ edits, selectEdits registry t ds level = .ok edits ∧ edit ∈ edits ∧
    ∃ d ∈ ds, d.code = some code ∧ ∃ c, candidate? registry t level code d = .ok (some c) ∧
      edit ∈ c.proposal.edits

instance (code : String) (t : Text) (edit : Edit) :
    Decidable (AcceptsEdit lint registry level code t edit) :=
  inferInstanceAs (Decidable (∃ ds, lint t = .ok ds ∧
    ∃ edits, selectEdits registry t ds level = .ok edits ∧ edit ∈ edits ∧
      ∃ d ∈ ds, d.code = some code ∧ ∃ c, candidate? registry t level code d = .ok (some c) ∧
        edit ∈ c.proposal.edits))

/-- The text after a number of passes. -/
def passes : Nat → Text → Except Fault Text
  | 0, t => .ok t
  | n + 1, t => do passes n (← pass lint registry level t)

/-- How many edits the first passes from a text make together. -/
def editsOfPasses : Nat → Text → Except Fault Nat
  | 0, _ => .ok 0
  | n + 1, t => do
    let edits ← passEdits lint registry level t
    return edits.length + (← editsOfPasses n (← pass lint registry level t))

variable {lint registry level} {t u : Text} {edits : List Edit}

theorem repairOnce_eq (ds : List Diagnostic) :
    repairOnce registry level t ds =
      (selectEdits registry t ds level).map fun edits => (edits, t.splice edits) := by
  unfold repairOnce
  cases h : selectEdits registry t ds level with
  | error e => rfl
  | ok edits =>
    simp only [bind, Except.bind, applyEdits_selectEdits h]
    rfl

theorem passEdits_eq_ok_iff : passEdits lint registry level t = .ok edits ↔
    ∃ ds, lint t = .ok ds ∧ selectEdits registry t ds level = .ok edits :=
  bind_eq_ok_iff

theorem pass_eq_ok_iff : pass lint registry level t = .ok u ↔
    ∃ edits, passEdits lint registry level t = .ok edits ∧ t.splice edits = u := by
  unfold pass passEdits
  simp only [bind_eq_ok_iff, repairOnce_eq, map_eq_ok_iff, pure, Except.pure, Except.ok.injEq,
    Prod.exists, Prod.mk.injEq]
  constructor
  · rintro ⟨ds, hds, edits, next, ⟨_, hedits, rfl, rfl⟩, rfl⟩
    exact ⟨_, ⟨ds, hds, hedits⟩, rfl⟩
  · rintro ⟨edits, ⟨ds, hds, hedits⟩, rfl⟩
    exact ⟨ds, hds, edits, _, ⟨edits, hedits, rfl, rfl⟩, rfl⟩

theorem pass_of_passEdits (h : passEdits lint registry level t = .ok edits) :
    pass lint registry level t = .ok (t.splice edits) :=
  pass_eq_ok_iff.mpr ⟨edits, h, rfl⟩

/-- The edits of a pass do not collide. -/
theorem separate_passEdits (h : passEdits lint registry level t = .ok edits) :
    Separate (t.changes edits) := by
  obtain ⟨ds, -, hedits⟩ := passEdits_eq_ok_iff.mp h
  exact List.pairwise_map.mpr (selectEdits_apart hedits)

/-- A pass comes to a text exactly when the text can be linted and every strategy that is asked
about what linting finds has an answer. -/
theorem exists_pass_iff : (∃ u, pass lint registry level t = .ok u) ↔
    ∃ ds, lint t = .ok ds ∧ Answered registry level t ds := by
  simp only [pass_eq_ok_iff, passEdits_eq_ok_iff, ← exists_selectEdits_iff]
  constructor
  · rintro ⟨_, edits, ⟨ds, hds, hedits⟩, -⟩
    exact ⟨ds, hds, edits, hedits⟩
  · rintro ⟨ds, hds, edits, hedits⟩
    exact ⟨_, edits, ⟨ds, hds, hedits⟩, rfl⟩

/-! ## The loop -/

variable (lint registry level)

/-- The loop of `converge`, with a linter that has no effects. -/
def convergeFrom (left count applied : Nat) (t : Text) : Except Fault Outcome :=
  convergeFromM lint registry level left count applied t

/-- What a loop that may make `left` passes comes to, in terms of the passes it makes. -/
structure RunsTo (left count applied : Nat) (t : Text) (o : Outcome) (made : Nat) : Prop where
  made_le : made ≤ left
  passes_eq : o.passes = count + made
  fixed_eq : passes lint registry level made t = .ok o.fixed
  changes : ∀ i < made, ∃ u v, passes lint registry level i t = .ok u ∧
    pass lint registry level u = .ok v ∧ v ≠ u
  errors_eq : lint o.fixed = .ok o.errors
  edits_eq : ∃ n, editsOfPasses lint registry level made t = .ok n ∧ o.editsApplied = applied + n
  settled : made < left → pass lint registry level o.fixed = .ok o.fixed

variable {lint registry level} {left count applied made : Nat} {o : Outcome}

theorem converge_eq : converge lint registry t level =
    convergeFrom lint registry level maxPasses 0 0 t := rfl

theorem convergeFrom_zero : convergeFrom lint registry level 0 count applied t =
    (lint t).map fun ds => ⟨t, ds, count, applied⟩ := by
  unfold convergeFrom convergeFromM
  cases lint t <;> rfl

/-- A loop that may make another pass makes it, and goes on only if it changes the text. -/
theorem convergeFrom_succ : convergeFrom lint registry level (left + 1) count applied t =
    (lint t).bind fun ds => (selectEdits registry t ds level).bind fun edits =>
      if t.splice edits = t then .ok ⟨t, ds, count, applied⟩
      else convergeFrom lint registry level left (count + 1) (applied + edits.length)
        (t.splice edits) := by
  have hstep : convergeFrom lint registry level (left + 1) count applied t =
      (lint t).bind fun ds => (repairOnce registry level t ds).bind fun (edits, next) =>
        if next = t then .ok ⟨t, ds, count, applied⟩
        else convergeFrom lint registry level left (count + 1) (applied + edits.length) next := rfl
  rw [hstep]
  congr 1
  funext ds
  rw [repairOnce_eq]
  cases selectEdits registry t ds level <;> rfl

theorem RunsTo.stop {ds : List Diagnostic} (hds : lint t = .ok ds)
    (h : 0 < left → pass lint registry level t = .ok t) :
    RunsTo lint registry level left count applied t ⟨t, ds, count, applied⟩ 0 where
  made_le := Nat.zero_le _
  passes_eq := rfl
  fixed_eq := rfl
  changes := by
    intro i hi
    omega
  errors_eq := hds
  edits_eq := ⟨0, rfl, rfl⟩
  settled := h

theorem RunsTo.step (hedits : passEdits lint registry level t = .ok edits)
    (hne : t.splice edits ≠ t)
    (h : RunsTo lint registry level left (count + 1) (applied + edits.length) (t.splice edits) o
      made) : RunsTo lint registry level (left + 1) count applied t o (made + 1) := by
  have hpass := pass_of_passEdits hedits
  have hmore (n : Nat) :
      passes lint registry level (n + 1) t = passes lint registry level n (t.splice edits) := by
    rw [passes, hpass]
    rfl
  refine
    { made_le := Nat.succ_le_succ h.made_le
      passes_eq := by have := h.passes_eq; omega
      fixed_eq := (hmore made).trans h.fixed_eq
      changes := ?changes
      errors_eq := h.errors_eq
      edits_eq := ?edits
      settled := fun hlt => h.settled (Nat.lt_of_succ_lt_succ hlt) }
  case changes =>
    intro i hi
    cases i with
    | zero => exact ⟨t, _, rfl, hpass, hne⟩
    | succ i =>
      rw [hmore]
      exact h.changes i (Nat.lt_of_succ_lt_succ hi)
  case edits =>
    obtain ⟨n, hn, heq⟩ := h.edits_eq
    refine ⟨edits.length + n, ?_, by omega⟩
    simp only [editsOfPasses, hedits, hpass, hn, bind, Except.bind, pure, Except.pure]

theorem exists_runsTo (h : convergeFrom lint registry level left count applied t = .ok o) :
    ∃ made, RunsTo lint registry level left count applied t o made := by
  induction left generalizing count applied t with
  | zero =>
    rw [convergeFrom_zero] at h
    obtain ⟨ds, hds, rfl⟩ := map_eq_ok_iff.mp h
    exact ⟨0, .stop hds fun hlt => absurd hlt (Nat.lt_irrefl 0)⟩
  | succ left ih =>
    rw [convergeFrom_succ] at h
    obtain ⟨ds, hds, h⟩ := bind_eq_ok_iff.mp h
    obtain ⟨edits, hselect, h⟩ := bind_eq_ok_iff.mp h
    have hedits := passEdits_eq_ok_iff.mpr ⟨ds, hds, hselect⟩
    split at h
    · rename_i hsame
      cases h
      exact ⟨0, .stop hds fun _ => (pass_of_passEdits hedits).trans (congrArg _ hsame)⟩
    · rename_i hne
      obtain ⟨made, hmade⟩ := ih h
      exact ⟨made + 1, hmade.step hedits hne⟩

theorem converge_runsTo (h : converge lint registry t level = .ok o) :
    RunsTo lint registry level maxPasses 0 0 t o o.passes := by
  obtain ⟨made, hmade⟩ := exists_runsTo (converge_eq ▸ h)
  have hpasses : o.passes = made := by rw [hmade.passes_eq, Nat.zero_add]
  rwa [hpasses]

theorem converge_of_fixed {ds : List Diagnostic} (hds : lint t = .ok ds)
    (h : pass lint registry level t = .ok t) :
    converge lint registry t level = .ok ⟨t, ds, 0, 0⟩ := by
  obtain ⟨edits, hedits, hsame⟩ := pass_eq_ok_iff.mp h
  obtain ⟨ds', hds', hselect⟩ := passEdits_eq_ok_iff.mp hedits
  obtain rfl := Except.ok.inj (hds.symm.trans hds')
  rw [converge_eq, maxPasses, convergeFrom_succ, hds]
  simp only [Except.bind, hselect, if_pos hsame]

/-! ## When repairing comes to an end -/

theorem passes_of_fixed (h : pass lint registry level t = .ok t) (n : Nat) :
    passes lint registry level n t = .ok t := by
  induction n with
  | zero => rfl
  | succ n ih =>
    rw [passes, h]
    exact ih

/-- The loop comes to an end exactly when all the passes do that it may make. -/
theorem exists_convergeFrom_iff :
    (∃ o, convergeFrom lint registry level left count applied t = .ok o) ↔
      ∃ u, passes lint registry level left t = .ok u ∧ ∃ ds, lint u = .ok ds := by
  induction left generalizing count applied t with
  | zero =>
    rw [convergeFrom_zero, exists_map_eq_ok_iff]
    simp [passes]
  | succ left ih =>
    cases hpass : pass lint registry level t with
    | error e =>
      refine iff_of_false ?_ ?_
      · rintro ⟨o, h⟩
        rw [convergeFrom_succ] at h
        obtain ⟨ds, hds, h⟩ := bind_eq_ok_iff.mp h
        obtain ⟨edits, hselect, -⟩ := bind_eq_ok_iff.mp h
        have := pass_of_passEdits (passEdits_eq_ok_iff.mpr ⟨ds, hds, hselect⟩)
        cases hpass.symm.trans this
      · rintro ⟨u, hu, -⟩
        obtain ⟨v, hv, -⟩ := bind_eq_ok_iff.mp hu
        cases hpass.symm.trans hv
    | ok v =>
      obtain ⟨edits, hedits, rfl⟩ := pass_eq_ok_iff.mp hpass
      obtain ⟨ds, hds, hselect⟩ := passEdits_eq_ok_iff.mp hedits
      have hmore : passes lint registry level (left + 1) t =
          passes lint registry level left (t.splice edits) := by
        rw [passes, hpass]
        rfl
      rw [convergeFrom_succ, hds, hmore]
      simp only [Except.bind, hselect]
      by_cases hsame : t.splice edits = t
      · rw [hsame] at hpass ⊢
        rw [if_pos rfl, passes_of_fixed hpass]
        exact iff_of_true ⟨_, rfl⟩ ⟨t, rfl, ds, hds⟩
      · rw [if_neg hsame]
        exact ih

theorem passes_add (m n : Nat) (t : Text) :
    passes lint registry level (m + n) t =
      (passes lint registry level m t >>= passes lint registry level n) := by
  induction m generalizing t with
  | zero =>
    rw [Nat.zero_add]
    rfl
  | succ m ih =>
    rw [Nat.succ_add, passes, passes]
    cases pass lint registry level t with
    | error e => rfl
    | ok u => exact ih u

/-- Where every strategy has an answer, repairing comes to an end exactly when each text that it
lints can be linted. -/
theorem exists_converge_iff
    (h : ∀ u ds, lint u = .ok ds → Answered registry level u ds) :
    (∃ o, converge lint registry t level = .ok o) ↔
      ∀ n ≤ maxPasses, ∀ u, passes lint registry level n t = .ok u → ∃ ds, lint u = .ok ds := by
  rw [converge_eq, exists_convergeFrom_iff]
  constructor
  · rintro ⟨v, hv, hds⟩ n hn u hu
    obtain ⟨more, hmore⟩ := Nat.exists_eq_add_of_le hn
    rw [hmore, passes_add, hu] at hv
    replace hv : passes lint registry level more u = .ok v := hv
    cases more with
    | zero =>
      cases hv
      exact hds
    | succ more =>
      obtain ⟨w, hw, -⟩ := bind_eq_ok_iff.mp hv
      obtain ⟨ds, hds, -⟩ := exists_pass_iff.mp ⟨w, hw⟩
      exact ⟨ds, hds⟩
  · intro hall
    have hpasses : ∀ n ≤ maxPasses, ∃ u, passes lint registry level n t = .ok u := by
      intro n
      induction n with
      | zero => exact fun _ => ⟨t, rfl⟩
      | succ n ih =>
        intro hn
        obtain ⟨u, hu⟩ := ih (Nat.le_of_succ_le hn)
        obtain ⟨ds, hds⟩ := hall n (Nat.le_of_succ_le hn) u hu
        obtain ⟨v, hv⟩ := exists_pass_iff.mpr ⟨ds, hds, h u ds hds⟩
        refine ⟨v, ?_⟩
        rw [passes_add, hu]
        change passes lint registry level 1 u = .ok v
        rw [passes, hv]
        rfl
    obtain ⟨u, hu⟩ := hpasses _ (Nat.le_refl _)
    exact ⟨u, hu, hall _ (Nat.le_refl _) u hu⟩

/-! ## Counting the linting -/

/-- A linter that adds one to a count each time it is called. -/
def tallied (lint : Text → Except Fault (List Diagnostic)) (t : Text) :
    StateT Nat (Except Fault) (List Diagnostic) := do
  modify (· + 1)
  lint t

theorem tallied_run (calls : Nat) :
    (tallied lint t).run calls = (lint t).map fun ds => (ds, calls + 1) := by
  unfold tallied
  cases lint t <;> rfl

theorem tallied_succ (calls : Nat) :
    (convergeFromM (tallied lint) registry level (left + 1) count applied t).run calls =
      (lint t).bind fun ds => (selectEdits registry t ds level).bind fun edits =>
        if t.splice edits = t then .ok (⟨t, ds, count, applied⟩, calls + 1)
        else (convergeFromM (tallied lint) registry level left (count + 1)
          (applied + edits.length) (t.splice edits)).run (calls + 1) := by
  have hrun : (convergeFromM (tallied lint) registry level (left + 1) count applied t).run calls =
      ((tallied lint t).run calls).bind fun (ds, calls) =>
        (repairOnce registry level t ds).bind fun (edits, next) =>
          (if next = t then pure ⟨t, ds, count, applied⟩
            else convergeFromM (tallied lint) registry level left (count + 1)
              (applied + edits.length) next : StateT Nat (Except Fault) Outcome).run calls := by
    rw [convergeFromM, StateT.run_bind]
    congr 1
    funext ⟨ds, calls⟩
    rw [StateT.run_bind]
    dsimp only
    cases repairOnce registry level t ds <;> rfl
  rw [hrun, tallied_run]
  cases lint t with
  | error e => rfl
  | ok ds =>
    simp only [Except.map, Except.bind, repairOnce_eq]
    cases selectEdits registry t ds level with
    | error e => rfl
    | ok edits =>
      dsimp only
      split <;> rfl

/-- The linter is called once before the first pass and once after every pass. -/
theorem tallied_runs_like_converge (calls : Nat)
    (h : convergeFrom lint registry level left count applied t = .ok o) :
    ∃ made, o.passes = count + made ∧
      (convergeFromM (tallied lint) registry level left count applied t).run calls =
        .ok (o, calls + made + 1) := by
  induction left generalizing count applied calls t with
  | zero =>
    rw [convergeFrom_zero] at h
    obtain ⟨ds, hds, rfl⟩ := map_eq_ok_iff.mp h
    refine ⟨0, rfl, ?_⟩
    have hrun : (convergeFromM (tallied lint) registry level 0 count applied t).run calls =
        ((tallied lint t).run calls).map fun (ds, calls) => (⟨t, ds, count, applied⟩, calls) := by
      rfl
    rw [hrun, tallied_run, hds]
    rfl
  | succ left ih =>
    rw [convergeFrom_succ] at h
    obtain ⟨ds, hds, h⟩ := bind_eq_ok_iff.mp h
    obtain ⟨edits, hselect, h⟩ := bind_eq_ok_iff.mp h
    rw [tallied_succ, hds]
    simp only [Except.bind, hselect]
    split at h
    · rename_i hsame
      cases h
      exact ⟨0, rfl, if_pos hsame⟩
    · rename_i hne
      obtain ⟨made, hpasses, hrun⟩ := ih (calls + 1) h
      refine ⟨made + 1, by omega, ?_⟩
      rw [if_neg hne, hrun, Nat.add_right_comm calls 1 made, Nat.add_assoc calls made 1]

theorem convergeM_tallied (h : converge lint registry t level = .ok o) :
    (convergeM (tallied lint) registry t level).run 0 = .ok (o, o.passes + 1) := by
  obtain ⟨made, hpasses, hrun⟩ := tallied_runs_like_converge 0 (converge_eq ▸ h)
  rw [hpasses]
  exact hrun

/-! ## The law of repairing -/

/-- Repairing comes to an end exactly when five passes in a row do and the text behind them can be
linted. Then it iterates the pass: at most five times, each of which changes the text. What it
reports is what linting the last text reports, and it stops short only on a text that no further
pass changes. A pass comes to an end exactly when the text can be linted and every strategy that is
asked about what linting finds has an answer. -/
theorem repairing_stops_where_a_pass_changes_nothing
    (lint : Text → Except Fault (List Diagnostic)) (registry : Registry) (level : Level)
    (t : Text) :
    let step := pass lint registry level
    (∀ u v, step u = .ok v ↔ ∃ ds edits, lint u = .ok ds ∧
      selectEdits registry u ds level = .ok edits ∧ u.applyEdits edits = some v) ∧
    (∀ u, (∃ v, step u = .ok v) ↔ ∃ ds, lint u = .ok ds ∧ Answered registry level u ds) ∧
    ((∃ o, converge lint registry t level = .ok o) ↔
      ∃ u ds, passes lint registry level 5 t = .ok u ∧ lint u = .ok ds) ∧
    ∀ o, converge lint registry t level = .ok o →
      o.passes ≤ 5 ∧
      passes lint registry level o.passes t = .ok o.fixed ∧
      (∀ i < o.passes, ∃ u v, passes lint registry level i t = .ok u ∧ step u = .ok v ∧ v ≠ u) ∧
      lint o.fixed = .ok o.errors ∧
      editsOfPasses lint registry level o.passes t = .ok o.editsApplied ∧
      (convergeM (tallied lint) registry t level).run 0 = .ok (o, o.passes + 1) ∧
      (o.passes < 5 →
        step o.fixed = .ok o.fixed ∧
          converge lint registry o.fixed level = .ok ⟨o.fixed, o.errors, 0, 0⟩) := by
  intro step
  refine ⟨?_, fun u => exists_pass_iff, ?_, ?_⟩
  · intro u v
    rw [pass_eq_ok_iff]
    simp only [passEdits_eq_ok_iff]
    constructor
    · rintro ⟨edits, ⟨ds, hds, hselect⟩, rfl⟩
      exact ⟨ds, edits, hds, hselect, applyEdits_selectEdits hselect⟩
    · rintro ⟨ds, edits, hds, hselect, happly⟩
      rw [applyEdits_selectEdits hselect, Option.some.injEq] at happly
      exact ⟨edits, ⟨ds, hds, hselect⟩, happly⟩
  · rw [converge_eq, exists_convergeFrom_iff]
    simp only [exists_and_left]
    rfl
  · intro o ho
    have h := converge_runsTo ho
    obtain ⟨n, hn, heq⟩ := h.edits_eq
    refine ⟨h.made_le, h.fixed_eq, h.changes, h.errors_eq, ?_, convergeM_tallied ho, ?_⟩
    · rw [heq, Nat.zero_add, hn]
    · intro hlt
      exact ⟨h.settled hlt, converge_of_fixed h.errors_eq (h.settled hlt)⟩

theorem an_overlong_finding_stops_repairing :
    converge (fun _ => .ok [overlongFinding]) Registry.builtin shortArrow .safe =
      .error .overflow := by
  decide +kernel

end DiagramLint
