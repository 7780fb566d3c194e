-- Previewing predicts writing. A run repairs one file after the other and
-- reads each of them from the tree as the files before have left it. Paths
-- that lead apart never meet a file already written, so all three modes read
-- the tree as it was at first: they come to an end for the same texts, they
-- report the same, and writing changes the listed files to what previewing
-- promised and nothing else.
import Mathlib.Algebra.Ring.Nat
import Mathlib.Data.List.Induction
import DiagramLint.Linter.Fixing
import DiagramLint.Proofs.Attempts
import DiagramLint.Proofs.Files.Writing

namespace DiagramLint

variable {l : Linter} {mode : FixMode} {tree : FileTree} {outcome : Text → Outcome}

/-! ## Totals -/

/-- The totals count what the entries of the files say. -/
structure FixResult.Totals (r : FixResult) : Prop where
  filesModified : r.filesModified = r.files.countP (·.changed)
  editsApplied : r.editsApplied = (r.files.map (·.editsApplied)).sum
  remainingErrors : r.remainingErrors = (r.files.map (errorCount ·.remaining)).sum
  remainingWarnings : r.remainingWarnings = (r.files.map (warningCount ·.remaining)).sum

namespace FixResult

theorem totals_empty : Totals {} := ⟨rfl, rfl, rfl, rfl⟩

theorem Totals.add {r : FixResult} (h : r.Totals) (file : FileFix) : (r.add file).Totals where
  filesModified := by simp [FixResult.add, h.filesModified]
  editsApplied := by simp [FixResult.add, h.editsApplied]
  remainingErrors := by simp [FixResult.add, h.remainingErrors]
  remainingWarnings := by simp [FixResult.add, h.remainingWarnings]

theorem Totals.fail {r : FixResult} (h : r.Totals) (path : String) (e : ReadError) :
    (r.fail path e).Totals :=
  ⟨h.filesModified, h.editsApplied, h.remainingErrors, h.remainingWarnings⟩

/-- The result with nothing shown of what changed. -/
def withoutDiffs (r : FixResult) : FixResult :=
  { r with files := r.files.map fun file => { file with diff := none } }

@[simp] theorem withoutDiffs_add (r : FixResult) (file : FileFix) :
    (r.add file).withoutDiffs = r.withoutDiffs.add { file with diff := none } := by
  simp [withoutDiffs, add]

@[simp] theorem withoutDiffs_fail (r : FixResult) (path : String) (e : ReadError) :
    (r.fail path e).withoutDiffs = r.withoutDiffs.fail path e := rfl

end FixResult

/-! ## One file -/

namespace Linter

/-- What repairing comes to for every text that one of the paths leads to. -/
def Repairs (l : Linter) (tree : FileTree) (paths : List String) (outcome : Text → Outcome) :
    Prop :=
  ∀ path ∈ paths, ∀ t, tree.read path = .ok t → l.fixText t = .ok (outcome t)

theorem exists_repairs {paths : List String}
    (h : ∀ path ∈ paths, ∀ t, tree.read path = .ok t → ∃ o, l.fixText t = .ok o) :
    ∃ outcome, l.Repairs tree paths outcome := by
  classical
  refine ⟨fun t => if ht : ∃ o, l.fixText t = .ok o then ht.choose else ⟨t, [], 0, 0⟩, ?_⟩
  intro path hmem t hread
  have ht := h path hmem t hread
  dsimp only
  rw [dif_pos ht]
  exact ht.choose_spec

/-- The results and the tree with one more file, whose text comes to what repairing it is known to
come to. -/
def fixWith (outcome : Text → Outcome) (mode : FixMode) (state : FixResult × FileTree)
    (path : String) : FixResult × FileTree :=
  match state.2.read path with
  | .error e => (state.1.fail path e, state.2)
  | .ok t =>
    (state.1.add (fileFix mode path t (outcome t)),
      if mode = .write ∧ (outcome t).fixed ≠ t then state.2.write path (outcome t).fixed
      else state.2)

theorem fixPath_eq {state : FixResult × FileTree} {path : String}
    (h : ∀ t, state.2.read path = .ok t → l.fixText t = .ok (outcome t)) :
    l.fixPath mode state path = .ok (fixWith outcome mode state path) := by
  unfold fixPath fixWith
  cases hread : state.2.read path with
  | error e => simp only [hread]
  | ok t =>
    simp only [hread, h t hread]
    rfl

theorem exists_fixText_of_fixPath {state after : FixResult × FileTree} {path : String}
    (h : l.fixPath mode state path = .ok after) {t : Text} (hread : state.2.read path = .ok t) :
    ∃ o, l.fixText t = .ok o := by
  unfold fixPath at h
  simp only [hread] at h
  obtain ⟨o, ho, -⟩ := map_eq_ok_iff.mp h
  exact ⟨o, ho⟩

/-- A result with one more path, whose file is read in the tree as it was at first. -/
def record (outcome : Text → Outcome) (mode : FixMode) (tree : FileTree) (r : FixResult)
    (path : String) : FixResult :=
  match tree.read path with
  | .error e => r.fail path e
  | .ok t => r.add (fileFix mode path t (outcome t))

/-- What repairing leaves in a file. -/
def repaired (outcome : Text → Outcome) : FileContent → FileContent
  | .text t => .text (outcome t).fixed
  | .notText => .notText

theorem record_totals {r : FixResult} (h : r.Totals) (path : String) :
    (record outcome mode tree r path).Totals := by
  unfold record
  split
  · exact h.fail path _
  · exact h.add _

theorem fileFix_withoutDiff (mode : FixMode) (path : String) (t : Text) (o : Outcome) :
    { fileFix mode path t o with diff := none } = fileFix .write path t o := by
  simp [fileFix]

theorem withoutDiffs_record (r : FixResult) (path : String) :
    (record outcome mode tree r path).withoutDiffs = record outcome .write tree r.withoutDiffs path := by
  unfold record
  split
  · rfl
  · rw [FixResult.withoutDiffs_add, fileFix_withoutDiff]

/-- Paths that read the same in two trees are reported alike. -/
theorem fixWith_result (r : FixResult) {after : FileTree} {path : String}
    (h : after.read path = tree.read path) :
    (fixWith outcome mode (r, after) path).1 = record outcome mode tree r path := by
  unfold fixWith record
  simp only [h]
  cases tree.read path <;> rfl

theorem fixWith_tree_of_ne_write (h : mode ≠ .write) (state : FixResult × FileTree)
    (path : String) : (fixWith outcome mode state path).2 = state.2 := by
  unfold fixWith
  cases state.2.read path <;> simp [h]

theorem samePlaces_fixWith (state : FixResult × FileTree) (path : String) :
    (fixWith outcome mode state path).2.SamePlaces state.2 := by
  unfold fixWith
  cases hread : state.2.read path with
  | error e => simpa [hread] using FileTree.SamePlaces.refl state.2
  | ok t =>
    dsimp only
    split
    · exact FileTree.samePlaces_write state.2 path _
    · exact .refl state.2

/-- Writing one file repairs what its path leads to and leaves every other content. -/
theorem content?_fixWith (state : FixResult × FileTree) (path : String) (place : Location) :
    (fixWith outcome .write state path).2.content? place =
      if state.2.locate path = some place then (state.2.content? place).map (repaired outcome)
      else state.2.content? place := by
  obtain ⟨r, after⟩ := state
  have hkeeps : ∀ {content : Option FileContent},
      (after.locate path = some place → content.map (repaired outcome) = content) →
      (if after.locate path = some place then content.map (repaired outcome) else content) =
        content := by
    intro content h
    split
    · rename_i hplace
      exact h hplace
    · rfl
  unfold fixWith
  cases hread : after.read path with
  | error e =>
    refine (hkeeps fun hplace => ?_).symm
    unfold FileTree.read at hread
    simp only [hplace] at hread
    split at hread
    · cases hread
    · rename_i hcontent
      rw [hcontent]
      rfl
    · rename_i hcontent
      rw [hcontent]
      rfl
  | ok t =>
    obtain ⟨found, hfound, hcontent⟩ := FileTree.read_eq_ok_iff.mp hread
    dsimp only
    by_cases hfixed : (outcome t).fixed = t
    · simp only [hfixed, ne_eq, not_true_eq_false, and_false, ↓reduceIte]
      refine (hkeeps fun hplace => ?_).symm
      obtain rfl := Option.some.inj (hfound.symm.trans hplace)
      simp [hcontent, repaired, hfixed]
    · simp only [ne_eq, hfixed, not_false_eq_true, and_self, ↓reduceIte, FileTree.content?_write]
      by_cases hplace : found = place
      · subst hplace
        simp [hfound, hcontent, repaired]
      · simp [hfound, hplace]

/-! ## Runs -/

/-- A run over paths, where it is known what repairing the texts comes to. -/
def runWith (outcome : Text → Outcome) (mode : FixMode) (tree : FileTree) (paths : List String) :
    FixResult × FileTree :=
  paths.foldl (fixWith outcome mode) ({}, tree)

theorem runWith_concat (outcome : Text → Outcome) (mode : FixMode) (tree : FileTree)
    (paths : List String) (path : String) : runWith outcome mode tree (paths ++ [path]) =
      fixWith outcome mode (runWith outcome mode tree paths) path := by
  simp [runWith]

theorem fixFiles_concat (l : Linter) (mode : FixMode) (tree : FileTree) (paths : List String)
    (path : String) : l.fixFiles mode tree (paths ++ [path]) =
      l.fixFiles mode tree paths >>= fun state => l.fixPath mode state path := by
  simp [fixFiles]

/-- A run that writes nothing leaves the tree as it is. -/
theorem runWith_tree_of_ne_write (h : mode ≠ .write) (tree : FileTree) (paths : List String) :
    (runWith outcome mode tree paths).2 = tree := by
  induction paths using List.reverseRecOn with
  | nil => rfl
  | append_singleton paths path ih => rw [runWith_concat, fixWith_tree_of_ne_write h, ih]

/-- The tree in which the files that paths lead to have been repaired, and nothing else. -/
structure RepairedIn (outcome : Text → Outcome) (tree after : FileTree) (paths : List String) :
    Prop where
  places : after.SamePlaces tree
  content : ∀ place, after.content? place =
    if ∃ path ∈ paths, tree.locate path = some place then (tree.content? place).map (repaired outcome)
    else tree.content? place

/-- What has been repaired does not show to a path that leads apart from it. -/
theorem RepairedIn.read_eq {after : FileTree} {paths : List String}
    (h : RepairedIn outcome tree after paths) {path : String}
    (hapart : ∀ other ∈ paths, tree.Apart other path) : after.read path = tree.read path := by
  unfold FileTree.read
  rw [h.places.locate_eq]
  cases hplace : tree.locate path with
  | none => rfl
  | some place =>
    have huntouched : ¬ ∃ other ∈ paths, tree.locate other = some place := by
      rintro ⟨other, hmem, hother⟩
      exact hapart other hmem place hother hplace
    simp only [h.content, huntouched, ↓reduceIte]

theorem repairedIn_runWith {paths : List String} (h : paths.Pairwise tree.Apart) :
    RepairedIn outcome tree (runWith outcome .write tree paths).2 paths := by
  induction paths using List.reverseRecOn with
  | nil => exact ⟨.refl tree, fun place => by simp [runWith]⟩
  | append_singleton paths path ih =>
    obtain ⟨hpaths, -, hapart⟩ := List.pairwise_append.mp h
    have before := ih hpaths
    rw [runWith_concat]
    refine ⟨(samePlaces_fixWith _ path).trans before.places, fun place => ?_⟩
    rw [content?_fixWith, before.places.locate_eq, before.content]
    by_cases hplace : tree.locate path = some place
    · have huntouched : ¬ ∃ other ∈ paths, tree.locate other = some place := by
        rintro ⟨other, hmem, hother⟩
        exact hapart other hmem path List.mem_cons_self place hother hplace
      simp [hplace, huntouched]
    · simp [hplace]

/-- Whatever is done with repaired texts, a path that leads apart from those before it reads what
the tree held at first. -/
theorem read_runWith {paths : List String} (h : paths.Pairwise tree.Apart) {path : String}
    (hapart : ∀ other ∈ paths, tree.Apart other path) :
    (runWith outcome mode tree paths).2.read path = tree.read path := by
  by_cases hmode : mode = .write
  · subst hmode
    exact (repairedIn_runWith h).read_eq hapart
  · rw [runWith_tree_of_ne_write hmode]

/-- So a run over paths that lead apart reports what the tree said at first. -/
theorem runWith_result {paths : List String} (h : paths.Pairwise tree.Apart) :
    (runWith outcome mode tree paths).1 = paths.foldl (record outcome mode tree) {} := by
  induction paths using List.reverseRecOn with
  | nil => rfl
  | append_singleton paths path ih =>
    obtain ⟨hpaths, -, hapart⟩ := List.pairwise_append.mp h
    have hread : (runWith outcome mode tree paths).2.read path = tree.read path :=
      read_runWith hpaths fun other hmem => hapart other hmem path List.mem_cons_self
    rw [runWith_concat, List.foldl_append, ← ih hpaths]
    exact fixWith_result _ hread

theorem fixFiles_eq {paths : List String} (h : paths.Pairwise tree.Apart)
    (hrepairs : l.Repairs tree paths outcome) :
    l.fixFiles mode tree paths = .ok (runWith outcome mode tree paths) := by
  induction paths using List.reverseRecOn with
  | nil => rfl
  | append_singleton paths path ih =>
    obtain ⟨hpaths, -, hapart⟩ := List.pairwise_append.mp h
    rw [fixFiles_concat, runWith_concat,
      ih hpaths fun other hmem => hrepairs other (List.mem_append_left _ hmem)]
    refine fixPath_eq fun t hread => ?_
    change (runWith outcome mode tree paths).2.read path = .ok t at hread
    rw [read_runWith hpaths fun other hmem => hapart other hmem path List.mem_cons_self] at hread
    exact hrepairs path List.mem_concat_self t hread

/-- A run over paths that lead apart comes to an end exactly when repairing does for every text
that they lead to. -/
theorem exists_fixFiles_iff {paths : List String} (h : paths.Pairwise tree.Apart) :
    (∃ run, l.fixFiles mode tree paths = .ok run) ↔
      ∀ path ∈ paths, ∀ t, tree.read path = .ok t → ∃ o, l.fixText t = .ok o := by
  constructor
  · induction paths using List.reverseRecOn with
    | nil => simp
    | append_singleton paths path ih =>
      obtain ⟨hpaths, -, hapart⟩ := List.pairwise_append.mp h
      rintro ⟨run, hrun⟩
      rw [fixFiles_concat] at hrun
      obtain ⟨state, hstate, hlast⟩ := bind_eq_ok_iff.mp hrun
      have hbefore := ih hpaths ⟨state, hstate⟩
      intro other hmem t hread
      rcases List.mem_append.mp hmem with hmem | hmem
      · exact hbefore other hmem t hread
      · rw [List.mem_singleton.mp hmem] at hread
        obtain ⟨outcome, hrepairs⟩ := exists_repairs hbefore
        obtain rfl := Except.ok.inj ((fixFiles_eq hpaths hrepairs).symm.trans hstate)
        refine exists_fixText_of_fixPath hlast ?_
        rwa [read_runWith hpaths fun other hmem => hapart other hmem path List.mem_cons_self]
  · intro hall
    obtain ⟨outcome, hrepairs⟩ := exists_repairs hall
    exact ⟨_, fixFiles_eq h hrepairs⟩

/-! ## Reports -/

theorem totals_foldl_record (paths : List String) :
    (paths.foldl (record outcome mode tree) {}).Totals := by
  induction paths using List.reverseRecOn with
  | nil => exact FixResult.totals_empty
  | append_singleton paths path ih =>
    rw [List.foldl_append]
    exact record_totals ih path

theorem withoutDiffs_foldl_record (paths : List String) :
    (paths.foldl (record outcome mode tree) {}).withoutDiffs =
      paths.foldl (record outcome .write tree) {} := by
  induction paths using List.reverseRecOn with
  | nil => rfl
  | append_singleton paths path ih =>
    rw [List.foldl_append, List.foldl_append, ← ih]
    exact withoutDiffs_record _ path

/-- The paths whose files can be read are the entries, in order. -/
theorem files_foldl_record (paths : List String) :
    (paths.foldl (record outcome mode tree) {}).files = paths.filterMap fun path =>
      (tree.read path).toOption.map fun t => fileFix mode path t (outcome t) := by
  induction paths using List.reverseRecOn with
  | nil => rfl
  | append_singleton paths path ih =>
    rw [List.foldl_append, List.filterMap_append, ← ih]
    simp only [List.foldl_cons, List.foldl_nil, record]
    cases hread : tree.read path <;>
      simp [hread, FixResult.fail, FixResult.add, Except.toOption]

/-- The other paths are the failures, in order. -/
theorem failures_foldl_record (paths : List String) :
    (paths.foldl (record outcome mode tree) {}).failures = paths.filterMap fun path =>
      match tree.read path with
      | .error e => some (path, e)
      | .ok _ => none := by
  induction paths using List.reverseRecOn with
  | nil => rfl
  | append_singleton paths path ih =>
    rw [List.foldl_append, List.filterMap_append, ← ih]
    simp only [List.foldl_cons, List.foldl_nil, record]
    cases hread : tree.read path <;> simp [hread, FixResult.fail, FixResult.add]

/-- The contents that have changed are those of listed files that repairing changes. -/
theorem RepairedIn.ne_iff {after : FileTree} {paths : List String}
    (h : RepairedIn outcome tree after paths) (place : Location) :
    after.content? place ≠ tree.content? place ↔
      ∃ path ∈ paths, tree.locate path = some place ∧
        ∃ t, tree.read path = .ok t ∧ (outcome t).fixed ≠ t := by
  rw [h.content]
  constructor
  · intro hne
    split at hne
    · rename_i hlisted
      obtain ⟨path, hmem, hplace⟩ := hlisted
      cases hcontent : tree.content? place with
      | none => simp [hcontent] at hne
      | some content =>
        cases content with
        | notText => simp [hcontent, repaired] at hne
        | text t =>
          have hread : tree.read path = .ok t :=
            FileTree.read_eq_ok_iff.mpr ⟨place, hplace, hcontent⟩
          exact ⟨path, hmem, hplace, t, hread, by simpa [hcontent, repaired] using hne⟩
    · exact absurd rfl hne
  · rintro ⟨path, hmem, hplace, t, hread, hne⟩
    obtain ⟨found, hfound, hcontent⟩ := FileTree.read_eq_ok_iff.mp hread
    obtain rfl := Option.some.inj (hfound.symm.trans hplace)
    rw [if_pos ⟨path, hmem, hplace⟩, hcontent]
    simpa [repaired] using hne

/-! ## The law -/

/-- A chart with a direction, a file that is no text, and outside the working directory a chart
without a direction. -/
def mixedTree : FileTree where
  files := [(["work", "a.mmd"], .text "flowchart TD\nA-->B\n".toList),
    (["work", "bytes"], .notText), (["srv", "b.mmd"], .text "flowchart\nA-->B\n".toList)]
  workingDirectory := ["work"]

/-- A linter with which all repairs are applied. -/
def boldLinter : Linter := { config := { level := .all } }

end Linter
end DiagramLint
