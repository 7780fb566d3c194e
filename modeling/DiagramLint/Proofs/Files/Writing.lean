-- Reading what was written. Writing a file moves nothing: every path leads
-- where it led before, and only the file written has another text. Paths
-- that spell out plain names lead to different places when they differ.
import DiagramLint.Proofs.Files.Places

namespace DiagramLint

namespace Path

theorem pieces_injective : Function.Injective pieces := by
  intro path other h
  have hsplit : Text.splitWhere (· == '/') path.toList = Text.splitWhere (· == '/') other.toList :=
    List.map_injective_iff.mpr (fun _ _ => String.ofList_injective) h
  apply String.toList_injective
  rw [← Text.intercalate_splitWhere '/' path.toList, hsplit, Text.intercalate_splitWhere]

/-- The path spells out names, none of them standing for a directory above or the same one. -/
def IsPlain (path : String) : Prop := ∀ name ∈ pieces path, name ∉ ["", ".", ".."]

instance (path : String) : Decidable (IsPlain path) := inferInstanceAs (Decidable (∀ _ ∈ _, _))

end Path

namespace FileTree

/-! ## Paths that lead apart -/

/-- The paths do not lead to the same place. -/
def Apart (tree : FileTree) (path other : String) : Prop :=
  ∀ place, tree.locate path = some place → tree.locate other ≠ some place

theorem apart_iff {tree : FileTree} {path other : String} :
    tree.Apart path other ↔
      tree.locate path = none ∨ tree.locate path ≠ tree.locate other := by
  unfold Apart
  cases tree.locate path with
  | none => simp
  | some place => simp [eq_comm]

instance (tree : FileTree) (path other : String) : Decidable (tree.Apart path other) :=
  decidable_of_iff _ apart_iff.symm

/-- Names lead, if they lead somewhere, to the place they spell out. -/
theorem eq_append_of_follow {tree : FileTree} {place found : Location} {names : List String}
    (hnames : ∀ name ∈ names, name ∉ ["", ".", ".."]) (h : tree.follow place names = some found) :
    found = place ++ names := by
  induction names generalizing place with
  | nil => simpa [follow] using h.symm
  | cons name rest ih =>
    have hname := hnames name List.mem_cons_self
    simp only [List.mem_cons, List.not_mem_nil, or_false, not_or] at hname
    rw [← List.singleton_append, follow_append, Option.bind_eq_some_iff] at h
    obtain ⟨next, hnext, hrest⟩ := h
    have hplace := follow_name hnext hname.1 hname.2.1 hname.2.2
    rw [ih (fun other hmem => hnames other (List.mem_cons_of_mem name hmem)) hrest, hplace]
    simp

theorem place_eq_of_locate {tree : FileTree} {path : String} {place : Location}
    (hplain : Path.IsPlain path) (h : tree.locate path = some place) :
    place = tree.workingDirectory ++ Path.pieces path := by
  have habsolute : Path.isAbsolute path = false := by
    rw [Bool.eq_false_iff]
    intro habsolute
    obtain ⟨rest, -, hpieces⟩ := Path.pieces_of_isAbsolute habsolute
    exact hplain "" (hpieces ▸ List.mem_cons_self) List.mem_cons_self
  unfold locate at h
  split at h
  · cases h
  · rw [start, habsolute] at h
    exact eq_append_of_follow hplain h

/-- Plain paths that differ lead apart. -/
theorem apart_of_isPlain (tree : FileTree) {path other : String} (hne : path ≠ other)
    (hpath : Path.IsPlain path) (hother : Path.IsPlain other) : tree.Apart path other := by
  intro place h h'
  have hsame : tree.workingDirectory ++ Path.pieces path =
      tree.workingDirectory ++ Path.pieces other := by
    rw [← place_eq_of_locate hpath h, ← place_eq_of_locate hother h']
  exact hne (Path.pieces_injective (List.append_cancel_left hsame))

/-! ## Trees with the same places -/

theorem lookup_cons_file (place : Location) (file : Location × FileContent)
    (rest : List (Location × FileContent)) :
    (file :: rest).lookup place = if place = file.1 then some file.2 else rest.lookup place := by
  obtain ⟨found, content⟩ := file
  rw [List.lookup_cons]
  by_cases hplace : place = found
  · simp [hplace]
  · have hne : (place == found) = false := by simpa using hplace
    simp [hne, hplace]

/-- The trees have files and directories at the same places. -/
structure SamePlaces (a b : FileTree) : Prop where
  files : a.files.map (·.1) = b.files.map (·.1)
  directories : a.directories = b.directories
  workingDirectory : a.workingDirectory = b.workingDirectory

namespace SamePlaces

variable {a b : FileTree}

theorem refl (tree : FileTree) : tree.SamePlaces tree := ⟨rfl, rfl, rfl⟩

theorem trans {c : FileTree} (h : a.SamePlaces b) (h' : b.SamePlaces c) : a.SamePlaces c :=
  ⟨h.files.trans h'.files, h.directories.trans h'.directories,
    h.workingDirectory.trans h'.workingDirectory⟩

theorem isDirectoryAt_eq (h : a.SamePlaces b) (place : Location) :
    a.isDirectoryAt place = b.isDirectoryAt place := by
  have hfiles : ∀ tree : FileTree,
      tree.files.any (fun file => place.isPrefixOf file.1 && place != file.1) =
        (tree.files.map (·.1)).any fun found => place.isPrefixOf found && place != found := by
    intro tree
    rw [List.any_map]
    rfl
  unfold isDirectoryAt
  rw [h.directories, h.workingDirectory, hfiles a, hfiles b, h.files]

theorem isSome_content?_eq (h : a.SamePlaces b) (place : Location) :
    (a.content? place).isSome = (b.content? place).isSome := by
  have hnames : ∀ tree : FileTree,
      (tree.content? place).isSome = (tree.files.map (·.1)).contains place := by
    intro tree
    unfold content?
    induction tree.files with
    | nil => rfl
    | cons file rest ih =>
      rw [lookup_cons_file]
      by_cases hplace : place = file.1
      · simp [hplace]
      · simp [hplace, ih]
  rw [hnames a, hnames b, h.files]

theorem existsAt_eq (h : a.SamePlaces b) (place : Location) :
    a.existsAt place = b.existsAt place := by
  unfold existsAt
  rw [h.isSome_content?_eq, h.isDirectoryAt_eq]

theorem follow_eq (h : a.SamePlaces b) (place : Location) (pieces : List String) :
    a.follow place pieces = b.follow place pieces := by
  induction pieces generalizing place with
  | nil => rfl
  | cons piece rest ih => simp only [follow, h.isDirectoryAt_eq, h.existsAt_eq, ih]

/-- Every path leads to the same place. -/
theorem locate_eq (h : a.SamePlaces b) (path : String) : a.locate path = b.locate path := by
  unfold locate start
  rw [h.follow_eq, h.workingDirectory]

end SamePlaces

/-! ## Writing -/

variable {tree : FileTree} {path : String}

theorem samePlaces_write (tree : FileTree) (path : String) (t : Text) :
    (tree.write path t).SamePlaces tree := by
  unfold write
  split
  · exact .refl tree
  · rename_i place _
    refine ⟨?_, rfl, rfl⟩
    simp only [List.map_map]
    refine List.map_congr_left fun file _ => ?_
    by_cases hplace : file.1 = place
    · simp [hplace]
    · simp [hplace]

/-- The file written has the new text, and every other one what it had. -/
theorem content?_write (tree : FileTree) (path : String) (t : Text) (place : Location) :
    (tree.write path t).content? place =
      if tree.locate path = some place then (tree.content? place).map fun _ => .text t
      else tree.content? place := by
  unfold write
  cases hlocate : tree.locate path with
  | none => simp
  | some written =>
    simp only [content?, Option.some.injEq]
    induction tree.files with
    | nil => simp
    | cons file rest ih =>
      rw [List.map_cons, lookup_cons_file, lookup_cons_file, ih]
      by_cases hfile : file.1 = written
      · by_cases hplace : place = written
        · simp [hfile, hplace]
        · simp [hfile, hplace, Ne.symm hplace]
      · by_cases hplace : place = file.1
        · simp [hfile, hplace, Ne.symm hfile]
        · simp [hfile, hplace]

/-! ## Reading -/

theorem read_eq_ok_iff {t : Text} : tree.read path = .ok t ↔
    ∃ place, tree.locate path = some place ∧ tree.content? place = some (.text t) := by
  unfold read
  cases tree.locate path with
  | none => simp
  | some place =>
    cases hcontent : tree.content? place with
    | none => simp [hcontent]
    | some content => cases content <;> simp [hcontent]

end FileTree
end DiagramLint
