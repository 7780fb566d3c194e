-- Where paths lead in a tree. A path is followed piece by piece, so a path
-- through a directory goes on from wherever the directory is; a file stands
-- in the directory its path begins with, under the name its path ends with,
-- and what is named beside it depends on that place alone.
import Mathlib.Data.List.Basic
import Mathlib.Data.List.TakeWhile
import DiagramLint.Files.Tree
import DiagramLint.Proofs.Text.Lines

namespace DiagramLint

namespace Path

/-! ## The pieces of a path -/

theorem pieces_ne_nil (path : String) : pieces path ≠ [] := by
  simpa [pieces] using Text.splitWhere_ne_nil _ _

theorem pieces_append (directory path : String) :
    pieces (directory ++ "/" ++ path) = pieces directory ++ pieces path := by
  unfold pieces
  rw [← List.map_append, ← Text.splitWhere_append (· == '/') (beq_self_eq_true '/')]
  simp

theorem fileName_append (directory path : String) :
    fileName (directory ++ "/" ++ path) = fileName path := by
  rw [fileName, fileName, pieces_append, List.getLastD_eq_getLast?, List.getLastD_eq_getLast?,
    List.getLast?_append_of_ne_nil _ (pieces_ne_nil path)]

theorem fileName_slashes (directory : String) (count : Nat) (path : String) :
    fileName (directory ++ String.ofList (List.replicate (count + 1) '/') ++ path) =
      fileName path := by
  rw [List.replicate_succ', String.ofList_append, ← String.append_assoc]
  exact fileName_append _ path

/-- A directory that ends in a slash is another one with the slash behind it. -/
theorem exists_of_ends_in_slash {directory : String}
    (h : directory.toList.getLast? = some '/') : ∃ outer, directory = outer ++ "/" := by
  refine ⟨String.ofList directory.toList.dropLast, String.toList_injective ?_⟩
  simpa using (List.dropLast_append_getLast? '/' h).symm

/-- A path joined to a directory stands for itself, or stands behind the slash that ends the
directory, or behind one put in between. -/
theorem join_cases (directory path : String) :
    (directory = "" ∨ isAbsolute path = true) ∧ join directory path = path ∨
      (∃ outer, directory = outer ++ "/" ∧ join directory path = outer ++ "/" ++ path) ∨
      join directory path = directory ++ "/" ++ path := by
  unfold join
  split
  · rename_i h
    exact .inl ⟨by simpa using h, rfl⟩
  · split
    · rename_i hslash
      obtain ⟨outer, rfl⟩ := exists_of_ends_in_slash hslash
      exact .inr (.inl ⟨outer, rfl, rfl⟩)
    · exact .inr (.inr rfl)

theorem fileName_join (directory path : String) :
    fileName (join directory path) = fileName path := by
  obtain ⟨-, h⟩ | ⟨outer, -, h⟩ | h := join_cases directory path
  · rw [h]
  · rw [h, fileName_append]
  · rw [h, fileName_append]

theorem isAbsolute_append {directory : String} (h : directory ≠ "") (path : String) :
    isAbsolute (directory ++ path) = isAbsolute directory := by
  obtain ⟨c, rest, hcons⟩ := List.exists_cons_of_ne_nil (mt String.toList_eq_nil_iff.mp h)
  rw [isAbsolute, isAbsolute, String.toList_append, hcons]
  rfl

theorem extension_congr {path other : String} (h : fileName path = fileName other) :
    extension path = extension other := by
  unfold extension
  rw [h]

theorem extension_join (directory path : String) :
    extension (join directory path) = extension path :=
  extension_congr (fileName_join directory path)

theorem pieces_of_no_slash {name : Text} (h : '/' ∉ name) :
    pieces (String.ofList name) = [String.ofList name] := by
  rw [pieces, String.toList_ofList, Text.splitWhere_of_not_mem h]
  rfl

/-- The first piece of an absolute path is empty, and there are others. -/
theorem pieces_of_isAbsolute {path : String} (h : isAbsolute path = true) :
    ∃ rest, rest ≠ [] ∧ pieces path = "" :: rest := by
  obtain ⟨rest, hrest⟩ := List.head?_eq_some_iff.mp (beq_iff_eq.mp h)
  refine ⟨pieces (String.ofList rest), pieces_ne_nil _, ?_⟩
  rw [pieces, hrest, Text.splitWhere, if_pos (beq_self_eq_true '/'), List.map_cons, pieces,
    String.toList_ofList]

/-- A path of one piece is not absolute. -/
theorem isAbsolute_of_pieces {path piece : String} (h : pieces path = [piece]) :
    isAbsolute path = false := by
  rw [Bool.eq_false_iff]
  intro habsolute
  obtain ⟨rest, hne, hpieces⟩ := pieces_of_isAbsolute habsolute
  exact hne (List.cons.inj (hpieces.symm.trans h)).2

/-- A path is its last piece alone, or something, slashes and its last piece; then the directory is
that something, or the root when it is nothing. -/
theorem parent_cases (path : String) :
    parent path = "" ∧ pieces path = [path] ∨
      ∃ outer count last,
        path = outer ++ String.ofList (List.replicate (count + 1) '/') ++ last ∧
        parent path = (if outer = "" then "/" else outer) ∧ pieces last = [last] := by
  by_cases hslash : '/' ∈ path.toList
  · -- Both cuts are made from the end, so the path is read backwards.
    obtain ⟨back, front, hrev, hback⟩ :=
      List.eq_append_cons_of_mem (List.mem_reverse.mpr hslash)
    have hslashes : ('/' :: front).takeWhile (· == '/') =
        List.replicate ((front.takeWhile (· == '/')).length + 1) '/' := by
      refine List.eq_replicate_of_mem fun c hc => ?_
      simpa using List.mem_takeWhile_imp hc
    have hdirectory : Text.dropEndWhile (· != '/') path.toList = ('/' :: front).reverse := by
      rw [Text.dropEndWhile, hrev, List.dropWhile_append_of_pos]
      · rfl
      · intro c hc
        simp [bne, Text.beq_eq_false_of_mem hback hc]
    right
    refine ⟨String.ofList (('/' :: front).dropWhile (· == '/')).reverse,
      (front.takeWhile (· == '/')).length, String.ofList back.reverse, ?_, ?_, ?_⟩
    · apply String.toList_injective
      rw [String.toList_append, String.toList_append, String.toList_ofList,
        String.toList_ofList, String.toList_ofList, ← List.reverse_replicate, ← hslashes,
        ← List.reverse_append, ← List.reverse_append, List.takeWhile_append_dropWhile, ← hrev,
        List.reverse_reverse]
    · unfold parent
      rw [hdirectory]
      simp [Text.dropEndWhile]
    · exact pieces_of_no_slash (mt List.mem_reverse.mp hback)
  · have hnone : Text.dropEndWhile (· != '/') path.toList = [] := by
      rw [Text.dropEndWhile, List.dropWhile_eq_nil_iff.mpr]
      · rfl
      · intro c hc
        simp [bne, Text.beq_eq_false_of_mem hslash (List.mem_reverse.mp hc)]
    left
    constructor
    · rw [parent, hnone]
      rfl
    · simpa using pieces_of_no_slash hslash

end Path

namespace FileTree

variable {tree : FileTree} {place : Location}

/-! ## Following a path -/

theorem follow_append (tree : FileTree) (place : Location) (first second : List String) :
    tree.follow place (first ++ second) =
      (tree.follow place first).bind (tree.follow · second) := by
  fun_induction tree.follow place first with
  | case1 place => rfl
  | case2 place piece rest hdir => simp [follow, hdir]
  | case3 place piece rest hdir hhere ih => simpa [follow, hdir, hhere] using ih
  | case4 place rest hdir _ ih => simpa [follow, hdir] using ih
  | case5 place piece rest hdir hhere hup hexists ih =>
    simpa [follow, hdir, hhere, hup, hexists] using ih
  | case6 place piece rest hdir hhere hup hexists => simp [follow, hdir, hhere, hup, hexists]

/-- An empty piece before others leads nowhere else. -/
theorem follow_blank (tree : FileTree) (place : Location) {pieces : List String}
    (h : pieces ≠ []) : tree.follow place ("" :: pieces) = tree.follow place pieces := by
  obtain ⟨piece, rest, rfl⟩ := List.exists_cons_of_ne_nil h
  rw [follow]
  by_cases hdir : tree.isDirectoryAt place = true
  · simp [hdir]
  · simp [hdir, follow]

/-- A name leads from a directory to what has it there. -/
theorem follow_name {found : Location} {name : String} (h : tree.follow place [name] = some found)
    (hempty : name ≠ "") (hhere : name ≠ ".") (hup : name ≠ "..") : found = place ++ [name] := by
  rw [follow] at h
  simp only [hempty, hhere, hup, or_self, ↓reduceIte, follow] at h
  split at h
  · cases h
  · split at h
    · exact (Option.some.inj h).symm
    · cases h

/-! ## Where a path leads -/

theorem locate_of_ne (tree : FileTree) {path : String} (h : path ≠ "") :
    tree.locate path = tree.follow (tree.start path) (Path.pieces path) := by
  simp [locate, h]

theorem follow_root (tree : FileTree) : tree.follow [] (Path.pieces "") = some [] := by
  simp [Path.pieces, Text.splitWhere, follow, isDirectoryAt]

/-- Slashes at the start of an absolute path lead no further than the root. -/
theorem follow_slashes (tree : FileTree) (count : Nat) (path : String) :
    tree.follow [] (Path.pieces (String.ofList (List.replicate count '/') ++ path)) =
      tree.follow [] (Path.pieces path) := by
  induction count with
  | zero => simp
  | succ count ih =>
    have hpath : String.ofList (List.replicate (count + 1) '/') ++ path =
        "" ++ "/" ++ (String.ofList (List.replicate count '/') ++ path) := by
      simp [List.replicate_succ, String.ofList_cons, String.append_assoc]
    have hroot : tree.follow [] (Path.pieces "") = some [] := tree.follow_root
    rw [hpath, Path.pieces_append, follow_append, hroot, Option.bind_some, ih]

/-- What stands behind slashes alone is followed from the root. -/
theorem locate_top (tree : FileTree) (count : Nat) (path : String) :
    tree.locate (String.ofList (List.replicate (count + 1) '/') ++ path) =
      tree.follow [] (Path.pieces path) := by
  have habsolute : Path.isAbsolute (String.ofList (List.replicate (count + 1) '/') ++ path) =
      true := by
    simp [Path.isAbsolute, List.replicate_succ]
  rw [locate_of_ne tree (by simp), start, if_pos habsolute, follow_slashes]

theorem locate_root (tree : FileTree) : tree.locate "/" = some [] :=
  (locate_top tree 0 "").trans tree.follow_root

/-- What stands behind a directory and a slash is followed from where the directory is. -/
theorem locate_slash (tree : FileTree) {directory : String} (h : directory ≠ "") (path : String) :
    tree.locate (directory ++ "/" ++ path) =
      (tree.locate directory).bind (tree.follow · (Path.pieces path)) := by
  have hstart : tree.start (directory ++ "/" ++ path) = tree.start directory := by
    rw [start, start, String.append_assoc, Path.isAbsolute_append h]
  rw [locate_of_ne tree h, locate_of_ne tree (by simp [h]), hstart, Path.pieces_append,
    follow_append]

/-- Another slash behind a directory changes nothing for what is followed from there. -/
theorem bind_locate_slash (tree : FileTree) {directory : String} (h : directory ≠ "")
    (path : String) :
    (tree.locate (directory ++ "/")).bind (tree.follow · (Path.pieces path)) =
      (tree.locate directory).bind (tree.follow · (Path.pieces path)) := by
  have hslash := locate_slash tree h ""
  rw [String.append_empty] at hslash
  rw [hslash, Option.bind_assoc]
  congr 1
  funext place
  rw [← follow_append]
  exact follow_blank tree place (Path.pieces_ne_nil path)

theorem locate_slashes (tree : FileTree) {directory : String} (h : directory ≠ "") (count : Nat)
    (path : String) :
    tree.locate (directory ++ String.ofList (List.replicate (count + 1) '/') ++ path) =
      (tree.locate directory).bind (tree.follow · (Path.pieces path)) := by
  induction count generalizing directory with
  | zero => exact locate_slash tree h path
  | succ count ih =>
    have hlonger : directory ++ "/" ≠ "" := by simp [h]
    rw [← bind_locate_slash tree h, ← ih hlonger]
    congr 1
    simp [List.replicate_succ, String.ofList_cons, String.append_assoc]

/-- A relative path inside a directory is followed from where the directory is. -/
theorem locate_join (tree : FileTree) {directory path : String} (hdirectory : directory ≠ "")
    (hpath : Path.isAbsolute path = false) :
    tree.locate (Path.join directory path) =
      (tree.locate directory).bind (tree.follow · (Path.pieces path)) := by
  obtain ⟨h, -⟩ | ⟨outer, rfl, hjoin⟩ | hjoin := Path.join_cases directory path
  · simp [hdirectory, hpath] at h
  · rw [hjoin]
    by_cases houter : outer = ""
    · have hroot : tree.locate ("" ++ "/") = some [] := locate_root tree
      rw [houter, hroot]
      exact locate_top tree 0 path
    · rw [locate_slash tree houter, bind_locate_slash tree houter]
  · rw [hjoin, locate_slash tree hdirectory]

/-- The last piece of a path is followed from where its directory is. -/
theorem locate_parent (tree : FileTree) {path last : String} {outer : String} {count : Nat}
    (hpath : path = outer ++ String.ofList (List.replicate (count + 1) '/') ++ last)
    (hparent : Path.parent path = if outer = "" then "/" else outer) :
    tree.locate path =
      (tree.locate (Path.parent path)).bind (tree.follow · (Path.pieces last)) := by
  rw [hparent]
  split
  · rename_i houter
    rw [locate_root, hpath, houter, String.empty_append]
    exact locate_top tree count last
  · rename_i houter
    rw [hpath, locate_slashes tree houter]

/-- A file stands in a directory under its own name, and what is named beside it is looked for in
that directory. -/
theorem locate_beside {path : String} (h : tree.locate path = some place)
    (hextension : Path.extension path ≠ "") :
    ∃ directory, place = directory ++ [Path.fileName path] ∧
      ∀ name, name ≠ "" → Path.isAbsolute name = false →
        tree.locate (Path.join (Path.parent path) name) =
          tree.follow directory (Path.pieces name) := by
  have hlast : ∀ other, Path.extension other = "" → Path.fileName path ≠ Path.fileName other :=
    fun other hother heq => hextension ((Path.extension_congr heq).trans hother)
  have hfound : ∀ directory, tree.follow directory [Path.fileName path] = some place →
      place = directory ++ [Path.fileName path] := fun directory hfollow =>
    follow_name hfollow (hlast "" rfl) (hlast "." rfl) (hlast ".." rfl)
  obtain ⟨hparent, hpieces⟩ | ⟨outer, count, last, hpath, hparent, hpieces⟩ :=
    Path.parent_cases path
  · have hname : Path.pieces path = [Path.fileName path] := by rw [Path.fileName, hpieces]; rfl
    have hne : path ≠ "" := by
      rintro rfl
      exact hlast "" rfl rfl
    have habsolute : Path.isAbsolute path = false := Path.isAbsolute_of_pieces hpieces
    rw [locate_of_ne tree hne, start, habsolute, hname] at h
    refine ⟨tree.workingDirectory, hfound _ h, fun name hname habsolute => ?_⟩
    rw [hparent, Path.join, if_pos (by simp), locate_of_ne tree hname, start, habsolute]
    rfl
  · have hname : Path.pieces last = [Path.fileName path] := by
      rw [hpath, Path.fileName_slashes, Path.fileName, hpieces]
      rfl
    rw [locate_parent tree hpath hparent, hname, Option.bind_eq_some_iff] at h
    obtain ⟨directory, hdirectory, hfollow⟩ := h
    have hne : Path.parent path ≠ "" := by
      rw [hparent]
      split
      · decide
      · assumption
    refine ⟨directory, hfound directory hfollow, fun name _ habsolute => ?_⟩
    rw [locate_join tree hne habsolute, hdirectory]
    rfl

/-- However it is spelled, a path to a file ends with the file's name. -/
theorem fileName_eq_of_locate {path other : String} (h : tree.locate path = some place)
    (hother : tree.locate other = some place) (hextension : Path.extension path ≠ "")
    (hextension' : Path.extension other ≠ "") : Path.fileName path = Path.fileName other := by
  obtain ⟨directory, hplace, -⟩ := locate_beside h hextension
  obtain ⟨directory', hplace', -⟩ := locate_beside hother hextension'
  exact (List.append_singleton_inj.mp (hplace.symm.trans hplace')).2

/-- What a name leads to from beside a file is the same for every file in the directory. -/
theorem locate_beside_siblings {path other : String} {directory : Location} {last last' : String}
    (h : tree.locate path = some (directory ++ [last]))
    (hother : tree.locate other = some (directory ++ [last']))
    (hextension : Path.extension path ≠ "") (hextension' : Path.extension other ≠ "")
    {name : String} (hname : name ≠ "") :
    tree.locate (Path.join (Path.parent path) name) =
      tree.locate (Path.join (Path.parent other) name) := by
  cases habsolute : Path.isAbsolute name with
  | true => simp [Path.join, habsolute]
  | false =>
    obtain ⟨found, hplace, hbeside⟩ := locate_beside h hextension
    obtain ⟨found', hplace', hbeside'⟩ := locate_beside hother hextension'
    rw [hbeside name hname habsolute, hbeside' name hname habsolute,
      ← (List.append_singleton_inj.mp hplace).1, (List.append_singleton_inj.mp hplace').1]

theorem read_congr {path other : String} (h : tree.locate path = tree.locate other) :
    tree.read path = tree.read other := by
  unfold read
  rw [h]

theorem exists_locate_of_read {path : String} {content : Text} (h : tree.read path = .ok content) :
    ∃ place, tree.locate path = some place := by
  unfold read at h
  split at h
  · cases h
  · rename_i place hplace
    exact ⟨place, hplace⟩

end FileTree
end DiagramLint
