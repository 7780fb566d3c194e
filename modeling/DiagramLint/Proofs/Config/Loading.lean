-- When a configuration file loads. One step asks that the file itself is
-- usable and that every file it builds on loads with one file less to go, so
-- by induction a file loads exactly when whatever it reaches is usable and no
-- chain of files is too long. A circle of files would make chains of every
-- length, however differently its paths are spelled.
import Mathlib.Data.List.Chain
import Mathlib.Logic.Relation
import DiagramLint.Config.Readers
import DiagramLint.Proofs.Attempts
import DiagramLint.Proofs.Config.Merging
import DiagramLint.Proofs.Files.Places

namespace DiagramLint

/-! ## File patterns -/

namespace Readers

variable {readers : Readers}

/-- Every file pattern of a configuration can be read. -/
def Accepts (readers : Readers) (c : Config) : Prop :=
  ∀ pattern ∈ c.included ++ c.excluded, ∃ p, readers.filePattern pattern = .ok p

theorem readFilePattern_eq_ok_iff {pattern : String} {p : String → Bool} :
    readers.readFilePattern pattern = .ok p ↔ readers.filePattern pattern = .ok p :=
  mapError_eq_ok_iff

theorem exists_matcher_iff (c : Config) :
    (∃ m, readers.matcher c = .ok m) ↔ readers.Accepts c := by
  have hboth : (∃ m, readers.matcher c = .ok m) ↔
      (∃ ps, c.included.mapM readers.readFilePattern = .ok ps) ∧
        ∃ ps, c.excluded.mapM readers.readFilePattern = .ok ps := by
    constructor
    · rintro ⟨m, hm⟩
      obtain ⟨included, hincluded, hm⟩ := bind_eq_ok_iff.mp hm
      obtain ⟨excluded, hexcluded, -⟩ := bind_eq_ok_iff.mp hm
      exact ⟨⟨included, hincluded⟩, excluded, hexcluded⟩
    · rintro ⟨⟨included, hincluded⟩, excluded, hexcluded⟩
      exact ⟨⟨included, excluded⟩, bind_eq_ok_iff.mpr
        ⟨included, hincluded, bind_eq_ok_iff.mpr ⟨excluded, hexcluded, rfl⟩⟩⟩
  simp only [hboth, exists_mapM_eq_ok_iff, readFilePattern_eq_ok_iff, Accepts,
    List.forall_mem_append]

theorem accepts_merge (a b : Config) :
    readers.Accepts (a.merge b) ↔ readers.Accepts a ∧ readers.Accepts b := by
  simp only [Accepts, Config.merge, List.mem_append, Config.mem_union]
  grind

theorem Accepts.foldl_merge {c : Config} (h : readers.Accepts c) {others : List Config}
    (hothers : ∀ other ∈ others, readers.Accepts other) :
    readers.Accepts (others.foldl Config.merge c) := by
  induction others generalizing c with
  | nil => exact h
  | cons other rest ih =>
    have hfirst := (accepts_merge c other).mpr ⟨h, hothers other List.mem_cons_self⟩
    exact ih hfirst fun next hm => hothers next (List.mem_cons_of_mem other hm)

/-- The patterns of a preset are those of the defaults. -/
theorem Accepts.preset (h : readers.Accepts {}) {name : String} {c : Config}
    (hpreset : Config.preset? name = some c) : readers.Accepts c := by
  unfold Config.preset? at hpreset
  split at hpreset
  · cases hpreset
    exact h
  · split at hpreset
    · cases hpreset
      exact h
    · cases hpreset

theorem extension_of_decode {extension : String} {content : Text} {own : Config}
    (h : readers.decode extension content = .ok own) :
    extension ∈ ["yaml", "yml", "json"] := by
  unfold decode at h
  split at h
  · rename_i hyaml
    rcases hyaml with rfl | rfl
    · decide
    · decide
  · split at h
    · rename_i hjson
      rw [hjson]
      decide
    · cases h

end Readers

/-! ## The readers of the program -/

theorem builtin_accepts_default : Readers.builtin.Accepts {} := by
  have hread : ∀ pattern ∈ ["**/*.mmd", "**/*.mermaid", "**/node_modules/**", "**/target/**"],
      (Readers.builtin.filePattern pattern).isOk = true := by decide +kernel
  exact fun pattern hm => exists_eq_ok_of_isOk (hread pattern hm)

namespace Config

/-- Whether two configurations without free settings, which cannot be compared, are the same. -/
def isSame (c d : Config) : Bool :=
  c.settings.isEmpty && d.settings.isEmpty && c.bases == d.bases && c.parallel == d.parallel &&
    c.jobs == d.jobs && c.strict == d.strict && c.level == d.level && c.format == d.format &&
    c.color == d.color && c.included == d.included && c.excluded == d.excluded &&
    c.disabled == d.disabled && c.ignored == d.ignored && c.severities == d.severities

theorem eq_of_isSame {c d : Config} (h : c.isSame d = true) : c = d := by
  cases c
  cases d
  simp_all [isSame]

/-- What a text spells, found by evaluation. -/
theorem decode_eq_ok_of_isSame {readers : Readers} {extension : String} {content : Text}
    {own : Config}
    (h : (readers.decode extension content).toOption.any (isSame · own) = true) :
    readers.decode extension content = .ok own := by
  cases hdecode : readers.decode extension content with
  | error e =>
    rw [hdecode] at h
    cases h
  | ok c =>
    rw [hdecode] at h
    exact congrArg _ (eq_of_isSame h)

/-! ## One file and those it builds on -/

section Files

variable (readers : Readers) (tree : FileTree)

/-- The file at a path spells a configuration. -/
def Spells (path : String) (own : Config) : Prop :=
  ∃ content, tree.read path = .ok content ∧ readers.decode (Path.extension path) content = .ok own

/-- The file at a path exists, has a known extension, spells a configuration, and its file patterns
are valid. -/
def IsUsable (path : String) : Prop :=
  ∃ content own, tree.read path = .ok content ∧
    Path.extension path ∈ ["yaml", "yml", "json"] ∧
    readers.decode (Path.extension path) content = .ok own ∧ readers.Accepts own

/-- The file at a path builds on the one at another: it names it, as something other than a preset,
by its place beside itself. -/
def BuildsOn (path base : String) : Prop :=
  ∃ own, Spells readers tree path own ∧ ∃ name ∈ own.bases, preset? name = none ∧
    base = Path.join (Path.parent path) name

/-- The file at a path loads as the first of at most `left` files. -/
def Loads (left : Nat) (path : String) : Prop := ∃ c, loadFrom readers tree left path = .ok c

end Files

variable {readers : Readers} {tree : FileTree} {left : Nat} {path : String}

theorem isUsable_iff :
    IsUsable readers tree path ↔ ∃ own, Spells readers tree path own ∧ readers.Accepts own := by
  constructor
  · rintro ⟨content, own, hread, -, hdecode, hvalid⟩
    exact ⟨own, ⟨content, hread, hdecode⟩, hvalid⟩
  · rintro ⟨own, ⟨content, hread, hdecode⟩, hvalid⟩
    exact ⟨content, own, hread, Readers.extension_of_decode hdecode, hdecode, hvalid⟩

theorem Spells.unique {own other : Config} (h : Spells readers tree path own)
    (hother : Spells readers tree path other) : own = other := by
  obtain ⟨content, hread, hdecode⟩ := h
  obtain ⟨content', hread', hdecode'⟩ := hother
  cases hread.symm.trans hread'
  exact Except.ok.inj (hdecode.symm.trans hdecode')

/-- What a file with a configuration of its own loads as, once its bases are known. -/
def mergedInto (own : Config) (bases : List Config) : Config :=
  if own.bases.isEmpty then own else (bases.foldl merge {}).merge own

/-- What a name in a configuration file stands for. -/
def baseNamed (readers : Readers) (tree : FileTree) (left : Nat) (path name : String) :
    Except ConfigError Config :=
  match preset? name with
  | some preset => .ok preset
  | none => loadFrom readers tree left (Path.join (Path.parent path) name)

theorem baseNamed_eq_ok_of_imp {left' : Nat} {other name : String} {c : Config}
    (h : loadFrom readers tree left (Path.join (Path.parent path) name) = .ok c →
      loadFrom readers tree left' (Path.join (Path.parent other) name) = .ok c)
    (hbase : baseNamed readers tree left path name = .ok c) :
    baseNamed readers tree left' other name = .ok c := by
  unfold baseNamed at hbase ⊢
  split
  · rename_i preset hpreset
    rwa [hpreset] at hbase
  · rename_i hpreset
    rw [hpreset] at hbase
    exact h hbase

/-- The steps of loading, with one way through them for files with and without bases. -/
theorem loadFrom_succ (readers : Readers) (tree : FileTree) (left : Nat) (path : String) :
    loadFrom readers tree (left + 1) path =
      ((tree.read path).mapError .unreadable >>= fun content =>
        readers.decode (Path.extension path) content >>= fun own =>
          own.bases.mapM (baseNamed readers tree left path) >>= fun bases =>
            readers.matcher (mergedInto own bases) >>= fun _ => pure (mergedInto own bases)) := by
  rw [loadFrom]
  refine congrArg _ (funext fun content => congrArg _ (funext fun own => ?_))
  by_cases hempty : own.bases.isEmpty = true
  · have hnil : own.bases.mapM (baseNamed readers tree left path) = .ok [] := by
      rw [List.isEmpty_iff.mp hempty]
      rfl
    simp only [hempty, ↓reduceIte, hnil, mergedInto]
    rfl
  · simp only [hempty, Bool.false_eq_true, ↓reduceIte, mergedInto]
    rfl

theorem loadFrom_eq_ok_iff {c : Config} :
    loadFrom readers tree (left + 1) path = .ok c ↔
      ∃ own bases, Spells readers tree path own ∧
        own.bases.mapM (baseNamed readers tree left path) = .ok bases ∧
        c = mergedInto own bases ∧ readers.Accepts c := by
  rw [loadFrom_succ]
  constructor
  · intro h
    obtain ⟨content, hread, h⟩ := bind_eq_ok_iff.mp h
    obtain ⟨own, hdecode, h⟩ := bind_eq_ok_iff.mp h
    obtain ⟨bases, hbases, h⟩ := bind_eq_ok_iff.mp h
    obtain ⟨m, hm, h⟩ := bind_eq_ok_iff.mp h
    cases h
    exact ⟨own, bases, ⟨content, mapError_eq_ok_iff.mp hread, hdecode⟩, hbases, rfl,
      (Readers.exists_matcher_iff _).mp ⟨m, hm⟩⟩
  · rintro ⟨own, bases, ⟨content, hread, hdecode⟩, hbases, rfl, hvalid⟩
    obtain ⟨m, hm⟩ := (Readers.exists_matcher_iff _).mpr hvalid
    refine bind_eq_ok_iff.mpr ⟨content, mapError_eq_ok_iff.mpr hread, ?_⟩
    refine bind_eq_ok_iff.mpr ⟨own, hdecode, ?_⟩
    refine bind_eq_ok_iff.mpr ⟨bases, hbases, ?_⟩
    exact bind_eq_ok_iff.mpr ⟨m, hm, rfl⟩

theorem accepts_of_loadFrom {c : Config} (h : loadFrom readers tree left path = .ok c) :
    readers.Accepts c := by
  cases left with
  | zero => cases h
  | succ left =>
    obtain ⟨own, bases, -, -, -, hvalid⟩ := loadFrom_eq_ok_iff.mp h
    exact hvalid

theorem accepts_of_mergedInto {own : Config} {bases : List Config}
    (h : readers.Accepts (mergedInto own bases)) : readers.Accepts own := by
  unfold mergedInto at h
  split at h
  · exact h
  · exact ((Readers.accepts_merge _ own).mp h).2

section Defaults

/- The defaults stand at the bottom of everything that is merged, so their patterns have to be
readable for anything to load that builds on something. -/
variable (hdefault : readers.Accepts {})
include hdefault

theorem accepts_of_baseNamed {name : String} {c : Config}
    (h : baseNamed readers tree left path name = .ok c) : readers.Accepts c := by
  unfold baseNamed at h
  split at h
  · rename_i preset hpreset
    cases h
    exact hdefault.preset hpreset
  · exact accepts_of_loadFrom h

/-- Bases have valid patterns, so it is those of the file itself that matter. -/
theorem accepts_mergedInto {own : Config} {bases : List Config}
    (h : own.bases.mapM (baseNamed readers tree left path) = .ok bases) :
    readers.Accepts (mergedInto own bases) ↔ readers.Accepts own := by
  refine ⟨accepts_of_mergedInto, fun hown => ?_⟩
  unfold mergedInto
  split
  · exact hown
  · have hbases : readers.Accepts (bases.foldl merge {}) := by
      refine hdefault.foldl_merge fun base hm => ?_
      obtain ⟨name, -, hname⟩ := exists_of_mem_mapM h hm
      exact accepts_of_baseNamed hdefault hname
    exact (Readers.accepts_merge _ own).mpr ⟨hbases, hown⟩

end Defaults

theorem not_loads_zero : ¬ Loads readers tree 0 path := by
  rintro ⟨c, hc⟩
  cases hc

/-- What loads is usable, and what it builds on loads, one file deeper. -/
theorem Loads.step (h : Loads readers tree (left + 1) path) :
    IsUsable readers tree path ∧
      ∀ base, BuildsOn readers tree path base → Loads readers tree left base := by
  obtain ⟨c, hc⟩ := h
  obtain ⟨own, bases, hown, hbases, rfl, hvalid⟩ := loadFrom_eq_ok_iff.mp hc
  refine ⟨isUsable_iff.mpr ⟨own, hown, accepts_of_mergedInto hvalid⟩, ?_⟩
  rintro base ⟨other, hother, name, hname, hpreset, heq⟩
  rw [heq]
  cases hown.unique hother
  obtain ⟨c, hc⟩ := exists_mapM_eq_ok_iff.mp ⟨bases, hbases⟩ name hname
  rw [baseNamed, hpreset] at hc
  exact ⟨c, hc⟩

/-- One step: a file loads when it is usable and what it builds on loads, one file deeper. -/
theorem loads_succ_iff (hdefault : readers.Accepts {}) :
    Loads readers tree (left + 1) path ↔
      IsUsable readers tree path ∧
        ∀ base, BuildsOn readers tree path base → Loads readers tree left base := by
  constructor
  · exact Loads.step
  · rintro ⟨husable, hloads⟩
    obtain ⟨own, hown, hvalid⟩ := isUsable_iff.mp husable
    have hnames : ∀ name ∈ own.bases, ∃ c, baseNamed readers tree left path name = .ok c := by
      intro name hname
      unfold baseNamed
      cases hpreset : preset? name with
      | some preset => exact ⟨preset, rfl⟩
      | none => exact hloads _ ⟨own, hown, name, hname, hpreset, rfl⟩
    obtain ⟨bases, hbases⟩ := exists_mapM_eq_ok_iff.mpr hnames
    exact ⟨mergedInto own bases, loadFrom_eq_ok_iff.mpr
      ⟨own, bases, hown, hbases, rfl, (accepts_mergedInto hdefault hbases).mpr hvalid⟩⟩

/-- What loads with some files left loads alike with one more. -/
theorem loadFrom_succ_of_loadFrom {c : Config} (h : loadFrom readers tree left path = .ok c) :
    loadFrom readers tree (left + 1) path = .ok c := by
  induction left generalizing path c with
  | zero => cases h
  | succ left ih =>
    obtain ⟨own, bases, hown, hbases, hc, hvalid⟩ := loadFrom_eq_ok_iff.mp h
    refine loadFrom_eq_ok_iff.mpr ⟨own, bases, hown, ?_, hc, hvalid⟩
    exact mapM_eq_ok_of_imp (fun name base => baseNamed_eq_ok_of_imp ih) hbases

/-! ## A file with a known configuration -/

/-- The path that a name in a configuration file leads to. -/
def besidePath (path name : String) : String := Path.join (Path.parent path) name

theorem Spells.isUsable_iff {own : Config} (h : Spells readers tree path own) :
    IsUsable readers tree path ↔ readers.Accepts own := by
  rw [Config.isUsable_iff]
  constructor
  · rintro ⟨other, hother, hvalid⟩
    rwa [hother.unique h] at hvalid
  · intro hvalid
    exact ⟨own, h, hvalid⟩

theorem Spells.buildsOn_iff {own : Config} (h : Spells readers tree path own) {base : String} :
    BuildsOn readers tree path base ↔
      ∃ name ∈ own.bases, preset? name = none ∧ base = besidePath path name := by
  constructor
  · rintro ⟨other, hother, hbase⟩
    rwa [hother.unique h] at hbase
  · intro hbase
    exact ⟨own, h, hbase⟩

/-- What a file with a known configuration loads as, and that it needs nothing else. -/
theorem Spells.loadFrom_eq_ok_iff {own c : Config} (h : Spells readers tree path own)
    (hdefault : readers.Accepts {}) :
    loadFrom readers tree (left + 1) path = .ok c ↔
      ∃ bases, own.bases.mapM (baseNamed readers tree left path) = .ok bases ∧
        c = mergedInto own bases ∧ readers.Accepts own := by
  rw [Config.loadFrom_eq_ok_iff]
  constructor
  · rintro ⟨other, bases, hother, hbases, rfl, hvalid⟩
    obtain rfl := hother.unique h
    exact ⟨bases, hbases, rfl, (accepts_mergedInto hdefault hbases).mp hvalid⟩
  · rintro ⟨bases, hbases, rfl, hvalid⟩
    exact ⟨own, bases, h, hbases, rfl, (accepts_mergedInto hdefault hbases).mpr hvalid⟩

theorem baseNamed_of_no_preset {name : String} (h : preset? name = none) :
    baseNamed readers tree left path name = loadFrom readers tree left (besidePath path name) := by
  rw [baseNamed, h]
  rfl

/-! ## Chains of files -/

/-- A whole run: a file loads when everything it reaches is usable and no chain of files is longer
than what is left. -/
theorem loads_iff (hdefault : readers.Accepts {}) :
    Loads readers tree left path ↔
      (∀ file, Relation.ReflTransGen (BuildsOn readers tree) path file →
        IsUsable readers tree file) ∧
        ∀ rest, (path :: rest).IsChain (BuildsOn readers tree) → (path :: rest).length ≤ left := by
  induction left generalizing path with
  | zero =>
    constructor
    · intro h
      exact absurd h not_loads_zero
    · rintro ⟨-, hchains⟩
      exact absurd (hchains [] (.singleton path)) (by simp)
  | succ left ih =>
    rw [loads_succ_iff hdefault]
    constructor
    · rintro ⟨husable, hloads⟩
      constructor
      · intro file hreach
        rcases Relation.ReflTransGen.cases_head hreach with rfl | ⟨base, hbase, hreach⟩
        · exact husable
        · exact (ih.mp (hloads base hbase)).1 file hreach
      · intro rest hchain
        cases rest with
        | nil => simp
        | cons base rest =>
          obtain ⟨hbase, hchain⟩ := List.isChain_cons_cons.mp hchain
          exact Nat.succ_le_succ ((ih.mp (hloads base hbase)).2 rest hchain)
    · rintro ⟨husable, hchains⟩
      refine ⟨husable path .refl, fun base hbase => ih.mpr ⟨?_, ?_⟩⟩
      · intro file hreach
        exact husable file (.head hbase hreach)
      · intro rest hchain
        exact Nat.le_of_succ_le_succ
          (hchains (base :: rest) (List.isChain_cons_cons.mpr ⟨hbase, hchain⟩))

/-- Chains that start with a file, as lists with that head. -/
theorem forall_chain_iff {most : Nat} :
    (∀ chain : List String, chain.head? = some path → chain.IsChain (BuildsOn readers tree) →
      chain.length ≤ most) ↔
      ∀ rest, (path :: rest).IsChain (BuildsOn readers tree) → (path :: rest).length ≤ most := by
  constructor
  · intro h rest hchain
    exact h (path :: rest) rfl hchain
  · intro h chain hhead hchain
    obtain ⟨rest, rfl⟩ := List.head?_eq_some_iff.mp hhead
    exact h rest hchain

/-- A chain from a file that this one builds on is a chain from this one, a file longer. -/
theorem chains_of_buildsOn {base : String} (hbase : BuildsOn readers tree path base)
    (h : ∀ rest, (path :: rest).IsChain (BuildsOn readers tree) →
      (path :: rest).length ≤ left + 1) :
    ∀ rest, (base :: rest).IsChain (BuildsOn readers tree) → (base :: rest).length ≤ left := by
  intro rest hchain
  exact Nat.le_of_succ_le_succ (h (base :: rest) (List.isChain_cons_cons.mpr ⟨hbase, hchain⟩))

/-- What loads with more files left loads with fewer, if its chains are short enough. -/
theorem Loads.of_chains {more : Nat} (h : Loads readers tree more path)
    (hdefault : readers.Accepts {})
    (hchains : ∀ rest, (path :: rest).IsChain (BuildsOn readers tree) →
      (path :: rest).length ≤ left) :
    Loads readers tree left path :=
  (loads_iff hdefault).mpr ⟨((loads_iff hdefault).mp h).1, hchains⟩

/-! ## Circles of files -/

theorem IsUsable.exists_locate (h : IsUsable readers tree path) :
    ∃ place, tree.locate path = some place := by
  obtain ⟨content, own, hread, -⟩ := h
  exact FileTree.exists_locate_of_read hread

theorem IsUsable.extension_ne_empty (h : IsUsable readers tree path) :
    Path.extension path ≠ "" := by
  obtain ⟨content, own, -, hextension, -⟩ := h
  intro hempty
  rw [hempty] at hextension
  exact absurd hextension (by decide)

theorem Loads.isUsable (h : Loads readers tree left path) : IsUsable readers tree path := by
  cases left with
  | zero => exact absurd h not_loads_zero
  | succ left => exact h.step.1

/-- Two spellings of the path to one file. -/
structure SameFile (tree : FileTree) (path other : String) : Prop where
  locate : tree.locate path = tree.locate other
  extension : Path.extension path = Path.extension other

theorem SameFile.spells {other : String} {own : Config} (h : SameFile tree path other) :
    Spells readers tree path own ↔ Spells readers tree other own := by
  unfold Spells
  rw [FileTree.read_congr h.locate, h.extension]

theorem SameFile.isUsable {other : String} (h : SameFile tree path other) :
    IsUsable readers tree path ↔ IsUsable readers tree other := by
  simp only [isUsable_iff, h.spells]

theorem IsUsable.name_ne_empty {name : String} (h : IsUsable readers tree (besidePath path name)) :
    name ≠ "" := by
  rintro rfl
  have hextension := h.extension_ne_empty
  rw [besidePath, Path.extension_join] at hextension
  exact hextension rfl

/-- Paths to files in one directory. -/
def InOneDirectory (tree : FileTree) (paths : List String) : Prop :=
  ∃ directory : Location, ∀ path ∈ paths, ∃ name, tree.locate path = some (directory ++ [name])

/-- A path to another file from beside one is a path to it from beside any in the directory. -/
theorem sameFile_beside {other name : String} (h : InOneDirectory tree [path, other])
    (husable : IsUsable readers tree path) (husable' : IsUsable readers tree other)
    (hbase : IsUsable readers tree (besidePath path name)) :
    SameFile tree (besidePath path name) (besidePath other name) := by
  obtain ⟨directory, hpaths⟩ := h
  obtain ⟨last, hlast⟩ := hpaths path (by simp)
  obtain ⟨last', hlast'⟩ := hpaths other (by simp)
  constructor
  · exact FileTree.locate_beside_siblings hlast hlast' husable.extension_ne_empty
      husable'.extension_ne_empty hbase.name_ne_empty
  · rw [besidePath, besidePath, Path.extension_join, Path.extension_join]

theorem SameFile.beside {other name : String} (h : SameFile tree path other)
    (husable : IsUsable readers tree path) (hbase : IsUsable readers tree (besidePath path name)) :
    SameFile tree (besidePath path name) (besidePath other name) := by
  obtain ⟨place, hplace⟩ := husable.exists_locate
  obtain ⟨directory, rfl, -⟩ := FileTree.locate_beside hplace husable.extension_ne_empty
  refine sameFile_beside ⟨directory, ?_⟩ husable (h.isUsable.mp husable) hbase
  simpa using ⟨⟨_, hplace⟩, _, h.locate ▸ hplace⟩

/-- However the path to a file is spelled, it loads as the same configuration. -/
theorem SameFile.loadFrom_eq_ok {other : String} {c : Config} (h : SameFile tree path other)
    (hload : loadFrom readers tree left path = .ok c) :
    loadFrom readers tree left other = .ok c := by
  induction left generalizing path other c with
  | zero => cases hload
  | succ left ih =>
    have husable : IsUsable readers tree path := Loads.isUsable ⟨c, hload⟩
    obtain ⟨own, bases, hown, hbases, hc, hvalid⟩ := loadFrom_eq_ok_iff.mp hload
    refine loadFrom_eq_ok_iff.mpr ⟨own, bases, h.spells.mp hown, ?_, hc, hvalid⟩
    refine mapM_eq_ok_of_imp (fun name base => baseNamed_eq_ok_of_imp fun hbase => ?_) hbases
    exact ih (h.beside husable (Loads.isUsable ⟨base, hbase⟩)) hbase

theorem SameFile.loads {other : String} (h : SameFile tree path other)
    (hloads : Loads readers tree left path) : Loads readers tree left other := by
  obtain ⟨c, hc⟩ := hloads
  exact ⟨c, h.loadFrom_eq_ok hc⟩

theorem Loads.base {base : String} (h : Loads readers tree left path)
    (hbase : BuildsOn readers tree path base) : ∃ less < left, Loads readers tree less base := by
  cases left with
  | zero => exact absurd h not_loads_zero
  | succ left => exact ⟨left, Nat.lt_succ_self left, h.step.2 base hbase⟩

theorem Loads.of_transGen {file : String} (h : Loads readers tree left path)
    (hreach : Relation.TransGen (BuildsOn readers tree) path file) :
    ∃ less < left, Loads readers tree less file := by
  induction hreach with
  | single hbase => exact h.base hbase
  | tail _ hbase ih =>
    obtain ⟨less, hless, hloads⟩ := ih
    obtain ⟨fewer, hfewer, hloads⟩ := hloads.base hbase
    exact ⟨fewer, hfewer.trans hless, hloads⟩

theorem Loads.of_reflTransGen {file : String} (h : Loads readers tree left path)
    (hreach : Relation.ReflTransGen (BuildsOn readers tree) path file) :
    ∃ less, Loads readers tree less file := by
  rcases Relation.reflTransGen_iff_eq_or_transGen.mp hreach with rfl | hreach
  · exact ⟨left, h⟩
  · obtain ⟨less, -, hloads⟩ := h.of_transGen hreach
    exact ⟨less, hloads⟩

/-- A file that loads is not among those it builds on: coming back to it, the same file would load
with less left, and so on. -/
theorem Loads.not_circular {file : String} (h : Loads readers tree left path)
    (hreach : Relation.TransGen (BuildsOn readers tree) path file) :
    tree.locate path ≠ tree.locate file := by
  induction left using Nat.strongRecOn with
  | ind left ih =>
    intro hlocate
    obtain ⟨less, hless, hloads⟩ := h.of_transGen hreach
    obtain ⟨place, hplace⟩ := h.isUsable.exists_locate
    have hname := FileTree.fileName_eq_of_locate (hlocate ▸ hplace) hplace
      hloads.isUsable.extension_ne_empty h.isUsable.extension_ne_empty
    have hsame : SameFile tree file path := ⟨hlocate.symm, Path.extension_congr hname⟩
    exact ih less hless (hsame.loads hloads) hlocate

/-! ## The law -/

section Law

/- The default patterns for files can be read. -/
variable (hdefault : readers.Accepts {})
include hdefault

/-- A configuration file loads if and only if every file reachable from it is usable and no chain
of files from it has more than ten. In particular it does not when the files it reaches build on
each other in a circle, whatever paths name them on the way round. -/
theorem a_configuration_loads_with_all_it_builds_on (tree : FileTree) (path : String) :
    ((∃ c, load readers tree path = .ok c) ↔
      (∀ file, Relation.ReflTransGen (BuildsOn readers tree) path file →
        IsUsable readers tree file) ∧
        ∀ chain : List String, chain.head? = some path → chain.IsChain (BuildsOn readers tree) →
          chain.length ≤ 10) ∧
      ∀ file again, Relation.ReflTransGen (BuildsOn readers tree) path file →
        Relation.TransGen (BuildsOn readers tree) file again →
          tree.locate file = tree.locate again → ∃ e, load readers tree path = .error e := by
  constructor
  · exact (loads_iff hdefault).trans (and_congr_right fun _ => forall_chain_iff.symm)
  · intro file again hreach hround hlocate
    cases hload : load readers tree path with
    | error e => exact ⟨e, rfl⟩
    | ok c =>
      have hloads : Loads readers tree maxChain path := ⟨c, hload⟩
      obtain ⟨less, hfile⟩ := hloads.of_reflTransGen hreach
      exact absurd hlocate (hfile.not_circular hround)

end Law

/-- A file that names another one by an absolute path, which builds on the one above it; and a file
that builds on itself, which is at the end of a longer path each time round. -/
def sharedTree : FileTree where
  files :=
    [(["etc", "lint.json"], .text "\x7b\"engine\":\x7b\"jobs\":2\x7d\x7d".toList),
      (["etc", "team", "lint.json"], .text "\x7b\"extends\":[\"../lint.json\"]\x7d".toList),
      (["work", "own.json"], .text "\x7b\"extends\":[\"/etc/team/lint.json\"]\x7d".toList),
      (["work", "round.json"], .text "\x7b\"extends\":[\"./round.json\"]\x7d".toList)]
  workingDirectory := ["work"]

theorem shared_settings_load_and_circles_do_not :
    Readers.builtin.Accepts {} ∧
      (∃ c, load .builtin sharedTree "own.json" = .ok c) ∧
      (∀ file, Relation.ReflTransGen (BuildsOn .builtin sharedTree) "own.json" file →
        IsUsable .builtin sharedTree file) ∧
      (∃ e, load .builtin sharedTree "round.json" = .error e) := by
  have hlaw := a_configuration_loads_with_all_it_builds_on builtin_accepts_default sharedTree
  have hload : ∃ c, load .builtin sharedTree "own.json" = .ok c :=
    exists_eq_ok_of_isOk (by decide +kernel)
  have hspells : Spells .builtin sharedTree "round.json" { bases := ["./round.json"] } :=
    ⟨_, rfl, decode_eq_ok_of_isSame (by decide +kernel)⟩
  have hround : BuildsOn .builtin sharedTree "round.json" "./round.json" :=
    hspells.buildsOn_iff.mpr ⟨_, List.mem_cons_self, rfl, by decide +kernel⟩
  exact ⟨builtin_accepts_default, hload, ((hlaw "own.json").1.mp hload).1,
    (hlaw "round.json").2 _ _ .refl (.single hround) (by decide +kernel)⟩

end Config

end DiagramLint
