-- What a file keeps of the one it builds on. A key that a file does not
-- mention has its default when the file is read, and a default says nothing
-- when it is merged, except that linting in parallel is on.
import DiagramLint.Proofs.Config.Loading

namespace DiagramLint

/-! ## Keys -/

/-- A key of a configuration that stands for a single value. -/
inductive Key where
  | parallel
  | jobs
  | strict
  | level
  | format
  | color
  /-- A free setting. -/
  | setting (name : String)
  /-- The severity of a code. -/
  | severity (code : String)
  deriving DecidableEq

/-- Two configurations give a key the same value, or both none. -/
def Key.SameIn (c d : Config) : Key → Prop
  | .parallel => c.parallel = d.parallel
  | .jobs => c.jobs = d.jobs
  | .strict => c.strict = d.strict
  | .level => c.level = d.level
  | .format => c.format = d.format
  | .color => c.color = d.color
  | .setting name => c.settings.lookup name = d.settings.lookup name
  | .severity code => c.severities.lookup code = d.severities.lookup code

/-- A key that is not mentioned in a text with an extension has its default when the text is
decoded. -/
def Readers.DefaultsUnmentioned (readers : Readers) (mentions : String → Text → Key → Bool) :
    Prop :=
  ∀ {extension : String} {content : Text} {own : Config},
    readers.decode extension content = .ok own →
      ∀ {key : Key}, mentions extension content key = false → key.SameIn own {}

/-- Whether the file at a path mentions a key, when `mentions` says whether a text with an extension
does. -/
def fileMentions (mentions : String → Text → Key → Bool) (tree : FileTree) (path : String)
    (key : Key) : Bool :=
  match tree.read path with
  | .ok content => mentions (Path.extension path) content key
  | .error _ => false

namespace ValueFormat

variable {α : Type}

/-- What is written for a field of a section, if it is written; `names` are the fields that the
section can have. -/
def written? (f : ValueFormat α) (v : α) (part : String) (names : List String) (name : String) :
    Option α := do
  let fields ← f.record? ["extends", "engine", "lint", "fix", "output", "files", "rules"] v
  let inside ← f.record? names (← fields.lookup part)
  inside.lookup name

/-- Whether an entry of a record with any names is written. -/
def hasEntry (f : ValueFormat α) (name : String) (v : α) : Bool :=
  (f.entries? v).any fun entries => (entries.lookup name).isSome

/-- Whether a key is written in the value of a configuration. -/
def mentions (f : ValueFormat α) (v : α) : Key → Bool
  | .parallel => (f.written? v "engine" ["parallel", "jobs"] "parallel").isSome
  | .jobs => (f.written? v "engine" ["parallel", "jobs"] "jobs").isSome
  | .strict => (f.written? v "lint" ["strict", "settings"] "strict").isSome
  | .level => (f.written? v "fix" ["level"] "level").isSome
  | .format => (f.written? v "output" ["format", "color"] "format").isSome
  | .color => (f.written? v "output" ["format", "color"] "color").isSome
  | .setting name => (f.written? v "lint" ["strict", "settings"] "settings").any (f.hasEntry name)
  | .severity code =>
    (f.written? v "rules" ["disabled", "ignore", "severity"] "severity").any (f.hasEntry code)

/-! ## What is not written -/

theorem written?_eq {f : ValueFormat α} {v : α} {part : String} {names : List String}
    {fields inside : List (String × α)}
    (hfields : f.record? ["extends", "engine", "lint", "fix", "output", "files", "rules"] v =
      some fields)
    (hinside : f.section? fields part names = some inside) (name : String) :
    f.written? v part names name = inside.lookup name := by
  unfold section? field at hinside
  simp only [written?, hfields, Option.bind_eq_bind, Option.bind_some]
  cases hpart : fields.lookup part with
  | none =>
    rw [hpart] at hinside
    cases hinside
    rfl
  | some written =>
    rw [hpart] at hinside
    simp [hinside]

/-- A field that is not written has its default. -/
theorem eq_default_of_field {β : Type} {fields : List (String × α)} {name : String}
    {value found : β} {decode : α → Option β} (h : field fields name value decode = some found)
    (hnone : (fields.lookup name).isSome = false) : found = value := by
  rw [Option.isSome_eq_false_iff, Option.isNone_iff_eq_none] at hnone
  rw [field, hnone] at h
  exact (Option.some.inj h).symm

theorem lookup_isSome_iff_mem {β : Type} {entries : List (String × β)} {name : String} :
    (entries.lookup name).isSome = true ↔ name ∈ entries.map (·.1) := by
  rw [← Named.any_name_eq]
  simp

theorem names_of_mapM {β : Type} {decode : α → Option β} {entries : List (String × α)}
    {decoded : List (String × β)}
    (h : entries.mapM (fun (name, value) => do return (name, ← decode value)) = some decoded) :
    decoded.map (·.1) = entries.map (·.1) := by
  induction entries generalizing decoded with
  | nil =>
    cases h
    rfl
  | cons entry rest ih =>
    simp only [List.mapM_cons, Option.bind_eq_bind, Option.bind_eq_some_iff, Option.pure_def,
      Option.some.injEq] at h
    obtain ⟨_, ⟨_, -, rfl⟩, others, hothers, rfl⟩ := h
    simp [ih hothers]

/-- A name that is not written among named values stands for none. -/
theorem lookup_of_named? {β : Type} {f : ValueFormat α} {decode : α → Option β} {v : α}
    {named : Named β} (h : f.named? decode v = some named) {name : String}
    (hnone : f.hasEntry name v = false) : named.lookup name = none := by
  simp only [named?, Option.bind_eq_bind, Option.bind_eq_some_iff, Option.pure_def,
    Option.some.injEq] at h
  obtain ⟨entries, hentries, decoded, hdecoded, rfl⟩ := h
  rw [hasEntry, hentries, Option.any_some, ← Bool.not_eq_true, lookup_isSome_iff_mem,
    ← names_of_mapM hdecoded] at hnone
  rw [Named.lookup_ofEntries, ← Option.not_isSome_iff_eq_none, lookup_isSome_iff_mem]
  simpa using hnone

/-- Named values of which nothing is said under a name, in a field or because there is none. -/
theorem lookup_of_field_named? {β : Type} {f : ValueFormat α} {decode : α → Option β}
    {fields : List (String × α)} {part : String} {named : Named β}
    (h : field fields part [] (f.named? decode) = some named) {name : String}
    (hnone : (fields.lookup part).any (f.hasEntry name) = false) : named.lookup name = none := by
  unfold field at h
  split at h
  · cases h
    rfl
  · rename_i v hv
    rw [hv, Option.any_some] at hnone
    exact lookup_of_named? h hnone

/-- A key that is not written has the value of the defaults. -/
theorem sameIn_default_of_not_mentioned {f : ValueFormat α} {v : α} {c : Config}
    (h : f.config? v = some c) {key : Key} (hkey : f.mentions v key = false) :
    key.SameIn c {} := by
  -- A configuration is put together of its sections, one after the other, and then of their fields.
  unfold config? at h
  obtain ⟨fields, hfields, h⟩ := Option.bind_eq_some_iff.mp h
  obtain ⟨engine, hengine, h⟩ := Option.bind_eq_some_iff.mp h
  obtain ⟨lint, hlint, h⟩ := Option.bind_eq_some_iff.mp h
  obtain ⟨fix, hfix, h⟩ := Option.bind_eq_some_iff.mp h
  obtain ⟨output, houtput, h⟩ := Option.bind_eq_some_iff.mp h
  obtain ⟨files, -, h⟩ := Option.bind_eq_some_iff.mp h
  obtain ⟨rules, hrules, h⟩ := Option.bind_eq_some_iff.mp h
  obtain ⟨_, -, h⟩ := Option.bind_eq_some_iff.mp h
  obtain ⟨parallel, hparallel, h⟩ := Option.bind_eq_some_iff.mp h
  obtain ⟨jobs, hjobs, h⟩ := Option.bind_eq_some_iff.mp h
  obtain ⟨strict, hstrict, h⟩ := Option.bind_eq_some_iff.mp h
  obtain ⟨settings, hsettings, h⟩ := Option.bind_eq_some_iff.mp h
  obtain ⟨level, hlevel, h⟩ := Option.bind_eq_some_iff.mp h
  obtain ⟨format, hformat, h⟩ := Option.bind_eq_some_iff.mp h
  obtain ⟨color, hcolor, h⟩ := Option.bind_eq_some_iff.mp h
  obtain ⟨_, -, h⟩ := Option.bind_eq_some_iff.mp h
  obtain ⟨_, -, h⟩ := Option.bind_eq_some_iff.mp h
  obtain ⟨_, -, h⟩ := Option.bind_eq_some_iff.mp h
  obtain ⟨_, -, h⟩ := Option.bind_eq_some_iff.mp h
  obtain ⟨severities, hseverities, h⟩ := Option.bind_eq_some_iff.mp h
  cases h
  cases key with
  | parallel =>
    exact eq_default_of_field hparallel (by rwa [mentions, written?_eq hfields hengine] at hkey)
  | jobs => exact eq_default_of_field hjobs (by rwa [mentions, written?_eq hfields hengine] at hkey)
  | strict =>
    exact eq_default_of_field hstrict (by rwa [mentions, written?_eq hfields hlint] at hkey)
  | level => exact eq_default_of_field hlevel (by rwa [mentions, written?_eq hfields hfix] at hkey)
  | format =>
    exact eq_default_of_field hformat (by rwa [mentions, written?_eq hfields houtput] at hkey)
  | color =>
    exact eq_default_of_field hcolor (by rwa [mentions, written?_eq hfields houtput] at hkey)
  | setting name =>
    exact lookup_of_field_named? hsettings (by rwa [mentions, written?_eq hfields hlint] at hkey)
  | severity code =>
    exact lookup_of_field_named? hseverities (by rwa [mentions, written?_eq hfields hrules] at hkey)

end ValueFormat

namespace Config

/-- Whether a key is written in the text of a file with an extension. -/
def textMentions (extension : String) (content : Text) (key : Key) : Bool :=
  if extension = "json" then (Json.read content).any (Json.valueFormat.mentions · key)
  else (Yaml.read content).any (Yaml.valueFormat.mentions · key)

theorem builtin_defaults_unmentioned : Readers.builtin.DefaultsUnmentioned textMentions := by
  intro extension content own h key hkey
  unfold Readers.decode at h
  split at h
  · rename_i hyaml
    have hjson : extension ≠ "json" := by
      rcases hyaml with rfl | rfl <;> decide
    rw [textMentions, if_neg hjson] at hkey
    split at h
    · rename_i c hc
      cases h
      obtain ⟨v, hv, hconfig⟩ := Option.bind_eq_some_iff.mp hc
      rw [hv, Option.any_some] at hkey
      exact ValueFormat.sameIn_default_of_not_mentioned hconfig hkey
    · cases h
  · split at h
    · rename_i hjson
      rw [textMentions, if_pos hjson] at hkey
      split at h
      · rename_i c hc
        cases h
        obtain ⟨v, hv, hconfig⟩ := Option.bind_eq_some_iff.mp hc
        rw [hv, Option.any_some] at hkey
        exact ValueFormat.sameIn_default_of_not_mentioned hconfig hkey
      · cases h
    · cases h

theorem Spells.sameIn_default {readers : Readers} {mentions : String → Text → Key → Bool}
    (hmentions : readers.DefaultsUnmentioned mentions) {tree : FileTree} {path : String}
    {own : Config} (h : Spells readers tree path own) {key : Key}
    (hkey : fileMentions mentions tree path key = false) : key.SameIn own {} := by
  obtain ⟨content, hread, hdecode⟩ := h
  rw [fileMentions, hread] at hkey
  exact hmentions hdecode hkey

/-! ## Inheritance -/

/-- What the defaults and then `own` leave of `base` where `own` says what the defaults say. -/
theorem sameIn_merge_of_default {base own : Config} {key : Key} (h : key.SameIn own {})
    (hparallel : key = .parallel → base.parallel = true) :
    key.SameIn ((merge {} base).merge own) base := by
  cases key with
  | parallel => exact Eq.trans h (hparallel rfl).symm
  | jobs | level | format | color =>
    simp only [Key.SameIn] at h
    simp only [Key.SameIn, merge, h, if_true]
    split <;> simp_all
  | strict =>
    simp only [Key.SameIn] at h
    simp [Key.SameIn, merge, h]
  | setting name | severity name =>
    simp only [Key.SameIn, List.lookup_nil] at h
    simp [Key.SameIn, merge, Named.lookup_override, h]

section OneBase

variable {readers : Readers} (hdefault : readers.Accepts {})
variable {tree : FileTree} {path name : String} {own base : Config}
include hdefault

/-- What a file loads as that builds on one other file. -/
theorem load_of_one_base (hown : Spells readers tree path own) (hbases : own.bases = [name])
    (hname : preset? name = none) (hbase : load readers tree (besidePath path name) = .ok base)
    {c : Config} (hload : load readers tree path = .ok c) : c = (merge {} base).merge own := by
  obtain ⟨bases, hloaded, rfl, -⟩ := (hown.loadFrom_eq_ok_iff hdefault).mp hload
  rw [hbases] at hloaded
  obtain ⟨found, hfound, rfl⟩ := mapM_singleton_eq_ok_iff.mp hloaded
  rw [baseNamed_of_no_preset hname] at hfound
  obtain rfl : base = found :=
    Except.ok.inj (hbase.symm.trans (loadFrom_succ_of_loadFrom hfound))
  simp [mergedInto, hbases]

/-- Next to the base, a file needs valid patterns of its own and short enough chains. -/
theorem loads_of_one_base (hown : Spells readers tree path own) (hbases : own.bases = [name])
    (hbase : load readers tree (besidePath path name) = .ok base) :
    (∃ c, load readers tree path = .ok c) ↔ readers.Accepts own ∧
      ∀ rest, (path :: rest).IsChain (BuildsOn readers tree) →
        (path :: rest).length ≤ maxChain := by
  constructor
  · intro hloads
    exact ⟨hown.isUsable_iff.mp (Loads.isUsable hloads), ((loads_iff hdefault).mp hloads).2⟩
  · rintro ⟨hvalid, hchains⟩
    refine (loads_succ_iff hdefault).mpr ⟨hown.isUsable_iff.mpr hvalid, fun file hfile => ?_⟩
    have hfile_chains := chains_of_buildsOn hfile hchains
    obtain ⟨other, hother, -, heq⟩ := hown.buildsOn_iff.mp hfile
    obtain rfl : other = name := List.mem_singleton.mp (hbases ▸ hother)
    have hloads : Loads readers tree maxChain file := ⟨base, heq ▸ hbase⟩
    exact hloads.of_chains hdefault hfile_chains

/-- A file that builds on one other file loads, unless a file pattern of its own is bad or a chain
of files gets too long, and gives each key it does not mention the value that the other file gives
it; only that files are not linted in parallel is not inherited. -/
theorem a_file_inherits_what_it_does_not_mention {mentions : String → Text → Key → Bool}
    (hmentions : readers.DefaultsUnmentioned mentions) (hown : Spells readers tree path own)
    (hbases : own.bases = [name]) (hname : preset? name = none)
    (hbase : load readers tree (besidePath path name) = .ok base) :
    ((∃ c, load readers tree path = .ok c) ↔ readers.Accepts own ∧
      ∀ chain : List String, chain.head? = some path →
        chain.IsChain (BuildsOn readers tree) → chain.length ≤ 10) ∧
      ∀ c, load readers tree path = .ok c → ∀ key,
        fileMentions mentions tree path key = false →
          (key = .parallel → base.parallel = true) → key.SameIn c base := by
  constructor
  · exact (loads_of_one_base hdefault hown hbases hbase).trans
      (and_congr_right fun _ => forall_chain_iff.symm)
  · intro c hload key hkey hparallel
    rw [load_of_one_base hdefault hown hbases hname hbase hload]
    exact sameIn_merge_of_default (hown.sameIn_default hmentions hkey) hparallel

end OneBase

/-- A base file for linting one file after the other, by two workers at most, and a file that only
changes how far repairs go. -/
def serialTree : FileTree where
  files :=
    [(["base.json"], .text
        "\x7b\"engine\":\x7b\"parallel\":false,\"jobs\":2\x7d\x7d".toList),
      (["merlint.json"], .text
        "\x7b\"extends\":[\"base.json\"],\"fix\":\x7b\"level\":\"all\"\x7d\x7d".toList)]

theorem serialTree_spells :
    Spells .builtin serialTree "base.json" { parallel := false, jobs := 2 } ∧
      Spells .builtin serialTree "merlint.json" { bases := ["base.json"], level := .all } :=
  ⟨⟨_, rfl, decode_eq_ok_of_isSame (by decide +kernel)⟩,
    ⟨_, rfl, decode_eq_ok_of_isSame (by decide +kernel)⟩⟩

theorem serialTree_base :
    load .builtin serialTree "base.json" = .ok { parallel := false, jobs := 2 } := by
  refine (serialTree_spells.1.loadFrom_eq_ok_iff builtin_accepts_default).mpr ⟨[], rfl, rfl, ?_⟩
  exact builtin_accepts_default

theorem serialTree_loads : ∃ c, load .builtin serialTree "merlint.json" = .ok c :=
  exists_eq_ok_of_isOk (by decide +kernel)

theorem two_workers_are_inherited :
    Readers.builtin.Accepts {} ∧ Readers.builtin.DefaultsUnmentioned textMentions ∧
      Spells .builtin serialTree "merlint.json" { bases := ["base.json"], level := .all } ∧
      preset? "base.json" = none ∧
      load .builtin serialTree "base.json" = .ok { parallel := false, jobs := 2 } ∧
      fileMentions textMentions serialTree "merlint.json" .jobs = false ∧
      ∃ c, load .builtin serialTree "merlint.json" = .ok c ∧
        Key.jobs.SameIn c { parallel := false, jobs := 2 } := by
  refine ⟨builtin_accepts_default, builtin_defaults_unmentioned, serialTree_spells.2, rfl,
    serialTree_base, by decide +kernel, ?_⟩
  obtain ⟨-, hkeys⟩ := a_file_inherits_what_it_does_not_mention builtin_accepts_default
    builtin_defaults_unmentioned serialTree_spells.2 rfl rfl serialTree_base
  obtain ⟨c, hload⟩ := serialTree_loads
  exact ⟨c, hload, hkeys c hload .jobs (by decide +kernel) nofun⟩

/-- A file that says nothing of linting in parallel turns it on again. -/
theorem serial_linting_is_not_inherited :
    ¬ ∀ (readers : Readers) (mentions : String → Text → Key → Bool), readers.Accepts {} →
      readers.DefaultsUnmentioned mentions →
        ∀ (tree : FileTree) (path name : String) (own base : Config),
          Spells readers tree path own → own.bases = [name] → preset? name = none →
            load readers tree (besidePath path name) = .ok base →
              ∀ c, load readers tree path = .ok c → ∀ key,
                fileMentions mentions tree path key = false → key.SameIn c base := by
  intro h
  obtain ⟨c, hload⟩ := serialTree_loads
  have hsame := h .builtin textMentions builtin_accepts_default builtin_defaults_unmentioned
    serialTree "merlint.json" "base.json" _ _ serialTree_spells.2 rfl rfl serialTree_base c hload
    .parallel (by decide +kernel)
  rw [load_of_one_base builtin_accepts_default serialTree_spells.2 rfl rfl serialTree_base
    hload] at hsame
  cases hsame

end Config

end DiagramLint
