-- Building on a file that builds on others is building on those others and on
-- what the file says for itself. The files loaded are the same either way, one
-- file nearer to the limit on one side, and merging is associative.
import DiagramLint.Proofs.Config.Loading

namespace DiagramLint.Config

variable {readers : Readers} {tree : FileTree} {left : Nat} {path : String} {c : Config}

/-! ## Files in one directory -/

/-- A name stands for the same configuration in every file of a directory. -/
theorem baseNamed_sibling {path other name : String} (h : InOneDirectory tree [path, other])
    (husable : IsUsable readers tree path) (husable' : IsUsable readers tree other)
    (hbase : baseNamed readers tree left path name = .ok c) :
    baseNamed readers tree left other name = .ok c := by
  refine baseNamed_eq_ok_of_imp (fun hload => ?_) hbase
  exact (sameFile_beside h husable husable' (Loads.isUsable ⟨c, hload⟩)).loadFrom_eq_ok hload

/-! ## A file written in two ways -/

/-- The file `nested` builds on the file `inner` alone, and says `own` besides. The file `flat` says
the same, but builds on everything `inner` builds on and on `plain`, which says what `inner` says
and builds on nothing. They stand in one directory. -/
structure Flattens (readers : Readers) (tree : FileTree) (nested inner flat plain : String)
    (own middle : Config) : Prop where
  spells_nested : Spells readers tree nested { own with bases := [inner] }
  spells_inner : Spells readers tree (besidePath nested inner) middle
  spells_flat : Spells readers tree flat { own with bases := middle.bases ++ [plain] }
  spells_plain : Spells readers tree (besidePath flat plain) { middle with bases := [] }
  inner_no_preset : preset? inner = none
  plain_no_preset : preset? plain = none
  together : InOneDirectory tree [nested, besidePath nested inner, flat]

theorem InOneDirectory.of_subset {paths more : List String} (h : InOneDirectory tree more)
    (hsub : ∀ path ∈ paths, path ∈ more) : InOneDirectory tree paths := by
  obtain ⟨directory, hpaths⟩ := h
  exact ⟨directory, fun path hm => hpaths path (hsub path hm)⟩

/-- Starting from the defaults once more changes nothing about what a file loads as. -/
theorem default_merge_mergedInto {own : Config} {bases : List Config}
    (h : own.bases = [] → bases = []) :
    merge {} (mergedInto own bases) = (bases.foldl merge {}).merge own := by
  unfold mergedInto
  split
  · rename_i hempty
    rw [h (List.isEmpty_iff.mp hempty)]
    rfl
  · rw [← merge_assoc, merge_foldl, default_merge_default]

/-- Merging a file into what its inner file loads as is merging it into everything together. -/
theorem mergedInto_flattened {own middle : Config} {inner plain : String} {bases : List Config}
    (h : middle.bases = [] → bases = []) :
    mergedInto { own with bases := [inner] } [mergedInto middle bases] =
      mergedInto { own with bases := middle.bases ++ [plain] }
        (bases ++ [{ middle with bases := [] }]) := by
  have hflat : (middle.bases ++ [plain]).isEmpty = false := by simp
  calc mergedInto { own with bases := [inner] } [mergedInto middle bases]
      = (merge {} (mergedInto middle bases)).merge own := rfl
    _ = ((bases.foldl merge {}).merge middle).merge own := by rw [default_merge_mergedInto h]
    _ = ((bases ++ [{ middle with bases := [] }]).foldl merge {}).merge own := by
        rw [List.foldl_append]
        rfl
    _ = _ := by
        rw [mergedInto, hflat]
        rfl

namespace Flattens

variable {nested inner flat plain : String} {own middle : Config}

/-- The files of a directory name the same bases, so the flat file finds those of the inner one. -/
theorem baseNamed_flat (h : Flattens readers tree nested inner flat plain own middle)
    (hown : readers.Accepts own) (hmiddle : readers.Accepts middle) {name : String}
    (hbase : baseNamed readers tree left (besidePath nested inner) name = .ok c) :
    baseNamed readers tree left flat name = .ok c := by
  have htogether : InOneDirectory tree [besidePath nested inner, flat] :=
    h.together.of_subset (by simp)
  exact baseNamed_sibling htogether (h.spells_inner.isUsable_iff.mpr hmiddle)
    (h.spells_flat.isUsable_iff.mpr hown) hbase

/-- What the nested files load as, the flat file loads as. -/
theorem loadFrom_flat (h : Flattens readers tree nested inner flat plain own middle)
    (hdefault : readers.Accepts {}) (hload : loadFrom readers tree left nested = .ok c) :
    loadFrom readers tree left flat = .ok c := by
  cases left with
  | zero => cases hload
  | succ left =>
    obtain ⟨outer, houter, rfl, hown⟩ := (h.spells_nested.loadFrom_eq_ok_iff hdefault).mp hload
    obtain ⟨loaded, hloaded, rfl⟩ := mapM_singleton_eq_ok_iff.mp houter
    rw [baseNamed_of_no_preset h.inner_no_preset] at hloaded
    cases left with
    | zero => cases hloaded
    | succ left =>
      obtain ⟨bases, hbases, rfl, hmiddle⟩ :=
        (h.spells_inner.loadFrom_eq_ok_iff hdefault).mp hloaded
      have hnone : middle.bases = [] → bases = [] := by
        intro hnil
        rw [hnil] at hbases
        exact (Except.ok.inj hbases).symm
      refine (h.spells_flat.loadFrom_eq_ok_iff hdefault).mpr
        ⟨bases ++ [{ middle with bases := [] }], ?_, mergedInto_flattened hnone, hown⟩
      refine mapM_eq_ok_iff.mpr (List.rel_append ?_ (.cons ?_ .nil))
      · refine (mapM_eq_ok_iff.mp hbases).imp fun name base hbase => ?_
        exact baseNamed_eq_ok_of_imp loadFrom_succ_of_loadFrom
          (h.baseNamed_flat hown hmiddle hbase)
      · rw [baseNamed_of_no_preset h.plain_no_preset,
          h.spells_plain.loadFrom_eq_ok_iff hdefault]
        exact ⟨[], rfl, rfl, hmiddle⟩

theorem nested_buildsOn_iff (h : Flattens readers tree nested inner flat plain own middle)
    {base : String} : BuildsOn readers tree nested base ↔ base = besidePath nested inner := by
  simp [h.spells_nested.buildsOn_iff, h.inner_no_preset]

/-- When the flat file loads, only a chain of files that is too long can keep the nested ones from
loading. -/
theorem loads_nested (h : Flattens readers tree nested inner flat plain own middle)
    (hdefault : readers.Accepts {})
    (hflat : Loads readers tree left flat)
    (hchains : ∀ rest, (nested :: rest).IsChain (BuildsOn readers tree) →
      (nested :: rest).length ≤ left) : Loads readers tree left nested := by
  have hinner := h.nested_buildsOn_iff.mpr rfl
  obtain ⟨left, rfl⟩ : ∃ less, left = less + 2 := by
    have htwo : 2 ≤ left := hchains [_] (.cons_cons hinner (.singleton _))
    exact ⟨left - 2, by omega⟩
  obtain ⟨hown, hbases⟩ := hflat.step
  have hplain : Loads readers tree (left + 1) (besidePath flat plain) :=
    hbases _ (h.spells_flat.buildsOn_iff.mpr ⟨plain, by simp, h.plain_no_preset, rfl⟩)
  have hnested := h.spells_nested.isUsable_iff.mpr (h.spells_flat.isUsable_iff.mp hown)
  have hmiddle := h.spells_inner.isUsable_iff.mpr (h.spells_plain.isUsable_iff.mp hplain.isUsable)
  have htogether : InOneDirectory tree [flat, besidePath nested inner] :=
    h.together.of_subset (by simp)
  have hinner_chains := chains_of_buildsOn hinner hchains
  refine (loads_succ_iff hdefault).mpr ⟨hnested, fun base hbase => ?_⟩
  rw [h.nested_buildsOn_iff.mp hbase]
  refine (loads_succ_iff hdefault).mpr ⟨hmiddle, fun base hbase => ?_⟩
  have hbase_chains := chains_of_buildsOn hbase hinner_chains
  obtain ⟨name, hname, hpreset, heq⟩ := h.spells_inner.buildsOn_iff.mp hbase
  -- the flat file builds on the same file, found from beside itself
  have hloads : Loads readers tree (left + 1) (besidePath flat name) :=
    hbases _ (h.spells_flat.buildsOn_iff.mpr
      ⟨name, List.mem_append_left _ hname, hpreset, rfl⟩)
  have hsame := sameFile_beside htogether hown hmiddle hloads.isUsable
  exact (heq ▸ hsame.loads hloads).of_chains hdefault hbase_chains

end Flattens

/-! ## The law -/

/-- Merging is associative; so what a file that builds on one other file loads as is what the same
file loads as when it builds on everything the other one builds on, and on what that one says, as
long as no chain of files has more than ten. -/
theorem nesting_of_configurations_does_not_matter :
    (∀ a b c : Config, (a.merge b).merge c = a.merge (b.merge c)) ∧
      ∀ (readers : Readers), readers.Accepts {} →
        ∀ (tree : FileTree) (nested inner flat plain : String) (own middle : Config),
          Flattens readers tree nested inner flat plain own middle →
            ∀ c, load readers tree nested = .ok c ↔ load readers tree flat = .ok c ∧
              ∀ chain : List String, chain.head? = some nested →
                chain.IsChain (BuildsOn readers tree) → chain.length ≤ 10 := by
  refine ⟨merge_assoc, fun readers hdefault tree nested inner flat plain own middle h c => ?_⟩
  rw [forall_chain_iff]
  constructor
  · intro hload
    exact ⟨h.loadFrom_flat hdefault hload, ((loads_iff hdefault).mp ⟨c, hload⟩).2⟩
  · rintro ⟨hload, hchains⟩
    obtain ⟨other, hother⟩ := h.loads_nested hdefault ⟨c, hload⟩ hchains
    obtain rfl : c = other := Except.ok.inj (hload.symm.trans (h.loadFrom_flat hdefault hother))
    exact hother

/-- A team's settings on top of a preset and a base file, and the same settings written out. -/
def teamTree : FileTree where
  files :=
    [(["conf", "base.json"], .text "\x7b\"engine\":\x7b\"jobs\":2\x7d\x7d".toList),
      (["conf", "team.json"], .text ("\x7b\"extends\":[\"strict\",\"base.json\"],"
        ++ "\"rules\":\x7b\"disabled\":[\"A\"]\x7d\x7d").toList),
      (["conf", "team-only.json"], .text "\x7b\"rules\":\x7b\"disabled\":[\"A\"]\x7d\x7d".toList),
      (["conf", "nested.json"], .text
        "\x7b\"extends\":[\"./team.json\"],\"fix\":\x7b\"level\":\"all\"\x7d\x7d".toList),
      (["conf", "flat.json"], .text
        ("\x7b\"extends\":[\"strict\",\"base.json\",\"team-only.json\"],"
          ++ "\"fix\":\x7b\"level\":\"all\"\x7d\x7d").toList)]

theorem teamTree_flattens : Flattens .builtin teamTree "conf/nested.json" "./team.json"
    "conf/flat.json" "team-only.json" { level := .all }
    { bases := ["strict", "base.json"], disabled := ["A"] } where
  spells_nested := ⟨_, rfl, decode_eq_ok_of_isSame (by decide +kernel)⟩
  spells_inner := ⟨_, rfl, decode_eq_ok_of_isSame (by decide +kernel)⟩
  spells_flat := ⟨_, rfl, decode_eq_ok_of_isSame (by decide +kernel)⟩
  spells_plain := ⟨_, rfl, decode_eq_ok_of_isSame (by decide +kernel)⟩
  inner_no_preset := rfl
  plain_no_preset := rfl
  together := ⟨["conf"], by
    simp only [List.forall_mem_cons]
    exact ⟨⟨"nested.json", rfl⟩, ⟨"team.json", rfl⟩, ⟨"flat.json", rfl⟩, by simp⟩⟩

theorem team_settings_load_alike :
    Readers.builtin.Accepts {} ∧ (load .builtin teamTree "conf/nested.json").isOk = true ∧
      ∀ c, load .builtin teamTree "conf/nested.json" = .ok c ↔
        load .builtin teamTree "conf/flat.json" = .ok c ∧
          ∀ chain : List String, chain.head? = some "conf/nested.json" →
            chain.IsChain (BuildsOn .builtin teamTree) → chain.length ≤ 10 :=
  ⟨builtin_accepts_default, by decide +kernel, nesting_of_configurations_does_not_matter.2 .builtin
    builtin_accepts_default teamTree _ _ _ _ _ _ teamTree_flattens⟩

end DiagramLint.Config
