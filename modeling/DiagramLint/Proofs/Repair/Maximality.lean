-- A pass leaves no proposal out without a reason. What it could accept and
-- does not is on the line of a label that is replaced as a whole, or collides
-- with what it accepts; so it accepts nothing only when there is nothing that
-- it could accept.
import DiagramLint.Proofs.Repair.Selection

namespace DiagramLint

/-! ## What a pass can accept -/

/-- What tells a diagnostic apart for repairs, if it has a code: code, place and span. -/
def Diagnostic.key? (d : Diagnostic) : Option (String × Nat × Nat × Nat) :=
  d.code.map (repairKey · d)

/-- The proposal for a diagnostic of a list, named by its index there. -/
structure Offer where
  index : Nat
  diagnostic : Diagnostic
  proposal : Proposal

namespace Offer

/-- The proposal comes from the first diagnostic of its key, the strategy for the code may act at a
level and proposed it, and the proposal is of that level and has edits. -/
inductive Eligible (registry : Registry) (t : Text) (level : Level) (ds : List Diagnostic)
    (o : Offer) : Prop where
  | intro {code : String} {strategy : Strategy} (at_index : ds[o.index]? = some o.diagnostic)
    (first : ∀ j < o.index, ∀ d, ds[j]? = some d → d.key? ≠ o.diagnostic.key?)
    (code_eq : o.diagnostic.code = some code) (registered : registry.get? code = some strategy)
    (allowed : strategy.minLevel.within level = true)
    (proposed : strategy.propose t o.diagnostic = .ok (some o.proposal))
    (within : o.proposal.level.within level = true) (edits : o.proposal.edits ≠ [])

/-- A proposal that is accepted keeps another one out: it replaces a whole label on the line of the
other's diagnostic, or an edit of one collides with an edit of the other. -/
def Blocks (t : Text) (a o : Offer) : Prop :=
  (a.proposal.wholeLine = true ∧ a.diagnostic.line = o.diagnostic.line) ∨
    ∃ e ∈ a.proposal.edits, ∃ e' ∈ o.proposal.edits,
      (e.resolve t).overlaps (e'.resolve t) = true

/-- The offer as a pass sees it. -/
def candidate (o : Offer) : Candidate := ⟨o.diagnostic.line, o.proposal⟩

end Offer

/-! ## What a pass goes through -/

theorem candidate?_eq_some_iff {registry : Registry} {t : Text} {level : Level} {code : String}
    {d : Diagnostic} {c : Candidate} :
    candidate? registry t level code d = .ok (some c) ↔
      c.line = d.line ∧ ∃ strategy, registry.get? code = some strategy ∧
        strategy.minLevel.within level = true ∧ strategy.propose t d = .ok (some c.proposal) ∧
        c.proposal.level.within level = true ∧ c.proposal.edits ≠ [] := by
  constructor
  · intro h
    obtain ⟨strategy, hs, hlevel, hp⟩ := candidate?_eq_some h
    simp only [candidate?, hs, hlevel, hp, if_true, Except.map, Except.ok.injEq,
      Option.map_eq_some_iff, Option.filter_eq_some_iff, Option.some.injEq, Bool.and_eq_true,
      Bool.not_eq_true', List.isEmpty_eq_false_iff] at h
    obtain ⟨p, ⟨rfl, hwithin⟩, hc⟩ := h
    exact ⟨(congrArg Candidate.line hc).symm, strategy, hs, hlevel, hp, hwithin⟩
  · rintro ⟨hline, strategy, hs, hlevel, hp, hwithin, hne⟩
    simp [candidate?, hs, hlevel, hp, hwithin, hne, ← hline, Except.map]

section

variable {registry : Registry} {t : Text} {level : Level}

/-- Whether the offer for a diagnostic is eligible is decided by the diagnostics before it. -/
theorem Offer.eligible_iff {before rest : List Diagnostic} {d : Diagnostic} {o : Offer}
    (hi : o.index = before.length) :
    o.Eligible registry t level (before ++ d :: rest) ↔
      o.diagnostic = d ∧ (∀ e ∈ before, e.key? ≠ d.key?) ∧
        ∃ code, d.code = some code ∧ candidate? registry t level code d = .ok (some o.candidate) := by
  have hat : (before ++ d :: rest)[o.index]? = some d := by
    rw [hi, List.getElem?_append_right (Nat.le_refl _), Nat.sub_self, List.getElem?_cons_zero]
  constructor
  · rintro ⟨hindex, hfirst, hcode, hs, hlevel, hp, hwithin, hne⟩
    rw [hat, Option.some.injEq] at hindex
    subst hindex
    refine ⟨rfl, ?_, _, hcode, candidate?_eq_some_iff.mpr ⟨rfl, _, hs, hlevel, hp, hwithin, hne⟩⟩
    intro e he
    obtain ⟨j, hlt, hj⟩ := List.mem_iff_getElem.mp he
    refine hfirst j (hi ▸ hlt) e ?_
    rw [List.getElem?_append_left hlt, List.getElem?_eq_getElem hlt, hj]
  · rintro ⟨rfl, hfirst, code, hcode, hcandidate⟩
    obtain ⟨-, strategy, hs, hlevel, hp, hwithin, hne⟩ := candidate?_eq_some_iff.mp hcandidate
    refine ⟨hat, ?_, hcode, hs, hlevel, hp, hwithin, hne⟩
    intro j hj e he
    rw [List.getElem?_append_left (hi ▸ hj)] at he
    exact hfirst e (List.mem_of_getElem? he)

/-- The keys of some diagnostics. -/
def KeysOf (seen : List (String × Nat × Nat × Nat)) (ds : List Diagnostic) : Prop :=
  ∀ key, key ∈ seen ↔ ∃ d ∈ ds, d.key? = some key

variable {before rest : List Diagnostic} {seen : List (String × Nat × Nat × Nat)} {d : Diagnostic}

theorem KeysOf.append (h : KeysOf seen before) (hd : ∀ key, d.key? = some key → key ∈ seen) :
    KeysOf seen (before ++ [d]) := by
  intro key
  simp only [List.mem_append, List.mem_singleton, or_and_right, exists_or, exists_eq_left, h key]
  exact ⟨.inl, fun h' => h'.elim id fun hkey => (h key).mp (hd key hkey)⟩

theorem KeysOf.cons (h : KeysOf seen before) {key : String × Nat × Nat × Nat}
    (hd : d.key? = some key) : KeysOf (key :: seen) (before ++ [d]) := by
  intro key'
  simp only [List.mem_cons, List.mem_append, List.not_mem_nil, or_false, or_and_right, exists_or,
    exists_eq_left, h key', hd, Option.some.injEq]
  rw [or_comm, eq_comm]

/-- The offer for the first of the diagnostics left, and the keys known behind it. -/
theorem exists_own_offer {cs : List Candidate} (hseen : KeysOf seen before)
    (hcs : candidates registry t level seen (d :: rest) = .ok cs) :
    ∃ (own : Option Offer) (seen' : _) (others : List Candidate), KeysOf seen' (before ++ [d]) ∧
      candidates registry t level seen' rest = .ok others ∧
      own.toList.map Offer.candidate ++ others = cs ∧
      ∀ o, own = some o ↔
        o.Eligible registry t level (before ++ d :: rest) ∧ o.index = before.length := by
  have hnone : (∀ o : Offer, o.index = before.length →
      ¬ o.Eligible registry t level (before ++ d :: rest)) → ∀ o : Offer, none = some o ↔
        o.Eligible registry t level (before ++ d :: rest) ∧ o.index = before.length :=
    fun hno o => ⟨fun h => (by cases h), fun ⟨ho, hi⟩ => absurd ho (hno o hi)⟩
  rw [candidates] at hcs
  cases hcode : d.code with
  | none =>
    rw [hcode] at hcs
    refine ⟨none, seen, cs, hseen.append (by simp [Diagnostic.key?, hcode]), hcs, rfl, hnone ?_⟩
    intro o hi ho
    obtain ⟨-, -, code, hsome, -⟩ := (Offer.eligible_iff hi).mp ho
    rw [hcode] at hsome
    cases hsome
  | some code =>
    rw [hcode] at hcs
    have hkey : d.key? = some (repairKey code d) := by rw [Diagnostic.key?, hcode]; rfl
    by_cases hm : repairKey code d ∈ seen
    · replace hcs := (if_pos (List.contains_iff_mem.mpr hm)).symm.trans hcs
      refine ⟨none, seen, cs, hseen.append (by simp [hkey, hm]), hcs, rfl, hnone ?_⟩
      intro o hi ho
      obtain ⟨e, he, hsame⟩ := (hseen _).mp hm
      exact ((Offer.eligible_iff hi).mp ho).2.1 e he (hsame.trans hkey.symm)
    · have hfirst : ∀ e ∈ before, e.key? ≠ d.key? := fun e he hsame =>
        hm ((hseen _).mpr ⟨e, he, hsame.trans hkey⟩)
      replace hcs := (if_neg (by simpa using hm)).symm.trans hcs
      obtain ⟨c?, hc?, hcs⟩ := bind_eq_ok_iff.mp hcs
      obtain ⟨others, hothers, hcs⟩ := bind_eq_ok_iff.mp hcs
      cases hcs
      refine ⟨c?.map fun c => ⟨before.length, d, c.proposal⟩, _, others, hseen.cons hkey, hothers,
        ?_, ?_⟩
      · congr 1
        cases c? with
        | none => rfl
        | some c =>
          simp [Offer.candidate, ← (candidate?_eq_some_iff.mp hc?).1]
      · intro o
        rw [Option.map_eq_some_iff]
        constructor
        · rintro ⟨c, rfl, rfl⟩
          refine ⟨(Offer.eligible_iff rfl).mpr ⟨rfl, hfirst, code, hcode, ?_⟩, rfl⟩
          rw [Offer.candidate, ← (candidate?_eq_some_iff.mp hc?).1]
          exact hc?
        · rintro ⟨ho, hi⟩
          obtain ⟨hd, -, code', hcode', hc⟩ := (Offer.eligible_iff hi).mp ho
          rw [hcode, Option.some.injEq] at hcode'
          subst hcode'
          refine ⟨_, Except.ok.inj (hc?.symm.trans hc), ?_⟩
          rw [← hi, ← hd]
          rfl

/-- The candidates of a pass are the eligible offers, in the order of the diagnostics. -/
theorem exists_offers {cs : List Candidate} (hseen : KeysOf seen before)
    (hcs : candidates registry t level seen rest = .ok cs) :
    ∃ os : List Offer, os.map Offer.candidate = cs ∧
      (os.Pairwise fun a b => a.index < b.index) ∧
      ∀ o, o ∈ os ↔ o.Eligible registry t level (before ++ rest) ∧ before.length ≤ o.index := by
  induction rest generalizing before seen cs with
  | nil =>
    cases hcs
    refine ⟨[], rfl, List.Pairwise.nil, fun o => ⟨fun h => (by cases h), ?_⟩⟩
    rintro ⟨⟨hindex, _, _, _, _, _, _, _⟩, hle⟩
    rw [List.append_nil, List.getElem?_eq_none hle] at hindex
    cases hindex
  | cons d rest ih =>
    obtain ⟨own, seen', others, hseen', hothers, hown, hmem⟩ := exists_own_offer hseen hcs
    obtain ⟨os, hos, hord, hlater⟩ := ih hseen' hothers
    have hlength : (before ++ [d]).length = before.length + 1 := by simp
    rw [List.append_assoc, List.singleton_append, hlength] at hlater
    refine ⟨own.toList ++ os, by rw [List.map_append, hos, hown], ?_, ?_⟩
    · refine List.pairwise_append.mpr ⟨?_, hord, ?_⟩
      · cases own with
        | none => exact List.Pairwise.nil
        | some o => exact List.pairwise_singleton _ _
      · intro a ha b hb
        have h1 := ((hmem a).mp (Option.mem_toList.mp ha)).2
        have h2 := ((hlater b).mp hb).2
        omega
    · intro o
      rw [List.mem_append, Option.mem_toList, hmem, hlater, ← and_or_left]
      exact and_congr_right fun _ => by omega

end

/-! ## What a pass accepts -/

/-- Of some offers a pass accepts these, when it has made a selection before. -/
structure Selection.Accepts (t : Text) (s : Selection) (os accepted : List Offer) : Prop where
  sublist : accepted.Sublist os
  edits_eq : ((os.map Offer.candidate).foldl (consider t) s).edits =
    s.edits ++ accepted.flatMap (·.proposal.edits)
  outside : ∀ a ∈ accepted, a.diagnostic.line ∉ s.closedLines
  apart : accepted.Pairwise fun a b =>
    a.proposal.wholeLine = true → a.diagnostic.line ≠ b.diagnostic.line
  maximal : ∀ o ∈ os, o ∈ accepted ∨ o.diagnostic.line ∈ s.closedLines ∨
    s.collides (o.proposal.edits.map (·.resolve t)) = true ∨ ∃ a ∈ accepted, a.Blocks t o

namespace Selection

/-- Whether an offer is left out: its line is closed, or its edits collide with accepted ones. -/
def Declines (s : Selection) (t : Text) (o : Offer) : Prop :=
  o.diagnostic.line ∈ s.closedLines ∨ s.collides (o.proposal.edits.map (·.resolve t)) = true

/-- A selection behind an offer that it takes. -/
def taking (s : Selection) (t : Text) (o : Offer) : Selection where
  closedLines :=
    if o.proposal.wholeLine then o.diagnostic.line :: s.closedLines else s.closedLines
  ranges := s.ranges ++ o.proposal.edits.map (·.resolve t)
  edits := s.edits ++ o.proposal.edits

variable {t : Text} {s : Selection} {o : Offer} {os accepted : List Offer}

theorem consider_of_declines (h : s.Declines t o) : consider t s o.candidate = s := by
  unfold consider Offer.candidate
  exact if_pos (by simpa [Declines] using h)

theorem consider_of_not_declines (h : ¬s.Declines t o) :
    consider t s o.candidate = s.taking t o := by
  unfold consider Offer.candidate
  exact if_neg (by simpa [Declines] using h)

theorem mem_closedLines_taking {n : Nat} : n ∈ (s.taking t o).closedLines ↔
    (o.proposal.wholeLine = true ∧ n = o.diagnostic.line) ∨ n ∈ s.closedLines := by
  unfold taking
  dsimp only
  split
  · rename_i hwhole
    simp [hwhole]
  · rename_i hwhole
    simp [hwhole]

/-- What an offer collides with was accepted before, or just now. -/
theorem collides_taking {o' : Offer}
    (h : (s.taking t o).collides (o'.proposal.edits.map (·.resolve t)) = true) :
    s.collides (o'.proposal.edits.map (·.resolve t)) = true ∨ o.Blocks t o' := by
  simp only [collides, List.any_eq_true, List.mem_map] at h ⊢
  obtain ⟨r, ⟨e', he', rfl⟩, r', hr', hover⟩ := h
  rcases List.mem_append.mp hr' with hr' | hr'
  · exact .inl ⟨_, ⟨e', he', rfl⟩, r', hr', hover⟩
  · obtain ⟨e, he, rfl⟩ := List.mem_map.mp hr'
    rw [ByteRange.overlaps_comm] at hover
    exact .inr (.inr ⟨e, he, e', he', hover⟩)

namespace Accepts

theorem decline (h : s.Accepts t os accepted) (ho : s.Declines t o) :
    s.Accepts t (o :: os) accepted where
  sublist := h.sublist.cons o
  edits_eq := by
    rw [List.map_cons, List.foldl_cons, consider_of_declines ho]
    exact h.edits_eq
  outside := h.outside
  apart := h.apart
  maximal o' ho' := by
    rcases List.mem_cons.mp ho' with rfl | ho'
    · exact .inr (ho.imp_right .inl)
    · exact h.maximal o' ho'

theorem take (h : (s.taking t o).Accepts t os accepted) (ho : ¬s.Declines t o) :
    s.Accepts t (o :: os) (o :: accepted) where
  sublist := h.sublist.cons_cons o
  edits_eq := by
    rw [List.map_cons, List.foldl_cons, consider_of_not_declines ho, h.edits_eq,
      List.flatMap_cons, ← List.append_assoc]
    rfl
  outside a ha := by
    rcases List.mem_cons.mp ha with rfl | ha
    · exact fun hm => ho (.inl hm)
    · exact fun hm => h.outside a ha (mem_closedLines_taking.mpr (.inr hm))
  apart := by
    refine List.pairwise_cons.mpr ⟨fun a ha hwhole hsame => ?_, h.apart⟩
    exact h.outside a ha (mem_closedLines_taking.mpr (.inl ⟨hwhole, hsame.symm⟩))
  maximal o' ho' := by
    rcases List.mem_cons.mp ho' with rfl | ho'
    · exact .inl List.mem_cons_self
    · have hblocks : o.Blocks t o' → ∃ a ∈ o :: accepted, a.Blocks t o' :=
        fun hb => ⟨o, List.mem_cons_self, hb⟩
      rcases h.maximal o' ho' with hm | hline | hcollides | ⟨a, ha, hb⟩
      · exact .inl (List.mem_cons_of_mem _ hm)
      · rcases mem_closedLines_taking.mp hline with ⟨hwhole, hsame⟩ | hline
        · exact .inr (.inr (.inr (hblocks (.inl ⟨hwhole, hsame.symm⟩))))
        · exact .inr (.inl hline)
      · exact .inr (.inr ((collides_taking hcollides).imp_right hblocks))
      · exact .inr (.inr (.inr ⟨a, List.mem_cons_of_mem _ ha, hb⟩))

end Accepts

theorem exists_accepts (t : Text) (s : Selection) (os : List Offer) :
    ∃ accepted, s.Accepts t os accepted := by
  induction os generalizing s with
  | nil => exact ⟨[], .refl _, by simp, by simp, List.Pairwise.nil, by simp⟩
  | cons o os ih =>
    by_cases ho : s.Declines t o
    · obtain ⟨accepted, h⟩ := ih s
      exact ⟨accepted, h.decline ho⟩
    · obtain ⟨accepted, h⟩ := ih (s.taking t o)
      exact ⟨o :: accepted, h.take ho⟩

end Selection

/-- The offers that replace a whole label before the others, each group in its order. -/
theorem wholeLineFirst_map (os : List Offer) :
    wholeLineFirst (os.map Offer.candidate) =
      (os.filter (·.proposal.wholeLine) ++ os.filter (!·.proposal.wholeLine)).map
        Offer.candidate := by
  rw [wholeLineFirst, List.filter_map, List.filter_map, List.map_append]
  rfl

/-- Two offers that are not on one line if either replaces a whole label. -/
def Offer.Apart (a b : Offer) : Prop :=
  a.proposal.wholeLine = true ∨ b.proposal.wholeLine = true → a.diagnostic.line ≠ b.diagnostic.line

instance : Std.Symm Offer.Apart where
  symm _ _ h hwhole := (h hwhole.symm).symm

/-- An offer that replaces a whole label does not come after one that does not. -/
theorem wholeLine_sorted (os : List Offer) :
    (os.filter (·.proposal.wholeLine) ++ os.filter (!·.proposal.wholeLine)).Pairwise
      fun a b => b.proposal.wholeLine = true → a.proposal.wholeLine = true := by
  refine List.pairwise_append.mpr ⟨List.pairwise_of_forall_mem_list ?_,
    List.pairwise_of_forall_mem_list ?_, fun a ha _ _ _ => (List.mem_filter.mp ha).2⟩
  · exact fun a ha _ _ _ => (List.mem_filter.mp ha).2
  · intro _ _ b hb hwhole
    simp [hwhole] at hb

/-- Of accepted offers, one that replaces a whole label is alone on its line. -/
theorem eq_of_wholeLine {accepted : List Offer}
    (hsorted : accepted.Pairwise fun a b =>
      b.proposal.wholeLine = true → a.proposal.wholeLine = true)
    (hapart : accepted.Pairwise fun a b =>
      a.proposal.wholeLine = true → a.diagnostic.line ≠ b.diagnostic.line) :
    ∀ a ∈ accepted, a.proposal.wholeLine = true → ∀ b ∈ accepted,
      b.diagnostic.line = a.diagnostic.line → b = a := by
  -- of two of them the earlier one replaces a whole label if either does
  have hboth : accepted.Pairwise Offer.Apart :=
    (hsorted.and hapart).imp fun h hwhole => h.2 (hwhole.elim id h.1)
  intro a ha hwhole b hb hline
  by_contra hne
  exact hboth.forall hb ha hne (.inr hwhole) hline

/-- A pass accepts some of the proposals that it could, and leaves another one out only because of
one that it accepts; one that replaces a whole label is the only one accepted on its line. A pass
has no edits exactly when there is no proposal that it could accept, and has an answer exactly when
every strategy that it asks has one. -/
theorem a_pass_leaves_nothing_out_without_reason (registry : Registry) (t : Text)
    (ds : List Diagnostic) (level : Level) :
    ((∃ edits, selectEdits registry t ds level = .ok edits) ↔ Answered registry level t ds) ∧
    ∀ edits, selectEdits registry t ds level = .ok edits →
      ∃ accepted : List Offer,
        edits = accepted.flatMap (·.proposal.edits) ∧
        (accepted.map (·.index)).Nodup ∧ (∀ a ∈ accepted, a.Eligible registry t level ds) ∧
        (∀ o : Offer, o.Eligible registry t level ds → o ∉ accepted →
          ∃ a ∈ accepted, a.Blocks t o) ∧
        (∀ a ∈ accepted, a.proposal.wholeLine = true → ∀ b ∈ accepted,
          b.diagnostic.line = a.diagnostic.line → b = a) ∧
        (edits = [] ↔ ∀ o : Offer, ¬ o.Eligible registry t level ds) := by
  refine ⟨exists_selectEdits_iff, fun edits hselect => ?_⟩
  have hnone : KeysOf [] [] := by simp [KeysOf]
  obtain ⟨cs, hcs, hselected⟩ := selectEdits_eq_ok_iff.mp hselect
  obtain ⟨os, hos, hord, hmem⟩ := exists_offers hnone hcs
  obtain ⟨accepted, h⟩ := Selection.exists_accepts t {}
    (os.filter (·.proposal.wholeLine) ++ os.filter (!·.proposal.wholeLine))
  have heligible : ∀ o, o ∈ os.filter (·.proposal.wholeLine) ++ os.filter (!·.proposal.wholeLine) ↔
      o.Eligible registry t level ds := by
    intro o
    rw [List.mem_append, List.mem_filter, List.mem_filter, hmem]
    cases o.proposal.wholeLine
    all_goals simp
  have hedits : edits = accepted.flatMap (·.proposal.edits) := by
    rw [← hselected, acceptedEdits, ← hos, wholeLineFirst_map, h.edits_eq, List.nil_append]
  have haccepted : ∀ a ∈ accepted, a.Eligible registry t level ds := fun a ha =>
    (heligible a).mp (h.sublist.subset ha)
  have hmaximal : ∀ o : Offer, o.Eligible registry t level ds → o ∉ accepted →
      ∃ a ∈ accepted, a.Blocks t o := by
    intro o ho hout
    rcases h.maximal o ((heligible o).mpr ho) with hin | hline | hcollides | hblocks
    · exact absurd hin hout
    · cases hline
    · simp [Selection.collides] at hcollides
    · exact hblocks
  refine ⟨accepted, hedits, ?_, haccepted, hmaximal, ?_, ?_⟩
  · have hnodup : (os.map (·.index)).Nodup := List.pairwise_map.mpr (hord.imp Nat.ne_of_lt)
    have hperm := (List.filter_append_perm (·.proposal.wholeLine) os).map (·.index)
    exact (hperm.nodup_iff.mpr hnodup).sublist (h.sublist.map _)
  · exact eq_of_wholeLine ((wholeLine_sorted os).sublist h.sublist) h.apart
  · rw [hedits, List.flatMap_eq_nil_iff]
    constructor
    · intro hnil o ho
      have hnone : ∀ a, a ∉ accepted := fun a ha => by
        obtain ⟨_, _, _, _, _, _, _, hne⟩ := haccepted a ha
        exact hne (hnil a ha)
      obtain ⟨a, ha, -⟩ := hmaximal o ho (hnone o)
      exact hnone a ha
    · exact fun hno a ha => absurd (haccepted a ha) (hno a)

/-- A strategy that takes a character out of quoted labels, by an empty form in its place. -/
def droppingRegistry : Registry := .ofList [("DROP", .encodeLabel [⟨['x'], []⟩] [.quote])]

/-- A finding at a quoted label. -/
def quotedFinding : Diagnostic where
  line := 1
  column := 1
  message := "A character to drop"
  severity := .error
  code := some "DROP"

/-- Nothing is accepted, and nothing left out either, where a strategy that is asked has no answer:
its place is no number of 64 bits, or its label is encoded for ever. -/
theorem a_pass_without_an_answer_accepts_nothing :
    selectEdits Registry.builtin shortArrow [overlongFinding] .all = .error .overflow ∧
      selectEdits droppingRegistry "\"x\"".toList [quotedFinding] .all = .error .endless := by
  decide +kernel

end DiagramLint
