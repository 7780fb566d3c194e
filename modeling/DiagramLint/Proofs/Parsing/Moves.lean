-- What lines do to the blocks around them. Each line opens a block, closes
-- the innermost one, continues it with a branch, or leaves the blocks alone.
-- A missing end can be put in wherever a block that stays open is around,
-- as long as no branch behind it continues a block from before.
import DiagramLint.Text.Basic

namespace DiagramLint

/-- What a line does to the blocks that are open before it. -/
inductive BlockMove where
  /-- A block with this keyword begins. -/
  | opens (keyword : String)
  /-- The innermost block ends. -/
  | closes
  /-- A branch begins, which only a block with this keyword can have. -/
  | branches (parent : String)
  | stays
  deriving DecidableEq, Repr

namespace BlockMove

/-- Whether a block begins. -/
def isOpening : BlockMove → Bool
  | opens _ => true
  | _ => false

/-- Whether a block ends. -/
def isEnd : BlockMove → Bool
  | closes => true
  | _ => false

/-- The keywords of the open blocks behind a line, innermost first; none when the line asks for a
block that is not there. -/
def act : BlockMove → List String → Option (List String)
  | opens keyword, around => some (keyword :: around)
  | closes, [] => none
  | closes, _ :: outer => some outer
  | branches parent, around => if around.head? = some parent then some around else none
  | stays, around => some around

/-- The keywords of the open blocks behind some lines. -/
def run : List BlockMove → List String → Option (List String)
  | [], around => some around
  | m :: ms, around => (m.act around).bind (run ms)

/-- How many ends among some lines close a block from before, when `depth` other blocks are to be
closed first. -/
def surplus : (depth : Nat) → List BlockMove → Nat
  | _, [] => 0
  | depth, opens _ :: ms => surplus (depth + 1) ms
  | 0, closes :: ms => surplus 0 ms + 1
  | depth + 1, closes :: ms => surplus depth ms
  | depth, branches _ :: ms => surplus depth ms
  | depth, stays :: ms => surplus depth ms

/-- Whether every branch among some lines continues a block opened among them, when the blocks
`own` are open already. -/
def keepsBranches : (own : List String) → List BlockMove → Bool
  | _, [] => true
  | own, opens keyword :: ms => keepsBranches (keyword :: own) ms
  | own, closes :: ms => keepsBranches own.tail ms
  | own, branches parent :: ms => own.head? == some parent && keepsBranches own ms
  | own, stays :: ms => keepsBranches own ms

variable {xs ys ms : List BlockMove} {around own s f : List String}

theorem run_append (xs ys : List BlockMove) (around : List String) :
    run (xs ++ ys) around = (run xs around).bind (run ys) := by
  induction xs generalizing around with
  | nil => rfl
  | cons m xs ih =>
    rw [List.cons_append, run, run]
    cases m.act around with
    | none => rfl
    | some next => exact ih next

/-! ## How many blocks are open -/

/-- How many blocks are open behind some lines, if all their ends are allowed. -/
def depthAfter : (depth : Nat) → List BlockMove → Nat
  | depth, [] => depth
  | depth, opens _ :: ms => depthAfter (depth + 1) ms
  | depth, closes :: ms => depthAfter (depth - 1) ms
  | depth, branches _ :: ms => depthAfter depth ms
  | depth, stays :: ms => depthAfter depth ms

theorem surplus_append (depth : Nat) (xs ys : List BlockMove) :
    surplus depth (xs ++ ys) = surplus depth xs + surplus (depthAfter depth xs) ys := by
  induction xs generalizing depth with
  | nil => simp [surplus, depthAfter]
  | cons m xs ih =>
    cases m with
    | opens keyword => simp [surplus, depthAfter, ih]
    | branches parent => simp [surplus, depthAfter, ih]
    | stays => simp [surplus, depthAfter, ih]
    | closes =>
      cases depth with
      | zero =>
        simp only [List.cons_append, surplus, depthAfter, ih, Nat.zero_sub]
        omega
      | succ depth => simp [surplus, depthAfter, ih]

/-- A block more around saves one end, if there is one to be saved. -/
theorem surplus_succ (depth : Nat) (ms : List BlockMove) :
    surplus (depth + 1) ms = surplus depth ms - 1 := by
  induction ms generalizing depth with
  | nil => rfl
  | cons m ms ih =>
    cases m with
    | opens keyword => exact ih (depth + 1)
    | branches parent => exact ih depth
    | stays => exact ih depth
    | closes =>
      cases depth with
      | zero => rfl
      | succ depth => exact ih depth

theorem surplus_add (depth more : Nat) (ms : List BlockMove) :
    surplus (depth + more) ms = surplus depth ms - more := by
  induction more with
  | zero => rfl
  | succ more ih => rw [← Nat.add_assoc, surplus_succ, ih, Nat.sub_sub]

/-- Blocks that no end reaches stay open. -/
theorem depthAfter_add {depth : Nat} (more : Nat) (h : surplus depth ms = 0) :
    depthAfter (depth + more) ms = depthAfter depth ms + more := by
  induction ms generalizing depth with
  | nil => rfl
  | cons m ms ih =>
    cases m with
    | opens keyword =>
      have hdeeper : depthAfter (depth + 1 + more) ms = depthAfter (depth + 1) ms + more := ih h
      rwa [Nat.add_right_comm] at hdeeper
    | branches parent => exact ih h
    | stays => exact ih h
    | closes =>
      cases depth with
      | zero => cases h
      | succ depth =>
        rw [depthAfter, Nat.add_right_comm, Nat.add_sub_cancel]
        exact ih h

/-- The depth is the number of open blocks. -/
theorem length_of_run (h : run ms around = some f) :
    f.length = depthAfter around.length ms ∧ surplus around.length ms = 0 := by
  induction ms generalizing around with
  | nil => exact ⟨by rw [Option.some.inj h]; rfl, rfl⟩
  | cons m ms ih =>
    obtain ⟨next, hnext, hrun⟩ := Option.bind_eq_some_iff.mp h
    have hlater := ih hrun
    cases m with
    | opens keyword =>
      rw [← Option.some.inj hnext] at hlater
      exact hlater
    | stays =>
      rw [← Option.some.inj hnext] at hlater
      exact hlater
    | branches parent =>
      rw [act] at hnext
      split at hnext
      · rw [← Option.some.inj hnext] at hlater
        exact hlater
      · cases hnext
    | closes =>
      cases around with
      | nil => cases hnext
      | cons block outer =>
        rw [← Option.some.inj hnext] at hlater
        exact hlater

/-- Ends that reach blocks from before leave none of these open, be it one more or less. -/
theorem depthAfter_succ {depth : Nat} (h : surplus depth ms ≠ 0) :
    depthAfter (depth + 1) ms = depthAfter depth ms := by
  induction ms generalizing depth with
  | nil => exact absurd rfl h
  | cons m ms ih =>
    cases m with
    | opens keyword => exact ih h
    | branches parent => exact ih h
    | stays => exact ih h
    | closes =>
      cases depth with
      | zero => rfl
      | succ depth => exact ih h

/-- A block that is open in the end has a line that opens it, and no end behind reaches it. -/
theorem exists_open (h : 0 < depthAfter 0 ms) :
    ∃ xs keyword mid, ms = xs ++ opens keyword :: mid ∧ surplus 0 mid = 0 := by
  induction ms with
  | nil => cases h
  | cons m ms ih =>
    by_cases hlater : 0 < depthAfter 0 ms
    · obtain ⟨xs, keyword, mid, rfl, hmid⟩ := ih hlater
      exact ⟨m :: xs, keyword, mid, rfl, hmid⟩
    · cases m with
      | opens keyword =>
        refine ⟨[], keyword, ms, rfl, Decidable.byContradiction fun hreached => ?_⟩
        rw [depthAfter, depthAfter_succ hreached] at h
        exact hlater h
      | branches parent => exact absurd h hlater
      | stays => exact absurd h hlater
      | closes => exact absurd h hlater

/-- A line in front takes one end at most, and none unless it opens a block. -/
theorem surplus_le_cons (m : BlockMove) (ms : List BlockMove) :
    surplus 0 ms ≤ surplus 0 (m :: ms) + if m.isOpening = true then 1 else 0 := by
  cases m with
  | opens keyword =>
    rw [surplus, surplus_succ, isOpening, if_pos rfl]
    omega
  | closes =>
    rw [surplus]
    omega
  | branches parent => exact Nat.le_add_right _ _
  | stays => exact Nat.le_add_right _ _

/-! ## Ends put in -/

/-- Lines that keep to their own branches close blocks from before, whichever these are, and leave
the others. -/
theorem run_of_keepsBranches (h : keepsBranches own ms = true) :
    ∃ left, ∀ s : List String, run ms (own ++ s) =
      if surplus own.length ms ≤ s.length then some (left ++ s.drop (surplus own.length ms))
      else none := by
  induction ms generalizing own with
  | nil => exact ⟨own, fun s => by simp [run, surplus]⟩
  | cons m ms ih =>
    cases m with
    | opens keyword =>
      obtain ⟨left, hleft⟩ := ih h
      exact ⟨left, hleft⟩
    | stays =>
      obtain ⟨left, hleft⟩ := ih h
      exact ⟨left, hleft⟩
    | branches parent =>
      rw [keepsBranches, Bool.and_eq_true, beq_iff_eq] at h
      obtain ⟨hhead, h⟩ := h
      obtain ⟨left, hleft⟩ := ih h
      refine ⟨left, fun s => ?_⟩
      rw [run, act, if_pos (by rw [List.head?_append, hhead]; rfl), Option.bind_some]
      exact hleft s
    | closes =>
      cases own with
      | cons block own =>
        obtain ⟨left, hleft⟩ := ih h
        exact ⟨left, hleft⟩
      | nil =>
        obtain ⟨left, hleft⟩ := ih h
        refine ⟨left, fun s => ?_⟩
        cases s with
        | nil => simp [run, act, surplus]
        | cons block s =>
          have hs : run ms s =
              if surplus 0 ms ≤ s.length then some (left ++ s.drop (surplus 0 ms)) else none :=
            hleft s
          rw [List.nil_append, run, act, Option.bind_some, hs, List.length_nil, surplus,
            List.length_cons, List.drop_succ_cons]
          by_cases hle : surplus 0 ms ≤ s.length
          · rw [if_pos hle, if_pos (Nat.succ_le_succ hle)]
          · rw [if_neg hle, if_neg (fun h => hle (Nat.le_of_succ_le_succ h))]

/-- An end put in behind a block that stays open closes one block more. -/
theorem run_with_end {keyword : String} {inner behind : List BlockMove}
    (h : run (xs ++ opens keyword :: (inner ++ behind)) [] = some f)
    (hopen : surplus 0 (inner ++ behind) = 0) (hbranches : keepsBranches [] behind = true) :
    ∃ f', run (xs ++ opens keyword :: (inner ++ closes :: behind)) [] = some f' ∧
      f'.length + 1 = f.length := by
  have hsplit : ∀ last : List BlockMove, run (xs ++ opens keyword :: (inner ++ last)) [] =
      ((run xs []).bind fun outer => run inner (keyword :: outer)).bind (run last) := by
    intro last
    rw [run_append]
    cases run xs [] with
    | none => rfl
    | some outer =>
      rw [Option.bind_some, Option.bind_some, ← run_append]
      rfl
  rw [hsplit] at h
  obtain ⟨s, hs, hrun⟩ := Option.bind_eq_some_iff.mp h
  obtain ⟨outer, -, hinner⟩ := Option.bind_eq_some_iff.mp hs
  -- the block around is among those open, and none of the ends behind reaches it
  have hdepth : surplus 0 behind < s.length := by
    rw [surplus_append, Nat.add_eq_zero_iff] at hopen
    obtain ⟨hfirst, hlast⟩ := hopen
    have hle := surplus_add 0 (depthAfter 0 inner) behind
    rw [Nat.zero_add, hlast] at hle
    have hmore := depthAfter_add (outer.length + 1) hfirst
    rw [Nat.zero_add] at hmore
    rw [(length_of_run hinner).1, List.length_cons, hmore]
    omega
  obtain ⟨left, hleft⟩ := run_of_keepsBranches hbranches
  simp only [List.nil_append, List.length_nil] at hleft
  cases s with
  | nil => cases hdepth
  | cons block s =>
    rw [List.length_cons, Nat.lt_succ_iff] at hdepth
    refine ⟨left ++ s.drop (surplus 0 behind), ?_, ?_⟩
    · rw [hsplit, hs, Option.bind_some, run, act, Option.bind_some, hleft, if_pos hdepth]
    · rw [hleft, List.length_cons, if_pos (Nat.le_succ_of_le hdepth), Option.some.injEq] at hrun
      rw [← hrun]
      simp only [List.length_append, List.length_drop, List.length_cons]
      omega

end BlockMove

end DiagramLint
