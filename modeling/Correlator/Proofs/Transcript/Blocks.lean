import Correlator.Record.Run

/-!
# Blocks of runs

Adjacent runs of the same slice belong together.  `blocks_maximal` says that `blocks`
cuts a sequence of runs into the longest pieces of one slice each.
-/

namespace Correlator

/-- The slice number of a block of runs: that of its first run. -/
def blockNumber (block : List Run) : Int32 := (block.head?.map Run.slice).getD 0

@[simp] theorem blockNumber_cons (run : Run) (block : List Run) :
    blockNumber (run :: block) = run.slice := rfl

/-- Puts a run before blocks: into the first of them, if that is of the same slice. -/
def pushRun (run : Run) : List (List Run) → List (List Run)
  | [] => [[run]]
  | block :: others =>
    if blockNumber block = run.slice then (run :: block) :: others else [run] :: block :: others

/-- Adjacent runs of the same slice, put together. -/
def blocks : List Run → List (List Run)
  | [] => []
  | run :: runs => pushRun run (blocks runs)

section Push

variable {run : Run} {block : List Run} {others : List (List Run)}

theorem pushRun_of_same (h : blockNumber block = run.slice) :
    pushRun run (block :: others) = (run :: block) :: others := if_pos h

theorem pushRun_of_ne (h : blockNumber block ≠ run.slice) :
    pushRun run (block :: others) = [run] :: block :: others := if_neg h

theorem pushRun_append {front : List (List Run)} (hfront : front ≠ []) :
    pushRun run (front ++ others) = pushRun run front ++ others := by
  cases front with
  | nil => exact absurd rfl hfront
  | cons block front =>
    by_cases hsame : blockNumber block = run.slice
    · rw [List.cons_append, pushRun_of_same hsame, pushRun_of_same hsame, List.cons_append]
    · rw [List.cons_append, pushRun_of_ne hsame, pushRun_of_ne hsame, List.cons_append,
        List.cons_append]

theorem flatten_pushRun : (pushRun run others).flatten = run :: others.flatten := by
  cases others with
  | nil => rfl
  | cons block others =>
    by_cases hsame : blockNumber block = run.slice
    · rw [pushRun_of_same hsame]
      rfl
    · rw [pushRun_of_ne hsame]
      rfl

theorem exists_pushRun (run : Run) (others : List (List Run)) :
    ∃ block later, pushRun run others = (run :: block) :: later := by
  cases others with
  | nil => exact ⟨[], [], rfl⟩
  | cons block others =>
    by_cases hsame : blockNumber block = run.slice
    · exact ⟨block, others, pushRun_of_same hsame⟩
    · exact ⟨[], block :: others, pushRun_of_ne hsame⟩

end Push

section Block

variable {slice : Int32} {block others : List Run}

theorem exists_blocks_cons (run : Run) (runs : List Run) :
    ∃ block later, blocks (run :: runs) = (run :: block) :: later :=
  exists_pushRun run (blocks runs)

theorem blocks_cons_ne_nil (run : Run) (runs : List Run) : blocks (run :: runs) ≠ [] := by
  obtain ⟨block, later, hblocks⟩ := exists_blocks_cons run runs
  rw [hblocks]
  exact List.cons_ne_nil _ _

theorem blocks_cons_of_ne {run : Run} (h : ∀ r ∈ others.head?, r.slice ≠ run.slice) :
    blocks (run :: others) = [run] :: blocks others := by
  cases others with
  | nil => rfl
  | cons other others =>
    obtain ⟨block, later, hblocks⟩ := exists_blocks_cons other others
    show pushRun run (blocks (other :: others)) = [run] :: blocks (other :: others)
    rw [hblocks]
    exact pushRun_of_ne (h other rfl)

theorem blockNumber_eq (hne : block ≠ []) (hblock : ∀ r ∈ block, r.slice = slice) :
    blockNumber block = slice := by
  cases block with
  | nil => exact absurd rfl hne
  | cons r block => exact hblock r List.mem_cons_self

theorem blocks_of_same (hne : block ≠ []) (hblock : ∀ r ∈ block, r.slice = slice) :
    blocks block = [block] := by
  induction block with
  | nil => exact absurd rfl hne
  | cons run block ih =>
    cases block with
    | nil => rfl
    | cons run' block =>
      have hlater : blocks (run' :: block) = [run' :: block] :=
        ih (List.cons_ne_nil _ _) fun r hr => hblock r (List.mem_cons_of_mem run hr)
      show pushRun run (blocks (run' :: block)) = [run :: run' :: block]
      rw [hlater]
      refine pushRun_of_same ?_
      rw [blockNumber_cons, hblock run List.mem_cons_self]
      exact hblock run' (List.mem_cons_of_mem run List.mem_cons_self)

theorem blocks_append_of_ne {runs : List Run}
    (h : ∀ a ∈ runs.getLast?, ∀ b ∈ others.head?, a.slice ≠ b.slice) :
    blocks (runs ++ others) = blocks runs ++ blocks others := by
  induction runs with
  | nil => rfl
  | cons run runs ih =>
    cases runs with
    | nil => exact blocks_cons_of_ne fun b hb => (h run rfl b hb).symm
    | cons run' runs =>
      have hlater := ih fun a ha => h a (by rwa [List.getLast?_cons_cons])
      show pushRun run (blocks (run' :: runs ++ others)) = _
      rw [hlater]
      exact pushRun_append (blocks_cons_ne_nil run' runs)

theorem blocks_append (hne : block ≠ []) (hblock : ∀ r ∈ block, r.slice = slice)
    (hothers : ∀ r ∈ others.head?, r.slice ≠ slice) :
    blocks (block ++ others) = block :: blocks others := by
  have hsplit : blocks (block ++ others) = blocks block ++ blocks others := by
    refine blocks_append_of_ne fun a ha b hb heq => ?_
    exact hothers b hb (heq.symm.trans (hblock a (List.mem_of_getLast? ha)))
  rw [hsplit, blocks_of_same hne hblock, List.singleton_append]

theorem exists_block (run : Run) (runs : List Run) :
    ∃ block others, run :: runs = block ++ others ∧ block ≠ [] ∧
      (∀ r ∈ block, r.slice = run.slice) ∧ ∀ r ∈ others.head?, r.slice ≠ run.slice := by
  induction runs generalizing run with
  | nil => exact ⟨[run], [], rfl, by simp, by simp, by simp⟩
  | cons run' runs ih =>
    by_cases hsame : run'.slice = run.slice
    · obtain ⟨block, others, hsplit, -, hblock, hothers⟩ := ih run'
      rw [hsame] at hblock hothers
      exact ⟨run :: block, others, by rw [hsplit, List.cons_append], by simp,
        by simpa using hblock, hothers⟩
    · exact ⟨[run], run' :: runs, rfl, by simp, by simp, by simpa using hsame⟩

/-- Induction over runs, one block after the other. -/
@[elab_as_elim]
theorem blocks_induction {motive : List Run → Prop} (nil : motive [])
    (append : ∀ {slice : Int32} {block others : List Run}, block ≠ [] →
      (∀ r ∈ block, r.slice = slice) → (∀ r ∈ others.head?, r.slice ≠ slice) →
      motive others → motive (block ++ others)) (runs : List Run) : motive runs := by
  induction hsize : runs.length using Nat.strongRecOn generalizing runs with
  | ind size ih =>
    cases runs with
    | nil => exact nil
    | cons run runs =>
      obtain ⟨block, others, hsplit, hne, hblock, hothers⟩ := exists_block run runs
      have hlength := congrArg List.length hsplit
      have hpos := List.length_pos_iff.mpr hne
      rw [List.length_append] at hlength
      rw [hsplit]
      exact append hne hblock hothers (ih others.length (by omega) others rfl)

theorem slice_getLast (hne : block ≠ []) (hblock : ∀ r ∈ block, r.slice = slice) :
    block.getLast?.map Run.slice = some slice := by
  rw [List.getLast?_eq_some_getLast hne, Option.map_some, hblock _ (List.getLast_mem hne)]

/-- What comes behind runs can only change the last of their blocks. -/
theorem dropLast_blocks_prefix (runs others : List Run) :
    (blocks runs).dropLast <+: blocks (runs ++ others) := by
  induction runs using blocks_induction with
  | nil => exact List.nil_prefix
  | @append slice block later hne hblock hlater ih =>
    rw [blocks_append hne hblock hlater, List.append_assoc]
    cases later with
    | nil => exact List.nil_prefix
    | cons other later =>
      have hbehind : blocks (block ++ (other :: later ++ others))
          = block :: blocks (other :: later ++ others) :=
        blocks_append hne hblock (by simpa using hlater)
      rw [hbehind, List.dropLast_cons_of_ne_nil (blocks_cons_ne_nil other later)]
      exact List.cons_prefix_cons.mpr ⟨rfl, ih⟩

end Block

theorem flatten_blocks (runs : List Run) : (blocks runs).flatten = runs := by
  induction runs with
  | nil => rfl
  | cons run runs ih =>
    rw [blocks, flatten_pushRun, ih]

/-- A block is not empty and all its runs are of one slice. -/
theorem of_mem_blocks {runs block : List Run} (h : block ∈ blocks runs) :
    block ≠ [] ∧ ∀ r ∈ block, r.slice = blockNumber block := by
  induction runs generalizing block with
  | nil => exact absurd h List.not_mem_nil
  | cons run runs ih =>
    rw [blocks] at h
    cases hlater : blocks runs with
    | nil =>
      rw [hlater, pushRun, List.mem_singleton] at h
      subst h
      simp
    | cons first later =>
      rw [hlater] at h ih
      by_cases hsame : blockNumber first = run.slice
      · rw [pushRun_of_same hsame] at h
        rcases List.mem_cons.mp h with rfl | h
        · refine ⟨List.cons_ne_nil _ _, fun r hr => ?_⟩
          rcases List.mem_cons.mp hr with rfl | hr
          · rfl
          · exact ((ih List.mem_cons_self).2 r hr).trans hsame
        · exact ih (List.mem_cons_of_mem first h)
      · rw [pushRun_of_ne hsame] at h
        rcases List.mem_cons.mp h with rfl | h
        · simp
        · exact ih h

theorem blocks_separate {runs : List Run} {n : Nat} {a b : List Run}
    (ha : (blocks runs)[n]? = some a) (hb : (blocks runs)[n + 1]? = some b) :
    blockNumber a ≠ blockNumber b := by
  induction runs generalizing n a b with
  | nil => exact absurd ha (by simp [blocks])
  | cons run runs ih =>
    rw [blocks] at ha hb
    cases hlater : blocks runs with
    | nil => exact absurd hb (by simp [hlater, pushRun])
    | cons first later =>
      rw [hlater] at ha hb ih
      by_cases hsame : blockNumber first = run.slice
      · rw [pushRun_of_same hsame] at ha hb
        cases n with
        | zero =>
          -- the first block keeps its number, the second stays what it was
          rw [List.getElem?_cons_zero, Option.some.injEq] at ha
          rw [← ha, blockNumber_cons, ← hsame]
          exact ih (n := 0) List.getElem?_cons_zero hb
        | succ n => exact ih (n := n + 1) ha hb
      · rw [pushRun_of_ne hsame] at ha hb
        cases n with
        | zero =>
          rw [List.getElem?_cons_zero, Option.some.injEq] at ha
          rw [List.getElem?_cons_succ, List.getElem?_cons_zero, Option.some.injEq] at hb
          rw [← ha, ← hb, blockNumber_cons]
          exact Ne.symm hsame
        | succ n => exact ih (n := n) ha hb

/-- The blocks are made of all runs in order, none is empty, the runs of each are of one
slice, and neighbours are of different slices. -/
theorem blocks_maximal (runs : List Run) :
    (blocks runs).flatten = runs ∧
      (∀ block ∈ blocks runs, block ≠ [] ∧ ∀ r ∈ block, r.slice = blockNumber block) ∧
      ∀ n a b, (blocks runs)[n]? = some a → (blocks runs)[n + 1]? = some b →
        blockNumber a ≠ blockNumber b :=
  ⟨flatten_blocks runs, fun _ hblock => of_mem_blocks hblock,
    fun _ _ _ ha hb => blocks_separate ha hb⟩

end Correlator
