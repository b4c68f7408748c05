import Uw7.Rzbm.Construction

namespace Uw7.Rzbm

/-!
# The removal of a chunk

`rzbm_deinit_chunk` from `mem/vm_rzbm.c`.  It looks for a chunk whose base is both
arguments, so that it does not find most chunks, and what it finds it leaves on the list.
-/

open Lib

/--
What `rzbm_deinit_chunk` reads without its having been written: the variable `maxfree`,
and the counts behind the cells of a chunk.
-/
structure Unwritten where
  maxfree : Int
  nfree : Nat → Nat

/-- How `rzbm_deinit_chunk` ends. -/
inductive DeinitEnd where
  | succeeds
  | fails
  /-- It follows the null pointer of an empty pool. -/
  | faults
  deriving DecidableEq

def cellNfree (unwritten : Unwritten) (zbmp : RzbmT) (i : Nat) : Nat :=
  if i < zbmp.zbmNcell then (zbmp.zbmCell i).zbcNfree
  else unwritten.nfree i

/-- The loop over the whole cells, `count` cells to go; it stops at a cell in use. -/
def sumWholeCells (unwritten : Unwritten) (zbmp : RzbmT) : Nat → Nat → Int → Option Int
  | _, 0, maxfree => some maxfree
  | i, count + 1, maxfree =>
    if cellNfree unwritten zbmp i ≠ zbmp.zbmCellsize % 2 ^ 16 then none
    else
      sumWholeCells unwritten zbmp (i + 1) count (int (maxfree + cellNfree unwritten zbmp i))

def rzbmDeinitChunk (unwritten : Unwritten) (list : RzbmListMax) (base npages : Nat) :
    DeinitEnd × RzbmListMax :=
  match seekChunk list.toRzbmList fun zbmp =>
      decide (base = zbmp.zbmBase ∧ npages = zbmp.zbmBase)
  with
  | none => (.fails, list)
  | some z =>
    let zbmp := list.chunks z
    let ncells := npages / zbmp.zbmCellsize
    let rem := npages % zbmp.zbmCellsize
    match sumWholeCells unwritten zbmp 0 ncells unwritten.maxfree with
    | none => (.fails, list)
    | some maxfree =>
      if rem = 0 then
        (.succeeds, { list with zbmMaxfree := int (list.zbmMaxfree - maxfree) })
      else
        match zbmp.zbmPool with
        | none => (.faults, list)
        | some head =>
          let lastcellp := (zbmp.zbmCell head).zbcBlink
          if (zbmp.zbmCell lastcellp).zbcNfree ≠ rem then
            (.fails, list)
          else
            let maxfree := int (maxfree + (zbmp.zbmCell lastcellp).zbcNfree)
            (.succeeds,
              { list with
                zbmMaxfree := int (list.zbmMaxfree - maxfree) })

/-- The chunk `z` has this base and size, and all its pages are free. -/
structure Removable (list : RzbmList) (base npages z : Nat) : Prop where
  isChunk : z < list.zbmNchunk
  base : (list.chunks z).zbmBase = base
  size : (list.chunks z).zbmSize = npages
  free : ∀ i, i < npages → bitAt (list.chunks z) i = false

/-- The range is out of use: off the list, not counted and never allocated again. -/
structure Removed (cgNone : Int) (usage : Usage) (before after : RzbmListMax)
    (base npages : Nat) : Prop where
  offList : ∀ z, z < after.zbmNchunk →
      ¬ ((after.chunks z).zbmBase = base ∧ (after.chunks z).zbmSize = npages)
  maxfree : after.zbmMaxfree = before.zbmMaxfree - npages
  neverAllocated : ∀ actions later extent, Run (Step cgNone) { usage with list := after.toRzbmList }
      actions later →
      .allocated extent ∈ actions →
      Extent.Apart extent ⟨base, npages⟩

/-- A call removes the chunk it names if that is free, and else does nothing. -/
structure Removes (cgNone : Int) (unwritten : Unwritten) (usage : Usage) (list : RzbmListMax)
    (base npages : Nat) : Prop where
  returns : (rzbmDeinitChunk unwritten list base npages).1 ≠ .faults
  succeeds : (rzbmDeinitChunk unwritten list base npages).1 = .succeeds ↔
      ∃ z, Removable list.toRzbmList base npages z
  removed : (rzbmDeinitChunk unwritten list base npages).1 = .succeeds → Removed cgNone usage list
      (rzbmDeinitChunk unwritten list base npages).2 base npages
  unchanged : (rzbmDeinitChunk unwritten list base npages).1 = .fails →
      (rzbmDeinitChunk unwritten list base npages).2 = list

/--
Both arguments are the number of the first page of a chunk, the first such on the list,
and as far as they reach its cells look free.
-/
structure Mistaken (unwritten : Unwritten) (list : RzbmList) (base npages z : Nat) : Prop where
  same : base = npages
  isChunk : z < list.zbmNchunk
  begins : (list.chunks z).zbmBase = base
  first : ∀ z', z' < z → (list.chunks z').zbmBase ≠ base
  whole : ∀ i, i < npages / (list.chunks z).zbmCellsize → cellNfree unwritten (list.chunks z) i =
      (list.chunks z).zbmCellsize % 2 ^ 16
  last : npages % (list.chunks z).zbmCellsize ≠ 0 → ∀ head, (list.chunks z).zbmPool = some head →
      ((list.chunks z).zbmCell ((list.chunks z).zbmCell head).zbcBlink).zbcNfree =
        npages % (list.chunks z).zbmCellsize

theorem sumWholeCells_isSome (unwritten : Unwritten) (zbmp : RzbmT) (first count : Nat)
    (maxfree : Int) :
    (sumWholeCells unwritten zbmp first count maxfree).isSome = true ↔ ∀ i, i < count →
      cellNfree unwritten zbmp (first + i) = zbmp.zbmCellsize % 2 ^ 16 := by
  induction count generalizing first maxfree with
  | zero => simp [sumWholeCells]
  | succ count ih =>
    unfold sumWholeCells
    by_cases free : cellNfree unwritten zbmp first = zbmp.zbmCellsize % 2 ^ 16
    · rw [if_neg (not_not_intro free), ih]
      constructor
      · intro rest i inside
        cases i with
        | zero => exact free
        | succ i =>
          have next := rest i (by omega)
          rwa [Nat.add_right_comm, Nat.add_assoc] at next
      · intro all i inside
        have next := all (i + 1) (by omega)
        rwa [← Nat.add_assoc, Nat.add_right_comm] at next
    · rw [if_pos free]
      constructor
      · intro impossible
        cases impossible
      · intro all
        exact absurd (all 0 (by omega)) free

variable {unwritten : Unwritten} {list : RzbmListMax} {base npages : Nat}

theorem rzbmDeinitChunk_chunks : (rzbmDeinitChunk unwritten list base npages).2.toRzbmList =
      list.toRzbmList := by
  unfold rzbmDeinitChunk
  grind

theorem rzbmDeinitChunk_fails (fails : (rzbmDeinitChunk unwritten list base npages).1 = .fails) :
    (rzbmDeinitChunk unwritten list base npages).2 = list := by
  unfold rzbmDeinitChunk at fails ⊢
  grind

theorem ChunksWell.seekChunk_base {chunks : RzbmList} (well : ChunksWell chunks)
    (base npages z : Nat) :
    (seekChunk chunks fun zbmp =>
      decide (base = zbmp.zbmBase ∧ npages = zbmp.zbmBase)) = some z ↔
      base = npages ∧ z < chunks.zbmNchunk ∧ (chunks.chunks z).zbmBase = base ∧
        ∀ z', z' < z → (chunks.chunks z').zbmBase ≠ base := by
  rw [well.seekChunk_eq, List.find?_range_eq_some]
  simp only [decide_eq_true_eq, Bool.not_eq_true', decide_eq_false_iff_not, List.mem_range]
  constructor
  · rintro ⟨⟨isBase, isPages⟩, isChunk, before⟩
    refine ⟨isBase.trans isPages.symm, isChunk, isBase.symm, ?_⟩
    intro z' earlier same
    exact before z' earlier ⟨same.symm, isPages.trans (isBase.symm.trans same.symm)⟩
  · rintro ⟨rfl, isChunk, isBase, before⟩
    exact ⟨⟨isBase.symm, isBase.symm⟩, isChunk,
      fun z' earlier same => before z' earlier same.1.symm⟩

/-- The call fails unless it takes a chunk by mistake. -/
theorem rzbmDeinitChunk_fails_iff (well : ChunksWell list.toRzbmList) :
    (rzbmDeinitChunk unwritten list base npages).1 = .fails ↔
      ∀ z, ¬ Mistaken unwritten list.toRzbmList base npages z := by
  unfold rzbmDeinitChunk
  cases sought : seekChunk list.toRzbmList fun zbmp =>
    decide (base = zbmp.zbmBase ∧ npages = zbmp.zbmBase) with
  | none =>
    refine ⟨fun _ z mistaken => ?_, fun _ => rfl⟩
    have found := (well.seekChunk_base base npages z).mpr
      ⟨mistaken.same, mistaken.isChunk, mistaken.begins, mistaken.first⟩
    rw [sought] at found
    cases found
  | some z =>
    obtain ⟨same, isChunk, begins, first⟩ := (well.seekChunk_base base npages z).mp sought
    -- Only the chunk that was found can be taken by mistake.
    have unique : (∀ z', ¬ Mistaken unwritten list.toRzbmList base npages z') ↔
        ¬ Mistaken unwritten list.toRzbmList base npages z := by
      refine ⟨fun none' => none' z, fun notThis z' mistaken => ?_⟩
      have found := (well.seekChunk_base base npages z').mpr
        ⟨mistaken.same, mistaken.isChunk, mistaken.begins, mistaken.first⟩
      rw [sought] at found
      cases found
      exact notThis mistaken
    rw [unique]
    have whole := sumWholeCells_isSome unwritten (list.chunks z) 0
      (npages / (list.chunks z).zbmCellsize) unwritten.maxfree
    simp only [Nat.zero_add] at whole
    dsimp only
    cases summed : sumWholeCells unwritten (list.chunks z) 0
      (npages / (list.chunks z).zbmCellsize) unwritten.maxfree with
    | none =>
      refine ⟨fun _ mistaken => ?_, fun _ => rfl⟩
      have isSome := whole.mpr mistaken.whole
      rw [summed] at isSome
      cases isSome
    | some maxfree =>
      have allWhole := whole.mp (by rw [summed]; rfl)
      dsimp only
      by_cases noRest : npages % (list.chunks z).zbmCellsize = 0
      · rw [if_pos noRest]
        refine ⟨(fun impossible => by cases impossible), fun notThis => ?_⟩
        exact absurd ⟨same, isChunk, begins, first, allWhole,
          fun rest => absurd noRest rest⟩ notThis
      · rw [if_neg noRest]
        cases pool : (list.chunks z).zbmPool with
        | none =>
          refine ⟨(fun impossible => by cases impossible), fun notThis => ?_⟩
          refine absurd ⟨same, isChunk, begins, first, allWhole, ?_⟩ notThis
          intro _ head isHead
          rw [pool] at isHead
          cases isHead
        | some head =>
          dsimp only
          by_cases isRest : ((list.chunks z).zbmCell
            ((list.chunks z).zbmCell head).zbcBlink).zbcNfree =
            npages % (list.chunks z).zbmCellsize
          · rw [if_neg (not_not_intro isRest)]
            refine ⟨(fun impossible => by cases impossible), fun notThis => ?_⟩
            refine absurd ⟨same, isChunk, begins, first, allWhole, ?_⟩ notThis
            intro _ head' isHead
            rw [pool] at isHead
            cases isHead
            exact isRest
          · rw [if_pos isRest]
            refine ⟨fun _ mistaken => ?_, fun _ => rfl⟩
            exact isRest (mistaken.last noRest head pool)

/--
**`rzbm_deinit_chunk`**, in every state of a run: it removes what it is asked to remove
only when there is nothing to remove, and no chunk that is taken by mistake.
-/
theorem deinitChunk_removes_iff (cgNone : Int) (unwritten : Unwritten) (usage : Usage)
    (actions : List Action) (run : Run (Step cgNone) emptyUsage actions usage) (list : RzbmListMax)
    (isList : list.toRzbmList = usage.list) (base npages : Nat) :
    Removes cgNone unwritten usage list base npages ↔
      (∀ z, ¬ Removable list.toRzbmList base npages z) ∧
        ∀ z, ¬ Mistaken unwritten list.toRzbmList base npages z := by
  have formed : WellFormed usage :=
    run.invariant (fun _ _ _ formed taken => taken.wellFormed formed) emptyUsage_wellFormed
  have well : ChunksWell list.toRzbmList := isList ▸ formed.chunks
  rw [← rzbmDeinitChunk_fails_iff well]
  have stays := @rzbmDeinitChunk_chunks unwritten list base npages
  constructor
  · intro removes
    -- A chunk that is removed would still be on the list.
    have fails : (rzbmDeinitChunk unwritten list base npages).1 = .fails := by
      cases ends : (rzbmDeinitChunk unwritten list base npages).1 with
      | fails => rfl
      | faults => exact absurd ends removes.returns
      | succeeds =>
        obtain ⟨z, removable⟩ := removes.succeeds.mp ends
        have offList := (removes.removed ends).offList z
        rw [stays] at offList
        exact absurd ⟨removable.base, removable.size⟩ (offList removable.isChunk)
    refine ⟨fun z removable => ?_, fails⟩
    rw [removes.succeeds.mpr ⟨z, removable⟩] at fails
    cases fails
  · rintro ⟨nothing, fails⟩
    refine
      { returns := by rw [fails]; exact DeinitEnd.noConfusion
        succeeds := ?_
        removed := fun succeeds => ?_
        unchanged := fun _ => rzbmDeinitChunk_fails fails }
    · rw [fails]
      refine ⟨(fun impossible => by cases impossible), ?_⟩
      rintro ⟨z, removable⟩
      exact absurd removable (nothing z)
    · rw [fails] at succeeds
      cases succeeds

/-- The allocator with one chunk of 40 pages from page 256 on. -/
def oneChunk : RzbmListMax where
  toRzbmList := rzbmInitChunk emptyUsage.list 256 40 0
  zbmMaxfree := 40

/-- The use of it when no page is allocated. -/
def oneChunkUsage : Usage where
  list := oneChunk.toRzbmList
  held := []
  given := [⟨256, 40⟩]

theorem oneChunk_run : Run (Step (-1)) emptyUsage [.initialised ⟨256, 40⟩] oneChunkUsage := .single
    (.initialised 0 (by decide) (by decide) (by simp [emptyUsage]))

theorem deinitChunk_misses_chunk :
    Run (Step (-1)) emptyUsage [.initialised ⟨256, 40⟩] oneChunkUsage ∧
      ¬ Removes (-1) ⟨0, fun _ => 0⟩ oneChunkUsage oneChunk 256 40 := by
  refine ⟨oneChunk_run, fun removes => ?_⟩
  have fails : (rzbmDeinitChunk ⟨0, fun _ => 0⟩ oneChunk 256 40).1 = .fails := by decide +kernel
  have free : ∀ i, i < 40 → bitAt (oneChunk.chunks 0) i = false := by decide +kernel
  have removable : Removable oneChunk.toRzbmList 256 40 0 :=
    ⟨by decide +kernel, by decide +kernel, by decide +kernel, free⟩
  rw [removes.succeeds.mpr ⟨0, removable⟩] at fails
  cases fails

theorem deinitChunk_removes_iff_oneChunk :
    Removes (-1) ⟨0, fun _ => 0⟩ oneChunkUsage oneChunk 256 41 ↔
      (∀ z, ¬ Removable oneChunk.toRzbmList 256 41 z) ∧
        ∀ z, ¬ Mistaken ⟨0, fun _ => 0⟩ oneChunk.toRzbmList 256 41 z :=
  deinitChunk_removes_iff (-1) ⟨0, fun _ => 0⟩ oneChunkUsage
    [.initialised ⟨256, 40⟩] oneChunk_run oneChunk rfl 256 41

end Uw7.Rzbm
