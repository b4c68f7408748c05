import Uw7.Lib.Run
import Uw7.Rzbm.Chunks

namespace Uw7.Rzbm

/-!
# Runs of the page allocator

Extents of physical memory are initialised once, and a page is freed only by the
one that it was returned to.  The audit of every chunk holds throughout, and the
pages in use never overlap.
-/

open Lib List Option Function

/-- The allocator, the pages in use and the extents that were initialised. -/
structure Usage where
  list : RzbmList
  held : List Extent
  given : List Extent

/-- What is done with extents. -/
inductive Action where
  | initialised (extent : Extent)
  | allocated (extent : Extent)
  | refused
  | freed (extent : Extent)
  deriving DecidableEq

/-- One operation of the allocator. -/
inductive Step (cgNone : Int) (before : Usage) : Action → Usage → Prop where
  | initialised {base npages : Nat} (cgnum : Int) (counted : npages < 2 ^ 31)
      (fits : base + npages ≤ 2 ^ 32)
      (unused : ∀ extent ∈ before.given, extent.Apart ⟨base, npages⟩) :
      Step cgNone before (.initialised ⟨base, npages⟩)
        { list := rzbmInitChunk before.list base npages cgnum
          held := before.held
          given := ⟨base, npages⟩ :: before.given }
  | allocated {pf pagesz : Nat} {list : RzbmList} (cgnum : Int)
      (size : pagesz = pagesize ∨ pagesz = psePagesize)
      (result : rzbmAlloc cgNone before.list cgnum pagesz = some (pf, list)) :
      Step cgNone before (.allocated ⟨pf, pagesz / pagesize⟩)
        { list
          held := ⟨pf, pagesz / pagesize⟩ :: before.held
          given := before.given }
  | pseallocated {pf : Nat} {list : RzbmList} (cgnum : Int) (result :
      rzbmPsealloc cgNone before.list cgnum = some (pf, list)) :
      Step cgNone before (.allocated ⟨pf, pseNpages⟩)
        { list
          held := ⟨pf, pseNpages⟩ :: before.held
          given := before.given }
  | refused {pagesz : Nat} (cgnum : Int) (result :
      rzbmAlloc cgNone before.list cgnum pagesz = none ∨
        rzbmPsealloc cgNone before.list cgnum = none) :
      Step cgNone before .refused before
  | freed {extent : Extent} {pagesz : Nat} (held : extent ∈ before.held)
      (size : pagesz = extent.npages * pagesize) : Step cgNone before (.freed extent)
        { list := rzbmFree before.list extent.pf pagesz
          held := before.held.erase extent
          given := before.given }

/-- No chunk has been initialised. -/
def emptyUsage : Usage where
  list :=
    { zbmChunk := none
      zbmNchunk := 0
      chunks := fun _ => zeroedChunk }
  held := []
  given := []

/-- A bit of a chunk stands for a page of an extent. -/
def Covers (zbmp : RzbmT) (extent : Extent) (i : Nat) : Prop := extent.pf ≤ zbmp.zbmBase + i ∧
    zbmp.zbmBase + i < extent.pf + extent.npages

instance (zbmp : RzbmT) (extent : Extent) : DecidablePred (Covers zbmp extent) := fun i =>
    inferInstanceAs (Decidable (extent.pf ≤ zbmp.zbmBase + i ∧
        zbmp.zbmBase + i < extent.pf + extent.npages))

def IsPage (zbmp : RzbmT) (extent : Extent) : Prop := extent.npages = 1 ∨
    extent.npages = pseNpages ∧ zbmp.zbmCellsize = pseNpages ∧
      ∃ c, extent.pf = zbmp.zbmBase + c * pseNpages

/-- A page of a chunk is in use. -/
structure Holds (zbmp : RzbmT) (extent : Extent) : Prop where
  inside : extent.Inside (extentOf zbmp)
  isPage : IsPage zbmp extent
  bits : ∀ i, Covers zbmp extent i → bitAt zbmp i = true

/-- The pages in use belong to audited chunks and do not overlap. -/
structure WellFormed (usage : Usage) : Prop where
  chunks : ChunksWell usage.list
  within : ∀ z, z < usage.list.zbmNchunk → ∃ extent ∈ usage.given,
      (extentOf (usage.list.chunks z)).Inside extent
  held : ∀ extent ∈ usage.held, ∃ z, z < usage.list.zbmNchunk ∧ Holds (usage.list.chunks z) extent
  apart : usage.held.Pairwise Extent.Apart

variable {usage : Usage} {zbmp zbmp' : RzbmT} {extent other : Extent}
  {list : RzbmList} {cgNone : Int} {z : Nat}

theorem IsPage.pos (isPage : IsPage zbmp extent) : 0 < extent.npages := by
  rcases isPage with one | ⟨many, -⟩
  · omega
  · rw [many]
    decide

theorem Extent.shared (positive : 0 < extent.npages) (otherPositive : 0 < other.npages)
    (overlap : ¬ extent.Apart other) : ∃ pf, (extent.pf ≤ pf ∧ pf < extent.pf + extent.npages) ∧
      other.pf ≤ pf ∧ pf < other.pf + other.npages := by
  refine ⟨max extent.pf other.pf, ?_⟩
  simp only [Extent.Apart] at overlap
  omega

theorem Holds.congr (holds : Holds zbmp extent) (base : zbmp'.zbmBase = zbmp.zbmBase)
    (size : zbmp'.zbmSize = zbmp.zbmSize) (cellsize : zbmp'.zbmCellsize = zbmp.zbmCellsize)
    (sameBits : ∀ i, Covers zbmp extent i → bitAt zbmp i = true → bitAt zbmp' i = true) :
    Holds zbmp' extent where
  inside := by
    rw [extentOf, base, size]
    exact holds.inside
  isPage := by
    rw [IsPage, base, cellsize]
    exact holds.isPage
  bits := by
    intro i covers
    rw [Covers, base] at covers
    exact sameBits i covers (holds.bits i covers)

theorem setChunk_chunks (list : RzbmList) (z other : Nat) (zbmp : RzbmT) :
    (setChunk list z zbmp).chunks other =
      if other = z then zbmp else list.chunks other := by
  change update list.chunks z zbmp other = _
  by_cases isChanged : other = z
  · rw [isChanged, update_self, if_pos rfl]
  · rw [update_of_ne isChanged, if_neg isChanged]

theorem WellFormed.within_setChunk (formed : WellFormed usage)
    (same : SameChunk (usage.list.chunks z) zbmp) :
    ∀ other, other < usage.list.zbmNchunk → ∃ extent ∈ usage.given,
      (extentOf ((setChunk usage.list z zbmp).chunks other)).Inside
        extent := by
  intro other isChunk
  obtain ⟨extent, member, inside⟩ := formed.within other isChunk
  refine ⟨extent, member, ?_⟩
  rw [setChunk_chunks]
  split_ifs with isChanged
  · rw [extentOf, same.base, same.size, ← isChanged]
    exact inside
  · exact inside

theorem WellFormed.take (formed : WellFormed usage) (isChunk : z < usage.list.zbmNchunk)
    (same : SameChunk (usage.list.chunks z) zbmp)
    (audited : ∃ pool psepool, Audit zbmp pool psepool)
    (inside : extent.Inside (extentOf (usage.list.chunks z)))
    (isPage : IsPage (usage.list.chunks z) extent)
    (clear : ∀ i, Covers (usage.list.chunks z) extent i → bitAt (usage.list.chunks z) i = false)
    (bits : ∀ i, bitAt zbmp i = (bitAt (usage.list.chunks z) i ||
      decide (Covers (usage.list.chunks z) extent i))) :
    WellFormed
      { list := setChunk usage.list z zbmp
        held := extent :: usage.held
        given := usage.given } where
  chunks := formed.chunks.setChunk same audited
  within := formed.within_setChunk same
  held := by
    intro block member
    rcases mem_cons.mp member with rfl | inRest
    · refine ⟨z, isChunk, ?_⟩
      rw [setChunk_chunks, if_pos rfl]
      refine ⟨?_, ?_, fun i covers => ?_⟩
      · rw [extentOf, same.base, same.size]
        exact inside
      · rw [IsPage, same.base, same.cellsize]
        exact isPage
      · rw [Covers, same.base] at covers
        rw [bits i]
        exact Bool.or_eq_true_iff.mpr (.inr (decide_eq_true covers))
    · obtain ⟨z', isChunk', holds⟩ := formed.held block inRest
      refine ⟨z', isChunk', ?_⟩
      rw [setChunk_chunks]
      split_ifs with isChanged
      · subst z'
        exact holds.congr same.base same.size same.cellsize fun i _ isSet => by
          rw [bits i, isSet, Bool.true_or]
      · exact holds
  apart := by
    refine pairwise_cons.mpr ⟨fun block inRest => ?_, formed.apart⟩
    obtain ⟨z', isChunk', holds⟩ := formed.held block inRest
    by_cases isChanged : z' = z
    · subst z'
      by_contra overlap
      obtain ⟨pf, inExtent, inBlock⟩ := Extent.shared isPage.pos holds.isPage.pos overlap
      have above := inside.1
      change (usage.list.chunks z).zbmBase ≤ extent.pf at above
      have sum : (usage.list.chunks z).zbmBase + (pf - (usage.list.chunks z).zbmBase) =
            pf := by
        omega
      have isSet := holds.bits (pf - (usage.list.chunks z).zbmBase)
          (by rw [Covers, sum]; exact inBlock)
      have isClear := clear (pf - (usage.list.chunks z).zbmBase)
          (by rw [Covers, sum]; exact inExtent)
      exact Bool.false_ne_true (isClear.symm.trans isSet)
    · exact (formed.chunks.apart z isChunk z' isChunk'
        (Ne.symm isChanged)).inside inside holds.inside

theorem WellFormed.release (formed : WellFormed usage) (member : extent ∈ usage.held)
    (same : SameChunk (usage.list.chunks z) zbmp)
    (audited : ∃ pool psepool, Audit zbmp pool psepool)
    (bits : ∀ i, bitAt zbmp i = (bitAt (usage.list.chunks z) i &&
      !decide (Covers (usage.list.chunks z) extent i))) :
    WellFormed
      { list := setChunk usage.list z zbmp
        held := usage.held.erase extent
        given := usage.given } where
  chunks := formed.chunks.setChunk same audited
  within := formed.within_setChunk same
  held := by
    have apart : (extent :: usage.held.erase extent).Pairwise Extent.Apart :=
      (perm_cons_erase member).pairwise formed.apart Extent.Apart.symm
    intro block inRest
    obtain ⟨z', isChunk', holds⟩ := formed.held block (mem_of_mem_erase inRest)
    refine ⟨z', isChunk', ?_⟩
    rw [setChunk_chunks]
    split_ifs with isChanged
    · subst z'
      have blockApart := (pairwise_cons.mp apart).1 block inRest
      refine holds.congr same.base same.size same.cellsize fun i covers isSet => ?_
      have notCovered : ¬ Covers (usage.list.chunks z) extent i := by
        simp only [Covers, Extent.Apart] at covers blockApart ⊢
        omega
      rw [bits i, isSet, decide_eq_false notCovered]
      rfl
    · exact holds
  apart := formed.apart.sublist erase_sublist

variable {pool psepool : List Nat} {pf : Nat} {cgnum : Int}

theorem Audit.allocPage (audit : Audit zbmp pool psepool)
    (some_ : zbmp.zbmPool.isSome || zbmp.zbmPsepool.isSome) :
    ∃ c, (borrowPseCell zbmp).zbmPool = some c ∧ ∃ found,
      found < zbmp.zbmSize ∧ bitAt zbmp found = false ∧
        (allocFrom (borrowPseCell zbmp) c).1 = zbmp.zbmBase + found ∧
        SameChunk zbmp (allocFrom (borrowPseCell zbmp) c).2 ∧
        (∀ i, bitAt (allocFrom (borrowPseCell zbmp) c).2 i = (bitAt zbmp i || decide (i = found))) ∧
        ∃ pool' psepool', Audit (allocFrom (borrowPseCell zbmp) c).2 pool' psepool' := by
  cases pool with
  | cons c rest =>
    have head : zbmp.zbmPool = some c := audit.onPool.head
    have borrowed : borrowPseCell zbmp = zbmp := by rw [borrowPseCell, head]
    obtain ⟨found, inside, clear, address, same, bits, audited⟩ :=
      (audit.allocatable (mem_cons_self ..)).alloc
    rw [borrowed]
    exact ⟨c, head, found, inside, clear, address, same, bits,
      audited.imp fun _ audited => ⟨psepool, audited⟩⟩
  | nil =>
    have noPool : zbmp.zbmPool = none := audit.onPool.head
    cases psepool with
    | nil =>
      have noPsepool : zbmp.zbmPsepool = none := audit.onPsepool.head
      rw [noPool, noPsepool] at some_
      cases some_
    | cons c rest =>
      obtain ⟨allocatable, head, sameBorrowed, sameBitmap⟩ := audit.borrow
      obtain ⟨found, inside, clear, address, same, bits, audited⟩ := allocatable.alloc
      have sameBits : ∀ i, bitAt (borrowPseCell zbmp) i = bitAt zbmp i := by
        intro i
        rw [bitAt, sameBitmap]
        rfl
      rw [sameBorrowed.size] at inside
      rw [sameBits] at clear
      rw [sameBorrowed.base] at address
      exact ⟨c, head, found, inside, clear, address, sameBorrowed.trans same,
        fun i => by rw [bits i, sameBits i], audited.imp fun _ audited => ⟨rest, audited⟩⟩

theorem covers_page {found : Nat} (zbmp : RzbmT) (i : Nat) :
    Covers zbmp ⟨zbmp.zbmBase + found, 1⟩ i ↔ i = found := by
  simp only [Covers]
  omega

theorem covers_pse {c : Nat} (zbmp : RzbmT) (i : Nat) :
    Covers zbmp ⟨zbmp.zbmBase + c * pseNpages, pseNpages⟩ i ↔ pseBits c i = true := by
  simp only [Covers, pseBits_iff]
  omega

theorem WellFormed.psealloc (formed : WellFormed usage)
    (result : rzbmPsealloc cgNone usage.list cgnum = some (pf, list)) : WellFormed
      { list
        held := ⟨pf, pseNpages⟩ :: usage.held
        given := usage.given } := by
  rw [rzbmPsealloc] at result
  cases sought : seekHome cgNone usage.list cgnum fun zbmp => zbmp.zbmPsepool.isSome with
  | none =>
    rw [sought] at result
    cases result
  | some z =>
    obtain ⟨isChunk, -⟩ := formed.chunks.seekHome_some sought
    obtain ⟨pool, psepool, audit⟩ := formed.chunks.audited z isChunk
    rw [sought] at result
    simp only at result
    cases psepool with
    | nil =>
      have noPsepool : (usage.list.chunks z).zbmPsepool = none := audit.onPsepool.head
      rw [noPsepool] at result
      cases result
    | cons c rest =>
      have head : (usage.list.chunks z).zbmPsepool = some c := audit.onPsepool.head
      rw [head] at result
      obtain ⟨rfl, rfl⟩ := Prod.mk.inj (some.inj result)
      obtain ⟨whole, address, same, bits, audited⟩ := audit.psealloc
      have inside := whole.inside
      rw [address]
      refine formed.take isChunk same ⟨pool, rest, audited⟩ ?_
        (.inr ⟨rfl, whole.cellsize, c, rfl⟩) (fun i covers => ?_) fun i => ?_
      · simp only [Extent.Inside, extentOf]
        omega
      · exact whole.clear i ((covers_pse _ i).mp covers)
      · rw [bits i]
        congr 1
        rw [Bool.eq_iff_iff, decide_eq_true_iff, covers_pse]

structure PageTaken (list list' : RzbmList) (pf z found : Nat) (zbmp : RzbmT) : Prop where
  isChunk : z < list.zbmNchunk
  inside : found < (list.chunks z).zbmSize
  clear : bitAt (list.chunks z) found = false
  address : pf = (list.chunks z).zbmBase + found
  changed : list' = setChunk list z zbmp
  same : SameChunk (list.chunks z) zbmp
  bits : ∀ i, bitAt zbmp i = (bitAt (list.chunks z) i || decide (i = found))
  audited : ∃ pool psepool, Audit zbmp pool psepool

theorem ChunksWell.allocPage (well : ChunksWell list) {list' : RzbmList}
    (result : rzbmAlloc cgNone list cgnum pagesize = some (pf, list')) :
    ∃ z found zbmp, PageTaken list list' pf z found zbmp := by
  rw [rzbmAlloc, if_neg (by decide)] at result
  cases sought : seekHome cgNone list cgnum fun zbmp =>
    zbmp.zbmPool.isSome || zbmp.zbmPsepool.isSome with
  | none =>
    rw [sought] at result
    cases result
  | some z =>
    obtain ⟨isChunk, accepted⟩ := well.seekHome_some sought
    obtain ⟨pool, psepool, audit⟩ := well.audited z isChunk
    obtain ⟨c, head, found, inside, clear, address, same, bits, audited⟩ := audit.allocPage accepted
    rw [sought] at result
    simp only [head] at result
    obtain ⟨rfl, rfl⟩ := Prod.mk.inj (some.inj result)
    exact ⟨z, found, _, isChunk, inside, clear, address, rfl, same, bits, audited⟩

theorem WellFormed.alloc {pagesz : Nat} (formed : WellFormed usage)
    (size : pagesz = pagesize ∨ pagesz = psePagesize)
    (result : rzbmAlloc cgNone usage.list cgnum pagesz = some (pf, list)) : WellFormed
      { list
        held := ⟨pf, pagesz / pagesize⟩ :: usage.held
        given := usage.given } := by
  rcases size with rfl | rfl
  · obtain ⟨z, found, zbmp, isChunk, inside, clear, rfl, rfl, same, bits,
      audited⟩ := formed.chunks.allocPage result
    refine formed.take isChunk same audited ?_ (.inl rfl) (fun i covers => ?_) fun i => ?_
    · simp only [Extent.Inside, extentOf]
      rw [Nat.div_self (by decide)]
      omega
    · rw [(covers_page _ i).mp covers]
      exact clear
    · rw [bits i]
      congr 1
      rw [Bool.eq_iff_iff, decide_eq_true_iff, decide_eq_true_iff]
      exact (covers_page _ i).symm
  · exact formed.psealloc result

structure PageFreed (list list' : RzbmList) (pf z found : Nat) (zbmp : RzbmT) : Prop where
  isChunk : z < list.zbmNchunk
  inside : found < (list.chunks z).zbmSize
  taken : bitAt (list.chunks z) found = true
  address : pf = (list.chunks z).zbmBase + found
  changed : list' = setChunk list z zbmp
  same : SameChunk (list.chunks z) zbmp
  bits : ∀ i, bitAt zbmp i = (bitAt (list.chunks z) i && decide (i ≠ found))
  audited : ∃ pool psepool, Audit zbmp pool psepool

theorem WellFormed.freePage (formed : WellFormed usage) (member : (⟨pf, 1⟩ : Extent) ∈ usage.held) :
    ∃ z found zbmp, PageFreed usage.list (rzbmFree usage.list pf pagesize) pf z found
      zbmp := by
  obtain ⟨z, isChunk, holds⟩ := formed.held ⟨pf, 1⟩ member
  obtain ⟨pool, psepool, audit⟩ := formed.chunks.audited z isChunk
  obtain ⟨above, below⟩ := holds.inside
  change (usage.list.chunks z).zbmBase ≤ pf at above
  change pf + 1 ≤ (usage.list.chunks z).zbmBase + (usage.list.chunks z).zbmSize at below
  have found : chunkOf usage.list pf = some z := formed.chunks.chunkOf_eq isChunk above (by omega)
  obtain ⟨i, rfl⟩ := Nat.exists_eq_add_of_le above
  have inside : i < (usage.list.chunks z).zbmSize := by omega
  have isSet := holds.bits i ((covers_page _ i).mpr rfl)
  obtain ⟨same, bits, audited⟩ := audit.freePage inside isSet
  refine ⟨z, i, _, isChunk, inside, isSet, rfl, ?_, same, bits, audited⟩
  rw [rzbmFree, found]
  simp only
  rw [if_pos trivial, Nat.add_sub_cancel_left]

theorem WellFormed.free (formed : WellFormed usage) (member : extent ∈ usage.held) : WellFormed
    { list := rzbmFree usage.list extent.pf (extent.npages * pagesize)
      held := usage.held.erase extent
      given := usage.given } := by
  obtain ⟨z, isChunk, holds⟩ := formed.held extent member
  rcases holds.isPage with one | ⟨many, cellsize, c, first⟩
  · obtain ⟨pf, npages⟩ := extent
    simp only at one ⊢
    subst npages
    obtain ⟨z', found, zbmp, _, _, _, rfl, changed, same, bits, audited⟩ := formed.freePage member
    rw [Nat.one_mul, changed]
    refine formed.release member same audited fun other => ?_
    rw [bits other]
    congr 1
    rw [Bool.eq_iff_iff, decide_eq_true_iff, Bool.not_eq_true',
      decide_eq_false_iff_not, covers_page]
  · obtain ⟨pool, psepool, audit⟩ := formed.chunks.audited z isChunk
    obtain ⟨above, below⟩ := holds.inside
    have positive := holds.isPage.pos
    change _ ≤ (usage.list.chunks z).zbmBase + (usage.list.chunks z).zbmSize at below
    have found : chunkOf usage.list extent.pf = some z :=
      formed.chunks.chunkOf_eq isChunk above (by omega)
    rw [rzbmFree, found]
    obtain ⟨pf, npages⟩ := extent
    simp only at above below many first ⊢
    subst npages pf
    obtain ⟨same, bits, audited⟩ := @Audit.freePsePage _ pool psepool c audit cellsize (by omega)
      fun i inCell => holds.bits i ((covers_pse _ i).mpr inCell)
    rw [if_neg (by decide), if_pos (by decide), Nat.add_sub_cancel_left]
    refine formed.release member same ⟨pool, audited⟩ fun other => ?_
    rw [bits other]
    congr 2
    rw [Bool.eq_iff_iff, decide_eq_true_iff, covers_pse]

theorem WellFormed.initChunk {base npages : Nat} (formed : WellFormed usage)
    (fits : base + npages ≤ 2 ^ 32) (unused : ∀ extent ∈ usage.given, extent.Apart ⟨base, npages⟩)
    (cgnum : Int) : WellFormed
      { list := rzbmInitChunk usage.list base npages cgnum
        held := usage.held
        given := ⟨base, npages⟩ :: usage.given } := by
  have grown := formed.chunks.initChunk fits (fun z isChunk => by
      obtain ⟨extent, member, inside⟩ := formed.within z isChunk
      exact (unused extent member).inside inside (Extent.Inside.refl _)) cgnum
  refine
    { chunks := grown.well
      within := fun z isChunk => ?_
      held := fun extent member => ?_
      apart := formed.apart }
  · by_cases isOld : z < usage.list.zbmNchunk
    · obtain ⟨extent, member, inside⟩ := formed.within z isOld
      refine ⟨extent, mem_cons_of_mem _ member, ?_⟩
      rw [(grown.old z isOld).extentOf_eq]
      exact inside
    · exact ⟨_, mem_cons_self .., grown.new z (by omega) isChunk⟩
  · obtain ⟨z, isChunk, holds⟩ := formed.held extent member
    have same := grown.old z isChunk
    refine ⟨z, isChunk.trans_le grown.count, holds.congr same.base same.size same.cellsize
      fun i _ isSet => ?_⟩
    rw [bitAt, same.bitmap]
    exact isSet

/--
The audit of a chunk: its counts and cursors agree with the bitmap, and each cell
with a free page is on exactly one of two rings.
-/
structure ChunkAudit (zbmp : RzbmT) (pool psepool : List Nat) : Prop where
  onPool : OnPool zbmp.zbmCell zbmp.zbmPool pool
  onPsepool : OnPool zbmp.zbmCell zbmp.zbmPsepool psepool
  counted : ∀ ci, ci < zbmp.zbmNcell → (zbmp.zbmCell ci).zbcNfree =
      ((cellBits zbmp ci).filter fun i => bitAt zbmp i = false).card
  inPool : ∀ ci, ci ∈ pool ↔ ci < zbmp.zbmNcell ∧ 0 < (zbmp.zbmCell ci).zbcNfree ∧
      ¬ (zbmp.zbmCellsize = pseNpages ∧ (zbmp.zbmCell ci).zbcNfree = pseNpages)
  inPsepool : ∀ ci, ci ∈ psepool ↔ ci < zbmp.zbmNcell ∧ zbmp.zbmCellsize = pseNpages ∧
      (zbmp.zbmCell ci).zbcNfree = pseNpages
  full : ∀ ci, ci < zbmp.zbmNcell → ∀ word, ci * zbmp.zbmCellwidth ≤ word →
      word < ci * zbmp.zbmCellwidth + (zbmp.zbmCell ci).zbcCursor →
      zbmp.zbmBitmap word = 2 ^ nbitpw - 1

theorem CellsAudit.cellsize_of_nfree {ci : Nat} (cells : CellsAudit zbmp)
    (isCell : ci < zbmp.zbmNcell) (whole : (zbmp.zbmCell ci).zbcNfree = pseNpages) :
    zbmp.zbmCellsize = pseNpages := by
  have few := (cells.cells ci isCell).nfree_le
  exact le_antisymm cells.shape.cellsize_le (whole ▸ few)

theorem Audit.chunkAudit (audit : Audit zbmp pool psepool) : ChunkAudit zbmp pool psepool where
  __ := audit
  counted := by
    intro ci isCell
    have counted := (audit.cells.cells ci isCell).counted.counted
    refine (Nat.cast_inj.mp counted).trans (congrArg Finset.card ?_)
    exact Finset.filter_congr fun i _ => by simp
  inPool := by
    intro ci
    rw [(audit.listed ci).pool]
    refine and_congr_right fun isCell => and_congr_right fun _ => ?_
    exact not_congr ⟨fun whole =>
      ⟨audit.cells.cellsize_of_nfree isCell whole, whole⟩, fun both => both.2⟩
  inPsepool := by
    intro ci
    rw [(audit.listed ci).psepool]
    refine and_congr_right fun isCell => ?_
    exact ⟨fun whole => ⟨audit.cells.cellsize_of_nfree isCell whole, whole⟩, fun both => both.2⟩
  full := by
    intro ci isCell word above before
    have cell := audit.cells.cells ci isCell
    refine (Bitmap.full_iff audit.cells.bounded).mpr fun position inWord => ?_
    have isWord := (@Bitmap.split_index nbitpw word position inWord).1
    refine cell.full _ (by rw [isWord]; exact before) ?_
    rw [audit.cells.shape.cellsize_eq, ← Nat.mul_assoc]
    exact (Nat.mul_le_mul_right nbitpw above).trans (Nat.le_add_right _ _)

theorem Step.wellFormed {after : Usage} {action : Action} (formed : WellFormed usage)
    (taken : Step cgNone usage action after) : WellFormed after := by
  cases taken with
  | initialised cgnum counted fits unused => exact formed.initChunk fits unused cgnum
  | allocated cgnum size result => exact formed.alloc size result
  | pseallocated cgnum result => exact formed.psealloc result
  | refused cgnum result => exact formed
  | freed held size =>
    subst size
    exact formed.free held

theorem emptyUsage_wellFormed : WellFormed emptyUsage where
  chunks :=
    { ring := trivial
      head := rfl
      audited := fun z isChunk => absurd isChunk (Nat.not_lt_zero z)
      apart := fun z isChunk => absurd isChunk (Nat.not_lt_zero z) }
  within := fun z isChunk => absurd isChunk (Nat.not_lt_zero z)
  held := fun _ member => absurd member not_mem_nil
  apart := List.Pairwise.nil

theorem audited_of_run (cgNone : Int) (final : Usage) (actions : List Action)
    (run : Run (Step cgNone) emptyUsage actions final) : (∀ z, z < final.list.zbmNchunk →
      ∃ pool psepool, ChunkAudit (final.list.chunks z) pool psepool) ∧
      final.held.Pairwise Extent.Apart ∧ ∀ extent ∈ final.held, ∃ z, z < final.list.zbmNchunk ∧
        extent.Inside (extentOf (final.list.chunks z)) ∧
        ∃ range ∈ final.given, (extentOf (final.list.chunks z)).Inside range := by
  have formed : WellFormed final :=
    run.invariant (fun _ _ _ formed taken => taken.wellFormed formed) emptyUsage_wellFormed
  refine ⟨fun z isChunk => ?_, formed.apart, fun extent member => ?_⟩
  · obtain ⟨pool, psepool, audit⟩ := formed.chunks.audited z isChunk
    exact ⟨pool, psepool, audit.chunkAudit⟩
  · obtain ⟨z, isChunk, holds⟩ := formed.held extent member
    exact ⟨z, isChunk, holds.inside, formed.within z isChunk⟩

/-- A chunk of 40 pages with one page in use. -/
theorem audited_of_run_single : ∃ final : Usage,
    final.held = [⟨256, 1⟩] ∧ final.list.zbmNchunk = 1 ∧ ∃ pool psepool,
      ChunkAudit (final.list.chunks 0) pool psepool := by
  have allocated : (rzbmAlloc (-1) (rzbmInitChunk emptyUsage.list 256 40 0) 0
      pagesize).map Prod.fst = some 256 := by
    decide +kernel
  obtain ⟨⟨pf, list⟩, result, rfl⟩ := Option.map_eq_some_iff.mp allocated
  have counted : list.zbmNchunk = 1 := by
    have counts : (rzbmAlloc (-1) (rzbmInitChunk emptyUsage.list 256 40 0) 0
        pagesize).map (fun allocated => allocated.2.zbmNchunk) = some 1 := by
      decide +kernel
    rw [result] at counts
    exact some.inj counts
  have run : Run (Step (-1)) emptyUsage
      [.initialised ⟨256, 40⟩, .allocated ⟨256, pagesize / pagesize⟩]
      { list, held := [⟨256, pagesize / pagesize⟩], given := [⟨256, 40⟩] } :=
    .snoc (.single (.initialised 0 (by decide) (by decide) (by simp [emptyUsage])))
      (.allocated 0 (.inl rfl) result)
  obtain ⟨audited, -, -⟩ := audited_of_run (-1) _ _ run
  exact ⟨_, rfl, counted, audited 0 (by rw [counted]; decide)⟩

end Uw7.Rzbm
