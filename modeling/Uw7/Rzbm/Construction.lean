import Uw7.Rzbm.FreePages

namespace Uw7.Rzbm

/-!
# What `rzbm_init_chunk` builds

The chunks of a range are its unaligned head, its tail and the 4M pages between.
They make up the range, their cells of 4M lie on 4M boundaries, and all their
pages are free.
-/

open Lib Nat Finset

/-- An `int` of 32 bits. -/
def int (value : Int) : Int := (value + 2 ^ 31) % 2 ^ 32 - 2 ^ 31

structure RzbmListMax extends RzbmList where
  zbmMaxfree : Int

/-- `rzbm_init_chunk_actual`, which adds `zbm_mapsize` to `zbm_maxfree`. -/
def initChunkActualMax (list : RzbmListMax) (base npages : Nat) (cgnum : Int) : RzbmListMax :=
  if npages = 0 then list
  else
    let zbmMapsize := int npages
    { toRzbmList := rzbmInitChunkActual list.toRzbmList base npages cgnum
      zbmMaxfree := int (list.zbmMaxfree + zbmMapsize) }

/-- `rzbm_init_chunk` with `zbm_maxfree`. -/
def initChunkMax (list : RzbmListMax) (base npages : Nat) (cgnum : Int) : RzbmListMax :=
  if npages = 0 then list
  else if npages < pseNpages then
    initChunkActualMax list base npages cgnum
  else
    let parts := carve base npages
    let list := initChunkActualMax list parts.prebase parts.presz cgnum
    let list := initChunkActualMax list parts.postbase parts.postsz cgnum
    initChunkActualMax list parts.base parts.npages cgnum

theorem initChunkActualMax_list (list : RzbmListMax) (base npages : Nat) (cgnum : Int) :
    (initChunkActualMax list base npages cgnum).toRzbmList =
      rzbmInitChunkActual list.toRzbmList base npages cgnum := by
  unfold initChunkActualMax
  split
  · rename_i noPages
    rw [rzbmInitChunkActual, if_pos noPages]
  · rfl

theorem initChunkMax_list (list : RzbmListMax) (base npages : Nat) (cgnum : Int) :
    (initChunkMax list base npages cgnum).toRzbmList =
      rzbmInitChunk list.toRzbmList base npages cgnum := by
  unfold initChunkMax rzbmInitChunk
  split
  · rfl
  · split
    · exact initChunkActualMax_list ..
    · simp only [initChunkActualMax_list]

theorem initChunkActualMax_maxfree {list : RzbmListMax} {base npages : Nat} {cgnum : Int}
    (natural : 0 ≤ list.zbmMaxfree) (fits : list.zbmMaxfree + npages < 2 ^ 31) :
    (initChunkActualMax list base npages cgnum).zbmMaxfree = list.zbmMaxfree + npages := by
  unfold initChunkActualMax
  split
  · rename_i noPages
    rw [noPages, cast_zero, Int.add_zero]
  · simp only [int]
    omega

theorem initChunkMax_maxfree {list : RzbmListMax} {base npages : Nat} {cgnum : Int}
    (natural : 0 ≤ list.zbmMaxfree) (fits : list.zbmMaxfree + npages < 2 ^ 31) :
    (initChunkMax list base npages cgnum).zbmMaxfree = list.zbmMaxfree + npages := by
  unfold initChunkMax
  split
  · rename_i noPages
    rw [noPages, cast_zero, Int.add_zero]
  · split
    · exact initChunkActualMax_maxfree natural fits
    · rename_i long
      obtain ⟨_, middle, postbase, ends, _⟩ := @carve_spec base npages (not_lt.1 long)
      simp only
      generalize carve base npages = parts at *
      have pre := @initChunkActualMax_maxfree list parts.prebase parts.presz cgnum
          natural (by omega)
      generalize initChunkActualMax list parts.prebase parts.presz cgnum = first at *
      have post := @initChunkActualMax_maxfree first parts.postbase parts.postsz cgnum
          (by omega) (by omega)
      rw [initChunkActualMax_maxfree (by omega) (by omega)]
      omega

/-- A chunk that was not there before. -/
def IsNew (list list' : RzbmList) (z : Nat) : Prop := list.zbmNchunk ≤ z ∧ z < list'.zbmNchunk

/-- A page of a chunk. -/
def InChunk (zbmp : RzbmT) (pf : Nat) : Prop := zbmp.zbmBase ≤ pf ∧ pf < zbmp.zbmBase + zbmp.zbmSize

/-- Cells of 4M lie on 4M boundaries inside of their chunk. -/
def CellsAligned (zbmp : RzbmT) : Prop := zbmp.zbmCellsize = pseNpages → ∀ ci, ci < zbmp.zbmNcell →
    (zbmp.zbmBase + ci * pseNpages) % pseNpages = 0 ∧ (ci + 1) * pseNpages ≤ zbmp.zbmSize

/-- Chunks of free pages are added, which cover some pages. -/
structure Built (list list' : RzbmList) (pages : Nat → Prop) : Prop where
  count : list.zbmNchunk ≤ list'.zbmNchunk
  old : ∀ z, z < list.zbmNchunk → ∃ flink blink, list'.chunks z = relink (list.chunks z) flink blink
  covers : ∀ pf, pages pf → ∃ z, IsNew list list' z ∧ InChunk (list'.chunks z) pf
  aligned : ∀ z, IsNew list list' z → CellsAligned (list'.chunks z)
  clear : ∀ z, IsNew list list' z →
      ∀ i, i < (list'.chunks z).zbmSize → bitAt (list'.chunks z) i = false

variable {list list' last : RzbmList} {pages others : Nat → Prop}

theorem Built.refl (noPage : ∀ pf, ¬pages pf) : Built list list pages where
  count := le_rfl
  old := fun _ _ => ⟨_, _, rfl⟩
  covers := fun pf isPage => absurd isPage (noPage pf)
  aligned := fun _ isNew => absurd isNew.2 (not_lt.2 isNew.1)
  clear := fun _ isNew => absurd isNew.2 (not_lt.2 isNew.1)

theorem Built.trans (first : Built list list' pages) (second : Built list' last others) :
    Built list last (fun pf => pages pf ∨ others pf) where
  count := first.count.trans second.count
  old := by
    intro z isOld
    obtain ⟨flink, blink, firstEq⟩ := first.old z isOld
    obtain ⟨flink', blink', secondEq⟩ := second.old z (isOld.trans_le first.count)
    exact ⟨flink', blink', by rw [secondEq, firstEq]; rfl⟩
  covers := by
    rintro pf (isPage | isPage)
    · obtain ⟨z, isNew, inChunk⟩ := first.covers pf isPage
      obtain ⟨_, _, eq⟩ := second.old z isNew.2
      refine ⟨z, ⟨isNew.1, isNew.2.trans_le second.count⟩, ?_⟩
      rw [eq]
      exact inChunk
    · obtain ⟨z, isNew, inChunk⟩ := second.covers pf isPage
      exact ⟨z, ⟨first.count.trans isNew.1, isNew.2⟩, inChunk⟩
  aligned := by
    intro z isNew
    by_cases isMiddle : z < list'.zbmNchunk
    · obtain ⟨_, _, eq⟩ := second.old z isMiddle
      rw [eq]
      exact first.aligned z ⟨isNew.1, isMiddle⟩
    · exact second.aligned z ⟨not_lt.1 isMiddle, isNew.2⟩
  clear := by
    intro z isNew
    by_cases isMiddle : z < list'.zbmNchunk
    · obtain ⟨_, _, eq⟩ := second.old z isMiddle
      rw [eq]
      exact first.clear z ⟨isNew.1, isMiddle⟩
    · exact second.clear z ⟨not_lt.1 isMiddle, isNew.2⟩

/-- The pages of a range. -/
def InRange (base npages pf : Nat) : Prop := base ≤ pf ∧ pf < base + npages

/-- **One chunk**: its cells of 4M lie on 4M boundaries if it begins on one. -/
theorem initChunkActual_built (list : RzbmList) {base npages : Nat}
    (pages : npages = 0 ∨ ChunkPages npages) (boundary : npages < pseNpages ∨ base % pseNpages = 0)
    (fits : base + npages ≤ 2 ^ 32) (cgnum : Int) :
    Built list (rzbmInitChunkActual list base npages cgnum) (InRange base npages) := by
  rcases pages with rfl | pages
  · refine Built.refl fun pf isPage => ?_
    unfold InRange at isPage
    omega
  · have added := initChunkActual_added list pages fits cgnum
    generalize rzbmInitChunkActual list base npages cgnum = list' at added
    have isOne : ∀ {z}, IsNew list list' z → z = list.zbmNchunk := by
      intro z isNew
      unfold IsNew at isNew
      rw [added.count] at isNew
      omega
    refine
      { count := by rw [added.count]; exact le_succ _
        old := added.old
        covers := fun pf isPage => ?_
        aligned := fun z isNew cellsize ci isCell => ?_
        clear := fun z isNew i inside => ?_ }
    · refine ⟨list.zbmNchunk, ⟨le_rfl, ?_⟩, ?_⟩
      · rw [added.count]
        exact lt_succ_self _
      · unfold InChunk
        rw [added.base, added.size]
        exact isPage
    · obtain rfl := isOne isNew
      rw [added.cellsize] at cellsize
      rw [added.ncell] at isCell
      rw [added.base, added.size]
      rcases cells_of_pages pages with ⟨short, _⟩ | ⟨_, whole⟩
      · rw [short] at cellsize
        exact absurd cellsize (by decide)
      · have long : ¬npages < pseNpages := by
          intro less
          rw [rzbmCellSize_short less] at cellsize
          exact absurd cellsize (by decide)
        have onBoundary := boundary.resolve_left long
        rw [cellCount, cellsize, if_neg (not_not_intro whole)] at isCell
        simp only [pseNpages] at whole onBoundary isCell ⊢
        omega
    · obtain rfl := isOne isNew
      rw [added.size] at inside
      exact added.clear i inside

/-- **A range**: its head, its tail and its middle. -/
theorem initChunk_built (list : RzbmList) {base npages : Nat} (fits : base + npages ≤ 2 ^ 32)
    (cgnum : Int) : Built list (rzbmInitChunk list base npages cgnum) (InRange base npages) := by
  unfold rzbmInitChunk
  split
  · refine Built.refl fun pf isPage => ?_
    unfold InRange at isPage
    omega
  · rename_i some'
    split
    · rename_i short
      exact initChunkActual_built list
        (.inr ⟨Nat.pos_of_ne_zero some', .inl short⟩) (.inl short) fits cgnum
    · rename_i long
      have long' : pseNpages ≤ npages := not_lt.1 long
      have onBoundary := (@carve_presz base npages long').2
      obtain ⟨prebase, middle, postbase, ends, presz, postsz, whole⟩ :=
        @carve_spec base npages long'
      generalize carve base npages = parts at *
      have some'' : ∀ {count}, count < pseNpages ∨ count % pseNpages = 0 →
          count = 0 ∨ ChunkPages count :=
        fun {count} kind => count.eq_zero_or_pos.imp_right fun positive => ⟨positive, kind⟩
      have built := ((initChunkActual_built list (some'' (.inl presz)) (.inl presz)
          (show parts.prebase + parts.presz ≤ 2 ^ 32 by omega) cgnum).trans
          (initChunkActual_built _ (some'' (.inl postsz)) (.inl postsz)
            (show parts.postbase + parts.postsz ≤ 2 ^ 32 by omega) cgnum)).trans
          (initChunkActual_built _ (some'' whole) (.inr (by rw [middle]; exact onBoundary))
            (show parts.base + parts.npages ≤ 2 ^ 32 by omega) cgnum)
      refine { built with covers := fun pf isPage => built.covers pf ?_ }
      unfold InRange at isPage ⊢
      omega

/-- **An initialisation** makes the pages of the range free, which were not. -/
theorem WellFormed.initChunk_freePage {usage : Usage} {base npages : Nat}
    (formed : WellFormed usage) (fits : base + npages ≤ 2 ^ 32)
    (unused : ∀ extent ∈ usage.given, extent.Apart ⟨base, npages⟩) (cgnum : Int) :
    (∀ pf, InRange base npages pf → ¬FreePage usage.list pf) ∧ ∀ pf,
      FreePage (rzbmInitChunk usage.list base npages cgnum) pf ↔
        FreePage usage.list pf ∨ InRange base npages pf := by
  have notThere : Unused usage.list ⟨base, npages⟩ := by
    intro z isChunk
    obtain ⟨extent, member, inside⟩ := formed.within z isChunk
    exact (unused extent member).inside inside (Extent.Inside.refl _)
  have grown := formed.chunks.initChunk fits notThere cgnum
  have built := initChunk_built usage.list fits cgnum
  generalize rzbmInitChunk usage.list base npages cgnum = list' at *
  refine ⟨?_, fun pf => ⟨?_, ?_⟩⟩
  · rintro pf isPage ⟨z, isChunk, i, inside, _, rfl⟩
    have apart := notThere z isChunk
    simp only [Extent.Apart, extentOf, InRange] at apart isPage
    omega
  · rintro ⟨z, isChunk, i, inside, clear, rfl⟩
    by_cases isOld : z < usage.list.zbmNchunk
    · have same := grown.old z isOld
      rw [same.size] at inside
      rw [bitAt, same.bitmap] at clear
      rw [same.base]
      exact .inl ⟨z, isOld, i, inside, clear, rfl⟩
    · have inRange := grown.new z (by omega) isChunk
      simp only [Extent.Inside, extentOf] at inRange
      refine .inr ?_
      unfold InRange
      omega
  · rintro (⟨z, isChunk, i, inside, clear, rfl⟩ | isPage)
    · have same := grown.old z isChunk
      refine ⟨z, isChunk.trans_le grown.count, i, ?_, ?_, ?_⟩
      · rw [same.size]
        exact inside
      · rw [bitAt, same.bitmap]
        exact clear
      · rw [same.base]
    · obtain ⟨z, isNew, inChunk⟩ := built.covers pf isPage
      unfold InChunk at inChunk
      have below : pf - (list'.chunks z).zbmBase < (list'.chunks z).zbmSize := by omega
      exact ⟨z, isNew.2, pf - (list'.chunks z).zbmBase, below,
        built.clear z isNew _ below, by omega⟩

/-- What a call builds: chunks that make up the range, with aligned cells and
pages that can be allocated once each. -/
structure ChunksBuilt (cgNone : Int) (before after : RzbmListMax) (base npages : Nat) : Prop where
  covers : ∀ pf, InRange base npages pf → ∃! z, IsNew before.toRzbmList after.toRzbmList z ∧
      InChunk (after.chunks z) pf
  inside : ∀ z, IsNew before.toRzbmList after.toRzbmList z →
      ∀ pf, InChunk (after.chunks z) pf → InRange base npages pf
  aligned : ∀ z, IsNew before.toRzbmList after.toRzbmList z → CellsAligned (after.chunks z)
  maxfree : 0 ≤ before.zbmMaxfree → before.zbmMaxfree + npages < 2 ^ 31 →
      after.zbmMaxfree = before.zbmMaxfree + npages
  allocated : ∃ total, npages ≤ total ∧ ∀ cgnums : List Int, (cgnums.length ≤ total → ∃ pfs list,
      allocPages cgNone cgnums after.toRzbmList = some (pfs, list) ∧
        pfs.length = cgnums.length ∧ pfs.Nodup ∧
        (cgnums.length = total → ∀ pf, InRange base npages pf → pf ∈ pfs)) ∧
      (total < cgnums.length → allocPages cgNone cgnums after.toRzbmList = none)

theorem ChunksWell.allocated {cgNone : Int} (well : ChunksWell list) {base npages : Nat}
    (free : ∀ pf, InRange base npages pf → FreePage list pf) :
    ∃ total, npages ≤ total ∧ ∀ cgnums : List Int, (cgnums.length ≤ total → ∃ pfs list',
      allocPages cgNone cgnums list = some (pfs, list') ∧ pfs.length = cgnums.length ∧ pfs.Nodup ∧
        (cgnums.length = total → ∀ pf, InRange base npages pf → pf ∈ pfs)) ∧
      (total < cgnums.length → allocPages cgNone cgnums list = none) := by
  obtain ⟨pages, arePages⟩ := well.freePages
  refine ⟨pages.card, ?_, fun cgnums => ?_⟩
  · have range : (Ico base (base + npages)).card ≤ pages.card := by
      refine card_le_card fun pf member => ?_
      exact (arePages pf).2 (free pf (mem_Ico.1 member))
    rw [card_Ico, Nat.add_sub_cancel_left] at range
    exact range
  · obtain ⟨enough, few⟩ := @allocPages_spec list cgNone well pages arePages cgnums
    refine ⟨fun within => ?_, few⟩
    obtain ⟨pfs, list', eq, length, nodup, inPages⟩ := enough within
    refine ⟨pfs, list', eq, length, nodup, fun all pf isPage => ?_⟩
    have every : pfs.toFinset = pages := by
      refine eq_of_subset_of_card_le (fun pf member => ?_) ?_
      · exact inPages pf (List.mem_toFinset.1 member)
      · rw [List.toFinset_card_of_nodup nodup, length, all]
    exact List.mem_toFinset.1 (every ▸ (arePages pf).2 (free pf isPage))

/--
**`rzbm_init_chunk`**, in every state of a run: the new chunks make up the range,
and each of its pages can be allocated once.
-/
theorem initChunk_chunksBuilt (cgNone : Int) (usage : Usage) (actions : List Action)
    (run : Run (Step cgNone) emptyUsage actions usage) (before : RzbmListMax)
    (isList : before.toRzbmList = usage.list) (base npages : Nat) (cgnum : Int)
    (fits : base + npages ≤ 2 ^ 32) (unused : ∀ extent ∈ usage.given, extent.Apart ⟨base, npages⟩) :
    ChunksBuilt cgNone before (initChunkMax before base npages cgnum) base
      npages := by
  have formed : WellFormed usage :=
    run.invariant (fun _ _ _ formed taken => taken.wellFormed formed) emptyUsage_wellFormed
  have grown := formed.chunks.initChunk fits (fun z isChunk => by
      obtain ⟨extent, member, inside⟩ := formed.within z isChunk
      exact (unused extent member).inside inside (Extent.Inside.refl _)) cgnum
  have built := initChunk_built usage.list fits cgnum
  have maxfree := @initChunkMax_maxfree before base npages cgnum
  have isAfter := initChunkMax_list before base npages cgnum
  generalize initChunkMax before base npages cgnum = after at *
  rw [← isList, ← isAfter] at grown built
  refine
    { covers := fun pf isPage => ?_
      inside := fun z isNew pf inChunk => ?_
      aligned := built.aligned
      maxfree := maxfree
      allocated := grown.well.allocated fun pf isPage => ?_ }
  · obtain ⟨z, isNew, inChunk⟩ := built.covers pf isPage
    refine ⟨z, ⟨isNew, inChunk⟩, ?_⟩
    rintro z' ⟨isNew', inChunk'⟩
    unfold InChunk at inChunk inChunk'
    exact (@ChunksWell.chunk_unique after.toRzbmList grown.well z' z
      (pf - (after.chunks z').zbmBase) (pf - (after.chunks z).zbmBase)
      isNew'.2 isNew.2 (by omega) (by omega) (by omega)).1
  · have inside := grown.new z isNew.1 isNew.2
    unfold InChunk at inChunk
    simp only [Extent.Inside, extentOf] at inside
    unfold InRange
    omega
  · obtain ⟨z, isNew, inChunk⟩ := built.covers pf isPage
    unfold InChunk at inChunk
    have below : pf - (after.chunks z).zbmBase < (after.chunks z).zbmSize := by omega
    exact ⟨z, isNew.2, pf - (after.chunks z).zbmBase, below, built.clear z isNew _ below, by omega⟩

theorem initChunk_chunksBuilt_three : ChunksBuilt (-1)
    { toRzbmList := emptyUsage.list
      zbmMaxfree := 0 }
    (initChunkMax
      { toRzbmList := emptyUsage.list
        zbmMaxfree := 0 }
      1000 1500 0)
    1000 1500 ∧ (initChunkMax
      { toRzbmList := emptyUsage.list
        zbmMaxfree := 0 }
      1000 1500 0).zbmNchunk = 3 := by
  refine ⟨?_, by decide +kernel⟩
  refine initChunk_chunksBuilt (-1) emptyUsage [] .nil
    { toRzbmList := emptyUsage.list
      zbmMaxfree := 0 }
    rfl 1000 1500 0 (by decide) ?_
  intro extent member
  cases member

end Uw7.Rzbm
