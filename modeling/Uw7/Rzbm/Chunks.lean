import Uw7.Rzbm.AuditInit
import Uw7.Rzbm.AuditPse

namespace Uw7.Rzbm

/-!
# The list of chunks

The chunks form a ring in the order in which they were initialised.  They are
audited one by one, and their ranges of pages do not overlap.
-/

open Lib Function List

/-- Consecutive pages. -/
structure Extent where
  pf : Nat
  npages : Nat
  deriving DecidableEq

/-- No page belongs to both extents. -/
def Extent.Apart (first second : Extent) : Prop := first.pf + first.npages ≤ second.pf ∨
    second.pf + second.npages ≤ first.pf

/-- All pages of an extent belong to another one. -/
def Extent.Inside (inner outer : Extent) : Prop := outer.pf ≤ inner.pf ∧
    inner.pf + inner.npages ≤ outer.pf + outer.npages

variable {first second inner : Extent} {accept : RzbmT → Bool} {z : Nat}

theorem Extent.Apart.symm (apart : first.Apart second) : second.Apart first := Or.symm apart

theorem Extent.Apart.inside {other : Extent} (apart : first.Apart second)
    (innerInside : inner.Inside first) (otherInside : other.Inside second) : inner.Apart other := by
  simp only [Extent.Apart, Extent.Inside] at *
  omega

theorem Extent.Inside.refl (extent : Extent) : extent.Inside extent := ⟨le_rfl, le_rfl⟩

theorem Extent.Inside.trans {middle outer : Extent} (first : inner.Inside middle)
    (second : middle.Inside outer) : inner.Inside outer :=
  ⟨second.1.trans first.1, first.2.trans second.2⟩

/-- The pages of a chunk. -/
def extentOf (zbmp : RzbmT) : Extent := ⟨zbmp.zbmBase, zbmp.zbmSize⟩

/-- The forward links of the chunks. -/
def chunkFlinks (chunks : Nat → RzbmT) : Nat → Nat := RzbmT.zbmFlink ∘ chunks

/-- The backward links of the chunks. -/
def chunkBlinks (chunks : Nat → RzbmT) : Nat → Nat := RzbmT.zbmBlink ∘ chunks

structure ChunksWell (list : RzbmList) : Prop where
  ring : Ring.IsRing (chunkFlinks list.chunks) (chunkBlinks list.chunks) (range list.zbmNchunk)
  head : list.zbmChunk = (range list.zbmNchunk).head?
  audited : ∀ z, z < list.zbmNchunk → ∃ pool psepool, Audit (list.chunks z) pool psepool
  apart : ∀ z, z < list.zbmNchunk → ∀ z', z' < list.zbmNchunk → z ≠ z' →
      (extentOf (list.chunks z)).Apart (extentOf (list.chunks z'))

variable {list list' : RzbmList} {zbmp : RzbmT} {extent : Extent}

section

variable (well : ChunksWell list)
include well

theorem ChunksWell.seekChunk_eq (accept : RzbmT → Bool) :
    seekChunk list accept = (range list.zbmNchunk).find? fun z => accept (list.chunks z) := by
  have ring := well.ring
  have count : (range list.zbmNchunk).length = list.zbmNchunk := length_range
  rw [seekChunk, well.head]
  cases chunks : range list.zbmNchunk with
  | nil => rfl
  | cons head rest =>
    rw [chunks] at ring count
    have searched := ring.seek_eq fun z => accept (list.chunks z)
    rw [count] at searched
    exact searched

theorem ChunksWell.seekChunk_some (found : seekChunk list accept = some z) :
    z < list.zbmNchunk ∧ accept (list.chunks z) = true := by
  rw [well.seekChunk_eq] at found
  have accepted := List.find?_some found
  exact ⟨mem_range.mp (List.mem_of_find?_eq_some found), accepted⟩

theorem ChunksWell.seekChunk_none (failed : seekChunk list accept = none)
    (isChunk : z < list.zbmNchunk) : accept (list.chunks z) = false := by
  rw [well.seekChunk_eq, List.find?_eq_none] at failed
  simpa using failed z (mem_range.mpr isChunk)

theorem ChunksWell.seekHome_some {cgNone cgnum : Int}
    (found : seekHome cgNone list cgnum accept = some z) :
    z < list.zbmNchunk ∧ accept (list.chunks z) = true := by
  rw [seekHome] at found
  cases first : seekChunk list fun zbmp =>
    (zbmp.zbmHome == cgnum || cgnum == cgNone) && accept zbmp with
  | some zbmp =>
    rw [first] at found
    obtain rfl : zbmp = z := Option.some.inj found
    obtain ⟨isChunk, accepted⟩ := well.seekChunk_some first
    exact ⟨isChunk, (Bool.and_eq_true_iff.mp accepted).2⟩
  | none =>
    rw [first] at found
    split_ifs at found
    exact well.seekChunk_some found

theorem ChunksWell.chunkOf_eq {pf : Nat} (isChunk : z < list.zbmNchunk)
    (above : (list.chunks z).zbmBase ≤ pf)
    (below : pf < (list.chunks z).zbmBase + (list.chunks z).zbmSize) :
    chunkOf list pf = some z := by
  rw [chunkOf]
  cases found : seekChunk list fun zbmp =>
    decide (zbmp.zbmBase ≤ pf ∧ pf < zbmp.zbmBase + zbmp.zbmSize) with
  | none =>
    have missed := well.seekChunk_none found isChunk
    exact absurd ⟨above, below⟩ (of_decide_eq_false missed)
  | some other =>
    obtain ⟨isOther, accepted⟩ := well.seekChunk_some found
    have inOther := of_decide_eq_true accepted
    have same : other = z := by
      by_contra different
      have apart := well.apart other isOther z isChunk different
      simp only [Extent.Apart, extentOf] at apart
      omega
    rw [same]
    rfl

end

theorem chunkFlinks_update {chunks : Nat → RzbmT} (same : zbmp.zbmFlink = (chunks z).zbmFlink) :
    chunkFlinks (update chunks z zbmp) = chunkFlinks chunks := by
  rw [chunkFlinks, comp_update, same]
  exact update_eq_self z (chunkFlinks chunks)

theorem chunkBlinks_update {chunks : Nat → RzbmT} (same : zbmp.zbmBlink = (chunks z).zbmBlink) :
    chunkBlinks (update chunks z zbmp) = chunkBlinks chunks := by
  rw [chunkBlinks, comp_update, same]
  exact update_eq_self z (chunkBlinks chunks)

theorem ChunksWell.setChunk (well : ChunksWell list) (same : SameChunk (list.chunks z) zbmp)
    (audited : ∃ pool psepool, Audit zbmp pool psepool) :
    ChunksWell (Rzbm.setChunk list z zbmp) where
  ring := by
    have forward := chunkFlinks_update same.flink
    have backward := chunkBlinks_update same.blink
    exact well.ring.congr (fun other _ => congrFun forward other)
      fun other _ => congrFun backward other
  head := well.head
  audited := by
    intro other isChunk
    change ∃ pool psepool, Audit (update list.chunks z zbmp other) pool psepool
    by_cases isChanged : other = z
    · rw [isChanged, update_self]
      exact audited
    · rw [update_of_ne isChanged]
      exact well.audited other isChunk
  apart := by
    have sameExtents : ∀ other, extentOf (update list.chunks z zbmp other) =
        extentOf (list.chunks other) := by
      intro other
      by_cases isChanged : other = z
      · rw [isChanged, update_self, extentOf, same.base, same.size]
        rfl
      · rw [update_of_ne isChanged]
    intro first isFirst second isSecond different
    change (extentOf (update list.chunks z zbmp first)).Apart
      (extentOf (update list.chunks z zbmp second))
    rw [sameExtents, sameExtents]
    exact well.apart first isFirst second isSecond different

/-- The pages of a chunk and their bits are the same. -/
structure SamePages (zbmp zbmp' : RzbmT) : Prop where
  bitmap : zbmp'.zbmBitmap = zbmp.zbmBitmap
  base : zbmp'.zbmBase = zbmp.zbmBase
  size : zbmp'.zbmSize = zbmp.zbmSize
  cellsize : zbmp'.zbmCellsize = zbmp.zbmCellsize

/-- The links of a chunk are changed. -/
def relink (zbmp : RzbmT) (flink blink : Nat) : RzbmT :=
  { zbmp with zbmFlink := flink, zbmBlink := blink }

theorem Audit.relink {pool psepool : List Nat} (audit : Audit zbmp pool psepool)
    (flink blink : Nat) : Audit (Rzbm.relink zbmp flink blink) pool psepool where
  __ := audit
  cells :=
    { shape :=
      { cells := audit.cells.shape.cells
        mask := audit.cells.shape.mask
        covers := audit.cells.shape.covers
        fits := audit.cells.shape.fits }
      bounded := audit.cells.bounded
      beyond := audit.cells.beyond
      cells := fun ci isCell =>
        { counted := (audit.cells.cells ci isCell).counted
          constrained := (audit.cells.cells ci isCell).constrained
          full := (audit.cells.cells ci isCell).full } }
  listed := fun ci =>
    { pool := (audit.listed ci).pool
      psepool := (audit.listed ci).psepool }

/-- Only the links between chunks are changed. -/
def Relinked (chunks chunks' : Nat → RzbmT) : Prop :=
  ∀ z, ∃ flink blink, chunks' z = relink (chunks z) flink blink

theorem Relinked.trans {chunks middle last : Nat → RzbmT} (first : Relinked chunks middle)
    (second : Relinked middle last) : Relinked chunks last := by
  intro z
  obtain ⟨flink, blink, firstEq⟩ := first z
  obtain ⟨flink', blink', secondEq⟩ := second z
  exact ⟨flink', blink', by rw [secondEq, firstEq]; rfl⟩

theorem relinked_update (chunks : Nat → RzbmT) (changed flink blink : Nat) : Relinked chunks
    (update chunks changed (relink (chunks changed) flink blink)) := by
  intro z
  by_cases isChanged : z = changed
  · subst z
    exact ⟨flink, blink, update_self ..⟩
  · rw [update_of_ne isChanged]
    exact ⟨(chunks z).zbmFlink, (chunks z).zbmBlink, rfl⟩

theorem rzbmAddChunk_relinked (list : RzbmList) (chunk : RzbmT) :
    Relinked (update list.chunks list.zbmNchunk chunk) (rzbmAddChunk list chunk).chunks := by
  have placed : ∀ flink blink, Relinked (update list.chunks list.zbmNchunk chunk)
      (update list.chunks list.zbmNchunk (relink chunk flink blink)) := by
    intro flink blink
    have relinked := relinked_update (update list.chunks list.zbmNchunk chunk)
        list.zbmNchunk flink blink
    rw [update_self, update_idem] at relinked
    exact relinked
  cases chunkHead : list.zbmChunk with
  | none =>
    simp only [rzbmAddChunk, chunkHead]
    exact placed list.zbmNchunk list.zbmNchunk
  | some head =>
    simp only [rzbmAddChunk, chunkHead]
    exact ((placed _ _).trans (relinked_update _ _ _ _)).trans (relinked_update _ _ _ _)

theorem rzbmAddChunk_nchunk (list : RzbmList) (chunk : RzbmT) :
    (rzbmAddChunk list chunk).zbmNchunk = list.zbmNchunk + 1 := by
  cases chunkHead : list.zbmChunk <;> simp only [rzbmAddChunk, chunkHead]

section Links

variable (chunks : Nat → RzbmT) (changed target : Nat)

theorem chunkFlinks_setFlink : chunkFlinks (update chunks changed
    { chunks changed with zbmFlink := target }) = update (chunkFlinks chunks) changed target :=
  comp_update ..

theorem chunkFlinks_setBlink : chunkFlinks (update chunks changed
    { chunks changed with zbmBlink := target }) = chunkFlinks chunks :=
  chunkFlinks_update rfl

theorem chunkBlinks_setBlink : chunkBlinks (update chunks changed
    { chunks changed with zbmBlink := target }) = update (chunkBlinks chunks) changed target :=
  comp_update ..

theorem chunkBlinks_setFlink : chunkBlinks (update chunks changed
    { chunks changed with zbmFlink := target }) = chunkBlinks chunks :=
  chunkBlinks_update rfl

end Links

theorem ChunksWell.add_ring (well : ChunksWell list) (chunk : RzbmT) :
    Ring.IsRing (chunkFlinks (rzbmAddChunk list chunk).chunks)
      (chunkBlinks (rzbmAddChunk list chunk).chunks) (range (list.zbmNchunk + 1)) ∧
      (rzbmAddChunk list chunk).zbmChunk = (range (list.zbmNchunk + 1)).head? := by
  have ring := well.ring
  have head := well.head
  cases count : list.zbmNchunk with
  | zero =>
    simp only [rzbmAddChunk, head, range_zero, List.head?_nil, count]
    refine ⟨⟨nodup_singleton 0, ?_, ?_⟩, rfl⟩
    · rw [chunkFlinks, comp_apply, update_self]
    · rw [chunkBlinks, comp_apply, update_self]
  | succ previous =>
    have chunks : range (previous + 1) = 0 :: (range previous).map Nat.succ := range_succ_eq_map
    have fresh : previous + 1 ∉ range (previous + 1) := by simp
    have notHead : (0 : Nat) ≠ previous + 1 := by omega
    rw [count, chunks] at ring
    rw [count, chunks, List.head?_cons] at head
    have lastMember : chunkBlinks list.chunks 0 ∈ 0 :: (range previous).map Nat.succ :=
      ring.blink_mem (mem_cons_self ..)
    have notLast : chunkBlinks list.chunks 0 ≠ previous + 1 := by
      intro same
      rw [same, ← chunks] at lastMember
      exact fresh lastMember
    have next : (list.chunks (list.chunks 0).zbmBlink).zbmFlink = 0 := ring.2.flink_blink
    have added := ring.add (chunks ▸ fresh)
    rw [← chunks, ← range_succ] at added
    have forward : chunkFlinks (rzbmAddChunk list chunk).chunks =
        Ring.addFlink (chunkFlinks list.chunks) (chunkBlinks list.chunks) 0 (previous + 1) := by
      simp only [rzbmAddChunk, head, count, next]
      rw [chunkFlinks_setFlink, chunkFlinks_setBlink, chunkFlinks, comp_update]
      exact update_comm notLast.symm _ _ _
    have backward : chunkBlinks (rzbmAddChunk list chunk).chunks =
        Ring.addBlink (chunkBlinks list.chunks) 0 (previous + 1) := by
      simp only [rzbmAddChunk, head, count, next]
      rw [chunkBlinks_setFlink, chunkBlinks_setBlink, chunkBlinks, comp_update]
      exact update_comm notHead.symm _ _ _
    rw [forward, backward]
    refine ⟨added, ?_⟩
    simp only [rzbmAddChunk, head]
    rw [range_succ_eq_map, List.head?_cons]

structure Grown (list list' : RzbmList) (extent : Extent) : Prop where
  well : ChunksWell list'
  count : list.zbmNchunk ≤ list'.zbmNchunk
  old : ∀ z, z < list.zbmNchunk → SamePages (list.chunks z) (list'.chunks z)
  new : ∀ z, list.zbmNchunk ≤ z → z < list'.zbmNchunk → (extentOf (list'.chunks z)).Inside extent

def Unused (list : RzbmList) (extent : Extent) : Prop := ∀ z, z < list.zbmNchunk →
    (extentOf (list.chunks z)).Apart extent

theorem SamePages.extentOf_eq {zbmp' : RzbmT} (same : SamePages zbmp zbmp') :
    extentOf zbmp' = extentOf zbmp := by
  rw [extentOf, same.base, same.size]
  rfl

theorem Grown.unused {other : Extent} (grown : Grown list list' extent) (unused : Unused list other)
    (apart : extent.Apart other) : Unused list' other := by
  intro z isChunk
  by_cases isOld : z < list.zbmNchunk
  · rw [(grown.old z isOld).extentOf_eq]
    exact unused z isOld
  · exact apart.inside (grown.new z (by omega) isChunk) (Extent.Inside.refl other)

theorem Grown.trans {last : RzbmList} {first second : Extent} (grown : Grown list list' first)
    (later : Grown list' last second) (firstInside : first.Inside extent)
    (secondInside : second.Inside extent) : Grown list last extent where
  well := later.well
  count := grown.count.trans later.count
  old := by
    intro z isOld
    have sameFirst := grown.old z isOld
    have sameLater := later.old z (isOld.trans_le grown.count)
    exact
      { bitmap := sameLater.bitmap.trans sameFirst.bitmap
        base := sameLater.base.trans sameFirst.base
        size := sameLater.size.trans sameFirst.size
        cellsize := sameLater.cellsize.trans sameFirst.cellsize }
  new := by
    intro z isNew isChunk
    by_cases isMiddle : z < list'.zbmNchunk
    · rw [(later.old z isMiddle).extentOf_eq]
      exact (grown.new z isNew isMiddle).trans firstInside
    · exact (later.new z (by omega) isChunk).trans secondInside

theorem blank_relink (flink blink : Nat) : Blank (relink zeroedChunk flink blink) where
  bitmap := rfl
  cursors := fun _ => rfl
  pool := rfl
  psepool := rfl
  cwshft := rfl

/-- One chunk is added for some pages, which are all free. -/
structure Added (list list' : RzbmList) (base npages : Nat) : Prop where
  count : list'.zbmNchunk = list.zbmNchunk + 1
  old : ∀ z, z < list.zbmNchunk → ∃ flink blink, list'.chunks z = relink (list.chunks z) flink blink
  base : (list'.chunks list.zbmNchunk).zbmBase = base
  size : (list'.chunks list.zbmNchunk).zbmSize = npages
  cellsize : (list'.chunks list.zbmNchunk).zbmCellsize = rzbmCellSize npages
  ncell : (list'.chunks list.zbmNchunk).zbmNcell = cellCount npages
  clear : ∀ i, i < npages → bitAt (list'.chunks list.zbmNchunk) i = false
  audited : ∃ pool psepool, Audit (list'.chunks list.zbmNchunk) pool psepool
  flinks : chunkFlinks list'.chunks = chunkFlinks (rzbmAddChunk list zeroedChunk).chunks
  blinks : chunkBlinks list'.chunks = chunkBlinks (rzbmAddChunk list zeroedChunk).chunks
  head : list'.zbmChunk = (rzbmAddChunk list zeroedChunk).zbmChunk

variable {base npages : Nat}

theorem initChunkActual_added (list : RzbmList) (pages : ChunkPages npages)
    (fits : base + npages ≤ 2 ^ 32) (cgnum : Int) :
    Added list (rzbmInitChunkActual list base npages cgnum) base
      npages := by
  have relinked := rzbmAddChunk_relinked list zeroedChunk
  have count := rzbmAddChunk_nchunk list zeroedChunk
  obtain ⟨flink, blink, newChunk⟩ := relinked list.zbmNchunk
  rw [update_self] at newChunk
  obtain ⟨same, clear, audited⟩ :=
    @fillChunk_audit _ base npages cgnum (blank_relink flink blink) pages fits
  rw [rzbmInitChunkActual, if_neg pages.1.ne']
  simp only [count, Nat.add_sub_cancel, newChunk]
  generalize fillChunk base npages cgnum (relink zeroedChunk flink blink) = chunk
    at same clear audited
  have newEq : (Rzbm.setChunk (rzbmAddChunk list zeroedChunk) list.zbmNchunk
      chunk).chunks list.zbmNchunk =
      chunk :=
    update_self ..
  refine
    { count := count
      old := fun z isOld => ?_
      base := by rw [newEq, same.base]; rfl
      size := by rw [newEq, same.size]; rfl
      cellsize := by rw [newEq, same.cellsize]; rfl
      ncell := by rw [newEq, same.ncell]; rfl
      clear := by rw [newEq]; exact clear
      audited := by rw [newEq]; exact audited
      flinks := chunkFlinks_update (same.flink.trans (by rw [newChunk]; rfl))
      blinks := chunkBlinks_update (same.blink.trans (by rw [newChunk]; rfl))
      head := rfl }
  obtain ⟨flink, blink, relinkedEq⟩ := relinked z
  rw [update_of_ne isOld.ne] at relinkedEq
  exact ⟨flink, blink, (update_of_ne isOld.ne _ _).trans relinkedEq⟩

theorem ChunksWell.initChunkActual (well : ChunksWell list)
    (pages : npages = 0 ∨ ChunkPages npages) (fits : base + npages ≤ 2 ^ 32)
    (unused : Unused list ⟨base, npages⟩) (cgnum : Int) :
    Grown list (rzbmInitChunkActual list base npages cgnum) ⟨base, npages⟩ := by
  rcases pages with rfl | pages
  · exact
      { well := well
        count := le_rfl
        old := fun z _ => ⟨rfl, rfl, rfl, rfl⟩
        new := fun z isNew isChunk => absurd isChunk (not_lt.mpr isNew) }
  · have ring := well.add_ring zeroedChunk
    have added := initChunkActual_added list pages fits cgnum
    generalize rzbmInitChunkActual list base npages cgnum = list' at added
    have newExtent : extentOf (list'.chunks list.zbmNchunk) = ⟨base, npages⟩ := by
      rw [extentOf, added.base, added.size]
    have oldExtent : ∀ z, z < list.zbmNchunk →
        extentOf (list'.chunks z) = extentOf (list.chunks z) := by
      intro z isOld
      obtain ⟨_, _, chunkEq⟩ := added.old z isOld
      rw [chunkEq]
      rfl
    refine
      { well := ⟨?_, ?_, ?_, ?_⟩
        count := added.count ▸ Nat.le_succ _
        old := ?_
        new := ?_ }
    · rw [added.count, added.flinks, added.blinks]
      exact ring.1
    · rw [added.count, added.head]
      exact ring.2
    · intro z isChunk
      rw [added.count] at isChunk
      by_cases isNew : z = list.zbmNchunk
      · rw [isNew]
        exact added.audited
      · obtain ⟨_, _, chunkEq⟩ := added.old z (by omega)
        obtain ⟨pool, psepool, auditedOld⟩ := well.audited z (by omega)
        rw [chunkEq]
        exact ⟨pool, psepool, auditedOld.relink _ _⟩
    · intro z isChunk z' isChunk' different
      rw [added.count] at isChunk isChunk'
      by_cases isNew : z = list.zbmNchunk
      · have isOld : z' < list.zbmNchunk := by omega
        rw [isNew, newExtent, oldExtent z' isOld]
        exact (unused z' isOld).symm
      · have isOld : z < list.zbmNchunk := by omega
        rw [oldExtent z isOld]
        by_cases isNew' : z' = list.zbmNchunk
        · rw [isNew', newExtent]
          exact unused z isOld
        · have isOld' : z' < list.zbmNchunk := by omega
          rw [oldExtent z' isOld']
          exact well.apart z isOld z' isOld' different
    · intro z isOld
      obtain ⟨_, _, chunkEq⟩ := added.old z isOld
      rw [chunkEq]
      exact ⟨rfl, rfl, rfl, rfl⟩
    · intro z notOld isChunk
      rw [added.count] at isChunk
      have isNew : z = list.zbmNchunk := by omega
      rw [isNew, newExtent]
      exact Extent.Inside.refl _

theorem ChunksWell.initChunk (well : ChunksWell list)
    (fits : base + npages ≤ 2 ^ 32) (unused : Unused list ⟨base, npages⟩) (cgnum : Int) :
    Grown list (rzbmInitChunk list base npages cgnum) ⟨base, npages⟩ := by
  rw [rzbmInitChunk]
  by_cases short : npages < pseNpages
  · have actual := well.initChunkActual (npages.eq_zero_or_pos.imp_right fun positive =>
        ⟨positive, .inl short⟩) fits unused cgnum
    split_ifs with isZero
    · rw [isZero, rzbmInitChunkActual, if_pos rfl] at actual
      rw [isZero]
      exact actual
    · exact actual
  · have long : pseNpages ≤ npages := not_lt.mp short
    have isPositive : npages ≠ 0 := by
      rintro rfl
      exact absurd long (by decide)
    rw [if_neg isPositive, if_neg short]
    obtain ⟨prebase, middle, postbase, ends, presz, postsz, pages⟩ := @carve_spec base npages long
    generalize carve base npages = parts at *
    obtain ⟨pb, ps, qb, qs, mb, ms⟩ := parts
    simp only at *
    subst pb mb qb
    have preInside : Extent.Inside ⟨base, ps⟩ ⟨base, npages⟩ := by
      simp only [Extent.Inside]
      omega
    have postInside : Extent.Inside ⟨base + ps + ms, qs⟩ ⟨base, npages⟩ := by
      simp only [Extent.Inside]
      omega
    have middleInside : Extent.Inside ⟨base + ps, ms⟩ ⟨base, npages⟩ := by
      simp only [Extent.Inside]
      omega
    have small : ∀ count, count < pseNpages → count = 0 ∨ ChunkPages count := fun count short =>
        count.eq_zero_or_pos.imp_right fun positive => ⟨positive, .inl short⟩
    have part : ∀ {inner}, inner.Inside ⟨base, npages⟩ → Unused list inner :=
      fun inside z isChunk => (unused z isChunk).inside (Extent.Inside.refl _) inside
    have preGrown := well.initChunkActual (small ps presz) (by omega) (part preInside) cgnum
    have postGrown := preGrown.well.initChunkActual (small qs postsz) (by omega)
        (preGrown.unused (part postInside) (.inl (Nat.le_add_right _ _))) cgnum
    have bothGrown := preGrown.trans postGrown preInside postInside
    have middleUnused := postGrown.unused (preGrown.unused (part middleInside) (.inl le_rfl))
        (.inr le_rfl)
    exact bothGrown.trans (bothGrown.well.initChunkActual
      (ms.eq_zero_or_pos.imp_right fun positive => ⟨positive, pages⟩)
      (by omega) middleUnused cgnum) (Extent.Inside.refl _) middleInside

end Uw7.Rzbm
