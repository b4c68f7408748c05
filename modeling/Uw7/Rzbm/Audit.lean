import Mathlib.Order.Interval.Finset.Nat
import Uw7.Lib.Ledger
import Uw7.Rzbm.Pages

namespace Uw7.Rzbm

/-!
# The audit of a chunk

The counts and cursors of the cells agree with the bitmap, and the two lists
hold the cells with free pages.  An operation changes one cell of a chunk, so
that its facts about the other cells carry over.
-/

open Lib Nat

/-- A bit of the allocation map of a chunk. -/
def bitAt (zbmp : RzbmT) (i : Nat) : Bool := Bitmap.bit nbitpw zbmp.zbmBitmap i

def cellBits (zbmp : RzbmT) (ci : Nat) : Finset Nat :=
  Finset.Ico (ci * zbmp.zbmCellsize) ((ci + 1) * zbmp.zbmCellsize)

/-- The layout of a chunk, whose cells have one word or 4M. -/
structure Shape (zbmp : RzbmT) : Prop where
  cells : zbmp.zbmCellsize = nbitpw ∧ zbmp.zbmCellwidth = 1 ∧ zbmp.zbmCwshft = 0 ∨
      zbmp.zbmCellsize = pseNpages ∧ zbmp.zbmCellwidth = 32 ∧ zbmp.zbmCwshft = 5
  mask : zbmp.zbmCellmask = zbmp.zbmCellwidth - 1
  covers : zbmp.zbmSize ≤ zbmp.zbmNcell * zbmp.zbmCellsize
  fits : zbmp.zbmBase + zbmp.zbmSize ≤ 2 ^ 32

/-- The count and the cursor of a cell agree with the bitmap. -/
structure CellAudit (zbmp : RzbmT) (ci : Nat) : Prop where
  counted : Ledger (cellBits zbmp ci) (fun i => !bitAt zbmp i) (bitAt zbmp) (nfrees zbmp.zbmCell ci)
  constrained : cursors zbmp.zbmCell ci ≤ zbmp.zbmCellwidth
  full : ∀ i, i / nbitpw < ci * zbmp.zbmCellwidth + cursors zbmp.zbmCell ci →
      ci * zbmp.zbmCellsize ≤ i → bitAt zbmp i = true

/-- The layout, the bitmap and the cells of a chunk. -/
structure CellsAudit (zbmp : RzbmT) : Prop where
  shape : Shape zbmp
  bounded : ∀ word, zbmp.zbmBitmap word < 2 ^ nbitpw
  beyond : ∀ i, zbmp.zbmSize ≤ i → i < zbmp.zbmNcell * zbmp.zbmCellsize → bitAt zbmp i = true
  cells : ∀ ci, ci < zbmp.zbmNcell → CellAudit zbmp ci

/-- A cell is on the lists that its count asks for. -/
structure Listed (zbmp : RzbmT) (pool psepool : List Nat) (ci : Nat) : Prop where
  pool : ci ∈ pool ↔ ci < zbmp.zbmNcell ∧ 0 < nfrees zbmp.zbmCell ci ∧
      nfrees zbmp.zbmCell ci ≠ pseNpages
  psepool : ci ∈ psepool ↔ ci < zbmp.zbmNcell ∧ nfrees zbmp.zbmCell ci = pseNpages

/-- The audit of a chunk and its two lists. -/
structure Audit (zbmp : RzbmT) (pool psepool : List Nat) : Prop where
  cells : CellsAudit zbmp
  onPool : OnPool zbmp.zbmCell zbmp.zbmPool pool
  onPsepool : OnPool zbmp.zbmCell zbmp.zbmPsepool psepool
  listed : ∀ ci, Listed zbmp pool psepool ci

/-- The fields of a chunk that stay as they are after initialisation. -/
structure SameChunk (zbmp zbmp' : RzbmT) : Prop where
  flink : zbmp'.zbmFlink = zbmp.zbmFlink
  blink : zbmp'.zbmBlink = zbmp.zbmBlink
  home : zbmp'.zbmHome = zbmp.zbmHome
  cellwidth : zbmp'.zbmCellwidth = zbmp.zbmCellwidth
  ncell : zbmp'.zbmNcell = zbmp.zbmNcell
  cwshft : zbmp'.zbmCwshft = zbmp.zbmCwshft
  cellmask : zbmp'.zbmCellmask = zbmp.zbmCellmask
  cellsize : zbmp'.zbmCellsize = zbmp.zbmCellsize
  base : zbmp'.zbmBase = zbmp.zbmBase
  size : zbmp'.zbmSize = zbmp.zbmSize

variable {zbmp zbmp' : RzbmT} {pool psepool : List Nat} {ci c i : Nat}

theorem SameChunk.refl (zbmp : RzbmT) : SameChunk zbmp zbmp :=
  ⟨rfl, rfl, rfl, rfl, rfl, rfl, rfl, rfl, rfl, rfl⟩

theorem SameChunk.trans {last : RzbmT} (first : SameChunk zbmp zbmp')
    (second : SameChunk zbmp' last) : SameChunk zbmp last where
  flink := second.flink.trans first.flink
  blink := second.blink.trans first.blink
  home := second.home.trans first.home
  cellwidth := second.cellwidth.trans first.cellwidth
  ncell := second.ncell.trans first.ncell
  cwshft := second.cwshft.trans first.cwshft
  cellmask := second.cellmask.trans first.cellmask
  cellsize := second.cellsize.trans first.cellsize
  base := second.base.trans first.base
  size := second.size.trans first.size

theorem SameChunk.update (zbmp : RzbmT) (bitmap : Nat → Nat) (cells : RzbmCells) :
    SameChunk zbmp { zbmp with zbmBitmap := bitmap, zbmCell := cells } :=
  ⟨rfl, rfl, rfl, rfl, rfl, rfl, rfl, rfl, rfl, rfl⟩

namespace Shape

theorem cellsize_eq (shape : Shape zbmp) : zbmp.zbmCellsize = zbmp.zbmCellwidth * nbitpw := by
  rcases shape.cells with ⟨size, width, -⟩ | ⟨size, width, -⟩
  · rw [size, width, one_mul]
  · rw [size, width]
    rfl

theorem cellsize_pos (shape : Shape zbmp) : 0 < zbmp.zbmCellsize := by
  rcases shape.cells with ⟨size, -⟩ | ⟨size, -⟩
  · rw [size]
    decide
  · rw [size]
    decide

theorem cellsize_le (shape : Shape zbmp) : zbmp.zbmCellsize ≤ pseNpages := by
  rcases shape.cells with ⟨size, -⟩ | ⟨size, -⟩
  · rw [size]
    decide
  · rw [size]

theorem shiftLeft_eq (shape : Shape zbmp) (ci : Nat) :
    ci <<< zbmp.zbmCwshft = ci * zbmp.zbmCellwidth := by
  rw [Nat.shiftLeft_eq]
  rcases shape.cells with ⟨-, width, shift⟩ | ⟨-, width, shift⟩ <;> rw [width, shift]

theorem shiftRight_eq (shape : Shape zbmp) (mi : Nat) :
    mi >>> zbmp.zbmCwshft = mi / zbmp.zbmCellwidth := by
  rw [shiftRight_eq_div_pow]
  rcases shape.cells with ⟨-, width, shift⟩ | ⟨-, width, shift⟩ <;> rw [width, shift]

theorem and_eq (shape : Shape zbmp) (mi : Nat) :
    mi &&& zbmp.zbmCellmask = mi % zbmp.zbmCellwidth := by
  rw [shape.mask]
  rcases shape.cells with ⟨-, width, -⟩ | ⟨-, width, -⟩ <;> rw [width]
  · exact and_two_pow_sub_one_eq_mod mi 0
  · exact and_two_pow_sub_one_eq_mod mi 5

theorem same (shape : Shape zbmp) (same : SameChunk zbmp zbmp') : Shape zbmp' where
  cells := by
    rw [same.cellsize, same.cellwidth, same.cwshft]
    exact shape.cells
  mask := by
    rw [same.cellmask, same.cellwidth]
    exact shape.mask
  covers := by
    rw [same.size, same.ncell, same.cellsize]
    exact shape.covers
  fits := by
    rw [same.base, same.size]
    exact shape.fits

theorem div_lt (shape : Shape zbmp) (inside : i < zbmp.zbmSize) :
    i / zbmp.zbmCellsize < zbmp.zbmNcell :=
  (Nat.div_lt_iff_lt_mul shape.cellsize_pos).mpr (inside.trans_le shape.covers)

end Shape

theorem mem_cellBits : i ∈ cellBits zbmp ci ↔
    ci * zbmp.zbmCellsize ≤ i ∧ i < (ci + 1) * zbmp.zbmCellsize := by
  rw [cellBits, Finset.mem_Ico]

theorem mem_cellBits_iff (shape : Shape zbmp) :
    i ∈ cellBits zbmp ci ↔ i / zbmp.zbmCellsize = ci := by
  have positive := shape.cellsize_pos
  rw [mem_cellBits, Nat.div_eq_iff positive, succ_mul]
  omega

theorem card_cellBits : (cellBits zbmp ci).card = zbmp.zbmCellsize := by
  rw [cellBits, card_Ico, succ_mul, Nat.add_sub_cancel_left]

namespace CellAudit

theorem nfree_le (cell : CellAudit zbmp ci) : nfrees zbmp.zbmCell ci ≤ zbmp.zbmCellsize := by
  have counted := cell.counted.counted
  have few := Finset.card_filter_le (cellBits zbmp ci) fun i => !bitAt zbmp i
  rw [card_cellBits] at few
  omega

theorem nfree_eq_zero_iff (cell : CellAudit zbmp ci) : nfrees zbmp.zbmCell ci = 0 ↔
    ∀ i ∈ cellBits zbmp ci, bitAt zbmp i = true := by
  rw [← cell.counted.count_eq_zero_iff]
  omega

theorem nfree_eq_cellsize_iff (cell : CellAudit zbmp ci) :
    nfrees zbmp.zbmCell ci = zbmp.zbmCellsize ↔ ∀ i ∈ cellBits zbmp ci, bitAt zbmp i = false := by
  rw [← cell.counted.count_eq_card_iff, card_cellBits]
  omega

theorem of_same (same : SameChunk zbmp zbmp') (counted :
    Ledger (cellBits zbmp ci) (fun i => !bitAt zbmp' i) (bitAt zbmp') (nfrees zbmp'.zbmCell ci))
    (constrained : cursors zbmp'.zbmCell ci ≤ zbmp.zbmCellwidth)
    (full : ∀ i, i / nbitpw < ci * zbmp.zbmCellwidth + cursors zbmp'.zbmCell ci →
      ci * zbmp.zbmCellsize ≤ i → bitAt zbmp' i = true) :
    CellAudit zbmp' ci where
  counted := by
    rw [cellBits, same.cellsize]
    exact counted
  constrained := by
    rw [same.cellwidth]
    exact constrained
  full := by
    rw [same.cellwidth, same.cellsize]
    exact full

theorem congr (cell : CellAudit zbmp ci) (shape : Shape zbmp) (same : SameChunk zbmp zbmp')
    (sameBits : ∀ i ∈ cellBits zbmp ci, bitAt zbmp' i = bitAt zbmp i)
    (sameCount : nfrees zbmp'.zbmCell ci = nfrees zbmp.zbmCell ci)
    (sameCursor : cursors zbmp'.zbmCell ci = cursors zbmp.zbmCell ci) : CellAudit zbmp' ci := by
  refine of_same same ?_ ?_ ?_
  · rw [sameCount]
    exact cell.counted.congr (fun i inCell => by rw [sameBits i inCell]) sameBits
  · rw [sameCursor]
    exact cell.constrained
  · rw [sameCursor]
    intro i before above
    have inCell : i ∈ cellBits zbmp ci := by
      refine mem_cellBits.mpr ⟨above, ?_⟩
      have constrained := cell.constrained
      have words : i / nbitpw < (ci + 1) * zbmp.zbmCellwidth := by
        rw [succ_mul]
        omega
      rw [shape.cellsize_eq, ← Nat.mul_assoc]
      exact (Nat.div_lt_iff_lt_mul (by decide)).mp words
    rw [sameBits i inCell]
    exact cell.full i before above

end CellAudit

theorem CellsAudit.change (audit : CellsAudit zbmp) (same : SameChunk zbmp zbmp')
    (bounded : ∀ word, zbmp'.zbmBitmap word < 2 ^ nbitpw)
    (sameBits : ∀ i, i ∉ cellBits zbmp c → bitAt zbmp' i = bitAt zbmp i)
    (stillBeyond : ∀ i ∈ cellBits zbmp c, zbmp.zbmSize ≤ i → bitAt zbmp' i = true)
    (sameCounts : ∀ ci, ci ≠ c → nfrees zbmp'.zbmCell ci = nfrees zbmp.zbmCell ci)
    (sameCursors : ∀ ci, ci ≠ c → cursors zbmp'.zbmCell ci = cursors zbmp.zbmCell ci)
    (changed : CellAudit zbmp' c) : CellsAudit zbmp' where
  shape := audit.shape.same same
  bounded := bounded
  beyond := by
    rw [same.size, same.ncell, same.cellsize]
    intro i behind inMap
    by_cases inCell : i ∈ cellBits zbmp c
    · exact stillBeyond i inCell behind
    · rw [sameBits i inCell]
      exact audit.beyond i behind inMap
  cells := by
    rw [same.ncell]
    intro ci isCell
    by_cases isChanged : ci = c
    · exact isChanged ▸ changed
    · refine (audit.cells ci isCell).congr audit.shape same
        (fun i inCell => sameBits i fun inChanged => isChanged ?_)
        (sameCounts ci isChanged) (sameCursors ci isChanged)
      rw [mem_cellBits_iff audit.shape] at inCell inChanged
      rw [← inCell, inChanged]

theorem Listed.of_count {nfree : Nat} (same : SameChunk zbmp zbmp')
    (count : nfrees zbmp'.zbmCell ci = nfree)
    (onPool : ci ∈ pool ↔ ci < zbmp.zbmNcell ∧ 0 < nfree ∧ nfree ≠ pseNpages)
    (onPsepool : ci ∈ psepool ↔ ci < zbmp.zbmNcell ∧ nfree = pseNpages) :
    Listed zbmp' pool psepool ci where
  pool := by
    rw [same.ncell, count]
    exact onPool
  psepool := by
    rw [same.ncell, count]
    exact onPsepool

theorem Listed.congr {pool' psepool' : List Nat} (listed : Listed zbmp pool psepool ci)
    (same : SameChunk zbmp zbmp') (sameCount : nfrees zbmp'.zbmCell ci = nfrees zbmp.zbmCell ci)
    (samePool : ci ∈ pool' ↔ ci ∈ pool) (samePsepool : ci ∈ psepool' ↔ ci ∈ psepool) :
    Listed zbmp' pool' psepool' ci where
  pool := by
    rw [samePool, same.ncell, sameCount]
    exact listed.pool
  psepool := by
    rw [samePsepool, same.ncell, sameCount]
    exact listed.psepool

theorem Audit.disjoint (audit : Audit zbmp pool psepool) : ∀ ci ∈ psepool, ci ∉ pool := by
  intro ci onPsepool onPool
  exact ((audit.listed ci).pool.mp onPool).2.2 ((audit.listed ci).psepool.mp onPsepool).2

end Uw7.Rzbm

namespace Uw7.Rzbm

/-!
# Moving a cell between the lists of a chunk

While an operation changes a cell, the audit holds except that this cell may be on
the wrong lists.  Every move of the cell keeps this, and the audit holds again
once the cell is where its count asks for.
-/

open Lib

variable {zbmp zbmp' : RzbmT} {pool psepool : List Nat} {c : Nat}

/-- The audit of the cells of a chunk, whatever is on its two lists. -/
structure OnLists (zbmp : RzbmT) (pool psepool : List Nat) : Prop where
  cells : CellsAudit zbmp
  onPool : OnPool zbmp.zbmCell zbmp.zbmPool pool
  onPsepool : OnPool zbmp.zbmCell zbmp.zbmPsepool psepool
  disjoint : ∀ ci ∈ psepool, ci ∉ pool

/-- The audit of a chunk, except for the lists that a cell is on. -/
structure Placed (zbmp : RzbmT) (pool psepool : List Nat)
    (c : Nat) : Prop extends OnLists zbmp pool psepool where
  listed : ∀ ci, ci ≠ c → Listed zbmp pool psepool ci

theorem CellsAudit.relisted (audit : CellsAudit zbmp) (same : SameChunk zbmp zbmp')
    (sameBitmap : zbmp'.zbmBitmap = zbmp.zbmBitmap)
    (sameCounts : nfrees zbmp'.zbmCell = nfrees zbmp.zbmCell)
    (sameCursors : cursors zbmp'.zbmCell = cursors zbmp.zbmCell) : CellsAudit zbmp' where
  shape := audit.shape.same same
  bounded := by
    rw [sameBitmap]
    exact audit.bounded
  beyond := by
    rw [same.size, same.ncell, same.cellsize]
    intro i behind inMap
    rw [bitAt, sameBitmap]
    exact audit.beyond i behind inMap
  cells := by
    rw [same.ncell]
    intro ci isCell
    refine (audit.cells ci isCell).congr audit.shape same (fun i _ => ?_)
      (congrFun sameCounts ci) (congrFun sameCursors ci)
    rw [bitAt, sameBitmap]
    rfl

theorem sameChunk_addToPool (zbmp : RzbmT) (c : Nat) : SameChunk zbmp (addToPool zbmp c) :=
  ⟨rfl, rfl, rfl, rfl, rfl, rfl, rfl, rfl, rfl, rfl⟩

theorem sameChunk_addToPsepool (zbmp : RzbmT) (c : Nat) : SameChunk zbmp (addToPsepool zbmp c) :=
  ⟨rfl, rfl, rfl, rfl, rfl, rfl, rfl, rfl, rfl, rfl⟩

theorem sameChunk_delFromPool (zbmp : RzbmT) (c : Nat) : SameChunk zbmp (delFromPool zbmp c) :=
  ⟨rfl, rfl, rfl, rfl, rfl, rfl, rfl, rfl, rfl, rfl⟩

theorem sameChunk_delFromPsepool (zbmp : RzbmT) (c : Nat) :
    SameChunk zbmp (delFromPsepool zbmp c) :=
  ⟨rfl, rfl, rfl, rfl, rfl, rfl, rfl, rfl, rfl, rfl⟩

theorem bitAt_addToPsepool (zbmp : RzbmT) (c i : Nat) :
    bitAt (addToPsepool zbmp c) i = bitAt zbmp i :=
  rfl

theorem bitAt_delFromPsepool (zbmp : RzbmT) (c i : Nat) :
    bitAt (delFromPsepool zbmp c) i = bitAt zbmp i :=
  rfl

theorem nfrees_addToPool (zbmp : RzbmT) (c : Nat) :
    nfrees (addToPool zbmp c).zbmCell = nfrees zbmp.zbmCell :=
  (rzbmAddCell_counts zbmp.zbmPool zbmp.zbmCell c).1

theorem nfrees_addToPsepool (zbmp : RzbmT) (c : Nat) :
    nfrees (addToPsepool zbmp c).zbmCell = nfrees zbmp.zbmCell :=
  (rzbmAddCell_counts zbmp.zbmPsepool zbmp.zbmCell c).1

theorem nfrees_delFromPool (zbmp : RzbmT) (c : Nat) :
    nfrees (delFromPool zbmp c).zbmCell = nfrees zbmp.zbmCell :=
  (rzbmDelCell_counts zbmp.zbmPool zbmp.zbmCell c).1

theorem nfrees_delFromPsepool (zbmp : RzbmT) (c : Nat) :
    nfrees (delFromPsepool zbmp c).zbmCell = nfrees zbmp.zbmCell :=
  (rzbmDelCell_counts zbmp.zbmPsepool zbmp.zbmCell c).1

namespace OnLists

section

variable (lists : OnLists zbmp pool psepool)
include lists

theorem addToPool (notPool : c ∉ pool)
    (notPsepool : c ∉ psepool) : OnLists (Rzbm.addToPool zbmp c) (pool ++ [c]) psepool where
  cells := lists.cells.relisted (sameChunk_addToPool zbmp c) rfl
    (nfrees_addToPool zbmp c) (rzbmAddCell_counts _ _ c).2
  onPool := lists.onPool.add notPool
  onPsepool := lists.onPool.add_other lists.onPsepool lists.disjoint notPsepool
  disjoint := by
    intro ci onPsepool onPool
    rcases List.mem_append.mp onPool with old | new
    · exact lists.disjoint ci onPsepool old
    · exact notPsepool (List.mem_singleton.mp new ▸ onPsepool)

theorem addToPsepool (notPool : c ∉ pool)
    (notPsepool : c ∉ psepool) : OnLists (Rzbm.addToPsepool zbmp c) pool (psepool ++ [c]) where
  cells := lists.cells.relisted (sameChunk_addToPsepool zbmp c) rfl
    (nfrees_addToPsepool zbmp c) (rzbmAddCell_counts _ _ c).2
  onPool := lists.onPsepool.add_other lists.onPool
    (fun ci onPool onPsepool => lists.disjoint ci onPsepool onPool) notPool
  onPsepool := lists.onPsepool.add notPsepool
  disjoint := by
    intro ci onPsepool
    rcases List.mem_append.mp onPsepool with old | new
    · exact lists.disjoint ci old
    · exact List.mem_singleton.mp new ▸ notPool

theorem delFromPool (member : c ∈ pool) :
    OnLists (Rzbm.delFromPool zbmp c) (pool.erase c) psepool where
  cells := lists.cells.relisted (sameChunk_delFromPool zbmp c) rfl
    (nfrees_delFromPool zbmp c) (rzbmDelCell_counts _ _ c).2
  onPool := lists.onPool.del member
  onPsepool := lists.onPool.del_other lists.onPsepool lists.disjoint member
  disjoint := fun ci onPsepool onPool => lists.disjoint ci onPsepool (List.mem_of_mem_erase onPool)

theorem delFromPsepool (member : c ∈ psepool) :
    OnLists (Rzbm.delFromPsepool zbmp c) pool (psepool.erase c) where
  cells := lists.cells.relisted (sameChunk_delFromPsepool zbmp c) rfl
    (nfrees_delFromPsepool zbmp c) (rzbmDelCell_counts _ _ c).2
  onPool := lists.onPsepool.del_other lists.onPool
    (fun ci onPool onPsepool => lists.disjoint ci onPsepool onPool) member
  onPsepool := lists.onPsepool.del member
  disjoint := fun ci onPsepool => lists.disjoint ci (List.mem_of_mem_erase onPsepool)

theorem notMem_erase : c ∉ pool.erase c := lists.onPool.ring.nodup.not_mem_erase

end

end OnLists

theorem Audit.placed (audit : Audit zbmp pool psepool) (c : Nat) : Placed zbmp pool psepool c where
  cells := audit.cells
  onPool := audit.onPool
  onPsepool := audit.onPsepool
  disjoint := audit.disjoint
  listed := fun ci _ => audit.listed ci

namespace Placed

section

variable (placed : Placed zbmp pool psepool c)
include placed

theorem audit (listed : Listed zbmp pool psepool c) :
    Audit zbmp pool psepool where
  __ := placed
  listed := by
    intro ci
    by_cases same : ci = c
    · exact same ▸ listed
    · exact placed.listed ci same

theorem change (same : SameChunk zbmp zbmp')
    (cells : CellsAudit zbmp') (sameForward : flinks zbmp'.zbmCell = flinks zbmp.zbmCell)
    (sameBackward : blinks zbmp'.zbmCell = blinks zbmp.zbmCell)
    (samePool : zbmp'.zbmPool = zbmp.zbmPool) (samePsepool : zbmp'.zbmPsepool = zbmp.zbmPsepool)
    (sameCounts : ∀ ci, ci ≠ c → nfrees zbmp'.zbmCell ci = nfrees zbmp.zbmCell ci) :
    Placed zbmp' pool psepool c where
  cells := cells
  onPool := by
    rw [samePool]
    exact placed.onPool.congr sameForward sameBackward
  onPsepool := by
    rw [samePsepool]
    exact placed.onPsepool.congr sameForward sameBackward
  disjoint := placed.disjoint
  listed := fun ci different =>
    (placed.listed ci different).congr same (sameCounts ci different) Iff.rfl Iff.rfl

theorem addToPool (notPool : c ∉ pool)
    (notPsepool : c ∉ psepool) : Placed (Rzbm.addToPool zbmp c) (pool ++ [c]) psepool c where
  toOnLists := placed.toOnLists.addToPool notPool notPsepool
  listed := fun ci different =>
    (placed.listed ci different).congr (sameChunk_addToPool zbmp c)
      (congrFun (nfrees_addToPool zbmp c) ci) (by simp [different]) Iff.rfl

theorem addToPsepool (notPool : c ∉ pool)
    (notPsepool : c ∉ psepool) : Placed (Rzbm.addToPsepool zbmp c) pool (psepool ++ [c]) c where
  toOnLists := placed.toOnLists.addToPsepool notPool notPsepool
  listed := fun ci different =>
    (placed.listed ci different).congr (sameChunk_addToPsepool zbmp c)
      (congrFun (nfrees_addToPsepool zbmp c) ci) Iff.rfl (by simp [different])

theorem delFromPool (member : c ∈ pool) :
    Placed (Rzbm.delFromPool zbmp c) (pool.erase c) psepool c where
  toOnLists := placed.toOnLists.delFromPool member
  listed := fun ci different =>
    (placed.listed ci different).congr (sameChunk_delFromPool zbmp c)
      (congrFun (nfrees_delFromPool zbmp c) ci) (List.mem_erase_of_ne different) Iff.rfl

theorem delFromPsepool (member : c ∈ psepool) :
    Placed (Rzbm.delFromPsepool zbmp c) pool (psepool.erase c) c where
  toOnLists := placed.toOnLists.delFromPsepool member
  listed := fun ci different =>
    (placed.listed ci different).congr (sameChunk_delFromPsepool zbmp c)
      (congrFun (nfrees_delFromPsepool zbmp c) ci) Iff.rfl (List.mem_erase_of_ne different)

end

end Placed

end Uw7.Rzbm
