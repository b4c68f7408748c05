import Uw7.Rzbm.Audit

namespace Uw7.Rzbm

/-!
# The audit and pages of 4K

A page is taken from a cell with a clear bit, and comes back to the cell that it
was taken from.
-/

open Lib Function List Nat

variable {zbmp : RzbmT} {pool psepool : List Nat} {c i found : Nat}

theorem Shape.cell_words (shape : Shape zbmp) (c : Nat) :
    c * zbmp.zbmCellsize = c * zbmp.zbmCellwidth * 32 ∧ (c + 1) * zbmp.zbmCellsize =
      (c * zbmp.zbmCellwidth + zbmp.zbmCellwidth) * 32 := by
  have words : zbmp.zbmCellsize = zbmp.zbmCellwidth * 32 := shape.cellsize_eq
  refine ⟨?_, ?_⟩
  · rw [words, Nat.mul_assoc]
  · rw [words, ← Nat.mul_assoc, succ_mul]

theorem CellsAudit.lt_of_clear (audit : CellsAudit zbmp) (isCell : c < zbmp.zbmNcell)
    (inCell : i ∈ cellBits zbmp c) (clear : bitAt zbmp i = false) : i < zbmp.zbmSize := by
  by_contra behind
  have inMap : (c + 1) * zbmp.zbmCellsize ≤ zbmp.zbmNcell * zbmp.zbmCellsize :=
    Nat.mul_le_mul_right _ isCell
  have isSet := audit.beyond i (by omega) ((mem_cellBits.mp inCell).2.trans_le inMap)
  rw [clear] at isSet
  exact Bool.false_ne_true isSet

theorem rzbmCelltopa_eq {cursor : Nat} (shape : Shape zbmp) (inside : i < zbmp.zbmSize)
    (above : (c * zbmp.zbmCellwidth + cursor) * 32 ≤ i) :
    rzbmCelltopa zbmp c cursor (i - ((c * zbmp.zbmCellwidth + cursor) * nbitpw : Nat)) =
      zbmp.zbmBase + i := by
  have fits := shape.fits
  rw [rzbmCelltopa, shape.shiftLeft_eq]
  simp only [nbitpw]
  have sum : (zbmp.zbmBase : Int) + (((cursor + c * zbmp.zbmCellwidth : Nat) : Int) * (32 : Nat) +
      ((i : Int) - (((c * zbmp.zbmCellwidth + cursor) * 32 : Nat) : Int))) =
      ((zbmp.zbmBase + i : Nat) : Int) := by
    omega
  have small : ((zbmp.zbmBase + i : Nat) : Int) % 2 ^ 32 = ((zbmp.zbmBase + i : Nat) : Int) := by
    omega
  push_cast at sum small ⊢
  omega

/-- A cell of the pool from which a page can be taken. -/
structure Allocatable (zbmp : RzbmT) (pool psepool : List Nat)
    (c : Nat) : Prop extends Placed zbmp pool psepool c where
  member : c ∈ pool
  notPse : c ∉ psepool
  isCell : c < zbmp.zbmNcell
  positive : 0 < nfrees zbmp.zbmCell c

theorem Audit.allocatable (audit : Audit zbmp pool psepool) (member : c ∈ pool) :
    Allocatable zbmp pool psepool c := by
  obtain ⟨isCell, positive, notWhole⟩ := (audit.listed c).pool.mp member
  exact
    { audit.placed c with
      member := member
      notPse := fun onPsepool => notWhole ((audit.listed c).psepool.mp onPsepool).2
      isCell := isCell
      positive := positive }

theorem Audit.borrow {rest : List Nat} (audit : Audit zbmp [] (c :: rest)) :
    Allocatable (borrowPseCell zbmp) [c] rest c ∧ (borrowPseCell zbmp).zbmPool = some c ∧
      SameChunk zbmp (borrowPseCell zbmp) ∧ (borrowPseCell zbmp).zbmBitmap = zbmp.zbmBitmap := by
  have noPool : zbmp.zbmPool = none := audit.onPool.head
  have somePsepool : zbmp.zbmPsepool = some c := audit.onPsepool.head
  have borrowed : borrowPseCell zbmp = addToPool (delFromPsepool zbmp c) c := by
    rw [borrowPseCell, noPool, somePsepool]
  have member : c ∈ c :: rest := mem_cons_self ..
  obtain ⟨isCell, whole⟩ := (audit.listed c).psepool.mp member
  have notRest : c ∉ rest := (nodup_cons.mp audit.onPsepool.ring.nodup).1
  have deleted := (audit.placed c).delFromPsepool member
  rw [erase_cons_head] at deleted
  have moved := deleted.addToPool not_mem_nil notRest
  rw [borrowed]
  refine ⟨?_, moved.onPool.head, ?_, rfl⟩
  · exact
      { moved with
        member := mem_singleton_self c
        notPse := notRest
        isCell := isCell
        positive := by
          rw [nfrees_addToPool, nfrees_delFromPsepool, whole]
          decide }
  · exact (sameChunk_delFromPsepool zbmp c).trans (sameChunk_addToPool _ c)

namespace Allocatable

theorem search (allocatable : Allocatable zbmp pool psepool c) :
    cursors zbmp.zbmCell c < zbmp.zbmCellwidth ∧ ∃ found, Bitmap.search nbitpw zbmp.zbmBitmap
      (c * zbmp.zbmCellwidth + cursors zbmp.zbmCell c)
      (zbmp.zbmCellwidth - cursors zbmp.zbmCell c) = some found ∧
      (c * zbmp.zbmCellwidth + cursors zbmp.zbmCell c) * 32 ≤ found ∧
      found ∈ cellBits zbmp c ∧ bitAt zbmp found = false ∧
      ∀ i, c * zbmp.zbmCellsize ≤ i → i < found → bitAt zbmp i = true := by
  have shape := allocatable.cells.shape
  have cell := allocatable.cells.cells c allocatable.isCell
  obtain ⟨startsAt, endsAt⟩ := shape.cell_words c
  have notAllSet : ¬ ∀ i ∈ cellBits zbmp c, bitAt zbmp i = true := by
    rw [← cell.nfree_eq_zero_iff]
    exact allocatable.positive.ne'
  simp only [not_forall] at notAllSet
  obtain ⟨clearBit, inCell, notSet⟩ := notAllSet
  obtain ⟨above, below⟩ := mem_cellBits.mp inCell
  have full := cell.full
  simp only [nbitpw] at full
  have before : cursors zbmp.zbmCell c < zbmp.zbmCellwidth := by
    by_contra atEnd
    exact notSet (full clearBit (by omega) above)
  refine ⟨before, ?_⟩
  cases result : Bitmap.search nbitpw zbmp.zbmBitmap
    (c * zbmp.zbmCellwidth + cursors zbmp.zbmCell c)
    (zbmp.zbmCellwidth - cursors zbmp.zbmCell c) with
  | none =>
    have allSet := Bitmap.search_none (by decide) result clearBit
    simp only [nbitpw] at allSet
    refine absurd ?_ notSet
    by_cases inFull : clearBit / 32 < c * zbmp.zbmCellwidth + cursors zbmp.zbmCell c
    · exact full clearBit inFull above
    · exact allSet (by omega) (by omega)
  | some found =>
    obtain ⟨from_, under, clear, earlier⟩ :=
      Bitmap.search_some (by decide) allocatable.cells.bounded result
    simp only [nbitpw] at from_ under earlier
    refine ⟨found, rfl, from_, mem_cellBits.mpr ⟨by omega, by omega⟩, clear,
      fun i aboveStart lower => ?_⟩
    by_cases inFull : i / 32 < c * zbmp.zbmCellwidth + cursors zbmp.zbmCell c
    · exact full i inFull aboveStart
    · exact earlier i (by omega) lower

end Allocatable

/-- The chunk once a bit of a cell is taken, apart from its lists. -/
def takeBit (zbmp : RzbmT) (c found : Nat) : RzbmT :=
  { zbmp with
    zbmBitmap := Bitmap.setBit nbitpw zbmp.zbmBitmap found
    zbmCell := setCursor (setNfree zbmp.zbmCell c (nfrees zbmp.zbmCell c - 1))
        c ((found + 1) / nbitpw - c * zbmp.zbmCellwidth) }

theorem sameChunk_takeBit (zbmp : RzbmT) (c found : Nat) : SameChunk zbmp (takeBit zbmp c found) :=
  SameChunk.update zbmp _ _

theorem bitAt_takeBit (i : Nat) : bitAt (takeBit zbmp c found) i =
    (bitAt zbmp i || decide (i = found)) :=
  Bitmap.bit_setBit i

theorem nfrees_takeBit : nfrees (takeBit zbmp c found).zbmCell =
    update (nfrees zbmp.zbmCell) c (nfrees zbmp.zbmCell c - 1) := by
  simp [takeBit]

theorem cursors_takeBit : cursors (takeBit zbmp c found).zbmCell =
    update (cursors zbmp.zbmCell) c ((found + 1) / nbitpw - c * zbmp.zbmCellwidth) := by
  simp [takeBit]

namespace Allocatable

theorem allocFrom_eq (allocatable : Allocatable zbmp pool psepool c) : ∃ found,
    found ∈ cellBits zbmp c ∧ bitAt zbmp found = false ∧
      (∀ i, c * zbmp.zbmCellsize ≤ i → i < found → bitAt zbmp i = true) ∧
      allocFrom zbmp c = (zbmp.zbmBase + found,
        if nfrees zbmp.zbmCell c - 1 = 0 then
          delFromPool (takeBit zbmp c found) c
        else
          takeBit zbmp c found) := by
  obtain ⟨before, found, result, above, inCell, clear, earlier⟩ := allocatable.search
  have shape := allocatable.cells.shape
  have inside := allocatable.cells.lt_of_clear allocatable.isCell inCell clear
  refine ⟨found, inCell, clear, earlier, ?_⟩
  have notEnd : ¬ (zbmp.zbmCell c).zbcCursor = zbmp.zbmCellwidth := before.ne
  have found_eq : bitmasknFfcset zbmp.zbmBitmap (c * zbmp.zbmCellwidth + (zbmp.zbmCell c).zbcCursor)
      (zbmp.zbmCellwidth - (zbmp.zbmCell c).zbcCursor) =
      ((found : Int) - ((c * zbmp.zbmCellwidth + cursors zbmp.zbmCell c) * nbitpw : Nat),
        Bitmap.setBit nbitpw zbmp.zbmBitmap found) := by
    have searched := result
    simp only [cursors] at searched
    rw [bitmasknFfcset, searched]
    rfl
  have cursor_eq : (zbmp.zbmCell c).zbcCursor + ((found : Int) - ((c * zbmp.zbmCellwidth +
      cursors zbmp.zbmCell c) * nbitpw : Nat) + 1).toNat / nbitpw =
      (found + 1) / nbitpw - c * zbmp.zbmCellwidth := by
    simp only [nbitpw, cursors] at above ⊢
    omega
  have address := @rzbmCelltopa_eq zbmp c found (cursors zbmp.zbmCell c) shape inside above
  simp only [allocFrom, if_neg notEnd, shape.shiftLeft_eq, found_eq, cursor_eq]
  refine Prod.ext address ?_
  rfl

section

variable (allocatable : Allocatable zbmp pool psepool c) (inCell : found ∈ cellBits zbmp c)
  (clear : bitAt zbmp found = false)
  (earlier : ∀ i, c * zbmp.zbmCellsize ≤ i → i < found → bitAt zbmp i = true)
include allocatable inCell clear earlier

theorem cell_takeBit : CellAudit (takeBit zbmp c found) c := by
  have shape := allocatable.cells.shape
  have cell := allocatable.cells.cells c allocatable.isCell
  have positive := allocatable.positive
  have countedBefore := cell.counted
  obtain ⟨startsAt, endsAt⟩ := shape.cell_words c
  obtain ⟨above, below⟩ := mem_cellBits.mp inCell
  have others : ∀ i, i ≠ found → bitAt (takeBit zbmp c found) i = bitAt zbmp i := by
    intro i different
    rw [bitAt_takeBit, decide_eq_false different, Bool.or_false]
  have isSet : bitAt (takeBit zbmp c found) found = true := by
    rw [bitAt_takeBit, decide_eq_true rfl, Bool.or_true]
  refine CellAudit.of_same (sameChunk_takeBit zbmp c found) ?_ ?_ ?_
  · rw [nfrees_takeBit, update_self, cast_sub positive]
    refine countedBefore.take inCell (by rw [clear]; rfl) (by rw [isSet]; rfl)
      (fun i _ different => by rw [others i different]) isSet
      fun i _ different => others i different
  · rw [cursors_takeBit, update_self]
    simp only [nbitpw]
    omega
  · rw [cursors_takeBit, update_self]
    simp only [nbitpw]
    intro i before from_
    by_cases same : i = found
    · rw [same]
      exact isSet
    · rw [others i same]
      exact earlier i from_ (by omega)

theorem cells_takeBit : CellsAudit (takeBit zbmp c found) := by
  refine allocatable.cells.change (sameChunk_takeBit zbmp c found)
    (Bitmap.setBit_lt (by decide) allocatable.cells.bounded)
    (fun i outside => ?_) (fun i inChanged behind => ?_)
    (fun ci different => ?_) (fun ci different => ?_)
    (allocatable.cell_takeBit inCell clear earlier)
  · have different : i ≠ found := by
      rintro rfl
      exact outside inCell
    rw [bitAt_takeBit, decide_eq_false different, Bool.or_false]
  · have inMap : (c + 1) * zbmp.zbmCellsize ≤ zbmp.zbmNcell * zbmp.zbmCellsize :=
      Nat.mul_le_mul_right _ allocatable.isCell
    rw [bitAt_takeBit, allocatable.cells.beyond i behind
      ((mem_cellBits.mp inChanged).2.trans_le inMap),
      Bool.true_or]
  · rw [nfrees_takeBit, update_of_ne different]
  · rw [cursors_takeBit, update_of_ne different]

end

theorem alloc (allocatable : Allocatable zbmp pool psepool c) : ∃ found,
    found < zbmp.zbmSize ∧ bitAt zbmp found = false ∧ (allocFrom zbmp c).1 = zbmp.zbmBase + found ∧
      SameChunk zbmp (allocFrom zbmp c).2 ∧
      (∀ i, bitAt (allocFrom zbmp c).2 i = (bitAt zbmp i || decide (i = found))) ∧
      ∃ pool', Audit (allocFrom zbmp c).2 pool' psepool := by
  obtain ⟨found, inCell, clear, earlier, result⟩ := allocatable.allocFrom_eq
  have cells := allocatable.cells_takeBit inCell clear earlier
  have inside := allocatable.cells.lt_of_clear allocatable.isCell inCell clear
  have same := sameChunk_takeBit zbmp c found
  have small := (allocatable.cells.cells c allocatable.isCell).nfree_le
  have smallCell := allocatable.cells.shape.cellsize_le
  have placed : Placed (takeBit zbmp c found) pool psepool c :=
    allocatable.change same cells (by simp [takeBit]) (by simp [takeBit])
      rfl rfl fun ci different => by rw [nfrees_takeBit, update_of_ne different]
  have count : nfrees (takeBit zbmp c found).zbmCell c = nfrees zbmp.zbmCell c - 1 := by
    rw [nfrees_takeBit, update_self]
  refine ⟨found, inside, clear, ?_⟩
  rw [result]
  by_cases emptied : nfrees zbmp.zbmCell c - 1 = 0
  · rw [if_pos emptied]
    have sameDeleted := same.trans (sameChunk_delFromPool _ c)
    have deletedCount : nfrees (delFromPool (takeBit zbmp c found) c).zbmCell c = 0 :=
      (congrFun (nfrees_delFromPool _ c) c).trans (count.trans emptied)
    refine ⟨rfl, sameDeleted, fun i => @bitAt_takeBit zbmp c found i, pool.erase c,
      (placed.delFromPool allocatable.member).audit
        (Listed.of_count sameDeleted deletedCount ?_ ?_)⟩
    · simp [allocatable.notMem_erase]
    · simp [allocatable.notPse, pseNpages]
  · rw [if_neg emptied]
    refine ⟨rfl, same, fun i => @bitAt_takeBit zbmp c found i, pool,
      placed.audit (Listed.of_count same count ?_ ?_)⟩
    · simp [allocatable.member, allocatable.isCell]
      omega
    · simp [allocatable.notPse]
      omega

end Allocatable

/-- The chunk once a bit of a cell is returned, apart from its lists. -/
def returnBit (zbmp : RzbmT) (i : Nat) : RzbmT :=
  let c := i / zbmp.zbmCellsize
  let cursor := i / nbitpw % zbmp.zbmCellwidth
  let cells := setNfree zbmp.zbmCell c (nfrees zbmp.zbmCell c + 1)
  { zbmp with
    zbmBitmap := Bitmap.clearBit nbitpw zbmp.zbmBitmap i
    zbmCell :=
      if cursor < cursors cells c then setCursor cells c cursor else cells }

theorem sameChunk_returnBit (zbmp : RzbmT) (i : Nat) : SameChunk zbmp (returnBit zbmp i) :=
  SameChunk.update zbmp _ _

theorem bitAt_returnBit (other : Nat) : bitAt (returnBit zbmp i) other =
    (bitAt zbmp other && decide (other ≠ i)) :=
  Bitmap.bit_clearBit other

theorem links_returnBit : flinks (returnBit zbmp i).zbmCell = flinks zbmp.zbmCell ∧
    blinks (returnBit zbmp i).zbmCell = blinks zbmp.zbmCell := by
  simp only [returnBit]
  split_ifs <;> simp

theorem nfrees_returnBit : nfrees (returnBit zbmp i).zbmCell =
    update (nfrees zbmp.zbmCell) (i / zbmp.zbmCellsize)
      (nfrees zbmp.zbmCell (i / zbmp.zbmCellsize) + 1) := by
  simp only [returnBit]
  split_ifs <;> simp

theorem cursors_returnBit : cursors (returnBit zbmp i).zbmCell =
    update (cursors zbmp.zbmCell) (i / zbmp.zbmCellsize)
      (min (i / nbitpw % zbmp.zbmCellwidth) (cursors zbmp.zbmCell (i / zbmp.zbmCellsize))) := by
  simp only [returnBit, fields_setNfree]
  split_ifs with lower
  · simp only [fields_setCursor, fields_setNfree, min_eq_left lower.le]
  · simp only [fields_setNfree, min_eq_right (not_lt.mp lower), update_eq_self]

theorem freePage_eq (shape : Shape zbmp) (i : Nat) : freePage zbmp i =
    let c := i / zbmp.zbmCellsize
    let returned := returnBit zbmp i
    let added :=
      if nfrees zbmp.zbmCell c + 1 = 1 then addToPool returned c
      else returned
    if nfrees zbmp.zbmCell c + 1 = pseNpages then
      addToPsepool (delFromPool added c) c
    else
      added := by
  have bit : i / nbitpw * nbitpw + i % nbitpw = i := by rw [Nat.mul_comm, div_add_mod]
  have cell : i / nbitpw / zbmp.zbmCellwidth = i / zbmp.zbmCellsize := by
    rw [Nat.div_div_eq_div_mul, shape.cellsize_eq, Nat.mul_comm zbmp.zbmCellwidth]
  simp only [freePage, shape.shiftRight_eq, shape.and_eq, bit, cell]
  rfl

theorem cell_returnBit (cells : CellsAudit zbmp) (inside : i < zbmp.zbmSize)
    (isSet : bitAt zbmp i = true) : CellAudit (returnBit zbmp i) (i / zbmp.zbmCellsize) := by
  have shape := cells.shape
  have cell := cells.cells _ (shape.div_lt inside)
  have countedBefore := cell.counted
  have constrained := cell.constrained
  have inCell : i ∈ cellBits zbmp (i / zbmp.zbmCellsize) := (mem_cellBits_iff shape).mpr rfl
  have others : ∀ other, other ≠ i → bitAt (returnBit zbmp i) other = bitAt zbmp other := by
    intro other different
    rw [bitAt_returnBit, decide_eq_true different, Bool.and_true]
  have clear : bitAt (returnBit zbmp i) i = false := by
    rw [bitAt_returnBit, decide_eq_false (not_not_intro rfl), Bool.and_false]
  refine CellAudit.of_same (sameChunk_returnBit zbmp i) ?_ ?_ ?_
  · rw [nfrees_returnBit, update_self, cast_succ]
    exact countedBefore.release inCell (by rw [isSet]; rfl) (by rw [clear]; rfl)
      (fun other _ different => by rw [others other different]) clear
      fun other _ different => others other different
  · rw [cursors_returnBit, update_self]
    exact (min_le_right _ _).trans constrained
  · rw [cursors_returnBit, update_self]
    intro other before above
    have notBit : other ≠ i := by
      rintro rfl
      have word : other / nbitpw = other / zbmp.zbmCellsize * zbmp.zbmCellwidth +
          other / nbitpw % zbmp.zbmCellwidth := by
        rw [shape.cellsize_eq, Nat.mul_comm zbmp.zbmCellwidth, ← Nat.div_div_eq_div_mul]
        exact (div_add_mod' ..).symm
      omega
    rw [others other notBit]
    exact cell.full other (by omega) above

theorem cells_returnBit (cells : CellsAudit zbmp) (inside : i < zbmp.zbmSize)
    (isSet : bitAt zbmp i = true) : CellsAudit (returnBit zbmp i) := by
  have isCell := cells.shape.div_lt inside
  have inCell : i ∈ cellBits zbmp (i / zbmp.zbmCellsize) := (mem_cellBits_iff cells.shape).mpr rfl
  refine cells.change (sameChunk_returnBit zbmp i) (Bitmap.clearBit_lt cells.bounded)
    (fun other outside => ?_) (fun other inChanged behind => ?_)
    (fun ci different => ?_) (fun ci different => ?_) (cell_returnBit cells inside isSet)
  · have different : other ≠ i := by
      rintro rfl
      exact outside inCell
    rw [bitAt_returnBit, decide_eq_true different, Bool.and_true]
  · have inMap : (i / zbmp.zbmCellsize + 1) * zbmp.zbmCellsize ≤ zbmp.zbmNcell * zbmp.zbmCellsize :=
      Nat.mul_le_mul_right _ isCell
    rw [bitAt_returnBit, decide_eq_true (by omega), Bool.and_true]
    exact cells.beyond other behind ((mem_cellBits.mp inChanged).2.trans_le inMap)
  · rw [nfrees_returnBit, update_of_ne different]
  · rw [cursors_returnBit, update_of_ne different]

/-- A page of 4K is returned to its cell. -/
theorem Audit.freePage (audit : Audit zbmp pool psepool) (inside : i < zbmp.zbmSize)
    (isSet : bitAt zbmp i = true) :
    SameChunk zbmp (Rzbm.freePage zbmp i) ∧ (∀ other, bitAt (Rzbm.freePage zbmp i) other =
      (bitAt zbmp other && decide (other ≠ i))) ∧
      ∃ pool' psepool', Audit (Rzbm.freePage zbmp i) pool' psepool' := by
  have shape := audit.cells.shape
  have isCell := shape.div_lt inside
  have cells := cells_returnBit audit.cells inside isSet
  have cell := audit.cells.cells _ isCell
  have same := sameChunk_returnBit zbmp i
  have inCell : i ∈ cellBits zbmp (i / zbmp.zbmCellsize) := (mem_cellBits_iff shape).mpr rfl
  have notWhole : nfrees zbmp.zbmCell (i / zbmp.zbmCellsize) < pseNpages := by
    refine lt_of_lt_of_le (cell.nfree_le.lt_of_ne fun whole => ?_) shape.cellsize_le
    have clear := cell.nfree_eq_cellsize_iff.mp whole i inCell
    rw [isSet] at clear
    exact Bool.false_ne_true clear.symm
  have onPool := (audit.listed (i / zbmp.zbmCellsize)).pool
  have onPsepool := (audit.listed (i / zbmp.zbmCellsize)).psepool
  have placed : Placed (returnBit zbmp i) pool psepool (i / zbmp.zbmCellsize) :=
    (audit.placed _).change same cells links_returnBit.1 links_returnBit.2
      rfl rfl fun ci different => by rw [nfrees_returnBit, update_of_ne different]
  have count : nfrees (returnBit zbmp i).zbmCell (i / zbmp.zbmCellsize) =
      nfrees zbmp.zbmCell (i / zbmp.zbmCellsize) + 1 := by
    rw [nfrees_returnBit, update_self]
  have notPse : i / zbmp.zbmCellsize ∉ psepool := by
    rw [onPsepool]
    omega
  rw [freePage_eq shape]
  generalize cellEq : i / zbmp.zbmCellsize = c at *
  simp only
  by_cases first : nfrees zbmp.zbmCell c = 0
  · have notLast : nfrees zbmp.zbmCell c + 1 ≠ pseNpages := by
      rw [first]
      decide
    have notPool : c ∉ pool := by
      rw [onPool]
      omega
    rw [if_neg notLast, if_pos (by omega)]
    have sameAdded := same.trans (sameChunk_addToPool _ c)
    have addedCount : nfrees (addToPool (returnBit zbmp i) c).zbmCell c = 1 :=
      (congrFun (nfrees_addToPool _ c) c).trans (count.trans (by rw [first]))
    refine ⟨sameAdded, fun other => @bitAt_returnBit zbmp i other, pool ++ [c], psepool,
      (placed.addToPool notPool notPse).audit (Listed.of_count sameAdded addedCount ?_ ?_)⟩
    · simp [isCell, pseNpages]
    · simp [notPse, pseNpages]
  · have member : c ∈ pool := by
      rw [onPool]
      omega
    rw [if_neg (show ¬ nfrees zbmp.zbmCell c + 1 = 1 by omega)]
    by_cases last : nfrees zbmp.zbmCell c + 1 = pseNpages
    · rw [if_pos last]
      have deleted := placed.delFromPool member
      have moved := deleted.addToPsepool placed.notMem_erase notPse
      have sameMoved := (same.trans (sameChunk_delFromPool _ c)).trans (sameChunk_addToPsepool _ c)
      have movedCount : nfrees (addToPsepool (delFromPool (returnBit zbmp i) c) c).zbmCell c =
            pseNpages :=
        (congrFun (nfrees_addToPsepool _ c) c).trans
          ((congrFun (nfrees_delFromPool _ c) c).trans (count.trans last))
      refine ⟨sameMoved, fun other => @bitAt_returnBit zbmp i other, pool.erase c, psepool ++ [c],
        moved.audit (Listed.of_count sameMoved movedCount ?_ ?_)⟩
      · simp [placed.notMem_erase]
      · simp [isCell]
    · rw [if_neg last]
      refine ⟨same, fun other => @bitAt_returnBit zbmp i other, pool, psepool,
        placed.audit (Listed.of_count same count ?_ ?_)⟩
      · simp [member, isCell, last]
      · simp [notPse, last]

end Uw7.Rzbm
