import Uw7.Rzbm.AuditPages

namespace Uw7.Rzbm

/-!
# The audit and pages of 4M

A page of 4M is a whole cell of a chunk whose cells have 4M.  It is taken from a
cell that is wholly free, and all its bits are cleared when it comes back.
-/

open Lib Function

variable {zbmp : RzbmT} {pool psepool : List Nat} {c i : Nat}

/-- The bits of a page of 4M. -/
def pseBits (c i : Nat) : Bool := decide (c * pseNpages ≤ i ∧ i < c * pseNpages + pseNpages)

theorem pseBits_iff : pseBits c i = true ↔ c * pseNpages ≤ i ∧ i < c * pseNpages + pseNpages := by
  rw [pseBits, decide_eq_true_iff]

theorem pseBits_first (c : Nat) : pseBits c (c * pseNpages) = true := pseBits_iff.mpr
    ⟨le_rfl, Nat.lt_add_of_pos_right (by decide)⟩

structure Whole (zbmp : RzbmT) (c : Nat) : Prop where
  cells : CellsAudit zbmp
  isCell : c < zbmp.zbmNcell
  cellsize : zbmp.zbmCellsize = pseNpages
  clear : ∀ i, pseBits c i = true → bitAt zbmp i = false

theorem mem_cellBits_pse (cellsize : zbmp.zbmCellsize = pseNpages) :
    i ∈ cellBits zbmp c ↔ pseBits c i = true := by
  rw [mem_cellBits, cellsize, pseBits_iff, Nat.succ_mul]

theorem Shape.pse (shape : Shape zbmp) (cellsize : zbmp.zbmCellsize = pseNpages) :
    zbmp.zbmCellwidth = 32 := by
  rcases shape.cells with ⟨size, -⟩ | ⟨-, width, -⟩
  · rw [cellsize] at size
    exact absurd size (by decide)
  · exact width

theorem Audit.whole (audit : Audit zbmp pool psepool) (member : c ∈ psepool) : Whole zbmp c := by
  obtain ⟨isCell, whole⟩ := (audit.listed c).psepool.mp member
  have cell := audit.cells.cells c isCell
  have cellsize : zbmp.zbmCellsize = pseNpages :=
    le_antisymm audit.cells.shape.cellsize_le (whole ▸ cell.nfree_le)
  refine ⟨audit.cells, isCell, cellsize, fun i inCell => ?_⟩
  exact cell.nfree_eq_cellsize_iff.mp (whole.trans cellsize.symm) i
    ((mem_cellBits_pse cellsize).mpr inCell)

namespace Whole

theorem inside (whole : Whole zbmp c) : c * pseNpages + pseNpages ≤ zbmp.zbmSize := by
  have last : pseBits c (c * pseNpages + pseNpages - 1) = true := by
    rw [pseBits_iff]
    simp only [pseNpages]
    omega
  have below := whole.cells.lt_of_clear whole.isCell
      ((mem_cellBits_pse whole.cellsize).mpr last) (whole.clear _ last)
  omega

theorem cursor_eq (whole : Whole zbmp c) : cursors zbmp.zbmCell c = 0 := by
  by_contra moved
  have width := whole.cells.shape.pse whole.cellsize
  have isSet := (whole.cells.cells c whole.isCell).full (c * pseNpages) (by
      rw [width]
      simp only [pseNpages, nbitpw]
      omega) (by rw [whole.cellsize])
  rw [whole.clear _ (pseBits_first c)] at isSet
  exact Bool.false_ne_true isSet

theorem ffc_eq (whole : Whole zbmp c) : bitmasknFfc zbmp.zbmBitmap (c * zbmp.zbmCellwidth)
    zbmp.zbmCellwidth =
    0 := by
  have width := whole.cells.shape.pse whole.cellsize
  have clear : bitAt zbmp (c * 1024) = false := whole.clear _ (pseBits_first c)
  rw [width, bitmasknFfc]
  cases result : Bitmap.search nbitpw zbmp.zbmBitmap (c * 32) 32 with
  | none =>
    have isSet := Bitmap.search_none (by decide) result (c * 1024)
        (by simp only [nbitpw]; omega) (by simp only [nbitpw]; omega)
    exact absurd (isSet.symm.trans clear) (by decide)
  | some found =>
    obtain ⟨from_, -, -, earlier⟩ := Bitmap.search_some (by decide) whole.cells.bounded result
    have atFirst : found = c * 1024 := by
      by_contra later
      have isSet := earlier (c * 1024) (by simp only [nbitpw]; omega)
          (by simp only [nbitpw] at from_; omega)
      exact absurd (isSet.symm.trans clear) (by decide)
    simp only [atFirst, nbitpw]
    omega

end Whole

/-- The chunk once all pages of a cell are taken, apart from its lists. -/
def takeCell (zbmp : RzbmT) (c : Nat) : RzbmT :=
  { zbmp with
    zbmBitmap := Bitmap.setRange nbitpw zbmp.zbmBitmap (c * pseNpages) pseNpages
    zbmCell := setCursor (setNfree zbmp.zbmCell c 0) c 32 }

theorem sameChunk_takeCell (zbmp : RzbmT) (c : Nat) : SameChunk zbmp (takeCell zbmp c) :=
  SameChunk.update zbmp _ _

theorem bitAt_takeCell (zbmp : RzbmT) (c i : Nat) :
    bitAt (takeCell zbmp c) i = (bitAt zbmp i || pseBits c i) := by
  simp only [bitAt, takeCell, pseBits, Bitmap.bit_setRange]

theorem Whole.pseallocFrom_eq (whole : Whole zbmp c) : pseallocFrom zbmp c =
    (zbmp.zbmBase + c * pseNpages, delFromPsepool (takeCell zbmp c) c) := by
  have shape := whole.cells.shape
  have inside := whole.inside
  have width := shape.pse whole.cellsize
  have start : (zbmp.zbmCell c).zbcCursor = 0 := whole.cursor_eq
  have address : rzbmCelltopa zbmp c 0 0 = zbmp.zbmBase + c * pseNpages := by
    have inMap : c * pseNpages < zbmp.zbmSize := by
      simp only [pseNpages] at inside ⊢
      omega
    have atStart := @rzbmCelltopa_eq zbmp c (c * pseNpages) 0 shape inMap
        (by rw [width]; simp only [pseNpages]; omega)
    have offset : ((c * pseNpages : Nat) : Int) -
        (((c * zbmp.zbmCellwidth + 0) * nbitpw : Nat) : Int) =
        0 := by
      rw [width]
      simp only [pseNpages, nbitpw]
      omega
    rw [offset] at atStart
    exact atStart
  have first : c * zbmp.zbmCellwidth * nbitpw = c * pseNpages := by
    rw [width]
    simp only [pseNpages, nbitpw]
    omega
  have count : zbmp.zbmCellwidth * nbitpw = pseNpages := by
    rw [width]
    rfl
  have cursor : 0 + ((0 : Int) + pseNpages).toNat / nbitpw = 32 := by decide
  simp only [pseallocFrom, start, shape.shiftLeft_eq, Nat.add_zero,
    Nat.sub_zero, whole.ffc_eq, address, first, count, cursor, takeCell]

theorem Audit.psealloc {rest : List Nat} (audit : Audit zbmp pool (c :: rest)) : Whole zbmp c ∧
    (pseallocFrom zbmp c).1 = zbmp.zbmBase + c * pseNpages ∧
    SameChunk zbmp (pseallocFrom zbmp c).2 ∧
    (∀ i, bitAt (pseallocFrom zbmp c).2 i = (bitAt zbmp i || pseBits c i)) ∧
    Audit (pseallocFrom zbmp c).2 pool rest := by
  have member : c ∈ c :: rest := List.mem_cons_self ..
  have whole := audit.whole member
  have width := whole.cells.shape.pse whole.cellsize
  have allSet : ∀ i ∈ cellBits zbmp c, bitAt (takeCell zbmp c) i = true := by
    intro i inCell
    rw [bitAt_takeCell, (mem_cellBits_pse whole.cellsize).mp inCell, Bool.or_true]
  have counts : nfrees (takeCell zbmp c).zbmCell = update (nfrees zbmp.zbmCell) c 0 := by
    simp [takeCell]
  have cursors_eq : cursors (takeCell zbmp c).zbmCell = update (cursors zbmp.zbmCell) c 32 := by
    simp [takeCell]
  have same := sameChunk_takeCell zbmp c
  have cell : CellAudit (takeCell zbmp c) c := by
    refine CellAudit.of_same same ?_ ?_ ?_
    · rw [counts, update_self]
      exact Ledger.noneFree (fun i inCell => by rw [allSet i inCell]; rfl) allSet
    · rw [cursors_eq, update_self]
      exact width.symm.le
    · rw [cursors_eq, update_self]
      intro i before above
      refine allSet i ((mem_cellBits_pse whole.cellsize).mpr ?_)
      rw [width] at before
      rw [whole.cellsize] at above
      simp only [nbitpw, pseNpages] at before above
      rw [pseBits_iff]
      simp only [pseNpages]
      omega
  have bounded : ∀ word, (takeCell zbmp c).zbmBitmap word < 2 ^ nbitpw := by
    simp only [takeCell]
    exact Bitmap.setRange_lt (by decide) audit.cells.bounded _ _
  have cells : CellsAudit (takeCell zbmp c) := by
    refine audit.cells.change same bounded (fun i outside => ?_) (fun i inCell _ => allSet i inCell)
      (fun ci different => ?_) (fun ci different => ?_) cell
    · rw [mem_cellBits_pse whole.cellsize, Bool.not_eq_true] at outside
      rw [bitAt_takeCell, outside, Bool.or_false]
    · rw [counts, update_of_ne different]
    · rw [cursors_eq, update_of_ne different]
  have placed : Placed (takeCell zbmp c) pool (c :: rest) c :=
    (audit.placed c).change same cells (by simp [takeCell])
      (by simp [takeCell]) (by simp only [takeCell]) (by simp only [takeCell])
      fun ci different => by rw [counts, update_of_ne different]
  have deleted := placed.delFromPsepool member
  rw [List.erase_cons_head] at deleted
  have sameDeleted := same.trans (sameChunk_delFromPsepool _ c)
  have deletedCount : nfrees (delFromPsepool (takeCell zbmp c) c).zbmCell c = 0 :=
    (congrFun (nfrees_delFromPsepool _ c) c).trans ((congrFun counts c).trans (update_self ..))
  rw [whole.pseallocFrom_eq]
  refine ⟨whole, rfl, sameDeleted, fun i =>
    (bitAt_delFromPsepool _ c i).trans (bitAt_takeCell zbmp c i),
    deleted.audit (Listed.of_count sameDeleted deletedCount ?_ ?_)⟩
  · simp [audit.disjoint c member]
  · simp [(List.nodup_cons.mp audit.onPsepool.ring.nodup).1, pseNpages]

/-- The chunk once all pages of a cell are returned, apart from its lists. -/
def returnCell (zbmp : RzbmT) (c : Nat) : RzbmT :=
  { zbmp with
    zbmBitmap := Bitmap.clearRange nbitpw zbmp.zbmBitmap (c * pseNpages) pseNpages
    zbmCell := setNfree (setCursor zbmp.zbmCell c 0) c pseNpages }

theorem sameChunk_returnCell (zbmp : RzbmT) (c : Nat) : SameChunk zbmp (returnCell zbmp c) :=
  SameChunk.update zbmp _ _

theorem bitAt_returnCell (zbmp : RzbmT) (c i : Nat) :
    bitAt (returnCell zbmp c) i = (bitAt zbmp i && !pseBits c i) := by
  simp only [bitAt, returnCell, pseBits, Bitmap.bit_clearRange]

theorem freePsePage_eq (shape : Shape zbmp) (cellsize : zbmp.zbmCellsize = pseNpages) (c : Nat) :
    freePsePage zbmp (c * pseNpages) = addToPsepool (returnCell zbmp c) c := by
  have width := shape.pse cellsize
  have cell : c * pseNpages / nbitpw / zbmp.zbmCellwidth = c := by
    rw [width]
    simp only [pseNpages, nbitpw]
    omega
  have first : c * pseNpages / nbitpw * nbitpw = c * pseNpages := by
    simp only [pseNpages, nbitpw]
    omega
  have count : zbmp.zbmCellwidth * nbitpw = pseNpages := by
    rw [width]
    rfl
  simp only [freePsePage, shape.shiftRight_eq, cell, first, count, returnCell]
  rw [cellsize]

theorem Audit.freePsePage (audit : Audit zbmp pool psepool)
    (cellsize : zbmp.zbmCellsize = pseNpages) (inside : c * pseNpages + pseNpages ≤ zbmp.zbmSize)
    (isSet : ∀ i, pseBits c i = true → bitAt zbmp i = true) :
    SameChunk zbmp (Rzbm.freePsePage zbmp (c * pseNpages)) ∧ (∀ i,
      bitAt (Rzbm.freePsePage zbmp (c * pseNpages)) i = (bitAt zbmp i && !pseBits c i)) ∧
      ∃ psepool', Audit (Rzbm.freePsePage zbmp (c * pseNpages)) pool psepool' := by
  have shape := audit.cells.shape
  have isCell : c < zbmp.zbmNcell := by
    have covers := shape.covers
    rw [cellsize] at covers
    simp only [pseNpages] at covers inside
    omega
  have none : nfrees zbmp.zbmCell c = 0 :=
    (audit.cells.cells c isCell).nfree_eq_zero_iff.mpr fun i inCell =>
      isSet i ((mem_cellBits_pse cellsize).mp inCell)
  have notPool : c ∉ pool := by
    rw [(audit.listed c).pool]
    omega
  have notPsepool : c ∉ psepool := by
    rw [(audit.listed c).psepool, none]
    exact fun listed => absurd listed.2 (by decide)
  have allClear : ∀ i ∈ cellBits zbmp c, bitAt (returnCell zbmp c) i = false := by
    intro i inCell
    rw [bitAt_returnCell, (mem_cellBits_pse cellsize).mp inCell, Bool.not_true, Bool.and_false]
  have counts : nfrees (returnCell zbmp c).zbmCell = update (nfrees zbmp.zbmCell) c pseNpages := by
    simp [returnCell]
  have cursors_eq : cursors (returnCell zbmp c).zbmCell = update (cursors zbmp.zbmCell) c 0 := by
    simp [returnCell]
  have same := sameChunk_returnCell zbmp c
  have cell : CellAudit (returnCell zbmp c) c := by
    refine CellAudit.of_same same ?_ ?_ ?_
    · have card : (cellBits zbmp c).card = pseNpages := card_cellBits.trans cellsize
      rw [counts, update_self, ← card]
      exact Ledger.allFree (fun i inCell => by rw [allClear i inCell]; rfl) allClear
    · rw [cursors_eq, update_self]
      exact Nat.zero_le _
    · rw [cursors_eq, update_self]
      intro i before above
      rw [shape.pse cellsize] at before
      rw [cellsize] at above
      simp only [nbitpw, pseNpages] at before above
      omega
  have bounded : ∀ word, (returnCell zbmp c).zbmBitmap word < 2 ^ nbitpw := by
    simp only [returnCell]
    exact Bitmap.clearRange_lt audit.cells.bounded _ _
  have cells : CellsAudit (returnCell zbmp c) := by
    refine audit.cells.change same bounded (fun i outside => ?_) (fun i inCell behind => ?_)
      (fun ci different => ?_) (fun ci different => ?_) cell
    · rw [mem_cellBits_pse cellsize, Bool.not_eq_true] at outside
      rw [bitAt_returnCell, outside, Bool.not_false, Bool.and_true]
    · have below := (mem_cellBits.mp inCell).2
      rw [cellsize, Nat.succ_mul] at below
      omega
    · rw [counts, update_of_ne different]
    · rw [cursors_eq, update_of_ne different]
  have placed : Placed (returnCell zbmp c) pool psepool c :=
    (audit.placed c).change same cells (by simp [returnCell])
      (by simp [returnCell]) (by simp only [returnCell]) (by simp only [returnCell])
      fun ci different => by rw [counts, update_of_ne different]
  have sameAdded := same.trans (sameChunk_addToPsepool _ c)
  have addedCount : nfrees (addToPsepool (returnCell zbmp c) c).zbmCell c = pseNpages :=
    (congrFun (nfrees_addToPsepool _ c) c).trans ((congrFun counts c).trans (update_self ..))
  rw [freePsePage_eq shape cellsize]
  refine ⟨sameAdded, fun i =>
    (bitAt_addToPsepool _ c i).trans (bitAt_returnCell zbmp c i), psepool ++ [c],
    (placed.addToPsepool notPool notPsepool).audit (Listed.of_count sameAdded addedCount ?_ ?_)⟩
  · simp [notPool]
  · simp [isCell]

end Uw7.Rzbm
