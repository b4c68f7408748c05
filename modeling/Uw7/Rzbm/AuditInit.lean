import Uw7.Rzbm.Audit

namespace Uw7.Rzbm

/-!
# The audit of an initialised chunk

A chunk either has fewer than 1024 pages, with cells of one word of which the
last one may be partial, or whole cells of 4M, which are moved to their own list.
-/

open Lib Function List Nat

variable {zbmp zbmp' : RzbmT} {pool psepool : List Nat} {c i : Nat}

def ChunkPages (npages : Nat) : Prop := 0 < npages ∧ (npages < pseNpages ∨ npages % pseNpages = 0)

variable {npages : Nat}

theorem rzbmCellSize_short (short : npages < pseNpages) :
    rzbmCellSize npages = nbitpw := by
  have few : npages / rzbmCellsize < rzbmMincells := by
    simp only [pseNpages, rzbmCellsize, rzbmMincells, nbitpw] at short ⊢
    omega
  have small : npages / rzbmMincells < 64 := by
    simp only [pseNpages, rzbmMincells] at short ⊢
    omega
  rw [rzbmCellSize, if_neg (not_le.mpr short), if_pos few]
  generalize npages / rzbmMincells = cellsize at small
  have grown : growCell cellsize cellsize nbitpw = nbitpw ∨
      growCell cellsize cellsize nbitpw = 64 ∧ cellsize < 64 := by
    cases cellsize with
    | zero => exact .inl rfl
    | succ fuel =>
      rw [growCell]
      split_ifs with larger
      · refine .inr ⟨?_, small⟩
        cases fuel with
        | zero => rfl
        | succ fuel => exact if_neg (not_lt.mpr small.le)
      · exact .inl rfl
  simp only
  rcases grown with grown | ⟨grown, less⟩
  · rw [grown, if_neg]
    exact fun larger => absurd larger.2 (lt_irrefl nbitpw)
  · rw [grown, if_pos ⟨less, by decide⟩]
    rfl

theorem rzbmCellSize_long (long : pseNpages ≤ npages) :
    rzbmCellSize npages = pseNpages :=
  if_pos long

theorem cells_of_pages (pages : ChunkPages npages) :
    (rzbmCellSize npages = nbitpw ∧ npages < pseNpages) ∨
      (rzbmCellSize npages = pseNpages ∧ npages % pseNpages = 0) := by
  obtain ⟨positive, kind⟩ := pages
  by_cases short : npages < pseNpages
  · exact .inl ⟨rzbmCellSize_short short, short⟩
  · rcases kind with isShort | whole
    · exact absurd isShort short
    · exact .inr ⟨rzbmCellSize_long (not_lt.mp short), whole⟩

structure CellsPlaced (zbmp zbmp' : RzbmT) (first count : Nat) : Prop where
  same : SameChunk zbmp zbmp'
  bitmap : zbmp'.zbmBitmap = zbmp.zbmBitmap
  psepool : zbmp'.zbmPsepool = zbmp.zbmPsepool
  onPool : OnPool zbmp'.zbmCell zbmp'.zbmPool (range (first + count))
  counts : ∀ ci, nfrees zbmp'.zbmCell ci =
      if first ≤ ci ∧ ci < first + count then zbmp.zbmCellsize
      else nfrees zbmp.zbmCell ci
  cursors : cursors zbmp'.zbmCell = cursors zbmp.zbmCell

theorem placeCells_spec {first count : Nat}
    (onPool : OnPool zbmp.zbmCell zbmp.zbmPool (range first)) :
    CellsPlaced zbmp (placeCells first count zbmp) first count := by
  induction count generalizing zbmp first with
  | zero =>
    exact
      { same := SameChunk.refl zbmp
        bitmap := rfl
        psepool := rfl
        onPool := onPool
        counts := fun ci => by rw [if_neg (by omega)]; rfl
        cursors := rfl }
  | succ count ih =>
    have fresh : first ∉ range first := by simp
    have counts : nfrees (setBlink (setFlink (setNfree zbmp.zbmCell first zbmp.zbmCellsize) first
        first)
        first first) = update (nfrees zbmp.zbmCell) first zbmp.zbmCellsize := by
      simp
    have fields : cursors (setBlink (setFlink (setNfree zbmp.zbmCell first zbmp.zbmCellsize) first
        first)
        first first) = cursors zbmp.zbmCell := by
      simp
    have linked : OnPool (setBlink (setFlink (setNfree zbmp.zbmCell first zbmp.zbmCellsize) first
        first)
        first first) zbmp.zbmPool (range first) := by
      refine ⟨onPool.ring.congr (fun ci isCell => ?_) fun ci isCell => ?_, onPool.head⟩
      all_goals
        have different : ci ≠ first := by
          rintro rfl
          exact fresh isCell
        simp [different]
    rw [placeCells]
    generalize setBlink (setFlink (setNfree zbmp.zbmCell first zbmp.zbmCellsize) first
      first)
      first first = cells at counts fields linked
    obtain ⟨addCounts, addCursors⟩ := rzbmAddCell_counts zbmp.zbmPool cells first
    have added := linked.add fresh
    rw [← range_succ] at added
    have rest := @ih (addToPool { zbmp with zbmCell := cells } first) (first + 1) added
    have sum : first + 1 + count = first + (count + 1) := by omega
    exact
      { rest with
        same := ((SameChunk.update zbmp zbmp.zbmBitmap cells).trans
            (sameChunk_addToPool _ first)).trans rest.same
        onPool := sum ▸ rest.onPool
        counts := by
          intro ci
          rw [rest.counts ci]
          change (if _ then zbmp.zbmCellsize
            else nfrees (rzbmAddCell zbmp.zbmPool cells first).2 ci) = _
          rw [addCounts, counts, sum]
          by_cases isFirst : ci = first
          · rw [isFirst, update_self, if_neg (by omega), if_pos (by omega)]
          · rw [update_of_ne isFirst]
            refine if_congr ?_ rfl rfl
            omega
        cursors := rest.cursors.trans (addCursors.trans fields) }

/-- A chunk of which all pages are free. -/
structure Fresh (zbmp : RzbmT) : Prop where
  shape : Shape zbmp
  bounded : ∀ word, zbmp.zbmBitmap word < 2 ^ nbitpw
  bits : ∀ i, i < zbmp.zbmNcell * zbmp.zbmCellsize → bitAt zbmp i = decide (zbmp.zbmSize ≤ i)
  counts : ∀ ci, ci < zbmp.zbmNcell → nfrees zbmp.zbmCell ci =
      min zbmp.zbmCellsize (zbmp.zbmSize - ci * zbmp.zbmCellsize)
  cursors : ∀ ci, cursors zbmp.zbmCell ci = 0

theorem Fresh.cells (fresh : Fresh zbmp) : CellsAudit zbmp where
  __ := fresh
  beyond := by
    intro i behind inMap
    rw [fresh.bits i inMap, decide_eq_true behind]
  cells := by
    intro ci isCell
    have inMap : (ci + 1) * zbmp.zbmCellsize ≤ zbmp.zbmNcell * zbmp.zbmCellsize :=
      Nat.mul_le_mul_right _ isCell
    refine ⟨⟨fun i _ => (Bool.not_not _).symm, ?_⟩, ?_, ?_⟩
    · have freeBits : ((cellBits zbmp ci).filter fun i => !bitAt zbmp i) =
          Finset.Ico (ci * zbmp.zbmCellsize) (min ((ci + 1) * zbmp.zbmCellsize) zbmp.zbmSize) := by
        ext i
        rw [Finset.mem_filter, mem_cellBits, Finset.mem_Ico, lt_min_iff]
        constructor
        · rintro ⟨⟨above, below⟩, clear⟩
          rw [fresh.bits i (by omega)] at clear
          refine ⟨above, below, ?_⟩
          simpa using clear
        · rintro ⟨above, below, inside⟩
          rw [fresh.bits i (by omega)]
          refine ⟨⟨above, below⟩, ?_⟩
          simpa using inside
      rw [freeBits, card_Ico, fresh.counts ci isCell, succ_mul]
      congr 1
      omega
    · rw [fresh.cursors ci]
      exact Nat.zero_le _
    · rw [fresh.cursors ci]
      intro i before above
      have words := (Nat.div_lt_iff_lt_mul (by decide)).mp before
      rw [fresh.shape.cellsize_eq, ← Nat.mul_assoc] at above
      rw [Nat.add_zero] at words
      omega

/-- The cells before `next` are on their list, the others are on the pool. -/
structure Moving (zbmp : RzbmT) (pool psepool : List Nat)
    (next : Nat) : Prop extends OnLists zbmp pool psepool where
  positive : ∀ ci, ci < zbmp.zbmNcell → 0 < nfrees zbmp.zbmCell ci
  moved : ∀ ci, ci < next → Listed zbmp pool psepool ci
  waiting : ∀ ci, next ≤ ci → (ci ∈ pool ↔ ci < zbmp.zbmNcell) ∧ ci ∉ psepool

theorem Moving.step {next : Nat} (moving : Moving zbmp pool psepool next)
    (isCell : next < zbmp.zbmNcell) (whole : nfrees zbmp.zbmCell next = pseNpages) :
    Moving (addToPsepool (delFromPool zbmp next) next) (pool.erase next)
      (psepool ++ [next]) (next + 1) := by
  have same := (sameChunk_delFromPool zbmp next).trans
      (sameChunk_addToPsepool (delFromPool zbmp next) next)
  have counts : nfrees (addToPsepool (delFromPool zbmp next) next).zbmCell =
      nfrees zbmp.zbmCell := by
    rw [nfrees_addToPsepool, nfrees_delFromPool]
  obtain ⟨inPool, notPse⟩ := moving.waiting next le_rfl
  have member : next ∈ pool := inPool.mpr isCell
  exact
    { toOnLists := (moving.toOnLists.delFromPool member).addToPsepool
          moving.toOnLists.notMem_erase notPse
      positive := by
        rw [counts, same.ncell]
        exact moving.positive
      moved := by
        intro ci before
        by_cases isNext : ci = next
        · subst ci
          refine Listed.of_count same ((congrFun counts next).trans whole) ?_ ?_
          · simp [moving.toOnLists.notMem_erase]
          · simp [isCell]
        · exact (moving.moved ci (by omega)).congr same (congrFun counts ci)
            (mem_erase_of_ne isNext) (by simp [isNext])
      waiting := by
        intro ci after
        obtain ⟨inPool, notPse⟩ := moving.waiting ci (by omega)
        have isNext : ci ≠ next := by omega
        rw [same.ncell, mem_erase_of_ne isNext]
        exact ⟨inPool, by simp [notPse, isNext]⟩ }

theorem Moving.skip {next : Nat} (moving : Moving zbmp pool psepool next)
    (isCell : next < zbmp.zbmNcell) (notWhole : nfrees zbmp.zbmCell next ≠ pseNpages) :
    Moving zbmp pool psepool (next + 1) where
  __ := moving
  moved := by
    intro ci before
    by_cases isNext : ci = next
    · subst ci
      obtain ⟨inPool, notPse⟩ := moving.waiting next le_rfl
      refine Listed.of_count (SameChunk.refl zbmp) rfl ?_ ?_
      · simp [inPool, isCell, notWhole, moving.positive next isCell]
      · simp [notPse, notWhole]
    · exact moving.moved ci (by omega)
  waiting := fun ci after => moving.waiting ci (by omega)

theorem movePseCells_spec {next count : Nat} (moving : Moving zbmp pool psepool next)
    (toEnd : next + count = zbmp.zbmNcell) : SameChunk zbmp (movePseCells next count zbmp) ∧
      (movePseCells next count zbmp).zbmBitmap = zbmp.zbmBitmap ∧
      ∃ pool' psepool', Audit (movePseCells next count zbmp) pool' psepool' := by
  induction count generalizing zbmp pool psepool next with
  | zero =>
    refine ⟨SameChunk.refl zbmp, rfl, pool, psepool, ?_⟩
    exact
      { moving with
        listed := by
          intro ci
          by_cases before : ci < next
          · exact moving.moved ci before
          · obtain ⟨inPool, notPse⟩ := moving.waiting ci (by omega)
            have notCell : ¬ ci < zbmp.zbmNcell := by omega
            exact Listed.of_count (SameChunk.refl zbmp) rfl
              (by simp [inPool, notCell]) (by simp [notPse, notCell]) }
  | succ count ih =>
    have isCell : next < zbmp.zbmNcell := by omega
    rw [movePseCells]
    by_cases whole : (zbmp.zbmCell next).zbcNfree = pseNpages
    · rw [if_pos whole]
      have same := (sameChunk_delFromPool zbmp next).trans
          (sameChunk_addToPsepool (delFromPool zbmp next) next)
      obtain ⟨sameRest, sameBits, audited⟩ := ih (moving.step isCell whole)
        (by rw [same.ncell]; omega)
      exact ⟨same.trans sameRest, sameBits, audited⟩
    · rw [if_neg whole]
      exact ih (moving.skip isCell whole) (by omega)

/-- A chunk that has just been allocated. -/
structure Blank (zbmp : RzbmT) : Prop where
  bitmap : zbmp.zbmBitmap = fun _ => 0
  cursors : ∀ ci, cursors zbmp.zbmCell ci = 0
  pool : zbmp.zbmPool = none
  psepool : zbmp.zbmPsepool = none
  cwshft : zbmp.zbmCwshft = 0

/-- The number of cells of a chunk. -/
def cellCount (npages : Nat) : Nat :=
  if npages % rzbmCellSize npages ≠ 0 then
    npages / rzbmCellSize npages + 1
  else
    npages / rzbmCellSize npages

/-- A chunk once the fields that do not change are set. -/
def layOut (base npages : Nat) (cgnum : Int) (zbmp : RzbmT) : RzbmT :=
  { zbmp with
    zbmBase := base
    zbmSize := npages
    zbmCellsize := rzbmCellSize npages
    zbmCellwidth := rzbmCellSize npages / nbitpw
    zbmNcell := cellCount npages
    zbmCellmask := rzbmCellSize npages / nbitpw - 1
    zbmHome := cgnum
    zbmCwshft := log2Loop (rzbmCellSize npages / nbitpw)
        (rzbmCellSize npages / nbitpw) 1 zbmp.zbmCwshft }

theorem fillChunk_eq (base npages : Nat) (cgnum : Int) (zbmp : RzbmT) :
    fillChunk base npages cgnum zbmp = movePseCells 0 (cellCount npages)
      (if npages % rzbmCellSize npages ≠ 0 then
        trimLastCell (placeCells 0 (cellCount npages) (layOut base npages cgnum zbmp))
          (npages % rzbmCellSize npages)
      else
        placeCells 0 (cellCount npages) (layOut base npages cgnum zbmp)) :=
  rfl

theorem cellCount_spec (pages : ChunkPages npages) : 0 < cellCount npages ∧
    npages ≤ cellCount npages * rzbmCellSize npages ∧
    (cellCount npages - 1) * rzbmCellSize npages < npages := by
  have positive := pages.1
  rcases cells_of_pages pages with ⟨size, short⟩ | ⟨size, whole⟩
  · simp only [cellCount, size, nbitpw]
    split_ifs <;> omega
  · simp only [cellCount, size, if_neg (not_not_intro whole)]
    simp only [pseNpages] at whole ⊢
    omega

variable {base npages : Nat}

theorem shape_layOut {cgnum : Int} (blank : Blank zbmp)
    (pages : ChunkPages npages) (fits : base + npages ≤ 2 ^ 32) :
    Shape (layOut base npages cgnum zbmp) where
  cells := by
    rcases cells_of_pages pages with ⟨size, -⟩ | ⟨size, -⟩
    · simp only [layOut, size, blank.cwshft]
      exact .inl ⟨trivial, rfl, rfl⟩
    · simp only [layOut, size, blank.cwshft]
      exact .inr ⟨trivial, rfl, rfl⟩
  mask := rfl
  covers := (cellCount_spec pages).2.1
  fits := fits

section Filled

variable {base npages : Nat} {cgnum : Int}

theorem placed_layOut (blank : Blank zbmp) : CellsPlaced (layOut base npages cgnum zbmp)
    (placeCells 0 (cellCount npages) (layOut base npages cgnum zbmp)) 0 (cellCount npages) :=
  placeCells_spec ⟨trivial, blank.pool⟩

theorem fresh_whole (blank : Blank zbmp) (pages : ChunkPages npages) (fits : base + npages ≤ 2 ^ 32)
    (whole : npages % rzbmCellSize npages = 0) :
    Fresh (placeCells 0 (cellCount npages) (layOut base npages cgnum zbmp)) := by
  have placed := @placed_layOut zbmp base npages cgnum blank
  have same := placed.same
  have noBits : (placeCells 0 (cellCount npages) (layOut base npages cgnum zbmp)).zbmBitmap =
      fun _ => 0 :=
    placed.bitmap.trans blank.bitmap
  have filled : cellCount npages * rzbmCellSize npages = npages := by
    rw [cellCount, if_neg (not_not_intro whole), Nat.div_mul_cancel (dvd_of_mod_eq_zero whole)]
  exact
    { shape := (shape_layOut blank pages fits).same same
      bounded := by
        intro word
        rw [noBits]
        exact Nat.two_pow_pos nbitpw
      bits := by
        rw [same.ncell, same.cellsize, same.size]
        intro i inMap
        change i < cellCount npages * rzbmCellSize npages at inMap
        change _ = decide (npages ≤ i)
        rw [bitAt, noBits, decide_eq_false (by omega)]
        exact zero_testBit _
      counts := by
        rw [same.ncell, same.cellsize, same.size]
        intro ci isCell
        change ci < cellCount npages at isCell
        have inMap : (ci + 1) * rzbmCellSize npages ≤ cellCount npages * rzbmCellSize npages :=
          Nat.mul_le_mul_right _ isCell
        rw [placed.counts ci, if_pos (by omega)]
        change rzbmCellSize npages = min (rzbmCellSize npages) (npages - ci * rzbmCellSize npages)
        rw [succ_mul] at inMap
        omega
      cursors := fun ci => (congrFun placed.cursors ci).trans (blank.cursors ci) }

theorem trimLastCell_eq (blank : Blank zbmp) (pages : ChunkPages npages) (rem : Nat) :
    let placed := placeCells 0 (cellCount npages) (layOut base npages cgnum zbmp)
    trimLastCell placed rem =
      { placed with
        zbmCell := setNfree placed.zbmCell (cellCount npages - 1) rem
        zbmBitmap := Bitmap.setRange nbitpw placed.zbmBitmap
          ((cellCount npages - 1) <<< placed.zbmCwshft * nbitpw + rem) (nbitpw - rem) } := by
  have placed := (@placed_layOut zbmp base npages cgnum blank).onPool
  obtain ⟨last, lastEq⟩ := exists_eq_succ_of_ne_zero (cellCount_spec pages).1.ne'
  generalize placeCells 0 (cellCount npages) (layOut base npages cgnum zbmp) = chunk at placed
  rw [lastEq] at placed ⊢
  obtain ⟨ring, head⟩ := placed
  rw [Nat.zero_add, range_succ_eq_map] at ring head
  have lastLink : (chunk.zbmCell 0).zbcBlink = last := by
    have linked := ring.2.blink_eq
    have ends : (0 :: (range last).map Nat.succ).getLast (cons_ne_nil _ _) =
          last := by
      simp only [← range_succ_eq_map, getLast_range]
      omega
    exact linked.trans ends
  simp only [trimLastCell, head, List.head?_cons, lastLink]
  rfl

/-- The last cell of a chunk is partial. -/
theorem fresh_trimmed (blank : Blank zbmp) (pages : ChunkPages npages)
    (fits : base + npages ≤ 2 ^ 32) (remains : npages % rzbmCellSize npages ≠ 0) :
    Fresh (trimLastCell (placeCells 0 (cellCount npages) (layOut base npages cgnum zbmp))
      (npages % rzbmCellSize npages)) := by
  have size : rzbmCellSize npages = nbitpw := by
    rcases cells_of_pages pages with ⟨size, -⟩ | ⟨size, whole⟩
    · exact size
    · rw [size] at remains
      exact absurd whole remains
  have count : cellCount npages = npages / nbitpw + 1 := by rw [cellCount, if_pos remains, size]
  have split : npages / nbitpw * nbitpw + npages % nbitpw = npages := by
    rw [Nat.mul_comm, div_add_mod]
  have small : npages % nbitpw < nbitpw := mod_lt _ (by decide)
  have placed := @placed_layOut zbmp base npages cgnum blank
  have same := placed.same
  have shape := (shape_layOut blank pages fits).same same
  have cellsize : (placeCells 0 (cellCount npages) (layOut base npages cgnum zbmp)).zbmCellsize =
        nbitpw :=
    same.cellsize.trans size
  have cwshft : (placeCells 0 (cellCount npages) (layOut base npages cgnum zbmp)).zbmCwshft =
        0 := by
    rcases shape.cells with ⟨-, -, shift⟩ | ⟨long, -, -⟩
    · exact shift
    · exact absurd (cellsize.symm.trans long) (by decide)
  have noBits : (placeCells 0 (cellCount npages) (layOut base npages cgnum zbmp)).zbmBitmap =
      fun _ => 0 :=
    placed.bitmap.trans blank.bitmap
  have ncell := same.ncell
  have sizes := same.size
  have counts := placed.counts
  have fields := placed.cursors
  change _ = cellCount npages at ncell
  change _ = npages at sizes
  rw [trimLastCell_eq blank pages]
  generalize placeCells 0 (cellCount npages) (layOut base npages cgnum zbmp) = chunk at *
  have sameTrimmed := SameChunk.update chunk (Bitmap.setRange nbitpw chunk.zbmBitmap
      ((cellCount npages - 1) <<< chunk.zbmCwshft * nbitpw + npages % rzbmCellSize npages)
      (nbitpw - npages % rzbmCellSize npages))
      (setNfree chunk.zbmCell (cellCount npages - 1) (npages % rzbmCellSize npages))
  refine
    { shape := shape.same sameTrimmed
      bounded := ?_
      bits := ?_
      counts := ?_
      cursors := ?_ }
  · exact Bitmap.setRange_lt (by decide)
      (fun word => by rw [noBits]; exact Nat.two_pow_pos nbitpw) _ _
  · intro i inMap
    rw [ncell, cellsize, count, succ_mul] at inMap
    rw [bitAt, Bitmap.bit_setRange, noBits, cwshft, size, count, sizes]
    simp only [Bitmap.bit, zero_testBit, Bool.false_or,
      decide_eq_decide, Nat.add_sub_cancel, shiftLeft_zero]
    omega
  · intro ci isCell
    rw [ncell, count] at isCell
    rw [fields_setNfree.2.2.1, cellsize, sizes, count, size, Nat.add_sub_cancel]
    by_cases last : ci = npages / nbitpw
    · rw [last, update_self]
      omega
    · have inMap : (ci + 1) * nbitpw ≤ npages / nbitpw * nbitpw := Nat.mul_le_mul_right _ (by omega)
      rw [succ_mul] at inMap
      rw [update_of_ne last, counts ci, if_pos (by omega)]
      change rzbmCellSize npages = _
      rw [size]
      omega
  · intro ci
    change cursors (setNfree _ _ _) ci = 0
    rw [fields_setNfree.2.2.2, fields]
    exact blank.cursors ci

theorem Fresh.moving {cells : Nat} (fresh : Fresh zbmp) (ncell : zbmp.zbmNcell = cells)
    (lastCell : (cells - 1) * zbmp.zbmCellsize < zbmp.zbmSize)
    (onPool : OnPool zbmp.zbmCell zbmp.zbmPool (range cells)) (noPsepool : zbmp.zbmPsepool = none) :
    Moving zbmp (range cells) [] 0 where
  cells := fresh.cells
  onPool := onPool
  onPsepool := ⟨trivial, noPsepool⟩
  disjoint := by simp
  positive := by
    intro ci isCell
    have before : ci * zbmp.zbmCellsize ≤ (cells - 1) * zbmp.zbmCellsize :=
      Nat.mul_le_mul_right _ (by omega)
    have positive := fresh.shape.cellsize_pos
    rw [fresh.counts ci isCell]
    omega
  moved := fun ci before => absurd before (Nat.not_lt_zero ci)
  waiting := by
    intro ci _
    rw [ncell]
    simp

theorem Fresh.clear (fresh : Fresh zbmp) (inside : i < zbmp.zbmSize) : bitAt zbmp i = false := by
  rw [fresh.bits i (inside.trans_le fresh.shape.covers), decide_eq_false]
  omega

theorem fillChunk_audit (blank : Blank zbmp) (pages : ChunkPages npages)
    (fits : base + npages ≤ 2 ^ 32) :
    SameChunk (layOut base npages cgnum zbmp) (fillChunk base npages cgnum zbmp) ∧
      (∀ i, i < npages → bitAt (fillChunk base npages cgnum zbmp) i = false) ∧
      ∃ pool psepool, Audit (fillChunk base npages cgnum zbmp) pool psepool := by
  have placed := @placed_layOut zbmp base npages cgnum blank
  have onPool := placed.onPool
  rw [Nat.zero_add] at onPool
  have lastCell := (cellCount_spec pages).2.2
  rw [fillChunk_eq]
  by_cases whole : npages % rzbmCellSize npages = 0
  · rw [if_neg (not_not_intro whole)]
    have fresh := @fresh_whole zbmp base npages cgnum blank pages fits whole
    have moving := fresh.moving placed.same.ncell
        (by rw [placed.same.cellsize, placed.same.size]; exact lastCell)
        onPool (placed.psepool.trans blank.psepool)
    obtain ⟨sameRest, sameBits, audited⟩ := movePseCells_spec moving
      ((Nat.zero_add _).trans placed.same.ncell.symm)
    refine ⟨placed.same.trans sameRest, fun i inside => ?_, audited⟩
    refine (congrArg (fun words => Bitmap.bit nbitpw words i) sameBits).trans ?_
    exact fresh.clear (by rw [placed.same.size]; exact inside)
  · rw [if_pos whole]
    have fresh := @fresh_trimmed zbmp base npages cgnum blank pages fits whole
    have trimmed := @trimLastCell_eq zbmp base npages cgnum blank pages
        (npages % rzbmCellSize npages)
    rw [trimmed] at fresh ⊢
    generalize placeCells 0 (cellCount npages) (layOut base npages cgnum zbmp) =
      chunk at placed onPool fresh
    have same := placed.same.trans (SameChunk.update chunk (Bitmap.setRange nbitpw chunk.zbmBitmap
        ((cellCount npages - 1) <<< chunk.zbmCwshft * nbitpw + npages % rzbmCellSize npages)
        (nbitpw - npages % rzbmCellSize npages))
        (setNfree chunk.zbmCell (cellCount npages - 1) (npages % rzbmCellSize npages)))
    have moving := fresh.moving same.ncell (by rw [same.cellsize, same.size]; exact lastCell)
        (onPool.congr fields_setNfree.1 fields_setNfree.2.1)
        (placed.psepool.trans blank.psepool)
    obtain ⟨sameRest, sameBits, audited⟩ := movePseCells_spec moving
      ((Nat.zero_add _).trans same.ncell.symm)
    refine ⟨same.trans sameRest, fun i inside => ?_, audited⟩
    refine (congrArg (fun words => Bitmap.bit nbitpw words i) sameBits).trans ?_
    exact fresh.clear (by rw [same.size]; exact inside)

end Filled

/-- The parts of a range make it up, and each of them fits a chunk. -/
structure CarvedWell (base npages : Nat) : Prop where
  prebase : (carve base npages).prebase = base
  middle : (carve base npages).base = base + (carve base npages).presz
  postbase : (carve base npages).postbase = (carve base npages).base + (carve base npages).npages
  ends : (carve base npages).postbase + (carve base npages).postsz = base + npages
  presz : (carve base npages).presz < pseNpages
  postsz : (carve base npages).postsz < pseNpages
  pages : (carve base npages).npages < pseNpages ∨ (carve base npages).npages % pseNpages = 0

theorem and_pseNpgoffset (value : Nat) : value &&& pseNpgoffset = value % 1024 :=
  and_two_pow_sub_one_eq_mod value 10

theorem carve_presz (long : 1024 ≤ npages) : (carve base npages).presz < 1024 ∧
    (base + (carve base npages).presz) % 1024 = 0 := by
  have presz : (carve base npages).presz =
      if base &&& pseNpgoffset ≠ 0 then
        min ((base + 1023) / 1024 * 1024 - base) npages
      else
        0 :=
    rfl
  rw [presz, and_pseNpgoffset]
  split_ifs with offset <;> omega

theorem carve_postsz (long : 1024 ≤ npages) :
    (carve base npages).postsz < 1024 ∧
      (carve base npages).postsz ≤ npages - (carve base npages).presz ∧
      (npages - (carve base npages).presz - (carve base npages).postsz < 1024 ∨
        (npages - (carve base npages).presz - (carve base npages).postsz) % 1024 = 0) := by
  obtain ⟨short, aligned⟩ := @carve_presz base npages long
  have postsz : (carve base npages).postsz =
      if npages - (carve base npages).presz > 1024 then
        (base + (carve base npages).presz + (npages - (carve base npages).presz)) &&& pseNpgoffset
      else
        0 :=
    rfl
  rw [postsz, and_pseNpgoffset]
  split_ifs with larger <;> omega

theorem carve_spec (long : pseNpages ≤ npages) : CarvedWell base npages := by
  simp only [pseNpages] at long
  obtain ⟨preShort, aligned⟩ := @carve_presz base npages long
  obtain ⟨postShort, postFits, rest⟩ := @carve_postsz base npages long
  have middle : (carve base npages).npages = npages - (carve base npages).presz -
      (carve base npages).postsz :=
    rfl
  have post : (carve base npages).postbase = base + (carve base npages).presz +
      (npages - (carve base npages).presz - (carve base npages).postsz) :=
    rfl
  exact
    { prebase := rfl
      middle := rfl
      postbase := rfl
      ends := by omega
      presz := preShort
      postsz := postShort
      pages := by exact rest }

end Uw7.Rzbm
