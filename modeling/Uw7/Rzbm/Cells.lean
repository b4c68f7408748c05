import Uw7.Lib.Ring

namespace Uw7.Rzbm

/-!
# Cells of a zoned bitmap and their lists

`rzbm_add_cell` and `rzbm_del_cell` from `mem/vm_rzbm.c`.  A cell is addressed
by its index in `zbm_cell`, and the links of a cell lead to cells of the same
chunk.
-/

open Lib Function List

structure RzbmCell where
  zbcNfree : Nat
  zbcCursor : Nat
  zbcFlink : Nat
  zbcBlink : Nat

/-- The cells of a chunk. -/
abbrev RzbmCells := Nat → RzbmCell

def setFlink (cells : RzbmCells) (cellp target : Nat) : RzbmCells :=
  update cells cellp { cells cellp with zbcFlink := target }

def setBlink (cells : RzbmCells) (cellp target : Nat) : RzbmCells :=
  update cells cellp { cells cellp with zbcBlink := target }

def setNfree (cells : RzbmCells) (cellp nfree : Nat) : RzbmCells :=
  update cells cellp { cells cellp with zbcNfree := nfree }

def setCursor (cells : RzbmCells) (cellp cursor : Nat) : RzbmCells :=
  update cells cellp { cells cellp with zbcCursor := cursor }

/-- `rzbm_add_cell`; the list head and the cells are returned. -/
def rzbmAddCell (pool : Option Nat) (cells : RzbmCells) (cellp : Nat) : Option Nat × RzbmCells :=
  match pool with
  | none => (some cellp, setBlink (setFlink cells cellp cellp) cellp cellp)
  | some head =>
    let next := head
    let last := (cells head).zbcBlink
    let cells := setBlink cells next cellp
    let cells := setFlink cells last cellp
    let cells := setFlink cells cellp next
    (some head, setBlink cells cellp last)

/-- The first part of `rzbm_del_cell`, before the cell is linked to itself. -/
def rzbmUnlinkCell (pool : Option Nat) (cells : RzbmCells) (cellp : Nat) : Option Nat × RzbmCells :=
  if (cells cellp).zbcFlink = cellp then
    (none, cells)
  else
    let next := (cells cellp).zbcFlink
    let last := (cells cellp).zbcBlink
    let cells := setBlink cells next last
    let cells := setFlink cells last next
    if pool = some cellp then
      (some (cells cellp).zbcFlink, cells)
    else
      (pool, cells)

/-- `rzbm_del_cell`; the list head and the cells are returned. -/
def rzbmDelCell (pool : Option Nat) (cells : RzbmCells) (cellp : Nat) : Option Nat × RzbmCells :=
  let unlinked := rzbmUnlinkCell pool cells cellp
  (unlinked.1, setBlink (setFlink unlinked.2 cellp cellp) cellp cellp)

/-- The forward links of all cells. -/
def flinks (cells : RzbmCells) : Nat → Nat := fun cellp => (cells cellp).zbcFlink

/-- The backward links of all cells. -/
def blinks (cells : RzbmCells) : Nat → Nat := fun cellp => (cells cellp).zbcBlink

/-- The counts of all cells. -/
def nfrees (cells : RzbmCells) : Nat → Nat := fun cellp => (cells cellp).zbcNfree

def cursors (cells : RzbmCells) : Nat → Nat := fun cellp => (cells cellp).zbcCursor

section Fields

variable {cells : RzbmCells} {cellp target : Nat}

theorem field_update (field : RzbmCell → Nat) (cell : RzbmCell) :
    (fun other => field (update cells cellp cell other)) =
      update (fun other => field (cells other)) cellp (field cell) :=
  comp_update field cells cellp cell

theorem field_update_same (field : RzbmCell → Nat) (cell : RzbmCell)
    (same : field cell = field (cells cellp)) :
    (fun other => field (update cells cellp cell other)) = fun other => field (cells other) := by
  rw [field_update, same]
  exact update_eq_self cellp fun other => field (cells other)

@[simp] theorem fields_setFlink :
    flinks (setFlink cells cellp target) = update (flinks cells) cellp target ∧
      blinks (setFlink cells cellp target) = blinks cells ∧
      nfrees (setFlink cells cellp target) = nfrees cells ∧
      cursors (setFlink cells cellp target) = cursors cells :=
  ⟨field_update RzbmCell.zbcFlink _, field_update_same RzbmCell.zbcBlink _ rfl,
    field_update_same RzbmCell.zbcNfree _ rfl, field_update_same RzbmCell.zbcCursor _ rfl⟩

@[simp] theorem fields_setBlink :
    flinks (setBlink cells cellp target) = flinks cells ∧
      blinks (setBlink cells cellp target) = update (blinks cells) cellp target ∧
      nfrees (setBlink cells cellp target) = nfrees cells ∧
      cursors (setBlink cells cellp target) = cursors cells :=
  ⟨field_update_same RzbmCell.zbcFlink _ rfl, field_update RzbmCell.zbcBlink _,
    field_update_same RzbmCell.zbcNfree _ rfl, field_update_same RzbmCell.zbcCursor _ rfl⟩

@[simp] theorem fields_setNfree :
    flinks (setNfree cells cellp target) = flinks cells ∧
      blinks (setNfree cells cellp target) = blinks cells ∧
      nfrees (setNfree cells cellp target) = update (nfrees cells) cellp target ∧
      cursors (setNfree cells cellp target) = cursors cells :=
  ⟨field_update_same RzbmCell.zbcFlink _ rfl, field_update_same RzbmCell.zbcBlink _ rfl,
    field_update RzbmCell.zbcNfree _, field_update_same RzbmCell.zbcCursor _ rfl⟩

@[simp] theorem fields_setCursor :
    flinks (setCursor cells cellp target) = flinks cells ∧
      blinks (setCursor cells cellp target) = blinks cells ∧
      nfrees (setCursor cells cellp target) = nfrees cells ∧
      cursors (setCursor cells cellp target) = update (cursors cells) cellp target :=
  ⟨field_update_same RzbmCell.zbcFlink _ rfl, field_update_same RzbmCell.zbcBlink _ rfl,
    field_update_same RzbmCell.zbcNfree _ rfl, field_update RzbmCell.zbcCursor _⟩

end Fields

variable {pool : Option Nat} {cells : RzbmCells} {cellp : Nat} {nodes : List Nat}

/-- A list head leads to a ring of cells. -/
structure OnPool (cells : RzbmCells) (pool : Option Nat) (nodes : List Nat) : Prop where
  ring : Ring.IsRing (flinks cells) (blinks cells) nodes
  head : pool = nodes.head?

theorem rzbmAddCell_counts (pool : Option Nat) (cells : RzbmCells) (cellp : Nat) :
    nfrees (rzbmAddCell pool cells cellp).2 = nfrees cells ∧
      cursors (rzbmAddCell pool cells cellp).2 = cursors cells := by
  cases pool with
  | none => simp [rzbmAddCell]
  | some head => simp [rzbmAddCell]

theorem rzbmDelCell_counts (pool : Option Nat) (cells : RzbmCells) (cellp : Nat) :
    nfrees (rzbmDelCell pool cells cellp).2 = nfrees cells ∧
      cursors (rzbmDelCell pool cells cellp).2 = cursors cells := by
  unfold rzbmDelCell rzbmUnlinkCell
  split_ifs <;> simp

theorem rzbmAddCell_links (head : Nat) : flinks (rzbmAddCell (some head) cells cellp).2 =
    Ring.addFlink (flinks cells) (blinks cells) head cellp ∧
    blinks (rzbmAddCell (some head) cells cellp).2 = Ring.addBlink (blinks cells) head cellp := by
  simp only [rzbmAddCell, fields_setBlink, fields_setFlink]
  exact ⟨rfl, rfl⟩

theorem OnPool.add (onPool : OnPool cells pool nodes) (fresh : cellp ∉ nodes) :
    OnPool (rzbmAddCell pool cells cellp).2 (rzbmAddCell pool cells cellp).1
      (nodes ++ [cellp]) := by
  obtain ⟨ring, rfl⟩ := onPool
  cases nodes with
  | nil =>
    refine ⟨⟨nodup_singleton _, ?_, ?_⟩, rfl⟩
    · simp [rzbmAddCell]
    · simp [rzbmAddCell]
  | cons head rest =>
    obtain ⟨forward, backward⟩ := @rzbmAddCell_links cells cellp head
    refine ⟨?_, rfl⟩
    rw [List.head?_cons, forward, backward]
    exact ring.add fresh

theorem OnPool.add_other {otherPool : Option Nat} {others : List Nat}
    (onPool : OnPool cells pool nodes) (other : OnPool cells otherPool others)
    (disjoint : ∀ node ∈ others, node ∉ nodes) (fresh : cellp ∉ others) :
    OnPool (rzbmAddCell pool cells cellp).2 otherPool others := by
  refine ⟨?_, other.head⟩
  have notCell : ∀ node ∈ others, node ≠ cellp := by
    rintro node member rfl
    exact fresh member
  obtain ⟨ring, rfl⟩ := onPool
  cases nodes with
  | nil =>
    refine other.ring.congr (fun node member => ?_) fun node member => ?_
    · simp [rzbmAddCell, notCell node member]
    · simp [rzbmAddCell, notCell node member]
  | cons head rest =>
    obtain ⟨forward, backward⟩ := @rzbmAddCell_links cells cellp head
    have lastMember : blinks cells head ∈ head :: rest := ring.blink_mem (mem_cons_self ..)
    rw [List.head?_cons, forward, backward]
    refine other.ring.congr (fun node member => ?_) fun node member => ?_
    · have notLast : node ≠ blinks cells head := by
        rintro rfl
        exact disjoint _ member lastMember
      rw [Ring.addFlink, update_of_ne (notCell node member), update_of_ne notLast]
    · have notHead : node ≠ head := by
        rintro rfl
        exact disjoint _ member (mem_cons_self ..)
      rw [Ring.addBlink, update_of_ne (notCell node member), update_of_ne notHead]

theorem rzbmDelCell_links (ring : Ring.IsRing (flinks cells) (blinks cells) nodes)
    (member : cellp ∈ nodes) :
    flinks (rzbmDelCell pool cells cellp).2 = Ring.unlinkFlink (flinks cells) (blinks cells) cellp ∧
      blinks (rzbmDelCell pool cells cellp).2 =
        Ring.unlinkBlink (flinks cells) (blinks cells) cellp := by
  by_cases alone : (cells cellp).zbcFlink = cellp
  · have single : nodes = [cellp] := (ring.flink_eq_self member).mp alone
    subst nodes
    have backward : blinks cells cellp = cellp := ring.2.2
    simp only [rzbmDelCell, rzbmUnlinkCell, if_pos alone, fields_setBlink, fields_setFlink]
    have forward : flinks cells cellp = cellp := alone
    refine ⟨?_, ?_⟩
    · rw [Ring.unlinkFlink, backward, forward, update_idem]
    · rw [Ring.unlinkBlink, backward, forward, update_idem]
  · have links : flinks (rzbmUnlinkCell pool cells cellp).2 =
        update (flinks cells) (blinks cells cellp) (flinks cells cellp) ∧
        blinks (rzbmUnlinkCell pool cells cellp).2 =
          update (blinks cells) (flinks cells cellp) (blinks cells cellp) := by
      simp only [rzbmUnlinkCell, if_neg alone]
      split_ifs <;> simp only [fields_setFlink, fields_setBlink] <;> exact ⟨rfl, rfl⟩
    simp only [rzbmDelCell, fields_setBlink, fields_setFlink, links]
    exact ⟨rfl, rfl⟩

section

variable (onPool : OnPool cells pool nodes)
include onPool

theorem OnPool.del_head (member : cellp ∈ nodes) :
    (rzbmDelCell pool cells cellp).1 = (nodes.erase cellp).head? := by
  obtain ⟨ring, rfl⟩ := onPool
  by_cases alone : (cells cellp).zbcFlink = cellp
  · have single : nodes = [cellp] := (ring.flink_eq_self member).mp alone
    subst nodes
    simp [rzbmDelCell, rzbmUnlinkCell, alone]
  · cases nodes with
    | nil => cases member
    | cons head rest =>
      by_cases isHead : head = cellp
      · subst head
        cases rest with
        | nil => exact absurd ((ring.flink_eq_self member).mpr rfl) alone
        | cons following rest =>
          have forward : flinks cells cellp = following := ring.flink_head
          have notSelf : blinks cells cellp ≠ cellp := by
            intro same
            have inRest : blinks cells cellp ∈ following :: rest := ring.2.2.2.blink_mem
            rw [same] at inRest
            exact (nodup_cons.mp ring.1).1 inRest
          rw [erase_cons_head]
          simp only [rzbmDelCell, rzbmUnlinkCell, if_neg alone, List.head?_cons, if_true]
          have kept : flinks (setFlink (setBlink cells (cells cellp).zbcFlink
              (cells cellp).zbcBlink)
              (cells cellp).zbcBlink (cells cellp).zbcFlink)
              cellp =
              flinks cells cellp := by
            simp only [fields_setFlink, fields_setBlink]
            exact update_of_ne notSelf.symm _ _
          exact congrArg some (kept.trans forward)
      · have notHead : ¬ some head = some cellp := by
          simpa using isHead
        rw [erase_cons_tail (by simpa using isHead)]
        simp only [rzbmDelCell, rzbmUnlinkCell, if_neg alone, List.head?_cons]
        exact congrArg Prod.fst (if_neg notHead)

theorem OnPool.del (member : cellp ∈ nodes) :
    OnPool (rzbmDelCell pool cells cellp).2 (rzbmDelCell pool cells cellp).1
      (nodes.erase cellp) := by
  obtain ⟨forward, backward⟩ := @rzbmDelCell_links pool cells cellp nodes onPool.ring member
  refine ⟨?_, onPool.del_head member⟩
  rw [forward, backward]
  exact onPool.ring.unlink member

theorem OnPool.del_other {otherPool : Option Nat} {others : List Nat}
    (other : OnPool cells otherPool others)
    (disjoint : ∀ node ∈ others, node ∉ nodes) (member : cellp ∈ nodes) :
    OnPool (rzbmDelCell pool cells cellp).2 otherPool others := by
  refine ⟨?_, other.head⟩
  obtain ⟨forward, backward⟩ := @rzbmDelCell_links pool cells cellp nodes onPool.ring member
  have apart : ∀ node ∈ others, ∀ inList ∈ nodes, node ≠ inList := by
    rintro node isOther inList isNode rfl
    exact disjoint node isOther isNode
  rw [forward, backward]
  refine other.ring.congr (fun node isOther => ?_) fun node isOther => ?_
  · rw [Ring.unlinkFlink, update_of_ne (apart node isOther _ member), update_of_ne
      (apart node isOther _ (onPool.ring.blink_mem member))]
  · rw [Ring.unlinkBlink, update_of_ne (apart node isOther _ member), update_of_ne
      (apart node isOther _ (onPool.ring.flink_mem member))]

theorem OnPool.congr {cells' : RzbmCells}
    (sameForward : flinks cells' = flinks cells) (sameBackward : blinks cells' = blinks cells) :
    OnPool cells' pool nodes :=
  ⟨sameForward ▸ sameBackward ▸ onPool.ring, onPool.head⟩

end

end Uw7.Rzbm
