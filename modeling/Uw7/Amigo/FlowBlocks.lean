import Mathlib.Data.List.Count
import Uw7.Amigo.FlowEdges

/-!
# The blocks of a queue

When the pass is over, the last block ends with the last item.  The blocks then
hold every item that is kept, each of them in one block, and a label stands
where control enters its block.
-/

namespace Uw7.Amigo.Flow

variable {size : Nat} {itemAt : Nat → CgqItem}

/-- A block among others holds a position. -/
def Holds (blocks : Nat → Block) (count number position : Nat) : Prop :=
  1 ≤ number ∧ number ≤ count ∧ (blocks number).first ≤ position ∧ position ≤ (blocks number).last

structure NextKept (size : Nat) (deleted : Nat → Bool) (position next : Nat) : Prop where
  later : position < next
  within : next < size
  kept : deleted next = false
  between : ∀ other, position < other → other < next → deleted other = true

variable {position other number : Nat}

theorem NextKept.unique {deleted : Nat → Bool} {next : Nat}
    (one : NextKept size deleted position next) (two : NextKept size deleted position other) :
    next = other := by
  rcases Nat.lt_trichotomy next other with before | same | behind
  · have gone := two.between next one.later before
    rw [one.kept] at gone
    cases gone
  · exact same
  · have gone := one.between other two.later behind
    rw [two.kept] at gone
    cases gone

/-- The pass over the whole queue. -/
def wholeScan (size : Nat) (itemAt : Nat → CgqItem) : Scan := (scanItems itemAt size).finish

section

variable (wellFormed : WellFormed size itemAt)
include wellFormed

theorem lastBlock : (scanItems itemAt size).current.first < size ∧
      (scanItems itemAt size).lastIndex = size - 1 := by
  obtain ⟨some1, item⟩ := wellFormed.ends
  obtain ⟨before, rfl⟩ : ∃ before, size = before + 1 := ⟨size - 1, by omega⟩
  have began := (layout_scanItems itemAt before).began
  have step : scanItems itemAt (before + 1) =
      { scanItems itemAt before with lastIndex := before } := by
    have item' : itemAt before = .other := item
    simp [scanItems, Scan.step, Scan.item, item', CgqItem.hasNd1]
  rw [step]
  exact ⟨Nat.lt_succ_of_le began, rfl⟩

theorem blocks_wholeScan (number : Nat) : (wholeScan size itemAt).blocks number =
      { (scanItems itemAt size).blocks number with
        last :=
          if number = (scanItems itemAt size).count then size - 1
          else ((scanItems itemAt size).blocks number).last } := by
  unfold wholeScan Scan.finish
  by_cases current : number = (scanItems itemAt size).count
  · subst current
    simp [Scan.current, (lastBlock wellFormed).2]
  · simp [current]

theorem last_lt_first_wholeScan (from1 : 1 ≤ number) (below : number < other)
    (within : other ≤ (scanItems itemAt size).count) :
    ((wholeScan size itemAt).blocks number).last <
      ((wholeScan size itemAt).blocks other).first := by
  rw [blocks_wholeScan wellFormed, blocks_wholeScan wellFormed other]
  rw [if_neg (by omega)]
  exact (layout_scanItems itemAt size).last_lt_first from1 below within

theorem Holds.unique
    (one : Holds (wholeScan size itemAt).blocks (scanItems itemAt size).count number position)
    (two : Holds (wholeScan size itemAt).blocks (scanItems itemAt size).count other position) :
    number = other := by
  obtain ⟨from1, within, first, last⟩ := one
  obtain ⟨from1', within', first', last'⟩ := two
  rcases Nat.lt_trichotomy number other with before | same | behind
  · have apart := last_lt_first_wholeScan wellFormed from1 before within'
    omega
  · exact same
  · have apart := last_lt_first_wholeScan wellFormed from1' behind within
    omega

end

theorem span_wholeScan (wellFormed : WellFormed size itemAt) {number : Nat} (from1 : 1 ≤ number)
    (within : number ≤ (scanItems itemAt size).count) :
    ((wholeScan size itemAt).blocks number).first ≤ ((wholeScan size itemAt).blocks number).last ∧
      ((wholeScan size itemAt).blocks number).last < size ∧
      (scanItems itemAt size).deleted ((wholeScan size itemAt).blocks number).first = false ∧
      (scanItems itemAt size).deleted ((wholeScan size itemAt).blocks number).last = false := by
  have layout := layout_scanItems itemAt size
  obtain ⟨begun, lastIndex⟩ := lastBlock wellFormed
  rw [blocks_wholeScan wellFormed]
  by_cases current : number = (scanItems itemAt size).count
  · subst current
    obtain ⟨firstKept, ordered, _, lastKept, _⟩ := layout.going begun
    rw [lastIndex] at ordered lastKept
    rw [if_pos rfl]
    exact ⟨ordered, by simp only; omega, firstKept, lastKept⟩
  · rw [if_neg current]
    have below : number < (scanItems itemAt size).count := by omega
    have closed := layout.closed number from1 below
    have ends := layout.last_lt_first from1 below le_rfl
    exact ⟨closed.ordered, lt_trans ends begun, closed.firstKept, closed.lastKept⟩

theorem nextKept_wholeScan (wellFormed : WellFormed size itemAt) (from1 : 1 ≤ number)
    (below : number < (scanItems itemAt size).count) :
    NextKept size (scanItems itemAt size).deleted ((wholeScan size itemAt).blocks number).last
      ((wholeScan size itemAt).blocks (number + 1)).first := by
  have closed := (layout_scanItems itemAt size).closed number from1 below
  obtain ⟨ordered, within, kept, _⟩ :=
    @span_wholeScan size itemAt wellFormed (number + 1) (by omega) below
  refine ⟨last_lt_first_wholeScan wellFormed from1 (by omega) below, by omega, kept, ?_⟩
  rw [blocks_wholeScan wellFormed, blocks_wholeScan wellFormed (number + 1)]
  rw [if_neg (by omega)]
  exact closed.gap

section

variable (wellFormed : WellFormed size itemAt) (within : position < size)
include wellFormed within

theorem holds_of_kept (kept : (scanItems itemAt size).deleted position = false) :
    ∃ number, Holds (wholeScan size itemAt).blocks (scanItems itemAt size).count
      number position := by
  have layout := layout_scanItems itemAt size
  -- on the blocks: the position stands behind a block's first item, or before
  have upTo (number : Nat) (from1 : 1 ≤ number) (below : number ≤ (scanItems itemAt size).count) :
      ((wholeScan size itemAt).blocks number).first ≤ position ∨ ∃ number,
        Holds (wholeScan size itemAt).blocks (scanItems itemAt size).count number position := by
    induction number, from1 using Nat.le_induction with
    | base =>
      left
      by_contra early
      have gone := layout.before position (by
          rw [blocks_wholeScan wellFormed] at early
          exact not_le.1 early)
      rw [kept] at gone
      cases gone
    | succ number from1 ih =>
      rcases ih (by omega) with begins | held
      · by_cases ends : position ≤ ((wholeScan size itemAt).blocks number).last
        · exact .inr ⟨number, from1, by omega, begins, ends⟩
        · left
          by_contra early
          have gone := (nextKept_wholeScan wellFormed from1 below).between position
              (by omega) (by omega)
          rw [kept] at gone
          cases gone
      · exact .inr held
  rcases upTo _ layout.some1 le_rfl with begins | held
  · refine ⟨(scanItems itemAt size).count, layout.some1, le_rfl, begins, ?_⟩
    rw [blocks_wholeScan wellFormed, if_pos rfl]
    exact Nat.le_sub_one_of_lt within
  · exact held

theorem exits_wholeScan (transfers : (itemAt position).transfers = true) :
    ∃ number, 1 ≤ number ∧ number < (scanItems itemAt size).count ∧
      position = ((wholeScan size itemAt).blocks number).last := by
  obtain ⟨number, from1, below, ends⟩ :=
    (layout_scanItems itemAt size).exits position within transfers
  refine ⟨number, from1, below, ?_⟩
  rw [blocks_wholeScan wellFormed, if_neg (by omega)]
  exact ends

theorem holds_of_entry (kept : (scanItems itemAt size).deleted position = false)
    (entry : Entry itemAt (scanItems itemAt size) number position) :
    Holds (wholeScan size itemAt).blocks (scanItems itemAt size).count number position ∧
      (position = ((wholeScan size itemAt).blocks number).first ∨
        itemAt ((wholeScan size itemAt).blocks number).first = .setlocctrInt ∧
          NextKept size (scanItems itemAt size).deleted
            ((wholeScan size itemAt).blocks number).first position) := by
  obtain ⟨from1, below, place, ends⟩ := entry
  unfold Holds
  rw [blocks_wholeScan wellFormed]
  refine ⟨⟨from1, below, ?_, ?_⟩, ?_⟩
  · rcases place with here | ⟨_, behind, _⟩
    · exact le_of_eq here.symm
    · exact le_of_lt behind
  · by_cases current : number = (scanItems itemAt size).count
    · rw [if_pos current]
      exact Nat.le_sub_one_of_lt within
    · rw [if_neg current]
      exact ends (by omega)
  · rcases place with here | ⟨counter, behind, gap⟩
    · exact .inl here
    · exact .inr ⟨counter, behind, within, kept, gap⟩

end

end Uw7.Amigo.Flow
