import Uw7.Amigo.FlowQueue

/-!
# How the pass lays out the blocks

The blocks partition the items that are kept; items that pass control only end
blocks; and a block has the next one for successor when control falls through
its last item.
-/

namespace Uw7.Amigo.Flow

open List

/-- The items that pass control on. -/
def CgqItem.transfers : CgqItem → Bool
  | .cbranch _ | .jump _ | .swend _ _ | .ret => true
  | _ => false

/-- Control may go on behind an item. -/
def CgqItem.falls : CgqItem → Bool
  | .jump _ | .ret | .swend _ (some _) => false
  | _ => true

/-- The markers the pass may delete. -/
def CgqItem.isMarker : CgqItem → Bool
  | .dbSBlock | .dbEBlock => true
  | _ => false

def branchesOf (item : CgqItem) (block place : Nat) : List BranchDescriptor :=
  match item with
  | .cbranch label => [⟨label, block, .cbranch, place⟩]
  | .jump label => [⟨label, block, .jump, place⟩]
  | .swend cases default? =>
    cases.map (fun label => ⟨label, block, .swcase, place⟩) ++
      default?.toList.map fun label => ⟨label, block, .swend, place⟩
  | _ => []

/-- A block that has ended. -/
structure ClosedBlock (scan : Scan) (number : Nat) : Prop where
  ordered : (scan.blocks number).first ≤ (scan.blocks number).last
  firstKept : scan.deleted (scan.blocks number).first = false
  lastKept : scan.deleted (scan.blocks number).last = false
  below : (scan.blocks number).last < (scan.blocks (number + 1)).first
  gap : ∀ position, (scan.blocks number).last < position →
      position < (scan.blocks (number + 1)).first → scan.deleted position = true

/-- The edge by which control falls from a block to the next. -/
def FallsThrough (itemAt : Nat → CgqItem) (scan : Scan) (number : Nat) : Prop :=
  (scan.blocks number).succ = (if (itemAt (scan.blocks number).last).falls then [number + 1]
      else []) ∧
    (scan.blocks (number + 1)).pred =
      (if (itemAt (scan.blocks number).last).falls then [number] else [])

/-- The numbers of the blocks that have ended. -/
def Scan.closedBlocks (scan : Scan) : List Nat := range' 1 (scan.count - 1)

/-- The layout of the blocks after the first items. -/
structure Layout (itemAt : Nat → CgqItem) (index : Nat) (scan : Scan) : Prop where
  some1 : 1 ≤ scan.count
  before : ∀ position, position < (scan.blocks 1).first → scan.deleted position = true
  closed : ∀ number, 1 ≤ number → number < scan.count → ClosedBlock scan number
  began : scan.current.first ≤ index
  going : scan.current.first < index → scan.deleted scan.current.first = false ∧
      scan.current.first ≤ scan.lastIndex ∧ scan.lastIndex < index ∧
      scan.deleted scan.lastIndex = false ∧
      ∀ position, scan.lastIndex < position → position < index → scan.deleted position = true
  marker : ∀ position, scan.deleted position = true →
      position < index ∧ (itemAt position).isMarker = true
  exits : ∀ position, position < index → (itemAt position).transfers = true →
      ∃ number, 1 ≤ number ∧ number < scan.count ∧ position = (scan.blocks number).last
  edges : ∀ number, 1 ≤ number → number < scan.count → FallsThrough itemAt scan number
  firstPred : (scan.blocks 1).pred = []
  currentSucc : scan.current.succ = []
  branches : scan.branches = scan.closedBlocks.flatMap fun number =>
      branchesOf (itemAt (scan.blocks number).last) number (scan.blocks number).last

theorem Layout.congr {itemAt : Nat → CgqItem} {index : Nat} {scan other : Scan}
    (layout : Layout itemAt index scan) (sameBlocks : other.blocks = scan.blocks)
    (sameCount : other.count = scan.count) (sameLast : other.lastIndex = scan.lastIndex)
    (sameBranches : other.branches = scan.branches) (sameDeleted : other.deleted = scan.deleted) :
    Layout itemAt index other := by
  obtain ⟨_, _, curly', seen', _, table', _, _⟩ := other
  simp only at sameBlocks sameCount sameLast sameBranches sameDeleted
  subst sameBlocks sameCount sameLast sameBranches sameDeleted
  exact
    { layout with
      closed := fun number from1 below =>
        ⟨(layout.closed number from1 below).ordered, (layout.closed number from1 below).firstKept,
          (layout.closed number from1 below).lastKept, (layout.closed number from1 below).below,
          (layout.closed number from1 below).gap⟩ }

theorem layout_start (itemAt : Nat → CgqItem) : Layout itemAt 0 Scan.start where
  some1 := le_refl _
  before := by simp [Scan.start]
  closed := by
    intro number from1 below
    simp only [Scan.start] at below
    omega
  began := le_refl _
  going := by simp [Scan.start, Scan.current]
  marker := by simp [Scan.start]
  exits := by simp
  edges := by
    intro number from1 below
    simp only [Scan.start] at below
    omega
  firstPred := rfl
  currentSucc := rfl
  branches := rfl

section

variable (scan : Scan) (last : Nat) (falls : Bool) (index : Nat)
include scan last falls index

@[simp] theorem blocks_newBlock_self : (scan.newBlock last falls index).blocks scan.count =
    { scan.current with
      last := last
      succ := if falls then [scan.count + 1] else scan.current.succ } := by
  simp [Scan.newBlock, Scan.current]

@[simp] theorem blocks_newBlock_next : (scan.newBlock last falls index).blocks (scan.count + 1) =
    ⟨index, index, [], if falls then [scan.count] else []⟩ := by
  simp [Scan.newBlock]

@[simp] theorem deleted_newBlock : (scan.newBlock last falls index).deleted = scan.deleted := rfl

@[simp] theorem count_newBlock : (scan.newBlock last falls index).count = scan.count + 1 := rfl

end

variable {number index : Nat} {scan : Scan} {itemAt : Nat → CgqItem}

theorem blocks_newBlock_before (scan : Scan) (last : Nat) (falls : Bool) (index : Nat)
    (below : number < scan.count) :
    (scan.newBlock last falls index).blocks number = scan.blocks number := by
  have notLast : number ≠ scan.count := by omega
  have notNext : number ≠ scan.count + 1 := by omega
  simp [Scan.newBlock, notLast, notNext]

theorem first_newBlock (scan : Scan) (last : Nat) (falls : Bool) (index : Nat)
    (within : number ≤ scan.count) :
    ((scan.newBlock last falls index).blocks number).first = (scan.blocks number).first := by
  rcases eq_or_lt_of_le within with rfl | below
  · simp [Scan.current]
  · rw [blocks_newBlock_before scan last falls index below]

theorem pred_newBlock (scan : Scan) (last : Nat) (falls : Bool) (index : Nat)
    (within : number ≤ scan.count) :
    ((scan.newBlock last falls index).blocks number).pred = (scan.blocks number).pred := by
  rcases eq_or_lt_of_le within with rfl | below
  · simp [Scan.current]
  · rw [blocks_newBlock_before scan last falls index below]

theorem ClosedBlock.newBlock (closed : ClosedBlock scan number) (below : number < scan.count)
    (last : Nat) (falls : Bool) (index : Nat) (entered : List BranchDescriptor) : ClosedBlock
      { scan.newBlock last falls index with
        branches := scan.branches ++ entered } number := by
  have same := blocks_newBlock_before scan last falls index below
  have next : number + 1 ≤ scan.count := below
  have begins := first_newBlock scan last falls index next
  constructor
  · simpa only [same] using closed.ordered
  · simpa only [same, deleted_newBlock] using closed.firstKept
  · simpa only [same, deleted_newBlock] using closed.lastKept
  · simpa only [same, begins] using closed.below
  · simpa only [same, begins, deleted_newBlock] using closed.gap

/-- The current block ends with its last item, and the next one begins. -/
theorem Layout.close {next last : Nat} (layout : Layout itemAt index scan)
    (ordered : scan.current.first ≤ last) (firstKept : scan.deleted scan.current.first = false)
    (lastKept : scan.deleted last = false) (below : last < next)
    (gap : ∀ position, last < position → position < next → scan.deleted position = true)
    (further : index ≤ next) (onlyExit : ∀ position, index ≤ position → position < next →
      (itemAt position).transfers = true → position = last) :
    Layout itemAt next
      { scan.newBlock last (itemAt last).falls next with
        branches := scan.branches ++ branchesOf (itemAt last) scan.count last } := by
  have counted := layout.some1
  refine
    { some1 := Nat.le_add_left 1 scan.count
      before := ?_, closed := ?_, began := ?_, going := ?_, marker := ?_,
      exits := ?_, edges := ?_, firstPred := ?_, currentSucc := ?_,
      branches := ?_ }
  · simp only [first_newBlock scan last _ next counted]
    exact layout.before
  · intro number from1 within
    rcases Nat.lt_or_eq_of_le (Nat.lt_succ_iff.1 within) with
      earlier | rfl
    · exact (layout.closed number from1 earlier).newBlock earlier _ _ _ _
    · constructor
      · simpa using ordered
      · simpa using firstKept
      · simpa using lastKept
      · simpa using below
      · simpa using gap
  · simp [Scan.newBlock, Scan.current]
  · intro entered
    simp [Scan.newBlock, Scan.current] at entered
  · intro position deleted
    obtain ⟨seen, marked⟩ := layout.marker position deleted
    exact ⟨lt_of_lt_of_le seen further, marked⟩
  · intro position seen transfers
    by_cases old : position < index
    · obtain ⟨number, from1, within, ends⟩ := layout.exits position old transfers
      refine ⟨number, from1, Nat.lt_succ_of_lt within, ?_⟩
      simp only [blocks_newBlock_before scan last _ next within]
      exact ends
    · refine ⟨scan.count, counted, Nat.lt_succ_self _, ?_⟩
      simpa using onlyExit position (not_lt.1 old) seen transfers
  · intro number from1 within
    rcases Nat.lt_or_eq_of_le (Nat.lt_succ_iff.1 within) with
      earlier | rfl
    · have edge := layout.edges number from1 earlier
      unfold FallsThrough at edge ⊢
      simp only [blocks_newBlock_before scan last _ next earlier,
        pred_newBlock scan last _ next earlier]
      exact edge
    · unfold FallsThrough
      simp only [blocks_newBlock_self, blocks_newBlock_next, layout.currentSucc, and_self]
  · simp only [pred_newBlock scan last _ next counted]
    exact layout.firstPred
  · simp [Scan.newBlock, Scan.current]
  · have numbers : range' 1 scan.count = scan.closedBlocks ++ [scan.count] := by
      obtain ⟨before, same⟩ : ∃ before, scan.count = before + 1 := ⟨scan.count - 1, by omega⟩
      rw [Scan.closedBlocks, same, Nat.add_sub_cancel, range'_concat]
      congr 2
      omega
    simp only [Scan.closedBlocks, Scan.newBlock, Nat.add_sub_cancel] at numbers ⊢
    rw [numbers, flatMap_append, layout.branches]
    congr 1
    · apply flatMap_congr
      intro number member
      have within : number < scan.count := by
        have range := mem_range'_1.1 member
        omega
      have same := blocks_newBlock_before scan last (itemAt last).falls next within
      simp only [Scan.newBlock] at same
      rw [same]
    · simp

theorem Layout.last_lt_first (layout : Layout itemAt index scan) {one other : Nat} (from1 : 1 ≤ one)
    (less : one < other) (within : other ≤ scan.count) :
    (scan.blocks one).last < (scan.blocks other).first := by
  induction other with
  | zero => omega
  | succ other ih =>
    rcases Nat.lt_or_eq_of_le (Nat.lt_succ_iff.1 less) with between | rfl
    · have earlier := ih between (by omega)
      have closed := layout.closed other (by omega) (by omega)
      exact lt_of_lt_of_le earlier (le_trans closed.ordered (le_of_lt closed.below))
    · exact (layout.closed one from1 (by omega)).below

theorem Layout.lastIndex_stays (layout : Layout itemAt index scan)
    (begun : scan.current.first < index) : (itemAt scan.lastIndex).transfers = false := by
  obtain ⟨_, ordered, seen, _, _⟩ := layout.going begun
  by_contra transfers
  obtain ⟨number, from1, below, ends⟩ :=
    layout.exits scan.lastIndex seen (Bool.eq_true_of_not_eq_false transfers)
  have early := layout.last_lt_first from1 below le_rfl
  rw [← ends] at early
  exact absurd ordered (not_le.2 early)

theorem falls_of_stays {item : CgqItem} (stays : item.transfers = false) (block place : Nat) :
    item.falls = true ∧ branchesOf item block place = [] := by
  cases item <;> simp_all [CgqItem.transfers, CgqItem.falls, branchesOf]

theorem Layout.cut (layout : Layout itemAt index scan) (begun : scan.current.first < index) :
    Layout itemAt index (scan.newBlock scan.lastIndex true index) := by
  obtain ⟨firstKept, ordered, seen, lastKept, gap⟩ := layout.going begun
  obtain ⟨falls, noBranch⟩ :=
    falls_of_stays (layout.lastIndex_stays begun) scan.count scan.lastIndex
  have closed := layout.close ordered firstKept lastKept seen gap le_rfl
      (fun position from' below _ => absurd below (not_lt.2 from'))
  rw [falls, noBranch, append_nil] at closed
  exact closed.congr rfl rfl rfl rfl rfl

theorem Layout.transfer (layout : Layout itemAt index scan) : Layout itemAt (index + 1)
    { scan.newBlock index (itemAt index).falls (index + 1) with
      branches := scan.branches ++ branchesOf (itemAt index) scan.count index
      lastIndex := index } := by
  have fresh : scan.deleted index = false := by
    by_contra deleted
    have seen := (layout.marker index (Bool.eq_true_of_not_eq_false deleted)).1
    exact absurd seen (lt_irrefl _)
  have firstKept : scan.deleted scan.current.first = false := by
    rcases eq_or_lt_of_le layout.began with same | begun
    · rw [same]
      exact fresh
    · exact (layout.going begun).1
  have closed := layout.close layout.began firstKept fresh (Nat.lt_succ_self index)
      (fun position after before => absurd before (by omega)) (Nat.le_succ index)
      (fun position from' below _ => by omega)
  refine
    { some1 := closed.some1, before := closed.before
      closed := fun number from1 within =>
        ⟨(closed.closed number from1 within).ordered, (closed.closed number from1 within).firstKept,
          (closed.closed number from1 within).lastKept, (closed.closed number from1 within).below,
          (closed.closed number from1 within).gap⟩
      began := closed.began, going := ?_, marker := closed.marker
      exits := closed.exits, edges := closed.edges
      firstPred := closed.firstPred, currentSucc := closed.currentSucc
      branches := closed.branches }
  intro begun
  simp [Scan.current, Scan.newBlock] at begun

theorem Layout.keep (layout : Layout itemAt index scan) (stays : (itemAt index).transfers = false) :
    Layout itemAt (index + 1) { scan with lastIndex := index } := by
  have fresh : scan.deleted index = false := by
    by_contra deleted
    have seen := (layout.marker index (Bool.eq_true_of_not_eq_false deleted)).1
    exact absurd seen (lt_irrefl _)
  refine
    { some1 := layout.some1, before := layout.before
      closed := fun number from1 within =>
        ⟨(layout.closed number from1 within).ordered, (layout.closed number from1 within).firstKept,
          (layout.closed number from1 within).lastKept, (layout.closed number from1 within).below,
          (layout.closed number from1 within).gap⟩
      began := le_trans layout.began (Nat.le_succ index), going := ?_
      marker := ?_, exits := ?_, edges := layout.edges
      firstPred := layout.firstPred, currentSucc := layout.currentSucc
      branches := layout.branches }
  · intro _
    have firstKept : scan.deleted scan.current.first = false := by
      rcases eq_or_lt_of_le layout.began with same | begun
      · rw [same]
        exact fresh
      · exact (layout.going begun).1
    refine ⟨firstKept, layout.began, Nat.lt_succ_self index, fresh, ?_⟩
    intro position after before
    exact absurd before (by simp only at after; omega)
  · intro position deleted
    obtain ⟨seen, marked⟩ := layout.marker position deleted
    exact ⟨Nat.lt_succ_of_lt seen, marked⟩
  · intro position seen transfers
    rcases Nat.lt_or_eq_of_le (Nat.lt_succ_iff.1 seen) with old | rfl
    · exact layout.exits position old transfers
    · rw [stays] at transfers
      cases transfers

theorem blocks_deleteMarker (scan : Scan) (index number : Nat) :
    (scan.deleteMarker index).blocks number =
      if number = scan.count then
        { scan.current with
          first :=
            if scan.current.first = index then index + 1
            else scan.current.first
          last :=
            if scan.current.last = index then index + 1
            else scan.current.last }
      else scan.blocks number := by
  simp only [Scan.deleteMarker, Function.update_apply]

theorem deleted_deleteMarker (scan : Scan) (index position : Nat) :
    (scan.deleteMarker index).deleted position = true ↔
      position = index ∨ scan.deleted position = true := by
  simp only [Scan.deleteMarker, Function.update_apply]
  split
  case isTrue same => simp [same]
  case isFalse other => simp [other]

theorem kept_deleteMarker {position : Nat} (kept : scan.deleted position = false)
    (other : position ≠ index) : (scan.deleteMarker index).deleted position = false := by
  rw [Bool.eq_false_iff, ne_eq, deleted_deleteMarker]
  simp [kept, other]

theorem Layout.delete (layout : Layout itemAt index scan) (marker : (itemAt index).isMarker = true)
    : Layout itemAt (index + 1) (scan.deleteMarker index) := by
  have counted := layout.some1
  have began := layout.began
  have firsts (number : Nat) : ((scan.deleteMarker index).blocks number).first =
      if number = scan.count ∧ scan.current.first = index then index + 1
      else (scan.blocks number).first := by
    rw [blocks_deleteMarker]
    by_cases current : number = scan.count
    · subst current
      by_cases begins : scan.current.first = index
      · simp only [begins, if_true, and_self]
      · simp only [begins, if_false, and_false]
        rfl
    · simp [current]
  have lasts {number : Nat} (below : number < scan.count) :
      (scan.deleteMarker index).blocks number = scan.blocks number := by
    rw [blocks_deleteMarker, if_neg (by omega)]
  have preds (number : Nat) : ((scan.deleteMarker index).blocks number).pred =
      (scan.blocks number).pred := by
    rw [blocks_deleteMarker]
    split
    case isTrue same =>
      rw [same]
      rfl
    case isFalse => rfl
  refine
    { some1 := counted, before := ?_, closed := ?_, began := ?_
      going := ?_, marker := ?_, exits := ?_, edges := ?_
      firstPred := ?_, currentSucc := ?_, branches := ?_ }
  · intro position early
    rw [deleted_deleteMarker]
    rw [firsts] at early
    split at early
    case isTrue begins =>
      rcases Nat.lt_or_eq_of_le (Nat.lt_succ_iff.1 early) with old | same
      · right
        apply layout.before
        rw [begins.1]
        exact lt_of_lt_of_eq old begins.2.symm
      · exact .inl same
    case isFalse => exact .inr (layout.before position early)
  · intro number from1 below
    have below' : number < scan.count := below
    have closed := layout.closed number from1 below'
    have early : (scan.blocks number).last < index :=
      lt_of_lt_of_le (layout.last_lt_first from1 below' le_rfl) began
    constructor
    · rw [lasts below']
      exact closed.ordered
    · rw [lasts below']
      exact kept_deleteMarker closed.firstKept (ne_of_lt (lt_of_le_of_lt closed.ordered early))
    · rw [lasts below']
      exact kept_deleteMarker closed.lastKept (ne_of_lt early)
    · rw [lasts below', firsts]
      split
      · omega
      · exact closed.below
    · intro position after before
      rw [deleted_deleteMarker]
      rw [lasts below'] at after
      rw [firsts] at before
      split at before
      case isTrue begins =>
        rcases Nat.lt_or_eq_of_le (Nat.lt_succ_iff.1 before) with old | same
        · right
          apply closed.gap position after
          rw [begins.1]
          exact lt_of_lt_of_eq old begins.2.symm
        · exact .inl same
      case isFalse => exact .inr (closed.gap position after before)
  · have first := firsts scan.count
    change ((scan.deleteMarker index).blocks scan.count).first ≤ index + 1
    rw [first]
    split
    · exact le_rfl
    · exact le_trans began (Nat.le_succ index)
  · have first := firsts scan.count
    change ((scan.deleteMarker index).blocks scan.count).first < index + 1 → _
    intro begun
    rw [first] at begun
    split at begun
    case isTrue => exact absurd begun (lt_irrefl _)
    case isFalse stays =>
      have notHere : scan.current.first ≠ index := fun same => stays ⟨rfl, same⟩
      have here : scan.current.first < index := lt_of_le_of_ne began notHere
      obtain ⟨firstKept, ordered, seen, lastKept, gap⟩ := layout.going here
      have same : (scan.deleteMarker index).current.first = scan.current.first := by
        change ((scan.deleteMarker index).blocks scan.count).first = _
        rw [first, if_neg stays]
        rfl
      rw [same]
      refine ⟨kept_deleteMarker firstKept notHere, ordered,
        Nat.lt_succ_of_lt seen, kept_deleteMarker lastKept (ne_of_lt seen), ?_⟩
      intro position after before
      rw [deleted_deleteMarker]
      rcases Nat.lt_or_eq_of_le (Nat.lt_succ_iff.1 before) with old | last
      · exact .inr (gap position after old)
      · exact .inl last
  · intro position deleted
    rw [deleted_deleteMarker] at deleted
    rcases deleted with rfl | old
    · exact ⟨Nat.lt_succ_self _, marker⟩
    · obtain ⟨seen, marked⟩ := layout.marker position old
      exact ⟨Nat.lt_succ_of_lt seen, marked⟩
  · intro position seen transfers
    rcases Nat.lt_or_eq_of_le (Nat.lt_succ_iff.1 seen) with old | rfl
    · obtain ⟨number, from1, below, ends⟩ := layout.exits position old transfers
      refine ⟨number, from1, below, ?_⟩
      rw [lasts below]
      exact ends
    · cases item : itemAt position <;>
        simp [item, CgqItem.isMarker, CgqItem.transfers] at marker transfers
  · intro number from1 below
    have edge := layout.edges number from1 below
    unfold FallsThrough at edge ⊢
    rw [lasts below, preds]
    exact edge
  · rw [preds]
    exact layout.firstPred
  · change ((scan.deleteMarker index).blocks scan.count).succ = []
    rw [blocks_deleteMarker, if_pos rfl]
    exact layout.currentSucc
  · change scan.branches = _
    rw [layout.branches]
    apply flatMap_congr
    intro number member
    have range := mem_range'_1.1 member
    rw [lasts (by omega)]

end Uw7.Amigo.Flow
