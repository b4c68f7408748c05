import Mathlib.Tactic.IntervalCases
import Uw7.Amigo.FlowBlocks
import Uw7.Amigo.Unreachable

/-!
# The flow graph of a queue

The successors of a block are the blocks its last item can pass control to,
with branches to jumps followed to where the jumps go; the predecessors are the
inverse; and removing the unreachable blocks leaves the reachable ones with
their lists.
-/

namespace Uw7.Amigo.Flow

open Uw7.Lib List

variable {size : Nat} {itemAt : Nat → CgqItem}

/-- Where a branch to a label goes: behind the jump that the label stands
before, or to the label. -/
def ThroughJump (size : Nat) (itemAt : Nat → CgqItem) (label target : Nat) : Prop :=
  JumpBehind itemAt size label target ∨
    (target = label ∧ ∀ other, ¬JumpBehind itemAt size label other)

/-- A transfer of control of the queue: control falls through to the next item
that is kept, or a branch, or a switch, goes to a label. -/
inductive Transfer (size : Nat) (itemAt : Nat → CgqItem) (deleted : Nat → Bool)
    (position : Nat) : Nat → Prop where
  | falls {next : Nat} : (itemAt position).falls = true → NextKept size deleted position next →
      Transfer size itemAt deleted position next
  | branch {label target place : Nat} :
      itemAt position = .cbranch label ∨ itemAt position = .jump label →
      ThroughJump size itemAt label target → place < size → itemAt place = .labelOp target →
      Transfer size itemAt deleted position place
  | switch {cases : List Nat} {default? : Option Nat} {label place : Nat} :
      itemAt position = .swend cases default? → label ∈ cases ++ default?.toList → place < size →
      itemAt place = .labelOp label → Transfer size itemAt deleted position place

def TargetsDefined (size : Nat) (itemAt : Nat → CgqItem) : Prop :=
  ∀ position label, position < size → label ∈ (itemAt position).targets →
    ∃ place, place < size ∧ itemAt place = .labelOp label

theorem throughJump_iff (wellFormed : WellFormed size itemAt) (label target : Nat) :
    ThroughJump size itemAt label target ↔ target =
      (((scanItems itemAt size).labelTable label).mapLabel).getD label := by
  have mapped := mapLabel_scanItems wellFormed le_rfl label
  cases map : ((scanItems itemAt size).labelTable label).mapLabel with
  | none =>
    have noJump (other : Nat) : ¬JumpBehind itemAt size label other := by
      intro behind
      rw [(mapped other).2 behind] at map
      cases map
    constructor
    · rintro (behind | ⟨same, _⟩)
      · exact absurd behind (noJump target)
      · exact same
    · intro same
      exact .inr ⟨same, noJump⟩
  | some goal =>
    have behind := (mapped goal).1 map
    constructor
    · rintro (other | ⟨_, none'⟩)
      · have same := (mapped target).2 other
        rw [map] at same
        cases same
        rfl
      · exact absurd behind (none' goal)
    · intro same
      rw [same]
      exact .inl behind

variable {label place number : Nat} {branch : BranchDescriptor}

theorem ThroughJump.defined (defined : TargetsDefined size itemAt) {target : Nat}
    (through : ThroughJump size itemAt label target)
    (found : ∃ place, place < size ∧ itemAt place = .labelOp label) :
    ∃ place, place < size ∧ itemAt place = .labelOp target := by
  rcases through with ⟨_, jump, _, below, _, item, _⟩ | ⟨rfl, _⟩
  · refine defined jump target below ?_
    rw [item]
    exact mem_singleton.2 rfl
  · exact found

theorem mem_targets_retargetItem (wellFormed : WellFormed size itemAt) (item : CgqItem)
    (target : Nat) : target ∈ (retargetItem (scanItems itemAt size).labelTable item).targets ↔
      (∃ label, (item = .cbranch label ∨ item = .jump label) ∧
        ThroughJump size itemAt label target) ∨
        ∃ cases default?, item = .swend cases default? ∧ target ∈ cases ++ default?.toList := by
  cases item <;> simp [retargetItem, CgqItem.targets, throughJump_iff wellFormed]

theorem block_labelTable (wellFormed : WellFormed size itemAt) (within : place < size)
    (item : itemAt place = .labelOp label) (number : Nat) :
    ((scanItems itemAt size).labelTable label).block = some number ↔
      Holds (wholeScan size itemAt).blocks (scanItems itemAt size).count number place := by
  obtain ⟨found, block, entry⟩ :=
    (labelsFound_scanItems wellFormed le_rfl).found place label within item
  have kept : (scanItems itemAt size).deleted place = false := by
    by_contra deleted
    have marked := ((layout_scanItems itemAt size).marker place
        (Bool.eq_true_of_not_eq_false deleted)).2
    rw [item] at marked
    cases marked
  have held := (holds_of_entry wellFormed within kept entry).1
  rw [block]
  constructor
  · rintro ⟨⟩
    exact held
  · intro other
    rw [Holds.unique wellFormed held other]

theorem targetLabel_mem_targets {item : CgqItem} {block : Nat}
    (member : branch ∈ branchesOf item block place) : branch.targetLabel ∈ item.targets := by
  cases item with
  | cbranch label | jump label =>
    rw [branchesOf, mem_singleton] at member
    rw [member]
    exact mem_singleton.2 rfl
  | swend cases default? =>
    simp only [branchesOf, mem_append, mem_map] at member
    rcases member with ⟨_, inside, rfl⟩ | ⟨_, inside, rfl⟩
    · exact mem_append_left _ inside
    · exact mem_append_right _ inside
  | nd1 | fixSwbeg | ret | labelOp _ | setlocctr | setlocctrInt | dbSBlock
    | dbEBlock | other => simp [branchesOf] at member

section

variable (wellFormed : WellFormed size itemAt) (defined : TargetsDefined size itemAt)
  (entered : branch ∈ (scanItems itemAt size).branches)
include wellFormed defined entered

theorem target_defined : ∃ place, place < size ∧ itemAt place = .labelOp branch.targetLabel := by
  have layout := layout_scanItems itemAt size
  obtain ⟨number, from1, below, ofItem⟩ := layout.mem_branches.1 entered
  have ends := layout.last_lt_first from1 below le_rfl
  exact defined _ _ (lt_trans ends (lastBlock wellFormed).1) (targetLabel_mem_targets ofItem)

theorem retarget_defined : ∃ place, place < size ∧ itemAt place = .labelOp
        (retargetBranch (scanItems itemAt size).labelTable branch).targetLabel := by
  have found := target_defined wellFormed defined entered
  unfold retargetBranch
  split
  · exact ThroughJump.defined defined
      ((throughJump_iff wellFormed branch.targetLabel _).2 rfl) found
  · exact ThroughJump.defined defined
      ((throughJump_iff wellFormed branch.targetLabel _).2 rfl) found
  · exact found
  · exact found

end

theorem block_isSome (wellFormed : WellFormed size itemAt)
    (found : ∃ place, place < size ∧ itemAt place = .labelOp label) :
    (((scanItems itemAt size).labelTable label).block).isSome = true := by
  obtain ⟨place, within, item⟩ := found
  obtain ⟨number, block, _⟩ :=
    (labelsFound_scanItems wellFormed le_rfl).found place label within item
  rw [block]
  rfl

/-- The graph the pass ends with. -/
def wholeGraph (size : Nat) (itemAt : Nat → CgqItem) : FlowGraph :=
  let scan := wholeScan size itemAt
  let removed := removeJumpToJump scan.labelTable scan.branches itemAt
  { itemAt := removed.2
    deleted := scan.deleted
    blocks := resolve scan.labelTable removed.1 scan.blocks
    count := scan.count }

theorem basicBlock_eq (wellFormed : WellFormed size itemAt) (defined : TargetsDefined size itemAt) :
    basicBlock size itemAt = some (wholeGraph size itemAt) := by
  have before : allResolved (wholeScan size itemAt).labelTable
      (wholeScan size itemAt).branches = true := by
    refine all_eq_true.2 fun branch entered => ?_
    exact block_isSome wellFormed (target_defined wellFormed defined entered)
  have after : allResolved (wholeScan size itemAt).labelTable
      (removeJumpToJump (wholeScan size itemAt).labelTable
        (wholeScan size itemAt).branches itemAt).1 = true := by
    refine all_eq_true.2 fun branch entered => ?_
    obtain ⟨old, member, rfl⟩ := mem_map.1 entered
    exact block_isSome wellFormed (retarget_defined wellFormed defined member)
  change (if ¬allResolved (wholeScan size itemAt).labelTable
    (wholeScan size itemAt).branches = true then none else _) = _
  rw [if_neg (not_not.2 before)]
  change (if ¬allResolved (wholeScan size itemAt).labelTable
    (removeJumpToJump (wholeScan size itemAt).labelTable
      (wholeScan size itemAt).branches itemAt).1 = true then none else _) = _
  rw [if_neg (not_not.2 after)]
  rfl

theorem lists_unmade (itemAt : Nat → CgqItem) (size : Nat)
    (unmade : number = 0 ∨ (scanItems itemAt size).count < number) :
    ((scanItems itemAt size).blocks number).succ = [] ∧
      ((scanItems itemAt size).blocks number).pred = [] := by
  induction size with
  | zero => exact ⟨rfl, rfl⟩
  | succ index ih =>
    have counted := (layout_scanItems itemAt index).some1
    rw [scanItems] at unmade ⊢
    generalize scanItems itemAt index = scan at *
    rcases itemStep_of_step itemAt index scan with
      ⟨_, blocks, count, _⟩ | ⟨_, _, blocks, count, _⟩ | ⟨blocks, count, _⟩ | ⟨_, blocks, count, _⟩
    · rw [blocks]
      rw [count] at unmade
      exact ih unmade
    · have old := ih (by omega)
      rw [blocks]
      simpa [Scan.newBlock, show number ≠ scan.count by omega,
        show number ≠ scan.count + 1 by omega] using old
    · have old := ih (by omega)
      rw [blocks]
      simpa [Scan.newBlock, show number ≠ scan.count by omega,
        show number ≠ scan.count + 1 by omega] using old
    · rw [count] at unmade
      rw [blocks, blocks_deleteMarker, if_neg (by omega)]
      exact ih unmade

/-- Control falls from a block to the next. -/
def fallsToNext (size : Nat) (itemAt : Nat → CgqItem) (number : Nat) : Prop :=
  1 ≤ number ∧ number < (scanItems itemAt size).count ∧
    (itemAt ((wholeScan size itemAt).blocks number).last).falls = true

/-- The lists before the branches are resolved. -/
theorem lists_wholeScan (wellFormed : WellFormed size itemAt) (number other : Nat) :
    (((wholeScan size itemAt).blocks number).succ.count other = 1 ∧
      ((wholeScan size itemAt).blocks other).pred.count number = 1 ∧
      fallsToNext size itemAt number ∧ other = number + 1) ∨
      (((wholeScan size itemAt).blocks number).succ.count other = 0 ∧
        ((wholeScan size itemAt).blocks other).pred.count number = 0 ∧
        ¬(fallsToNext size itemAt number ∧ other = number + 1)) := by
  have layout := layout_scanItems itemAt size
  unfold fallsToNext
  simp only [blocks_wholeScan wellFormed]
  -- the successors of a block
  have succs (one : Nat) : ((scanItems itemAt size).blocks one).succ = [] ∧
      ¬(1 ≤ one ∧ one < (scanItems itemAt size).count) ∨
      (1 ≤ one ∧ one < (scanItems itemAt size).count ∧
        FallsThrough itemAt (scanItems itemAt size) one) := by
    by_cases inner : 1 ≤ one ∧ one < (scanItems itemAt size).count
    · exact .inr ⟨inner.1, inner.2, layout.edges one inner.1 inner.2⟩
    · refine .inl ⟨?_, inner⟩
      by_cases current : one = (scanItems itemAt size).count
      · rw [current]
        exact layout.currentSucc
      · exact (lists_unmade itemAt size (by omega)).1
  -- a block that is not behind another has no predecessor so far
  have preds (one : Nat) (notNext : ¬∃ before, one = before + 1 ∧ 1 ≤ before ∧
      before < (scanItems itemAt size).count) : ((scanItems itemAt size).blocks one).pred = [] := by
    by_cases first : one = 1
    · rw [first]
      exact layout.firstPred
    · by_cases unmade : one = 0 ∨ (scanItems itemAt size).count < one
      · exact (lists_unmade itemAt size unmade).2
      · exact absurd ⟨one - 1, by omega, by omega, by omega⟩ notNext
  have predsOf : ((scanItems itemAt size).blocks other).pred = [] ∨
      ∃ before, other = before + 1 ∧ 1 ≤ before ∧ before < (scanItems itemAt size).count ∧
        FallsThrough itemAt (scanItems itemAt size) before := by
    by_cases next : ∃ before, other = before + 1 ∧ 1 ≤ before ∧
      before < (scanItems itemAt size).count
    · obtain ⟨before, same, from1, below⟩ := next
      exact .inr ⟨before, same, from1, below, layout.edges before from1 below⟩
    · exact .inl (preds other next)
  by_cases falls : (1 ≤ number ∧ number < (scanItems itemAt size).count ∧
    (itemAt ((scanItems itemAt size).blocks number).last).falls = true) ∧ other = number + 1
  · obtain ⟨⟨from1, below, passes⟩, rfl⟩ := falls
    obtain ⟨succ, pred⟩ := layout.edges number from1 below
    have notLast : number ≠ (scanItems itemAt size).count := by omega
    left
    simp [succ, pred, passes, from1, below, notLast]
  · right
    refine ⟨?_, ?_, ?_⟩
    · rcases succs number with ⟨none', _⟩ | ⟨from1, below, succ, _⟩
      · rw [none', count_nil]
      · rw [succ]
        split
        case isTrue passes =>
          rw [count_eq_zero, mem_singleton]
          exact fun same => falls ⟨⟨from1, below, passes⟩, same⟩
        case isFalse => exact count_nil
    · rcases predsOf with none' | ⟨before, rfl, from1, below, _, pred⟩
      · rw [none', count_nil]
      · rw [pred]
        split
        case isTrue passes =>
          rw [count_eq_zero, mem_singleton]
          rintro rfl
          exact falls ⟨⟨from1, below, passes⟩, rfl⟩
        case isFalse => exact count_nil
    · rintro ⟨⟨from1, below, passes⟩, same⟩
      rw [if_neg (by omega)] at passes
      exact falls ⟨⟨from1, below, passes⟩, same⟩

theorem inverseLists_wholeGraph (wellFormed : WellFormed size itemAt) :
    InverseLists (wholeGraph size itemAt).blocks := by
  intro number other
  have one := (count_resolve (wholeScan size itemAt).labelTable
      ((wholeScan size itemAt).branches.map (retargetBranch (wholeScan size itemAt).labelTable))
      (wholeScan size itemAt).blocks number other).1
  have two := (count_resolve (wholeScan size itemAt).labelTable
      ((wholeScan size itemAt).branches.map (retargetBranch (wholeScan size itemAt).labelTable))
      (wholeScan size itemAt).blocks other number).2.1
  have before : ((wholeScan size itemAt).blocks number).succ.count other =
      ((wholeScan size itemAt).blocks other).pred.count number := by
    rcases lists_wholeScan wellFormed number other with
      ⟨succ, pred, _⟩ | ⟨succ, pred, _⟩
    · rw [succ, pred]
    · rw [succ, pred]
  rw [before] at one
  exact one.trans two.symm

theorem span_wholeGraph (number : Nat) : ((wholeGraph size itemAt).blocks number).first =
    ((wholeScan size itemAt).blocks number).first ∧
    ((wholeGraph size itemAt).blocks number).last = ((wholeScan size itemAt).blocks number).last :=
  (count_resolve (wholeScan size itemAt).labelTable ((wholeScan size itemAt).branches.map
    (retargetBranch (wholeScan size itemAt).labelTable))
    (wholeScan size itemAt).blocks number 0).2.2

/-- **The successors of a block** are the blocks that control can pass to from
its last item. -/
theorem mem_succ_wholeGraph (wellFormed : WellFormed size itemAt)
    (defined : TargetsDefined size itemAt) (from1 : 1 ≤ number)
    (within : number ≤ (scanItems itemAt size).count) (other : Nat) :
    other ∈ ((wholeGraph size itemAt).blocks number).succ ↔ ∃ place,
      Transfer size itemAt (scanItems itemAt size).deleted
        ((wholeScan size itemAt).blocks number).last place ∧
        Holds (wholeScan size itemAt).blocks (scanItems itemAt size).count other place := by
  have layout := layout_scanItems itemAt size
  have counted := (count_resolve (wholeScan size itemAt).labelTable
      ((wholeScan size itemAt).branches.map (retargetBranch (wholeScan size itemAt).labelTable))
      (wholeScan size itemAt).blocks number other).1
  -- an edge is the one to the next block, or one of a branch
  have edges : other ∈ ((wholeGraph size itemAt).blocks number).succ ↔
      (fallsToNext size itemAt number ∧ other = number + 1) ∨ ∃ branch, branch ∈
        (wholeScan size itemAt).branches.map (retargetBranch (wholeScan size itemAt).labelTable) ∧
        branch.joins (wholeScan size itemAt).labelTable number other = true := by
    rw [← count_pos_iff, ← countP_pos_iff]
    refine Iff.trans (iff_of_eq (congrArg (0 < ·) counted)) ?_
    rcases lists_wholeScan wellFormed number other with
      ⟨succ, _, falls⟩ | ⟨succ, _, notFalls⟩
    · exact ⟨fun _ => .inl falls, fun _ => by omega⟩
    · rw [succ, Nat.zero_add]
      exact ⟨.inr, fun either => either.resolve_left notFalls⟩
  have lastWithin := (span_wholeScan wellFormed from1 within).2.1
  have sameLast (below : number < (scanItems itemAt size).count) :
      ((scanItems itemAt size).blocks number).last =
        ((wholeScan size itemAt).blocks number).last := by
    rw [blocks_wholeScan wellFormed, if_neg (by omega)]
  rw [edges]
  change _ ∨ (∃ branch, branch ∈ (scanItems itemAt size).branches.map
    (retargetBranch (scanItems itemAt size).labelTable) ∧
    branch.joins (scanItems itemAt size).labelTable number other = true) ↔ _
  rw [layout.joins_iff]
  constructor
  · rintro (⟨⟨_, below, passes⟩, rfl⟩ | ⟨_, below, label, member, block⟩)
    · have next := nextKept_wholeScan wellFormed from1 below
      have span := @span_wholeScan size itemAt wellFormed (number + 1) (by omega) below
      exact ⟨_, .falls passes next, by omega, below, le_rfl, span.1⟩
    · rw [sameLast below] at member
      have found (label : Nat) (member' : label ∈
          (itemAt ((wholeScan size itemAt).blocks number).last).targets) :=
        defined _ label lastWithin member'
      rcases (mem_targets_retargetItem wellFormed _ label).1 member with
        ⟨old, item, through⟩ | ⟨cases, default?, item, inside⟩
      · obtain ⟨place, placeWithin, labelled⟩ := through.defined defined
          (found old (by rcases item with item | item <;> simp [item, CgqItem.targets]))
        exact ⟨place, .branch item through placeWithin labelled,
          (block_labelTable wellFormed placeWithin labelled other).1 block⟩
      · obtain ⟨place, placeWithin, labelled⟩ := found label (by rw [item]; exact inside)
        exact ⟨place, .switch item inside placeWithin labelled,
          (block_labelTable wellFormed placeWithin labelled other).1 block⟩
  · rintro ⟨place, transfer, held⟩
    -- an item that goes somewhere does not end the last block
    have inner (transfers : (itemAt ((wholeScan size itemAt).blocks number).last).transfers =
        true) : number < (scanItems itemAt size).count := by
      by_contra last
      obtain ⟨exit, exitFrom, exitBelow, same⟩ := exits_wholeScan wellFormed lastWithin transfers
      have apart := last_lt_first_wholeScan wellFormed exitFrom (show exit < number by omega) within
      have ordered := (span_wholeScan wellFormed from1 within).1
      omega
    cases transfer with
    | falls passes next =>
      left
      have below : number < (scanItems itemAt size).count := by
        by_contra last
        obtain ⟨later, placeWithin, _, _⟩ := next
        rw [blocks_wholeScan wellFormed, if_pos (by omega)] at later
        simp only at later
        omega
      refine ⟨⟨from1, below, passes⟩, ?_⟩
      have same := next.unique (nextKept_wholeScan wellFormed from1 below)
      have span := @span_wholeScan size itemAt wellFormed (number + 1) (by omega) below
      refine Holds.unique wellFormed held ⟨by omega, below, ?_, ?_⟩
      · exact le_of_eq same.symm
      · rw [same]
        exact span.1
    | branch item through placeWithin labelled =>
      right
      have below := inner (by rcases item with item | item <;> rw [item] <;> rfl)
      refine ⟨from1, below, _, ?_, (block_labelTable wellFormed placeWithin labelled other).2 held⟩
      rw [sameLast below, mem_targets_retargetItem wellFormed]
      exact .inl ⟨_, item, through⟩
    | switch item inside placeWithin labelled =>
      right
      have below := inner (by rw [item]; rfl)
      refine ⟨from1, below, _, ?_, (block_labelTable wellFormed placeWithin labelled other).2 held⟩
      rw [sameLast below, mem_targets_retargetItem wellFormed]
      exact .inr ⟨_, _, item, inside⟩

def FlowGraph.Holds (graph : FlowGraph) (number position : Nat) : Prop :=
  Flow.Holds graph.blocks graph.count number position

/-- The blocks of a graph partition the items of a queue that are kept: a block
follows the next, control leaves a block behind its last item only, and comes to
a label where its block begins, or behind a location counter there. -/
structure Partitions (size : Nat) (itemAt : Nat → CgqItem) (graph : FlowGraph) : Prop where
  some1 : 1 ≤ graph.count
  span : ∀ number, 1 ≤ number → number ≤ graph.count →
      (graph.blocks number).first ≤ (graph.blocks number).last ∧ (graph.blocks number).last < size ∧
        graph.deleted (graph.blocks number).first = false ∧
        graph.deleted (graph.blocks number).last = false
  one : ∀ position, position < size → graph.deleted position = false →
      ∃ number, graph.Holds number position ∧ ∀ other, graph.Holds other position → other = number
  follows : ∀ number, 1 ≤ number → number < graph.count →
      NextKept size graph.deleted (graph.blocks number).last (graph.blocks (number + 1)).first
  markers : ∀ position, graph.deleted position = true → (itemAt position).isMarker = true
  exits : ∀ position, position < size → (itemAt position).transfers = true →
      ∃ number, 1 ≤ number ∧ number ≤ graph.count ∧ position = (graph.blocks number).last
  entries : ∀ position label, position < size → itemAt position = .labelOp label →
      ∃ number, graph.Holds number position ∧ (position = (graph.blocks number).first ∨
          itemAt (graph.blocks number).first = .setlocctrInt ∧
            NextKept size graph.deleted (graph.blocks number).first position)

/-- The branches of a queue are retargeted: conditional branches and jumps go
where the jumps behind their labels go, the other items stay, and the first item
to execute is the same from every position, and from the two labels of every
branch. -/
structure Retargets (size : Nat) (itemAt retargeted : Nat → CgqItem) : Prop where
  cbranch : ∀ position label, position < size → itemAt position = .cbranch label →
      ∃ target, retargeted position = .cbranch target ∧ ThroughJump size itemAt label target
  jump : ∀ position label, position < size → itemAt position = .jump label →
      ∃ target, retargeted position = .jump target ∧ ThroughJump size itemAt label target
  stays : ∀ position, position < size → (∀ label, itemAt position ≠ .cbranch label ∧
      itemAt position ≠ .jump label) → retargeted position = itemAt position
  whole : ∀ position first, FirstExec size itemAt position first ↔
      FirstExec size retargeted position first
  targets : ∀ label target place goal, ThroughJump size itemAt label target →
      place < size → itemAt place = .labelOp label → goal < size → itemAt goal = .labelOp target →
      ∀ first, FirstExec size itemAt place first ↔ FirstExec size retargeted goal first

/-- The blocks that are removed are the unreachable ones, and the others keep
their edges to each other and have no others. -/
structure Prunes (graph pruned : FlowGraph) (removed : List Nat) : Prop where
  unreachable : ∀ number, 1 ≤ number → number ≤ graph.count →
      (number ∈ removed ↔ ¬graph.Reachable number)
  succ : ∀ number, 1 ≤ number → number ≤ graph.count → ∀ other,
      (pruned.blocks number).succ.count other =
        if number ∈ removed ∨ other ∈ removed then 0
        else (graph.blocks number).succ.count other
  pred : ∀ number, 1 ≤ number → number ≤ graph.count → ∀ other,
      (pruned.blocks number).pred.count other =
        if number ∈ removed ∨ other ∈ removed then 0
        else (graph.blocks number).pred.count other

theorem partitions_wholeGraph (wellFormed : WellFormed size itemAt) :
    Partitions size itemAt (wholeGraph size itemAt) := by
  have layout := layout_scanItems itemAt size
  have first (number : Nat) : ((wholeGraph size itemAt).blocks number).first =
      ((wholeScan size itemAt).blocks number).first :=
    (span_wholeGraph number).1
  have last (number : Nat) : ((wholeGraph size itemAt).blocks number).last =
      ((wholeScan size itemAt).blocks number).last :=
    (span_wholeGraph number).2
  have holds (number position : Nat) : (wholeGraph size itemAt).Holds number position ↔
      Holds (wholeScan size itemAt).blocks (scanItems itemAt size).count number position := by
    unfold FlowGraph.Holds Holds
    rw [first, last]
    rfl
  refine
    { some1 := layout.some1
      span := ?_, one := ?_, follows := ?_, markers := ?_, exits := ?_
      entries := ?_ }
  · intro number from1 within
    rw [first, last]
    exact span_wholeScan wellFormed from1 within
  · intro position within kept
    obtain ⟨number, held⟩ := holds_of_kept wellFormed within kept
    refine ⟨number, (holds number position).2 held, fun other also => ?_⟩
    exact Holds.unique wellFormed ((holds other position).1 also) held
  · intro number from1 below
    rw [first, last]
    exact nextKept_wholeScan wellFormed from1 below
  · intro position deleted
    exact (layout.marker position deleted).2
  · intro position within transfers
    obtain ⟨number, from1, below, ends⟩ := exits_wholeScan wellFormed within transfers
    refine ⟨number, from1, le_of_lt below, ?_⟩
    rw [last]
    exact ends
  · intro position label within item
    obtain ⟨number, _, entry⟩ :=
      (labelsFound_scanItems wellFormed le_rfl).found position label within item
    have kept : (scanItems itemAt size).deleted position = false := by
      by_contra deleted
      have marked := (layout.marker position (Bool.eq_true_of_not_eq_false deleted)).2
      rw [item] at marked
      cases marked
    obtain ⟨held, place⟩ := holds_of_entry wellFormed within kept entry
    refine ⟨number, (holds number position).2 held, ?_⟩
    rw [first]
    exact place

theorem retargets_wholeGraph (wellFormed : WellFormed size itemAt)
    (defined : TargetsDefined size itemAt) :
    Retargets size itemAt (wholeGraph size itemAt).itemAt := by
  have layout := layout_scanItems itemAt size
  have items (position : Nat) (within : position < size) :
      (wholeGraph size itemAt).itemAt position = retargetItem (scanItems itemAt size).labelTable
        (itemAt position) :=
    layout.retargeted _ within
  have jumpsDefined : ∀ position target, position < size → itemAt position = .jump target →
      ∃ place, place < size ∧ itemAt place = .labelOp target := by
    intro position target within item
    refine defined position target within ?_
    rw [item]
    exact mem_singleton.2 rfl
  have whole := firstExec_retarget wellFormed (fun label target =>
      (mapLabel_scanItems wellFormed le_rfl label target).1) jumpsDefined items
  refine
    { cbranch := ?_, jump := ?_, stays := ?_, whole := whole
      targets := ?_ }
  · intro position label within item
    rw [items position within, item]
    exact ⟨_, rfl, (throughJump_iff wellFormed label _).2 rfl⟩
  · intro position label within item
    rw [items position within, item]
    exact ⟨_, rfl, (throughJump_iff wellFormed label _).2 rfl⟩
  · intro position within noBranch
    rw [items position within]
    cases item : itemAt position with
    | cbranch label => exact absurd item (noBranch label).1
    | jump label => exact absurd item (noBranch label).2
    | swend _ _ | nd1 | fixSwbeg | ret | labelOp _ | setlocctr
      | setlocctrInt | dbSBlock | dbEBlock | other => rfl
  · intro label target place goal through placeWithin labelled goalWithin targeted first
    rw [← whole goal first]
    rcases through with behind | ⟨rfl, _⟩
    · obtain ⟨start, jump, before, below, starts, jumps, onward⟩ := behind.onward
      obtain rfl : start = place := wellFormed.once start place label (by omega) placeWithin starts
        labelled
      constructor
      · rintro ⟨steps, found⟩
        obtain ⟨fewer, _, rest⟩ :=
          firstExecIn_of_behind wellFormed before below jumps onward goalWithin targeted found
        exact ⟨fewer, rest⟩
      · exact firstExec_of_behind before below jumps onward goalWithin targeted
    · rw [wellFormed.once place goal target placeWithin goalWithin labelled targeted]

theorem prunes_removeUnreachable {graph : FlowGraph} (closed : graph.Closed) :
    Prunes graph (removeUnreachable graph) (unreachableBlocks graph) where
  unreachable := by
    intro number from1 within
    rw [mem_unreachableBlocks closed]
    exact ⟨fun member => member.2.2, fun dead => ⟨from1, within, dead⟩⟩
  succ := fun number _ _ other =>
    (count_foldl_remove closed.inverse (unreachableBlocks graph) number other).2
  pred := by
    intro number _ _ other
    obtain ⟨inverse, counted⟩ :=
      count_foldl_remove closed.inverse (unreachableBlocks graph) other number
    change (((unreachableBlocks graph).foldl removeFromFlowGraph graph.blocks
      number).pred).count other = _
    rw [← inverse other number, counted, closed.inverse other number]
    exact if_congr or_comm rfl rfl

/-- **The flow graph**: with every branch target defined, the queue is cut into
blocks; a block's successors are the blocks control can pass to from its last
item; the predecessors are the inverse, edge for edge; the retargeted branches
reach the first item they reached; and the blocks that are left when the
unreachable ones are removed are those control can come to, with the edges
between them. -/
theorem flowGraph_right (wellFormed : WellFormed size itemAt)
    (defined : TargetsDefined size itemAt) :
    ∃ graph, basicBlock size itemAt = some graph ∧ Partitions size itemAt graph ∧
      (∀ number other, 1 ≤ number → number ≤ graph.count → (other ∈ (graph.blocks number).succ ↔
        ∃ place, Transfer size itemAt graph.deleted (graph.blocks number).last place ∧
          graph.Holds other place)) ∧
      InverseLists graph.blocks ∧ Retargets size itemAt graph.itemAt ∧
      Prunes graph (removeUnreachable graph) (unreachableBlocks graph) := by
  have holds (number position : Nat) : (wholeGraph size itemAt).Holds number position ↔
      Holds (wholeScan size itemAt).blocks (scanItems itemAt size).count number position := by
    unfold FlowGraph.Holds Holds
    rw [(span_wholeGraph number).1, (span_wholeGraph number).2]
    rfl
  have succs (number other : Nat) (from1 : 1 ≤ number)
      (within : number ≤ (wholeGraph size itemAt).count) :
      other ∈ ((wholeGraph size itemAt).blocks number).succ ↔ ∃ place,
        Transfer size itemAt (wholeGraph size itemAt).deleted
          ((wholeGraph size itemAt).blocks number).last place ∧
          (wholeGraph size itemAt).Holds other place := by
    rw [mem_succ_wholeGraph wellFormed defined from1 within, (span_wholeGraph number).2]
    simp only [holds]
    rfl
  have inverse := inverseLists_wholeGraph wellFormed
  have partitions := partitions_wholeGraph wellFormed
  have closed : (wholeGraph size itemAt).Closed := by
    refine ⟨partitions.some1, ?_, inverse⟩
    intro number other from1 within member
    obtain ⟨_, _, held⟩ := (succs number other from1 within).1 member
    exact ⟨held.1, held.2.1⟩
  exact ⟨wholeGraph size itemAt, basicBlock_eq wellFormed defined, partitions,
    succs, inverse, retargets_wholeGraph wellFormed defined, prunes_removeUnreachable closed⟩

/-- A branch to a jump, over another jump to the same place. -/
def branchOverJump : Nat → CgqItem
  | 0 => .cbranch 1
  | 1 => .jump 2
  | 2 => .labelOp 1
  | 3 => .jump 2
  | 4 => .labelOp 2
  | _ => .other

/-- The flow graph of a branch to a jump. -/
theorem flowGraph_right_branchOverJump :
    WellFormed 6 branchOverJump ∧ TargetsDefined 6 branchOverJump ∧ ∃ graph,
      basicBlock 6 branchOverJump = some graph ∧ Partitions 6 branchOverJump graph ∧
        InverseLists graph.blocks ∧ Retargets 6 branchOverJump graph.itemAt ∧
        Prunes graph (removeUnreachable graph) (unreachableBlocks graph) := by
  have place (position label : Nat) (within : position < 6)
      (item : branchOverJump position = .labelOp label) : position = 2 * label := by
    interval_cases position <;> simp [branchOverJump] at item <;> omega
  have wellFormed : WellFormed 6 branchOverJump := by
    refine ⟨?_, ?_, by decide, rfl⟩
    · intro one other label oneWithin otherWithin oneItem otherItem
      rw [place one label oneWithin oneItem, place other label otherWithin otherItem]
    · intro position cases default? within item
      interval_cases position <;> simp [branchOverJump] at item
  have defined : TargetsDefined 6 branchOverJump := by
    intro position label within member
    interval_cases position <;> simp [branchOverJump, CgqItem.targets] at member
    · exact ⟨2, by decide, by rw [member]; rfl⟩
    · exact ⟨4, by decide, by rw [member]; rfl⟩
    · exact ⟨4, by decide, by rw [member]; rfl⟩
  obtain ⟨graph, built, partitions, _, inverse, retargets, prunes⟩ :=
    flowGraph_right wellFormed defined
  exact ⟨wellFormed, defined, graph, built, partitions, inverse, retargets, prunes⟩

end Uw7.Amigo.Flow
