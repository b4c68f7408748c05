import Mathlib.Order.Interval.Finset.Nat
import Uw7.Lib.DepthFirst
import Uw7.Amigo.FlowEdges

/-!
# Unreachable blocks

A depth-first search from the first block numbers the blocks that control can
reach.  The others are taken out of the lists of the flow graph.
-/

namespace Uw7.Amigo.Flow

open Uw7.Lib Function List

def FlowGraph.next (graph : FlowGraph) (number : Nat) : List Nat := (graph.blocks number).succ

/-- What the search leaves: the blocks it has visited, its last number, and the
blocks in depth-first order. -/
structure DepthFirst where
  visited : Nat → Bool
  dfNum : Nat
  dfb : List Nat

/-- `init_depth_first`: the blocks are entered in `dfb` from its end, as their
visits finish. -/
def initDepthFirst (graph : FlowGraph) : DepthFirst :=
  let search := Search.start.visit graph.next graph.count 1
  { visited := search.visited
    dfNum := graph.count - search.finished.length + 1
    dfb := search.finished }

/-- A block is removed from a list of predecessors, where it stands first. -/
def dropPred (block : Nat) (blocks : Nat → Block) (target : Nat) : Nat → Block :=
  update blocks target { blocks target with pred := (blocks target).pred.erase block }

/-- A block is removed from a list of successors, where it stands first. -/
def dropSucc (block : Nat) (blocks : Nat → Block) (source : Nat) : Nat → Block :=
  update blocks source { blocks source with succ := (blocks source).succ.erase block }

/-- A block is removed from the lists of its successors, and has none. -/
def leaveSuccessors (blocks : Nat → Block) (block : Nat) : Nat → Block :=
  let dropped := (blocks block).succ.foldl (dropPred block) blocks
  update dropped block { dropped block with succ := [] }

/-- A block is removed from the lists of its predecessors, and has none. -/
def leavePredecessors (blocks : Nat → Block) (block : Nat) : Nat → Block :=
  let dropped := (blocks block).pred.foldl (dropSucc block) blocks
  update dropped block { dropped block with pred := [] }

def removeFromFlowGraph (blocks : Nat → Block) (block : Nat) : Nat → Block :=
  leavePredecessors (leaveSuccessors blocks block) block

/-- The blocks that are removed: none, if the search has numbered them all. -/
def unreachableBlocks (graph : FlowGraph) : List Nat :=
  if (initDepthFirst graph).dfNum = 1 then []
  else
    (range' 1 graph.count).filter fun number =>
      !(initDepthFirst graph).visited number

/-- `remove_unreachable`, in the lists of the blocks. -/
def removeUnreachable (graph : FlowGraph) : FlowGraph :=
  { graph with
    blocks := (unreachableBlocks graph).foldl removeFromFlowGraph graph.blocks }

def InverseLists (blocks : Nat → Block) : Prop := ∀ number other,
    (blocks number).succ.count other = (blocks other).pred.count number

/-- The block leaves one list of each target; the other list stays. -/
theorem foldl_drop {keep list : Block → List Nat} {drop : (Nat → Block) → Nat → Nat → Block}
    {block : Nat}
    (own : ∀ blocks target, keep (drop blocks target target) = keep (blocks target) ∧
      list (drop blocks target target) = (list (blocks target)).erase block)
    (away : ∀ blocks target number, number ≠ target → drop blocks target number = blocks number)
    (targets : List Nat) (blocks : Nat → Block) (number : Nat) :
    keep (targets.foldl drop blocks number) = keep (blocks number) ∧ ∀ other,
      (list (targets.foldl drop blocks number)).count other =
        (list (blocks number)).count other -
          if other = block then targets.count number else 0 := by
  induction targets generalizing blocks with
  | nil => simp
  | cons target targets ih =>
    obtain ⟨kept, counts⟩ := ih (drop blocks target)
    rw [foldl_cons, kept]
    by_cases here : number = target
    · subst here
      refine ⟨(own ..).1, fun other => ?_⟩
      rw [counts, (own ..).2]
      simp only [count_erase, count_cons_self, beq_iff_eq]
      split <;> split <;> omega
    · rw [away _ _ _ here]
      refine ⟨rfl, fun other => ?_⟩
      rw [counts, away _ _ _ here, count_cons_of_ne (Ne.symm here)]

theorem count_leaveSuccessors (blocks : Nat → Block) (block number : Nat) :
    (leaveSuccessors blocks block number).succ =
      (if number = block then [] else (blocks number).succ) ∧
      ∀ other, (leaveSuccessors blocks block number).pred.count other =
        (blocks number).pred.count other -
          if other = block then (blocks block).succ.count number else 0 := by
  obtain ⟨succ, pred⟩ := @foldl_drop Block.succ Block.pred (dropPred block) block
    (by simp [dropPred]) (fun _ _ _ away => update_of_ne away ..) (blocks block).succ blocks number
  by_cases here : number = block
  · subst here
    simp [leaveSuccessors, pred]
  · simp [leaveSuccessors, here, succ, pred]

theorem count_leavePredecessors (blocks : Nat → Block) (block number : Nat) :
    (leavePredecessors blocks block number).pred =
      (if number = block then [] else (blocks number).pred) ∧
      ∀ other, (leavePredecessors blocks block number).succ.count other =
        (blocks number).succ.count other -
          if other = block then (blocks block).pred.count number else 0 := by
  obtain ⟨pred, succ⟩ := @foldl_drop Block.pred Block.succ (dropSucc block) block
    (by simp [dropSucc]) (fun _ _ _ away => update_of_ne away ..) (blocks block).pred blocks number
  by_cases here : number = block
  · subst here
    simp [leavePredecessors, succ]
  · simp [leavePredecessors, here, succ, pred]

variable {blocks : Nat → Block} {graph : FlowGraph}

theorem count_removeFromFlowGraph (inverse : InverseLists blocks) (block number other : Nat) :
    (removeFromFlowGraph blocks block number).succ.count other =
      (if number = block ∨ other = block then 0
      else (blocks number).succ.count other) ∧
      (removeFromFlowGraph blocks block number).pred.count other =
        if number = block ∨ other = block then 0
        else (blocks number).pred.count other := by
  have left := count_leaveSuccessors blocks block
  -- the predecessors that are left, other than the block itself
  have preds (one into : Nat) : (leaveSuccessors blocks block one).pred.count into =
      if into = block then 0 else (blocks one).pred.count into := by
    rw [(left one).2 into]
    by_cases here : into = block
    · subst here
      rw [if_pos rfl, if_pos rfl, inverse into one, Nat.sub_self]
    · rw [if_neg here, if_neg here, Nat.sub_zero]
  obtain ⟨pred, succ⟩ := count_leavePredecessors (leaveSuccessors blocks block) block number
  unfold removeFromFlowGraph
  constructor
  · rw [succ, (left number).1, preds]
    by_cases here : number = block
    · simp [here]
    · by_cases goes : other = block
      · subst goes
        rw [if_neg here, if_neg here, if_pos rfl, if_pos (.inr rfl),
          inverse number other, Nat.sub_self]
      · simp [here, goes]
  · rw [pred]
    by_cases here : number = block
    · simp [here]
    · rw [if_neg here, preds]
      by_cases comes : other = block
      · rw [if_pos comes, if_pos (.inr comes)]
      · rw [if_neg comes, if_neg (by simp [here, comes])]

theorem inverseLists_remove (inverse : InverseLists blocks) (block : Nat) :
    InverseLists (removeFromFlowGraph blocks block) := by
  intro number other
  rw [(count_removeFromFlowGraph inverse block number other).1,
    (count_removeFromFlowGraph inverse block other number).2, inverse number other]
  by_cases one : number = block <;> by_cases two : other = block <;> simp [one, two]

theorem count_foldl_remove (inverse : InverseLists blocks) (removed : List Nat) (number other : Nat)
    : InverseLists (removed.foldl removeFromFlowGraph blocks) ∧
      (removed.foldl removeFromFlowGraph blocks number).succ.count other =
        if number ∈ removed ∨ other ∈ removed then 0
        else (blocks number).succ.count other := by
  induction removed generalizing blocks with
  | nil => exact ⟨inverse, by simp⟩
  | cons block removed ih =>
    obtain ⟨later, count⟩ := ih (inverseLists_remove inverse block)
    refine ⟨later, ?_⟩
    rw [foldl_cons, count, (count_removeFromFlowGraph inverse block number other).1]
    simp only [mem_cons]
    by_cases early : number = block ∨ other = block
    · rw [if_pos early, ite_self, if_pos]
      exact early.imp .inl .inl
    · rw [if_neg early]
      refine if_congr ?_ rfl rfl
      constructor
      · exact Or.imp .inr .inr
      · rintro ((one | one) | (two | two))
        · exact absurd (.inl one) early
        · exact .inl one
        · exact absurd (.inr two) early
        · exact .inr two

/-- A flow graph whose lists name blocks of it only. -/
structure FlowGraph.Closed (graph : FlowGraph) : Prop where
  some1 : 1 ≤ graph.count
  within : ∀ number other, 1 ≤ number → number ≤ graph.count →
      other ∈ (graph.blocks number).succ → 1 ≤ other ∧ other ≤ graph.count
  inverse : InverseLists graph.blocks

/-- Control can come to a block from the first one. -/
def FlowGraph.Reachable (graph : FlowGraph) : Nat → Prop :=
  Relation.ReflTransGen (StepsTo graph.next) 1

/-- **The search visits the blocks control can come to**, and its last number
is one when these are all. -/
theorem initDepthFirst_visited (closed : graph.Closed) : (∀ number,
    (initDepthFirst graph).visited number = true ↔ graph.Reachable number) ∧
    ((initDepthFirst graph).dfNum = 1 ↔ ∀ number, 1 ≤ number → number ≤ graph.count →
      graph.Reachable number) := by
  have counted := closed.some1
  have first : 1 ∈ Finset.Icc 1 graph.count := Finset.mem_Icc.2 ⟨le_rfl, counted⟩
  have inside : ∀ node, node ∈ Finset.Icc 1 graph.count → ∀ child, child ∈ graph.next node →
      child ∈ Finset.Icc 1 graph.count := by
    intro node member child leads
    obtain ⟨from1, below⟩ := Finset.mem_Icc.1 member
    exact Finset.mem_Icc.2 (closed.within node child from1 below leads)
  obtain ⟨visited, nodup, members⟩ := @visit_start _ _ graph.next _ inside graph.count 1 first
    (by rw [Nat.card_Icc]; omega)
  refine ⟨visited, ?_⟩
  -- the search finishes blocks of the graph, each of them once
  have within : (Search.start.visit graph.next graph.count 1).finished.toFinset ⊆
      Finset.Icc 1 graph.count := by
    intro node member
    have path := (visited node).1 ((members node).1 (mem_toFinset.1 member))
    clear member
    induction path with
    | refl => exact first
    | tail _ leads ih => exact inside _ ih _ leads
  have size := toFinset_card_of_nodup nodup
  have all : (Finset.Icc 1 graph.count).card = graph.count := by
    rw [Nat.card_Icc]
    omega
  change graph.count - (Search.start.visit graph.next graph.count 1).finished.length + 1 = 1 ↔ _
  constructor
  · intro full number from1 below
    have whole := Finset.eq_of_subset_of_card_le within (by omega)
    have member : number ∈ Finset.Icc 1 graph.count := Finset.mem_Icc.2 ⟨from1, below⟩
    rw [← whole, mem_toFinset] at member
    exact (visited number).1 ((members number).1 member)
  · intro every
    have whole : Finset.Icc 1 graph.count ⊆
        (Search.start.visit graph.next graph.count 1).finished.toFinset := by
      intro number member
      obtain ⟨from1, below⟩ := Finset.mem_Icc.1 member
      rw [mem_toFinset]
      exact (members number).2 ((visited number).2 (every number from1 below))
    have more := Finset.card_le_card whole
    omega

/-- **The blocks removed** are those control cannot come to. -/
theorem mem_unreachableBlocks (closed : graph.Closed) (number : Nat) :
    number ∈ unreachableBlocks graph ↔
      1 ≤ number ∧ number ≤ graph.count ∧ ¬graph.Reachable number := by
  obtain ⟨visited, last⟩ := initDepthFirst_visited closed
  unfold unreachableBlocks
  by_cases full : (initDepthFirst graph).dfNum = 1
  · rw [if_pos full]
    refine ⟨fun member => absurd member not_mem_nil, ?_⟩
    rintro ⟨from1, below, dead⟩
    exact absurd (last.1 full number from1 below) dead
  · rw [if_neg full, mem_filter, mem_range'_1, ← visited number]
    simp only [Bool.not_eq_true', Bool.not_eq_true]
    constructor
    · rintro ⟨⟨from1, below⟩, dead⟩
      exact ⟨from1, by omega, dead⟩
    · rintro ⟨from1, below, dead⟩
      exact ⟨⟨from1, by omega⟩, dead⟩

end Uw7.Amigo.Flow
