import Uw7.Amigo.Dominators

/-!
# Seldom blocks

`seldom` from `data_flow.c`.  The sets of the blocks grow in reverse depth-first order from
those of their successors until a pass changes none; in the dual order they fall.
-/

namespace Uw7.Amigo.Flow

open Uw7.Lib List Finset

/-- `control_reaches` before the passes. -/
def initialReaches (graph : FlowGraph) (number : Nat) : Finset Nat :=
  if number ∈ (initDepthFirst graph).dfb then (graph.blocks number).succ.toFinset else ∅

def controlReaches (graph : FlowGraph) (number : Nat) (reaches : Nat → Finset Nat) : Finset Nat :=
  (graph.blocks number).succ.foldl (fun tempSet successor => tempSet ∪ reaches successor)
    (reaches number)

/-- The sets that the passes of `seldom` come to, when they are no more than a number. -/
def solveReaches (graph : FlowGraph) (passes : Nat) : Option (Nat → Finset Nat) :=
  RoundRobin.solveWithin (controlReaches graph) (initDepthFirst graph).dfb.reverse passes
    (initialReaches graph)

/-- `seldom`: the sets, and the blocks that it marks. -/
def seldom (graph : FlowGraph) (passes : Nat) : Option ((Nat → Finset Nat) × (Nat → Bool)) :=
  (solveReaches graph passes).map fun reaches =>
    (reaches, fun number => number ∈ (initDepthFirst graph).dfb ∧ number ∉ reaches number)

/-- Control comes from a block to another in one or more steps. -/
def FlowGraph.Flows (graph : FlowGraph) : Nat → Nat → Prop := Relation.TransGen (StepsTo graph.next)

variable {graph : FlowGraph}

theorem mem_controlReaches (number item : Nat) (reaches : Nat → Finset Nat) :
    item ∈ controlReaches graph number reaches ↔
      item ∈ reaches number ∨
        ∃ successor ∈ (graph.blocks number).succ, item ∈ reaches successor := by
  unfold controlReaches
  generalize reaches number = tempSet
  induction (graph.blocks number).succ generalizing tempSet with
  | nil => simp
  | cons successor rest ih => rw [foldl_cons, ih, mem_union, exists_mem_cons_iff, or_assoc]

theorem solveReaches_least (closed : graph.Closed) : ∃ passes reaches,
    (∀ more, passes ≤ more → solveReaches graph more = some reaches) ∧
      (∀ number ∈ (initDepthFirst graph).dfb,
        controlReaches graph number reaches = reaches number) ∧
      (∀ number, initialReaches graph number ⊆ reaches number) ∧
      ∀ solution, (∀ number, initialReaches graph number ⊆ solution number) →
        (∀ number ∈ (initDepthFirst graph).dfb,
          controlReaches graph number solution ⊆ solution number) →
        ∀ number, reaches number ⊆ solution number := by
  let equation : Nat → (Nat → (Finset Nat)ᵒᵈ) → (Finset Nat)ᵒᵈ := controlReaches graph
  let rank : (Finset Nat)ᵒᵈ → Nat := fun reached => graph.count - (OrderDual.ofDual reached).card
  let good : Set (Finset Nat)ᵒᵈ := { reached | OrderDual.ofDual reached ⊆ graph.allBlocks }
  have monotone : ∀ number, Monotone (equation number) := by
    intro number lower upper below item member
    obtain own | ⟨successor, leads, member⟩ := (mem_controlReaches number item upper).1 member
    · exact (mem_controlReaches number item lower).2 (.inl (below number own))
    · exact (mem_controlReaches number item lower).2
        (.inr ⟨successor, leads, below successor member⟩)
  have above : RoundRobin.Above equation (initialReaches graph) := fun number item member =>
    (mem_controlReaches number item _).2 (.inl member)
  have ranked : StrictMonoOn rank good := by
    intro lower _ upper upperGood below
    have fewer : (OrderDual.ofDual upper).card < (OrderDual.ofDual lower).card := card_lt_card below
    have most : (OrderDual.ofDual lower).card ≤ graph.count := by
      refine (card_le_card ‹lower ∈ good›).trans ?_
      rw [FlowGraph.allBlocks, Nat.card_Icc]
      omega
    simp only [rank]
    omega
  have within : RoundRobin.Closed good equation := by
    intro number values valuesGood item member
    obtain own | ⟨successor, -, member⟩ := (mem_controlReaches number item values).1 member
    · exact valuesGood number own
    · exact valuesGood successor member
  have start : ∀ number, initialReaches graph number ∈ good := by
    intro number item member
    rw [initialReaches] at member
    split_ifs at member with listed
    · obtain ⟨from1, below⟩ := mem_Icc.1 ((mem_dfb closed number).2 listed)
      exact mem_Icc.2 (closed.within number item from1 below (mem_toFinset.1 member))
    · cases notMem_empty item member
  obtain ⟨passes, enough⟩ := exists_gt (RoundRobin.weight rank (initDepthFirst graph).dfb.reverse
    (initialReaches graph))
  obtain ⟨solves, rises⟩ := above.solve rank monotone ranked within start enough
  have ends := above.solveWithin rank monotone ranked within start enough
  refine ⟨passes, _, fun more later => RoundRobin.solveWithin_mono ends later, ?_, rises, ?_⟩
  · exact fun number listed => solves number (mem_reverse.2 listed)
  · intro solution begins kept
    exact RoundRobin.le_solve monotone begins
      (fun number listed => kept number (mem_reverse.1 listed)) passes

theorem initialReaches_flows {number item : Nat} (member : item ∈ initialReaches graph number) :
    graph.Flows number item := by
  rw [initialReaches] at member
  split_ifs at member
  · exact .single (mem_toFinset.1 member)
  · cases notMem_empty item member

/-- **The sets of `seldom`** are the transitive closure of the successors, and it marks the
blocks on no cycle. -/
theorem seldom_right (closed : graph.Closed) : ∃ passes reaches marks,
    (∀ more, passes ≤ more → seldom graph more = some (reaches, marks)) ∧
      ∀ number ∈ (initDepthFirst graph).dfb,
        (∀ other, other ∈ reaches number ↔ graph.Flows number other) ∧
        (marks number = true ↔ ¬graph.Flows number number) := by
  classical
  obtain ⟨passes, reaches, ends, solves, rises, least⟩ := solveReaches_least closed
  have onward (number successor other : Nat) (listed : number ∈ (initDepthFirst graph).dfb)
      (leads : StepsTo graph.next number successor) (member : other ∈ reaches successor) :
      other ∈ reaches number := by
    rw [← solves number listed]
    exact (mem_controlReaches number other reaches).2 (.inr ⟨successor, leads, member⟩)
  have right : ∀ number ∈ (initDepthFirst graph).dfb, ∀ other,
      other ∈ reaches number ↔ graph.Flows number other := by
    intro number listed other
    refine ⟨fun member => ?_, fun flows => ?_⟩
    · -- the blocks that control comes to solve the equations
      refine (mem_filter.1 (least (fun number => (reaches number).filter fun other =>
        graph.Flows number other) (fun number item first => ?_) (fun number listed item next => ?_)
        number member)).2
      · exact mem_filter.2 ⟨rises number first, initialReaches_flows first⟩
      · obtain own | ⟨successor, leads, member⟩ := (mem_controlReaches number item _).1 next
        · exact own
        · obtain ⟨reached, flows⟩ := mem_filter.1 member
          exact mem_filter.2 ⟨onward number successor item listed leads reached, .head leads flows⟩
    · induction flows using Relation.TransGen.head_induction_on with
      | @single number leads =>
        refine rises number ?_
        rw [initialReaches, if_pos listed]
        exact mem_toFinset.2 leads
      | @head number successor leads _ ih =>
        have reached : successor ∈ (initDepthFirst graph).dfb :=
          (mem_dfb closed successor).1.2 (((mem_dfb closed number).1.1 listed).tail leads)
        exact onward number successor other listed leads (ih reached)
  refine ⟨passes, reaches, _, fun more later => by rw [seldom, ends more later]; rfl,
    fun number listed => ⟨right number listed, ?_⟩⟩
  simp [listed, right number listed]

theorem seldom_right_circle : ∃ passes reaches marks,
    (∀ more, passes ≤ more → seldom (twoBlocks true) more = some (reaches, marks)) ∧
      ∀ number ∈ (initDepthFirst (twoBlocks true)).dfb,
        (∀ other, other ∈ reaches number ↔ (twoBlocks true).Flows number other) ∧
        (marks number = true ↔ ¬(twoBlocks true).Flows number number) :=
  seldom_right (allReachable_twoBlocks true).closed

end Uw7.Amigo.Flow
