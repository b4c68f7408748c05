import Uw7.Lib.MustSets
import Uw7.Amigo.FlowGraph

/-!
# Dominators

The set of a block is solved for in depth-first order: the sets of all its
predecessors have the block in common, and the block itself is added.  The
solution begins with full sets, except for the blocks without predecessors,
which have themselves only.
-/

namespace Uw7.Amigo.Flow

open Uw7.Lib List

/-- All bits of a block set. -/
def FlowGraph.allBlocks (graph : FlowGraph) : Finset Nat := Finset.Icc 1 graph.count

/-- A block whose set the passes compute: one in depth-first order, with
predecessors. -/
def FlowGraph.Solved (graph : FlowGraph) (number : Nat) : Prop :=
  number ∈ (initDepthFirst graph).dfb ∧ (graph.blocks number).pred ≠ []

/-- Whether the passes compute the set of a block. -/
instance (graph : FlowGraph) (number : Nat) : Decidable (graph.Solved number) :=
  inferInstanceAs (Decidable (_ ∧ _))

/-- What the set of a block is set to before the passes. -/
def initialDominators (graph : FlowGraph) (number : Nat) : Finset Nat :=
  if graph.Solved number then graph.allBlocks else {number}

/-- The set of a block, from the sets of its predecessors: those that have one,
which are the ones in depth-first order. -/
def dominatorSet (graph : FlowGraph) (number : Nat) (dominators : Nat → Finset Nat) : Finset Nat :=
  if graph.Solved number then
    insert number (MustSets.meet graph.allBlocks ((graph.blocks number).pred.filter
        fun pred => pred ∈ (initDepthFirst graph).dfb)
        dominators)
  else dominators number

/-- `dominate`, when it makes no more than a number of passes. -/
def dominate (graph : FlowGraph) (passes : Nat) : Option (Nat → Finset Nat) :=
  RoundRobin.solveWithin (dominatorSet graph) (initDepthFirst graph).dfb passes
    (initialDominators graph)

/-- A path of control from the first block to a block, which stands first. -/
inductive FlowGraph.Path (graph : FlowGraph) : Nat → List Nat → Prop where
  | first : graph.Path 1 [1]
  | step {number next : Nat} {path : List Nat} : graph.Path number path →
      next ∈ (graph.blocks number).succ →
      graph.Path next (next :: path)

/-- The sets hold the blocks that every path from the first block passes. -/
def DominatorsOfPaths (graph : FlowGraph) (dominators : Nat → Finset Nat) : Prop :=
  ∀ b1 b2, b1 ∈ graph.allBlocks → b2 ∈ graph.allBlocks →
    (b2 ∈ dominators b1 ↔ ∀ path, graph.Path b1 path → b2 ∈ path)

/-- A flow graph that control comes to every block of. -/
structure FlowGraph.AllReachable (graph : FlowGraph) : Prop where
  closed : graph.Closed
  reachable : ∀ number, 1 ≤ number → number ≤ graph.count → graph.Reachable number

variable {graph : FlowGraph}

theorem mem_dfb (closed : graph.Closed) (number : Nat) :
    (number ∈ (initDepthFirst graph).dfb ↔ graph.Reachable number) ∧
      (number ∈ (initDepthFirst graph).dfb → number ∈ graph.allBlocks) := by
  have first : 1 ∈ graph.allBlocks := Finset.mem_Icc.2 ⟨le_rfl, closed.some1⟩
  have inside : ∀ node, node ∈ graph.allBlocks →
      ∀ child, child ∈ graph.next node → child ∈ graph.allBlocks := by
    intro node member child leads
    obtain ⟨from1, below⟩ := Finset.mem_Icc.1 member
    exact Finset.mem_Icc.2 (closed.within node child from1 below leads)
  have enough : graph.allBlocks.card ≤ graph.count := by
    rw [FlowGraph.allBlocks, Nat.card_Icc]
    omega
  obtain ⟨visited, -, members⟩ := visit_start inside first enough
  have reaches : number ∈ (initDepthFirst graph).dfb ↔ graph.Reachable number :=
    (members number).trans (visited number)
  refine ⟨reaches, fun member => ?_⟩
  have path := reaches.1 member
  clear member reaches
  induction path with
  | refl => exact first
  | tail _ leads ih => exact inside _ ih _ leads

theorem FlowGraph.Closed.mem_pred (closed : graph.Closed) (number other : Nat) :
    number ∈ (graph.blocks other).pred ↔ other ∈ (graph.blocks number).succ := by
  rw [← count_pos_iff, ← closed.inverse number other, count_pos_iff]

theorem monotone_dominatorSet (graph : FlowGraph) (number : Nat) :
    Monotone (dominatorSet graph number) := by
  intro lower upper below
  unfold dominatorSet
  by_cases solved : graph.Solved number
  · rw [if_pos solved, if_pos solved]
    refine Finset.insert_subset_insert number ?_
    intro item member
    rw [MustSets.mem_meet] at member ⊢
    exact ⟨member.1, fun pred listed => below pred (member.2 pred listed)⟩
  · rw [if_neg solved, if_neg solved]
    exact below number

theorem above_initialDominators (closed : graph.Closed) :
    RoundRobin.Above (dominatorSet graph) (initialDominators graph) := by
  intro number
  unfold dominatorSet
  by_cases solved : graph.Solved number
  · rw [if_pos solved, initialDominators, if_pos solved]
    refine Finset.insert_subset ((mem_dfb closed number).2 solved.1) ?_
    intro item member
    exact ((MustSets.mem_meet _ _ _ _).1 member).1
  · rw [if_neg solved]

/-- **The solution of `dominate`**: the passes come to an end, the sets solve
their equations and fall from the first ones, and no such solution is
greater. -/
theorem dominate_greatest (closed : graph.Closed) : ∃ passes dominators,
    (∀ more, passes ≤ more → dominate graph more = some dominators) ∧
      RoundRobin.Solves (dominatorSet graph) (initDepthFirst graph).dfb dominators ∧
      dominators ≤ initialDominators graph ∧
      ∀ solution, solution ≤ initialDominators graph → (∀ number ∈ (initDepthFirst graph).dfb,
        solution number ≤ dominatorSet graph number solution) →
        solution ≤ dominators := by
  have above := above_initialDominators closed
  have monotone := monotone_dominatorSet graph
  have ranked := (Finset.card_strictMono (α := Nat)).strictMonoOn Set.univ
  have within : RoundRobin.Closed Set.univ (dominatorSet graph) := fun _ _ _ => Set.mem_univ _
  obtain ⟨passes, enough⟩ := exists_gt (RoundRobin.weight Finset.card (initDepthFirst graph).dfb
    (initialDominators graph))
  obtain ⟨solves, falls⟩ := above.solve Finset.card monotone ranked within (fun _ => Set.mem_univ _)
    enough
  have ends := above.solveWithin Finset.card monotone ranked within (fun _ => Set.mem_univ _) enough
  refine ⟨passes, _, fun more later => ?_, solves, falls, ?_⟩
  · exact RoundRobin.solveWithin_mono ends later
  · intro solution below solution_le
    exact RoundRobin.le_solve monotone below solution_le passes

variable {number : Nat} {path : List Nat} {dominators : Nat → Finset Nat}

theorem FlowGraph.Path.reachable (leads : graph.Path number path) :
    graph.Reachable number ∧ number ∈ path := by
  induction leads with
  | first => exact ⟨Relation.ReflTransGen.refl, mem_singleton_self 1⟩
  | step _ next ih => exact ⟨ih.1.tail next, mem_cons_self⟩

theorem FlowGraph.Path.before (closed : graph.Closed) {pred item : Nat}
    (listed : pred ∈ (graph.blocks number).pred) (differ : item ≠ number)
    (every : ∀ path, graph.Path number path → item ∈ path) (leads : graph.Path pred path) :
    item ∈ path := by
  have next := (closed.mem_pred pred number).1 listed
  exact (mem_cons.1 (every _ (leads.step next))).resolve_left differ

/-- **The sets of `dominate`** when the first block has no predecessors. -/
theorem dominatorsOfPaths_of_entry (reachable : graph.AllReachable)
    (entry : (graph.blocks 1).pred = [])
    (solves : RoundRobin.Solves (dominatorSet graph) (initDepthFirst graph).dfb dominators)
    (falls : dominators ≤ initialDominators graph)
    (greatest : ∀ solution, solution ≤ initialDominators graph →
      (∀ number ∈ (initDepthFirst graph).dfb,
        solution number ≤ dominatorSet graph number solution) →
      solution ≤ dominators) :
    DominatorsOfPaths graph dominators := by
  have closed := reachable.closed
  intro b1 b2 b1All b2All
  constructor
  · -- along a path a set only gains the block that is entered
    intro member path leads
    clear b1All
    induction leads with
    | first =>
      have start := falls 1 member
      rw [initialDominators, if_neg fun solved => solved.2 entry] at start
      exact mem_singleton.2 (Finset.mem_singleton.1 start)
    | @step number next path leads follows ih =>
      have listed := (closed.mem_pred number next).2 follows
      have solved : graph.Solved next :=
        ⟨(mem_dfb closed next).1.2 (leads.step follows).reachable.1, ne_nil_of_mem listed⟩
      have same := solves next solved.1
      rw [← same, dominatorSet, if_pos solved, Finset.mem_insert, MustSets.mem_meet] at member
      rcases member with rfl | ⟨-, every⟩
      · exact mem_cons_self
      · refine mem_cons_of_mem _ (ih (every number ?_))
        refine mem_filter.2 ⟨listed, decide_eq_true ?_⟩
        exact (mem_dfb closed number).1.2 leads.reachable.1
  · -- the blocks on every path solve the equations
    intro every
    classical
    refine greatest (fun number => graph.allBlocks.filter fun item =>
      graph.Reachable number ∧ ∀ path, graph.Path number path → item ∈ path) ?_ ?_ b1
      (Finset.mem_filter.2 ⟨b2All, ?_, every⟩)
    · intro number item member
      obtain ⟨inside, reached, onEvery⟩ := Finset.mem_filter.1 member
      rw [initialDominators]
      split
      · exact inside
      · next unsolved =>
          -- control comes only to the first block without a predecessor
          cases reached with
          | refl =>
            have alone := onEvery [1] FlowGraph.Path.first
            exact Finset.mem_singleton.2 (mem_singleton.1 alone)
          | @tail before _ path leads =>
            refine absurd ⟨?_, ?_⟩ unsolved
            · exact (mem_dfb closed number).1.2 (path.tail leads)
            · exact ne_nil_of_mem ((closed.mem_pred before number).2 leads)
    · intro number listed item member
      obtain ⟨inside, reached, onEvery⟩ := Finset.mem_filter.1 member
      unfold dominatorSet
      split
      · rw [Finset.mem_insert, MustSets.mem_meet]
        by_cases differ : item = number
        · exact .inl differ
        · refine .inr ⟨inside, fun pred preds => ?_⟩
          obtain ⟨edge, solved⟩ := mem_filter.1 preds
          refine Finset.mem_filter.2 ⟨inside, ?_, ?_⟩
          · exact (mem_dfb closed pred).1.1 (of_decide_eq_true solved)
          · exact fun path leads => leads.before closed edge differ onEvery
      · exact member
    · obtain ⟨from1, below⟩ := Finset.mem_Icc.1 b1All
      exact reachable.reachable b1 from1 below

/-- **The sets of `dominate`** when the first block has predecessors: every
block is in every set. -/
theorem eq_allBlocks_of_pred (reachable : graph.AllReachable) (back : (graph.blocks 1).pred ≠ [])
    (greatest : ∀ solution, solution ≤ initialDominators graph →
      (∀ number ∈ (initDepthFirst graph).dfb,
        solution number ≤ dominatorSet graph number solution) →
      solution ≤ dominators) (member : number ∈ graph.allBlocks) :
    graph.allBlocks ⊆ dominators number := by
  have closed := reachable.closed
  have solved {other : Nat} (listed : other ∈ (initDepthFirst graph).dfb) : graph.Solved other := by
    refine ⟨listed, ?_⟩
    cases (mem_dfb closed other).1.1 listed with
    | refl => exact back
    | @tail before _ path leads => exact ne_nil_of_mem ((closed.mem_pred before other).2 leads)
  have full := greatest (initialDominators graph) le_rfl ?_ number
  · rw [initialDominators, if_pos (solved ?_)] at full
    · exact full
    · obtain ⟨from1, below⟩ := Finset.mem_Icc.1 member
      exact (mem_dfb closed number).1.2 (reachable.reachable number from1 below)
  · intro other listed item inside
    rw [initialDominators, if_pos (solved listed)] at inside
    rw [dominatorSet, if_pos (solved listed), Finset.mem_insert, MustSets.mem_meet]
    refine .inr ⟨inside, fun pred preds => ?_⟩
    have entered := of_decide_eq_true (mem_filter.1 preds).2
    rw [initialDominators, if_pos (solved entered)]
    exact inside

theorem not_dominatorsOfPaths (second : 2 ≤ graph.count) (full : graph.allBlocks ⊆ dominators 1) :
    ¬DominatorsOfPaths graph dominators := by
  intro ofPaths
  have one : 1 ∈ graph.allBlocks := Finset.mem_Icc.2 ⟨le_rfl, by omega⟩
  have two : 2 ∈ graph.allBlocks := Finset.mem_Icc.2 ⟨by omega, second⟩
  have passed := (ofPaths 1 2 one two).1 (full two) [1] FlowGraph.Path.first
  exact absurd (mem_singleton.1 passed) (by decide)

/-- **What `dominate` computes**: it comes to an end; its sets are those of the
paths exactly when nothing comes back to the first block, or there is no other
block; and if something does, every block is in every set. -/
theorem dominate_right (graph : FlowGraph) (reachable : graph.AllReachable) : ∃ passes dominators,
    (∀ more, passes ≤ more → dominate graph more = some dominators) ∧
      (DominatorsOfPaths graph dominators ↔ (graph.blocks 1).pred = [] ∨ graph.count = 1) ∧
      ((graph.blocks 1).pred ≠ [] →
        ∀ b1, b1 ∈ graph.allBlocks → graph.allBlocks ⊆ dominators b1) := by
  have some1 := reachable.closed.some1
  have first : 1 ∈ graph.allBlocks := Finset.mem_Icc.2 ⟨le_rfl, some1⟩
  obtain ⟨passes, dominators, ends, solves, falls, greatest⟩ := dominate_greatest reachable.closed
  have full (back : (graph.blocks 1).pred ≠ []) (b1 : Nat) (member : b1 ∈ graph.allBlocks) :
      graph.allBlocks ⊆ dominators b1 :=
    eq_allBlocks_of_pred reachable back greatest member
  refine ⟨passes, dominators, ends, ⟨?_, ?_⟩, full⟩
  · intro ofPaths
    by_contra wrong
    obtain ⟨back, more⟩ := not_or.1 wrong
    exact not_dominatorsOfPaths (by omega) (full back 1 first) ofPaths
  · intro condition
    by_cases entry : (graph.blocks 1).pred = []
    · exact dominatorsOfPaths_of_entry reachable entry solves falls greatest
    · have single := condition.resolve_left entry
      intro b1 b2 b1All b2All
      have only {number : Nat} (member : number ∈ graph.allBlocks) : number = 1 := by
        obtain ⟨from1, below⟩ := Finset.mem_Icc.1 member
        omega
      rw [only b1All, only b2All]
      exact iff_of_true (full entry 1 first first) fun path leads => leads.reachable.2

/-- Two blocks: behind the second control goes back to the first, or ends. -/
def twoBlocks (back : Bool) : FlowGraph where
  itemAt := fun _ => .other
  deleted := fun _ => false
  count := 2
  blocks := fun number =>
    if number = 1 then ⟨0, 0, [2], if back then [2] else []⟩
    else if number = 2 then ⟨1, 1, if back then [1] else [], [1]⟩
    else ⟨0, 0, [], []⟩

theorem allReachable_twoBlocks (back : Bool) : (twoBlocks back).AllReachable where
  closed :=
    { some1 := Nat.le_succ 1
      within := by
        intro number other from1 below listed
        have either : number = 1 ∨ number = 2 := by
          change number ≤ 2 at below
          omega
        rcases either with rfl | rfl
        · obtain rfl := mem_singleton.1 listed
          exact ⟨by omega, Nat.le_refl 2⟩
        · cases back with
          | false => cases listed
          | true =>
            obtain rfl := mem_singleton.1 listed
            exact ⟨by decide, by decide⟩
      inverse := by
        intro number other
        by_cases one : number = 1 <;> by_cases two : number = 2 <;>
          by_cases intoOne : other = 1 <;> by_cases intoTwo : other = 2 <;>
          cases back <;> simp_all [twoBlocks, count_cons] <;> omega }
  reachable := by
    intro number from1 below
    have either : number = 1 ∨ number = 2 := by
      change number ≤ 2 at below
      omega
    rcases either with rfl | rfl
    · exact Relation.ReflTransGen.refl
    · exact Relation.ReflTransGen.single mem_cons_self

theorem dominate_right_twoBlocks : ∃ passes dominators, (∀ more, passes ≤ more →
    dominate (twoBlocks false) more = some dominators) ∧
    DominatorsOfPaths (twoBlocks false) dominators := by
  obtain ⟨passes, dominators, ends, right, -⟩ :=
    dominate_right (twoBlocks false) (allReachable_twoBlocks false)
  exact ⟨passes, dominators, ends, right.2 (.inl rfl)⟩

theorem dominate_twoBlocks_circle : (twoBlocks true).AllReachable ∧ ¬∃ passes dominators,
    (∀ more, passes ≤ more → dominate (twoBlocks true) more = some dominators) ∧
      DominatorsOfPaths (twoBlocks true) dominators := by
  have reachable := allReachable_twoBlocks true
  refine ⟨reachable, ?_⟩
  rintro ⟨passes, dominators, ends, ofPaths⟩
  obtain ⟨enough, result, same, -, -, greatest⟩ := dominate_greatest reachable.closed
  have equal := (ends _ (le_max_left passes enough)).symm.trans
      (same _ (le_max_right passes enough))
  cases equal
  have first : 1 ∈ (twoBlocks true).allBlocks := Finset.mem_Icc.2 ⟨le_rfl, Nat.le_succ 1⟩
  have full := eq_allBlocks_of_pred reachable (cons_ne_nil 2 []) greatest first
  exact not_dominatorsOfPaths le_rfl full ofPaths

end Uw7.Amigo.Flow
