import Mathlib.Data.Finset.Card

/-!
# Depth-first search

A search marks a node, visits the successors that are not marked yet, and
finishes the node behind them.  With fuel for every node that is not marked,
the nodes it marks are those reachable from where it starts, and it finishes
each of them once.
-/

namespace Uw7.Lib

open List Function

/-- A search: the marked nodes, and the finished ones, the last one first. -/
structure Search (α : Type*) where
  visited : α → Bool
  finished : List α

variable {α : Type*}

namespace Search

/-- Nothing is marked. -/
def start : Search α where
  visited := fun _ => false
  finished := []

def mark [DecidableEq α] (search : Search α) (node : α) : Search α :=
  { search with visited := update search.visited node true }

def finish (search : Search α) (node : α) : Search α :=
  { search with finished := node :: search.finished }

/-- The visit of a node. -/
def visit [DecidableEq α] (next : α → List α) : Nat → Search α → α → Search α
  | 0, search, _ => search
  | fuel + 1, search, node =>
    ((next node).foldl (fun reached child =>
        if reached.visited child then reached
        else visit next fuel reached child) (search.mark node)).finish node

end Search

/-- A node leads to another. -/
def StepsTo (next : α → List α) (node child : α) : Prop := child ∈ next node

/-- What a search has done from the one to the other, beginning with some
nodes. -/
structure Explored (next : α → List α) (roots : List α) (search done : Search α) : Prop where
  keeps : ∀ node, search.visited node = true → done.visited node = true
  covers : ∀ node, node ∈ roots → done.visited node = true
  closed : ∀ node, done.visited node = true → search.visited node = false →
      ∀ child, child ∈ next node → done.visited child = true
  reached : ∀ node, done.visited node = true → search.visited node = false → ∃ root, root ∈ roots ∧
      Relation.ReflTransGen (StepsTo next) root node
  finishes : ∃ new, done.finished = new ++ search.finished ∧ new.Nodup ∧ ∀ node, node ∈ new ↔
      done.visited node = true ∧ search.visited node = false

/-- The nodes of a set that are not marked. -/
def Search.unvisited (search : Search α) (nodes : Finset α) : Finset α :=
  nodes.filter fun node => search.visited node = false

variable {nodes : Finset α} {search done : Search α}

theorem card_unvisited_le (keeps :
    ∀ node, search.visited node = true → done.visited node = true) :
    (done.unvisited nodes).card ≤ (search.unvisited nodes).card := by
  apply Finset.card_le_card
  intro node member
  obtain ⟨inside, unmarked⟩ := Finset.mem_filter.1 member
  refine Finset.mem_filter.2 ⟨inside, ?_⟩
  cases marked : search.visited node with
  | false => rfl
  | true =>
    rw [keeps node marked] at unmarked
    cases unmarked

theorem card_unvisited_mark [DecidableEq α] {search : Search α} {node : α}
    (inside : node ∈ nodes) (unmarked : search.visited node = false) :
    ((search.mark node).unvisited nodes).card < (search.unvisited nodes).card := by
  apply Finset.card_lt_card
  refine ⟨?_, ?_⟩
  · intro other member
    obtain ⟨within, stays⟩ := Finset.mem_filter.1 member
    refine Finset.mem_filter.2 ⟨within, ?_⟩
    by_cases same : other = node
    · rw [same]
      exact unmarked
    · simpa [Search.mark, update_of_ne same] using stays
  · intro all
    have member := all (Finset.mem_filter.2 ⟨inside, unmarked⟩)
    have stays := (Finset.mem_filter.1 member).2
    simp [Search.mark] at stays

theorem Explored.nil (next : α → List α) (search : Search α) : Explored next [] search search where
  keeps := fun _ marked => marked
  covers := fun _ member => absurd member not_mem_nil
  closed := fun node marked unmarked => by
    rw [marked] at unmarked
    cases unmarked
  reached := fun node marked unmarked => by
    rw [marked] at unmarked
    cases unmarked
  finishes := ⟨[], rfl, nodup_nil, fun node => by simp⟩

variable {next : α → List α}

theorem Explored.skip {roots : List α} {root : α}
    (explored : Explored next roots search done) (marked : search.visited root = true) :
    Explored next (root :: roots) search done where
  __ := explored
  covers := by
    intro node member
    rcases mem_cons.1 member with rfl | later
    · exact explored.keeps _ marked
    · exact explored.covers node later
  reached := by
    intro node new old
    obtain ⟨from', member, path⟩ := explored.reached node new old
    exact ⟨from', mem_cons_of_mem _ member, path⟩

theorem Explored.trans {roots : List α} {root : α}
    {search middle done : Search α} (first : Explored next [root] search middle)
    (rest : Explored next roots middle done) : Explored next (root :: roots) search done := by
  -- a node marked by the end was marked by the one or by the other
  have split {node : α} (new : done.visited node = true) (old : search.visited node = false) :
      middle.visited node = true ∨ (middle.visited node = false ∧ done.visited node = true) := by
    cases marked : middle.visited node with
    | true => exact .inl rfl
    | false => exact .inr ⟨rfl, new⟩
  refine
    { keeps := fun node marked =>
      rest.keeps node (first.keeps node marked)
      covers := ?_, closed := ?_, reached := ?_, finishes := ?_ }
  · intro node member
    rcases mem_cons.1 member with rfl | later
    · exact rest.keeps _ (first.covers _ mem_cons_self)
    · exact rest.covers node later
  · intro node new old child leads
    rcases split new old with early | ⟨late, _⟩
    · exact rest.keeps child (first.closed node early old child leads)
    · exact rest.closed node new late child leads
  · intro node new old
    rcases split new old with early | ⟨late, _⟩
    · obtain ⟨from', member, path⟩ := first.reached node early old
      obtain rfl := mem_singleton.1 member
      exact ⟨from', mem_cons_self, path⟩
    · obtain ⟨from', member, path⟩ := rest.reached node new late
      exact ⟨from', mem_cons_of_mem _ member, path⟩
  · obtain ⟨early, earlyEq, earlyNodup, earlyMem⟩ := first.finishes
    obtain ⟨late, lateEq, lateNodup, lateMem⟩ := rest.finishes
    refine ⟨late ++ early, ?_, ?_, ?_⟩
    · rw [lateEq, earlyEq, append_assoc]
    · refine nodup_append.2 ⟨lateNodup, earlyNodup, ?_⟩
      rintro node inLate _ inEarly rfl
      have unmarked := ((lateMem node).1 inLate).2
      rw [((earlyMem node).1 inEarly).1] at unmarked
      cases unmarked
    · intro node
      rw [mem_append, lateMem, earlyMem]
      constructor
      · rintro (⟨new, unmarked⟩ | ⟨marked, old⟩)
        · refine ⟨new, ?_⟩
          cases old : search.visited node with
          | false => rfl
          | true =>
            rw [first.keeps node old] at unmarked
            cases unmarked
        · exact ⟨rest.keeps node marked, old⟩
      · rintro ⟨new, old⟩
        rcases split new old with early | ⟨late, _⟩
        · exact .inr ⟨early, old⟩
        · exact .inl ⟨new, late⟩

theorem Explored.node [DecidableEq α] {node : α} (unmarked : search.visited node = false)
    (explored : Explored next (next node) (search.mark node) done) :
    Explored next [node] search (done.finish node) := by
  have here : (search.mark node).visited node = true := by simp [Search.mark]
  have away {other : α} (differ : other ≠ node) :
      (search.mark node).visited other = search.visited other := by
    simp [Search.mark, update_of_ne differ]
  have marked : done.visited node = true := explored.keeps node here
  refine
    { keeps := ?_, covers := ?_, closed := ?_, reached := ?_
      finishes := ?_ }
  · intro other old
    by_cases same : other = node
    · rw [same]
      exact marked
    · exact explored.keeps other ((away same).trans old)
  · intro other member
    obtain rfl := mem_singleton.1 member
    exact marked
  · intro other new old child leads
    by_cases same : other = node
    · subst same
      exact explored.covers child leads
    · exact explored.closed other new ((away same).trans old) child leads
  · intro other new old
    refine ⟨node, mem_cons_self, ?_⟩
    by_cases same : other = node
    · rw [same]
    · obtain ⟨root, member, path⟩ := explored.reached other new ((away same).trans old)
      exact Relation.ReflTransGen.head member path
  · obtain ⟨new, finished, nodup, members⟩ := explored.finishes
    refine ⟨node :: new, ?_, ?_, ?_⟩
    · exact congrArg (node :: ·) finished
    · refine nodup_cons.2 ⟨fun member => ?_, nodup⟩
      have fresh := ((members node).1 member).2
      rw [here] at fresh
      cases fresh
    · intro other
      rw [mem_cons, members]
      by_cases same : other = node
      · subst same
        exact ⟨fun _ => ⟨marked, unmarked⟩, fun _ => .inl rfl⟩
      · rw [away same]
        exact ⟨fun either => either.resolve_left same, .inr⟩

theorem explored_visit [DecidableEq α] (closed :
    ∀ node, node ∈ nodes → ∀ child, child ∈ next node → child ∈ nodes) (fuel : Nat)
    {search : Search α}
    {node : α} (inside : node ∈ nodes) (unmarked : search.visited node = false)
    (enough : (search.unvisited nodes).card ≤ fuel) :
    Explored next [node] search (search.visit next fuel node) := by
  induction fuel generalizing search node with
  | zero =>
    have fewer := card_unvisited_mark inside unmarked
    omega
  | succ fuel ih =>
    refine Explored.node unmarked ?_
    have left := card_unvisited_mark inside unmarked
    have within := closed node inside
    have rest : ((search.mark node).unvisited nodes).card ≤ fuel := by omega
    generalize next node = children at within ⊢
    generalize search.mark node = reached at rest ⊢
    -- over the children, with the fuel that is left
    induction children generalizing reached with
    | nil => exact Explored.nil next reached
    | cons child children overChildren =>
      have later : ∀ other, other ∈ children → other ∈ nodes := fun other member =>
          within other (mem_cons_of_mem _ member)
      rw [foldl_cons]
      cases marked : reached.visited child with
      | true => exact (overChildren later reached rest).skip marked
      | false =>
        have first := ih (within child mem_cons_self) marked rest
        exact first.trans (overChildren later _ (le_trans (card_unvisited_le first.keeps) rest))

/-- **The marked nodes are the reachable ones**: a search that starts with
nothing marked marks what its node leads to, and finishes each of these
once. -/
theorem visit_start [DecidableEq α] (closed :
    ∀ node, node ∈ nodes → ∀ child, child ∈ next node → child ∈ nodes)
    {fuel : Nat}
    {root : α} (inside : root ∈ nodes) (enough : nodes.card ≤ fuel) :
    (∀ node, (Search.start.visit next fuel root).visited node = true ↔
      Relation.ReflTransGen (StepsTo next) root node) ∧
      (Search.start.visit next fuel root).finished.Nodup ∧
      ∀ node, node ∈ (Search.start.visit next fuel root).finished ↔
        (Search.start.visit next fuel root).visited node = true := by
  have unmarked (node : α) : (Search.start : Search α).visited node = false := rfl
  have fewer : ((Search.start : Search α).unvisited nodes).card ≤ fuel :=
    le_trans (Finset.card_filter_le _ _) enough
  have explored := explored_visit closed fuel inside (unmarked root) fewer
  obtain ⟨new, finished, nodup, members⟩ := explored.finishes
  have all : (Search.start.visit next fuel root).finished = new := by
    rw [finished]
    exact append_nil new
  refine ⟨?_, ?_, ?_⟩
  · intro node
    constructor
    · intro marked
      obtain ⟨from', member, path⟩ := explored.reached node marked (unmarked node)
      obtain rfl := mem_singleton.1 member
      exact path
    · intro path
      induction path with
      | refl => exact explored.covers root mem_cons_self
      | tail _ leads ih => exact explored.closed _ ih (unmarked _) _ leads
  · rw [all]
    exact nodup
  · intro node
    rw [all, members]
    exact ⟨And.left, fun marked => ⟨marked, unmarked node⟩⟩

end Uw7.Lib
