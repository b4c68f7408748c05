import Mathlib.Logic.Relation
import Mathlib.Data.List.Nodup

/-!
# The graph of tsort

`sgs/tsort/common/tsort.c`.  A node is a position of the node list; behind the
last one stands the empty element, which is dead and has no predecessors.  The
names are the strings that `fscanf` reads, in pairs.
-/

open Function List

namespace Uw7.Tsort

/-- The states of the `live` field. -/
inductive Live where
  | dead
  | live
  | visited
deriving DecidableEq

/-- The node list: the names, and the fields of each position. -/
structure Nodelist where
  names : List String
  inedges : Nat → List Nat
  live : Nat → Live

/-- The node list with only the empty element. -/
def Nodelist.empty : Nodelist where
  names := []
  inedges := fun _ => []
  live := fun _ => .dead

/-- `index`: the node of a string, which takes the empty element's place if
there is none. -/
def index (list : Nodelist) (s : String) : Nat × Nodelist :=
  if s ∈ list.names then (list.names.idxOf s, list)
  else
    (list.names.length,
      { list with
        names := list.names ++ [s]
        live := update list.live list.names.length .live })

/-- `present`: a node is on the predecessor list of another. -/
def present (list : Nodelist) (i j : Nat) : Bool := (list.inedges j).contains i

/-- A pair of the input is read. -/
def enter (list : Nodelist) (pair : String × String) : Nodelist :=
  let (i, named) := index list pair.1
  let (j, both) := index named pair.2
  if i = j ∨ present both i j then both
  else
    { both with
      inedges := update both.inedges j (i :: both.inedges j) }

/-- The graph of the input. -/
def readGraph (pairs : List (String × String)) : Nodelist := pairs.foldl enter Nodelist.empty

def Item (pairs : List (String × String)) (s : String) : Prop :=
  ∃ pair ∈ pairs, s = pair.1 ∨ s = pair.2

/-- An item precedes another in the input; an identical pair merely indicates
its presence. -/
def Precedes (pairs : List (String × String)) (before after : String) : Prop :=
  (before, after) ∈ pairs ∧ before ≠ after

structure Named (list : Nodelist) : Prop where
  once : list.names.Nodup
  live : ∀ i, list.live i = if i < list.names.length then .live else .dead

structure Holds (pairs : List (String × String)) (list : Nodelist) : Prop extends Named list where
  named : ∀ s, s ∈ list.names ↔ Item pairs s
  edges : ∀ i j, i ∈ list.inedges j ↔ ∃ before after, Precedes pairs before after ∧
      list.names.idxOf before = i ∧ list.names.idxOf after = j

theorem Named.index {list : Nodelist} (named : Named list) (s : String) : Named (index list s).2 ∧
    (index list s).2.inedges = list.inedges ∧
    (∀ t, t ∈ (index list s).2.names ↔ t ∈ list.names ∨ t = s) ∧
    (∀ t, t ∈ list.names → (index list s).2.names.idxOf t = list.names.idxOf t) ∧
    (index list s).1 = (index list s).2.names.idxOf s := by
  unfold Tsort.index
  by_cases known : s ∈ list.names
  · rw [if_pos known]
    refine ⟨named, rfl, fun t => ?_, fun t _ => rfl, rfl⟩
    exact ⟨.inl, fun either => either.elim id fun same => same ▸ known⟩
  · rw [if_neg known]
    refine ⟨⟨?_, fun i => ?_⟩, rfl, fun t => ?_, fun t member => ?_, ?_⟩
    · exact Nodup.append named.once (nodup_singleton s) (disjoint_singleton.2 known)
    · simp only [length_append, length_singleton]
      by_cases last : i = list.names.length
      · rw [last, update_self, if_pos (Nat.lt_succ_self _)]
      · rw [update_of_ne last, named.live]
        exact if_congr (by omega) rfl rfl
    · exact mem_append.trans (or_congr_right mem_singleton)
    · exact idxOf_append_of_mem member
    · rw [idxOf_append_of_notMem known, idxOf_cons_self, Nat.add_zero]

theorem edges_enter {pairs : List (String × String)} {names : List String}
    {inedges : Nat → List Nat} {before after : String}
    (edges : ∀ i j, i ∈ inedges j ↔ ∃ one other, Precedes pairs one other ∧
      names.idxOf one = i ∧ names.idxOf other = j)
    (differ : before ≠ after) (i j : Nat) :
    i ∈ update inedges (names.idxOf after) (names.idxOf before :: inedges (names.idxOf after)) j ↔
      ∃ one other, Precedes (pairs ++ [(before, after)]) one other ∧
        names.idxOf one = i ∧ names.idxOf other = j := by
  have old {one other : String} : Precedes (pairs ++ [(before, after)]) one other ↔
      Precedes pairs one other ∨ one = before ∧ other = after := by
    unfold Precedes
    rw [mem_append, mem_singleton, Prod.mk.injEq]
    constructor
    · rintro ⟨listed | new, apart⟩
      · exact .inl ⟨listed, apart⟩
      · exact .inr new
    · rintro (⟨listed, apart⟩ | ⟨rfl, rfl⟩)
      · exact ⟨.inl listed, apart⟩
      · exact ⟨.inr ⟨rfl, rfl⟩, differ⟩
  have split : i ∈ update inedges (names.idxOf after)
      (names.idxOf before :: inedges (names.idxOf after)) j ↔
      i ∈ inedges j ∨ i = names.idxOf before ∧ j = names.idxOf after := by
    by_cases here : j = names.idxOf after
    · rw [here, update_self, mem_cons, or_comm]
      exact or_congr_right (and_iff_left rfl).symm
    · rw [update_of_ne here]
      exact (or_iff_left fun both => here both.2).symm
  rw [split, edges]
  constructor
  · rintro (⟨one, other, precedes, rfl, rfl⟩ | ⟨rfl, rfl⟩)
    · exact ⟨one, other, old.2 (.inl precedes), rfl, rfl⟩
    · exact ⟨before, after, old.2 (.inr ⟨rfl, rfl⟩), rfl, rfl⟩
  · rintro ⟨one, other, precedes, rfl, rfl⟩
    rcases old.1 precedes with known | ⟨rfl, rfl⟩
    · exact .inl ⟨one, other, known, rfl, rfl⟩
    · exact .inr ⟨rfl, rfl⟩

theorem Holds.enter {pairs : List (String × String)} {list : Nodelist} (holds : Holds pairs list)
    (pair : String × String) : Holds (pairs ++ [pair]) (enter list pair) := by
  obtain ⟨before, after⟩ := pair
  obtain ⟨first, firstEdges, firstNames, firstKept, firstNode⟩ := holds.toNamed.index before
  obtain ⟨second, secondEdges, secondNames, secondKept, secondNode⟩ := first.index after
  unfold Tsort.enter
  simp only
  generalize Tsort.index list before = one at *
  generalize Tsort.index one.2 after = both at *
  have named (s : String) : s ∈ both.2.names ↔ Item (pairs ++ [(before, after)]) s := by
    rw [secondNames, firstNames, holds.named]
    unfold Item
    simp only [mem_append, mem_singleton, or_and_right, exists_or, exists_eq_left, or_assoc]
  have beforeNode : one.1 = both.2.names.idxOf before := by
    rw [firstNode, secondKept before ((firstNames before).2 (.inr rfl))]
  have beforeIn : before ∈ both.2.names :=
    (secondNames before).2 (.inl ((firstNames before).2 (.inr rfl)))
  -- the edges that are there, by the nodes of the longer list
  have edges (i j : Nat) : i ∈ both.2.inedges j ↔ ∃ some1 other, Precedes pairs some1 other ∧
      both.2.names.idxOf some1 = i ∧ both.2.names.idxOf other = j := by
    have kept {s : String} (item : Item pairs s) : both.2.names.idxOf s = list.names.idxOf s := by
      have known := (holds.named s).2 item
      rw [secondKept s ((firstNames s).2 (.inl known)), firstKept s known]
    rw [secondEdges, firstEdges, holds.edges]
    refine exists_congr fun some1 => exists_congr fun other => and_congr_right fun precedes => ?_
    rw [kept ⟨_, precedes.1, .inl rfl⟩, kept ⟨_, precedes.1, .inr rfl⟩]
  rw [beforeNode, secondNode]
  split
  case isTrue skip =>
    -- the pair is an identical one, or its edge is there
    have known {some1 other : String} : Precedes (pairs ++ [(before, after)]) some1 other ↔
        Precedes pairs some1 other := by
      unfold Precedes
      rw [mem_append, mem_singleton, Prod.mk.injEq]
      refine and_congr_left fun apart => or_iff_left_of_imp ?_
      rintro ⟨rfl, rfl⟩
      rcases skip with same | there
      · exact absurd ((idxOf_inj beforeIn).1 same) apart
      · obtain ⟨one', other', precedes, sameOne, sameOther⟩ :=
          (edges _ _).1 (contains_iff_mem.1 there)
        have fromItems := (named one').2 ⟨_, mem_append_left _ precedes.1, .inl rfl⟩
        have toItems := (named other').2 ⟨_, mem_append_left _ precedes.1, .inr rfl⟩
        rw [← (idxOf_inj fromItems).1 sameOne, ← (idxOf_inj toItems).1 sameOther]
        exact precedes.1
    refine { toNamed := second, named := named, edges := fun i j => ?_ }
    rw [edges]
    simp only [known]
  case isFalse new =>
    have differ : before ≠ after := by
      rintro rfl
      exact new (.inl rfl)
    exact
      { once := second.once, live := second.live, named := named
        edges := edges_enter edges differ }

/-- **What is read**: the nodes are the items, each of them once, and the edges
are those of the input. -/
theorem holds_readGraph (pairs : List (String × String)) : Holds pairs (readGraph pairs) := by
  have run (done rest : List (String × String)) {list : Nodelist} (holds : Holds done list) :
      Holds (done ++ rest) (rest.foldl enter list) := by
    induction rest generalizing done list with
    | nil =>
      rw [append_nil]
      exact holds
    | cons pair rest ih =>
      have later := ih (done ++ [pair]) (holds.enter pair)
      rw [append_assoc] at later
      exact later
  refine run [] pairs ?_
  exact
    { once := nodup_nil
      live := fun i => rfl
      named := fun s => by simp [Nodelist.empty, Item]
      edges := fun i j => by simp [Nodelist.empty, Precedes] }

def Nodelist.name (list : Nodelist) (i : Nat) : String := list.names.getD i ""

end Uw7.Tsort
