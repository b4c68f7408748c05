import Mathlib.Data.Finset.Card
import Uw7.Lib.RoundRobin

/-!
# Sets that hold on every way in

Every place of a graph has a set: what every predecessor passes on to it.  The
equations of the places with predecessors are solved round robin, from full sets;
at the end a place has only what each of its
predecessors passes on, and a place without predecessors has nothing.
-/

namespace Uw7.Lib.MustSets

variable {Place Item : Type} [DecidableEq Place] [DecidableEq Item]

def meet (full : Finset Item) (places : List Place) (out : Place → Finset Item) : Finset Item :=
  places.foldl (fun set before => set ∩ out before) full

omit [DecidableEq Place] in
theorem mem_meet (full : Finset Item) (places : List Place) (out : Place → Finset Item)
    (item : Item) :
    item ∈ meet full places out ↔ item ∈ full ∧ ∀ place ∈ places, item ∈ out place := by
  induction places generalizing full with
  | nil => simp [meet]
  | cons place rest ih =>
    have step : meet full (place :: rest) out = meet (full ∩ out place) rest out := rfl
    rw [step, ih, Finset.mem_inter, List.forall_mem_cons, and_assoc]

/-- A problem on a graph: the places in the order of the passes, the
predecessors, the full set, and what a place passes on along an edge. -/
structure Problem (Place Item : Type) where
  order : List Place
  pred : Place → List Place
  full : Finset Item
  pass : Place → Place → Finset Item → Finset Item

namespace Problem

variable (problem : Problem Place Item)

/-- The places whose equations are solved. -/
def Inner (place : Place) : Prop := place ∈ problem.order ∧ problem.pred place ≠ []

/-- Whether the equation of a place is solved. -/
instance (place : Place) : Decidable (problem.Inner place) := inferInstanceAs (Decidable (_ ∧ _))

def equation (place : Place) (sets : Place → Finset Item) : Finset Item :=
  if problem.Inner place then
    meet problem.full (problem.pred place) fun before =>
      problem.pass before place (sets before)
  else sets place

/-- The sets of a solution that begins with full sets. -/
def start (place : Place) : Finset Item :=
  if problem.Inner place then problem.full else ∅

/-- The passes that are enough. -/
def fuel : Nat := problem.order.length * problem.full.card + 1

/-- The solution from full sets. -/
def fromFull : Place → Finset Item :=
  RoundRobin.solve problem.equation problem.order problem.fuel problem.start

def Grows : Prop := ∀ before place, Monotone (problem.pass before place)

variable {problem}

theorem monotone_equation (grows : problem.Grows) (place : Place) :
    Monotone (problem.equation place) := by
  intro lower upper below
  unfold equation
  by_cases inner : problem.Inner place
  · rw [if_pos inner, if_pos inner]
    intro item member
    rw [mem_meet] at member ⊢
    exact ⟨member.1, fun before listed =>
      grows before place (below before) (member.2 before listed)⟩
  · rw [if_neg inner, if_neg inner]
    exact below place

omit [DecidableEq Place] [DecidableEq Item] in
theorem weight_lt_fuel {rank : Finset Item → Nat} {sets : Place → Finset Item}
    (small : ∀ place, rank (sets place) ≤ problem.full.card) :
    RoundRobin.weight rank problem.order sets < problem.fuel := by
  unfold RoundRobin.weight fuel
  refine Nat.lt_succ_of_le ?_
  have bounded := List.sum_le_card_nsmul (problem.order.map fun place => rank (sets place))
      problem.full.card (by
        intro weight member
        obtain ⟨place, -, rfl⟩ := List.mem_map.1 member
        exact small place)
  simpa using bounded

/-- What a solution that is empty elsewhere says of the places. -/
structure Sound (problem : Problem Place Item) (sets : Place → Finset Item) : Prop where
  passed : ∀ place ∈ problem.order, ∀ before ∈ problem.pred place,
      sets place ⊆ problem.pass before place (sets before)
  empty : ∀ place, problem.pred place = [] → sets place = ∅

theorem sound_of_solves {sets : Place → Finset Item}
    (solves : RoundRobin.Solves problem.equation problem.order sets)
    (empty : ∀ place, problem.pred place = [] → sets place = ∅) : Sound problem sets := by
  refine ⟨?_, empty⟩
  intro place listed before member item inside
  have inner : problem.Inner place := ⟨listed, List.ne_nil_of_mem member⟩
  have same := solves place listed
  rw [equation, if_pos inner] at same
  rw [← same, mem_meet] at inside
  exact inside.2 before member

theorem sound_fromFull (grows : problem.Grows) : Sound problem problem.fromFull := by
  have above : RoundRobin.Above problem.equation problem.start := by
    intro place
    unfold equation start
    by_cases inner : problem.Inner place
    · rw [if_pos inner, if_pos inner]
      intro item member
      exact ((mem_meet _ _ _ _).1 member).1
    · rw [if_neg inner, if_neg inner]
  have small (place : Place) : (problem.start place).card ≤ problem.full.card := by
    unfold start
    split
    · exact le_rfl
    · exact Nat.zero_le _
  obtain ⟨solves, below⟩ := above.solve Finset.card (monotone_equation grows)
    (Finset.card_strictMono.strictMonoOn Set.univ)
    (fun _ _ _ => Set.mem_univ _) (fun _ => Set.mem_univ _) (weight_lt_fuel small)
  refine sound_of_solves solves ?_
  intro place none
  have nothing := below place
  rw [start, if_neg fun inner => inner.2 none] at nothing
  exact Finset.subset_empty.1 nothing

end Problem

end Uw7.Lib.MustSets
