import Mathlib.Algebra.Order.BigOperators.Group.List
import Mathlib.Algebra.Order.Ring.Nat

/-!
# Round robin solution of monotone equations

Every place has a value and an equation that computes it from the values of all
places.  A pass goes over a list of places and puts the value of each equation
in its place at once, and passes are made until one changes nothing.  From
values that lie above their equations the values only fall, so that as many
passes as the values have ranks are enough, and the result is the greatest
solution below the values at the start.
-/

namespace Uw7.Lib.RoundRobin

open List Function

variable {Place Value : Type} [DecidableEq Place] [DecidableEq Value]

/-- One pass over a list of places: the values, and whether one changed. -/
def pass (equation : Place → (Place → Value) → Value) :
    List Place → (Place → Value) → (Place → Value) × Bool
  | [], values => (values, false)
  | place :: rest, values =>
    let next := equation place values
    if next = values place then pass equation rest values
    else ((pass equation rest (Function.update values place next)).1, true)

/-- Passes are made until one changes nothing. -/
def solve (equation : Place → (Place → Value) → Value) (places : List Place) :
    Nat → (Place → Value) → (Place → Value)
  | 0, values => values
  | fuel + 1, values =>
    match pass equation places values with
    | (next, true) => solve equation places fuel next
    | (next, false) => next

/-- The values behind the pass that changes nothing, when a number of passes
comes to it. -/
def solveWithin (equation : Place → (Place → Value) → Value) (places : List Place) :
    Nat → (Place → Value) → Option (Place → Value)
  | 0, _ => none
  | fuel + 1, values =>
    match pass equation places values with
    | (next, true) => solveWithin equation places fuel next
    | (next, false) => some next

def Solves (equation : Place → (Place → Value) → Value) (places : List Place)
    (values : Place → Value) : Prop :=
  ∀ place ∈ places, equation place values = values place

variable {equation : Place → (Place → Value) → Value} {places : List Place} {values : Place → Value}

theorem pass_unchanged (unchanged : (pass equation places values).2 = false) :
    (pass equation places values).1 = values ∧ Solves equation places values := by
  induction places with
  | nil => exact ⟨rfl, fun _ member => nomatch member⟩
  | cons place rest ih =>
    unfold pass at unchanged ⊢
    by_cases same : equation place values = values place
    · simp only [same, ↓reduceIte] at unchanged ⊢
      obtain ⟨kept, solves⟩ := ih unchanged
      refine ⟨kept, ?_⟩
      intro other member
      cases member with
      | head => exact same
      | tail _ later => exact solves other later
    · simp [same] at unchanged

theorem solveWithin_mono {solution : Place → Value} {fuel more : Nat}
    (ends : solveWithin equation places fuel values = some solution) (enough : fuel ≤ more) :
    solveWithin equation places more values = some solution := by
  induction fuel generalizing values more with
  | zero => cases ends
  | succ fuel ih =>
    obtain ⟨more, rfl⟩ := Nat.exists_eq_add_of_le' (Nat.zero_lt_of_lt enough)
    unfold solveWithin at ends ⊢
    cases passed : pass equation places values with
    | mk next changed =>
      rw [passed] at ends
      cases changed with
      | false => exact ends
      | true => exact ih ends (Nat.le_of_succ_le_succ enough)

section Falling

variable [PartialOrder Value]

def Above (equation : Place → (Place → Value) → Value) (values : Place → Value) : Prop :=
  ∀ place, equation place values ≤ values place

variable {equation : Place → (Place → Value) → Value} {values : Place → Value}

omit [DecidableEq Value] in
theorem Above.update (monotone : ∀ place, Monotone (equation place))
    (above : Above equation values) (place : Place) :
    Function.update values place (equation place values) ≤ values ∧ Above equation
      (Function.update values place (equation place values)) := by
  have falls : Function.update values place (equation place values) ≤ values :=
    update_le_self_iff.2 (above place)
  refine ⟨falls, ?_⟩
  intro other
  have smaller := monotone other falls
  by_cases here : other = place
  · subst here
    rw [update_self]
    exact smaller
  · rw [update_of_ne here]
    exact smaller.trans (above other)

variable {equation : Place → (Place → Value) → Value} {values solution : Place → Value}
  {places : List Place} {fuel : Nat}

theorem Above.pass (monotone : ∀ place, Monotone (equation place)) (places : List Place)
    (above : Above equation values) :
    (pass equation places values).1 ≤ values ∧ Above equation (pass equation places values).1 := by
  induction places generalizing values with
  | nil => exact ⟨le_rfl, above⟩
  | cons place rest ih =>
    unfold RoundRobin.pass
    by_cases same : equation place values = values place
    · simp only [same, ↓reduceIte]
      exact ih above
    · simp only [same, ↓reduceIte]
      obtain ⟨falls, kept⟩ := above.update monotone place
      obtain ⟨later, still⟩ := ih kept
      exact ⟨later.trans falls, still⟩

theorem le_pass (monotone : ∀ place, Monotone (equation place)) (places : List Place)
    (below : solution ≤ values)
    (solves : ∀ place ∈ places, solution place ≤ equation place solution) :
    solution ≤ (pass equation places values).1 := by
  induction places generalizing values with
  | nil => exact below
  | cons place rest ih =>
    have later := fun other member => solves other (mem_cons_of_mem _ member)
    unfold pass
    by_cases same : equation place values = values place
    · simp only [same, ↓reduceIte]
      exact ih below later
    · simp only [same, ↓reduceIte]
      refine ih ?_ later
      refine le_update_iff.2 ⟨?_, fun other _ => below other⟩
      exact (solves place mem_cons_self).trans (monotone place below)

variable (rank : Value → Nat) {good : Set Value}

def weight (places : List Place) (values : Place → Value) : Nat :=
  (places.map fun place => rank (values place)).sum

omit [DecidableEq Place] [DecidableEq Value] in
theorem weight_le (ranked : StrictMonoOn rank good) (places : List Place)
    {lower upper : Place → Value} (lowerGood : ∀ place, lower place ∈ good)
    (upperGood : ∀ place, upper place ∈ good) (below : lower ≤ upper) :
    weight rank places lower ≤ weight rank places upper :=
  sum_le_sum fun place _ => ranked.monotoneOn (lowerGood place) (upperGood place) (below place)

omit [DecidableEq Place] [DecidableEq Value] in
theorem weight_lt (ranked : StrictMonoOn rank good) {places : List Place} {place : Place}
    (member : place ∈ places) {lower upper : Place → Value}
    (lowerGood : ∀ place, lower place ∈ good) (upperGood : ∀ place, upper place ∈ good)
    (below : lower ≤ upper) (falls : lower place < upper place) :
    weight rank places lower < weight rank places upper :=
  sum_lt_sum _ _ (fun other _ =>
    ranked.monotoneOn (lowerGood other) (upperGood other) (below other))
    ⟨place, member, ranked (lowerGood place) (upperGood place) falls⟩

/-- The equations stay among the values that have ranks. -/
def Closed (good : Set Value) (equation : Place → (Place → Value) → Value) : Prop :=
  ∀ place values, (∀ other, values other ∈ good) → equation place values ∈ good

omit [DecidableEq Value] [PartialOrder Value] in
theorem Closed.update (closed : Closed good equation)
    (valuesGood : ∀ place, values place ∈ good) (place other : Place) :
    Function.update values place (equation place values) other ∈ good := by
  by_cases here : other = place
  · subst here
    rw [update_self]
    exact closed other values valuesGood
  · rw [update_of_ne here]
    exact valuesGood other

omit [PartialOrder Value] in
theorem Closed.pass (closed : Closed good equation)
    (places : List Place) (valuesGood : ∀ place, values place ∈ good)
    (other : Place) : (pass equation places values).1 other ∈ good := by
  induction places generalizing values with
  | nil => exact valuesGood other
  | cons place rest ih =>
    unfold RoundRobin.pass
    by_cases same : equation place values = values place
    · simp only [same, ↓reduceIte]
      exact ih valuesGood
    · simp only [same, ↓reduceIte]
      exact ih (closed.update valuesGood place)

section

variable (monotone : ∀ place, Monotone (equation place)) (ranked : StrictMonoOn rank good)
  (closed : Closed good equation)
include monotone ranked closed

theorem weight_pass {all : List Place} (within : ∀ place ∈ places, place ∈ all)
    (valuesGood : ∀ place, values place ∈ good) (above : Above equation values)
    (changed : (pass equation places values).2 = true) :
    weight rank all (pass equation places values).1 < weight rank all values := by
  induction places generalizing values with
  | nil => simp [pass] at changed
  | cons place rest ih =>
    have later := fun other member => within other (mem_cons_of_mem _ member)
    unfold pass at changed ⊢
    by_cases same : equation place values = values place
    · simp only [same, ↓reduceIte] at changed ⊢
      exact ih later valuesGood above changed
    · simp only [same, ↓reduceIte]
      obtain ⟨falls, kept⟩ := above.update monotone place
      have updated := closed.update valuesGood place
      refine lt_of_le_of_lt (weight_le rank ranked all (closed.pass rest updated) updated
        (kept.pass monotone rest).1) ?_
      refine weight_lt rank ranked (within place mem_cons_self) updated valuesGood falls ?_
      rw [update_self]
      exact lt_of_le_of_ne (above place) same

section

variable (valuesGood : ∀ place, values place ∈ good) (above : Above equation values)
  (enough : weight rank places values < fuel)
include valuesGood above enough

theorem Above.solve : Solves equation places (solve equation places fuel values) ∧
      solve equation places fuel values ≤ values := by
  induction fuel generalizing values with
  | zero => exact absurd enough (Nat.not_lt_zero _)
  | succ fuel ih =>
    unfold RoundRobin.solve
    obtain ⟨falls, kept⟩ := above.pass monotone places
    have passedGood := closed.pass places valuesGood
    cases passed : RoundRobin.pass equation places values with
    | mk next changed =>
      rw [passed] at falls kept passedGood
      cases changed with
      | false =>
        obtain ⟨same, solves⟩ := pass_unchanged (congrArg Prod.snd passed)
        rw [passed] at same
        cases same
        exact ⟨solves, le_rfl⟩
      | true =>
        have lighter := weight_pass rank monotone ranked closed
            (fun _ member => member) valuesGood above (congrArg Prod.snd passed)
        rw [passed] at lighter
        obtain ⟨solves, below⟩ := ih passedGood kept
          (Nat.lt_of_lt_of_le lighter (Nat.le_of_lt_succ enough))
        exact ⟨solves, below.trans falls⟩

theorem Above.solveWithin : RoundRobin.solveWithin equation places fuel values =
      some (RoundRobin.solve equation places fuel values) := by
  induction fuel generalizing values with
  | zero => exact absurd enough (Nat.not_lt_zero _)
  | succ fuel ih =>
    unfold RoundRobin.solveWithin RoundRobin.solve
    obtain ⟨-, kept⟩ := above.pass monotone places
    have passedGood := closed.pass places valuesGood
    cases passed : RoundRobin.pass equation places values with
    | mk next changed =>
      rw [passed] at kept passedGood
      cases changed with
      | false => rfl
      | true =>
        have lighter := weight_pass rank monotone ranked closed
            (fun _ member => member) valuesGood above (congrArg Prod.snd passed)
        rw [passed] at lighter
        exact ih passedGood kept (Nat.lt_of_lt_of_le lighter (Nat.le_of_lt_succ enough))

end

end

theorem le_solve (monotone : ∀ place, Monotone (equation place)) (below : solution ≤ values)
    (solves : ∀ place ∈ places, solution place ≤ equation place solution) (fuel : Nat) :
    solution ≤ solve equation places fuel values := by
  induction fuel generalizing values with
  | zero => exact below
  | succ fuel ih =>
    have passed := le_pass monotone places below solves
    unfold solve
    cases same : pass equation places values with
    | mk next changed =>
      rw [same] at passed
      cases changed with
      | false => exact passed
      | true => exact ih passed

end Falling

end Uw7.Lib.RoundRobin
