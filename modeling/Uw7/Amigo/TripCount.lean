import Uw7.Amigo.LoopUnroll
import Mathlib.Tactic.Linarith
import Mathlib.Tactic.Ring

/-!
# The trip count of a counted loop

A loop whose test comes last runs until its test first fails behind an update.
The iterations computed from constant limits are that number, unless the
limit of a `<` is the smallest number and one less than it wraps around.
-/

namespace Uw7.Amigo

/-- A loop from a first counter value runs a number of rounds: the test holds
behind each but the last. -/
structure Rounds (goesOn : Int → Prop) (first increment : Int) (rounds : Nat) : Prop where
  pos : 1 ≤ rounds
  goes : ∀ round : Nat, 1 ≤ round → round < rounds → goesOn (first + round * increment)
  stops : ¬goesOn (first + rounds * increment)

variable {first increment last : Int} {rounds : Nat} {branch : BranchType}

theorem Rounds.mirror {goesOn : Int → Prop} (runs : Rounds goesOn first increment rounds) :
    Rounds (fun value => goesOn (-value)) (-first) (-increment) rounds := by
  have mirrored (round : Nat) : -(-first + round * -increment) = first + round * increment := by
    ring
  refine ⟨runs.pos, ?_, ?_⟩
  · intro round from1 below
    rw [mirrored]
    exact runs.goes round from1 below
  · rw [mirrored]
    exact runs.stops

theorem Rounds.eq_div (runs : Rounds (· ≤ last) first increment rounds) (up : 0 < increment)
    (enters : first ≤ last) : (rounds : Int) = (last - first) / increment + 1 := by
  have low : ((rounds : Int) - 1) ≤ (last - first) / increment := by
    rw [Int.le_ediv_iff_mul_le up]
    rcases Nat.lt_or_ge 1 rounds with several | single
    · have reached := runs.goes (rounds - 1) (by omega) (by omega)
      have cast : ((rounds - 1 : Nat) : Int) = (rounds : Int) - 1 := by omega
      rw [cast] at reached
      linarith
    · have one : rounds = 1 := le_antisymm single runs.pos
      subst one
      norm_num
      exact enters
  have high : (last - first) / increment < rounds := by
    rw [Int.ediv_lt_iff_lt_mul up]
    have stopped := runs.stops
    linarith
  omega

theorem Rounds.eq_of_meets (runs : Rounds (· ≠ last) first increment rounds) (up : 0 < increment) :
    (rounds : Int) = (last - 1 - first) / increment + 1 := by
  have met := runs.stops
  simp only [ne_eq, not_not] at met
  have whole : last - 1 - first = -1 + rounds * increment := by linarith
  rw [whole, Int.add_mul_ediv_right _ _ (by omega)]
  have before : (-1 : Int) / increment = -1 :=
    Int.ediv_eq_neg_one_of_neg_of_le (by omega) (by omega)
  omega

theorem count_eq {low high : Int} (lowFits : FitsLong low) (highFits : FitsLong high)
    (several : minIterations < count low high increment) :
    low < high ∧ 0 < increment ∧ count low high increment = (high - low) / increment + 1 := by
  unfold count at several ⊢
  split at several
  case isFalse => simp [minIterations] at several
  case isTrue up =>
    split at several
    case isFalse => simp [minIterations] at several
    case isTrue below =>
      refine ⟨below, up, ?_⟩
      simp only [FitsLong, longMin, longMax] at lowFits highFits
      by_cases wide : high - low ≤ 2147483647
      · have same : wrap32 (high - low) = high - low :=
          wrap32_of_fits ⟨by simp only [longMin]; omega, wide⟩
        rw [same] at several ⊢
        have quotient : (high - low).tdiv increment = (high - low) / increment :=
          Int.tdiv_eq_ediv_of_nonneg (by omega)
        have bounded : (high - low) / increment ≤ high - low := Int.ediv_le_self _ (by omega)
        have positive : 0 ≤ (high - low) / increment := Int.ediv_nonneg (by omega) (by omega)
        simp only [minIterations, wrap32] at several ⊢
        omega
      · -- the difference wraps to a negative number, whose quotient is none
        have negative : wrap32 (high - low) ≤ 0 := by
          simp only [wrap32]
          omega
        have least := (fitsLong_wrap32 (high - low)).1
        have quotient : (wrap32 (high - low)).tdiv increment =
            -(-wrap32 (high - low) / increment) := by
          rw [← Int.tdiv_eq_ediv_of_nonneg (by omega), Int.neg_tdiv, Int.neg_neg]
        have bounded : -wrap32 (high - low) / increment ≤ -wrap32 (high - low) :=
          Int.ediv_le_self _ (by omega)
        have positive : 0 ≤ -wrap32 (high - low) / increment :=
          Int.ediv_nonneg (by omega) (by omega)
        simp only [longMin] at least
        generalize wrap32 (high - low) = wrapped at *
        simp only [minIterations, wrap32] at several
        omega

/-- The relation between counter and limit under which a loop goes on. -/
def BranchType.GoesOn (branch : BranchType) (last value : Int) : Prop :=
  match branch with
  | .notLe => value ≤ last
  | .notLt => value < last
  | .notGe => last ≤ value
  | .notGt => last < value
  | .notNe | .notName => value ≠ last
  | .unknown => False

theorem Rounds.congr {goesOn alsoOn : Int → Prop} {first increment : Int} {rounds : Nat}
    (runs : Rounds goesOn first increment rounds) (same : ∀ value, goesOn value ↔ alsoOn value) :
    Rounds alsoOn first increment rounds where
  pos := runs.pos
  goes := fun round from1 below => (same _).1 (runs.goes round from1 below)
  stops := fun on => runs.stops ((same _).2 on)

theorem count_up_eq (firstFits : FitsLong first) (lastFits : FitsLong last)
    (runs : Rounds (· ≤ last) first increment rounds)
    (several : minIterations < count first last increment) :
    count first last increment = rounds := by
  obtain ⟨enters, up, value⟩ := count_eq firstFits lastFits several
  rw [value, runs.eq_div up (le_of_lt enters)]

theorem count_down_eq {first last high increment : Int} {rounds : Nat} (firstFits : FitsLong first)
    (secondFits : FitsLong (first + increment)) (incrementFits : FitsLong increment)
    (highFits : FitsLong high) (value : wrap32 (-first) < high → high = -last)
    (runs : Rounds (last ≤ ·) first increment rounds)
    (several : minIterations < count (wrap32 (-first)) high (wrap32 (-increment))) :
    count (wrap32 (-first)) high (wrap32 (-increment)) = rounds := by
  obtain ⟨enters, down, _⟩ := count_eq (fitsLong_wrap32 (-first)) highFits several
  have negated : wrap32 (-increment) = -increment := by
    simp only [FitsLong, wrap32, longMin, longMax] at *
    omega
  have negatedFirst : wrap32 (-first) = -first := by
    simp only [FitsLong, wrap32, longMin, longMax] at *
    omega
  have mirrored : Rounds (· ≤ high) (-first) (-increment) rounds :=
    runs.mirror.congr fun reached => by omega
  rw [negatedFirst, negated] at several ⊢
  exact count_up_eq (negatedFirst ▸ fitsLong_wrap32 (-first)) highFits mirrored several

theorem count_up_meets_eq (firstFits : FitsLong first) (lastFits : FitsLong last)
    (runs : Rounds (· ≠ last) first increment rounds) (below : first < last)
    (several : minIterations < count first (wrap32 (last - 1)) increment) :
    count first (wrap32 (last - 1)) increment = rounds := by
  have same : wrap32 (last - 1) = last - 1 := by
    simp only [FitsLong, wrap32, longMin, longMax] at *
    omega
  obtain ⟨_, up, value⟩ := count_eq firstFits (fitsLong_wrap32 (last - 1)) several
  rw [value, same, runs.eq_of_meets up]

theorem count_down_meets_eq (firstFits : FitsLong first) (secondFits : FitsLong (first + increment))
    (incrementFits : FitsLong increment) (lastFits : FitsLong last)
    (runs : Rounds (· ≠ last) first increment rounds)
    (several : minIterations < count (wrap32 (-first)) (wrap32 (wrap32 (-last) - 1))
      (wrap32 (-increment))) :
    count (wrap32 (-first)) (wrap32 (wrap32 (-last) - 1)) (wrap32 (-increment)) = rounds := by
  obtain ⟨_, down, value⟩ := count_eq (fitsLong_wrap32 (-first))
    (fitsLong_wrap32 (wrap32 (-last) - 1)) several
  have negated : wrap32 (-increment) = -increment := by
    simp only [FitsLong, wrap32, longMin, longMax] at *
    omega
  have negatedFirst : wrap32 (-first) = -first := by
    simp only [FitsLong, wrap32, longMin, longMax] at *
    omega
  have limit : wrap32 (wrap32 (-last) - 1) = -last - 1 := by
    simp only [FitsLong, wrap32, longMin, longMax] at *
    omega
  have mirrored : Rounds (· ≠ -last) (-first) (-increment) rounds :=
    runs.mirror.congr fun reached => by omega
  rw [value, negated, negatedFirst, limit, mirrored.eq_of_meets (by omega)]

/-- **The iterations are the trip count**, unless one less than the limit of a
`<` wraps around. -/
theorem iterations_eq (firstFits : FitsLong first) (secondFits : FitsLong (first + increment))
    (lastFits : FitsLong last) (incrementFits : FitsLong increment)
    (runs : Rounds (branch.GoesOn last) first increment rounds)
    (several : minIterations < iterations branch first last increment)
    (noWrap : branch = .notLt → last ≠ longMin) :
    iterations branch first last increment = rounds := by
  cases branch with
  | unknown => simp [iterations, minIterations] at several
  | notLe => exact count_up_eq firstFits lastFits runs several
  | notLt =>
    have same : wrap32 (last - 1) = last - 1 := by
      have notLeast := noWrap rfl
      simp only [FitsLong, wrap32, longMin, longMax] at *
      omega
    refine count_up_eq firstFits (fitsLong_wrap32 (last - 1)) ?_ several
    exact runs.congr fun reached => by
      simp only [BranchType.GoesOn]
      omega
  | notGe =>
    refine count_down_eq firstFits secondFits incrementFits
      (fitsLong_wrap32 (-last)) ?_ runs several
    intro below
    simp only [FitsLong, wrap32, longMin, longMax] at *
    omega
  | notGt =>
    refine @count_down_eq first (last + 1) _ increment rounds firstFits
      secondFits incrementFits (fitsLong_wrap32 (wrap32 (-last) - 1)) ?_ ?_ several
    · intro below
      simp only [FitsLong, wrap32, longMin, longMax] at *
      omega
    · exact runs.congr fun reached => by
        simp only [BranchType.GoesOn]
        omega
  | notNe | notName =>
    unfold iterations at several ⊢
    simp only at several ⊢
    split at several
    case isTrue uneven => simp [minIterations] at several
    case isFalse even =>
      rw [if_neg even]
      split at several
      case isTrue upwards =>
        rw [if_pos upwards]
        exact count_up_meets_eq firstFits lastFits runs upwards.2 several
      case isFalse notUp =>
        rw [if_neg notUp]
        split at several
        case isTrue downwards =>
          rw [if_pos downwards]
          exact count_down_meets_eq firstFits secondFits incrementFits lastFits runs several
        case isFalse neither => simp [minIterations] at several

theorem Rounds.eq_one_of_least (runs : Rounds (· < longMin) first increment rounds)
    (secondFits : FitsLong (first + increment)) : rounds = 1 := by
  by_contra several
  have pos := runs.pos
  have below := runs.goes 1 le_rfl (by omega)
  simp only [Nat.cast_one, one_mul] at below
  exact absurd secondFits.1 (not_le.2 below)

theorem rounds_of_steps {steps : Nat} (moves : increment ≠ 0) (some1 : 1 ≤ steps)
    (whole : last = first + steps * increment) : Rounds (· ≠ last) first increment steps where
  pos := some1
  goes := by
    intro round from1 below
    simp only [whole, ne_eq, add_right_inj, mul_eq_mul_right_iff]
    omega
  stops := by simp [whole]

theorem fits_between {round : Nat} (firstFits : FitsLong first)
    (lastFits : FitsLong (first + rounds * increment)) (within : round ≤ rounds) :
    FitsLong (first + round * increment) := by
  have ordered : (round : Int) ≤ rounds := by exact_mod_cast within
  have positive : (0 : Int) ≤ round := by omega
  simp only [FitsLong] at *
  rcases le_total 0 increment with up | down
  · have least := mul_nonneg positive up
    have most := mul_le_mul_of_nonneg_right ordered up
    omega
  · have least := mul_nonpos_of_nonneg_of_nonpos positive down
    have most := mul_le_mul_of_nonpos_right ordered down
    omega

theorem rounds_of_iterations (kind : branch = .notNe ∨ branch = .notName)
    (wide : FitsLong (first - last))
    (several : minIterations < iterations branch first last increment) :
    ∃ rounds, Rounds (· ≠ last) first increment rounds ∧ first + rounds * increment = last := by
  have unfolded : iterations branch first last increment =
      iterations .notNe first last increment := by
    rcases kind with rfl | rfl <;> rfl
  rw [unfolded] at several
  unfold iterations at several
  simp only at several
  split at several
  case isTrue uneven => simp [minIterations] at several
  case isFalse even =>
    rw [not_ne_iff, wrap32_of_fits wide, ← Int.dvd_iff_tmod_eq_zero] at even
    obtain ⟨steps, whole⟩ := even
    have moves : increment ≠ 0 := by
      rintro rfl
      simp [minIterations] at several
    have back : last = first + (-steps) * increment := by linarith
    have forwards : 0 < -steps := by
      split at several
      case isTrue upwards =>
        by_contra backwards
        have turned := mul_nonneg (le_of_lt upwards.1) (by omega : 0 ≤ steps)
        omega
      case isFalse notUp =>
        split at several
        case isTrue downwards =>
          by_contra backwards
          have turned := mul_nonpos_of_nonpos_of_nonneg (le_of_lt downwards.1)
              (by omega : 0 ≤ steps)
          omega
        case isFalse neither => simp [minIterations] at several
    have cast : ((-steps).toNat : Int) = -steps := Int.toNat_of_nonneg (le_of_lt forwards)
    have reached : last = first + ((-steps).toNat : Int) * increment := by
      rw [cast]
      exact back
    exact ⟨(-steps).toNat, rounds_of_steps moves (by omega) reached, reached.symm⟩

end Uw7.Amigo
