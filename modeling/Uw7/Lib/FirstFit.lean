import Mathlib.Data.Nat.Find

namespace Uw7.Lib

/-!
# First fit

A run of a size is free from a start on when none of its places is busy.  A search for
the first free run may leave out every start up to a busy place inside of the run that it
tries, and every busy start.
-/

theorem none_or_first (holds : Nat → Prop) (low high : Nat) :
    (∀ place, low ≤ place → place < high → ¬holds place) ∨
      ∃ first, low ≤ first ∧ first < high ∧ holds first ∧
        ∀ earlier, low ≤ earlier → earlier < first → ¬holds earlier := by
  classical
  by_cases some_ : ∃ place, low ≤ place ∧ place < high ∧ holds place
  · obtain ⟨notBefore, below, isFirst⟩ := Nat.find_spec some_
    refine .inr ⟨Nat.find some_, notBefore, below, isFirst, ?_⟩
    intro earlier later isEarlier isHeld
    exact Nat.find_min some_ isEarlier ⟨later, by omega, isHeld⟩
  · exact .inl fun place notBefore below isHeld => some_ ⟨place, notBefore, below, isHeld⟩

namespace FirstFit

variable {busy : Nat → Bool} {size start place next : Nat}

/-- The places of a run are free. -/
def Fits (busy : Nat → Bool) (size start : Nat) : Prop :=
  ∀ offset, offset < size → busy (start + offset) = false

/-- No run before a start is free. -/
def NoneBefore (busy : Nat → Bool) (size start : Nat) : Prop :=
  ∀ earlier, earlier < start → ¬ Fits busy size earlier

theorem noneBefore_zero : NoneBefore busy size 0 :=
  fun earlier before => absurd before (Nat.not_lt_zero earlier)

theorem not_fits (above : start ≤ place) (below : place < start + size)
    (isBusy : busy place = true) : ¬ Fits busy size start := by
  intro fits
  have free := fits (place - start) (by omega)
  rw [Nat.add_sub_cancel' above, isBusy] at free
  cases free

theorem NoneBefore.skip (none : NoneBefore busy size start) (below : place < start + size)
    (isBusy : busy place = true) : NoneBefore busy size (place + 1) := by
  intro earlier before
  by_cases tried : earlier < start
  · exact none earlier tried
  · exact not_fits (by omega) (by omega) isBusy

theorem NoneBefore.skipBusy (none : NoneBefore busy size start) (positive : 0 < size) (allBusy :
    ∀ place, start ≤ place → place < next → busy place = true) : NoneBefore busy size next := by
  intro earlier before
  by_cases tried : earlier < start
  · exact none earlier tried
  · exact not_fits (Nat.le_refl earlier) (by omega) (allBusy earlier (by omega) before)

end FirstFit

end Uw7.Lib
