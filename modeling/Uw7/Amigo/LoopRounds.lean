import Uw7.Amigo.TripCount

/-!
# Rounds of the loop and of its copies

What a number of rounds does to the counter and to the values seen, by the
loop as it was and by a group of copies of its body.
-/

namespace Uw7.Amigo

open LabelCode StateTransition List

def counterValues (first increment : Int) (rounds : Nat) : List Int :=
  (range rounds).map fun round : Nat => first + round * increment

/-- The state after a number of rounds that do not overflow. -/
def LoopState.afterRounds (state : LoopState) (loop : CountedLoop) (rounds : Nat) : LoopState where
  counter := state.counter + rounds * loop.increment
  temp := state.temp
  trace := state.trace ++ counterValues state.counter loop.increment rounds
  behind := state.behind ++
      if loop.usedBehindUpdate then
        counterValues (state.counter + loop.increment) loop.increment rounds
      else []

/-- The counter does not overflow in a number of rounds. -/
def FitsRounds (loop : CountedLoop) (first : Int) (rounds : Nat) : Prop :=
  ∀ round : Nat, round ≤ rounds → FitsLong (first + round * loop.increment)

theorem counterValues_add (first increment : Int) (one other : Nat) :
    counterValues first increment (one + other) = counterValues first increment one ++
      counterValues (first + one * increment) increment other := by
  simp only [counterValues, range_add, map_append, map_map]
  congr 1
  apply map_congr_left
  intro round _
  simp only [Function.comp_apply, Nat.cast_add]
  ring

@[simp] theorem length_counterValues (first increment : Int) (rounds : Nat) :
    (counterValues first increment rounds).length = rounds := by
  simp [counterValues]

@[simp] theorem LoopState.afterRounds_zero (state : LoopState) (loop : CountedLoop) :
    state.afterRounds loop 0 = state := by
  simp [afterRounds, counterValues]

theorem LoopState.afterRounds_add (state : LoopState) (loop : CountedLoop) (one other : Nat) :
    (state.afterRounds loop one).afterRounds loop other = state.afterRounds loop (one + other) := by
  have shifted : state.counter + one * loop.increment + loop.increment =
      state.counter + loop.increment + one * loop.increment := by
    ring
  simp only [afterRounds, counterValues_add, shifted, mk.injEq, true_and]
  refine ⟨?_, append_assoc _ _ _, ?_⟩
  · push_cast
    ring
  · cases loop.usedBehindUpdate
    · simp
    · simp [append_assoc]

variable {loop : CountedLoop} {first limit : Int} {flags : LoopFlags} {state : LoopState}

theorem FitsRounds.shift {one other : Nat} (fits : FitsRounds loop first (one + other)) :
    FitsRounds loop (first + one * loop.increment) other := by
  intro round within
  have shifted := fits (one + round) (by omega)
  push_cast at shifted
  convert shifted using 1
  ring

theorem FitsRounds.mono {fewer more : Nat} (fits : FitsRounds loop first more)
    (least : fewer ≤ more) : FitsRounds loop first fewer :=
  fun round within => fits round (within.trans least)

theorem execAll_append {Action' State : Type} (exec : Action' → State → State)
    (first second : List Action') (state : State) :
    execAll exec (first ++ second) state = execAll exec second (execAll exec first state) :=
  foldl_append ..

theorem exec_trip {loop : CountedLoop} {limit : Int} {state : LoopState}
    (fits : FitsLong (state.counter + loop.increment)) :
    execAll (Action.exec limit) (loop.trip ++ [.osLoop .lcond]) state =
      state.afterRounds loop 1 := by
  have same := wrap32_of_fits fits
  cases used : loop.usedBehindUpdate <;>
    simp [CountedLoop.trip, CountedLoop.behind, execAll, Action.exec,
      Tree.eval, LoopState.afterRounds, counterValues, used, same]

def UpdatesKept (flags : LoopFlags) (loop : CountedLoop) : Prop :=
  flags.leaveCounterIncr = loop.usedBehindUpdate

theorem exec_mapped_copies (unkept : flags.leaveCounterIncr = false)
    (unused : loop.usedBehindUpdate = false) (number : Nat)
    (mapped : ∀ iteration, iteration < number → ∀ reached : LoopState,
      reached.counter = state.counter → (nameMap flags loop iteration).eval limit reached =
        state.counter + iteration * loop.increment) :
    execAll (Action.exec limit) (copies flags loop number) state =
      { state.afterRounds loop number with counter := state.counter } := by
  induction number with
  | zero => simp [copies, execAll]
  | succ number ih =>
    have before := ih fun iteration below => mapped iteration (by omega)
    have value := mapped number (by omega)
    simp only [copies, range_succ, flatMap_append, execAll_append]
    rw [show execAll (Action.exec limit) ((range number).flatMap (copyLoopBody flags loop)) state =
          _ from before]
    simp [copyLoopBody, CountedLoop.behind, unkept, unused, execAll,
      Action.exec, LoopState.afterRounds, value, counterValues, range_succ]

theorem exec_kept_copies (kept : flags.leaveCounterIncr = true)
    (used : loop.usedBehindUpdate = true) (number : Nat)
    (fits : FitsRounds loop state.counter number) :
    execAll (Action.exec limit) (copies flags loop number) state =
      state.afterRounds loop number := by
  induction number with
  | zero => simp [copies, execAll]
  | succ number ih =>
    have before := ih (fits.mono (by omega))
    have next := wrap32_of_fits (fits (number + 1) le_rfl)
    push_cast at next
    simp only [copies, range_succ, flatMap_append, execAll_append]
    rw [show execAll (Action.exec limit) ((range number).flatMap (copyLoopBody flags loop)) state =
          _ from before,
      ← LoopState.afterRounds_add]
    have regroup : state.counter + (number + 1) * loop.increment =
        state.counter + number * loop.increment + loop.increment := by
      ring
    rw [regroup] at next
    simp [copyLoopBody, CountedLoop.behind, nameMap, kept, used, execAll,
      Action.exec, Tree.eval, LoopState.afterRounds, next, counterValues]

theorem exec_copies_bump (byName : flags.invarLimits = true) (keeps : UpdatesKept flags loop)
    (number : Nat) (fits : FitsRounds loop state.counter number) :
    execAll (Action.exec limit) (copies flags loop number ++ bumpCounters flags loop number) state =
      state.afterRounds loop number := by
  rw [execAll_append]
  cases kept : flags.leaveCounterIncr with
  | true =>
    rw [exec_kept_copies kept (keeps ▸ kept) number fits]
    simp [bumpCounters, kept, execAll]
  | false =>
    rw [exec_mapped_copies kept (keeps ▸ kept) number]
    · have whole := wrap32_of_fits (fits number le_rfl)
      simp [bumpCounters, kept, execAll, Action.exec,
        LoopState.afterRounds, wrap32_add_wrap32, whole]
    · intro iteration below reached same
      have value := wrap32_of_fits (fits iteration (by omega))
      by_cases first : iteration = 0
      · subst first
        simp [nameMap, kept, byName, Tree.eval, same]
      · simp [nameMap, kept, byName, first, Tree.eval, same, wrap32_add_wrap32, value]

end Uw7.Amigo
