import Uw7.Amigo.UnrollRuns

/-!
# Unrolling preserves the loop

Each of the three transformations, and from them exactly when the unrolled code
makes the rounds of its source.
-/

namespace Uw7.Amigo

open LabelCode StateTransition

variable {loop : CountedLoop} {rounds : Nat} {flags : LoopFlags} {limit first : Int}
  {state : LoopState} {type : LoopType} {branch : BranchType}

theorem counterVal_eq (fits : FitsRounds loop loop.beginValue rounds) {iteration : Nat}
    (within : iteration ≤ rounds) :
    counterVal loop iteration = loop.beginValue + iteration * loop.increment := by
  induction iteration with
  | zero => simp [counterVal]
  | succ iteration ih =>
    have next := wrap32_of_fits (fits (iteration + 1) within)
    have regroup : loop.beginValue + ((iteration + 1 : Nat) : Int) * loop.increment =
        loop.beginValue + iteration * loop.increment + loop.increment := by
      push_cast
      ring
    rw [regroup] at next ⊢
    rw [counterVal, ih (by omega)]
    exact next

theorem completeUnroll_exec (straight : flags.invarLimits = false) (keeps : UpdatesKept flags loop)
    (unused : loop.usedBehindUpdate = false) (start : state.counter = loop.beginValue)
    (fits : FitsRounds loop state.counter rounds) :
    execAll (Action.exec limit) (copies flags loop rounds ++
      [Action.assign (counterVal loop rounds)]) state =
      state.afterRounds loop rounds := by
  have unkept : flags.leaveCounterIncr = false := keeps.trans unused
  have fits' : FitsRounds loop loop.beginValue rounds := start ▸ fits
  rw [execAll_append, exec_mapped_copies unkept unused rounds]
  · have last := wrap32_of_fits (fits' rounds le_rfl)
    simp [execAll, Action.exec, LoopState.afterRounds, counterVal_eq fits' le_rfl, last, start]
  · intro iteration below reached same
    have value := wrap32_of_fits (fits' iteration (le_of_lt below))
    simp [nameMap, unkept, straight, Tree.eval, counterVal_eq fits' (le_of_lt below), value, start]

theorem completeUnroll_halts (loop : CountedLoop) (type : LoopType) (limit : Int)
    (state : LoopState) :
    Halts (Action.exec limit) (Test.holds limit) (completeUnroll loop type) state
      (execAll (Action.exec limit) (copies type.flags loop type.iterations.toNat ++
        [Action.assign (counterVal loop type.iterations.toNat)])
        state) := by
  apply halts_of_reaches
  have whole := @reaches_acts Action Test LoopState (Action.exec limit)
      (Test.holds limit) (completeUnroll loop type) [] _
      (copies type.flags loop type.iterations.toNat ++
        [Action.assign (counterVal loop type.iterations.toNat)])
      state .refl
  rw [List.append_nil] at whole
  exact whole

theorem clusterActions_exec (byName : flags.invarLimits = true) (keeps : UpdatesKept flags loop)
    (state : LoopState) (fits : FitsRounds loop state.counter clusterSize) :
    execAll (Action.exec limit) (clusterActions loop flags) state =
      state.afterRounds loop clusterSize := by
  rw [clusterActions, execAll_append, exec_copies_bump byName keeps clusterSize fits]
  rfl

theorem after_partialConstUnroll (loop : CountedLoop) (type : LoopType) :
    after (partialConstUnroll loop type) (newLabel loop 1) = partialConstCluster loop type := by
  rw [partialConstUnroll, after_acts, after_label_self]

theorem partialConstHead_exec (byName : type.flags.invarLimits = true)
    (keeps : UpdatesKept type.flags loop) (fits : FitsRounds loop state.counter (tailCount type)) :
    execAll (Action.exec limit) (partialConstHead loop type) state =
      state.afterRounds loop (tailCount type) := by
  rw [partialConstHead, execAll_append]
  split
  case isTrue none' => simp [none', copies, execAll, Action.exec]
  case isFalse some1 =>
    rw [exec_copies_bump byName keeps (tailCount type) fits]
    rfl

theorem tailCount_eq (same : type.iterations = rounds) : tailCount type = rounds % clusterSize := by
  rw [tailCount, same]
  have remainder : ((rounds : Int)).tmod (clusterSize : Int) =
      ((rounds % clusterSize : Nat) : Int) := by
    rfl
  rfl

/-- **A constant loop of four rounds or more keeps its rounds** in clusters. -/
theorem partialConstUnroll_halts (byName : type.flags.invarLimits = true)
    (keeps : UpdatesKept type.flags loop)
    (stable : ∀ other, (endTree loop).eval limit other = loop.limitWord limit)
    (runs : Rounds (type.branch.GoesOn (loop.limitWord limit)) state.counter loop.increment rounds)
    (fits : FitsRounds loop state.counter rounds) (same : type.iterations = rounds)
    (four : clusterSize ≤ rounds) :
    Halts (Action.exec limit) (Test.holds limit) (partialConstUnroll loop type) state
      (state.afterRounds loop rounds) := by
  apply halts_of_reaches
  have tail := tailCount_eq same
  have split : tailCount type + rounds / clusterSize * clusterSize = rounds := by
    rw [tail]
    exact Nat.mod_add_div' rounds clusterSize
  have clusters : 1 ≤ rounds / clusterSize := Nat.div_pos four (by decide)
  refine reaches_acts (partialConstHead loop type) state ?_
  rw [partialConstHead_exec byName keeps (fits.mono (by omega))]
  refine reaches_label ?_
  have repeated : Repeats (execAll (Action.exec limit) (clusterActions loop type.flags))
      (Test.holds limit (.compare (endRelopOf type.branch loop.increment) (endTree loop)))
      (state.afterRounds loop (tailCount type))
      ((state.afterRounds loop (tailCount type)).afterRounds loop
        (rounds / clusterSize * clusterSize)) := by
    refine repeats_of_blocks (clusterActions_exec byName keeps) clusters ?_ ?_ ?_
    · rw [← split] at fits
      exact fits.shift
    · intro before from1 below
      rw [LoopState.afterRounds_add, Bool.eq_false_iff, ne_eq, Test.holds, stable]
      simp only [clusterSize] at *
      intro holds
      have early := (runs.endRelop_iff (by omega) (by omega) (by omega)).1 holds
      omega
    · rw [LoopState.afterRounds_add, split, Test.holds, stable]
      simp only [clusterSize] at *
      exact (runs.endRelop_iff (by omega) (by omega) le_rfl).2 rfl
  rw [LoopState.afterRounds_add, split] at repeated
  exact reaches_repeats (after_partialConstUnroll loop type) repeated
    (reaches_act (reaches_act .refl))

/-- The number the guard of a loop with run-time limits compares with. -/
def guardWord (loop : CountedLoop) (limit : Int) : Int :=
  wrap32 (loop.limitWord limit - 3 * loop.increment)

theorem partialHead_exec (invariant : InvariantLoop loop type)
    (fits : FitsRounds loop state.counter 1) :
    execAll (Action.exec limit) (partialHead loop type) state =
      LoopState.afterRounds { state with temp := guardWord loop limit } loop 1 := by
  have ordered : type.branch ≠ .notName := by
    rcases invariant.directed with ⟨kind | kind, _⟩ | ⟨kind | kind, _⟩ <;> rw [kind] <;> decide
  have ends := @eval_endTree loop limit invariant.accepted (state.afterRounds loop 1)
  have number : wrap32 (loop.limitWord limit +
      wrap32 (-(((clusterSize - 1 : Nat) : Int) * loop.increment))) = guardWord loop limit := by
    rw [wrap32_add_wrap32, guardWord]
    congr 1
  rw [partialHead, execAll_append, exec_copies_bump invariant.byName invariant.keeps 1 fits]
  simp only [execAll, List.foldl_cons, List.foldl_nil, genTempInit, if_neg ordered]
  cases shape : loop.test.endLimit with
  | none =>
    simp only [endTree, shape, Option.getD_none, Tree.eval] at ends
    have zero : loop.limitWord limit = 0 := by
      rw [← ends]
      rfl
    rw [zero, Int.zero_add] at number
    simp only [Action.exec]
    rw [number]
    rfl
  | some tree =>
    simp only [endTree, shape, Option.getD_some] at ends
    simp only [Action.exec]
    rw [ends, number]
    rfl

/-- The original loop, behind the guard of what the clusters leave. -/
def guardedSource (loop : CountedLoop) (type : LoopType) : List QueueItem :=
  .cbranch (.compare (relopOf type.branch loop.increment) (endTree loop)) (newLabel loop 3) ::
    .label loop.label ::
    (loop.trip.map .act ++ [.cbranch loop.test loop.label, .label (newLabel loop 3)])

theorem after_partialUnroll_cluster (loop : CountedLoop) (type : LoopType) :
    after (partialUnroll loop type) (newLabel loop 1) = partialCluster loop type := by
  rw [partialUnroll, after_acts, after, after_acts, after_label_self]

theorem after_partialUnroll (loop : CountedLoop) (type : LoopType) {target : Nat}
    (notCluster : newLabel loop 1 ≠ target) :
    after (partialUnroll loop type) target = after (partialTail loop type) target := by
  rw [partialUnroll, after_acts, after, after_acts,
    after_label_ne _ notCluster, partialCluster, after_acts, after, after_acts]

theorem after_partialUnroll_tail (loop : CountedLoop) (type : LoopType) :
    after (partialUnroll loop type) (newLabel loop 2) = guardedSource loop type := by
  rw [after_partialUnroll loop type (by simp [newLabel])]
  simp [partialTail, guardedSource, after]

theorem after_partialUnroll_source (loop : CountedLoop) (type : LoopType) :
    after (partialUnroll loop type) loop.label = loop.trip.map .act ++
      .cbranch loop.test loop.label :: [.label (newLabel loop 3)] := by
  rw [after_partialUnroll loop type (by simp [newLabel])]
  simp [partialTail, after, newLabel]

theorem after_partialUnroll_exit (loop : CountedLoop) (type : LoopType) :
    after (partialUnroll loop type) (newLabel loop 3) = [] := by
  rw [after_partialUnroll loop type (by simp [newLabel])]
  have onward (rest : List QueueItem) : after (loop.trip.map .act ++ rest) (newLabel loop 3) =
      after rest (newLabel loop 3) :=
    after_acts loop.trip rest (newLabel loop 3)
  simp [partialTail, after, newLabel] at onward ⊢
  rw [onward]
  simp [after]

theorem exec_trip_unmarked (fits : FitsRounds loop state.counter 1) :
    execAll (Action.exec limit) loop.trip state = state.afterRounds loop 1 := by
  have marked := @exec_trip loop limit state (by simpa using fits 1 le_rfl)
  rw [execAll_append] at marked
  exact marked

theorem guardedSource_reaches {made : Nat} (invariant : InvariantLoop loop type)
    (runs : Rounds (type.branch.GoesOn (loop.limitWord limit)) state.counter loop.increment rounds)
    (fits : FitsRounds loop state.counter rounds) (some1 : 1 ≤ made) (within : made ≤ rounds) :
    Reaches (step (Action.exec limit) (Test.holds limit) (partialUnroll loop type))
      ⟨guardedSource loop type, state.afterRounds loop made⟩
      ⟨[], state.afterRounds loop rounds⟩ := by
  have directed : type.branch.Directed loop.increment := invariant.directed
  have guard : Test.holds limit (.compare (relopOf type.branch loop.increment) (endTree loop))
      (state.afterRounds loop made) = true ↔ made < rounds := by
    rw [Test.holds, eval_endTree invariant.accepted, relopOf_compare directed]
    exact runs.goesOn_iff directed some1
  rcases eq_or_lt_of_le within with rfl | left
  · refine reaches_jump (Bool.eq_false_iff.2 fun on => ?_) ?_
    · exact absurd (guard.1 on) (lt_irrefl _)
    · rw [after_partialUnroll_exit]
      exact .refl
  · refine reaches_fall (guard.2 left) (reaches_label ?_)
    have meaning := @getTestType_holds loop limit invariant.accepted
    rw [← invariant.branchFound] at meaning
    have repeated : Repeats (execAll (Action.exec limit) loop.trip)
        (loop.test.holds limit) (state.afterRounds loop made)
        ((state.afterRounds loop made).afterRounds loop ((rounds - made) * 1)) := by
      refine repeats_of_blocks (fun reached => exec_trip_unmarked) (by omega) ?_ ?_ ?_
      · have whole : rounds = made + (rounds - made) * 1 := by
          omega
        rw [whole] at fits
        exact fits.shift
      · intro before from1 below
        rw [LoopState.afterRounds_add, Bool.eq_false_iff, ne_eq, meaning, not_not]
        exact runs.goes (made + before * 1) (by omega) (by omega)
      · rw [LoopState.afterRounds_add, meaning]
        have whole : made + (rounds - made) * 1 = rounds := by omega
        rw [whole]
        exact runs.stops
    have whole : made + (rounds - made) * 1 = rounds := by omega
    rw [LoopState.afterRounds_add, whole] at repeated
    exact reaches_repeats (after_partialUnroll_source loop type) repeated (reaches_label .refl)

/-- The guard's number is the limit less three increments, or the guard fails
at once. -/
def GuardSafe (loop : CountedLoop) (branch : BranchType) (limit first : Int) : Prop :=
  FitsLong (loop.limitWord limit - 3 * loop.increment) ∨
    ¬branch.GoesOn (guardWord loop limit) (first + loop.increment)

theorem guard_goesOn_iff (directed : branch.Directed loop.increment)
    (runs : Rounds (branch.GoesOn (loop.limitWord limit)) first loop.increment rounds)
    (unwrapped : FitsLong (loop.limitWord limit - 3 * loop.increment)) (made : Nat) :
    branch.GoesOn (guardWord loop limit) (first + made * loop.increment) ↔ made + 3 < rounds := by
  rw [← runs.goesOn_iff directed (by omega : 1 ≤ made + 3), guardWord, wrap32_of_fits unwrapped]
  have later : first + ((made + 3 : Nat) : Int) * loop.increment =
      first + made * loop.increment + 3 * loop.increment := by
    push_cast
    ring
  rcases directed with ⟨rfl | rfl, _⟩ | ⟨rfl | rfl, _⟩ <;> simp only [BranchType.GoesOn] <;> omega

/-- **A loop with run-time limits keeps its rounds** when its guard is safe. -/
theorem partialUnroll_halts {loop : CountedLoop} {type : LoopType} {limit : Int} {state : LoopState}
    {rounds : Nat} (invariant : InvariantLoop loop type)
    (runs : Rounds (type.branch.GoesOn (loop.limitWord limit)) state.counter loop.increment rounds)
    (fits : FitsRounds loop state.counter rounds)
    (safe : GuardSafe loop type.branch limit state.counter) :
    Halts (Action.exec limit) (Test.holds limit) (partialUnroll loop type) state
      (LoopState.afterRounds { state with temp := guardWord loop limit } loop rounds) := by
  apply halts_of_reaches
  have directed : type.branch.Directed loop.increment := invariant.directed
  refine reaches_acts (partialHead loop type) state ?_
  rw [partialHead_exec invariant (fits.mono runs.pos)]
  generalize guarded : ({ state with temp := guardWord loop limit } : LoopState) = inside
  have sameCounter : inside.counter = state.counter := by rw [← guarded]
  have sameTemp : inside.temp = guardWord loop limit := by rw [← guarded]
  rw [← sameCounter] at runs fits safe
  have passes : Test.holds limit (.compare (relopOf type.branch loop.increment) .temp)
      (inside.afterRounds loop 1) = true ↔
      type.branch.GoesOn (guardWord loop limit) (inside.counter + loop.increment) := by
    rw [Test.holds, relopOf_compare directed]
    simp [LoopState.afterRounds, Tree.eval, sameTemp]
  by_cases enters : type.branch.GoesOn (guardWord loop limit) (inside.counter + loop.increment)
  · have unwrapped := safe.resolve_right (not_not.2 enters)
    have left := guard_goesOn_iff directed runs unwrapped
    have four : 1 + 3 < rounds := (left 1).1 (by simpa using enters)
    refine reaches_fall (passes.2 enters) ?_
    refine reaches_act (reaches_act (reaches_label ?_))
    have repeated : Repeats (execAll (Action.exec limit) (clusterActions loop type.flags))
        (Test.holds limit (.compare (endRelopOf type.branch loop.increment) .temp))
        (inside.afterRounds loop 1) ((inside.afterRounds loop 1).afterRounds loop
          ((rounds - 1) / clusterSize * clusterSize)) := by
      refine repeats_of_blocks (clusterActions_exec invariant.byName invariant.keeps) ?_ ?_ ?_ ?_
      · simp only [clusterSize]
        omega
      · refine FitsRounds.shift (fits.mono ?_)
        simp only [clusterSize]
        omega
      · intro before from1 below
        rw [LoopState.afterRounds_add, Bool.eq_false_iff, ne_eq, Test.holds,
          endRelopOf_compare directed, not_not]
        simp only [Tree.eval, LoopState.afterRounds, sameTemp]
        rw [left]
        simp only [clusterSize] at *
        omega
      · rw [LoopState.afterRounds_add, Test.holds, endRelopOf_compare directed]
        simp only [Tree.eval, LoopState.afterRounds, sameTemp]
        rw [left]
        simp only [clusterSize]
        omega
    rw [LoopState.afterRounds_add] at repeated
    refine reaches_repeats (after_partialUnroll_cluster loop type) repeated ?_
    refine reaches_act (reaches_act (reaches_label ?_))
    exact guardedSource_reaches invariant runs fits (by omega) (by simp only [clusterSize]; omega)
  · refine reaches_jump (Bool.eq_false_iff.2 fun on => enters (passes.1 on)) ?_
    rw [after_partialUnroll_tail]
    exact guardedSource_reaches invariant runs fits le_rfl runs.pos

theorem rounds_le_of_unsafe (directed : branch.Directed loop.increment)
    (limitFits : FitsLong (loop.limitWord limit))
    (runs : Rounds (branch.GoesOn (loop.limitWord limit)) first loop.increment rounds)
    (fits : FitsRounds loop first rounds)
    (wrapped : ¬FitsLong (loop.limitWord limit - 3 * loop.increment)) : rounds ≤ clusterSize := by
  by_contra more
  have fifth := runs.goes clusterSize (by decide) (by omega)
  have second := fits 1 (by omega)
  simp only [clusterSize, Nat.cast_ofNat, Nat.cast_one, one_mul] at fifth second
  simp only [FitsLong, longMin, longMax] at *
  rcases directed with ⟨rfl | rfl, _⟩ | ⟨rfl | rfl, _⟩ <;>
    simp only [BranchType.GoesOn] at * <;> omega

end Uw7.Amigo
