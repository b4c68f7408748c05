import Uw7.Amigo.UnrollCorrect

/-!
# When unrolling preserves the loop

For every accepted loop and every run of its source without signed overflow,
what is asked of the unrolled loop, and exactly when it is so.
-/

namespace Uw7.Amigo

open LabelCode StateTransition

/-- What is asked of the unrolled loop for one run of its source: the same
bodies and the same counter, a true trip count, and no cluster with fewer than
four rounds left. -/
structure Unrolls (thresholds : Thresholds) (loop : CountedLoop) (limit first temp : Int)
    (final : LoopState) : Prop where
  same : ∃ left, Halts (Action.exec limit) (Test.holds limit)
      (loopUnrolling thresholds loop) (.entered first temp)
      { final with temp := left }
  counted : unrollingOf thresholds loop = some .completeUnroll ∨
      unrollingOf thresholds loop = some .partialConstUnroll →
    (loopType thresholds loop).iterations = final.trace.length
  guarded : unrollingOf thresholds loop = some .partialUnroll → ∀ state, Reaches
      (step (Action.exec limit) (Test.holds limit) (loopUnrolling thresholds loop))
      ⟨loopUnrolling thresholds loop, .entered first temp⟩
      ⟨partialCluster loop (loopType thresholds loop), state⟩ →
      state.trace.length + clusterSize ≤ final.trace.length

/-- The condition on a loop and its limits: no `<` below the smallest number is
unrolled completely, no loop of fewer than four rounds is given a cluster, and
the guard's number does not wrap around into the loop's way. -/
def UnrollSafe (thresholds : Thresholds) (loop : CountedLoop) (limit first : Int)
    (rounds : Nat) : Prop :=
  match unrollingOf thresholds loop with
  | none => True
  | some .completeUnroll => ¬((getTestType loop.test).2 = .notLt ∧ loop.endValue = longMin)
  | some .partialConstUnroll => clusterSize ≤ rounds
  | some .partialUnroll =>
    GuardSafe loop (getTestType loop.test).2 limit first

variable {loop : CountedLoop} {limit first temp : Int} {final : LoopState} {rounds : Nat}
  {thresholds : Thresholds}

theorem fitsLong_limitWord (limitFits : FitsLong limit) : FitsLong (loop.limitWord limit) := by
  unfold CountedLoop.limitWord
  split
  · exact fitsLong_wrap32 _
  · exact limitFits
  · simp [FitsLong, longMin, longMax]

theorem SourceRounds.length_trace {branch : BranchType}
    (source : SourceRounds loop limit branch (.entered first temp) final rounds) :
    final.trace.length = rounds := by
  rw [source.2.2]
  simp [LoopState.afterRounds, LoopState.entered]

theorem guarded_of_same {type : LoopType} {start state : LoopState} {code : List QueueItem}
    (halts : Halts (Action.exec limit) (Test.holds limit) code start final)
    (cluster : Reaches (step (Action.exec limit) (Test.holds limit) code)
      ⟨code, start⟩ ⟨partialCluster loop type, state⟩) :
    state.trace.length + clusterSize ≤ final.trace.length := by
  have onwards := reaches_of_halts_of_reaches halts cluster
  have kept := length_trace_le_of_reaches (reaches_of_reaches_acts onwards)
  rwa [length_trace_execAll, countP_clusterActions] at kept

theorem completeUnroll_iff (typed : loop.WellTyped) (enters : loop.EntersAt first)
    (firstFits : FitsLong first) (chosen : unrollingOf thresholds loop = some .completeUnroll)
    (source : SourceRounds loop limit (loopType thresholds loop).branch
      (.entered first temp) final rounds) :
    Unrolls thresholds loop limit first temp final ↔
      ¬((getTestType loop.test).2 = .notLt ∧ loop.endValue = longMin) := by
  obtain ⟨constant, straight, unused⟩ := constantLoop_of_completeUnroll chosen
  have code : loopUnrolling thresholds loop = completeUnroll loop (loopType thresholds loop) := by
    simp [loopUnrolling, chosen]
  constructor
  · rintro ⟨⟨left, halts⟩, counted, _⟩ ⟨below, least⟩
    rw [← constant.branchFound] at below
    have one := constant.one_round enters source below least
    have iterations := counted (.inl chosen)
    rw [source.length_trace, one] at iterations
    have several := constant.several
    rw [iterations] at several
    exact absurd several (by decide)
  · intro safe
    have counted : (loopType thresholds loop).iterations = rounds := by
      refine constant.iterations_eq typed enters firstFits source ?_
      intro below least
      exact safe ⟨constant.branchFound ▸ below, least⟩
    obtain ⟨start, _⟩ := @ConstantLoop.limits loop _ constant limit first enters
    have halts := completeUnroll_halts loop (loopType thresholds loop) limit (.entered first temp)
    rw [counted, Int.toNat_natCast, completeUnroll_exec straight constant.keeps unused start
      source.2.1, ← source.2.2] at halts
    refine ⟨⟨final.temp, ?_⟩, ?_, ?_⟩
    · rw [code]
      exact halts
    · intro _
      rw [counted, source.length_trace]
    · intro other
      rw [chosen] at other
      cases other

theorem partialConstUnroll_iff (typed : loop.WellTyped) (enters : loop.EntersAt first)
    (firstFits : FitsLong first) (chosen : unrollingOf thresholds loop = some .partialConstUnroll)
    (source : SourceRounds loop limit (loopType thresholds loop).branch
      (.entered first temp) final rounds) :
    Unrolls thresholds loop limit first temp final ↔ clusterSize ≤ rounds := by
  obtain ⟨constant, byName⟩ := constantLoop_of_partialConstUnroll chosen
  have code : loopUnrolling thresholds loop =
      partialConstUnroll loop (loopType thresholds loop) := by
    simp [loopUnrolling, chosen]
  constructor
  · rintro ⟨⟨left, halts⟩, _, _⟩
    rw [code] at halts
    -- the cluster runs once whatever the test behind it says
    have cluster : Reaches (step (Action.exec limit) (Test.holds limit)
        (partialConstUnroll loop (loopType thresholds loop)))
        ⟨partialConstUnroll loop (loopType thresholds loop), .entered first temp⟩
        ⟨partialConstCluster loop (loopType thresholds loop), execAll (Action.exec limit)
          (partialConstHead loop (loopType thresholds loop)) (.entered first temp)⟩ :=
      reaches_acts _ _ (reaches_label .refl)
    have kept := length_trace_le_of_reaches (reaches_of_reaches_acts
        (reaches_of_halts_of_reaches halts cluster))
    rw [length_trace_execAll, countP_clusterActions] at kept
    rw [← source.length_trace]
    exact le_trans (Nat.le_add_left _ _) kept
  · intro four
    have noWrap : (loopType thresholds loop).branch = .notLt → loop.endValue ≠ longMin := by
      intro below least
      have one := constant.one_round enters source below least
      rw [one] at four
      exact absurd four (by decide)
    have counted : (loopType thresholds loop).iterations = rounds :=
      constant.iterations_eq typed enters firstFits source noWrap
    obtain ⟨_, ends, _, stable⟩ := @ConstantLoop.limits loop _ constant limit first enters
    have halts := partialConstUnroll_halts byName constant.keeps
        (fun other => (stable other).trans ends.symm) source.1 source.2.1 counted four
    rw [← source.2.2] at halts
    refine ⟨⟨final.temp, ?_⟩, ?_, ?_⟩
    · rw [code]
      exact halts
    · intro _
      rw [counted, source.length_trace]
    · intro other
      rw [chosen] at other
      cases other

theorem partialUnroll_iff (limitFits : FitsLong limit)
    (chosen : unrollingOf thresholds loop = some .partialUnroll)
    (source : SourceRounds loop limit (loopType thresholds loop).branch
      (.entered first temp) final rounds) :
    Unrolls thresholds loop limit first temp final ↔
      GuardSafe loop (getTestType loop.test).2 limit first := by
  have invariant := invariantLoop_of_partialUnroll chosen
  have directed : (loopType thresholds loop).branch.Directed loop.increment := invariant.directed
  have code : loopUnrolling thresholds loop = partialUnroll loop (loopType thresholds loop) := by
    simp [loopUnrolling, chosen]
  rw [← invariant.branchFound]
  obtain ⟨runs, fits, ends⟩ := source
  constructor
  · rintro ⟨_, _, guarded⟩
    unfold GuardSafe
    by_contra unsafeGuard
    rw [not_or, not_not] at unsafeGuard
    obtain ⟨wrapped, enters⟩ := unsafeGuard
    have few := rounds_le_of_unsafe directed (fitsLong_limitWord limitFits) runs fits wrapped
    -- the guard lets the cluster run behind the first round
    have cluster : Reaches (step (Action.exec limit) (Test.holds limit)
        (partialUnroll loop (loopType thresholds loop)))
        ⟨partialUnroll loop (loopType thresholds loop), .entered first temp⟩
        ⟨partialCluster loop (loopType thresholds loop), execAll (Action.exec limit)
          (partialHead loop (loopType thresholds loop)) (.entered first temp)⟩ := by
      refine reaches_acts _ _ (reaches_fall ?_ ?_)
      · rw [partialHead_exec invariant (fits.mono runs.pos), Test.holds, relopOf_compare directed]
        simpa [LoopState.afterRounds, LoopState.entered, Tree.eval] using enters
      · exact reaches_act (reaches_act (reaches_label .refl))
    have left := guarded chosen _ (by rw [code]; exact cluster)
    rw [partialHead_exec invariant (fits.mono runs.pos), ends] at left
    simp only [LoopState.afterRounds, LoopState.entered, List.nil_append,
      length_counterValues] at left
    omega
  · intro safe
    have halts := @partialUnroll_halts loop _ limit (.entered first temp) rounds
        invariant runs fits safe
    rw [← code] at halts
    have same : Halts (Action.exec limit) (Test.holds limit)
        (loopUnrolling thresholds loop) (.entered first temp)
        { final with temp := guardWord loop limit } := by
      rw [ends]
      exact halts
    refine ⟨⟨_, same⟩, ?_, ?_⟩
    · intro other
      rw [chosen] at other
      rcases other with other | other <;> cases other
    · intro _ state cluster
      have kept := guarded_of_same same cluster
      exact kept

/-- Thresholds for the examples. -/
def sampleThresholds : Thresholds := ⟨10, 3⟩

/-- A signed loop up to a limit in a variable, by a given step. -/
def loopBelow (step : Int) : CountedLoop where
  counterType := .tyInt
  test := .compare .ge .invariant
  beginLimit := .invariant
  increment := step
  usedBehindUpdate := false
  updateFound := true
  labelFound := true
  singleExit := true
  treeCount := 2
  label := 1

theorem wellTyped_loopBelow {step : Int} (fits : FitsLong step) : (loopBelow step).WellTyped where
  beginTyped := trivial
  endTyped := by
    intro limit found
    cases found
    trivial
  opTyped := by
    intro unsigned
    cases unsigned
  incrementFits := fits

end Uw7.Amigo
