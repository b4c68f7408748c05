import Uw7.Amigo.SourceRuns

/-!
# Entering an accepted loop

What the checks of an accepted loop say about its limits, and the rounds its
source makes: a signed counter does not overflow by assumption, an unsigned
one because an accepted test of it meets its limit.
-/

namespace Uw7.Amigo

open LabelCode StateTransition

def LoopState.entered (first temp : Int) : LoopState := ⟨first, temp, [], []⟩

/-- The counter starts from the loop's constant, where there is one. -/
def CountedLoop.EntersAt (loop : CountedLoop) (first : Int) : Prop :=
  ∀ value, loop.beginLimit = .icon value → first = wrap32 value

variable {loop : CountedLoop}

theorem ConstantLoop.limits {type : LoopType}
    (constant : ConstantLoop loop type) {limit first : Int} (enters : loop.EntersAt first) :
    first = loop.beginValue ∧ loop.limitWord limit = loop.endValue ∧ FitsLong loop.endValue ∧
      (∀ state, (endTree loop).eval limit state = loop.endValue) := by
  have start : first = loop.beginValue := by
    have startConstant := constant.startConstant
    unfold getInitialType at startConstant
    unfold CountedLoop.beginValue
    cases shape : loop.beginLimit with
    | icon value =>
      rw [shape] at startConstant
      simp only [numToslong] at startConstant
      by_cases fits : FitsLong value
      · exact (enters value shape).trans (wrap32_of_fits fits)
      · simp [fits, LoopFlags.constant, LoopFlags.invariant] at startConstant
    | counter | counterPlus amount | invariant | temp =>
      simp [shape, LoopFlags.constant, LoopFlags.invariant] at startConstant
  have testConstant := constant.testConstant
  -- an accepted constant test has an `ICON` that fits, or none at all
  have ends : loop.test.endLimit = none ∨ ∃ value, loop.test.endLimit = some (.icon value) ∧
      FitsLong value := by
    have compared (belowNot : Bool) (op : Relop) (right : Tree)
        (same : (compareTestType belowNot op right).1 = .constant) :
        ∃ value, some right = some (Tree.icon value) ∧ FitsLong value := by
      have accepted : (compareTestType belowNot op right).1 ≠ .noUnrolling := by
        rw [same]
        decide
      rcases (compareTestType_accepted accepted).2 with
        ⟨value, rfl, fits, _⟩ | ⟨_, invariant⟩
      · exact ⟨value, rfl, fits⟩
      · rw [same] at invariant
        cases invariant
    cases shape : loop.test with
    | name => exact .inl rfl
    | compare op right =>
      rw [shape] at testConstant
      exact .inr (compared false op right testConstant)
    | not test =>
      cases test with
      | name => exact .inl rfl
      | compare op right =>
        rw [shape] at testConstant
        exact .inr (compared true op right testConstant)
      | not test =>
        rw [shape] at testConstant
        cases testConstant
  refine ⟨start, ?_⟩
  rcases ends with bare | ⟨value, shape, fits⟩
  · refine ⟨?_, ?_, ?_⟩
    · simp [CountedLoop.limitWord, CountedLoop.endValue, bare]
    · simp [CountedLoop.endValue, bare, FitsLong, longMin, longMax]
    · intro state
      simp [endTree, CountedLoop.endValue, bare, Tree.eval, wrap32]
  · have same := wrap32_of_fits fits
    refine ⟨?_, ?_, ?_⟩
    · simp [CountedLoop.limitWord, CountedLoop.endValue, shape, same]
    · simpa [CountedLoop.endValue, shape] using fits
    · intro state
      simp [endTree, CountedLoop.endValue, shape, Tree.eval, same]

theorem eval_endTree {limit : Int}
    (accepted : (getTestType loop.test).1 ≠ .noUnrolling) (state : LoopState) :
    (endTree loop).eval limit state = loop.limitWord limit := by
  have compared (belowNot : Bool) (op : Relop) (right : Tree)
      (accepts : (compareTestType belowNot op right).1 ≠ .noUnrolling) :
      right = .invariant ∨ ∃ value, right = .icon value := by
    rcases (compareTestType_accepted accepts).2 with
      ⟨value, rfl, _⟩ | ⟨rfl, _⟩
    · exact .inr ⟨value, rfl⟩
    · exact .inl rfl
  unfold endTree CountedLoop.limitWord
  cases shape : loop.test with
  | name => simp [Test.endLimit, Tree.eval, wrap32]
  | compare op right =>
    rw [shape] at accepted
    rcases compared false op right accepted with rfl | ⟨value, rfl⟩ <;> rfl
  | not test =>
    cases test with
    | name => simp [Test.endLimit, Tree.eval, wrap32]
    | compare op right =>
      rw [shape] at accepted
      rcases compared true op right accepted with rfl | ⟨value, rfl⟩ <;> rfl
    | not test => simp [shape, getTestType] at accepted

theorem after_source (loop : CountedLoop) : after loop.source loop.label =
    (loop.trip ++ [Action.osLoop .lcond]).map .act ++
      .cbranch loop.test loop.label :: [.act (.osLoop .lend)] := by
  simp [CountedLoop.source, after]

theorem source_halts_of_rounds {limit : Int} {state : LoopState} {rounds : Nat}
    (accepted : (getTestType loop.test).1 ≠ .noUnrolling)
    (runs : Rounds ((getTestType loop.test).2.GoesOn (loop.limitWord limit))
      state.counter loop.increment rounds)
    (fits : FitsRounds loop state.counter rounds) :
    Halts (Action.exec limit) (Test.holds limit) loop.source state
      (state.afterRounds loop rounds) := by
  apply halts_of_reaches
  refine reaches_act (reaches_act (reaches_label ?_))
  have meaning := @getTestType_holds loop limit accepted
  have repeated : Repeats (execAll (Action.exec limit) (loop.trip ++ [.osLoop .lcond]))
      (loop.test.holds limit) state (state.afterRounds loop (rounds * 1)) := by
    refine repeats_of_blocks ?_ runs.pos (by simpa using fits) ?_ ?_
    · intro reached fitting
      exact exec_trip (by simpa using fitting 1 le_rfl)
    · intro before from1 below
      rw [Bool.eq_false_iff, ne_eq, meaning, not_not]
      simpa [LoopState.afterRounds] using runs.goes before from1 below
    · rw [meaning]
      simpa [LoopState.afterRounds] using runs.stops
  rw [Nat.mul_one] at repeated
  have further := reaches_repeats (after_source loop) repeated (reaches_act (.refl : Reaches
      (step (Action.exec limit) (Test.holds limit) loop.source)
      ⟨[], state.afterRounds loop rounds⟩ _))
  exact further

variable {loop : CountedLoop} {limit first temp : Int} {final : LoopState} {type : LoopType}

theorem rounds_of_source_halts {state : LoopState}
    (accepted : (getTestType loop.test).1 ≠ .noUnrolling) (firstFits : FitsLong state.counter)
    (halts : Halts (Action.exec limit) (Test.holds limit) loop.source state final)
    (noOverflow : ∀ value, value ∈ final.trace → FitsLong (value + loop.increment)) :
    ∃ rounds, Rounds ((getTestType loop.test).2.GoesOn (loop.limitWord limit))
      state.counter loop.increment rounds ∧ FitsRounds loop state.counter rounds ∧
      final = state.afterRounds loop rounds := by
  have meaning := @getTestType_holds loop limit accepted
  have entered : Reaches (step (Action.exec limit) (Test.holds limit) loop.source)
      ⟨loop.source, state⟩ ⟨(loop.trip ++ [Action.osLoop .lcond]).map .act ++
        .cbranch loop.test loop.label :: [.act (.osLoop .lend)], state⟩ :=
    reaches_act (reaches_act (reaches_label .refl))
  obtain ⟨left, repeated, further⟩ := repeats_of_reaches (after_source loop)
    (reaches_of_halts_of_reaches halts entered)
  have same : left = final := by
    have ends : Reaches (step (Action.exec limit) (Test.holds limit) loop.source)
        ⟨[.act (.osLoop .lend)], left⟩ ⟨[], left⟩ :=
      reaches_act .refl
    have here := (mem_eval.2 ⟨further, rfl⟩ :
      (⟨[], final⟩ : Config Action Test LoopState) ∈ eval _ _)
    have there := (mem_eval.2 ⟨ends, rfl⟩ : (⟨[], left⟩ : Config Action Test LoopState) ∈ eval _ _)
    simpa using (Part.mem_unique here there).symm
  subst same
  exact rounds_of_repeats meaning repeated firstFits noOverflow

theorem branch_of_unsigned (typed : loop.WellTyped) (unsigned : loop.counterType = .tyUint)
    (accepted : (getTestType loop.test).1 ≠ .noUnrolling) :
    (getTestType loop.test).2 = .notNe ∨ (getTestType loop.test).2 = .notName := by
  have compared (belowNot : Bool) (op : Relop) (right : Tree)
      (accepts : (compareTestType belowNot op right).1 ≠ .noUnrolling)
      (equality : op = .eq ∨ op = .ne ∨ op = .ult ∨ op = .ule ∨ op = .ugt ∨ op = .uge) :
      (compareTestType belowNot op right).2 = .notNe := by
    have found := (compareTestType_accepted accepts).1
    rcases equality with rfl | rfl | rfl | rfl | rfl | rfl <;>
      cases belowNot <;> simp [branchTypeOf] at found
    · exact found.symm
    · exact found.symm
  have ops := typed.opTyped unsigned
  cases shape : loop.test with
  | name => simp [shape, getTestType] at accepted
  | compare op right =>
    rw [shape] at accepted
    exact .inl (compared false op right accepted (ops op (by rw [shape]; rfl)))
  | not test =>
    cases test with
    | name => exact .inr rfl
    | compare op right =>
      rw [shape] at accepted
      exact .inl (compared true op right accepted (ops op (by rw [shape]; rfl)))
    | not test => simp [shape, getTestType] at accepted

theorem CountedLoop.WellTyped.limits_nonneg (typed : loop.WellTyped)
    (unsigned : loop.counterType = .tyUint) : 0 ≤ loop.beginValue ∧ 0 ≤ loop.endValue := by
  constructor
  · have begins := typed.beginTyped
    unfold CountedLoop.beginValue
    rw [unsigned] at begins
    cases shape : loop.beginLimit with
    | icon value =>
      rw [shape] at begins
      exact begins.1
    | counter | counterPlus amount | invariant | temp => exact le_refl _
  · unfold CountedLoop.endValue
    cases shape : loop.test.endLimit with
    | none => exact le_refl _
    | some limit =>
      have ends := typed.endTyped limit shape
      rw [unsigned] at ends
      cases limit with
      | icon value => exact ends.1
      | counter | counterPlus amount | invariant | temp => exact le_refl _

/-- The source of a loop makes rounds: what both kinds of accepted loops share.
-/
def SourceRounds (loop : CountedLoop) (limit : Int) (branch : BranchType) (start final : LoopState)
    (rounds : Nat) : Prop :=
  Rounds (branch.GoesOn (loop.limitWord limit)) start.counter loop.increment rounds ∧
    FitsRounds loop start.counter rounds ∧ final = start.afterRounds loop rounds

theorem ConstantLoop.sourceRounds (constant : ConstantLoop loop type) (typed : loop.WellTyped)
    (enters : loop.EntersAt first) (firstFits : FitsLong first)
    (halts : Halts (Action.exec limit) (Test.holds limit) loop.source (.entered first temp) final)
    (noOverflow : loop.counterType = .tyInt →
      ∀ value, value ∈ final.trace → FitsLong (value + loop.increment)) :
    ∃ rounds, SourceRounds loop limit type.branch (.entered first temp) final
      rounds := by
  have accepted : (getTestType loop.test).1 ≠ .noUnrolling := by
    rw [constant.testConstant]
    decide
  rw [constant.branchFound]
  cases kind : loop.counterType with
  | tyInt => exact rounds_of_source_halts accepted firstFits halts (noOverflow kind)
  | tyUint =>
    obtain ⟨start, ends, endFits, _⟩ :=  @ConstantLoop.limits loop type constant limit first enters
    obtain ⟨startNonneg, endNonneg⟩ := typed.limits_nonneg kind
    have equality := branch_of_unsigned typed kind accepted
    have several := constant.several
    rw [constant.counted, constant.branchFound] at several
    have wide : FitsLong (loop.beginValue - loop.endValue) := by
      simp only [FitsLong, longMin, longMax] at *
      omega
    obtain ⟨rounds, runs, meets⟩ := rounds_of_iterations equality wide several
    have meeting : Rounds ((getTestType loop.test).2.GoesOn (loop.limitWord limit))
        first loop.increment rounds := by
      rw [ends, start]
      refine runs.congr fun value => ?_
      rcases equality with same | same <;> rw [same] <;> rfl
    have fits : FitsRounds loop first rounds := by
      intro round within
      refine fits_between firstFits ?_ within
      rw [start, meets]
      exact endFits
    refine ⟨rounds, meeting, fits, ?_⟩
    exact halts.unique (@source_halts_of_rounds loop limit (.entered first temp) rounds
      accepted meeting fits)

theorem InvariantLoop.sourceRounds (invariant : InvariantLoop loop type) (typed : loop.WellTyped)
    (firstFits : FitsLong first)
    (halts : Halts (Action.exec limit) (Test.holds limit) loop.source (.entered first temp) final)
    (noOverflow : loop.counterType = .tyInt →
      ∀ value, value ∈ final.trace → FitsLong (value + loop.increment)) :
    ∃ rounds, SourceRounds loop limit type.branch (.entered first temp) final
      rounds := by
  cases kind : loop.counterType with
  | tyInt =>
    rw [invariant.branchFound]
    exact rounds_of_source_halts invariant.accepted firstFits halts (noOverflow kind)
  | tyUint =>
    have equality := branch_of_unsigned typed kind invariant.accepted
    have directed := invariant.directed
    rw [invariant.branchFound] at directed
    rcases equality with same | same <;> rw [same] at directed <;> simp at directed

end Uw7.Amigo
