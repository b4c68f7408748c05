import Uw7.Amigo.LoopRounds

/-!
# Runs of the loop as it was

The pattern found for a test says when the loop goes on; a run of the loop that
ends without overflow is a number of rounds, and these rounds are a run.
-/

namespace Uw7.Amigo

open LabelCode StateTransition

def CountedLoop.limitWord (loop : CountedLoop) (limit : Int) : Int :=
  match loop.test.endLimit with
  | some (.icon value) => wrap32 value
  | some _ => limit
  | none => 0

variable {belowNot : Bool} {op : Relop} {loop : CountedLoop} {done : LoopState → Bool}
  {state last : LoopState} {limit : Int} {thresholds : Thresholds}

theorem branchTypeOf_compare {branch : BranchType} (found : branchTypeOf belowNot op = some branch)
    (counter last : Int) : (op.compare counter last = !belowNot) ↔ ¬branch.GoesOn last counter := by
  cases op <;> cases belowNot <;> simp [branchTypeOf] at found <;>
    subst found <;> simp [Relop.compare, BranchType.GoesOn]

theorem compareTestType_accepted {right : Tree}
    (accepted : (compareTestType belowNot op right).1 ≠ .noUnrolling) :
    branchTypeOf belowNot op = some (compareTestType belowNot op right).2 ∧
      ((∃ value, right = .icon value ∧ FitsLong value ∧
        (compareTestType belowNot op right).1 = .constant) ∨
        (right = .invariant ∧ (compareTestType belowNot op right).1 = .invariant)) := by
  cases right with
  | icon value =>
    by_cases fits : FitsLong value
    · cases found : branchTypeOf belowNot op with
      | none => simp [compareTestType, numToslong, fits, found] at accepted
      | some branch => simp [compareTestType, numToslong, fits, found]
    · simp [compareTestType, numToslong, fits] at accepted
  | invariant =>
    cases found : branchTypeOf belowNot op with
    | none => simp [compareTestType, found] at accepted
    | some branch => simp [compareTestType, found]
  | counter | counterPlus amount | temp => simp [compareTestType] at accepted

/-- **The pattern found for a test is what the test says**: the loop's branch
falls through exactly when the loop does not go on. -/
theorem getTestType_holds {loop : CountedLoop} {limit : Int}
    (accepted : (getTestType loop.test).1 ≠ .noUnrolling) (state : LoopState) :
    loop.test.holds limit state = true ↔ ¬(getTestType loop.test).2.GoesOn (loop.limitWord limit)
      state.counter := by
  unfold CountedLoop.limitWord
  cases shape : loop.test with
  | name => simp [shape, getTestType] at accepted
  | compare op right =>
    rw [shape] at accepted
    obtain ⟨found, limits⟩ := compareTestType_accepted accepted
    have meaning := branchTypeOf_compare found state.counter
    rcases limits with ⟨value, rfl, _, _⟩ | ⟨rfl, _⟩
    · exact meaning (wrap32 value)
    · exact meaning limit
  | not test =>
    cases test with
    | name => simp [getTestType, Test.holds, Test.endLimit, BranchType.GoesOn]
    | compare op right =>
      rw [shape] at accepted
      obtain ⟨found, limits⟩ := compareTestType_accepted accepted
      have meaning := branchTypeOf_compare found state.counter
      simp only [Test.holds, Bool.not_eq_true']
      rcases limits with ⟨value, rfl, _, _⟩ | ⟨rfl, _⟩
      · exact meaning (wrap32 value)
      · exact meaning limit
    | not test => simp [shape, getTestType] at accepted

theorem Rounds.again {goesOn : Int → Prop} {first increment : Int} {rounds : Nat}
    (on : goesOn (first + increment)) (runs : Rounds goesOn (first + increment) increment rounds) :
    Rounds goesOn first increment (rounds + 1) := by
  have shifted (round : Nat) : first + ((round + 1 : Nat) : Int) * increment =
      first + increment + round * increment := by
    push_cast
    ring
  refine ⟨by omega, ?_, ?_⟩
  · intro round from1 below
    obtain ⟨before, rfl⟩ : ∃ before, round = before + 1 := ⟨round - 1, by omega⟩
    rw [shifted]
    by_cases second : before = 0
    · subst second
      simpa using on
    · exact runs.goes before (by omega) (by omega)
  · rw [shifted]
    exact runs.stops

theorem repeats_of_blocks {block : LoopState → LoopState} {size : Nat}
    (rounds : ∀ state, FitsRounds loop state.counter size →
      block state = state.afterRounds loop size) {number : Nat} (some1 : 1 ≤ number)
    (fits : FitsRounds loop state.counter (number * size))
    (goes : ∀ before, 1 ≤ before → before < number →
      done (state.afterRounds loop (before * size)) = false)
    (stops : done (state.afterRounds loop (number * size)) = true) :
    Repeats block done state (state.afterRounds loop (number * size)) := by
  induction number generalizing state with
  | zero => omega
  | succ number ih =>
    have whole : (number + 1) * size = size + number * size := by ring
    rw [whole] at fits stops ⊢
    have firstBlock := rounds state (fits.mono (by omega))
    rw [← LoopState.afterRounds_add] at stops ⊢
    by_cases last : number = 0
    · subst last
      simp only [Nat.zero_mul, LoopState.afterRounds_zero] at stops ⊢
      rw [← firstBlock] at stops ⊢
      exact .last stops
    · refine .again ?_ ?_
      · rw [firstBlock]
        simpa using goes 1 le_rfl (by omega)
      · rw [firstBlock]
        refine ih (by omega) fits.shift ?_ stops
        intro before from1 below
        have later := goes (before + 1) (by omega) (by omega)
        have split : (before + 1) * size = size + before * size := by ring
        rw [split, ← LoopState.afterRounds_add] at later
        exact later

theorem mem_trace_exec_trip : (execAll (Action.exec limit) (loop.trip ++ [.osLoop .lcond])
    state).trace = state.trace ++ [state.counter] := by
  cases used : loop.usedBehindUpdate <;>
    simp [CountedLoop.trip, CountedLoop.behind, execAll, Action.exec, Tree.eval, used]

theorem mem_trace_of_repeats
    (repeated : Repeats (execAll (Action.exec limit) (loop.trip ++ [.osLoop .lcond]))
      done state last) :
    state.counter ∈ last.trace ∧ state.trace ⊆ last.trace := by
  induction repeated with
  | last _ =>
    rw [mem_trace_exec_trip]
    simp
  | again _ _ ih =>
    obtain ⟨_, kept⟩ := ih
    rw [mem_trace_exec_trip] at kept
    exact ⟨kept (by simp), fun value member => kept (by simp [member])⟩

theorem rounds_of_repeats {goesOn : Int → Prop}
    (meaning : ∀ state, done state = true ↔ ¬goesOn state.counter)
    (repeated : Repeats (execAll (Action.exec limit) (loop.trip ++ [.osLoop .lcond]))
      done state last) (firstFits : FitsLong state.counter)
    (noOverflow : ∀ value, value ∈ last.trace → FitsLong (value + loop.increment)) :
    ∃ rounds, Rounds goesOn state.counter loop.increment rounds ∧
      FitsRounds loop state.counter rounds ∧ last = state.afterRounds loop rounds := by
  induction repeated with
  | @last state passed =>
    have nextFits := noOverflow state.counter (by rw [mem_trace_exec_trip]; simp)
    have stopped := (meaning _).1 passed
    rw [exec_trip nextFits] at stopped ⊢
    refine ⟨1, ⟨le_rfl, by omega, by simpa [LoopState.afterRounds] using stopped⟩, ?_, rfl⟩
    intro round within
    rcases Nat.le_one_iff_eq_zero_or_eq_one.1 within with rfl | rfl
    · simpa using firstFits
    · simpa using nextFits
  | @again state last failed further ih =>
    obtain ⟨_, kept⟩ := mem_trace_of_repeats further
    have nextFits := noOverflow state.counter (kept (by rw [mem_trace_exec_trip]; simp))
    rw [exec_trip nextFits] at failed further ih
    have next : (state.afterRounds loop 1).counter = state.counter + loop.increment := by
      simp [LoopState.afterRounds]
    have on : goesOn (state.counter + loop.increment) := by
      rw [← next]
      by_contra off
      rw [(meaning _).2 off] at failed
      cases failed
    rw [next] at ih
    obtain ⟨rounds, runs, fits, rfl⟩ := ih nextFits noOverflow
    refine ⟨rounds + 1, runs.again on, ?_, ?_⟩
    · intro round within
      cases round with
      | zero => simpa using firstFits
      | succ before =>
        have later := fits before (by omega)
        push_cast
        convert later using 1
        ring
    · rw [LoopState.afterRounds_add, Nat.add_comm]

/-- What makes a loop one with constant limits, counted when it is compiled. -/
structure ConstantLoop (loop : CountedLoop) (type : LoopType) : Prop where
  testConstant : (getTestType loop.test).1 = .constant
  startConstant : getInitialType loop.beginLimit = .constant
  branchFound : type.branch = (getTestType loop.test).2
  counted : type.iterations = iterations type.branch loop.beginValue loop.endValue loop.increment
  several : minIterations < type.iterations
  keeps : UpdatesKept type.flags loop

/-- What makes a loop one whose limits are known at run time. -/
structure InvariantLoop (loop : CountedLoop) (type : LoopType) : Prop where
  accepted : (getTestType loop.test).1 ≠ .noUnrolling
  branchFound : type.branch = (getTestType loop.test).2
  directed : ((type.branch = .notLe ∨ type.branch = .notLt) ∧ 0 < loop.increment) ∨
      ((type.branch = .notGe ∨ type.branch = .notGt) ∧ loop.increment < 0)
  byName : type.flags.invarLimits = true
  keeps : UpdatesKept type.flags loop

theorem shapeFlags_accepted {flags : LoopFlags} (unkept : flags.leaveCounterIncr = false)
    (accepted : (shapeFlags loop flags).noUnroll = false) :
    flags ≠ .noUnrolling ∧ (shapeFlags loop flags).constLimits = flags.constLimits ∧
      (shapeFlags loop flags).invarLimits = flags.invarLimits ∧
      UpdatesKept (shapeFlags loop flags) loop ∧
      (flags = .constant → loop.usedBehindUpdate = false) := by
  unfold shapeFlags at accepted ⊢
  split at accepted
  case isTrue _ => simp [LoopFlags.noUnrolling] at accepted
  case isFalse some1 =>
    split at accepted
    case isTrue _ => simp [LoopFlags.noUnrolling] at accepted
    case isFalse label =>
      split at accepted
      case isTrue _ => simp [LoopFlags.noUnrolling] at accepted
      case isFalse update =>
        simp only [if_neg some1, if_neg label, if_neg update]
        refine ⟨some1, ?_⟩
        unfold checkCounterUpdate at accepted ⊢
        cases used : loop.usedBehindUpdate with
        | false => simp [UpdatesKept, used, unkept]
        | true =>
          by_cases constant : flags = .constant
          · simp [used, constant, LoopFlags.noUnrolling] at accepted
          · simp [UpdatesKept, used, constant]

theorem constantFlags_cases (thresholds : Thresholds) (treeCount : Nat) (rounds : Int) :
    constantFlags thresholds treeCount rounds = .noUnrolling ∨ minIterations < rounds ∧
      (constantFlags thresholds treeCount rounds = .constant ∨
        constantFlags thresholds treeCount rounds =
          { LoopFlags.constant with invarLimits := true }) := by
  unfold constantFlags
  split
  case isFalse => exact .inl rfl
  case isTrue several =>
    right
    refine ⟨several, ?_⟩
    split
    · exact .inr rfl
    · exact .inl rfl

theorem invariantFlags_cases (branch : BranchType) (increment : Int) :
    invariantFlags branch increment = .noUnrolling ∨ invariantFlags branch increment = .invariant ∧
      (((branch = .notLe ∨ branch = .notLt) ∧ 0 < increment) ∨
        ((branch = .notGe ∨ branch = .notGt) ∧ increment < 0)) := by
  cases branch <;> simp only [invariantFlags, reduceCtorEq, or_self,
    or_false, or_true, true_and, false_and, false_or, and_false] <;>
    split <;> simp <;> omega

theorem limitFlags_cases (thresholds : Thresholds) (loop : CountedLoop) (tested : LoopFlags)
    (branch : BranchType) :
    (limitFlags thresholds loop tested branch).1 = .noUnrolling ∨ (tested = .constant ∧
      (limitFlags thresholds loop tested branch).2 =
        iterations branch loop.beginValue loop.endValue loop.increment ∧
      minIterations < (limitFlags thresholds loop tested branch).2 ∧
      ((limitFlags thresholds loop tested branch).1 = .constant ∨
        (limitFlags thresholds loop tested branch).1 =
          { LoopFlags.constant with invarLimits := true })) ∨
      (tested = .invariant ∧ (limitFlags thresholds loop tested branch).1 = .invariant ∧
        (((branch = .notLe ∨ branch = .notLt) ∧ 0 < loop.increment) ∨
          ((branch = .notGe ∨ branch = .notGt) ∧ loop.increment < 0))) := by
  unfold limitFlags
  split
  case isTrue constant =>
    rcases constantFlags_cases thresholds loop.treeCount
      (iterations branch loop.beginValue loop.endValue loop.increment) with
      none' | ⟨several, flags⟩
    · exact .inl none'
    · exact .inr (.inl ⟨constant, rfl, several, flags⟩)
  case isFalse notConstant =>
    split
    case isTrue invariant =>
      rcases invariantFlags_cases branch loop.increment with
        none' | ⟨flags, directed⟩
      · exact .inl none'
      · exact .inr (.inr ⟨invariant, flags, directed⟩)
    case isFalse => exact .inl rfl

theorem loopType_cases (thresholds : Thresholds) (loop : CountedLoop) :
    (loopType thresholds loop).flags.noUnroll = true ∨
      loopType thresholds loop = ⟨.none, .unknown, 0⟩ ∨
      (ConstantLoop loop (loopType thresholds loop) ∧
        (loopType thresholds loop).flags.constLimits = true ∧
        ((loopType thresholds loop).flags.invarLimits = false → loop.usedBehindUpdate = false)) ∨
      (InvariantLoop loop (loopType thresholds loop) ∧
        (loopType thresholds loop).flags.constLimits = false) := by
  unfold loopType
  split
  case isTrue _ => exact .inr (.inl rfl)
  case isFalse moves =>
    split
    case isTrue _ => exact .inl rfl
    case isFalse small =>
      simp only
      generalize testedAs : (if (getTestType loop.test).1 = LoopFlags.constant then
        getInitialType loop.beginLimit
        else (getTestType loop.test).1) = tested
      have limits := limitFlags_cases thresholds loop tested (getTestType loop.test).2
      generalize limitFlags thresholds loop tested (getTestType loop.test).2 = limited at limits
      cases refused : (shapeFlags loop limited.1).noUnroll with
      | true => exact .inl rfl
      | false =>
        rcases limits with none' | constant | invariant
        · rw [none'] at refused
          simp [shapeFlags, LoopFlags.noUnrolling] at refused
        · obtain ⟨rfl, counted, several, flags⟩ := constant
          have unkept : limited.1.leaveCounterIncr = false := by
            rcases flags with same | same <;> rw [same] <;> rfl
          have isConst : limited.1.constLimits = true := by
            rcases flags with same | same <;> rw [same] <;> rfl
          obtain ⟨_, constKept, invarKept, keeps, unused⟩ := shapeFlags_accepted unkept refused
          have found : (getTestType loop.test).1 = .constant ∧
              getInitialType loop.beginLimit = .constant := by
            by_cases testConst : (getTestType loop.test).1 = .constant
            · rw [if_pos testConst] at testedAs
              exact ⟨testConst, testedAs⟩
            · rw [if_neg testConst] at testedAs
              exact absurd testedAs testConst
          refine .inr (.inr (.inl ⟨⟨found.1, found.2, rfl, counted,
            several, keeps⟩, constKept.trans isConst, ?_⟩))
          intro complete
          rcases flags with same | same
          · exact unused same
          · rw [invarKept, same] at complete
            cases complete
        · obtain ⟨rfl, flags, directed⟩ := invariant
          obtain ⟨_, constKept, invarKept, keeps, _⟩ :=
            shapeFlags_accepted (by rw [flags]; rfl) refused
          have accepted : (getTestType loop.test).1 ≠ .noUnrolling := by
            intro refusal
            rw [refusal, if_neg (by decide)] at testedAs
            cases testedAs
          refine .inr (.inr (.inr ⟨⟨accepted, rfl, directed, ?_, keeps⟩, ?_⟩))
          · exact invarKept.trans (by rw [flags]; rfl)
          · exact constKept.trans (by rw [flags]; rfl)

theorem invariantLoop_of_partialUnroll (chosen : unrollingOf thresholds loop = some .partialUnroll)
    : InvariantLoop loop (loopType thresholds loop) := by
  simp only [unrollingOf] at chosen
  split at chosen
  case isTrue _ => cases chosen
  case isFalse open' =>
    rcases loopType_cases thresholds loop with
      refused | same | ⟨_, const, _⟩ | ⟨invariant, _⟩
    · exact absurd (.inr refused) open'
    · rw [same] at chosen
      cases chosen
    · split at chosen <;> simp at chosen
    · exact invariant

theorem constantLoop_of_partialConstUnroll
    (chosen : unrollingOf thresholds loop = some .partialConstUnroll) :
    ConstantLoop loop (loopType thresholds loop) ∧
      (loopType thresholds loop).flags.invarLimits = true := by
  simp only [unrollingOf] at chosen
  split at chosen
  case isTrue _ => cases chosen
  case isFalse open' =>
    split at chosen
    case isFalse _ => split at chosen <;> cases chosen
    case isTrue byName =>
      refine ⟨?_, byName⟩
      rcases loopType_cases thresholds loop with
        refused | same | ⟨constant, _, _⟩ | ⟨_, notConst⟩
      · exact absurd (.inr refused) open'
      · rw [same] at chosen
        cases chosen
      · exact constant
      · rw [notConst] at chosen
        cases chosen

theorem constantLoop_of_completeUnroll (chosen : unrollingOf thresholds loop = some .completeUnroll)
    : ConstantLoop loop (loopType thresholds loop) ∧
      (loopType thresholds loop).flags.invarLimits = false ∧ loop.usedBehindUpdate = false := by
  simp only [unrollingOf] at chosen
  split at chosen
  case isTrue _ => cases chosen
  case isFalse open' =>
    split at chosen
    case isTrue _ => split at chosen <;> cases chosen
    case isFalse notByName =>
      have straight := Bool.eq_false_iff.2 notByName
      rcases loopType_cases thresholds loop with
        refused | same | ⟨constant, _, unused⟩ | ⟨invariant, notConst⟩
      · exact absurd (.inr refused) open'
      · rw [same] at chosen
        cases chosen
      · exact ⟨constant, straight, unused straight⟩
      · rw [notConst] at chosen
        cases chosen

end Uw7.Amigo
