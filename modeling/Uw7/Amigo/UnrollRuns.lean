import Uw7.Amigo.LoopEntry

/-!
# Runs of the unrolled loop

The code built for an accepted loop makes the rounds of its source, and leaves
the same counter, exactly when the clusters of four have their four rounds and
the number the guard compares with did not wrap around unnoticed.
-/

namespace Uw7.Amigo

open LabelCode StateTransition List

/-- The ordered patterns, whose loops count towards their limit. -/
def BranchType.Directed (branch : BranchType) (increment : Int) : Prop :=
  ((branch = .notLe ∨ branch = .notLt) ∧ 0 < increment) ∨
    ((branch = .notGe ∨ branch = .notGt) ∧ increment < 0)

variable {branch : BranchType} {increment first last limit temp : Int} {rounds round : Nat}
  {loop : CountedLoop} {type : LoopType} {final : LoopState}

theorem relopOf_compare (directed : branch.Directed increment) (counter last : Int) :
    (relopOf branch increment).compare counter last = true ↔ branch.GoesOn last counter := by
  rcases directed with ⟨rfl | rfl, _⟩ | ⟨rfl | rfl, _⟩ <;>
    simp [relopOf, Relop.compare, BranchType.GoesOn]

theorem endRelopOf_compare (directed : branch.Directed increment) (counter last : Int) :
    (endRelopOf branch increment).compare counter last = true ↔ ¬branch.GoesOn last counter := by
  rcases directed with ⟨rfl | rfl, _⟩ | ⟨rfl | rfl, _⟩ <;>
    simp [endRelopOf, Relop.compare, BranchType.GoesOn]

theorem Rounds.goesOn_iff (runs : Rounds (branch.GoesOn last) first increment rounds)
    (directed : branch.Directed increment) (from1 : 1 ≤ round) :
    branch.GoesOn last (first + round * increment) ↔ round < rounds := by
  constructor
  · intro on
    by_contra past
    have stopped := runs.stops
    obtain ⟨extra, rfl⟩ := Nat.exists_eq_add_of_le (not_lt.1 past)
    push_cast at on
    have split : first + ((rounds : Int) + extra) * increment =
        first + rounds * increment + extra * increment := by
      ring
    rcases directed with ⟨up, positive⟩ | ⟨down, negative⟩
    · have more : 0 ≤ (extra : Int) * increment := mul_nonneg (by omega) (le_of_lt positive)
      rcases up with rfl | rfl <;> simp only [BranchType.GoesOn] at * <;> omega
    · have less : (extra : Int) * increment ≤ 0 :=
        mul_nonpos_of_nonneg_of_nonpos (by omega) (le_of_lt negative)
      rcases down with rfl | rfl <;> simp only [BranchType.GoesOn] at * <;> omega
  · exact runs.goes round from1

theorem Rounds.endRelop_iff (runs : Rounds (branch.GoesOn last) first increment rounds)
    (several : 2 ≤ rounds) (from1 : 1 ≤ round) (within : round ≤ rounds) :
    (endRelopOf branch increment).compare (first + round * increment) last = true ↔
      round = rounds := by
  have before (below : round < rounds) := runs.goes round from1 below
  have stopped := runs.stops
  have equality (meets : first + rounds * increment = last)
      (moving : ∀ between : Nat, 1 ≤ between → between < rounds →
        first + between * increment ≠ last) :
      ((if 0 < increment then Relop.ge else .le).compare (first + round * increment) last = true ↔
        round = rounds) := by
    constructor
    · intro reached
      by_contra early
      have below : (round : Int) < rounds := by omega
      split at reached
      case isTrue up =>
        have less := mul_lt_mul_of_pos_right below up
        simp only [Relop.compare, decide_eq_true_eq] at reached
        omega
      case isFalse notUp =>
        rcases eq_or_lt_of_le (not_lt.1 notUp) with still | down
        · have second := moving 1 le_rfl (by omega)
          simp only [still, mul_zero] at second meets
          exact second meets
        · have more := mul_lt_mul_of_neg_right below down
          simp only [Relop.compare, decide_eq_true_eq] at reached
          omega
    · rintro rfl
      split <;> simp [Relop.compare, meets]
  cases branch with
  | notNe | notName => exact equality (not_ne_iff.1 stopped) runs.goes
  | unknown => exact absurd (runs.goes 1 le_rfl (by omega)) id
  | notLe | notLt | notGe | notGt =>
    simp only [endRelopOf, Relop.compare, BranchType.GoesOn, decide_eq_true_eq] at *
    constructor
    · intro reached
      by_contra early
      omega
    · rintro rfl
      omega

/-- A queue item that is a body. -/
def Action.isBody : Action → Bool
  | .body _ => true
  | _ => false

theorem length_trace_execAll {limit : Int} (actions : List Action) (state : LoopState) :
    (execAll (Action.exec limit) actions state).trace.length =
      state.trace.length + actions.countP Action.isBody := by
  induction actions generalizing state with
  | nil => simp [execAll]
  | cons action actions ih =>
    have later := ih (action.exec limit state)
    simp only [execAll, foldl_cons, countP_cons] at later ⊢
    rw [later]
    cases action with
    | tempInit left amount => cases left <;> simp [Action.exec, Action.isBody]
    | body mapped =>
      simp [Action.exec, Action.isBody]
      omega
    | osLoop mark | startSpill | endSpill | behindUpdate mapped
      | asgPlus amount | assign value => simp [Action.exec, Action.isBody]

@[simp] theorem countP_copies (flags : LoopFlags) (loop : CountedLoop) (number : Nat) :
    (copies flags loop number).countP Action.isBody = number := by
  induction number with
  | zero => rfl
  | succ number ih =>
    simp only [copies, range_succ, flatMap_append, countP_append] at ih ⊢
    rw [ih]
    cases kept : flags.leaveCounterIncr <;> cases used : loop.usedBehindUpdate <;>
      simp [copyLoopBody, CountedLoop.behind, kept, used, Action.isBody, countP_cons]

@[simp] theorem countP_bumpCounters (flags : LoopFlags) (loop : CountedLoop) (multiple : Nat) :
    (bumpCounters flags loop multiple).countP Action.isBody = 0 := by
  cases kept : flags.leaveCounterIncr <;> simp [bumpCounters, kept, Action.isBody]

theorem countP_clusterActions (loop : CountedLoop) (flags : LoopFlags) :
    (clusterActions loop flags).countP Action.isBody = clusterSize := by
  simp [clusterActions, Action.isBody]

theorem length_trace_le_of_reaches {code : List QueueItem}
    {one other : Config Action Test LoopState}
    (reached : Reaches (step (Action.exec limit) (Test.holds limit) code) one other) :
    one.state.trace.length ≤ other.state.trace.length := by
  refine @measure_le_of_reaches Action Test LoopState _ _ code
    (fun state => state.trace.length) ?_ _ _ reached
  intro action state
  have recorded := @length_trace_execAll limit [action] state
  simp only [execAll, foldl_cons, foldl_nil] at recorded
  omega

theorem ConstantLoop.iterations_eq (constant : ConstantLoop loop type) (typed : loop.WellTyped)
    (enters : loop.EntersAt first) (firstFits : FitsLong first)
    (source : SourceRounds loop limit type.branch (.entered first temp) final rounds)
    (noWrap : type.branch = .notLt → loop.endValue ≠ longMin) : type.iterations = rounds := by
  obtain ⟨start, ends, endFits, _⟩ := @ConstantLoop.limits loop type constant limit first enters
  obtain ⟨runs, fits, _⟩ := source
  have several := constant.several
  rw [constant.counted] at several ⊢
  rw [ends] at runs
  have second : FitsLong (first + loop.increment) := by
    simpa [LoopState.entered] using fits 1 runs.pos
  rw [← start] at several ⊢
  exact Amigo.iterations_eq firstFits second endFits typed.incrementFits runs several noWrap

theorem ConstantLoop.one_round (constant : ConstantLoop loop type) (enters : loop.EntersAt first)
    (source : SourceRounds loop limit type.branch (.entered first temp) final rounds)
    (below : type.branch = .notLt) (least : loop.endValue = longMin) : rounds = 1 := by
  obtain ⟨_, ends, _, _⟩ := @ConstantLoop.limits loop type constant limit first enters
  obtain ⟨runs, fits, _⟩ := source
  rw [ends, below, least] at runs
  refine Rounds.eq_one_of_least runs ?_
  simpa [LoopState.entered] using fits 1 runs.pos

end Uw7.Amigo
