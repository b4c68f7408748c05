import Mathlib.Computability.StateTransition

/-!
# Labelled code

A list of actions, labels and conditional branches, run from the front.  The
machine keeps the rest of the list as its program counter; a branch whose test
fails continues behind the label it names.
-/

namespace Uw7.LabelCode

open StateTransition List

inductive Item (Action Test : Type) where
  | label (number : Nat)
  | act (action : Action)
  | cbranch (test : Test) (target : Nat)
deriving DecidableEq

/-- What is left to run, and the state it runs from. -/
structure Config (Action Test State : Type) where
  rest : List (Item Action Test)
  state : State

/-- The code behind a label. -/
def after {Action Test : Type} : List (Item Action Test) → Nat → List (Item Action Test)
  | [], _ => []
  | .label number :: rest, target => if number = target then rest else after rest target
  | .act _ :: rest, target => after rest target
  | .cbranch _ _ :: rest, target => after rest target

variable {Action Test State : Type}
variable (exec : Action → State → State)
variable (holds : Test → State → Bool)
variable (code : List (Item Action Test))

/-- One step: a branch is taken when its test fails. -/
def step : Config Action Test State → Option (Config Action Test State)
  | ⟨[], _⟩ => none
  | ⟨.label _ :: rest, state⟩ => some ⟨rest, state⟩
  | ⟨.act action :: rest, state⟩ => some ⟨rest, exec action state⟩
  | ⟨.cbranch test target :: rest, state⟩ =>
    some ⟨if holds test state then rest else after code target, state⟩

/-- The code, run from its front, stops in a state. -/
def Halts (start final : State) : Prop := ⟨[], final⟩ ∈ eval (step exec holds code) ⟨code, start⟩

/-- The machine with a bound on its steps. -/
def run : Nat → Config Action Test State → Option State
  | _, ⟨[], state⟩ => some state
  | 0, _ => none
  | fuel + 1, config =>
    match step exec holds code config with
    | none => none
    | some next => run fuel next

variable {exec holds code}

variable {next last : Config Action Test State} {number target : Nat}
  {rest : List (Item Action Test)} {state start final : State} {test : Test} {actions : List Action}

theorem reaches_step {first : Config Action Test State}
    (taken : step exec holds code first = some next)
    (further : Reaches (step exec holds code) next last) :
    Reaches (step exec holds code) first last :=
  Relation.ReflTransGen.head taken further

theorem reaches_label (further : Reaches (step exec holds code) ⟨rest, state⟩ last) :
    Reaches (step exec holds code) ⟨.label number :: rest, state⟩ last :=
  reaches_step rfl further

theorem reaches_act {action : Action}
    (further : Reaches (step exec holds code) ⟨rest, exec action state⟩ last) :
    Reaches (step exec holds code) ⟨.act action :: rest, state⟩ last :=
  reaches_step rfl further

theorem reaches_fall (passed : holds test state = true)
    (further : Reaches (step exec holds code) ⟨rest, state⟩ last) :
    Reaches (step exec holds code) ⟨.cbranch test target :: rest, state⟩ last :=
  reaches_step (by simp [step, passed]) further

theorem reaches_jump (failed : holds test state = false)
    (further : Reaches (step exec holds code) ⟨after code target, state⟩ last) :
    Reaches (step exec holds code) ⟨.cbranch test target :: rest, state⟩ last :=
  reaches_step (by simp [step, failed]) further

def execAll (exec : Action → State → State) (actions : List Action) (state : State) : State :=
  actions.foldl (fun reached action => exec action reached) state

theorem reaches_acts {rest : List (Item Action Test)} {last : Config Action Test State}
    (actions : List Action) (state : State)
    (further : Reaches (step exec holds code) ⟨rest, execAll exec actions state⟩ last) :
    Reaches (step exec holds code) ⟨actions.map .act ++ rest, state⟩ last := by
  induction actions generalizing state with
  | nil => exact further
  | cons action actions ih => exact reaches_act (ih (exec action state) further)

theorem after_acts (actions : List Action) (rest : List (Item Action Test)) (target : Nat) :
    after (actions.map .act ++ rest) target = after rest target := by
  induction actions with
  | nil => rfl
  | cons action actions ih => exact ih

theorem after_label_self (rest : List (Item Action Test)) (target : Nat) :
    after (.label target :: rest) target = rest := by
  simp [after]

theorem after_label_ne (rest : List (Item Action Test)) (differ : number ≠ target) :
    after (.label number :: rest) target = after rest target := by
  simp [after, differ]

/-- Repeating a block until its test holds behind it. -/
inductive Repeats (block : State → State) (done : State → Bool) : State → State → Prop where
  | last {state : State} : done (block state) = true → Repeats block done state (block state)
  | again {state final : State} : done (block state) = false →
      Repeats block done (block state) final → Repeats block done state final

theorem reaches_repeats (top : after code target = actions.map .act ++ .cbranch test target :: rest)
    (repeated : Repeats (execAll exec actions) (holds test) start final)
    (further : Reaches (step exec holds code) ⟨rest, final⟩ last) : Reaches (step exec holds code)
      ⟨actions.map .act ++ .cbranch test target :: rest, start⟩ last := by
  induction repeated with
  | last passed => exact reaches_acts actions _ (reaches_fall passed further)
  | again failed _ ih =>
    refine reaches_acts actions _ (reaches_jump failed ?_)
    rw [top]
    exact ih further

theorem reaches_of_reaches_acts
    (reached : Reaches (step exec holds code) ⟨actions.map .act ++ rest, start⟩ ⟨[], final⟩) :
    Reaches (step exec holds code) ⟨rest, execAll exec actions start⟩ ⟨[], final⟩ := by
  have onwards : ⟨[], final⟩ ∈ eval (step exec holds code) ⟨actions.map .act ++ rest, start⟩ :=
    mem_eval.2 ⟨reached, rfl⟩
  rw [reaches_eval (reaches_acts actions start .refl)] at onwards
  exact (mem_eval.1 onwards).1

theorem reaches_again (top : after code target = actions.map .act ++ .cbranch test target :: rest)
    (outcome : holds test (execAll exec actions state) = false)
    (taken : step exec holds code ⟨actions.map .act ++ .cbranch test target :: rest, state⟩ =
      some next) :
    Reaches (step exec holds code) next ⟨actions.map .act ++ .cbranch test target :: rest,
      execAll exec actions state⟩ := by
  cases actions with
  | nil =>
    have failed : holds test state = false := outcome
    simp only [map_nil, nil_append, step, failed] at taken top
    cases taken
    simp only [map_nil, nil_append, Bool.false_eq_true, if_false, top]
    exact .refl
  | cons action actions =>
    cases taken
    refine reaches_acts actions _ (reaches_jump outcome ?_)
    rw [top]
    exact .refl

theorem repeats_of_reaches
    (top : after code target = actions.map .act ++ .cbranch test target :: rest)
    (reached : Reaches (step exec holds code)
      ⟨actions.map .act ++ .cbranch test target :: rest, start⟩ ⟨[], final⟩) :
    ∃ left, Repeats (execAll exec actions) (holds test) start left ∧
      Reaches (step exec holds code) ⟨rest, left⟩ ⟨[], final⟩ := by
  -- every start of the block met on the way to the end is repeated from
  have everywhere : ∀ from' : Config Action Test State,
      Reaches (step exec holds code) from' ⟨[], final⟩ →
      ∀ state, Reaches (step exec holds code) from'
        ⟨actions.map .act ++ .cbranch test target :: rest, state⟩ →
        ∃ left, Repeats (execAll exec actions) (holds test) state left ∧
          Reaches (step exec holds code) ⟨rest, left⟩ ⟨[], final⟩ := by
    intro from' ends
    induction ends using Relation.ReflTransGen.head_induction_on with
    | refl =>
      intro state reaches
      have same := (eval_maximal (mem_eval.2 ⟨.refl, rfl⟩)).1 reaches
      cases actions <;> simp at same
    | head taken ends ih =>
      intro state reaches
      rcases Relation.ReflTransGen.cases_head reaches with
        here | ⟨next, other, later⟩
      · subst here
        have branch := reaches_of_reaches_acts (.head taken ends)
        cases outcome : holds test (execAll exec actions state) with
        | true =>
          refine ⟨_, .last outcome, ?_⟩
          rcases Relation.ReflTransGen.cases_head branch with
            stuck | ⟨next, first, later⟩
          · simp at stuck
          · simp only [step, outcome, if_true] at first
            cases first
            exact later
        | false =>
          obtain ⟨left, repeated, further⟩ := ih _ (reaches_again top outcome taken)
          exact ⟨left, .again outcome repeated, further⟩
      · have same : next = _ := Option.some.inj (other.symm.trans taken)
        subst same
        exact ih state later
  exact everywhere _ reached start .refl

theorem halts_of_reaches (reached : Reaches (step exec holds code) ⟨code, start⟩ ⟨[], final⟩) :
    Halts exec holds code start final :=
  mem_eval.2 ⟨reached, rfl⟩

theorem Halts.unique {first second : State} (one : Halts exec holds code start first)
    (other : Halts exec holds code start second) :
    first = second := by
  have same := Part.mem_unique one other
  simpa using same

theorem reaches_of_halts_of_reaches {between : Config Action Test State}
    (halts : Halts exec holds code start final)
    (reached : Reaches (step exec holds code) ⟨code, start⟩ between) :
    Reaches (step exec holds code) between ⟨[], final⟩ := by
  have onwards : ⟨[], final⟩ ∈ eval (step exec holds code) between := by
    rw [← reaches_eval reached]
    exact halts
  exact (mem_eval.1 onwards).1

theorem measure_le_of_reaches {measure : State → Nat}
    (grows : ∀ action state, measure state ≤ measure (exec action state))
    {first last : Config Action Test State} (reached : Reaches (step exec holds code) first last) :
    measure first.state ≤ measure last.state := by
  induction reached with
  | refl => exact le_refl _
  | @tail between last _ taken ih =>
    refine le_trans ih ?_
    obtain ⟨rest, state⟩ := between
    match rest, taken with
    | .label _ :: _, taken | .cbranch _ _ :: _, taken =>
      cases taken
      exact le_refl _
    | .act action :: _, taken =>
      cases taken
      exact grows action state

theorem reaches_of_run {fuel : Nat} {config : Config Action Test State}
    (ran : run exec holds code fuel config = some final) :
    Reaches (step exec holds code) config ⟨[], final⟩ := by
  induction fuel generalizing config with
  | zero =>
    obtain ⟨rest, state⟩ := config
    cases rest with
    | nil =>
      cases ran
      exact .refl
    | cons item rest => cases ran
  | succ fuel ih =>
    obtain ⟨rest, state⟩ := config
    cases rest with
    | nil =>
      cases ran
      exact .refl
    | cons item rest =>
      cases taken : step exec holds code ⟨item :: rest, state⟩ with
      | none => simp [run, taken] at ran
      | some next =>
        simp only [run, taken] at ran
        exact reaches_step taken (ih ran)

theorem halts_of_run {fuel : Nat} {start final : State}
    (ran : run exec holds code fuel ⟨code, start⟩ = some final) :
    Halts exec holds code start final :=
  halts_of_reaches (reaches_of_run ran)

end Uw7.LabelCode
