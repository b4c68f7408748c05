import Mathlib.Data.Fintype.BigOperators
import Uw7.Ksynch.SleepLock

namespace Uw7.Ksynch.SleepSig

/-!
# The counts of an interruptible sleep lock

What `sleep_lock_sig` from `util/sleep.c` adds to `p_niblked`, `sl_pend` and `sl_fixpend`, beside
calls of `sleep_lock`. A step goes from one access that other LWPs can see to the next; `sl_pend`
is only the owner's.
-/

open Lib Function Option

/-- The next thing that a call does. -/
inductive Place where
  /-- It has returned. -/
  | idle
  | again
  | acquire
  /-- The look at `sl_avail`. -/
  | take
  /-- The look under `sl_fspin`. -/
  | race
  | asleep
  | woken (sigwoke : Bool)
  | fixpend
  deriving DecidableEq

/-- A call by an LWP. -/
structure Call where
  place : Place
  interruptible : Bool
  nsleeps : Nat
  /-- The sleeps that an unlock ended. -/
  wakeups : Nat
  /-- How often it has locked `l_mutex`, less the times that it has unlocked it. -/
  mutex : Int
  /-- What it has added to `p_niblked`. -/
  niblked : Int

def Call.enter (interruptible : Bool) : Call :=
  ⟨if interruptible then .again else .take, interruptible, 0, 0, 0, 0⟩

structure State (nlwp : Nat) where
  call : Fin nlwp → Call
  slAvail : Bool
  slPend : Int
  slFixpend : Int

variable {nlwp : Nat}

def State.setCall (s : State nlwp) (l : Fin nlwp) (call : Call) : State nlwp :=
  { s with call := update s.call l call }

/-- The waiters that signals left in `sl_pend` are taken off. -/
def State.applyFixpend (s : State nlwp) : State nlwp :=
  { s with slPend := s.slPend - s.slFixpend, slFixpend := 0 }

/-- A call has the lock. -/
def State.take (s : State nlwp) (l : Fin nlwp) (me : Call) : State nlwp :=
  { s.setCall l { me with place := .fixpend } with
    slAvail := false
    slPend := s.slPend - me.nsleeps }

/-- `ISSIG_NONE` comes with `l_mutex`, as does a look that finds no signal. -/
def State.callIssig (s : State nlwp) (l : Fin nlwp) (me : Call) : Issig → State nlwp
  | .none => s.setCall l { me with place := .acquire, mutex := me.mutex + 1 }
  | .signalled =>
    { s.setCall l { me with place := .idle } with
      slFixpend := s.slFixpend + if me.nsleeps > 1 then me.nsleeps - 1 else 0 }
  | .stopped => s.setCall l { me with place := .again }

/-- A call goes on; `sigwaiting` is set if `SIGWAITING` is to be sent. -/
def State.goOn (s : State nlwp) (l : Fin nlwp) (issig : Issig) (sigwaiting : Bool) :
    Option (State nlwp) :=
  let me := s.call l
  let unlocked := { me with mutex := me.mutex - 1 }
  match me.place with
  | .idle | .asleep => none
  | .again => some (s.callIssig l me issig)
  | .acquire =>
    some (s.setCall l (if sigwaiting then { unlocked with place := .again }
      else { me with place := .take, niblked := me.niblked + 1 }))
  | .take =>
    some (if s.slAvail then s.take l (if me.interruptible then unlocked else me)
      else s.setCall l { me with
        place := .race
        mutex := if me.interruptible then me.mutex else me.mutex + 1 })
  | .race =>
    some (if s.slAvail then
        if me.interruptible then s.setCall l { unlocked with place := .acquire }
        else s.take l unlocked
      else s.setCall l { unlocked with place := .asleep, nsleeps := me.nsleeps + 1 })
  | .woken sigwoke =>
    let me := { me with niblked := me.niblked - 1 }
    some (s.callIssig l me (if sigwoke then issig else .none))
  | .fixpend =>
    let s := if s.slFixpend > 0 then s.applyFixpend else s
    some (s.setCall l { me with
      place := .idle
      niblked := if me.interruptible then me.niblked - 1 else me.niblked })

inductive Event (nlwp : Nat) where
  | enter (l : Fin nlwp) (interruptible : Bool)
  | goOn (l : Fin nlwp) (issig : Issig) (sigwaiting : Bool)
  /-- `sleep_dequeue` takes a waiter off the list, to be woken. -/
  | dequeue (l : Fin nlwp)
  /-- The rest of `sleep_dequeue`. -/
  | unlock
  /-- A signal or an update event wakes a waiter, which `sleep_unsleep` takes off the list. -/
  | unsleep (l : Fin nlwp)

def State.step? (s : State nlwp) : Event nlwp → Option (State nlwp)
  | .enter l interruptible =>
    if (s.call l).place = .idle then some (s.setCall l (.enter interruptible)) else none
  | .goOn l issig sigwaiting => s.goOn l issig sigwaiting
  | .dequeue l =>
    if s.slAvail = false ∧ (s.call l).place = .asleep then
      some { s.setCall l { s.call l with
          place := if (s.call l).interruptible then .woken false else .take
          wakeups := (s.call l).wakeups + 1 } with slPend := s.slPend + 1 }
    else none
  | .unlock => if s.slAvail then none else some { s.applyFixpend with slAvail := true }
  | .unsleep l =>
    if (s.call l).place = .asleep ∧ (s.call l).interruptible then
      some (s.setCall l { s.call l with place := .woken true })
    else none

def State.Step (before : State nlwp) (event : Event nlwp) (after : State nlwp) : Prop :=
  before.step? event = some after

/-- Nobody has called, and the lock is available. -/
def State.start (nlwp : Nat) : State nlwp := ⟨fun _ => ⟨.idle, false, 0, 0, 0, 0⟩, true, 0, 0⟩

/-- What the counts are for. -/
structure CountsKept (s : State nlwp) : Prop where
  acquire : ∀ l, (s.call l).place = .acquire → (s.call l).mutex = 1
  returned : ∀ l, (s.call l).place = .idle → (s.call l).mutex = 0 ∧ (s.call l).niblked = 0
  pend : (∀ l, (s.call l).place = .idle) → s.applyFixpend.slPend = 0

/-- No unlock comes between the two looks at `sl_avail`; unlocks have ended all sleeps of a call that
takes the lock, and all but the last of one that returns for a signal. -/
def Undisturbed (s : State nlwp) : Event nlwp → Prop
  | .goOn l issig _ =>
    ((s.call l).place = .race → (s.call l).interruptible → s.slAvail = false) ∧
      ((s.call l).place = .take → s.slAvail → (s.call l).wakeups = (s.call l).nsleeps) ∧
      ((s.call l).place = .again ∨ (s.call l).place = .woken true → issig = .signalled →
        (s.call l).wakeups = (s.call l).nsleeps - 1)
  | _ => True

/-- The wakeups of a call that `sl_pend` has and `sl_fixpend` does not. -/
def Call.owed (c : Call) : Int := if c.place = .idle ∨ c.place = .fixpend then 0 else c.wakeups

/-- What an interruptible call adds to a count where it adds one. -/
def Call.one (c : Call) : Int := if c.interruptible then 1 else 0

/-- What a call has counted at each place. -/
def CallKept (c : Call) : Prop :=
  match c.place with
  | .idle => c.mutex = 0 ∧ c.niblked = 0
  | .again => c.mutex = 0 ∧ c.niblked = 0 ∧ c.interruptible
  | .acquire => c.mutex = 1 ∧ c.niblked = 0 ∧ c.interruptible
  | .take => c.mutex = c.one ∧ c.niblked = c.one ∧ (c.interruptible ∨ c.nsleeps = c.wakeups)
  | .race => c.mutex = 1 ∧ c.niblked = c.one ∧ (c.interruptible ∨ c.nsleeps = c.wakeups)
  | .asleep => c.mutex = 0 ∧ c.niblked = c.one ∧ (c.interruptible ∨ c.nsleeps = c.wakeups + 1)
  | .woken _ => c.mutex = 0 ∧ c.niblked = 1 ∧ c.interruptible
  | .fixpend => c.mutex = 0 ∧ c.niblked = c.one

structure StateKept (s : State nlwp) : Prop where
  calls : ∀ l, CallKept (s.call l)
  pend : s.slPend - s.slFixpend = ∑ l, (s.call l).owed

variable {s after : State nlwp}

theorem StateKept.counts (kept : StateKept s) : CountsKept s where
  acquire := fun l isAcquire => by
    have mine := kept.calls l
    rw [CallKept, isAcquire] at mine
    exact mine.1
  returned := fun l isIdle => by
    have mine := kept.calls l
    rwa [CallKept, isIdle] at mine
  pend := fun idle => by
    refine kept.pend.trans (Finset.sum_eq_zero fun l _ => ?_)
    exact if_pos (.inl (idle l))

theorem StateKept.setCall (kept : StateKept s) (l : Fin nlwp) {call : Call}
    (changed : after.call = update s.call l call) (callKept : CallKept call)
    (balance : after.slPend - after.slFixpend + (s.call l).owed =
      s.slPend - s.slFixpend + call.owed) : StateKept after where
  calls := fun other => by
    rw [changed]
    by_cases same : other = l
    · subst same
      rwa [update_self]
    · rw [update_of_ne same]
      exact kept.calls other
  pend := by
    have others : ∑ k ∈ Finset.univ.erase l, (update s.call l call k).owed =
        ∑ k ∈ Finset.univ.erase l, (s.call k).owed :=
      Finset.sum_congr rfl fun k other => by rw [update_of_ne (Finset.ne_of_mem_erase other)]
    have before := kept.pend
    rw [← Finset.add_sum_erase _ _ (Finset.mem_univ l)] at before ⊢
    rw [changed, others, update_self]
    omega

theorem StateKept.callIssig (kept : StateKept s) (l : Fin nlwp) {me : Call} (issig : Issig)
    (mine : me.mutex = 0 ∧ me.niblked = 0 ∧ me.interruptible) (owed : (s.call l).owed = me.wakeups)
    (signalled : issig = .signalled → me.wakeups = me.nsleeps - 1) :
    StateKept (s.callIssig l me issig) := by
  obtain ⟨mutex, niblked, interruptible⟩ := mine
  cases issig with
  | none =>
    refine kept.setCall l rfl ⟨by simp [mutex], niblked, interruptible⟩ ?_
    rw [owed]
    rfl
  | signalled =>
    have most := signalled rfl
    refine kept.setCall l rfl ⟨mutex, niblked⟩ ?_
    rw [owed]
    simp only [State.callIssig, State.setCall, Call.owed, true_or, if_true]
    split <;> omega
  | stopped =>
    refine kept.setCall l rfl ⟨mutex, niblked, interruptible⟩ ?_
    rw [owed]
    rfl

theorem StateKept.take (kept : StateKept s) (l : Fin nlwp) {me : Call} (mutex : me.mutex = 0)
    (niblked : me.niblked = me.one) (owed : (s.call l).owed = me.wakeups)
    (unlocks : me.wakeups = me.nsleeps) : StateKept (s.take l me) := by
  refine kept.setCall l rfl ⟨mutex, niblked⟩ ?_
  rw [owed]
  simp only [State.take, State.setCall, Call.owed, or_true, if_true]
  omega

theorem StateKept.goOn (kept : StateKept s) (l : Fin nlwp) (issig : Issig) (sigwaiting : Bool)
    (goes : s.goOn l issig sigwaiting = some after)
    (undisturbed : Undisturbed s (.goOn l issig sigwaiting)) : StateKept after := by
  obtain ⟨notRaced, unlocks, signalled⟩ := undisturbed
  have mine := kept.calls l
  unfold State.goOn at goes
  unfold CallKept at mine
  cases place : (s.call l).place
  all_goals simp only [place, Option.some.injEq, reduceCtorEq] at goes mine
  all_goals subst goes
  case again =>
    exact kept.callIssig l issig mine (by simp [Call.owed, place]) (signalled (.inl place))
  case woken sigwoke =>
    obtain ⟨mutex, niblked, interruptible⟩ := mine
    refine kept.callIssig l _ ⟨mutex, by simp [niblked], interruptible⟩
      (by simp [Call.owed, place]) fun isSignalled => ?_
    cases sigwoke
    case false => cases isSignalled
    case true => exact signalled (.inr place) isSignalled
  case acquire =>
    obtain ⟨mutex, niblked, interruptible⟩ := mine
    refine kept.setCall l rfl ?_ ?_ <;> cases sigwaiting <;>
      simp [CallKept, Call.owed, Call.one, State.setCall, *]
  case take =>
    obtain ⟨mutex, niblked, slept⟩ := mine
    split
    case isTrue isAvail =>
      have owed : (s.call l).owed = (s.call l).wakeups := by simp [Call.owed, place]
      have unlocks := unlocks place isAvail
      split
      case isTrue interruptible =>
        exact kept.take l (by simp [mutex, Call.one, interruptible]) niblked owed unlocks
      case isFalse plain =>
        exact kept.take l (by simp [mutex, Call.one, plain]) niblked owed unlocks
    case isFalse =>
      refine kept.setCall l rfl ⟨?_, niblked, slept⟩ (by simp [State.setCall, Call.owed, place])
      simp only [mutex, Call.one]
      split <;> rfl
  case race =>
    obtain ⟨mutex, niblked, slept⟩ := mine
    split
    case isTrue isAvail =>
      have plain : (s.call l).interruptible = false := by
        by_contra interruptible
        have notAvail := notRaced place (by simpa using interruptible)
        exact absurd isAvail (by simp [notAvail])
      have unlocks : (s.call l).nsleeps = (s.call l).wakeups := by simpa [plain] using slept
      rw [if_neg (by simp [plain])]
      exact kept.take l (by simp [mutex]) niblked (by simp [Call.owed, place]) unlocks.symm
    case isFalse =>
      refine kept.setCall l rfl ⟨by simp [mutex], niblked, slept.imp_right (congrArg (· + 1))⟩ ?_
      simp [State.setCall, Call.owed, place]
  case fixpend =>
    obtain ⟨mutex, niblked⟩ := mine
    have returned : (if (s.call l).interruptible then (s.call l).niblked - 1
        else (s.call l).niblked) = 0 := by
      rw [niblked, Call.one]
      split <;> rfl
    split <;> exact kept.setCall l rfl ⟨mutex, returned⟩
      (by simp [State.setCall, State.applyFixpend, Call.owed, place])

theorem StateKept.step (kept : StateKept s) {event : Event nlwp} (taken : s.Step event after)
    (undisturbed : Undisturbed s event) : StateKept after := by
  cases event with
  | goOn l issig sigwaiting => exact kept.goOn l issig sigwaiting taken undisturbed
  | enter l interruptible =>
    obtain ⟨isIdle, ⟨⟩⟩ := ite_none_right_eq_some.1 taken
    refine kept.setCall l rfl ?_ ?_ <;> cases interruptible <;>
      simp [CallKept, Call.enter, Call.one, Call.owed, State.setCall, isIdle]
  | dequeue l =>
    obtain ⟨⟨-, isAsleep⟩, ⟨⟩⟩ := ite_none_right_eq_some.1 taken
    have mine := kept.calls l
    rw [CallKept, isAsleep] at mine
    obtain ⟨mutex, niblked, slept⟩ := mine
    have balance (place : Place) (awake : place ≠ .idle ∧ place ≠ .fixpend) :
        s.slPend + 1 - s.slFixpend + (s.call l).owed = s.slPend - s.slFixpend + Call.owed
          { s.call l with place := place, wakeups := (s.call l).wakeups + 1 } := by
      simp [Call.owed, isAsleep, awake]
      omega
    refine kept.setCall l rfl ?_ (balance _ (by split <;> simp))
    cases interruptible : (s.call l).interruptible <;>
      simp_all [CallKept, Call.one]
  | unlock =>
    obtain ⟨-, ⟨⟩⟩ := ite_none_left_eq_some.1 taken
    exact ⟨kept.calls, by simpa [State.applyFixpend] using kept.pend⟩
  | unsleep l =>
    obtain ⟨⟨isAsleep, interruptible⟩, ⟨⟩⟩ := ite_none_right_eq_some.1 taken
    have mine := kept.calls l
    rw [CallKept, isAsleep] at mine
    refine kept.setCall l rfl ⟨mine.1, mine.2.1.trans (if_pos interruptible), interruptible⟩ ?_
    simp [Call.owed, State.setCall, isAsleep]

theorem start_kept : StateKept (State.start nlwp) where
  calls := fun _ => ⟨rfl, rfl⟩
  pend := by simp [State.start, Call.owed]

/-- As long as every step is undisturbed, the counts are kept. -/
theorem countsKept_of_undisturbed {events : List (Event nlwp)} {final : State nlwp}
    (run : Run (Guarded State.Step Undisturbed) (State.start nlwp) events final) :
    CountsKept final :=
  (run.invariant (fun _ _ _ kept taken => kept.step taken.1 taken.2) start_kept).counts

theorem countsKept_acquire : ∃ final : State 1,
    (final.call 0).place = .acquire ∧ CountsKept final := by
  have entered : Guarded State.Step Undisturbed (State.start 1) (.enter 0 true) _ := ⟨rfl, trivial⟩
  have looked : Guarded State.Step Undisturbed ((State.start 1).setCall 0 (.enter true))
    (.goOn 0 .none false) _ := ⟨rfl, by unfold Undisturbed; decide⟩
  exact ⟨_, rfl, countsKept_of_undisturbed ((Run.single entered).snoc looked)⟩

/-- After a race with an unlock a call comes to `acquire` without `l_mutex`. -/
theorem acquire_unlocked : ∃ (events : List (Event 2)) (final : State 2),
    Run State.Step (State.start 2) events final ∧ ¬ CountsKept final :=
  ⟨[.enter 0 false, .goOn 0 .none false, .goOn 0 .none false, .enter 1 true, .goOn 1 .none false,
    .goOn 1 .none false, .goOn 1 .none false, .unlock, .goOn 1 .none false], _,
    Run.of_run? rfl, fun kept => absurd (kept.acquire 1 rfl) (by decide)⟩

end Uw7.Ksynch.SleepSig
