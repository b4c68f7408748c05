import Mathlib.Algebra.Order.Ring.Int
import Uw7.Lib.Run

namespace Uw7.Postwait

/-!
# Posts between processes

`io/postwait/postwait.c` for processes with one LWP.  A section under `p_mutex` is one
step, but for `pwpost` on a sleeping process, which holds the lock between `SV_BLKD` and
`SV_BROADCAST`.  `untimeout` waits for a timer that has begun to run.
-/

open Lib Function Option

/-- How `pwwait` returns; `expired` is 0 with `*rvalp` 0, and `posted` is 0 with `*rvalp` 1. -/
inductive PwReturn where
  | posted
  | expired
  | eagain
  | einval
  | eintr
  deriving DecidableEq

/-- Where a process is. -/
inductive PwPlace where
  | idle
  /-- In `pwpost`, between `SV_BLKD` and `SV_BROADCAST`. -/
  | posting (pid : Nat)
  | called (time : Int)
  /-- A wait with time 0 that has found `PWPOST`, or has not and gave up the processor. -/
  | tested
  | yielded
  | asleep (timed : Bool)
  /-- Out of `SV_WAIT_SIG` with a timer, before the next look at the flags. -/
  | woken
  | interrupted
  | cancelling
  /-- Before the last clearing of both flags. -/
  | clearing (result : PwReturn)
  | returning (result : PwReturn)
  deriving DecidableEq

/-- The timer of a process: `pwtime` has cleared `PWTIME` of one that is `fired`. -/
inductive PwTimer where
  | off
  | set
  | fired
  deriving DecidableEq

/-- A process, with the poster that holds its `p_mutex`. -/
structure PwProc where
  pwpost : Bool
  pwtime : Bool
  timer : PwTimer
  place : PwPlace
  pMutex : Option Nat
  deriving DecidableEq

/-- A step at a process. -/
inductive PwEvent where
  | call (time : Int)
  | test
  /-- `PWPOST` is cleared by a wait that will report the post. -/
  | report
  /-- No post is found under the lock; the flag says whether `itimeout` sets a timer. -/
  | sleep (timerSet : Bool)
  | signal
  | look
  | untimeout
  | clear
  | returns (result : PwReturn)
  | pwtime
  | timeBroadcast
  /-- `pwpost` finds the process asleep; and wakes it, to return 0. -/
  | blocked (poster : Nat)
  | broadcast (poster : Nat)
  /-- `pwpost` finds the process not asleep, and returns 1. -/
  | post (poster : Nat)
  | postSelf
  deriving DecidableEq

def PwPlace.wake : PwPlace → PwPlace
  | .asleep true => .woken
  | .asleep false => .clearing .posted
  | place => place

def PwProc.step (p : PwProc) : PwEvent → Option PwProc
  | .call time => if p.place = .idle then some { p with place := .called time } else none
  | .test =>
    match p.place with
    | .called time =>
      if time = 0 then some { p with place := if p.pwpost then .tested else .yielded } else none
    | .yielded => some { p with place := if p.pwpost then .tested else .returning .expired }
    | _ => none
  | .report =>
    match p.place with
    | .tested => some { p with pwpost := false, place := .returning .posted }
    | .called time =>
      if time ≠ 0 ∧ p.pMutex = none ∧ p.pwpost = true then
        some { p with pwpost := false, place := .returning .posted }
      else none
    | .clearing .posted =>
      some { p with pwpost := false, pwtime := false, place := .returning .posted }
    | _ => none
  | .sleep timerSet =>
    match p.place with
    | .called time =>
      if time = 0 ∨ p.pMutex ≠ none ∨ p.pwpost = true then none
      else if 0 < time then
        if timerSet then some { p with pwtime := true, timer := .set, place := .asleep true }
        else some { p with pwpost := false, pwtime := false, place := .returning .eagain }
      else if time < -1 then some { p with place := .returning .einval }
      else some { p with place := .asleep false }
    | _ => none
  | .signal =>
    match p.place with
    | .asleep timed => some { p with place := if timed then .interrupted else .clearing .eintr }
    | _ => none
  | .look =>
    if p.place = .woken ∧ p.pMutex = none then
      if p.pwtime then some { p with place := .cancelling }
      else some { p with pwpost := false, place := .returning .expired }
    else none
  | .untimeout =>
    if p.timer = .fired then none
    else
      match p.place with
      | .interrupted => some { p with timer := .off, place := .clearing .eintr }
      | .cancelling => some { p with timer := .off, place := .clearing .posted }
      | _ => none
  | .clear =>
    if p.place = .clearing .eintr then
      some { p with pwpost := false, pwtime := false, place := .returning .eintr }
    else none
  | .returns result => if p.place = .returning result then some { p with place := .idle } else none
  | .pwtime =>
    if p.timer = .set ∧ p.pMutex = none then some { p with pwtime := false, timer := .fired }
    else none
  | .timeBroadcast =>
    if p.timer = .fired then some { p with timer := .off, place := p.place.wake } else none
  | .blocked poster =>
    match p.place with
    | .asleep _ => if p.pMutex = none then some { p with pMutex := some poster } else none
    | _ => none
  | .broadcast poster =>
    if p.pMutex = some poster then some { p with pMutex := none, place := p.place.wake } else none
  | .post _ =>
    match p.place with
    | .asleep _ => none
    | _ => if p.pMutex = none then some { p with pwpost := true } else none
  | .postSelf => if p.place = .idle ∧ p.pMutex = none then some p else none

/-- The process that posts, where it is before, and where it is then. -/
def PwEvent.poster (pid : Nat) : PwEvent → Option (Nat × PwPlace × PwPlace)
  | .blocked poster => some (poster, .idle, .posting pid)
  | .broadcast poster => some (poster, .posting pid, .idle)
  | .post poster => some (poster, .idle, .idle)
  | _ => none

/-- The processes by their number. -/
abbrev PwState := Nat → PwProc

/-- No process has posted or waited. -/
def pwInit : PwState := fun _ => ⟨false, false, .off, .idle, none⟩

/-- An event at a process, and the move of the other process that posts it. -/
def pwStep (state : PwState) (label : Nat × PwEvent) : Option PwState :=
  ((state label.1).step label.2).bind fun p =>
    match label.2.poster label.1 with
    | none => some (update state label.1 p)
    | some (poster, before, after) =>
      if poster ≠ label.1 ∧ (state poster).place = before then
        some (update (update state label.1 p) poster { state poster with place := after })
      else none

def PwStep (before : PwState) (label : Nat × PwEvent) (after : PwState) : Prop :=
  pwStep before label = some after

/-- The posts to a process: whether one is unreported, whether one was when the wait was
called and is still, and whether the wait has reported one. -/
structure Mailbox where
  unreported : Bool
  owed : Bool
  reported : Bool
  deriving DecidableEq

/-- A report takes the unreported post.  A wait that returns otherwise has reported none,
and none was unreported when it was called. -/
def Mailbox.event (box : Mailbox) : PwEvent → Option Mailbox
  | .blocked _ | .post _ => some { box with unreported := true }
  | .call _ => some { box with owed := box.unreported }
  | .report => if box.unreported then some ⟨false, false, true⟩ else none
  | .returns .posted => if box.reported then some { box with reported := false } else none
  | .returns _ => if box.owed || box.reported then none else some box
  | _ => some box

/-- The mailbox of a process follows its events. -/
def mailStep (boxes : Nat → Mailbox) (label : Nat × PwEvent) : Option (Nat → Mailbox) :=
  ((boxes label.1).event label.2).map (update boxes label.1)

/-- Nothing is posted. -/
def emptyBoxes : Nat → Mailbox := fun _ => ⟨false, false, false⟩

/-- No post is lost or reported twice: the events are those of mailboxes, and a process with
an unreported post does not sleep on. -/
def PostsRight (labels : List (Nat × PwEvent)) (final : PwState) : Prop :=
  ∃ boxes, Run (fun before label after => mailStep before label = some after) emptyBoxes labels
      boxes ∧ ∀ pid timed, (boxes pid).unreported = true → (final pid).place = .asleep timed →
      (final pid).pMutex ≠ none

/-- No post comes while a wait ends by its timer or by a signal, and neither ends a wait that
is posted: not the timer before the wait has looked at `PWTIME`, nor a signal before the
process is woken. -/
def Undisturbed (p : PwProc) : PwEvent → Prop
  | .blocked _ => p.place = .asleep true → p.pwtime = true
  | .post _ => p.place ≠ .interrupted ∧ p.place ≠ .clearing .eintr ∧
    (p.place = .woken → p.pwtime = true)
  | .pwtime => p.place ≠ .woken
  | .signal => p.pMutex = none
  | _ => True

/-- The steps that do not disturb a wait. -/
abbrev QuietStep : PwState → Nat × PwEvent → PwState → Prop :=
  Guarded PwStep fun state label => Undisturbed (state label.1) label.2

/-- No timer runs for the process, and `PWPOST` is the unreported post. -/
structure Recorded (p : PwProc) (box : Mailbox) : Prop where
  timer : p.timer = .off
  pwtime : p.pwtime = false
  pwpost : box.unreported = p.pwpost
  pMutex : p.pMutex = none

def Agrees (p : PwProc) (box : Mailbox) : Prop :=
  match p.place with
  | .idle | .posting _ => Recorded p box ∧ box.owed = false ∧ box.reported = false
  | .called _ => Recorded p box ∧ (box.owed = true → p.pwpost = true) ∧ box.reported = false
  | .tested => Recorded p box ∧ p.pwpost = true ∧ box.reported = false
  | .yielded => Recorded p box ∧ box.owed = false ∧ box.reported = false
  | .asleep timed => p.pwpost = false ∧ box = ⟨p.pMutex.isSome, false, false⟩ ∧
    (timed = false → p.timer = .off ∧ p.pwtime = false) ∧
    (timed = true → p.timer = (if p.pwtime then .set else .fired) ∧
      (p.pMutex.isSome → p.pwtime = true))
  | .woken => box = ⟨p.pwtime, false, false⟩ ∧ (p.pwtime = false → p.pwpost = false) ∧
    p.timer = (if p.pwtime then .set else .off) ∧ p.pMutex = none
  | .interrupted => p.pwpost = false ∧ box = ⟨false, false, false⟩ ∧ p.pMutex = none
  | .cancelling => box = ⟨true, false, false⟩ ∧ p.pMutex = none
  | .clearing .posted => p.timer = .off ∧ box = ⟨true, false, false⟩ ∧ p.pMutex = none
  | .clearing .eintr => p.timer = .off ∧ p.pwpost = false ∧ box = ⟨false, false, false⟩ ∧
    p.pMutex = none
  | .clearing _ => False
  | .returning result => Recorded p box ∧ box.owed = false ∧
    box.reported = decide (result = .posted)

theorem agrees_init : Agrees ⟨false, false, .off, .idle, none⟩ ⟨false, false, false⟩ :=
  ⟨⟨rfl, rfl, rfl, rfl⟩, rfl, rfl⟩

theorem step_post {p after : PwProc} {poster : Nat} (taken : p.step (.post poster) = some after) :
    (∀ timed, p.place ≠ .asleep timed) ∧ p.pMutex = none ∧ after = { p with pwpost := true } := by
  obtain ⟨pwpost, pwtime, timer, place, pMutex⟩ := p
  cases place <;> simp_all [PwProc.step, eq_comm]

theorem Agrees.step {p after : PwProc} {box : Mailbox} {event : PwEvent} (agrees : Agrees p box)
    (undisturbed : Undisturbed p event) (taken : p.step event = some after) :
    ∃ box', box.event event = some box' ∧ Agrees after box' := by
  obtain ⟨pwpost, pwtime, timer, place, pMutex⟩ := p
  obtain ⟨unreported, owed, reported⟩ := box
  cases event with
  | call time =>
    obtain ⟨rfl, ⟨⟩⟩ := ite_none_right_eq_some.1 taken
    obtain ⟨⟨rfl, rfl, rfl, rfl⟩, rfl, rfl⟩ := agrees
    exact ⟨_, rfl, ⟨rfl, rfl, rfl, rfl⟩, id, rfl⟩
  | test =>
    cases place with
    | called time =>
      obtain ⟨-, ⟨⟩⟩ := ite_none_right_eq_some.1 taken
      obtain ⟨⟨rfl, rfl, rfl, rfl⟩, owes, rfl⟩ := agrees
      cases unreported with
      | true => exact ⟨_, rfl, ⟨rfl, rfl, rfl, rfl⟩, rfl, rfl⟩
      | false =>
        exact ⟨_, rfl, ⟨rfl, rfl, rfl, rfl⟩,
          Bool.eq_false_iff.2 fun owed => Bool.noConfusion (owes owed), rfl⟩
    | yielded =>
      obtain rfl := some.inj taken
      obtain ⟨⟨rfl, rfl, rfl, rfl⟩, rfl, rfl⟩ := agrees
      cases unreported with
      | true | false => exact ⟨_, rfl, ⟨rfl, rfl, rfl, rfl⟩, rfl, rfl⟩
    | _ => cases taken
  | report =>
    cases place with
    | tested =>
      obtain rfl := some.inj taken
      obtain ⟨⟨rfl, rfl, rfl, rfl⟩, rfl, rfl⟩ := agrees
      exact ⟨_, rfl, ⟨rfl, rfl, rfl, rfl⟩, rfl, rfl⟩
    | called time =>
      obtain ⟨⟨-, -, rfl⟩, ⟨⟩⟩ := ite_none_right_eq_some.1 taken
      obtain ⟨⟨rfl, rfl, rfl, rfl⟩, owes, rfl⟩ := agrees
      exact ⟨_, rfl, ⟨rfl, rfl, rfl, rfl⟩, rfl, rfl⟩
    | clearing result =>
      cases result with
      | posted =>
        obtain rfl := some.inj taken
        obtain ⟨rfl, isBox, rfl⟩ := agrees
        cases isBox
        exact ⟨_, rfl, ⟨rfl, rfl, rfl, rfl⟩, rfl, rfl⟩
      | _ => cases taken
    | _ => cases taken
  | sleep timerSet =>
    cases place with
    | called time =>
      obtain ⟨⟨rfl, rfl, rfl, rfl⟩, owes, rfl⟩ := agrees
      obtain ⟨found, taken⟩ := ite_none_left_eq_some.1 taken
      obtain rfl : unreported = false := Bool.eq_false_iff.2 fun post => found (.inr (.inr post))
      obtain rfl : owed = false := Bool.eq_false_iff.2 fun owed => Bool.noConfusion (owes owed)
      split at taken
      · cases timerSet with
        | true =>
          obtain rfl := some.inj taken
          exact ⟨_, rfl, rfl, rfl, Bool.noConfusion, fun _ => ⟨rfl, fun _ => rfl⟩⟩
        | false =>
          obtain rfl := some.inj taken
          exact ⟨_, rfl, ⟨rfl, rfl, rfl, rfl⟩, rfl, rfl⟩
      · split at taken
        · obtain rfl := some.inj taken
          exact ⟨_, rfl, ⟨rfl, rfl, rfl, rfl⟩, rfl, rfl⟩
        · obtain rfl := some.inj taken
          exact ⟨_, rfl, rfl, rfl, fun _ => ⟨rfl, rfl⟩, Bool.noConfusion⟩
    | _ => cases taken
  | signal =>
    cases place with
    | asleep timed =>
      obtain rfl := some.inj taken
      obtain ⟨rfl, isBox, untimed, -⟩ := agrees
      obtain rfl := undisturbed
      cases isBox
      cases timed with
      | true => exact ⟨_, rfl, rfl, rfl, rfl⟩
      | false => exact ⟨_, rfl, (untimed rfl).1, rfl, rfl, rfl⟩
    | _ => cases taken
  | look =>
    obtain ⟨⟨rfl, rfl⟩, taken⟩ := ite_none_right_eq_some.1 taken
    obtain ⟨isBox, noTime, isTimer, -⟩ := agrees
    cases isBox
    cases pwtime with
    | true =>
      obtain rfl := some.inj taken
      exact ⟨_, rfl, rfl, rfl⟩
    | false =>
      obtain rfl := some.inj taken
      exact ⟨_, rfl, ⟨isTimer, rfl, rfl, rfl⟩, rfl, rfl⟩
  | untimeout =>
    obtain ⟨-, taken⟩ := ite_none_left_eq_some.1 taken
    cases place with
    | interrupted | cancelling =>
      obtain rfl := some.inj taken
      exact ⟨_, rfl, rfl, agrees⟩
    | _ => cases taken
  | clear =>
    obtain ⟨rfl, ⟨⟩⟩ := ite_none_right_eq_some.1 taken
    obtain ⟨rfl, rfl, isBox, rfl⟩ := agrees
    cases isBox
    exact ⟨_, rfl, ⟨rfl, rfl, rfl, rfl⟩, rfl, rfl⟩
  | returns result =>
    obtain ⟨rfl, ⟨⟩⟩ := ite_none_right_eq_some.1 taken
    obtain ⟨⟨rfl, rfl, rfl, rfl⟩, rfl, rfl⟩ := agrees
    cases result <;> exact ⟨_, rfl, ⟨rfl, rfl, rfl, rfl⟩, rfl, rfl⟩
  | pwtime =>
    obtain ⟨⟨rfl, rfl⟩, ⟨⟩⟩ := ite_none_right_eq_some.1 taken
    refine ⟨_, rfl, ?_⟩
    cases place with
    | asleep timed =>
      obtain ⟨noPost, isBox, untimed, -⟩ := agrees
      exact ⟨noPost, isBox, fun isUntimed => (by cases (untimed isUntimed).1),
        fun _ => ⟨rfl, Bool.noConfusion⟩⟩
    | woken => exact absurd rfl undisturbed
    | interrupted => exact agrees
    | cancelling => exact agrees
    | clearing result =>
      cases result with
      | posted | eintr => cases agrees.1
      | _ => cases agrees
    | _ => cases agrees.1.timer
  | timeBroadcast =>
    obtain ⟨rfl, ⟨⟩⟩ := ite_none_right_eq_some.1 taken
    refine ⟨_, rfl, ?_⟩
    cases place with
    | asleep timed =>
      obtain ⟨rfl, isBox, untimed, isTimed⟩ := agrees
      cases timed with
      | false => cases (untimed rfl).1
      | true =>
        obtain ⟨isTimer, posted⟩ := isTimed rfl
        cases pwtime with
        | true => cases isTimer
        | false =>
          cases pMutex with
          | some poster => cases posted rfl
          | none => exact ⟨isBox, fun _ => rfl, rfl, rfl⟩
    | woken =>
      obtain ⟨-, -, isTimer, -⟩ := agrees
      cases pwtime <;> cases isTimer
    | interrupted => exact agrees
    | cancelling => exact agrees
    | clearing result =>
      cases result with
      | posted | eintr => cases agrees.1
      | _ => cases agrees
    | _ => cases agrees.1.timer
  | blocked poster =>
    cases place with
    | asleep timed =>
      obtain ⟨rfl, ⟨⟩⟩ := ite_none_right_eq_some.1 taken
      obtain ⟨rfl, isBox, untimed, isTimed⟩ := agrees
      cases isBox
      exact ⟨_, rfl, rfl, rfl, untimed, fun timed =>
        ⟨(isTimed timed).1, fun _ => undisturbed (timed ▸ rfl)⟩⟩
    | _ => cases taken
  | broadcast poster =>
    obtain ⟨rfl, ⟨⟩⟩ := ite_none_right_eq_some.1 taken
    refine ⟨_, rfl, ?_⟩
    cases place with
    | asleep timed =>
      obtain ⟨rfl, isBox, untimed, isTimed⟩ := agrees
      cases isBox
      cases timed with
      | false => exact ⟨(untimed rfl).1, rfl, rfl⟩
      | true =>
        obtain ⟨isTimer, posted⟩ := isTimed rfl
        obtain rfl := posted rfl
        exact ⟨rfl, Bool.noConfusion, isTimer, rfl⟩
    | woken => cases agrees.2.2.2
    | interrupted => cases agrees.2.2
    | cancelling => cases agrees.2
    | clearing result =>
      cases result with
      | posted => cases agrees.2.2
      | eintr => cases agrees.2.2.2
      | _ => cases agrees
    | _ => cases agrees.1.pMutex
  | post poster =>
    obtain ⟨awake, rfl, rfl⟩ := step_post taken
    cases place with
    | asleep timed => cases awake timed rfl
    | tested =>
      obtain ⟨⟨rfl, rfl, rfl, -⟩, rfl, rfl⟩ := agrees
      exact ⟨_, rfl, ⟨rfl, rfl, rfl, rfl⟩, rfl, rfl⟩
    | called time =>
      obtain ⟨⟨rfl, rfl, rfl, -⟩, -, rfl⟩ := agrees
      exact ⟨_, rfl, ⟨rfl, rfl, rfl, rfl⟩, fun _ => rfl, rfl⟩
    | woken =>
      obtain ⟨isBox, -, isTimer, -⟩ := agrees
      obtain rfl := undisturbed.2.2 rfl
      cases isBox
      exact ⟨_, rfl, rfl, Bool.noConfusion, isTimer, rfl⟩
    | interrupted => exact absurd rfl undisturbed.1
    | cancelling =>
      obtain ⟨isBox, -⟩ := agrees
      cases isBox
      exact ⟨_, rfl, rfl, rfl⟩
    | clearing result =>
      cases result with
      | posted =>
        obtain ⟨isTimer, isBox, -⟩ := agrees
        cases isBox
        exact ⟨_, rfl, isTimer, rfl, rfl⟩
      | eintr => exact absurd rfl undisturbed.2.1
      | _ => cases agrees
    | _ =>
      obtain ⟨⟨rfl, rfl, rfl, -⟩, rest⟩ := agrees
      exact ⟨_, rfl, ⟨rfl, rfl, rfl, rfl⟩, rest⟩
  | postSelf =>
    obtain ⟨-, ⟨⟩⟩ := ite_none_right_eq_some.1 taken
    exact ⟨_, rfl, agrees⟩

theorem Agrees.moved {p : PwProc} {box : Mailbox} {event : PwEvent} {pid poster : Nat}
    {before after : PwPlace} (agrees : Agrees p box)
    (moves : event.poster pid = some (poster, before, after)) (isAt : p.place = before) :
    Agrees { p with place := after } box := by
  obtain ⟨pwpost, pwtime, timer, place, pMutex⟩ := p
  obtain rfl := isAt
  cases event <;> cases moves <;>
    exact ⟨⟨agrees.1.timer, agrees.1.pwtime, agrees.1.pwpost, agrees.1.pMutex⟩, agrees.2⟩

theorem mailStep_of_pwStep {state after : PwState} {boxes : Nat → Mailbox}
    {label : Nat × PwEvent} (agrees : ∀ pid, Agrees (state pid) (boxes pid))
    (undisturbed : Undisturbed (state label.1) label.2) (taken : PwStep state label after) :
    ∃ boxes', mailStep boxes label = some boxes' ∧ ∀ pid, Agrees (after pid) (boxes' pid) := by
  obtain ⟨p, stepped, rest⟩ := Option.bind_eq_some_iff.1 taken
  obtain ⟨box, isBox, agreesBox⟩ := (agrees label.1).step undisturbed stepped
  refine ⟨_, by rw [mailStep, isBox, map_some], fun pid => ?_⟩
  have own : ∀ pid, Agrees (update state label.1 p pid) (update boxes label.1 box pid) := by
    intro pid
    by_cases isLabel : pid = label.1
    · subst isLabel
      rwa [update_self, update_self]
    · rw [update_of_ne isLabel, update_of_ne isLabel]
      exact agrees pid
  cases moves : label.2.poster label.1 with
  | none =>
    simp only [moves, some.injEq] at rest
    exact rest ▸ own pid
  | some move =>
    obtain ⟨poster, before, place⟩ := move
    simp only [moves, ite_none_right_eq_some, some.injEq] at rest
    obtain ⟨⟨different, isAt⟩, rfl⟩ := rest
    by_cases isPoster : pid = poster
    · subst isPoster
      rw [update_self, update_of_ne different]
      exact (agrees pid).moved moves isAt
    · rw [update_of_ne isPoster]
      exact own pid

theorem postsRight_of_run (labels : List (Nat × PwEvent)) (final : PwState)
    (run : Run QuietStep pwInit labels final) : PostsRight labels final := by
  have follows : ∃ boxes, Run (fun before label after => mailStep before label = some after)
      emptyBoxes labels boxes ∧ ∀ pid, Agrees (final pid) (boxes pid) := by
    induction run with
    | nil => exact ⟨_, .nil, fun _ => agrees_init⟩
    | snoc earlier last ih =>
      obtain ⟨boxes, follows, agrees⟩ := ih
      obtain ⟨boxes', mails, agrees'⟩ := mailStep_of_pwStep agrees last.2 last.1
      exact ⟨boxes', follows.snoc mails, agrees'⟩
  obtain ⟨boxes, follows, agrees⟩ := follows
  refine ⟨boxes, follows, fun pid timed unreported asleep noPoster => ?_⟩
  have isAgreed := agrees pid
  rw [Agrees, asleep] at isAgreed
  obtain ⟨-, isBox, -⟩ := isAgreed
  rw [isBox, noPoster] at unreported
  cases unreported

theorem postsRight_of_run_postFirst : ∃ final,
    PostsRight ([(0, .post 1)] ++ [(0, .call 5)] ++ [(0, .report)]) final := by
  have posted : Run QuietStep pwInit [(0, .post 1)] _ :=
    .single ⟨rfl, PwPlace.noConfusion, PwPlace.noConfusion, PwPlace.noConfusion⟩
  have called : Run QuietStep pwInit ([(0, .post 1)] ++ [(0, .call 5)]) _ :=
    posted.snoc ⟨rfl, trivial⟩
  exact ⟨_, postsRight_of_run _ _ (called.snoc ⟨rfl, trivial⟩)⟩

/-- A post comes behind a signal, and the process does not find it when it waits again. -/
def signalled : List (Nat × PwEvent) :=
  [(0, .call (-1)), (0, .sleep false), (0, .signal), (0, .post 1), (0, .clear),
    (0, .returns .eintr), (0, .call 0), (0, .test), (0, .test), (0, .returns .expired)]

theorem postsRight_fails_signalled :
    ∃ final, Run PwStep pwInit signalled final ∧ ¬ PostsRight signalled final := by
  refine ⟨_, Run.of_run? rfl, ?_⟩
  rintro ⟨boxes, follows, -⟩
  have rejected : run? mailStep emptyBoxes signalled = none := rfl
  rw [follows.run?_eq] at rejected
  cases rejected

end Uw7.Postwait
