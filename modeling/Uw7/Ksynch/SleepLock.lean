import Uw7.Lib.Run

namespace Uw7.Ksynch

/-!
# Sleep locks

`sleep_lock`, `sleep_lock_sig`, `sleep_lock_rellock`, `sleep_trylock`,
`sleep_unlock`, `sleep_dequeue` and `sleep_unsleep` from `util/sleep.c`, as steps
of LWPs.  A step is one access to `sl_avail`, `sl_pid`, `sl_fixpend`, the queue or
the spin lock `sl_fspin`; `sleep_take` is one exchange.

`sleep_lock_rellock` is `sleep_lock` for the fields of the lock: the entry lock it
gives up and takes again adds no access to them.  A context that signals an LWP
while it holds the sleep lock is counted as two.
-/

open Lib

/-- The values of `sl_pid`; `owner` is the pair `sl_pid` and `sl_lwpid`. -/
inductive SlPid where
  /-- `NOPID`. -/
  | nopid
  /-- `SL_BUSY`. -/
  | busy
  | owner (lwp : Nat)
  deriving DecidableEq

/-- What the routines read and write of a `sleep_t`. -/
structure SleepLock where
  slAvail : Bool
  slPid : SlPid
  /-- The owner of `sl_fspin`. -/
  slFspin : Option Nat
  /-- The LWPs on `sl_list`, from `sl_head` on. -/
  slList : List Nat
  slFixpend : Nat
  /-- `KS_LOCKTEST` is off in `sl_flags` and `sl_lkstatp` is null. -/
  slPlain : Bool
  deriving DecidableEq

/-- Where an LWP is; each place is named by the access that comes next. -/
inductive Place where
  /-- Outside of the routines. -/
  | idle
  /-- Outside of the routines, with the lock. -/
  | holding
  /-- `sleep_lock`: the test of `sl_fixpend` of the fast path. -/
  | fastFixpend
  | fastAvail
  | fastTake
  /-- `sleep_lock`: the condition of the loop. -/
  | lockAvail
  | lockTake
  /-- `sleep_lock`: `LOCK(&lwpp->l_mutex)`. -/
  | lockMutex
  | lockSpin
  /-- `sleep_lock`: the check for a race with an unlock, under `sl_fspin`. -/
  | lockRetest
  | lockRetake
  | lockRaced
  | lockInsque
  | lockUnspin
  | lockSwtch
  /-- Off the processor, on this lock; `sig` is set when `L_NWAKE` is not. -/
  | asleep (sig : Bool)
  /-- Behind the last access to `sl_avail` of an acquisition. -/
  | pendFixpend
  | pendSpin
  | pendClear
  | pendUnspin
  /-- The loop until `sl_pid` is not `SL_BUSY`. -/
  | recordBusy
  | recordOwner
  /-- `sleep_lock_sig`: at `again`. -/
  | sigAgain
  /-- `sleep_lock_sig`: at `acquire`. -/
  | sigAcquire
  | sigAvail
  | sigTake
  /-- `sleep_lock_sig`: `UNLOCK(&lwpp->l_mutex)` with the lock. -/
  | sigTaken
  | sigSpin
  | sigRetest
  | sigRaced
  | sigInsque
  | sigUnspin
  | sigSwtch
  /-- `sleep_lock_sig`: behind `swtch`; `woke` is `L_SIGWOKE`. -/
  | sigWaked (woke : Bool)
  /-- `sleep_lock_sig`: the addition to `sl_fixpend` before it returns. -/
  | sigFixSpin
  | sigFix
  | sigFixUnspin
  /-- `sleep_trylock`. -/
  | tryAvail
  | tryTake
  /-- `sleep_unlock`: the condition of the fast path. -/
  | unlockSpinTest
  | unlockQueueTest
  | unlockFixpendTest
  | unlockBusy
  | unlockAvail
  /-- `sleep_unlock`: the condition behind `WRITE_SYNC`. -/
  | unlockSpinRetest
  | unlockQueueRetest
  | unlockFree
  | unlockRetest
  | unlockRetake
  /-- `sleep_dequeue`, with its `wakeup_chain`. -/
  | dequeueSpin
  | dequeueLoop (chain : List Nat)
  | dequeueFixpend (chain : List Nat)
  | dequeuePid (chain : List Nat)
  | dequeueAvail (chain : List Nat)
  | dequeueUnspin (chain : List Nat)
  /-- `sleep_unlock`: the loop over `wakeup_chain`. -/
  | wakeup (chain : List Nat)
  /-- `sleep_unsleep`, called for a signal to an LWP. -/
  | unsleepSpin (target : Nat)
  | unsleepDeque (target : Nat)
  | unsleepUnspin (target : Nat) (dequeued : Bool)
  deriving DecidableEq

/-- What the routines read and write of an `lwp_t`, and its place. -/
structure SleepLwp where
  place : Place
  nsleeps : Nat
  /-- The owner of `l_mutex`. -/
  lMutex : Option Nat
  /-- An unlock has woken it and it has not come to the lock since. -/
  woken : Bool
  deriving DecidableEq

/-- The lock and the LWPs. -/
structure SleepState where
  lock : SleepLock
  lwp : Nat → SleepLwp

/-- What `issig` returns. -/
inductive Issig where
  | none
  | signalled
  | stopped
  deriving DecidableEq

/-- What a step takes from the rest of the kernel. -/
structure Outcome where
  /-- Where `CL_INSQUE` puts an LWP. -/
  position : Nat
  /-- `LWP_LOADED`. -/
  loaded : Bool
  /-- What `issig` returns; `none` also if no signal is queued. -/
  issig : Issig
  /-- `SIGWAITING` is to be sent. -/
  sigwaiting : Bool
  deriving DecidableEq

/-- The steps of the LWPs. -/
inductive SleepAction where
  /-- `sleep_lock` or `sleep_lock_rellock` is called. -/
  | sleepLock (l : Nat)
  | sleepLockSig (l : Nat)
  | sleepTrylock (l : Nat)
  /-- `sleep_unlock` is called by `u` for the hold of `h`. -/
  | sleepUnlock (u h : Nat)
  /-- `k` signals an LWP that sleeps interruptibly. -/
  | signal (k target : Nat)
  | goOn (l : Nat) (outcome : Outcome)
  deriving DecidableEq

/-- An LWP goes on to a place. -/
def SleepLwp.goTo (me : SleepLwp) (place : Place) : SleepLwp := { me with place := place }

/-- An LWP has seen that the lock is taken, or has tried to take it. -/
def SleepLwp.retried (me : SleepLwp) (place : Place) : SleepLwp :=
  { me with place := place, woken := false }

/-- `FSPIN_LOCK(&lockp->sl_fspin)`. -/
def SleepLock.spin (lock : SleepLock) (l : Nat) (me : SleepLwp)
    (place : Place) : Option (SleepLock × SleepLwp) :=
  if lock.slFspin.isNone then
    some ({ lock with slFspin := some l }, me.goTo place)
  else
    none

def SleepLock.unspin (lock : SleepLock) : SleepLock := { lock with slFspin := none }

def SleepLock.test (lock : SleepLock) (me : SleepLwp) (yes no : Place) : SleepLock × SleepLwp :=
  if lock.slAvail then (lock, me.goTo yes) else (lock, me.retried no)

def SleepLock.sleepTake (lock : SleepLock) (me : SleepLwp)
    (yes no : Place) : SleepLock × SleepLwp :=
  ({ lock with slAvail := false }, me.retried (if lock.slAvail then yes else no))

/-- `CL_INSQUE`, or `insque` at the head for an LWP that has slept before. -/
def SleepLock.insque (lock : SleepLock) (l nsleeps position : Nat) : SleepLock :=
  { lock with
    slList :=
      if nsleeps = 0 then lock.slList.insertIdx (min position lock.slList.length) l
      else l :: lock.slList }

/-- `UNLOCK(&lwpp->l_mutex)`. -/
def SleepLwp.unlockMutex (me : SleepLwp) : SleepLwp := { me with lMutex := none }

/-- `swtch`, which releases `l_mutex`. -/
def SleepLwp.swtch (me : SleepLwp) (sig : Bool) : SleepLwp :=
  { me with
    place := .asleep sig
    nsleeps := me.nsleeps + 1
    lMutex := none }

/-- A routine returns. -/
def SleepLwp.leave (me : SleepLwp) (place : Place) : SleepLwp :=
  { me with place := place, nsleeps := 0, woken := false }

/-- `sleep_lock_sig` returns `B_FALSE`, behind the correction of `sl_fixpend`. -/
def SleepLwp.giveUp (me : SleepLwp) : SleepLwp :=
  if me.nsleeps > 1 then me.goTo .sigFixSpin else me.leave .idle

/-- `sleep_lock_sig` has or takes `l_mutex` and comes to `acquire`. -/
def SleepLwp.toAcquire (me : SleepLwp) (l : Nat) : Option SleepLwp :=
  if me.lMutex.isNone then
    some { me with place := .sigAcquire, lMutex := some l }
  else
    none

/-- `sleep_lock_sig` calls `issig`. -/
def SleepLwp.callIssig (me : SleepLwp) (l : Nat) : Issig → Option SleepLwp
  | .none => me.toAcquire l
  | .signalled => some me.giveUp
  | .stopped => some (me.goTo .sigAgain)

def lockNext (lock : SleepLock) (l : Nat) (me : SleepLwp)
    (outcome : Outcome) : Option (SleepLock × SleepLwp) :=
  match me.place with
  | .fastFixpend =>
    some (lock, me.goTo (if lock.slPlain && lock.slFixpend == 0 then .fastAvail
            else .lockAvail))
  | .fastAvail => some (lock.test me .fastTake .lockAvail)
  | .fastTake => some (lock.sleepTake me .recordBusy .lockAvail)
  | .lockAvail => some (lock.test me .lockTake .lockMutex)
  | .lockTake => some (lock.sleepTake me .pendFixpend .lockMutex)
  | .lockMutex =>
    if me.lMutex.isNone then
      some (lock, { me with place := .lockSpin, lMutex := some l })
    else
      none
  | .lockSpin => lock.spin l me .lockRetest
  | .lockRetest => some (lock.test me .lockRetake .lockInsque)
  | .lockRetake => some (lock.sleepTake me .lockRaced .lockInsque)
  | .lockRaced => some (lock.unspin, me.unlockMutex.goTo .pendFixpend)
  | .lockInsque => some (lock.insque l me.nsleeps outcome.position, me.goTo .lockUnspin)
  | .lockUnspin => some (lock.unspin, me.goTo .lockSwtch)
  | .lockSwtch => some (lock, me.swtch false)
  | _ => none

def lockSigNext (lock : SleepLock) (l : Nat) (me : SleepLwp)
    (outcome : Outcome) : Option (SleepLock × SleepLwp) :=
  match me.place with
  | .sigAgain => (me.callIssig l outcome.issig).map fun me => (lock, me)
  | .sigAcquire =>
    some (lock,
        if outcome.sigwaiting then me.unlockMutex.goTo .sigAgain
        else me.goTo .sigAvail)
  | .sigAvail => some (lock.test me .sigTake .sigSpin)
  | .sigTake => some (lock.sleepTake me .sigTaken .sigSpin)
  | .sigTaken => some (lock, me.unlockMutex.goTo .pendFixpend)
  | .sigSpin => lock.spin l me .sigRetest
  | .sigRetest => some (lock.test me .sigRaced .sigInsque)
  | .sigRaced =>
    -- back at `acquire`, but without `l_mutex`
    some (lock.unspin, me.unlockMutex.goTo .sigAcquire)
  | .sigInsque => some (lock.insque l me.nsleeps outcome.position, me.goTo .sigUnspin)
  | .sigUnspin => some (lock.unspin, me.goTo .sigSwtch)
  | .sigSwtch => some (lock, me.swtch true)
  | .sigWaked woke =>
    (if woke then me.callIssig l outcome.issig else me.toAcquire l).map fun me => (lock, me)
  | .sigFixSpin => lock.spin l me .sigFix
  | .sigFix =>
    some ({ lock with slFixpend := lock.slFixpend + (me.nsleeps - 1) }, me.goTo .sigFixUnspin)
  | .sigFixUnspin => some (lock.unspin, me.leave .idle)
  | _ => none

/-- What every acquisition does behind `sleep_take`, and `sleep_trylock`. -/
def takenNext (lock : SleepLock) (l : Nat) (me : SleepLwp) : Option (SleepLock × SleepLwp) :=
  match me.place with
  | .pendFixpend => some (lock, me.goTo (if lock.slFixpend > 0 then .pendSpin else .recordBusy))
  | .pendSpin => lock.spin l me .pendClear
  | .pendClear => some ({ lock with slFixpend := 0 }, me.goTo .pendUnspin)
  | .pendUnspin => some (lock.unspin, me.goTo .recordBusy)
  | .recordBusy => if lock.slPid = .busy then none else some (lock, me.goTo .recordOwner)
  | .recordOwner => some ({ lock with slPid := .owner l }, me.leave .holding)
  | .tryAvail => some (lock.test me .tryTake .idle)
  | .tryTake => some (lock.sleepTake me .recordBusy .idle)
  | _ => none

/-- The steps of `sleep_unlock` and `sleep_dequeue` up to the wakeups. -/
def unlockNext (lock : SleepLock) (l : Nat) (me : SleepLwp)
    (outcome : Outcome) : Option (SleepLock × SleepLwp) :=
  match me.place with
  | .unlockSpinTest =>
    some (lock, me.goTo (if lock.slFspin.isNone then .unlockQueueTest else .dequeueSpin))
  | .unlockQueueTest =>
    some (lock, me.goTo (if lock.slList.isEmpty then .unlockFixpendTest else .dequeueSpin))
  | .unlockFixpendTest =>
    some (lock, me.goTo (if lock.slFixpend = 0 then .unlockBusy else .dequeueSpin))
  | .unlockBusy => some ({ lock with slPid := .busy }, me.goTo .unlockAvail)
  | .unlockAvail => some ({ lock with slAvail := true }, me.goTo .unlockSpinRetest)
  | .unlockSpinRetest =>
    some (lock, me.goTo (if lock.slFspin.isNone then .unlockQueueRetest
            else .unlockRetest))
  | .unlockQueueRetest =>
    some (lock, me.goTo (if lock.slList.isEmpty then .unlockFree else .unlockRetest))
  | .unlockFree => some ({ lock with slPid := .nopid }, me.leave .idle)
  | .unlockRetest => some (lock, me.goTo (if lock.slAvail then .unlockRetake else .unlockFree))
  | .unlockRetake => some (lock.sleepTake me .dequeueSpin .unlockFree)
  | .dequeueSpin => lock.spin l me (.dequeueLoop [])
  | .dequeueLoop chain =>
    match lock.slList with
    | [] => some (lock, me.goTo (.dequeueFixpend chain))
    | head :: rest =>
      some ({ lock with slList := rest }, me.goTo
          (if outcome.loaded then .dequeueFixpend (head :: chain)
            else .dequeueLoop (head :: chain)))
  | .dequeueFixpend chain => some ({ lock with slFixpend := 0 }, me.goTo (.dequeuePid chain))
  | .dequeuePid chain => some ({ lock with slPid := .nopid }, me.goTo (.dequeueAvail chain))
  | .dequeueAvail chain => some ({ lock with slAvail := true }, me.goTo (.dequeueUnspin chain))
  | .dequeueUnspin chain => some (lock.unspin, me.goTo (.wakeup chain))
  | .wakeup [] => some (lock, me.leave .idle)
  | .unsleepSpin target => lock.spin l me (.unsleepDeque target)
  | .unsleepDeque target =>
    some ({ lock with slList := lock.slList.erase target },
        me.goTo (.unsleepUnspin target (lock.slList.contains target)))
  | _ => none

namespace SleepState

/-- An LWP is assigned to. -/
def setLwp (s : SleepState) (l : Nat) (next : SleepLwp) : SleepState :=
  { s with lwp := Function.update s.lwp l next }

/-- A step of one LWP on the lock. -/
def apply (s : SleepState) (l : Nat) (next : SleepLock × SleepLwp) : SleepState :=
  { s with lock := next.1 }.setLwp l next.2

/--
`LWP_WAKEUP` of an LWP by an unlock.  One that has not left the processor yet
sets `l_stat` to `SSLEEP` afterwards.
-/
def lwpWakeup (s : SleepState) (target : Nat) : SleepState :=
  match (s.lwp target).place with
  | .asleep sig =>
    s.setLwp target
      { s.lwp target with
        place := if sig then .sigWaked false else .lockAvail
        woken := true }
  | _ => s

/-- The end of a signal to an LWP, which wakes it if it was dequeued. -/
def unsleep (s : SleepState) (target : Nat) (dequeued : Bool) : SleepState := s.setLwp target
    { s.lwp target with
      place :=
        match (s.lwp target).place with
        | .asleep true => if dequeued then .sigWaked true else .asleep true
        | place => place
      lMutex := none }

end SleepState

/-- The steps that are only about the LWP itself. -/
def localNext (lock : SleepLock) (l : Nat) (me : SleepLwp)
    (outcome : Outcome) : Option (SleepLock × SleepLwp) :=
  (lockNext lock l me outcome).or ((lockSigNext lock l me outcome).or
      ((takenNext lock l me).or (unlockNext lock l me outcome)))

/-- An LWP goes on. -/
def goOn (s : SleepState) (l : Nat) (outcome : Outcome) : Option SleepState :=
  match (s.lwp l).place with
  | .wakeup (target :: chain) =>
    if (s.lwp target).lMutex.isNone then
      some ((s.lwpWakeup target).setLwp l ((s.lwp l).goTo (.wakeup chain)))
    else
      none
  | .unsleepUnspin target dequeued =>
    some (({ s with lock := s.lock.unspin }.unsleep target dequeued).setLwp l
        ((s.lwp l).leave .idle))
  | _ => (localNext s.lock l (s.lwp l) outcome).map (s.apply l)

/-- An LWP outside of the routines calls one. -/
def call (s : SleepState) (l : Nat) (caller place : Place) : Option SleepState :=
  if (s.lwp l).place = caller then
    some (s.setLwp l ((s.lwp l).leave place))
  else
    none

def sleepStep (s : SleepState) : SleepAction → Option SleepState
  | .sleepLock l => call s l .idle .fastFixpend
  | .sleepLockSig l => call s l .idle .sigAgain
  | .sleepTrylock l => call s l .idle .tryAvail
  | .sleepUnlock u h =>
    if u = h then
      call s u .holding .unlockSpinTest
    else if (s.lwp h).place = .holding then
      call (s.setLwp h ((s.lwp h).leave .idle)) u .idle .unlockSpinTest
    else
      none
  | .signal k target =>
    if (s.lwp target).place = .asleep true ∧ (s.lwp target).lMutex = none then
      call (s.setLwp target { s.lwp target with lMutex := some k }) k .idle (.unsleepSpin target)
    else
      none
  | .goOn l outcome => goOn s l outcome

def sleepInit (slPlain : Bool) : SleepState where
  lock := ⟨true, .nopid, none, [], 0, slPlain⟩
  lwp := fun _ => ⟨.idle, 0, none, false⟩

end Uw7.Ksynch
