import Uw7.Ksynch.SleepLock

namespace Uw7.Ksynch

/-!
# The order of a sleep lock

Places are classified by what an LWP there is entitled to or has to do, every
step of an LWP on the lock is described once in terms of these classes, and from
that follow the owner of the lock, the owner of `sl_fspin` and who looks after an
available lock that LWPs are queued for.
-/

open Option

/-- From a successful `sleep_take` until the lock is made available. -/
def Place.owns : Place → Bool
  | .holding | .lockRaced | .sigTaken | .pendFixpend | .pendSpin
  | .pendClear | .pendUnspin | .recordBusy | .recordOwner | .unlockSpinTest
  | .unlockQueueTest | .unlockFixpendTest | .unlockBusy | .unlockAvail
  | .dequeueSpin | .dequeueLoop _ | .dequeueFixpend _ | .dequeuePid _
  | .dequeueAvail _ => true
  | _ => false

/-- Between `FSPIN_LOCK` and `FSPIN_UNLOCK`. -/
def Place.spins : Place → Bool
  | .lockRetest | .lockRetake | .lockRaced | .lockInsque | .lockUnspin
  | .pendClear | .pendUnspin | .sigRetest | .sigRaced | .sigInsque
  | .sigUnspin | .sigFix | .sigFixUnspin | .dequeueLoop _
  | .dequeueFixpend _ | .dequeuePid _ | .dequeueAvail _ | .dequeueUnspin _
  | .unsleepDeque _ | .unsleepUnspin _ _ => true
  | _ => false

/-- Before `insque`, under `sl_fspin`. -/
def Place.commits : Place → Bool
  | .lockInsque | .sigInsque => true
  | _ => false

/-- In the fast path of an unlock, and not yet sure that no one is coming. -/
def Place.watches : Place → Bool
  | .unlockSpinRetest | .unlockRetest | .unlockRetake => true
  | _ => false

/-- Behind the loop of `sleep_dequeue`, which has woken no one. -/
def Place.drained : Place → Bool
  | .dequeueFixpend [] | .dequeuePid [] | .dequeueAvail [] => true
  | _ => false

/-- On the way through an unlock. -/
def Place.unlocks : Place → Bool
  | .unlockSpinTest | .unlockQueueTest | .unlockFixpendTest | .unlockBusy
  | .unlockAvail | .unlockSpinRetest | .unlockQueueRetest | .unlockFree
  | .unlockRetest | .unlockRetake | .dequeueSpin | .dequeueLoop _
  | .dequeueFixpend _ | .dequeuePid _ | .dequeueAvail _ | .dequeueUnspin _
  | .wakeup _ => true
  | _ => false

/-- In an unlock that will come to the queue or has LWPs to wake. -/
def Place.serves : Place → Bool
  | .unlockSpinRetest | .unlockQueueRetest | .unlockRetest | .unlockRetake
  | .dequeueUnspin (_ :: _) | .wakeup (_ :: _) => true
  | _ => false

/-- On the way to `sl_avail`, in an acquisition that may have slept. -/
def Place.retries : Place → Bool
  | .lockAvail | .lockTake | .sigAgain | .sigAcquire | .sigAvail | .sigTake
  | .sigWaked false => true
  | _ => false

/-- An LWP that sees to it that a queued one comes to an available lock. -/
def SleepLwp.carries (me : SleepLwp) : Bool := me.place.serves || (me.woken && me.place.retries)

/-- What a step of an LWP does, except to whom it leaves the queue. -/
structure LocalStep (lock : SleepLock) (l : Nat) (me : SleepLwp)
    (next : SleepLock × SleepLwp) : Prop where
  /-- The lock is kept, taken or made available. -/
  token : (next.1.slAvail = lock.slAvail ∧ next.2.place.owns = me.place.owns) ∨
      (lock.slAvail = true ∧ next.1.slAvail = false ∧
        next.2.place.owns = true) ∨
      (me.place.owns = true ∧ next.1.slAvail = true ∧
        next.2.place.owns = false)
  /-- The spin lock is kept, taken or released. -/
  spin : (next.1.slFspin = lock.slFspin ∧
      next.2.place.spins = me.place.spins) ∨ (lock.slFspin = none ∧ next.1.slFspin = some l ∧
        next.2.place.spins = true) ∨
      (me.place.spins = true ∧ next.1.slFspin = none ∧
        next.2.place.spins = false)
  /-- The queue is changed under the spin lock. -/
  queue : next.1.slList = lock.slList ∨ me.place.spins = true
  /-- An LWP only enters the queue when it has seen that the lock is taken. -/
  insque : lock.slList = [] → next.1.slList = [] ∨ me.place.commits = true
  commits : next.2.place.commits = true → next.1.slAvail = false
  watches : me.place.watches = true →
      next.2.place.watches = true ∨ next.1.slAvail = false ∨ lock.slFspin = none
  publishes :
    next.1.slAvail = true → lock.slAvail = true ∨ next.2.place.watches = true ∨
        (me.place.spins = true ∧ (next.2.place.serves = true ∨ me.place.drained = true))
  drained : (me.place.drained = true → lock.slList = []) →
      next.2.place.drained = true → next.1.slList = []

variable {me' : SleepLwp} {place : Place} {yes no : Place}

namespace LocalStep

variable {lock : SleepLock} {l : Nat} {me : SleepLwp} {next : SleepLock × SleepLwp} {here : Place}

section

variable (atHere : me.place = here)
include atHere

theorem quiet (avail : next.1.slAvail = lock.slAvail)
    (fspin : next.1.slFspin = lock.slFspin) (list : next.1.slList = lock.slList)
    (owns : next.2.place.owns = here.owns) (spins : next.2.place.spins = here.spins)
    (commits : next.2.place.commits = false)
    (watches : here.watches = false ∨ next.2.place.watches = true ∨
      lock.slAvail = false ∨ lock.slFspin = none)
    (drained :
      next.2.place.drained = false ∨
        next.2.place.drained = here.drained ∨ lock.slList = []) :
    LocalStep lock l me next := by
  subst here
  refine ⟨.inl ⟨avail, owns⟩, .inl ⟨fspin, spins⟩, .inl list,
    fun empty => .inl (list.trans empty), by simp [commits], ?_, ?_, ?_⟩
  · intro isWatching
    rw [avail]
    exact watches.resolve_left (by simp [isWatching])
  · intro available
    exact .inl (avail.symm.trans available)
  · intro already isDrained
    rw [list]
    obtain isNot | same | empty := drained
    · exact absurd isNot (by simp [isDrained])
    · exact already (same.symm.trans isDrained)
    · exact empty

theorem test (owns : yes.owns = here.owns ∧ no.owns = here.owns)
    (spins : yes.spins = here.spins ∧ no.spins = here.spins) (commits : yes.commits = false)
    (watches : here.watches = false) (drained : yes.drained = false ∧ no.drained = false) :
    LocalStep lock l me (lock.test me yes no) := by
  subst here
  unfold SleepLock.test SleepLwp.goTo SleepLwp.retried
  cases available : lock.slAvail with
  | true => exact .quiet rfl rfl rfl rfl owns.1 spins.1 commits (.inl watches) (.inl drained.1)
  | false =>
    exact ⟨.inl ⟨rfl, owns.2⟩, .inl ⟨rfl, spins.2⟩, .inl rfl,
      .inl, fun _ => available, by simp [watches], .inl, by simp [drained.2]⟩

theorem sleepTake (owns : yes.owns = true ∧ no.owns = here.owns)
    (spins : yes.spins = here.spins ∧ no.spins = here.spins)
    (drained : yes.drained = false ∧ no.drained = false) :
    LocalStep lock l me (lock.sleepTake me yes no) := by
  subst here
  unfold SleepLock.sleepTake SleepLwp.retried
  cases available : lock.slAvail with
  | true =>
    exact ⟨.inr (.inl ⟨available, rfl, owns.1⟩), .inl ⟨rfl, spins.1⟩,
      .inl rfl, .inl, fun _ => rfl, fun _ => .inr (.inl rfl), by simp,
      by simp [drained.1]⟩
  | false =>
    exact ⟨.inl ⟨available.symm, owns.2⟩, .inl ⟨rfl, spins.2⟩,
      .inl rfl, .inl, fun _ => rfl, fun _ => .inr (.inl rfl), by simp,
      by simp [drained.2]⟩

theorem acquire (taken : lock.spin l me place = some next) (owns : place.owns = here.owns)
    (spins : place.spins = true) (commits : place.commits = false) (watches : here.watches = false)
    (drained : place.drained = false) : LocalStep lock l me next := by
  subst here
  obtain ⟨free, ⟨⟩⟩ := ite_none_right_eq_some.1 taken
  exact ⟨.inl ⟨rfl, owns⟩, .inr (.inl ⟨isNone_iff_eq_none.mp free, rfl, spins⟩),
    .inl rfl, .inl, by simp [SleepLwp.goTo, commits],
    by simp [watches], .inl, by simp [SleepLwp.goTo, drained]⟩

theorem underSpin {lock' : SleepLock}
    (avail : lock'.slAvail = lock.slAvail) (owns : me'.place.owns = here.owns)
    (spins : here.spins = true)
    (released : (lock'.slFspin = lock.slFspin ∧ me'.place.spins = true) ∨
      (lock'.slFspin = none ∧ me'.place.spins = false))
    (commits : me'.place.commits = false) (watches : here.watches = false)
    (drained : me'.place.drained = false)
    (insque : lock.slList = [] → lock'.slList = [] ∨ here.commits = true) :
    LocalStep lock l me (lock', me') := by
  subst here
  refine ⟨.inl ⟨avail, owns⟩, ?_, .inr spins, insque, by simp [commits],
    by simp [watches], fun available => .inl (avail.symm.trans available), by simp [drained]⟩
  obtain ⟨kept, still⟩ | ⟨freed, gone⟩ := released
  · exact .inl ⟨kept, still.trans spins.symm⟩
  · exact .inr (.inr ⟨spins, freed, gone⟩)

theorem publish
    (owns : here.owns = true ∧ me'.place.owns = false) (spins : me'.place.spins = here.spins)
    (commits : me'.place.commits = false) (watches : here.watches = false)
    (responsible : me'.place.watches = true ∨ (here.spins = true ∧
      (me'.place.serves = true ∨ here.drained = true)))
    (drained : me'.place.drained = false) :
    LocalStep lock l me ({ lock with slAvail := true }, me') := by
  subst here
  exact ⟨.inr (.inr ⟨owns.1, rfl, owns.2⟩), .inl ⟨rfl, spins⟩, .inl rfl,
    .inl, by simp [commits], by simp [watches], fun _ => .inr responsible, by simp [drained]⟩

end

variable {outcome : Outcome}

theorem of_lockNext (taken : lockNext lock l me outcome = some next) :
    LocalStep lock l me next := by
  unfold lockNext at taken
  split at taken
  case h_1 here =>
    cases taken
    split <;> exact .quiet here rfl rfl rfl rfl rfl rfl (.inl rfl) (.inl rfl)
  case h_2 here | h_4 here | h_8 here =>
    cases taken
    exact .test here ⟨rfl, rfl⟩ ⟨rfl, rfl⟩ rfl rfl ⟨rfl, rfl⟩
  case h_3 here | h_5 here | h_9 here =>
    cases taken
    exact .sleepTake here ⟨rfl, rfl⟩ ⟨rfl, rfl⟩ ⟨rfl, rfl⟩
  case h_6 here =>
    obtain ⟨-, ⟨⟩⟩ := ite_none_right_eq_some.1 taken
    exact .quiet here rfl rfl rfl rfl rfl rfl (.inl rfl) (.inl rfl)
  case h_7 here => exact .acquire here taken rfl rfl rfl rfl rfl
  case h_10 here | h_12 here =>
    cases taken
    exact .underSpin here rfl rfl rfl (.inr ⟨rfl, rfl⟩) rfl rfl rfl .inl
  case h_11 here =>
    cases taken
    exact .underSpin here rfl rfl rfl (.inl ⟨rfl, rfl⟩) rfl rfl rfl fun _ => .inr rfl
  case h_13 here =>
    cases taken
    exact .quiet here rfl rfl rfl rfl rfl rfl (.inl rfl) (.inl rfl)
  case h_14 => cases taken

section

variable (atHere : me.place = here)
  (classes : here.owns = false ∧ here.spins = false ∧ here.watches = false)
include atHere classes

theorem of_giveUp : LocalStep lock l me (lock, me.giveUp) := by
  unfold SleepLwp.giveUp
  obtain ⟨owns, spins, watches⟩ := classes
  split <;> exact .quiet atHere rfl rfl rfl owns.symm spins.symm rfl (.inl watches) (.inl rfl)

theorem of_toAcquire (taken : me.toAcquire l = some me') :
    LocalStep lock l me (lock, me') := by
  unfold SleepLwp.toAcquire at taken
  obtain ⟨owns, spins, watches⟩ := classes
  obtain ⟨-, ⟨⟩⟩ := ite_none_right_eq_some.1 taken
  exact .quiet atHere rfl rfl rfl owns.symm spins.symm rfl (.inl watches) (.inl rfl)

theorem of_callIssig {result : Issig} (taken : me.callIssig l result = some me') :
    LocalStep lock l me (lock, me') := by
  cases result with
  | none => exact of_toAcquire atHere classes taken
  | signalled =>
    cases taken
    exact of_giveUp atHere classes
  | stopped =>
    cases taken
    exact .quiet atHere rfl rfl rfl classes.1.symm classes.2.1.symm rfl
      (.inl classes.2.2) (.inl rfl)

end

theorem of_lockSigNext (taken : lockSigNext lock l me outcome = some next) :
    LocalStep lock l me next := by
  unfold lockSigNext at taken
  split at taken
  case h_1 here =>
    obtain ⟨me', called, rfl⟩ := map_eq_some_iff.mp taken
    exact of_callIssig here ⟨rfl, rfl, rfl⟩ called
  case h_2 here =>
    cases taken
    split <;> exact .quiet here rfl rfl rfl rfl rfl rfl (.inl rfl) (.inl rfl)
  case h_3 here | h_7 here =>
    cases taken
    exact .test here ⟨rfl, rfl⟩ ⟨rfl, rfl⟩ rfl rfl ⟨rfl, rfl⟩
  case h_4 here =>
    cases taken
    exact .sleepTake here ⟨rfl, rfl⟩ ⟨rfl, rfl⟩ ⟨rfl, rfl⟩
  case h_5 here =>
    cases taken
    exact .quiet here rfl rfl rfl rfl rfl rfl (.inl rfl) (.inl rfl)
  case h_6 here => exact .acquire here taken rfl rfl rfl rfl rfl
  case h_8 here | h_10 here =>
    cases taken
    exact .underSpin here rfl rfl rfl (.inr ⟨rfl, rfl⟩) rfl rfl rfl .inl
  case h_9 here =>
    cases taken
    exact .underSpin here rfl rfl rfl (.inl ⟨rfl, rfl⟩) rfl rfl rfl fun _ => .inr rfl
  case h_11 here =>
    cases taken
    exact .quiet here rfl rfl rfl rfl rfl rfl (.inl rfl) (.inl rfl)
  case h_12 woke here =>
    obtain ⟨me', called, rfl⟩ := map_eq_some_iff.mp taken
    split at called
    · exact of_callIssig here ⟨rfl, rfl, rfl⟩ called
    · exact of_toAcquire here ⟨rfl, rfl, rfl⟩ called
  case h_13 here => exact .acquire here taken rfl rfl rfl rfl rfl
  case h_14 here =>
    cases taken
    exact .underSpin here rfl rfl rfl (.inl ⟨rfl, rfl⟩) rfl rfl rfl .inl
  case h_15 here =>
    cases taken
    exact .underSpin here rfl rfl rfl (.inr ⟨rfl, rfl⟩) rfl rfl rfl .inl
  case h_16 => cases taken

theorem of_takenNext (taken : takenNext lock l me = some next) : LocalStep lock l me next := by
  unfold takenNext at taken
  split at taken
  case h_1 here =>
    cases taken
    split <;> exact .quiet here rfl rfl rfl rfl rfl rfl (.inl rfl) (.inl rfl)
  case h_2 here => exact .acquire here taken rfl rfl rfl rfl rfl
  case h_3 here =>
    cases taken
    exact .underSpin here rfl rfl rfl (.inl ⟨rfl, rfl⟩) rfl rfl rfl .inl
  case h_4 here =>
    cases taken
    exact .underSpin here rfl rfl rfl (.inr ⟨rfl, rfl⟩) rfl rfl rfl .inl
  case h_5 here =>
    obtain ⟨-, ⟨⟩⟩ := ite_none_left_eq_some.1 taken
    exact .quiet here rfl rfl rfl rfl rfl rfl (.inl rfl) (.inl rfl)
  case h_6 here =>
    cases taken
    exact .quiet here rfl rfl rfl rfl rfl rfl (.inl rfl) (.inl rfl)
  case h_7 here =>
    cases taken
    exact .test here ⟨rfl, rfl⟩ ⟨rfl, rfl⟩ rfl rfl ⟨rfl, rfl⟩
  case h_8 here =>
    cases taken
    exact .sleepTake here ⟨rfl, rfl⟩ ⟨rfl, rfl⟩ ⟨rfl, rfl⟩
  case h_9 => cases taken

/-- A step of `sleep_unlock`, of `sleep_dequeue` or of `sleep_unsleep`. -/
theorem of_unlockNext (taken : unlockNext lock l me outcome = some next) :
    LocalStep lock l me next := by
  unfold unlockNext at taken
  split at taken
  case h_1 here | h_2 here | h_3 here =>
    cases taken
    split <;> exact .quiet here rfl rfl rfl rfl rfl rfl (.inl rfl) (.inl rfl)
  case h_4 here | h_8 here =>
    cases taken
    exact .quiet here rfl rfl rfl rfl rfl rfl (.inl rfl) (.inl rfl)
  case h_5 here =>
    cases taken
    exact .publish here ⟨rfl, rfl⟩ rfl rfl rfl (.inl rfl) rfl
  case h_6 here =>
    cases taken
    split
    case isTrue free =>
      exact .quiet here rfl rfl rfl rfl rfl rfl
        (.inr (.inr (.inr (isNone_iff_eq_none.mp free)))) (.inl rfl)
    case isFalse => exact .quiet here rfl rfl rfl rfl rfl rfl (.inr (.inl rfl)) (.inl rfl)
  case h_7 here =>
    cases taken
    split <;> exact .quiet here rfl rfl rfl rfl rfl rfl (.inl rfl) (.inl rfl)
  case h_9 here =>
    cases taken
    cases available : lock.slAvail with
    | true => exact .quiet here rfl rfl rfl rfl rfl rfl (.inr (.inl rfl)) (.inl rfl)
    | false => exact .quiet here rfl rfl rfl rfl rfl rfl (.inr (.inr (.inl available))) (.inl rfl)
  case h_10 here =>
    cases taken
    exact .sleepTake here ⟨rfl, rfl⟩ ⟨rfl, rfl⟩ ⟨rfl, rfl⟩
  case h_11 here => exact .acquire here taken rfl rfl rfl rfl rfl
  case h_12 chain atHere =>
    split at taken
    case h_1 empty =>
      cases taken
      exact .quiet atHere rfl rfl rfl rfl rfl rfl (.inl rfl) (.inr (.inr empty))
    case h_2 head rest waiting =>
      cases taken
      have nonempty : lock.slList = [] → rest = [] ∨ (Place.dequeueLoop chain).commits = true := by
        simp [waiting]
      split <;> exact .underSpin atHere rfl rfl rfl (.inl ⟨rfl, rfl⟩) rfl rfl rfl nonempty
  case h_13 chain here | h_14 chain here =>
    cases taken
    cases chain with
    | nil => exact .quiet here rfl rfl rfl rfl rfl rfl (.inl rfl) (.inr (.inl rfl))
    | cons head rest => exact .quiet here rfl rfl rfl rfl rfl rfl (.inl rfl) (.inl rfl)
  case h_15 chain here =>
    cases taken
    cases chain with
    | nil => exact .publish here ⟨rfl, rfl⟩ rfl rfl rfl (.inr ⟨rfl, .inr rfl⟩) rfl
    | cons head rest => exact .publish here ⟨rfl, rfl⟩ rfl rfl rfl (.inr ⟨rfl, .inl rfl⟩) rfl
  case h_16 chain here =>
    cases taken
    exact .underSpin here rfl rfl rfl (.inr ⟨rfl, rfl⟩) rfl rfl rfl .inl
  case h_17 here =>
    cases taken
    exact .quiet here rfl rfl rfl rfl rfl rfl (.inl rfl) (.inl rfl)
  case h_18 target here => exact .acquire here taken rfl rfl rfl rfl rfl
  case h_19 target here =>
    cases taken
    exact .underSpin here rfl rfl rfl (.inl ⟨rfl, rfl⟩) rfl rfl rfl
      fun empty => .inl (by rw [empty]; rfl)
  case h_20 => cases taken

theorem of_localNext (taken : localNext lock l me outcome = some next) :
    LocalStep lock l me next := by
  obtain inLock | ⟨-, taken⟩ := or_eq_some_iff.mp taken
  · exact of_lockNext inLock
  obtain inLockSig | ⟨-, taken⟩ := or_eq_some_iff.mp taken
  · exact of_lockSigNext inLockSig
  obtain inTaken | ⟨-, inUnlock⟩ := or_eq_some_iff.mp taken
  · exact of_takenNext inTaken
  · exact of_unlockNext inUnlock

end LocalStep

section

variable {lock : SleepLock} {l : Nat} {me : SleepLwp}
  {next : SleepLock × SleepLwp} {outcome : Outcome}

def SleepLwp.givesUp (me : SleepLwp) (outcome : Outcome) : Prop :=
  (me.place = .sigAgain ∨ me.place = .sigWaked true) ∧ outcome.issig = .signalled

theorem SleepLwp.carries_at {here : Place} (atHere : me.place = here) :
    me.carries = (here.serves || (me.woken && here.retries)) := by
  rw [SleepLwp.carries, atHere]

theorem woken_of_carries {here : Place} (atHere : me.place = here) (serves : here.serves = false)
    (carried : me.carries = true) : me.woken = true := by
  rw [SleepLwp.carries_at atHere, serves, Bool.false_or] at carried
  exact (Bool.and_eq_true_iff.mp carried).1

theorem carries_of_woken (woken : me.woken = true) (retries : me.place.retries = true) :
    me.carries = true := by
  simp [SleepLwp.carries, woken, retries]

theorem carries_test (carried : me.woken = true) (retries : yes.retries = true)
    (isAvailable : (lock.test me yes no).1.slAvail = true) :
    (lock.test me yes no).2.carries = true := by
  unfold SleepLock.test at isAvailable ⊢
  split
  case isTrue => exact carries_of_woken carried retries
  case isFalse taken =>
    rw [if_neg taken] at isAvailable
    exact absurd isAvailable taken

theorem carries_lockNext (taken : lockNext lock l me outcome = some next)
    (carried : me.carries = true) (isAvailable : next.1.slAvail = true) :
    next.2.carries = true := by
  unfold lockNext at taken
  split at taken
  case h_4 here =>
    cases taken
    exact carries_test (woken_of_carries here rfl carried) rfl isAvailable
  case h_5 here =>
    cases taken
    cases isAvailable
  case h_14 => cases taken
  all_goals
    rename_i here
    rw [SleepLwp.carries_at here] at carried
    simp [Place.serves, Place.retries] at carried

theorem carries_toAcquire (woken : me.woken = true)
    (taken : me.toAcquire l = some me') : me'.carries = true := by
  obtain ⟨-, ⟨⟩⟩ := ite_none_right_eq_some.1 taken
  exact carries_of_woken woken rfl

theorem carries_callIssig {result : Issig} (woken : me.woken = true)
    (stays : result ≠ .signalled) (taken : me.callIssig l result = some me') :
    me'.carries = true := by
  cases result with
  | none => exact carries_toAcquire woken taken
  | signalled => exact absurd rfl stays
  | stopped =>
    cases taken
    exact carries_of_woken woken rfl

theorem carries_lockSigNext (taken : lockSigNext lock l me outcome = some next)
    (stays : me.givesUp outcome → me.woken = false) (carried : me.carries = true)
    (isAvailable : next.1.slAvail = true) :
    next.2.carries = true := by
  unfold lockSigNext at taken
  split at taken
  case h_1 here =>
    have woken := woken_of_carries here rfl carried
    obtain ⟨me', called, rfl⟩ := map_eq_some_iff.mp taken
    refine carries_callIssig woken (fun signalled => ?_) called
    exact absurd (stays ⟨.inl here, signalled⟩) (by simp [woken])
  case h_2 here =>
    have woken := woken_of_carries here rfl carried
    cases taken
    split <;> exact carries_of_woken woken rfl
  case h_3 here =>
    cases taken
    exact carries_test (woken_of_carries here rfl carried) rfl isAvailable
  case h_4 here =>
    cases taken
    cases isAvailable
  case h_12 woke here =>
    obtain ⟨me', called, rfl⟩ := map_eq_some_iff.mp taken
    cases woke with
    | true =>
      have woken := woken_of_carries here rfl carried
      refine carries_callIssig woken (fun signalled => ?_) called
      exact absurd (stays ⟨.inr here, signalled⟩) (by simp [woken])
    | false => exact carries_toAcquire (woken_of_carries here rfl carried) called
  case h_16 => cases taken
  all_goals
    rename_i here
    rw [SleepLwp.carries_at here] at carried
    simp [Place.serves, Place.retries] at carried

theorem carries_takenNext (taken : takenNext lock l me = some next) : me.carries = false := by
  unfold takenNext at taken
  split at taken
  case h_9 => cases taken
  all_goals
    rename_i here
    rw [SleepLwp.carries_at here]
    simp [Place.serves, Place.retries]

theorem carries_of_serves (serves : me.place.serves = true) : me.carries = true := by
  simp [SleepLwp.carries, serves]

theorem carries_unlockNext (taken : unlockNext lock l me outcome = some next)
    (carried : me.carries = true) (isAvailable : next.1.slAvail = true)
    (queued : next.1.slList ≠ []) :
    next.2.carries = true := by
  unfold unlockNext at taken
  split at taken
  case h_6 here =>
    cases taken
    split <;> exact carries_of_serves rfl
  case h_7 here =>
    cases taken
    have nonempty : lock.slList.isEmpty = false := by simpa using queued
    simp only [nonempty, Bool.false_eq_true, if_false]
    exact carries_of_serves rfl
  case h_9 here =>
    cases taken
    have available : lock.slAvail = true := isAvailable
    simp only [available, if_true]
    exact carries_of_serves rfl
  case h_10 here =>
    cases taken
    cases isAvailable
  case h_16 chain here =>
    cases taken
    cases chain with
    | nil =>
      rw [SleepLwp.carries_at here] at carried
      simp [Place.serves, Place.retries] at carried
    | cons head rest => exact carries_of_serves rfl
  case h_20 => cases taken
  all_goals
    rename_i here
    rw [SleepLwp.carries_at here] at carried
    simp [Place.serves, Place.retries] at carried

theorem carries_localNext (taken : localNext lock l me outcome = some next)
    (stays : me.givesUp outcome → me.woken = false) (carried : me.carries = true)
    (isAvailable : next.1.slAvail = true) (queued : next.1.slList ≠ []) :
    next.2.carries = true := by
  obtain inLock | ⟨-, taken⟩ := or_eq_some_iff.mp taken
  · exact carries_lockNext inLock carried isAvailable
  obtain inLockSig | ⟨-, taken⟩ := or_eq_some_iff.mp taken
  · exact carries_lockSigNext inLockSig stays carried isAvailable
  obtain inTaken | ⟨-, inUnlock⟩ := or_eq_some_iff.mp taken
  · exact absurd carried (by simp [carries_takenNext inTaken])
  · exact carries_unlockNext inUnlock carried isAvailable queued

theorem Place.serves_of_watches (watches : place.watches = true) :
    place.serves = true := by
  cases place <;> first | rfl | cases watches

theorem Place.not_commits_of_drained (drained : place.drained = true)
    (commits : place.commits = true) :
    False := by
  cases place <;> first | exact Bool.noConfusion commits | exact Bool.noConfusion drained

theorem Place.not_watches_of_commits (commits : place.commits = true)
    (watches : place.watches = true) :
    False := by
  cases place <;> first | exact Bool.noConfusion commits | exact Bool.noConfusion watches

theorem LocalStep.serves (step : LocalStep lock l me next)
    (drained : me.place.drained = true → lock.slList = []) (unavailable : lock.slAvail = false)
    (isAvailable : next.1.slAvail = true) (queued : next.1.slList ≠ []) :
    next.2.place.serves = true := by
  obtain was | watches | ⟨-, serves | isDrained⟩ := step.publishes isAvailable
  · exact absurd was (by simp [unavailable])
  · exact Place.serves_of_watches watches
  · exact serves
  · obtain empty | commits := step.insque (drained isDrained)
    · exact absurd empty queued
    · exact (Place.not_commits_of_drained isDrained commits).elim

end

end Uw7.Ksynch
