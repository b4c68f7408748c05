import Uw7.Ksynch.SleepLockInvariant

namespace Uw7.Ksynch

/-!
# Runs of LWPs on a sleep lock

In every run the lock has one owner and `sl_fspin` too, and an LWP that is about
to enter the queue of a lock that has become available is watched by the unlock
that made it so.  As long as no woken LWP gives up, some LWP sees to it that an
available lock is offered to those queued for it.
-/

open Lib List Option

/-- Two places of one class. -/
structure Unmoved (before after : Place) : Prop where
  owns : after.owns = before.owns
  spins : after.spins = before.spins
  commits : after.commits = before.commits
  watches : after.watches = before.watches
  drained : after.drained = before.drained

theorem Unmoved.of_eq {before after : Place} (same : after = before) : Unmoved before after := by
  subst same
  exact ⟨rfl, rfl, rfl, rfl, rfl⟩

/-- Who owns the lock and its spin lock, and who watches its queue. -/
structure SleepOrder (s : SleepState) : Prop where
  exclusive : ∀ a b, (s.lwp a).place.owns = true → (s.lwp b).place.owns = true → a = b
  available : s.lock.slAvail = true → ∀ a, (s.lwp a).place.owns = false
  spinning : ∀ a, s.lock.slFspin = some a ↔ (s.lwp a).place.spins = true
  drained : ∀ a, (s.lwp a).place.drained = true → s.lock.slList = []
  watched : s.lock.slAvail = true → ∀ a, (s.lwp a).place.commits = true →
      ∃ u, (s.lwp u).place.watches = true

variable {place : Place}

theorem Place.spins_of_commits (commits : place.commits = true) :
    place.spins = true := by
  cases place <;> first | rfl | cases commits

theorem Place.spins_of_drained (drained : place.drained = true) :
    place.spins = true := by
  cases place <;> first | rfl | cases drained

namespace SleepOrder

variable {s s' : SleepState} {l : Nat}

theorem spinner (order : SleepOrder s) {a b : Nat} (first : (s.lwp a).place.spins = true)
    (second : (s.lwp b).place.spins = true) :
    a = b := by
  have isFirst := (order.spinning a).mpr first
  have isSecond := (order.spinning b).mpr second
  exact some.inj (isFirst.symm.trans isSecond)

section

variable (order : SleepOrder s) (step : LocalStep s.lock l (s.lwp l) (s'.lock, s'.lwp l))
  (others : ∀ a, a ≠ l → Unmoved (s.lwp a).place (s'.lwp a).place)

include order step others

theorem exclusive_step (a b : Nat) (first : (s'.lwp a).place.owns = true)
    (second : (s'.lwp b).place.owns = true) :
    a = b := by
  have before : ∀ c, c ≠ l → (s'.lwp c).place.owns = true → (s.lwp c).place.owns = true := by
    intro c notL owns
    exact (others c notL).owns ▸ owns
  -- an LWP that takes the lock has found it available
  have ofL : ∀ c, c ≠ l → (s'.lwp c).place.owns = true → (s'.lwp l).place.owns = true → False := by
    intro c notL ownsC ownsL
    obtain ⟨-, same⟩ | ⟨wasAvailable, -⟩ | ⟨-, -, gone⟩ := step.token
    · have ownedL : (s.lwp l).place.owns = true := same ▸ ownsL
      exact notL (order.exclusive c l (before c notL ownsC) ownedL)
    · exact absurd (before c notL ownsC) (by simp [order.available wasAvailable c])
    · exact absurd ownsL (by simp [gone])
  by_cases isL : a = l
  · subst a
    by_contra different
    exact ofL b (fun same => different same.symm) second first
  · by_cases isL' : b = l
    · subst b
      exact (ofL a isL first second).elim
    · exact order.exclusive a b (before a isL first) (before b isL' second)

theorem available_step (isAvailable : s'.lock.slAvail = true) (a : Nat) :
    (s'.lwp a).place.owns = false := by
  obtain ⟨kept, same⟩ | ⟨-, taken, -⟩ | ⟨owned, -, gone⟩ := step.token
  · have wasAvailable := order.available (kept.symm.trans isAvailable)
    by_cases isL : a = l
    · subst a
      exact same.trans (wasAvailable l)
    · exact (others a isL).owns.trans (wasAvailable a)
  · exact absurd (taken.symm.trans isAvailable) (by simp)
  · by_cases isL : a = l
    · subst a
      exact gone
    · rw [(others a isL).owns]
      by_contra owns
      exact isL (order.exclusive a l (by simpa using owns) owned)

theorem spinning_step (a : Nat) : s'.lock.slFspin = some a ↔ (s'.lwp a).place.spins = true := by
  by_cases isL : a = l
  · subst a
    obtain ⟨kept, same⟩ | ⟨-, got, spins⟩ | ⟨-, freed, gone⟩ := step.spin
    · rw [kept, same]
      exact order.spinning l
    · exact ⟨fun _ => spins, fun _ => got⟩
    · rw [freed, gone]
      simp
  · rw [(others a isL).spins]
    obtain ⟨kept, -⟩ | ⟨free, got, -⟩ | ⟨spun, freed, -⟩ := step.spin
    · rw [kept]
      exact order.spinning a
    · rw [got, ← order.spinning a, free]
      constructor
      · intro same
        exact absurd (some.inj same).symm isL
      · intro same
        cases same
    · rw [freed]
      constructor
      · intro same
        cases same
      · intro spins
        exact absurd (order.spinner spins spun) isL

theorem drained_step (a : Nat) (isDrained : (s'.lwp a).place.drained = true) :
    s'.lock.slList = [] := by
  by_cases isL : a = l
  · subst a
    exact step.drained (order.drained l) isDrained
  · rw [(others a isL).drained] at isDrained
    have empty := order.drained a isDrained
    obtain same | spins := step.queue
    · exact same.trans empty
    · exact absurd (order.spinner (Place.spins_of_drained isDrained) spins) isL

theorem watched_step (isAvailable : s'.lock.slAvail = true) (a : Nat)
    (commits : (s'.lwp a).place.commits = true) :
    ∃ u, (s'.lwp u).place.watches = true := by
  by_cases isL : a = l
  · subst a
    have taken := step.commits commits
    exact absurd (taken.symm.trans isAvailable) (by simp)
  · rw [(others a isL).commits] at commits
    have spins := Place.spins_of_commits commits
    obtain wasAvailable | watches | ⟨spinsL, -⟩ := step.publishes isAvailable
    · obtain ⟨u, watches⟩ := order.watched wasAvailable a commits
      by_cases isU : u = l
      · subst u
        obtain still | taken | free := step.watches watches
        · exact ⟨l, still⟩
        · exact absurd (taken.symm.trans isAvailable) (by simp)
        · -- the LWP before `insque` holds the spin lock
          exact absurd ((order.spinning a).mpr spins) (by simp [free])
      · exact ⟨u, (others u isU).watches.trans watches⟩
    · exact ⟨l, watches⟩
    · exact absurd (order.spinner spins spinsL) isL

theorem localStep : SleepOrder s' :=
  ⟨order.exclusive_step step others, order.available_step step others,
    order.spinning_step step others, order.drained_step step others,
    order.watched_step step others⟩

end

end SleepOrder

namespace SleepState

variable {s s' : SleepState} {l a : Nat}

@[simp] theorem setLwp_lock (next : SleepLwp) : (s.setLwp l next).lock = s.lock := rfl

@[simp] theorem setLwp_self (next : SleepLwp) : (s.setLwp l next).lwp l = next :=
  Function.update_self ..

theorem setLwp_other (next : SleepLwp) (other : a ≠ l) : (s.setLwp l next).lwp a = s.lwp a :=
  Function.update_of_ne other ..

@[simp] theorem lwpWakeup_lock (target : Nat) : (s.lwpWakeup target).lock = s.lock := by
  unfold lwpWakeup
  split <;> rfl

theorem lwpWakeup_unmoved (target a : Nat) :
    Unmoved (s.lwp a).place ((s.lwpWakeup target).lwp a).place := by
  unfold lwpWakeup
  split
  case h_1 sig asleep =>
    by_cases isTarget : a = target
    · subst a
      rw [setLwp_self, asleep]
      cases sig <;> exact ⟨rfl, rfl, rfl, rfl, rfl⟩
    · rw [setLwp_other _ isTarget]
      exact .of_eq rfl
  case h_2 => exact .of_eq rfl

theorem unsleep_unmoved (target a : Nat) (dequeued : Bool) :
    Unmoved (s.lwp a).place ((s.unsleep target dequeued).lwp a).place := by
  unfold unsleep
  by_cases isTarget : a = target
  · subst a
    rw [setLwp_self]
    split
    case h_1 asleep =>
      rw [asleep]
      cases dequeued <;> exact ⟨rfl, rfl, rfl, rfl, rfl⟩
    case h_2 => exact .of_eq rfl
  · rw [setLwp_other _ isTarget]
    exact .of_eq rfl

end SleepState

variable {outcome : Outcome}

namespace SleepOrder

variable {s s' : SleepState} {l : Nat}

section

variable (order : SleepOrder s)
include order

theorem call {caller place : Place}
    (taken : Ksynch.call s l caller place = some s') (owns : place.owns = caller.owns)
    (spins : place.spins = caller.spins) (commits : place.commits = false)
    (watches : caller.watches = false) (drained : place.drained = false) :
    SleepOrder s' := by
  obtain ⟨atCaller, ⟨⟩⟩ := ite_none_right_eq_some.1 taken
  refine @localStep _ _ l order ?_ fun a other => ?_
  · rw [SleepState.setLwp_self]
    exact .quiet atCaller rfl rfl rfl owns spins commits (.inl watches) (.inl drained)
  · rw [SleepState.setLwp_other _ other]
    exact .of_eq rfl

theorem setLwp {next : SleepLwp} (same : next.place = (s.lwp l).place) :
    SleepOrder (s.setLwp l next) := by
  have places : ∀ a, ((s.setLwp l next).lwp a).place = (s.lwp a).place := by
    intro a
    by_cases isL : a = l
    · subst a
      rw [SleepState.setLwp_self, same]
    · rw [SleepState.setLwp_other _ isL]
  constructor
  all_goals
    simp only [places, SleepState.setLwp_lock]
  · exact order.exclusive
  · exact order.available
  · exact order.spinning
  · exact order.drained
  · exact order.watched

theorem handOver {u h : Nat} (different : u ≠ h)
    (holding : (s.lwp h).place = .holding)
    (taken : Ksynch.call (s.setLwp h ((s.lwp h).leave .idle)) u .idle .unlockSpinTest = some s') :
    SleepOrder s' := by
  obtain ⟨atIdle, ⟨⟩⟩ := ite_none_right_eq_some.1 taken
  rw [SleepState.setLwp_other _ different] at atIdle
  -- only the two of them move, and only the owner of the lock changes
  have places : ∀ a, (((s.setLwp h ((s.lwp h).leave .idle)).setLwp u
      (((s.setLwp h ((s.lwp h).leave .idle)).lwp u).leave .unlockSpinTest)).lwp a).place =
      if a = u then .unlockSpinTest
      else if a = h then .idle else (s.lwp a).place := by
    intro a
    by_cases isU : a = u
    · rw [if_pos isU, isU, SleepState.setLwp_self]
      rfl
    · rw [if_neg isU, SleepState.setLwp_other _ isU]
      by_cases isH : a = h
      · rw [if_pos isH, isH, SleepState.setLwp_self]
        rfl
      · rw [if_neg isH, SleepState.setLwp_other _ isH]
  have owned : (s.lwp h).place.owns = true := by
    rw [holding]
    rfl
  have owner : ∀ a, (if a = u then Place.unlockSpinTest
          else if a = h then .idle else (s.lwp a).place).owns = true →
          a = u := by
    intro a owns
    by_contra notU
    rw [if_neg notU] at owns
    split at owns
    case isTrue => cases owns
    case isFalse notH => exact notH (order.exclusive a h owns owned)
  have same : ∀ class' : Place → Bool, class' .idle = false → class' .holding = false →
      class' .unlockSpinTest = false → ∀ a, class' (if a = u then Place.unlockSpinTest
          else if a = h then .idle else (s.lwp a).place) =
          class' (s.lwp a).place := by
    intro class' ofIdle ofHolding ofUnlock a
    split
    case isTrue isU => rw [isU, atIdle, ofUnlock, ofIdle]
    case isFalse =>
      split
      case isTrue isH => rw [isH, holding, ofHolding, ofIdle]
      case isFalse => rfl
  constructor
  all_goals
    simp only [places, SleepState.setLwp_lock, same Place.spins rfl rfl rfl,
      same Place.commits rfl rfl rfl, same Place.watches rfl rfl rfl,
      same Place.drained rfl rfl rfl]
  · intro a b first second
    rw [owner a first, owner b second]
  · intro isAvailable a
    exact absurd (order.available isAvailable h) (by simp [owned])
  · exact order.spinning
  · exact order.drained
  · exact order.watched

theorem goOn (taken : Ksynch.goOn s l outcome = some s') :
    SleepOrder s' := by
  unfold Ksynch.goOn at taken
  split at taken
  case h_1 target chain atWakeup =>
    obtain ⟨-, ⟨⟩⟩ := ite_none_right_eq_some.1 taken
    refine @localStep _ _ l order ?_ fun a other => ?_
    · rw [SleepState.setLwp_self, SleepState.setLwp_lock, SleepState.lwpWakeup_lock]
      exact .quiet atWakeup rfl rfl rfl rfl rfl rfl (.inl rfl) (.inl rfl)
    · rw [SleepState.setLwp_other _ other]
      exact SleepState.lwpWakeup_unmoved target a
  case h_2 target dequeued atUnspin =>
    cases taken
    refine @localStep _ _ l order ?_ fun a other => ?_
    · rw [SleepState.setLwp_self, SleepState.setLwp_lock]
      exact .underSpin atUnspin rfl rfl rfl (.inr ⟨rfl, rfl⟩) rfl rfl rfl .inl
    · rw [SleepState.setLwp_other _ other]
      exact @SleepState.unsleep_unmoved { s with lock := s.lock.unspin } target a dequeued
  case h_3 =>
    obtain ⟨next, went, rfl⟩ := Option.map_eq_some_iff.mp taken
    refine @localStep _ _ l order ?_ fun a other => ?_
    · rw [SleepState.apply, SleepState.setLwp_self]
      exact .of_localNext went
    · rw [SleepState.apply, SleepState.setLwp_other _ other]
      exact .of_eq rfl

theorem step {action : SleepAction} (taken : sleepStep s action = some s') :
    SleepOrder s' := by
  cases action with
  | sleepLock l | sleepLockSig l | sleepTrylock l => exact order.call taken rfl rfl rfl rfl rfl
  | sleepUnlock u h =>
    simp only [sleepStep] at taken
    split at taken
    case isTrue => exact order.call taken rfl rfl rfl rfl rfl
    case isFalse different =>
      obtain ⟨holding, taken⟩ := ite_none_right_eq_some.1 taken
      exact order.handOver different holding taken
  | signal k target =>
    obtain ⟨-, taken⟩ := ite_none_right_eq_some.1 taken
    have marked : SleepOrder (s.setLwp target { s.lwp target with lMutex := some k }) :=
      order.setLwp rfl
    exact marked.call taken rfl rfl rfl rfl rfl
  | goOn l outcome => exact order.goOn taken

end

theorem sleepInit (slPlain : Bool) : SleepOrder (sleepInit slPlain) := by
  constructor <;> simp [Ksynch.sleepInit, Place.owns, Place.spins, Place.commits, Place.drained]

end SleepOrder

/-- Some LWP sees to it that a queued one comes to an available lock. -/
def Carried (s : SleepState) : Prop := s.lock.slAvail = true → s.lock.slList ≠ [] →
    ∃ u, (s.lwp u).carries = true

/-- Off the processor. -/
def Place.sleeps : Place → Bool
  | .asleep _ => true
  | _ => false

/-- The LWP that an unlock wakes in this step. -/
def Place.wakes : Place → Option Nat
  | .wakeup (target :: _) => some target
  | _ => none

/--
No LWP that was woken gives up before it has come to the lock again, and an
unlock only wakes LWPs that have left the processor.
-/
def keepsWakeups (s : SleepState) : SleepAction → Prop
  | .goOn l outcome =>
    ((s.lwp l).givesUp outcome → (s.lwp l).woken = false) ∧ ∀ target ∈ (s.lwp l).place.wakes,
        (s.lwp target).place.sleeps = true
  | _ => True

theorem Place.asleep_of_sleeps (sleeps : place.sleeps = true) :
    ∃ sig, place = .asleep sig := by
  cases place with
  | asleep sig => exact ⟨sig, rfl⟩
  | _ => cases sleeps

namespace Carried

variable {s s' : SleepState} {l : Nat}

theorem of_carriers (carried : Carried s) (avail : s'.lock.slAvail = s.lock.slAvail)
    (list : s'.lock.slList = s.lock.slList)
    (carriers : ∀ u, (s.lwp u).carries = true → ∃ u, (s'.lwp u).carries = true) :
    Carried s' := by
  intro isAvailable queued
  rw [avail] at isAvailable
  rw [list] at queued
  obtain ⟨u, carries⟩ := carried isAvailable queued
  exact carriers u carries

theorem setLwp {next : SleepLwp} (carried : Carried s) (nothing : (s.lwp l).carries = false) :
    Carried (s.setLwp l next) := by
  refine carried.of_carriers rfl rfl fun u carries => ⟨u, ?_⟩
  have other : u ≠ l := by
    intro same
    rw [same, nothing] at carries
    cases carries
  rw [SleepState.setLwp_other _ other]
  exact carries

theorem nothing_at {me : SleepLwp} {here : Place} (atHere : me.place = here)
    (serves : here.serves = false) (retries : here.retries = false) :
    me.carries = false := by
  rw [SleepLwp.carries_at atHere, serves, retries, Bool.and_false, Bool.or_false]

theorem call {caller place : Place} (carried : Carried s)
    (taken : Ksynch.call s l caller place = some s') (serves : caller.serves = false)
    (retries : caller.retries = false) :
    Carried s' := by
  obtain ⟨atCaller, ⟨⟩⟩ := ite_none_right_eq_some.1 taken
  exact carried.setLwp (nothing_at atCaller serves retries)

theorem unsleep_carries {target u : Nat} {dequeued : Bool} :
    ((s.unsleep target dequeued).lwp u).carries = (s.lwp u).carries := by
  unfold SleepState.unsleep
  by_cases isTarget : u = target
  · subst u
    rw [SleepState.setLwp_self]
    cases atPlace : (s.lwp target).place with
    | asleep sig =>
      rw [nothing_at atPlace rfl rfl]
      cases sig with
      | false => exact nothing_at rfl rfl rfl
      | true =>
        cases dequeued with
        | false | true => exact nothing_at rfl rfl rfl
    | _ => simp [SleepLwp.carries, atPlace]
  · rw [SleepState.setLwp_other _ isTarget]

theorem unsleep (carried : Carried s) (target : Nat) (dequeued : Bool) :
    Carried (s.unsleep target dequeued) :=
  carried.of_carriers rfl rfl fun u carries => ⟨u, unsleep_carries.trans carries⟩

theorem localStep {next : SleepLock × SleepLwp} (carried : Carried s)
    (order : SleepOrder s) (stays : (s.lwp l).givesUp outcome → (s.lwp l).woken = false)
    (taken : localNext s.lock l (s.lwp l) outcome = some next) :
    Carried (s.apply l next) := by
  have step := LocalStep.of_localNext taken
  intro isAvailable queued
  have own : (s.apply l next).lwp l = next.2 := SleepState.setLwp_self _
  have rest : ∀ u, u ≠ l → (s.apply l next).lwp u = s.lwp u :=
    fun u other => SleepState.setLwp_other _ other
  cases wasAvailable : s.lock.slAvail with
  | false =>
    refine ⟨l, ?_⟩
    rw [own]
    exact carries_of_serves (step.serves (order.drained l) wasAvailable isAvailable queued)
  | true =>
    by_cases wasEmpty : s.lock.slList = []
    · -- the LWP enters the queue, and an unlock watches it
      obtain empty | commits := step.insque wasEmpty
      · exact absurd empty queued
      · obtain ⟨u, watches⟩ := order.watched wasAvailable l commits
        have other : u ≠ l := by
          intro same
          rw [same] at watches
          exact Place.not_watches_of_commits commits watches
        refine ⟨u, ?_⟩
        rw [rest u other]
        exact carries_of_serves (Place.serves_of_watches watches)
    · obtain ⟨u, carries⟩ := carried wasAvailable wasEmpty
      by_cases isL : u = l
      · subst u
        refine ⟨l, ?_⟩
        rw [own]
        exact carries_localNext taken stays carries isAvailable queued
      · refine ⟨u, ?_⟩
        rw [rest u isL]
        exact carries

theorem goOn (carried : Carried s) (order : SleepOrder s)
    (guarded : keepsWakeups s (.goOn l outcome)) (taken : Ksynch.goOn s l outcome = some s') :
    Carried s' := by
  unfold Ksynch.goOn at taken
  split at taken
  case h_1 target chain atWakeup =>
    obtain ⟨-, ⟨⟩⟩ := ite_none_right_eq_some.1 taken
    have sleeps := guarded.2 target (by rw [atWakeup]; rfl)
    obtain ⟨sig, asleep⟩ := Place.asleep_of_sleeps sleeps
    -- the wakeup passes to the LWP that is woken
    refine carried.of_carriers (by simp) (by simp) fun _ _ => ⟨target, ?_⟩
    have other : target ≠ l := by
      intro same
      rw [same, atWakeup] at asleep
      cases asleep
    rw [SleepState.setLwp_other _ other]
    unfold SleepState.lwpWakeup
    rw [asleep]
    simp only [SleepState.setLwp_self]
    refine carries_of_woken rfl ?_
    cases sig <;> rfl
  case h_2 target dequeued atUnspin =>
    cases taken
    have released : Carried { s with lock := s.lock.unspin } := carried
    refine (released.unsleep target dequeued).setLwp ?_
    rw [unsleep_carries]
    exact nothing_at atUnspin rfl rfl
  case h_3 =>
    obtain ⟨next, went, rfl⟩ := Option.map_eq_some_iff.mp taken
    exact carried.localStep order guarded.1 went

theorem step {action : SleepAction} (carried : Carried s) (order : SleepOrder s)
    (guarded : keepsWakeups s action) (taken : sleepStep s action = some s') :
    Carried s' := by
  cases action with
  | sleepLock l | sleepLockSig l | sleepTrylock l => exact carried.call taken rfl rfl
  | sleepUnlock u h =>
    simp only [sleepStep] at taken
    split at taken
    case isTrue => exact carried.call taken rfl rfl
    case isFalse different =>
      obtain ⟨holding, taken⟩ := ite_none_right_eq_some.1 taken
      have dropped : Carried (s.setLwp h ((s.lwp h).leave .idle)) :=
        carried.setLwp (nothing_at holding rfl rfl)
      exact dropped.call taken rfl rfl
  | signal k target =>
    obtain ⟨sleeps, taken⟩ := ite_none_right_eq_some.1 taken
    have marked : Carried (s.setLwp target { s.lwp target with lMutex := some k }) :=
      carried.setLwp (nothing_at sleeps.1 rfl rfl)
    exact marked.call taken rfl rfl
  | goOn l outcome => exact carried.goOn order guarded taken

end Carried

/-- A step of the LWPs. -/
def SleepStep (before : SleepState) (action : SleepAction) (after : SleepState) : Prop :=
  sleepStep before action = some after

/--
One LWP holds the lock; and when the lock is available, no LWP is on its way
through an unlock and none that was woken is on its way to the lock, then none
sleeps on the queue.
-/
structure SleepWell (s : SleepState) : Prop where
  holder : ∀ a b, (s.lwp a).place.owns = true → (s.lwp b).place.owns = true → a = b
  awake : s.lock.slAvail = true → (∀ u, (s.lwp u).place.unlocks = false ∧ (s.lwp u).woken = false) →
      s.lock.slList = []

theorem unlocks_or_woken_of_carries {me : SleepLwp} (carries : me.carries = true) :
    me.place.unlocks = true ∨ me.woken = true := by
  rw [SleepLwp.carries, Bool.or_eq_true, Bool.and_eq_true] at carries
  obtain serves | ⟨woken, -⟩ := carries
  · left
    revert serves
    cases me.place <;> intro serves <;> first | rfl | exact Bool.noConfusion serves
  · exact .inr woken

theorem sleepWell_of_run {slPlain : Bool} {actions : List SleepAction} {final : SleepState} (run :
    Run (Guarded SleepStep keepsWakeups) (sleepInit slPlain) actions final) :
    SleepWell final := by
  have start : SleepOrder (sleepInit slPlain) ∧ Carried (sleepInit slPlain) :=
    ⟨.sleepInit slPlain, fun _ queued => absurd rfl queued⟩
  have preserved : ∀ (before : SleepState) action after, SleepOrder before ∧ Carried before →
      Guarded SleepStep keepsWakeups before action after →
      SleepOrder after ∧ Carried after := by
    rintro before action after ⟨order, carried⟩ ⟨taken, guarded⟩
    exact ⟨order.step taken, carried.step order guarded taken⟩
  obtain ⟨order, carried⟩ := run.invariant preserved start
  refine ⟨order.exclusive, fun isAvailable quiet => ?_⟩
  by_contra queued
  obtain ⟨u, carries⟩ := carried isAvailable queued
  obtain unlocks | woken := unlocks_or_woken_of_carries carries
  · exact absurd unlocks (by simp [(quiet u).1])
  · exact absurd woken (by simp [(quiet u).2])

instance (me : SleepLwp) (outcome : Outcome) : Decidable (me.givesUp outcome) :=
  inferInstanceAs (Decidable (_ ∧ _))

instance (s : SleepState) (action : SleepAction) : Decidable (keepsWakeups s action) :=
  match action with
  | .goOn _ _ => inferInstanceAs (Decidable ((_ → _) ∧ _))
  | .sleepLock _ | .sleepLockSig _ | .sleepTrylock _ | .sleepUnlock _ _
  | .signal _ _ => isTrue trivial

def guardedStep (s : SleepState) (action : SleepAction) : Option SleepState :=
  if keepsWakeups s action then sleepStep s action else none

theorem guarded_of_guardedStep (before : SleepState) (action : SleepAction) (after : SleepState)
    (taken : guardedStep before action = some after) :
    Guarded SleepStep keepsWakeups before action after := by
  obtain ⟨guarded, taken⟩ := ite_none_right_eq_some.1 taken
  exact ⟨taken, guarded⟩

/-- An LWP goes on and nothing happens to it. -/
def goOnQuietly (l : Nat) : SleepAction := .goOn l ⟨1, true, .none, false⟩

/-- LWP 0 gets the lock. -/
def holdFirst : List SleepAction := .sleepLock 0 :: replicate 5 (goOnQuietly 0)

def sleepSignalled : List SleepAction := .sleepLockSig 1 :: replicate 8 (goOnQuietly 1)

def sleepSecond : List SleepAction := .sleepLock 2 :: replicate 9 (goOnQuietly 2)

/-- LWP 1 is woken by an unlock and gets the lock. -/
def wokenFirst : List SleepAction := holdFirst ++ sleepSignalled ++ sleepSecond ++
    (.sleepUnlock 0 0 :: replicate 10 (goOnQuietly 0)) ++
    replicate 8 (goOnQuietly 1)

theorem sleepWell_of_run_wokenFirst : ∃ final,
    run? guardedStep (sleepInit true) wokenFirst = some final ∧
      (final.lwp 1).place = .holding ∧ final.lock.slList = [2] ∧
      SleepWell final := by
  have accepted : (run? guardedStep (sleepInit true) wokenFirst).isSome = true := by decide
  have executed := (some_get accepted).symm
  refine ⟨_, executed, rfl, rfl, ?_⟩
  exact sleepWell_of_run ((Run.of_run? executed).mono guarded_of_guardedStep)

/-- LWP 1 is woken by an unlock, sends `SIGWAITING` and gives up. -/
def givenUp : List SleepAction := holdFirst ++ sleepSignalled ++ sleepSecond ++
    (.sleepUnlock 0 0 :: replicate 10 (goOnQuietly 0)) ++
    [goOnQuietly 1, .goOn 1 ⟨0, true, .none, true⟩, .goOn 1 ⟨0, true, .signalled, false⟩]

/--
LWP 1 races with an unlock, sleeps without `l_mutex` and is woken by the next
unlock before it leaves the processor.
-/
def wokenEarly : List SleepAction :=
  holdFirst ++ (.sleepLockSig 1 :: replicate 3 (goOnQuietly 1)) ++
    (.sleepUnlock 0 0 :: replicate 5 (goOnQuietly 0)) ++
    replicate 3 (goOnQuietly 1) ++ replicate 3 (goOnQuietly 0) ++
    (.sleepTrylock 0 :: replicate 4 (goOnQuietly 0)) ++
    replicate 6 (goOnQuietly 1) ++ sleepSecond ++
    (.sleepUnlock 0 0 :: replicate 10 (goOnQuietly 0)) ++
    [goOnQuietly 1]

theorem sleepsForever {actions : List SleepAction}
    (accepted : (run? sleepStep (sleepInit true) actions).isSome = true)
    (isAvailable : ((run? sleepStep (sleepInit true) actions).get accepted).lock.slAvail = true)
    (list : ((run? sleepStep (sleepInit true) actions).get accepted).lock.slList = [2])
    (quiet : ∀ u, (((run? sleepStep (sleepInit true) actions).get accepted).lwp
        u).place.unlocks = false ∧
        (((run? sleepStep (sleepInit true) actions).get accepted).lwp u).woken = false) :
    ∃ final, Run SleepStep (sleepInit true) actions final ∧
        final.lock.slAvail = true ∧ final.lock.slList = [2] ∧
        ¬ SleepWell final := by
  refine ⟨_, Run.of_run? (some_get accepted).symm, isAvailable, list, ?_⟩
  intro well
  have empty := well.awake isAvailable quiet
  rw [list] at empty
  cases empty

theorem sleepWell_fails : (∃ final, Run SleepStep (sleepInit true) givenUp final ∧
    final.lock.slAvail = true ∧ final.lock.slList = [2] ∧
    ¬ SleepWell final) ∧
    ∃ final, Run SleepStep (sleepInit true) wokenEarly final ∧
        final.lock.slAvail = true ∧ final.lock.slList = [2] ∧
        ¬ SleepWell final := by
  constructor
  · refine sleepsForever (by decide) (by decide) (by decide) fun u => ?_
    match u with
    | 0 | 1 | 2 => decide
    | u + 3 => exact ⟨rfl, rfl⟩
  · refine sleepsForever (by decide) (by decide) (by decide) fun u => ?_
    match u with
    | 0 | 1 | 2 => decide
    | u + 3 => exact ⟨rfl, rfl⟩

end Uw7.Ksynch
