import Uw7.Lib.Custody
import Uw7.Lib.Run

namespace Uw7.Ksynch

/-!
# Sleep locks for readers and writers, with an entry lock

`rwsleep_rdlock_rellock` and `rwsleep_wrlock_rellock` from `util/rwsleep.c`, as steps of
one LWP.  A step is one access to a field of the lock, or to one of the spin locks; the
other LWPs change the fields between the steps in any way.  Each hold of the entry lock
`lkp` has a number: the caller has taken the first one, and a sleep is followed by another.

The statistics of the lock are left out.
-/

open Lib List Nat Option

def plBase : Nat := 0

def plHi : Nat := 8

inductive RwMode where
  | unlocked
  | read
  | write
  | busy
  deriving DecidableEq

/-- What the routines read and write of a `rwsleep_t`. -/
structure RwSleep where
  rwAvail : Bool
  /-- `FSPIN_IS_LOCKED`. -/
  rwFspin : Bool
  rwMode : RwMode
  rwRead : Int
  rwPend : Int
  /-- The LWPs on `rw_list`, from `rw_head` on. -/
  rwList : List Nat
  /-- `rw_lkstatp` is null. -/
  rwPlain : Bool
  deriving DecidableEq

/-- Where the LWP is; each place is named by the access that comes next. -/
inductive RwPlace where
  /-- The fast path. -/
  | fastAvail
  | fastTake
  | fastBusy
  | fastMode
  /-- `UNLOCK(lkp, PLBASE)` of the fast path. -/
  | fastUnlock
  /-- The condition of the loop. -/
  | loopAvail
  | loopTake
  /-- A reader: the lock may be in read mode. -/
  | readMode
  | readSpin
  | readInc
  | readAvail
  | readRemode
  | readPend
  | readUnspin
  | readUnlock
  | readDec
  | readUndo
  /-- `LOCK(&lwpp->l_mutex, PLHI)`. -/
  | lockMutex
  | lockSpin
  /-- The check for a race with an unlock, under `rw_fspin`. -/
  | raceAvail
  | raceTake
  /-- A reader that has taken the lock there. -/
  | raceBusy
  | raceSet
  | racePend
  | raceUnspin
  | raceMutex
  | raceUnlock
  /-- A reader: the lock may be in read mode, under `rw_fspin`. -/
  | raceMode
  | raceInc
  | raceReavail
  | raceRemode
  | raceDec
  /-- A writer that has taken the lock there. -/
  | wrUnspin
  | wrMutex
  | insque
  | unspin
  /-- `UNLOCK(lkp, PLHI)`, before `swtch`. -/
  | entryUnlock
  | swtch
  | asleep
  /-- `LOCK(lkp, PLHI)`, behind `swtch`. -/
  | entryLock
  /-- Behind the loop. -/
  | gotBusy
  | gotMode
  | gotSpin
  | gotPend
  | gotUnspin
  | gotUnlock
  | returned
  deriving DecidableEq

/-- The LWP in the routine. -/
structure RwLwp where
  lwp : Nat
  /-- The routine is the one for a writer. -/
  write : Bool
  place : RwPlace
  nsleeps : Nat
  /-- It has its `l_mutex`. -/
  lMutex : Bool
  /-- Its interrupt priority level. -/
  ipl : Nat
  /-- The level at which `lkp` is held, when it is. -/
  entry : Option Nat
  /-- The holds of `lkp` so far, and what was done with it. -/
  holds : Nat
  log : List (Transfer Nat)
  deriving DecidableEq

namespace RwLwp

/-- The LWP goes on to a place. -/
def goTo (me : RwLwp) (place : RwPlace) : RwLwp := { me with place := place }

/-- `LOCK(&lwpp->l_mutex, PLHI)`. -/
def lockMutex (me : RwLwp) : RwLwp := { me with lMutex := true, ipl := plHi }

def unlockMutex (me : RwLwp) (pl : Nat) : RwLwp := { me with lMutex := false, ipl := pl }

/-- `UNLOCK(lkp, pl)`. -/
def unlockEntry (me : RwLwp) (pl : Nat) : RwLwp :=
  { me with
    ipl := pl
    entry := none
    log := me.log ++ [.giveBack (me.holds - 1)] }

/-- `LOCK(lkp, PLHI)`. -/
def lockEntry (me : RwLwp) : RwLwp :=
  { me with
    ipl := plHi
    entry := some plHi
    holds := me.holds + 1
    log := me.log ++ [.take me.holds] }

/-- `swtch`, which releases `l_mutex` and returns at `PLBASE`. -/
def swtch (me : RwLwp) : RwLwp :=
  { me with
    nsleeps := me.nsleeps + 1
    lMutex := false
    ipl := plBase }

end RwLwp

namespace RwSleep

def test (lock : RwSleep) (me : RwLwp) (yes no : RwPlace) : RwSleep × RwLwp :=
  (lock, me.goTo (if lock.rwAvail then yes else no))

def rwsleepTake (lock : RwSleep) (me : RwLwp) (yes no : RwPlace) : RwSleep × RwLwp :=
  ({ lock with rwAvail := false }, me.goTo (if lock.rwAvail then yes else no))

def testRead (lock : RwSleep) (me : RwLwp) (yes no : RwPlace) : RwSleep × RwLwp :=
  (lock, me.goTo (if lock.rwMode = .read then yes else no))

/-- The loop while the lock is in the transient mode. -/
def waitBusy (lock : RwSleep) (me : RwLwp) (place : RwPlace) : Option (RwSleep × RwLwp) :=
  if lock.rwMode = .busy then none else some (lock, me.goTo place)

def setMode (lock : RwSleep) (write : Bool) : RwSleep :=
  { lock with rwMode := if write then .write else .read }

def spin (lock : RwSleep) (me : RwLwp) (place : RwPlace) : Option (RwSleep × RwLwp) :=
  if lock.rwFspin then none
  else some ({ lock with rwFspin := true }, me.goTo place)

def unspin (lock : RwSleep) : RwSleep := { lock with rwFspin := false }

def addRead (lock : RwSleep) (change : Int) : RwSleep :=
  { lock with rwRead := lock.rwRead + change }

/-- The LWP is not pending any more. -/
def notPending (lock : RwSleep) (me : RwLwp) : RwSleep :=
  { lock with rwPend := lock.rwPend - me.nsleeps }

/-- `CL_INSQUE`, or `insque` at the head for an LWP that has slept before. -/
def insque (lock : RwSleep) (me : RwLwp) (position : Nat) : RwSleep :=
  { lock with
    rwList :=
      if me.nsleeps = 0 then
        lock.rwList.insertIdx (min position lock.rwList.length) me.lwp
      else me.lwp :: lock.rwList }

end RwSleep

/-- The fast path, and the condition of the loop. -/
def tryNext (lock : RwSleep) (me : RwLwp) : Option (RwSleep × RwLwp) :=
  let notTaken : RwPlace := if me.write then .lockMutex else .readMode
  match me.place with
  | .fastAvail =>
    some (lock, me.goTo (if lock.rwPlain && lock.rwAvail then .fastTake
            else .loopAvail))
  | .fastTake => some (lock.rwsleepTake me .fastBusy .loopAvail)
  | .fastBusy => lock.waitBusy me .fastMode
  | .fastMode => some (lock.setMode me.write, me.goTo .fastUnlock)
  | .fastUnlock => some (lock, (me.unlockEntry plBase).goTo .returned)
  | .loopAvail => some (lock.test me .loopTake notTaken)
  | .loopTake => some (lock.rwsleepTake me .gotBusy notTaken)
  | _ => none

def readNext (lock : RwSleep) (me : RwLwp) : Option (RwSleep × RwLwp) :=
  match me.place with
  | .readMode => some (lock.testRead me .readSpin .lockMutex)
  | .readSpin => lock.spin me .readInc
  | .readInc => some (lock.addRead 1, me.goTo .readAvail)
  | .readAvail => some (lock.test me .readDec .readRemode)
  | .readRemode => some (lock.testRead me .readPend .readDec)
  | .readPend => some (lock.notPending me, me.goTo .readUnspin)
  | .readUnspin => some (lock.unspin, me.goTo .readUnlock)
  | .readUnlock => some (lock, (me.unlockEntry plBase).goTo .returned)
  | .readDec => some (lock.addRead (-1), me.goTo .readUndo)
  | .readUndo => some (lock.unspin, me.goTo .lockMutex)
  | _ => none

/-- The check for a race with an unlock. -/
def raceNext (lock : RwSleep) (me : RwLwp) : Option (RwSleep × RwLwp) :=
  let taken : RwPlace := if me.write then .wrUnspin else .raceBusy
  let notTaken : RwPlace := if me.write then .insque else .raceMode
  match me.place with
  | .lockMutex => some (lock, me.lockMutex.goTo .lockSpin)
  | .lockSpin => lock.spin me .raceAvail
  | .raceAvail => some (lock.test me .raceTake notTaken)
  | .raceTake => some (lock.rwsleepTake me taken notTaken)
  | .raceBusy => lock.waitBusy me .raceSet
  | .raceSet => some (lock.setMode false, me.goTo .racePend)
  | .racePend => some (lock.notPending me, me.goTo .raceUnspin)
  | .raceUnspin => some (lock.unspin, me.goTo .raceMutex)
  | .raceMutex => some (lock, (me.unlockMutex plHi).goTo .raceUnlock)
  | .raceUnlock => some (lock, (me.unlockEntry plBase).goTo .returned)
  | .raceMode => some (lock.testRead me .raceInc .insque)
  | .raceInc => some (lock.addRead 1, me.goTo .raceReavail)
  | .raceReavail => some (lock.test me .raceDec .raceRemode)
  | .raceRemode => some (lock.testRead me .racePend .raceDec)
  | .raceDec => some (lock.addRead (-1), me.goTo .insque)
  | .wrUnspin => some (lock.unspin, me.goTo .wrMutex)
  | .wrMutex => some (lock, (me.unlockMutex plBase).goTo .gotBusy)
  | _ => none

/-- The LWP goes to sleep, and comes back. -/
def sleepNext (lock : RwSleep) (me : RwLwp) (position : Nat) : Option (RwSleep × RwLwp) :=
  match me.place with
  | .insque => some (lock.insque me position, me.goTo .unspin)
  | .unspin => some (lock.unspin, me.goTo .entryUnlock)
  | .entryUnlock => some (lock, (me.unlockEntry plHi).goTo .swtch)
  | .swtch => some (lock, me.swtch.goTo .asleep)
  | .entryLock => some (lock, me.lockEntry.goTo .loopAvail)
  | _ => none

/-- Behind the loop. -/
def gotNext (lock : RwSleep) (me : RwLwp) : Option (RwSleep × RwLwp) :=
  match me.place with
  | .gotBusy => lock.waitBusy me .gotMode
  | .gotMode =>
    some (lock.setMode me.write, me.goTo (if me.write then .gotPend
            else if me.nsleeps > 0 || !lock.rwPlain then .gotSpin
            else .gotUnlock))
  | .gotSpin => lock.spin me .gotPend
  | .gotPend => some (lock.notPending me, me.goTo (if me.write then .gotUnlock else .gotUnspin))
  | .gotUnspin => some (lock.unspin, me.goTo .gotUnlock)
  | .gotUnlock => some (lock, (me.unlockEntry plBase).goTo .returned)
  | _ => none

/-- The LWP goes on. -/
def rellockNext (lock : RwSleep) (me : RwLwp) (position : Nat) : Option (RwSleep × RwLwp) :=
  (tryNext lock me).or ((readNext lock me).or ((raceNext lock me).or
      ((sleepNext lock me position).or (gotNext lock me))))

structure RellockState where
  lock : RwSleep
  me : RwLwp
  deriving DecidableEq

/-- A step. -/
inductive RellockAction where
  /-- The LWP goes on; `CL_INSQUE` puts it to a position. -/
  | goOn (position : Nat)
  /-- Other LWPs change the lock. -/
  | others (lock : RwSleep)
  /-- An unlock wakes the LWP. -/
  | wakeup
  deriving DecidableEq

def rellockStep (s : RellockState) : RellockAction → Option RellockState
  | .goOn position => (rellockNext s.lock s.me position).map fun next => ⟨next.1, next.2⟩
  | .others lock => some { s with lock := lock }
  | .wakeup =>
    if s.me.place = .asleep then
      some { s with me := s.me.goTo .entryLock }
    else none

/-- A call of one of the routines by an LWP that holds the entry lock at a level. -/
structure RellockCall where
  lock : RwSleep
  lwp : Nat
  write : Bool
  pl : Nat
  level : pl ≤ plHi

/-- The entry of the routine. -/
def RellockCall.enter (call : RellockCall) : RellockState where
  lock := call.lock
  me :=
    { lwp := call.lwp
      write := call.write
      place := .fastAvail
      nsleeps := 0
      lMutex := false
      ipl := call.pl
      entry := some call.pl
      holds := 1
      log := [.take 0] }

/--
The level is not below the one at which the entry lock is held, the entry lock is not
held in `swtch`, and each hold of it was released once when the routine returns.
-/
structure EntrySafe (s : RellockState) : Prop where
  level : ∀ pl, s.me.entry = some pl → pl ≤ s.me.ipl
  swtch : s.me.place = .swtch ∨ s.me.place = .asleep → s.me.entry = none
  returned : s.me.place = .returned → s.me.entry = none ∧ AllGivenBack s.me.log

def RwPlace.holdsEntry : RwPlace → Bool
  | .swtch | .asleep | .entryLock | .returned => false
  | _ => true

/-- What a step of the LWP does to its level and to the entry lock. -/
inductive EntryMove (me : RwLwp) : RwLwp → Prop where
  /-- It goes to a place where the entry lock is held as before. -/
  | stay {place : RwPlace} (same : place.holdsEntry = me.place.holdsEntry) :
      EntryMove me (me.goTo place)
  /-- `l_mutex` is taken, or released at `PLHI`. -/
  | raise {me' : RwLwp} (entry : me'.entry = me.entry) (holds : me'.holds = me.holds)
      (log : me'.log = me.log) (ipl : me'.ipl = plHi) (place : me.place.holdsEntry = true)
      (place' : me'.place.holdsEntry = true) : EntryMove me me'
  /-- A writer that has taken the lock in the check for a race releases `l_mutex`. -/
  | lower (place : me.place = .wrMutex) : EntryMove me ((me.unlockMutex plBase).goTo .gotBusy)
  /-- `lkp` is released. -/
  | release {pl : Nat} {place' : RwPlace} (place : me.place.holdsEntry = true)
      (notHeld : place'.holdsEntry = false) : EntryMove me ((me.unlockEntry pl).goTo place')
  /-- `swtch` is called. -/
  | sleep (place : me.place = .swtch) : EntryMove me (me.swtch.goTo .asleep)
  /-- `lkp` is taken again. -/
  | relock (place : me.place = .entryLock) : EntryMove me (me.lockEntry.goTo .loopAvail)

section Moves

variable {lock lock' : RwSleep} {me me' : RwLwp} {yes no place : RwPlace}

theorem EntryMove.branch {condition : Prop} [Decidable condition]
    (toYes : yes.holdsEntry = me.place.holdsEntry) (toNo : no.holdsEntry = me.place.holdsEntry) :
    EntryMove me (me.goTo (if condition then yes else no)) := by
  split
  · exact .stay toYes
  · exact .stay toNo

theorem waitBusy_move (stepped : lock.waitBusy me place = some (lock', me'))
    (same : place.holdsEntry = me.place.holdsEntry) : EntryMove me me' := by
  unfold RwSleep.waitBusy at stepped
  split at stepped
  · cases stepped
  · cases stepped
    exact .stay same

theorem spin_move (stepped : lock.spin me place = some (lock', me'))
    (same : place.holdsEntry = me.place.holdsEntry) : EntryMove me me' := by
  unfold RwSleep.spin at stepped
  split at stepped
  · cases stepped
  · cases stepped
    exact .stay same

theorem tryNext_move (stepped : tryNext lock me = some (lock', me')) : EntryMove me me' := by
  have notTaken : (if me.write then RwPlace.lockMutex
        else RwPlace.readMode).holdsEntry = true := by
    cases me.write <;> rfl
  unfold tryNext at stepped
  dsimp only at stepped
  split at stepped
  case h_1 atPlace | h_2 atPlace =>
    cases stepped
    exact .branch (by rw [atPlace]; rfl) (by rw [atPlace]; rfl)
  case h_3 atPlace => exact waitBusy_move stepped (by rw [atPlace]; rfl)
  case h_4 atPlace =>
    cases stepped
    exact .stay (by rw [atPlace]; rfl)
  case h_5 atPlace =>
    cases stepped
    exact .release (by rw [atPlace]; rfl) rfl
  case h_6 atPlace | h_7 atPlace =>
    cases stepped
    exact .branch (by rw [atPlace]; rfl) (by rw [atPlace, notTaken]; rfl)
  case h_8 => cases stepped

theorem readNext_move (stepped : readNext lock me = some (lock', me')) : EntryMove me me' := by
  unfold readNext at stepped
  split at stepped
  case h_1 atPlace | h_4 atPlace | h_5 atPlace =>
    cases stepped
    exact .branch (by rw [atPlace]; rfl) (by rw [atPlace]; rfl)
  case h_2 atPlace => exact spin_move stepped (by rw [atPlace]; rfl)
  case h_3 atPlace | h_6 atPlace | h_7 atPlace | h_9 atPlace | h_10 atPlace =>
    cases stepped
    exact .stay (by rw [atPlace]; rfl)
  case h_8 atPlace =>
    cases stepped
    exact .release (by rw [atPlace]; rfl) rfl
  case h_11 => cases stepped

theorem raceNext_move (stepped : raceNext lock me = some (lock', me')) : EntryMove me me' := by
  have taken : (if me.write then RwPlace.wrUnspin
        else RwPlace.raceBusy).holdsEntry = true := by
    cases me.write <;> rfl
  have notTaken : (if me.write then RwPlace.insque
        else RwPlace.raceMode).holdsEntry = true := by
    cases me.write <;> rfl
  unfold raceNext at stepped
  dsimp only at stepped
  split at stepped
  case h_1 atPlace | h_9 atPlace =>
    cases stepped
    exact .raise rfl rfl rfl rfl (by rw [atPlace]; rfl) rfl
  case h_2 atPlace => exact spin_move stepped (by rw [atPlace]; rfl)
  case h_3 atPlace =>
    cases stepped
    exact .branch (by rw [atPlace]; rfl) (by rw [atPlace, notTaken]; rfl)
  case h_4 atPlace =>
    cases stepped
    exact .branch (by rw [atPlace, taken]; rfl) (by rw [atPlace, notTaken]; rfl)
  case h_5 atPlace => exact waitBusy_move stepped (by rw [atPlace]; rfl)
  case h_6 atPlace | h_7 atPlace | h_8 atPlace | h_12 atPlace | h_15 atPlace | h_16 atPlace =>
    cases stepped
    exact .stay (by rw [atPlace]; rfl)
  case h_10 atPlace =>
    cases stepped
    exact .release (by rw [atPlace]; rfl) rfl
  case h_11 atPlace | h_13 atPlace | h_14 atPlace =>
    cases stepped
    exact .branch (by rw [atPlace]; rfl) (by rw [atPlace]; rfl)
  case h_17 atPlace =>
    cases stepped
    exact .lower atPlace
  case h_18 => cases stepped

theorem sleepNext_move {position : Nat} (stepped : sleepNext lock me position = some (lock', me')) :
    EntryMove me me' := by
  unfold sleepNext at stepped
  split at stepped
  case h_1 atPlace | h_2 atPlace =>
    cases stepped
    exact .stay (by rw [atPlace]; rfl)
  case h_3 atPlace =>
    cases stepped
    exact .release (by rw [atPlace]; rfl) rfl
  case h_4 atPlace =>
    cases stepped
    exact .sleep atPlace
  case h_5 atPlace =>
    cases stepped
    exact .relock atPlace
  case h_6 => cases stepped

theorem gotNext_move (stepped : gotNext lock me = some (lock', me')) : EntryMove me me' := by
  unfold gotNext at stepped
  split at stepped
  case h_1 atPlace => exact waitBusy_move stepped (by rw [atPlace]; rfl)
  case h_2 atPlace =>
    cases stepped
    refine .branch (by rw [atPlace]; rfl) ?_
    rw [atPlace]
    split <;> rfl
  case h_3 atPlace => exact spin_move stepped (by rw [atPlace]; rfl)
  case h_4 atPlace =>
    cases stepped
    exact .branch (by rw [atPlace]; rfl) (by rw [atPlace]; rfl)
  case h_5 atPlace =>
    cases stepped
    exact .stay (by rw [atPlace]; rfl)
  case h_6 atPlace =>
    cases stepped
    exact .release (by rw [atPlace]; rfl) rfl
  case h_7 => cases stepped

theorem rellockNext_move {position : Nat}
    (stepped : rellockNext lock me position = some (lock', me')) : EntryMove me me' := by
  simp only [rellockNext, or_eq_some_iff] at stepped
  rcases stepped with
    tries | ⟨-, reads | ⟨-, races | ⟨-, sleeps | ⟨-, got⟩⟩⟩⟩
  · exact tryNext_move tries
  · exact readNext_move reads
  · exact raceNext_move races
  · exact sleepNext_move sleeps
  · exact gotNext_move got

end Moves

/-- The last hold of the entry lock is the one that counts, at the places for it. -/
structure EntryHeld (me : RwLwp) : Prop where
  held : me.place.holdsEntry = true → ∃ pl, me.entry = some pl ∧ pl ≤ me.ipl ∧ pl ≤ plHi
  notHeld : me.place.holdsEntry = false → me.entry = none
  positive : 0 < me.holds
  numbered : ∀ hold, Transfer.take hold ∈ me.log → hold < me.holds
  custody : Custody me.log fun hold =>
      me.place.holdsEntry = true ∧ hold + 1 = me.holds

namespace EntryHeld

variable {me me' : RwLwp}

section

variable (entry : EntryHeld me)
include entry

theorem stay {place : RwPlace}
    (same : place.holdsEntry = me.place.holdsEntry) : EntryHeld (me.goTo place) where
  __ := entry
  held := fun atPlace => entry.held (same ▸ atPlace)
  notHeld := fun atPlace => entry.notHeld (same ▸ atPlace)
  custody := entry.custody.congr fun hold => by
    change place.holdsEntry = true ∧ _ ↔ _
    rw [same]
    rfl

theorem setIpl (place : me.place.holdsEntry = true)
    (place' : me'.place.holdsEntry = true) (sameEntry : me'.entry = me.entry)
    (sameHolds : me'.holds = me.holds) (sameLog : me'.log = me.log)
    (level : ∀ pl, me.entry = some pl → pl ≤ plHi → pl ≤ me'.ipl) : EntryHeld me' where
  held := by
    intro _
    obtain ⟨pl, isHeld, -, low⟩ := entry.held place
    exact ⟨pl, sameEntry.trans isHeld, level pl isHeld low, low⟩
  notHeld := by
    intro notHeld
    rw [place'] at notHeld
    cases notHeld
  positive := by
    rw [sameHolds]
    exact entry.positive
  numbered := by
    rw [sameHolds, sameLog]
    exact entry.numbered
  custody := by
    rw [sameHolds, sameLog]
    exact entry.custody.congr fun hold => by rw [place, place']

theorem release {pl : Nat} {place' : RwPlace}
    (place : me.place.holdsEntry = true) (notHeld : place'.holdsEntry = false) :
    EntryHeld ((me.unlockEntry pl).goTo place') where
  held := by
    intro atPlace
    rw [show ((me.unlockEntry pl).goTo place').place = place' from rfl, notHeld] at atPlace
    cases atPlace
  notHeld := fun _ => rfl
  positive := entry.positive
  numbered := by
    intro hold isTaken
    cases mem_append.mp isTaken with
    | inl before => exact entry.numbered hold before
    | inr isNew => cases mem_singleton.mp isNew
  custody := by
    have positive := entry.positive
    refine (entry.custody.giveBack ⟨place, Nat.sub_add_cancel positive⟩).congr fun hold => ?_
    constructor
    · rintro ⟨atPlace, -⟩
      rw [show ((me.unlockEntry pl).goTo place').place = place' from rfl, notHeld] at atPlace
      cases atPlace
    · rintro ⟨⟨-, isLast⟩, notLast⟩
      omega

theorem sleep (place : me.place = .swtch) :
    EntryHeld (me.swtch.goTo .asleep) where
  __ := entry
  held := fun atPlace => by cases atPlace
  notHeld := fun _ => entry.notHeld (by rw [place]; rfl)
  custody := entry.custody.congr fun hold => by
    rw [place]
    exact ⟨fun isHeld => absurd isHeld.1 Bool.false_ne_true,
      fun isHeld => absurd isHeld.1 Bool.false_ne_true⟩

theorem relock (place : me.place = .entryLock) :
    EntryHeld (me.lockEntry.goTo .loopAvail) where
  held := fun _ => ⟨plHi, rfl, Nat.le_refl _, Nat.le_refl _⟩
  notHeld := fun atPlace => by cases atPlace
  positive := succ_pos _
  numbered := by
    intro hold isTaken
    cases mem_append.mp isTaken with
    | inl before => exact lt_succ_of_lt (entry.numbered hold before)
    | inr isNew =>
      cases mem_singleton.mp isNew
      exact lt_succ_self _
  custody := by
    have fresh : Transfer.take me.holds ∉ me.log := fun isTaken =>
      Nat.lt_irrefl _ (entry.numbered _ isTaken)
    refine (entry.custody.take fresh).congr fun hold => ?_
    constructor
    · rintro ⟨-, isLast⟩
      exact .inr (succ.inj isLast)
    · rintro (⟨wasHeld, -⟩ | isLast)
      · rw [place] at wasHeld
        cases wasHeld
      · exact ⟨rfl, congrArg (· + 1) isLast⟩

theorem move (moved : EntryMove me me') (guard :
    me.place = .wrMutex → ∀ pl, me.entry = some pl → pl ≤ plBase) : EntryHeld me' := by
  cases moved with
  | stay same => exact entry.stay same
  | raise sameEntry holds log ipl place place' =>
    refine entry.setIpl place place' sameEntry holds log ?_
    intro pl _ low
    rw [ipl]
    exact low
  | lower place =>
    refine entry.setIpl (by rw [place]; rfl) rfl rfl rfl rfl ?_
    intro pl isHeld _
    exact guard place pl isHeld
  | release place notHeld => exact entry.release place notHeld
  | sleep place => exact entry.sleep place
  | relock place => exact entry.relock place

end

theorem safe {s : RellockState} (entry : EntryHeld s.me) : EntrySafe s := by
  have released : s.me.place.holdsEntry = false → s.me.entry = none ∧ AllGivenBack s.me.log := by
    intro notHeld
    refine ⟨entry.notHeld notHeld, entry.custody.allGivenBack ?_⟩
    rintro hold ⟨isHeld, -⟩
    rw [notHeld] at isHeld
    cases isHeld
  refine ⟨fun pl isHeld => ?_, fun sleeps => ?_, fun returns => ?_⟩
  · cases place : s.me.place.holdsEntry with
    | true =>
      obtain ⟨held, isHeld', level, -⟩ := entry.held place
      rw [isHeld] at isHeld'
      cases isHeld'
      exact level
    | false =>
      rw [entry.notHeld place] at isHeld
      cases isHeld
  · refine (released ?_).1
    rcases sleeps with atSwtch | isAsleep
    · rw [atSwtch]
      rfl
    · rw [isAsleep]
      rfl
  · refine released ?_
    rw [returns]
    rfl

end EntryHeld

theorem entryHeld_enter (call : RellockCall) : EntryHeld call.enter.me where
  held := fun _ => ⟨call.pl, rfl, Nat.le_refl _, call.level⟩
  notHeld := fun atPlace => by cases atPlace
  positive := Nat.one_pos
  numbered := by
    intro hold isTaken
    cases mem_singleton.mp isTaken
    exact Nat.one_pos
  custody := by
    refine (Custody.nil.take not_mem_nil).congr fun hold => ?_
    constructor
    · rintro ⟨-, isFirst⟩
      exact .inr (succ.inj isFirst)
    · rintro (none | isFirst)
      · exact none.elim
      · exact ⟨rfl, congrArg (· + 1) isFirst⟩

/--
The condition: a writer that has taken the lock in the check for a race does not hold the
entry lock above `PLBASE`.
-/
def RaceGuard (s : RellockState) : RellockAction → Prop
  | .goOn _ => s.me.place = .wrMutex → ∀ pl, s.me.entry = some pl → pl ≤ plBase
  | _ => True

theorem rellockStep_entryHeld {s s' : RellockState} {action : RellockAction}
    (entry : EntryHeld s.me) (stepped : rellockStep s action = some s')
    (guard : RaceGuard s action) : EntryHeld s'.me := by
  cases action with
  | goOn position =>
    obtain ⟨next, isNext, isAfter⟩ := Option.map_eq_some_iff.mp stepped
    rw [← isAfter]
    exact entry.move (rellockNext_move isNext) guard
  | others lock =>
    cases stepped
    exact entry
  | wakeup =>
    simp only [rellockStep] at stepped
    obtain ⟨isAsleep, ⟨⟩⟩ := ite_none_right_eq_some.1 stepped
    exact entry.stay (by rw [isAsleep]; rfl)

theorem raceGuard_of_safe {s s' : RellockState} {action : RellockAction}
    (stepped : rellockStep s action = some s') (safe : EntrySafe s') : RaceGuard s action := by
  cases action with
  | goOn position =>
    intro atMutex pl isHeld
    obtain ⟨next, isNext, isAfter⟩ := Option.map_eq_some_iff.mp stepped
    have lowered :
        next.2 = (s.me.unlockMutex plBase).goTo .gotBusy := by
      simp only [rellockNext, tryNext, readNext, raceNext, atMutex, none_or, some_or] at isNext
      rw [← some.inj isNext]
    rw [← isAfter] at safe
    have level := safe.level pl (by rw [lowered]; exact isHeld)
    rw [lowered] at level
    exact level
  | others lock => trivial
  | wakeup => trivial

/--
In a run of `rwsleep_rdlock_rellock` or `rwsleep_wrlock_rellock` every state has the entry
lock released in `swtch`, the level not below the one at which it is held, and at the
return every hold of it released once, if and only if no writer that has taken the lock
in the check for a race with an unlock holds the entry lock above `PLBASE`.
-/
theorem rellock_runs_safe_iff (call : RellockCall) (actions : List RellockAction)
    (s : RellockState) : Run (fun before action after =>
      rellockStep before action = some after ∧ EntrySafe after) call.enter actions s ↔
      Run (Guarded (fun before action after =>
        rellockStep before action = some after) RaceGuard)
        call.enter actions s := by
  constructor
  · exact Run.mono fun before action after taken => ⟨taken.1, raceGuard_of_safe taken.1 taken.2⟩
  · intro run
    have kept : EntryHeld s.me ∧ Run (fun before action after =>
        rellockStep before action = some after ∧ EntrySafe after) call.enter actions s := by
      induction run with
      | nil => exact ⟨entryHeld_enter call, .nil⟩
      | snoc earlier last ih =>
        have entry := rellockStep_entryHeld ih.1 last.1 last.2
        exact ⟨entry, .snoc ih.2 ⟨last.1, entry.safe⟩⟩
    exact kept.2

/-- The lock while another writer has it. -/
def writeLocked : RwSleep where
  rwAvail := false
  rwFspin := false
  rwMode := .write
  rwRead := 0
  rwPend := 0
  rwList := []
  rwPlain := true

/-- A writer comes with its entry lock held at `PLHI`. -/
def writerCall : RellockCall where
  lock := writeLocked
  lwp := 0
  write := true
  pl := plHi
  level := Nat.le_refl _

/-- The lock is released while the writer has `rw_fspin`. -/
def unlockInRace : List RellockAction := [.goOn 0, .goOn 0, .goOn 0, .goOn 0, .others
    { writeLocked with
      rwAvail := true
      rwFspin := true
      rwMode := .unlocked },
    .goOn 0, .goOn 0, .goOn 0, .goOn 0]

theorem wrlock_rellock_lowers : ¬∀ (call : RellockCall) (actions : List RellockAction)
    (s : RellockState), Run (fun before action after =>
      rellockStep before action = some after)
      call.enter actions s →
    EntrySafe s := by
  intro allSafe
  obtain ⟨s, accepted, isHeld, isLow⟩ :
    ∃ s, run? rellockStep writerCall.enter unlockInRace = some s ∧
      s.me.entry = some plHi ∧ s.me.ipl = plBase :=
    ⟨_, rfl, rfl, rfl⟩
  have level := (allSafe writerCall _ s (.of_run? accepted)).level _ isHeld
  rw [isLow] at level
  exact absurd level (by decide)

end Uw7.Ksynch
