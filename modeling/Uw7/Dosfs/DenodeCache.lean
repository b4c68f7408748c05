import Uw7.Dosfs.Denode
import Uw7.Dosfs.DenodeTable

namespace Uw7.Dosfs.DenodeCache

/-!
# The cache of denodes

`deget`, `deput`, `reinsert` and `dosfs_inactive` from
`fs/dosfs/dosfs_denode.c`, and what `dosfs_remove` and `dosfs_rename` do to a
denode, as steps of LWPs.  A section under the mutex of the denode table or of
a vnode is one step, and so is what an LWP does between two of them under the
lock of a denode.

`dosfs_doinit` needs a denode.  Of a sleep lock the model has the owner and the
LWPs that wait for it, on the queue or woken; who gets it next is open.  The
references that the rest of the kernel holds on a vnode are counted.
-/

open Lib Function

def slotEmpty : Nat := 0x00

def slotDeleted : Nat := 0xe5

def isDirectory (attributes : Nat) : Bool := attributes &&& attrDirectory != 0

/-- What the cache reads of a `dosdirent_t`. -/
structure DirEntry where
  deName0 : Nat
  deAttributes : Nat
  deStartCluster : Nat

/--
The arguments of `deget`.  Every caller that has the directory entry takes
`isadir` and `startclust` from it.
-/
structure DegetRequest where
  vfsp : Nat
  isadir : Bool
  dirclust : Nat
  diroffset : Nat
  startclust : Nat
  direntp : Option DirEntry
  agrees : ∀ entry, direntp = some entry → isDirectory entry.deAttributes = isadir ∧
      (isadir = true → entry.deStartCluster = startclust)

/-- The local variables of `deget`. -/
structure DegetFrame where
  request : DegetRequest
  direntp : Option DirEntry
  count : Nat

/-- What `deget` returns. -/
inductive DegetResult (ndenode : Nat) where
  | found (ldep : Fin ndenode)
  | enoent
  | enfile

/-- A denode and its vnode, without the links. -/
structure CacheDenode where
  /-- The owner of `de_lock`. -/
  deLock : Option Nat
  /-- The LWPs that wait for `de_lock`. -/
  waiters : List Nat
  /-- `DEREF` of `de_flag`. -/
  deref : Bool
  deDev : Nat
  deDirclust : Nat
  deDiroffset : Nat
  deRefcnt : Int
  deVfs : Nat
  deName0 : Nat
  deAttributes : Nat
  deStartCluster : Nat
  vCount : Nat
  vVfsp : Option Nat

def CacheDenode.isadir (dp : CacheDenode) : Bool := isDirectory dp.deAttributes

/-- The places of `dosfs_inactive` an LWP may be at. -/
inductive InactivePhase where
  /-- Before `DE_LOCK`. -/
  | entering
  /-- In `DE_LOCK`. -/
  | blocked
  /-- Before the reference count is examined. -/
  | counting
  /-- Before the table is locked, with a count of zero. -/
  | draining
  /-- Behind the insertion into the free list. -/
  | writing
  /-- Before `DE_UNLOCK`. -/
  | leaving
  deriving DecidableEq

inductive CacheLwp (ndenode : Nat) where
  /-- Outside the cache; it may own locks of denodes. -/
  | idle
  /-- At `loop` in `deget`, before the table is locked. -/
  | loop (frame : DegetFrame)
  /-- In `dnlc_purge_vfsp`, called by `deget`. -/
  | purging (frame : DegetFrame)
  /-- In `SLEEP_LOCK_RELLOCK`, called by `deget`. -/
  | waiting (request : DegetRequest) (ldep : Fin ndenode)
  /-- Before `VN_HOLD` in `deget`. -/
  | locked (request : DegetRequest) (ldep : Fin ndenode)
  /-- In `deget`, behind the section that took a denode. -/
  | filling (frame : DegetFrame) (ldep : Fin ndenode)
  /-- `deget` returns. -/
  | done (request : DegetRequest) (result : DegetResult ndenode)
  /-- In `DE_LOCK`, called from outside the cache. -/
  | deLock (dep : Fin ndenode)
  /-- Before `reinsert`. -/
  | reinserting (dep : Fin ndenode)
  /-- In `dosfs_inactive`, called from outside the cache or by `deget`. -/
  | inactive (dep : Fin ndenode) (phase : InactivePhase) (back : Option DegetFrame)

/-- The denodes, their lists, the LWPs and the references held elsewhere. -/
structure CacheState (ndenode : Nat) where
  denode : Fin ndenode → CacheDenode
  free : FreeList ndenode
  hash : HashChains ndenode
  /-- The owner of `dosfs_denode_table_mutex`, between two steps. -/
  tableMutex : Option Nat
  lwp : Nat → CacheLwp ndenode
  holds : Fin ndenode → Nat

variable {ndenode : Nat}

namespace CacheState

/-- A denode is assigned to. -/
def setDenode (s : CacheState ndenode) (dp : Fin ndenode)
    (change : CacheDenode → CacheDenode) : CacheState ndenode :=
  { s with denode := update s.denode dp (change (s.denode dp)) }

/-- An LWP goes on. -/
def setLwp (s : CacheState ndenode) (l : Nat) (next : CacheLwp ndenode) : CacheState ndenode :=
  { s with lwp := update s.lwp l next }

/-- The number of references held elsewhere is changed. -/
def setHolds (s : CacheState ndenode) (dp : Fin ndenode) (count : Nat) : CacheState ndenode :=
  { s with holds := update s.holds dp count }

def lockOrWait (s : CacheState ndenode) (l : Nat) (dp : Fin ndenode)
    (got blocked : CacheLwp ndenode) : CacheState ndenode :=
  if (s.denode dp).deLock.isNone then
    (s.setDenode dp fun d => { d with deLock := some l }).setLwp l got
  else
    (s.setDenode dp fun d => { d with waiters := d.waiters ++ [l] }).setLwp l blocked

/-- An LWP that waits for the lock of a denode gets it, once it is available. -/
def acquire (s : CacheState ndenode) (l : Nat) (dp : Fin ndenode)
    (got : CacheLwp ndenode) : Option (CacheState ndenode) :=
  if (s.denode dp).deLock.isNone then
    some ((s.setDenode dp fun d =>
        { d with deLock := some l, waiters := d.waiters.erase l }).setLwp l got)
  else
    none

def unlock (s : CacheState ndenode) (dp : Fin ndenode) : CacheState ndenode :=
  s.setDenode dp fun d => { d with deLock := none }

end CacheState

/-- The argument of `DEHASH` for a file. -/
def fileNumber (dirclust diroffset : Nat) : Nat := (dirclust + diroffset) % 2 ^ 32

def DegetRequest.deh (request : DegetRequest) (vfsDev : Nat → Nat) : Nat :=
  deHash (vfsDev request.vfsp) (if request.isadir then request.startclust
      else fileNumber request.dirclust request.diroffset)

/-- The chain for the fields of a denode. -/
def CacheDenode.deh (dp : CacheDenode) : Nat := deHash dp.deDev (if dp.isadir then dp.deStartCluster
      else fileNumber dp.deDirclust dp.deDiroffset)

/-- The test of the device, of the file system and of the place of the file. -/
def CacheDenode.hasKey (ldep : CacheDenode) (vfsDev : Nat → Nat) (request : DegetRequest) : Bool :=
  vfsDev request.vfsp == ldep.deDev && some request.vfsp == ldep.vVfsp &&
    if ldep.isadir then
      ldep.deStartCluster == request.startclust && request.isadir
    else
      !request.isadir && request.dirclust == ldep.deDirclust &&
        request.diroffset == ldep.deDiroffset

/-- The whole test in the loop over a hash chain. -/
def CacheDenode.matched (ldep : CacheDenode) (vfsDev : Nat → Nat) (request : DegetRequest) : Bool :=
  decide (0 < ldep.deRefcnt) && ldep.hasKey vfsDev request

/-- The test of a link in the loop over a hash chain. -/
def CacheState.stops (s : CacheState ndenode) (vfsDev : Nat → Nat) (request : DegetRequest) :
    HashLink ndenode → Bool
  | .head deh => deh == request.deh vfsDev
  | .denode ldep => (s.denode ldep).matched vfsDev request

/-- The loop of `deget` over a hash chain. -/
def CacheState.search (s : CacheState ndenode) (vfsDev : Nat → Nat)
    (request : DegetRequest) : Option (Fin ndenode) :=
  match Ring.seek s.hash.deForw (s.stops vfsDev request) (ndenode + 1)
      (s.hash.deForw (.head (request.deh vfsDev)))
  with
  | some (.denode ldep) => some ldep
  | _ => none

/-- `deget` finds a denode. -/
def degetFound (s : CacheState ndenode) (l : Nat) (request : DegetRequest)
    (ldep : Fin ndenode) : CacheState ndenode :=
  let s :=
    if (s.denode ldep).deref then s
    else { s with free := s.free.remove ldep }
  let s := s.setDenode ldep fun d => { d with deref := true }
  s.lockOrWait l ldep (.locked request ldep) (.waiting request ldep)

/-- `deget` takes the first denode of the free list and hashes it. -/
def degetTake (s : CacheState ndenode) (vfsDev : Nat → Nat) (l : Nat) (frame : DegetFrame)
    (ldep : Fin ndenode) : CacheState ndenode :=
  let s := { s with free := s.free.takeFirst ldep }
  let s := { s with hash := s.hash.deunhash ldep }
  let s := s.setDenode ldep fun d =>
    { d with
      deref := true
      deDev := vfsDev frame.request.vfsp
      deLock := some l }
  let s := { s with hash := s.hash.dehash ldep (frame.request.deh vfsDev) }
  s.setLwp l (.filling frame ldep)

def DegetRequest.isRoot (request : DegetRequest) : Bool :=
  request.startclust == dosfsRoot && request.isadir

/--
`deget` has no denode for the file; `entry` is what `get_direntp` reads, which
may fail.
-/
def degetMissed (s : CacheState ndenode) (vfsDev : Nat → Nat) (l : Nat) (frame : DegetFrame)
    (entry : Option DirEntry) : CacheState ndenode :=
  if frame.direntp.isNone && !frame.request.isRoot then
    match entry with
    | none => s.setLwp l (.done frame.request .enoent)
    | some dirent =>
      if dirent.deName0 == slotDeleted || dirent.deName0 == slotEmpty then
        s.setLwp l (.done frame.request .enoent)
      else
        -- the jump to `loop` leaves the table locked
        { s with tableMutex := some l }.setLwp l (.loop { frame with direntp := some dirent })
  else
    let frame := { frame with count := frame.count + 1 }
    match s.free.dfreeh with
    | none => s.setLwp l (.purging frame)
    | some ldep =>
      if (s.denode ldep).deLock.isNone then
        degetTake s vfsDev l frame ldep
      else
        s.setLwp l (.purging frame)

/-- `deget` from `loop` to the end of the section under the table mutex. -/
def degetLoop (s : CacheState ndenode) (vfsDev : Nat → Nat) (l : Nat) (frame : DegetFrame)
    (entry : Option DirEntry) : Option (CacheState ndenode) :=
  match s.tableMutex with
  | some _ => none
  | none =>
    match s.search vfsDev frame.request with
    | some ldep => some (degetFound s l frame.request ldep)
    | none => some (degetMissed s vfsDev l frame entry)

/-- The directory entry is copied into a denode. -/
def DegetFrame.copyEntry (frame : DegetFrame) (d : CacheDenode) : CacheDenode :=
  if frame.request.isRoot then
    { d with deAttributes := attrDirectory, deStartCluster := dosfsRoot }
  else
    match frame.direntp with
    | some entry =>
      { d with
        deName0 := entry.deName0
        deAttributes := entry.deAttributes
        deStartCluster := entry.deStartCluster }
    | none => d

/-- `deget` fills in the denode it has taken. -/
def degetFill (s : CacheState ndenode) (l : Nat) (frame : DegetFrame)
    (ldep : Fin ndenode) : CacheState ndenode :=
  let s := s.setDenode ldep fun d =>
    { frame.copyEntry d with
      vCount := 1
      vVfsp := some frame.request.vfsp
      deVfs := frame.request.vfsp
      deRefcnt := 1
      deDirclust := frame.request.dirclust
      deDiroffset := frame.request.diroffset }
  let s := s.setHolds ldep (s.holds ldep + 1)
  s.setLwp l (.done frame.request (.found ldep))

/-- `VN_HOLD` of a vnode; the new reference belongs to the caller. -/
def vnHold (s : CacheState ndenode) (dp : Fin ndenode) : CacheState ndenode :=
  let s := s.setDenode dp fun d => { d with vCount := d.vCount + 1 }
  s.setHolds dp (s.holds dp + 1)

/-- `deget` behind `dnlc_purge_vfsp`. -/
def degetPurged (s : CacheState ndenode) (l : Nat) (frame : DegetFrame) : CacheState ndenode :=
  if s.free.dfreeh.isNone || decide (5 < frame.count) then
    s.setLwp l (.done frame.request .enfile)
  else
    s.setLwp l (.loop frame)

/-- Where an LWP goes on after `VN_RELE`. -/
def resume : Option DegetFrame → CacheLwp ndenode
  | none => .idle
  | some frame => .purging frame

/-- `VN_RELE` of a vnode; the last reference is left to `dosfs_inactive`. -/
def vnRele (s : CacheState ndenode) (l : Nat) (dp : Fin ndenode)
    (back : Option DegetFrame) : CacheState ndenode :=
  let s := s.setHolds dp (s.holds dp - 1)
  if 1 < (s.denode dp).vCount then
    (s.setDenode dp fun d => { d with vCount := d.vCount - 1 }).setLwp l (resume back)
  else
    s.setLwp l (.inactive dp .entering back)

/-- `dosfs_inactive` examines the reference count. -/
def inactiveCount (s : CacheState ndenode) (l : Nat) (dep : Fin ndenode)
    (back : Option DegetFrame) : CacheState ndenode :=
  if (s.denode dep).vCount == 1 then
    (s.setDenode dep fun d => { d with vCount := 0 }).setLwp l (.inactive dep .draining back)
  else
    (s.setDenode dep fun d => { d with vCount := d.vCount - 1 }).setLwp l
      (.inactive dep .leaving back)

def inactiveInsert (s : CacheState ndenode) (dep : Fin ndenode) : CacheState ndenode :=
  if decide ((s.denode dep).deRefcnt ≤ 0) || s.free.dfreeh.isNone then
    { s with
      hash := s.hash.deunhash dep
      free := s.free.pushFront dep }
  else
    { s with free := s.free.pushBack dep }

/--
The section of `dosfs_inactive` under the table mutex.  `SLEEP_LOCKBLKD` is
also true while the spin lock of the sleep lock is held.
-/
def inactiveDrain (s : CacheState ndenode) (l : Nat) (dep : Fin ndenode) (back : Option DegetFrame)
    (spinning : Bool) : Option (CacheState ndenode) :=
  match s.tableMutex with
  | some _ => none
  | none =>
    if !(s.denode dep).waiters.isEmpty || spinning then
      some (s.setLwp l (.inactive dep .leaving back))
    else
      some ((inactiveInsert s dep).setLwp l (.inactive dep .writing back))

/-- `dosfs_inactive` truncates a removed file and clears the flags. -/
def inactiveWrite (s : CacheState ndenode) (l : Nat) (dep : Fin ndenode) (back : Option DegetFrame)
    (truncated : Bool) : CacheState ndenode :=
  let s :=
    if decide ((s.denode dep).deRefcnt ≤ 0) then
      s.setDenode dep fun d =>
        { d with
          deName0 := slotDeleted
          deStartCluster := if truncated then 0 else d.deStartCluster }
    else s
  let s := s.setDenode dep fun d => { d with deref := false }
  s.setLwp l (.inactive dep .leaving back)

def reinsert (s : CacheState ndenode) (vfsDev : Nat → Nat) (l : Nat)
    (dep : Fin ndenode) : Option (CacheState ndenode) :=
  if (s.denode dep).isadir then
    some (s.setLwp l .idle)
  else
    match s.tableMutex with
    | some _ => none
    | none =>
      let d := s.denode dep
      let deh := deHash (vfsDev d.deVfs) (fileNumber d.deDirclust d.deDiroffset)
      let s := { s with hash := s.hash.deunhash dep }
      let s := { s with hash := s.hash.dehash dep deh }
      some (s.setLwp l .idle)

/-- What is open in a step of an LWP. -/
structure CacheOutcome where
  /-- What `get_direntp` reads. -/
  entry : Option DirEntry
  /-- The spin lock of a sleep lock is held. -/
  spinning : Bool
  /-- `detrunc` gets to the clusters of the file. -/
  truncated : Bool

inductive CacheAction (ndenode : Nat) where
  /-- It calls `deget`. -/
  | deget (l : Nat) (request : DegetRequest)
  /-- It goes on where it is. -/
  | run (l : Nat) (outcome : CacheOutcome)
  /-- `DE_LOCK` of a denode that is referred to. -/
  | lock (l : Nat) (dep : Fin ndenode)
  /-- `DE_UNLOCK`. -/
  | unlock (l : Nat) (dep : Fin ndenode)
  /-- `VN_HOLD` of a vnode that is referred to. -/
  | hold (l : Nat) (dep : Fin ndenode)
  /-- `VN_RELE`, also by `dnlc_purge_vfsp`. -/
  | rele (l : Nat) (dep : Fin ndenode)
  /-- `removede` drops the reference of the directory. -/
  | remove (l : Nat) (dep : Fin ndenode)
  /-- `dosfs_rename` moves a denode to another directory. -/
  | move (l : Nat) (dep : Fin ndenode) (dirclust diroffset : Nat)

/-- An LWP goes on where it is. -/
def lwpRun (s : CacheState ndenode) (vfsDev : Nat → Nat) (l : Nat)
    (outcome : CacheOutcome) : Option (CacheState ndenode) :=
  match s.lwp l with
  | .idle => none
  | .loop frame => degetLoop s vfsDev l frame outcome.entry
  | .purging frame => some (degetPurged s l frame)
  | .waiting request ldep => s.acquire l ldep (.locked request ldep)
  | .locked request ldep => some ((vnHold s ldep).setLwp l (.done request (.found ldep)))
  | .filling frame ldep => some (degetFill s l frame ldep)
  | .done _ _ => some (s.setLwp l .idle)
  | .deLock dep => s.acquire l dep .idle
  | .reinserting dep => reinsert s vfsDev l dep
  | .inactive dep .entering back =>
    some (s.lockOrWait l dep (.inactive dep .counting back) (.inactive dep .blocked back))
  | .inactive dep .blocked back => s.acquire l dep (.inactive dep .counting back)
  | .inactive dep .counting back => some (inactiveCount s l dep back)
  | .inactive dep .draining back => inactiveDrain s l dep back outcome.spinning
  | .inactive dep .writing back => some (inactiveWrite s l dep back outcome.truncated)
  | .inactive dep .leaving back => some ((s.unlock dep).setLwp l (resume back))

/-- An LWP outside the cache acts. -/
def idleStep (s : CacheState ndenode) (l : Nat) : CacheAction ndenode → Option (CacheState ndenode)
  | .deget _ request => some (s.setLwp l (.loop ⟨request, request.direntp, 0⟩))
  | .run _ _ => none
  | .lock _ dep =>
    if s.holds dep = 0 then none
    else some (s.lockOrWait l dep .idle (.deLock dep))
  | .unlock _ dep => if (s.denode dep).deLock = some l then some (s.unlock dep) else none
  | .hold _ dep => if s.holds dep = 0 then none else some (vnHold s dep)
  | .rele _ dep => if s.holds dep = 0 then none else some (vnRele s l dep none)
  | .remove _ dep =>
    if (s.denode dep).deLock = some l then
      some (s.setDenode dep fun d => { d with deRefcnt := d.deRefcnt - 1 })
    else none
  | .move _ dep dirclust diroffset =>
    if (s.denode dep).deLock = some l then
      some ((s.setDenode dep fun d =>
          { d with deDirclust := dirclust, deDiroffset := diroffset }).setLwp l (.reinserting dep))
    else none

/-- The LWP that acts. -/
def CacheAction.actor : CacheAction ndenode → Nat
  | .deget l _ => l
  | .run l _ => l
  | .lock l _ => l
  | .unlock l _ => l
  | .hold l _ => l
  | .rele l _ => l
  | .remove l _ => l
  | .move l _ _ _ => l

def cacheStep (vfsDev : Nat → Nat) (s : CacheState ndenode)
    (action : CacheAction ndenode) : Option (CacheState ndenode) :=
  match action, s.lwp action.actor with
  | .run l outcome, _ => lwpRun s vfsDev l outcome
  | .rele l dep, .purging frame =>
    if s.holds dep = 0 then none else some (vnRele s l dep (some frame))
  | action, .idle => idleStep s action.actor action
  | _, _ => none

/-- A denode of zeroes, with `VN_INIT` and `SLEEP_INIT`. -/
def newDenode : CacheDenode where
  deLock := none
  waiters := []
  deref := false
  deDev := 0
  deDirclust := 0
  deDiroffset := 0
  deRefcnt := 0
  deVfs := 0
  deName0 := 0
  deAttributes := 0
  deStartCluster := 0
  vCount := 0
  vVfsp := none

def newFreeList (positive : 0 < ndenode) : FreeList ndenode where
  dfreeh := some ⟨0, positive⟩
  dfreet := some ⟨ndenode - 1, Nat.sub_lt positive Nat.one_pos⟩
  deFreef := fun dp =>
    if behind : dp.val + 1 < ndenode then some ⟨dp.val + 1, behind⟩ else none
  deFreeb := fun dp =>
    if dp.val = 0 then none
    else some ⟨dp.val - 1, Nat.lt_of_le_of_lt (Nat.sub_le ..) dp.isLt⟩

def dosfsDoinit (positive : 0 < ndenode) : CacheState ndenode where
  denode := fun _ => newDenode
  free := newFreeList positive
  hash := ⟨id, id⟩
  tableMutex := none
  lwp := fun _ => .idle
  holds := fun _ => 0

end Uw7.Dosfs.DenodeCache
