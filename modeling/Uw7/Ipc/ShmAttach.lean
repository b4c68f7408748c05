import Mathlib.Algebra.Order.Ring.Nat
import Uw7.Lib.Extents

namespace Uw7.Ipc.Shm

/-!
# Attaching shared memory

`shmat`, `shmaddr` and `shmmmap` of `proc/ipc/shm.c`.  The address space is a map of
extents, the segments, of which a part may be unmapped.  The accounting list of the
process is kept apart from it: nothing here says that a record describes the segment
that is mapped at its address.  Addresses and lengths are `uint_t`, written as natural
numbers with the wrap of each sum.
-/

open Lib

/-- The value of an unsigned expression. -/
def uint (value : Nat) : Nat := value % 2 ^ 32

def pagesize : Nat := 4096

/-- `PSE_PAGESIZE`, the size of a large page. -/
def psePagesize : Nat := 0x400000

def fgashmAlign : Nat := 0x400000

def roundup (value align : Nat) : Nat := uint (value + (align - 1)) / align * align

/--
`kshmid_ds`.  The size to map is the size asked for, rounded up to pages or to large
pages.
-/
structure Kshmid where
  shmSegsz : Nat
  kshmMapsize : Nat
  kshmAlign : Nat
  /-- `SHM_SUPPORTS_AFFINITY`. -/
  supportsAffinity : Bool
  segszPositive : 0 < shmSegsz
  /-- `shm_segsz` is an `int`. -/
  segszFits : shmSegsz < 2 ^ 31
  mapsizeCovers : roundup shmSegsz pagesize ≤ kshmMapsize
  mapsizeFits : kshmMapsize < 2 ^ 32
  alignKnown : kshmAlign = psePagesize ∨ kshmAlign = pagesize ∨ kshmAlign = fgashmAlign
  deriving DecidableEq

/-- The size of a segment rounded up to pages. -/
def Kshmid.pageRounded (kshmp : Kshmid) : Nat := roundup kshmp.shmSegsz pagesize

/-- What a segment of an address space maps. -/
inductive SegUse where
  /-- A System V segment that was attached at `attached`. -/
  | shm (attached : Nat) (kshmp : Kshmid)
  | other
  deriving DecidableEq

/-- `struct as`. -/
abbrev AddressSpace := ExtentMap SegUse

/-- `as_gap` returns zero. -/
def asGap (asp : AddressSpace) (base len : Nat) : Bool := asp.isFree base len

def asSegat (asp : AddressSpace) (addr : Nat) : Option (Extent SegUse) := asp.locate addr

def asUnmap (asp : AddressSpace) (addr size : Nat) : AddressSpace := asp.remove addr size

/-- `as_map`, which refuses a range that is empty or taken. -/
def asMap (asp : AddressSpace) (addr size : Nat) (use : SegUse) : Option AddressSpace :=
  if fits : 0 < size ∧ asp.isFree addr size = true then
    some (asp.insert ⟨addr, size, use⟩ fits.1 fits.2)
  else
    none

/-- `sa_type` with `sa_kshmp`; of a `DSHM` record nothing else is used. -/
inductive SegacctObject where
  | shm (saKshmp : Kshmid)
  | dshm
  deriving DecidableEq

structure Segacct where
  saAddr : Nat
  saLen : Nat
  saObject : SegacctObject
  deriving DecidableEq

structure Proc where
  pAs : AddressSpace
  pSegacct : List Segacct
  pNshmseg : Nat

def shmFind (pp : Proc) (addr : Nat) : Option Segacct :=
  pp.pSegacct.find? fun sap => sap.saAddr == addr

def shmAdd (added : Segacct) : List Segacct → List Segacct
  | [] => [added]
  | sap :: rest =>
    if sap.saAddr < added.saAddr then sap :: shmAdd added rest
    else added :: sap :: rest

/-- The arguments of `shmat`. -/
structure Shmata where
  addr : Nat
  /-- `SHM_RND`. -/
  shmRnd : Bool
  addrFits : addr < 2 ^ 32
  deriving DecidableEq

/-- What the routines return besides success. -/
inductive ShmError where
  | EINVAL
  | ENOMEM
  | EMFILE
  /-- From `shmconv` or `ipcaccess`. -/
  | refused (errno : Nat)
  /-- From `as_map`. -/
  | mapping (errno : Nat)
  deriving DecidableEq

/-- What `shmat` finds outside its own arguments. -/
structure World where
  /-- The first address past the user's. -/
  uvend : Nat
  shmlba : Nat
  /-- `shminfo.shmseg`. -/
  shmseg : Nat
  /-- `map_addr`; zero is `NULL`. -/
  mapAddr : AddressSpace → Nat → Nat
  /-- The error of `shmconv` or of the access checks. -/
  admission : Option Nat
  /-- The error that the segment driver or `as_map` meets in `shmmmap`. -/
  mapError : Option Nat

/-- `VALID_USR_RANGE`; `UVBASE` is zero. -/
def validUsrRange (world : World) (addr len : Nat) : Bool :=
  decide (addr < uint (addr + len) ∧ uint (addr + len) ≤ world.uvend)

/-- The address and size of an attachment that leaves the choice to the system. -/
def chooseAddress (world : World) (kshmp : Kshmid) (asp : AddressSpace) :
    Except ShmError (Nat × Nat) :=
  let found := world.mapAddr asp (uint (kshmp.kshmMapsize + kshmp.kshmAlign - pagesize))
  let (addr, align, size) :=
    if found = 0 ∧ kshmp.kshmAlign % psePagesize = 0 ∧ kshmp.supportsAffinity = false then
      (world.mapAddr asp kshmp.pageRounded, pagesize, kshmp.pageRounded)
    else
      (found, kshmp.kshmAlign, kshmp.kshmMapsize)
  if addr = 0 then .error .ENOMEM
  else .ok (roundup addr align, size)

/-- The address asked for, rounded down on request. -/
def attachAddress (world : World) (kshmp : Kshmid) (uap : Shmata) : Nat :=
  if uap.shmRnd then
    if kshmp.supportsAffinity then uap.addr / fgashmAlign * fgashmAlign
    else uap.addr / world.shmlba * world.shmlba
  else
    uap.addr

/--
The size to attach at an address, unless the address is not aligned or the range not
valid.  A large page segment takes its page-rounded size at an address that is not
aligned to large pages, or where its full size does not fit.
-/
def attachSize (world : World) (kshmp : Kshmid) (addr : Nat) : Option Nat :=
  let (size, align) :=
    if kshmp.kshmAlign = psePagesize ∧ addr % psePagesize ≠ 0 ∧ kshmp.supportsAffinity = false then
      (kshmp.pageRounded, pagesize)
    else
      (kshmp.kshmMapsize, kshmp.kshmAlign)
  if addr % pagesize ≠ 0 then
    none
  else if kshmp.supportsAffinity ∧ addr % fgashmAlign ≠ 0 then
    none
  else if validUsrRange world addr size then
    some size
  else if align ≠ psePagesize ∨ kshmp.supportsAffinity then
    none
  else if validUsrRange world addr kshmp.pageRounded then
    some kshmp.pageRounded
  else
    none

/--
`sadj`: how much of the segment at the address may be unmapped, if that is a System V
segment that holds the address past its page-rounded size.
-/
def startAdjustment (pp : Proc) (base : Nat) : Nat :=
  match asSegat pp.pAs base with
  | none => 0
  | some segp =>
    match shmFind pp segp.start with
    | none => 0
    | some sap =>
      match sap.saObject with
      | .dshm => 0
      | .shm saKshmp =>
        if base ≤ uint (sap.saAddr + saKshmp.pageRounded) then 0
        else saKshmp.kshmMapsize - saKshmp.pageRounded

/-- The rest of `shmaddr`, where the range asked for is not free. -/
def adjustConflict (kshmp : Kshmid) (pp : Proc) (addr size : Nat) :
    Except ShmError (Nat × Nat) × AddressSpace :=
  let eadj := size - kshmp.pageRounded
  let sadj := startAdjustment pp addr
  if sadj = 0 ∧ eadj = 0 then
    (.error .EINVAL, pp.pAs)
  else if asGap pp.pAs (uint (addr + sadj)) (size - eadj) = false then
    (.error .EINVAL, pp.pAs)
  else
    let asp :=
      if sadj ≠ 0 ∧ asGap pp.pAs addr sadj = false then
        asUnmap pp.pAs addr sadj
      else pp.pAs
    if eadj ≠ 0 ∧ asGap asp (uint (addr + size - eadj)) eadj = false then
      (.ok (addr, size - eadj), asp)
    else
      (.ok (addr, size), asp)

def shmaddr (world : World) (kshmp : Kshmid) (uap : Shmata) (pp : Proc) :
    Except ShmError (Nat × Nat) × AddressSpace :=
  if uap.addr = 0 then
    (chooseAddress world kshmp pp.pAs, pp.pAs)
  else
    let addr := attachAddress world kshmp uap
    match attachSize world kshmp addr with
    | none => (.error .EINVAL, pp.pAs)
    | some size =>
      if asGap pp.pAs addr size then (.ok (addr, size), pp.pAs)
      else adjustConflict kshmp pp addr size

def shmmmap (world : World) (kshmp : Kshmid) (asp : AddressSpace) (addr size : Nat) :
    Except ShmError AddressSpace :=
  match world.mapError with
  | some errno => .error (.mapping errno)
  | none =>
    match asMap asp addr size (.shm addr kshmp) with
    | none => .error .ENOMEM
    | some mapped => .ok mapped

def shmat (world : World) (kshmp : Kshmid) (uap : Shmata) (pp : Proc) :
    Except ShmError Nat × Proc :=
  match world.admission with
  | some errno => (.error (.refused errno), pp)
  | none =>
    if world.shmseg ≤ pp.pNshmseg then
      (.error .EMFILE, pp)
    else
      match shmaddr world kshmp uap pp with
      | (.error error, asp) => (.error error, { pp with pAs := asp })
      | (.ok (addr, size), asp) =>
        match shmmmap world kshmp asp addr size with
        | .error error => (.error error, { pp with pAs := asp })
        | .ok mapped =>
          (.ok addr,
            { pAs := mapped
              pSegacct := shmAdd ⟨addr, size, .shm kshmp⟩ pp.pSegacct
              pNshmseg := pp.pNshmseg + 1 })

end Uw7.Ipc.Shm
