import Mathlib.Algebra.Order.Ring.Nat
import Mathlib.Data.Fin.Basic
import Uw7.Errno
import Uw7.Lib.Heap

namespace Uw7.Iobitmap

/-!
# I/O permission bitmaps of a process and its LWPs

`iobitmapctl`, `set_special_sp`, `iobitmap_sync` and `iobitmap_sync_l` from
`proc/iobitmap.c`.  A process has at most one TSS, each of its LWPs at most one
private TSS, and an LWP may share the TSS of the process.  A call that would
wait for `p_tsslock`, and the dereference of a freed TSS, have no result.

Kernel stack pointers, segment descriptors and the task register are left out:
nothing modelled reads them.
-/

open Lib Function

/-- A port number, `ushort_t`. -/
abbrev Port := Fin 65536

/-- `sizeof(struct stss)`; the bitmap follows the structure. -/
def sizeofStss : Nat := 120

def sizeofTss386 : Nat := 104

def tssNoBitmap : Nat := 0xDFFF

/-- One element of `t_stkbase`. -/
structure TssStkbase where
  tEsp : Nat
  tSs : Nat
  deriving DecidableEq, Inhabited

/-- The fields of `struct tss386` that the bitmap routines use. -/
structure Tss386 where
  stkbase : Nat → TssStkbase
  bitmapbase : Nat

/-- `struct stss` with its bitmap; a set bit denies access to the port. -/
structure Stss where
  allocsz : Nat
  refcnt : Nat
  gencnt : Nat
  tss : Tss386
  bitmap : Port → Bool

/-- The process: its TSS, its LWPs' TSSs and the lock that guards them. -/
structure Proc (nlwp : Nat) where
  heap : Heap Stss
  tssp : Option Nat
  ltssp : Fin nlwp → Option Nat
  iobcount : Int
  tsslock : Bool

/-- The process before its first request. -/
def Proc.initial (nlwp : Nat) : Proc nlwp where
  heap := .empty
  tssp := none
  ltssp := fun _ => none
  iobcount := 0
  tsslock := false

/-- Offset of a port's byte in the structure. -/
def bidx (port : Port) : Nat := sizeofStss + port.val / 8

/-- The ports before the terminating zero. -/
def listed (ports : List Port) : List Port := ports.takeWhile fun port => port ≠ 0

def highest (ports : List Port) : Port := (listed ports).foldl
    (fun portno port => if port > portno then port else portno) 0

def neededSize (ports : List Port) : Nat := (bidx (highest ports) + 256) / 256 * 256

/-- The driver on whose behalf the request is made, and what `bindproc` returns. -/
structure Caller where
  cfgBound : Bool
  bindError : Nat
  deriving DecidableEq

/-- The requests of `iobitmapctl`. -/
inductive IobRequest where
  | enable
  | disable
  | check
  deriving DecidableEq

/-- Bits and counter as the loop of a request leaves them. -/
structure Scan where
  error : Nat
  bitmap : Port → Bool
  iobcount : Int

/-- The loop of `IOB_ENABLE`; it stops where `bindproc` fails. -/
def enableBits (caller : Caller) : List Port → (Port → Bool) → Int → Scan
  | [], bitmap, iobcount => { error := 0, bitmap, iobcount }
  | port :: rest, bitmap, iobcount =>
    if caller.cfgBound && bitmap port then
      if iobcount = 0 ∧ caller.bindError ≠ 0 then
        { error := caller.bindError, bitmap, iobcount }
      else
        enableBits caller rest (update bitmap port false) (iobcount + 1)
    else
      enableBits caller rest (update bitmap port false) iobcount

/-- The loop of `IOB_DISABLE`. -/
def disableBits (caller : Caller) (allocsz : Nat) : List Port → (Port → Bool) → Int → Scan
  | [], bitmap, iobcount => { error := 0, bitmap, iobcount }
  | port :: rest, bitmap, iobcount =>
    if bidx port ≥ allocsz then
      disableBits caller allocsz rest bitmap iobcount
    else
      disableBits caller allocsz rest (update bitmap port true)
        (if caller.cfgBound && !bitmap port then
          iobcount - 1
        else
          iobcount)

/-- The loop of `IOB_CHECK`. -/
def checkBits (tss : Stss) (ports : List Port) : Nat :=
  if ports.any fun port =>
      decide (bidx port ≥ tss.allocsz) || tss.bitmap port then
    0
  else
    1

variable {nlwp : Nat}

def singleThreaded (_proc : Proc nlwp) : Bool := nlwp == 1

/-- `--st_refcnt`, an `uchar_t`, freeing the TSS with its last reference. -/
def dropReference (heap : Heap Stss) (address : Nat) (tss : Stss) : Heap Stss :=
  let refcnt := (tss.refcnt + 255) % 256
  if refcnt = 0 then
    heap.free address
  else
    heap.modify address fun stss => { stss with refcnt }

/-- `IOB_ENABLE` needs a new TSS: there is none, or it is too small. -/
def needsNewTss (proc : Proc nlwp) (ports : List Port) : Bool :=
  match proc.tssp.bind proc.heap.cell with
  | none => true
  | some tss => decide (neededSize ports > tss.allocsz)

/-- The TSS that `IOB_ENABLE` builds from the old one. -/
def enlarged (globalTss : Tss386) (old : Option Stss) (allocsz : Nat) : Stss where
  allocsz := allocsz % 2 ^ 16
  refcnt := 1
  gencnt := 0
  tss := { (old.elim globalTss Stss.tss) with bitmapbase := sizeofTss386 }
  bitmap := fun port =>
    match old with
    | none => true
    | some tss => if bidx port < tss.allocsz then tss.bitmap port else true

/-- Allocate a TSS and make it the process's. -/
def placeTss (proc : Proc nlwp) (heap : Heap Stss) (stss : Stss) : Proc nlwp :=
  { proc with
    heap := heap.alloc stss
    tssp := some heap.next }

/-- Replace the process's TSS by an enlarged one. -/
def installNewTss (globalTss : Tss386) (proc : Proc nlwp) (ports : List Port) :
    Option (Proc nlwp) :=
  match proc.tssp with
  | none => some (placeTss proc proc.heap (enlarged globalTss none (neededSize ports)))
  | some address => do
      let tss ← proc.heap.cell address
      some (placeTss proc (dropReference proc.heap address tss)
          (enlarged globalTss (some tss) (neededSize ports)))

def growTss (globalTss : Tss386) (proc : Proc nlwp) (ports : List Port) : Option (Proc nlwp) :=
  if needsNewTss proc ports then
    installNewTss globalTss proc ports
  else
    some proc

def heldElsewhere (proc : Proc nlwp) (process address : Nat) : Bool := decide
    (address ≠ process ∧ ∃ lwp, proc.ltssp lwp = some address)

/-- Copy of the process's bitmap and generation into an LWP's own TSS. -/
def copyBitmap (process ltss : Stss) : Stss :=
  { ltss with
    gencnt := process.gencnt
    tss :=
      { ltss.tss with
        bitmapbase :=
          if process.allocsz - sizeofStss ≠ 0 then
            sizeofTss386
          else
            ltss.tss.bitmapbase }
    bitmap := fun port =>
      if bidx port < process.allocsz then
        process.bitmap port
      else
        ltss.bitmap port }

/-- Copy of the stack pointers of rings 1 and 2. -/
def copyStkbase (process ltss : Stss) : Stss :=
  { ltss with
    tss :=
      { ltss.tss with
        stkbase := fun ring =>
          if ring = 1 ∨ ring = 2 then
            process.tss.stkbase ring
          else
            ltss.tss.stkbase ring } }

def lwpTss (process : Stss) : Stss := copyBitmap process
    { allocsz := process.allocsz
      refcnt := 1
      gencnt := 0
      tss := process.tss
      bitmap := fun _ => true }

def freeTss (heap : Heap Stss) : Option Nat → Heap Stss
  | none => heap
  | some address => heap.free address

/-- The LWP's own TSS when it is large enough for the process's bitmap. -/
def reusable (proc : Proc nlwp) (me : Fin nlwp) (allocsz : Nat) : Option Nat :=
  (proc.ltssp me).filter fun address =>
    (proc.heap.cell address).any fun ltss =>
      decide (allocsz ≤ ltss.allocsz)

/-- The LWP frees its own TSS and shares the process's one. -/
def shareTss (proc : Proc nlwp) (me : Fin nlwp) (process : Nat) : Proc nlwp :=
  { proc with
    heap := (freeTss proc.heap (proc.ltssp me)).modify process fun stss =>
        { stss with refcnt := (stss.refcnt + 1) % 256 }
    ltssp := update proc.ltssp me (some process) }

/-- The LWP copies the process's TSS into its own. -/
def refreshTss (proc : Proc nlwp) (address : Nat) (ptss : Stss) : Proc nlwp :=
  { proc with
    heap := proc.heap.modify address fun ltss =>
        copyBitmap ptss (copyStkbase ptss ltss) }

/-- The LWP frees its own TSS and allocates a copy of the process's one. -/
def replaceTss (proc : Proc nlwp) (me : Fin nlwp) (ptss : Stss) : Proc nlwp :=
  { proc with
    heap := (freeTss proc.heap (proc.ltssp me)).alloc (lwpTss ptss)
    ltssp := update proc.ltssp me (some proc.heap.next) }

def iobitmapSyncL (proc : Proc nlwp) (me : Fin nlwp) : Option (Proc nlwp) := do
  let process ← proc.tssp
  let ptss ← proc.heap.cell process
  if ptss.refcnt = 1 then
    some (shareTss proc me process)
  else
    match reusable proc me ptss.allocsz with
    | some address => some (refreshTss proc address ptss)
    | none => some (replaceTss proc me ptss)

/-- Bring the calling LWP up to date unless it uses the process's TSS. -/
def syncCaller (proc : Proc nlwp) (me : Fin nlwp) : Option (Proc nlwp) :=
  if proc.ltssp me ≠ proc.tssp then
    iobitmapSyncL proc me
  else
    some proc

/-- Set the bits of the process's TSS and the count of open ports. -/
def storeScan (proc : Proc nlwp) (process : Nat) (scan : Scan) : Proc nlwp :=
  { proc with
    heap := proc.heap.modify process fun stss =>
        { stss with bitmap := scan.bitmap }
    iobcount := scan.iobcount }

def invalidateOthers (proc : Proc nlwp) (process : Nat) : Proc nlwp :=
  if singleThreaded proc then
    proc
  else
    { proc with
      heap := proc.heap.modifyWhere (heldElsewhere proc process) fun stss =>
          { stss with
            tss := { stss.tss with bitmapbase := tssNoBitmap } } }

/-- The end of a request that changed the process's TSS. -/
def publishChange (proc : Proc nlwp) (me : Fin nlwp) (process : Nat) : Option (Proc nlwp) :=
  let advanced :=
    { proc with
      heap := proc.heap.modify process fun stss =>
          { stss with gencnt := (stss.gencnt + 1) % 2 ^ 32 } }
  syncCaller (invalidateOthers advanced process) me

/-- `SLEEP_UNLOCK` of `p_tsslock`, taken only with several LWPs. -/
def unlockTss (proc : Proc nlwp) : Proc nlwp := { proc with tsslock := false }

/-- `iobitmapctl`; the result pairs its return value with the process. -/
def iobitmapctl (globalTss : Tss386) (proc : Proc nlwp) (me : Fin nlwp) (request : IobRequest)
    (ports : List Port) (caller : Caller) :
    Option (Nat × Proc nlwp) :=
  if proc.tsslock && !singleThreaded proc then
    none
  else
    let entered := { proc with tsslock := !singleThreaded proc }
    match request with
    | .enable => do
        let grown ← growTss globalTss entered ports
        let process ← grown.tssp
        let tss ← grown.heap.cell process
        let scan := enableBits caller (listed ports) tss.bitmap grown.iobcount
        let changed := storeScan grown process scan
        if scan.error ≠ 0 then
          -- The early return keeps `p_tsslock`.
          some (scan.error, changed)
        else
          let published ← publishChange changed me process
          some (0, unlockTss published)
    | .disable =>
      match entered.tssp with
      | none => some (0, unlockTss entered)
      | some process => do
          let tss ← entered.heap.cell process
          let scan := disableBits caller tss.allocsz (listed ports) tss.bitmap entered.iobcount
          let published ← publishChange (storeScan entered process scan) me process
          some (0, unlockTss published)
    | .check =>
      match entered.tssp with
      | none => some (0, unlockTss entered)
      | some process => do
          let tss ← entered.heap.cell process
          some (checkBits tss (listed ports), unlockTss entered)

/-- `iobitmapctl` with a value of `iob_request_t` that its switch leaves out. -/
def iobitmapctlUnnamed (proc : Proc nlwp) (me : Fin nlwp) : Option (Nat × Proc nlwp) :=
  if proc.tsslock && !singleThreaded proc then
    none
  else
    let entered := { proc with tsslock := !singleThreaded proc }
    match entered.tssp with
    | none => some (0, unlockTss entered)
    | some process => do
        let published ← publishChange entered me process
        some (0, unlockTss published)

/-- `iobitmapctl` with a named request, or with any other value. -/
def iobitmapctlCommand (globalTss : Tss386) (proc : Proc nlwp) (me : Fin nlwp)
    (command : Option IobRequest) (ports : List Port) (caller : Caller) :
    Option (Nat × Proc nlwp) :=
  match command with
  | none => iobitmapctlUnnamed proc me
  | some request => iobitmapctl globalTss proc me request ports caller

/-- `iobitmap_sync`; true when the LWP was out of sync. -/
def iobitmapSync (proc : Proc nlwp) (me : Fin nlwp) : Option (Bool × Proc nlwp) :=
  if proc.tsslock then
    none
  else
    match proc.tssp with
    | none => some (false, proc)
    | some process => do
        let ptss ← proc.heap.cell process
        match proc.ltssp me with
        | none => do
            let synced ← iobitmapSyncL proc me
            some (true, synced)
        | some address => do
            let ltss ← proc.heap.cell address
            if ltss.gencnt ≠ ptss.gencnt then
              let synced ← iobitmapSyncL proc me
              some (true, synced)
            else
              some (false, proc)

/-- The TSS that `set_special_sp` creates when there is none. -/
def specialTss (globalTss : Tss386) : Stss where
  allocsz := sizeofStss
  refcnt := 1
  gencnt := 0
  tss := globalTss
  bitmap := fun _ => true

/-- Set one ring's stack pointer in a TSS. -/
def setStkbase (ring : Nat) (stkbase : TssStkbase) (stss : Stss) : Stss :=
  { stss with
    tss :=
      { stss.tss with
        stkbase := update stss.tss.stkbase ring stkbase } }

/-- `set_special_sp`; a selector of another ring is refused with `EINVAL`. -/
def setSpecialSp (globalTss : Tss386) (proc : Proc nlwp) (me : Fin nlwp) (sel esp : Nat) :
    Option (Option Errno × Proc nlwp) :=
  let ring := sel % 4
  if ring ≠ 1 ∧ ring ≠ 2 then
    some (some .EINVAL, proc)
  else if proc.tsslock && !singleThreaded proc then
    none
  else do
    let created :=
      match proc.tssp with
      | none => placeTss proc proc.heap (specialTss globalTss)
      | some _ => proc
    let process ← created.tssp
    let stkbase : TssStkbase := { tEsp := esp, tSs := sel }
    let set :=
      { created with
        heap := created.heap.modifyWhere (fun address =>
            address == process || (!singleThreaded proc && heldElsewhere created process address))
            (setStkbase ring stkbase) }
    let synced ← syncCaller set me
    some (none, unlockTss synced)

/-- A call made by one of the LWPs. -/
inductive Call where
  | iobitmapctl (request : IobRequest) (ports : List Port) (caller : Caller)
  | setSpecialSp (sel esp : Nat)
  | iobitmapSync
  deriving DecidableEq

def perform (globalTss : Tss386) (proc : Proc nlwp) (me : Fin nlwp) : Call → Option (Proc nlwp)
  | .iobitmapctl request ports caller =>
    (iobitmapctl globalTss proc me request ports caller).map Prod.snd
  | .setSpecialSp sel esp => (setSpecialSp globalTss proc me sel esp).map Prod.snd
  | .iobitmapSync => (iobitmapSync proc me).map Prod.snd

def CallStep (globalTss : Tss386) (before : Proc nlwp) (action : Fin nlwp × Call)
    (after : Proc nlwp) : Prop :=
  perform globalTss before action.1 action.2 = some after

end Uw7.Iobitmap
