import Uw7.Fga.Affinity

namespace Uw7.Fga

/-!
# The pages of a segment

`segfga_fault`, the page loops of `fgashm_reaffine` and `fgashm_lockmem`, and
`fgashm_fault`, from `mem/seg_fga.c` and `mem/fgashm.c`, one access to shared state at
a time.  LWPs run them at the same time, and write to pages through the translations.
The CPU group where a page belongs comes from the affinity information, which changes
all the while; any group can be the outcome.
-/

open Function

def vpgMaxSoftlockCount : Nat := 2 ^ 32 - 1

/-- `fgavpg_t`; `VPG_NONEXISTENT` is `none`. -/
structure Vpg where
  lockFlag : Bool
  migrateFlag : Bool
  delMigrateFlag : Bool
  softlockCnt : Nat
  ppid : Option Nat
  deriving DecidableEq

/-- What stays the same about a segment. -/
structure FgaSegment where
  policy : PlacePolicy
  groups : CpuGroups
  fgashmDefGranularity : Nat
  numPages : Nat
  /-- The sizes that `shm_makefga` accepts. -/
  whole : numPages % (fgashmSizeQuanta / pageSize) = 0
  /-- A size is a `size_t`. -/
  fits : numPages * pageSize < 2 ^ 32

/-- `kshm_mapsize`. -/
def FgaSegment.mapsize (seg : FgaSegment) : Nat := seg.numPages * pageSize

/-- A call of `segfga_fault` other than for `F_SOFTUNLOCK`. -/
structure FaultRequest where
  /-- `seg->s_base`. -/
  base : Nat
  /-- `btop(addr - seg->s_base)`. -/
  first : Nat
  /-- `btop(len)`. -/
  pages : Nat
  /-- `F_SOFTLOCK` or `F_MAXPROT_SOFTLOCK`, not `F_INVAL`. -/
  isSoftlock : Bool
  deriving DecidableEq

/-- The routine that works on a page. -/
inductive PageCaller where
  | fault (request : FaultRequest)
  | reaffine (last : Nat) (firstUsage migrate : Bool)
  | lockmem
  deriving DecidableEq

/-- The place within the routine. -/
inductive PagePoint where
  /-- The look of `fgashm_lockmem` without the lock. -/
  | peek
  /-- `FGASHM_LOCK_VPG`. -/
  | enter
  /-- The tests behind it, in `segfga_fault`. -/
  | check
  | unload
  | shootdown
  /-- The tests behind it, in `fgashm_reaffine`. -/
  | reaffineCheck
  | reaffineUnload
  | reaffineShootdown
  | reaffineFlags
  /-- `fgashm_fault`. -/
  | fault
  | pzero
  | resv
  | pageGet
  | place (newPpid : Nat)
  | pcopy (newPpid : Nat)
  | pageFree (newPpid : Nat)
  | assign (newPpid : Nat)
  | putBack (newPpid : Nat)
  | unresv
  | load
  /-- The softlock count, behind `fgashm_fault`. -/
  | softlock
  | increment
  /-- `F_SOFTUNLOCK` for the pages before, when the count overflows. -/
  | recover (segPgOffset numPages : Nat)
  /-- `FGASHM_UNLOCK_VPG`. -/
  | unlock
  deriving DecidableEq

inductive FgaLwp where
  | idle
  | softunlock (segPgOffset numPages : Nat)
  | onPage (caller : PageCaller) (page : Nat) (point : PagePoint)
  deriving DecidableEq

/-- What the calls made return. -/
structure FgaOutcome where
  /-- `idf_resv(1, NOSLEEP)`. -/
  resv : Bool
  /-- `idf_page_get`. -/
  ppid : Nat
  /-- `fgashm_find_cg`. -/
  placeCg : Int
  deriving DecidableEq

/-- The segment, its pages, and the memory; a zeroed page holds `default`. -/
structure SegState (V : Type) where
  vpg : Nat → Vpg
  /-- The shared page tables. -/
  xlat : Nat → Option Nat
  /-- Translations that some processor may have in its TLB. -/
  tlb : Nat → List Nat
  /-- Physical pages. -/
  memory : Nat → V
  /-- Pages of identityless memory that no one has. -/
  free : List Nat
  /-- Pages that other users have. -/
  others : List Nat
  /-- Pages got and not freed, and the reservation for them. -/
  pagesHeld : Nat
  reserved : Nat
  lwp : Nat → FgaLwp
  /-- What was stored in each page last. -/
  contents : Nat → V
  /-- Softlocks of requests that are complete. -/
  granted : Nat → Nat
  /-- The count of a page behind the segment was changed. -/
  wild : Bool

/-- `idf_place`, which is not written yet. -/
def idfPlace (_ : Nat) : Int := 0

def intDecr (count : Nat) : Nat := (count + (2 ^ 32 - 1)) % 2 ^ 32

def intIncr (count : Nat) : Nat := (count + 1) % 2 ^ 32

namespace SegState

variable {V : Type}

def setVpg (s : SegState V) (page : Nat) (change : Vpg → Vpg) : SegState V :=
  { s with vpg := update s.vpg page (change (s.vpg page)) }

/-- The translation of a page is loaded or unloaded. -/
def setXlat (s : SegState V) (page : Nat) (mapped : Option Nat) : SegState V :=
  { s with xlat := update s.xlat page mapped }

/-- A physical page is written. -/
def setMemory (s : SegState V) (ppid : Nat) (value : V) : SegState V :=
  { s with memory := update s.memory ppid value }

/-- An LWP goes on. -/
def setLwp (s : SegState V) (l : Nat) (next : FgaLwp) : SegState V :=
  { s with lwp := update s.lwp l next }

/-- `atomic_int_decr` of a softlock count, at a page number of 20 bits. -/
def decrSoftlock (seg : FgaSegment) (s : SegState V) (segPgOffset : Nat) : SegState V :=
  let page := segPgOffset % 2 ^ 20
  if page < seg.numPages then
    s.setVpg page fun v => { v with softlockCnt := intDecr v.softlockCnt }
  else { s with wild := true }

/-- `idf_page_get` has returned a page. -/
def pageGot (s : SegState V) (ppid : Nat) : SegState V :=
  { s with free := s.free.erase ppid, pagesHeld := s.pagesHeld + 1 }

def pageFreed (s : SegState V) (ppid : Nat) : SegState V :=
  { s with free := ppid :: s.free, pagesHeld := s.pagesHeld - 1 }

def grant (s : SegState V) (request : FaultRequest) : SegState V :=
  if request.isSoftlock then
    { s with
      granted := fun page =>
        s.granted page +
          if request.first ≤ page ∧ page < request.first + request.pages
          then 1 else 0 }
  else s

/-- The loops of the routines. -/
def advance (seg : FgaSegment) (s : SegState V) (l page : Nat) : PageCaller → SegState V
  | .fault request =>
    if page + 1 < request.first + request.pages then
      s.setLwp l (.onPage (.fault request) (page + 1) .enter)
    else (s.grant request).setLwp l .idle
  | .reaffine last firstUsage migrate =>
    if page + 1 < last then
      s.setLwp l (.onPage (.reaffine last firstUsage migrate) (page + 1) .enter)
    else s.setLwp l .idle
  | .lockmem =>
    if page + 1 < seg.numPages then
      s.setLwp l (.onPage .lockmem (page + 1) .peek)
    else s.setLwp l .idle

end SegState

def PageCaller.locked : PageCaller → PagePoint
  | .fault _ => .check
  | .reaffine _ _ _ => .reaffineCheck
  | .lockmem => .fault

/-- Behind `fgashm_fault`. -/
def PageCaller.faulted : PageCaller → PagePoint
  | .fault request => if request.isSoftlock then .softlock else .unlock
  | _ => .unlock

/-- Behind the marking for migration in `fgashm_reaffine`. -/
def PageCaller.marked : PageCaller → PagePoint
  | .reaffine _ true _ => .unlock
  | _ => .fault

def FaultRequest.recoverLen (request : FaultRequest) (page : Nat) : Nat :=
  let addr := request.base + request.first * pageSize
  (page * pageSize + 2 ^ 32 - addr % 2 ^ 32) % 2 ^ 32

theorem FgaSegment.numPages_lt (seg : FgaSegment) : seg.numPages < 2 ^ 20 := by
  have fits := seg.fits
  unfold pageSize at fits
  omega

theorem FaultRequest.recoverLen_zero {request : FaultRequest} {page : Nat}
    (atZero : request.base = 0) (isFirst : request.first ≤ page) (small : page < 2 ^ 20) :
    request.recoverLen page / pageSize = page - request.first := by
  simp only [FaultRequest.recoverLen, atZero, pageSize]
  omega

section Step

variable {V : Type} [Inhabited V]

/-- The next access of an LWP that works on a page. -/
def pageStep (seg : FgaSegment) (s : SegState V) (l : Nat) (outcome : FgaOutcome)
    (caller : PageCaller) (page : Nat) : PagePoint → Option (SegState V)
  | .peek =>
    if (s.vpg page).ppid = none ∨ (s.vpg page).migrateFlag then
      some (s.setLwp l (.onPage caller page .enter))
    else some (s.advance seg l page caller)
  | .enter =>
    if (s.vpg page).lockFlag then none
    else
      some ((s.setVpg page fun v => { v with lockFlag := true }).setLwp l
          (.onPage caller page caller.locked))
  | .check =>
    if (s.vpg page).softlockCnt = 0 ∧ (s.vpg page).delMigrateFlag then
      some ((s.setVpg page fun v =>
          { v with delMigrateFlag := false, migrateFlag := true }).setLwp l
            (.onPage caller page .unload))
    else some (s.setLwp l (.onPage caller page .fault))
  | .unload => some ((s.setXlat page none).setLwp l (.onPage caller page .shootdown))
  | .shootdown =>
    some (({ s with tlb := fun _ => [] } : SegState V).setLwp l (.onPage caller page .fault))
  | .reaffineCheck =>
    match caller with
    | .reaffine _ firstUsage migrate =>
      if (s.vpg page).ppid = none then
        some (s.setLwp l (.onPage caller page (if firstUsage then .unlock else .fault)))
      else if migrate then
        if (s.vpg page).softlockCnt = 0 then
          some (s.setLwp l (.onPage caller page .reaffineUnload))
        else
          some ((s.setVpg page fun v =>
              { v with delMigrateFlag := true }).setLwp l (.onPage caller page .unlock))
      else some (s.setLwp l (.onPage caller page .unlock))
    | _ => none
  | .reaffineUnload =>
    some ((s.setXlat page none).setLwp l (.onPage caller page .reaffineShootdown))
  | .reaffineShootdown =>
    some (({ s with tlb := fun _ => [] } : SegState V).setLwp l
        (.onPage caller page .reaffineFlags))
  | .reaffineFlags =>
    some ((s.setVpg page fun v =>
        { v with delMigrateFlag := false, migrateFlag := true }).setLwp l
          (.onPage caller page caller.marked))
  | .fault =>
    if (s.vpg page).ppid = none then
      if outcome.ppid ∈ s.free then
        some (((s.pageGot outcome.ppid).setVpg page fun v =>
            { v with ppid := some outcome.ppid }).setLwp l (.onPage caller page .pzero))
      else none
    else if (s.vpg page).migrateFlag then
      some ((s.setVpg page fun v => { v with migrateFlag := false }).setLwp l
          (.onPage caller page .resv))
    else some (s.setLwp l (.onPage caller page caller.faulted))
  | .pzero =>
    (s.vpg page).ppid.map fun ppid =>
      (s.setMemory ppid default).setLwp l (.onPage caller page .load)
  | .resv =>
    if outcome.resv then
      some (({ s with reserved := s.reserved + 1 } : SegState V).setLwp l
          (.onPage caller page .pageGet))
    else some (s.setLwp l (.onPage caller page .load))
  | .pageGet =>
    if outcome.ppid ∈ s.free then
      some ((s.pageGot outcome.ppid).setLwp l (.onPage caller page (.place outcome.ppid)))
    else none
  | .place newPpid =>
    some (s.setLwp l (.onPage caller page (if idfPlace newPpid = outcome.placeCg then .pcopy newPpid
          else .putBack newPpid)))
  | .pcopy newPpid =>
    (s.vpg page).ppid.map fun ppid =>
      (s.setMemory newPpid (s.memory ppid)).setLwp l (.onPage caller page (.pageFree newPpid))
  | .pageFree newPpid =>
    (s.vpg page).ppid.map fun ppid =>
      (s.pageFreed ppid).setLwp l (.onPage caller page (.assign newPpid))
  | .assign newPpid =>
    some ((s.setVpg page fun v => { v with ppid := some newPpid }).setLwp l
        (.onPage caller page .unresv))
  | .putBack newPpid => some ((s.pageFreed newPpid).setLwp l (.onPage caller page .unresv))
  | .unresv =>
    some (({ s with reserved := s.reserved - 1 } : SegState V).setLwp l (.onPage caller page .load))
  | .load => some ((s.setXlat page (s.vpg page).ppid).setLwp l (.onPage caller page caller.faulted))
  | .softlock =>
    match caller with
    | .fault request =>
      if (s.vpg page).softlockCnt = vpgMaxSoftlockCount then
        some (s.setLwp l (.onPage caller page (if page ≠ request.first then
            .recover request.first (request.recoverLen page / pageSize)
            else .recover request.first 0)))
      else some (s.setLwp l (.onPage caller page .increment))
    | _ => none
  | .increment =>
    some ((s.setVpg page fun v =>
        { v with softlockCnt := intIncr v.softlockCnt }).setLwp l (.onPage caller page .unlock))
  | .recover _ 0 =>
    -- `EAGAIN`
    some ((s.setVpg page fun v => { v with lockFlag := false }).setLwp l .idle)
  | .recover segPgOffset (numPages + 1) =>
    some ((s.decrSoftlock seg segPgOffset).setLwp l
        (.onPage caller page (.recover (segPgOffset + 1) numPages)))
  | .unlock =>
    some ((s.setVpg page fun v => { v with lockFlag := false }).advance seg l page caller)

/-- The next access of an LWP. -/
def lwpStep (seg : FgaSegment) (s : SegState V) (l : Nat)
    (outcome : FgaOutcome) : Option (SegState V) :=
  match s.lwp l with
  | .idle => none
  | .softunlock _ 0 => some (s.setLwp l .idle)
  | .softunlock segPgOffset (numPages + 1) =>
    -- the caller holds the softlock that it gives back
    if s.granted segPgOffset = 0 then none
    else
      some (({ s.decrSoftlock seg segPgOffset with
          granted := update s.granted segPgOffset
              (s.granted segPgOffset - 1) } : SegState V).setLwp l
          (.softunlock (segPgOffset + 1) numPages))
  | .onPage caller page point => pageStep seg s l outcome caller page point

/-- What happens next. -/
inductive SegAction (V : Type) where
  | fault (l : Nat) (request : FaultRequest)
  | softunlock (l : Nat) (segPgOffset numPages : Nat)
  | reaffine (l : Nat) (shmp : ShmidDs)
  | lockmem (l : Nat)
  | run (l : Nat) (outcome : FgaOutcome)
  /-- A processor loads a translation from the page tables. -/
  | tlbFill (page : Nat)
  /-- A store through a translation. -/
  | store (page ppid : Nat) (value : V)
  /-- I/O into a softlocked page. -/
  | io (page : Nat) (value : V)
  /-- Other users of identityless memory. -/
  | otherGet (ppid : Nat)
  | otherFree (ppid : Nat)
  | otherStore (ppid : Nat) (value : V)

def reaffineLoop (seg : FgaSegment) (shmp : ShmidDs) : FgaLwp :=
  match acceptRequest seg.policy seg.groups seg.fgashmDefGranularity seg.mapsize shmp with
  | .error _ => .idle
  | .ok request =>
    let firstUsage := decide (request.selection.affinity = seg.policy.firstUsage)
    let migrate := decide (shmp.placepolicy &&& seg.policy.migrate ≠ 0)
    if request.WholeSegment seg.mapsize then .idle
    else if firstUsage ∧ ¬ migrate then .idle
    else
      .onPage (.reaffine ((request.off + request.nbytes) / pageSize) firstUsage migrate)
        (request.off / pageSize) .enter

/-- One step of the system. -/
def segStep (seg : FgaSegment) (s : SegState V) : SegAction V → Option (SegState V)
  | .fault l request =>
    if s.lwp l = .idle ∧ 0 < request.pages ∧ request.first + request.pages ≤ seg.numPages then
      some (s.setLwp l (.onPage (.fault request) request.first .enter))
    else none
  | .softunlock l segPgOffset numPages =>
    if s.lwp l = .idle ∧ segPgOffset + numPages ≤ seg.numPages then
      some (s.setLwp l (.softunlock segPgOffset numPages))
    else none
  | .reaffine l shmp =>
    if s.lwp l = .idle then some (s.setLwp l (reaffineLoop seg shmp))
    else none
  | .lockmem l =>
    if s.lwp l = .idle ∧ 0 < seg.numPages then
      some (s.setLwp l (.onPage .lockmem 0 .peek))
    else none
  | .run l outcome => lwpStep seg s l outcome
  | .tlbFill page =>
    (s.xlat page).map fun ppid =>
      { s with tlb := update s.tlb page (ppid :: s.tlb page) }
  | .store page ppid value =>
    if ppid ∈ s.tlb page then
      some
        { s.setMemory ppid value with
          contents := update s.contents page value }
    else none
  | .io page value =>
    if (s.vpg page).softlockCnt = 0 then none
    else
      (s.vpg page).ppid.map fun ppid =>
        { s.setMemory ppid value with
          contents := update s.contents page value }
  | .otherGet ppid =>
    if ppid ∈ s.free then
      some { s with free := s.free.erase ppid, others := ppid :: s.others }
    else none
  | .otherFree ppid =>
    if ppid ∈ s.others then
      some { s with free := ppid :: s.free, others := s.others.erase ppid }
    else none
  | .otherStore ppid value =>
    if ppid ∈ s.others then
      some (s.setMemory ppid value)
    else none

/-- The pages of a new segment. -/
def segInitial (seg : FgaSegment) (memory : Nat → V) (free others : List Nat) : SegState V where
  vpg := fun _ => ⟨false, false, false, 0, none⟩
  xlat := fun _ => none
  tlb := fun _ => []
  memory := memory
  free := free
  others := others
  pagesHeld := 0
  reserved := seg.numPages
  lwp := fun _ => .idle
  contents := fun _ => default
  granted := fun _ => 0
  wild := false

end Step

end Uw7.Fga
