import Uw7.Ipc.Attachments
import Uw7.Lib.Ownership

namespace Uw7.Ipc

/-!
# Looking up and creating segments

`dshmget` and `shmget` from `proc/ipc/dshm.c` and `proc/ipc/shm.c`, among removals and
other users of the descriptors.  Both routines are one text but for their tests, so
the model is generic in these.  `ipcget` returns the entry whose key matches, or a
new one.
-/

open Lib Function

def ipcPrivate : Int := 0

/-- The tests of one of the two routines. -/
structure GetOps where
  Args : Type
  Parameters : Type
  key : Args → Int
  /-- The tests on the arguments for a new segment. -/
  accepts : Args → Bool
  /-- What is recorded of a new segment. -/
  parameters : Args → Parameters
  /-- The tests on the arguments for a segment that exists. -/
  complies : Args → Parameters → Bool

/-- The tests of `dshmget`. -/
def dshmgetOps (dshmmin : Nat) : GetOps where
  Args := Int × DshmGeta
  Parameters := Kdshmid
  key := fun uap => uap.1
  accepts := fun uap => dshmgetAccepts dshmmin uap.2
  parameters := fun uap =>
    Kdshmid.setParameters ⟨0, 0, 0, 0, 0, 1, true, none⟩ uap.2
  complies := fun uap kdshmp =>
    decide (¬ ((uap.2.bufferSize ≠ 0 ∧ uap.2.bufferSize ≠ kdshmp.dbuffersz) ∨
        uap.2.totalBufferCount > kdshmp.dtotalbufs ∨ uap.2.applBufferCount > kdshmp.dappbufs ∨
        uap.2.mapSize > kdshmp.dmapsize))

/-- The arguments of `shmget`; `special` is `IPC_SPECIAL`. -/
structure ShmGeta where
  key : Int
  size : Int
  special : Bool
  deriving DecidableEq

/-- What `shmget` records of a segment. -/
structure KshmParameters where
  shmSegsz : Int
  /-- `SHM_SUPPORTS_AFFINITY`. -/
  supportsAffinity : Bool
  deriving DecidableEq

/-- The tests of `shmget`. -/
def shmgetOps (shmmin shmmax : Int) : GetOps where
  Args := ShmGeta
  Parameters := KshmParameters
  key := ShmGeta.key
  accepts := fun uap => decide (¬ (uap.size < shmmin ∨ uap.size > shmmax))
  parameters := fun uap => ⟨uap.size, uap.special⟩
  complies := fun uap kshmp =>
    decide (¬ ((uap.size ≠ 0 ∧ uap.size > kshmp.shmSegsz) ∨ kshmp.supportsAffinity ≠ uap.special))

variable (ops : GetOps)

/-- A segment that was created, in the order of creation. -/
structure Segment where
  key : Int
  slot : Nat
  seq : Int
  creator : Nat
  /-- The arguments that it was created with. -/
  uap : ops.Args

/-- A descriptor; BUSY names the call that has set it. -/
structure KernelDs where
  ipcAlloc : Bool
  busy : Option Nat
  parameters : ops.Parameters
  /-- The segment it describes, or described last. -/
  segment : Nat

/-- Where a call is. -/
inductive GetPoint where
  /-- At `retry`. -/
  | retry
  /-- `ipcget` has found the entry and the descriptor is `BUSY`. -/
  | waiting (slot ent : Nat)
  /-- BUSY is set and the directory is about to be looked at again. -/
  | recheck (slot ent : Nat)
  /-- A new entry is being set up. -/
  | creating (slot ent segment : Nat)
  /-- BUSY is clear and `ipcd_seq` is about to be read. -/
  | reading (slot segment : Nat) (created : Bool)
  /-- Another user of the descriptor, behind its conversion routine. -/
  | converted (slot ent : Nat)
  /-- Another user that has lost the race for its descriptor. -/
  | stale (ent : Nat)
  /-- The descriptor is not in the directory any more. -/
  | removed (ent : Nat)
  deriving DecidableEq

/-- A call of `dshmget` or `shmget`, or of another user. -/
structure GetCall where
  uap : ops.Args
  point : GetPoint

/-- An identifier that was returned. -/
structure GetResult where
  caller : Nat
  uap : ops.Args
  /-- The segment that was created or checked. -/
  segment : Nat
  created : Bool
  id : Int

/-- The directory, the descriptors and the calls. -/
structure GetState where
  entries : IpcdirEntries
  descriptors : Nat → KernelDs ops
  segments : Nat → Segment ops
  next : Nat
  calls : Nat → Option (GetCall ops)
  results : List (GetResult ops)

variable {ops}

namespace GetState

/-- A call goes on, or returns. -/
def setCall (state : GetState ops) (caller : Nat) (call : Option (GetCall ops)) : GetState ops :=
  { state with calls := update state.calls caller call }

/-- A call goes to another point. -/
def goto (state : GetState ops) (caller : Nat) (uap : ops.Args) (point : GetPoint) : GetState ops :=
  state.setCall caller (some ⟨uap, point⟩)

/-- A descriptor changes. -/
def setDs (state : GetState ops) (ent : Nat) (ds : KernelDs ops) : GetState ops :=
  { state with descriptors := update state.descriptors ent ds }

/-- `BUSY` is set or cleared. -/
def setBusy (state : GetState ops) (ent : Nat) (busy : Option Nat) : GetState ops :=
  state.setDs ent { state.descriptors ent with busy := busy }

/-- `dshmdealloc` and `shmdealloc`. -/
def dealloc (state : GetState ops) (ent : Nat) : GetState ops := state.setDs ent
    { state.descriptors ent with ipcAlloc := false, busy := none }

def setEntry (state : GetState ops) (slot : Nat) (direntp : Ipcdirent) : GetState ops :=
  { state with entries := update state.entries slot direntp }

/-- `ipcget` with a new entry, and `dshmalloc` or `shmalloc`. -/
def lookupNew (state : GetState ops) (caller slot ent : Nat) (uap : ops.Args) : GetState ops :=
  { ((state.setEntry slot { state.entries slot with ipcdEnt := some ent }).setDs ent
      { state.descriptors ent with
        ipcAlloc := true
        busy := some caller
        segment := state.next }).goto caller uap
      (.creating slot ent state.next) with
    segments := update state.segments state.next
        ⟨ops.key uap, slot, (state.entries slot).ipcdSeq, caller, uap⟩
    next := state.next + 1 }

/-- The new segment is ready. -/
def createDone (state : GetState ops) (caller slot ent segment : Nat)
    (uap : ops.Args) : GetState ops :=
  (state.setDs ent
    { state.descriptors ent with
      busy := none
      parameters := ops.parameters uap }).goto caller uap
    (.reading slot segment true)

/-- The new segment cannot be set up. -/
def createFail (state : GetState ops) (caller slot ent : Nat) : GetState ops :=
  ((state.setEntry slot { state.entries slot with ipcdEnt := none }).dealloc ent).setCall
      caller none

/-- The directory is looked at again behind the wait. -/
def recheck (state : GetState ops) (caller slot ent : Nat) (uap : ops.Args) : GetState ops :=
  let ds := state.descriptors ent
  if (state.entries slot).ipcdEnt = none then
    (state.setBusy ent none).goto caller uap .retry
  else if ops.complies uap ds.parameters then
    (state.setBusy ent none).goto caller uap (.reading slot ds.segment false)
  else
    (state.setBusy ent none).setCall caller none

/-- The identifier is returned. -/
def read (mni : Nat) (state : GetState ops) (caller slot segment : Nat) (created : Bool)
    (uap : ops.Args) : GetState ops :=
  { state.setCall caller none with
    results := state.results ++
        [⟨caller, uap, segment, created, ipcId mni (state.entries slot) slot⟩] }

end GetState

/-- What may happen next. -/
inductive GetAction where
  | call (caller : Nat)
  | found (caller : Nat)
  | foundBusy (caller : Nat)
  | new (caller slot : Nat)
  | wake (caller : Nat)
  | recheck (caller : Nat)
  | createDone (caller : Nat)
  | createFail (caller : Nat)
  | read (caller : Nat)
  | convert (caller : Nat)
  | hold (caller ent : Nat)
  | release (caller : Nat)
  | removeId (caller : Nat)
  | dealloc (caller : Nat)
  | lastDetach (caller ent : Nat)
  deriving DecidableEq

/--
The steps of calls and of other users.  `field` and `seqmax` count removals, and `mni`
is the number of entries.
-/
inductive GetStep (field : SeqField) (seqmax : Int) (mni : Nat) (before : GetState ops) :
    GetAction → GetState ops → Prop where
  | call {caller : Nat} (uap : ops.Args) (idle : before.calls caller = none) :
      GetStep field seqmax mni before (.call caller) (before.goto caller uap .retry)
  | found {caller slot ent : Nat} {uap : ops.Args}
      (isCall : before.calls caller = some ⟨uap, .retry⟩)
      (entry : (before.entries slot).ipcdEnt = some ent) (isPublic : ops.key uap ≠ ipcPrivate)
      (sameKey : (before.segments (before.descriptors ent).segment).key = ops.key uap)
      (notBusy : (before.descriptors ent).busy = none) :
      GetStep field seqmax mni before (.found caller)
        ((before.setBusy ent (some caller)).goto caller uap (.recheck slot ent))
  | foundBusy {caller slot ent : Nat} {uap : ops.Args}
      (isCall : before.calls caller = some ⟨uap, .retry⟩)
      (entry : (before.entries slot).ipcdEnt = some ent) (isPublic : ops.key uap ≠ ipcPrivate)
      (sameKey : (before.segments (before.descriptors ent).segment).key = ops.key uap)
      (isBusy : (before.descriptors ent).busy ≠ none) :
      GetStep field seqmax mni before (.foundBusy caller)
        (before.goto caller uap (.waiting slot ent))
  | new {caller slot ent : Nat} {uap : ops.Args} (isCall : before.calls caller = some ⟨uap, .retry⟩)
      (noEntry : (before.entries slot).ipcdEnt = none)
      (free : (before.descriptors ent).ipcAlloc = false)
      (notBusy : (before.descriptors ent).busy = none) :
      GetStep field seqmax mni before (.new caller slot) (before.lookupNew caller slot ent uap)
  | wake {caller slot ent : Nat} {uap : ops.Args}
      (isCall : before.calls caller = some ⟨uap, .waiting slot ent⟩)
      (notBusy : (before.descriptors ent).busy = none) :
      GetStep field seqmax mni before (.wake caller)
        ((before.setBusy ent (some caller)).goto caller uap (.recheck slot ent))
  | recheck {caller slot ent : Nat} {uap : ops.Args}
      (isCall : before.calls caller = some ⟨uap, .recheck slot ent⟩) :
      GetStep field seqmax mni before (.recheck caller) (before.recheck caller slot ent uap)
  | createDone {caller slot ent segment : Nat} {uap : ops.Args} (isCall :
      before.calls caller = some ⟨uap, .creating slot ent segment⟩)
      (accepted : ops.accepts uap = true) : GetStep field seqmax mni before (.createDone caller)
        (before.createDone caller slot ent segment uap)
  | createFail {caller slot ent segment : Nat} {uap : ops.Args} (isCall :
      before.calls caller = some ⟨uap, .creating slot ent segment⟩) :
      GetStep field seqmax mni before (.createFail caller) (before.createFail caller slot ent)
  | read {caller slot segment : Nat} {created : Bool} {uap : ops.Args} (isCall :
      before.calls caller = some ⟨uap, .reading slot segment created⟩) :
      GetStep field seqmax mni before (.read caller)
        (before.read mni caller slot segment created uap)
  | convert {caller slot ent : Nat} (uap : ops.Args) (idle : before.calls caller = none)
      (entry : (before.entries slot).ipcdEnt = some ent)
      (notBusy : (before.descriptors ent).busy = none) :
      GetStep field seqmax mni before (.convert caller)
        ((before.setBusy ent (some caller)).goto caller uap (.converted slot ent))
  | hold {caller ent : Nat} (uap : ops.Args) (idle : before.calls caller = none)
      (notBusy : (before.descriptors ent).busy = none) :
      GetStep field seqmax mni before (.hold caller ent)
        ((before.setBusy ent (some caller)).goto caller uap (.stale ent))
  | releaseConverted {caller slot ent : Nat} {uap : ops.Args}
      (isCall : before.calls caller = some ⟨uap, .converted slot ent⟩) :
      GetStep field seqmax mni before (.release caller)
        ((before.setBusy ent none).setCall caller none)
  | releaseStale {caller ent : Nat} {uap : ops.Args}
      (isCall : before.calls caller = some ⟨uap, .stale ent⟩) :
      GetStep field seqmax mni before (.release caller)
        ((before.setBusy ent none).setCall caller none)
  | removeId {caller slot ent : Nat} {uap : ops.Args}
      (isCall : before.calls caller = some ⟨uap, .converted slot ent⟩) :
      GetStep field seqmax mni before (.removeId caller) ((before.setEntry slot
          { ipcdEnt := none
            ipcdSeq :=
              if field.next (before.entries slot).ipcdSeq > seqmax then 0
              else field.next (before.entries slot).ipcdSeq }).goto caller
            uap (.removed ent))
  | releaseRemoved {caller ent : Nat} {uap : ops.Args}
      (isCall : before.calls caller = some ⟨uap, .removed ent⟩) :
      GetStep field seqmax mni before (.release caller)
        ((before.setBusy ent none).setCall caller none)
  | dealloc {caller ent : Nat} {uap : ops.Args}
      (isCall : before.calls caller = some ⟨uap, .removed ent⟩) :
      GetStep field seqmax mni before (.dealloc caller) ((before.dealloc ent).setCall caller none)
  | lastDetach {caller ent : Nat} (uap : ops.Args) (idle : before.calls caller = none)
      (allocated : (before.descriptors ent).ipcAlloc = true)
      (notBusy : (before.descriptors ent).busy = none)
      (noEntry : ∀ slot, (before.entries slot).ipcdEnt ≠ some ent) :
      GetStep field seqmax mni before (.lastDetach caller ent)
        ((before.setBusy ent (some caller)).goto caller uap (.removed ent))

/-- A returned identifier names the segment that the caller asked for. -/
structure ResultWell (mni : Nat) (state : GetState ops) (result : GetResult ops) : Prop where
  key : (state.segments result.segment).key = ops.key result.uap
  /-- The identifier is that of the segment. -/
  id : ∃ ent, result.id = ipcId mni ⟨ent, (state.segments result.segment).seq⟩
      (state.segments result.segment).slot
  /-- A private segment is returned to its creator only. -/
  created : result.created = true → (state.segments result.segment).creator = result.caller
  /-- The tests were made against the parameters of this segment. -/
  found : result.created = false → ops.key result.uap ≠ ipcPrivate ∧ ops.complies result.uap
      (ops.parameters (state.segments result.segment).uap) = true

end Uw7.Ipc
