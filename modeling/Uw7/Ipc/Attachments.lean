import Uw7.Ipc.Directory
import Mathlib.Algebra.Order.BigOperators.Group.Finset
import Mathlib.Order.Interval.Finset.Nat

namespace Uw7.Ipc

/-!
# The attachments of dynamic shared memory

`proc/ipc/dshm.c` with `shm_add`, `shm_del` and `shmfork` from `shm.c`.  A section that
is protected by `DSHM_BUSY` is one step.  A detach is two steps, since the mapping
goes before the reference, and `fork` adds a record of the child and counts it in two
steps.  Memory objects are numbered in the order of their creation.
-/

open Function

def dshmMinAlign : UInt32 := 0x400000

def dshmMinbufsz : UInt32 := 32

/-- The arguments of `dshmget` that describe the segment. -/
structure DshmGeta where
  bufferSize : UInt32
  totalBufferCount : UInt32
  applBufferCount : UInt32
  dshmaddr : UInt32
  mapSize : UInt32
  deriving DecidableEq

/--
`kdshmid_ds`.  `memory` stands for `kdshm_vpage`, `kdshm_hatp` and `kdshm_pfn`, which
name the memory of the segment.
-/
structure Kdshmid where
  dmapsize : UInt32
  dmapaddr : UInt32
  dtotalbufs : UInt32
  dappbufs : UInt32
  dbuffersz : UInt32
  kdshmRefcnt : Int
  /-- `IPC_ALLOC` in the mode. -/
  ipcAlloc : Bool
  memory : Option Nat
  deriving DecidableEq

/-- The parameters of a new segment. -/
def Kdshmid.setParameters (kdshmp : Kdshmid) (uap : DshmGeta) : Kdshmid :=
  { kdshmp with
    dmapsize := uap.mapSize
    dmapaddr := uap.dshmaddr
    dtotalbufs := uap.totalBufferCount
    dappbufs := uap.applBufferCount
    dbuffersz := uap.bufferSize }

/--
The tests of `dshmget` on the parameters of a new segment.  In the test of the buffer
size `!=` binds more tightly than `&`.
-/
def dshmgetAccepts (dshmmin : Nat) (uap : DshmGeta) : Bool :=
  let size := uap.bufferSize.toNat * uap.totalBufferCount.toNat
  let mask : UInt32 :=
    if ~~~(uap.bufferSize - 1) ≠ uap.bufferSize then 1 else 0
  decide (dshmmin ≤ size ∧ ¬ (uap.mapSize ≤ 0 ∨ uap.mapSize % dshmMinAlign ≠ 0) ∧
      ¬ (uap.bufferSize < dshmMinbufsz ∨ uap.bufferSize &&& mask ≠ 0) ∧
      ¬ (uap.totalBufferCount = 0 ∨ uap.applBufferCount > uap.totalBufferCount) ∧
      ¬ (uap.dshmaddr = 0 ∨ uap.dshmaddr % dshmMinAlign ≠ 0))

/-- `segacct_t`, with the memory that the segment driver maps. -/
structure Segacct where
  saAddr : UInt32
  saLen : UInt32
  saKdshmp : Nat
  memory : Option Nat
  deriving DecidableEq

def shmAdd (added : Segacct) : List Segacct → List Segacct
  | [] => [added]
  | sap :: rest =>
    if sap.saAddr < added.saAddr then sap :: shmAdd added rest
    else added :: sap :: rest

def shmDel (addr : UInt32) : List Segacct → List Segacct
  | [] => []
  | sap :: rest => if sap.saAddr < addr then sap :: shmDel addr rest else rest

def shmFind (addr : UInt32) (segacct : List Segacct) : Option Segacct :=
  segacct.find? fun sap => sap.saAddr == addr

/-- What a process is doing with its attachments. -/
inductive DshmActivity where
  | absent
  /-- A child whose `fork` is not complete. -/
  | newborn
  | idle
  /-- The segment is unmapped and its reference is still to be dropped. -/
  | detaching (kdshmp : Nat)
  /-- In `shmfork`, with these records to duplicate. -/
  | forking (child : Nat) (rest : List Segacct)
  /-- In `shmfork`, with a record of the child still to be counted. -/
  | counting (child kdshmp : Nat) (rest : List Segacct)
  deriving DecidableEq

structure DshmProc where
  segacct : List Segacct
  nshmseg : Int
  activity : DshmActivity
  deriving DecidableEq

def absentProc : DshmProc := ⟨[], 0, .absent⟩

/--
The attachments of a process to a segment.  An attachment counts until its detach
drops the reference, and the one of a child once `shmfork` has counted it.
-/
def DshmProc.attachments (proc : DshmProc) (kdshmp : Nat) : Int :=
  proc.segacct.countP (fun sap => sap.saKdshmp = kdshmp) +
    match proc.activity with
    | .detaching other => if other = kdshmp then 1 else 0
    | .counting _ other _ => if other = kdshmp then -1 else 0
    | _ => 0

/-- The directory, the descriptors, the processes and the memory objects. -/
structure DshmState where
  entries : Nat → Option Nat
  kdshmids : Nat → Kdshmid
  procs : Nat → DshmProc
  nextMemory : Nat
  released : List Nat

namespace DshmState

/-- A process changes. -/
def setProc (state : DshmState) (process : Nat) (proc : DshmProc) : DshmState :=
  { state with procs := update state.procs process proc }

/-- A descriptor changes. -/
def setKdshmid (state : DshmState) (kdshmp : Nat) (kdshmid : Kdshmid) : DshmState :=
  { state with kdshmids := update state.kdshmids kdshmp kdshmid }

def attachments (nproc : Nat) (state : DshmState) (kdshmp : Nat) : Int :=
  ∑ process ∈ Finset.range nproc, (state.procs process).attachments kdshmp

/-- `dshmget` with a new entry; `created` tells whether there was enough memory. -/
def dshmgetNew (dshmmin : Nat) (state : DshmState) (slot kdshmp : Nat) (uap : DshmGeta)
    (created : Bool) : DshmState :=
  let kdshmid := (state.kdshmids kdshmp).setParameters uap
  if dshmgetAccepts dshmmin uap ∧ created then
    { state.setKdshmid kdshmp
        { kdshmid with
          kdshmRefcnt := 1
          ipcAlloc := true
          memory := some state.nextMemory } with
      entries := update state.entries slot (some kdshmp)
      nextMemory := state.nextMemory + 1 }
  else
    state.setKdshmid kdshmp kdshmid

/-- `segumap_delete_obj` and `dshmdealloc`. -/
def destroy (state : DshmState) (kdshmp : Nat) : DshmState :=
  let kdshmid := state.kdshmids kdshmp
  { state.setKdshmid kdshmp { kdshmid with ipcAlloc := false, memory := none } with
    released := state.released ++ kdshmid.memory.toList }

/-- The reference count goes down, and the segment goes with the last one. -/
def dropReference (state : DshmState) (kdshmp : Nat) : DshmState :=
  let kdshmid := state.kdshmids kdshmp
  let dropped := state.setKdshmid kdshmp { kdshmid with kdshmRefcnt := kdshmid.kdshmRefcnt - 1 }
  if kdshmid.kdshmRefcnt - 1 = 0 then dropped.destroy kdshmp else dropped

/--
`dshmat` behind `dshmconv`.  `denied` are the tests up to `p_nlwp`, `gap` is the result of
`dshmaddr`, and `mapped` that of `dshmmmap`.
-/
def dshmat (shmseg : Int) (state : DshmState) (process kdshmp : Nat)
    (denied gap mapped : Bool) : DshmState :=
  let proc := state.procs process
  let kdshmid := state.kdshmids kdshmp
  if denied then
    state
  else if proc.nshmseg ≥ shmseg then
    state.setProc process { proc with nshmseg := proc.nshmseg + 1 - 1 }
  else if !gap then
    state.setProc process { proc with nshmseg := proc.nshmseg + 1 - 1 }
  else if !mapped then
    state.setProc process { proc with nshmseg := proc.nshmseg + 1 - 1 }
  else
    (state.setProc process
      { proc with
        segacct := shmAdd ⟨kdshmid.dmapaddr, kdshmid.dmapsize, kdshmp, kdshmid.memory⟩ proc.segacct
        nshmseg := proc.nshmseg + 1 }).setKdshmid kdshmp
      { kdshmid with kdshmRefcnt := kdshmid.kdshmRefcnt + 1 }

/-- The first section of `kdshmdt`. -/
def kdshmdtUnmap (state : DshmState) (process : Nat) (sap : Segacct) : DshmState :=
  let proc := state.procs process
  state.setProc process
    { segacct := shmDel sap.saAddr proc.segacct
      nshmseg := proc.nshmseg - 1
      activity := .detaching sap.saKdshmp }

/-- The second section of `kdshmdt`. -/
def kdshmdtDrop (state : DshmState) (process kdshmp : Nat) : DshmState := (state.setProc process
    { state.procs process with activity := .idle }).dropReference kdshmp

def ipcRmid (state : DshmState) (slot kdshmp : Nat) (denied : Bool) : DshmState :=
  if denied then
    state
  else
    { state with
      entries := update state.entries slot none }.dropReference kdshmp

/-- A child is set up, with a copy of the address space. -/
def forkStart (state : DshmState) (process child : Nat) : DshmState :=
  let proc := state.procs process
  (state.setProc child ⟨[], proc.nshmseg, .newborn⟩).setProc process
    { proc with activity := .forking child proc.segacct }

/-- `shm_add` in `shmfork`. -/
def forkAdd (state : DshmState) (process child : Nat) (sap : Segacct)
    (rest : List Segacct) : DshmState :=
  let childProc := state.procs child
  (state.setProc child { childProc with segacct := shmAdd sap childProc.segacct }).setProc process
    { state.procs process with activity := .counting child sap.saKdshmp rest }

/-- The reference of the child. -/
def forkCount (state : DshmState) (process child kdshmp : Nat) (rest : List Segacct) : DshmState :=
  let kdshmid := state.kdshmids kdshmp
  (state.setProc process { state.procs process with activity := .forking child rest }).setKdshmid
    kdshmp { kdshmid with kdshmRefcnt := kdshmid.kdshmRefcnt + 1 }

/-- The child runs. -/
def forkDone (state : DshmState) (process child : Nat) : DshmState := (state.setProc child
    { state.procs child with activity := .idle }).setProc process
    { state.procs process with activity := .idle }

end DshmState

/-- Nothing exists but the first process. -/
def dshmBoot : DshmState where
  entries := fun _ => none
  kdshmids := fun _ => ⟨0, 0, 0, 0, 0, 0, false, none⟩
  procs := update (fun _ => absentProc) 0 ⟨[], 0, .idle⟩
  nextMemory := 0
  released := []

/-- What may happen to segments and attachments. -/
inductive DshmAction where
  | get (slot kdshmp : Nat)
  | attach (process slot : Nat)
  | unmap (process : Nat)
  | drop (process : Nat)
  | forkStart (process child : Nat)
  | forkAdd (process : Nat)
  | forkCount (process : Nat)
  | forkDone (process : Nat)
  | exit (process : Nat)
  | remove (slot : Nat)
  deriving DecidableEq

inductive DshmStep (nproc dshmmin : Nat) (shmseg : Int) (before : DshmState) :
    DshmAction → DshmState → Prop where
  | get {slot kdshmp : Nat} (uap : DshmGeta) (created : Bool) (noEntry : before.entries slot = none)
      (free : (before.kdshmids kdshmp).ipcAlloc = false) :
      DshmStep nproc dshmmin shmseg before (.get slot kdshmp)
        (before.dshmgetNew dshmmin slot kdshmp uap created)
  | attach {process slot kdshmp : Nat} (denied gap mapped : Bool)
      (runs : (before.procs process).activity = .idle) (entry : before.entries slot = some kdshmp) :
      DshmStep nproc dshmmin shmseg before (.attach process slot)
        (before.dshmat shmseg process kdshmp denied gap mapped)
  | unmap {process : Nat} {addr : UInt32} {sap : Segacct}
      (runs : (before.procs process).activity = .idle)
      (found : shmFind addr (before.procs process).segacct = some sap) :
      DshmStep nproc dshmmin shmseg before (.unmap process) (before.kdshmdtUnmap process sap)
  | drop {process kdshmp : Nat} (detaching : (before.procs process).activity = .detaching kdshmp) :
      DshmStep nproc dshmmin shmseg before (.drop process) (before.kdshmdtDrop process kdshmp)
  | forkStart {process child : Nat} (runs : (before.procs process).activity = .idle)
      (inside : child < nproc) (absent : (before.procs child).activity = .absent) :
      DshmStep nproc dshmmin shmseg before (.forkStart process child)
        (before.forkStart process child)
  | forkAdd {process child : Nat} {sap : Segacct} {rest : List Segacct} (forking :
      (before.procs process).activity = .forking child (sap :: rest)) :
      DshmStep nproc dshmmin shmseg before (.forkAdd process)
        (before.forkAdd process child sap rest)
  | forkCount {process child kdshmp : Nat} {rest : List Segacct} (counting :
      (before.procs process).activity = .counting child kdshmp rest) :
      DshmStep nproc dshmmin shmseg before (.forkCount process)
        (before.forkCount process child kdshmp rest)
  | forkDone {process child : Nat} (forking : (before.procs process).activity = .forking child []) :
      DshmStep nproc dshmmin shmseg before (.forkDone process) (before.forkDone process child)
  | exit {process : Nat} (runs : (before.procs process).activity = .idle)
      (none_ : (before.procs process).segacct = []) :
      DshmStep nproc dshmmin shmseg before (.exit process) (before.setProc process absentProc)
  | remove {slot kdshmp : Nat} (denied : Bool) (entry : before.entries slot = some kdshmp) :
      DshmStep nproc dshmmin shmseg before (.remove slot) (before.ipcRmid slot kdshmp denied)

/-- What holds of segments, attachments and memory. -/
structure DshmWell (nproc : Nat) (state : DshmState) : Prop where
  /-- A segment in the directory has one reference more than attachments. -/
  present : ∀ slot kdshmp, state.entries slot = some kdshmp →
      (state.kdshmids kdshmp).ipcAlloc = true ∧ (state.kdshmids kdshmp).kdshmRefcnt =
          1 + state.attachments nproc kdshmp
  /-- A removed segment has as many, and it has some. -/
  removed : ∀ kdshmp, (state.kdshmids kdshmp).ipcAlloc = true →
      (∀ slot, state.entries slot ≠ some kdshmp) → (state.kdshmids kdshmp).kdshmRefcnt =
          state.attachments nproc kdshmp ∧ 0 < state.attachments nproc kdshmp
  /-- No memory is released twice. -/
  releasedOnce : state.released.Nodup
  /-- Memory is released when its segment does not exist any more. -/
  released : ∀ memory, memory ∈ state.released ↔ memory < state.nextMemory ∧
      ∀ kdshmp, (state.kdshmids kdshmp).ipcAlloc = true →
        (state.kdshmids kdshmp).memory ≠ some memory
  /-- An attachment is to an existing segment and has its memory. -/
  attached : ∀ process sap, sap ∈ (state.procs process).segacct →
      (state.kdshmids sap.saKdshmp).ipcAlloc = true ∧ ∃ memory, sap.memory = some memory ∧
          (state.kdshmids sap.saKdshmp).memory = some memory ∧ memory ∉ state.released

end Uw7.Ipc
