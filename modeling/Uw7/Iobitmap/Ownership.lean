import Uw7.Iobitmap.Current

namespace Uw7.Iobitmap

/-!
# Accounting for TSSs whatever the generations

Every TSS of a process stays accounted for in every run, also in one where
generations repeat: only the agreement of the bitmaps depends on them.  Each
request is described by what it leaves in the process's TSS.
-/

open Lib Option

variable {nlwp : Nat} {proc : Proc nlwp} {me : Fin nlwp}
variable {process : Nat} {ptss : Stss} {globalTss : Tss386}

/-- Every TSS is accounted for; the bitmaps of LWPs may be out of date. -/
def Owned (proc : Proc nlwp) : Prop := Unallocated proc ∨
    ∃ process ptss, Allocated proc process ptss (fun _ => True)

/-- The call does not wait for `p_tsslock`. -/
def Enters (proc : Proc nlwp) : Prop := (proc.tsslock && !singleThreaded proc) = false

variable {exempt : Fin nlwp → Prop}

theorem Allocated.withLock (allocated : Allocated proc process ptss exempt) (tsslock : Bool) :
    Allocated { proc with tsslock } process ptss exempt :=
  ⟨allocated.bounded, allocated.isProcess, allocated.stored,
    allocated.room, allocated.based, allocated.injective, allocated.references, allocated.own⟩

theorem Unallocated.withLock (unallocated : Unallocated proc) (tsslock : Bool) :
    Unallocated { proc with tsslock } :=
  ⟨unallocated.bounded, unallocated.noProcess, unallocated.noLwp⟩

theorem Owned.withLock (owned : Owned proc) (tsslock : Bool) : Owned { proc with tsslock } := by
  rcases owned with unallocated | ⟨process, ptss, allocated⟩
  · exact .inl (unallocated.withLock tsslock)
  · exact .inr ⟨process, ptss, allocated.withLock tsslock⟩

/-- The process keeps its TSS, with another count and generation. -/
def KeepsTss (proc : Proc nlwp) (process : Nat) (ptss : Stss) (after : Proc nlwp) : Prop :=
  (∃ refcnt gencnt, Allocated after process { ptss with refcnt, gencnt } (fun _ => True)) ∧
    after.tsslock = proc.tsslock

theorem Allocated.keepsTss_syncCaller (allocated : Allocated proc process ptss (fun _ => True))
    (me : Fin nlwp) :
    ∃ after, syncCaller proc me = some after ∧ KeepsTss proc process ptss after := by
  by_cases shares : proc.ltssp me = some process
  · exact ⟨proc, by simp [syncCaller, shares, allocated.isProcess],
      ⟨ptss.refcnt, ptss.gencnt, allocated⟩, rfl⟩
  · obtain ⟨after, taken, synced⟩ := allocated.syncExempt shares
    obtain ⟨refcnt, kept⟩ := synced.allocated
    exact ⟨after, by simpa [syncCaller, shares, allocated.isProcess] using taken,
      ⟨refcnt, ptss.gencnt, kept.weaken fun _ _ => trivial⟩, synced.lock⟩

theorem Allocated.keepsTss_publishChange (allocated : Allocated proc process ptss (fun _ => True))
    (me : Fin nlwp) :
    ∃ after, publishChange proc me process = some after ∧ KeepsTss proc process ptss after := by
  have advanced : Allocated
      { proc with
        heap := proc.heap.modify process fun stss =>
          { stss with gencnt := (stss.gencnt + 1) % 2 ^ 32 } }
      process
      { ptss with gencnt := (ptss.gencnt + 1) % 2 ^ 32 } (fun _ => True) :=
    allocated.modify (fun stss =>
      { stss with gencnt := (stss.gencnt + 1) % 2 ^ 32 })
      rfl rfl rfl (by simp)
  obtain ⟨after, taken, ⟨refcnt, gencnt, kept⟩, lock⟩ :=
    advanced.invalidateOthers.keepsTss_syncCaller me
  refine ⟨after, taken, ⟨refcnt, gencnt, kept⟩, lock.trans ?_⟩
  unfold Iobitmap.invalidateOthers
  split_ifs <;> rfl

def processSize (proc : Proc nlwp) : Nat := (proc.tssp.bind proc.heap.cell).elim 0 Stss.allocsz

def bitmapGeneration (proc : Proc nlwp) : Option Nat :=
  (proc.tssp.bind proc.heap.cell).map Stss.gencnt

/-- A TSS large enough for the listed ports, with the bits of the old one. -/
structure RoomMade (before : Proc nlwp) (ports : List Port) (grown : Proc nlwp) (process : Nat)
    (ptss : Stss) : Prop where
  allocated : Allocated grown process ptss (fun _ => True)
  ltssp : grown.ltssp = before.ltssp
  lock : grown.tsslock = before.tsslock
  iobcount : grown.iobcount = before.iobcount
  size : ptss.allocsz = max (neededSize ports) (processSize before)
  permits : ∀ port, ptss.permits port = processGrants before port
  generation : some ptss.gencnt =
      if processSize before < neededSize ports then
        some 0
      else
        bitmapGeneration before
  lwps : ∀ lwp port, lwpGrants grown lwp port = lwpGrants before lwp port

theorem Allocated.needsNewTss_eq
    (allocated : Allocated proc process ptss exempt) (ports : List Port) :
    needsNewTss proc ports = decide (ptss.allocsz < neededSize ports) := by
  simp [needsNewTss, allocated.isProcess, allocated.stored]

theorem Allocated.process_eq (allocated : Allocated proc process ptss exempt) :
    processSize proc = ptss.allocsz ∧ bitmapGeneration proc = some ptss.gencnt ∧
      ∀ port, processGrants proc port = ptss.permits port := by
  simp [processSize, bitmapGeneration, processGrants, allocated.isProcess, allocated.stored]

theorem Unallocated.process_eq (unallocated : Unallocated proc) : processSize proc = 0 ∧
    bitmapGeneration proc = none ∧ ∀ port, processGrants proc port = false := by
  simp [processSize, bitmapGeneration, processGrants, unallocated.noProcess]

/-- `IOB_ENABLE` makes room before it changes a bit. -/
theorem Owned.growTss (owned : Owned proc) (globalTss : Tss386) (ports : List Port) :
    ∃ grown process ptss, growTss globalTss proc ports = some grown ∧
      RoomMade proc ports grown process ptss := by
  obtain ⟨lower, upper⟩ := neededSize_bounds ports
  rcases owned with unallocated | ⟨process, ptss, allocated⟩
  · obtain ⟨size, -, grants⟩ := unallocated.process_eq
    have needed : needsNewTss proc ports = true := by simp [needsNewTss, unallocated.noProcess]
    obtain ⟨grown, installed, ltssp, lock, iobcount, allocated⟩ :=
      unallocated.installNewTss globalTss ports
    refine ⟨grown, proc.heap.next, enlarged globalTss none (neededSize ports),
      by simpa [Iobitmap.growTss, needed] using installed, ?_⟩
    exact
      { allocated := allocated.weaken fun _ _ => trivial
        ltssp := ltssp
        lock := lock
        iobcount := iobcount
        size := by
          rw [size, Nat.max_zero]
          exact Nat.mod_eq_of_lt upper
        permits := by simp [Stss.permits, enlarged, grants]
        generation := by
          have positive : processSize proc < neededSize ports := by
            rw [size]
            exact (Nat.zero_le _).trans_lt lower
          rw [if_pos positive]
          rfl
        lwps := by simp [lwpGrants, ltssp, unallocated.noLwp] }
  · obtain ⟨size, generation, grants⟩ := allocated.process_eq
    by_cases larger : ptss.allocsz < neededSize ports
    · have needed : needsNewTss proc ports = true := by
        simp [allocated.needsNewTss_eq, larger]
      obtain ⟨grown, installed, ltssp, lock, iobcount, copies, -, grownAllocated⟩ :=
        allocated.installNewTss globalTss ports larger
      refine ⟨grown, proc.heap.next, enlarged globalTss (some ptss) (neededSize ports),
        by simpa [Iobitmap.growTss, needed] using installed, ?_⟩
      exact
        { allocated := grownAllocated.weaken fun _ _ => trivial
          ltssp := ltssp
          lock := lock
          iobcount := iobcount
          size := by
            rw [size, max_eq_left larger.le]
            exact Nat.mod_eq_of_lt upper
          permits := fun port => (permits_enlarged upper larger port).trans (grants port).symm
          generation := by
            rw [size, if_pos larger]
            rfl
          lwps := fun lwp => lwpGrants_of_lwpCopy (copies lwp) }
    · have enough : needsNewTss proc ports = false := by
        simpa [allocated.needsNewTss_eq] using larger
      refine ⟨proc, process, ptss, by simp [Iobitmap.growTss, enough], ?_⟩
      exact
        { allocated := allocated
          ltssp := rfl
          lock := rfl
          iobcount := rfl
          size := by rw [size, max_eq_right (not_lt.mp larger)]
          permits := fun port => (grants port).symm
          generation := by rw [size, if_neg larger, generation]
          lwps := fun _ _ => rfl }

/-- The process's TSS after a request that set the given bits. -/
def BitsSet (process : Nat) (ptss : Stss) (bitmap : Port → Bool) (after : Proc nlwp) : Prop :=
  (∃ refcnt gencnt, Allocated after process { ptss with bitmap, refcnt, gencnt } (fun _ => True)) ∧
    after.tsslock = false

theorem Allocated.bitsSet (allocated : Allocated proc process ptss (fun _ => True)) (me : Fin nlwp)
    (scan : Scan) :
    ∃ published, publishChange (Iobitmap.storeScan proc process scan) me process = some published ∧
      BitsSet process ptss scan.bitmap (unlockTss published) := by
  obtain ⟨published, taken, ⟨refcnt, gencnt, kept⟩, -⟩ :=
    (allocated.storeScan scan).keepsTss_publishChange me
  exact ⟨published, taken, ⟨refcnt, gencnt, kept.withLock false⟩, rfl⟩

theorem Owned.enable (owned : Owned proc) (enters : Enters proc) (globalTss : Tss386)
    (me : Fin nlwp) (ports : List Port) (caller : Caller) :
    ∃ grown process ptss, RoomMade { proc with tsslock := !singleThreaded proc } ports
      grown process ptss ∧
      let scan := enableBits caller (listed ports) ptss.bitmap proc.iobcount
      (scan.error ≠ 0 → iobitmapctl globalTss proc me .enable ports caller =
        some (scan.error, storeScan grown process scan)) ∧
      (scan.error = 0 → ∃ after, iobitmapctl globalTss proc me .enable ports caller =
        some (0, after) ∧ BitsSet process ptss scan.bitmap after) := by
  obtain ⟨grown, process, ptss, grows, room⟩ :=
    (owned.withLock (!singleThreaded proc)).growTss globalTss ports
  refine ⟨grown, process, ptss, room, ?_, ?_⟩
  · intro refused
    have count : grown.iobcount = proc.iobcount := room.iobcount
    simp [iobitmapctl, show (_ && _) = false from enters, grows,
      room.allocated.isProcess, room.allocated.stored, count, refused]
  · intro accepted
    obtain ⟨published, taken, set⟩ := room.allocated.bitsSet me
      (enableBits caller (listed ports) ptss.bitmap proc.iobcount)
    refine ⟨unlockTss published, ?_, set⟩
    have count : grown.iobcount = proc.iobcount := room.iobcount
    simp [iobitmapctl, show (_ && _) = false from enters, grows,
      room.allocated.isProcess, room.allocated.stored, count, accepted, taken]

theorem Unallocated.leaves (unallocated : Unallocated proc) (enters : Enters proc)
    (globalTss : Tss386) (me : Fin nlwp) {command : Option IobRequest}
    (notEnable : command ≠ some .enable) (ports : List Port) (caller : Caller) :
    iobitmapctlCommand globalTss proc me command ports caller =
      some (0, { proc with tsslock := false }) := by
  have entering : (proc.tsslock && !singleThreaded proc) = false := enters
  have noProcess := unallocated.noProcess
  cases command with
  | none => simp [iobitmapctlCommand, iobitmapctlUnnamed, entering, noProcess, unlockTss]
  | some request =>
    cases request with
    | enable => exact absurd rfl notEnable
    | disable | check => simp [iobitmapctlCommand, iobitmapctl, entering, noProcess, unlockTss]

section

variable (allocated : Allocated proc process ptss (fun _ => True))
include allocated

theorem Allocated.disable
    (enters : Enters proc) (globalTss : Tss386) (me : Fin nlwp) (ports : List Port)
    (caller : Caller) :
    ∃ after, iobitmapctl globalTss proc me .disable ports caller = some (0, after) ∧
      BitsSet process ptss (disableBits caller ptss.allocsz (listed ports) ptss.bitmap
        proc.iobcount).bitmap
        after := by
  obtain ⟨published, taken, set⟩ := (allocated.withLock (!singleThreaded proc)).bitsSet me
    (disableBits caller ptss.allocsz (listed ports) ptss.bitmap proc.iobcount)
  refine ⟨unlockTss published, ?_, set⟩
  simp only [allocated.isProcess] at taken
  simp [iobitmapctl, show (_ && _) = false from enters,
    allocated.isProcess, allocated.stored, taken]

theorem Allocated.unnamed
    (enters : Enters proc) (me : Fin nlwp) : ∃ after, iobitmapctlUnnamed proc me = some (0, after) ∧
      BitsSet process ptss ptss.bitmap after := by
  obtain ⟨published, taken, ⟨refcnt, gencnt, kept⟩, -⟩ :=
    (allocated.withLock (!singleThreaded proc)).keepsTss_publishChange me
  refine ⟨unlockTss published, ?_, ⟨refcnt, gencnt, kept.withLock false⟩, rfl⟩
  simp only [allocated.isProcess] at taken
  simp [iobitmapctlUnnamed, show (_ && _) = false from enters, allocated.isProcess, taken]

theorem Allocated.check
    (enters : Enters proc) (globalTss : Tss386) (me : Fin nlwp) (ports : List Port)
    (caller : Caller) :
    iobitmapctl globalTss proc me .check ports caller = some (checkBits ptss (listed ports),
      { proc with tsslock := false }) := by
  simp [iobitmapctl, show (_ && _) = false from enters,
    allocated.isProcess, allocated.stored, unlockTss]

end

section Runs

variable {after : Proc nlwp}

theorem enters_of_command {command : Option IobRequest} {ports : List Port} {caller : Caller}
    {result : Nat}
    (taken : iobitmapctlCommand globalTss proc me command ports caller = some (result, after)) :
    Enters proc := by
  unfold Enters
  by_contra blocked
  have waits : (proc.tsslock && !singleThreaded proc) = true := by simpa using blocked
  cases command <;> simp [iobitmapctlCommand, iobitmapctlUnnamed, iobitmapctl, waits] at taken

theorem BitsSet.owned {bitmap : Port → Bool} (set : BitsSet process ptss bitmap after) :
    Owned after := by
  obtain ⟨⟨refcnt, gencnt, allocated⟩, -⟩ := set
  exact .inr ⟨process, _, allocated⟩

theorem Owned.iobitmapctlCommand (owned : Owned proc) (enters : Enters proc) (globalTss : Tss386)
    (me : Fin nlwp) (command : Option IobRequest) (ports : List Port) (caller : Caller) :
    ∃ result after, iobitmapctlCommand globalTss proc me command ports caller =
      some (result, after) ∧ Owned after := by
  by_cases isEnable : command = some .enable
  · subst isEnable
    obtain ⟨grown, process, ptss, room, refused, accepted⟩ :=
      owned.enable enters globalTss me ports caller
    by_cases error : (enableBits caller (listed ports) ptss.bitmap proc.iobcount).error = 0
    · obtain ⟨final, returned, set⟩ := accepted error
      exact ⟨_, _, returned, set.owned⟩
    · exact ⟨_, _, refused error, .inr ⟨process, _, room.allocated.storeScan _⟩⟩
  · rcases owned with unallocated | ⟨process, ptss, allocated⟩
    · exact ⟨_, _, unallocated.leaves enters globalTss me isEnable ports caller,
        .inl (unallocated.withLock false)⟩
    · cases command with
      | none =>
        obtain ⟨final, returned, set⟩ := allocated.unnamed enters me
        exact ⟨_, _, returned, set.owned⟩
      | some request =>
        cases request with
        | enable => exact absurd rfl isEnable
        | disable =>
          obtain ⟨final, returned, set⟩ := allocated.disable enters globalTss me ports caller
          exact ⟨_, _, returned, set.owned⟩
        | check =>
          exact ⟨_, _, allocated.check enters globalTss me ports caller,
            .inr ⟨process, ptss, allocated.withLock false⟩⟩

theorem Owned.of_command {command : Option IobRequest} {ports : List Port} {caller : Caller}
    {result : Nat} (owned : Owned proc) (taken :
      Iobitmap.iobitmapctlCommand globalTss proc me command ports caller = some (result, after)) :
    Owned after := by
  obtain ⟨_, _, returned, kept⟩ :=
    owned.iobitmapctlCommand (enters_of_command taken) globalTss me command ports caller
  obtain ⟨-, rfl⟩ := Prod.mk.inj (some.inj (returned.symm.trans taken))
  exact kept

theorem Owned.setSpecialSp {sel esp : Nat} {result : Option Errno} (owned : Owned proc) (taken :
    setSpecialSp globalTss proc me sel esp = some (result, after)) : Owned after := by
  simp only [Iobitmap.setSpecialSp] at taken
  split_ifs at taken with otherRing blocked
  · obtain ⟨-, rfl⟩ := Prod.mk.inj (some.inj taken)
    exact owned
  have finish : ∀ {created : Proc nlwp} {process : Nat} {ptss : Stss},
      Allocated created process ptss (fun _ => True) → ((created.tssp.bind fun process =>
        (syncCaller
          { created with
            heap := created.heap.modifyWhere (fun address =>
              address == process || (!singleThreaded proc && heldElsewhere created process address))
              (setStkbase (sel % 4) { tEsp := esp, tSs := sel }) }
          me).bind fun synced => some ((none : Option Errno), unlockTss synced)) =
          some (result, after)) →
      Owned after := by
    intro created process ptss allocated returned
    obtain ⟨synced, syncs, ⟨refcnt, gencnt, kept⟩, -⟩ := (allocated.setStkbase (fun address =>
      address == process || (!singleThreaded proc && heldElsewhere created process address))
      (sel % 4) { tEsp := esp, tSs := sel } (by simp)).keepsTss_syncCaller me
    simp only [allocated.isProcess] at syncs
    simp only [allocated.isProcess, bind_some, syncs] at returned
    obtain ⟨-, rfl⟩ := Prod.mk.inj (some.inj returned)
    exact .inr ⟨process, _, kept.withLock false⟩
  rcases owned with unallocated | ⟨process, ptss, allocated⟩
  · rw [unallocated.noProcess] at taken
    exact finish ((unallocated.special globalTss).weaken fun _ _ => trivial) taken
  · rw [allocated.isProcess] at taken
    exact finish allocated taken

theorem Owned.iobitmapSync {resynced : Bool} (owned : Owned proc)
    (taken : iobitmapSync proc me = some (resynced, after)) : Owned after := by
  unfold Iobitmap.iobitmapSync at taken
  split_ifs at taken with locked
  rcases owned with unallocated | ⟨process, ptss, allocated⟩
  · simp only [unallocated.noProcess] at taken
    obtain ⟨-, rfl⟩ := Prod.mk.inj (some.inj taken)
    exact .inl unallocated
  have synchronizes : proc.ltssp me ≠ some process → ((iobitmapSyncL proc me).bind fun synced =>
      some (true, synced)) = some (resynced, after) → Owned after := by
    intro notShared returned
    obtain ⟨synced, syncs, state⟩ := allocated.syncExempt notShared
    obtain ⟨refcnt, kept⟩ := state.allocated
    simp only [syncs, bind_some] at returned
    obtain ⟨-, rfl⟩ := Prod.mk.inj (some.inj returned)
    exact .inr ⟨process, _, kept.weaken fun _ _ => trivial⟩
  simp only [allocated.isProcess, allocated.stored, bind_eq_bind, bind_some] at taken
  cases held : proc.ltssp me with
  | none =>
    simp only [held] at taken
    exact synchronizes (by simp [held]) taken
  | some address =>
    simp only [held, bind_eq_some_iff] at taken
    obtain ⟨ltss, stored, compared⟩ := taken
    split_ifs at compared with differs
    · refine synchronizes ?_ compared
      intro shares
      obtain rfl : address = process := some.inj (held.symm.trans shares)
      exact differs (congrArg Stss.gencnt (some.inj (stored.symm.trans allocated.stored)))
    · obtain ⟨-, rfl⟩ := Prod.mk.inj (some.inj compared)
      exact .inr ⟨process, ptss, allocated⟩

/-- One call by one LWP, or one request without a name. -/
def AnyStep (globalTss : Tss386) (before : Proc nlwp) (action : Fin nlwp × Option Call)
    (after : Proc nlwp) : Prop :=
  match action.2 with
  | none => ∃ result, iobitmapctlUnnamed before action.1 = some (result, after)
  | some call => CallStep globalTss before (action.1, call) after

theorem AnyStep.owned {action : Fin nlwp × Option Call} (owned : Owned proc)
    (taken : AnyStep globalTss proc action after) : Owned after := by
  obtain ⟨lwp, called⟩ := action
  cases called with
  | none =>
    obtain ⟨result, returned⟩ := taken
    exact @Owned.of_command _ _ _ globalTss after none [] ⟨false, 0⟩ result owned returned
  | some call =>
    cases call with
    | iobitmapctl request ports caller =>
      obtain ⟨⟨result, final⟩, returned, rfl⟩ := map_eq_some_iff.mp taken
      exact @Owned.of_command _ _ _ _ final (some request) ports caller result owned returned
    | setSpecialSp sel esp =>
      obtain ⟨⟨result, final⟩, returned, rfl⟩ := map_eq_some_iff.mp taken
      exact owned.setSpecialSp returned
    | iobitmapSync =>
      obtain ⟨⟨result, final⟩, returned, rfl⟩ := map_eq_some_iff.mp taken
      exact owned.iobitmapSync returned

theorem owned_initial (nlwp : Nat) : Owned (Proc.initial nlwp) :=
  .inl ⟨fun _ _ => rfl, rfl, fun _ => rfl⟩

/-- In every run all TSSs are accounted for, and a request returns unless it waits. -/
theorem owned_of_run {actions : List (Fin nlwp × Option Call)}
    (run : Run (AnyStep globalTss) (Proc.initial nlwp) actions proc) :
    Owned proc ∧ ∀ me command ports caller,
      (iobitmapctlCommand globalTss proc me command ports caller).isSome = true ↔ Enters proc := by
  have owned : Owned proc :=
    run.invariant (fun _ _ _ owned => AnyStep.owned owned) (owned_initial nlwp)
  refine ⟨owned, fun me command ports caller => ⟨fun returns => ?_, fun enters => ?_⟩⟩
  · obtain ⟨_, taken⟩ := isSome_iff_exists.mp returns
    exact enters_of_command taken
  · obtain ⟨_, _, taken, -⟩ := owned.iobitmapctlCommand enters globalTss me command ports caller
    exact isSome_iff_exists.mpr ⟨_, taken⟩

theorem owned_of_run_enabled : ∃ proc : Proc 2, processGrants proc 0x10 = true ∧ Owned proc := by
  have executed : (perform sampleTss (Proc.initial 2) 0 (enableUnbound [0x10, 0])).any
      (processGrants · 0x10) = true := by
    decide +kernel
  obtain ⟨proc, taken, granted⟩ := (any_eq_true _ _).mp executed
  have run : Run (AnyStep sampleTss) (Proc.initial 2) [(0, some (enableUnbound [0x10, 0]))] proc :=
    .single taken
  exact ⟨proc, granted, (owned_of_run run).1⟩

end Runs

end Uw7.Iobitmap
