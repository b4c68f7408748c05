import Uw7.Iobitmap.Generations

namespace Uw7.Iobitmap

/-!
# The bitmap of an LWP that has just synchronized

In every run whose requests leave a generation that no other LWP holds, an LWP
that runs `iobitmap_sync` may afterwards use exactly the ports of the process's
current bitmap.
-/

open Lib Option

variable {nlwp : Nat} {proc after : Proc nlwp} {me : Fin nlwp}
variable {process : Nat} {ptss : Stss} {globalTss : Tss386}

/-- The LWP's ports are those of the process, which did not change. -/
def UpToDate (before after : Proc nlwp) (me : Fin nlwp) : Prop := ∀ port,
    lwpGrants after me port = processGrants after port ∧
      processGrants after port = processGrants before port

section

variable (allocated : Allocated proc process ptss (fun _ => False))
include allocated

theorem Allocated.upToDate_syncL
    (notShared : proc.ltssp me ≠ some process) (taken : iobitmapSyncL proc me = some after) :
    UpToDate proc after me := by
  obtain ⟨synced, takes, state⟩ := (allocated.exemptCaller me).sync notShared
  obtain rfl : synced = after := some.inj (takes.symm.trans taken)
  obtain ⟨refcnt, current⟩ := state.allocated
  intro port
  have processAfter : processGrants synced port = ptss.permits port := by
    simp [processGrants, current.isProcess, current.stored, Stss.permits]
  have processBefore : processGrants proc port = ptss.permits port := by
    simp [processGrants, allocated.isProcess, allocated.stored]
  exact ⟨(state.granted port).trans processAfter.symm, processAfter.trans processBefore.symm⟩

theorem Allocated.upToDate_of_generation {address : Nat} {ltss : Stss}
    (held : proc.ltssp me = some address)
    (stored : proc.heap.cell address = some ltss) (generation : ltss.gencnt = ptss.gencnt) :
    UpToDate proc proc me := by
  intro port
  refine ⟨?_, rfl⟩
  have granted : ltss.grants port = ptss.permits port := by
    by_cases isProcess : address = process
    · subst address
      obtain rfl : ltss = ptss := some.inj (stored.symm.trans allocated.stored)
      exact allocated.grants_process port
    · obtain ⟨own, ownStored, owned⟩ := allocated.own me address held isProcess
      obtain rfl : ltss = own := some.inj (stored.symm.trans ownStored)
      exact owned.current id generation port
  simpa [lwpGrants, processGrants, held, stored, allocated.isProcess,
    allocated.stored] using granted

theorem Allocated.not_shared_of_generation {address : Nat} {ltss : Stss}
    (held : proc.ltssp me = some address)
    (stored : proc.heap.cell address = some ltss) (generation : ltss.gencnt ≠ ptss.gencnt) :
    proc.ltssp me ≠ some process := by
  rintro shares
  obtain rfl : address = process := some.inj (held.symm.trans shares)
  obtain rfl : ltss = ptss := some.inj (stored.symm.trans allocated.stored)
  exact generation rfl

theorem Allocated.coherent_syncL
    (notShared : proc.ltssp me ≠ some process) (taken : iobitmapSyncL proc me = some after) :
    Coherent after ∧ after.tsslock = proc.tsslock := by
  obtain ⟨synced, takes, coherent, lock⟩ := (allocated.exemptCaller me).coherent_syncCaller
  have same : synced = after := by
    rw [syncCaller, allocated.isProcess, if_pos notShared] at takes
    exact some.inj (takes.symm.trans taken)
  exact same ▸ ⟨coherent, lock⟩

end

theorem Consistent.iobitmapSync {resynced : Bool} (consistent : Consistent proc)
    (taken : iobitmapSync proc me = some (resynced, after)) :
    Consistent after ∧ UpToDate proc after me := by
  unfold Iobitmap.iobitmapSync at taken
  split_ifs at taken with locked
  have free : proc.tsslock = false ∧ Coherent proc := by
    rcases consistent with ⟨held, -⟩ | free
    · exact absurd held locked
    · exact free
  rcases free.2 with unallocated | ⟨process, ptss, allocated, lone⟩
  · simp only [unallocated.noProcess] at taken
    obtain ⟨-, rfl⟩ := Prod.mk.inj (some.inj taken)
    exact ⟨.inr free, fun port => ⟨by
      simp [lwpGrants, processGrants, unallocated.noLwp, unallocated.noProcess], rfl⟩⟩
  · simp only [allocated.isProcess, allocated.stored, bind_eq_bind, bind_some] at taken
    cases held : proc.ltssp me with
    | none =>
      simp only [held, bind_eq_some_iff] at taken
      obtain ⟨synced, syncs, result⟩ := taken
      obtain ⟨-, rfl⟩ := Prod.mk.inj (some.inj result)
      have notShared : proc.ltssp me ≠ some process := by simp [held]
      obtain ⟨coherent, lock⟩ := allocated.coherent_syncL notShared syncs
      exact ⟨.inr ⟨lock.trans free.1, coherent⟩, allocated.upToDate_syncL notShared syncs⟩
    | some address =>
      simp only [held, bind_eq_some_iff] at taken
      obtain ⟨ltss, stored, compared⟩ := taken
      split_ifs at compared with differs
      · obtain ⟨synced, syncs, result⟩ := Option.bind_eq_some_iff.mp compared
        obtain ⟨-, rfl⟩ := Prod.mk.inj (some.inj result)
        have notShared := allocated.not_shared_of_generation held stored differs
        obtain ⟨coherent, lock⟩ := allocated.coherent_syncL notShared syncs
        exact ⟨.inr ⟨lock.trans free.1, coherent⟩, allocated.upToDate_syncL notShared syncs⟩
      · obtain ⟨-, rfl⟩ := Prod.mk.inj (some.inj compared)
        exact ⟨.inr free, allocated.upToDate_of_generation held stored (not_not.mp differs)⟩

theorem CallStep.consistent {action : Fin nlwp × Call} (consistent : Consistent proc)
    (fresh : FreshGeneration proc action) (taken : CallStep globalTss proc action after) :
    Consistent after := by
  obtain ⟨lwp, call⟩ := action
  cases call with
  | iobitmapctl request ports caller =>
    obtain ⟨⟨result, final⟩, returned, rfl⟩ := map_eq_some_iff.mp taken
    exact consistent.iobitmapctl fresh returned
  | setSpecialSp sel esp =>
    obtain ⟨⟨result, final⟩, returned, rfl⟩ := map_eq_some_iff.mp taken
    exact consistent.setSpecialSp returned
  | iobitmapSync =>
    obtain ⟨⟨result, final⟩, returned, rfl⟩ := map_eq_some_iff.mp taken
    exact (consistent.iobitmapSync returned).1

theorem consistent_initial (nlwp : Nat) : Consistent (Proc.initial nlwp) :=
  .inr ⟨rfl, .inl ⟨fun _ _ => rfl, rfl, fun _ => rfl⟩⟩

theorem bitmap_current_after_sync (globalTss : Tss386) (calls : List (Fin nlwp × Call))
    (before after : Proc nlwp) (me : Fin nlwp) (resynced : Bool)
    (run : Run (Guarded (CallStep globalTss) FreshGeneration) (Proc.initial nlwp) calls before)
    (synced : iobitmapSync before me = some (resynced, after)) : UpToDate before after me :=
  have consistent : Consistent before := run.invariant (fun _ _ _ holds taken =>
      CallStep.consistent holds taken.2 taken.1) (consistent_initial nlwp)
  (consistent.iobitmapSync synced).2

/-- A global TSS without stack pointers or bitmap. -/
def sampleTss : Tss386 where
  stkbase := fun _ => default
  bitmapbase := tssNoBitmap

/-- A request on behalf of a driver that is not bound to a processor. -/
def enableUnbound (ports : List Port) : Call :=
  .iobitmapctl .enable ports { cfgBound := false, bindError := 0 }

theorem bitmap_current_after_sync_second : ∃ before after : Proc 2, ∃ resynced,
    iobitmapSync before 1 = some (resynced, after) ∧ processGrants before 0x10 = true ∧
      lwpGrants after 1 0x10 = true := by
  have executed : (perform sampleTss (Proc.initial 2) 0
      (enableUnbound [0x10, 0])).any (fun before =>
      (iobitmapSync before 1).isSome && processGrants before 0x10) = true := by
    decide +kernel
  obtain ⟨before, taken, rest⟩ := (any_eq_true _ _).mp executed
  obtain ⟨synchronizes, granted⟩ := Bool.and_eq_true_iff.mp rest
  obtain ⟨⟨resynced, after⟩, synced⟩ := isSome_iff_exists.mp synchronizes
  have fresh : FreshGeneration (Proc.initial 2) (0, enableUnbound [0x10, 0]) := ⟨fun _ _ holds => by
      simpa [copyGeneration, Proc.initial] using holds.2, fun several => by simp at several⟩
  have current := bitmap_current_after_sync sampleTss [(0, enableUnbound [0x10, 0])]
      before after 1 resynced (.single ⟨taken, fresh⟩) synced 0x10
  exact ⟨before, after, resynced, synced, granted, current.1.trans (current.2.trans granted)⟩

/--
The first LWP holds generation 1 when the second one's request replaces the
process's TSS and leaves generation 1 again: the first LWP synchronizes without
effect and keeps an invalidated bitmap.
-/
theorem stale_generation_not_detected : ∃ before after : Proc 2,
    Run (CallStep sampleTss) (Proc.initial 2)
      [(0, enableUnbound [0x10, 0]), (1, enableUnbound [0x2000, 0])] before ∧
      iobitmapSync before 0 = some (false, after) ∧ processGrants after 0x10 = true ∧
      lwpGrants after 0 0x10 = false ∧ ¬ UpToDate before after 0 := by
  have executed : (run? (fun proc action => perform sampleTss proc action.1 action.2)
      (Proc.initial 2)
      [(0, enableUnbound [0x10, 0]), (1, enableUnbound [0x2000, 0])]).any (fun before =>
      (iobitmapSync before 0).any fun result =>
        !result.1 && (processGrants result.2 0x10 && !lwpGrants result.2 0 0x10)) = true := by
    decide +kernel
  obtain ⟨before, ran, rest⟩ := (any_eq_true _ _).mp executed
  obtain ⟨⟨resynced, after⟩, synced, observed⟩ := (any_eq_true _ _).mp rest
  simp only [Bool.and_eq_true, Bool.not_eq_true'] at observed
  obtain ⟨notResynced, granted, denied⟩ := observed
  refine ⟨before, after, Run.of_run? ran, notResynced ▸ synced, granted, denied, ?_⟩
  intro current
  exact absurd ((current 0x10).1.symm.trans denied) (by simp [granted])

end Uw7.Iobitmap
