import Uw7.Iobitmap.Control

namespace Uw7.Iobitmap

/-!
# Ownership of TSSs and agreement of the bitmaps

An LWP without a TSS of its own either has none or shares the process's TSS;
every other TSS belongs to exactly one LWP.  An LWP's own TSS agrees with the
process's whenever their generations are equal.  While a request is being
carried out the agreement is suspended for some LWPs, the *exempt* ones.
-/

open Lib

/-- The processor lets a task with this TSS use the port. -/
def Stss.grants (stss : Stss) (port : Port) : Bool := decide (stss.tss.bitmapbase = sizeofTss386) &&
    (decide (bidx port < stss.allocsz) && !stss.bitmap port)

/-- `IOB_CHECK` finds the port enabled in this TSS. -/
def Stss.permits (stss : Stss) (port : Port) : Bool :=
  decide (bidx port < stss.allocsz) && !stss.bitmap port

variable {nlwp : Nat}

/-- The ports that an LWP may use. -/
def lwpGrants (proc : Proc nlwp) (lwp : Fin nlwp) (port : Port) : Bool :=
  ((proc.ltssp lwp).bind proc.heap.cell).elim false (Stss.grants · port)

/-- The ports enabled in the process's current bitmap. -/
def processGrants (proc : Proc nlwp) (port : Port) : Bool :=
  (proc.tssp.bind proc.heap.cell).elim false (Stss.permits · port)

/-- What holds of a TSS that an LWP has to itself. -/
structure OwnTss (ptss ltss : Stss) (exempt : Prop) : Prop where
  refcnt : ltss.refcnt = 1
  fits : ltss.allocsz ≤ ptss.allocsz
  current : ¬ exempt → ltss.gencnt = ptss.gencnt → ∀ port, ltss.grants port = ptss.permits port

/-- The process has a TSS, and every LWP's TSS is accounted for. -/
structure Allocated (proc : Proc nlwp) (process : Nat) (ptss : Stss)
    (exempt : Fin nlwp → Prop) : Prop where
  bounded : proc.heap.Bounded
  isProcess : proc.tssp = some process
  stored : proc.heap.cell process = some ptss
  room : sizeofStss ≤ ptss.allocsz
  based : sizeofStss < ptss.allocsz → ptss.tss.bitmapbase = sizeofTss386
  injective : ∀ lwp other address, proc.ltssp lwp = some address → proc.ltssp other = some address →
      lwp = other
  references : (ptss.refcnt = 1 ∧ ∀ lwp, proc.ltssp lwp ≠ some process) ∨
      (ptss.refcnt = 2 ∧ ∃ lwp, proc.ltssp lwp = some process)
  own : ∀ lwp address, proc.ltssp lwp = some address → address ≠ process → ∃ ltss,
      proc.heap.cell address = some ltss ∧ OwnTss ptss ltss (exempt lwp)

/-- Neither the process nor an LWP has a TSS. -/
structure Unallocated (proc : Proc nlwp) : Prop where
  bounded : proc.heap.Bounded
  noProcess : proc.tssp = none
  noLwp : ∀ lwp, proc.ltssp lwp = none

/--
Nobody is exempt.  A lone LWP keeps a TSS of its own only after `bindproc`
failed in a request that had replaced the process's TSS.
-/
def Coherent (proc : Proc nlwp) : Prop := Unallocated proc ∨ ∃ process ptss,
    Allocated proc process ptss (fun _ => False) ∧ (nlwp = 1 →
        ptss.gencnt = 0 ∨ ∀ lwp, proc.ltssp lwp = some process)

theorem sizeofStss_le_bidx (port : Port) : sizeofStss ≤ bidx port := Nat.le_add_right _ _

theorem neededSize_bounds (ports : List Port) :
    sizeofStss < neededSize ports ∧ neededSize ports < 2 ^ 16 := by
  simp only [neededSize, bidx, sizeofStss]
  omega

section

variable {proc : Proc nlwp} {process : Nat} {ptss : Stss} {exempt : Fin nlwp → Prop}
  (allocated : Allocated proc process ptss exempt)
include allocated

theorem Allocated.grants_process (port : Port) : ptss.grants port = ptss.permits port := by
  unfold Stss.grants Stss.permits
  by_cases inside : bidx port < ptss.allocsz
  · have lowest := sizeofStss_le_bidx port
    simp [inside, allocated.based (by omega)]
  · simp [inside]

theorem Allocated.held_lt_next (lwp : Fin nlwp) (address : Nat)
    (held : proc.ltssp lwp = some address) : address < proc.heap.next := by
  by_cases isProcess : address = process
  · exact isProcess ▸ allocated.bounded.lt_next allocated.stored
  · obtain ⟨ltss, stored, -⟩ := allocated.own lwp address held isProcess
    exact allocated.bounded.lt_next stored

end

theorem grants_copyBitmap {ptss ltss : Stss} (sameSize : ltss.allocsz = ptss.allocsz)
    (port : Port) : (copyBitmap ptss ltss).grants port = ptss.permits port := by
  unfold Stss.grants Stss.permits copyBitmap
  by_cases inside : bidx port < ptss.allocsz
  · have lowest := sizeofStss_le_bidx port
    have larger : ptss.allocsz - sizeofStss ≠ 0 := by omega
    simp [sameSize, inside, larger]
  · simp [sameSize, inside]

section Changing

variable {proc : Proc nlwp} {process : Nat} {ptss : Stss}

/-- The generation of the TSS that an LWP uses. -/
def copyGeneration (proc : Proc nlwp) (lwp : Fin nlwp) : Option Nat :=
  ((proc.ltssp lwp).bind proc.heap.cell).map Stss.gencnt

section

variable {exempt : Fin nlwp → Prop} (allocated : Allocated proc process ptss exempt)
include allocated

theorem Allocated.discharge {kept : Fin nlwp → Prop}
    (differ : ∀ lwp, exempt lwp → ¬ kept lwp → proc.ltssp lwp ≠ some process →
      copyGeneration proc lwp ≠ some ptss.gencnt) :
    Allocated proc process ptss kept where
  __ := allocated
  own := by
    intro lwp address held notProcess
    obtain ⟨ltss, stored, owned⟩ := allocated.own lwp address held notProcess
    refine ⟨ltss, stored, owned.refcnt, owned.fits, ?_⟩
    intro notKept sameGeneration
    by_cases wasExempt : exempt lwp
    · refine absurd ?_ (differ lwp wasExempt notKept (by simp [held, notProcess]))
      simp [copyGeneration, held, stored, sameGeneration]
    · exact owned.current wasExempt sameGeneration

theorem Allocated.weaken {wider : Fin nlwp → Prop} (included : ∀ lwp, exempt lwp → wider lwp) :
    Allocated proc process ptss wider :=
  allocated.discharge fun lwp isExempt notWider => absurd (included lwp isExempt) notWider

theorem Allocated.modify {after : Fin nlwp → Prop} (change : Stss → Stss)
    (sameSize : (change ptss).allocsz = ptss.allocsz)
    (sameCount : (change ptss).refcnt = ptss.refcnt)
    (sameBase : (change ptss).tss.bitmapbase = ptss.tss.bitmapbase)
    (kept : ∀ lwp, ¬ after lwp → ¬ exempt lwp ∧ (change ptss).gencnt = ptss.gencnt ∧
      ∀ port, (change ptss).permits port = ptss.permits port) :
    Allocated { proc with heap := proc.heap.modify process change }
      process (change ptss) after where
  __ := allocated
  bounded := allocated.bounded.modify _ _
  stored := by simp [allocated.stored]
  room := sameSize ▸ allocated.room
  based := by
    rw [sameSize, sameBase]
    exact allocated.based
  references := sameCount ▸ allocated.references
  own := by
    intro lwp address held notProcess
    obtain ⟨ltss, stored, owned⟩ := allocated.own lwp address held notProcess
    refine ⟨ltss, by simpa [notProcess] using stored, owned.refcnt, sameSize ▸ owned.fits, ?_⟩
    intro notExempt sameGeneration port
    obtain ⟨wasKept, generation, permits⟩ := kept lwp notExempt
    rw [permits]
    exact owned.current wasKept (sameGeneration.trans generation) port

theorem Allocated.modifyWhere {condition : Nat → Bool} {change : Stss → Stss}
    (notProcess : condition process = false)
    (sameSize : ∀ ltss, (change ltss).allocsz = ltss.allocsz)
    (sameCount : ∀ ltss, (change ltss).refcnt = ltss.refcnt) :
    Allocated { proc with heap := proc.heap.modifyWhere condition change }
      process ptss (fun _ => True) where
  __ := allocated
  bounded := allocated.bounded.modifyWhere _ _
  stored := by simpa [notProcess] using allocated.stored
  own := by
    intro lwp address held other
    obtain ⟨ltss, stored, owned⟩ := allocated.own lwp address held other
    by_cases changed : condition address
    · exact ⟨change ltss, by simp [changed, stored], (sameCount ltss).trans owned.refcnt,
        (sameSize ltss).trans_le owned.fits, by simp⟩
    · exact ⟨ltss, by simp [changed, stored], owned.refcnt, owned.fits, by simp⟩

end

end Changing

end Uw7.Iobitmap

namespace Uw7.Iobitmap

/-!
# Bringing one LWP up to date

`iobitmap_sync_l` ends the exemption of the LWP that runs it, whichever of its
three ways it takes: sharing the process's TSS, refreshing the LWP's own TSS, or
replacing it.
-/

open Lib

variable {nlwp : Nat} {proc : Proc nlwp} {me : Fin nlwp}
variable {process : Nat} {ptss : Stss}

/-- The state that `iobitmap_sync_l` leaves for the calling LWP. -/
structure SyncedTo (proc : Proc nlwp) (me : Fin nlwp) (process : Nat) (ptss : Stss)
    (after : Proc nlwp) : Prop where
  allocated : ∃ refcnt, Allocated after process { ptss with refcnt } (fun _ => False)
  lock : after.tsslock = proc.tsslock
  granted : ∀ port, lwpGrants after me port = ptss.permits port
  sole : (∀ lwp, proc.ltssp lwp ≠ some process) → after.ltssp me = some process

/-- The calling LWP is brought up to date, and no other exemption ends. -/
structure CallerSynced (proc : Proc nlwp) (me : Fin nlwp) (process : Nat) (ptss : Stss)
    (exempt : Fin nlwp → Prop) (after : Proc nlwp) : Prop where
  allocated : ∃ refcnt, Allocated after process { ptss with refcnt }
      (fun lwp => exempt lwp ∧ lwp ≠ me)
  lock : after.tsslock = proc.tsslock
  granted : ∀ port, lwpGrants after me port = ptss.permits port
  sole : (∀ lwp, proc.ltssp lwp ≠ some process) → after.ltssp me = some process

theorem CallerSynced.syncedTo {after : Proc nlwp}
    (synced : CallerSynced proc me process ptss (· = me) after) :
    SyncedTo proc me process ptss after where
  __ := synced
  allocated := by
    obtain ⟨refcnt, allocated⟩ := synced.allocated
    exact ⟨refcnt, allocated.weaken fun _ ⟨isMe, notMe⟩ => notMe isMe⟩

variable {address : Nat}

theorem cell_freeTss (other : proc.ltssp me ≠ some address) :
    (freeTss proc.heap (proc.ltssp me)).cell address = proc.heap.cell address := by
  cases held : proc.ltssp me with
  | none => rfl
  | some freed =>
    have different : address ≠ freed := by
      rintro rfl
      exact other held
    simp [freeTss, different]

@[simp] theorem next_freeTss (heap : Heap Stss) (held : Option Nat) :
    (freeTss heap held).next = heap.next := by
  cases held <;> rfl

theorem bounded_freeTss {heap : Heap Stss} (bounded : heap.Bounded) (held : Option Nat) :
    (freeTss heap held).Bounded := by
  cases held with
  | none => exact bounded
  | some address => exact bounded.free address

theorem Allocated.caller_apart {exempt : Fin nlwp → Prop}
    (allocated : Allocated proc process ptss exempt) {lwp : Fin nlwp}
    (other : lwp ≠ me) (held : proc.ltssp lwp = some address) : proc.ltssp me ≠ some address :=
  fun callerHolds => other (allocated.injective lwp me address held callerHolds)

section Sync

variable {exempt : Fin nlwp → Prop} (allocated : Allocated proc process ptss exempt)
  (notShared : proc.ltssp me ≠ some process)

include allocated notShared

theorem Allocated.share (unshared : ptss.refcnt = 1) : ∃ after, iobitmapSyncL proc me = some after ∧
    CallerSynced proc me process ptss exempt after := by
  have nobody : ∀ lwp, proc.ltssp lwp ≠ some process := by
    rcases allocated.references with ⟨-, nobody⟩ | ⟨two, -⟩
    · exact nobody
    · omega
  have stored : (freeTss proc.heap (proc.ltssp me)).cell process = some ptss :=
    (cell_freeTss notShared).trans allocated.stored
  refine ⟨shareTss proc me process,
    by simp [iobitmapSyncL, allocated.isProcess, allocated.stored, unshared],
    ⟨2, ?_⟩, rfl, ?_, fun _ => by simp [shareTss]⟩
  · exact
      { allocated with
        bounded := (bounded_freeTss allocated.bounded _).modify _ _
        stored := by simp [shareTss, stored, unshared]
        injective := by
          intro lwp other address held alsoHeld
          simp only [shareTss, Function.update_apply] at held alsoHeld
          split_ifs at held alsoHeld with isMe otherIsMe otherIsMe
          · exact isMe.trans otherIsMe.symm
          · exact absurd (held ▸ alsoHeld) (nobody other)
          · exact absurd (alsoHeld ▸ held) (nobody lwp)
          · exact allocated.injective lwp other address held alsoHeld
        references := .inr ⟨rfl, me, by simp [shareTss]⟩
        own := by
          intro lwp address held notProcess
          simp only [shareTss, Function.update_apply] at held
          split_ifs at held with isMe
          · exact absurd (Option.some.inj held).symm notProcess
          · obtain ⟨ltss, ownStored, owned⟩ := allocated.own lwp address held notProcess
            refine ⟨ltss, ?_, owned.refcnt, owned.fits, fun notExempt =>
              owned.current fun isExempt => notExempt ⟨isExempt, isMe⟩⟩
            have apart := allocated.caller_apart isMe held
            simpa [shareTss, notProcess, cell_freeTss apart] using ownStored }
  · intro port
    rw [← allocated.grants_process port]
    simp [lwpGrants, shareTss, stored, Stss.grants]

theorem Allocated.refresh (shared : ptss.refcnt ≠ 1)
    (reuse : reusable proc me ptss.allocsz = some address) :
    ∃ after, iobitmapSyncL proc me = some after ∧
      CallerSynced proc me process ptss exempt after := by
  obtain ⟨held, large⟩ := Option.filter_eq_some_iff.mp reuse
  have notProcess : address ≠ process := by
    rintro rfl
    exact notShared held
  obtain ⟨ltss, stored, owned⟩ := allocated.own me address held notProcess
  have sameSize : ltss.allocsz = ptss.allocsz := by
    simp only [stored, Option.any_some, decide_eq_true_eq] at large
    exact le_antisymm owned.fits large
  have current : ∀ port, (copyBitmap ptss (copyStkbase ptss ltss)).grants port =
      ptss.permits port := fun port => by
    have stkbaseSize : (copyStkbase ptss ltss).allocsz = ptss.allocsz := sameSize
    exact grants_copyBitmap stkbaseSize port
  refine ⟨refreshTss proc address ptss,
    by simp [iobitmapSyncL, allocated.isProcess, allocated.stored, shared, reuse],
    ⟨ptss.refcnt, ?_⟩, rfl, ?_, ?_⟩
  · exact
      { allocated with
        bounded := allocated.bounded.modify _ _
        stored := by simpa [refreshTss, notProcess.symm] using allocated.stored
        own := by
          intro lwp other otherHeld otherNotProcess
          by_cases isMe : lwp = me
          · subst lwp
            obtain rfl : address = other := Option.some.inj (held.symm.trans otherHeld)
            exact ⟨copyBitmap ptss (copyStkbase ptss ltss),
              by simp [refreshTss, stored], owned.refcnt, owned.fits, fun _ _ => current⟩
          · obtain ⟨otherTss, otherStored, otherOwned⟩ :=
              allocated.own lwp other otherHeld otherNotProcess
            have apart : other ≠ address := by
              rintro rfl
              exact isMe (allocated.injective lwp me other otherHeld held)
            exact ⟨otherTss, by simpa [refreshTss, apart] using otherStored,
              otherOwned.refcnt, otherOwned.fits, fun notExempt =>
                otherOwned.current fun isExempt => notExempt ⟨isExempt, isMe⟩⟩ }
  · intro port
    rw [lwpGrants, show (refreshTss proc address ptss).ltssp me = some address from held]
    simpa [refreshTss, stored] using current port
  · intro nobody
    rcases allocated.references with ⟨one, -⟩ | ⟨-, sharer, sharing⟩
    · exact absurd one shared
    · exact absurd sharing (nobody sharer)

theorem Allocated.replace (shared : ptss.refcnt ≠ 1)
    (reuse : reusable proc me ptss.allocsz = none) : ∃ after, iobitmapSyncL proc me = some after ∧
      CallerSynced proc me process ptss exempt after := by
  have processBelow := allocated.bounded.lt_next allocated.stored
  have heldBelow := allocated.held_lt_next
  have current : ∀ port, (lwpTss ptss).grants port = ptss.permits port := grants_copyBitmap rfl
  have otherSharer : ptss.refcnt = 2 ∧ ∃ lwp, lwp ≠ me ∧ proc.ltssp lwp = some process := by
    rcases allocated.references with ⟨one, -⟩ | ⟨two, sharer, sharing⟩
    · exact absurd one shared
    · refine ⟨two, sharer, ?_, sharing⟩
      rintro rfl
      exact notShared sharing
  obtain ⟨two, sharer, notMe, sharing⟩ := otherSharer
  refine ⟨replaceTss proc me ptss,
    by simp [iobitmapSyncL, allocated.isProcess, allocated.stored, shared, reuse],
    ⟨ptss.refcnt, ?_⟩, rfl, ?_, fun nobody => absurd sharing (nobody sharer)⟩
  · exact
      { allocated with
        bounded := (bounded_freeTss allocated.bounded _).alloc _
        stored := by
          simpa [replaceTss, processBelow.ne, cell_freeTss notShared] using allocated.stored
        injective := by
          intro lwp other address held alsoHeld
          simp only [replaceTss, Function.update_apply] at held alsoHeld
          split_ifs at held alsoHeld with isMe otherIsMe otherIsMe
          · exact isMe.trans otherIsMe.symm
          · have := heldBelow other address alsoHeld
            have := Option.some.inj held
            omega
          · have := heldBelow lwp address held
            have := Option.some.inj alsoHeld
            omega
          · exact allocated.injective lwp other address held alsoHeld
        references := .inr ⟨two, sharer, by simpa [replaceTss, notMe] using sharing⟩
        own := by
          intro lwp address held notProcess
          simp only [replaceTss, Function.update_apply] at held
          split_ifs at held with isMe
          · obtain rfl := Option.some.inj held
            exact ⟨lwpTss ptss, by simp [replaceTss], rfl, le_rfl, fun _ _ => current⟩
          · obtain ⟨ltss, stored, owned⟩ := allocated.own lwp address held notProcess
            have below := heldBelow lwp address held
            have apart := allocated.caller_apart isMe held
            exact ⟨ltss, by simpa [replaceTss, below.ne, cell_freeTss apart] using stored,
              owned.refcnt, owned.fits, fun notExempt =>
                owned.current fun isExempt => notExempt ⟨isExempt, isMe⟩⟩ }
  · intro port
    simpa [lwpGrants, replaceTss] using current port

theorem Allocated.syncExempt : ∃ after, iobitmapSyncL proc me = some after ∧
    CallerSynced proc me process ptss exempt after := by
  by_cases unshared : ptss.refcnt = 1
  · exact allocated.share notShared unshared
  · cases reuse : reusable proc me ptss.allocsz with
    | none => exact allocated.replace notShared unshared reuse
    | some address => exact allocated.refresh notShared unshared reuse

end Sync

theorem Allocated.sync (allocated : Allocated proc process ptss (· = me))
    (notShared : proc.ltssp me ≠ some process) :
    ∃ after, iobitmapSyncL proc me = some after ∧ SyncedTo proc me process ptss after := by
  obtain ⟨after, taken, synced⟩ := allocated.syncExempt notShared
  exact ⟨after, taken, synced.syncedTo⟩

end Uw7.Iobitmap
