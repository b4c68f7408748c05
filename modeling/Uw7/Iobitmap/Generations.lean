import Mathlib.Tactic.Ring
import Uw7.Lib.Run
import Uw7.Iobitmap.Coherence

namespace Uw7.Iobitmap

/-!
# Generations over runs of requests

An LWP notices a change of the process's bitmap by comparing generations.  A
request that replaces the process's TSS starts the generation again.
-/

open Lib Nat Option

variable {nlwp : Nat} {proc : Proc nlwp} {me : Fin nlwp}
variable {process : Nat} {ptss : Stss} {globalTss : Tss386}

theorem Allocated.coherent_syncCaller (allocated : Allocated proc process ptss (· = me)) : ∃ after,
    syncCaller proc me = some after ∧ Coherent after ∧ after.tsslock = proc.tsslock := by
  by_cases shares : proc.ltssp me = some process
  · refine ⟨proc, by simp [syncCaller, shares, allocated.isProcess],
      .inr ⟨process, ptss, ?_, ?_⟩, rfl⟩
    · exact allocated.discharge fun lwp isMe _ notShared => absurd (isMe ▸ shares) notShared
    · rintro rfl
      exact .inr fun lwp => by rwa [Subsingleton.elim lwp me]
  · obtain ⟨after, taken, synced⟩ := allocated.sync shares
    obtain ⟨refcnt, coherent⟩ := synced.allocated
    refine ⟨after, by simpa [syncCaller, shares, allocated.isProcess] using taken,
      .inr ⟨process, _, coherent, ?_⟩, synced.lock⟩
    rintro rfl
    have nobody : ∀ lwp, proc.ltssp lwp ≠ some process := fun lwp => by
      rwa [Subsingleton.elim lwp me]
    exact .inr fun lwp => by
      rw [Subsingleton.elim lwp me]
      exact synced.sole nobody

theorem copyGeneration_invalidateOthers (lwp : Fin nlwp) :
    copyGeneration (invalidateOthers proc process) lwp = copyGeneration proc lwp := by
  unfold invalidateOthers
  split_ifs
  · rfl
  · cases held : proc.ltssp lwp with
    | none => simp [copyGeneration, held]
    | some address =>
      simp only [copyGeneration, held, bind_some, Heap.cell_modifyWhere]
      split_ifs <;> cases proc.heap.cell address <;> rfl

variable {exempt : Fin nlwp → Prop} {iobcount : Int} {before : Proc nlwp} {lwp : Fin nlwp}

theorem Allocated.invalidateOthers (allocated : Allocated proc process ptss exempt) :
    Allocated (invalidateOthers proc process) process ptss (fun _ => True) := by
  unfold Iobitmap.invalidateOthers
  split_ifs
  · exact allocated.weaken fun _ _ => trivial
  · exact allocated.modifyWhere (by simp [heldElsewhere]) (fun _ => rfl) (fun _ => rfl)

theorem Allocated.publish (allocated : Allocated proc process ptss (fun _ => True)) (me : Fin nlwp)
    (fresh : ∀ lwp, lwp ≠ me → proc.ltssp lwp ≠ some process →
      copyGeneration proc lwp ≠ some ((ptss.gencnt + 1) % 2 ^ 32)) :
    ∃ after, publishChange proc me process = some after ∧
      Coherent after ∧ after.tsslock = proc.tsslock := by
  have advanced : Allocated
      { proc with
        heap := proc.heap.modify process fun stss =>
          { stss with gencnt := (stss.gencnt + 1) % 2 ^ 32 } }
      process
      { ptss with gencnt := (ptss.gencnt + 1) % 2 ^ 32 } (fun _ => True) :=
    allocated.modify (fun stss =>
      { stss with gencnt := (stss.gencnt + 1) % 2 ^ 32 })
      rfl rfl rfl (by simp)
  have invalidated := advanced.invalidateOthers
  have current : Allocated (Iobitmap.invalidateOthers _ process) process _
      (· = me) := invalidated.discharge (by
    intro lwp _ notMe notShared
    have notHeld : proc.ltssp lwp ≠ some process := by
      unfold Iobitmap.invalidateOthers at notShared
      split_ifs at notShared <;> exact notShared
    rw [copyGeneration_invalidateOthers]
    have generations := fresh lwp notMe notHeld
    cases held : proc.ltssp lwp with
    | none => simp [copyGeneration, held]
    | some address =>
      have different : address ≠ process := fun same => notHeld (same ▸ held)
      simpa [copyGeneration, held, different] using generations)
  obtain ⟨after, taken, coherent, lock⟩ := current.coherent_syncCaller
  refine ⟨after, taken, coherent, lock.trans ?_⟩
  unfold Iobitmap.invalidateOthers
  split_ifs <;> rfl

theorem Allocated.exemptCaller (allocated : Allocated proc process ptss (fun _ => False))
    (me : Fin nlwp) : Allocated proc process ptss (· = me) :=
  allocated.weaken fun _ impossible => impossible.elim

section

variable (caller : Caller) (ports : List Port) (bitmap : Port → Bool)
include caller ports bitmap

theorem enableBits_error_of_pos (positive : 0 < iobcount) :
    (enableBits caller ports bitmap iobcount).error = 0 := by
  induction ports generalizing bitmap iobcount with
  | nil => rfl
  | cons port rest ih =>
    unfold enableBits
    split_ifs with bound refused
    · omega
    · exact ih _ (by omega)
    · exact ih _ positive

theorem enableBits_bitmap_of_error (nonnegative : 0 ≤ iobcount)
    (refused : (enableBits caller ports bitmap iobcount).error ≠ 0) :
    caller.cfgBound = true ∧ caller.bindError ≠ 0 ∧
      (enableBits caller ports bitmap iobcount).bitmap = bitmap := by
  induction ports generalizing bitmap iobcount with
  | nil => exact absurd rfl refused
  | cons port rest ih =>
    unfold enableBits at refused ⊢
    split_ifs at refused ⊢ with bound stops
    · simp only [Bool.and_eq_true] at bound
      exact ⟨bound.1, stops.2, rfl⟩
    · exact absurd (enableBits_error_of_pos caller rest _ (by omega)) refused
    · obtain ⟨cfgBound, failing, unchanged⟩ := ih _ nonnegative refused
      have clear : bitmap port = false := by simpa [cfgBound] using bound
      refine ⟨cfgBound, failing, unchanged.trans ?_⟩
      rw [← clear, Function.update_eq_self]

theorem enableBits_error_bound (iobcount : Int)
    (refused : (enableBits caller ports bitmap iobcount).error ≠ 0) :
    caller.cfgBound = true ∧ caller.bindError ≠ 0 := by
  induction ports generalizing bitmap iobcount with
  | nil => exact absurd rfl refused
  | cons port rest ih =>
    unfold enableBits at refused
    split_ifs at refused with bound stops
    · simp only [Bool.and_eq_true] at bound
      exact ⟨bound.1, stops.2⟩
    · exact ih _ _ refused
    · exact ih _ _ refused

end

theorem Allocated.storeScan (allocated : Allocated proc process ptss exempt) (scan : Scan) :
    Allocated (storeScan proc process scan) process
      { ptss with bitmap := scan.bitmap } (fun _ => True) where
  __ := allocated.modify (fun stss => { stss with bitmap := scan.bitmap }) rfl rfl rfl (by simp)

theorem permits_enlarged {allocsz : Nat} (small : allocsz < 2 ^ 16)
    (larger : ptss.allocsz < allocsz) (port : Port) :
    (enlarged globalTss (some ptss) allocsz).permits port = ptss.permits port := by
  simp only [Stss.permits, enlarged, mod_eq_of_lt small]
  by_cases inside : bidx port < ptss.allocsz
  · simp [inside, inside.trans larger]
  · simp [inside]

theorem Unallocated.installNewTss (unallocated : Unallocated proc) (globalTss : Tss386)
    (ports : List Port) :
    ∃ grown, installNewTss globalTss proc ports = some grown ∧ grown.ltssp = proc.ltssp ∧
      grown.tsslock = proc.tsslock ∧ grown.iobcount = proc.iobcount ∧
      Allocated grown proc.heap.next (enlarged globalTss none (neededSize ports))
        (fun _ => False) := by
  obtain ⟨lower, upper⟩ := neededSize_bounds ports
  refine ⟨placeTss proc proc.heap (enlarged globalTss none (neededSize ports)),
    by simp [Iobitmap.installNewTss, unallocated.noProcess],
    rfl, rfl, rfl, ?_⟩
  exact
    { bounded := unallocated.bounded.alloc _
      isProcess := rfl
      stored := by simp [placeTss]
      room := by simp only [enlarged, mod_eq_of_lt upper]; omega
      based := fun _ => rfl
      injective := by simp [placeTss, unallocated.noLwp]
      references := .inl ⟨rfl, by simp [placeTss, unallocated.noLwp]⟩
      own := by simp [placeTss, unallocated.noLwp] }

theorem cell_dropReference {address : Nat} (other : address ≠ process) :
    (dropReference proc.heap process ptss).cell address = proc.heap.cell address := by
  simp only [dropReference]
  split_ifs <;> simp [other]

@[simp] theorem next_dropReference :
    (dropReference proc.heap process ptss).next = proc.heap.next := by
  simp only [dropReference]
  split_ifs <;> rfl

theorem bounded_dropReference (bounded : proc.heap.Bounded) :
    (dropReference proc.heap process ptss).Bounded := by
  simp only [dropReference]
  split_ifs
  · exact bounded.free _
  · exact bounded.modify _ _

/-- What an LWP's TSS holds apart from its reference count. -/
def lwpCopy (proc : Proc nlwp) (lwp : Fin nlwp) : Option Stss :=
  ((proc.ltssp lwp).bind proc.heap.cell).map fun stss =>
    { stss with refcnt := 0 }

theorem lwpGrants_of_lwpCopy {after : Proc nlwp} (same : lwpCopy after lwp = lwpCopy before lwp)
    (port : Port) : lwpGrants after lwp port = lwpGrants before lwp port := by
  have granted : ∀ proc : Proc nlwp, lwpGrants proc lwp port =
      (lwpCopy proc lwp).elim false (Stss.grants · port) := by
    intro proc
    unfold lwpGrants lwpCopy
    cases (proc.ltssp lwp).bind proc.heap.cell <;> rfl
  rw [granted, granted, same]

theorem copyGeneration_of_lwpCopy {after : Proc nlwp}
    (same : lwpCopy after lwp = lwpCopy before lwp) :
    copyGeneration after lwp = copyGeneration before lwp := by
  have generation : ∀ proc : Proc nlwp, copyGeneration proc lwp =
      (lwpCopy proc lwp).map Stss.gencnt := by
    intro proc
    unfold copyGeneration lwpCopy
    cases (proc.ltssp lwp).bind proc.heap.cell <;> rfl
  rw [generation, generation, same]

/--
A larger TSS takes the place of the process's one.  The LWP that shared the old
TSS keeps it to itself and still agrees with the process.
-/
theorem Allocated.installNewTss (allocated : Allocated proc process ptss exempt)
    (globalTss : Tss386) (ports : List Port) (larger : ptss.allocsz < neededSize ports) :
    ∃ grown, installNewTss globalTss proc ports = some grown ∧ grown.ltssp = proc.ltssp ∧
      grown.tsslock = proc.tsslock ∧ grown.iobcount = proc.iobcount ∧
      (∀ lwp, lwpCopy grown lwp = lwpCopy proc lwp) ∧
      (∀ lwp, proc.ltssp lwp ≠ some proc.heap.next) ∧
      Allocated grown proc.heap.next (enlarged globalTss (some ptss) (neededSize ports)) (fun lwp =>
          exempt lwp ∨ (proc.ltssp lwp ≠ some process ∧ ptss.gencnt ≠ 0)) := by
  obtain ⟨lower, upper⟩ := neededSize_bounds ports
  have heldBelow := allocated.held_lt_next
  -- The sharer, if there is one, keeps the old TSS with one reference.
  have sharerKeeps : ∀ lwp, proc.ltssp lwp = some process →
      (dropReference proc.heap process ptss).cell process = some { ptss with refcnt := 1 } := by
    intro lwp sharing
    rcases allocated.references with ⟨-, nobody⟩ | ⟨two, -⟩
    · exact absurd sharing (nobody lwp)
    · simp [dropReference, two, allocated.stored]
  refine ⟨placeTss proc (dropReference proc.heap process ptss)
    (enlarged globalTss (some ptss) (neededSize ports)),
    by simp [Iobitmap.installNewTss, allocated.isProcess, allocated.stored],
    rfl, rfl, rfl, ?_, ?_, ?_⟩
  · intro lwp
    cases held : proc.ltssp lwp with
    | none => simp [lwpCopy, placeTss, held]
    | some address =>
      have below := heldBelow lwp address held
      by_cases isProcess : address = process
      · subst address
        simp [lwpCopy, placeTss, held, below.ne, sharerKeeps lwp held, allocated.stored]
      · simp [lwpCopy, placeTss, held, below.ne, cell_dropReference isProcess]
  · intro lwp held
    exact absurd (heldBelow lwp _ held) (lt_irrefl _)
  · exact
      { bounded := (bounded_dropReference allocated.bounded).alloc _
        isProcess := by simp [placeTss]
        stored := by simp [placeTss]
        room := by simp only [enlarged, mod_eq_of_lt upper]; omega
        based := fun _ => rfl
        injective := allocated.injective
        references := .inl ⟨rfl, fun lwp held => absurd (heldBelow lwp _ held) (lt_irrefl _)⟩
        own := by
          intro lwp address held _
          have below := heldBelow lwp address held
          by_cases isProcess : address = process
          · subst address
            refine ⟨{ ptss with refcnt := 1 }, by simp [placeTss, below.ne, sharerKeeps lwp held],
              rfl, ?_, ?_⟩
            · simp only [enlarged, mod_eq_of_lt upper]
              omega
            · intro _ _ port
              rw [permits_enlarged upper larger]
              exact allocated.grants_process port
          · obtain ⟨ltss, stored, owned⟩ := allocated.own lwp address held isProcess
            refine ⟨ltss, by simpa [placeTss, below.ne, cell_dropReference isProcess]
              using stored, owned.refcnt, ?_, ?_⟩
            · have := owned.fits
              simp only [enlarged, mod_eq_of_lt upper]
              omega
            · intro notExempt generation port
              have fromStart : ptss.gencnt = 0 := by
                by_contra started
                exact notExempt (.inr ⟨fun shares => isProcess (some.inj (held.symm.trans shares)),
                  started⟩)
              rw [permits_enlarged upper larger]
              exact owned.current (fun isExempt => notExempt (.inl isExempt))
                (generation.trans fromStart.symm) port }

theorem Allocated.setStkbase (allocated : Allocated proc process ptss exempt)
    (condition : Nat → Bool) (ring : Nat) (stkbase : TssStkbase)
    (included : condition process = true) : Allocated
      { proc with
        heap := proc.heap.modifyWhere condition (setStkbase ring stkbase) }
      process (setStkbase ring stkbase ptss) exempt where
  __ := allocated
  bounded := allocated.bounded.modifyWhere _ _
  stored := by simp [included, allocated.stored]
  own := by
    intro lwp address held notProcess
    obtain ⟨ltss, stored, owned⟩ := allocated.own lwp address held notProcess
    by_cases changed : condition address
    · exact ⟨Iobitmap.setStkbase ring stkbase ltss,
        by simp [changed, stored], owned.refcnt, owned.fits, owned.current⟩
    · exact ⟨ltss, by simp [changed, stored], owned.refcnt, owned.fits, owned.current⟩

theorem Unallocated.special (unallocated : Unallocated proc) (globalTss : Tss386) : Allocated
    (placeTss proc proc.heap (specialTss globalTss))
    proc.heap.next (specialTss globalTss) (fun _ => False) where
  bounded := unallocated.bounded.alloc _
  isProcess := rfl
  stored := by simp [placeTss]
  room := le_rfl
  based := fun larger => absurd larger (lt_irrefl _)
  injective := by simp [placeTss, unallocated.noLwp]
  references := .inl ⟨rfl, by simp [placeTss, unallocated.noLwp]⟩
  own := by simp [placeTss, unallocated.noLwp]

def processGeneration (proc : Proc nlwp) : Nat := (proc.tssp.bind proc.heap.cell).elim 0 Stss.gencnt

/-- The LWP will hold a TSS of its own, with the given generation. -/
def HoldsOwn (proc : Proc nlwp) (replaced : Bool) (lwp : Fin nlwp) (generation : Nat) : Prop :=
  (replaced = true ∨ proc.ltssp lwp ≠ proc.tssp) ∧ copyGeneration proc lwp = some generation

/-- The generation that a successful change leaves in the process's TSS. -/
def generationLeft (proc : Proc nlwp) (replaced : Bool) : Nat :=
  if replaced then 1 else (processGeneration proc + 1) % 2 ^ 32

/-- `bindproc` may refuse the request after the count has crossed zero. -/
def MayRefuseLate (proc : Proc nlwp) (caller : Caller) : Prop :=
  caller.cfgBound = true ∧ caller.bindError ≠ 0 ∧ proc.iobcount < 0

/--
No other LWP holds the generation that the call leaves behind, nor does a lone
LWP whose request is refused late.
-/
def FreshGeneration (before : Proc nlwp) (action : Fin nlwp × Call) : Prop :=
  match action.2 with
  | .iobitmapctl .enable ports caller =>
    (∀ lwp, lwp ≠ action.1 → ¬ HoldsOwn before (needsNewTss before ports) lwp
        (generationLeft before (needsNewTss before ports))) ∧
      (nlwp = 1 → MayRefuseLate before caller →
        ¬ HoldsOwn before (needsNewTss before ports) action.1 (if needsNewTss before ports then
            0
          else
            processGeneration before))
  | .iobitmapctl .disable _ _ =>
    ∀ lwp, lwp ≠ action.1 → ¬ HoldsOwn before false lwp (generationLeft before false)
  | _ => True

/-- The lock was left held for ever, or it is free and nobody is exempt. -/
def Consistent (proc : Proc nlwp) : Prop := (proc.tsslock = true ∧ nlwp ≠ 1) ∨
    (proc.tsslock = false ∧ Coherent proc)

theorem Coherent.withLock (coherent : Coherent proc) (tsslock : Bool) :
    Coherent { proc with tsslock } := by
  rcases coherent with unallocated | ⟨process, ptss, allocated, lone⟩
  · exact .inl ⟨unallocated.bounded, unallocated.noProcess, unallocated.noLwp⟩
  · exact .inr ⟨process, ptss, ⟨allocated.bounded, allocated.isProcess, allocated.stored,
      allocated.room, allocated.based, allocated.injective,
      allocated.references, allocated.own⟩, lone⟩

/-- The process before the loop of `IOB_ENABLE`. -/
structure Grown (before : Proc nlwp) (replaced : Bool) (grown : Proc nlwp) (process : Nat)
    (ptss : Stss) : Prop where
  ltssp : grown.ltssp = before.ltssp
  lock : grown.tsslock = before.tsslock
  iobcount : grown.iobcount = before.iobcount
  generations : ∀ lwp, copyGeneration grown lwp = copyGeneration before lwp
  generation : ptss.gencnt = if replaced then 0 else processGeneration before
  apart : ∀ lwp, before.ltssp lwp ≠ some process → replaced = true ∨ before.ltssp lwp ≠ before.tssp
  allocated : Allocated grown process ptss (fun _ => True)
  lone : nlwp = 1 → Allocated grown process ptss (fun _ => False) ∧
      (ptss.gencnt = 0 ∨ ∀ lwp, grown.ltssp lwp = some process)

theorem Coherent.grow (coherent : Coherent proc) (globalTss : Tss386) (ports : List Port) :
    ∃ grown process ptss, growTss globalTss proc ports = some grown ∧
      Grown proc (needsNewTss proc ports) grown process ptss := by
  rcases coherent with unallocated | ⟨process, ptss, allocated, lone⟩
  · have needed : needsNewTss proc ports = true := by
      simp [needsNewTss, unallocated.noProcess]
    obtain ⟨grown, installed, ltssp, lock, iobcount, allocated⟩ :=
      unallocated.installNewTss globalTss ports
    refine ⟨grown, proc.heap.next, enlarged globalTss none (neededSize ports),
      by simpa [growTss, needed] using installed, ?_⟩
    exact
      { ltssp := ltssp
        lock := lock
        iobcount := iobcount
        generations := by simp [copyGeneration, ltssp, unallocated.noLwp]
        generation := by simp [needed, enlarged]
        apart := fun _ _ => .inl needed
        allocated := allocated.weaken fun _ _ => trivial
        lone := fun _ => ⟨allocated, .inl rfl⟩ }
  · by_cases larger : ptss.allocsz < neededSize ports
    · have needed : needsNewTss proc ports = true := by
        simp [needsNewTss, allocated.isProcess, allocated.stored, larger]
      obtain ⟨grown, installed, ltssp, lock, iobcount, copies, -, grownAllocated⟩ :=
        allocated.installNewTss globalTss ports larger
      refine ⟨grown, proc.heap.next, enlarged globalTss (some ptss) (neededSize ports),
        by simpa [growTss, needed] using installed, ?_⟩
      exact
        { ltssp := ltssp
          lock := lock
          iobcount := iobcount
          generations := fun lwp => copyGeneration_of_lwpCopy (copies lwp)
          generation := by simp [needed, enlarged]
          apart := fun _ _ => .inl needed
          allocated := grownAllocated.weaken fun _ _ => trivial
          lone := by
            intro single
            refine ⟨grownAllocated.weaken ?_, .inl rfl⟩
            rintro lwp (impossible | ⟨notShared, started⟩)
            · exact impossible
            rcases lone single with fromStart | allShare
            · exact started fromStart
            · exact notShared (allShare lwp) }
    · have enough : needsNewTss proc ports = false := by
        simpa [needsNewTss, allocated.isProcess, allocated.stored] using larger
      refine ⟨proc, process, ptss, by simp [growTss, enough], ?_⟩
      exact
        { ltssp := rfl
          lock := rfl
          iobcount := rfl
          generations := fun _ => rfl
          generation := by simp [enough, processGeneration, allocated.isProcess, allocated.stored]
          apart := fun lwp notShared => .inr (allocated.isProcess ▸ notShared)
          allocated := allocated.weaken fun _ _ => trivial
          lone := fun single => ⟨allocated, lone single⟩ }

theorem copyGeneration_storeScan (scan : Scan) (lwp : Fin nlwp) :
    copyGeneration (storeScan proc process scan) lwp = copyGeneration proc lwp := by
  cases held : proc.ltssp lwp with
  | none => simp [copyGeneration, storeScan, held]
  | some address =>
    simp only [copyGeneration, storeScan, held, bind_some, Heap.cell_modify]
    split_ifs <;> cases proc.heap.cell address <;> rfl

section Calls

variable {after : Proc nlwp}

variable {before grown : Proc nlwp} {replaced : Bool} {caller : Caller} {ports : List Port}

theorem Grown.publish (shape : Grown before replaced grown process ptss) (scan : Scan)
    (fresh : ∀ lwp, lwp ≠ me → ¬ HoldsOwn before replaced lwp (generationLeft before replaced)) :
    ∃ published, publishChange (storeScan grown process scan) me process = some published ∧
      Coherent published := by
  obtain ⟨published, taken, coherent, -⟩ := (shape.allocated.storeScan scan).publish me (by
    intro lwp notMe notShared sameGeneration
    rw [copyGeneration_storeScan, shape.generations] at sameGeneration
    have heldBefore : before.ltssp lwp ≠ some process := shape.ltssp ▸ notShared
    refine fresh lwp notMe ⟨shape.apart lwp heldBefore, sameGeneration.trans ?_⟩
    simp only [shape.generation, generationLeft]
    split_ifs <;> rfl)
  exact ⟨published, taken, coherent⟩

theorem Grown.refused (shape : Grown before replaced grown process ptss) (single : nlwp = 1)
    (error : (enableBits caller ports ptss.bitmap grown.iobcount).error ≠ 0)
    (fresh : MayRefuseLate before caller → ∀ lwp, ¬ HoldsOwn before replaced lwp
      (if replaced then 0 else processGeneration before)) :
    Coherent (storeScan grown process (enableBits caller ports ptss.bitmap grown.iobcount)) := by
  obtain ⟨allocated, lone⟩ := shape.lone single
  refine .inr ⟨process,
    { ptss with
      bitmap := (enableBits caller ports ptss.bitmap grown.iobcount).bitmap },
    ?_, fun _ => lone⟩
  by_cases nonnegative : 0 ≤ grown.iobcount
  · obtain ⟨-, -, unchanged⟩ := enableBits_bitmap_of_error caller ports ptss.bitmap nonnegative
      error
    have kept : Allocated { grown with heap := grown.heap.modify process _ } process _
        (fun _ => False) :=
      allocated.modify (fun stss =>
        { stss with
          bitmap := (enableBits caller ports ptss.bitmap grown.iobcount).bitmap })
        rfl rfl rfl (fun _ _ => ⟨id, rfl, fun _ => by simp [Stss.permits, unchanged]⟩)
    exact ⟨kept.bounded, kept.isProcess, kept.stored, kept.room, kept.based,
      kept.injective, kept.references, kept.own⟩
  · obtain ⟨bound, failing⟩ := enableBits_error_bound caller ports ptss.bitmap grown.iobcount error
    have late : MayRefuseLate before caller := ⟨bound, failing, by rw [← shape.iobcount]; omega⟩
    refine (allocated.storeScan _).discharge ?_
    intro lwp _ _ notShared sameGeneration
    rw [copyGeneration_storeScan, shape.generations] at sameGeneration
    have heldBefore : before.ltssp lwp ≠ some process := shape.ltssp ▸ notShared
    exact fresh late lwp ⟨shape.apart lwp heldBefore,
      sameGeneration.trans (congrArg some shape.generation)⟩

theorem Consistent.iobitmapctl {request : IobRequest} {result : Nat} (consistent : Consistent proc)
    (fresh : FreshGeneration proc (me, .iobitmapctl request ports caller))
    (taken : iobitmapctl globalTss proc me request ports caller = some (result, after)) :
    Consistent after := by
  unfold Iobitmap.iobitmapctl at taken
  split_ifs at taken with blocked
  have free : proc.tsslock = false ∧ Coherent proc := by
    rcases consistent with ⟨held, several⟩ | free
    · exact absurd (by simp [held, singleThreaded, several]) blocked
    · exact free
  have entered := free.2.withLock (!singleThreaded proc)
  cases request with
  | enable =>
    obtain ⟨grown, process, ptss, installed, shape⟩ := entered.grow globalTss ports
    simp only [installed, bind_eq_bind, bind_some,
      shape.allocated.isProcess, shape.allocated.stored] at taken
    split_ifs at taken with succeeded
    · obtain ⟨-, rfl⟩ := Prod.mk.inj (some.inj taken)
      by_cases single : nlwp = 1
      · refine .inr ⟨shape.lock.trans (by simp [singleThreaded, single]),
          shape.refused single succeeded ?_⟩
        intro late lwp
        have onlyMe : lwp = me := by
          subst single
          exact Subsingleton.elim lwp me
        exact onlyMe ▸ fresh.2 single late
      · exact .inl ⟨shape.lock.trans (by simp [singleThreaded, single]), single⟩
    · obtain ⟨published, publishes, coherent⟩ := shape.publish
        (enableBits caller (listed ports) ptss.bitmap grown.iobcount) fresh.1
      simp only [publishes, bind_some] at taken
      obtain ⟨-, rfl⟩ := Prod.mk.inj (some.inj taken)
      exact .inr ⟨rfl, coherent.withLock false⟩
  | disable =>
    rcases entered with unallocated | ⟨process, ptss, allocated, -⟩
    · have noProcess : proc.tssp = none := unallocated.noProcess
      simp only [noProcess] at taken
      obtain ⟨-, rfl⟩ := Prod.mk.inj (some.inj taken)
      exact .inr ⟨rfl, noProcess ▸ free.2.withLock false⟩
    · have isProcess : proc.tssp = some process := allocated.isProcess
      have stored : proc.heap.cell process = some ptss := allocated.stored
      simp only [isProcess, stored, bind_eq_bind, bind_some] at taken
      obtain ⟨published, publishes, coherent, -⟩ := (allocated.storeScan
        (disableBits caller ptss.allocsz (listed ports) ptss.bitmap proc.iobcount)).publish me (by
        intro lwp notMe notShared sameGeneration
        rw [copyGeneration_storeScan] at sameGeneration
        refine fresh lwp notMe ⟨.inr ?_, sameGeneration.trans ?_⟩
        · rw [isProcess]
          exact notShared
        · simp [generationLeft, processGeneration, isProcess, stored])
      simp only [isProcess] at publishes
      simp only [publishes, bind_some] at taken
      obtain ⟨-, rfl⟩ := Prod.mk.inj (some.inj taken)
      exact .inr ⟨rfl, coherent.withLock false⟩
  | check =>
    cases held : proc.tssp with
    | none =>
      simp only [held] at taken
      obtain ⟨-, rfl⟩ := Prod.mk.inj (some.inj taken)
      exact .inr ⟨rfl, held ▸ free.2.withLock false⟩
    | some process =>
      simp only [held] at taken
      cases stored : proc.heap.cell process with
      | none => simp [stored] at taken
      | some tss =>
        simp only [stored, bind_eq_bind, bind_some] at taken
        obtain ⟨-, rfl⟩ := Prod.mk.inj (some.inj taken)
        exact .inr ⟨rfl, held ▸ free.2.withLock false⟩

theorem Consistent.setSpecialSp {sel esp : Nat} {result : Option Errno}
    (consistent : Consistent proc)
    (taken : setSpecialSp globalTss proc me sel esp = some (result, after)) : Consistent after := by
  simp only [Iobitmap.setSpecialSp] at taken
  split_ifs at taken with otherRing blocked
  · obtain ⟨-, rfl⟩ := Prod.mk.inj (some.inj taken)
    exact consistent
  have free : proc.tsslock = false ∧ Coherent proc := by
    rcases consistent with ⟨held, several⟩ | free
    · exact absurd (by simp [held, singleThreaded, several]) blocked
    · exact free
  rcases free.2 with unallocated | ⟨process, ptss, allocated, -⟩
  · have created := unallocated.special globalTss
    simp only [unallocated.noProcess, created.isProcess, bind_eq_bind, bind_some] at taken
    obtain ⟨synced, syncs, coherent, -⟩ := ((created.setStkbase (fun address =>
      address == proc.heap.next || (!singleThreaded proc && heldElsewhere
            (placeTss proc proc.heap (specialTss globalTss)) proc.heap.next address))
      (sel % 4) { tEsp := esp, tSs := sel } (by simp)).exemptCaller me).coherent_syncCaller
    simp only [created.isProcess] at syncs
    simp only [syncs, bind_some] at taken
    obtain ⟨-, rfl⟩ := Prod.mk.inj (some.inj taken)
    exact .inr ⟨rfl, coherent.withLock false⟩
  · simp only [allocated.isProcess, bind_eq_bind, bind_some] at taken
    obtain ⟨synced, syncs, coherent, -⟩ := ((allocated.setStkbase (fun address =>
      address == process || (!singleThreaded proc && heldElsewhere proc process address))
      (sel % 4) { tEsp := esp, tSs := sel } (by simp)).exemptCaller me).coherent_syncCaller
    simp only [allocated.isProcess] at syncs
    simp only [syncs, bind_some] at taken
    obtain ⟨-, rfl⟩ := Prod.mk.inj (some.inj taken)
    exact .inr ⟨rfl, coherent.withLock false⟩

end Calls

end Uw7.Iobitmap
