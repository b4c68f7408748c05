import Mathlib.Order.Fin.Basic
import Uw7.Lib.Firsts
import Uw7.Iobitmap.Ownership

namespace Uw7.Iobitmap

/-!
# Requests that take effect wholly or not at all

A request that returns an error should leave the process as it was, and one that
returns 0 should grant what it was asked to and keep the terminating byte of the
bitmap.
-/

open Lib Function

variable {nlwp : Nat} {proc : Proc nlwp} {me : Fin nlwp}
variable {process : Nat} {ptss : Stss} {globalTss : Tss386}

/-- The ports granted once a request has been carried out. -/
def requested (command : Option IobRequest) (ports : List Port) (granted : Port → Bool)
    (port : Port) : Bool :=
  match command with
  | some .enable => granted port || decide (port ∈ listed ports)
  | some .disable => granted port && !decide (port ∈ listed ports)
  | _ => granted port

/-- The last byte of the allocation has all its bits set. -/
def Terminated (proc : Proc nlwp) : Prop := ∀ port, bidx port + 1 = processSize proc →
    processGrants proc port = false

/-- Permissions, generation and counters are as before, and no lock is held. -/
structure LeftAlone (before after : Proc nlwp) : Prop where
  grants : ∀ port, processGrants after port = processGrants before port
  lwps : ∀ lwp port, lwpGrants after lwp port = lwpGrants before lwp port
  generation : bitmapGeneration after = bitmapGeneration before
  iobcount : after.iobcount = before.iobcount
  ltssp : after.ltssp = before.ltssp
  unlocked : after.tsslock = false

/-- The bitmap grants what was requested and is terminated. -/
structure CarriedOut (before : Proc nlwp) (command : Option IobRequest) (ports : List Port)
    (after : Proc nlwp) : Prop where
  grants : ∀ port, processGrants after port = requested command ports (processGrants before) port
  terminated : Terminated after
  unlocked : after.tsslock = false

/-- A nonzero result means no change; `IOB_CHECK` always succeeds. -/
def AllOrNothing (before : Proc nlwp) (command : Option IobRequest) (ports : List Port)
    (result : Nat) (after : Proc nlwp) : Prop :=
  (result ≠ 0 → LeftAlone before after) ∧ (result = 0 ∨ command = some .check →
      CarriedOut before command ports after)

/-- The distinct listed ports that the process may not use yet. -/
def newlyGranted (before : Proc nlwp) (ports : List Port) : List Port :=
  firsts (processGrants before) (listed ports)

/-- `IOB_ENABLE` comes to a `bindproc` that fails. -/
def BindRefused (before : Proc nlwp) (command : Option IobRequest) (ports : List Port)
    (caller : Caller) : Prop :=
  command = some .enable ∧ caller.cfgBound = true ∧ caller.bindError ≠ 0 ∧ before.iobcount ≤ 0 ∧
      -before.iobcount < (newlyGranted before ports).length

/-- The size of the process's TSS with the room that the request needs. -/
def sizeFor (before : Proc nlwp) (command : Option IobRequest) (ports : List Port) : Nat :=
  if command = some .enable then
    max (neededSize ports) (processSize before)
  else
    processSize before

def LastByteFree (before : Proc nlwp) (command : Option IobRequest) (ports : List Port) : Prop :=
  ∀ port, requested command ports (processGrants before) port = true →
    bidx port + 1 ≠ sizeFor before command ports

/--
A refused request finds one LWP, no open ports and a bitmap that needs neither
replacing nor a new generation; any other leaves the last byte alone.
-/
def AllOrNothingWhen (before : Proc nlwp) (command : Option IobRequest) (ports : List Port)
    (caller : Caller) : Prop :=
  (BindRefused before command ports caller → nlwp = 1 ∧ before.iobcount = 0 ∧
      (neededSize ports ≤ processSize before ∨ bitmapGeneration before = some 0)) ∧
    (¬ BindRefused before command ports caller → LastByteFree before command ports)

section

variable (caller : Caller) (ports : List Port) (bitmap : Port → Bool)
include caller ports bitmap

theorem enableBits_bitmap {iobcount : Int}
    (accepted : (enableBits caller ports bitmap iobcount).error = 0) (port : Port) :
    (enableBits caller ports bitmap iobcount).bitmap port =
      (bitmap port && !decide (port ∈ ports)) := by
  induction ports generalizing bitmap iobcount with
  | nil => simp [enableBits]
  | cons head rest ih =>
    have cleared : (update bitmap head false port && !decide (port ∈ rest)) =
        (bitmap port && !decide (port ∈ head :: rest)) := by
      by_cases same : port = head <;> simp [same]
    unfold enableBits at accepted ⊢
    split_ifs at accepted ⊢ with bound refused
    · exact absurd accepted refused.2
    · exact (ih _ accepted).trans cleared
    · exact (ih _ accepted).trans cleared

theorem enableBits_iobcount_of_error {iobcount : Int}
    (refused : (enableBits caller ports bitmap iobcount).error ≠ 0) :
    (enableBits caller ports bitmap iobcount).iobcount = 0 := by
  induction ports generalizing bitmap iobcount with
  | nil => exact absurd rfl refused
  | cons head rest ih =>
    unfold enableBits at refused ⊢
    split_ifs at refused ⊢ with bound stops
    · exact stops.1
    · exact ih _ refused
    · exact ih _ refused

theorem enableBits_error_iff (iobcount : Int) :
    (enableBits caller ports bitmap iobcount).error ≠ 0 ↔
      caller.cfgBound = true ∧ caller.bindError ≠ 0 ∧ iobcount ≤ 0 ∧
          -iobcount < (firsts (fun port => !bitmap port) ports).length := by
  induction ports generalizing bitmap iobcount with
  | nil =>
    simp only [enableBits, firsts, List.length_nil]
    omega
  | cons head rest ih =>
    have opened : (fun port => !update bitmap head false port) =
        update (fun port => !bitmap port) head true := by
      funext port
      by_cases same : port = head <;> simp [same]
    unfold enableBits
    cases denied : bitmap head with
    | false =>
      have unchanged : update bitmap head false = bitmap := by rw [← denied, update_eq_self]
      have passed : firsts (fun port => !bitmap port) (head :: rest) =
          firsts (fun port => !bitmap port) rest := by
        simp [firsts, denied]
      simp [unchanged, passed, ih]
    | true =>
      have taken : firsts (fun port => !bitmap port) (head :: rest) = head :: firsts (fun port =>
          !update bitmap head false port) rest := by
        simp [firsts, denied, opened]
      cases bound : caller.cfgBound with
      | false => simp [ih, bound]
      | true =>
        rw [taken, List.length_cons]
        by_cases stops : iobcount = 0 ∧ caller.bindError ≠ 0
        · simp only [Bool.and_self, if_true, if_pos stops, true_and]
          omega
        · simp only [Bool.and_self, if_true, if_neg stops, ih, bound, true_and]
          omega

end

theorem disableBits_bitmap (caller : Caller) (allocsz : Nat) (ports : List Port)
    (bitmap : Port → Bool) (iobcount : Int) (port : Port) :
    (disableBits caller allocsz ports bitmap iobcount).bitmap port = (bitmap port ||
        decide (port ∈ ports ∧ bidx port < allocsz)) := by
  induction ports generalizing bitmap iobcount with
  | nil => simp [disableBits]
  | cons head rest ih =>
    unfold disableBits
    by_cases outside : bidx head ≥ allocsz
    · rw [if_pos outside, ih]
      by_cases same : port = head
      · simp [same, outside.not_gt]
      · simp [same]
    · rw [if_neg outside, ih]
      by_cases same : port = head
      · simp [same, not_le.mp outside]
      · simp [same]

theorem le_foldl_highest (ports : List Port) (start : Port) :
    let portno := ports.foldl (fun portno port => if port > portno then port else portno) start
    start.val ≤ portno.val ∧ ∀ port ∈ ports, port.val ≤ portno.val := by
  induction ports generalizing start with
  | nil => simp
  | cons head rest ih =>
    obtain ⟨above, others⟩ := ih (if head > start then head else start)
    have larger : start.val ≤ (if head > start then head else start).val ∧
        head.val ≤ (if head > start then head else start).val := by
      split_ifs with higher
      · exact ⟨Nat.le_of_lt higher, Nat.le_refl _⟩
      · exact ⟨Nat.le_refl _, Nat.le_of_not_lt higher⟩
    refine ⟨larger.1.trans above, ?_⟩
    intro port among
    rcases List.mem_cons.mp among with rfl | inRest
    · exact larger.2.trans above
    · exact others port inRest

theorem bidx_lt_neededSize {ports : List Port} {port : Port} (member : port ∈ listed ports) :
    bidx port < neededSize ports := by
  have below : port.val ≤ (highest ports).val := (le_foldl_highest (listed ports) 0).2 port member
  simp only [neededSize, bidx, sizeofStss]
  omega

section Ends

variable {before after : Proc nlwp} {command : Option IobRequest}
variable {ports : List Port} {caller : Caller}

theorem carriedOut_iff (grants : ∀ port, processGrants after port =
    requested command ports (processGrants before) port)
    (size : processSize after = sizeFor before command ports) (unlocked : after.tsslock = false) :
    CarriedOut before command ports after ↔ LastByteFree before command ports := by
  constructor
  · intro carried port granted last
    have denied := carried.terminated port (last.trans size.symm)
    rw [grants, granted] at denied
    exact Bool.noConfusion denied
  · intro free
    refine ⟨grants, ?_, unlocked⟩
    intro port last
    rw [grants]
    by_contra granted
    exact free port (by simpa using granted) (last.trans size)

theorem BitsSet.carriedOut_iff {bitmap : Port → Bool} (set : BitsSet process ptss bitmap after)
    (permits : ∀ port, (decide (bidx port < ptss.allocsz) && !bitmap port) =
        requested command ports (processGrants before) port)
    (size : ptss.allocsz = sizeFor before command ports) :
    CarriedOut before command ports after ↔ LastByteFree before command ports := by
  obtain ⟨⟨refcnt, gencnt, allocated⟩, unlocked⟩ := set
  obtain ⟨sizeAfter, -, grants⟩ := allocated.process_eq
  exact Iobitmap.carriedOut_iff (fun port => (grants port).trans (permits port))
    (sizeAfter.trans size) unlocked

section

variable {grown : Proc nlwp} (room : RoomMade before ports grown process ptss)
include grown room

theorem RoomMade.denied {port : Port} (member : port ∈ listed ports) :
    bidx port < ptss.allocsz ∧ (!ptss.bitmap port) = processGrants before port := by
  have inside : bidx port < ptss.allocsz := by
    rw [room.size]
    exact (bidx_lt_neededSize member).trans_le (le_max_left _ _)
  refine ⟨inside, ?_⟩
  rw [← room.permits port]
  simp [Stss.permits, inside]

theorem RoomMade.error_iff (caller : Caller) :
    (enableBits caller (listed ports) ptss.bitmap before.iobcount).error ≠ 0 ↔
      BindRefused before (some .enable) ports caller := by
  have sameFirsts : firsts (fun port => !ptss.bitmap port) (listed ports) =
      newlyGranted before ports :=
    firsts_congr fun port member => (room.denied member).2
  rw [enableBits_error_iff, sameFirsts]
  simp [BindRefused]

theorem RoomMade.leftAlone_iff (locked : before.tsslock = !singleThreaded before)
    (refused : (enableBits caller (listed ports) ptss.bitmap before.iobcount).error ≠ 0) :
    LeftAlone before (storeScan grown process (enableBits caller (listed ports) ptss.bitmap
        before.iobcount)) ↔
      nlwp = 1 ∧ before.iobcount = 0 ∧ (neededSize ports ≤ processSize before ∨
          bitmapGeneration before = some 0) := by
  have counted := enableBits_iobcount_of_error caller (listed ports) ptss.bitmap refused
  obtain ⟨-, generation, grants⟩ := (room.allocated.storeScan
      (enableBits caller (listed ports) ptss.bitmap before.iobcount)).process_eq
  constructor
  · intro alone
    refine ⟨?_, alone.iobcount.symm.trans counted, ?_⟩
    · have unlocked := room.lock.symm.trans alone.unlocked
      simpa [locked, singleThreaded] using unlocked
    · by_cases larger : processSize before < neededSize ports
      · have kept := room.generation
        rw [if_pos larger] at kept
        exact .inr (alone.generation.symm.trans (generation.trans kept))
      · exact .inl (not_lt.mp larger)
  · rintro ⟨single, uncounted, kept⟩
    obtain ⟨-, -, unchanged⟩ := enableBits_bitmap_of_error caller (listed ports) ptss.bitmap
        uncounted.ge refused
    have sameHeap : (storeScan grown process (enableBits caller (listed ports) ptss.bitmap
        before.iobcount)).heap = grown.heap :=
      Heap.modify_eq_self room.allocated.stored (by rw [unchanged])
    exact
      { grants := by
          intro port
          rw [grants, ← room.permits]
          simp [Stss.permits, unchanged]
        lwps := by
          intro lwp port
          rw [← room.lwps lwp port, lwpGrants, lwpGrants, sameHeap]
          rfl
        generation := by
          refine generation.trans (room.generation.trans ?_)
          split_ifs with larger
          · exact (kept.resolve_left (not_le.mpr larger)).symm
          · rfl
        iobcount := counted.trans uncounted.symm
        ltssp := room.ltssp
        unlocked := room.lock.trans (by simp [locked, singleThreaded, single]) }

end

theorem leftAlone_withLock {tsslock : Bool} :
    LeftAlone { before with tsslock } after ↔ LeftAlone before after :=
  ⟨fun alone =>
      ⟨alone.grants, alone.lwps, alone.generation, alone.iobcount, alone.ltssp, alone.unlocked⟩,
    fun alone =>
      ⟨alone.grants, alone.lwps, alone.generation, alone.iobcount, alone.ltssp, alone.unlocked⟩⟩

theorem Owned.enable_allOrNothing (owned : Owned before) (enters : Enters before)
    (globalTss : Tss386) (me : Fin nlwp) (ports : List Port) (caller : Caller) :
    ∃ result after, iobitmapctl globalTss before me .enable ports caller = some (result, after) ∧
        (AllOrNothing before (some .enable) ports result after ↔
          AllOrNothingWhen before (some .enable) ports caller) := by
  obtain ⟨grown, process, ptss, room, refuses, accepts⟩ :=
    owned.enable enters globalTss me ports caller
  have errorIff : (enableBits caller (listed ports) ptss.bitmap before.iobcount).error ≠ 0 ↔
      BindRefused before (some .enable) ports caller :=
    room.error_iff caller
  by_cases refused : BindRefused before (some .enable) ports caller
  · have error := errorIff.mpr refused
    have alone : LeftAlone before (storeScan grown process
        (enableBits caller (listed ports) ptss.bitmap before.iobcount)) ↔
        nlwp = 1 ∧ before.iobcount = 0 ∧ (neededSize ports ≤ processSize before ∨
            bitmapGeneration before = some 0) :=
      leftAlone_withLock.symm.trans (room.leftAlone_iff rfl error)
    refine ⟨_, _, refuses error, ?_⟩
    simpa [AllOrNothing, AllOrNothingWhen, refused, show _ ≠ 0 from error] using alone
  · have accepted := not_not.mp (mt errorIff.mp refused)
    obtain ⟨after, returned, set⟩ := accepts accepted
    refine ⟨0, after, returned, ?_⟩
    have carried : CarriedOut before (some .enable) ports after ↔
        LastByteFree before (some .enable) ports := by
      refine set.carriedOut_iff ?_ ?_
      · intro port
        have permits : (decide (bidx port < ptss.allocsz) && !ptss.bitmap port) =
            processGrants before port := room.permits port
        rw [enableBits_bitmap caller (listed ports) ptss.bitmap accepted, requested, ← permits]
        by_cases member : port ∈ listed ports
        · simp [member, (room.denied member).1]
        · simp [member]
      · exact room.size.trans (by simp [sizeFor, processSize])
    simpa [AllOrNothing, AllOrNothingWhen, refused] using carried

theorem Allocated.others_allOrNothing (allocated : Allocated before process ptss (fun _ => True))
    (enters : Enters before) (globalTss : Tss386) (me : Fin nlwp)
    (notEnable : command ≠ some .enable) (ports : List Port) (caller : Caller) :
    ∃ result after, iobitmapctlCommand globalTss before me command ports caller =
        some (result, after) ∧
        (AllOrNothing before command ports result after ↔ LastByteFree before command ports) := by
  obtain ⟨size, -, grants⟩ := allocated.process_eq
  have sameSize : ptss.allocsz = sizeFor before command ports := by
    rw [sizeFor, if_neg notEnable, size]
  have permits : ∀ port, (decide (bidx port < ptss.allocsz) && !ptss.bitmap port) =
      processGrants before port :=
    fun port => (grants port).symm
  cases command with
  | none =>
    obtain ⟨after, returned, set⟩ := allocated.unnamed enters me
    have carried : CarriedOut before none ports after ↔ LastByteFree before none ports :=
      set.carriedOut_iff permits sameSize
    refine ⟨0, after, returned, ?_⟩
    simpa [AllOrNothing] using carried
  | some request =>
    cases request with
    | enable => exact absurd rfl notEnable
    | disable =>
      obtain ⟨after, returned, set⟩ := allocated.disable enters globalTss me ports caller
      refine ⟨0, after, returned, ?_⟩
      have carried : CarriedOut before (some .disable) ports after ↔
          LastByteFree before (some .disable) ports := by
        refine set.carriedOut_iff ?_ sameSize
        intro port
        rw [disableBits_bitmap, requested, ← permits]
        by_cases inside : bidx port < ptss.allocsz <;> simp [inside]
      simpa [AllOrNothing] using carried
    | check =>
      refine ⟨_, _, allocated.check enters globalTss me ports caller, ?_⟩
      have set : BitsSet process ptss ptss.bitmap { before with tsslock := false } :=
        ⟨⟨ptss.refcnt, ptss.gencnt, allocated.withLock false⟩, rfl⟩
      have carried : CarriedOut before (some .check) ports { before with tsslock := false } ↔
          LastByteFree before (some .check) ports :=
        set.carriedOut_iff permits sameSize
      have alone : LeftAlone before { before with tsslock := false } :=
        ⟨fun _ => rfl, fun _ _ => rfl, rfl, rfl, rfl, rfl⟩
      simpa [AllOrNothing, alone] using carried

theorem Unallocated.others_allOrNothing (unallocated : Unallocated before)
    (notEnable : command ≠ some .enable) :
    AllOrNothing before command ports 0 { before with tsslock := false } ∧
      LastByteFree before command ports := by
  obtain ⟨-, -, grants⟩ := unallocated.process_eq
  have requestedNone : ∀ port, requested command ports (processGrants before) port = false := by
    intro port
    cases command with
    | none => exact grants port
    | some request =>
      cases request with
      | enable => exact absurd rfl notEnable
      | disable => simp [requested, grants]
      | check => exact grants port
  refine ⟨⟨fun nonzero => absurd rfl nonzero, fun _ => ?_⟩, ?_⟩
  · exact
      { grants := fun port =>
          (grants port).trans (requestedNone port).symm
        terminated := fun port _ => grants port
        unlocked := rfl }
  · intro port granted
    rw [requestedNone] at granted
    exact Bool.noConfusion granted

end Ends

theorem iobitmapctl_allOrNothing_iff (globalTss : Tss386) (before : Proc nlwp) (me : Fin nlwp)
    (command : Option IobRequest) (ports : List Port) (caller : Caller) (owned : Owned before)
    (enters : Enters before) :
    ∃ result after, iobitmapctlCommand globalTss before me command ports caller =
        some (result, after) ∧ (AllOrNothing before command ports result after ↔
          AllOrNothingWhen before command ports caller) := by
  by_cases isEnable : command = some .enable
  · subst isEnable
    exact owned.enable_allOrNothing enters globalTss me ports caller
  have neverRefused : ¬ BindRefused before command ports caller := fun refused => isEnable refused.1
  have when : AllOrNothingWhen before command ports caller ↔ LastByteFree before command ports := by
    simp [AllOrNothingWhen, neverRefused]
  rw [when]
  rcases owned with unallocated | ⟨process, ptss, allocated⟩
  · obtain ⟨holds, free⟩ := @Unallocated.others_allOrNothing _ before command ports
        unallocated isEnable
    exact ⟨0, _, unallocated.leaves enters globalTss me isEnable ports caller,
      iff_of_true holds free⟩
  · exact allocated.others_allOrNothing enters globalTss me isEnable ports caller

theorem iobitmapctl_allOrNothing_first : ∃ result, ∃ after : Proc 2,
    iobitmapctlCommand sampleTss (Proc.initial 2) 0 (some .enable)
        [0x3d4] { cfgBound := false, bindError := 0 } =
      some (result, after) ∧
    AllOrNothing (Proc.initial 2) (some .enable) [0x3d4] result
      after := by
  obtain ⟨result, after, returned, holdsWhen⟩ :=
    iobitmapctl_allOrNothing_iff sampleTss (Proc.initial 2) 0
      (some .enable) [0x3d4] { cfgBound := false, bindError := 0 } (owned_initial 2) rfl
  refine ⟨result, after, returned, holdsWhen.mpr ⟨?_, ?_⟩⟩
  · intro refused
    exact absurd refused.2.1 (by decide)
  · intro _ port granted
    have isListed : port = 0x3d4 := by
      simpa [requested, listed, processGrants, Proc.initial] using granted
    subst isListed
    decide

/--
`bindproc` refuses one of two LWPs and the lock stays held; the byte of port
1080 is the last of 256 and the bitmap ends with it.
-/
theorem enable_neither_all_nor_nothing : (∃ after : Proc 2,
    iobitmapctlCommand sampleTss (Proc.initial 2) 0 (some .enable)
        [0x3d4] { cfgBound := true, bindError := 22 } =
      some (22, after) ∧
    after.tsslock = true ∧ ¬ AllOrNothing (Proc.initial 2) (some .enable) [0x3d4] 22 after) ∧
    ∃ after : Proc 1, iobitmapctlCommand sampleTss (Proc.initial 1) 0 (some .enable)
        [1080] { cfgBound := false, bindError := 0 } = some (0, after) ∧
      bidx 1080 + 1 = processSize after ∧ processGrants after 1080 = true ∧
      ¬ AllOrNothing (Proc.initial 1) (some .enable) [1080] 0 after := by
  constructor
  · have executed : (iobitmapctlCommand sampleTss (Proc.initial 2) 0 (some .enable)
        [0x3d4] { cfgBound := true, bindError := 22 }).any
          (fun ended => ended.1 == 22 && ended.2.tsslock) = true := by
      decide +kernel
    obtain ⟨⟨result, after⟩, returned, rest⟩ := (Option.any_eq_true _ _).mp executed
    obtain ⟨isResult, held⟩ := Bool.and_eq_true_iff.mp rest
    obtain rfl : result = 22 := by simpa using isResult
    refine ⟨after, returned, held, ?_⟩
    intro holds
    have unlocked : after.tsslock = false := (holds.1 (by decide)).unlocked
    exact Bool.noConfusion (held.symm.trans unlocked)
  · have executed : (iobitmapctlCommand sampleTss (Proc.initial 1) 0 (some .enable)
        [1080] { cfgBound := false, bindError := 0 }).any (fun ended =>
            ended.1 == 0 && (bidx 1080 + 1 == processSize ended.2 &&
              processGrants ended.2 1080)) = true := by
      decide +kernel
    obtain ⟨⟨result, after⟩, returned, rest⟩ := (Option.any_eq_true _ _).mp executed
    simp only [Bool.and_eq_true, beq_iff_eq] at rest
    obtain ⟨rfl, last, granted⟩ := rest
    refine ⟨after, returned, last, granted, ?_⟩
    intro holds
    have denied := (holds.2 (.inl rfl)).terminated 1080 last
    exact Bool.noConfusion (granted.symm.trans denied)

end Uw7.Iobitmap
