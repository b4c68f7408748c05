import Uw7.Ipc.Lookup
import Uw7.Lib.Run

namespace Uw7.Ipc

/-!
# Identifiers over lookups, removals and creations

While a directory entry is not refilled under a caller that found it, `dshmget` and
`shmget` return the identifier of the segment that was asked for and checked.
-/

open Lib Function List Option

variable {ops : GetOps}

/--
The entry is not another segment's where a call looks at it again, and it is still
that of the segment where the call reads the sequence number.
-/
def GetGuard (before : GetState ops) : GetAction → Prop
  | .recheck caller =>
    ∀ uap slot ent, before.calls caller = some ⟨uap, .recheck slot ent⟩ →
      (before.entries slot).ipcdEnt = none ∨ ((before.entries slot).ipcdEnt = some ent ∧
          (before.segments (before.descriptors ent).segment).key = ops.key uap)
  | .read caller =>
    ∀ uap slot segment created, before.calls caller = some ⟨uap, .reading slot segment created⟩ →
        ∃ ent, (before.entries slot).ipcdEnt = some ent ∧ (before.descriptors ent).segment = segment
  | _ => True

/-- The descriptor whose BUSY flag a call has set. -/
def GetPoint.holds : GetPoint → Option Nat
  | .recheck _ ent | .creating _ ent _ | .converted _ ent => some ent
  | .stale ent | .removed ent => some ent
  | .retry | .waiting _ _ | .reading _ _ _ => none

def CallKept (state : GetState ops) (caller : Nat) (uap : ops.Args) : GetPoint → Prop
  | .retry | .stale _ => True
  | .waiting _ _ | .recheck _ _ => ops.key uap ≠ ipcPrivate
  | .creating slot ent segment =>
    (state.entries slot).ipcdEnt = some ent ∧ (state.descriptors ent).segment = segment ∧
      (state.segments segment).key = ops.key uap ∧ (state.segments segment).creator = caller ∧
      (state.segments segment).uap = uap
  | .reading _ segment created =>
    segment < state.next ∧ (state.segments segment).key = ops.key uap ∧
      (created = true → (state.segments segment).creator = caller) ∧
      (created = false → ops.key uap ≠ ipcPrivate ∧ ops.complies uap
          (ops.parameters (state.segments segment).uap) = true)
  | .converted slot ent => (state.entries slot).ipcdEnt = some ent
  | .removed ent => ∀ slot, (state.entries slot).ipcdEnt ≠ some ent

/-- An entry agrees with its descriptor and its segment. -/
structure EntryWell (state : GetState ops) (slot ent : Nat) : Prop where
  allocated : (state.descriptors ent).ipcAlloc = true
  old : (state.descriptors ent).segment < state.next
  isSlot : (state.segments (state.descriptors ent).segment).slot = slot
  isSeq : (state.segments (state.descriptors ent).segment).seq = (state.entries slot).ipcdSeq
  parameters : (∀ caller uap other segment,
      state.calls caller ≠ some ⟨uap, .creating other ent segment⟩) →
      (state.descriptors ent).parameters = ops.parameters
          (state.segments (state.descriptors ent).segment).uap

/-- What every guarded step keeps. -/
structure GetKept (mni : Nat) (state : GetState ops) : Prop where
  owned : Owned (fun ent => (state.descriptors ent).busy)
      fun caller => (state.calls caller).bind fun call => call.point.holds
  entries : ∀ slot ent, (state.entries slot).ipcdEnt = some ent → EntryWell state slot ent
  calls : ∀ caller uap point, state.calls caller = some ⟨uap, point⟩ →
      CallKept state caller uap point
  results : ∀ result ∈ state.results, result.segment < state.next ∧ ResultWell mni state result

/-- A step touches one descriptor and the entries that refer to it. -/
structure GetFrame (ent : Nat) (before after : GetState ops) : Prop where
  entries : ∀ slot other, other ≠ ent → ((after.entries slot).ipcdEnt = some other ↔
      (before.entries slot).ipcdEnt = some other)
  seq : ∀ slot other, other ≠ ent → (after.entries slot).ipcdEnt = some other →
      (after.entries slot).ipcdSeq = (before.entries slot).ipcdSeq
  descriptors : ∀ other, other ≠ ent → after.descriptors other = before.descriptors other
  segments : ∀ segment, segment < before.next → after.segments segment = before.segments segment
  next : before.next ≤ after.next

section Frames

variable {before after : GetState ops} {ent caller slot mni : Nat}
  {uap : ops.Args} {point : GetPoint}

theorem CallKept.frame (kept : CallKept before caller uap point) (frame : GetFrame ent before after)
    (old : ∀ slot other, (before.entries slot).ipcdEnt = some other →
      (before.descriptors other).segment < before.next)
    (other : point.holds ≠ some ent) : CallKept after caller uap point := by
  cases point with
  | retry => trivial
  | stale _ => trivial
  | waiting _ _ => exact kept
  | recheck _ _ => exact kept
  | creating slot which segment =>
    have different : which ≠ ent := fun same => other (same ▸ rfl)
    obtain ⟨isEntry, rfl, isKey, isCreator, isUap⟩ := kept
    have isOld := old slot which isEntry
    refine ⟨(frame.entries slot which different).mpr isEntry, ?_⟩
    rw [frame.descriptors which different, frame.segments _ isOld]
    exact ⟨rfl, isKey, isCreator, isUap⟩
  | reading slot segment created =>
    obtain ⟨isOld, isKey, isCreator, isChecked⟩ := kept
    refine ⟨lt_of_lt_of_le isOld frame.next, ?_⟩
    rw [frame.segments segment isOld]
    exact ⟨isKey, isCreator, isChecked⟩
  | converted slot which =>
    have different : which ≠ ent := fun same => other (same ▸ rfl)
    exact (frame.entries slot which different).mpr kept
  | removed which =>
    have different : which ≠ ent := fun same => other (same ▸ rfl)
    exact fun slot isEntry => kept slot ((frame.entries slot which different).mp isEntry)

theorem ResultWell.frame {result : GetResult ops} (well : ResultWell mni before result)
    (frame : GetFrame ent before after) (old : result.segment < before.next) :
    ResultWell mni after result := by
  have same := frame.segments result.segment old
  exact
    { key := by rw [same]; exact well.key
      id := by rw [same]; exact well.id
      created := by rw [same]; exact well.created
      found := by rw [same]; exact well.found }

/-- The step of one call, with what is to be shown of its own descriptor. -/
theorem GetKept.step {call : Option (GetCall ops)} (kept : GetKept mni before)
    (frame : GetFrame ent before after) (calls : after.calls = update before.calls caller call)
    (own : ∀ uap point, before.calls caller = some ⟨uap, point⟩ →
      ∀ other, point.holds = some other → other = ent)
    (notOther : ∀ other, other ≠ caller →
      ((before.calls other).bind fun call => call.point.holds) ≠ some ent)
    (owned : Owned (fun ent => (after.descriptors ent).busy)
      fun caller => (after.calls caller).bind fun call => call.point.holds)
    (entry : ∀ slot, (after.entries slot).ipcdEnt = some ent → EntryWell after slot ent)
    (ownCall : ∀ uap point, call = some ⟨uap, point⟩ → CallKept after caller uap point)
    (results : ∀ result ∈ after.results, result ∈ before.results ∨
      (result.segment < after.next ∧ ResultWell mni after result)) :
    GetKept mni after where
  owned := owned
  entries := by
    intro slot which isEntry
    by_cases isEnt : which = ent
    · subst which
      exact entry slot isEntry
    · have well := kept.entries slot which ((frame.entries slot which isEnt).mp isEntry)
      have sameDs := frame.descriptors which isEnt
      have sameSegment := frame.segments _ well.old
      exact
        { allocated := by rw [sameDs]; exact well.allocated
          old := by
            rw [sameDs]
            exact lt_of_lt_of_le well.old frame.next
          isSlot := by rw [sameDs, sameSegment]; exact well.isSlot
          isSeq := by
            rw [sameDs, sameSegment, frame.seq slot which isEnt isEntry]
            exact well.isSeq
          parameters := by
            intro notCreating
            rw [sameDs, sameSegment]
            refine well.parameters fun other uap place segment isCall => ?_
            by_cases isCaller : other = caller
            · subst other
              exact isEnt (own uap _ isCall which rfl)
            · refine notCreating other uap place segment ?_
              rw [calls, update_of_ne isCaller]
              exact isCall }
  calls := by
    intro other uap point isCall
    by_cases isCaller : other = caller
    · subst other
      rw [calls, update_self] at isCall
      exact ownCall uap point isCall
    · rw [calls, update_of_ne isCaller] at isCall
      refine (kept.calls other uap point isCall).frame frame
        (fun slot which isEntry => (kept.entries slot which isEntry).old) fun holdsEnt => ?_
      refine notOther other isCaller ?_
      rw [isCall]
      exact holdsEnt
  results := by
    intro result isResult
    rcases results result isResult with wasResult | isNew
    · obtain ⟨isOld, well⟩ := kept.results result wasResult
      exact ⟨lt_of_lt_of_le isOld frame.next, well.frame frame isOld⟩
    · exact isNew

end Frames

section Steps

variable {state : GetState ops} {ent caller slot segment mni : Nat}
  {uap : ops.Args} {point : GetPoint} {ds : KernelDs ops}

section Projections

variable {direntp : Ipcdirent} {busy : Option Nat} {call : Option (GetCall ops)}

@[simp] theorem goto_eq : state.goto caller uap point = state.setCall caller (some ⟨uap, point⟩) :=
  rfl

@[simp] theorem setCall_entries : (state.setCall caller call).entries = state.entries := rfl

@[simp] theorem setCall_descriptors : (state.setCall caller call).descriptors = state.descriptors :=
  rfl

@[simp] theorem setCall_segments : (state.setCall caller call).segments = state.segments := rfl

@[simp] theorem setCall_next : (state.setCall caller call).next = state.next := rfl

@[simp] theorem setDs_entries : (state.setDs ent ds).entries = state.entries := rfl

@[simp] theorem setDs_descriptors : (state.setDs ent ds).descriptors =
    update state.descriptors ent ds :=
  rfl

@[simp] theorem setDs_segments : (state.setDs ent ds).segments = state.segments := rfl

@[simp] theorem setDs_next : (state.setDs ent ds).next = state.next := rfl

@[simp] theorem setBusy_eq : state.setBusy ent busy =
    state.setDs ent { state.descriptors ent with busy := busy } :=
  rfl

@[simp] theorem setEntry_entries : (state.setEntry slot direntp).entries =
    update state.entries slot direntp :=
  rfl

@[simp] theorem setEntry_descriptors :
    (state.setEntry slot direntp).descriptors = state.descriptors :=
  rfl

@[simp] theorem setEntry_segments : (state.setEntry slot direntp).segments = state.segments := rfl

@[simp] theorem setEntry_next : (state.setEntry slot direntp).next = state.next := rfl

end Projections

/-- The descriptor in use by a call. -/
def GetState.held (state : GetState ops) (caller : Nat) : Option Nat :=
  (state.calls caller).bind fun call => call.point.holds

theorem held_setCall (call : Option (GetCall ops)) : (state.setCall caller call).held caller =
    call.bind fun call => call.point.holds := by
  simp [GetState.held, GetState.setCall]

theorem held_setCall_of_ne {other : Nat} (different : other ≠ caller)
    (call : Option (GetCall ops)) : (state.setCall caller call).held other = state.held other := by
  simp [GetState.held, GetState.setCall, update_of_ne different]

theorem frame_setDs : GetFrame ent state (state.setDs ent ds) where
  entries := fun _ _ _ => Iff.rfl
  seq := fun _ _ _ _ => rfl
  descriptors := fun _ different => update_of_ne different _ _
  segments := fun _ _ => rfl
  next := le_rfl

theorem GetFrame.setCall {after : GetState ops} (frame : GetFrame ent state after)
    (call : Option (GetCall ops)) : GetFrame ent state (after.setCall caller call) where
  __ := frame

theorem frame_setEntry {direntp : Ipcdirent} {before : GetState ops}
    (frame : GetFrame ent state before)
    (was : ∀ other, (before.entries slot).ipcdEnt = some other → other = ent)
    (becomes : ∀ other, direntp.ipcdEnt = some other → other = ent) :
    GetFrame ent state (before.setEntry slot direntp) where
  __ := frame
  entries := by
    intro place other different
    rw [← frame.entries place other different]
    by_cases isSlot : place = slot
    · subst place
      simp only [GetState.setEntry, update_self]
      exact ⟨fun isEntry => absurd (becomes other isEntry) different,
        fun isEntry => absurd (was other isEntry) different⟩
    · simp only [GetState.setEntry, update_of_ne isSlot]
  seq := by
    intro place other different isEntry
    by_cases isSlot : place = slot
    · subst place
      simp only [GetState.setEntry, update_self] at isEntry
      exact absurd (becomes other isEntry) different
    · simp only [GetState.setEntry, update_of_ne isSlot] at isEntry ⊢
      exact frame.seq place other different isEntry

namespace GetKept

section

variable (kept : GetKept mni state)
include kept

theorem not_held_of_free (notBusy : (state.descriptors ent).busy = none)
    (other : Nat) : state.held other ≠ some ent := by
  intro holds
  have isBusy : (state.descriptors ent).busy = some other := (kept.owned ent other).mpr holds
  rw [notBusy] at isBusy
  cases isBusy

theorem not_held_of_held (holds : state.held caller = some ent)
    (other : Nat) (different : other ≠ caller) : state.held other ≠ some ent :=
  fun also => different (kept.owned.exclusive also holds)

theorem setCall {results : List (GetResult ops)}
    (idle : state.held caller = none) (call : Option (GetCall ops))
    (stillIdle : (call.bind fun call => call.point.holds) = none)
    (ownCall : ∀ uap point, call = some ⟨uap, point⟩ → CallKept state caller uap point)
    (isResult : ∀ result ∈ results, result ∈ state.results ∨
      (result.segment < state.next ∧ ResultWell mni state result)) :
    GetKept mni { state.setCall caller call with results := results } where
  owned := kept.owned.congr (fun _ => rfl) fun other => by
    by_cases isCaller : other = caller
    · subst other
      exact ((held_setCall call).trans stillIdle).trans idle.symm
    · exact held_setCall_of_ne isCaller call
  entries := by
    intro place which isEntry
    have well := kept.entries place which isEntry
    refine
      { well with
        parameters := fun notCreating => ?_ }
    refine well.parameters fun other uap slot segment isCall => ?_
    by_cases isCaller : other = caller
    · subst other
      rw [GetState.held, isCall] at idle
      cases idle
    · refine notCreating other uap slot segment ?_
      exact (update_of_ne isCaller _ _).trans isCall
  calls := by
    intro other uap point isCall
    have sameCall : CallKept state other uap point →
        CallKept { state.setCall caller call with results := results } other uap point := by
      cases point <;> exact id
    refine sameCall ?_
    have isUpdated : update state.calls caller call other = some ⟨uap, point⟩ := isCall
    by_cases isCaller : other = caller
    · subst other
      rw [update_self] at isUpdated
      exact ownCall uap point isUpdated
    · rw [update_of_ne isCaller] at isUpdated
      exact kept.calls other uap point isUpdated
  results := by
    intro result inResults
    rcases isResult result inResults with wasResult | isNew
    · obtain ⟨isOld, well⟩ := kept.results result wasResult
      exact ⟨isOld, ⟨well.key, well.id, well.created, well.found⟩⟩
    · exact ⟨isNew.1, ⟨isNew.2.key, isNew.2.id, isNew.2.created, isNew.2.found⟩⟩

theorem acquire (idle : state.held caller = none)
    (notBusy : (state.descriptors ent).busy = none) (holds : point.holds = some ent)
    (notCreating : ∀ slot segment, point ≠ .creating slot ent segment)
    (ownCall : CallKept state caller uap point) :
    GetKept mni ((state.setBusy ent (some caller)).goto caller uap point) := by
  have notHeld := kept.not_held_of_free notBusy
  have noCreator : ∀ other uap slot segment,
      state.calls other ≠ some ⟨uap, .creating slot ent segment⟩ := by
    intro other uap slot segment isCall
    refine notHeld other ?_
    rw [GetState.held, isCall]
    rfl
  refine kept.step (frame_setDs.setCall (some ⟨uap, point⟩)) rfl ?_
    (fun other _ => notHeld other) ?_ ?_ ?_ fun _ => .inl
  · intro uap point isCall which holdsWhich
    rw [GetState.held, isCall] at idle
    exact absurd (holdsWhich.symm.trans idle) (by simp)
  · refine kept.owned.acquire notBusy idle (by simp) ?_ ?_ ?_
    · exact fun other different => by simp [update_of_ne different]
    · exact (held_setCall _).trans holds
    · exact fun other different => held_setCall_of_ne different _
  · intro place isEntry
    have well := kept.entries place ent isEntry
    exact
      { allocated := by simpa using well.allocated
        old := by simpa using well.old
        isSlot := by simpa using well.isSlot
        isSeq := by simpa using well.isSeq
        parameters := fun _ => by simpa using well.parameters noCreator }
  · rintro _ _ ⟨⟩
    cases point with
    | creating slot which segment =>
      obtain rfl := some.inj holds
      exact absurd rfl (notCreating slot segment)
    | reading _ _ _ => cases holds
    | _ => exact ownCall

theorem release (isCall : state.calls caller = some ⟨uap, point⟩)
    (holds : point.holds = some ent)
    (notCreating : ∀ slot segment, point ≠ .creating slot ent segment) (call : Option (GetCall ops))
    (idle : (call.bind fun call => call.point.holds) = none)
    (ownCall : ∀ uap point, call = some ⟨uap, point⟩ → CallKept state caller uap point) :
    GetKept mni ((state.setBusy ent none).setCall caller call) := by
  have isHeld : state.held caller = some ent := by
    rw [GetState.held, isCall]
    exact holds
  have notOther := kept.not_held_of_held isHeld
  have noCreator : ∀ other uap slot segment,
      state.calls other ≠ some ⟨uap, .creating slot ent segment⟩ := by
    intro other uap slot segment isOther
    by_cases isCaller : other = caller
    · subst other
      rw [isCall] at isOther
      obtain rfl := (GetCall.mk.inj (some.inj isOther)).2
      exact notCreating slot segment rfl
    · refine notOther other isCaller ?_
      rw [GetState.held, isOther]
      rfl
  refine kept.step (frame_setDs.setCall call) rfl ?_ notOther ?_ ?_ ?_ fun _ => .inl
  · intro uap point isSame which holdsWhich
    rw [isCall] at isSame
    obtain rfl := (GetCall.mk.inj (some.inj isSame)).2
    rw [holds] at holdsWhich
    exact (some.inj holdsWhich).symm
  · refine kept.owned.release isHeld (by simp) ?_ ?_ ?_
    · exact fun other different => by simp [update_of_ne different]
    · exact (held_setCall _).trans idle
    · exact fun other different => held_setCall_of_ne different _
  · intro place isEntry
    have well := kept.entries place ent isEntry
    exact
      { allocated := by simpa using well.allocated
        old := by simpa using well.old
        isSlot := by simpa using well.isSlot
        isSeq := by simpa using well.isSeq
        parameters := fun _ => by simpa using well.parameters noCreator }
  · rintro next point rfl
    have before := ownCall next point rfl
    cases point with
    | creating slot which segment => cases idle
    | _ => exact before

theorem lookupNew (idle : state.held caller = none)
    (noEntry : (state.entries slot).ipcdEnt = none)
    (free : (state.descriptors ent).ipcAlloc = false)
    (notBusy : (state.descriptors ent).busy = none) :
    GetKept mni (state.lookupNew caller slot ent uap) := by
  have notHeld := kept.not_held_of_free notBusy
  have unused : ∀ place, (state.entries place).ipcdEnt ≠ some ent := by
    intro place isEntry
    rw [(kept.entries place ent isEntry).allocated] at free
    cases free
  have entryFrame : GetFrame ent state (state.setEntry slot
      { state.entries slot with ipcdEnt := some ent }) :=
    frame_setEntry ⟨fun _ _ _ => Iff.rfl, fun _ _ _ _ => rfl, fun _ _ => rfl,
      fun _ _ => rfl, le_rfl⟩
      (fun other isEntry => by
        rw [noEntry] at isEntry
        cases isEntry)
      fun other isEnt => (some.inj isEnt).symm
  have frame : GetFrame ent state (state.lookupNew caller slot ent uap) :=
    { entryFrame with
      descriptors := fun other different => update_of_ne different _ state.descriptors
      segments := fun segment old => update_of_ne (Nat.ne_of_lt old) _ state.segments
      next := Nat.le_succ _ }
  refine kept.step frame rfl ?_ (fun other _ => notHeld other) ?_ ?_ ?_ fun _ => .inl
  · intro uap point isCall which holdsWhich
    rw [GetState.held, isCall] at idle
    exact absurd (holdsWhich.symm.trans idle) (by simp)
  · refine kept.owned.acquire notBusy idle ?_ ?_ ?_ ?_
    · simp [GetState.lookupNew]
    · intro other different
      simp [GetState.lookupNew, update_of_ne different]
    · exact held_setCall (some ⟨uap, .creating slot ent state.next⟩)
    · exact fun other different => held_setCall_of_ne different _
  · intro place isEntry
    have isSlot : place = slot := by
      by_contra other
      refine unused place ?_
      exact (congrArg Ipcdirent.ipcdEnt (update_of_ne other _ state.entries)).symm.trans isEntry
    subst place
    exact
      { allocated := by simp [GetState.lookupNew]
        old := by simp [GetState.lookupNew]
        isSlot := by simp [GetState.lookupNew]
        isSeq := by simp [GetState.lookupNew]
        parameters := fun notCreating =>
          absurd (update_self caller _ state.calls) (notCreating caller uap slot state.next) }
  · rintro _ _ ⟨⟩
    simp [CallKept, GetState.lookupNew]

theorem createDone (isCall : state.calls caller = some ⟨uap, .creating slot ent segment⟩) :
    GetKept mni (state.createDone caller slot ent segment uap) := by
  have isHeld : state.held caller = some ent := by
    rw [GetState.held, isCall]
    rfl
  have notOther := kept.not_held_of_held isHeld
  obtain ⟨isEntry, rfl, isKey, isCreator, isUap⟩ := kept.calls caller uap _ isCall
  have known := kept.entries slot ent isEntry
  refine kept.step (frame_setDs.setCall _) rfl ?_ notOther ?_ ?_ ?_ fun _ => .inl
  · intro _ point isSame which holdsWhich
    rw [isCall] at isSame
    obtain rfl := (GetCall.mk.inj (some.inj isSame)).2
    exact (some.inj holdsWhich).symm
  · refine kept.owned.release isHeld (by simp [GetState.createDone]) ?_ ?_ ?_
    · intro other different
      simp [GetState.createDone, update_of_ne different]
    · exact held_setCall (some ⟨uap, .reading slot _ true⟩)
    · exact fun other different => held_setCall_of_ne different _
  · intro place isPlace
    have well := kept.entries place ent isPlace
    exact
      { allocated := by simpa [GetState.createDone] using well.allocated
        old := by simpa [GetState.createDone] using well.old
        isSlot := by simpa [GetState.createDone] using well.isSlot
        isSeq := by simpa [GetState.createDone] using well.isSeq
        parameters := fun _ => by simp [GetState.createDone, isUap] }
  · rintro _ _ ⟨⟩
    exact ⟨known.old, isKey, fun _ => isCreator, fun isFalse => by cases isFalse⟩

theorem clearEntry {direntp : Ipcdirent} {freed : KernelDs ops} {call : Option (GetCall ops)}
    (isCall : state.calls caller = some ⟨uap, point⟩)
    (holds : point.holds = some ent) (isEntry : (state.entries slot).ipcdEnt = some ent)
    (cleared : direntp.ipcdEnt = none) (owned : Owned (fun other =>
      (update state.descriptors ent freed other).busy) fun other =>
        (update state.calls caller call other).bind fun call => call.point.holds)
    (ownCall : ∀ uap point, call = some ⟨uap, point⟩ → point = .removed ent) :
    GetKept mni (((state.setEntry slot direntp).setDs ent freed).setCall caller call) := by
  have isHeld : state.held caller = some ent := by
    rw [GetState.held, isCall]
    exact holds
  have noOther : ∀ place, place ≠ slot → (state.entries place).ipcdEnt ≠ some ent := by
    intro place different isPlace
    have first := (kept.entries place ent isPlace).isSlot
    have second := (kept.entries slot ent isEntry).isSlot
    exact different (first.symm.trans second)
  have gone : ∀ place, (update state.entries slot direntp place).ipcdEnt ≠ some ent := by
    intro place
    by_cases isSlot : place = slot
    · subst place
      rw [update_self, cleared]
      simp
    · rw [update_of_ne isSlot]
      exact noOther place isSlot
  have entryFrame : GetFrame ent state (state.setEntry slot direntp) := frame_setEntry
      ⟨fun _ _ _ => Iff.rfl, fun _ _ _ _ => rfl, fun _ _ => rfl, fun _ _ => rfl, le_rfl⟩
      (fun other isOther => by
        rw [isEntry] at isOther
        exact (some.inj isOther).symm)
      (fun other isOther => by
        rw [cleared] at isOther
        cases isOther)
  have frame : GetFrame ent state (((state.setEntry slot direntp).setDs ent freed).setCall caller
      call) :=
    { entryFrame with
      descriptors := fun other different => update_of_ne different _ state.descriptors
      segments := fun _ _ => rfl
      next := le_rfl }
  refine kept.step frame rfl ?_ (kept.not_held_of_held isHeld) owned
    (fun place isPlace => absurd isPlace (gone place)) ?_ fun _ => .inl
  · intro _ _ isSame which holdsWhich
    rw [isCall] at isSame
    obtain rfl := (GetCall.mk.inj (some.inj isSame)).2
    rw [holds] at holdsWhich
    exact (some.inj holdsWhich).symm
  · intro uap point isNext
    obtain rfl := ownCall uap point isNext
    exact gone

theorem dealloc (isCall : state.calls caller = some ⟨uap, .removed ent⟩) :
    GetKept mni ((state.dealloc ent).setCall caller none) := by
  have isHeld : state.held caller = some ent := by
    rw [GetState.held, isCall]
    rfl
  have gone := kept.calls caller uap _ isCall
  refine kept.step (frame_setDs.setCall none) rfl ?_ (kept.not_held_of_held isHeld)
    ?_ (fun place isPlace => absurd isPlace (gone place)) ?_ fun _ => .inl
  · intro _ _ isSame which holdsWhich
    rw [isCall] at isSame
    obtain rfl := (GetCall.mk.inj (some.inj isSame)).2
    exact (some.inj holdsWhich).symm
  · refine kept.owned.release isHeld (by simp [GetState.dealloc]) ?_ ?_ ?_
    · intro other different
      simp [GetState.dealloc, update_of_ne different]
    · exact held_setCall none
    · exact fun other different => held_setCall_of_ne different _
  · intro _ _ isNone
    cases isNone

theorem createFail (isCall : state.calls caller = some ⟨uap, .creating slot ent segment⟩) :
    GetKept mni (state.createFail caller slot ent) := by
  have isHeld : state.held caller = some ent := by
    rw [GetState.held, isCall]
    rfl
  obtain ⟨isEntry, -⟩ := kept.calls caller uap _ isCall
  refine kept.clearEntry isCall rfl isEntry rfl ?_ ?_
  · refine kept.owned.release isHeld (by simp) ?_ ?_ ?_
    · exact fun other different => by simp [update_of_ne different]
    · exact held_setCall none
    · exact fun other different => held_setCall_of_ne different _
  · intro _ _ isNone
    cases isNone

theorem removeId {seq : Int} (isCall : state.calls caller = some ⟨uap, .converted slot ent⟩) :
    GetKept mni ((state.setEntry slot ⟨none, seq⟩).goto caller uap (.removed ent)) := by
  have isEntry := kept.calls caller uap _ isCall
  have cleared := @clearEntry _ state ent caller slot mni uap _ kept ⟨none, seq⟩
      (state.descriptors ent) (some ⟨uap, .removed ent⟩) isCall rfl isEntry
      rfl (by
        rw [update_eq_self]
        refine kept.owned.congr (fun _ => rfl) fun other => ?_
        by_cases isCaller : other = caller
        · subst other
          rw [update_self, isCall]
          rfl
        · rw [update_of_ne isCaller])
      (by
        rintro _ _ ⟨⟩
        rfl)
  have same : (state.setEntry slot ⟨none, seq⟩).setDs ent (state.descriptors ent) =
      state.setEntry slot ⟨none, seq⟩ := by
    rw [GetState.setDs, setEntry_descriptors, update_eq_self]
    rfl
  rw [same] at cleared
  exact cleared

theorem recheck (isCall : state.calls caller = some ⟨uap, .recheck slot ent⟩)
    (sameSegment : (state.entries slot).ipcdEnt = none ∨ ((state.entries slot).ipcdEnt = some ent ∧
      (state.segments (state.descriptors ent).segment).key = ops.key uap)) :
    GetKept mni (state.recheck caller slot ent uap) := by
  have isPublic := kept.calls caller uap _ isCall
  have isHeld : state.held caller = some ent := by
    rw [GetState.held, isCall]
    rfl
  have notOther := kept.not_held_of_held isHeld
  have notCreating : ∀ place segment, GetPoint.recheck slot ent ≠ .creating place ent segment :=
    fun _ _ => by simp
  have noCreator : ∀ other uap slot segment,
      state.calls other ≠ some ⟨uap, .creating slot ent segment⟩ := by
    intro other uap slot segment isOther
    by_cases isCaller : other = caller
    · subst other
      rw [isCall] at isOther
      cases isOther
    · refine notOther other isCaller ?_
      rw [GetState.held, isOther]
      rfl
  rw [GetState.recheck]
  split_ifs with noEntry complies
  · refine kept.release isCall rfl notCreating _ rfl ?_
    rintro _ _ ⟨⟩
    trivial
  · obtain ⟨isEntry, sameKey⟩ := sameSegment.resolve_left noEntry
    have well := kept.entries slot ent isEntry
    refine kept.release isCall rfl notCreating _ rfl ?_
    rintro _ _ ⟨⟩
    refine ⟨well.old, sameKey, fun isTrue => absurd isTrue (by simp), fun _ => ⟨isPublic, ?_⟩⟩
    rw [← well.parameters noCreator]
    exact complies
  · refine kept.release isCall rfl notCreating none rfl ?_
    intro _ _ isNone
    cases isNone

theorem read {created : Bool} (isCall :
    state.calls caller = some ⟨uap, .reading slot segment created⟩)
    (same : ∃ ent, (state.entries slot).ipcdEnt = some ent ∧
      (state.descriptors ent).segment = segment) :
    GetKept mni (state.read mni caller slot segment created uap) := by
  obtain ⟨ent, isEntry, isSegment⟩ := same
  obtain ⟨isOld, isKey, isCreator, isFound⟩ := kept.calls caller uap _ isCall
  have well := kept.entries slot ent isEntry
  have isSlot := well.isSlot
  have isSeq := well.isSeq
  rw [isSegment] at isSlot isSeq
  have idle : state.held caller = none := by
    rw [GetState.held, isCall]
    rfl
  refine kept.setCall idle none rfl ?_ ?_
  · intro _ _ isNone
    cases isNone
  · intro result isResult
    rcases mem_append.mp isResult with wasResult | isNew
    · exact .inl wasResult
    · rw [mem_singleton] at isNew
      subst result
      refine .inr ⟨isOld, ?_⟩
      exact
        { key := isKey
          id := ⟨some ent, by rw [isSlot, isSeq]; rfl⟩
          created := isCreator
          found := isFound }

end

end GetKept

theorem GetStep.kept {field : SeqField} {seqmax : Int} {action : GetAction} {after : GetState ops}
    (kept : GetKept mni state) (taken : GetStep field seqmax mni state action after)
    (guard : GetGuard state action) : GetKept mni after := by
  have idleOf : ∀ {caller}, state.calls caller = none → state.held caller = none := by
    intro caller isIdle
    rw [GetState.held, isIdle]
    rfl
  cases taken with
  | call uap idle =>
    refine kept.setCall (idleOf idle) _ rfl ?_ fun _ => .inl
    rintro _ _ ⟨⟩
    trivial
  | found isCall entry isPublic sameKey notBusy =>
    refine kept.acquire ?_ notBusy rfl (by simp) isPublic
    rw [GetState.held, isCall]
    rfl
  | foundBusy isCall entry isPublic sameKey isBusy =>
    refine kept.setCall ?_ _ rfl ?_ fun _ => .inl
    · rw [GetState.held, isCall]
      rfl
    · rintro _ _ ⟨⟩
      exact isPublic
  | new isCall noEntry free notBusy =>
    refine kept.lookupNew ?_ noEntry free notBusy
    rw [GetState.held, isCall]
    rfl
  | wake isCall notBusy =>
    have isPublic := kept.calls _ _ _ isCall
    refine kept.acquire ?_ notBusy rfl (by simp) isPublic
    rw [GetState.held, isCall]
    rfl
  | recheck isCall => exact kept.recheck isCall (guard _ _ _ isCall)
  | createDone isCall accepted => exact kept.createDone isCall
  | createFail isCall => exact kept.createFail isCall
  | read isCall => exact kept.read isCall (guard _ _ _ _ isCall)
  | convert uap idle entry notBusy => exact kept.acquire (idleOf idle) notBusy rfl (by simp) entry
  | hold uap idle notBusy => exact kept.acquire (idleOf idle) notBusy rfl (by simp) trivial
  | releaseConverted isCall | releaseStale isCall | releaseRemoved isCall =>
    refine kept.release isCall rfl (by simp) none rfl ?_
    intro _ _ isNone
    cases isNone
  | removeId isCall => exact kept.removeId isCall
  | dealloc isCall => exact kept.dealloc isCall
  | lastDetach uap idle allocated notBusy noEntry =>
    exact kept.acquire (idleOf idle) notBusy rfl (by simp) noEntry

end Steps

/-- There are no segments; the descriptors are free. -/
def getBoot (ops : GetOps) (uap : ops.Args) : GetState ops where
  entries := fun _ => ⟨none, 0⟩
  descriptors := fun _ => ⟨false, none, ops.parameters uap, 0⟩
  segments := fun _ => ⟨ops.key uap, 0, 0, 0, uap⟩
  next := 0
  calls := fun _ => none
  results := []

theorem getBoot_kept (mni : Nat) (uap : ops.Args) : GetKept mni (getBoot ops uap) where
  owned := by
    intro ent caller
    simp [getBoot]
  entries := fun _ _ isEntry => by cases isEntry
  calls := fun _ _ _ isCall => by cases isCall
  results := fun _ isResult => by cases isResult

theorem resultWell_of_run (ops : GetOps) (field : SeqField) (seqmax : Int) (mni : Nat)
    (uap : ops.Args) (actions : List GetAction) (final : GetState ops)
    (run : Run (Guarded (GetStep field seqmax mni) GetGuard) (getBoot ops uap) actions final) :
    ∀ result ∈ final.results, ResultWell mni final result := by
  have kept : GetKept mni final := run.invariant (fun _ _ _ kept taken => taken.1.kept kept taken.2)
      (getBoot_kept mni uap)
  exact fun result isResult => (kept.results result isResult).2

/-- The arguments of `dshmget` for one buffer and some key. -/
def oneBuffer (key : Int) : (dshmgetOps 1).Args := (key, ⟨4096, 1, 1, 0x400000, 0x400000⟩)

theorem resultWell_of_run_created : ∃ final,
    Run (Guarded (GetStep intField dshmseqmax 100) GetGuard) (getBoot (dshmgetOps 1) (oneBuffer 0))
      [.call 0, .new 0 3, .createDone 0, .read 0] final ∧
      final.results.length = 1 ∧ ∀ result ∈ final.results, ResultWell 100 final result := by
  have called : Run (Guarded (GetStep intField dshmseqmax 100) GetGuard)
      (getBoot (dshmgetOps 1) (oneBuffer 0)) [.call 0] _ :=
    .single ⟨.call (oneBuffer 7) rfl, trivial⟩
  have created := called.snoc
    ⟨@GetStep.new _ intField dshmseqmax 100 _ 0 3 0 _ rfl rfl rfl rfl, trivial⟩
  have done := created.snoc ⟨@GetStep.createDone _ intField dshmseqmax 100 _ 0 3 0 0 _ rfl rfl,
      trivial⟩
  have returned := done.snoc ⟨@GetStep.read _ intField dshmseqmax 100 _ 0 3 0 true _ rfl, by
      rintro uap slot segment created isCall
      cases isCall
      exact ⟨0, rfl, rfl⟩⟩
  exact ⟨_, returned, rfl, resultWell_of_run (dshmgetOps 1) intField dshmseqmax 100 _ _ _ returned⟩

/--
The segment with the first key is removed while a call waits for it, and the entry and
the descriptor are used again: the call returns the segment with the second key.
-/
theorem resultWell_fails_on_reuse : ¬ ∀ (ops : GetOps) (field : SeqField) (seqmax : Int) (mni : Nat)
    (uap : ops.Args) (actions : List GetAction) (final : GetState ops),
    Run (GetStep field seqmax mni) (getBoot ops uap) actions final →
      ∀ result ∈ final.results, ResultWell mni final result := by
  intro always
  have called : Run (GetStep intField dshmseqmax 100)
      (getBoot (dshmgetOps 1) (oneBuffer 0)) [.call 0] _ :=
    .single (.call (oneBuffer 1) rfl)
  have created := called.snoc (@GetStep.new _ intField dshmseqmax 100 _ 0 0 0 _ rfl rfl rfl rfl)
  have done := created.snoc (@GetStep.createDone _ intField dshmseqmax 100 _ 0 0 0 0 _ rfl rfl)
  have removing := done.snoc
    (@GetStep.convert _ intField dshmseqmax 100 _ 1 0 0 (oneBuffer 0) rfl rfl rfl)
  have asked := removing.snoc (@GetStep.call _ intField dshmseqmax 100 _ 2 (oneBuffer 1) rfl)
  have waiting := asked.snoc (@GetStep.foundBusy _ intField dshmseqmax 100 _ 2 0 0 (oneBuffer 1) rfl
      rfl (by decide) rfl (some_ne_none 1))
  have removed := waiting.snoc
    (@GetStep.removeId _ intField dshmseqmax 100 _ 1 0 0 (oneBuffer 0) rfl)
  have freed := removed.snoc (@GetStep.dealloc _ intField dshmseqmax 100 _ 1 0 (oneBuffer 0) rfl)
  have other := freed.snoc (@GetStep.call _ intField dshmseqmax 100 _ 3 (oneBuffer 2) rfl)
  have reused := other.snoc
    (@GetStep.new _ intField dshmseqmax 100 _ 3 0 0 (oneBuffer 2) rfl rfl rfl rfl)
  have ready := reused.snoc
    (@GetStep.createDone _ intField dshmseqmax 100 _ 3 0 0 1 (oneBuffer 2) rfl rfl)
  have woken := ready.snoc (@GetStep.wake _ intField dshmseqmax 100 _ 2 0 0 (oneBuffer 1) rfl rfl)
  have checked := woken.snoc (@GetStep.recheck _ intField dshmseqmax 100 _ 2 0 0 (oneBuffer 1) rfl)
  have returned := checked.snoc
    (@GetStep.read _ intField dshmseqmax 100 _ 2 0 1 false (oneBuffer 1) rfl)
  have well := always (dshmgetOps 1) intField dshmseqmax 100 _ _ _ returned
      _ (mem_append_right _ (mem_singleton_self _))
  have wrongKey : (2 : Int) = 1 := well.key
  exact absurd wrongKey (by decide)

end Uw7.Ipc
