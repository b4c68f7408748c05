import Uw7.Ipc.Directory
import Uw7.Lib.Run

namespace Uw7.Ipc

/-!
# Identifiers over creations and removals

While no segment is created in an entry whose sequence number is too large for its
identifier, the identifier of a segment leads back to its entry, and the one of
a removed segment is refused until the sequence numbers have come round.
-/

open Lib Function Option

/-- The directory, the identifiers in use and those removed, latest first. -/
structure Ids where
  entries : IpcdirEntries
  live : Nat → Option Int
  removed : Nat → List Int

/-- What happens to segments. -/
inductive IdAction where
  | created (slot : Nat)
  | removed (slot : Nat)
  deriving DecidableEq

/-- A segment is created in a free entry, or removed by `IPC_RMID`. -/
inductive IdStep (field : SeqField) (seqmax : Int) (mni : Nat) (before : Ids) :
    IdAction → Ids → Prop where
  | created {slot : Nat} (ent : Nat) (inside : slot < mni)
      (free : (before.entries slot).ipcdEnt = none) : IdStep field seqmax mni before (.created slot)
        { before with
          entries := update before.entries slot { before.entries slot with ipcdEnt := some ent }
          live := update before.live slot (some (ipcId mni (before.entries slot) slot)) }
  | removed {id : Int} {slot ent : Nat}
      (accepted : ipcConv mni before.entries id = some (slot, ent)) :
      IdStep field seqmax mni before (.removed slot)
        { entries := ipcRemoveId field seqmax mni before.entries id
          live := update before.live slot none
          removed := update before.removed slot ((before.live slot).toList ++ before.removed slot) }

/-- No segment has been created. -/
def emptyIds : Ids where
  entries := fun _ => ⟨none, 0⟩
  live := fun _ => none
  removed := fun _ => []

/--
The identifier of a segment selects its entry.  That of a removed segment is not
accepted before `seqmax + 1` removals from its entry.
-/
structure IdsWell (seqmax : Int) (mni : Nat) (ids : Ids) : Prop where
  live : ∀ slot id, ids.live slot = some id →
      0 ≤ id ∧ ∃ ent, ipcConv mni ids.entries id = some (slot, ent)
  removed : ∀ slot (index : Nat) id, (ids.removed slot)[index]? = some id →
      index + 1 ≤ seqmax → ipcConv mni ids.entries id = none

/-- The sequence number of an entry gives an identifier that fits an `int`. -/
def IdFits (mni : Nat) (before : Ids) : IdAction → Prop
  | .created slot =>
    0 ≤ (before.entries slot).ipcdSeq ∧ (before.entries slot).ipcdSeq * mni + slot ≤ intMax
  | .removed _ => True

/-- An entry agrees with the identifiers that were returned for it. -/
structure EntryKept (seqmax : Int) (mni slot : Nat) (direntp : Ipcdirent) (live : Option Int)
    (removed : List Int) : Prop where
  bounded : direntp.ipcdSeq ≤ seqmax
  unused : direntp.ipcdSeq < 0 → direntp.ipcdEnt = none
  named : ∀ ent, direntp.ipcdEnt = some ent → live = some (direntp.ipcdSeq * mni + slot)
  unnamed : direntp.ipcdEnt = none → live = none
  distance : ∀ (index : Nat) id, removed[index]? = some id →
      ∃ seq, 0 ≤ seq ∧ id = seq * mni + slot ∧ (0 ≤ direntp.ipcdSeq →
          seqmax + 1 ∣ direntp.ipcdSeq - seq - (index + 1))

variable {field : SeqField} {seqmax : Int} {mni slot : Nat}
  {direntp : Ipcdirent} {liveId : Option Int} {removedIds : List Int}

/-- The sequence number behind a removal. -/
def nextSeq (field : SeqField) (seqmax seq : Int) : Int :=
  if field.next seq > seqmax then 0 else field.next seq

theorem nextSeq_spec {seq : Int} (nonneg : 0 ≤ seq) (bounded : seq ≤ seqmax)
    (fits : seqmax ≤ intMax) : nextSeq field seqmax seq ≤ seqmax ∧ (0 ≤ nextSeq field seqmax seq →
      seqmax + 1 ∣ nextSeq field seqmax seq - seq - 1) := by
  have wraps : nextSeq field seqmax seq = 0 → seq = seqmax →
      seqmax + 1 ∣ nextSeq field seqmax seq - seq - 1 := by
    rintro isZero rfl
    exact ⟨-1, by omega⟩
  by_cases last : seq = intMax
  · subst seq
    have isMax : intMax = seqmax := by omega
    rcases field.next_max with negative | large
    · have same : nextSeq field seqmax intMax = field.next intMax := if_neg (by omega)
      exact ⟨by omega, fun used => by omega⟩
    · have same : nextSeq field seqmax intMax = 0 := if_pos (by omega)
      exact ⟨by omega, fun _ => wraps same isMax⟩
  · have next := field.next_eq seq nonneg (by omega)
    by_cases large : field.next seq > seqmax
    · have same : nextSeq field seqmax seq = 0 := if_pos large
      exact ⟨by omega, fun _ => wraps same (by omega)⟩
    · have same : nextSeq field seqmax seq = seq + 1 := (if_neg large).trans next
      exact ⟨by omega, fun _ => ⟨0, by omega⟩⟩

namespace EntryKept

theorem created (kept : EntryKept seqmax mni slot direntp liveId removedIds)
    (nonneg : 0 ≤ direntp.ipcdSeq) (fits : direntp.ipcdSeq * mni + slot ≤ intMax) (ent : Nat) :
    EntryKept seqmax mni slot { direntp with ipcdEnt := some ent }
      (some (ipcId mni direntp slot)) removedIds where
  __ := kept
  unused := fun negative => absurd nonneg (not_le.mpr negative)
  named := by
    intro _ _
    have product : 0 ≤ direntp.ipcdSeq * (mni : Int) := Int.mul_nonneg nonneg (by omega)
    rw [ipcId, toInt_eq (by omega) fits]
  unnamed := fun none_ => by cases none_

theorem removed {ent : Nat} (kept : EntryKept seqmax mni slot direntp liveId removedIds)
    (fits : seqmax ≤ intMax) (isSegment : direntp.ipcdEnt = some ent) : EntryKept seqmax mni slot
      { ipcdEnt := none
        ipcdSeq := nextSeq field seqmax direntp.ipcdSeq }
      none (liveId.toList ++ removedIds) := by
  have nonneg : 0 ≤ direntp.ipcdSeq := by
    by_contra negative
    rw [kept.unused (by omega)] at isSegment
    cases isSegment
  obtain ⟨bounded, moved⟩ := @nextSeq_spec field seqmax _ nonneg kept.bounded fits
  have named := kept.named ent isSegment
  refine
    { bounded := bounded
      unused := fun _ => rfl
      named := fun _ isNone => by cases isNone
      unnamed := fun _ => rfl
      distance := fun index id found => ?_ }
  rw [named] at found
  cases index with
  | zero =>
    obtain rfl := some.inj found
    exact ⟨direntp.ipcdSeq, nonneg, rfl, fun used => by simpa using moved used⟩
  | succ index =>
    obtain ⟨seq, seqNonneg, isId, distance⟩ := kept.distance index id found
    refine ⟨seq, seqNonneg, isId, fun used => ?_⟩
    have sum := Int.dvd_add (moved used) (distance nonneg)
    have total : nextSeq field seqmax direntp.ipcdSeq - direntp.ipcdSeq - 1 +
        (direntp.ipcdSeq - seq - (index + 1)) =
        nextSeq field seqmax direntp.ipcdSeq - seq - ((index + 1 : Nat) + 1) := by
      omega
    rw [total] at sum
    exact sum

end EntryKept

/-- All entries agree with the identifiers that were returned for them. -/
structure IdsKept (seqmax : Int) (mni : Nat) (ids : Ids) : Prop where
  entries : ∀ slot, slot < mni → EntryKept seqmax mni slot (ids.entries slot) (ids.live slot)
      (ids.removed slot)
  outside : ∀ slot, mni ≤ slot → ids.live slot = none ∧ ids.removed slot = []

variable {ids after : Ids} {action : IdAction}

theorem IdsKept.update {live' : Option Int} {removed' : List Int} (kept : IdsKept seqmax mni ids)
    (inside : slot < mni) (changed : EntryKept seqmax mni slot direntp live' removed') :
    IdsKept seqmax mni
      { entries := update ids.entries slot direntp
        live := update ids.live slot live'
        removed := update ids.removed slot removed' } where
  entries := by
    intro other isEntry
    by_cases same : other = slot
    · subst other
      simp only [update_self]
      exact changed
    · simp only [update_of_ne same]
      exact kept.entries other isEntry
  outside := by
    intro other notEntry
    have different : other ≠ slot := by omega
    simp only [update_of_ne different]
    exact kept.outside other notEntry

theorem slot_of_ipcConv {id : Int} {ent : Nat} {entries : IpcdirEntries} (positive : 0 < mni)
    (accepted : ipcConv mni entries id = some (slot, ent)) :
    slot < mni ∧ (id % mni).toNat = slot ∧ (entries slot).ipcdEnt = some ent := by
  rw [ipcConv] at accepted
  split_ifs at accepted with negative
  simp only at accepted
  cases isEnt : (entries (id % mni).toNat).ipcdEnt with
  | none =>
    rw [isEnt] at accepted
    cases accepted
  | some found =>
    rw [isEnt] at accepted
    split_ifs at accepted
    obtain ⟨rfl, rfl⟩ := Prod.mk.inj (some.inj accepted)
    have isPositive : (0 : Int) < mni := by omega
    have below := Int.emod_lt_of_pos id isPositive
    exact ⟨by omega, rfl, isEnt⟩

theorem IdStep.kept (positive : 0 < mni) (fits : seqmax ≤ intMax) (kept : IdsKept seqmax mni ids)
    (taken : IdStep field seqmax mni ids action after) (idFits : IdFits mni ids action) :
    IdsKept seqmax mni after := by
  cases taken with
  | @created slot ent inside free =>
    have changed := (kept.entries slot inside).created idFits.1 idFits.2 ent
    have updated := kept.update inside changed
    rw [update_eq_self] at updated
    exact updated
  | @removed id slot ent accepted =>
    obtain ⟨inside, isSlot, isSegment⟩ := slot_of_ipcConv positive accepted
    have changed := @EntryKept.removed field _ _ _ _ _ _ _ (kept.entries slot inside) fits isSegment
    have updated := kept.update inside changed
    rw [ipcRemoveId, isSlot]
    exact updated

theorem IdsKept.well (kept : IdsKept seqmax mni ids) : IdsWell seqmax mni ids where
  live := by
    intro slot id isLive
    by_cases inside : slot < mni
    · have entry := kept.entries slot inside
      cases isSegment : (ids.entries slot).ipcdEnt with
      | none =>
        rw [entry.unnamed isSegment] at isLive
        cases isLive
      | some ent =>
        rw [entry.named ent isSegment] at isLive
        obtain rfl := some.inj isLive
        have nonneg : 0 ≤ (ids.entries slot).ipcdSeq := by
          by_contra negative
          rw [entry.unused (by omega)] at isSegment
          cases isSegment
        have product : 0 ≤ (ids.entries slot).ipcdSeq * (mni : Int) :=
          Int.mul_nonneg nonneg (by omega)
        refine ⟨by omega, ent, ?_⟩
        rw [ipcConv_encoded inside nonneg, isSegment]
        simp
    · rw [(kept.outside slot (by omega)).1] at isLive
      cases isLive
  removed := by
    intro slot index id found early
    by_cases inside : slot < mni
    · have entry := kept.entries slot inside
      obtain ⟨seq, nonneg, rfl, distance⟩ := entry.distance index id found
      rw [ipcConv_encoded inside nonneg]
      cases isSegment : (ids.entries slot).ipcdEnt with
      | none => rfl
      | some ent =>
        have used : 0 ≤ (ids.entries slot).ipcdSeq := by
          by_contra negative
          rw [entry.unused (by omega)] at isSegment
          cases isSegment
        refine if_pos fun same => ?_
        have divides := distance used
        rw [← same] at divides
        have small : seqmax + 1 ∣ (index : Int) + 1 := by
          have negated := Int.dvd_neg.mpr divides
          have value : -(seq - seq - ((index : Int) + 1)) = index + 1 := by omega
          rw [value] at negated
          exact negated
        have atMost := Int.le_of_dvd (by omega) small
        omega
    · rw [(kept.outside slot (by omega)).2] at found
      cases found

theorem emptyIds_kept (nonneg : 0 ≤ seqmax) : IdsKept seqmax mni emptyIds where
  entries := fun slot _ =>
    { bounded := nonneg
      unused := fun _ => rfl
      named := fun _ isNone => by cases isNone
      unnamed := fun _ => rfl
      distance := fun index id found => by simp [emptyIds] at found }
  outside := fun _ _ => ⟨rfl, rfl⟩

theorem idsWell_of_guarded {actions : List IdAction} (positive : 0 < mni) (nonneg : 0 ≤ seqmax)
    (fits : seqmax ≤ intMax)
    (run : Run (Guarded (IdStep field seqmax mni) (IdFits mni)) emptyIds actions ids) :
    IdsWell seqmax mni ids := by
  have kept : IdsKept seqmax mni ids := run.invariant
      (fun _ _ _ kept taken => taken.1.kept positive fits kept taken.2) (emptyIds_kept nonneg)
  exact kept.well

theorem dshm_ids_of_run (field : SeqField) (dshmmni : Nat) (actions : List IdAction) (final : Ids)
    (positive : 0 < dshmmni) (run : Run (Guarded (IdStep field dshmseqmax dshmmni) (IdFits dshmmni))
      emptyIds actions final) :
    IdsWell dshmseqmax dshmmni final :=
  idsWell_of_guarded positive (by decide) le_rfl run

theorem dshm_ids_of_run_first : IdsWell dshmseqmax 100
    { emptyIds with
      entries := update emptyIds.entries 3 { emptyIds.entries 3 with ipcdEnt := some 0 }
      live := update emptyIds.live 3 (some (ipcId 100 (emptyIds.entries 3) 3)) } :=
  dshm_ids_of_run intField 100 [.created 3] _ (by decide)
    (.single ⟨.created 0 (by decide) rfl, by decide, by decide⟩)

theorem seq_reached (seq : Nat) (small : seq ≤ 21474837) : ∃ actions final,
    Run (IdStep intField dshmseqmax 100) emptyIds actions final ∧
      final.entries 0 = ⟨none, seq⟩ := by
  induction seq with
  | zero => exact ⟨[], emptyIds, .nil, rfl⟩
  | succ seq ih =>
    obtain ⟨actions, before, run, entry⟩ := ih (by omega)
    have free : (before.entries 0).ipcdEnt = none := by rw [entry]
    have created := run.snoc (.created 0 (by decide : 0 < 100) free)
    have id : (seq : Int) * (100 : Nat) + (0 : Nat) = seq * 100 := by simp
    have accepted : ipcConv 100 (update before.entries 0
        { before.entries 0 with ipcdEnt := some 0 }) (seq * 100) = some (0, 0) := by
      rw [← id, ipcConv_encoded (by decide) (by omega)]
      simp [entry]
    refine ⟨_, _, created.snoc (.removed accepted), ?_⟩
    have slot : ((seq : Int) * 100 % (100 : Nat)).toNat = 0 := by omega
    have next : intField.next seq = seq + 1 :=
      intField.next_eq seq (by omega) (by simp only [intMax]; omega)
    have within : ¬ (seq : Int) + 1 > dshmseqmax := by
      simp only [dshmseqmax, intMax]
      omega
    simp only [ipcRemoveId, slot, update_self, entry, next, if_neg within]
    rfl

theorem dshm_id_overflows : ¬ ∀ (field : SeqField) (dshmmni : Nat) (actions : List IdAction)
    (final : Ids), 0 < dshmmni → Run (IdStep field dshmseqmax dshmmni) emptyIds actions final →
    IdsWell dshmseqmax dshmmni final := by
  intro always
  obtain ⟨actions, before, run, entry⟩ := seq_reached 21474837 le_rfl
  have free : (before.entries 0).ipcdEnt = none := by rw [entry]
  have created := run.snoc (.created 0 (by decide : 0 < 100) free)
  have well := always intField 100 _ _ (by decide) created
  have nonneg := (well.live 0 _ (update_self 0 _ before.live)).1
  rw [ipcId, entry] at nonneg
  exact absurd nonneg (by decide)

theorem shmseqmax_fits {shmmni slot : Nat} {seq : Int} (inside : slot < shmmni)
    (bounded : seq ≤ shmseqmax shmmni) : seq * shmmni + slot ≤ int16Max := by
  have product : seq * shmmni ≤ shmseqmax shmmni * shmmni :=
    Int.mul_le_mul_of_nonneg_right bounded (by omega)
  have quotient : shmseqmax shmmni * shmmni ≤ int16Max - (shmmni - 1) :=
    Int.ediv_mul_le _ (by omega)
  omega

theorem IdStep.seq_nonneg (small : seqmax < intMax) (kept : IdsKept seqmax mni ids)
    (nonneg : ∀ slot, 0 ≤ (ids.entries slot).ipcdSeq) (positive : 0 < mni)
    (taken : IdStep field seqmax mni ids action after) (slot : Nat) :
    0 ≤ (after.entries slot).ipcdSeq := by
  cases taken with
  | @created changed ent inside free =>
    by_cases same : slot = changed
    · subst slot
      simpa using nonneg changed
    · simpa [update_of_ne same] using nonneg slot
  | @removed id changed ent accepted =>
    obtain ⟨inside, isSlot, -⟩ := slot_of_ipcConv positive accepted
    by_cases same : slot = changed
    · subst slot
      have bounded := (kept.entries changed inside).bounded
      have next := field.next_eq _ (nonneg changed) (by omega)
      simp only [ipcRemoveId, isSlot, update_self, next]
      have before := nonneg changed
      split_ifs <;> omega
    · simpa [ipcRemoveId, isSlot, update_of_ne same] using nonneg slot

theorem shm_ids_of_run (field : SeqField) (shmmni : Nat) (actions : List IdAction) (final : Ids)
    (positive : 0 < shmmni) (few : shmmni ≤ int16Max)
    (run : Run (IdStep field (shmseqmax shmmni) shmmni) emptyIds actions final) :
    IdsWell (shmseqmax shmmni) shmmni final := by
  have nonneg : 0 ≤ shmseqmax shmmni := Int.ediv_nonneg (by omega) (by omega)
  have quotient : shmseqmax shmmni ≤ int16Max - (shmmni - 1) := Int.ediv_le_self _ (by omega)
  have small : shmseqmax shmmni < intMax := by
    simp only [int16Max, intMax] at quotient ⊢
    omega
  have kept : IdsKept (shmseqmax shmmni) shmmni final ∧
      ∀ slot, 0 ≤ (final.entries slot).ipcdSeq := by
    induction run with
    | nil => exact ⟨emptyIds_kept nonneg, fun _ => le_rfl⟩
    | snoc earlier taken ih =>
      obtain ⟨kept, seqNonneg⟩ := ih
      refine ⟨?_, taken.seq_nonneg small kept seqNonneg positive⟩
      refine taken.kept positive small.le kept ?_
      cases taken with
      | @created slot ent inside free =>
        have fits := shmseqmax_fits inside (kept.entries slot inside).bounded
        simp only [int16Max] at fits
        exact ⟨seqNonneg slot, by simp only [intMax]; omega⟩
      | removed accepted => trivial
  exact kept.1.well

theorem shm_ids_of_run_first : ∃ final : Ids, final.live 3 = some 3 ∧
    IdsWell (shmseqmax 100) 100 final :=
  ⟨_, rfl, shm_ids_of_run intField 100 [.created 3] _ (by decide) (by decide)
    (.single (.created 0 (by decide) rfl))⟩

end Uw7.Ipc
