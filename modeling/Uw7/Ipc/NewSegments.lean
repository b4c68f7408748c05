import Mathlib.Tactic.IntervalCases
import Uw7.Errno
import Uw7.Ipc.Attachments

namespace Uw7.Ipc

/-!
# New segments of dynamic shared memory

`dshmget` from `proc/ipc/dshm.c` for a segment that is not there yet, with `dshmalloc`
and `dshmdealloc`.  Nobody else touches a descriptor while it is `DSHM_BUSY`, also where
the locks are dropped, so the call is one function of its slot and its descriptor.
-/

open Errno

def dshmBusy : UInt8 := 0x1

/-- A directory entry, the count of entries in use, and a descriptor. -/
structure NewSlot where
  ipcdEnt : Option Nat
  ipcdirNactive : Int
  kdshmFlag : UInt8
  kdshmp : Kdshmid

/-- What other routines say to a call: the privileges, the entry and the descriptor that
`ipcget` finds, and the memory. -/
structure Outside where
  pmDenied : Bool
  ipcget : Except Errno Nat
  segumapCreateObj : Except Errno Nat

namespace NewSlot

/-- The entry and the descriptor are free. -/
structure Free (slot : NewSlot) : Prop where
  ent : slot.ipcdEnt = none
  alloc : slot.kdshmp.ipcAlloc = false
  busy : slot.kdshmFlag &&& dshmBusy = 0

/-- `dshmalloc`, and `ipcget` with a new entry. -/
def dshmalloc (slot : NewSlot) (ent : Nat) : NewSlot where
  ipcdEnt := some ent
  ipcdirNactive := slot.ipcdirNactive + 1
  kdshmFlag := slot.kdshmFlag ||| dshmBusy
  kdshmp := { slot.kdshmp with ipcAlloc := true }

def dshmdealloc (slot : NewSlot) : NewSlot :=
  { slot with
    kdshmFlag := 0
    kdshmp := { slot.kdshmp with memory := none, ipcAlloc := false } }

/-- The entry is taken back, and the descriptor with it. -/
def errout (slot : NewSlot) : NewSlot :=
  { slot with ipcdEnt := none, ipcdirNactive := slot.ipcdirNactive - 1 }.dshmdealloc

/-- The segment is ready. -/
def ready (slot : NewSlot) (memory : Nat) : NewSlot :=
  { slot with
    kdshmFlag := slot.kdshmFlag &&& ~~~dshmBusy
    kdshmp := { slot.kdshmp with kdshmRefcnt := 1, memory := some memory, ipcAlloc := true } }

end NewSlot

/-- `dshmget` for a new segment: 0 or an error, and the slot. -/
def dshmgetNew (dshmmin : Nat) (outside : Outside) (uap : DshmGeta) (slot : NewSlot) :
    Option Errno × NewSlot :=
  if outside.pmDenied then (some EPERM, slot)
  else
    match outside.ipcget with
    | .error error => (some error, slot)
    | .ok ent =>
      let allocated := slot.dshmalloc ent
      let slot := { allocated with kdshmp := allocated.kdshmp.setParameters uap }
      if dshmgetAccepts dshmmin uap then
        match outside.segumapCreateObj with
        | .error error => (some error, slot.errout)
        | .ok memory => (none, slot.ready memory)
      else (some EINVAL, slot.errout)

/-- The parameters of a segment are as they should be. -/
structure ParametersWell (dshmmin : Nat) (uap : DshmGeta) : Prop where
  powerOfTwo : uap.bufferSize.toNat.isPowerOfTwo
  bufferSize : dshmMinbufsz ≤ uap.bufferSize
  size : dshmmin ≤ uap.bufferSize.toNat * uap.totalBufferCount.toNat
  some : 0 < uap.applBufferCount
  counts : uap.applBufferCount ≤ uap.totalBufferCount
  mapSize : uap.mapSize ≠ 0 ∧ dshmMinAlign.toNat ∣ uap.mapSize.toNat
  dshmaddr : uap.dshmaddr ≠ 0 ∧ dshmMinAlign.toNat ∣ uap.dshmaddr.toNat

/-- Whatever the other routines say, a segment is created with right parameters only, and a
rejection leaves the entry and the descriptor free. -/
def GetRight (dshmmin : Nat) (uap : DshmGeta) : Prop :=
  ∀ (outside : Outside) (slot : NewSlot), slot.Free →
    ((dshmgetNew dshmmin outside uap slot).1 = none → ParametersWell dshmmin uap) ∧
    ((dshmgetNew dshmmin outside uap slot).1 ≠ none → (dshmgetNew dshmmin outside uap slot).2.Free ∧
      (dshmgetNew dshmmin outside uap slot).2.ipcdirNactive = slot.ipcdirNactive)

/-- All that `dshmget` demands of the parameters, but for the power of two. -/
structure OtherTests (dshmmin : Nat) (uap : DshmGeta) : Prop where
  bufferSize : dshmMinbufsz ≤ uap.bufferSize
  size : dshmmin ≤ uap.bufferSize.toNat * uap.totalBufferCount.toNat
  some : 0 < uap.totalBufferCount
  counts : uap.applBufferCount ≤ uap.totalBufferCount
  mapSize : uap.mapSize ≠ 0 ∧ dshmMinAlign.toNat ∣ uap.mapSize.toNat
  dshmaddr : uap.dshmaddr ≠ 0 ∧ dshmMinAlign.toNat ∣ uap.dshmaddr.toNat

theorem aligned_iff (address : UInt32) :
    address % dshmMinAlign = 0 ↔ dshmMinAlign.toNat ∣ address.toNat := by
  rw [← UInt32.toNat_inj, UInt32.toNat_mod, Nat.dvd_iff_mod_eq_zero]
  rfl

theorem mask_eq_zero_iff (size : UInt32) :
    (size &&& if ~~~(size - 1) ≠ size then 1 else 0) = 0 ↔ size.toNat % 2 = 0 := by
  by_cases same : ~~~(size - 1) = size
  · rw [if_neg (not_not_intro same)]
    have doubled : size.toNat = 2 ^ 32 - 1 - (size - 1).toNat := by
      conv_lhs => rw [← same]
      rw [UInt32.toNat_not]
      rfl
    rw [UInt32.toNat_sub, UInt32.toNat_one] at doubled
    simp only [UInt32.and_zero, true_iff]
    omega
  · rw [if_pos same, ← UInt32.toNat_inj, UInt32.toNat_and, UInt32.toNat_one, Nat.and_one_is_mod]
    rfl

theorem dshmgetAccepts_iff (dshmmin : Nat) (uap : DshmGeta) : dshmgetAccepts dshmmin uap = true ↔
    OtherTests dshmmin uap ∧ uap.bufferSize.toNat % 2 = 0 := by
  simp only [dshmgetAccepts, decide_eq_true_eq, not_or, not_not, ne_eq, mask_eq_zero_iff,
    aligned_iff, UInt32.not_lt, UInt32.not_le, gt_iff_lt]
  constructor
  · rintro ⟨size, map, buffer, total, address⟩
    have isSome : (0 : UInt32) < uap.totalBufferCount := by
      have positive := UInt32.toNat_inj.not.2 total.1
      exact Nat.pos_of_ne_zero positive
    have mapSome : uap.mapSize ≠ 0 := by
      rintro isZero
      rw [isZero] at map
      exact absurd map.1 (by decide)
    exact ⟨⟨buffer.1, size, isSome, total.2, ⟨mapSome, map.2⟩, address⟩, buffer.2⟩
  · rintro ⟨tests, even⟩
    have notZero : uap.totalBufferCount ≠ 0 := by
      rintro isZero
      have some := tests.some
      rw [isZero] at some
      exact absurd some (by decide)
    have mapSome : (0 : UInt32) < uap.mapSize := by
      exact Nat.pos_of_ne_zero (UInt32.toNat_inj.not.2 tests.mapSize.1)
    exact ⟨tests.size, ⟨mapSome, tests.mapSize.2⟩, ⟨tests.bufferSize, even⟩,
      ⟨notZero, tests.counts⟩, tests.dshmaddr⟩

theorem NewSlot.errout_free (slot : NewSlot) (ent : Nat) (uap : DshmGeta) :
    let allocated := slot.dshmalloc ent
    let failed := { allocated with kdshmp := allocated.kdshmp.setParameters uap : NewSlot }.errout
    failed.Free ∧ failed.ipcdirNactive = slot.ipcdirNactive :=
  ⟨⟨rfl, rfl, show (0 : UInt8) &&& dshmBusy = 0 by decide⟩, Int.add_sub_cancel ..⟩

variable {dshmmin : Nat} {outside : Outside} {uap : DshmGeta} {slot : NewSlot}

theorem dshmgetNew_rejected (free : slot.Free)
    (rejected : (dshmgetNew dshmmin outside uap slot).1 ≠ none) :
    (dshmgetNew dshmmin outside uap slot).2.Free ∧
      (dshmgetNew dshmmin outside uap slot).2.ipcdirNactive = slot.ipcdirNactive := by
  revert rejected
  unfold dshmgetNew
  split
  · exact fun _ => ⟨free, rfl⟩
  split
  · exact fun _ => ⟨free, rfl⟩
  split
  · split
    · exact fun _ => slot.errout_free ..
    · exact fun rejected => absurd rfl rejected
  · exact fun _ => slot.errout_free ..

theorem dshmgetNew_created (created : (dshmgetNew dshmmin outside uap slot).1 = none) :
    dshmgetAccepts dshmmin uap = true := by
  unfold dshmgetNew at created
  split at created
  · cases created
  split at created
  · cases created
  split at created
  · assumption
  · cases created

def freeSlot : NewSlot := ⟨none, 0, 0, ⟨0, 0, 0, 0, 0, 0, false, none⟩⟩

/-- The routines that `dshmget` calls succeed. -/
def succeeding : Outside := ⟨false, .ok 0, .ok 0⟩

theorem created_of_accepts (accepts : dshmgetAccepts dshmmin uap = true) :
    (dshmgetNew dshmmin succeeding uap freeSlot).1 = none := by
  simp [dshmgetNew, succeeding, accepts]

/-- `dshmget` checks new segments as it should exactly when another test refuses the
arguments, or the buffer size is odd, or it is a power of two and there is an application
buffer. -/
theorem dshmget_right_iff (dshmmin : Nat) (uap : DshmGeta) :
    GetRight dshmmin uap ↔ (OtherTests dshmmin uap → uap.bufferSize.toNat % 2 = 1 ∨
      (uap.bufferSize.toNat.isPowerOfTwo ∧ uap.applBufferCount ≠ 0)) := by
  constructor
  · intro right tests
    by_cases odd : uap.bufferSize.toNat % 2 = 1
    · exact .inl odd
    have accepts := (dshmgetAccepts_iff dshmmin uap).2 ⟨tests, by omega⟩
    obtain well := (right succeeding freeSlot ⟨rfl, rfl, rfl⟩).1 (created_of_accepts accepts)
    refine .inr ⟨well.powerOfTwo, fun isZero => ?_⟩
    have some := well.some
    rw [isZero] at some
    exact absurd some (by decide)
  · intro sizes outside slot free
    refine ⟨fun created => ?_, fun rejected => dshmgetNew_rejected free rejected⟩
    obtain ⟨tests, even⟩ := (dshmgetAccepts_iff dshmmin uap).1 (dshmgetNew_created created)
    obtain odd | ⟨powerOfTwo, some⟩ := sizes tests
    · omega
    · have positive : (0 : UInt32) < uap.applBufferCount := by
        exact Nat.pos_of_ne_zero (UInt32.toNat_inj.not.2 some)
      exact ⟨powerOfTwo, tests.bufferSize, tests.size, positive, tests.counts, tests.mapSize,
        tests.dshmaddr⟩

/-- Buffers of 96 bytes are accepted. -/
theorem dshmget_buffers96 :
    (dshmgetNew 1 succeeding ⟨96, 8, 4, 0x800000, 0x400000⟩ freeSlot).1 = none ∧
      ¬ ParametersWell 1 ⟨96, 8, 4, 0x800000, 0x400000⟩ := by
  refine ⟨by decide, fun well => ?_⟩
  obtain ⟨power, isPower⟩ := well.powerOfTwo
  have is96 : 96 = 2 ^ power := isPower
  have small : power < 7 := (Nat.pow_lt_pow_iff_right (by decide : 1 < 2)).1 (by omega)
  interval_cases power <;> omega

end Uw7.Ipc
