import Mathlib.Data.Int.ModEq

namespace Uw7.Ipc

/-!
# The directory of shared memory segments

Identifiers and directory entries from `proc/ipc/dshm.c` and `proc/ipc/shm.c`.  An
identifier packs the sequence number of a directory entry with its slot; the
modulus is the number of entries, which is tunable.
-/

open Int

def intMax : Int := 2 ^ 31 - 1

def int16Max : Int := 2 ^ 15 - 1

def toInt (value : Int) : Int := value.bmod (2 ^ 32)

/--
The increment of `ipcd_seq`.  `proc/ipc/ipc.h` declares the field; it is an integer
type that holds 0 to `INT_MAX`, whatever happens to it behind `INT_MAX`.
-/
structure SeqField where
  next : Int → Int
  next_eq : ∀ value, 0 ≤ value → value < intMax → next value = value + 1
  next_max : next intMax < 0 ∨ intMax < next intMax

def intField : SeqField where
  next := fun value => toInt (value + 1)
  next_eq := by
    intro value nonneg small
    simp only [intMax] at small
    rw [toInt, bmod_eq_of_le] <;> omega
  next_max := by
    refine .inl ?_
    decide

/-- `ipcdirent_t`; descriptors are addressed by their index. -/
structure Ipcdirent where
  ipcdEnt : Option Nat
  ipcdSeq : Int

/-- The directory entries by their slot. -/
abbrev IpcdirEntries := Nat → Ipcdirent

def dshmseqmax : Int := intMax

/-- `shmseqmax`, as `shminit` sets it. -/
def shmseqmax (shmmni : Nat) : Int := (int16Max - (shmmni - 1)) / shmmni

/-- The identifier that `dshmget` and `shmget` return for an entry. -/
def ipcId (mni : Nat) (direntp : Ipcdirent) (slot : Nat) : Int :=
  toInt (direntp.ipcdSeq * mni + slot)

/-- The tests of `dshmconv` and `shmconv` that depend on the directory only. -/
def ipcConv (mni : Nat) (entries : IpcdirEntries) (id : Int) : Option (Nat × Nat) :=
  if id < 0 then
    none
  else
    let slot := (id % mni).toNat
    match (entries slot).ipcdEnt with
    | none => none
    | some ent =>
      if id / mni ≠ (entries slot).ipcdSeq then none
      else some (slot, ent)

def ipcRemoveId (field : SeqField) (seqmax : Int) (mni : Nat) (entries : IpcdirEntries) (id : Int) :
    IpcdirEntries :=
  let slot := (id % mni).toNat
  let seq := field.next (entries slot).ipcdSeq
  Function.update entries slot
    { ipcdEnt := none
      ipcdSeq := if seq > seqmax then 0 else seq }

section Codes

variable {mni slot : Nat} {seq id : Int}

theorem toInt_eq (nonneg : 0 ≤ id) (fits : id ≤ intMax) : toInt id = id := by
  simp only [intMax] at fits
  rw [toInt, bmod_eq_of_le] <;> omega

theorem decode_slot (inside : slot < mni) : (seq * mni + slot) % (mni : Int) = slot := by
  rw [Int.add_comm, add_mul_emod_self_right, emod_eq_of_lt (by omega) (by omega)]

theorem decode_seq (inside : slot < mni) : (seq * mni + slot) / (mni : Int) = seq := by
  rw [Int.add_comm, add_mul_ediv_right _ _ (by omega),
    ediv_eq_zero_of_lt (by omega) (by omega), Int.zero_add]

theorem ipcConv_encoded {entries : IpcdirEntries} (inside : slot < mni) (nonneg : 0 ≤ seq) :
    ipcConv mni entries (seq * mni + slot) =
      match (entries slot).ipcdEnt with
      | none => none
      | some ent => if seq ≠ (entries slot).ipcdSeq then none else some (slot, ent) := by
  have notNegative : ¬ seq * (mni : Int) + slot < 0 := by
    have product : 0 ≤ seq * (mni : Int) := Int.mul_nonneg nonneg (by omega)
    omega
  simp only [ipcConv, if_neg notNegative, decode_slot inside, decode_seq inside, toNat_natCast]

end Codes

end Uw7.Ipc
