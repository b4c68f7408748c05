import Uw7.Dosfs.Denode

namespace Uw7.Dosfs

/-!
# The table of entries

The entries of the first FAT as `fillinusemap` and `pcbmap` read them.  Setting
the entry of an addressable cluster, one whose offset `fatentry` does not
truncate, changes that entry of the table and no other one.
-/

open Lib Nat

variable {pvp : DosfsVfs} {cluster other value : Nat}

/-- No block has an error. -/
def noErrors : Nat → Option Errno := fun _ => none

/-- The word at the place of an entry in the first FAT. -/
def rawEntry (pvp : DosfsVfs) (cn : Nat) : Nat :=
  if fat12 pvp then
    Packed12.read pvp.device (fatBase pvp) cn
  else
    pvp.device.readLe (fatBase pvp + 2 * cn) 2

/-- The entry of a cluster in the first FAT. -/
def tableEntry (pvp : DosfsVfs) (cn : Nat) : Nat :=
  if fat12 pvp then widen (rawEntry pvp cn) else rawEntry pvp cn

/-- A cluster of the volume. -/
abbrev IsCluster (pvp : DosfsVfs) (cn : Nat) : Prop := clustFirst ≤ cn ∧ cn ≤ pvp.vfsMaxcluster

/-- The offset of the entry fits in the 16 bits that `fatentry` has for it. -/
def Addressable (pvp : DosfsVfs) (cn : Nat) : Prop := fat12 pvp = true ∨ cn < 2 ^ 15

/-- The bits of a value that an entry keeps. -/
def storedWord (pvp : DosfsVfs) (value : Nat) : Nat :=
  if fat12 pvp then value % 4096 else value % 2 ^ 16

theorem widen_eq_zero {word : Nat} : widen word = 0 ↔ word = 0 := by
  unfold widen
  split_ifs with reserved
  · constructor
    · intro isZero
      have := (or_eq_zero_iff.mp isZero).2
      omega
    · rintro rfl
      simp at reserved
  · exact Iff.rfl

theorem tableEntry_eq_free : tableEntry pvp cluster = clustFree ↔ rawEntry pvp cluster = 0 := by
  unfold tableEntry
  split_ifs
  · exact widen_eq_zero
  · exact Iff.rfl

theorem lookUp_place (byteoffset : Nat) :
    blockAddress ((byteoffset >>> vfsBnshift) + pvp.vfsFatblk) + (byteoffset &&& vfsBrbomask) =
      fatBase pvp + byteoffset := by
  have block : byteoffset >>> vfsBnshift = byteoffset / 512 := shiftRight_eq_div_pow _ 9
  have offset : byteoffset &&& vfsBrbomask = byteoffset % 512 := and_two_pow_sub_one_eq_mod _ 9
  rw [block, offset, fatBase, blockAddress, blockAddress, vfsBytesPerSec]
  omega

theorem lookUp_second (byteoffset : Nat) :
    (if (byteoffset &&& vfsBrbomask) == vfsBytesPerSec - 1 then
      blockAddress ((byteoffset >>> vfsBnshift) + pvp.vfsFatblk + 1)
      else
        fatBase pvp + byteoffset + 1) =
      fatBase pvp + byteoffset + 1 := by
  have offset : byteoffset &&& vfsBrbomask = byteoffset % 512 := and_two_pow_sub_one_eq_mod _ 9
  have place := @lookUp_place pvp byteoffset
  split_ifs with straddles
  · rw [beq_iff_eq, offset] at straddles
    simp only [blockAddress, vfsBytesPerSec] at straddles place ⊢
    omega
  · rfl

theorem lookUpEntry_eq : lookUpEntry noErrors pvp cluster = .ok (rawEntry pvp cluster) := by
  unfold lookUpEntry rawEntry
  cases twelve : fat12 pvp with
  | false =>
    have place := @lookUp_place pvp (cluster <<< 1)
    have double : cluster <<< 1 = 2 * cluster := by omega
    simp only [readErrors, noErrors, Bool.false_eq_true, if_false,
      Bool.false_and, Option.or_none, place]
    rw [double, ByteMemory.readLe, ByteMemory.readLe, ByteMemory.readLe, mul_zero, add_zero]
  | true =>
    have place := @lookUp_place pvp (cluster + cluster >>> 1)
    have second := @lookUp_second pvp (cluster + cluster >>> 1)
    have half : cluster + cluster >>> 1 = Packed12.slot cluster := by
      rw [Packed12.slot, shiftRight_eq_div_pow]
    have parity : (cluster &&& 1 ≠ 0) ↔ Packed12.isOdd cluster = true := by
      rw [Packed12.isOdd, and_one_is_mod, beq_iff_eq]
      omega
    simp only [readErrors, noErrors, if_true, Bool.true_and, ite_self,
      Option.or_none, place, second]
    simp only [half, parity, Packed12.read, Packed12.decode, and_fat12_mask]
    congr 1
    split_ifs <;> omega

theorem nextCluster_eq : nextCluster noErrors pvp cluster = .ok (tableEntry pvp cluster) := by
  rw [nextCluster, lookUpEntry_eq]
  rfl

theorem entry_eq_tableEntry (addressable : Addressable pvp cluster) :
    entry pvp cluster = tableEntry pvp cluster := by
  unfold entry tableEntry rawEntry
  split_ifs with twelve
  · rfl
  · rcases addressable with isTwelve | small
    · exact absurd isTwelve twelve
    · have whole : whichbyte pvp cluster = 2 * cluster := by
        rw [whichbyte, if_neg twelve]
        omega
      rw [whole]

theorem rawEntry_congr {device : ByteMemory} (same :
    ByteMemory.AgreeOn (fatBase pvp + entryOffset pvp cluster) 2 device pvp.device) :
    rawEntry { pvp with device } cluster = rawEntry pvp cluster := by
  unfold rawEntry
  change (if fat12 pvp then _ else _) = _
  split_ifs with twelve
  · simp only [entryOffset, twelve, if_true] at same
    simp only [Packed12.read, fatBase] at same ⊢
    rw [same _ le_rfl (by omega), same _ (by omega) (by omega)]
  · simp only [entryOffset, twelve, Bool.false_eq_true, if_false] at same
    exact ByteMemory.readLe_congr same

theorem rawEntry_of_agree {device : ByteMemory} (room : FatRoom pvp)
    (inRange : cluster ≤ pvp.vfsMaxcluster)
    (same : ByteMemory.AgreeOn (fatBase pvp) (fatBytes pvp) device pvp.device) :
    rawEntry { pvp with device } cluster = rawEntry pvp cluster := by
  have inCopy := room.entryOffset_le inRange
  exact rawEntry_congr (same.part (by omega) (by omega))

theorem rawEntry_setEntry (room : FatRoom pvp) (inRange : other ≤ pvp.vfsMaxcluster) :
    rawEntry (setEntry pvp cluster value) other =
      rawEntry { pvp with device := firstFat pvp cluster value } other := by
  refine @rawEntry_of_agree { pvp with device := firstFat pvp cluster value }
    other (setEntry pvp cluster value).device room inRange fun target from_ below => ?_
  change fatBase pvp ≤ target at from_
  change target < fatBase pvp + fatBytes pvp at below
  obtain ⟨offset, rfl⟩ := Nat.exists_eq_add_of_le from_
  exact setEntry_first (by omega)

theorem rawEntry_setEntry_same (room : FatRoom pvp) (inRange : cluster ≤ pvp.vfsMaxcluster)
    (addressable : Addressable pvp cluster) :
    rawEntry (setEntry pvp cluster value) cluster = storedWord pvp value := by
  rw [rawEntry_setEntry room inRange]
  unfold rawEntry storedWord
  change (if fat12 pvp then _ else _) = _
  split_ifs with twelve
  · simp only [firstFat, twelve, if_true]
    exact Packed12.read_write_same
  · rcases addressable with isTwelve | small
    · exact absurd isTwelve twelve
    · have whole : whichbyte pvp cluster = 2 * cluster := by
        rw [whichbyte, if_neg twelve]
        omega
      simp only [firstFat, twelve, Bool.false_eq_true, if_false, whole]
      exact ByteMemory.readLe_writeLe _ _ _

theorem rawEntry_setEntry_other (room : FatRoom pvp) (inRange : other ≤ pvp.vfsMaxcluster)
    (addressable : Addressable pvp cluster) (different : other ≠ cluster) :
    rawEntry (setEntry pvp cluster value) other = rawEntry pvp other := by
  rw [rawEntry_setEntry room inRange]
  cases twelve : fat12 pvp with
  | true =>
    unfold rawEntry
    change (if fat12 pvp then _ else _) = _
    simp only [firstFat, twelve, if_true]
    exact Packed12.read_write_other different
  | false =>
    have small : cluster < 2 ^ 15 := by
      rcases addressable with isTwelve | small
      · simp [twelve] at isTwelve
      · exact small
    refine rawEntry_congr fun target from_ below => firstFat_outside ?_
    simp only [entryOffset, whichbyte, twelve, Bool.false_eq_true, if_false] at from_ below ⊢
    omega

end Uw7.Dosfs
