import Uw7.Dosfs.Fat
import Uw7.Lib.Packed12

namespace Uw7.Dosfs

/-!
# Images of a FAT and the effect of `fatentry` on them

An image has room for an entry of every cluster and holds the same bytes in all
its copies.  `fatentry` reads and writes one entry of the packed array, or of
the array of 16-bit words, and rewrites the blocks of the entry in every copy.
-/

open Lib Nat

/-- The device address of the first copy. -/
def fatBase (pvp : DosfsVfs) : Nat := blockAddress pvp.vfsFatblk

/-- The bytes of one copy. -/
def fatBytes (pvp : DosfsVfs) : Nat := blockAddress pvp.vfsFatsecs

/-- Where the entry of a cluster belongs in a copy. -/
def entryOffset (pvp : DosfsVfs) (cluster : Nat) : Nat :=
  if fat12 pvp then Packed12.slot cluster else 2 * cluster

/-- Where `fatentry` looks for the entry of a cluster in a copy. -/
def whichbyte (pvp : DosfsVfs) (cluster : Nat) : Nat :=
  if fat12 pvp then Packed12.slot cluster else 2 * cluster % 2 ^ 16

/-- A copy has room for an entry of every cluster. -/
def FatRoom (pvp : DosfsVfs) : Prop := entryOffset pvp pvp.vfsMaxcluster + 2 ≤ fatBytes pvp

instance decidableFatRoom (pvp : DosfsVfs) : Decidable (FatRoom pvp) :=
  inferInstanceAs (Decidable (_ ≤ _))

/-- A file allocation table as it is found on a volume. -/
structure FatImage (pvp : DosfsVfs) : Prop where
  copies : 1 ≤ pvp.vfsFats
  room : FatRoom pvp
  mirrored : ∀ copy offset, copy < pvp.vfsFats → offset < fatBytes pvp →
      pvp.device (fatBase pvp + copy * fatBytes pvp + offset) = pvp.device (fatBase pvp + offset)

/-- The 16-bit form of a 12-bit entry. -/
def widen (word : Nat) : Nat :=
  if word &&& 0x0ff0 = 0x0ff0 then word ||| 0xf000 else word

/-- The value of the entry that `fatentry` gets for a cluster. -/
def entry (pvp : DosfsVfs) (cluster : Nat) : Nat :=
  if fat12 pvp then
    widen (Packed12.read pvp.device (fatBase pvp) cluster)
  else
    pvp.device.readLe (fatBase pvp + whichbyte pvp cluster) 2

/-- The device once the entry of a cluster is stored in the first copy. -/
def firstFat (pvp : DosfsVfs) (cluster value : Nat) :
    ByteMemory :=
  if fat12 pvp then
    Packed12.write pvp.device (fatBase pvp) cluster value
  else
    pvp.device.writeLe (fatBase pvp + whichbyte pvp cluster) value 2

/-- The block of an entry, counted from the start of its copy. -/
def entryBlock (pvp : DosfsVfs) (cluster : Nat) : Nat := whichbyte pvp cluster / 512

/-- The bytes that are copied for an entry: its block, or its two blocks. -/
def entrySpan (pvp : DosfsVfs) (cluster : Nat) : Nat :=
  if fat12 pvp ∧ whichbyte pvp cluster % 512 = 511 then 1024 else 512

/-- The volume once the entry of a cluster is set. -/
def setEntry (pvp : DosfsVfs) (cluster value : Nat) : DosfsVfs :=
  { pvp with
    device := ByteMemory.storeCopies (entrySpan pvp cluster) (fatBytes pvp)
        ((firstFat pvp cluster value).view (fatBase pvp + entryBlock pvp cluster * 512))
        (pvp.vfsFats - 1) (fatBase pvp + entryBlock pvp cluster * 512)
        (firstFat pvp cluster value) }

theorem and_low_nibble (byte : Nat) : byte &&& 0x0f = byte % 16 := and_two_pow_sub_one_eq_mod byte 4

theorem and_fat12_mask (word : Nat) : word &&& 0x0fff = word % 4096 :=
  and_two_pow_sub_one_eq_mod word 12

theorem and_high_nibble (byte : Byte) : byte.val &&& 0xf0 = byte.val / 16 * 16 := by
  revert byte
  decide +kernel

theorem or_nibbles {high low : Nat} (lowBound : low < 16) :
    high * 16 ||| low = high * 16 + low := by
  have bound : low < 2 ^ 4 := lowBound
  rw [Nat.mul_comm high 16]
  exact (two_pow_add_eq_or_of_lt bound high).symm

theorem setfat12slot_eq (device : ByteMemory) (address index value : Nat) :
    setfat12slot device (address + Packed12.slot index)
      (address + Packed12.slot index + 1) (Packed12.isOdd index) value =
      Packed12.write device address index value := by
  unfold setfat12slot Packed12.write Packed12.encodeFirst Packed12.encodeSecond
  cases Packed12.isOdd index
  · have second : ((device (address + Packed12.slot index + 1)).val &&& 0xf0 |||
        value % 4096 / 256) =
        (device (address + Packed12.slot index + 1)).val / 16 * 16 + value / 256 % 16 := by
      rw [and_high_nibble, or_nibbles (by omega)]
      omega
    simp only [Bool.false_eq_true, if_false, and_fat12_mask, second]
    congr 2
    apply Fin.ext
    simp only [Fin.ofNat_eq_cast, Fin.val_natCast]
    omega
  · have first : ((device (address + Packed12.slot index)).val &&& 0x0f |||
        value <<< 4 % 2 ^ 16 % 256) =
        (device (address + Packed12.slot index)).val % 16 + value % 16 * 16 := by
      have shifted : value <<< 4 % 2 ^ 16 % 256 = value % 16 * 16 := by omega
      rw [and_low_nibble, shifted, Nat.or_comm, or_nibbles (by omega)]
      omega
    simp only [if_true, first]
    congr 1
    apply Fin.ext
    simp only [Fin.ofNat_eq_cast, Fin.val_natCast, shiftLeft_eq]
    omega

theorem getfat12slot_eq (odd : Bool) (first second : Byte) : getfat12slot first second odd =
    widen (Packed12.decode odd first second) := by
  have word : ((if odd then (first.val + 256 * second.val) >>> 4
          else first.val + 256 * second.val) &&& 0x0fff) =
        Packed12.decode odd first second := by
    rw [and_fat12_mask]
    cases odd <;> simp only [Packed12.decode, Bool.false_eq_true, if_false, if_true,
      shiftRight_eq_div_pow]
    omega
  simp only [getfat12slot, widen, word]

theorem widen_mod {value : Nat} (storable : value < 0xff0 ∨ 0xfff0 ≤ value ∧ value ≤ 0xffff) :
    widen (value % 4096) = value := by
  have table : ∀ low < 16, widen (0xff0 + low) = 0xfff0 + low := by decide
  rcases storable with small | ⟨lower, upper⟩
  · have notReserved : ¬ value &&& 0x0ff0 = 0x0ff0 := by
      intro reserved
      have := and_le_left (n := value) (m := 0x0ff0)
      omega
    rw [mod_eq_of_lt (by omega), widen, if_neg notReserved]
  · have wide := table (value - 0xfff0) (by omega)
    rw [show value % 4096 = 0xff0 + (value - 0xfff0) by omega, wide]
    omega

section Effect

variable {pvp : DosfsVfs} {cluster value : Nat}

theorem whichbyte_le_entryOffset : whichbyte pvp cluster ≤ entryOffset pvp cluster := by
  unfold whichbyte entryOffset
  split_ifs
  · exact le_rfl
  · exact mod_le _ _

theorem FatRoom.entryOffset_le (room : FatRoom pvp) (inRange : cluster ≤ pvp.vfsMaxcluster) :
    entryOffset pvp cluster + 2 ≤ fatBytes pvp := by
  have below : entryOffset pvp cluster ≤ entryOffset pvp pvp.vfsMaxcluster := by
    unfold entryOffset Packed12.slot
    split_ifs <;> omega
  rw [FatRoom] at room
  omega

theorem FatRoom.whichbyte_room (room : FatRoom pvp) (inRange : cluster ≤ pvp.vfsMaxcluster) :
    whichbyte pvp cluster + 2 ≤ fatBytes pvp := by
  have inCopy := room.entryOffset_le inRange
  have looked := @whichbyte_le_entryOffset pvp cluster
  omega

theorem entrySpan_bounds : entryBlock pvp cluster * 512 ≤ whichbyte pvp cluster ∧
    whichbyte pvp cluster + 2 ≤ entryBlock pvp cluster * 512 + entrySpan pvp cluster := by
  unfold entryBlock entrySpan
  split_ifs with straddles
  · omega
  · refine ⟨by omega, ?_⟩
    by_cases twelve : fat12 pvp
    · simp only [twelve, true_and] at straddles
      omega
    · have even : whichbyte pvp cluster % 2 = 0 := by
        simp only [whichbyte, twelve, Bool.false_eq_true, if_false]
        omega
      omega

theorem FatImage.entrySpan_room (image : FatImage pvp) (inRange : cluster ≤ pvp.vfsMaxcluster) :
    entryBlock pvp cluster * 512 + entrySpan pvp cluster ≤ fatBytes pvp := by
  have inCopy := image.room.whichbyte_room inRange
  simp only [fatBytes, blockAddress, vfsBytesPerSec] at *
  unfold entryBlock entrySpan
  split_ifs <;> omega

theorem firstFat_outside {target : Nat} (outside : target < fatBase pvp + whichbyte pvp cluster ∨
    fatBase pvp + whichbyte pvp cluster + 2 ≤ target) :
    firstFat pvp cluster value target = pvp.device target := by
  unfold firstFat
  split_ifs with twelve
  · simp only [whichbyte, twelve, if_true] at outside
    exact Packed12.write_outside (by omega) (by omega)
  · exact ByteMemory.writeLe_outside (by omega)

theorem setEntry_first {offset : Nat} (inside : offset < fatBytes pvp) :
    (setEntry pvp cluster value).device (fatBase pvp + offset) =
      firstFat pvp cluster value (fatBase pvp + offset) := by
  refine ByteMemory.storeCopies_outside fun copy positive _ => ?_
  have farther : fatBytes pvp ≤ copy * fatBytes pvp := Nat.le_mul_of_pos_left _ positive
  omega

theorem FatImage.setEntry (image : FatImage pvp) (inRange : cluster ≤ pvp.vfsMaxcluster)
    (value : Nat) : FatImage (setEntry pvp cluster value) where
  __ := image
  mirrored := by
    intro copy offset isCopy inside
    change (Dosfs.setEntry pvp cluster value).device (fatBase pvp + copy * fatBytes pvp + offset) =
      (Dosfs.setEntry pvp cluster value).device (fatBase pvp + offset)
    have spanRoom := image.entrySpan_room inRange
    have spanBounds := @entrySpan_bounds pvp cluster
    change offset < fatBytes pvp at inside
    rw [setEntry_first inside]
    rcases Nat.eq_zero_or_pos copy with isFirst | positive
    · rw [isFirst, zero_mul, add_zero, setEntry_first inside]
    have farther : fatBytes pvp ≤ copy * fatBytes pvp := Nat.le_mul_of_pos_left _ positive
    by_cases copied : entryBlock pvp cluster * 512 ≤ offset ∧ offset <
      entryBlock pvp cluster * 512 + entrySpan pvp cluster
    · -- The offset lies in the blocks that were copied.
      have found := @ByteMemory.storeCopies_copy (firstFat pvp cluster value)
          (entrySpan pvp cluster) (fatBytes pvp) (pvp.vfsFats - 1) copy
          (fatBase pvp + entryBlock pvp cluster * 512) (offset - entryBlock pvp cluster * 512)
          ((firstFat pvp cluster value).view (fatBase pvp + entryBlock pvp cluster * 512))
          (by omega) positive (by
            have : copy < pvp.vfsFats := isCopy
            omega) (by omega)
      have sameTarget : fatBase pvp + copy * fatBytes pvp + offset =
          fatBase pvp + entryBlock pvp cluster * 512 + copy * fatBytes pvp +
            (offset - entryBlock pvp cluster * 512) := by
        omega
      have sameSource : fatBase pvp + entryBlock pvp cluster * 512 +
          (offset - entryBlock pvp cluster * 512) = fatBase pvp + offset := by
        omega
      rw [ByteMemory.view, sameSource] at found
      rw [sameTarget]
      exact found
    · have kept : (Dosfs.setEntry pvp cluster value).device
          (fatBase pvp + copy * fatBytes pvp + offset) =
          firstFat pvp cluster value (fatBase pvp + copy * fatBytes pvp + offset) := by
        refine ByteMemory.storeCopies_outside fun other _ _ => ?_
        rcases lt_trichotomy other copy with earlier | same | later
        · have apart : (other + 1) * fatBytes pvp ≤ copy * fatBytes pvp :=
            Nat.mul_le_mul_right _ earlier
          rw [succ_mul] at apart
          omega
        · subst other
          omega
        · have apart : (copy + 1) * fatBytes pvp ≤ other * fatBytes pvp :=
            Nat.mul_le_mul_right _ later
          rw [succ_mul] at apart
          omega
      rw [kept, firstFat_outside (by omega), firstFat_outside (by omega)]
      exact image.mirrored copy offset isCopy inside

theorem copyFats_eq (device source : ByteMemory) (fatsecs which count fatbn : Nat)
    (straddles : Bool) : copyFats fatsecs (blockBuffer source which)
      (if straddles then some (blockBuffer source (which + 1)) else none) count fatbn device =
      ByteMemory.storeCopies (if straddles then 1024 else 512)
        (blockAddress fatsecs) (source.view (blockAddress which)) count
        (blockAddress fatbn) device := by
  induction count generalizing fatbn device with
  | zero => rfl
  | succ count ih =>
    have next : blockAddress (fatbn + fatsecs) = blockAddress fatbn + blockAddress fatsecs :=
      Nat.add_mul _ _ _
    have following : ∀ blk, blockAddress (blk + 1) = blockAddress blk + 512 :=
      fun blk => Nat.add_mul blk 1 512
    rw [ByteMemory.storeCopies, ← next, ← ih]
    cases straddles with
    | false => rfl
    | true =>
      have joined : copyToBlock (copyToBlock device (fatbn + fatsecs) (blockBuffer source which))
          (fatbn + fatsecs + 1) (blockBuffer source (which + 1)) =
          device.store (blockAddress (fatbn + fatsecs)) 1024
            (source.view (blockAddress which)) := by
        simp only [copyToBlock, blockBuffer, following, vfsBytesPerSec]
        rw [ByteMemory.store_store_view]
      simp only [copyFats, if_true, joined]

/-- What a successful call returns, and the volume that it leaves. -/
def fatentryResult (pvp : DosfsVfs) (function cluster newcontents : Nat) : Option Nat × DosfsVfs :=
  (if function &&& fatGet ≠ 0 then some (entry pvp cluster) else none,
    if function &&& fatSet ≠ 0 then
      setEntry pvp cluster newcontents
    else
      pvp)

variable {lgeterror : Nat → Option Errno} {function newcontents : Nat}

theorem fatentry12_eq (twelve : fat12 pvp = true) (inRange : cluster ≤ pvp.vfsMaxcluster) :
    fatentry12 lgeterror pvp function cluster newcontents =
      match readErrors lgeterror (whichbyte pvp cluster / 512 + pvp.vfsFatblk)
        (whichbyte pvp cluster % 512 == 511) with
      | some error => .error error
      | none => .ok (fatentryResult pvp function cluster newcontents) := by
  have small : cluster ≤ 4086 := by
    have := of_decide_eq_true twelve
    omega
  have byte : (cluster + cluster >>> 1) % 2 ^ 16 = Packed12.slot cluster := by
    simp only [Packed12.slot, shiftRight_eq_div_pow]
    omega
  have block : Packed12.slot cluster >>> vfsBnshift = Packed12.slot cluster / 512 :=
    shiftRight_eq_div_pow _ 9
  have byteoffset : Packed12.slot cluster &&& vfsBrbomask = Packed12.slot cluster % 512 :=
    and_two_pow_sub_one_eq_mod _ 9
  have first : blockAddress (Packed12.slot cluster / 512 + pvp.vfsFatblk) +
      Packed12.slot cluster % 512 = fatBase pvp + Packed12.slot cluster := by
    simp only [blockAddress, fatBase, vfsBytesPerSec]
    omega
  have second : (if Packed12.slot cluster % 512 == 511 then
      blockAddress (Packed12.slot cluster / 512 + pvp.vfsFatblk + 1)
      else
        fatBase pvp + Packed12.slot cluster + 1) =
      fatBase pvp + Packed12.slot cluster + 1 := by
    split_ifs with straddles
    · simp only [beq_iff_eq] at straddles
      simp only [blockAddress, fatBase, vfsBytesPerSec]
      omega
    · rfl
  have parity : (cluster &&& 1 != 0) = Packed12.isOdd cluster := by
    rw [Packed12.isOdd, and_one_is_mod]
    rcases mod_two_eq_zero_or_one cluster with even | odd
    · simp [even]
    · simp [odd]
  have address : blockAddress (Packed12.slot cluster / 512 + pvp.vfsFatblk) =
      fatBase pvp + Packed12.slot cluster / 512 * 512 := by
    omega
  have lastByte : vfsBytesPerSec - 1 = 511 := rfl
  simp only [fatentry12, byte, block, byteoffset, lastByte, first,
    second, parity, setfat12slot_eq, getfat12slot_eq, updateotherfats,
    copyFats_eq, whichbyte, twelve, if_true]
  simp only [address]
  cases readErrors lgeterror (Packed12.slot cluster / 512 + pvp.vfsFatblk)
    (Packed12.slot cluster % 512 == 511) with
  | some error => rfl
  | none =>
    have span : entrySpan pvp cluster =
        if Packed12.slot cluster % 512 == 511 then 1024 else 512 := by
      simp [entrySpan, whichbyte, twelve]
    simp only [fatentryResult, entry, setEntry, firstFat, twelve,
      if_true, span, entryBlock, whichbyte, Packed12.read, fatBytes]
    split_ifs <;> rfl

theorem fatentry16_eq (sixteen : fat12 pvp = false) :
    fatentry16 lgeterror pvp function cluster newcontents =
      match lgeterror (whichbyte pvp cluster / 512 + pvp.vfsFatblk) with
      | some error => .error error
      | none => .ok (fatentryResult pvp function cluster newcontents) := by
  have byte : (cluster <<< 1) % 2 ^ 16 = whichbyte pvp cluster := by
    simp only [whichbyte, sixteen, Bool.false_eq_true, if_false, shiftLeft_eq]
    omega
  have block : whichbyte pvp cluster >>> vfsBnshift = whichbyte pvp cluster / 512 :=
    shiftRight_eq_div_pow _ 9
  have byteoffset : whichbyte pvp cluster &&& vfsBrbomask = whichbyte pvp cluster % 512 :=
    and_two_pow_sub_one_eq_mod _ 9
  have first : blockAddress (whichbyte pvp cluster / 512 + pvp.vfsFatblk) +
      whichbyte pvp cluster % 512 = fatBase pvp + whichbyte pvp cluster := by
    simp only [blockAddress, fatBase, vfsBytesPerSec]
    omega
  have address : blockAddress (whichbyte pvp cluster / 512 + pvp.vfsFatblk) =
      fatBase pvp + whichbyte pvp cluster / 512 * 512 := by
    omega
  have copies := copyFats_eq (pvp.device.writeLe (fatBase pvp + whichbyte pvp cluster)
      newcontents 2) (pvp.device.writeLe (fatBase pvp + whichbyte pvp cluster) newcontents 2)
      pvp.vfsFatsecs (whichbyte pvp cluster / 512 + pvp.vfsFatblk)
      (pvp.vfsFats - 1) (whichbyte pvp cluster / 512 + pvp.vfsFatblk) false
  simp only [Bool.false_eq_true, if_false, address] at copies
  simp only [fatentry16, byte, block, byteoffset, first, updateotherfats, copies]
  cases lgeterror (whichbyte pvp cluster / 512 + pvp.vfsFatblk) with
  | some error => rfl
  | none =>
    simp only [fatentryResult, entry, setEntry, firstFat, sixteen,
      Bool.false_eq_true, if_false, entrySpan, false_and, entryBlock, fatBytes]
    split_ifs <;> rfl

theorem fatentry_ok {oldcontents : Bool} {result : Option Nat × DosfsVfs}
    (succeeded : fatentry lgeterror pvp function cluster oldcontents newcontents = .ok result) :
    clustFirst ≤ cluster ∧ cluster ≤ pvp.vfsMaxcluster ∧
      result = fatentryResult pvp function cluster newcontents := by
  unfold fatentry at succeeded
  split_ifs at succeeded with _ _ outside twelve
  · have inRange : cluster ≤ pvp.vfsMaxcluster := by omega
    rw [fatentry12_eq twelve inRange] at succeeded
    cases errors : readErrors lgeterror (whichbyte pvp cluster / 512 + pvp.vfsFatblk)
      (whichbyte pvp cluster % 512 == 511) with
    | some error => simp [errors] at succeeded
    | none =>
      simp only [errors, Except.ok.injEq] at succeeded
      exact ⟨by omega, inRange, succeeded.symm⟩
  · rw [fatentry16_eq (by simpa using twelve)] at succeeded
    cases errors : lgeterror (whichbyte pvp cluster / 512 + pvp.vfsFatblk) with
    | some error => simp [errors] at succeeded
    | none =>
      simp only [errors, Except.ok.injEq] at succeeded
      exact ⟨by omega, by omega, succeeded.symm⟩

theorem fatentry_of_readable {lgeterror : Nat → Option Errno} {function newcontents : Nat}
    {oldcontents : Bool} (readable : ∀ blk, lgeterror blk = none)
    (asked : function &&& (fatSet ||| fatGet) ≠ 0)
    (wanted : function &&& fatGet ≠ 0 → oldcontents = true) (lower : clustFirst ≤ cluster)
    (upper : cluster ≤ pvp.vfsMaxcluster) :
    fatentry lgeterror pvp function cluster oldcontents newcontents =
      .ok (fatentryResult pvp function cluster newcontents) := by
  have given : ¬ (function &&& fatGet ≠ 0 ∧ oldcontents = false) := by
    rintro ⟨gets, missing⟩
    simp [wanted gets] at missing
  unfold fatentry
  rw [if_neg asked, if_neg given, if_neg (by omega)]
  split_ifs with twelve
  · rw [fatentry12_eq twelve upper]
    simp [readErrors, readable]
  · rw [fatentry16_eq (by simpa using twelve)]
    simp [readable]

end Effect

end Uw7.Dosfs

namespace Uw7.Dosfs

/-!
# Getting entries after setting one

With 12-bit entries a set is seen by gets of its own cluster only.  With 16-bit
entries `fatentry` keeps the byte offset in sixteen bits, so that clusters whose
numbers differ by a multiple of 2 ^ 15 share an entry.
-/

open Lib

variable {pvp : DosfsVfs} {cluster other value : Nat}

/-- A value that a FAT entry of the volume can hold. -/
def Storable (pvp : DosfsVfs) (value : Nat) : Prop :=
  if fat12 pvp then
    value < 0xff0 ∨ 0xfff0 ≤ value ∧ value ≤ 0xffff
  else
    value ≤ 0xffff

/-- A get of a cluster, if it succeeds, returns this value. -/
def Gets (pvp : DosfsVfs) (cluster value : Nat) : Prop := ∀ lgeterror result,
    fatentry lgeterror pvp fatGet cluster true 0 = .ok result → result.1 = some value

/-- What gets return after a successful set, and what the set leaves. -/
structure SetBehaves (pvp : DosfsVfs) (cluster value : Nat) : Prop where
  stored : ∀ lgeterror old after, fatentry lgeterror pvp fatSet cluster false value =
      .ok (old, after) → Gets after cluster value
  others : ∀ lgeterror old after, fatentry lgeterror pvp fatSet cluster false value =
      .ok (old, after) →
      ∀ other, other ≠ cluster → ∀ previous, Gets pvp other previous → Gets after other previous
  previous : ∀ lgeterror old after, fatentry lgeterror pvp fatGetAndSet cluster true value =
      .ok (old, after) → ∀ previous, Gets pvp cluster previous → old = some previous
  copies : ∀ lgeterror old after, fatentry lgeterror pvp fatSet cluster false value =
      .ok (old, after) → FatImage after

/-- No other cluster of the volume shares the entry of this one. -/
def Unshared (pvp : DosfsVfs) (cluster : Nat) : Prop := ∀ other,
    clustFirst ≤ other → other ≤ pvp.vfsMaxcluster → other ≠ cluster →
    other % 2 ^ 15 ≠ cluster % 2 ^ 15

theorem gets_iff (lower : clustFirst ≤ cluster) (upper : cluster ≤ pvp.vfsMaxcluster) :
    Gets pvp cluster value ↔ entry pvp cluster = value := by
  constructor
  · intro gets
    have succeeded := @fatentry_of_readable pvp cluster (fun _ => none) fatGet 0 true
        (fun _ => rfl) (by decide) (fun _ => rfl) lower upper
    simpa [fatentryResult, fatGet] using gets _ _ succeeded
  · rintro holds lgeterror result succeeded
    obtain ⟨-, -, rfl⟩ := fatentry_ok succeeded
    simp [fatentryResult, fatGet, holds]

theorem gets_setEntry_iff {read : Nat} (lower : clustFirst ≤ other)
    (upper : other ≤ pvp.vfsMaxcluster) : Gets (setEntry pvp cluster value) other read ↔
      entry (setEntry pvp cluster value) other = read :=
  @gets_iff (setEntry pvp cluster value) other read lower upper

theorem gets_of_outside (outside : cluster < clustFirst ∨ pvp.vfsMaxcluster < cluster) :
    Gets pvp cluster value := by
  intro lgeterror result succeeded
  obtain ⟨lower, upper, -⟩ := fatentry_ok succeeded
  omega

theorem entry_congr {device : ByteMemory} (same : ∀ byte, byte < 2 →
    device (fatBase pvp + whichbyte pvp cluster + byte) =
      pvp.device (fatBase pvp + whichbyte pvp cluster + byte)) :
    entry { pvp with device } cluster = entry pvp cluster := by
  have first := same 0 (by omega)
  have second := same 1 (by omega)
  rw [add_zero] at first
  unfold entry
  change (if fat12 pvp then _ else _) = _
  split_ifs with twelve
  · simp only [whichbyte, twelve, if_true] at first second
    simp only [Packed12.read, fatBase] at first second ⊢
    rw [first, second]
  · refine ByteMemory.readLe_congr fun target from_ below => ?_
    change fatBase pvp + whichbyte pvp cluster ≤ target at from_
    change target < fatBase pvp + whichbyte pvp cluster + 2 at below
    have either : target = fatBase pvp + whichbyte pvp cluster ∨
        target = fatBase pvp + whichbyte pvp cluster + 1 := by
      omega
    rcases either with rfl | rfl
    · exact first
    · exact second

theorem entry_setEntry (room : FatRoom pvp) (upper : other ≤ pvp.vfsMaxcluster) :
    entry (setEntry pvp cluster value) other =
      entry { pvp with device := firstFat pvp cluster value } other := by
  have inCopy := room.whichbyte_room upper
  refine @entry_congr { pvp with device := firstFat pvp cluster value } other
    (setEntry pvp cluster value).device fun byte small => ?_
  have inside : whichbyte pvp other + byte < fatBytes pvp := by omega
  rw [add_assoc]
  exact setEntry_first inside

theorem entry_setEntry_same (room : FatRoom pvp) (upper : cluster ≤ pvp.vfsMaxcluster)
    (storable : Storable pvp value) : entry (setEntry pvp cluster value) cluster = value := by
  rw [entry_setEntry room upper]
  unfold entry Storable at *
  change (if fat12 pvp then _ else _) = _
  split_ifs at storable ⊢ with twelve
  · simp only [firstFat, twelve, if_true]
    exact (congrArg widen Packed12.read_write_same).trans (widen_mod storable)
  · simp only [firstFat, twelve, Bool.false_eq_true, if_false]
    exact (ByteMemory.readLe_writeLe _ _ _).trans (Nat.mod_eq_of_lt (by omega))

theorem entry_setEntry_other (room : FatRoom pvp) (upper : other ≤ pvp.vfsMaxcluster)
    (different : other ≠ cluster)
    (apart : fat12 pvp = false → whichbyte pvp other ≠ whichbyte pvp cluster) :
    entry (setEntry pvp cluster value) other = entry pvp other := by
  rw [entry_setEntry room upper]
  cases twelve : fat12 pvp with
  | true =>
    unfold entry
    change (if fat12 pvp then _ else _) = _
    simp only [firstFat, twelve, if_true]
    exact congrArg widen (Packed12.read_write_other different)
  | false =>
    refine entry_congr fun byte small => firstFat_outside ?_
    have differs := apart twelve
    simp only [whichbyte, twelve, Bool.false_eq_true, if_false] at differs ⊢
    omega

theorem entry_eq_of_whichbyte (sixteen : fat12 pvp = false)
    (shared : whichbyte pvp other = whichbyte pvp cluster) :
    entry pvp other = entry pvp cluster := by
  simp only [entry, sixteen, Bool.false_eq_true, if_false, shared]

theorem whichbyte_eq_iff (sixteen : fat12 pvp = false) :
    whichbyte pvp other = whichbyte pvp cluster ↔ other % 2 ^ 15 = cluster % 2 ^ 15 := by
  simp only [whichbyte, sixteen, Bool.false_eq_true, if_false]
  omega

theorem fatentry_set (lower : clustFirst ≤ cluster) (upper : cluster ≤ pvp.vfsMaxcluster) :
    fatentry (fun _ => none) pvp fatSet cluster false value =
      .ok (none, setEntry pvp cluster value) :=
  fatentry_of_readable (fun _ => rfl) (by decide) (fun gets => absurd rfl gets) lower upper

theorem setBehaves_of (image : FatImage pvp) (storable : Storable pvp value) (condition :
    fat12 pvp = true ∨ Unshared pvp cluster ∨ entry pvp cluster = value) :
    SetBehaves pvp cluster value where
  stored := by
    intro lgeterror old after succeeded
    obtain ⟨lower, upper, result⟩ := fatentry_ok succeeded
    obtain rfl : after = setEntry pvp cluster value := (Prod.mk.inj result).2
    exact (gets_setEntry_iff lower upper).mpr (entry_setEntry_same image.room upper storable)
  others := by
    intro lgeterror old after succeeded other different previous gets
    obtain ⟨lower, upper, result⟩ := fatentry_ok succeeded
    obtain rfl : after = setEntry pvp cluster value := (Prod.mk.inj result).2
    by_cases outside : other < clustFirst ∨ (setEntry pvp cluster value).vfsMaxcluster < other
    · exact gets_of_outside outside
    change ¬ (other < clustFirst ∨ pvp.vfsMaxcluster < other) at outside
    have otherLower : clustFirst ≤ other := by omega
    have otherUpper : other ≤ pvp.vfsMaxcluster := by omega
    rw [gets_iff otherLower otherUpper] at gets
    refine (gets_setEntry_iff otherLower otherUpper).mpr ?_
    by_cases shared : fat12 pvp = false ∧ whichbyte pvp other = whichbyte pvp cluster
    · obtain ⟨sixteen, sameOffset⟩ := shared
      have alreadyHeld : entry pvp cluster = value := by
        rcases condition with twelve | unshared | held
        · simp [sixteen] at twelve
        · exact absurd ((whichbyte_eq_iff sixteen).mp sameOffset)
            (unshared other otherLower otherUpper different)
        · exact held
      rw [@entry_eq_of_whichbyte (setEntry pvp cluster value) cluster other sixteen sameOffset,
        entry_setEntry_same image.room upper storable, ← alreadyHeld,
        ← entry_eq_of_whichbyte sixteen sameOffset, gets]
    · rw [entry_setEntry_other image.room otherUpper different
        fun sixteen sameOffset => shared ⟨sixteen, sameOffset⟩, gets]
  previous := by
    intro lgeterror old after succeeded previous gets
    obtain ⟨lower, upper, result⟩ := fatentry_ok succeeded
    rw [gets_iff lower upper] at gets
    rw [(Prod.mk.inj result).1, ← gets]
    rfl
  copies := by
    intro lgeterror old after succeeded
    obtain ⟨-, upper, result⟩ := fatentry_ok succeeded
    obtain rfl : after = setEntry pvp cluster value := (Prod.mk.inj result).2
    exact image.setEntry upper value

theorem entry_of_setBehaves (image : FatImage pvp) (lower : clustFirst ≤ cluster)
    (upper : cluster ≤ pvp.vfsMaxcluster) (storable : Storable pvp value)
    (sixteen : fat12 pvp = false) (behaves : SetBehaves pvp cluster value)
    (otherLower : clustFirst ≤ other) (otherUpper : other ≤ pvp.vfsMaxcluster)
    (different : other ≠ cluster) (shared : other % 2 ^ 15 = cluster % 2 ^ 15) :
    entry pvp cluster = value := by
  have sameOffset : whichbyte pvp other = whichbyte pvp cluster :=
    (whichbyte_eq_iff sixteen).mpr shared
  have unchanged : entry (setEntry pvp cluster value) other = entry pvp other :=
    (gets_setEntry_iff otherLower otherUpper).mp
      (behaves.others _ _ _ (fatentry_set lower upper) other different _
        ((gets_iff otherLower otherUpper).mpr rfl))
  have changed : entry (setEntry pvp cluster value) other = value :=
    (@entry_eq_of_whichbyte (setEntry pvp cluster value) cluster other sixteen sameOffset).trans
      (entry_setEntry_same image.room upper storable)
  rw [← entry_eq_of_whichbyte sixteen sameOffset, ← unchanged, changed]

/-- An empty volume with two copies of its FAT. -/
def sampleVfs (vfsMaxcluster vfsFatsecs : Nat) : DosfsVfs where
  vfsFatblk := 1
  vfsFatsecs := vfsFatsecs
  vfsFats := 2
  vfsRootdirblk := 1 + 2 * vfsFatsecs
  vfsRootdirsize := 14
  vfsFirstcluster := 15 + 2 * vfsFatsecs
  vfsSectPerClust := 1
  vfsCnshift := 9
  vfsCrbomask := 0x1ff
  vfsBpcluster := 512
  vfsRdonly := false
  vfsMaxcluster := vfsMaxcluster
  vfsFreeclustercount := 0
  vfsInusemap := fun _ => 0
  device := fun _ => 0

end Uw7.Dosfs
