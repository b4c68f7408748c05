import Uw7.Dosfs.FatImage
import Uw7.Lib.Bitmap

namespace Uw7.Dosfs

/-!
# Allocation and release of clusters

The in-use map, the count of free clusters and the routines that keep them with
the FAT: `clusteralloc`, `clusterfree`, `freeclusterchain` and `fillinusemap`
from `fs/dosfs/dosfs_fat.c`.  `vfs_lookhere` is left out: nothing reads it.
-/

open Lib Function Nat

/-- The bit of a cluster in its byte, `1 << (cn & 0x07)`. -/
def inuseMask (cn : Nat) : Nat := 1 <<< (cn &&& 0x07)

/-- The bit of a cluster is set in the map. -/
def inUse (map : ByteMemory) (cn : Nat) : Bool := (map (cn >>> 3)).val &&& inuseMask cn != 0

/-- `vfs_inusemap[cn >> 3] |= 1 << (cn & 0x07)`. -/
def setInUse (map : ByteMemory) (cn : Nat) :
    ByteMemory :=
  update map (cn >>> 3) (Fin.ofNat 256 ((map (cn >>> 3)).val ||| inuseMask cn))

/-- `vfs_inusemap[cn >> 3] &= ~(1 << (cn & 0x07))`. -/
def clearInUse (map : ByteMemory) (cn : Nat) :
    ByteMemory :=
  update map (cn >>> 3) (Fin.ofNat 256 ((map (cn >>> 3)).val &&& (0xff ^^^ inuseMask cn)))

/-- The inner loop of the search: the first clear bit from `cn` on. -/
def scanByte (map : ByteMemory) : Nat → Nat → Nat
  | cn, 0 => cn
  | cn, count + 1 => if inUse map cn then scanByte map (cn + 1) count else cn

/-- The outer loop of the search, with `count` bytes to go. -/
def scanMap (map : ByteMemory) : Nat → Nat → Option Nat
  | _, 0 => none
  | cn, count + 1 =>
    if (map (cn >>> 3)).val ≠ 0xff then
      some (scanByte map cn 8)
    else
      scanMap map (cn + 8) count

/-- The search of `clusteralloc`. -/
def findFree (pvp : DosfsVfs) : Option Nat := scanMap pvp.vfsInusemap 0 (pvp.vfsMaxcluster / 8 + 1)

/-- A cluster is taken in the map and in the count. -/
def markInUse (pvp : DosfsVfs) (cn : Nat) : DosfsVfs :=
  { pvp with
    vfsInusemap := setInUse pvp.vfsInusemap cn
    vfsFreeclustercount := pvp.vfsFreeclustercount - 1 }

/-- A cluster is given back in the map and in the count. -/
def markFree (pvp : DosfsVfs) (cn : Nat) : DosfsVfs :=
  { pvp with
    vfsInusemap := clearInUse pvp.vfsInusemap cn
    vfsFreeclustercount := pvp.vfsFreeclustercount + 1 }

@[simp] theorem vfsInusemap_markInUse (pvp : DosfsVfs) (cn : Nat) :
    (markInUse pvp cn).vfsInusemap = setInUse pvp.vfsInusemap cn :=
  rfl

@[simp] theorem vfsInusemap_markFree (pvp : DosfsVfs) (cn : Nat) :
    (markFree pvp cn).vfsInusemap = clearInUse pvp.vfsInusemap cn :=
  rfl

def clusteralloc (lgeterror : Nat → Option Errno) (pvp : DosfsVfs) (fillwith : Nat) :
    Except Errno (Nat × DosfsVfs) :=
  match findFree pvp with
  | none => .error .ENOSPC
  | some cn =>
    match fatentry lgeterror pvp fatSet cn false fillwith with
    | .error error => .error error
    | .ok (_, written) => .ok (cn, markInUse written cn)

def clusterfree (lgeterror : Nat → Option Errno) (pvp : DosfsVfs) (cluster : Nat) :
    Except Errno DosfsVfs :=
  match fatentry lgeterror pvp fatSet cluster false clustFree with
  | .error error => .error error
  | .ok (_, written) => .ok (markFree written cluster)

def mapWords (map : ByteMemory) : Nat → Nat := fun index => (map index).val

variable (map : ByteMemory)

theorem mapWords_lt (index : Nat) : mapWords map index < 2 ^ 8 := (map index).isLt

theorem cn_split (cn : Nat) : cn >>> 3 = cn / 8 ∧ inuseMask cn = 2 ^ (cn % 8) := by
  refine ⟨shiftRight_eq_div_pow cn 3, ?_⟩
  rw [inuseMask, shiftLeft_eq, one_mul]
  exact congrArg (2 ^ ·) (and_two_pow_sub_one_eq_mod cn 3)

theorem inUse_eq_bit (cn : Nat) : inUse map cn = Bitmap.bit 8 (mapWords map) cn := by
  obtain ⟨byte, mask⟩ := cn_split cn
  rw [inUse, byte, mask, Bitmap.bit, and_two_pow]
  cases isSet : (mapWords map (cn / 8)).testBit (cn % 8) <;>
    simp [mapWords] at isSet ⊢ <;> simp [isSet]

theorem mapWords_setInUse (cn : Nat) :
    mapWords (setInUse map cn) = Bitmap.setBit 8 (mapWords map) cn := by
  obtain ⟨byte, mask⟩ := cn_split cn
  have small : 2 ^ (cn % 8) < 2 ^ 8 := Nat.pow_lt_pow_right (by decide) (mod_lt _ (by decide))
  have bounded : (map (cn / 8)).val ||| 2 ^ (cn % 8) < 2 ^ 8 :=
    or_lt_two_pow (map (cn / 8)).isLt small
  funext index
  by_cases same : index = cn / 8
  · subst index
    simp only [mapWords, setInUse, byte, mask, Bitmap.setBit,
      update_self, Fin.ofNat_eq_cast, Fin.val_natCast]
    exact mod_eq_of_lt bounded
  · simp [mapWords, setInUse, byte, Bitmap.setBit, same]

theorem and_complement (byte : Byte) (position : Fin 8) : byte.val &&& (0xff ^^^ 2 ^ position.val) =
    Bitmap.clearWordBit byte.val position.val := by
  revert byte position
  decide +kernel

theorem mapWords_clearInUse (cn : Nat) : mapWords (clearInUse map cn) =
    Bitmap.clearBit 8 (mapWords map) cn := by
  obtain ⟨byte, mask⟩ := cn_split cn
  funext index
  by_cases same : index = cn / 8
  · subst index
    have cleared := and_complement (map (cn / 8)) ⟨cn % 8, mod_lt _ (by decide)⟩
    have bounded : (map (cn / 8)).val &&& (0xff ^^^ 2 ^ (cn % 8)) < 256 :=
      and_le_left.trans_lt (map (cn / 8)).isLt
    simp only [mapWords, clearInUse, byte, mask, Bitmap.clearBit,
      update_self, Fin.ofNat_eq_cast, Fin.val_natCast]
    exact (mod_eq_of_lt bounded).trans cleared
  · simp [mapWords, clearInUse, byte, Bitmap.clearBit, same]

@[simp] theorem inUse_setInUse (cn other : Nat) : inUse (setInUse map cn) other =
    (inUse map other || decide (other = cn)) := by
  rw [inUse_eq_bit, mapWords_setInUse, Bitmap.bit_setBit, inUse_eq_bit]

@[simp] theorem inUse_clearInUse (cn other : Nat) :
    inUse (clearInUse map cn) other = (inUse map other && decide (other ≠ cn)) := by
  rw [inUse_eq_bit, mapWords_clearInUse, Bitmap.bit_clearBit, inUse_eq_bit]

theorem scanByte_eq (byte position count : Nat) (inside : position + count ≤ 8) :
    scanByte map (byte * 8 + position) count =
      byte * 8 + Bitmap.firstClear (mapWords map byte) position count := by
  induction count generalizing position with
  | zero => rfl
  | succ count ih =>
    have split := @Bitmap.split_index 8 byte position (by omega)
    have sameBit : inUse map (byte * 8 + position) = (mapWords map byte).testBit position := by
      rw [inUse_eq_bit, Bitmap.bit, split.1, split.2]
    have later := ih (position + 1) (by omega)
    rw [← add_assoc] at later
    simp only [scanByte, Bitmap.firstClear, sameBit, later]
    split_ifs <;> rfl

theorem findFree_eq (pvp : DosfsVfs) : findFree pvp = Bitmap.search 8 (mapWords pvp.vfsInusemap) 0
    (pvp.vfsMaxcluster / 8 + 1) := by
  have general : ∀ count byte, scanMap pvp.vfsInusemap (byte * 8) count =
      Bitmap.search 8 (mapWords pvp.vfsInusemap) byte count := by
    intro count
    induction count with
    | zero => exact fun _ => rfl
    | succ count ih =>
      intro byte
      have index : (byte * 8) >>> 3 = byte := by omega
      have next : byte * 8 + 8 = (byte + 1) * 8 := by omega
      have scanned := scanByte_eq pvp.vfsInusemap byte 0 8 le_rfl
      rw [add_zero] at scanned
      rw [scanMap, Bitmap.search, index, next, ih, scanned]
      by_cases full : (pvp.vfsInusemap byte).val = 255 <;> simp [mapWords, full]
  exact general _ 0

theorem findFree_le {pvp : DosfsVfs} {cn : Nat} (result : findFree pvp = some cn) :
    cn / 8 ≤ pvp.vfsMaxcluster / 8 := by
  rw [findFree_eq] at result
  obtain ⟨-, below, -, -⟩ := Bitmap.search_some (by decide) (mapWords_lt _) result
  omega

theorem findFree_some {pvp : DosfsVfs} {cn : Nat} (result : findFree pvp = some cn) :
    inUse pvp.vfsInusemap cn = false ∧
      ∀ lower, lower < cn → inUse pvp.vfsInusemap lower = true := by
  rw [findFree_eq] at result
  obtain ⟨-, -, clear, before⟩ := Bitmap.search_some (by decide) (mapWords_lt _) result
  rw [inUse_eq_bit]
  refine ⟨clear, fun lower under => ?_⟩
  rw [inUse_eq_bit]
  exact before lower (by omega) under

end Uw7.Dosfs
