import Mathlib.Data.LawfulXor.Basic
import Mathlib.Data.Nat.Bitwise
import Mathlib.Data.Nat.Prime.Basic
import Uw7.Errno
import Uw7.Lib.ByteMemory

namespace Uw7.Dosfs.Boot

/-!
# Mounting a volume

`mountdosfs` and `find_extdosfs` from `dosfs/dosfs_vfsops.c`.  A division by zero has no
result.  What the other routines of the kernel return is given.
-/

open Lib

def long (value : Int) : Int := value.bmod (2 ^ 32)

/-- What the routines that `mountdosfs` calls return. -/
structure MountEnv where
  vopOpen : Option Errno
  lbread : Int → Except Errno ByteMemory
  kmemZalloc : Bool
  kmemAlloc : Bool
  fillinusemap : Option Errno
  deget : Option Errno

/-- A sector that has the boot signature. -/
def readBoot (env : MountEnv) (dosOffset : Int) : Except Errno ByteMemory :=
  match env.lbread dosOffset with
  | .error error => .error error
  | .ok sector => if sector.readLe 510 2 = 0xaa55 then .ok sector else .error .EINVAL

/-- `find_extdosfs`: the first partition with sectors. -/
def findExtdosfs (bootblock : ByteMemory) : Int :=
  match (List.range 4).find? fun i => 0 < long (bootblock.readLe (446 + i * 16 + 12) 4) with
  | some i => long (bootblock.readLe (446 + i * 16 + 8) 4)
  | none => 0

/-- The boot sector that is used, and `dos_offset`. -/
def bootSector (env : MountEnv) : Except Errno (Int × ByteMemory) := do
  let first ← readBoot env 0
  let (dosOffset, bsp) ←
    if first 0 = 0 then
      if findExtdosfs first ≤ 0 then .error .EINVAL
      else (readBoot env (findExtdosfs first)).map (findExtdosfs first, ·)
    else .ok (0, first)
  if bsp 0 ≠ 0xe9 ∧ bsp 0 ≠ 0xeb ∧ bsp 0 ≠ 0x69 then .error .EINVAL else .ok (dosOffset, bsp)

/-- `struct dosfs_vfs`, as far as it is read from the boot sector. -/
structure Pvp where
  dosOffset : Int
  bytesPerSec : Nat
  sectPerClust : Nat
  resSectors : Nat
  fats : Nat
  rootDirEnts : Nat
  fatsecs : Nat
  hugeSectors : Nat

/-- The BIOS parameter block. -/
def Pvp.read (dosOffset : Int) (bsp : ByteMemory) : Pvp where
  dosOffset := dosOffset
  bytesPerSec := bsp.readLe 11 2
  sectPerClust := bsp 13
  resSectors := bsp.readLe 14 2
  fats := bsp 16
  rootDirEnts := bsp.readLe 17 2
  fatsecs := bsp.readLe 22 2
  hugeSectors := if bsp.readLe 19 2 = 0 then bsp.readLe 32 4 else bsp.readLe 19 2

namespace Pvp

variable (pvp : Pvp)

def fatblk : Int := long (pvp.resSectors + pvp.dosOffset)

def rootdirblk : Int := long (pvp.fatblk + pvp.fats * pvp.fatsecs)

def rootdirsize : Nat := pvp.rootDirEnts * 32 / pvp.bytesPerSec

def firstcluster : Int := long (pvp.rootdirblk + pvp.rootdirsize)

def nmbrofclusters : Int :=
  long ((pvp.hugeSectors + pvp.dosOffset - pvp.firstcluster) % 2 ^ 32 / pvp.sectPerClust)

def maxcluster : Int := long (pvp.nmbrofclusters + 1)

def bpcluster : Nat := pvp.sectPerClust * pvp.bytesPerSec

def inusemapSize : Int := (pvp.maxcluster / 8 + 1) % 2 ^ 32

def entryBits : Int := if pvp.maxcluster ≤ 4086 then 12 else 16

end Pvp

/-- The loop for `vfs_cnshift`, which starts as 0. -/
def cnshift (bpc : Nat) : Nat → Nat → Option Nat
  | 0, _ => some 0
  | n + 1, i =>
    if 2 ^ i &&& bpc ≠ 0 then if 2 ^ i ^^^ bpc ≠ 0 then none else some i
    else cnshift bpc n (i + 1)

/-- The result: `undefined` stands for a division by zero. -/
inductive MountResult where
  | error (error : Errno)
  | undefined
  | mounted (pvp : Pvp) (vfsCnshift : Nat)

def mountdosfs (env : MountEnv) : MountResult :=
  match env.vopOpen, bootSector env with
  | some error, _ => .error error
  | none, .error error => .error error
  | none, .ok (dosOffset, bsp) =>
    let pvp := Pvp.read dosOffset bsp
    if env.kmemZalloc = false then .error .ENOMEM
    else if pvp.hugeSectors = 0 then .error .EINVAL
    else if pvp.bytesPerSec = 0 ∨ pvp.sectPerClust = 0 then .undefined
    else if pvp.bpcluster = 0 then .error .EINVAL
    else
      match cnshift pvp.bpcluster 32 0, env.kmemAlloc, env.fillinusemap, env.deget with
      | none, _, _, _ => .error .EINVAL
      | some _, false, _, _ => .error .ENOMEM
      | some _, true, some error, _ => .error error
      | some _, true, none, some error => .error error
      | some shift, true, none, none => .mounted pvp shift

/-- The blocks of an area. -/
def Block (start size block : Int) : Prop := ∃ i, 0 ≤ i ∧ i < size ∧ block = (start + i) % 2 ^ 32

/-- `vfs_maxcluster` + 1 entries, one for each cluster and two in front, fit into a FAT. -/
def Pvp.EntriesFit (pvp : Pvp) : Prop :=
  (pvp.nmbrofclusters + 2) * pvp.entryBits ≤ pvp.fatsecs * 512 * 8

/-- What the mount sets up: the areas are the FATs, the root directory and the clusters. -/
structure VolumeRight (pvp : Pvp) : Prop where
  bytesPerSec : ∃ k, pvp.bytesPerSec = 2 ^ k
  sectPerClust : ∃ k, pvp.sectPerClust = 2 ^ k
  apart : ∀ block, ¬(Block pvp.fatblk (pvp.fats * pvp.fatsecs) block ∧
      Block pvp.rootdirblk pvp.rootdirsize block) ∧
    ¬(Block pvp.fatblk (pvp.fats * pvp.fatsecs) block ∧
      Block pvp.firstcluster (pvp.nmbrofclusters * pvp.sectPerClust) block) ∧
    ¬(Block pvp.rootdirblk pvp.rootdirsize block ∧
      Block pvp.firstcluster (pvp.nmbrofclusters * pvp.sectPerClust) block)
  entries : pvp.EntriesFit
  room : ∀ cn, 0 ≤ cn → cn ≤ pvp.maxcluster → cn / 8 < pvp.inusemapSize

/-- The volume is refused, or it is mounted right and nothing was divided by zero. -/
def MountResult.Right : MountResult → Prop
  | error _ => True
  | undefined => False
  | mounted pvp _ => VolumeRight pvp

/-- What the boot sector of a volume must have that is not refused before the divisions, or,
for the last part, behind them. -/
def MountEnv.Fits (env : MountEnv) : Prop :=
  ∀ dosOffset bsp, env.vopOpen = none → bootSector env = .ok (dosOffset, bsp) →
    env.kmemZalloc = true → (Pvp.read dosOffset bsp).hugeSectors ≠ 0 →
    (Pvp.read dosOffset bsp).bytesPerSec ≠ 0 ∧ (Pvp.read dosOffset bsp).sectPerClust ≠ 0 ∧
      ((∃ k, (Pvp.read dosOffset bsp).bpcluster = 2 ^ k) → env.kmemAlloc = true →
        env.fillinusemap = none → env.deget = none → (Pvp.read dosOffset bsp).EntriesFit)

theorem cnshift_two_pow {bpc k n i : Nat} (found : cnshift bpc n i = some k) (nonzero : bpc ≠ 0)
    (small : bpc < 2 ^ (i + n)) (below : ∀ j, j < i → bpc.testBit j = false) : bpc = 2 ^ k := by
  induction n generalizing i with
  | zero =>
    refine absurd (Nat.eq_of_testBit_eq fun j => ?_) nonzero
    rw [Nat.zero_testBit]
    rcases Nat.lt_or_ge j i with inside | outside
    · exact below j inside
    · exact Nat.testBit_lt_two_pow (small.trans_le (Nat.pow_le_pow_right two_pos outside))
  | succ n ih =>
    rw [cnshift] at found
    split at found
    next bit =>
      obtain ⟨only, ⟨⟩⟩ := Option.ite_none_left_eq_some.1 found
      exact (xor_eq_zero_iff.mp (not_not.mp only)).symm
    next clear =>
      refine ih found (by rwa [Nat.add_right_comm]) fun j before => ?_
      rcases Nat.lt_succ_iff_lt_or_eq.mp before with earlier | rfl
      · exact below j earlier
      · simpa [Nat.and_comm, Nat.and_two_pow] using clear

theorem cnshift_ne_none {k n i : Nat} (from_ : i ≤ k) : cnshift (2 ^ k) n i ≠ none := by
  induction n generalizing i with
  | zero => exact Option.some_ne_none 0
  | succ n ih =>
    rw [cnshift]
    rcases Nat.eq_or_lt_of_le from_ with rfl | later
    · simp
    · have clear : 2 ^ i &&& 2 ^ k = 0 := by
        rw [Nat.and_two_pow, Nat.testBit_two_pow_of_ne later.ne, Bool.toNat_false, Nat.zero_mul]
      rw [clear, if_neg (not_not.mpr rfl)]
      exact ih later

theorem long_emod (value : Int) : long value % 2 ^ 32 = value % 2 ^ 32 := Int.bmod_emod

theorem long_le (value : Int) : long value ≤ 2 ^ 31 - 1 := Int.bmod_le (by decide)

/-- Two areas of which the second starts behind the first, before the numbers wrap. -/
theorem blocks_apart {start gap start' size size' block : Int}
    (next : start' % 2 ^ 32 = (start + gap) % 2 ^ 32) (inside : size ≤ gap)
    (fits : gap + size' ≤ 2 ^ 32) : ¬(Block start size block ∧ Block start' size' block) := by
  rintro ⟨⟨i, _, below, rfl⟩, j, _, below', same⟩
  omega

theorem Pvp.rootdirblk_emod (pvp : Pvp) :
    pvp.rootdirblk % 2 ^ 32 = (pvp.fatblk + pvp.fats * pvp.fatsecs) % 2 ^ 32 :=
  long_emod _

theorem Pvp.firstcluster_emod (pvp : Pvp) :
    pvp.firstcluster % 2 ^ 32 = (pvp.rootdirblk + pvp.rootdirsize) % 2 ^ 32 :=
  long_emod _

/-- A FAT of 65535 blocks has entries for fewer than 2²⁵ clusters. -/
theorem Pvp.EntriesFit.clusters {pvp : Pvp} (fits : pvp.EntriesFit)
    (fatsecs : pvp.fatsecs < 65536) :
    pvp.nmbrofclusters ≤ 22369278 := by
  unfold EntriesFit entryBits at fits
  split at fits <;> omega

theorem bpcluster_two_pow {dosOffset : Int} {bsp : ByteMemory} {k : Nat}
    (nonzero : (Pvp.read dosOffset bsp).bpcluster ≠ 0)
    (shift : cnshift (Pvp.read dosOffset bsp).bpcluster 32 0 = some k) :
    (Pvp.read dosOffset bsp).bpcluster = 2 ^ k := by
  refine cnshift_two_pow shift nonzero ?_ (by simp)
  have bytes : bsp.readLe 11 2 < 65536 := ByteMemory.readLe_lt 11 2
  calc (bsp 13).val * bsp.readLe 11 2 ≤ 256 * 65536 := Nat.mul_le_mul (bsp 13).isLt.le bytes.le
    _ < 2 ^ (0 + 32) := by decide

theorem volumeRight {dosOffset : Int} {bsp : ByteMemory} {k : Nat}
    (power : (Pvp.read dosOffset bsp).bpcluster = 2 ^ k)
    (fits : (Pvp.read dosOffset bsp).EntriesFit) : VolumeRight (Pvp.read dosOffset bsp) := by
  generalize isPvp : Pvp.read dosOffset bsp = pvp at *
  have word (address : Nat) : bsp.readLe address 2 < 65536 := ByteMemory.readLe_lt address 2
  have sectors : pvp.sectPerClust < 256 := isPvp ▸ (bsp 13).isLt
  have fats : pvp.fats < 256 := isPvp ▸ (bsp 16).isLt
  have ents : pvp.rootDirEnts < 65536 := isPvp ▸ word 17
  have fatsecs : pvp.fatsecs < 65536 := isPvp ▸ word 22
  have factor {part : Nat} (divides : part ∣ pvp.bpcluster) : ∃ k, part = 2 ^ k := by
    obtain ⟨k, -, isPower⟩ := (Nat.dvd_prime_pow Nat.prime_two).mp (power ▸ divides)
    exact ⟨k, isPower⟩
  have fatArea : pvp.fats * pvp.fatsecs ≤ 255 * 65535 := Nat.mul_le_mul (by omega) (by omega)
  have rootArea : pvp.rootdirsize ≤ 65535 * 32 :=
    (Nat.div_le_self _ _).trans (Nat.mul_le_mul_right 32 (by omega))
  have dataArea : pvp.nmbrofclusters * pvp.sectPerClust ≤ 22369278 * 128 := by
    have sectorPower : pvp.sectPerClust ≤ 128 := by
      obtain ⟨k, isPower⟩ := factor (Nat.dvd_mul_right _ _)
      rw [isPower] at sectors ⊢
      have below : k < 8 := (Nat.pow_lt_pow_iff_right one_lt_two).mp sectors
      exact Nat.pow_le_pow_right two_pos (Nat.le_of_lt_succ below)
    exact Int.mul_le_mul (fits.clusters fatsecs) (by omega) (by omega) (by decide)
  refine ⟨factor (Nat.dvd_mul_left _ _), factor (Nat.dvd_mul_right _ _), fun block => ⟨?_, ?_, ?_⟩,
    fits, fun cn _ most => ?_⟩
  · exact blocks_apart pvp.rootdirblk_emod le_rfl (by omega)
  · have root := pvp.rootdirblk_emod
    have first := pvp.firstcluster_emod
    have both : pvp.firstcluster % 2 ^ 32 =
        (pvp.fatblk + (pvp.fats * pvp.fatsecs + pvp.rootdirsize)) % 2 ^ 32 := by
      omega
    exact blocks_apart both (by omega) (by omega)
  · exact blocks_apart pvp.firstcluster_emod le_rfl (by omega)
  · have top : pvp.maxcluster ≤ 2 ^ 31 - 1 := long_le _
    unfold Pvp.inusemapSize
    omega

/-- A boot sector of zeros, but for the signature, the jump and the number of sectors. -/
def zeroSectors : MountEnv where
  vopOpen := none
  lbread _ := .ok fun i => if i = 0 ∨ i = 19 then 0xe9 else if i = 510 then 0x55 else
    if i = 511 then 0xaa else 0
  kmemZalloc := true
  kmemAlloc := true
  fillinusemap := none
  deget := none

end Uw7.Dosfs.Boot
