import Uw7.Errno
import Uw7.Lib.ByteMemory

namespace Uw7.Dosfs

/-!
# Entries of a file allocation table

`fatentry`, `setfat12slot` and `updateotherfats` from `fs/dosfs/dosfs_fat.c`.
The device is modelled with its buffer cache, as one memory of bytes; a mount
sets `vfs_bnshift` and `vfs_brbomask` for blocks of 512 bytes.  A block that
cannot be read is reported by `lgeterror`.

Whether FAT writes are delayed, and the counter `vfs_fmod`, are left out.
-/

open Lib Function

/-- `CLUST_FREE`, also `DOSFSFREE`. -/
def clustFree : Nat := 0

def clustFirst : Nat := 2

def clustEofe : Nat := 0xffff

def fatGet : Nat := 0x0001

def fatSet : Nat := 0x0002

def fatGetAndSet : Nat := fatGet ||| fatSet

def vfsBytesPerSec : Nat := 512

def vfsBnshift : Nat := 9

def vfsBrbomask : Nat := 0x1ff

/--
The fields of `struct dosfs_vfs` that the modelled routines use; `vfsRdonly` is
the flag `VFS_RDONLY` of the file system.
-/
structure DosfsVfs where
  vfsFatblk : Nat
  vfsFatsecs : Nat
  vfsFats : Nat
  vfsRootdirblk : Nat
  vfsRootdirsize : Nat
  vfsFirstcluster : Nat
  vfsSectPerClust : Nat
  vfsCnshift : Nat
  vfsCrbomask : Nat
  vfsBpcluster : Nat
  vfsRdonly : Bool
  vfsMaxcluster : Nat
  vfsFreeclustercount : Int
  vfsInusemap : ByteMemory
  device : ByteMemory

def fat12 (pvp : DosfsVfs) : Bool := decide (pvp.vfsMaxcluster ≤ 4086)

def blockAddress (blk : Nat) : Nat := blk * vfsBytesPerSec

def blockBuffer (device : ByteMemory) (blk : Nat) :
    ByteMemory :=
  device.view (blockAddress blk)

def copyToBlock (device : ByteMemory) (blk : Nat) (buffer : ByteMemory) :
    ByteMemory :=
  device.store (blockAddress blk) vfsBytesPerSec buffer

/-- The loop of `updateotherfats`, with `count` copies to go. -/
def copyFats (fatsecs : Nat) (bp0 : ByteMemory) (bp1 : Option ByteMemory) :
    Nat → Nat → ByteMemory → ByteMemory
  | 0, _, device => device
  | count + 1, fatbn, device =>
    let fatbn := fatbn + fatsecs
    let first := copyToBlock device fatbn bp0
    let second :=
      match bp1 with
      | none => first
      | some bp1 => copyToBlock first (fatbn + 1) bp1
    copyFats fatsecs bp0 bp1 count fatbn second

def updateotherfats (pvp : DosfsVfs) (device bp0 : ByteMemory) (bp1 : Option ByteMemory)
    (fatbn : Nat) :
    ByteMemory :=
  copyFats pvp.vfsFatsecs bp0 bp1 (pvp.vfsFats - 1) fatbn device

/--
`setfat12slot`; `b0` and `b1` are the addresses of the entry's two bytes, and
the word is stored in two bytes with the least significant one first.
-/
def setfat12slot (device : ByteMemory) (b0 b1 : Nat) (oddcluster : Bool) (newvalue : Nat) :
    ByteMemory :=
  if oddcluster then
    let word := (newvalue <<< 4) % 2 ^ 16
    update (update device b0 (Fin.ofNat 256 (((device b0).val &&& 0x0f) ||| (word % 256))))
      b1 (Fin.ofNat 256 (word / 256))
  else
    let word := newvalue &&& 0x0fff
    update (update device b0 (Fin.ofNat 256 (word % 256))) b1
      (Fin.ofNat 256 (((device b1).val &&& 0xf0) ||| (word / 256)))

/-- The word that `FAT_GET` extracts from the two bytes of a 12-bit entry. -/
def getfat12slot (b0 b1 : Byte) (oddcluster : Bool) : Nat :=
  let word := b0.val + 256 * b1.val
  let word := if oddcluster then word >>> 4 else word
  let word := word &&& 0x0fff
  -- Some 12-bit entries are mapped to 16 bits.
  if word &&& 0x0ff0 = 0x0ff0 then word ||| 0xf000 else word

/-- The error of reading the block of an entry, or of its second block. -/
def readErrors (lgeterror : Nat → Option Errno) (whichblk : Nat) (straddles : Bool) :
    Option Errno :=
  (lgeterror whichblk).or (if straddles then lgeterror (whichblk + 1) else none)

/-- The branch of `fatentry` for 12-bit entries. -/
def fatentry12 (lgeterror : Nat → Option Errno) (pvp : DosfsVfs)
    (function cluster newcontents : Nat) :
    Except Errno (Option Nat × DosfsVfs) :=
  let whichbyte := (cluster + cluster >>> 1) % 2 ^ 16
  let whichblk := (whichbyte >>> vfsBnshift) + pvp.vfsFatblk
  let byteoffset := whichbyte &&& vfsBrbomask
  let straddles := byteoffset == vfsBytesPerSec - 1
  match readErrors lgeterror whichblk straddles with
  | some error => .error error
  | none =>
    let b0 := blockAddress whichblk + byteoffset
    let b1 := if straddles then blockAddress (whichblk + 1) else b0 + 1
    let oddcluster := cluster &&& 1 != 0
    let oldcontents :=
      if function &&& fatGet ≠ 0 then
        some (getfat12slot (pvp.device b0) (pvp.device b1) oddcluster)
      else
        none
    if function &&& fatSet ≠ 0 then
      let changed := setfat12slot pvp.device b0 b1 oddcluster newcontents
      .ok (oldcontents,
          { pvp with
            device := updateotherfats pvp changed (blockBuffer changed whichblk) (if straddles then
                some (blockBuffer changed (whichblk + 1))
                else
                  none)
                whichblk })
    else
      .ok (oldcontents, pvp)

/-- The branch of `fatentry` for 16-bit entries. -/
def fatentry16 (lgeterror : Nat → Option Errno) (pvp : DosfsVfs)
    (function cluster newcontents : Nat) :
    Except Errno (Option Nat × DosfsVfs) :=
  -- `whichbyte` is an `u_short` here as well.
  let whichbyte := (cluster <<< 1) % 2 ^ 16
  let whichblk := (whichbyte >>> vfsBnshift) + pvp.vfsFatblk
  let byteoffset := whichbyte &&& vfsBrbomask
  match lgeterror whichblk with
  | some error => .error error
  | none =>
    let address := blockAddress whichblk + byteoffset
    let oldcontents :=
      if function &&& fatGet ≠ 0 then
        some (pvp.device.readLe address 2)
      else
        none
    if function &&& fatSet ≠ 0 then
      let changed := pvp.device.writeLe address newcontents 2
      .ok (oldcontents,
          { pvp with
            device := updateotherfats pvp changed (blockBuffer changed whichblk) none whichblk })
    else
      .ok (oldcontents, pvp)

/--
`fatentry`.  `oldcontents` tells whether the caller gave an address for the old
contents, which are returned where the function gets them.
-/
def fatentry (lgeterror : Nat → Option Errno) (pvp : DosfsVfs) (function cluster : Nat)
    (oldcontents : Bool) (newcontents : Nat) :
    Except Errno (Option Nat × DosfsVfs) :=
  if function &&& (fatSet ||| fatGet) = 0 then
    .error .EINVAL
  else if function &&& fatGet ≠ 0 ∧ oldcontents = false then
    .error .EINVAL
  else if cluster < clustFirst ∨ cluster > pvp.vfsMaxcluster then
    .error .EINVAL
  else if fat12 pvp then
    fatentry12 lgeterror pvp function cluster newcontents
  else
    fatentry16 lgeterror pvp function cluster newcontents

end Uw7.Dosfs
