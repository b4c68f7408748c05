import Uw7.Xxfs.Alloc

namespace Uw7.Xxfs

/-!
# The block map of an inode

`xx_bmap` from `fs/xxfs/xxbmap.c`: direct blocks, and blocks behind one, two or
three levels of indirect blocks, which it makes when it writes.  Reading an
indirect block may fail; writing one does not.  The read-ahead block and the
marks on the inode are left out.
-/

open Lib Errno

def naddr : Nat := 13

def niaddr : Nat := 3

def fsNindir : Nat := xxbsize / 4

def fsNshift : Nat := 8

def fsNmask : Nat := fsNindir - 1

/-- The block addresses of an inode, and whether it is a directory's. -/
structure Inode where
  iAddr : Nat → Nat
  isDir : Bool

/-- The mapping is for read or for write. -/
inductive Rw where
  | bRead
  | bWrite
  deriving DecidableEq

/-- What the device does: which blocks cannot be read, and what a free block
holds once its buffer is dropped, by the superblock when it is taken. -/
structure Behaviour where
  badRead : Nat → Bool
  onDisk : Xxfilsys → ByteMemory

/-- A volume and an inode on it. -/
structure Mapped where
  volume : Volume
  inode : Inode

def indirectEntry (device : ByteMemory) (block index : Nat) : Nat :=
  device.readLe (sectorAddress (ltopblk block xxbsize) + 4 * index) 4

/-- An indirect block with another `bap[i]`, written back. -/
def setIndirectEntry (device : ByteMemory) (block index value : Nat) : ByteMemory :=
  device.writeLe (sectorAddress (ltopblk block xxbsize) + 4 * index) value 4

def clearBlock (device : ByteMemory) (block : Nat) : ByteMemory :=
  writeBlock device (ltopblk block xxbsize) fun _ => 0

def takeBlock (behaviour : Behaviour) (volume : Volume) (clear : Bool) : Option Nat × Volume :=
  match xxBlkalloc volume (behaviour.onDisk volume.fp) with
  | (none, after) => (none, after)
  | (some block, after) =>
    (some block,
      if clear then
        { after with device := clearBlock after.device block }
      else after)

/-- How many levels of indirection: `j`, the shift, and the rest of the block
number. -/
def chooseLevel : Nat → Nat → Nat → Nat → Option (Nat × Nat × Nat)
  | 0, _, _, _ => none
  | j + 1, sh, nb, bn =>
    let sh := sh + fsNshift
    let nb := nb <<< fsNshift
    if bn < nb then some (j + 1, sh, bn)
    else chooseLevel j sh nb (bn - nb)

/-- Fetch through the indirect blocks, with `levels` of them left; `none` stands
for `XX_HOLE`. -/
def fetchIndirect (behaviour : Behaviour) (rw : Rw) (isDir : Bool) (bn : Nat) :
    Nat → Nat → Nat → Volume → Except Errno (Option Nat) × Volume
  | 0, _, inb, volume => (.ok (some inb), volume)
  | levels + 1, sh, inb, volume =>
    if behaviour.badRead inb then (.error EIO, volume)
    else
      let sh := sh - fsNshift
      let i := (bn >>> sh) &&& fsNmask
      let nb := indirectEntry volume.device inb i
      if nb = 0 then
        match rw with
        | .bRead => (.ok none, volume)
        | .bWrite =>
          match takeBlock behaviour volume (levels ≠ 0 || isDir) with
          | (none, after) => (.error ENOSPC, after)
          | (some nb, after) =>
            fetchIndirect behaviour rw isDir bn levels sh nb
              { after with
                device := setIndirectEntry after.device inb i nb }
      else
        fetchIndirect behaviour rw isDir bn levels sh nb volume

/-- An address of the inode, made when it writes. -/
def fetchAddress (behaviour : Behaviour) (rw : Rw) (clear : Bool) (address : Nat)
    (before : Mapped) : Except Errno (Option Nat) × Mapped :=
  let nb := before.inode.iAddr address
  if nb = 0 then
    match rw with
    | .bRead => (.ok none, before)
    | .bWrite =>
      match takeBlock behaviour before.volume clear with
      | (none, after) => (.error ENOSPC, { before with volume := after })
      | (some nb, after) =>
        (.ok (some nb),
          { volume := after
            inode :=
              { before.inode with
                iAddr := Function.update before.inode.iAddr address nb } })
  else (.ok (some nb), before)

/-- `xx_bmap`: the block at `*bnp`, and the volume and the inode after. -/
def xxBmap (behaviour : Behaviour) (before : Mapped) (lbn : Nat)
    (rw : Rw) : Except Errno (Option Nat) × Mapped :=
  if lbn < naddr - 3 then
    fetchAddress behaviour rw before.inode.isDir lbn before
  else
    match chooseLevel 3 0 1 (lbn - (naddr - 3)) with
    | none => (.error EFBIG, before)
    | some (j, sh, bn) =>
      match fetchAddress behaviour rw true (naddr - j) before with
      | (.ok (some inb), fetched) =>
        let result := fetchIndirect behaviour rw before.inode.isDir bn
            (niaddr + 1 - j) sh inb fetched.volume
        (result.1, { fetched with volume := result.2 })
      | stopped => stopped

end Uw7.Xxfs
