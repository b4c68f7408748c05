import Uw7.Errno
import Uw7.Lib.ByteMemory

namespace Uw7.Xxfs

/-!
# Free blocks of a Xenix file system

`xx_badblock`, `xx_blkalloc` and `xx_blkfree` from `fs/xxfs/xxalloc.c`.  The
device is modelled with its buffer cache, as one memory of bytes: a transfer at
sector `s` concerns the bytes from `512 * s` on.  A buffer that the source
marks stale is dropped, after which the block reads as some earlier content
that the model leaves open.

Block numbers are 32-bit and a volume has fewer than 2 ^ 32 sectors.  `s_fmod`
and the diagnostics are left out.
-/

open Lib

def sctrshft : Nat := 9

def xxbsize : Nat := 1024

def xxnicfree : Nat := 100

/-- `LTOPBLK`: the first sector of a logical block. -/
def ltopblk (blkno bsize : Nat) : Nat := blkno * (bsize >>> sctrshft)

def sectorAddress (sector : Nat) : Nat := sector * 2 ^ sctrshft

/-- `struct fblk`. -/
structure Fblk where
  dfNfree : Int
  dfFree : Nat → Nat

/-- The free-list fields of `struct xxfilsys`. -/
structure Xxfilsys where
  sIsize : Nat
  sFsize : Nat
  sNfree : Int
  sFree : Nat → Nat
  sTfree : Nat

/-- A mounted volume: its superblock and its device. -/
structure Volume where
  fp : Xxfilsys
  device : ByteMemory

/-- The `short` held in sixteen bits. -/
def toShort (bits : Nat) : Int :=
  if bits < 2 ^ 15 then bits else (bits : Int) - 2 ^ 16

/-- The sixteen bits that hold a `short`. -/
def ofShort (value : Int) : Nat := (value % 2 ^ 16).toNat

/-- The buffer at a sector, read as a `struct fblk`. -/
def readFblk (device : ByteMemory) (sector : Nat) : Fblk where
  dfNfree := toShort (device.readLe (sectorAddress sector) 2)
  dfFree := fun index =>
    device.readLe (sectorAddress sector + (2 + 4 * index)) 4

/-- A buffer with a `struct fblk` stored at its start. -/
def encodeFblk (buffer : ByteMemory) (fblk : Fblk) :
    ByteMemory :=
  (List.range xxnicfree).foldl (fun written index =>
      written.writeLe (2 + 4 * index) (fblk.dfFree index) 4)
    (buffer.writeLe 0 (ofShort fblk.dfNfree) 2)

def xxBadblock (fp : Xxfilsys) (bn : Nat) : Bool := decide (bn < fp.sIsize ∨ bn ≥ fp.sFsize)

def writeBlock (device : ByteMemory) (sector : Nat) (buffer : ByteMemory) :
    ByteMemory :=
  device.store (sectorAddress sector) xxbsize buffer

/-- The loop of `xx_blkalloc`, with `s_nfree` entries left. -/
def takeFree (fp : Xxfilsys) : Nat → Option (Nat × Nat)
  | 0 => none
  | nfree + 1 =>
    let bno := fp.sFree nfree
    if bno = 0 then
      none
    else if xxBadblock fp bno then
      takeFree fp nfree
    else
      some (bno, nfree)

/-- The label `nospace` of `xx_blkalloc`. -/
def noSpace (volume : Volume) : Volume :=
  { volume with fp := { volume.fp with sNfree := 0, sTfree := 0 } }

/-- Load the next part of the list from the block that links to it. -/
def loadFree (volume : Volume) (bno : Nat) (onDisk : ByteMemory) : Volume :=
  let fblk := readFblk volume.device (ltopblk bno xxbsize)
  { fp :=
      { volume.fp with
        sNfree := fblk.dfNfree
        sFree := fblk.dfFree }
    device := writeBlock volume.device (ltopblk bno xxbsize) onDisk }

/-- `s_free` after an entry was taken, reloaded if that was the last one. -/
def dropEntry (volume : Volume) (bno nfree : Nat) (onDisk : ByteMemory) : Volume :=
  let taken := { volume with fp := { volume.fp with sNfree := nfree } }
  if nfree = 0 then
    loadFree taken bno onDisk
  else
    taken

/--
`xx_blkalloc`; `none` stands for `ENOSPC`.  `onDisk` is what the block that was
read holds once its buffer is dropped.
-/
def xxBlkalloc (volume : Volume) (onDisk : ByteMemory) : Option Nat × Volume :=
  match takeFree volume.fp volume.fp.sNfree.toNat with
  | none => (none, noSpace volume)
  | some (bno, nfree) =>
    let loaded := dropEntry volume bno nfree onDisk
    if loaded.fp.sNfree ≤ 0 ∨ loaded.fp.sNfree > xxnicfree then
      (none, noSpace loaded)
    else
      (some bno,
        { loaded with
          fp := { loaded.fp with sTfree := loaded.fp.sTfree - 1 } })

/-- Put a block number at the end of `s_free`. -/
def pushFree (volume : Volume) (bno : Nat) : Volume :=
  { volume with
    fp :=
      { volume.fp with
        sNfree := volume.fp.sNfree + 1
        sFree := Function.update volume.fp.sFree volume.fp.sNfree.toNat bno
        sTfree := volume.fp.sTfree + 1 } }

/-- The sentinel that starts an empty list. -/
def startFree (fp : Xxfilsys) : Xxfilsys :=
  if fp.sNfree ≤ 0 then
    { fp with sNfree := 1, sFree := Function.update fp.sFree 0 0 }
  else
    fp

/--
Write a full `s_free` to the block being freed.  The buffer is obtained at
sector `bno`, not at `LTOPBLK(bno)`.
-/
def spillFree (volume : Volume) (bno : Nat) (buffer : ByteMemory) : Volume :=
  { fp := { volume.fp with sNfree := 0 }
    device := writeBlock volume.device bno (encodeFblk buffer
        { dfNfree := volume.fp.sNfree, dfFree := volume.fp.sFree }) }

/--
`xx_blkfree`.  `buffer` is what the buffer holds before the list is copied into
it, or what the block holds once its buffer is dropped.
-/
def xxBlkfree (volume : Volume) (bno : Nat) (buffer : ByteMemory) : Volume :=
  if xxBadblock volume.fp bno then
    volume
  else
    let started := { volume with fp := startFree volume.fp }
    if started.fp.sNfree ≥ (xxnicfree : Int) then
      pushFree (spillFree started bno buffer) bno
    else
      pushFree
        { started with
          device := writeBlock started.device (ltopblk bno xxbsize) buffer }
        bno

end Uw7.Xxfs
