import Uw7.Dosfs.FatImage

namespace Uw7.Dosfs

/-!
# Denodes and the map of a file to its clusters

`pcbmap` and the fat cache from `fs/dosfs/dosfs_fat.c`, `deupdat` from
`fs/dosfs/dosfs_denode.c` and `readde` from `fs/dosfs/dosfs_lookup.c`.

The counters of the fat cache are left out, and so are the vnode and the lists
of a denode.
-/

open Lib

def dosfsRoot : Nat := 0

def fceEmpty : Nat := 0xffff

def fcLastmap : Fin 2 := 0

def fcLastfc : Fin 2 := 1

def attrDirectory : Nat := 0x10

def deupd : Nat := 0x0008

def demod : Nat := 0x0080

def dosfseof (cn : Nat) : Bool := cn &&& 0xfff8 == 0xfff8

/-- The bytes of a `struct direntry`. -/
def direntrySize : Nat := 32

def deAttributes (de : ByteMemory) : Nat := (de 11).val

def deStartCluster (de : ByteMemory) : Nat := de.readLe 26 2

def deFileSize (de : ByteMemory) : Nat := de.readLe 28 4

/-- The field `deStartCluster` is assigned. -/
def setStartCluster (de : ByteMemory) (cluster : Nat) :
    ByteMemory :=
  de.writeLe 26 cluster 2

/-- The field `deFileSize` is assigned. -/
def setFileSize (de : ByteMemory) (size : Nat) :
    ByteMemory :=
  de.writeLe 28 size 4

def setDosTime (de : ByteMemory) (time date : Nat) :
    ByteMemory :=
  (de.writeLe 22 time 2).writeLe 24 date 2

/-- `struct fatcache`. -/
structure Fatcache where
  fcFrcn : Nat
  fcFsrcn : Nat
  deriving DecidableEq

/--
`struct denode`; `vroot` is the flag `VROOT` of its vnode, and `deDe` holds the
directory entry as its 32 bytes.
-/
structure Denode where
  vroot : Bool
  deFlag : Nat
  deDirclust : Nat
  deDiroffset : Nat
  deDe : ByteMemory
  deFc : Fin 2 → Fatcache

def isadir (dep : Denode) : Bool := deAttributes dep.deDe &&& attrDirectory != 0

/-- `fc_setcache`; both fields are `u_short`. -/
def fcSetcache (dep : Denode) (slot : Fin 2) (frcn fsrcn : Nat) : Denode :=
  { dep with
    deFc := Function.update dep.deFc slot ⟨frcn % 2 ^ 16, fsrcn % 2 ^ 16⟩ }

/-- One round of the loop of `fc_lookup`. -/
def closer (dep : Denode) (findcn : Nat) (closest : Option Fatcache) (i : Fin 2) :
    Option Fatcache :=
  let cn := (dep.deFc i).fcFrcn
  if cn ≠ fceEmpty ∧ cn ≤ findcn then
    match closest with
    | none => some (dep.deFc i)
    | some best => if best.fcFrcn < cn then some (dep.deFc i) else closest
  else
    closest

def fcLookup (dep : Denode) (findcn frcn fsrcn : Nat) : Nat × Nat :=
  match closer dep findcn (closer dep findcn none 0) 1 with
  | some closest => (closest.fcFrcn, closest.fcFsrcn)
  | none => (frcn, fsrcn)

def fcPurge (dep : Denode) (frcn : Nat) : Denode :=
  { dep with
    deFc := fun slot =>
        let entry := dep.deFc slot
        if entry.fcFrcn ≠ fceEmpty ∧ frcn ≤ entry.fcFrcn then
          { entry with fcFrcn := fceEmpty }
        else
          entry }

/--
The entry of a cluster as `pcbmap` and `fillinusemap` look it up: with offsets
of more than 16 bits, and without the change of 12-bit entries to 16 bits.
-/
def lookUpEntry (lgeterror : Nat → Option Errno) (pvp : DosfsVfs) (cn : Nat) : Except Errno Nat :=
  let byteoffset := if fat12 pvp then cn + cn >>> 1 else cn <<< 1
  let bn := (byteoffset >>> vfsBnshift) + pvp.vfsFatblk
  let bo := byteoffset &&& vfsBrbomask
  let straddles := fat12 pvp && bo == vfsBytesPerSec - 1
  match readErrors lgeterror bn straddles with
  | some error => .error error
  | none =>
    let b0 := blockAddress bn + bo
    let b1 := if straddles then blockAddress (bn + 1) else b0 + 1
    let word := (pvp.device b0).val + 256 * (pvp.device b1).val
    if fat12 pvp then
      .ok ((if cn &&& 1 ≠ 0 then word >>> 4 else word) &&& 0x0fff)
    else
      .ok word

/-- The cluster that follows in a chain. -/
def nextCluster (lgeterror : Nat → Option Errno) (pvp : DosfsVfs) (cn : Nat) : Except Errno Nat :=
  match lookUpEntry lgeterror pvp cn with
  | .error error => .error error
  | .ok word => .ok (if fat12 pvp then widen word else word)

/--
The loop of `pcbmap`, with `count` rounds to go; it ends with the number of
clusters it has passed, with the cluster it has reached and with the one before.
-/
def followChain (lgeterror : Nat → Option Errno) (pvp : DosfsVfs) :
    Nat → Nat → Nat → Nat → Except Errno (Nat × Nat × Nat)
  | 0, i, cn, prevcn => .ok (i, cn, prevcn)
  | count + 1, i, cn, prevcn =>
    if dosfseof cn then
      .ok (i, cn, prevcn)
    else
      match nextCluster lgeterror pvp cn with
      | .error error => .error error
      | .ok next => followChain lgeterror pvp count (i + 1) next cn

/-- What `pcbmap` finds out, which returns 0, `E2BIG` or an error. -/
inductive Mapping where
  | found (cn : Nat)
  | beyond (clusters : Nat)
  | failed (error : Errno)
  deriving DecidableEq

/--
`pcbmap`, called without `bnp`.  The variable `prevcn` starts with what happens
to be on the stack.
-/
def pcbmap (lgeterror : Nat → Option Errno) (pvp : DosfsVfs) (dep : Denode) (findcn prevcn : Nat) :
    Mapping × Denode :=
  let cn := deStartCluster dep.deDe
  if cn = dosfsRoot then
    if isadir dep then
      if findcn * pvp.vfsSectPerClust > pvp.vfsRootdirsize then
        (.beyond (pvp.vfsRootdirsize / pvp.vfsSectPerClust), dep)
      else
        (.found dosfsRoot, dep)
    else
      (.beyond 0, dep)
  else
    let start := fcLookup dep findcn 0 cn
    match followChain lgeterror pvp (findcn - start.1) start.1 start.2 prevcn with
    | .error error => (.failed error, dep)
    | .ok (i, cn, prevcn) =>
      if dosfseof cn then
        (.beyond i, fcSetcache dep fcLastfc (i + (2 ^ 32 - 1)) prevcn)
      else
        (.found cn, fcSetcache dep fcLastmap i cn)

/-- `cntobn`; the arithmetic is that of `u_long`. -/
def cntobn (pvp : DosfsVfs) (cn : Nat) : Nat :=
  ((cn + (2 ^ 32 - clustFirst)) * pvp.vfsSectPerClust + pvp.vfsFirstcluster) % 2 ^ 32

/-- The block of `readde`, and the index of the directory entry in it. -/
def direntryPlace (pvp : DosfsVfs) (dep : Denode) : Nat × Nat :=
  if dep.deDirclust = dosfsRoot then
    (pvp.vfsRootdirblk + dep.deDiroffset / (vfsBytesPerSec / direntrySize),
      dep.deDiroffset % (vfsBytesPerSec / direntrySize))
  else
    (cntobn pvp dep.deDirclust, dep.deDiroffset)

/-- The first error of reading `count` blocks, as `lbread` collects them. -/
def lbreadErrors (lgeterror : Nat → Option Errno) : Nat → Nat → Option Errno
  | _, 0 => none
  | bn, count + 1 => (lgeterror bn).or (lbreadErrors lgeterror (bn + 1) count)

/-- The device address of the directory entry of a denode. -/
def direntryAddress (pvp : DosfsVfs) (dep : Denode) : Nat :=
  blockAddress (direntryPlace pvp dep).1 + direntrySize * (direntryPlace pvp dep).2

/-- `deupdat`, where the write meets no error. -/
def deupdat (lgeterror : Nat → Option Errno) (pvp : DosfsVfs) (dep : Denode) (time date : Nat) :
    Option Errno × Denode × DosfsVfs :=
  if dep.deFlag &&& (deupd ||| demod) = 0 ∨ pvp.vfsRdonly ∨ dep.vroot then
    (none, dep, pvp)
  else
    match lbreadErrors lgeterror (direntryPlace pvp dep).1 (pvp.vfsBpcluster / vfsBytesPerSec) with
    | some error => (some error, dep, pvp)
    | none =>
      let dep :=
        { dep with
          deDe := setDosTime dep.deDe time date
          deFlag := dep.deFlag &&& (2 ^ 32 - 1 - (deupd ||| demod)) }
      (none, dep,
        { pvp with
          device := pvp.device.store (direntryAddress pvp dep) direntrySize dep.deDe })

end Uw7.Dosfs
