import Uw7.Dosfs.Clusters
import Uw7.Dosfs.Denode

namespace Uw7.Dosfs

/-!
# Files that grow and shrink

`fillinusemap`, `freeclusterchain` and `extendfile` from `fs/dosfs/dosfs_fat.c`
and `detrunc` from `fs/dosfs/dosfs_denode.c`.
-/

open Lib

/-- All clusters of the volume are marked in use, `count` bytes to go. -/
def markAllInUse (map : ByteMemory) : Nat → Nat → ByteMemory
  | _, 0 => map
  | cn, count + 1 => markAllInUse (Function.update map cn 0xff) (cn + 1) count

/-- The scan of `fillinusemap`, with `count` clusters to go. -/
def scanFat (lgeterror : Nat → Option Errno) : Nat → Nat → DosfsVfs → Except Errno DosfsVfs
  | _, 0, pvp => .ok pvp
  | cn, count + 1, pvp =>
    match lookUpEntry lgeterror pvp cn with
    | .error error => .error error
    | .ok word => scanFat lgeterror (cn + 1) count (if word = 0 then markFree pvp cn else pvp)

def fillinusemap (lgeterror : Nat → Option Errno) (pvp : DosfsVfs) : Except Errno DosfsVfs :=
  scanFat lgeterror clustFirst (pvp.vfsMaxcluster + 1 - clustFirst)
    { pvp with
      vfsInusemap := markAllInUse pvp.vfsInusemap 0 (pvp.vfsMaxcluster >>> 3 + 1)
      vfsFreeclustercount := 0 }

/-- The loop of `freeclusterchain`, which is given up after `fuel` rounds. -/
def freeChainLoop (lgeterror : Nat → Option Errno) :
    Nat → DosfsVfs → Nat → Option (Option Errno × DosfsVfs)
  | 0, _, _ => none
  | fuel + 1, pvp, startcluster =>
    if clustFirst ≤ startcluster ∧ startcluster ≤ pvp.vfsMaxcluster then
      match fatentry lgeterror pvp fatGetAndSet startcluster true clustFree with
      | .error error => some (some error, pvp)
      | .ok (nextcluster, written) =>
        freeChainLoop lgeterror fuel (markFree written startcluster) (nextcluster.getD 0)
    else
      some (none, pvp)

def freeclusterchain (lgeterror : Nat → Option Errno) (pvp : DosfsVfs) (startcluster : Nat) :
    Option (Option Errno × DosfsVfs) :=
  freeChainLoop lgeterror (pvp.vfsMaxcluster + 1) pvp startcluster

/--
The first part of `extendfile`: the cache entry of the last cluster is filled
in.  Without a result the function goes on.
-/
def cacheLastCluster (lgeterror : Nat → Option Errno) (pvp : DosfsVfs) (dep : Denode)
    (prevcn : Nat) : Option (Option Errno) × Denode :=
  if (dep.deFc fcLastfc).fcFrcn = fceEmpty ∧ deStartCluster dep.deDe ≠ 0 then
    match pcbmap lgeterror pvp dep 0xffff prevcn with
    | (.failed error, dep) => (some (some error), dep)
    | (.found _, dep) => (some none, dep)
    | (.beyond _, dep) => (none, dep)
  else
    (none, dep)

/-- The cluster `cn` becomes the last one of the file. -/
def appendCluster (lgeterror : Nat → Option Errno) (pvp : DosfsVfs) (dep : Denode) (cn : Nat) :
    Except Errno (Option Nat) × Denode × DosfsVfs :=
  if deStartCluster dep.deDe = 0 then
    let dep := { dep with deDe := setStartCluster dep.deDe cn }
    (.ok (some cn), fcSetcache dep fcLastfc 0 cn, pvp)
  else
    match fatentry lgeterror pvp fatSet (dep.deFc fcLastfc).fcFsrcn false cn with
    | .error error =>
      match clusterfree lgeterror pvp cn with
      | .error _ => (.error error, dep, pvp)
      | .ok released => (.error error, dep, released)
    | .ok (_, written) =>
      (.ok (some cn), fcSetcache dep fcLastfc ((dep.deFc fcLastfc).fcFrcn + 1) cn, written)

/--
`extendfile`.  A result `.ok none` stands for the return of 0 where `pcbmap` has
not found the end of the file and no cluster is allocated.
-/
def extendfile (lgeterror : Nat → Option Errno) (pvp : DosfsVfs) (dep : Denode) (prevcn : Nat) :
    Except Errno (Option Nat) × Denode × DosfsVfs :=
  if dep.vroot then
    (.error .ENOSPC, dep, pvp)
  else
    match cacheLastCluster lgeterror pvp dep prevcn with
    | (some (some error), dep) => (.error error, dep, pvp)
    | (some none, dep) => (.ok none, dep, pvp)
    | (none, dep) =>
      match clusteralloc lgeterror pvp clustEofe with
      | .error error => (.error error, dep, pvp)
      | .ok (cn, allocated) => appendCluster lgeterror allocated dep cn

/-- The first part of `detrunc`: a directory gets its size. -/
def sizeDirectory (lgeterror : Nat → Option Errno) (pvp : DosfsVfs) (dep : Denode) (prevcn : Nat) :
    Except Errno Denode × Denode :=
  let sized (dep : Denode) (eofentry : Nat) : Denode :=
    { dep with
      deDe := setFileSize dep.deDe (eofentry <<< pvp.vfsCnshift) }
  if isadir dep then
    match pcbmap lgeterror pvp dep 0xffff prevcn with
    | (.failed error, dep) => (.error error, dep)
    | (.found cn, dep) => (.ok (sized dep cn), dep)
    | (.beyond clusters, dep) => (.ok (sized dep clusters), dep)
  else
    (.ok dep, dep)

/-- The rest of the last cluster of the shortened file is cleared. -/
def zeroTail (lgeterror : Nat → Option Errno) (pvp : DosfsVfs) (length eofentry : Nat) :
    Except Errno DosfsVfs :=
  let boff := length &&& pvp.vfsCrbomask
  if boff ≠ 0 then
    let bn := cntobn pvp eofentry
    match lbreadErrors lgeterror bn (pvp.vfsBpcluster / vfsBytesPerSec) with
    | some error => .error error
    | none =>
      .ok
        { pvp with
          device := pvp.device.store (blockAddress bn + boff) (pvp.vfsBpcluster - boff) fun _ => 0 }
  else
    .ok pvp

/-- The end of `detrunc`: the clusters that were cut off are freed. -/
def releaseChain (lgeterror : Nat → Option Errno) (pvp : DosfsVfs) (dep : Denode)
    (allerror : Option Errno) (chaintofree : Nat) : Option (Option Errno × Denode × DosfsVfs) :=
  if chaintofree ≠ 0 ∧ dosfseof chaintofree = false then
    (freeclusterchain lgeterror pvp chaintofree).map fun freed => (allerror, dep, freed.2)
  else
    some (allerror, dep, pvp)

/--
The last part of `detrunc`: the chain is cut behind the cluster `eofentry`, if
there is one left, and what followed it is freed.
-/
def cutChain (lgeterror : Nat → Option Errno) (pvp : DosfsVfs) (dep : Denode)
    (allerror : Option Errno) (length : Nat) (eofentry : Option Nat) (chaintofree : Nat) :
    Option (Option Errno × Denode × DosfsVfs) :=
  match eofentry with
  | none => releaseChain lgeterror pvp dep allerror chaintofree
  | some eofentry =>
    match fatentry lgeterror pvp fatGetAndSet eofentry true clustEofe with
    | .error error => some (some error, dep, pvp)
    | .ok (chaintofree, written) =>
      releaseChain lgeterror written (fcSetcache dep fcLastfc ((length - 1) >>> pvp.vfsCnshift)
          eofentry)
        allerror (chaintofree.getD 0)

/--
The middle part of `detrunc`: the cache is purged, the tail is cleared and the
directory entry is written.
-/
def shortenFile (lgeterror : Nat → Option Errno) (pvp : DosfsVfs) (dep : Denode) (length : Nat)
    (eofentry : Option Nat) (chaintofree time date : Nat) :
    Option (Option Errno × Denode × DosfsVfs) :=
  let dep := fcPurge dep (((length + pvp.vfsCrbomask) % 2 ^ 32) >>> pvp.vfsCnshift)
  match zeroTail lgeterror pvp length (eofentry.getD (2 ^ 32 - 1)) with
  | .error error => some (some error, dep, pvp)
  | .ok cleared =>
    let dep :=
      { dep with
        deDe := setFileSize dep.deDe length
        deFlag := dep.deFlag ||| deupd }
    let (allerror, dep, updated) := deupdat lgeterror cleared dep time date
    cutChain lgeterror updated dep allerror length eofentry chaintofree

def detrunc (lgeterror : Nat → Option Errno) (pvp : DosfsVfs) (dep : Denode)
    (length prevcn time date : Nat) : Option (Option Errno × Denode × DosfsVfs) :=
  if dep.vroot then
    some (some .EINVAL, dep, pvp)
  else
    match sizeDirectory lgeterror pvp dep prevcn with
    | (.error error, dep) => some (some error, dep, pvp)
    | (.ok dep, _) =>
      if deFileSize dep.deDe ≤ length then
        some (deupdat lgeterror pvp { dep with deFlag := dep.deFlag ||| deupd } time date)
      else if length = 0 then
        shortenFile lgeterror pvp { dep with deDe := setStartCluster dep.deDe 0 } length none
          (deStartCluster dep.deDe) time date
      else
        match pcbmap lgeterror pvp dep ((length - 1) >>> pvp.vfsCnshift) prevcn with
        | (.failed error, dep) => some (some error, dep, pvp)
        | (.beyond _, dep) => some (some .E2BIG, dep, pvp)
        | (.found eofentry, dep) => shortenFile lgeterror pvp dep length (some eofentry) 0 time date

end Uw7.Dosfs
