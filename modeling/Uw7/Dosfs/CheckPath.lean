import Mathlib.Data.Set.Finite.Basic
import Uw7.Lib.Cycles
import Uw7.Dosfs.RootDirectory

namespace Uw7.Dosfs

/-!
# The path check of a rename

`doscheckpath` from `fs/dosfs/dosfs_lookup.c`, with what it asks of `deget`.  The walk
goes up from the target by the `..` entries on the device and remembers no directory that
it has passed.

A directory has one denode for its first cluster.  So the walk is at its target exactly
when the clusters are equal, and a `deget` for the directory that the walk stands on waits
for a lock that the walk holds; it counts as a round that comes back to that directory.
-/

open Lib Relation Errno Option

/-- A mounted volume with the denodes in memory and the head of the free list. -/
structure MountedVolume where
  lgeterror : Nat → Option Errno
  pvp : DosfsVfs
  cached : List Denode
  dfreeh : Option Denode

def deref : Nat := 0x0100

/-- The name of the second entry of a directory. -/
def dotdotName : List Nat := [46, 46, 32, 32, 32, 32, 32, 32, 32, 32, 32]

/-- The first bytes of a directory entry are the name `..`. -/
def isDotdot (direntry : ByteMemory) : Bool := deAttributes direntry &&& attrDirectory != 0 &&
    ((List.range 11).map fun i => (direntry i).val) == dotdotName

/-- The `..` entry of the directory that begins at a cluster. -/
def dotdot (volume : MountedVolume) (scn : Nat) : Except Errno ByteMemory :=
  match lbreadErrors volume.lgeterror (cntobn volume.pvp scn)
      (volume.pvp.vfsBpcluster / vfsBytesPerSec) with
  | some error => .error error
  | none =>
    let direntry := volume.pvp.device.view (blockAddress (cntobn volume.pvp scn) + direntrySize)
    if isDotdot direntry then .ok direntry else .error ENOTDIR

/-- `deget` for a directory other than the root, with a directory entry. -/
def degetDirectory (volume : MountedVolume) (dirclust diroffset startclust : Nat)
    (direntp : ByteMemory) : Except Errno Denode :=
  match volume.cached.find? fun dep => isadir dep && deStartCluster dep.deDe == startclust with
  | some dep => .ok dep
  | none =>
    match volume.dfreeh with
    | none => .error ENFILE
    | some dep =>
      .ok { fcPurge dep 0 with
            vroot := false
            deFlag := deref
            deDirclust := dirclust
            deDiroffset := diroffset
            deDe := direntp }

/-- A round of the loop: it breaks with 0 or an error, or goes on from a denode. -/
def checkRound (volume : MountedVolume) (source dep : Denode) : Option Errno ⊕ Denode :=
  let scn := deStartCluster dep.deDe
  match dotdot volume scn with
  | .error error => .inl (some error)
  | .ok direntry =>
    if deStartCluster direntry = deStartCluster source.deDe then .inl (some EINVAL)
    else if deStartCluster direntry = dosfsRoot then .inl none
    else
      match degetDirectory volume scn 1 (deStartCluster direntry) direntry with
      | .error error => .inl (some error)
      | .ok newdep => if isadir newdep then .inr newdep else .inl (some ENOTDIR)

/-- The loop, when it makes no more than a number of rounds, and where it breaks. -/
def checkLoop (volume : MountedVolume) (source : Denode) :
    Nat → Denode → Option (Option Errno × Denode)
  | 0, _ => none
  | rounds + 1, dep =>
    match checkRound volume source dep with
    | .inl error => some (error, dep)
    | .inr newdep => checkLoop volume source rounds newdep

/-- `doscheckpath`, when the loop makes no more than a number of rounds; the target may be
another entry when it is locked again.  It returns 0 or an error. -/
def doscheckpath (volume : MountedVolume) (source target : Denode) (relocked : ByteMemory)
    (rounds : Nat) : Option (Option Errno) :=
  if !isadir target || !isadir source then some (some ENOTDIR)
  else if deStartCluster target.deDe = deStartCluster source.deDe then some (some EEXIST)
  else if deStartCluster target.deDe = dosfsRoot then some none
  else
    match checkLoop volume source rounds target with
    | none => none
    | some (error, dep) =>
      if deStartCluster dep.deDe ≠ deStartCluster target.deDe ∧ error = none ∧
          (relocked 0).val = slotDeleted then
        some (some ENOENT)
      else some error

/-- A directory names its parent, by first clusters. -/
def Parent (volume : MountedVolume) (cluster parent : Nat) : Prop :=
  ∃ direntry, dotdot volume cluster = .ok direntry ∧ deStartCluster direntry = parent

/-- There is a denode for a directory. -/
def HasDenode (volume : MountedVolume) (cluster : Nat) : Prop :=
  volume.dfreeh.isSome ∨ ∃ dep ∈ volume.cached, isadir dep ∧ deStartCluster dep.deDe = cluster

/-- The walk for a source goes from a directory to its parent. -/
def Climbs (volume : MountedVolume) (source cluster parent : Nat) : Prop :=
  Parent volume cluster parent ∧ parent ≠ source ∧ parent ≠ dosfsRoot ∧ HasDenode volume parent

/-- The source is above a directory, and the walk comes to it. -/
def IsAbove (volume : MountedVolume) (source cluster : Nat) : Prop :=
  ∃ below, ReflTransGen (Climbs volume source) cluster below ∧ Parent volume below source

/-- The walk comes to the root and does not meet the source. -/
def ClimbsToRoot (volume : MountedVolume) (source cluster : Nat) : Prop :=
  ∃ below, ReflTransGen (Climbs volume source) cluster below ∧
    Parent volume below dosfsRoot ∧ source ≠ dosfsRoot

variable {volume : MountedVolume} {source dep : Denode}

theorem deStartCluster_lt (de : ByteMemory) : deStartCluster de < 2 ^ 16 := ByteMemory.readLe_lt ..

variable {cluster parent other : Nat} {direntry : ByteMemory}

theorem isadir_of_dotdot (found : dotdot volume cluster = .ok direntry) :
    deAttributes direntry &&& attrDirectory ≠ 0 := by
  unfold dotdot at found
  split at found
  · cases found
  · dsimp only at found
    split at found
    · rename_i isName
      cases found
      simp only [isDotdot, Bool.and_eq_true, bne_iff_ne] at isName
      exact isName.1
    · cases found

theorem degetDirectory_right (found : dotdot volume cluster = .ok direntry) :
    (∃ newdep, degetDirectory volume cluster 1 (deStartCluster direntry) direntry = .ok newdep ∧
      isadir newdep ∧ deStartCluster newdep.deDe = deStartCluster direntry ∧
      HasDenode volume (deStartCluster direntry)) ∨
      (degetDirectory volume cluster 1 (deStartCluster direntry) direntry = .error ENFILE ∧
        ¬ HasDenode volume (deStartCluster direntry)) := by
  unfold degetDirectory
  cases inMemory : volume.cached.find? fun dep =>
    isadir dep && deStartCluster dep.deDe == deStartCluster direntry with
  | some known =>
    have matching := List.find?_some inMemory
    simp only [Bool.and_eq_true, beq_iff_eq] at matching
    exact .inl ⟨known, rfl, matching.1, matching.2,
      .inr ⟨known, List.mem_of_find?_eq_some inMemory, matching⟩⟩
  | none =>
    cases free : volume.dfreeh with
    | some taken =>
      refine .inl ⟨_, rfl, ?_, rfl, .inl (by rw [free]; rfl)⟩
      simpa [isadir] using isadir_of_dotdot found
    | none =>
      refine .inr ⟨rfl, ?_⟩
      rintro (some | ⟨known, member, isDirectory, same⟩)
      · rw [free] at some
        cases some
      · have none := List.find?_eq_none.1 inMemory known member
        simp [isDirectory, same] at none

theorem Parent.unique (first : Parent volume cluster parent) (second : Parent volume cluster other)
    : parent = other := by
  obtain ⟨direntry, read, rfl⟩ := first
  obtain ⟨again, readAgain, rfl⟩ := second
  rw [read] at readAgain
  cases readAgain
  rfl

theorem checkRound_cases (volume : MountedVolume) (source dep : Denode) :
    (∃ newdep, checkRound volume source dep = .inr newdep ∧
      Climbs volume (deStartCluster source.deDe) (deStartCluster dep.deDe)
        (deStartCluster newdep.deDe)) ∨
    (∃ error, checkRound volume source dep = .inl error ∧
      (∀ parent, ¬ Climbs volume (deStartCluster source.deDe) (deStartCluster dep.deDe) parent) ∧
      (Parent volume (deStartCluster dep.deDe) (deStartCluster source.deDe) → error = some EINVAL) ∧
      (error = none → Parent volume (deStartCluster dep.deDe) dosfsRoot ∧
        deStartCluster source.deDe ≠ dosfsRoot)) := by
  simp only [checkRound]
  cases found : dotdot volume (deStartCluster dep.deDe) with
  | error error =>
    have orphan : ∀ parent, ¬ Parent volume (deStartCluster dep.deDe) parent := by
      rintro parent ⟨direntry, read, -⟩
      rw [found] at read
      cases read
    exact .inr ⟨some error, rfl, fun parent climbs => orphan parent climbs.1,
      fun isParent => absurd isParent (orphan _), fun isNone => by cases isNone⟩
  | ok direntry =>
    have isParent : Parent volume (deStartCluster dep.deDe) (deStartCluster direntry) :=
      ⟨direntry, found, rfl⟩
    dsimp only
    by_cases isSource : deStartCluster direntry = deStartCluster source.deDe
    · rw [if_pos isSource]
      refine .inr ⟨_, rfl, fun parent climbs => ?_, fun _ => rfl, fun isNone => by cases isNone⟩
      exact climbs.2.1 ((climbs.1.unique isParent).trans isSource)
    rw [if_neg isSource]
    have otherParent : ¬ Parent volume (deStartCluster dep.deDe) (deStartCluster source.deDe) :=
      fun sourceParent => isSource (isParent.unique sourceParent)
    by_cases isRoot : deStartCluster direntry = dosfsRoot
    · rw [if_pos isRoot]
      refine .inr ⟨_, rfl, fun parent climbs => ?_, fun above => absurd above otherParent,
        fun _ => ⟨isRoot ▸ isParent, fun same => isSource (isRoot.trans same.symm)⟩⟩
      exact climbs.2.2.1 ((climbs.1.unique isParent).trans isRoot)
    rw [if_neg isRoot]
    obtain ⟨newdep, gotten, isDirectory, same, denode⟩ | ⟨failed, missing⟩ :=
      degetDirectory_right found
    · refine .inl ⟨newdep, ?_, ?_⟩
      · simp [gotten, isDirectory]
      · exact same ▸ ⟨isParent, isSource, isRoot, denode⟩
    · refine .inr ⟨some ENFILE, by rw [failed], fun parent climbs => ?_,
        fun above => absurd above otherParent, fun isNone => by cases isNone⟩
      exact missing ((climbs.1.unique isParent) ▸ climbs.2.2.2)

theorem Climbs.unique {from' : Nat} (first : Climbs volume from' cluster parent)
    (second : Climbs volume from' cluster other) : parent = other :=
  first.1.unique second.1

theorem checkLoop_of_acc
    (ends : Acc (fun above below => Climbs volume (deStartCluster source.deDe) below above) cluster)
    (dep : Denode) (stands : deStartCluster dep.deDe = cluster) :
    ∃ rounds result, checkLoop volume source rounds dep = some result := by
  induction ends generalizing dep with
  | intro cluster _ ih =>
    subst stands
    obtain ⟨newdep, goesOn, climbs⟩ | ⟨error, breaks, -⟩ := checkRound_cases volume source dep
    · obtain ⟨rounds, result, returns⟩ := ih _ climbs newdep rfl
      exact ⟨rounds + 1, result, by rw [checkLoop, goesOn]; exact returns⟩
    · exact ⟨1, (error, dep), by rw [checkLoop, breaks]⟩

theorem acc_of_checkLoop (rounds : Nat) (dep : Denode) (result : Option Errno × Denode)
    (returns : checkLoop volume source rounds dep = some result) :
    Acc (fun above below => Climbs volume (deStartCluster source.deDe) below above)
      (deStartCluster dep.deDe) ∧
    (result.1 = none →
      ClimbsToRoot volume (deStartCluster source.deDe) (deStartCluster dep.deDe)) := by
  induction rounds generalizing dep with
  | zero => cases returns
  | succ rounds ih =>
    rw [checkLoop] at returns
    obtain ⟨newdep, goesOn, climbs⟩ | ⟨error, breaks, stuck, -, toRoot⟩ :=
      checkRound_cases volume source dep
    · rw [goesOn] at returns
      obtain ⟨ends, free⟩ := ih newdep returns
      refine ⟨Acc.intro _ fun other step => climbs.unique step ▸ ends, fun isNone => ?_⟩
      obtain ⟨below, reaches, top⟩ := free isNone
      exact ⟨below, reaches.head climbs, top⟩
    · rw [breaks] at returns
      cases returns
      refine ⟨Acc.intro _ fun other step => absurd step (stuck other), fun isNone => ?_⟩
      exact ⟨_, .refl, toRoot isNone⟩

theorem checkLoop_of_isAbove
    (above : IsAbove volume (deStartCluster source.deDe) (deStartCluster dep.deDe)) :
    ∃ rounds final, checkLoop volume source rounds dep = some (some EINVAL, final) := by
  obtain ⟨below, reaches, isParent⟩ := above
  generalize stands : deStartCluster dep.deDe = cluster at reaches
  induction reaches using ReflTransGen.head_induction_on generalizing dep with
  | refl =>
    subst stands
    obtain ⟨newdep, -, climbs⟩ | ⟨error, breaks, -, found, -⟩ := checkRound_cases volume source dep
    · exact absurd (climbs.1.unique isParent) climbs.2.1
    · exact ⟨1, dep, by rw [checkLoop, breaks, found isParent]⟩
  | head climbs _ ih =>
    subst stands
    obtain ⟨newdep, goesOn, climbsTo⟩ | ⟨error, -, stuck, -⟩ := checkRound_cases volume source dep
    · obtain ⟨rounds, final, returns⟩ := ih (climbsTo.unique climbs)
      exact ⟨rounds + 1, final, by rw [checkLoop, goesOn]; exact returns⟩
    · exact absurd climbs (stuck _)

theorem finite_climbs (volume : MountedVolume) (source : Nat) (de : ByteMemory) :
    Set.Finite {cluster | ReflTransGen (Climbs volume source) (deStartCluster de) cluster} := by
  refine (Set.finite_lt_nat (2 ^ 16)).subset fun cluster reaches => ?_
  cases reaches with
  | refl => exact deStartCluster_lt de
  | tail _ climbs =>
    obtain ⟨direntry, -, rfl⟩ := climbs.1
    exact deStartCluster_lt direntry

/-- The arguments decide the result without a look at the device. -/
def SettledAtOnce (source target : Denode) : Prop :=
  ¬ (isadir target ∧ isadir source) ∨ deStartCluster target.deDe = deStartCluster source.deDe ∨
    deStartCluster target.deDe = dosfsRoot

variable {target : Denode} {relocked : ByteMemory} {rounds : Nat}

theorem doscheckpath_of_not_settled (walks : ¬ SettledAtOnce source target) :
    doscheckpath volume source target relocked rounds =
      (checkLoop volume source rounds target).map fun result =>
        if deStartCluster result.2.deDe ≠ deStartCluster target.deDe ∧ result.1 = none ∧
          (relocked 0).val = slotDeleted then
          some ENOENT
        else result.1 := by
  simp only [SettledAtOnce, not_or, not_not] at walks
  obtain ⟨⟨isTarget, isSource⟩, other, notRoot⟩ := walks
  rw [doscheckpath, if_neg (by simp [isTarget, isSource]), if_neg other, if_neg notRoot]
  cases checkLoop volume source rounds target with
  | none => rfl
  | some result =>
    dsimp only [map_some]
    split <;> rfl

theorem doscheckpath_of_settled (settled : SettledAtOnce source target) :
    ∃ error, (∀ rounds, doscheckpath volume source target relocked rounds = some error) ∧
      (isadir target ∧ isadir source →
        deStartCluster target.deDe = deStartCluster source.deDe → error = some EEXIST) ∧
      (error = none → (isadir target ∧ isadir source) ∧
        deStartCluster target.deDe ≠ deStartCluster source.deDe ∧
        deStartCluster target.deDe = dosfsRoot) := by
  simp only [doscheckpath]
  by_cases directories : isadir target = true ∧ isadir source = true
  · have isTarget := directories.1
    have isSource := directories.2
    by_cases same : deStartCluster target.deDe = deStartCluster source.deDe
    · exact ⟨some EEXIST, by simp [isTarget, isSource, same], fun _ _ => rfl,
        fun isNone => by cases isNone⟩
    · have isRoot := (settled.resolve_left (not_not_intro directories)).resolve_left same
      refine ⟨none, fun _ => ?_, fun _ again => absurd again same,
        fun _ => ⟨directories, same, isRoot⟩⟩
      rw [if_neg (by simp [isTarget, isSource]), if_neg same, if_pos isRoot]
  · refine ⟨some ENOTDIR, fun _ => if_pos ?_, fun both => absurd both directories,
      fun isNone => by cases isNone⟩
    simpa [or_iff_not_imp_left] using directories

theorem doscheckpath_returns_iff :
    (∃ rounds error, doscheckpath volume source target relocked rounds = some error) ↔
      SettledAtOnce source target ∨
        ¬ Cyclic (Climbs volume (deStartCluster source.deDe)) (deStartCluster target.deDe) := by
  by_cases settled : SettledAtOnce source target
  · obtain ⟨error, returns, -⟩ := doscheckpath_of_settled settled
    exact iff_of_true ⟨0, error, returns 0⟩ (.inl settled)
  · rw [or_iff_right settled, ← acc_iff_not_cyclic (finite_climbs volume _ target.deDe)]
    constructor
    · rintro ⟨rounds, error, returns⟩
      rw [doscheckpath_of_not_settled settled, map_eq_some_iff] at returns
      obtain ⟨result, breaks, -⟩ := returns
      exact (acc_of_checkLoop rounds target result breaks).1
    · intro ends
      obtain ⟨rounds, result, breaks⟩ := checkLoop_of_acc ends target rfl
      exact ⟨rounds, _, by rw [doscheckpath_of_not_settled settled, breaks]; rfl⟩

/-- A directory entry named `..` with a first cluster. -/
def entryOf (cluster : Byte) (offset : Nat) : Byte :=
  if offset < 2 then 46 else if offset < 11 then 32 else if offset = 11 then 0x10
  else if offset = 26 then cluster else 0

def twoDirectories (parent5 parent6 : Byte) : MountedVolume where
  lgeterror _ := none
  pvp :=
    { vfsFatblk := 1, vfsFatsecs := 1, vfsFats := 2, vfsRootdirblk := 3, vfsRootdirsize := 1
      vfsFirstcluster := 4, vfsSectPerClust := 1, vfsCnshift := 9, vfsCrbomask := 511
      vfsBpcluster := 512, vfsRdonly := false, vfsMaxcluster := 20, vfsFreeclustercount := 0
      vfsInusemap := fun _ => 0
      device := fun address =>
        entryOf (if address < 4096 then parent5 else parent6) (address % 512 - 32) }
  cached := []
  dfreeh := some ⟨false, 0, 0, 0, fun _ => 0, fun _ => ⟨0, 0⟩⟩

def directoryAt (cluster : Byte) : Denode := ⟨false, 0, 0, 0, entryOf cluster, fun _ => ⟨0, 0⟩⟩

example : doscheckpath (twoDirectories 6 0) (directoryAt 6) (directoryAt 5) (entryOf 5) 3 =
    some (some EINVAL) := by decide

example : doscheckpath (twoDirectories 6 0) (directoryAt 9) (directoryAt 5) (entryOf 5) 3 =
    some none := by decide

theorem climbs_twoDirectories (parent5 parent6 : Byte) (source cluster parent : Nat)
    (entry : isDotdot ((twoDirectories parent5 parent6).pvp.device.view
      (blockAddress (cntobn (twoDirectories parent5 parent6).pvp cluster) + direntrySize)))
    (leads : deStartCluster ((twoDirectories parent5 parent6).pvp.device.view
      (blockAddress (cntobn (twoDirectories parent5 parent6).pvp cluster) + direntrySize)) = parent)
    (other : parent ≠ source) (notRoot : parent ≠ dosfsRoot) :
    Climbs (twoDirectories parent5 parent6) source cluster parent := by
  refine ⟨⟨_, ?_, leads⟩, other, notRoot, .inl rfl⟩
  have readable : lbreadErrors (twoDirectories parent5 parent6).lgeterror
      (cntobn (twoDirectories parent5 parent6).pvp cluster)
      ((twoDirectories parent5 parent6).pvp.vfsBpcluster / vfsBytesPerSec) = none := by
    simp [lbreadErrors, twoDirectories, vfsBytesPerSec]
  rw [dotdot, readable]
  exact if_pos entry

end Uw7.Dosfs
