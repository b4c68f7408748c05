import Uw7.Lib.FirstFit
import Uw7.Dosfs.Denode
import Mathlib.Data.List.Range

namespace Uw7.Dosfs

/-!
# The end of the root directory

The root directory is no chain of clusters.  `pcbmap` from `fs/dosfs/dosfs_fat.c` and the
scan of `dosfs_dirlook` from `fs/dosfs/dosfs_lookup.c` for it; `pcbmap` compares the sectors
before a cluster with all sectors, in a `long`.
-/

open Lib List Nat

def slotEmpty : Nat := 0x00

def slotDeleted : Nat := 0xe5

def attrVolume : Nat := 0x08

def asLong (value : Nat) : Int :=
  if value < 2 ^ 31 then value else value - 2 ^ 32

/-- The sectors of a directory before one of its clusters, in a `u_long`. -/
def sectorsBefore (pvp : DosfsVfs) (findcn : Nat) : Nat := findcn * pvp.vfsSectPerClust % 2 ^ 32

/-- `pcbmap` for the root directory: a block, or nothing for `E2BIG`. -/
def pcbmapRoot (pvp : DosfsVfs) (findcn : Nat) : Option Nat :=
  if asLong (sectorsBefore pvp findcn) > pvp.vfsRootdirsize then
    none
  else
    some ((pvp.vfsRootdirblk + sectorsBefore pvp findcn) % 2 ^ 32)

/-- What a search finds; a position counts the entries before it. -/
inductive LookupResult where
  | found (diroff : Nat)
  | notfound
  | failed (error : Errno)
  deriving DecidableEq

/--
The variables of the search: the blocks that were mapped, the addresses of the entries
that were looked at, the first slot that is free, and `rootreloff`.
-/
structure RootScan where
  blocks : List Nat
  visited : List Nat
  slotoffset : Option Nat
  rootreloff : Nat
  deriving DecidableEq

/-- The start of the search. -/
def RootScan.start : RootScan where
  blocks := []
  visited := []
  slotoffset := none
  rootreloff := 0

section Search

variable (device nm : ByteMemory) (getfreeslot : Bool)

def slotNeverUsed (dep : Nat) : Bool := (device dep).val == slotEmpty

/-- The slot is empty, or its file is deleted. -/
def slotFree (dep : Nat) : Bool := slotNeverUsed device dep || (device dep).val == slotDeleted

/-- The entry is no volume label, and has the name. -/
def entryMatches (dep : Nat) : Bool := (device (dep + 11)).val &&& attrVolume == 0 &&
    (range 11).all fun byte => nm byte == device (dep + byte)

/-- A free slot is remembered, if it is the first one and is asked for. -/
def RootScan.rememberSlot (s : RootScan) : RootScan :=
  if getfreeslot && s.slotoffset.isNone then
    { s with slotoffset := some s.rootreloff }
  else s

/-- An entry is looked at. -/
def RootScan.visit (s : RootScan) (dep : Nat) : RootScan := { s with visited := s.visited ++ [dep] }

/-- The next entry. -/
def RootScan.next (s : RootScan) : RootScan := { s with rootreloff := s.rootreloff + 1 }

/-- The inner loop of `dosfs_dirlook`, with `entries` to go. -/
def scanEntries : Nat → Nat → RootScan → Option LookupResult × RootScan
  | 0, _, s => (none, s)
  | entries + 1, dep, s =>
    let s := s.visit dep
    if slotFree device dep then
      let s := s.rememberSlot getfreeslot
      if slotNeverUsed device dep then
        (some .notfound, s)
      else
        scanEntries entries (dep + direntrySize) s.next
    else if entryMatches device nm dep then
      (some (.found s.rootreloff), s)
    else
      scanEntries entries (dep + direntrySize) s.next

/-- The entries to look at in a cluster of the root directory. -/
def rootEntries (pvp : DosfsVfs) : Nat :=
  if pvp.vfsSectPerClust > pvp.vfsRootdirsize then
    pvp.vfsRootdirsize * vfsBytesPerSec / direntrySize
  else
    pvp.vfsBpcluster / direntrySize

end Search

/-- The outer loop, which is given up after `fuel` rounds. -/
def scanClusters (lgeterror : Nat → Option Errno) (pvp : DosfsVfs) (nm : ByteMemory)
    (getfreeslot : Bool) : Nat → Nat → RootScan → Option LookupResult × RootScan
  | 0, _, s => (none, s)
  | fuel + 1, frcn, s =>
    match pcbmapRoot pvp frcn with
    | none => (some .notfound, s)
    | some bn =>
      let s := { s with blocks := s.blocks ++ [bn] }
      match lbreadErrors lgeterror bn (pvp.vfsBpcluster / vfsBytesPerSec) with
      | some error => (some (.failed error), s)
      | none =>
        match scanEntries pvp.device nm getfreeslot (rootEntries pvp) (blockAddress bn) s with
        | (some result, s) => (some result, s)
        | (none, s) => scanClusters lgeterror pvp nm getfreeslot fuel (frcn + 1) s

/-- The search of `dosfs_dirlook` in the root directory. -/
def scanRoot (lgeterror : Nat → Option Errno) (pvp : DosfsVfs) (nm : ByteMemory)
    (getfreeslot : Bool) : Option LookupResult × RootScan :=
  scanClusters lgeterror pvp nm getfreeslot (pvp.vfsRootdirsize + 2) 0 .start

/-- A volume as the mount finds it, with its root directory of fixed size. -/
structure RootVolume where
  pvp : DosfsVfs
  rootDirEnts : Nat
  ents : rootDirEnts < 2 ^ 16
  size : pvp.vfsRootdirsize = rootDirEnts * direntrySize / vfsBytesPerSec
  cluster : 0 < pvp.vfsSectPerClust
  clusterByte : pvp.vfsSectPerClust < 2 ^ 8
  bytes : pvp.vfsBpcluster = pvp.vfsSectPerClust * vfsBytesPerSec
  fits : pvp.vfsRootdirblk + pvp.vfsRootdirsize < 2 ^ 32

namespace RootVolume

variable (volume : RootVolume)

/-- A block of the root directory. -/
def InRoot (bn : Nat) : Prop := volume.pvp.vfsRootdirblk ≤ bn ∧
    bn < volume.pvp.vfsRootdirblk + volume.pvp.vfsRootdirsize

def slots : Nat := volume.pvp.vfsRootdirsize * (vfsBytesPerSec / direntrySize)

def slotAt (slot : Nat) : Nat := blockAddress volume.pvp.vfsRootdirblk + slot * direntrySize

def NeverUsed (slot : Nat) : Prop := slotNeverUsed volume.pvp.device (volume.slotAt slot) = true

/-- The slot has an entry with the name. -/
def Matches (nm : ByteMemory) (slot : Nat) : Prop :=
  slotFree volume.pvp.device (volume.slotAt slot) = false ∧
    entryMatches volume.pvp.device nm (volume.slotAt slot) = true

/--
The slots in use: all slots of the root directory, or those up to the first one that has
never been used, and that one.
-/
def UsedSlots (number : Nat) : Prop := number ≤ volume.slots ∧
    (number = volume.slots ∨ 0 < number ∧ volume.NeverUsed (number - 1)) ∧
    ∀ slot, slot + 1 < number → ¬volume.NeverUsed slot

end RootVolume

/--
A search maps blocks of the root directory and looks at its entries only.  It ends with
an entry of the root directory, or without one, after it has looked at each slot in use
once.
-/
structure SearchesRoot (volume : RootVolume) (nm : ByteMemory)
    (outcome : Option LookupResult × RootScan) : Prop where
  ends : outcome.1 ≠ none
  blocks : ∀ bn, bn ∈ outcome.2.blocks → volume.InRoot bn
  visited : ∀ dep, dep ∈ outcome.2.visited → ∃ slot, slot < volume.slots ∧ dep = volume.slotAt slot
  free : ∀ slot, outcome.2.slotoffset = some slot → slot < volume.slots
  found : ∀ slot, outcome.1 = some (.found slot) → slot < volume.slots ∧ volume.Matches nm slot
  absent : outcome.1 = some .notfound → ∃ number, volume.UsedSlots number ∧
      outcome.2.visited = (range number).map volume.slotAt ∧
      ∀ slot, slot < number → ¬volume.Matches nm slot

inductive RootCall where
  | pcbmap (findcn : Nat)
  | lookup (lgeterror : Nat → Option Errno) (nm : ByteMemory) (getfreeslot : Bool)

def RootCall.StaysInRoot (volume : RootVolume) : RootCall → Prop
  | .pcbmap findcn => ∀ bn, pcbmapRoot volume.pvp findcn = some bn → volume.InRoot bn
  | .lookup lgeterror nm getfreeslot =>
    SearchesRoot volume nm (scanRoot lgeterror volume.pvp nm getfreeslot)

namespace RootVolume

variable {volume : RootVolume}

theorem size_lt (volume : RootVolume) : volume.pvp.vfsRootdirsize < 2 ^ 12 := by
  have ents := volume.ents
  have size := volume.size
  unfold direntrySize vfsBytesPerSec at size
  omega

theorem slots_eq (volume : RootVolume) : volume.slots = volume.pvp.vfsRootdirsize * 16 := rfl

theorem pcbmapRoot_eq (volume : RootVolume) (findcn : Nat) : pcbmapRoot volume.pvp findcn =
    if volume.pvp.vfsRootdirsize < sectorsBefore volume.pvp findcn ∧
      sectorsBefore volume.pvp findcn < 2 ^ 31 then
      none
    else
      some ((volume.pvp.vfsRootdirblk + sectorsBefore volume.pvp findcn) % 2 ^ 32) := by
  have small : sectorsBefore volume.pvp findcn < 2 ^ 32 := mod_lt _ (by decide)
  refine if_congr ?_ rfl rfl
  unfold asLong
  split <;> omega

theorem pcbmapRoot_stays_iff (volume : RootVolume) (findcn : Nat) :
    (∀ bn, pcbmapRoot volume.pvp findcn = some bn → volume.InRoot bn) ↔
      sectorsBefore volume.pvp findcn ≠ volume.pvp.vfsRootdirsize ∧
        sectorsBefore volume.pvp findcn < 2 ^ 31 := by
  have size := volume.size_lt
  have fits := volume.fits
  have small : sectorsBefore volume.pvp findcn < 2 ^ 32 := mod_lt _ (by decide)
  rw [volume.pcbmapRoot_eq]
  unfold InRoot
  split
  next beyond =>
    refine ⟨fun _ => ⟨by omega, beyond.2⟩, fun _ bn isBlock => ?_⟩
    cases isBlock
  next within =>
    constructor
    · intro stays
      have inRoot := stays _ rfl
      omega
    · intro bounded bn isBlock
      rw [← Option.some.inj isBlock]
      omega

theorem pcbmapRoot_of_le {frcn : Nat} (within :
    frcn * volume.pvp.vfsSectPerClust ≤ volume.pvp.vfsRootdirsize) :
    pcbmapRoot volume.pvp frcn = some
      (volume.pvp.vfsRootdirblk + frcn * volume.pvp.vfsSectPerClust) := by
  have fits := volume.fits
  have sectors : sectorsBefore volume.pvp frcn = frcn * volume.pvp.vfsSectPerClust :=
    mod_eq_of_lt (by omega)
  rw [volume.pcbmapRoot_eq, sectors, if_neg (by omega), mod_eq_of_lt (by omega)]

theorem pcbmapRoot_of_gt {frcn : Nat} (beyond :
    volume.pvp.vfsRootdirsize < frcn * volume.pvp.vfsSectPerClust)
    (near : frcn * volume.pvp.vfsSectPerClust ≤
      volume.pvp.vfsRootdirsize + volume.pvp.vfsSectPerClust) :
    pcbmapRoot volume.pvp frcn = none := by
  have size := volume.size_lt
  have byte := volume.clusterByte
  have sectors : sectorsBefore volume.pvp frcn = frcn * volume.pvp.vfsSectPerClust :=
    mod_eq_of_lt (by omega)
  rw [volume.pcbmapRoot_eq, sectors, if_pos (by omega)]

end RootVolume

/-- The search has looked at the slots in their order, and not found anything. -/
structure ScanAt (volume : RootVolume) (s : RootScan) (slot : Nat) : Prop where
  reloff : s.rootreloff = slot
  visited : s.visited = (range slot).map volume.slotAt
  free : ∀ other, s.slotoffset = some other → other < slot

/-- What a slot makes of the search. -/
def RootVolume.Stops (volume : RootVolume) (nm : ByteMemory) (slot : Nat) : Prop :=
  volume.NeverUsed slot ∨ volume.Matches nm slot

structure StoppedAt (volume : RootVolume) (nm : ByteMemory)
    (outcome : Option LookupResult × RootScan) (slot : Nat) : Prop where
  result : outcome.1 = some .notfound ∧ volume.NeverUsed slot ∨
      outcome.1 = some (.found slot) ∧ volume.Matches nm slot
  visited : outcome.2.visited = (range (slot + 1)).map volume.slotAt
  free : ∀ other, outcome.2.slotoffset = some other → other ≤ slot

section Entries

variable {volume : RootVolume} {nm : ByteMemory} {getfreeslot : Bool}
  {s : RootScan} {slot count : Nat}

theorem ScanAt.visit (at_ : ScanAt volume s slot) : (s.visit (volume.slotAt slot)).visited =
    (range (slot + 1)).map volume.slotAt := by
  rw [range_succ, map_append, ← at_.visited]
  rfl

theorem ScanAt.remember (at_ : ScanAt volume s slot) (dep other : Nat) (remembered :
    ((s.visit dep).rememberSlot getfreeslot).slotoffset = some other) : other ≤ slot := by
  unfold RootScan.rememberSlot at remembered
  split at remembered
  · rw [← Option.some.inj remembered]
    exact Nat.le_of_eq at_.reloff
  · exact Nat.le_of_lt (at_.free other remembered)

@[simp] theorem rememberSlot_visited (s : RootScan) :
    (s.rememberSlot getfreeslot).visited = s.visited := by
  unfold RootScan.rememberSlot
  split <;> rfl

@[simp] theorem rememberSlot_rootreloff (s : RootScan) :
    (s.rememberSlot getfreeslot).rootreloff = s.rootreloff := by
  unfold RootScan.rememberSlot
  split <;> rfl

@[simp] theorem rememberSlot_blocks (s : RootScan) :
    (s.rememberSlot getfreeslot).blocks = s.blocks := by
  unfold RootScan.rememberSlot
  split <;> rfl

theorem ScanAt.next (at_ : ScanAt volume s slot) (remember : Bool) : ScanAt volume (if remember then
    ((s.visit (volume.slotAt slot)).rememberSlot getfreeslot).next
    else (s.visit (volume.slotAt slot)).next) (slot + 1) := by
  cases remember with
  | false =>
    refine ⟨congrArg (· + 1) at_.reloff, at_.visit, fun other isFree => ?_⟩
    exact lt_succ_of_lt (at_.free other isFree)
  | true =>
    refine ⟨?_, ?_, fun other isFree => ?_⟩
    · simp only [if_true, RootScan.next, rememberSlot_rootreloff]
      exact congrArg (· + 1) at_.reloff
    · simp only [if_true, RootScan.next, rememberSlot_visited]
      exact at_.visit
    · exact lt_succ_of_le (at_.remember (volume.slotAt slot) other isFree)

theorem RootVolume.slotAt_succ (volume : RootVolume) (slot : Nat) :
    volume.slotAt slot + direntrySize = volume.slotAt (slot + 1) := by
  rw [slotAt, slotAt, succ_mul, Nat.add_assoc]

theorem scanEntries_succ (at_ : ScanAt volume s slot) : (StoppedAt volume nm
    (scanEntries volume.pvp.device nm getfreeslot (count + 1) (volume.slotAt slot) s) slot ∧
    (scanEntries volume.pvp.device nm getfreeslot (count + 1)
      (volume.slotAt slot) s).2.blocks = s.blocks ∧
    volume.Stops nm slot) ∨
    ∃ s', ScanAt volume s' (slot + 1) ∧ s'.blocks = s.blocks ∧ ¬volume.Stops nm slot ∧
      scanEntries volume.pvp.device nm getfreeslot (count + 1) (volume.slotAt slot) s =
        scanEntries volume.pvp.device nm getfreeslot count (volume.slotAt (slot + 1)) s' := by
  rw [scanEntries]
  by_cases isFree : slotFree volume.pvp.device (volume.slotAt slot) = true
  · by_cases neverUsed : volume.NeverUsed slot
    · left
      have neverUsed' := neverUsed
      unfold RootVolume.NeverUsed at neverUsed'
      simp only [isFree, neverUsed', if_true]
      refine ⟨⟨.inl ⟨rfl, neverUsed⟩, ?_, ?_⟩, ?_, .inl neverUsed⟩
      · rw [rememberSlot_visited]
        exact at_.visit
      · exact at_.remember (volume.slotAt slot)
      · rw [rememberSlot_blocks]
        rfl
    · right
      refine ⟨_, @ScanAt.next volume getfreeslot s slot at_ true, ?_, ?_, ?_⟩
      · simp only [if_true, RootScan.next, rememberSlot_blocks]
        rfl
      · rintro (isEmpty | ⟨notFree, -⟩)
        · exact neverUsed isEmpty
        · rw [isFree] at notFree
          cases notFree
      · unfold RootVolume.NeverUsed at neverUsed
        simp only [isFree, neverUsed, if_true, if_false, volume.slotAt_succ, Bool.false_eq_true]
  · have notEmpty : ¬volume.NeverUsed slot := by
      intro neverUsed
      rw [slotFree, neverUsed, Bool.true_or] at isFree
      exact isFree rfl
    by_cases isMatch : entryMatches volume.pvp.device nm (volume.slotAt slot) = true
    · left
      have isMatch' : volume.Matches nm slot := ⟨Bool.eq_false_iff.mpr isFree, isMatch⟩
      simp only [isFree, isMatch, if_true, if_false, Bool.false_eq_true]
      refine ⟨⟨.inr ⟨?_, isMatch'⟩, at_.visit, ?_⟩, rfl, .inr isMatch'⟩
      · rw [← at_.reloff]
        rfl
      · exact fun other remembered => Nat.le_of_lt (at_.free other remembered)
    · right
      refine ⟨_, @ScanAt.next volume getfreeslot s slot at_ false, rfl, ?_, ?_⟩
      · rintro (isEmpty | ⟨-, doesMatch⟩)
        · exact notEmpty isEmpty
        · exact isMatch doesMatch
      · simp only [isFree, isMatch, if_false, volume.slotAt_succ, Bool.false_eq_true]

theorem scanEntries_stops {stop : Nat} (at_ : ScanAt volume s slot) (later : slot ≤ stop)
    (inside : stop < slot + count) (stops : volume.Stops nm stop)
    (first : ∀ other, slot ≤ other → other < stop → ¬volume.Stops nm other) :
    StoppedAt volume nm (scanEntries volume.pvp.device nm getfreeslot count
      (volume.slotAt slot) s) stop ∧
      (scanEntries volume.pvp.device nm getfreeslot count
        (volume.slotAt slot) s).2.blocks = s.blocks := by
  induction count generalizing slot s with
  | zero => omega
  | succ count ih =>
    rcases @scanEntries_succ volume nm getfreeslot s slot count at_ with
      ⟨stopped, sameBlocks, stopsHere⟩ | ⟨s', next, sameBlocks, goesOn, same⟩
    · have isFirst : stop = slot := by
        by_contra notFirst
        exact first slot (Nat.le_refl _) (by omega) stopsHere
      rw [isFirst]
      exact ⟨stopped, sameBlocks⟩
    · have notHere : stop ≠ slot := by
        rintro rfl
        exact goesOn stops
      rw [same, ← sameBlocks]
      exact ih next (by omega) (by omega) fun other notBefore before =>
        first other (by omega) before

theorem scanEntries_passes (at_ : ScanAt volume s slot) (passes :
    ∀ other, slot ≤ other → other < slot + count → ¬volume.Stops nm other) :
    ∃ s', scanEntries volume.pvp.device nm getfreeslot count (volume.slotAt slot) s = (none, s') ∧
      ScanAt volume s' (slot + count) ∧ s'.blocks = s.blocks := by
  induction count generalizing slot s with
  | zero => exact ⟨s, rfl, at_, rfl⟩
  | succ count ih =>
    rcases @scanEntries_succ volume nm getfreeslot s slot count at_ with
      ⟨-, -, stopsHere⟩ | ⟨s', next, sameBlocks, -, same⟩
    · exact absurd stopsHere (passes slot (Nat.le_refl _) (by omega))
    · rw [same, ← sameBlocks, show slot + (count + 1) = slot + 1 + count by
        omega]
      exact ih next fun other notBefore before => passes other (by omega) (by omega)

theorem scanEntries_blocks (device : ByteMemory) (dep : Nat) (s : RootScan) :
    (scanEntries device nm getfreeslot count dep s).2.blocks = s.blocks := by
  induction count generalizing dep s with
  | zero => rfl
  | succ count ih =>
    rw [scanEntries]
    split
    · split
      · rw [rememberSlot_blocks]
        rfl
      · rw [ih, RootScan.next, rememberSlot_blocks]
        rfl
    · split
      · rfl
      · exact ih _ _

end Entries

section Clusters

variable {volume : RootVolume} {lgeterror : Nat → Option Errno}
  {nm : ByteMemory} {getfreeslot : Bool} {s : RootScan}
  {fuel frcn : Nat}

theorem RootVolume.slotAt_inj {slot other : Nat} (same : volume.slotAt slot = volume.slotAt other) :
    slot = other := by
  unfold RootVolume.slotAt direntrySize at same
  omega

theorem SearchesRoot.of_stopped {outcome : Option LookupResult × RootScan} {stop : Nat}
    (stopped : StoppedAt volume nm outcome stop) (inside : stop < volume.slots)
    (blocks : ∀ bn, bn ∈ outcome.2.blocks → volume.InRoot bn)
    (first : ∀ slot, slot < stop → ¬volume.Stops nm slot) : SearchesRoot volume nm outcome where
  ends := by
    rcases stopped.result with ⟨isResult, -⟩ | ⟨isResult, -⟩
    · rw [isResult]
      exact Option.some_ne_none _
    · rw [isResult]
      exact Option.some_ne_none _
  blocks := blocks
  visited := by
    intro dep isVisited
    rw [stopped.visited, mem_map] at isVisited
    obtain ⟨slot, inRange, isSlot⟩ := isVisited
    rw [mem_range] at inRange
    exact ⟨slot, by omega, isSlot.symm⟩
  free := by
    intro slot isFree
    exact Nat.lt_of_le_of_lt (stopped.free slot isFree) inside
  found := by
    intro slot isFound
    rcases stopped.result with ⟨isResult, -⟩ | ⟨isResult, doesMatch⟩
    · rw [isResult] at isFound
      cases isFound
    · rw [isResult] at isFound
      cases isFound
      exact ⟨inside, doesMatch⟩
  absent := by
    intro isAbsent
    rcases stopped.result with ⟨-, neverUsed⟩ | ⟨isResult, -⟩
    · refine ⟨stop + 1, ⟨inside, .inr ⟨by omega, neverUsed⟩, ?_⟩, stopped.visited, ?_⟩
      · intro slot before isEmpty
        exact first slot (by omega) (.inl isEmpty)
      · intro slot before doesMatch
        by_cases isStop : slot = stop
        · rw [isStop] at doesMatch
          have notFree := doesMatch.1
          rw [slotFree, neverUsed, Bool.true_or] at notFree
          cases notFree
        · exact first slot (by omega) (.inr doesMatch)
    · rw [isResult] at isAbsent
      cases isAbsent

theorem SearchesRoot.of_scanAt {result : LookupResult} {slot : Nat} (at_ : ScanAt volume s slot)
    (inside : slot ≤ volume.slots) (blocks : ∀ bn, bn ∈ s.blocks → volume.InRoot bn)
    (notFound : ∀ other, result ≠ .found other) (absent : result = .notfound → slot = volume.slots ∧
      ∀ other, other < slot → ¬volume.Stops nm other) :
    SearchesRoot volume nm (some result, s) where
  ends := Option.some_ne_none _
  blocks := blocks
  visited := by
    intro dep isVisited
    rw [at_.visited, mem_map] at isVisited
    obtain ⟨other, inRange, isSlot⟩ := isVisited
    rw [mem_range] at inRange
    exact ⟨other, by omega, isSlot.symm⟩
  free := by
    intro other isFree
    exact Nat.lt_of_lt_of_le (at_.free other isFree) inside
  found := by
    intro other isFound
    exact absurd (Option.some.inj isFound) (notFound other)
  absent := by
    intro isAbsent
    obtain ⟨isAll, noStop⟩ := absent (Option.some.inj isAbsent)
    refine ⟨slot, ⟨inside, .inl isAll, ?_⟩, at_.visited, ?_⟩
    · intro other before isEmpty
      exact noStop other (by omega) (.inl isEmpty)
    · intro other before doesMatch
      exact noStop other before (.inr doesMatch)

/-- A cluster of the root directory is not readable. -/
def RootVolume.Unreadable (volume : RootVolume) (lgeterror : Nat → Option Errno)
    (frcn : Nat) : Prop :=
  lbreadErrors lgeterror (volume.pvp.vfsRootdirblk + frcn * volume.pvp.vfsSectPerClust)
    volume.pvp.vfsSectPerClust ≠ none

theorem RootVolume.bpcluster_div (volume : RootVolume) : volume.pvp.vfsBpcluster / vfsBytesPerSec =
      volume.pvp.vfsSectPerClust := by
  rw [volume.bytes]
  exact Nat.mul_div_cancel _ (by decide)

theorem RootVolume.slotAt_cluster (volume : RootVolume) (sectors : Nat) :
    blockAddress (volume.pvp.vfsRootdirblk + sectors) = volume.slotAt (sectors * 16) := by
  simp only [blockAddress, RootVolume.slotAt, vfsBytesPerSec, direntrySize]
  omega

theorem RootVolume.rootEntries_eq (volume : RootVolume) : rootEntries volume.pvp =
    if volume.pvp.vfsSectPerClust > volume.pvp.vfsRootdirsize then
      volume.slots
    else volume.pvp.vfsSectPerClust * 16 := by
  unfold rootEntries RootVolume.slots
  split
  · simp only [vfsBytesPerSec, direntrySize]
    omega
  · rw [bytes]
    simp only [vfsBytesPerSec, direntrySize]
    omega

/-- The variables once a cluster is mapped. -/
def RootScan.mapped (volume : RootVolume) (s : RootScan) (frcn : Nat) : RootScan :=
  { s with
    blocks := s.blocks ++ [volume.pvp.vfsRootdirblk + frcn * volume.pvp.vfsSectPerClust] }

theorem scanClusters_unreadable (within :
    frcn * volume.pvp.vfsSectPerClust ≤ volume.pvp.vfsRootdirsize)
    (unreadable : volume.Unreadable lgeterror frcn) :
    ∃ error, scanClusters lgeterror volume.pvp nm getfreeslot (fuel + 1) frcn s =
      (some (.failed error), s.mapped volume frcn) := by
  obtain ⟨error, isError⟩ := Option.ne_none_iff_exists'.mp unreadable
  refine ⟨error, ?_⟩
  rw [scanClusters, RootVolume.pcbmapRoot_of_le within]
  simp only [volume.bpcluster_div, isError]
  rfl

theorem scanClusters_readable (within :
    frcn * volume.pvp.vfsSectPerClust ≤ volume.pvp.vfsRootdirsize)
    (readable : ¬volume.Unreadable lgeterror frcn) :
    scanClusters lgeterror volume.pvp nm getfreeslot (fuel + 1) frcn s =
      match scanEntries volume.pvp.device nm getfreeslot (rootEntries volume.pvp)
        (volume.slotAt (frcn * volume.pvp.vfsSectPerClust * 16)) (s.mapped volume frcn)
      with
      | (some result, s) => (some result, s)
      | (none, s) => scanClusters lgeterror volume.pvp nm getfreeslot fuel (frcn + 1) s := by
  have noError := not_not.mp readable
  rw [scanClusters, RootVolume.pcbmapRoot_of_le within]
  simp only [volume.bpcluster_div, noError, volume.slotAt_cluster]
  rfl

theorem ScanAt.mapped {slot : Nat} (at_ : ScanAt volume s slot) (frcn : Nat) :
    ScanAt volume (s.mapped volume frcn) slot :=
  ⟨at_.reloff, at_.visited, at_.free⟩

theorem scanClusters_stops {stop : Nat} (at_ :
    ScanAt volume s (frcn * volume.pvp.vfsSectPerClust * 16))
    (within : frcn * volume.pvp.vfsSectPerClust ≤ volume.pvp.vfsRootdirsize)
    (readable : ¬volume.Unreadable lgeterror frcn)
    (later : frcn * volume.pvp.vfsSectPerClust * 16 ≤ stop)
    (inside : stop < frcn * volume.pvp.vfsSectPerClust * 16 + rootEntries volume.pvp)
    (stops : volume.Stops nm stop)
    (first : ∀ other, frcn * volume.pvp.vfsSectPerClust * 16 ≤ other →
      other < stop → ¬volume.Stops nm other) :
    StoppedAt volume nm (scanClusters lgeterror volume.pvp nm getfreeslot (fuel + 1) frcn s) stop ∧
      (scanClusters lgeterror volume.pvp nm getfreeslot (fuel + 1) frcn
        s).2.blocks = (s.mapped volume frcn).blocks := by
  obtain ⟨stopped, sameBlocks⟩ :=
    @scanEntries_stops volume nm getfreeslot _ _ _ stop (at_.mapped frcn) later inside stops first
  rw [scanClusters_readable within readable]
  generalize scanEntries volume.pvp.device nm getfreeslot (rootEntries volume.pvp)
    (volume.slotAt (frcn * volume.pvp.vfsSectPerClust * 16))
    (s.mapped volume frcn) = outcome at stopped sameBlocks
  obtain ⟨result, s'⟩ := outcome
  cases result with
  | none =>
    rcases stopped.result with ⟨isResult, -⟩ | ⟨isResult, -⟩ <;> cases isResult
  | some result => exact ⟨stopped, sameBlocks⟩

theorem scanClusters_passes (at_ : ScanAt volume s (frcn * volume.pvp.vfsSectPerClust * 16))
    (within : frcn * volume.pvp.vfsSectPerClust ≤ volume.pvp.vfsRootdirsize)
    (readable : ¬volume.Unreadable lgeterror frcn)
    (passes : ∀ other, frcn * volume.pvp.vfsSectPerClust * 16 ≤ other → other <
      frcn * volume.pvp.vfsSectPerClust * 16 + rootEntries volume.pvp → ¬volume.Stops nm other) :
    ∃ s', ScanAt volume s' (frcn * volume.pvp.vfsSectPerClust * 16 + rootEntries volume.pvp) ∧
      s'.blocks = (s.mapped volume frcn).blocks ∧
      scanClusters lgeterror volume.pvp nm getfreeslot (fuel + 1) frcn s =
        scanClusters lgeterror volume.pvp nm getfreeslot fuel (frcn + 1) s' := by
  obtain ⟨s', same, next, sameBlocks⟩ :=
    @scanEntries_passes volume nm getfreeslot _ _ _ (at_.mapped frcn) passes
  refine ⟨s', next, sameBlocks, ?_⟩
  rw [scanClusters_readable within readable, same]

theorem mem_scanClusters_blocks {bn : Nat} (isMapped : bn ∈ s.blocks) : bn ∈
    (scanClusters lgeterror volume.pvp nm getfreeslot fuel frcn s).2.blocks := by
  induction fuel generalizing frcn s with
  | zero => exact isMapped
  | succ fuel ih =>
    rw [scanClusters]
    split
    next => exact isMapped
    next block _ =>
      have stillMapped : bn ∈ s.blocks ++ [block] := mem_append_left _ isMapped
      dsimp only
      split
      next => exact stillMapped
      next =>
        have sameBlocks := @scanEntries_blocks nm getfreeslot
            (rootEntries volume.pvp) volume.pvp.device (blockAddress block)
            { s with blocks := s.blocks ++ [block] }
        split
        next result s' isOutcome =>
          rw [isOutcome] at sameBlocks
          rw [sameBlocks]
          exact stillMapped
        next s' isOutcome =>
          rw [isOutcome] at sameBlocks
          refine ih ?_
          rw [sameBlocks]
          exact stillMapped

theorem cluster_mem_blocks (within :
    frcn * volume.pvp.vfsSectPerClust ≤ volume.pvp.vfsRootdirsize) :
    volume.pvp.vfsRootdirblk + frcn * volume.pvp.vfsSectPerClust ∈
      (scanClusters lgeterror volume.pvp nm getfreeslot (fuel + 1) frcn s).2.blocks := by
  have isMapped : volume.pvp.vfsRootdirblk + frcn * volume.pvp.vfsSectPerClust ∈
      (s.mapped volume frcn).blocks :=
    mem_append_right _ (mem_singleton_self _)
  by_cases unreadable : volume.Unreadable lgeterror frcn
  · obtain ⟨error, fails⟩ := @scanClusters_unreadable volume lgeterror nm getfreeslot s fuel frcn
      within unreadable
    rw [fails]
    exact isMapped
  · have sameBlocks := @scanEntries_blocks nm getfreeslot (rootEntries volume.pvp) volume.pvp.device
        (volume.slotAt (frcn * volume.pvp.vfsSectPerClust * 16)) (s.mapped volume frcn)
    rw [scanClusters_readable within unreadable]
    split
    next result s' isOutcome =>
      rw [isOutcome] at sameBlocks
      rw [sameBlocks]
      exact isMapped
    next s' isOutcome =>
      rw [isOutcome] at sameBlocks
      refine mem_scanClusters_blocks ?_
      rw [sameBlocks]
      exact isMapped

/-- The search ends in the root directory. -/
def RootVolume.EndsInRoot (volume : RootVolume) (lgeterror : Nat → Option Errno)
    (nm : ByteMemory) : Prop :=
  (∃ frcn, frcn * volume.pvp.vfsSectPerClust < volume.pvp.vfsRootdirsize ∧
      volume.Unreadable lgeterror frcn) ∨
    ∃ slot, slot < volume.slots ∧ volume.Stops nm slot

theorem RootVolume.mapped_inRoot (blocks : ∀ bn, bn ∈ s.blocks → volume.InRoot bn) (inside :
    frcn * volume.pvp.vfsSectPerClust < volume.pvp.vfsRootdirsize) (bn : Nat)
    (isMapped : bn ∈ (s.mapped volume frcn).blocks) : volume.InRoot bn := by
  cases mem_append.mp isMapped with
  | inl before => exact blocks bn before
  | inr isNew =>
    rw [mem_singleton.mp isNew]
    exact ⟨by omega, by omega⟩

theorem SearchesRoot.of_unreadable (at_ : ScanAt volume s (frcn * volume.pvp.vfsSectPerClust * 16))
    (blocks : ∀ bn, bn ∈ s.blocks → volume.InRoot bn)
    (inside : frcn * volume.pvp.vfsSectPerClust < volume.pvp.vfsRootdirsize)
    (unreadable : volume.Unreadable lgeterror frcn) :
    SearchesRoot volume nm (scanClusters lgeterror volume.pvp nm getfreeslot (fuel + 1) frcn
      s) := by
  have slots := volume.slots_eq
  obtain ⟨error, fails⟩ := @scanClusters_unreadable volume lgeterror nm getfreeslot s fuel frcn
    (Nat.le_of_lt inside) unreadable
  rw [fails]
  refine SearchesRoot.of_scanAt (at_.mapped frcn) (by omega)
    (RootVolume.mapped_inRoot blocks inside) (fun _ => ?_) ?_
  · intro isFound
    cases isFound
  · intro isAbsent
    cases isAbsent

/-- From a cluster on, the search ends in the root directory. -/
def RootVolume.EndsFrom (volume : RootVolume) (lgeterror : Nat → Option Errno) (nm : ByteMemory)
    (frcn : Nat) : Prop :=
  (∃ later, frcn ≤ later ∧ later * volume.pvp.vfsSectPerClust < volume.pvp.vfsRootdirsize ∧
    volume.Unreadable lgeterror later) ∨
  ∃ slot, frcn * volume.pvp.vfsSectPerClust * 16 ≤ slot ∧ slot < volume.slots ∧ volume.Stops nm slot

theorem RootVolume.EndsFrom.inside (ends : volume.EndsFrom lgeterror nm frcn) :
    frcn * volume.pvp.vfsSectPerClust < volume.pvp.vfsRootdirsize := by
  have slots := volume.slots_eq
  rcases ends with ⟨later, notBefore, inside, -⟩ | ⟨slot, later, inside, -⟩
  · exact Nat.lt_of_le_of_lt (Nat.mul_le_mul_right _ notBefore) inside
  · omega

theorem RootVolume.nextCluster (volume : RootVolume) (frcn : Nat) :
    (frcn + 1) * volume.pvp.vfsSectPerClust * 16 = frcn * volume.pvp.vfsSectPerClust * 16 +
      volume.pvp.vfsSectPerClust * 16 := by
  rw [succ_mul, Nat.add_mul]

theorem RootVolume.EndsFrom.next (ends : volume.EndsFrom lgeterror nm frcn)
    (readable : ¬volume.Unreadable lgeterror frcn)
    (passes : ∀ slot, frcn * volume.pvp.vfsSectPerClust * 16 ≤ slot → slot <
      frcn * volume.pvp.vfsSectPerClust * 16 + volume.pvp.vfsSectPerClust * 16 →
      ¬volume.Stops nm slot) :
    volume.EndsFrom lgeterror nm (frcn + 1) := by
  have nextCluster := volume.nextCluster frcn
  rcases ends with
    ⟨other, notBefore, inside, unreadable⟩ | ⟨slot, later, inside, stops⟩
  · have notHere : other ≠ frcn := by
      rintro rfl
      exact readable unreadable
    exact .inl ⟨other, by omega, inside, unreadable⟩
  · refine .inr ⟨slot, ?_, inside, stops⟩
    by_contra isHere
    exact passes slot later (by omega) stops

theorem RootVolume.EndsFrom.first_lt {stop : Nat} (ends : volume.EndsFrom lgeterror nm frcn)
    (readable : ¬volume.Unreadable lgeterror frcn)
    (inCluster : stop < frcn * volume.pvp.vfsSectPerClust * 16 + volume.pvp.vfsSectPerClust * 16)
    (first : ∀ other, frcn * volume.pvp.vfsSectPerClust * 16 ≤ other →
      other < stop → ¬volume.Stops nm other) :
    stop < volume.slots := by
  have slots := volume.slots_eq
  have nextCluster := volume.nextCluster frcn
  rcases ends with
    ⟨other, notBefore, inside, unreadable⟩ | ⟨slot, later, inside, stops⟩
  · have notHere : other ≠ frcn := by
      rintro rfl
      exact readable unreadable
    have behind : (frcn + 1) * volume.pvp.vfsSectPerClust ≤ other * volume.pvp.vfsSectPerClust :=
      Nat.mul_le_mul_right _ (by omega)
    omega
  · by_contra outside
    exact first slot later (by omega) stops

theorem scanClusters_searches (narrow : volume.pvp.vfsSectPerClust ≤ volume.pvp.vfsRootdirsize)
    (at_ : ScanAt volume s (frcn * volume.pvp.vfsSectPerClust * 16))
    (blocks : ∀ bn, bn ∈ s.blocks → volume.InRoot bn)
    (before : ∀ slot, slot < frcn * volume.pvp.vfsSectPerClust * 16 → ¬volume.Stops nm slot)
    (ends : volume.EndsFrom lgeterror nm frcn)
    (enough : volume.pvp.vfsRootdirsize ≤ frcn * volume.pvp.vfsSectPerClust + fuel) :
    SearchesRoot volume nm (scanClusters lgeterror volume.pvp nm getfreeslot fuel frcn s) := by
  have cluster := volume.cluster
  have entries : rootEntries volume.pvp = volume.pvp.vfsSectPerClust * 16 := by
    rw [volume.rootEntries_eq, if_neg (by omega)]
  induction fuel generalizing frcn s with
  | zero =>
    have inside := ends.inside
    omega
  | succ fuel ih =>
    have inside := ends.inside
    have nextCluster := volume.nextCluster frcn
    by_cases unreadable : volume.Unreadable lgeterror frcn
    · exact SearchesRoot.of_unreadable at_ blocks inside unreadable
    have passesOrStops := Lib.none_or_first (volume.Stops nm)
        (frcn * volume.pvp.vfsSectPerClust * 16)
        (frcn * volume.pvp.vfsSectPerClust * 16 + rootEntries volume.pvp)
    rcases passesOrStops.symm with
      ⟨stop, later, inCluster, stops, first⟩ | passes
    · obtain ⟨stopped, sameBlocks⟩ :=
        @scanClusters_stops volume lgeterror nm getfreeslot s fuel frcn
          stop at_ (Nat.le_of_lt inside) unreadable later inCluster stops
          first
      rw [entries] at inCluster
      refine SearchesRoot.of_stopped stopped (ends.first_lt unreadable inCluster first) ?_ ?_
      · rw [sameBlocks]
        exact RootVolume.mapped_inRoot blocks inside
      · intro slot isBefore
        by_cases earlier : slot < frcn * volume.pvp.vfsSectPerClust * 16
        · exact before slot earlier
        · exact first slot (by omega) isBefore
    · obtain ⟨s', next, sameBlocks, same⟩ :=
        @scanClusters_passes volume lgeterror nm getfreeslot s fuel frcn
          at_ (Nat.le_of_lt inside) unreadable passes
      rw [entries] at next passes
      rw [← nextCluster] at next
      rw [same]
      refine ih next ?_ ?_ (ends.next unreadable passes) ?_
      · rw [sameBlocks]
        exact RootVolume.mapped_inRoot blocks inside
      · intro slot isBefore
        by_cases earlier : slot < frcn * volume.pvp.vfsSectPerClust * 16
        · exact before slot earlier
        · exact passes slot (by omega) (by omega)
      · omega

theorem SearchesRoot.not_behind {outcome : Option LookupResult × RootScan} {number : Nat} (visited :
    outcome.2.visited = (range number).map volume.slotAt) (behind : volume.slots < number) :
    ¬SearchesRoot volume nm outcome := by
  intro searches
  have isVisited : volume.slotAt volume.slots ∈ outcome.2.visited := by
    rw [visited]
    exact mem_map_of_mem (mem_range.mpr behind)
  obtain ⟨slot, inside, same⟩ := searches.visited _ isVisited
  have isSlot := RootVolume.slotAt_inj same
  omega

theorem SearchesRoot.not_atEnd (atEnd :
    frcn * volume.pvp.vfsSectPerClust = volume.pvp.vfsRootdirsize) :
    ¬SearchesRoot volume nm (scanClusters lgeterror volume.pvp nm getfreeslot (fuel + 1) frcn
      s) := by
  intro searches
  have inRoot := searches.blocks _ (cluster_mem_blocks (Nat.le_of_eq atEnd))
  rw [atEnd] at inRoot
  exact Nat.lt_irrefl _ inRoot.2

theorem scanClusters_overruns (narrow : volume.pvp.vfsSectPerClust ≤ volume.pvp.vfsRootdirsize)
    (at_ : ScanAt volume s (frcn * volume.pvp.vfsSectPerClust * 16))
    (within : frcn * volume.pvp.vfsSectPerClust ≤ volume.pvp.vfsRootdirsize)
    (goesOn : ¬volume.EndsInRoot lgeterror nm)
    (enough : volume.pvp.vfsRootdirsize + 1 < frcn * volume.pvp.vfsSectPerClust + fuel) :
    ¬SearchesRoot volume nm (scanClusters lgeterror volume.pvp nm getfreeslot fuel frcn s) := by
  have cluster := volume.cluster
  have slots := volume.slots_eq
  have entries : rootEntries volume.pvp = volume.pvp.vfsSectPerClust * 16 := by
    rw [volume.rootEntries_eq, if_neg (by omega)]
  have noStop : ∀ slot, slot < volume.slots → ¬volume.Stops nm slot :=
    fun slot inside stops => goesOn (.inr ⟨slot, inside, stops⟩)
  induction fuel generalizing frcn s with
  | zero => omega
  | succ fuel ih =>
    by_cases atEnd : frcn * volume.pvp.vfsSectPerClust = volume.pvp.vfsRootdirsize
    · exact SearchesRoot.not_atEnd atEnd
    have readable : ¬volume.Unreadable lgeterror frcn :=
      fun unreadable => goesOn (.inl ⟨frcn, by omega, unreadable⟩)
    have nextCluster := volume.nextCluster frcn
    have passesOrStops := Lib.none_or_first (volume.Stops nm)
        (frcn * volume.pvp.vfsSectPerClust * 16)
        (frcn * volume.pvp.vfsSectPerClust * 16 + rootEntries volume.pvp)
    rcases passesOrStops.symm with
      ⟨stop, later, inCluster, stops, first⟩ | passes
    · obtain ⟨stopped, -⟩ := @scanClusters_stops volume lgeterror nm getfreeslot s fuel frcn
        stop at_ within readable later inCluster stops first
      refine SearchesRoot.not_behind stopped.visited ?_
      by_contra inside
      exact noStop stop (by omega) stops
    · obtain ⟨s', next, -, same⟩ := @scanClusters_passes volume lgeterror nm getfreeslot s fuel frcn
        at_ within readable passes
      rw [entries, ← nextCluster] at next
      rw [same]
      by_cases nextWithin : (frcn + 1) * volume.pvp.vfsSectPerClust ≤ volume.pvp.vfsRootdirsize
      · exact ih next nextWithin (by omega)
      · obtain ⟨rest, isRest⟩ : ∃ rest, fuel = rest + 1 := ⟨fuel - 1, by omega⟩
        rw [isRest, scanClusters, RootVolume.pcbmapRoot_of_gt (by omega) (by omega)]
        exact SearchesRoot.not_behind next.visited (by omega)

theorem scanClusters_wide (wide : volume.pvp.vfsRootdirsize < volume.pvp.vfsSectPerClust)
    (notEmpty : 0 < volume.pvp.vfsRootdirsize) :
    SearchesRoot volume nm (scanClusters lgeterror volume.pvp nm getfreeslot (fuel + 2) 0
      .start) := by
  have entries : rootEntries volume.pvp = volume.slots := by rw [volume.rootEntries_eq, if_pos wide]
  have at_ : ScanAt volume .start (0 * volume.pvp.vfsSectPerClust * 16) := by
    rw [Nat.zero_mul, Nat.zero_mul]
    exact ⟨rfl, rfl, fun _ isFree => by cases isFree⟩
  have inside : 0 * volume.pvp.vfsSectPerClust < volume.pvp.vfsRootdirsize := by omega
  have blocks : ∀ bn, bn ∈ RootScan.start.blocks → volume.InRoot bn := by
    intro bn isMapped
    cases isMapped
  by_cases unreadable : volume.Unreadable lgeterror 0
  · exact SearchesRoot.of_unreadable at_ blocks inside unreadable
  have passesOrStops := Lib.none_or_first (volume.Stops nm) (0 * volume.pvp.vfsSectPerClust * 16)
      (0 * volume.pvp.vfsSectPerClust * 16 + rootEntries volume.pvp)
  rcases passesOrStops.symm with
    ⟨stop, later, inCluster, stops, first⟩ | passes
  · obtain ⟨stopped, sameBlocks⟩ :=
      @scanClusters_stops volume lgeterror nm getfreeslot .start (fuel + 1)
        0 stop at_ (Nat.le_of_lt inside) unreadable later inCluster stops
        first
    refine SearchesRoot.of_stopped stopped (by omega) ?_ ?_
    · rw [sameBlocks]
      exact RootVolume.mapped_inRoot blocks inside
    · exact fun slot isBefore => first slot (by omega) isBefore
  · obtain ⟨s', next, sameBlocks, same⟩ :=
      @scanClusters_passes volume lgeterror nm getfreeslot .start
        (fuel + 1) 0 at_ (Nat.le_of_lt inside) unreadable passes
    rw [same, scanClusters, RootVolume.pcbmapRoot_of_gt (by omega) (by omega)]
    refine SearchesRoot.of_scanAt next (by omega) ?_ (fun _ => ?_)
      fun _ => ⟨by omega, fun slot isBefore => passes slot (by omega) (by omega)⟩
    · rw [sameBlocks]
      exact RootVolume.mapped_inRoot blocks inside
    · intro isFound
      cases isFound

theorem RootVolume.endsFrom_zero (ends : volume.EndsInRoot lgeterror nm) :
    volume.EndsFrom lgeterror nm 0 := by
  rcases ends with ⟨frcn, inside, unreadable⟩ | ⟨slot, inside, stops⟩
  · exact .inl ⟨frcn, Nat.zero_le _, inside, unreadable⟩
  · exact .inr ⟨slot, by omega, inside, stops⟩

end Clusters

/--
The condition: the map is not asked for the end of the root directory or for a number
that is no `long`, and the search is in a root directory of less than one cluster, or
ends before it comes to the end.
-/
def RootCall.Bounded (volume : RootVolume) : RootCall → Prop
  | .pcbmap findcn =>
    sectorsBefore volume.pvp findcn ≠ volume.pvp.vfsRootdirsize ∧
      sectorsBefore volume.pvp findcn < 2 ^ 31
  | .lookup lgeterror nm _ =>
    0 < volume.pvp.vfsRootdirsize ∧ (volume.pvp.vfsRootdirsize < volume.pvp.vfsSectPerClust ∨
        volume.EndsInRoot lgeterror nm)

/-- A volume with 224 entries in its root directory, and clusters of one sector. -/
def floppyVolume : RootVolume where
  pvp :=
    { vfsFatblk := 1
      vfsFatsecs := 9
      vfsFats := 2
      vfsRootdirblk := 19
      vfsRootdirsize := 14
      vfsFirstcluster := 33
      vfsSectPerClust := 1
      vfsCnshift := 9
      vfsCrbomask := 0x1ff
      vfsBpcluster := 512
      vfsRdonly := false
      vfsMaxcluster := 2848
      vfsFreeclustercount := 0
      vfsInusemap := fun _ => 0
      device := fun _ => 0 }
  rootDirEnts := 224
  ents := by decide
  size := by decide
  cluster := by decide
  clusterByte := by decide
  bytes := by decide
  fits := by decide

end Uw7.Dosfs
