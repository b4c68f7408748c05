import Mathlib.Order.Interval.Finset.Nat
import Uw7.Dosfs.FatTable
import Uw7.Dosfs.Files
import Uw7.Lib.Chain
import Uw7.Lib.Ledger

namespace Uw7.Dosfs

/-!
# The account of the free clusters

The in-use map and the count of free clusters are a ledger of the free entries
of the FAT.  Each change of an entry keeps the ledger when the cluster that it
frees was in use, and when the cluster that it relinks was.
-/

open Lib Finset

variable {pvp : DosfsVfs} {cn value : Nat}

/-- The clusters of a volume. -/
def clusters (pvp : DosfsVfs) : Finset Nat := Ico clustFirst (pvp.vfsMaxcluster + 1)

def isFree (pvp : DosfsVfs) (cn : Nat) : Bool := rawEntry pvp cn == 0

/-- The map and the count agree with the table. -/
structure Ledgered (pvp : DosfsVfs) : Prop where
  room : FatRoom pvp
  ledger : Ledger (clusters pvp) (isFree pvp) (inUse pvp.vfsInusemap) pvp.vfsFreeclustercount
  reserved : ∀ cn, ¬ IsCluster pvp cn → cn / 8 ≤ pvp.vfsMaxcluster / 8 →
      inUse pvp.vfsInusemap cn = true

theorem mem_clusters : cn ∈ clusters pvp ↔ IsCluster pvp cn := by
  rw [clusters, mem_Ico, IsCluster, Nat.lt_succ_iff]

theorem isFree_iff : isFree pvp cn = true ↔ tableEntry pvp cn = clustFree := by
  rw [isFree, beq_iff_eq, tableEntry_eq_free]

theorem isFree_eq_false : isFree pvp cn = false ↔ tableEntry pvp cn ≠ clustFree := by
  rw [← Bool.not_eq_true, isFree_iff]

@[simp] theorem isFree_markInUse (other : Nat) :
    isFree (markInUse pvp cn) other = isFree pvp other :=
  rfl

@[simp] theorem isFree_markFree (other : Nat) : isFree (markFree pvp cn) other = isFree pvp other :=
  rfl

@[simp] theorem vfsInusemap_setEntry : (setEntry pvp cn value).vfsInusemap = pvp.vfsInusemap := rfl

theorem isFree_setEntry_same (room : FatRoom pvp) (isCluster : IsCluster pvp cn)
    (addressable : Addressable pvp cn) :
    isFree (setEntry pvp cn value) cn = (storedWord pvp value == 0) := by
  rw [isFree, rawEntry_setEntry_same room isCluster.2 addressable]

theorem isFree_setEntry_other {other : Nat} (room : FatRoom pvp) (addressable : Addressable pvp cn)
    (isItem : other ∈ clusters pvp) (different : other ≠ cn) :
    isFree (setEntry pvp cn value) other = isFree pvp other := by
  have isCluster := mem_clusters.mp isItem
  rw [isFree, rawEntry_setEntry_other room isCluster.2 addressable different, isFree]

namespace Ledgered

section

variable (ledgered : Ledgered pvp)
include ledgered

theorem findFree_free (found : findFree pvp = some cn) :
    IsCluster pvp cn ∧ isFree pvp cn = true := by
  obtain ⟨clear, -⟩ := findFree_some found
  have isCluster : IsCluster pvp cn := by
    by_contra outside
    have set := ledgered.reserved cn outside (findFree_le found)
    rw [clear] at set
    exact Bool.false_ne_true set
  have recorded := ledgered.ledger.map cn (mem_clusters.mpr isCluster)
  rw [clear] at recorded
  exact ⟨isCluster, by simpa using recorded.symm⟩

theorem findFree_lowest {lower : Nat} (found : findFree pvp = some cn)
    (isCluster : IsCluster pvp lower) (before : lower < cn) : isFree pvp lower = false := by
  have set := (findFree_some found).2 lower before
  have recorded := ledgered.ledger.map lower (mem_clusters.mpr isCluster)
  rw [set] at recorded
  simpa using recorded.symm

theorem allocate (isCluster : IsCluster pvp cn)
    (addressable : Addressable pvp cn) (wasFree : isFree pvp cn = true)
    (notFree : storedWord pvp value ≠ 0) : Ledgered (markInUse (setEntry pvp cn value) cn) where
  room := ledgered.room
  ledger := by
    change Ledger (clusters pvp) (isFree (setEntry pvp cn value))
      (inUse (setInUse pvp.vfsInusemap cn)) (pvp.vfsFreeclustercount - 1)
    refine ledgered.ledger.take (mem_clusters.mpr isCluster) wasFree ?_
      (fun other isItem different =>
        isFree_setEntry_other ledgered.room addressable isItem different)
      (by simp) fun other _ different => by simp [different]
    rw [isFree_setEntry_same ledgered.room isCluster addressable]
    simpa using notFree
  reserved := by
    intro other outside inMap
    have set := ledgered.reserved other outside inMap
    simp [set]

theorem release (isCluster : IsCluster pvp cn)
    (addressable : Addressable pvp cn) (used : isFree pvp cn = false) :
    Ledgered (markFree (setEntry pvp cn clustFree) cn) where
  room := ledgered.room
  ledger := by
    change Ledger (clusters pvp) (isFree (setEntry pvp cn clustFree))
      (inUse (clearInUse pvp.vfsInusemap cn)) (pvp.vfsFreeclustercount + 1)
    refine ledgered.ledger.release (mem_clusters.mpr isCluster) used ?_
      (fun other isItem different =>
        isFree_setEntry_other ledgered.room addressable isItem different)
      (by simp) fun other _ different => by simp [different]
    rw [isFree_setEntry_same ledgered.room isCluster addressable]
    simp [storedWord, clustFree]
  reserved := by
    intro other outside inMap
    have set := ledgered.reserved other outside inMap
    have different : other ≠ cn := by
      rintro rfl
      exact outside isCluster
    simp [set, different]

theorem relink (isCluster : IsCluster pvp cn)
    (addressable : Addressable pvp cn) (used : isFree pvp cn = false)
    (notFree : storedWord pvp value ≠ 0) : Ledgered (setEntry pvp cn value) where
  __ := ledgered
  ledger := ledgered.ledger.relabel (fun _ => used) (fun _ =>
    (isFree_setEntry_same ledgered.room isCluster addressable).trans (by simpa using notFree))
    fun other isItem different => isFree_setEntry_other ledgered.room addressable isItem different

theorem writeData {device : ByteMemory} (same :
    ByteMemory.AgreeOn (fatBase pvp) (fatBytes pvp) device pvp.device) :
    Ledgered { pvp with device } where
  __ := ledgered
  ledger := ledgered.ledger.congr (fun other isItem => by
    rw [isFree, isFree, rawEntry_of_agree ledgered.room (mem_clusters.mp isItem).2 same])
    fun _ _ => rfl

end

end Ledgered

theorem inUse_full {map : ByteMemory} (full : map (cn / 8) = 0xff) : inUse map cn = true := by
  rw [inUse_eq_bit, Bitmap.bit, mapWords, full]
  have inByte : cn % 8 < 8 := Nat.mod_lt _ (by decide)
  exact (@Nat.testBit_two_pow_sub_one 8 (cn % 8)).trans (decide_eq_true inByte)

theorem markAllInUse_apply {map : ByteMemory} {start count byte : Nat}
    (covered : byte < start + count) (full : byte < start → map byte = 0xff) :
    markAllInUse map start count byte = 0xff := by
  induction count generalizing start map with
  | zero => exact full covered
  | succ count ih =>
    refine ih (by omega) fun before => ?_
    by_cases same : byte = start
    · rw [same, Function.update_self]
    · rw [Function.update_of_ne same]
      exact full (by omega)

/-- The account of the clusters before `cn`, where the others are in use. -/
structure Scanned (pvp : DosfsVfs) (cn : Nat) : Prop where
  ledger : Ledger (Ico clustFirst cn) (isFree pvp) (inUse pvp.vfsInusemap)
      pvp.vfsFreeclustercount
  others : ∀ other, ¬ (clustFirst ≤ other ∧ other < cn) → other / 8 ≤ pvp.vfsMaxcluster / 8 →
      inUse pvp.vfsInusemap other = true

theorem Scanned.next (scanned : Scanned pvp cn) (lower : clustFirst ≤ cn)
    (upper : cn ≤ pvp.vfsMaxcluster) :
    Scanned (if rawEntry pvp cn = 0 then markFree pvp cn else pvp) (cn + 1) := by
  have wider : Ico clustFirst (cn + 1) = insert cn (Ico clustFirst cn) :=
    Nat.Ico_succ_right_eq_insert_Ico lower
  have set : inUse pvp.vfsInusemap cn = true := scanned.others cn (by omega) (by omega)
  have fresh : cn ∉ Ico clustFirst cn := by simp
  split_ifs with free
  · have nowFree : isFree pvp cn = true := by simpa [isFree] using free
    have extended : Ledger (insert cn (Ico clustFirst cn))
        (fun other => isFree pvp other && decide (other ≠ cn))
        (inUse pvp.vfsInusemap) pvp.vfsFreeclustercount :=
      scanned.ledger.insert fresh set (by simp) fun other inItems => by
        have different : other ≠ cn := by
          rintro rfl
          exact fresh inItems
        simp [different]
    refine ⟨?_, fun other outside inMap => ?_⟩
    · rw [wider]
      refine extended.release (mem_insert_self _ _) (by simp) nowFree
        (fun other _ different => by simp [different])
        (by simp) fun other _ different => by simp [different]
    · have different : other ≠ cn := by omega
      have before := scanned.others other (by omega) inMap
      simp [before, different]
  · refine ⟨?_, fun other outside inMap => scanned.others other (by omega) inMap⟩
    rw [wider]
    have used : isFree pvp cn = false := by simpa [isFree] using free
    exact scanned.ledger.insert fresh set used fun _ _ => rfl

theorem Scanned.scanFat {count : Nat} {mounted : DosfsVfs} (scanned : Scanned pvp cn)
    (lower : clustFirst ≤ cn) (upper : cn + count ≤ pvp.vfsMaxcluster + 1)
    (succeeded : scanFat noErrors cn count pvp = .ok mounted) :
    Scanned mounted (cn + count) ∧ mounted.vfsMaxcluster = pvp.vfsMaxcluster ∧
      (FatRoom pvp → FatRoom mounted) := by
  induction count generalizing cn pvp with
  | zero =>
    obtain rfl := Except.ok.inj succeeded
    exact ⟨scanned, rfl, id⟩
  | succ count ih =>
    rw [Dosfs.scanFat, lookUpEntry_eq] at succeeded
    have kept : (if rawEntry pvp cn = 0 then markFree pvp cn
            else pvp).vfsMaxcluster = pvp.vfsMaxcluster := by
      split_ifs <;> rfl
    have room : FatRoom pvp → FatRoom (if rawEntry pvp cn = 0 then markFree pvp cn else pvp) := by
      split_ifs <;> exact id
    obtain ⟨final, sameRange, sameRoom⟩ :=
      ih (scanned.next lower (by omega)) (by omega) (by rw [kept]; omega) succeeded
    rw [Nat.add_right_comm, Nat.add_assoc] at final
    exact ⟨final, sameRange.trans kept, sameRoom ∘ room⟩

theorem ledgered_of_mount {volume mounted : DosfsVfs} (room : FatRoom volume)
    (mount : fillinusemap noErrors volume = .ok mounted) : Ledgered mounted := by
  have start : Scanned
      { volume with
        vfsInusemap := markAllInUse volume.vfsInusemap 0 (volume.vfsMaxcluster >>> 3 + 1)
        vfsFreeclustercount := 0 }
      clustFirst := by
    refine ⟨⟨by simp, by simp⟩, fun other _ inMap => inUse_full ?_⟩
    refine markAllInUse_apply ?_ fun before => absurd before (by omega)
    change other / 8 ≤ volume.vfsMaxcluster / 8 at inMap
    omega
  by_cases small : volume.vfsMaxcluster + 1 ≤ clustFirst
  · have empty : volume.vfsMaxcluster + 1 - clustFirst = 0 := by omega
    rw [fillinusemap, empty, scanFat] at mount
    obtain rfl := Except.ok.inj mount
    refine ⟨room, ⟨fun cn isItem => ?_, ?_⟩, fun cn _ => ?_⟩
    · have isCluster := mem_clusters.mp isItem
      obtain ⟨lower, upper⟩ := isCluster
      change cn ≤ volume.vfsMaxcluster at upper
      omega
    · have noClusters : Ico clustFirst (volume.vfsMaxcluster + 1) = ∅ :=
        Ico_eq_empty_of_le small
      simp [clusters, noClusters]
    · refine start.others cn fun inside => ?_
      omega
  · obtain ⟨final, sameRange, sameRoom⟩ := start.scanFat le_rfl (show
      clustFirst + (volume.vfsMaxcluster + 1 - clustFirst) ≤ volume.vfsMaxcluster + 1 by omega)
      mount
    change mounted.vfsMaxcluster = volume.vfsMaxcluster at sameRange
    have scannedAll : clustFirst + (volume.vfsMaxcluster + 1 - clustFirst) =
        mounted.vfsMaxcluster + 1 := by
      omega
    rw [scannedAll] at final
    refine ⟨sameRoom room, final.ledger, fun cn outside => ?_⟩
    refine final.others cn fun inside => outside ⟨inside.1, ?_⟩
    omega

end Uw7.Dosfs
