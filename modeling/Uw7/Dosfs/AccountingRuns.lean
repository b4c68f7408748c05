import Uw7.Dosfs.AccountingFiles
import Uw7.Lib.Run

namespace Uw7.Dosfs

/-!
# The account over runs of a mounted file system

A file system is mounted and then runs the operations that change its FAT, one
after the other and without I/O errors.
-/

open Lib Option Finset Function

/-- A mounted file system and its denodes. -/
structure FileSystem where
  pvp : DosfsVfs
  denodes : Nat → Denode

/-- The operations, with their arguments and with what they find elsewhere. -/
inductive Operation where
  | clusteralloc (fillwith : Nat)
  | clusterfree (cluster : Nat)
  | freeclusterchain (startcluster : Nat)
  | extendfile (file prevcn : Nat)
  | detrunc (file length prevcn time date : Nat)
  | deget (file : Nat) (dep : Denode)

/-- What an operation does; `deget` fills a denode and purges its cache. -/
def perform (system : FileSystem) : Operation → Option FileSystem
  | .clusteralloc fillwith =>
    match clusteralloc noErrors system.pvp fillwith with
    | .error _ => some system
    | .ok (_, after) => some { system with pvp := after }
  | .clusterfree cluster =>
    match clusterfree noErrors system.pvp cluster with
    | .error _ => some system
    | .ok after => some { system with pvp := after }
  | .freeclusterchain startcluster =>
    (freeclusterchain noErrors system.pvp startcluster).map
      fun result => { system with pvp := result.2 }
  | .extendfile file prevcn =>
    let result := extendfile noErrors system.pvp (system.denodes file) prevcn
    some
      { pvp := result.2.2
        denodes := update system.denodes file result.2.1 }
  | .detrunc file length prevcn time date =>
    (detrunc noErrors system.pvp (system.denodes file) length prevcn time date).map fun result =>
        { pvp := result.2.2
          denodes := update system.denodes file result.2.1 }
  | .deget file dep =>
    some
      { system with
        denodes := update system.denodes file (fcPurge dep 0) }

/-- The condition on the state before an operation. -/
def Careful (system : FileSystem) : Operation → Prop
  | .clusteralloc fillwith =>
    storedWord system.pvp fillwith ≠ 0 ∧ ∀ cn, LowestFree system.pvp cn → Addressable system.pvp cn
  | .clusterfree cluster =>
    IsCluster system.pvp cluster → tableEntry system.pvp cluster ≠ clustFree ∧
        Addressable system.pvp cluster
  | .freeclusterchain startcluster => Freeable system.pvp (tableEntry system.pvp) startcluster
  | .extendfile file prevcn => CarefulExtend system.pvp (system.denodes file) prevcn
  | .detrunc file length prevcn _ _ =>
    CarefulTruncate system.pvp (system.denodes file) length prevcn
  | .deget _ _ => True

/-- What the map, the count and the allocations say about free clusters. -/
structure Accounted (pvp : DosfsVfs) : Prop where
  map : ∀ cn, clustFirst ≤ cn → cn ≤ pvp.vfsMaxcluster →
      (inUse pvp.vfsInusemap cn = false ↔ tableEntry pvp cn = clustFree)
  count : pvp.vfsFreeclustercount = ((Icc clustFirst pvp.vfsMaxcluster).filter
      fun cn => tableEntry pvp cn = clustFree).card
  allocates : ∀ fillwith cn after, clusteralloc noErrors pvp fillwith = .ok (cn, after) →
      tableEntry pvp cn = clustFree
  grows : ∀ dep prevcn cn, (extendfile noErrors pvp dep prevcn).1 = .ok (some cn) →
      tableEntry pvp cn = clustFree

theorem Ledgered.accounted {pvp : DosfsVfs} (ledgered : Ledgered pvp) : Accounted pvp where
  map := by
    intro cn lower upper
    have recorded := ledgered.ledger.map cn (mem_clusters.mpr ⟨lower, upper⟩)
    rw [recorded, ← isFree_iff]
    cases isFree pvp cn <;> simp
  count := by
    have sameRange : Icc clustFirst pvp.vfsMaxcluster = clusters pvp := by
      ext cn
      rw [mem_Icc, mem_clusters]
    rw [ledgered.ledger.counted, sameRange]
    congr 2
    refine filter_congr fun cn _ => ?_
    exact isFree_iff
  allocates := by
    intro fillwith cn after succeeded
    rw [ledgered.clusteralloc_eq] at succeeded
    cases found : findFree pvp with
    | none => simp [found] at succeeded
    | some first =>
      simp only [found, Except.ok.injEq, Prod.mk.injEq] at succeeded
      rw [← succeeded.1]
      exact isFree_iff.mp (ledgered.findFree_free found).2
  grows := by
    intro dep prevcn cn succeeded
    have found := ledgered.extendfile_returns succeeded
    exact isFree_iff.mp (ledgered.findFree_free found).2

theorem Ledgered.perform {system after : FileSystem} {operation : Operation}
    (ledgered : Ledgered system.pvp) (careful : Careful system operation)
    (performed : perform system operation = some after) :
    Ledgered after.pvp := by
  cases operation with
  | clusteralloc fillwith =>
    unfold Dosfs.perform at performed
    cases allocation : Dosfs.clusteralloc noErrors system.pvp fillwith with
    | error error =>
      simp only [allocation, some.injEq] at performed
      subst after
      exact ledgered
    | ok allocated =>
      obtain ⟨cn, volume⟩ := allocated
      simp only [allocation, some.injEq] at performed
      subst after
      exact (ledgered.clusteralloc careful.2 careful.1 allocation).2.2
  | clusterfree cluster =>
    unfold Dosfs.perform at performed
    cases freed : Dosfs.clusterfree noErrors system.pvp cluster with
    | error error =>
      simp only [freed, some.injEq] at performed
      subst after
      exact ledgered
    | ok volume =>
      simp only [freed, some.injEq] at performed
      subst after
      exact ledgered.clusterfree careful freed
  | freeclusterchain startcluster =>
    obtain ⟨result, freed, rfl⟩ := map_eq_some_iff.mp performed
    exact ledgered.freeclusterchain careful freed
  | extendfile file prevcn =>
    obtain rfl := some.inj performed
    exact ledgered.extendfile careful
  | detrunc file length prevcn time date =>
    obtain ⟨result, truncated, rfl⟩ := map_eq_some_iff.mp performed
    exact ledgered.detrunc careful truncated
  | deget file dep =>
    obtain rfl := some.inj performed
    exact ledgered

theorem fillinusemap_ok (volume : DosfsVfs) : ∃ mounted,
    fillinusemap noErrors volume = .ok mounted ∧ mounted.vfsMaxcluster = volume.vfsMaxcluster := by
  have scans : ∀ count cn (pvp : DosfsVfs), ∃ mounted, scanFat noErrors cn count pvp = .ok mounted ∧
      mounted.vfsMaxcluster = pvp.vfsMaxcluster := by
    intro count
    induction count with
    | zero => exact fun cn pvp => ⟨pvp, rfl, rfl⟩
    | succ count ih =>
      intro cn pvp
      rw [scanFat, lookUpEntry_eq]
      obtain ⟨mounted, scanned, sameRange⟩ := ih (cn + 1)
        (if rawEntry pvp cn = 0 then markFree pvp cn else pvp)
      refine ⟨mounted, scanned, sameRange.trans ?_⟩
      split_ifs <;> rfl
  exact scans _ _ _

section Returns

variable {pvp : DosfsVfs} {dep : Denode}

theorem releaseChain_isSome {allerror : Option Errno} (room : FatRoom pvp) (chaintofree : Nat) :
    (releaseChain noErrors pvp dep allerror chaintofree).isSome =
      true := by
  unfold releaseChain
  split_ifs
  · rw [isSome_map]
    exact freeclusterchain_isSome noErrors room chaintofree
  · rfl

theorem cutChain_isSome {allerror : Option Errno} (room : FatRoom pvp) (length : Nat)
    (eofentry : Option Nat) (chaintofree : Nat) :
    (cutChain noErrors pvp dep allerror length eofentry chaintofree).isSome = true := by
  unfold cutChain
  cases eofentry with
  | none => exact releaseChain_isSome room chaintofree
  | some eofentry =>
    simp only [fatentry_getAndSet_eq]
    split_ifs
    · exact @releaseChain_isSome (setEntry pvp eofentry clustEofe) _ _ room _
    · rfl

theorem withDevice_room (room : FatRoom pvp) (device : ByteMemory) : FatRoom { pvp with device } :=
  room

theorem deupdat_room {time date : Nat} (room : FatRoom pvp) :
    FatRoom (deupdat noErrors pvp dep time date).2.2 := by
  unfold deupdat
  split_ifs
  · exact room
  · rw [lbreadErrors_none]
    exact withDevice_room room _

theorem zeroTail_room (room : FatRoom pvp) (length eofentry : Nat) : ∃ cleared,
    zeroTail noErrors pvp length eofentry = .ok cleared ∧ FatRoom cleared := by
  simp only [zeroTail, lbreadErrors_none]
  split_ifs
  · exact ⟨_, rfl, withDevice_room room _⟩
  · exact ⟨_, rfl, room⟩

theorem shortenFile_isSome (room : FatRoom pvp) (length : Nat) (eofentry : Option Nat)
    (chaintofree time date : Nat) :
    (shortenFile noErrors pvp dep length eofentry chaintofree time date).isSome = true := by
  obtain ⟨cleared, zeroed, clearedRoom⟩ := zeroTail_room room length (eofentry.getD (2 ^ 32 - 1))
  simp only [shortenFile, zeroed]
  refine cutChain_isSome ?_ _ _ _
  exact deupdat_room clearedRoom

theorem perform_isSome {system : FileSystem} (room : FatRoom system.pvp) (operation : Operation) :
    (perform system operation).isSome = true := by
  cases operation with
  | clusteralloc fillwith =>
    rw [perform]
    cases clusteralloc noErrors system.pvp fillwith <;> rfl
  | clusterfree cluster =>
    rw [perform]
    cases clusterfree noErrors system.pvp cluster <;> rfl
  | freeclusterchain startcluster =>
    rw [perform, isSome_map]
    exact freeclusterchain_isSome noErrors room startcluster
  | extendfile file prevcn => rfl
  | detrunc file length prevcn time date =>
    rw [perform, isSome_map, detrunc]
    by_cases root : (system.denodes file).vroot = true
    · rw [if_pos root]
      rfl
    rw [if_neg root]
    rcases sizeDirectory noErrors system.pvp (system.denodes file) prevcn with ⟨outcome, sizing⟩
    cases outcome with
    | error error => rfl
    | ok sized =>
      simp only
      split_ifs
      · rfl
      · exact shortenFile_isSome room _ _ _ _ _
      · rcases pcbmap noErrors system.pvp sized ((length - 1) >>> system.pvp.vfsCnshift) prevcn
          with ⟨mapping, mapped⟩
        cases mapping with
        | failed error => rfl
        | beyond clusters => rfl
        | found eofentry => exact shortenFile_isSome room _ _ _ _ _
  | deget file dep => rfl

end Returns

/-- A denode of an empty file. -/
def sampleDenode : Denode where
  vroot := false
  deFlag := 0
  deDirclust := 0
  deDiroffset := 0
  deDe := fun _ => 0
  deFc := fun _ => ⟨fceEmpty, 0⟩

/-- A volume whose clusters 2 and 3 are linked to each other. -/
def cyclicVfs : DosfsVfs :=
  { sampleVfs 100 1 with
    device := fun address =>
        if address = 515 then 3 else if address = 516 then 0x20 else 0 }

/-- The volume once the cyclic chain was freed. -/
def cyclicFreed : Option DosfsVfs :=
  match fillinusemap noErrors cyclicVfs with
  | .error _ => none
  | .ok mounted => (freeclusterchain noErrors mounted 2).map fun freed => freed.2

theorem cyclicFreed_fields : cyclicFreed.map (fun pvp => pvp.vfsFreeclustercount) = some 100 ∧
    cyclicFreed.map (fun pvp => pvp.vfsMaxcluster) = some 100 := by
  decide +kernel

end Uw7.Dosfs
