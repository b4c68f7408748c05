import Uw7.Dosfs.Accounting

namespace Uw7.Dosfs

/-!
# The account and the steps of the operations

Without I/O errors, the account stays right as long as no cluster that is
already free is freed or relinked, and no entry beyond the reach of `fatentry`
is changed.  The conditions say this about the state before an operation.
-/

open Lib

variable {pvp : DosfsVfs} {cn value : Nat}

def LowestFree (pvp : DosfsVfs) (cn : Nat) : Prop :=
  IsCluster pvp cn ∧ tableEntry pvp cn = clustFree ∧ ∀ lower, IsCluster pvp lower → lower < cn →
      tableEntry pvp lower ≠ clustFree

/--
The chain from a cluster in a table comes to an end, and all its clusters are in
use and addressable.
-/
def Freeable (pvp : DosfsVfs) (table : Nat → Nat) (startcluster : Nat) : Prop := ∃ chain,
    Chain table (IsCluster pvp) startcluster chain ∧
      ∀ cn ∈ chain, table cn ≠ clustFree ∧ Addressable pvp cn

/-- A range of the device outside the first FAT. -/
def OutsideFat (pvp : DosfsVfs) (address length : Nat) : Prop :=
  address + length ≤ fatBase pvp ∨ fatBase pvp + fatBytes pvp ≤ address

/-- The cluster that `extendfile` takes for the last one of a file. -/
def lastCluster (pvp : DosfsVfs) (dep : Denode) (prevcn : Nat) : Nat :=
  ((cacheLastCluster noErrors pvp dep prevcn).2.deFc fcLastfc).fcFsrcn

/--
The cluster to allocate is addressable, and the cluster that will be linked to
it is in use, or is that cluster.
-/
def CarefulExtend (pvp : DosfsVfs) (dep : Denode) (prevcn : Nat) : Prop :=
  dep.vroot = false → ∀ cn, LowestFree pvp cn → Addressable pvp cn ∧ (deStartCluster dep.deDe ≠ 0 →
      IsCluster pvp (lastCluster pvp dep prevcn) → Addressable pvp (lastCluster pvp dep prevcn) ∧
        (tableEntry pvp (lastCluster pvp dep prevcn) ≠ clustFree ∨ lastCluster pvp dep prevcn = cn))

/-- A chain is freed unless it is empty. -/
def CarefulRelease (pvp : DosfsVfs) (table : Nat → Nat) (chaintofree : Nat) : Prop :=
  chaintofree ≠ 0 → dosfseof chaintofree = false → Freeable pvp table chaintofree

/--
The cluster that becomes the last one of a file is in use, its tail lies outside
the FAT, and what follows it can be freed.
-/
def CarefulCut (pvp : DosfsVfs) (length eofentry : Nat) : Prop := (length &&& pvp.vfsCrbomask ≠ 0 →
    OutsideFat pvp (blockAddress (cntobn pvp eofentry) + (length &&& pvp.vfsCrbomask))
      (pvp.vfsBpcluster - (length &&& pvp.vfsCrbomask))) ∧
    (IsCluster pvp eofentry → Addressable pvp eofentry ∧ tableEntry pvp eofentry ≠ clustFree ∧
        CarefulRelease pvp (Function.update (tableEntry pvp) eofentry clustEofe)
          (tableEntry pvp eofentry))

/--
The directory entry of the file lies outside the FAT, and the clusters that the
truncation frees and relinks are in use.
-/
def CarefulTruncate (pvp : DosfsVfs) (dep : Denode) (length prevcn : Nat) : Prop :=
  dep.vroot = false → OutsideFat pvp (direntryAddress pvp dep) direntrySize ∧ ∀ sized sizing,
      sizeDirectory noErrors pvp dep prevcn = (.ok sized, sizing) → length < deFileSize sized.deDe →
      (length = 0 → CarefulRelease pvp (tableEntry pvp) (deStartCluster sized.deDe)) ∧
        (length ≠ 0 → ∀ eofentry mapped, pcbmap noErrors pvp sized
            ((length - 1) >>> pvp.vfsCnshift) prevcn = (.found eofentry, mapped) →
            CarefulCut pvp length eofentry)

theorem asks_readable {function newcontents : Nat} {oldcontents : Bool}
    (asked : function &&& (fatSet ||| fatGet) ≠ 0)
    (wanted : function &&& fatGet ≠ 0 → oldcontents = true) :
    fatentry noErrors pvp function cn oldcontents newcontents =
      if IsCluster pvp cn then
        .ok (fatentryResult pvp function cn newcontents)
      else
        .error .EINVAL := by
  split_ifs with isCluster
  · exact fatentry_of_readable (fun _ => rfl) asked wanted isCluster.1 isCluster.2
  · have given : ¬ (function &&& fatGet ≠ 0 ∧ oldcontents = false) := by
      rintro ⟨gets, missing⟩
      simp [wanted gets] at missing
    rw [fatentry, if_neg asked, if_neg given, if_pos (by omega)]

theorem fatentry_set_eq : fatentry noErrors pvp fatSet cn false value =
    if IsCluster pvp cn then
      .ok (none, setEntry pvp cn value)
    else
      .error .EINVAL :=
  asks_readable (by decide) fun gets => absurd rfl gets

theorem fatentry_getAndSet_eq : fatentry noErrors pvp fatGetAndSet cn true value =
    if IsCluster pvp cn then
      .ok (some (entry pvp cn), setEntry pvp cn value)
    else
      .error .EINVAL :=
  asks_readable (by decide) fun _ => rfl

theorem storedWord_eofe : storedWord pvp clustEofe ≠ 0 := by
  unfold storedWord
  split_ifs <;> decide

theorem storedWord_cluster (isCluster : IsCluster pvp cn) (addressable : Addressable pvp cn) :
    storedWord pvp cn ≠ 0 := by
  obtain ⟨lower, upper⟩ := isCluster
  unfold storedWord
  simp only [clustFirst] at lower
  split_ifs with twelve
  · have := of_decide_eq_true twelve
    omega
  · rcases addressable with isTwelve | small
    · exact absurd isTwelve twelve
    · omega

namespace Ledgered

theorem findFree_lowestFree (ledgered : Ledgered pvp) (found : findFree pvp = some cn) :
    LowestFree pvp cn := by
  obtain ⟨isCluster, free⟩ := ledgered.findFree_free found
  exact ⟨isCluster, isFree_iff.mp free, fun lower isLower before =>
    isFree_eq_false.mp (ledgered.findFree_lowest found isLower before)⟩

theorem clusteralloc_eq (ledgered : Ledgered pvp) : clusteralloc noErrors pvp value =
    match findFree pvp with
    | none => .error .ENOSPC
    | some cn => .ok (cn, markInUse (setEntry pvp cn value) cn) := by
  unfold clusteralloc
  cases found : findFree pvp with
  | none => rfl
  | some cn =>
    obtain ⟨isCluster, -⟩ := ledgered.findFree_free found
    simp only [fatentry_set_eq]
    rw [if_pos isCluster]

theorem clusteralloc {after : DosfsVfs} (ledgered : Ledgered pvp)
    (addressable : ∀ cn, LowestFree pvp cn → Addressable pvp cn)
    (notFree : storedWord pvp value ≠ 0)
    (succeeded : Dosfs.clusteralloc noErrors pvp value = .ok (cn, after)) :
    findFree pvp = some cn ∧ after = markInUse (setEntry pvp cn value) cn ∧ Ledgered after := by
  rw [ledgered.clusteralloc_eq] at succeeded
  cases found : findFree pvp with
  | none => simp [found] at succeeded
  | some first =>
    simp only [found, Except.ok.injEq, Prod.mk.injEq] at succeeded
    obtain ⟨rfl, rfl⟩ := succeeded
    obtain ⟨isCluster, free⟩ := ledgered.findFree_free found
    have lowest := ledgered.findFree_lowestFree found
    exact ⟨rfl, rfl, ledgered.allocate isCluster (addressable _ lowest) free notFree⟩

theorem clusterfree {after : DosfsVfs} (ledgered : Ledgered pvp) (used :
    IsCluster pvp cn → tableEntry pvp cn ≠ clustFree ∧ Addressable pvp cn)
    (succeeded : Dosfs.clusterfree noErrors pvp cn = .ok after) : Ledgered after := by
  simp only [Dosfs.clusterfree, fatentry_set_eq] at succeeded
  split_ifs at succeeded with isCluster
  obtain rfl := Except.ok.inj succeeded
  obtain ⟨notFree, addressable⟩ := used isCluster
  exact ledgered.release isCluster addressable (isFree_eq_false.mpr notFree)

end Ledgered

theorem tableEntry_setEntry_other {other : Nat} (room : FatRoom pvp)
    (isCluster : IsCluster pvp other) (addressable : Addressable pvp cn) (different : other ≠ cn) :
    tableEntry (setEntry pvp cn value) other = tableEntry pvp other := by
  have same := @rawEntry_setEntry_other pvp cn other value room isCluster.2 addressable different
  unfold tableEntry
  rw [same]
  rfl

@[simp] theorem tableEntry_markFree (other : Nat) :
    tableEntry (markFree pvp cn) other = tableEntry pvp other :=
  rfl

@[simp] theorem tableEntry_markInUse (other : Nat) :
    tableEntry (markInUse pvp cn) other = tableEntry pvp other :=
  rfl

/-- Another volume only in its device, its map and its count. -/
def SameLayout (before after : DosfsVfs) : Prop := ∃ device vfsInusemap vfsFreeclustercount, after =
    { before with device, vfsInusemap, vfsFreeclustercount }

namespace SameLayout

theorem refl (pvp : DosfsVfs) : SameLayout pvp pvp :=
  ⟨pvp.device, pvp.vfsInusemap, pvp.vfsFreeclustercount, rfl⟩

theorem trans {middle after : DosfsVfs} (first : SameLayout pvp middle)
    (second : SameLayout middle after) : SameLayout pvp after := by
  obtain ⟨_, _, _, rfl⟩ := first
  obtain ⟨device, map, count, rfl⟩ := second
  exact ⟨device, map, count, rfl⟩

section

variable {after : DosfsVfs} (same : SameLayout pvp after)
include same

theorem isCluster : IsCluster after cn ↔ IsCluster pvp cn := by
  obtain ⟨_, _, _, rfl⟩ := same
  exact Iff.rfl

theorem addressable : Addressable after cn ↔ Addressable pvp cn := by
  obtain ⟨_, _, _, rfl⟩ := same
  exact Iff.rfl

theorem vfsCnshift : after.vfsCnshift = pvp.vfsCnshift := by
  obtain ⟨_, _, _, rfl⟩ := same
  rfl

end

end SameLayout

theorem sameLayout_markFree : SameLayout pvp (markFree (setEntry pvp cn value) cn) := ⟨_, _, _, rfl⟩

theorem sameLayout_markInUse : SameLayout pvp (markInUse (setEntry pvp cn value) cn) :=
  ⟨_, _, _, rfl⟩

theorem sameLayout_setEntry : SameLayout pvp (setEntry pvp cn value) := ⟨_, _, _, rfl⟩

/-- The entries of the clusters outside a list are as before. -/
def TableKept (before : DosfsVfs) (touched : List Nat) (after : DosfsVfs) : Prop :=
  ∀ other, IsCluster before other → other ∉ touched →
    tableEntry after other = tableEntry before other

variable {fuel startcluster : Nat} {result : Option Errno × DosfsVfs}

theorem Ledgered.freeChainLoop {lgeterror : Nat → Option Errno} {chain : List Nat}
    (ledgered : Ledgered pvp) (isChain : Chain (tableEntry pvp) (IsCluster pvp) startcluster chain)
    (used : ∀ cn ∈ chain, tableEntry pvp cn ≠ clustFree ∧ Addressable pvp cn)
    (returned : freeChainLoop lgeterror fuel pvp startcluster = some result) :
    Ledgered result.2 ∧ TableKept pvp chain result.2 ∧ SameLayout pvp result.2 := by
  induction fuel generalizing pvp startcluster chain with
  | zero => cases returned
  | succ fuel ih =>
    unfold Dosfs.freeChainLoop at returned
    cases isChain with
    | stop outside =>
      rw [if_neg outside] at returned
      obtain rfl := Option.some.inj returned
      exact ⟨ledgered, fun _ _ _ => rfl, .refl pvp⟩
    | @link _ rest isCluster tail =>
      obtain ⟨notFree, addressable⟩ := used startcluster (by simp)
      rw [if_pos isCluster] at returned
      cases written : fatentry lgeterror pvp fatGetAndSet startcluster true clustFree with
      | error error =>
        simp only [written, Option.some.injEq] at returned
        subst result
        exact ⟨ledgered, fun _ _ _ => rfl, .refl pvp⟩
      | ok contents =>
        obtain ⟨-, -, rfl⟩ := fatentry_ok written
        have next : (fatentryResult pvp fatGetAndSet startcluster
            clustFree).1.getD 0 = tableEntry pvp startcluster :=
          entry_eq_tableEntry addressable
        simp only [written, next] at returned
        have released := ledgered.release isCluster addressable (isFree_eq_false.mpr notFree)
        have kept : ∀ node, IsCluster pvp node → node ≠ startcluster → tableEntry
            (markFree (setEntry pvp startcluster clustFree) startcluster) node =
            tableEntry pvp node := by
          intro node isNode different
          rw [tableEntry_markFree]
          exact tableEntry_setEntry_other ledgered.room isNode addressable different
        -- The chain does not come back, so that its rest is unchanged.
        have same : ∀ node ∈ rest, tableEntry (markFree (setEntry pvp startcluster clustFree)
            startcluster) node = tableEntry pvp node := by
          intro node inRest
          refine kept node (tail.valid_of_mem inRest) ?_
          rintro rfl
          exact Chain.start_notMem isCluster tail inRest
        obtain ⟨nowLedgered, restKept, layout⟩ := ih released (tail.congr same)
          (fun node inRest => by
            rw [same node inRest]
            exact used node (by simp [inRest])) returned
        refine ⟨nowLedgered, ?_, sameLayout_markFree.trans layout⟩
        intro other isOther outside
        obtain ⟨different, notRest⟩ := List.ne_and_not_mem_of_not_mem_cons outside
        exact (restKept other isOther notRest).trans (kept other isOther different)

def usedClusters (pvp : DosfsVfs) : Finset Nat :=
  (clusters pvp).filter fun cn => entry pvp cn ≠ clustFree

theorem entry_freed (room : FatRoom pvp) (isCluster : IsCluster pvp cn) :
    entry (setEntry pvp cn clustFree) cn = clustFree := by
  refine entry_setEntry_same room isCluster.2 ?_
  unfold Storable
  split_ifs <;> decide

theorem entry_setEntry_free {other : Nat} (room : FatRoom pvp) (isCluster : IsCluster pvp cn)
    (isOther : IsCluster pvp other) : entry (setEntry pvp cn clustFree) other = entry pvp other ∨
      entry (setEntry pvp cn clustFree) other = clustFree := by
  have freed := entry_freed room isCluster
  by_cases same : other = cn
  · rw [same]
    exact .inr freed
  by_cases shared : fat12 pvp = false ∧ whichbyte pvp other = whichbyte pvp cn
  · refine .inr (Eq.trans ?_ freed)
    exact @entry_eq_of_whichbyte (setEntry pvp cn clustFree) cn other shared.1 shared.2
  · refine .inl (entry_setEntry_other room isOther.2 same ?_)
    exact fun sixteen sameOffset => shared ⟨sixteen, sameOffset⟩

theorem mem_usedClusters : cn ∈ usedClusters pvp ↔ IsCluster pvp cn ∧ entry pvp cn ≠ clustFree := by
  rw [usedClusters, Finset.mem_filter, mem_clusters]

@[simp] theorem usedClusters_markFree : usedClusters (markFree pvp cn) = usedClusters pvp := rfl

theorem usedClusters_free (room : FatRoom pvp) (isCluster : IsCluster pvp cn)
    (used : entry pvp cn ≠ clustFree) :
    (usedClusters (setEntry pvp cn clustFree)).card < (usedClusters pvp).card := by
  have subset : usedClusters (setEntry pvp cn clustFree) ⊆ usedClusters pvp := by
    intro other member
    obtain ⟨isOther, stillUsed⟩ := mem_usedClusters.mp member
    refine mem_usedClusters.mpr ⟨isOther, ?_⟩
    rcases entry_setEntry_free room isCluster isOther with kept | freed
    · rw [← kept]
      exact stillUsed
    · exact absurd freed stillUsed
  refine Finset.card_lt_card (Finset.ssubset_iff_subset_ne.mpr ⟨subset, fun same => ?_⟩)
  have member : cn ∈ usedClusters pvp := mem_usedClusters.mpr ⟨isCluster, used⟩
  rw [← same] at member
  obtain ⟨-, stillUsed⟩ := mem_usedClusters.mp member
  exact stillUsed (entry_freed room isCluster)

theorem freeChainLoop_isSome (lgeterror : Nat → Option Errno) (room : FatRoom pvp)
    (positive : 0 < fuel) (enough : IsCluster pvp startcluster → (usedClusters pvp).card + 2 ≤ fuel)
    : (freeChainLoop lgeterror fuel pvp startcluster).isSome = true := by
  induction fuel generalizing pvp startcluster with
  | zero => cases positive
  | succ fuel ih =>
    unfold freeChainLoop
    split_ifs with isCluster
    · cases written : fatentry lgeterror pvp fatGetAndSet startcluster true clustFree with
      | error error => rfl
      | ok result =>
        obtain ⟨-, -, rfl⟩ := fatentry_ok written
        refine @ih (markFree (setEntry pvp startcluster clustFree) startcluster)
          _ room (by omega) fun isNext => ?_
        have used : entry pvp startcluster ≠ clustFree := by
          intro free
          rw [free] at isNext
          exact absurd isNext.1 (by decide)
        have fewer := usedClusters_free room isCluster used
        rw [usedClusters_markFree]
        omega
    · rfl

theorem freeclusterchain_isSome (lgeterror : Nat → Option Errno) (room : FatRoom pvp)
    (startcluster : Nat) : (freeclusterchain lgeterror pvp startcluster).isSome = true := by
  refine freeChainLoop_isSome lgeterror room (by omega) fun isCluster => ?_
  have few := Finset.card_filter_le (clusters pvp) fun cn => entry pvp cn ≠ clustFree
  rw [clusters, Nat.card_Ico] at few
  obtain ⟨lower, upper⟩ := isCluster
  simp only [clustFirst, usedClusters, clusters] at few lower ⊢
  omega

theorem Ledgered.freeclusterchain (ledgered : Ledgered pvp)
    (freeable : Freeable pvp (tableEntry pvp) startcluster)
    (returned : freeclusterchain noErrors pvp startcluster = some result) : Ledgered result.2 := by
  obtain ⟨chain, isChain, used⟩ := freeable
  exact (ledgered.freeChainLoop isChain used returned).1

end Uw7.Dosfs
