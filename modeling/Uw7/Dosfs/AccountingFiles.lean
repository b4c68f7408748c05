import Uw7.Dosfs.AccountingSteps

namespace Uw7.Dosfs

/-!
# The account while files grow and shrink

The operations that change the FAT, with the state they act on, and what each of
them does to the account of the free clusters.
-/

open Lib Function Option

variable {pvp after : DosfsVfs} {dep : Denode} {cn value : Nat}

section

variable (lgeterror : Nat → Option Errno)
include lgeterror

theorem pcbmap_cache (findcn prevcn : Nat) : ∃ deFc,
    (pcbmap lgeterror pvp dep findcn prevcn).2 = { dep with deFc } := by
  simp only [pcbmap]
  split_ifs
  · exact ⟨dep.deFc, rfl⟩
  · exact ⟨dep.deFc, rfl⟩
  · exact ⟨dep.deFc, rfl⟩
  · cases followChain lgeterror pvp (findcn - (fcLookup dep findcn 0 (deStartCluster dep.deDe)).1)
        (fcLookup dep findcn 0 (deStartCluster dep.deDe)).1
        (fcLookup dep findcn 0 (deStartCluster dep.deDe)).2 prevcn with
    | error error => exact ⟨dep.deFc, rfl⟩
    | ok reached =>
      simp only
      split_ifs <;> exact ⟨_, rfl⟩

theorem pcbmap_deDe (findcn prevcn : Nat) :
    (pcbmap lgeterror pvp dep findcn prevcn).2.deDe = dep.deDe := by
  obtain ⟨deFc, same⟩ := @pcbmap_cache pvp dep lgeterror findcn prevcn
  rw [same]

theorem pcbmap_place (findcn prevcn : Nat) :
    direntryAddress pvp (pcbmap lgeterror pvp dep findcn prevcn).2 = direntryAddress pvp dep := by
  obtain ⟨deFc, same⟩ := @pcbmap_cache pvp dep lgeterror findcn prevcn
  rw [same]
  rfl

theorem sizeDirectory_place (prevcn : Nat) (sized : Denode)
    (succeeded : (sizeDirectory lgeterror pvp dep prevcn).1 = .ok sized) :
    direntryAddress pvp sized = direntryAddress pvp dep := by
  simp only [sizeDirectory] at succeeded
  have place := @pcbmap_place pvp dep lgeterror 0xffff prevcn
  split_ifs at succeeded
  · revert place succeeded
    rcases pcbmap lgeterror pvp dep 0xffff prevcn with ⟨mapping, mapped⟩
    intro place succeeded
    cases mapping with
    | failed error => cases succeeded
    | found cn =>
      obtain rfl := Except.ok.inj succeeded
      exact place
    | beyond clusters =>
      obtain rfl := Except.ok.inj succeeded
      exact place
  · obtain rfl := Except.ok.inj succeeded
    rfl

theorem cacheLastCluster_deDe (prevcn : Nat) :
    (cacheLastCluster lgeterror pvp dep prevcn).2.deDe = dep.deDe := by
  unfold cacheLastCluster
  split_ifs
  · have kept := @pcbmap_deDe pvp dep lgeterror 0xffff prevcn
    revert kept
    cases pcbmap lgeterror pvp dep 0xffff prevcn with
    | mk mapping mapped => cases mapping <;> exact id
  · rfl

end

theorem Ledgered.appendCluster (ledgered : Ledgered pvp) (isCluster : IsCluster pvp cn)
    (addressable : Addressable pvp cn) (used : isFree pvp cn = false)
    (lastUsed : deStartCluster dep.deDe ≠ 0 → IsCluster pvp (dep.deFc fcLastfc).fcFsrcn →
        Addressable pvp (dep.deFc fcLastfc).fcFsrcn ∧
          isFree pvp (dep.deFc fcLastfc).fcFsrcn = false) :
    Ledgered (appendCluster noErrors pvp dep cn).2.2 := by
  unfold Dosfs.appendCluster
  split_ifs with empty
  · exact ledgered
  · rw [fatentry_set_eq]
    split_ifs with lastCluster
    · obtain ⟨lastAddressable, lastNotFree⟩ := lastUsed empty lastCluster
      exact ledgered.relink lastCluster lastAddressable lastNotFree
          (storedWord_cluster isCluster addressable)
    · -- The new cluster is given back.
      cases freed : Dosfs.clusterfree noErrors pvp cn with
      | error error => exact ledgered
      | ok released =>
        exact ledgered.clusterfree (fun _ => ⟨isFree_eq_false.mp used, addressable⟩) freed

theorem appendCluster_returns {returned : Nat} (succeeded :
    (appendCluster noErrors pvp dep cn).1 = .ok (some returned)) :
    returned = cn := by
  unfold appendCluster at succeeded
  split_ifs at succeeded
  · simpa using succeeded.symm
  · rw [fatentry_set_eq] at succeeded
    split_ifs at succeeded
    · simpa using succeeded.symm
    · cases freed : clusterfree noErrors pvp cn with
      | error error => simp [freed] at succeeded
      | ok released => simp [freed] at succeeded

theorem isFree_allocated (room : FatRoom pvp) (isCluster : IsCluster pvp cn)
    (addressable : Addressable pvp cn) :
    isFree (markInUse (setEntry pvp cn clustEofe) cn) cn = false := by
  rw [isFree_markInUse, isFree_setEntry_same room isCluster addressable]
  simpa using @storedWord_eofe pvp

theorem Ledgered.extendfile {prevcn : Nat} (ledgered : Ledgered pvp)
    (careful : CarefulExtend pvp dep prevcn) :
    Ledgered (extendfile noErrors pvp dep prevcn).2.2 := by
  unfold Dosfs.extendfile
  have sameEntry := @cacheLastCluster_deDe pvp dep noErrors prevcn
  unfold CarefulExtend lastCluster at careful
  revert careful sameEntry
  split_ifs with root
  · exact fun _ _ => ledgered
  rcases cacheLastCluster noErrors pvp dep prevcn with ⟨outcome, cached⟩
  intro careful sameEntry
  replace careful := careful (by simpa using root)
  simp only at careful sameEntry
  rw [← sameEntry] at careful
  match outcome with
  | some (some error) => exact ledgered
  | some none => exact ledgered
  | none =>
    cases allocation : Dosfs.clusteralloc noErrors pvp clustEofe with
    | error error => exact ledgered
    | ok allocated =>
      obtain ⟨cn, after⟩ := allocated
      obtain ⟨found, rfl, nowLedgered⟩ :=
        ledgered.clusteralloc (fun cn lowest => (careful cn lowest).1) storedWord_eofe allocation
      obtain ⟨isCluster, -⟩ := ledgered.findFree_free found
      obtain ⟨addressable, lastUsed⟩ := careful cn (ledgered.findFree_lowestFree found)
      have newUsed := isFree_allocated ledgered.room isCluster addressable
      refine nowLedgered.appendCluster isCluster addressable newUsed fun notEmpty lastCluster => ?_
      obtain ⟨lastAddressable, lastNotFree | sameCluster⟩ := lastUsed notEmpty lastCluster
      · refine ⟨lastAddressable, ?_⟩
        by_cases sameCluster : (cached.deFc fcLastfc).fcFsrcn = cn
        · rw [sameCluster]
          exact newUsed
        · rw [isFree_markInUse, isFree_setEntry_other ledgered.room addressable
              (mem_clusters.mpr lastCluster) sameCluster]
          exact isFree_eq_false.mpr lastNotFree
      · refine ⟨lastAddressable, ?_⟩
        rw [sameCluster]
        exact newUsed

theorem Ledgered.extendfile_returns {prevcn : Nat} (ledgered : Ledgered pvp) (succeeded :
    (Dosfs.extendfile noErrors pvp dep prevcn).1 = .ok (some cn)) :
    findFree pvp = some cn := by
  unfold Dosfs.extendfile at succeeded
  split_ifs at succeeded
  revert succeeded
  rcases cacheLastCluster noErrors pvp dep prevcn with ⟨outcome, cached⟩
  intro succeeded
  match outcome with
  | some (some error) => cases succeeded
  | some none => simp at succeeded
  | none =>
    rw [ledgered.clusteralloc_eq] at succeeded
    cases found : findFree pvp with
    | none => simp [found] at succeeded
    | some first =>
      simp only [found] at succeeded
      rw [appendCluster_returns succeeded]

/-- A volume with the same first FAT. -/
structure KeepsFat (before after : DosfsVfs) : Prop where
  data : ∃ device, after = { before with device } ∧
      ByteMemory.AgreeOn (fatBase before) (fatBytes before) device before.device

namespace KeepsFat

theorem refl (pvp : DosfsVfs) : KeepsFat pvp pvp := ⟨⟨pvp.device, rfl, .refl _ _⟩⟩

theorem store {address length : Nat} {buffer : ByteMemory}
    (outside : OutsideFat pvp address length) :
    KeepsFat pvp { pvp with device := pvp.device.store address length buffer } := by
  refine ⟨⟨_, rfl, ByteMemory.agreeOn_store buffer ?_⟩⟩
  rcases outside with before | behind
  · exact .inr before
  · exact .inl behind

theorem trans {middle : DosfsVfs} (first : KeepsFat pvp middle) (second : KeepsFat middle after) :
    KeepsFat pvp after := by
  obtain ⟨device, rfl, agree⟩ := first
  obtain ⟨last, rfl, again⟩ := second
  exact ⟨⟨last, rfl, again.trans agree⟩⟩

section

variable (keeps : KeepsFat pvp after)
include keeps

theorem ledgered (ledgered : Ledgered pvp) : Ledgered after := by
  obtain ⟨device, rfl, agree⟩ := keeps
  exact ledgered.writeData agree

theorem tableEntry (room : FatRoom pvp) (isCluster : IsCluster pvp cn) :
    tableEntry after cn = tableEntry pvp cn := by
  obtain ⟨device, rfl, agree⟩ := keeps
  have same := rawEntry_of_agree room isCluster.2 agree
  unfold Dosfs.tableEntry
  rw [same]
  rfl

theorem isCluster : IsCluster after cn ↔ IsCluster pvp cn := by
  obtain ⟨device, rfl, -⟩ := keeps
  exact Iff.rfl

theorem sameRange : after.vfsMaxcluster = pvp.vfsMaxcluster := by
  obtain ⟨device, rfl, -⟩ := keeps
  rfl

theorem addressable : Addressable after cn ↔ Addressable pvp cn := by
  obtain ⟨device, rfl, -⟩ := keeps
  exact Iff.rfl

end

end KeepsFat

variable {allerror : Option Errno} {chaintofree length eofentry time date : Nat}
  {result : Option Errno × Denode × DosfsVfs}

theorem Ledgered.releaseChain (ledgered : Ledgered pvp)
    (careful : CarefulRelease pvp (tableEntry pvp) chaintofree)
    (returned : releaseChain noErrors pvp dep allerror chaintofree = some result) :
    Ledgered result.2.2 := by
  unfold Dosfs.releaseChain at returned
  split_ifs at returned with notEmpty
  · cases freed : Dosfs.freeclusterchain noErrors pvp chaintofree with
    | none => simp [freed] at returned
    | some after =>
      simp only [freed, map_some, some.injEq] at returned
      subst result
      exact ledgered.freeclusterchain (careful notEmpty.1 notEmpty.2) freed
  · obtain rfl := some.inj returned
    exact ledgered

theorem Freeable.congr {table table' : Nat → Nat} {startcluster : Nat}
    (freeable : Freeable pvp table startcluster)
    (sameRange : after.vfsMaxcluster = pvp.vfsMaxcluster)
    (sameTable : ∀ node, IsCluster pvp node → table' node = table node) :
    Freeable after table' startcluster := by
  obtain ⟨chain, isChain, used⟩ := freeable
  have sameEntries : ∀ node ∈ chain, table' node = table node :=
    fun node member => sameTable node (isChain.valid_of_mem member)
  refine ⟨chain, ?_, fun node member => ?_⟩
  · have sameClusters : IsCluster after = IsCluster pvp := by
      funext node
      rw [IsCluster, IsCluster, sameRange]
    rw [sameClusters]
    exact isChain.congr sameEntries
  · have sameWidth : Addressable after node ↔ Addressable pvp node := by
      rw [Addressable, Addressable, fat12, fat12, sameRange]
    rw [sameEntries node member, sameWidth]
    exact used node member

theorem tableEntry_setEntry_eofe (room : FatRoom pvp) (isCluster : IsCluster pvp cn)
    (addressable : Addressable pvp cn) :
    tableEntry (setEntry pvp cn clustEofe) cn = clustEofe := by
  have stored := @rawEntry_setEntry_same pvp cn clustEofe room isCluster.2 addressable
  unfold tableEntry
  rw [stored]
  change (if fat12 pvp then widen (storedWord pvp clustEofe)
      else storedWord pvp clustEofe) = clustEofe
  unfold storedWord
  split_ifs <;> decide

theorem Ledgered.cutChain (ledgered : Ledgered pvp) (careful : IsCluster pvp eofentry →
    Addressable pvp eofentry ∧ tableEntry pvp eofentry ≠ clustFree ∧ CarefulRelease pvp
        (update (tableEntry pvp) eofentry clustEofe)
        (tableEntry pvp eofentry))
    (returned : cutChain noErrors pvp dep allerror length (some eofentry) chaintofree = some result)
    :
    Ledgered result.2.2 := by
  simp only [Dosfs.cutChain, fatentry_getAndSet_eq] at returned
  by_cases isCluster : IsCluster pvp eofentry
  · obtain ⟨addressable, notFree, release⟩ := careful isCluster
    rw [if_pos isCluster] at returned
    simp only [getD_some, entry_eq_tableEntry addressable] at returned
    have relinked := ledgered.relink isCluster addressable (isFree_eq_false.mpr notFree)
        storedWord_eofe
    refine relinked.releaseChain (fun notEmpty notEnd => ?_) returned
    refine (release notEmpty notEnd).congr rfl fun node isNode => ?_
    by_cases same : node = eofentry
    · rw [same, update_self]
      exact tableEntry_setEntry_eofe ledgered.room isCluster addressable
    · rw [update_of_ne same]
      exact tableEntry_setEntry_other ledgered.room isNode addressable same
  · rw [if_neg isCluster] at returned
    obtain rfl := some.inj returned
    exact ledgered

theorem lbreadErrors_none (bn count : Nat) : lbreadErrors noErrors bn count = none := by
  induction count generalizing bn with
  | zero => rfl
  | succ count ih =>
    rw [lbreadErrors, ih]
    rfl

theorem deupdat_keepsFat {lgeterror : Nat → Option Errno} {time date : Nat}
    (outside : OutsideFat pvp (direntryAddress pvp dep) direntrySize) :
    KeepsFat pvp (deupdat lgeterror pvp dep time date).2.2 := by
  unfold deupdat
  split_ifs
  · exact .refl pvp
  · cases lbreadErrors lgeterror (direntryPlace pvp dep).1 (pvp.vfsBpcluster / vfsBytesPerSec) with
    | some error => exact .refl pvp
    | none => exact .store outside

theorem zeroTail_keepsFat (outside : length &&& pvp.vfsCrbomask ≠ 0 →
    OutsideFat pvp (blockAddress (cntobn pvp eofentry) + (length &&& pvp.vfsCrbomask))
      (pvp.vfsBpcluster - (length &&& pvp.vfsCrbomask))) :
    ∃ cleared, zeroTail noErrors pvp length eofentry = .ok cleared ∧ KeepsFat pvp cleared := by
  simp only [zeroTail, lbreadErrors_none]
  split_ifs with hasTail
  · exact ⟨_, rfl, .store (outside hasTail)⟩
  · exact ⟨_, rfl, .refl pvp⟩

theorem Ledgered.shortenFile {eofentry : Option Nat} (ledgered : Ledgered pvp)
    (entryOutside : OutsideFat pvp (direntryAddress pvp dep) direntrySize)
    (careful :
      match eofentry with
      | none => length = 0 ∧ CarefulRelease pvp (tableEntry pvp) chaintofree
      | some eofentry => CarefulCut pvp length eofentry)
    (returned : shortenFile noErrors pvp dep length eofentry chaintofree time date = some result) :
    Ledgered result.2.2 := by
  have tailOutside : length &&& pvp.vfsCrbomask ≠ 0 → OutsideFat pvp
      (blockAddress (cntobn pvp (eofentry.getD (2 ^ 32 - 1))) + (length &&& pvp.vfsCrbomask))
      (pvp.vfsBpcluster - (length &&& pvp.vfsCrbomask)) := by
    intro hasTail
    cases eofentry with
    | none =>
      rw [careful.1, Nat.zero_and] at hasTail
      exact absurd rfl hasTail
    | some eofentry => exact careful.1 hasTail
  obtain ⟨cleared, zeroed, keepsTail⟩ := zeroTail_keepsFat tailOutside
  simp only [Dosfs.shortenFile, zeroed] at returned
  obtain ⟨device, rfl, agree⟩ := keepsTail
  have keepsEntry := @deupdat_keepsFat { pvp with device }
      { fcPurge dep (((length + pvp.vfsCrbomask) % 2 ^ 32) >>> pvp.vfsCnshift) with
        deDe := setFileSize (fcPurge dep (((length + pvp.vfsCrbomask) % 2 ^ 32) >>>
            pvp.vfsCnshift)).deDe length
        deFlag := (fcPurge dep (((length + pvp.vfsCrbomask) % 2 ^ 32) >>>
            pvp.vfsCnshift)).deFlag ||| deupd }
      noErrors time date entryOutside
  have keeps := KeepsFat.trans ⟨⟨device, rfl, agree⟩⟩ keepsEntry
  have nowLedgered := keeps.ledgered ledgered
  have sameTable : ∀ node, IsCluster pvp node → _ = tableEntry pvp node :=
    fun node isNode => keeps.tableEntry ledgered.room isNode
  cases eofentry with
  | none =>
    refine nowLedgered.releaseChain (fun notEmpty notEnd => ?_) returned
    exact (careful.2 notEmpty notEnd).congr keeps.sameRange sameTable
  | some eofentry =>
    refine nowLedgered.cutChain (fun isCluster => ?_) returned
    rw [keeps.isCluster] at isCluster
    obtain ⟨addressable, notFree, release⟩ := careful.2 isCluster
    refine ⟨keeps.addressable.mpr addressable, ?_, ?_⟩
    · rw [sameTable eofentry isCluster]
      exact notFree
    · rw [sameTable eofentry isCluster]
      intro notEmpty notEnd
      refine (release notEmpty notEnd).congr keeps.sameRange fun node isNode => ?_
      by_cases same : node = eofentry
      · rw [same, update_self, update_self]
      · rw [update_of_ne same, update_of_ne same]
        exact sameTable node isNode

theorem Ledgered.detrunc {prevcn : Nat} (ledgered : Ledgered pvp)
    (careful : CarefulTruncate pvp dep length prevcn)
    (returned : detrunc noErrors pvp dep length prevcn time date = some result) :
    Ledgered result.2.2 := by
  unfold Dosfs.detrunc at returned
  by_cases root : dep.vroot = true
  · rw [if_pos root] at returned
    obtain rfl := some.inj returned
    exact ledgered
  rw [if_neg root] at returned
  obtain ⟨entryOutside, careful⟩ := careful (by simpa using root)
  have samePlace := @sizeDirectory_place pvp dep noErrors prevcn
  revert returned careful samePlace
  rcases sizeDirectory noErrors pvp dep prevcn with ⟨outcome, sizing⟩
  intro returned careful samePlace
  cases outcome with
  | error error =>
    obtain rfl := some.inj returned
    exact ledgered
  | ok sized =>
    have sizedOutside : OutsideFat pvp (direntryAddress pvp sized) direntrySize := by
      rw [samePlace sized rfl]
      exact entryOutside
    simp only at returned
    by_cases fits : deFileSize sized.deDe ≤ length
    · rw [if_pos fits] at returned
      obtain rfl := some.inj returned
      have keeps : KeepsFat pvp (deupdat noErrors pvp
          { sized with deFlag := sized.deFlag ||| deupd } time
          date).2.2 :=
        deupdat_keepsFat sizedOutside
      exact keeps.ledgered ledgered
    rw [if_neg fits] at returned
    obtain ⟨empties, cuts⟩ := careful sized sizing rfl (by omega)
    by_cases toNothing : length = 0
    · rw [if_pos toNothing] at returned
      have emptiedOutside : OutsideFat pvp (direntryAddress pvp
          { sized with deDe := setStartCluster sized.deDe 0 })
          direntrySize :=
        sizedOutside
      refine ledgered.shortenFile emptiedOutside ?_ returned
      exact ⟨toNothing, empties toNothing⟩
    rw [if_neg toNothing] at returned
    have mappedPlace := @pcbmap_place pvp sized noErrors ((length - 1) >>> pvp.vfsCnshift) prevcn
    replace cuts := cuts toNothing
    revert returned cuts mappedPlace
    rcases pcbmap noErrors pvp sized ((length - 1) >>> pvp.vfsCnshift) prevcn
      with ⟨mapping, mapped⟩
    intro returned mappedPlace cuts
    cases mapping with
    | failed error =>
      obtain rfl := some.inj returned
      exact ledgered
    | beyond clusters =>
      obtain rfl := some.inj returned
      exact ledgered
    | found eofentry =>
      refine ledgered.shortenFile ?_ (cuts eofentry mapped rfl) returned
      rw [mappedPlace]
      exact sizedOutside

end Uw7.Dosfs
