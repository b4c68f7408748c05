import Uw7.Dosfs.FileMap

namespace Uw7.Dosfs

/-!
# The map of a file that grows

A file in a sound state has its chain, its cache and its volume in order.
Lookups keep that state, and `extendfile` adds a cluster to the end of the chain
or fails, as long as the entries it writes are the ones it means to write.
-/

open Lib List Nat

variable {pvp after : DosfsVfs} {dep : Denode} {chain : List Nat}
variable {cn value : Nat} {lgeterror : Nat → Option Errno}

/-- The numbers of a volume that a mount computes. -/
structure SoundVolume (pvp : DosfsVfs) : Prop where
  marks : BelowMarks pvp
  clusterBytes : pvp.vfsBpcluster = 2 ^ pvp.vfsCnshift
  mask : pvp.vfsCrbomask = pvp.vfsBpcluster - 1
  behind : pvp.vfsFatblk + pvp.vfsFatsecs ≤ pvp.vfsFirstcluster
  fits : pvp.vfsMaxcluster * pvp.vfsSectPerClust + pvp.vfsFirstcluster < 2 ^ 32

/--
A file with a chain on a volume whose free clusters are accounted for; the
directory entry of the file does not lie in the FAT.
-/
structure SoundFile (pvp : DosfsVfs) (dep : Denode) (chain : List Nat) : Prop where
  volume : SoundVolume pvp
  ledgered : Ledgered pvp
  notRoot : dep.vroot = false
  entryOutside : OutsideFat pvp (direntryAddress pvp dep) direntrySize
  fileChain : FileChain pvp dep chain

/-- The cache of the file holds places of its chain only. -/
structure MapSound (pvp : DosfsVfs) (dep : Denode)
    (chain : List Nat) : Prop extends SoundFile pvp dep chain where
  cache : CacheRight dep chain

/-- Another state of the denode of a file, with its directory entry in place. -/
structure SameFile (before after : Denode) : Prop where
  vroot : after.vroot = before.vroot
  deDirclust : after.deDirclust = before.deDirclust
  deDiroffset : after.deDiroffset = before.deDiroffset

namespace SameFile

theorem refl (dep : Denode) : SameFile dep dep := ⟨rfl, rfl, rfl⟩

end SameFile

namespace SoundVolume

theorem congr (volume : SoundVolume pvp) (layout : SameLayout pvp after) : SoundVolume after := by
  obtain ⟨_, _, _, rfl⟩ := layout
  exact ⟨volume.marks, volume.clusterBytes, volume.mask, volume.behind, volume.fits⟩

theorem outsideFat (volume : SoundVolume pvp) (isCluster : IsCluster pvp cn) (offset length : Nat) :
    OutsideFat pvp (blockAddress (cntobn pvp cn) + offset) length := by
  obtain ⟨lower, upper⟩ := isCluster
  have inside : (cn - clustFirst) * pvp.vfsSectPerClust ≤ pvp.vfsMaxcluster * pvp.vfsSectPerClust :=
    Nat.mul_le_mul_right _ (by omega)
  have fits := volume.fits
  have block : cntobn pvp cn = (cn - clustFirst) * pvp.vfsSectPerClust + pvp.vfsFirstcluster := by
    have wrapped : cn + (2 ^ 32 - clustFirst) = (cn - clustFirst) + 2 ^ 32 := by
      simp only [clustFirst] at lower ⊢
      omega
    rw [cntobn, wrapped, Nat.add_mul, Nat.add_right_comm, add_mul_mod_self_left]
    exact mod_eq_of_lt (by omega)
  right
  have behind := volume.behind
  rw [block, fatBase, fatBytes]
  simp only [blockAddress, vfsBytesPerSec]
  omega

end SoundVolume

theorem KeepsFat.sameLayout (keeps : KeepsFat pvp after) : SameLayout pvp after := by
  obtain ⟨device, rfl, -⟩ := keeps
  exact ⟨device, pvp.vfsInusemap, pvp.vfsFreeclustercount, rfl⟩

variable {other : Denode}

theorem FileChain.congr (fileChain : FileChain pvp dep chain)
    (layout : SameLayout pvp after)
    (sameStart : deStartCluster other.deDe = deStartCluster dep.deDe)
    (sameTable : ∀ cn ∈ chain, tableEntry after cn = tableEntry pvp cn) :
    FileChain after other chain := by
  have sameClusters : IsCluster after = IsCluster pvp := by
    funext cn
    exact propext layout.isCluster
  cases fileChain with
  | empty noStart => exact .empty (sameStart.trans noStart)
  | linked isChain isLast ended =>
    refine .linked ?_ isLast ?_
    · rw [sameStart, sameClusters]
      exact isChain.congr sameTable
    · rw [sameTable _ (List.mem_of_getLast? isLast)]
      exact ended

theorem outsideFat_congr (outside : OutsideFat pvp (direntryAddress pvp dep) direntrySize)
    (layout : SameLayout pvp after) (same : SameFile dep other) :
    OutsideFat after (direntryAddress after other) direntrySize := by
  obtain ⟨_, _, _, rfl⟩ := layout
  have samePlace : direntryPlace pvp other = direntryPlace pvp dep := by
    rw [direntryPlace, direntryPlace, same.deDirclust, same.deDiroffset]
  have sameAddress : direntryAddress pvp other = direntryAddress pvp dep := by
    rw [direntryAddress, direntryAddress, samePlace]
  rw [← sameAddress] at outside
  exact outside

namespace MapSound

theorem keep (sound : MapSound pvp dep chain) (layout : SameLayout pvp after)
    (ledgered : Ledgered after) (same : SameFile dep other)
    (sameStart : deStartCluster other.deDe = deStartCluster dep.deDe)
    (sameTable : ∀ cn ∈ chain, tableEntry after cn = tableEntry pvp cn)
    (cache : CacheRight other chain) :
    MapSound after other chain where
  volume := sound.volume.congr layout
  ledgered := ledgered
  notRoot := same.vroot.trans sound.notRoot
  entryOutside := outsideFat_congr sound.entryOutside layout same
  fileChain := sound.fileChain.congr layout sameStart sameTable
  cache := cache

theorem withDenode (sound : MapSound pvp dep chain) (same : SameFile dep other)
    (sameStart : deStartCluster other.deDe = deStartCluster dep.deDe)
    (cache : CacheRight other chain) :
    MapSound pvp other chain :=
  sound.keep (.refl pvp) sound.ledgered same sameStart (fun _ _ => rfl) cache

theorem keepsFat (sound : MapSound pvp dep chain) (keeps : KeepsFat pvp after) :
    MapSound after dep chain :=
  sound.keep keeps.sameLayout (keeps.ledgered sound.ledgered) (.refl dep) rfl (fun _ member =>
    keeps.tableEntry sound.ledgered.room (sound.fileChain.isCluster member))
    sound.cache

end MapSound

theorem sameFile_pcbmap (lgeterror : Nat → Option Errno) (findcn prevcn : Nat) :
    SameFile dep (pcbmap lgeterror pvp dep findcn prevcn).2 := by
  obtain ⟨deFc, same⟩ := @pcbmap_cache pvp dep lgeterror findcn prevcn
  rw [same]
  exact ⟨rfl, rfl, rfl⟩

theorem MapSound.pcbmap (sound : MapSound pvp dep chain) (lgeterror : Nat → Option Errno)
    (findcn prevcn : Nat) :
    MapSound pvp (Dosfs.pcbmap lgeterror pvp dep findcn prevcn).2 chain :=
  sound.withDenode (sameFile_pcbmap lgeterror findcn prevcn)
    (congrArg deStartCluster (pcbmap_deDe lgeterror findcn prevcn))
    (sound.fileChain.cacheRight_pcbmap sound.volume.marks sound.cache lgeterror findcn prevcn)

theorem MapSound.pcbmap_end (sound : MapSound pvp dep chain) (notEmpty : chain ≠ [])
    (lgeterror : Nat → Option Errno) (prevcn : Nat) :
    (∃ error, (Dosfs.pcbmap lgeterror pvp dep 0xffff prevcn).1 = .failed error) ∨
      ((Dosfs.pcbmap lgeterror pvp dep 0xffff prevcn).1 = .beyond chain.length ∧
        ((Dosfs.pcbmap lgeterror pvp dep 0xffff prevcn).2.deFc fcLastfc).fcFrcn ≠ fceEmpty) := by
  obtain ⟨right, -, entered⟩ := sound.fileChain.pcbmap sound.volume.marks sound.cache notEmpty
    lgeterror 0xffff prevcn
  have short := sound.fileChain.length_lt sound.volume.marks
  revert right entered
  cases (Dosfs.pcbmap lgeterror pvp dep 0xffff prevcn).1 with
  | failed error => exact fun _ _ => .inl ⟨error, rfl⟩
  | found cn =>
    intro right _
    have inside := (List.getElem?_eq_some_iff.mp right).1
    omega
  | beyond clusters =>
    rintro ⟨rfl, -⟩ entered
    exact .inr ⟨rfl, entered _ rfl⟩

/-- The number of a cluster is stored in an entry as it is. -/
def Linkable (pvp : DosfsVfs) (cn : Nat) : Prop := fat12 pvp = true → cn < 0xff0

theorem tableEntry_setEntry_link {last : Nat} (room : FatRoom pvp) (isLast : IsCluster pvp last)
    (lastAddressable : Addressable pvp last) (linkable : Linkable pvp cn)
    (addressable : Addressable pvp cn) :
    tableEntry (setEntry pvp last cn) last = cn := by
  have stored := @rawEntry_setEntry_same pvp last cn room isLast.2 lastAddressable
  unfold tableEntry
  rw [stored]
  change (if fat12 pvp then widen (storedWord pvp cn) else storedWord pvp cn) = cn
  unfold storedWord
  split_ifs with twelve
  · have small := linkable twelve
    rw [mod_eq_of_lt (by omega), widen, if_neg]
    intro reserved
    have below := @Nat.and_le_left cn 0x0ff0
    omega
  · rcases addressable with isTwelve | small
    · exact absurd isTwelve twelve
    · exact mod_eq_of_lt (by omega)

theorem clusteralloc_ok {fillwith : Nat} (succeeded :
    clusteralloc lgeterror pvp fillwith = .ok (cn, after)) :
    findFree pvp = some cn ∧ after = markInUse (setEntry pvp cn fillwith) cn := by
  unfold clusteralloc at succeeded
  cases found : findFree pvp with
  | none => simp [found] at succeeded
  | some first =>
    simp only [found] at succeeded
    cases written : fatentry lgeterror pvp fatSet first false fillwith with
    | error error => simp [written] at succeeded
    | ok contents =>
      obtain ⟨-, -, rfl⟩ := fatentry_ok written
      simp only [written, Except.ok.injEq, Prod.mk.injEq] at succeeded
      obtain ⟨rfl, rfl⟩ := succeeded
      exact ⟨rfl, rfl⟩

/-- The state once a cluster was allocated for the file. -/
structure Allocates (pvp : DosfsVfs) (cn : Nat) (after : DosfsVfs) : Prop where
  layout : SameLayout pvp after
  ledgered : Ledgered after
  isCluster : IsCluster pvp cn
  addressable : Addressable pvp cn
  wasFree : tableEntry pvp cn = clustFree
  ended : tableEntry after cn = clustEofe
  others : ∀ other, IsCluster pvp other → other ≠ cn → tableEntry after other = tableEntry pvp other

theorem Ledgered.allocates (ledgered : Ledgered pvp)
    (addressable : ∀ cn, LowestFree pvp cn → Addressable pvp cn)
    (succeeded : Dosfs.clusteralloc lgeterror pvp clustEofe = .ok (cn, after)) :
    Allocates pvp cn after ∧ LowestFree pvp cn := by
  obtain ⟨found, rfl⟩ := clusteralloc_ok succeeded
  have lowest := ledgered.findFree_lowestFree found
  have isCluster := lowest.1
  have free := lowest.2.1
  have reached := addressable cn lowest
  refine ⟨?_, lowest⟩
  exact
    { layout := sameLayout_markInUse
      ledgered := ledgered.allocate isCluster reached (isFree_iff.mpr free) storedWord_eofe
      isCluster := isCluster
      addressable := reached
      wasFree := free
      ended := by
        rw [tableEntry_markInUse]
        exact tableEntry_setEntry_eofe ledgered.room isCluster reached
      others := fun other isOther different => by
        rw [tableEntry_markInUse]
        exact tableEntry_setEntry_other ledgered.room isOther reached different }

theorem deStartCluster_setStartCluster (de : ByteMemory) (small : cn < 2 ^ 16) :
    deStartCluster (setStartCluster de cn) = cn := by
  rw [deStartCluster, setStartCluster, ByteMemory.readLe_writeLe]
  exact mod_eq_of_lt small

theorem deStartCluster_setFileSize (de : ByteMemory) (size : Nat) :
    deStartCluster (setFileSize de size) = deStartCluster de :=
  ByteMemory.readLe_congr (ByteMemory.agreeOn_writeLe (.inl (by decide)))

theorem deStartCluster_setDosTime (de : ByteMemory) (time date : Nat) :
    deStartCluster (setDosTime de time date) = deStartCluster de := by
  have second : deStartCluster (setDosTime de time date) = deStartCluster (de.writeLe 22 time 2) :=
    ByteMemory.readLe_congr (ByteMemory.agreeOn_writeLe (.inr (by decide)))
  rw [second]
  exact ByteMemory.readLe_congr (ByteMemory.agreeOn_writeLe (.inr (by decide)))

theorem MapSound.cacheLastCluster (sound : MapSound pvp dep chain) (lgeterror : Nat → Option Errno)
    (prevcn : Nat) :
    MapSound pvp (cacheLastCluster lgeterror pvp dep prevcn).2 chain ∧ ((∃ error,
      (Dosfs.cacheLastCluster lgeterror pvp dep prevcn).1 = some (some error)) ∨
      ((Dosfs.cacheLastCluster lgeterror pvp dep prevcn).1 = none ∧ (chain ≠ [] →
        ((Dosfs.cacheLastCluster lgeterror pvp dep prevcn).2.deFc
          fcLastfc).fcFrcn ≠ fceEmpty))) := by
  unfold Dosfs.cacheLastCluster
  split_ifs with unknown
  · have notEmpty : chain ≠ [] := fun isEmpty =>
      unknown.2 (sound.fileChain.start_eq_zero_iff.mpr isEmpty)
    have mapped := sound.pcbmap lgeterror 0xffff prevcn
    have ends := sound.pcbmap_end notEmpty lgeterror prevcn
    revert mapped ends
    rcases Dosfs.pcbmap lgeterror pvp dep 0xffff prevcn with
      ⟨mapping, mapped⟩
    rintro mappedSound (⟨error, rfl⟩ | ⟨rfl, entered⟩)
    · exact ⟨mappedSound, .inl ⟨error, rfl⟩⟩
    · exact ⟨mappedSound, .inr ⟨rfl, fun _ => entered⟩⟩
  · refine ⟨sound, .inr ⟨rfl, fun notEmpty isEmpty => ?_⟩⟩
    exact unknown ⟨isEmpty, fun noStart => notEmpty (sound.fileChain.start_eq_zero_iff.mp noStart)⟩

theorem chain_single (marks : BelowMarks pvp) (isCluster : IsCluster pvp cn)
    (ended : tableEntry pvp cn = clustEofe) :
    Chain (tableEntry pvp) (IsCluster pvp) cn [cn] := by
  refine .link isCluster (.stop ?_)
  rw [ended]
  exact not_isCluster_mark marks (by decide)

theorem MapSound.startFile (sound : MapSound pvp dep []) (allocates : Allocates pvp cn after) :
    MapSound after (fcSetcache { dep with deDe := setStartCluster dep.deDe cn } fcLastfc 0 cn)
      [cn] := by
  have marks := (sound.volume.congr allocates.layout).marks
  have isCluster := allocates.layout.isCluster.mpr allocates.isCluster
  have small := cluster_lt_word marks isCluster
  have started : deStartCluster (setStartCluster dep.deDe cn) = cn :=
    deStartCluster_setStartCluster dep.deDe small
  exact
    { volume := sound.volume.congr allocates.layout
      ledgered := allocates.ledgered
      notRoot := sound.notRoot
      entryOutside := outsideFat_congr sound.entryOutside allocates.layout ⟨rfl, rfl, rfl⟩
      fileChain := by
        have isMark : dosfseof (tableEntry after cn) = true := by
          rw [allocates.ended]
          decide
        refine .linked ?_ (by simp) isMark
        change Chain (tableEntry after) (IsCluster after)
          (deStartCluster (setStartCluster dep.deDe cn)) [cn]
        rw [started]
        exact chain_single marks isCluster allocates.ended
      cache := .setLastFc (fun notEmpty => by
        have entered := sound.cache.lastMap notEmpty
        simp at entered)
        rfl rfl (by decide) small }

theorem MapSound.linkCluster (sound : MapSound pvp dep chain)
    (known : (dep.deFc fcLastfc).fcFrcn ≠ fceEmpty) (isCluster : IsCluster pvp cn)
    (ended : tableEntry pvp cn = clustEofe) (fresh : cn ∉ chain) (addressable : Addressable pvp cn)
    (linkable : Linkable pvp cn) (lastAddressable : Addressable pvp (dep.deFc fcLastfc).fcFsrcn) :
    MapSound (setEntry pvp (dep.deFc fcLastfc).fcFsrcn cn)
      (fcSetcache dep fcLastfc ((dep.deFc fcLastfc).fcFrcn + 1) cn)
      (chain ++ [cn]) := by
  obtain ⟨found, isLast⟩ := sound.cache.lastFc known
  have lastMember := mem_of_getElem? found
  have lastCluster := sound.fileChain.isCluster lastMember
  have room := sound.ledgered.room
  have marks := sound.volume.marks
  have linked : tableEntry (setEntry pvp (dep.deFc fcLastfc).fcFsrcn cn)
      (dep.deFc fcLastfc).fcFsrcn = cn :=
    tableEntry_setEntry_link room lastCluster lastAddressable linkable addressable
  have others : ∀ other, IsCluster pvp other → other ≠ (dep.deFc fcLastfc).fcFsrcn →
      tableEntry (setEntry pvp (dep.deFc fcLastfc).fcFsrcn cn) other = tableEntry pvp other :=
    fun other isOther different => tableEntry_setEntry_other room isOther lastAddressable different
  have stillEnded : tableEntry (setEntry pvp (dep.deFc fcLastfc).fcFsrcn cn) cn =
        clustEofe := by
    rw [others cn isCluster (fun same => fresh (same ▸ lastMember))]
    exact ended
  have short := sound.fileChain.length_lt marks
  have small := cluster_lt_word marks isCluster
  exact
    { volume := sound.volume.congr sameLayout_setEntry
      ledgered := sound.ledgered.relink lastCluster lastAddressable
        (isFree_eq_false.mpr (sound.fileChain.used lastMember))
        (storedWord_cluster isCluster addressable)
      notRoot := sound.notRoot
      entryOutside := outsideFat_congr sound.entryOutside sameLayout_setEntry ⟨rfl, rfl, rfl⟩
      fileChain := by
        have isMark : dosfseof (tableEntry (setEntry pvp (dep.deFc fcLastfc).fcFsrcn cn) cn) =
              true := by
          rw [stillEnded]
          decide
        refine .linked ?_ (by simp) isMark
        have spliced := sound.fileChain.isChain.splice found (fun other member different =>
            others other (sound.fileChain.isCluster member) different)
            (show Chain (tableEntry (setEntry pvp (dep.deFc fcLastfc).fcFsrcn cn)) (IsCluster pvp)
              (tableEntry (setEntry pvp (dep.deFc fcLastfc).fcFsrcn cn)
                (dep.deFc fcLastfc).fcFsrcn) [cn] by
              rw [linked]
              exact @chain_single (setEntry pvp (dep.deFc fcLastfc).fcFsrcn cn) cn marks
                isCluster stillEnded)
        rw [isLast, take_length] at spliced
        exact spliced
      cache := by
        have kept : ∀ {index node : Nat}, chain[index]? = some node →
            (chain ++ [cn])[index]? = some node := by
          intro index node inChain
          have inside := (List.getElem?_eq_some_iff.mp inChain).1
          rw [List.getElem?_append_left inside]
          exact inChain
        refine .setLastFc (fun notEmpty => ?_) ?_ ?_ (by omega) small
        · exact kept (sound.cache.lastMap notEmpty)
        · rw [isLast, List.getElem?_append_right le_rfl, Nat.sub_self]
          rfl
        · rw [isLast, length_append]
          rfl }

theorem clusterfree_ok (succeeded : clusterfree lgeterror pvp cn = .ok after) :
    after = markFree (setEntry pvp cn clustFree) cn := by
  unfold clusterfree at succeeded
  cases written : fatentry lgeterror pvp fatSet cn false clustFree with
  | error error => simp [written] at succeeded
  | ok contents =>
    obtain ⟨-, -, rfl⟩ := fatentry_ok written
    simp only [written, Except.ok.injEq] at succeeded
    exact succeeded.symm

theorem MapSound.fresh (sound : MapSound pvp dep chain) (free : tableEntry pvp cn = clustFree) :
    cn ∉ chain :=
  fun member => sound.fileChain.used member free

theorem MapSound.allocated (sound : MapSound pvp dep chain) (allocates : Allocates pvp cn after) :
    MapSound after dep chain :=
  sound.keep allocates.layout allocates.ledgered (.refl dep) rfl (fun other member =>
    allocates.others other (sound.fileChain.isCluster member)
      fun same => sound.fresh allocates.wasFree (same ▸ member))
    sound.cache

theorem MapSound.givenBack (sound : MapSound pvp dep chain) (allocates : Allocates pvp cn after) :
    MapSound (markFree (setEntry after cn clustFree) cn) dep chain := by
  have kept := sound.allocated allocates
  have isCluster := allocates.layout.isCluster.mpr allocates.isCluster
  have addressable := allocates.layout.addressable.mpr allocates.addressable
  have used : isFree after cn = false := by
    rw [isFree_eq_false, allocates.ended]
    decide
  refine kept.keep sameLayout_markFree
    (kept.ledgered.release isCluster addressable used) (.refl dep) rfl
    (fun other member => ?_) kept.cache
  rw [tableEntry_markFree]
  exact tableEntry_setEntry_other kept.ledgered.room (kept.fileChain.isCluster member) addressable
    fun same => sound.fresh allocates.wasFree (same ▸ member)

/-- The file has the chain as before, or one cluster more that is returned. -/
def Extends (chain : List Nat) (result : Except Errno (Option Nat) × Denode × DosfsVfs) : Prop :=
  ((∃ error, result.1 = .error error) ∧ MapSound result.2.2 result.2.1 chain) ∨
    ∃ cn, result.1 = .ok (some cn) ∧ MapSound result.2.2 result.2.1 (chain ++ [cn])

theorem MapSound.appendCluster (sound : MapSound pvp dep chain) (allocates : Allocates pvp cn after)
    (known : chain ≠ [] → (dep.deFc fcLastfc).fcFrcn ≠ fceEmpty)
    (linkable : chain ≠ [] → Linkable pvp cn)
    (lastAddressable : ∀ last, chain.getLast? = some last → Addressable pvp last) :
    Extends chain (appendCluster lgeterror after dep cn) := by
  unfold Dosfs.appendCluster
  split_ifs with noStart
  · obtain rfl := sound.fileChain.start_eq_zero_iff.mp noStart
    exact .inr ⟨cn, rfl, sound.startFile allocates⟩
  · have notEmpty : chain ≠ [] := fun isEmpty =>
      noStart (sound.fileChain.start_eq_zero_iff.mpr isEmpty)
    have lastKnown := known notEmpty
    cases written : fatentry lgeterror after fatSet (dep.deFc fcLastfc).fcFsrcn false cn with
    | error error =>
      simp only
      cases freed : clusterfree lgeterror after cn with
      | error failed => exact .inl ⟨⟨error, rfl⟩, sound.allocated allocates⟩
      | ok released =>
        obtain rfl := clusterfree_ok freed
        exact .inl ⟨⟨error, rfl⟩, sound.givenBack allocates⟩
    | ok contents =>
      obtain ⟨-, -, rfl⟩ := fatentry_ok written
      refine .inr ⟨cn, rfl, ?_⟩
      obtain ⟨found, isLast⟩ := sound.cache.lastFc lastKnown
      have last : chain.getLast? = some (dep.deFc fcLastfc).fcFsrcn := by
        rw [getLast?_eq_getElem?, ← isLast, Nat.add_sub_cancel]
        exact found
      have layout := allocates.layout
      have linkableAfter : Linkable after cn := by
        obtain ⟨_, _, _, rfl⟩ := layout
        exact linkable notEmpty
      exact (sound.allocated allocates).linkCluster lastKnown
        (layout.isCluster.mpr allocates.isCluster) allocates.ended
        (sound.fresh allocates.wasFree)
        (layout.addressable.mpr allocates.addressable) linkableAfter
        (layout.addressable.mpr (lastAddressable _ last))

/-- The entries that an extension writes are the ones it means to write. -/
def ExtendReaches (pvp : DosfsVfs) (chain : List Nat) : Prop := ∀ cn, LowestFree pvp cn →
    Addressable pvp cn ∧ (chain ≠ [] → Linkable pvp cn) ∧
      ∀ last, chain.getLast? = some last → Addressable pvp last

theorem MapSound.extendfile (sound : MapSound pvp dep chain) (reaches : ExtendReaches pvp chain)
    (lgeterror : Nat → Option Errno) (prevcn : Nat) :
    Extends chain (extendfile lgeterror pvp dep prevcn) := by
  unfold Dosfs.extendfile
  rw [if_neg (by simp [sound.notRoot])]
  have filled := sound.cacheLastCluster lgeterror prevcn
  revert filled
  rcases Dosfs.cacheLastCluster lgeterror pvp dep prevcn with
    ⟨outcome, cached⟩
  rintro ⟨cachedSound, ⟨error, rfl⟩ | ⟨rfl, known⟩⟩
  · exact .inl ⟨⟨error, rfl⟩, cachedSound⟩
  · cases allocation : clusteralloc lgeterror pvp clustEofe with
    | error error => exact .inl ⟨⟨error, rfl⟩, cachedSound⟩
    | ok allocated =>
      obtain ⟨cn, volume⟩ := allocated
      obtain ⟨allocates, lowest⟩ :=
        sound.ledgered.allocates (fun cn lowest => (reaches cn lowest).1) allocation
      obtain ⟨-, linkable, lastAddressable⟩ := reaches cn lowest
      exact cachedSound.appendCluster allocates known linkable lastAddressable

end Uw7.Dosfs
