import Uw7.Dosfs.AccountingRuns
import Uw7.Dosfs.FileMapGrowth

namespace Uw7.Dosfs

/-!
# The map of a file over runs of its operations

`detrunc` keeps the part of the chain that the new length needs and purges the
cache of the rest.  In every run of lookups, extensions and truncations that
write the entries they mean to write, `pcbmap` answers from the chain that is in
the FAT, except in a directory that has lost its clusters: its start cluster is
the one that stands for the root directory.
-/

open Lib List Nat Option

variable {pvp after : DosfsVfs} {dep : Denode} {chain : List Nat}
variable {cn : Nat} {lgeterror : Nat → Option Errno}

theorem deupdat_denode (lgeterror : Nat → Option Errno) (pvp : DosfsVfs) (dep : Denode)
    (time date : Nat) :
    SameFile dep (deupdat lgeterror pvp dep time date).2.1 ∧
      deStartCluster (deupdat lgeterror pvp dep time date).2.1.deDe = deStartCluster dep.deDe ∧
      (deupdat lgeterror pvp dep time date).2.1.deFc = dep.deFc := by
  unfold deupdat
  split_ifs
  · exact ⟨.refl dep, rfl, rfl⟩
  · cases lbreadErrors lgeterror (direntryPlace pvp dep).1 (pvp.vfsBpcluster / vfsBytesPerSec) with
    | some error => exact ⟨.refl dep, rfl, rfl⟩
    | none => exact ⟨⟨rfl, rfl, rfl⟩, deStartCluster_setDosTime _ _ _, rfl⟩

theorem MapSound.deupdat (sound : MapSound pvp dep chain) (lgeterror : Nat → Option Errno)
    (time date : Nat) :
    MapSound (Dosfs.deupdat lgeterror pvp dep time date).2.2
      (Dosfs.deupdat lgeterror pvp dep time date).2.1 chain := by
  obtain ⟨same, sameStart, sameCache⟩ := deupdat_denode lgeterror pvp dep time date
  exact (sound.keepsFat (deupdat_keepsFat sound.entryOutside)).withDenode same
    sameStart (sound.cache.congr sameCache)

variable {length eofentry : Nat} {slot : Fin 2}

theorem SoundVolume.zeroTail (volume : SoundVolume pvp)
    (hasTail : length &&& pvp.vfsCrbomask ≠ 0 → IsCluster pvp eofentry)
    (cleared : zeroTail lgeterror pvp length eofentry = .ok after) :
    KeepsFat pvp after := by
  simp only [Dosfs.zeroTail] at cleared
  split_ifs at cleared with offset
  · cases errors : lbreadErrors lgeterror (cntobn pvp eofentry)
      (pvp.vfsBpcluster / vfsBytesPerSec) with
    | some error => simp [errors] at cleared
    | none =>
      simp only [errors, Except.ok.injEq] at cleared
      subst after
      exact .store (volume.outsideFat (hasTail offset) _ _)
  · obtain rfl := Except.ok.inj cleared
    exact .refl pvp

theorem MapSound.releaseChain {chaintofree : Nat} {rest : List Nat} (sound : MapSound pvp dep chain)
    (isChain : Chain (tableEntry pvp) (IsCluster pvp) chaintofree rest)
    (used : ∀ cn ∈ rest, tableEntry pvp cn ≠ clustFree ∧ Addressable pvp cn)
    (apart : ∀ cn ∈ chain, cn ∉ rest) (lgeterror : Nat → Option Errno) (allerror : Option Errno) :
    ∃ result, releaseChain lgeterror pvp dep allerror chaintofree = some result ∧
      MapSound result.2.2 result.2.1 chain := by
  unfold Dosfs.releaseChain
  split_ifs with notEmpty
  · obtain ⟨freed, released⟩ := isSome_iff_exists.mp
      (freeclusterchain_isSome lgeterror sound.ledgered.room chaintofree)
    obtain ⟨ledgered, kept, layout⟩ := sound.ledgered.freeChainLoop isChain used released
    refine ⟨_, by rw [released]; rfl, ?_⟩
    exact sound.keep layout ledgered (.refl dep) rfl (fun cn member =>
      kept cn (sound.fileChain.isCluster member) (apart cn member))
      sound.cache
  · exact ⟨_, rfl, sound⟩

theorem MapSound.cut {index : Nat} (sound : MapSound pvp dep chain)
    (found : chain[index]? = some eofentry) (addressable : Addressable pvp eofentry)
    (mapped : (dep.deFc fcLastmap).fcFrcn ≠ fceEmpty → (dep.deFc fcLastmap).fcFrcn < index + 1) :
    MapSound (setEntry pvp eofentry clustEofe) (fcSetcache dep fcLastfc index eofentry)
      (chain.take (index + 1)) := by
  have member := mem_of_getElem? found
  have isCluster := sound.fileChain.isCluster member
  have room := sound.ledgered.room
  have marks := sound.volume.marks
  have inside := (List.getElem?_eq_some_iff.mp found).1
  have ended : tableEntry (setEntry pvp eofentry clustEofe) eofentry =
        clustEofe :=
    tableEntry_setEntry_eofe room isCluster addressable
  have isMark : dosfseof (tableEntry (setEntry pvp eofentry clustEofe) eofentry) =
        true := by
    rw [ended]
    decide
  have inTake : ∀ {place node : Nat}, place < index + 1 → chain[place]? = some node →
      (chain.take (index + 1))[place]? = some node := by
    intro place node before inChain
    rw [List.getElem?_take_of_lt before]
    exact inChain
  have last : (chain.take (index + 1)).length = index + 1 := by
    rw [length_take]
    omega
  have short := sound.fileChain.length_lt marks
  have small := cluster_lt_word marks isCluster
  exact
    { volume := sound.volume.congr sameLayout_setEntry
      ledgered := sound.ledgered.relink isCluster addressable
        (isFree_eq_false.mpr (sound.fileChain.used member))
        storedWord_eofe
      notRoot := sound.notRoot
      entryOutside := outsideFat_congr sound.entryOutside sameLayout_setEntry ⟨rfl, rfl, rfl⟩
      fileChain := by
        have isLast : (chain.take (index + 1)).getLast? = some eofentry := by
          rw [getLast?_eq_getElem?, last, Nat.add_sub_cancel]
          exact inTake (lt_succ_self index) found
        refine .linked ?_ isLast isMark
        have spliced := sound.fileChain.isChain.splice found (fun other inChain different =>
            tableEntry_setEntry_other room
              (sound.fileChain.isCluster inChain) addressable different)
            (.stop (@not_isCluster_mark (setEntry pvp eofentry clustEofe) _ marks isMark))
        rw [append_nil] at spliced
        exact spliced
      cache := .setLastFc (fun notEmpty =>
        inTake (mapped notEmpty) (sound.cache.lastMap notEmpty))
        (inTake (lt_succ_self index) found) last.symm (by omega)
        small }

theorem MapSound.cutChain (sound : MapSound pvp dep chain)
    (found : chain[(length - 1) >>> pvp.vfsCnshift]? = some eofentry)
    (addressable : ∀ cn ∈ chain.drop ((length - 1) >>> pvp.vfsCnshift), Addressable pvp cn)
    (mapped : (dep.deFc fcLastmap).fcFrcn ≠ fceEmpty → (dep.deFc fcLastmap).fcFrcn <
      (length - 1) >>> pvp.vfsCnshift + 1) (lgeterror : Nat → Option Errno)
    (allerror : Option Errno) (chaintofree : Nat) :
    ∃ result kept, cutChain lgeterror pvp dep allerror length (some eofentry)
      chaintofree = some result ∧
      MapSound result.2.2 result.2.1 (chain.take kept) := by
  simp only [Dosfs.cutChain]
  cases written : fatentry lgeterror pvp fatGetAndSet eofentry true clustEofe with
  | error error => exact ⟨_, chain.length, rfl, by rw [take_length]; exact sound⟩
  | ok contents =>
    obtain ⟨-, -, rfl⟩ := fatentry_ok written
    obtain ⟨inside, isEntry⟩ := List.getElem?_eq_some_iff.mp found
    have inDrop : eofentry ∈ chain.drop ((length - 1) >>> pvp.vfsCnshift) := by
      rw [drop_eq_getElem_cons inside, isEntry]
      exact mem_cons_self
    have reached := addressable eofentry inDrop
    have shortened := sound.cut found reached mapped
    have distinct : ∀ cn ∈ chain.take ((length - 1) >>> pvp.vfsCnshift + 1),
        cn ∉ chain.drop ((length - 1) >>> pvp.vfsCnshift + 1) := by
      have nodup := sound.fileChain.isChain.nodup
      rw [← take_append_drop ((length - 1) >>> pvp.vfsCnshift + 1) chain] at nodup
      exact fun cn first second => (nodup_append.mp nodup).2.2 cn first cn second rfl
    have eofentryFirst : eofentry ∈ chain.take ((length - 1) >>> pvp.vfsCnshift + 1) := by
      rw [take_succ_eq_append_getElem inside, isEntry]
      simp
    have restSame : ∀ cn ∈ chain.drop ((length - 1) >>> pvp.vfsCnshift + 1),
        tableEntry (setEntry pvp eofentry clustEofe) cn = tableEntry pvp cn := by
      intro cn inRest
      refine tableEntry_setEntry_other sound.ledgered.room
        (sound.fileChain.isCluster (mem_of_mem_drop inRest))
        reached ?_
      rintro rfl
      exact distinct cn eofentryFirst inRest
    have old : (fatentryResult pvp fatGetAndSet eofentry clustEofe).1.getD 0 =
        tableEntry pvp eofentry :=
      entry_eq_tableEntry reached
    obtain ⟨result, returned, released⟩ := shortened.releaseChain
      ((sound.fileChain.isChain.rest_of_getElem? found).congr restSame)
      (fun cn inRest => by
        rw [restSame cn inRest]
        refine ⟨sound.fileChain.used (mem_of_mem_drop inRest), addressable cn ?_⟩
        rw [drop_eq_getElem_cons inside]
        exact mem_cons_of_mem _ inRest)
      distinct lgeterror allerror
    refine ⟨result, (length - 1) >>> pvp.vfsCnshift + 1, ?_, released⟩
    simp only [old]
    exact returned

theorem fcPurge_lt {frcn : Nat} (notEmpty : ((fcPurge dep frcn).deFc slot).fcFrcn ≠ fceEmpty) :
    ((fcPurge dep frcn).deFc slot).fcFrcn < frcn := by
  simp only [fcPurge] at notEmpty ⊢
  split_ifs at notEmpty ⊢ with purged
  · exact absurd rfl notEmpty
  · by_contra behind
    exact purged ⟨notEmpty, not_lt.mp behind⟩

theorem SoundVolume.purged_le (volume : SoundVolume pvp) (length : Nat) :
    ((length + pvp.vfsCrbomask) % 2 ^ 32) >>> pvp.vfsCnshift ≤
      (length + (2 ^ pvp.vfsCnshift - 1)) / 2 ^ pvp.vfsCnshift := by
  rw [volume.mask, volume.clusterBytes, shiftRight_eq_div_pow]
  exact Nat.div_le_div_right (mod_le _ _)

theorem clusters_for {bytes : Nat} (positive : 0 < length) (hasBytes : 0 < bytes) :
    (length + (bytes - 1)) / bytes = (length - 1) / bytes + 1 := by
  rw [← add_div_right _ hasBytes]
  congr 1
  omega

/-- The denode of a file while it is shortened. -/
def shortening (pvp : DosfsVfs) (dep : Denode) (length : Nat) : Denode :=
  { fcPurge dep (((length + pvp.vfsCrbomask) % 2 ^ 32) >>> pvp.vfsCnshift) with
    deDe := setFileSize dep.deDe length
    deFlag := dep.deFlag ||| deupd }

theorem SoundVolume.shortening_lt (volume : SoundVolume pvp) (positive : 0 < length)
    (notEmpty : ((shortening pvp dep length).deFc slot).fcFrcn ≠ fceEmpty) :
    ((shortening pvp dep length).deFc slot).fcFrcn < (length - 1) >>> pvp.vfsCnshift + 1 := by
  have before : ((shortening pvp dep length).deFc slot).fcFrcn <
      ((length + pvp.vfsCrbomask) % 2 ^ 32) >>> pvp.vfsCnshift :=
    fcPurge_lt notEmpty
  refine before.trans_le ((volume.purged_le length).trans ?_)
  rw [clusters_for positive (Nat.two_pow_pos _), shiftRight_eq_div_pow]

theorem MapSound.shortenFile (sound : MapSound pvp dep chain) (positive : 0 < length)
    (found : chain[(length - 1) >>> pvp.vfsCnshift]? = some eofentry)
    (addressable : ∀ cn ∈ chain.drop ((length - 1) >>> pvp.vfsCnshift), Addressable pvp cn)
    (lgeterror : Nat → Option Errno) (chaintofree time date : Nat) :
    ∃ result kept, shortenFile lgeterror pvp dep length (some eofentry) chaintofree
      time date = some result ∧
      MapSound result.2.2 result.2.1 (chain.take kept) := by
  have isCluster := sound.fileChain.isCluster (mem_of_getElem? found)
  simp only [Dosfs.shortenFile, getD_some]
  cases cleared : Dosfs.zeroTail lgeterror pvp length eofentry with
  | error error =>
    have purged : MapSound pvp (fcPurge dep (((length + pvp.vfsCrbomask) % 2 ^ 32) >>>
        pvp.vfsCnshift))
        chain :=
      sound.withDenode ⟨rfl, rfl, rfl⟩ rfl (sound.cache.purge _)
    exact ⟨_, chain.length, rfl, by rw [take_length]; exact purged⟩
  | ok clearedVolume =>
    have keeps := sound.volume.zeroTail (fun _ => isCluster) cleared
    have written : MapSound clearedVolume (shortening pvp dep length) chain :=
      (sound.keepsFat keeps).withDenode ⟨rfl, rfl, rfl⟩ (deStartCluster_setFileSize _ _)
        ((sound.cache.purge (((length + pvp.vfsCrbomask) % 2 ^ 32) >>> pvp.vfsCnshift)).congr rfl)
    have updated := written.deupdat lgeterror time date
    have layout := keeps.trans (@deupdat_keepsFat clearedVolume (shortening pvp dep length)
        lgeterror time date written.entryOutside) |>.sameLayout
    have sameCache := (deupdat_denode lgeterror clearedVolume
        (shortening pvp dep length) time date).2.2
    have sameShift := layout.vfsCnshift
    rw [← sameShift] at found
    refine updated.cutChain found ?_ ?_ lgeterror _ chaintofree
    · rw [sameShift]
      exact fun cn inDrop => layout.addressable.mpr (addressable cn inDrop)
    · rw [sameCache, sameShift]
      exact sound.volume.shortening_lt positive

theorem MapSound.emptyFile (sound : MapSound pvp dep chain)
    (addressable : ∀ cn ∈ chain, Addressable pvp cn) (lgeterror : Nat → Option Errno)
    (time date : Nat) :
    ∃ result, Dosfs.shortenFile lgeterror pvp { dep with deDe := setStartCluster dep.deDe 0 } 0 none
      (deStartCluster dep.deDe) time date = some result ∧
      MapSound result.2.2 result.2.1 [] := by
  have notKept : ∀ slot, ((shortening pvp { dep with deDe := setStartCluster dep.deDe 0 } 0).deFc
      slot).fcFrcn = fceEmpty := by
    intro slot
    by_contra notEmpty
    have before := fcPurge_lt notEmpty
    have none : (0 + (2 ^ pvp.vfsCnshift - 1)) / 2 ^ pvp.vfsCnshift = 0 := by
      rw [zero_add]
      exact div_eq_of_lt (sub_lt (Nat.two_pow_pos _) one_pos)
    have purged := sound.volume.purged_le 0
    omega
  have emptied : MapSound pvp (shortening pvp
      { dep with deDe := setStartCluster dep.deDe 0 } 0) [] :=
    { sound with
      fileChain := by
        refine .empty ?_
        exact (deStartCluster_setFileSize _ _).trans
          (deStartCluster_setStartCluster dep.deDe (by decide))
      cache := ⟨fun notEmpty => absurd (notKept _) notEmpty,
        fun notEmpty => absurd (notKept _) notEmpty⟩ }
  have updated := emptied.deupdat lgeterror time date
  have keeps := @deupdat_keepsFat pvp (shortening pvp
      { dep with deDe := setStartCluster dep.deDe 0 } 0)
      lgeterror time date emptied.entryOutside
  have sameTable : ∀ cn ∈ chain, _ = tableEntry pvp cn := fun cn member =>
      keeps.tableEntry sound.ledgered.room (sound.fileChain.isCluster member)
  have sameClusters : IsCluster _ = IsCluster pvp := funext fun cn => propext keeps.isCluster
  obtain ⟨result, returned, released⟩ := updated.releaseChain (by
    rw [sameClusters]
    exact sound.fileChain.isChain.congr sameTable)
    (fun cn member => by
      rw [sameTable cn member, keeps.addressable]
      exact ⟨sound.fileChain.used member, addressable cn member⟩)
    (by simp) lgeterror _
  refine ⟨result, ?_, released⟩
  rw [← returned]
  simp only [Dosfs.shortenFile, Dosfs.zeroTail, zero_and, ne_eq,
    not_true_eq_false, if_false, Dosfs.cutChain]
  rfl

/-- The size of a file as `detrunc` takes it; a directory stores none. -/
def fileBytes (pvp : DosfsVfs) (dep : Denode) (chain : List Nat) : Nat :=
  if isadir dep then
    chain.length <<< pvp.vfsCnshift % 2 ^ 32
  else
    deFileSize dep.deDe

theorem MapSound.sizeDirectory (sound : MapSound pvp dep chain)
    (hasCluster : isadir dep = true → chain ≠ []) (lgeterror : Nat → Option Errno) (prevcn : Nat) :
    (∃ error sizing, sizeDirectory lgeterror pvp dep prevcn = (.error error, sizing) ∧
      MapSound pvp sizing chain) ∨
      ∃ sized sizing, Dosfs.sizeDirectory lgeterror pvp dep prevcn = (.ok sized, sizing) ∧
        MapSound pvp sized chain ∧
        (isadir sized = true → chain ≠ []) ∧
        deFileSize sized.deDe = fileBytes pvp dep chain := by
  simp only [Dosfs.sizeDirectory, fileBytes]
  cases isDirectory : isadir dep with
  | false => exact .inr ⟨dep, dep, rfl, sound, hasCluster, rfl⟩
  | true =>
    have mapped := sound.pcbmap lgeterror 0xffff prevcn
    have ends := sound.pcbmap_end (hasCluster isDirectory) lgeterror prevcn
    revert mapped ends
    rcases Dosfs.pcbmap lgeterror pvp dep 0xffff prevcn with
      ⟨mapping, mapped⟩
    rintro mappedSound (⟨error, rfl⟩ | ⟨rfl, -⟩)
    · exact .inl ⟨error, mapped, rfl, mappedSound⟩
    · refine .inr ⟨_, mapped, rfl, ?_, fun _ => hasCluster isDirectory, ?_⟩
      · exact mappedSound.withDenode ⟨rfl, rfl, rfl⟩ (deStartCluster_setFileSize _ _)
          (mappedSound.cache.congr rfl)
      · exact ByteMemory.readLe_writeLe _ _ _

/--
A directory that is truncated has a cluster, and the entries that the truncation
writes are the ones it means to write.
-/
def TruncateReaches (pvp : DosfsVfs) (dep : Denode) (chain : List Nat) (length : Nat) : Prop :=
  (isadir dep = true → chain ≠ []) ∧ (length < fileBytes pvp dep chain →
      ∀ cn ∈ chain.drop ((length - 1) >>> pvp.vfsCnshift), Addressable pvp cn)

theorem MapSound.detrunc (sound : MapSound pvp dep chain)
    (reaches : TruncateReaches pvp dep chain length) (lgeterror : Nat → Option Errno)
    (prevcn time date : Nat) :
    ∃ result kept, detrunc lgeterror pvp dep length prevcn time date = some result ∧
      MapSound result.2.2 result.2.1 (chain.take kept) := by
  have whole : ∀ {volume : DosfsVfs} {denode : Denode}, MapSound volume denode chain →
      MapSound volume denode (chain.take chain.length) := by
    intro volume denode kept
    rw [take_length]
    exact kept
  unfold Dosfs.detrunc
  rw [if_neg (by simp [sound.notRoot])]
  rcases sound.sizeDirectory reaches.1 lgeterror prevcn with
    ⟨error, sizing, sizes, sizingSound⟩ | ⟨sized, sizing, sizes, sizedSound, sizedCluster, bytes⟩
  · simp only [sizes]
    exact ⟨_, _, rfl, whole sizingSound⟩
  simp only [sizes, bytes]
  split_ifs with long toNothing
  · have marked : MapSound pvp { sized with deFlag := sized.deFlag ||| deupd }
          chain :=
      sizedSound.withDenode ⟨rfl, rfl, rfl⟩ rfl (sizedSound.cache.congr rfl)
    exact ⟨_, _, rfl, whole (marked.deupdat lgeterror time date)⟩
  · subst toNothing
    have addressable := reaches.2 (by omega)
    rw [Nat.zero_sub, zero_shiftRight, drop_zero] at addressable
    obtain ⟨result, returned, emptied⟩ := sizedSound.emptyFile addressable lgeterror time date
    exact ⟨result, 0, returned, emptied⟩
  · have addressable := reaches.2 (by omega)
    have mapped := sizedSound.pcbmap lgeterror ((length - 1) >>> pvp.vfsCnshift) prevcn
    have right := (sizedSound.fileChain.mapsRight_iff sizedSound.volume.marks
        sizedSound.cache).mpr sizedCluster lgeterror
        ((length - 1) >>> pvp.vfsCnshift) prevcn
    revert mapped right
    rcases Dosfs.pcbmap lgeterror pvp sized ((length - 1) >>> pvp.vfsCnshift)
      prevcn with ⟨mapping, mapped⟩
    intro mappedSound right
    cases mapping with
    | failed error => exact ⟨_, _, rfl, whole mappedSound⟩
    | beyond clusters => exact ⟨_, _, rfl, whole mappedSound⟩
    | found eofentry =>
      exact mappedSound.shortenFile (Nat.pos_of_ne_zero toNothing) right
        addressable lgeterror 0 time date

/-- The operations on a file, each with the read errors that it meets. -/
inductive FileOperation where
  | lookup (lgeterror : Nat → Option Errno) (findcn prevcn : Nat)
  | extend (lgeterror : Nat → Option Errno) (prevcn : Nat)
  | truncate (lgeterror : Nat → Option Errno) (length prevcn time date : Nat)

abbrev OpenFile := DosfsVfs × Denode

/-- The volume and the denode after an operation. -/
def performOn (file : OpenFile) : FileOperation → Option OpenFile
  | .lookup lgeterror findcn prevcn =>
    some (file.1, (pcbmap lgeterror file.1 file.2 findcn prevcn).2)
  | .extend lgeterror prevcn =>
    let result := extendfile lgeterror file.1 file.2 prevcn
    some (result.2.2, result.2.1)
  | .truncate lgeterror length prevcn time date =>
    (detrunc lgeterror file.1 file.2 length prevcn time date).map
      fun result => (result.2.2, result.2.1)

def FileStep (before : OpenFile) (operation : FileOperation) (after : OpenFile) : Prop :=
  performOn before operation = some after

def Reaches (before : OpenFile) (operation : FileOperation) : Prop := ∀ chain,
    FileChain before.1 before.2 chain →
    match operation with
    | .lookup _ _ _ => True
    | .extend _ _ => ExtendReaches before.1 chain
    | .truncate _ length _ _ _ => TruncateReaches before.1 before.2 chain length

theorem MapSound.performOn {file : OpenFile} (sound : MapSound file.1 file.2 chain)
    (operation : FileOperation) (reaches : Reaches file operation) :
    ∃ after chain', performOn file operation = some after ∧ MapSound after.1 after.2 chain' := by
  have condition := reaches chain sound.fileChain
  cases operation with
  | lookup lgeterror findcn prevcn => exact ⟨_, chain, rfl, sound.pcbmap lgeterror findcn prevcn⟩
  | extend lgeterror prevcn =>
    rcases sound.extendfile condition lgeterror prevcn with
      ⟨-, kept⟩ | ⟨cn, -, extended⟩
    · exact ⟨_, chain, rfl, kept⟩
    · exact ⟨_, chain ++ [cn], rfl, extended⟩
  | truncate lgeterror length prevcn time date =>
    obtain ⟨result, kept, truncates, truncated⟩ :=
      sound.detrunc condition lgeterror prevcn time date
    refine ⟨(result.2.2, result.2.1), chain.take kept, ?_, truncated⟩
    rw [Dosfs.performOn, truncates]
    rfl

/-- The file has a chain, and its cache is right. -/
def HasMap (file : OpenFile) : Prop := ∃ chain, MapSound file.1 file.2 chain

theorem HasMap.step {before after : OpenFile} {operation : FileOperation} (mapped : HasMap before)
    (taken : Guarded FileStep Reaches before operation after) :
    HasMap after := by
  obtain ⟨chain, sound⟩ := mapped
  obtain ⟨reached, next, performed, nextSound⟩ := sound.performOn operation taken.2
  obtain rfl := Option.some.inj (performed.symm.trans taken.1)
  exact ⟨next, nextSound⟩

theorem SoundFile.mapSound_fcPurge (sound : SoundFile pvp dep chain) :
    MapSound pvp (fcPurge dep 0) chain where
  __ := sound
  fileChain := sound.fileChain.congr (.refl pvp) rfl fun _ _ => rfl
  cache := ⟨fun notEmpty => absurd (fcPurge_lt notEmpty) (Nat.not_lt_zero _),
    fun notEmpty => absurd (fcPurge_lt notEmpty) (Nat.not_lt_zero _)⟩

theorem fillinusemap_fields {volume mounted : DosfsVfs}
    (mount : fillinusemap noErrors volume = .ok mounted) :
    ∃ vfsInusemap vfsFreeclustercount,
      mounted = { volume with vfsInusemap, vfsFreeclustercount } := by
  have scans : ∀ (count cn : Nat) (start : DosfsVfs),
      scanFat noErrors cn count start = .ok mounted →
      ∃ vfsInusemap vfsFreeclustercount, mounted =
        { start with vfsInusemap, vfsFreeclustercount } := by
    intro count
    induction count with
    | zero =>
      intro cn start scanned
      obtain rfl := Except.ok.inj scanned
      exact ⟨start.vfsInusemap, start.vfsFreeclustercount, rfl⟩
    | succ count ih =>
      intro cn start scanned
      rw [scanFat, lookUpEntry_eq] at scanned
      obtain ⟨map, free, rfl⟩ := ih _ _ scanned
      split_ifs <;> exact ⟨map, free, rfl⟩
  obtain ⟨map, free, rfl⟩ := scans _ _ _ mount
  exact ⟨map, free, rfl⟩

theorem soundFile_of_mount {volume mounted : DosfsVfs} (room : FatRoom volume)
    (mount : fillinusemap noErrors volume = .ok mounted) (numbers : SoundVolume volume)
    (notRoot : dep.vroot = false)
    (entryOutside : OutsideFat volume (direntryAddress volume dep) direntrySize)
    (fileChain : FileChain volume dep chain) :
    SoundFile mounted dep chain ∧ SameLayout volume mounted := by
  have ledgered := ledgered_of_mount room mount
  obtain ⟨map, free, rfl⟩ := fillinusemap_fields mount
  have layout : SameLayout volume
      { volume with
        vfsInusemap := map, vfsFreeclustercount := free } :=
    ⟨_, _, _, rfl⟩
  refine ⟨?_, layout⟩
  exact
    { volume := numbers.congr layout
      ledgered := ledgered
      notRoot := notRoot
      entryOutside := outsideFat_congr entryOutside layout (.refl dep)
      fileChain := fileChain.congr layout rfl fun _ _ => rfl }

theorem soundVolume_sample : SoundVolume (sampleVfs 100 1) :=
  ⟨by unfold BelowMarks; decide, by decide, by decide, by decide, by decide⟩

/-- The empty file once a cluster was added to it. -/
def sampleGrown : Option OpenFile :=
  match fillinusemap noErrors (sampleVfs 100 1) with
  | .error _ => none
  | .ok mounted => performOn (mounted, fcPurge sampleDenode 0) (.extend noErrors 0)

theorem sampleGrown_maps : sampleGrown.any (fun file =>
    !isadir file.2 && (pcbmap noErrors file.1 file.2 0 0).1 == .found 2) = true := by
  decide +kernel

/-- A volume whose cluster 2 is the only one of a file. -/
def directoryVfs : DosfsVfs :=
  { sampleVfs 100 1 with
    device := fun address =>
        if address = 515 then 0xff else if address = 516 then 0x0f else 0 }

def sampleDirectory : Denode :=
  { sampleDenode with
    deDe := fun offset =>
        if offset = 11 then 0x10 else if offset = 26 then 2 else 0 }

/-- The directory once it was truncated to length 0. -/
def directoryEmptied : Option OpenFile :=
  match fillinusemap noErrors directoryVfs with
  | .error _ => none
  | .ok mounted => performOn (mounted, fcPurge sampleDirectory 0) (.truncate noErrors 0 0 0 0)

theorem directoryEmptied_maps : directoryEmptied.any (fun file =>
    deStartCluster file.2.deDe == 0 && (pcbmap noErrors file.1 file.2 0 0).1 == .found dosfsRoot) =
    true := by
  decide +kernel

end Uw7.Dosfs
