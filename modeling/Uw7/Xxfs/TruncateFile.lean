import Uw7.Xxfs.BlockMapRuns
import Uw7.Xxfs.TruncateInode

namespace Uw7.Xxfs

/-!
# Truncation frees the blocks that are not needed

`xx_itrunc` to a shorter length frees each block that the remaining logical
blocks do not need exactly once, and the trees then refer to the others.
-/

open Lib Lib.RadixTree Errno List

/-- The blocks on the way to a logical block. -/
def pathOf (mapped : Mapped) (lbn : Nat) : List Nat :=
  match locate lbn with
  | none => []
  | some (address, key) =>
    path shape (indirectEntry mapped.volume.device)
      (addressDepth address) (mapped.inode.iAddr address) key

def neededBlocks (mapped : Mapped) (count : Nat) : List Nat := (range count).flatMap (pathOf mapped)

def unneededBlocks (mapped : Mapped) (count : Nat) : List Nat :=
  (inodeNodes mapped).filter fun block =>
    decide (block ∉ neededBlocks mapped count)

/-- How many blocks a length needs. -/
def blockCount (length : Nat) : Nat := (length + (xxbsize - 1)) / xxbsize

/-- What a truncation does: it frees exactly the blocks that are not needed,
each once, and none that is still referred to, and the inode then refers to the
others and maps the remaining logical blocks as before. -/
structure TruncatesRight (before : Mapped) (count : Nat) (after : Mapped)
    (freed : List Nat) : Prop where
  frees : ∀ block, block ∈ freed ↔ block ∈ unneededBlocks before count
  once : freed.Nodup
  apart : ∀ block ∈ freed, block ∉ inodeNodes after
  refers : ∀ block, block ∈ inodeNodes after ↔ block ∈ neededBlocks before count
  maps : ∀ lbn, mapping after lbn = if lbn < count then mapping before lbn else 0

/-- The indirect blocks that a truncation reads can be read, and the blocks are
freed safely: `s_free` has room for all of them, or none of them, taken as a
sector number, lies in an indirect block of the inode. -/
structure Unhindered (behaviour : Behaviour) (mapped : Mapped) (count : Nat) : Prop where
  readable : ∀ block ∈ inodeTables mapped, block ∉ neededBlocks mapped count ∨
      0 < count ∧ block ∈ pathOf mapped (count - 1) → behaviour.badRead block = false
  safe : FreesSafely (· ∈ inodeTables mapped) mapped.volume (unneededBlocks mapped count)

variable {mapped : Mapped} {count : Nat} {behaviour : Behaviour}

theorem mem_neededBlocks {block : Nat} : block ∈ neededBlocks mapped count ↔
    ∃ address, address < naddr ∧ block ∈ kept shape (indirectEntry mapped.volume.device)
      (addressDepth address) (mapped.inode.iAddr address) (keepAt count address) := by
  unfold neededBlocks
  simp only [mem_flatMap, mem_range]
  constructor
  · rintro ⟨lbn, below, onPath⟩
    unfold pathOf at onPath
    split at onPath
    · cases onPath
    · rename_i address key found
      obtain ⟨addressBelow, within, eq⟩ := locate_treeBase.1 found
      refine ⟨address, addressBelow, (mem_kept (by decide)).2 ⟨key, ?_, within, onPath⟩⟩
      unfold keepAt
      omega
  · rintro ⟨address, below, member⟩
    obtain ⟨key, keyBelow, within, onPath⟩ := (mem_kept (by decide)).1 member
    refine ⟨treeBase address + key, ?_, ?_⟩
    · unfold keepAt at keyBelow
      omega
    · have found := locate_treeBase.2 ⟨below, within, rfl⟩
      unfold pathOf
      rw [found]
      exact onPath

theorem inodeNodes_perm (mapped : Mapped) (count : Nat) : (inodeNodes mapped).Perm
    ((range naddr).flatMap (fun address =>
      kept shape (indirectEntry mapped.volume.device)
        (addressDepth address) (mapped.inode.iAddr address) (keepAt count address)) ++
      droppedBelow mapped.volume.device mapped.inode.iAddr count naddr) := by
  refine .trans ?_ (flatMap_append_perm _ _ _).symm
  exact Perm.flatMap_left _ fun address _ => nodes_perm _ _ _

theorem unneededBlocks_perm (nodup : (inodeNodes mapped).Nodup) (count : Nat) :
    (unneededBlocks mapped count).Perm (droppedBelow mapped.volume.device mapped.inode.iAddr count
      naddr) := by
  have perm := inodeNodes_perm mapped count
  obtain ⟨_, goneNodup, apart⟩ := nodup_append.1 (perm.nodup_iff.1 nodup)
  refine (perm_ext_iff_of_nodup (nodup.filter _) goneNodup).2 fun block => ?_
  rw [mem_filter, decide_eq_true_eq, mem_neededBlocks, perm.mem_iff, mem_append]
  constructor
  · rintro ⟨isKept | gone, notNeeded⟩
    · obtain ⟨address, below, inside⟩ := mem_flatMap.1 isKept
      exact absurd ⟨address, mem_range.1 below, inside⟩ notNeeded
    · exact gone
  · intro gone
    refine ⟨.inr gone, ?_⟩
    rintro ⟨address, below, inside⟩
    exact apart block (mem_flatMap.2 ⟨address, mem_range.2 below, inside⟩) block gone rfl

theorem Unhindered.ready (unhindered : Unhindered behaviour mapped count)
    (nodup : (inodeNodes mapped).Nodup) :
    TreesReady behaviour (· ∈ inodeTables mapped) mapped.inode.iAddr count mapped.volume naddr where
  nodup := nodup
  tables := fun _ below _ member => mem_inodeTables below member
  readable := by
    rintro address below block member (isDropped | ⟨⟨some', all⟩, onPath⟩)
    · refine unhindered.readable block (mem_inodeTables below member) (.inl ?_)
      have unneeded := (unneededBlocks_perm nodup count).mem_iff.2
          (mem_flatMap.2 ⟨address, mem_range.2 below, isDropped⟩)
      rw [unneededBlocks, mem_filter, decide_eq_true_eq] at unneeded
      exact unneeded.2
    · refine unhindered.readable block (mem_inodeTables below member) (.inr ?_)
      have base : treeBase address + keepAt count address = count := by
        unfold keepAt at some' ⊢
        omega
      have found : locate (count - 1) = some (address, keepAt count address - 1) :=
        locate_treeBase.2 ⟨below, by omega, by omega⟩
      refine ⟨by omega, ?_⟩
      unfold pathOf
      rw [found]
      exact onPath
  safe := unhindered.safe.perm (unneededBlocks_perm nodup count)

theorem truncatedAddr_eq {address : Nat} (iAddr : Nat → Nat) (below : address < naddr) :
    truncatedAddr ((count : Int) - 1) iAddr address =
      if keepAt count address = 0 then 0 else iAddr address := by
  have ten : ndaddr = 10 := rfl
  unfold truncatedAddr
  by_cases direct : address < ndaddr
  · have base := @treeBase_direct address (by omega)
    rw [if_pos direct]
    unfold keepAt
    by_cases beyond : count ≤ address
    · rw [if_pos (by omega), if_pos (by omega)]
    · rw [if_neg (by omega), if_neg (by omega)]
  · have level : ib (address - ndaddr) = address := by
      unfold ib
      omega
    have within : address - ndaddr ≤ triple := by
      simp only [naddr] at below
      simp only [triple]
      omega
    have last := (@ib_spec count (address - ndaddr) within).2
    rw [level] at last
    unfold lastiblockKept at last
    split_ifs at last ⊢ <;> first | rfl | omega

/-- **The trees are cut** by a truncation to a shorter length. -/
theorem truncatesRight (nodup : (inodeNodes mapped).Nodup) (small : count ≤ mappableBlocks)
    (unhindered : Unhindered behaviour mapped count) :
    let done := truncLevels behaviour ((count : Int) - 1) mapped.inode.iAddr
      (triple + 1) { volume := mapped.volume, freed := [] }
    TruncatesRight mapped count
      { volume := done.volume
        inode :=
          { mapped.inode with
            iAddr := truncatedAddr ((count : Int) - 1) mapped.inode.iAddr } }
      done.freed := by
  have reach : naddr = ndaddr + (triple + 1) := rfl
  have ready := unhindered.ready nodup
  have cuts := @truncLevels_right behaviour _ _ count (triple + 1) le_rfl small
      { volume := mapped.volume, freed := [] } ready
  rw [← reach] at cuts
  dsimp only
  generalize truncLevels behaviour ((count : Int) - 1) mapped.inode.iAddr
    (triple + 1) { volume := mapped.volume, freed := [] } = done
    at cuts ⊢
  have perm := inodeNodes_perm mapped count
  obtain ⟨_, goneNodup, apart⟩ := nodup_append.1 (perm.nodup_iff.1 nodup)
  obtain ⟨new, isNew, same⟩ := cuts.frees.freed
  rw [nil_append] at isNew
  rw [isNew]
  have tree (address : Nat) (below : address < naddr) :
      treeNodes done.volume.device (addressDepth address)
        (truncatedAddr ((count : Int) - 1) mapped.inode.iAddr address) =
        kept shape (indirectEntry mapped.volume.device)
          (addressDepth address) (mapped.inode.iAddr address) (keepAt count address) ∧
        ∀ key, key < fsNindir ^ addressDepth address →
          treeWalk done.volume.device (addressDepth address)
            (truncatedAddr ((count : Int) - 1) mapped.inode.iAddr address) key =
            if key < keepAt count address then
              treeWalk mapped.volume.device (addressDepth address) (mapped.inode.iAddr address) key
            else 0 := by
    rw [truncatedAddr_eq _ below]
    split
    · rename_i none'
      rw [none', kept_zero]
      refine ⟨nodes_null _, fun key _ => ?_⟩
      exact walk_null _ key
    · rename_i some'
      have cut := cuts.cut address below (Nat.pos_of_ne_zero some')
      exact ⟨cut.nodes, cut.walk⟩
  have nodes : inodeNodes
      { volume := done.volume
        inode :=
          { mapped.inode with
            iAddr := truncatedAddr ((count : Int) - 1) mapped.inode.iAddr } } =
      (range naddr).flatMap fun address =>
        kept shape (indirectEntry mapped.volume.device)
          (addressDepth address) (mapped.inode.iAddr address) (keepAt count address) :=
    flatMap_congr fun address member => (tree address (mem_range.1 member)).1
  refine ⟨?_, same.nodup_iff.2 goneNodup, ?_, ?_, ?_⟩
  · intro block
    rw [same.mem_iff, (unneededBlocks_perm nodup count).mem_iff]
  · intro block member
    rw [nodes]
    exact fun isKept => apart block isKept block (same.mem_iff.1 member) rfl
  · intro block
    rw [nodes, mem_neededBlocks]
    simp only [mem_flatMap, mem_range]
  · intro lbn
    cases found : locate lbn with
    | none =>
      unfold mapping
      rw [found]
      exact (ite_self 0).symm
    | some place =>
      obtain ⟨address, key⟩ := place
      obtain ⟨below, within, eq⟩ := locate_treeBase.1 found
      rw [mapping_of_locate found, mapping_of_locate found]
      refine ((tree address below).2 key within).trans ?_
      unfold keepAt
      by_cases inside : lbn < count
      · rw [if_pos (by omega), if_pos inside]
        rfl
      · rw [if_neg (by omega), if_neg inside]

/-- Whether the type of a file lets it be truncated. -/
def Truncatable (file : File) (length : Nat) : Prop := file.type = .ifreg ∨ file.type = .ifdir ∨
    (file.type = .iflnk ∧ length = 0)

theorem xxItrunc_shorter (behaviour : Behaviour) {file : File} {length : Nat}
    (truncatable : Truncatable file length) (shorter : length < file.iSize)
    (size : file.iSize < 2 ^ 31) :
    let count := blockCount length
    let done := truncLevels behaviour ((count : Int) - 1) file.mapped.inode.iAddr
      (triple + 1) { volume := file.mapped.volume, freed := [] }
    xxItrunc behaviour file length = (.ok (),
      { file with
        iSize := length
        mapped :=
          { volume := done.volume
            inode :=
              { file.mapped.inode with
                iAddr := truncatedAddr ((count : Int) - 1) file.mapped.inode.iAddr } } },
      done.freed) := by
  have notFifo : file.type ≠ .ififo := by
    rcases truncatable with isReg | isDir | ⟨isLnk, _⟩
    · rw [isReg]
      decide
    · rw [isDir]
      decide
    · rw [isLnk]
      decide
  have allowed : ¬(file.type ≠ .ifreg ∧ file.type ≠ .ifdir ∧
      ¬(file.type = .iflnk ∧ length = 0)) := by
    rintro ⟨notReg, notDir, notLnk⟩
    rcases truncatable with isReg | isDir | isLnk
    · exact notReg isReg
    · exact notDir isDir
    · exact notLnk isLnk
  have last : ((((length + xxbsize - 1) % 2 ^ 32) >>> fsBshift : Nat) : Int) =
      (blockCount length : Nat) := by
    have wide : length + xxbsize - 1 < 2 ^ 32 := by
      simp only [xxbsize]
      omega
    simp only [blockCount, xxbsize, fsBshift]
    omega
  have current : ¬((file.iSize >>> fsBshift : Nat) : Int) < (blockCount length : Nat) - 1 := by
    simp only [blockCount, xxbsize, fsBshift]
    omega
  unfold xxItrunc
  rw [if_neg notFifo, if_neg allowed, if_neg (by omega), if_neg (by omega)]
  dsimp only
  rw [last, if_neg current]

/--
**Truncation frees exactly the right blocks**, for every file whose trees refer
to each block once and every shorter length, when the indirect blocks that are
read can be read and the blocks are freed safely.  The size is an `off_t`.
-/
theorem xxItrunc_right {behaviour : Behaviour} {file : File} {length : Nat}
    (truncatable : Truncatable file length) (shorter : length < file.iSize)
    (size : file.iSize < 2 ^ 31) (nodup : (inodeNodes file.mapped).Nodup)
    (unhindered : Unhindered behaviour file.mapped (blockCount length)) :
    (xxItrunc behaviour file length).1 = .ok () ∧ TruncatesRight file.mapped (blockCount length)
      (xxItrunc behaviour file length).2.1.mapped (xxItrunc behaviour file length).2.2 := by
  have small : blockCount length ≤ mappableBlocks := by
    simp only [blockCount, mappableBlocks, fsNindir, xxbsize]
    omega
  rw [xxItrunc_shorter behaviour truncatable shorter size]
  exact ⟨rfl, truncatesRight nodup small unhindered⟩

/-- A file with block 400 at logical block 11, behind the indirect block 200,
on a volume that lists `listed` blocks. -/
def sampleFile (listed : Nat) : File where
  type := .ifreg
  iSize := 12 * xxbsize
  mapped :=
    { volume :=
        { (sampleUsage listed).volume with
          device := setIndirectEntry (sampleUsage listed).volume.device 200 1 400 }
      inode :=
        { iAddr := fun address => if address = 10 then 200 else 0
          isDir := false } }

theorem xxItrunc_right_room : (xxItrunc goodDevice (sampleFile 1) (11 * xxbsize)).1 = .ok () ∧
    400 ∈ (xxItrunc goodDevice (sampleFile 1) (11 * xxbsize)).2.2 ∧
    mapping (xxItrunc goodDevice (sampleFile 1) (11 * xxbsize)).2.1.mapped 11 = 0 := by
  have nodes : inodeNodes (sampleFile 1).mapped = [200, 400] := by decide +kernel
  have unneeded : unneededBlocks (sampleFile 1).mapped (blockCount (11 * xxbsize)) = [400] := by
    decide +kernel
  obtain ⟨done, right⟩ := @xxItrunc_right goodDevice (sampleFile 1) (11 * xxbsize) (.inl rfl)
    (by decide) (by decide) (by rw [nodes]; decide)
    { readable := fun _ _ _ => rfl
      safe := by exact .inl (by decide +kernel) }
  refine ⟨done, ?_, ?_⟩
  · rw [right.frees, unneeded]
    decide
  · rw [right.maps]
    rfl

/--
Block 400 is freed while `s_free` is full.  The list is written to sector 400,
which is the indirect block 200 that the file keeps, so that logical block 10,
a hole before, is then at block 100.
-/
theorem truncation_overwrites_indirectBlock : Truncatable (sampleFile 99) (11 * xxbsize) ∧
    11 * xxbsize < (sampleFile 99).iSize ∧ MapWell (sampleUsage 99).live (sampleFile 99).mapped ∧
    ¬TruncatesRight (sampleFile 99).mapped (blockCount (11 * xxbsize))
      (xxItrunc goodDevice (sampleFile 99) (11 * xxbsize)).2.1.mapped
      (xxItrunc goodDevice (sampleFile 99) (11 * xxbsize)).2.2 := by
  have nodes : inodeNodes (sampleFile 99).mapped = [200, 400] := by decide +kernel
  have formed : WellFormed (sampleUsage 99) (arrayBlocks sampleFree 99) :=
    sampleUsage_wellFormed (by decide) (by decide +kernel) (by decide +kernel) (by decide +kernel)
  refine ⟨.inl rfl, by decide, ⟨⟨_, formed.onDevice ?_⟩, by decide, ?_, ?_⟩, ?_⟩
  · intro block member
    refine sameBlock_setIndirectEntry _ (by decide) ?_
    rintro rfl
    exact formed.notLive 200 member (.inl rfl)
  · rw [nodes]
    decide
  · rw [nodes]
    intro block member
    simpa [sampleUsage] using member
  · intro right
    have before : mapping (sampleFile 99).mapped 10 = 0 := by decide +kernel
    have after : mapping (xxItrunc goodDevice (sampleFile 99)
        (11 * xxbsize)).2.1.mapped 10 = 100 := by
      decide +kernel
    have maps := right.maps 10
    split at maps <;> omega

end Uw7.Xxfs
