import Uw7.Xxfs.BlockMapInode

namespace Uw7.Xxfs

/-!
# Runs of `xx_bmap`

An inode is mapped for read and write while other files take blocks, write and
free.  Until the inode's own blocks are freed or its indirect blocks written
over, a logical block that was mapped stays where it is, and no two logical
blocks share a block.
-/

open Lib Lib.RadixTree Errno List

/-- The block a place leads to. -/
def placeWalk (mapped : Mapped) (place : Nat × Nat) : Nat :=
  treeWalk mapped.volume.device (addressDepth place.1) (mapped.inode.iAddr place.1) place.2

variable {lbn address block one : Nat} {mapped : Mapped} {live : Nat → Prop} {before : MapUsage}
  {after : Usage} {blocks : List Nat} {action : Action}

theorem mapping_of_locate {place : Nat × Nat} (found : locate lbn = some place) (mapped : Mapped) :
    mapping mapped lbn = placeWalk mapped place := by
  unfold mapping
  rw [found]
  rfl

theorem trees_same {before after : Mapped} {address : Nat}
    (root : after.inode.iAddr address = before.inode.iAddr address)
    (same : ∀ block ∈ treeTables before.volume.device (addressDepth address)
      (before.inode.iAddr address),
      SameBlock block after.volume.device before.volume.device) :
    treeNodes after.volume.device (addressDepth address) (after.inode.iAddr address) =
      treeNodes before.volume.device (addressDepth address) (before.inode.iAddr address) ∧
      treeTables after.volume.device (addressDepth address) (after.inode.iAddr address) =
        treeTables before.volume.device (addressDepth address) (before.inode.iAddr address) ∧
      ∀ key, key < fsNindir ^ addressDepth address →
        placeWalk after (address, key) = placeWalk before (address, key) := by
  have entries : ∀ node ∈ treeTables before.volume.device (addressDepth address)
      (before.inode.iAddr address),
      ∀ index, index < fsNindir → indirectEntry after.volume.device node index =
        indirectEntry before.volume.device node index :=
    fun node member index within => indirectEntry_congr (same node member) within
  simp only [placeWalk]
  rw [root]
  exact ⟨(nodes_congr entries).1, (nodes_congr entries).2,
    fun key within => walk_congr entries within⟩

theorem mem_inodeNodes (below : address < naddr) (member :
    block ∈ treeNodes mapped.volume.device (addressDepth address) (mapped.inode.iAddr address)) :
    block ∈ inodeNodes mapped :=
  mem_flatMap.2 ⟨address, mem_range.2 below, member⟩

theorem mem_inodeTables (below : address < naddr) (member :
    block ∈ treeTables mapped.volume.device (addressDepth address) (mapped.inode.iAddr address)) :
    block ∈ inodeTables mapped :=
  mem_flatMap.2 ⟨address, mem_range.2 below, member⟩

theorem inodeNodes_of_inodeTables (member : block ∈ inodeTables mapped) :
    block ∈ inodeNodes mapped := by
  obtain ⟨address, below, inside⟩ := mem_flatMap.1 member
  exact mem_inodeNodes (mem_range.1 below) (nodes_of_tables inside)

theorem MapWell.apart (well : MapWell live mapped) {two : Nat} (oneBelow : one < naddr)
    (twoBelow : two < naddr)
    (inOne : block ∈ treeNodes mapped.volume.device (addressDepth one) (mapped.inode.iAddr one))
    (inTwo : block ∈ treeNodes mapped.volume.device (addressDepth two) (mapped.inode.iAddr two)) :
    one = two :=
  eq_of_mem_lists (nodup_flatMap.1 well.nodup).2 oneBelow twoBelow inOne inTwo

theorem MapWell.treeNodup (well : MapWell live mapped) (below : address < naddr) :
    (treeNodes mapped.volume.device (addressDepth address) (mapped.inode.iAddr address)).Nodup :=
  (nodup_flatMap.1 well.nodup).1 address (mem_range.2 below)

/-- **Distinct logical blocks** are at distinct blocks, and none at an indirect
block. -/
theorem mapping_injective (well : MapWell live mapped) (present : mapping mapped one ≠ 0) :
    mapping mapped one ∉ inodeTables mapped ∧
      ∀ two, mapping mapped two = mapping mapped one → two = one := by
  cases found : locate one with
  | none =>
    unfold mapping at present
    rw [found] at present
    exact absurd rfl present
  | some place =>
    obtain ⟨address, key⟩ := place
    obtain ⟨below, within, _, _⟩ := locate_eq_some found
    rw [mapping_of_locate found] at present ⊢
    have inside := walk_mem_nodes within present
    constructor
    · intro isTable
      obtain ⟨other, otherBelow, inOther⟩ := mem_flatMap.1 isTable
      have same := well.apart below (mem_range.1 otherBelow) inside (nodes_of_tables inOther)
      subst same
      exact walk_notMem_tables (well.treeNodup below) within present inOther
    · intro two sameBlock
      cases foundTwo : locate two with
      | none =>
        unfold mapping at sameBlock
        rw [foundTwo] at sameBlock
        exact absurd sameBlock.symm present
      | some placeTwo =>
        obtain ⟨other, otherKey⟩ := placeTwo
        obtain ⟨otherBelow, otherWithin, _, _⟩ := locate_eq_some foundTwo
        rw [mapping_of_locate foundTwo] at sameBlock
        have presentTwo : placeWalk mapped (other, otherKey) ≠ 0 := by rwa [sameBlock]
        have insideTwo := walk_mem_nodes otherWithin presentTwo
        have same : other = address := by
          change placeWalk mapped (other, otherKey) ∈
            treeNodes mapped.volume.device (addressDepth other)
              (mapped.inode.iAddr other) at insideTwo
          rw [sameBlock] at insideTwo
          exact well.apart otherBelow below insideTwo inside
        subst same
        have sameKey := walk_injective (well.treeNodup below) otherWithin within
            presentTwo sameBlock
        subst sameKey
        exact locate_injective foundTwo found

/-- What holds after a logical block was fetched for write. -/
structure MapWrites (live : Nat → Prop) (before : Mapped) (lbn : Nat)
    (result : Except Errno (Option Nat))
    (after : Mapped) : Prop where
  well : MapWell (fun block => block ∈ inodeNodes after ∨ live block) after
  others : ∀ other, other ≠ lbn → mapping after other = mapping before other
  found :
    match result with
    | .ok (some nb) =>
      nb ≠ 0 ∧ mapping after lbn = nb ∧ (mapping before lbn ≠ 0 → mapping before lbn = nb)
    | .ok none => False
    | .error error => error ≠ EFBIG ∧ mapping after lbn = mapping before lbn

/-- **Mapping a logical block for write** keeps the inode well and every other
logical block where it was. -/
theorem mapWrites (behaviour : Behaviour) (well : MapWell live mapped)
    (mappable : locate lbn ≠ none) :
    MapWrites live mapped lbn (xxBmap behaviour mapped lbn .bWrite).1
      (xxBmap behaviour mapped lbn .bWrite).2 := by
  obtain ⟨⟨address, key⟩, located⟩ := Option.ne_none_iff_exists'.1 mappable
  obtain ⟨below, within, _, _⟩ := locate_eq_some located
  obtain ⟨root, new, roots, grows, walks⟩ := xxBmap_write behaviour well located
  generalize xxBmap behaviour mapped lbn .bWrite = outcome at roots grows walks ⊢
  obtain ⟨result, after⟩ := outcome
  have own : after.inode.iAddr address = root := by rw [roots, Function.update_self]
  have elsewhere : ∀ other, other < naddr → other ≠ address →
      treeNodes after.volume.device (addressDepth other) (after.inode.iAddr other) =
        treeNodes mapped.volume.device (addressDepth other) (mapped.inode.iAddr other) ∧
        ∀ otherKey, otherKey < fsNindir ^ addressDepth other → placeWalk after (other, otherKey) =
          placeWalk mapped (other, otherKey) := by
    intro other otherBelow different
    have same := @trees_same mapped after other
        (by rw [roots, Function.update_of_ne different]) fun block member =>
        grows.frame block (well.held block (mem_inodeNodes otherBelow (nodes_of_tables member)))
          fun inGrown =>
            different (well.apart otherBelow below (nodes_of_tables member)
              (nodes_of_tables inGrown))
    exact ⟨same.1, same.2.2⟩
  have perm : (inodeNodes after).Perm (new ++ inodeNodes mapped) := by
    refine flatMap_perm_at nodup_range (mem_range.2 below) (fun other member different =>
      (elsewhere other (mem_range.1 member) different).1) ?_
    rw [own]
    exact grows.perm
  refine ⟨⟨?_, ?_, ?_, fun block member => .inl member⟩, ?_, ?_⟩
  · obtain ⟨blocks, formed⟩ := grows.formed
    refine ⟨blocks, formed.live fun block member => ?_⟩
    rcases member with inNodes | isLive
    · rcases mem_append.1 (perm.subset inNodes) with inNew | old
      · exact .inl inNew
      · exact .inr (well.held block old)
    · exact .inr isLive
  · rw [grows.size]
    exact well.small
  · refine perm.nodup_iff.2 (nodup_append.2 ⟨grows.nodup, well.nodup, ?_⟩)
    rintro block inNew _ old rfl
    exact grows.fresh block inNew (well.held block old)
  · intro other different
    cases found : locate other with
    | none =>
      unfold mapping
      rw [found]
    | some otherPlace =>
      obtain ⟨otherAddress, otherKey⟩ := otherPlace
      obtain ⟨otherBelow, otherWithin, _, _⟩ := locate_eq_some found
      rw [mapping_of_locate found, mapping_of_locate found]
      by_cases same : otherAddress = address
      · subst same
        simp only [placeWalk]
        rw [own]
        refine walks.1 otherKey otherWithin ?_
        rintro rfl
        exact different (locate_injective found located)
      · exact (elsewhere _ otherBelow same).2 otherKey otherWithin
  · rw [mapping_of_locate located, mapping_of_locate located]
    simp only [placeWalk]
    rw [own]
    exact walks.2

/-- An inode on a volume, and the blocks that files hold. -/
structure MapUsage where
  mapped : Mapped
  live : Nat → Prop

/-- What happens on the volume of an inode. -/
inductive MapAction where
  | bmap (lbn : Nat) (rw : Rw)
  | other (action : Action)

/-- The inode after a call of `xx_bmap`. -/
def afterBmap (behaviour : Behaviour) (before : MapUsage) (lbn : Nat) (rw : Rw) : MapUsage where
  mapped := (xxBmap behaviour before.mapped lbn rw).2
  live := fun block =>
    block ∈ inodeNodes (xxBmap behaviour before.mapped lbn rw).2 ∨ before.live block

/-- A call of `xx_bmap` on the inode, or an operation on the volume. -/
inductive MapStep (before : MapUsage) : MapAction → MapUsage → Prop where
  | bmap (behaviour : Behaviour) (lbn : Nat) (rw : Rw) :
      MapStep before (.bmap lbn rw) (afterBmap behaviour before lbn rw)
  | other {action : Action} {after : Usage} (taken :
      Step ⟨before.mapped.volume, before.live⟩ action after) :
      MapStep before (.other action)
        { mapped := { before.mapped with volume := after.volume }
          live := after.live }

/-- The inode is not truncated: its blocks are not freed, its indirect blocks
are not written over, and no other file frees a block while `s_free` is full. -/
def NotTruncated (before : MapUsage) : MapAction → Prop
  | .other (.freed block) =>
    block ∉ inodeNodes before.mapped ∧ before.mapped.volume.fp.sNfree < xxnicfree
  | .other (.wrote block) => block ∉ inodeTables before.mapped
  | _ => True

theorem xxBlkalloc_fsize (volume : Volume) (onDisk : ByteMemory) :
    (xxBlkalloc volume onDisk).2.fp.sFsize = volume.fp.sFsize := by
  have loaded (bno nfree : Nat) :
      (dropEntry volume bno nfree onDisk).fp.sFsize = volume.fp.sFsize := by
    unfold dropEntry
    split <;> rfl
  unfold xxBlkalloc
  split
  · rfl
  · rename_i bno nfree _
    dsimp only
    split <;> exact loaded bno nfree

theorem Step.size {before : Usage} (formed : WellFormed before blocks)
    (taken : Step before action after) (noSpill : NoSpill before action) :
    after.volume.fp.sFsize = before.volume.fp.sFsize := by
  cases taken with
  | allocated onDisk result | noSpace onDisk result =>
    have same := xxBlkalloc_fsize before.volume onDisk
    rwa [result] at same
  | @freed block buffer held usable =>
    have notFree : block ∉ blocks := fun member => formed.notLive block member held
    exact (xxBlkfree_freeList formed.list usable notFree noSpill buffer).2.2.fsize
  | wrote buffer held => rfl

theorem otherStep (well : MapWell before.live before.mapped)
    (taken : Step ⟨before.mapped.volume, before.live⟩ action after)
    (kept : NotTruncated before (.other action)) :
    MapWell after.live { before.mapped with volume := after.volume } ∧ ∀ lbn,
      mapping { before.mapped with volume := after.volume } lbn = mapping before.mapped lbn := by
  obtain ⟨blocks, formed⟩ := well.formed
  have noSpill : NoSpill ⟨before.mapped.volume, before.live⟩ action := by
    cases action with
    | freed block => exact kept.2
    | _ => trivial
  obtain ⟨next, _, keeps⟩ := Step.wellFormed formed taken noSpill
  have stillLive : ∀ block ∈ inodeNodes before.mapped, after.live block := by
    intro block member
    have held := well.held block member
    cases taken with
    | allocated _ _ => exact .inr held
    | noSpace _ _ => exact held
    | freed _ _ _ =>
      refine ⟨?_, held⟩
      rintro rfl
      exact kept.1 member
    | wrote _ _ => exact held
  have same : ∀ block ∈ inodeTables before.mapped, SameBlock block after.volume.device
          before.mapped.volume.device := by
    intro block member
    have inNodes := inodeNodes_of_inodeTables member
    refine keeps block (well.held block inNodes) (stillLive block inNodes) ?_
    rintro rfl
    exact kept member
  have trees (address : Nat) (below : address < naddr) := @trees_same before.mapped
      { before.mapped with volume := after.volume } address rfl
      fun block member => same block (mem_inodeTables below member)
  have nodes : inodeNodes { before.mapped with volume := after.volume } =
      inodeNodes before.mapped :=
    flatMap_congr fun address member => (trees address (mem_range.1 member)).1
  refine ⟨⟨⟨_, next⟩, ?_, ?_, ?_⟩, ?_⟩
  · have size := Step.size formed taken noSpill
    rw [size]
    exact well.small
  · rw [nodes]
    exact well.nodup
  · rw [nodes]
    exact stillLive
  · intro lbn
    cases found : locate lbn with
    | none =>
      unfold mapping
      rw [found]
    | some place =>
      obtain ⟨address, key⟩ := place
      obtain ⟨below, within, _, _⟩ := locate_eq_some found
      rw [mapping_of_locate found, mapping_of_locate found]
      exact (trees address below).2.2 key within

/-- **A step that does not truncate** keeps the inode well and every logical
block where it is. -/
theorem MapStep.keeps {after : MapUsage} {action : MapAction}
    (well : MapWell before.live before.mapped)
    (taken : Guarded MapStep NotTruncated before action after) :
    MapWell after.live after.mapped ∧ ∀ lbn, mapping before.mapped lbn ≠ 0 →
      mapping after.mapped lbn = mapping before.mapped lbn := by
  obtain ⟨step, kept⟩ := taken
  cases step with
  | other taken =>
    obtain ⟨next, same⟩ := otherStep well taken kept
    exact ⟨next, fun lbn _ => same lbn⟩
  | bmap behaviour lbn rw =>
    have idle (unchanged : (xxBmap behaviour before.mapped lbn rw).2 = before.mapped) :
        MapWell (afterBmap behaviour before lbn rw).live
          (afterBmap behaviour before lbn rw).mapped ∧
          ∀ other, mapping before.mapped other ≠ 0 →
            mapping (afterBmap behaviour before lbn rw).mapped other =
              mapping before.mapped other := by
      simp only [afterBmap]
      rw [unchanged]
      obtain ⟨blocks, formed⟩ := well.formed
      refine ⟨⟨⟨blocks, formed.live fun block member => ?_⟩, well.small,
        well.nodup, fun block member => .inl member⟩, fun _ _ => rfl⟩
      exact member.elim (well.held block) id
    cases rw with
    | bRead =>
      obtain ⟨result, eq, _⟩ := xxBmap_read behaviour before.mapped lbn
      exact idle (congrArg Prod.snd eq)
    | bWrite =>
      by_cases nowhere : locate lbn = none
      · exact idle (congrArg Prod.snd (xxBmap_beyond behaviour before.mapped .bWrite nowhere))
      · have writes := mapWrites behaviour well nowhere
        refine ⟨writes.well, fun other present => ?_⟩
        by_cases same : other = lbn
        · subst same
          have found := writes.found
          split at found
          case h_1 => exact found.2.1.trans (found.2.2 present).symm
          case h_2 => exact found.elim
          case h_3 => exact found.2
        · exact writes.others other same

theorem keeps_of_run {initial final : MapUsage} {actions : List MapAction}
    (well : MapWell initial.live initial.mapped)
    (run : Run (Guarded MapStep NotTruncated) initial actions final) :
    MapWell final.live final.mapped ∧ ∀ lbn, mapping initial.mapped lbn ≠ 0 →
      mapping final.mapped lbn = mapping initial.mapped lbn := by
  induction run with
  | nil => exact ⟨well, fun _ _ => rfl⟩
  | snoc earlier last ih =>
    obtain ⟨middle, same⟩ := ih
    obtain ⟨next, last⟩ := MapStep.keeps middle last
    refine ⟨next, fun lbn present => ?_⟩
    have kept := same lbn present
    exact (last lbn (by rwa [kept])).trans kept

/-- A call of `xx_bmap` returns the block or the hole, unless an indirect block
cannot be read. -/
def ReadsOr (result : Except Errno (Option Nat)) (block : Option Nat) : Prop :=
  result = .error EIO ∨ result = .ok block

theorem xxBmap_readsOr (behaviour : Behaviour) (mapped : Mapped) (lbn : Nat)
    (mappable : lbn < mappableBlocks) :
    ReadsOr (xxBmap behaviour mapped lbn .bRead).1 (orHole (mapping mapped lbn)) := by
  obtain ⟨result, eq, _, inside⟩ := xxBmap_read behaviour mapped lbn
  rw [eq]
  refine inside fun nowhere => ?_
  have beyond := (locate_eq_none lbn).1 nowhere
  omega

theorem mapping_of_read {behaviour : Behaviour}
    (read : (xxBmap behaviour mapped lbn .bRead).1 = .ok (some block)) :
    mapping mapped lbn = block ∧ block ≠ 0 := by
  obtain ⟨result, eq, nowhere, inside⟩ := xxBmap_read behaviour mapped lbn
  rw [eq] at read
  subst read
  by_cases none' : locate lbn = none
  · cases nowhere none'
  · rcases inside none' with impossible | same
    · cases impossible
    · have hole := Except.ok.inj same
      unfold orHole at hole
      split at hole
      · cases hole
      · rename_i present
        obtain rfl := Option.some.inj hole
        exact ⟨rfl, present⟩

theorem mapWell_empty {volume : Volume} (formed : WellFormed ⟨volume, live⟩ blocks)
    (small : volume.fp.sFsize ≤ 2 ^ 32) (isDir : Bool) :
    MapWell live ⟨volume, { iAddr := fun _ => 0, isDir }⟩ := by
  have empty : inodeNodes ⟨volume, { iAddr := fun _ => 0, isDir }⟩ = [] :=
    flatMap_eq_nil_iff.2 fun address _ => @nodes_null _ _ shape _ (addressDepth address)
  refine ⟨⟨blocks, formed⟩, small, ?_, ?_⟩
  · exact .nil
  · intro block member
    cases member

/-- A device without bad blocks. -/
def goodDevice : Behaviour where
  badRead := fun _ => false
  onDisk := fun _ _ => 0

/-- A new file on a volume that lists blocks 502 and 501. -/
def sampleMapUsage : MapUsage where
  mapped :=
    { volume := (sampleUsage 2).volume
      inode := { iAddr := fun _ => 0, isDir := false } }
  live := (sampleUsage 2).live

end Uw7.Xxfs
