import Mathlib.Data.List.Perm.Basic
import Uw7.Lib.Run
import Uw7.Xxfs.Alloc

namespace Uw7.Xxfs

/-!
# The free list as a stack of blocks

A chain of `s_free` arrays, the first in the superblock and the others in the
blocks that link to them, stands for the stack of free blocks that successive
allocations return.  Allocation pops the stack and freeing pushes on it, as long
as no block is freed while `s_free` is full.
-/

open Lib

/-- The blocks that an array of `nfree` entries leads to, in order of return. -/
inductive FreeChain (device : ByteMemory) : Nat → (Nat → Nat) → List Nat → Prop where
  | sentinel {free : Nat → Nat} (ends : free 0 = 0) : FreeChain device 1 free []
  | link {free : Nat → Nat} {nfree : Nat} {rest : List Nat} (links : free 0 ≠ 0) (count :
      (readFblk device (ltopblk (free 0) xxbsize)).dfNfree = nfree)
      (linked : FreeChain device nfree (readFblk device (ltopblk (free 0) xxbsize)).dfFree rest) :
      FreeChain device 1 free (free 0 :: rest)
  | entry {free : Nat → Nat} {nfree : Nat} {rest : List Nat} (room : nfree < xxnicfree)
      (later : FreeChain device nfree free rest) :
      FreeChain device (nfree + 1) free (free nfree :: rest)

/-- The superblock's list stands for these blocks. -/
def FreeList (volume : Volume) (blocks : List Nat) : Prop := (volume.fp.sNfree ≤ 0 ∧ blocks = []) ∨
    ∃ nfree : Nat, volume.fp.sNfree = nfree ∧ FreeChain volume.device nfree volume.fp.sFree blocks

/-- A volume with the blocks that files hold. -/
structure Usage where
  volume : Volume
  live : Nat → Prop

/-- The list names distinct usable blocks that no file holds. -/
structure WellFormed (usage : Usage) (blocks : List Nat) : Prop where
  list : FreeList usage.volume blocks
  nodup : blocks.Nodup
  inRange : ∀ block ∈ blocks, xxBadblock usage.volume.fp block = false
  notLive : ∀ block ∈ blocks, ¬ usage.live block
  isize : 0 < usage.volume.fp.sIsize
  count : usage.volume.fp.sTfree = blocks.length

/-- The bytes of a block are the same on two devices. -/
abbrev SameBlock (block : Nat) (left right : ByteMemory) : Prop :=
  ByteMemory.AgreeOn (block * xxbsize) xxbsize left right

theorem sectorAddress_ltopblk (block : Nat) :
    sectorAddress (ltopblk block xxbsize) = block * xxbsize := by
  simp only [sectorAddress, ltopblk, sctrshft, xxbsize]
  omega

theorem sameBlock_writeBlock {block written : Nat} (device buffer : ByteMemory)
    (different : block ≠ written) :
    SameBlock block (writeBlock device (ltopblk written xxbsize) buffer) device := by
  refine ByteMemory.agreeOn_store buffer ?_
  rw [sectorAddress_ltopblk]
  simp only [xxbsize]
  omega

theorem readFblk_congr {block : Nat} {left right : ByteMemory} (same : SameBlock block left right) :
    (readFblk left (ltopblk block xxbsize)).dfNfree =
      (readFblk right (ltopblk block xxbsize)).dfNfree ∧
      ∀ index, index < xxnicfree → (readFblk left (ltopblk block xxbsize)).dfFree index =
        (readFblk right (ltopblk block xxbsize)).dfFree index := by
  simp only [readFblk, sectorAddress_ltopblk]
  refine ⟨congrArg toShort (ByteMemory.readLe_congr (same.part ?_ ?_)), fun index bounded =>
    ByteMemory.readLe_congr (same.part ?_ ?_)⟩ <;>
    simp only [xxbsize, xxnicfree] at * <;> omega

namespace FreeChain

variable {device : ByteMemory} {free : Nat → Nat}
variable {nfree : Nat} {blocks : List Nat}

theorem bounds (chain : FreeChain device nfree free blocks) : 0 < nfree ∧ nfree ≤ xxnicfree := by
  cases chain with
  | sentinel _ | link _ _ _ => exact ⟨one_pos, by decide⟩
  | entry room _ => exact ⟨Nat.succ_pos _, room⟩

theorem congr {other : ByteMemory} {otherFree : Nat → Nat}
    (chain : FreeChain device nfree free blocks)
    (sameFree : ∀ index, index < nfree → free index = otherFree index)
    (sameBlocks : ∀ block ∈ blocks, SameBlock block device other) :
    FreeChain other nfree otherFree blocks := by
  induction chain generalizing otherFree with
  | sentinel ends => exact .sentinel ((sameFree 0 one_pos).symm.trans ends)
  | link links count linked ih =>
    have first := sameFree 0 one_pos
    have sameLink := sameBlocks _ (List.mem_cons_self ..)
    obtain ⟨sameCount, sameEntries⟩ := readFblk_congr sameLink
    have later := ih (fun index below =>
        sameEntries index (below.trans_le linked.bounds.2)) fun block member =>
          sameBlocks block (List.mem_cons_of_mem _ member)
    rw [first] at links sameCount later count ⊢
    exact .link links (sameCount.symm.trans count) later
  | @entry free' nfree' rest room later ih =>
    rw [sameFree nfree' (Nat.lt_succ_self _)]
    exact .entry room (ih (fun index below => sameFree index (below.trans (Nat.lt_succ_self _)))
      fun block member => sameBlocks block (List.mem_cons_of_mem _ member))

theorem takeFree_nil {fp : Xxfilsys} (chain : FreeChain device nfree fp.sFree []) :
    takeFree fp nfree = none := by
  cases chain with
  | sentinel ends => simp [takeFree, ends]

theorem takeFree_cons {fp : Xxfilsys} {block : Nat} {rest : List Nat}
    (chain : FreeChain device nfree fp.sFree (block :: rest)) (isize : 0 < fp.sIsize)
    (usable : xxBadblock fp block = false) : takeFree fp nfree = some (block, nfree - 1) := by
  have positive : block ≠ 0 := by
    rintro rfl
    simp [xxBadblock, isize] at usable
  cases chain with
  | link _ _ _ | entry _ _ => simp [takeFree, positive, usable]

end FreeChain

theorem freeList_noSpace (volume : Volume) : FreeList (noSpace volume) [] := .inl ⟨le_rfl, rfl⟩

variable {volume : Volume} {block : Nat}

theorem xxBlkalloc_nil (list : FreeList volume []) (onDisk : ByteMemory) :
    xxBlkalloc volume onDisk = (none, noSpace volume) := by
  have nothing : takeFree volume.fp volume.fp.sNfree.toNat = none := by
    rcases list with ⟨exhausted, -⟩ | ⟨nfree, count, chain⟩
    · rw [Int.toNat_of_nonpos exhausted, takeFree]
    · rw [count, Int.toNat_natCast, chain.takeFree_nil]
  simp [xxBlkalloc, nothing]

/-- What an operation on the list may change besides the list itself. -/
structure Touches (before after : Volume) (block : Nat) : Prop where
  isize : after.fp.sIsize = before.fp.sIsize
  fsize : after.fp.sFsize = before.fp.sFsize
  elsewhere : ∀ other, other ≠ block → SameBlock other after.device before.device

theorem xxBlkalloc_cons {rest : List Nat} (list : FreeList volume (block :: rest))
    (nodup : (block :: rest).Nodup) (isize : 0 < volume.fp.sIsize)
    (usable : xxBadblock volume.fp block = false) (onDisk : ByteMemory) :
    ∃ after, xxBlkalloc volume onDisk = (some block, after) ∧ FreeList after rest ∧
      after.fp.sTfree = volume.fp.sTfree - 1 ∧ Touches volume after block := by
  rcases list with ⟨-, impossible⟩ | ⟨nfree, count, chain⟩
  · simp at impossible
  have taken : takeFree volume.fp volume.fp.sNfree.toNat = some (block, nfree - 1) := by
    rw [count, Int.toNat_natCast, chain.takeFree_cons isize usable]
  have notInRest : block ∉ rest := (List.nodup_cons.mp nodup).1
  -- It remains to see what `s_free` holds without its last entry.
  suffices dropped : ∃ left : Nat, 0 < left ∧ left ≤ xxnicfree ∧
    (dropEntry volume block (nfree - 1) onDisk).fp.sNfree = left ∧
    FreeChain (dropEntry volume block (nfree - 1) onDisk).device left
      (dropEntry volume block (nfree - 1) onDisk).fp.sFree rest ∧
    (dropEntry volume block (nfree - 1) onDisk).fp.sTfree = volume.fp.sTfree ∧
    Touches volume (dropEntry volume block (nfree - 1) onDisk) block by
    obtain ⟨left, positive, bounded, leftCount, leftChain, total, touches⟩ := dropped
    refine ⟨{ dropEntry volume block (nfree - 1) onDisk with
          fp :=
            { (dropEntry volume block (nfree - 1) onDisk).fp with
              sTfree := volume.fp.sTfree - 1 } },
        ?_, .inr ⟨left, leftCount, leftChain⟩, rfl, touches.isize, touches.fsize, touches.elsewhere⟩
    have inBounds : ¬ ((left : Int) ≤ 0 ∨ (left : Int) > xxnicfree) := by omega
    simp only [xxBlkalloc, taken, leftCount, total, if_neg inBounds]
  cases chain with
  | @link _ linkCount _ _ links linked =>
    refine ⟨linkCount, linked.bounds.1, linked.bounds.2, links,
      linked.congr (fun _ _ => rfl) fun other member => ?_,
      rfl, rfl, rfl, fun other different => ?_⟩
    · refine (sameBlock_writeBlock _ _ ?_).symm
      rintro rfl
      exact notInRest member
    · exact sameBlock_writeBlock _ _ different
  | @entry _ left _ room later =>
    have nonzero : left ≠ 0 := later.bounds.1.ne'
    have kept : dropEntry volume (volume.fp.sFree left) (left + 1 - 1) onDisk =
        { volume with fp := { volume.fp with sNfree := left } } := by
      simp [dropEntry, nonzero]
    rw [kept]
    exact ⟨left, later.bounds.1, later.bounds.2, rfl, later, rfl, rfl, rfl, fun _ _ => .refl _ _⟩

theorem freeChain_startFree {blocks : List Nat} (list : FreeList volume blocks) :
    ∃ nfree : Nat, (startFree volume.fp).sNfree = nfree ∧
      FreeChain volume.device nfree (startFree volume.fp).sFree
        blocks := by
  rcases list with ⟨exhausted, rfl⟩ | ⟨nfree, count, chain⟩
  · refine ⟨1, ?_, .sentinel ?_⟩ <;> simp [startFree, exhausted]
  · have positive := chain.bounds.1
    have inUse : ¬ volume.fp.sNfree ≤ 0 := by omega
    rw [startFree, if_neg inUse]
    exact ⟨nfree, count, chain⟩

theorem xxBlkfree_freeList {blocks : List Nat} (list : FreeList volume blocks)
    (usable : xxBadblock volume.fp block = false) (notFree : block ∉ blocks)
    (noSpill : volume.fp.sNfree < xxnicfree) (buffer : ByteMemory) :
    FreeList (xxBlkfree volume block buffer) (block :: blocks) ∧
      (xxBlkfree volume block buffer).fp.sTfree = volume.fp.sTfree + 1 ∧
      Touches volume (xxBlkfree volume block buffer) block := by
  obtain ⟨nfree, count, chain⟩ := freeChain_startFree list
  have room : nfree < xxnicfree := by
    unfold startFree at count
    split_ifs at count with exhausted
    · have one : (1 : Int) = nfree := count
      simp only [xxnicfree]
      omega
    · omega
  have full : ¬ (startFree volume.fp).sNfree ≥ (xxnicfree : Int) := by omega
  have kept : (startFree volume.fp).sIsize = volume.fp.sIsize ∧
      (startFree volume.fp).sFsize = volume.fp.sFsize ∧
      (startFree volume.fp).sTfree = volume.fp.sTfree := by
    unfold startFree
    split_ifs <;> exact ⟨rfl, rfl, rfl⟩
  have result : xxBlkfree volume block buffer = pushFree
      { fp := startFree volume.fp
        device := writeBlock volume.device (ltopblk block xxbsize) buffer }
      block := by
    simp [xxBlkfree, usable, full]
  rw [result]
  refine ⟨.inr ⟨nfree + 1, by simp [pushFree, count], ?_⟩,
    congrArg (· + 1) kept.2.2, kept.1, kept.2.1,
    fun other different => sameBlock_writeBlock _ _ different⟩
  have pushed : FreeChain (writeBlock volume.device (ltopblk block xxbsize) buffer) nfree
      (Function.update (startFree volume.fp).sFree nfree block)
      blocks := by
    refine chain.congr (fun index below => ?_) fun other member => ?_
    · rw [Function.update_of_ne below.ne]
    · refine (sameBlock_writeBlock _ _ ?_).symm
      rintro rfl
      exact notFree member
  have top := FreeChain.entry room pushed
  simpa [pushFree, count] using top

end Uw7.Xxfs

namespace Uw7.Xxfs

/-!
# Runs of allocations, frees and writes

Files hold the blocks that were allocated and not freed since, and write to no
others.  A run that never frees a block while `s_free` is full keeps the list
well formed, loses no block and returns none twice.
-/

open Lib

/-- What happens to the blocks of a volume. -/
inductive Action where
  | allocated (block : Nat)
  | noSpace
  | freed (block : Nat)
  | wrote (block : Nat)
  deriving DecidableEq

/-- One operation by the files of a volume. -/
inductive Step (before : Usage) : Action → Usage → Prop where
  | allocated {block : Nat} {volume : Volume} (onDisk : ByteMemory)
      (result : xxBlkalloc before.volume onDisk = (some block, volume)) :
      Step before (.allocated block)
        { volume
          live := fun other => other = block ∨ before.live other }
  | noSpace {volume : Volume} (onDisk : ByteMemory)
      (result : xxBlkalloc before.volume onDisk = (none, volume)) :
      Step before .noSpace { volume, live := before.live }
  | freed {block : Nat} (buffer : ByteMemory) (held : before.live block)
      (usable : xxBadblock before.volume.fp block = false) : Step before (.freed block)
        { volume := xxBlkfree before.volume block buffer
          live := fun other => other ≠ block ∧ before.live other }
  | wrote {block : Nat} (buffer : ByteMemory) (held : before.live block) :
      Step before (.wrote block)
        { before with
          volume :=
            { before.volume with
              device := writeBlock before.volume.device (ltopblk block xxbsize) buffer } }

/-- No block is freed while `s_free` is full. -/
def NoSpill (before : Usage) : Action → Prop
  | .freed _ => before.volume.fp.sNfree < xxnicfree
  | _ => True

/-- The blocks that a run allocated, in order. -/
def allocatedBlocks (actions : List Action) : List Nat := actions.filterMap fun
    | .allocated block => some block
    | _ => none

/-- The blocks that a run freed, in order. -/
def freedBlocks (actions : List Action) : List Nat := actions.filterMap fun
    | .freed block => some block
    | _ => none

def nextList (blocks : List Nat) : Action → List Nat
  | .allocated _ => blocks.tail
  | .noSpace => []
  | .freed block => block :: blocks
  | .wrote _ => blocks

/-- What an action says about the list it finds. -/
def Allowed (usage : Usage) (blocks : List Nat) : Action → Prop
  | .allocated block => blocks.head? = some block ∧ ¬ usage.live block
  | .noSpace => blocks = []
  | _ => True

/-- A block that files hold keeps its contents unless they write to it. -/
def KeepsLive (before after : Usage) (action : Action) : Prop := ∀ block,
    before.live block → after.live block → action ≠ .wrote block →
    SameBlock block after.volume.device before.volume.device

variable {before after : Usage} {blocks : List Nat} {action : Action}

theorem FreeList.writeBlock {volume : Volume} {written : Nat} (list : FreeList volume blocks)
    (notFree : written ∉ blocks) (buffer : ByteMemory) : FreeList
      { volume with
        device := writeBlock volume.device (ltopblk written xxbsize) buffer }
      blocks := by
  rcases list with exhausted | ⟨nfree, count, chain⟩
  · exact .inl exhausted
  · refine .inr ⟨nfree, count, chain.congr (fun _ _ => rfl) ?_⟩
    intro block member
    refine (sameBlock_writeBlock _ _ ?_).symm
    rintro rfl
    exact notFree member

/-- What a single step of a guarded run does to the list and to live blocks. -/
theorem Step.wellFormed (wellFormed : WellFormed before blocks) (taken : Step before action after)
    (noSpill : NoSpill before action) :
    WellFormed after (nextList blocks action) ∧ Allowed before blocks action ∧
      KeepsLive before after action := by
  cases taken with
  | allocated onDisk result =>
    cases blocks with
    | nil => simp [xxBlkalloc_nil wellFormed.list] at result
    | cons head rest =>
      obtain ⟨volume, returned, list, total, touches⟩ :=
        xxBlkalloc_cons wellFormed.list wellFormed.nodup
          wellFormed.isize (wellFormed.inRange head (by simp)) onDisk
      obtain ⟨first, rfl⟩ := Prod.mk.inj (returned.symm.trans result)
      obtain rfl := Option.some.inj first
      have headApart := List.nodup_cons.mp wellFormed.nodup
      refine ⟨?_, ⟨rfl, wellFormed.notLive head (by simp)⟩, ?_⟩
      · exact
          { list := list
            nodup := headApart.2
            inRange := by
              intro block member
              have inRange := wellFormed.inRange block (List.mem_cons_of_mem _ member)
              simpa [xxBadblock, touches.isize, touches.fsize] using inRange
            notLive := by
              rintro block member (isHead | held)
              · exact headApart.1 (isHead ▸ member)
              · exact wellFormed.notLive block (List.mem_cons_of_mem _ member) held
            isize := touches.isize ▸ wellFormed.isize
            count := by simp [total, wellFormed.count, nextList] }
      · intro block held _ _
        refine touches.elsewhere block ?_
        rintro rfl
        exact wellFormed.notLive block (by simp) held
  | noSpace onDisk result =>
    cases blocks with
    | nil =>
      rw [xxBlkalloc_nil wellFormed.list] at result
      obtain rfl := (Prod.mk.inj result).2
      exact ⟨⟨freeList_noSpace _, .nil, by simp [nextList],
        by simp [nextList], wellFormed.isize, rfl⟩, rfl, fun _ _ _ _ => .refl _ _⟩
    | cons head rest =>
      obtain ⟨volume, returned, -⟩ := xxBlkalloc_cons wellFormed.list wellFormed.nodup
        wellFormed.isize (wellFormed.inRange head (by simp)) onDisk
      simp [returned] at result
  | @freed block buffer held usable =>
    have notFree : block ∉ blocks := fun member => wellFormed.notLive block member held
    obtain ⟨list, total, touches⟩ :=
      xxBlkfree_freeList wellFormed.list usable notFree noSpill buffer
    refine ⟨?_, trivial, ?_⟩
    · exact
        { list := list
          nodup := List.nodup_cons.mpr ⟨notFree, wellFormed.nodup⟩
          inRange := by
            intro other member
            have inRange : xxBadblock before.volume.fp other = false := by
              rcases List.mem_cons.mp member with isBlock | onList
              · exact isBlock ▸ usable
              · exact wellFormed.inRange other onList
            simpa [xxBadblock, touches.isize, touches.fsize] using inRange
          notLive := by
            rintro other member ⟨different, stillHeld⟩
            rcases List.mem_cons.mp member with isBlock | onList
            · exact different isBlock
            · exact wellFormed.notLive other onList stillHeld
          isize := touches.isize ▸ wellFormed.isize
          count := by simp [total, wellFormed.count, nextList] }
    · rintro other _ ⟨different, _⟩ _
      exact touches.elsewhere other different
  | @wrote block buffer held =>
    have notFree : block ∉ blocks := fun member => wellFormed.notLive block member held
    refine ⟨?_, trivial, ?_⟩
    · exact
        { wellFormed with
          list := wellFormed.list.writeBlock notFree buffer }
    · intro other _ _ notWritten
      refine sameBlock_writeBlock _ _ ?_
      rintro rfl
      exact notWritten rfl

theorem nextList_perm {initial : List Nat} {actions : List Action}
    (allowed : Allowed before blocks action)
    (accounted : (initial ++ freedBlocks actions).Perm (allocatedBlocks actions ++ blocks)) :
    (initial ++ freedBlocks (actions ++ [action])).Perm (allocatedBlocks (actions ++ [action]) ++
      nextList blocks action) := by
  cases action with
  | allocated block =>
    cases blocks with
    | nil => simp [Allowed] at allowed
    | cons head rest =>
      obtain rfl : head = block := by simpa using allowed.1
      simpa [freedBlocks, allocatedBlocks, nextList] using accounted
  | noSpace =>
    obtain rfl : blocks = [] := allowed
    simpa [freedBlocks, allocatedBlocks, nextList] using accounted
  | freed block =>
    have pushed := accounted.append_right [block]
    simp only [freedBlocks, allocatedBlocks, nextList,
      List.filterMap_append, List.filterMap_cons, List.filterMap_nil, List.append_nil] at pushed ⊢
    rw [List.append_assoc] at pushed
    refine pushed.trans ?_
    rw [List.append_assoc]
    exact (List.perm_append_singleton _ _).append_left _
  | wrote block => simpa [freedBlocks, allocatedBlocks, nextList] using accounted

theorem freeList_of_run (initial final : Usage) (initialBlocks : List Nat) (actions : List Action)
    (wellFormed : WellFormed initial initialBlocks)
    (run : Run (Guarded Step NoSpill) initial actions final) :
    ∃ blocks, WellFormed final blocks ∧ (initialBlocks ++ freedBlocks actions).Perm
      (allocatedBlocks actions ++ blocks) ∧
      ∀ action after, Guarded Step NoSpill final action after →
        Allowed final blocks action ∧ KeepsLive final after action := by
  suffices reached : ∃ blocks, WellFormed final blocks ∧ (initialBlocks ++ freedBlocks actions).Perm
    (allocatedBlocks actions ++ blocks) by
    obtain ⟨blocks, formed, accounted⟩ := reached
    exact ⟨blocks, formed, accounted, fun action after taken =>
      (Step.wellFormed formed taken.1 taken.2).2⟩
  induction run with
  | nil =>
    exact ⟨initialBlocks, wellFormed, by simp [freedBlocks, allocatedBlocks]⟩
  | snoc earlier last ih =>
    obtain ⟨blocks, formed, accounted⟩ := ih
    obtain ⟨next, allowed, -⟩ := Step.wellFormed formed last.1 last.2
    exact ⟨_, next, nextList_perm allowed accounted⟩

/-- The blocks named by entries `count` down to 1 of an array. -/
def arrayBlocks (free : Nat → Nat) : Nat → List Nat
  | 0 => []
  | count + 1 => free (count + 1) :: arrayBlocks free count

theorem freeChain_array {device : ByteMemory} {free : Nat → Nat} (sentinel : free 0 = 0)
    {count : Nat} (room : count < xxnicfree) :
    FreeChain device (count + 1) free (arrayBlocks free count) := by
  induction count with
  | zero => exact .sentinel sentinel
  | succ count ih => exact .entry room (ih (by omega))

/-- Blocks 501 onwards behind the sentinel. -/
def sampleFree (index : Nat) : Nat :=
  if index = 0 then 0 else 500 + index

/-- A volume of 1000 blocks that lists `count` of them. -/
def sampleUsage (count : Nat) : Usage where
  volume :=
    { fp :=
        { sIsize := 10
          sFsize := 1000
          sNfree := count + 1
          sFree := sampleFree
          sTfree := count }
      device := fun _ => 0 }
  live := fun block => block = 200 ∨ block = 400

theorem sampleUsage_wellFormed {count : Nat} (room : count < xxnicfree)
    (nodup : (arrayBlocks sampleFree count).Nodup)
    (usable : ∀ block ∈ arrayBlocks sampleFree count, 500 < block ∧ block < 1000)
    (length : (arrayBlocks sampleFree count).length = count) :
    WellFormed (sampleUsage count) (arrayBlocks sampleFree count) where
  list := .inr ⟨count + 1, rfl, freeChain_array rfl room⟩
  nodup := nodup
  inRange := by
    intro block member
    have := usable block member
    simp [xxBadblock, sampleUsage]
    omega
  notLive := by
    rintro block member (isFirst | isSecond) <;>
      have := usable block member <;> omega
  isize := by simp [sampleUsage]
  count := length.symm

theorem freeList_of_run_single : ∃ final blocks,
    WellFormed final blocks ∧ [501].Perm ([501] ++ blocks) := by
  have formed : WellFormed (sampleUsage 1) [501] :=
    sampleUsage_wellFormed (by decide) (by decide) (by decide) rfl
  obtain ⟨blocks, final, accounted, -⟩ := freeList_of_run (sampleUsage 1)
    { volume := (xxBlkalloc (sampleUsage 1).volume fun _ => 0).2
      live := fun other => other = 501 ∨ (sampleUsage 1).live other }
    [501] [.allocated 501] formed (.single ⟨.allocated (fun _ => 0) (by rfl), trivial⟩)
  exact ⟨_, blocks, final, accounted⟩

theorem spill_overwrites_live_block : ∃ after final,
    WellFormed (sampleUsage 99) (arrayBlocks sampleFree 99) ∧
      Step (sampleUsage 99) (.freed 400) after ∧ ¬ KeepsLive (sampleUsage 99) after (.freed 400) ∧
      Step after .noSpace final := by
  refine ⟨_, _, sampleUsage_wellFormed (by decide) (by decide +kernel)
    (by decide +kernel) (by decide +kernel), .freed (fun _ => 0) (.inr rfl) (by decide), ?_,
    .noSpace (fun _ => 0) (Prod.ext ?_ rfl)⟩
  · intro keeps
    have overwritten := keeps 200 (.inl rfl) ⟨by decide, .inl rfl⟩ (by simp) (200 * xxbsize)
        le_rfl (by decide)
    exact absurd overwritten (by decide +kernel)
  · decide +kernel

end Uw7.Xxfs
