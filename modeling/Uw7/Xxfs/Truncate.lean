import Uw7.Xxfs.BlockMapTree

namespace Uw7.Xxfs

/-!
# Truncating a file

`xx_itrunc`, `xx_itruncup` and `xx_indirtrunc` from `fs/xxfs/xxinode.c`.  The
blocks passed to `xx_blkfree` are recorded in order.  Marking the inode and
writing it to disk are left out.
-/

open Lib Errno

/-- `i_mode & IFMT`. -/
inductive Ifmt where
  | ififo
  | ifchr
  | ifdir
  | ifblk
  | ifreg
  | iflnk
  deriving DecidableEq

/-- A file: its type, its size and its inode on a volume. -/
structure File where
  type : Ifmt
  iSize : Nat
  mapped : Mapped

/-- A volume, and the blocks that were passed to `xx_blkfree` so far. -/
structure Freeing where
  volume : Volume
  freed : List Nat

def fsBshift : Nat := 10

def ndaddr : Nat := naddr - niaddr

def single : Nat := 0

def triple : Nat := 2

def ib (level : Nat) : Nat := ndaddr + level

def freeBlock (behaviour : Behaviour) (before : Freeing) (bn : Nat) : Freeing where
  volume := xxBlkfree before.volume bn (behaviour.onDisk before.volume.fp)
  freed := before.freed ++ [bn]

/-- `for (i = count - 1; i > last; i--)`. -/
def freeLoop (body : Nat → Freeing → Freeing) (last : Int) : Nat → Freeing → Freeing
  | 0, state => state
  | i + 1, state => if last < i then freeLoop body last i (body i state) else state

def clearEntries (device : ByteMemory) (block first : Nat) : ByteMemory := device.store
    (sectorAddress (ltopblk block xxbsize) + 4 * first)
    (4 * (fsNindir - first)) fun _ => 0

/-- The body of `xx_indirtrunc`, with the call for one level less. -/
def indirtruncBody (behaviour : Behaviour) (level : Nat) (below : Nat → Int → Freeing → Freeing)
    (bn : Nat) (lastbn : Int)
    (before : Freeing) : Freeing :=
  let factor := fsNindir ^ level
  let last := if 0 < lastbn then lastbn / factor else lastbn
  if behaviour.badRead bn then before
  else
    let copy := indirectEntry before.volume.device bn
    let written :=
      { before with
        volume :=
          { before.volume with
            device := clearEntries before.volume.device bn (last + 1).toNat } }
    let freed := freeLoop (fun i state =>
        if copy i = 0 then state
        else
          freeBlock behaviour (if single < level then below (copy i) (-1) state
            else state)
            (copy i))
        last fsNindir written
    -- The loop has left `i` at `last`.
    if single < level ∧ 0 ≤ lastbn then
      if copy last.toNat = 0 then freed
      else below (copy last.toNat) (lastbn % factor) freed
    else freed

def xxIndirtrunc (behaviour : Behaviour) : Nat → Nat → Int → Freeing → Freeing
  | 0 => indirtruncBody behaviour 0 fun _ _ state => state
  | level + 1 => indirtruncBody behaviour (level + 1) (xxIndirtrunc behaviour level)

/-- A block is allocated and cleared: `xx_bmapalloc`, `xx_bmap` and
`clrbuf`. -/
def allocCleared (behaviour : Behaviour) (mapped : Mapped)
    (lbn : Nat) : Except Errno Unit × Mapped :=
  match xxBmap behaviour mapped lbn .bWrite with
  | (.error error, after) => (.error error, after)
  | (.ok _, made) =>
    match xxBmap behaviour made lbn .bRead with
    | (.error error, after) => (.error error, after)
    | (.ok none, after) => (.ok (), after)
    | (.ok (some block), after) =>
      (.ok (),
        { after with
          volume :=
            { after.volume with
              device := clearBlock after.volume.device block } })

def xxItruncup (behaviour : Behaviour) (file : File) (nsize : Nat) : Except Errno Unit × File :=
  let lastblock := (xxbsize + nsize - 1) >>> fsBshift - 1
  match allocCleared behaviour file.mapped lastblock with
  | (.ok (), after) => (.ok (), { file with mapped := after, iSize := nsize })
  | (.error error, after) => (.error error, { file with mapped := after })

/-- `lastiblock[level]` as it is calculated. -/
def lastiblock (lastblock : Int) : Nat → Int
  | 0 => lastblock - ndaddr
  | 1 => lastblock - ndaddr - fsNindir
  | _ => lastblock - ndaddr - fsNindir - fsNindir * fsNindir

/-- `lastiblock[level]` once it is normalized to -1. -/
def lastiblockKept (lastblock : Int) (level : Nat) : Int :=
  if lastiblock lastblock level < 0 then -1 else lastiblock lastblock level

/-- The block addresses that stay. -/
def truncatedAddr (lastblock : Int) (iAddr : Nat → Nat) (address : Nat) : Nat :=
  if address < ndaddr then
    if lastblock < address then 0 else iAddr address
  else if lastiblock lastblock (address - ndaddr) < 0 then 0
  else iAddr address

/-- The direct blocks beyond the last one. -/
def truncDirect (behaviour : Behaviour) (lastblock : Int) (save : Nat → Nat)
    (before : Freeing) : Freeing :=
  freeLoop (fun i state =>
      if save i = 0 then state else freeBlock behaviour state (save i))
    lastblock ndaddr before

/-- Indirect blocks of the levels below `levels`, the highest first, and then
direct blocks. -/
def truncLevels (behaviour : Behaviour) (lastblock : Int)
    (save : Nat → Nat) : Nat → Freeing → Freeing
  | 0, state => truncDirect behaviour lastblock save state
  | level + 1, state =>
    let bn := save (ib level)
    let last := lastiblockKept lastblock level
    let cut :=
      if bn = 0 then state
      else
        let inside := xxIndirtrunc behaviour level bn last state
        if last < 0 then freeBlock behaviour inside bn else inside
    if 0 ≤ last then cut
    else truncLevels behaviour lastblock save level cut

/-- `xx_itrunc`: the error, the file after, and the blocks passed to
`xx_blkfree`. -/
def xxItrunc (behaviour : Behaviour) (file : File)
    (length : Nat) : Except Errno Unit × File × List Nat :=
  if file.type = .ififo then (.ok (), file, [])
  else if file.type ≠ .ifreg ∧ file.type ≠ .ifdir ∧ ¬(file.type = .iflnk ∧ length = 0) then
    (.error EINVAL, file, [])
  else if length = file.iSize then (.ok (), file, [])
  else if file.iSize < length then
    let result := xxItruncup behaviour file length
    (result.1, result.2, [])
  else
    let curblock : Int := (file.iSize >>> fsBshift : Nat)
    -- The sum is a `uint_t`.
    let lastblock : Int := (((length + xxbsize - 1) % 2 ^ 32) >>> fsBshift : Nat) - 1
    let save := file.mapped.inode.iAddr
    let cut :=
      { file.mapped with
        inode :=
          { file.mapped.inode with
            iAddr := truncatedAddr lastblock save } }
    let prepared :=
      if curblock < lastblock then
        allocCleared behaviour cut lastblock.toNat
      else (.ok (), cut)
    match prepared with
    | (.error error, after) => (.error error, { file with mapped := after }, [])
    | (.ok (), after) =>
      let done := truncLevels behaviour lastblock save (triple + 1)
          { volume := after.volume, freed := [] }
      (.ok (),
        { file with
          iSize := length
          mapped := { after with volume := done.volume } },
        done.freed)

end Uw7.Xxfs

namespace Uw7.Xxfs

/-!
# Freeing the blocks of a tree

Blocks are freed safely when `s_free` has room for all of them, or when none of
them, taken as a sector number, lies in an indirect block.  Then the indirect
blocks that are not freed stay as they were.
-/

open Lib Lib.RadixTree

/-- The blocks `s_free` has room for until it is full. -/
def freeRoom (volume : Volume) : Nat := (xxnicfree - max 1 volume.fp.sNfree).toNat

/-- Those of the blocks that `xx_blkfree` frees. -/
def usableBlocks (fp : Xxfilsys) (blocks : List Nat) : List Nat :=
  blocks.filter fun block => !xxBadblock fp block

/-- The blocks are freed without writing to an indirect block. -/
def FreesSafely (table : Nat → Prop) (volume : Volume) (blocks : List Nat) : Prop :=
  (usableBlocks volume.fp blocks).length ≤ freeRoom volume ∨
    ∀ block ∈ blocks, ∀ other, table other → other ≠ block / 2 ∧ other ≠ (block + 1) / 2

variable {table : Nat → Prop}

variable {volume : Volume} {blocks more : List Nat} {block : Nat} {before after : Freeing}

theorem FreesSafely.perm {others : List Nat} (safe : FreesSafely table volume blocks)
    (perm : blocks.Perm others) :
    FreesSafely table volume others := by
  rcases safe with room | apart
  · left
    have same := (perm.filter fun block => !xxBadblock volume.fp block).length_eq
    unfold usableBlocks at room ⊢
    rwa [← same]
  · exact .inr fun block member => apart block (perm.symm.subset member)

theorem FreesSafely.left (safe : FreesSafely table volume (blocks ++ more)) :
    FreesSafely table volume blocks := by
  rcases safe with room | apart
  · left
    unfold usableBlocks at room ⊢
    rw [List.filter_append, List.length_append] at room
    omega
  · exact .inr fun block member => apart block (List.mem_append_left _ member)

theorem sameBlock_writeSector {sector other : Nat} (device buffer : ByteMemory)
    (apart : other ≠ sector / 2 ∧ other ≠ (sector + 1) / 2) :
    SameBlock other (writeBlock device sector buffer) device := by
  refine ByteMemory.agreeOn_store buffer ?_
  simp only [sectorAddress, sctrshft, xxbsize]
  omega

theorem xxBlkfree_safe (safe : FreesSafely table volume (block :: more)) (buffer : ByteMemory) :
    (∀ other, table other → other ≠ block → SameBlock other (xxBlkfree volume block buffer).device
      volume.device) ∧
      FreesSafely table (xxBlkfree volume block buffer) more := by
  have tail : (∀ one ∈ block :: more, ∀ other, table other →
      other ≠ one / 2 ∧ other ≠ (one + 1) / 2) →
      ∀ volume, FreesSafely table volume more :=
    fun apart _ => .inr fun one member => apart one (List.mem_cons_of_mem _ member)
  by_cases bad : xxBadblock volume.fp block = true
  · have same : xxBlkfree volume block buffer = volume := if_pos bad
    rw [same]
    refine ⟨fun other _ _ => .refl _ _, ?_⟩
    rcases safe with room | apart
    · left
      unfold usableBlocks at room ⊢
      simpa [bad] using room
    · exact tail apart volume
  have kept : (startFree volume.fp).sIsize = volume.fp.sIsize ∧
      (startFree volume.fp).sFsize = volume.fp.sFsize ∧
      (startFree volume.fp).sNfree = max 1 volume.fp.sNfree := by
    unfold startFree
    split
    · exact ⟨rfl, rfl, by simp only; omega⟩
    · exact ⟨rfl, rfl, by omega⟩
  unfold xxBlkfree
  rw [if_neg bad]
  by_cases full : (startFree volume.fp).sNfree ≥ (xxnicfree : Int)
  · rw [if_pos full]
    rcases safe with room | apart
    · exfalso
      simp only [usableBlocks, freeRoom, List.filter_cons, Bool.not_eq_true] at room bad
      simp only [bad, Bool.not_false, if_true, List.length_cons] at room
      omega
    · refine ⟨fun other isTable _ => ?_, tail apart _⟩
      exact sameBlock_writeSector _ _ (apart block List.mem_cons_self other isTable)
  · rw [if_neg full]
    refine ⟨fun other _ different => sameBlock_writeBlock _ _ different, ?_⟩
    rcases safe with room | apart
    · left
      have usable (other : Nat) : xxBadblock (pushFree
          { fp := startFree volume.fp
            device := writeBlock volume.device (ltopblk block xxbsize) buffer }
          block).fp other = xxBadblock volume.fp other := by
        simp only [xxBadblock, pushFree, kept.1, kept.2.1]
      simp only [usableBlocks, freeRoom, List.filter_cons, Bool.not_eq_true, usable] at room bad ⊢
      simp only [bad, Bool.not_false, if_true, List.length_cons] at room
      simp only [pushFree]
      omega
    · exact tail apart _

/-- From one state to another the call frees `gone` and writes to no indirect
blocks but `own`. -/
structure Frees (table : Nat → Prop) (before after : Freeing) (own gone : List Nat) : Prop where
  freed : ∃ new, after.freed = before.freed ++ new ∧ new.Perm gone
  frame : ∀ other, table other → other ∉ own →
      SameBlock other after.volume.device before.volume.device
  safe : ∀ more, FreesSafely table before.volume (gone ++ more) →
      FreesSafely table after.volume more

theorem Frees.refl (state : Freeing) : Frees table state state [] [] where
  freed := ⟨[], (List.append_nil _).symm, .refl _⟩
  frame := fun _ _ _ => .refl _ _
  safe := fun _ safe => safe

theorem Frees.trans {middle : Freeing} {ownOne ownTwo goneOne goneTwo : List Nat}
    (one : Frees table before middle ownOne goneOne) (two : Frees table middle after ownTwo goneTwo)
    :
    Frees table before after (ownOne ++ ownTwo) (goneOne ++ goneTwo) where
  freed := by
    obtain ⟨newOne, isOne, permOne⟩ := one.freed
    obtain ⟨newTwo, isTwo, permTwo⟩ := two.freed
    exact ⟨newOne ++ newTwo, by rw [isTwo, isOne, List.append_assoc], permOne.append permTwo⟩
  frame := by
    intro other isTable notOwn
    simp only [List.mem_append, not_or] at notOwn
    exact (two.frame other isTable notOwn.2).trans (one.frame other isTable notOwn.1)
  safe := by
    intro more safe
    rw [List.append_assoc] at safe
    exact two.safe more (one.safe _ safe)

theorem Frees.weaken {own own' gone gone' : List Nat} (frees : Frees table before after own gone)
    (more : own ⊆ own') (perm : gone.Perm gone') :
    Frees table before after own' gone' where
  freed := by
    obtain ⟨new, is, same⟩ := frees.freed
    exact ⟨new, is, same.trans perm⟩
  frame := fun other isTable notOwn => frees.frame other isTable fun member => notOwn (more member)
  safe := fun rest safe => frees.safe rest (safe.perm (perm.symm.append_right rest))

theorem frees_freeBlock (behaviour : Behaviour) (safe : FreesSafely table before.volume [block]) :
    Frees table before (freeBlock behaviour before block) [block] [block] where
  freed := ⟨[block], rfl, .refl _⟩
  frame := fun other isTable notBlock =>
    (xxBlkfree_safe safe _).1 other isTable fun same => notBlock (List.mem_singleton.2 same)
  safe := fun _ all => (xxBlkfree_safe all _).2

end Uw7.Xxfs
