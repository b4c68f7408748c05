import Uw7.Xxfs.BlockMapTree

namespace Uw7.Xxfs

/-!
# The trees of an inode

The thirteen addresses of an inode are the roots of its trees.  A call of
`xx_bmap` looks up one key in one of them, and makes the tree grow when it
writes.
-/

open Lib Lib.RadixTree Errno Function List

/-- The depth of the tree at an address: the last three are of one to three
levels. -/
def addressDepth (address : Nat) : Nat := address - (naddr - niaddr - 1)

/-- The blocks of an inode. -/
def inodeNodes (mapped : Mapped) : List Nat := (range naddr).flatMap fun address =>
    treeNodes mapped.volume.device (addressDepth address) (mapped.inode.iAddr address)

/-- The indirect blocks of an inode. -/
def inodeTables (mapped : Mapped) : List Nat := (range naddr).flatMap fun address =>
    treeTables mapped.volume.device (addressDepth address) (mapped.inode.iAddr address)

/-- The address a logical block is found at, and its key in the tree there. -/
def locate (lbn : Nat) : Option (Nat × Nat) :=
  if lbn < 10 then some (lbn, 0)
  else if lbn - 10 < fsNindir then some (10, lbn - 10)
  else if lbn - 10 - fsNindir < fsNindir ^ 2 then
    some (11, lbn - 10 - fsNindir)
  else if lbn - 10 - fsNindir - fsNindir ^ 2 < fsNindir ^ 3 then
    some (12, lbn - 10 - fsNindir - fsNindir ^ 2)
  else none

/-- The first logical block that no tree reaches. -/
def mappableBlocks : Nat := 10 + fsNindir + fsNindir ^ 2 + fsNindir ^ 3

/-- The physical block of a logical block, or 0. -/
def mapping (mapped : Mapped) (lbn : Nat) : Nat :=
  match locate lbn with
  | none => 0
  | some (address, key) =>
    treeWalk mapped.volume.device (addressDepth address) (mapped.inode.iAddr address) key

def orHole (block : Nat) : Option Nat :=
  if block = 0 then none else some block

/-- An inode of a volume: its trees refer to each block once, and the blocks are
held. -/
structure MapWell (live : Nat → Prop) (mapped : Mapped) : Prop where
  formed : ∃ blocks, WellFormed ⟨mapped.volume, live⟩ blocks
  small : mapped.volume.fp.sFsize ≤ 2 ^ 32
  nodup : (inodeNodes mapped).Nodup
  held : ∀ block ∈ inodeNodes mapped, live block

variable {lbn address key depth block : Nat} {live : Nat → Prop} {before after : Volume}

theorem locate_eq_some (found : locate lbn = some (address, key)) :
    address < naddr ∧ key < fsNindir ^ addressDepth address ∧ (lbn < 10 ↔ address < 10) ∧ lbn =
      key + (if address < 10 then address
        else if address = 10 then 10
        else if address = 11 then 10 + fsNindir
        else 10 + fsNindir + fsNindir ^ 2) := by
  unfold locate at found
  split at found
  · cases found
    simp only [addressDepth, naddr, niaddr, fsNindir, xxbsize]
    rename_i direct
    refine ⟨by omega, ?_, by simp, by simp [direct]⟩
    exact Nat.pow_pos (by decide)
  · split at found
    · cases found
      simp [addressDepth, naddr, niaddr]
      omega
    · split at found
      · cases found
        simp [addressDepth, naddr, niaddr]
        omega
      · obtain ⟨_, ⟨⟩⟩ := Option.ite_none_right_eq_some.1 found
        simp [addressDepth, naddr, niaddr]
        omega

theorem locate_injective {one two : Nat} {place : Nat × Nat} (first : locate one = some place)
    (second : locate two = some place) : one = two := by
  obtain ⟨_, _, _, oneEq⟩ := locate_eq_some first
  obtain ⟨_, _, _, twoEq⟩ := locate_eq_some second
  rw [oneEq, twoEq]

theorem locate_eq_none (lbn : Nat) : locate lbn = none ↔ mappableBlocks ≤ lbn := by
  unfold locate mappableBlocks
  have nindir : fsNindir = 256 := rfl
  constructor
  · intro nowhere
    by_contra below
    split_ifs at nowhere
    omega
  · intro beyond
    split_ifs <;> first | rfl | omega

theorem chooseLevel_succ (j sh nb bn : Nat) : chooseLevel (j + 1) sh nb bn =
    if bn < nb <<< fsNshift then some (j + 1, sh + fsNshift, bn)
    else
      chooseLevel j (sh + fsNshift) (nb <<< fsNshift) (bn - nb <<< fsNshift) :=
  rfl

theorem chooseLevel_eq (indirect : ¬lbn < 10) : chooseLevel 3 0 1 (lbn - 10) =
    (locate lbn).map fun place => (naddr - place.1, fsNshift * addressDepth place.1, place.2) := by
  have single : fsNindir = 256 := rfl
  have double : fsNindir ^ 2 = 65536 := rfl
  have triple : fsNindir ^ 3 = 16777216 := rfl
  have one : 1 <<< fsNshift = 256 := rfl
  have two : 256 <<< fsNshift = 65536 := rfl
  have three : 65536 <<< fsNshift = 16777216 := rfl
  unfold locate
  rw [if_neg indirect, double, triple, single]
  rw [chooseLevel_succ, one, chooseLevel_succ, two, chooseLevel_succ, three]
  split_ifs <;> rfl

theorem fetchIndirect_read (behaviour : Behaviour) (isDir : Bool) (bn levels : Nat)
    {volume : Volume} {inb : Nat} (present : inb ≠ 0) :
    ∃ result, fetchIndirect behaviour .bRead isDir bn levels (fsNshift * levels) inb
      volume = (result, volume) ∧
      (result = .error EIO ∨ result = .ok (orHole (treeWalk volume.device levels inb
        (bn % fsNindir ^ levels)))) := by
  induction levels generalizing inb with
  | zero =>
    refine ⟨_, rfl, .inr ?_⟩
    simp [orHole, walk, present]
  | succ levels ih =>
    obtain ⟨digit, rest⟩ := indirectIndex bn levels
    have shifted : fsNshift * (levels + 1) - fsNshift = fsNshift * levels := by
      simp only [fsNshift]
      omega
    have table : treeWalk volume.device (levels + 1) inb (bn % fsNindir ^ (levels + 1)) =
        treeWalk volume.device levels (indirectEntry volume.device inb
          (bn % fsNindir ^ (levels + 1) / fsNindir ^ levels))
          (bn % fsNindir ^ levels) := by
      rw [← rest]
      exact if_neg present
    unfold fetchIndirect
    simp only [digit]
    by_cases bad : behaviour.badRead inb = true
    · rw [if_pos bad]
      exact ⟨_, rfl, .inl rfl⟩
    rw [if_neg bad, table]
    by_cases hole : indirectEntry volume.device inb
      (bn % fsNindir ^ (levels + 1) / fsNindir ^ levels) = 0
    · rw [if_pos hole, hole]
      refine ⟨_, rfl, .inr ?_⟩
      have none' : treeWalk volume.device levels 0 (bn % fsNindir ^ levels) = 0 :=
        walk_null levels _
      rw [none']
      rfl
    · rw [if_neg hole, shifted]
      exact ih hole

section

variable (behaviour : Behaviour) (mapped : Mapped) (rw' : Rw)
include behaviour mapped rw'

theorem xxBmap_direct (direct : lbn < 10) :
    xxBmap behaviour mapped lbn rw' = fetchAddress behaviour rw' mapped.inode.isDir lbn mapped :=
  if_pos direct

theorem xxBmap_indirect (indirect : ¬lbn < 10) (found : locate lbn = some (address, key)) :
    xxBmap behaviour mapped lbn rw' =
      match fetchAddress behaviour rw' true address mapped with
      | (.ok (some inb), fetched) =>
        let result := fetchIndirect behaviour rw' mapped.inode.isDir key
          (addressDepth address) (fsNshift * addressDepth address) inb fetched.volume
        (result.1, { fetched with volume := result.2 })
      | stopped => stopped := by
  obtain ⟨below, _, far, _⟩ := locate_eq_some found
  have choice : chooseLevel 3 0 1 (lbn - (naddr - 3)) =
      some (naddr - address, fsNshift * addressDepth address, key) := by
    have chosen := chooseLevel_eq indirect
    rw [found] at chosen
    exact chosen
  have back : naddr - (naddr - address) = address := by omega
  have levels : niaddr + 1 - (naddr - address) = addressDepth address := by
    simp only [naddr, niaddr, addressDepth] at below ⊢
    omega
  have far' : ¬lbn < naddr - 3 := indirect
  unfold xxBmap
  rw [if_neg far', choice]
  dsimp only
  rewrite [back, levels]
  obtain ⟨result, fetched⟩ := fetchAddress behaviour rw' true address mapped
  cases result with
  | error _ => rfl
  | ok inb =>
    cases inb with
    | none => rfl
    | some _ => rfl

theorem xxBmap_beyond (nowhere : locate lbn = none) :
    xxBmap behaviour mapped lbn rw' = (.error EFBIG, mapped) := by
  have indirect : ¬lbn < 10 := by
    intro direct
    simp [locate, direct] at nowhere
  have choice : chooseLevel 3 0 1 (lbn - (naddr - 3)) = none := by
    have chosen := chooseLevel_eq indirect
    rw [nowhere] at chosen
    exact chosen
  have far' : ¬lbn < naddr - 3 := indirect
  unfold xxBmap
  rw [if_neg far', choice]

end

theorem addressDepth_direct (direct : address < 10) : addressDepth address = 0 := by
  simp only [addressDepth, naddr, niaddr]
  omega

/-- **Reading a logical block** changes nothing and gives its mapping, unless a
block cannot be read; beyond the trees it is an error. -/
theorem xxBmap_read (behaviour : Behaviour) (mapped : Mapped) (lbn : Nat) : ∃ result,
    xxBmap behaviour mapped lbn .bRead = (result, mapped) ∧
      (locate lbn = none → result = .error EFBIG) ∧
      (locate lbn ≠ none → result = .error EIO ∨ result = .ok (orHole (mapping mapped lbn))) := by
  have address (place : Nat) (clear : Bool) : fetchAddress behaviour .bRead clear place mapped =
      (.ok (orHole (mapped.inode.iAddr place)), mapped) := by
    unfold fetchAddress orHole
    dsimp only
    split <;> rfl
  cases found : locate lbn with
  | none =>
    exact ⟨_, xxBmap_beyond behaviour mapped .bRead found,
      fun _ => rfl, fun somewhere => absurd rfl somewhere⟩
  | some place =>
    obtain ⟨place, key⟩ := place
    obtain ⟨below, within, far, _⟩ := locate_eq_some found
    by_cases direct : lbn < 10
    · have same : locate lbn = some (lbn, 0) := if_pos direct
      rw [found] at same
      cases same
      refine ⟨_, (xxBmap_direct behaviour mapped .bRead direct).trans (address lbn _),
        fun nowhere => (by cases nowhere), fun _ => .inr ?_⟩
      simp only [mapping, found, addressDepth_direct direct]
      rfl
    · have key' : key % fsNindir ^ addressDepth place = key := Nat.mod_eq_of_lt within
      rw [xxBmap_indirect behaviour mapped .bRead direct found, address]
      by_cases hole : mapped.inode.iAddr place = 0
      · refine ⟨.ok none, ?_, fun nowhere => (by cases nowhere), fun _ => .inr ?_⟩
        · simp [orHole, hole]
        · have none' : treeWalk mapped.volume.device (addressDepth place) 0 key =
                0 :=
            walk_null _ _
          simp only [mapping, found, hole, none']
          rfl
      · obtain ⟨result, eq, either⟩ := @fetchIndirect_read behaviour mapped.inode.isDir key
          (addressDepth place) mapped.volume _ hole
        have present : orHole (mapped.inode.iAddr place) = some (mapped.inode.iAddr place) :=
          if_neg hole
        refine ⟨result, ?_, fun nowhere => (by cases nowhere), fun _ => ?_⟩
        · rw [present]
          simp only [eq]
        · rw [key'] at either
          simp only [mapping, found]
          exact either

theorem TreeGrows.trans {middle : Volume} {root : Nat} {new : List Nat}
    (first : TreeGrows live before middle depth 0 root [block])
    (rest : TreeGrows (fun other => other = block ∨ live other) middle after depth root root new) :
    TreeGrows live before after depth 0 root (new ++ [block]) := by
  have none' (device : ByteMemory) : treeNodes device depth 0 = [] := nodes_null depth
  have own : (treeNodes middle.device depth root).Perm [block] := by
    have perm := first.perm
    rw [none'] at perm
    simpa using perm
  refine ⟨?_, rest.size.trans first.size, ?_, ?_, ?_, ?_⟩
  · obtain ⟨blocks, formed⟩ := rest.formed
    refine ⟨blocks, formed.live fun other member => ?_⟩
    rcases member with inNew | isLive
    · rcases mem_append.1 inNew with early | isBlock
      · exact .inl early
      · exact .inr (.inl (mem_singleton.1 isBlock))
    · exact .inr (.inr isLive)
  · refine nodup_append.2 ⟨rest.nodup, nodup_singleton block, ?_⟩
    rintro other inNew _ isBlock rfl
    exact rest.fresh other inNew (.inl (mem_singleton.1 isBlock))
  · intro other member isLive
    rcases mem_append.1 member with early | isBlock
    · exact rest.fresh other early (.inr isLive)
    · exact first.fresh other isBlock isLive
  · rw [none', append_nil]
    exact rest.perm.trans (own.append_left new)
  · intro other isLive notTable
    refine (rest.frame other (.inr isLive) ?_).trans (first.frame other isLive notTable)
    intro member
    have isBlock := own.subset (nodes_of_tables member)
    exact first.fresh other isBlock isLive

inductive FetchesAddress (live : Nat → Prop) (clear : Bool) (address : Nat)
    (before : Mapped) : Except Errno (Option Nat) × Mapped → Prop where
  | there : before.inode.iAddr address ≠ 0 → FetchesAddress live clear address before
      (.ok (some (before.inode.iAddr address)), before)
  | noSpace {after : Volume} : before.inode.iAddr address = 0 → WellFormed ⟨after, live⟩ [] →
      after.fp.sFsize = before.volume.fp.sFsize →
      (∀ block, live block → SameBlock block after.device before.volume.device) →
      FetchesAddress live clear address before (.error ENOSPC, { before with volume := after })
  | made {block : Nat} {rest : List Nat} {after : Volume} : before.inode.iAddr address = 0 →
      block ≠ 0 → block < before.volume.fp.sFsize → ¬live block →
      WellFormed ⟨after, fun other => other = block ∨ live other⟩ rest →
      after.fp.sFsize = before.volume.fp.sFsize →
      (∀ other, live other → SameBlock other after.device before.volume.device) →
      (clear = true → ∀ index, index < fsNindir → indirectEntry after.device block index = 0) →
      FetchesAddress live clear address before (.ok (some block),
          { volume := after
            inode :=
              { before.inode with
                iAddr := update before.inode.iAddr address block } })

theorem fetchesAddress (behaviour : Behaviour) {before : Mapped} {blocks : List Nat}
    (formed : WellFormed ⟨before.volume, live⟩ blocks) (clear : Bool) (address : Nat) :
    FetchesAddress live clear address before
      (fetchAddress behaviour .bWrite clear address before) := by
  unfold fetchAddress
  by_cases hole : before.inode.iAddr address = 0
  · rw [if_pos hole]
    have taken := takesBlock behaviour formed clear
    generalize takeBlock behaviour before.volume clear = outcome at taken ⊢
    cases taken with
    | none formed' size same => exact .noSpace hole formed' size same
    | some present small fresh formed' size same empty =>
      exact .made hole present small fresh formed' size same empty
  · rw [if_neg hole]
    exact .there hole

theorem treeGrows_made {rest : List Nat} (present : block ≠ 0) (fresh : ¬live block)
    (formed : WellFormed ⟨after, fun other => other = block ∨ live other⟩ rest)
    (size : after.fp.sFsize = before.fp.sFsize)
    (same : ∀ other, live other → SameBlock other after.device before.device)
    (empty : depth ≠ 0 → ∀ index, index < fsNindir → indirectEntry after.device block index = 0) :
    TreeGrows live before after depth 0 block [block] := by
  refine ⟨⟨rest, formed.live fun other member => ?_⟩, size,
    nodup_singleton block, ?_, ?_, fun other isLive _ =>
    same other isLive⟩
  · exact member.imp_left mem_singleton.1
  · intro other member isLive
    exact fresh (mem_singleton.1 member ▸ isLive)
  · have none' : treeNodes before.device depth 0 = [] := nodes_null depth
    rw [(new_tree present empty).1, none', append_nil]

/-- **Writing a logical block** makes one tree of the inode grow. -/
theorem xxBmap_write (behaviour : Behaviour) {mapped : Mapped} (well : MapWell live mapped)
    (found : locate lbn = some (address, key)) :
    ∃ root new, (xxBmap behaviour mapped lbn .bWrite).2.inode.iAddr =
      update mapped.inode.iAddr address root ∧
      TreeGrows live mapped.volume (xxBmap behaviour mapped lbn .bWrite).2.volume
        (addressDepth address) (mapped.inode.iAddr address) root new ∧
      WalkGrows mapped.volume.device (xxBmap behaviour mapped lbn .bWrite).2.volume.device
        (addressDepth address) (mapped.inode.iAddr address) root key
        (xxBmap behaviour mapped lbn .bWrite).1 := by
  obtain ⟨below, within, _, _⟩ := locate_eq_some found
  obtain ⟨blocks, formed⟩ := well.formed
  have inInode : ∀ block, block ∈ treeNodes mapped.volume.device (addressDepth address)
      (mapped.inode.iAddr address) → block ∈ inodeNodes mapped :=
    fun block member => mem_flatMap.2 ⟨address, mem_range.2 below, member⟩
  have held := fun block member => well.held block (inInode block member)
  have nodup : (treeNodes mapped.volume.device (addressDepth address)
      (mapped.inode.iAddr address)).Nodup :=
    (nodup_flatMap.1 well.nodup).1 address (mem_range.2 below)
  by_cases direct : lbn < 10
  · have same : locate lbn = some (lbn, 0) := if_pos direct
    rw [found] at same
    cases same
    have depth := addressDepth_direct direct
    rw [depth] at within held nodup ⊢
    rw [xxBmap_direct behaviour mapped .bWrite direct]
    have fetched := fetchesAddress behaviour formed mapped.inode.isDir lbn
    generalize fetchAddress behaviour .bWrite mapped.inode.isDir lbn mapped = outcome at fetched ⊢
    cases fetched with
    | there present =>
      obtain ⟨grows, walks⟩ := TreeGrows.same formed rfl held fun _ _ => .refl _ _
      refine ⟨mapped.inode.iAddr lbn, [], ?_, grows,
        fun other otherWithin _ => walks other otherWithin, present, rfl, fun _ => rfl⟩
      exact (update_eq_self _ _).symm
    | noSpace hole formed' size same =>
      obtain ⟨grows, walks⟩ := TreeGrows.same formed' size held same
      refine ⟨mapped.inode.iAddr lbn, [], ?_, grows,
        fun other otherWithin _ => walks other otherWithin, by decide, walks _ within⟩
      exact (update_eq_self _ _).symm
    | @made block rest after hole present _ fresh formed' size same _ =>
      refine ⟨block, [block], rfl, ?_, ?_, present, rfl, ?_⟩
      · rw [hole]
        exact treeGrows_made present fresh formed' size same fun inner => absurd rfl inner
      · intro other otherWithin different
        simp only [Nat.pow_zero] at otherWithin
        omega
      · intro impossible
        exact absurd hole impossible
  · have deep : addressDepth address ≠ 0 := by
      simp only [addressDepth, naddr, niaddr]
      omega
    have key' : key % fsNindir ^ addressDepth address = key := Nat.mod_eq_of_lt within
    rw [xxBmap_indirect behaviour mapped .bWrite direct found]
    have fetched := fetchesAddress behaviour formed true address
    generalize fetchAddress behaviour .bWrite true address mapped = outcome at fetched ⊢
    cases fetched with
    | there present =>
      obtain ⟨new, grows, walks⟩ := fetchIndirect_write behaviour mapped.inode.isDir key
        (addressDepth address) formed well.small present nodup held
      rw [key'] at walks
      refine ⟨mapped.inode.iAddr address, new, ?_, grows, walks⟩
      exact (update_eq_self _ _).symm
    | noSpace hole formed' size same =>
      obtain ⟨grows, walks⟩ := TreeGrows.same formed' size held same
      refine ⟨mapped.inode.iAddr address, [], ?_, grows,
        fun other otherWithin _ => walks other otherWithin, by decide, walks _ within⟩
      exact (update_eq_self _ _).symm
    | @made block rest after hole present _ fresh formed' size same empty =>
      have madeGrows := treeGrows_made present fresh formed' size same
          (fun (_ : addressDepth address ≠ 0) => empty rfl)
      obtain ⟨newNodes, newWalks⟩ := @new_tree after.device block (addressDepth address) present
        fun _ => empty rfl
      obtain ⟨new, grows, walks⟩ := fetchIndirect_write behaviour mapped.inode.isDir key
        (addressDepth address) formed' (by rw [size]; exact well.small) present
        (newNodes ▸ nodup_singleton block) (by
          rw [newNodes]
          exact fun other member => .inl (mem_singleton.1 member))
      rw [key'] at walks
      have oldWalk (other : Nat) : treeWalk mapped.volume.device (addressDepth address) 0 other =
            0 :=
        walk_null _ other
      rw [hole]
      refine ⟨block, new ++ [block], rfl, madeGrows.trans grows, ?_, ?_⟩
      · intro other otherWithin different
        rw [oldWalk]
        exact (walks.1 other otherWithin different).trans (newWalks deep other otherWithin)
      · have foundBlock := walks.2
        have zero := newWalks deep key within
        rw [oldWalk]
        split at foundBlock
        case h_1 eq =>
          simp only [eq]
          exact ⟨foundBlock.1, foundBlock.2.1, fun impossible => absurd rfl impossible⟩
        case h_2 => exact foundBlock.elim
        case h_3 eq =>
          simp only [eq]
          exact ⟨foundBlock.1, foundBlock.2.trans zero⟩

end Uw7.Xxfs
