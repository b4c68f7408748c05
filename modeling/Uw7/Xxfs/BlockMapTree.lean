import Uw7.Lib.RadixTree
import Uw7.Xxfs.BlockMap
import Uw7.Xxfs.FreeList

namespace Uw7.Xxfs

/-!
# Growing the tree of an inode

The blocks of an inode form trees of tables.  Fetching through the indirect
blocks for write adds new blocks to one tree, makes the key wanted lead to a
block, and leaves every other key where it led.
-/

open Lib Lib.RadixTree Errno List Nat

/-- Tables of block numbers; 0 is no block. -/
def shape : Shape Nat where
  null := 0
  width := fsNindir

/-- The blocks of a tree, an indirect block before what it refers to. -/
abbrev treeNodes (device : ByteMemory) : Nat → Nat → List Nat := nodes shape (indirectEntry device)

abbrev treeTables (device : ByteMemory) : Nat → Nat → List Nat :=
  tables shape (indirectEntry device)

/-- The block a key leads to. -/
abbrev treeWalk (device : ByteMemory) : Nat → Nat → Nat → Nat := walk shape (indirectEntry device)

theorem indirectEntry_congr {block index : Nat} {left right : ByteMemory}
    (same : SameBlock block left right) (within : index < fsNindir) :
    indirectEntry left block index = indirectEntry right block index := by
  unfold indirectEntry
  rw [sectorAddress_ltopblk]
  refine ByteMemory.readLe_congr (same.part (by omega) ?_)
  simp only [fsNindir, xxbsize] at within ⊢
  omega

section

variable {block index : Nat} (device : ByteMemory)
include device

theorem sameBlock_setIndirectEntry {value other : Nat} (within : index < fsNindir)
    (different : other ≠ block) :
    SameBlock other (setIndirectEntry device block index value) device := by
  unfold setIndirectEntry
  rw [sectorAddress_ltopblk]
  refine ByteMemory.agreeOn_writeLe ?_
  simp only [fsNindir, xxbsize] at within ⊢
  omega

theorem indirectEntry_setIndirectEntry {value other : Nat} (small : value < 2 ^ 32) :
    indirectEntry (setIndirectEntry device block index value) block other =
      if other = index then value
      else indirectEntry device block other := by
  unfold indirectEntry setIndirectEntry
  by_cases same : other = index
  · subst same
    rw [ByteMemory.readLe_writeLe, if_pos rfl]
    exact mod_eq_of_lt (by simpa using small)
  · rw [if_neg same]
    exact ByteMemory.readLe_congr (ByteMemory.agreeOn_writeLe (by omega))

theorem indirectEntry_clearBlock (within : index < fsNindir) :
    indirectEntry (clearBlock device block) block index = 0 := by
  unfold indirectEntry clearBlock writeBlock
  rw [ByteMemory.readLe_store, ByteMemory.readLe_zero]
  simp only [fsNindir, xxbsize] at within ⊢
  omega

end

variable {blocks : List Nat}

theorem WellFormed.onDevice {usage : Usage} (formed : WellFormed usage blocks)
    {device : ByteMemory} (same : ∀ block ∈ blocks, SameBlock block device usage.volume.device) :
    WellFormed { usage with volume := { usage.volume with device := device } } blocks where
  __ := formed
  list := by
    rcases formed.list with exhausted | ⟨nfree, count, chain⟩
    · exact .inl exhausted
    · exact .inr ⟨nfree, count, chain.congr (fun _ _ => rfl)
        fun block member => (same block member).symm⟩

theorem WellFormed.live {usage : Usage} (formed : WellFormed usage blocks)
    {live : Nat → Prop} (same : ∀ block, live block → usage.live block) :
    WellFormed { usage with live := live } blocks where
  __ := formed
  notLive := fun block member held => formed.notLive block member (same block held)

/-- Taking a block: none is left, or a block that nothing holds. -/
inductive TakesBlock (volume : Volume) (live : Nat → Prop)
    (clear : Bool) : Option Nat × Volume → Prop where
  | none {after : Volume} : WellFormed ⟨after, live⟩ [] → after.fp.sFsize = volume.fp.sFsize →
      (∀ block, live block → SameBlock block after.device volume.device) →
      TakesBlock volume live clear (.none, after)
  | some {block : Nat} {rest : List Nat} {after : Volume} : block ≠ 0 → block < volume.fp.sFsize →
      ¬live block → WellFormed ⟨after, fun other => other = block ∨ live other⟩ rest →
      after.fp.sFsize = volume.fp.sFsize →
      (∀ other, live other → SameBlock other after.device volume.device) →
      (clear = true → ∀ index, index < fsNindir → indirectEntry after.device block index = 0) →
      TakesBlock volume live clear (.some block, after)

theorem takesBlock (behaviour : Behaviour) {volume : Volume} {live : Nat → Prop}
    (formed : WellFormed ⟨volume, live⟩ blocks) (clear : Bool) :
    TakesBlock volume live clear (takeBlock behaviour volume clear) := by
  unfold takeBlock
  cases blocks with
  | nil =>
    rw [xxBlkalloc_nil formed.list]
    exact .none ⟨freeList_noSpace _, .nil, by simp, by simp, formed.isize, rfl⟩ rfl
      fun _ _ => .refl _ _
  | cons head rest =>
    have usable := formed.inRange head mem_cons_self
    obtain ⟨after, returned, list, total, touches⟩ :=
      xxBlkalloc_cons formed.list formed.nodup formed.isize usable (behaviour.onDisk volume.fp)
    obtain ⟨next, allowed, _⟩ := Step.wellFormed formed (.allocated _ returned) trivial
    have notLive := formed.notLive head mem_cons_self
    have notInRest : head ∉ rest := (nodup_cons.1 formed.nodup).1
    have size : 0 < volume.fp.sIsize := formed.isize
    simp only [xxBadblock, decide_eq_false_iff_not, not_or, not_lt, ge_iff_le, not_le] at usable
    rw [returned]
    have apart (other : Nat) (held : live other) : other ≠ head := by
      rintro rfl
      exact notLive held
    refine @TakesBlock.some volume live clear head rest _ (by omega) usable.2 notLive ?_ ?_ ?_ ?_
    · cases clear with
      | false => exact next
      | true =>
        refine next.onDevice fun block member => ?_
        refine sameBlock_writeBlock _ _ ?_
        rintro rfl
        exact notInRest member
    · cases clear <;> exact touches.fsize
    · intro other held
      have kept := touches.elsewhere other (apart other held)
      cases clear with
      | false => exact kept
      | true =>
        have cleared : SameBlock other (clearBlock after.device head) after.device :=
          sameBlock_writeBlock _ _ (apart other held)
        exact cleared.trans kept
    · rintro rfl index within
      exact indirectEntry_clearBlock _ within

/-- A tree that has grown by new blocks, which nothing held: blocks that are
held and are no tables of it stay as they were. -/
structure TreeGrows (live : Nat → Prop) (before after : Volume) (depth old root : Nat)
    (new : List Nat) : Prop where
  formed : ∃ blocks, WellFormed ⟨after, fun block => block ∈ new ∨ live block⟩ blocks
  size : after.fp.sFsize = before.fp.sFsize
  nodup : new.Nodup
  fresh : ∀ block ∈ new, ¬live block
  perm : (treeNodes after.device depth root).Perm (new ++ treeNodes before.device depth old)
  frame : ∀ block, live block → block ∉ treeTables before.device depth old →
      SameBlock block after.device before.device

/-- Where the keys lead after a key was fetched for write: the others where they
led, and the key to the block that is returned, or where it led. -/
def WalkGrows (before after : ByteMemory) (depth old root key : Nat)
    (result : Except Errno (Option Nat)) : Prop :=
  (∀ other, other < fsNindir ^ depth → other ≠ key →
      treeWalk after depth root other = treeWalk before depth old other) ∧
    match result with
    | .ok (some nb) =>
      nb ≠ 0 ∧ treeWalk after depth root key = nb ∧ (treeWalk before depth old key ≠ 0 →
          treeWalk before depth old key = nb)
    | .ok none => False
    | .error error => error ≠ EFBIG ∧ treeWalk after depth root key = treeWalk before depth old key

section

variable {live : Nat → Prop} {depth inb : Nat} (present : inb ≠ 0)
include present

theorem children_same {before after : ByteMemory} {index : Nat}
    (nodup : (treeNodes before (depth + 1) inb).Nodup)
    (held : ∀ block ∈ treeNodes before (depth + 1) inb, live block) (within : index < fsNindir)
    (entries : ∀ place, place < fsNindir → place ≠ index →
      indirectEntry after inb place = indirectEntry before inb place)
    (frame : ∀ block, live block → block ≠ inb →
      block ∉ treeTables before depth (indirectEntry before inb index) →
      SameBlock block after before) {place : Nat} (placeWithin : place < fsNindir)
    (elsewhere : place ≠ index) : treeNodes after depth (indirectEntry after inb place) =
      treeNodes before depth (indirectEntry before inb place) ∧
      ∀ key, key < fsNindir ^ depth → treeWalk after depth (indirectEntry after inb place) key =
        treeWalk before depth (indirectEntry before inb place) key := by
  obtain ⟨notInside, _, apart⟩ := @nodup_nodes_succ _ _ shape _ depth inb present nodup
  rw [entries place placeWithin elsewhere]
  have same : ∀ node, node ∈ treeTables before depth (indirectEntry before inb place) →
      ∀ entry, entry < fsNindir →
        indirectEntry after node entry = indirectEntry before node entry := by
    intro node member entry entryWithin
    have inNodes := nodes_of_tables member
    refine indirectEntry_congr (frame node ?_ ?_ ?_) entryWithin
    · exact held node ((@mem_nodes_succ _ _ shape _ inb node depth present).2
        (.inr ⟨place, placeWithin, inNodes⟩))
    · rintro rfl
      exact notInside place placeWithin inNodes
    · intro inOther
      exact elsewhere (apart place index node placeWithin within inNodes (nodes_of_tables inOther))
  exact ⟨(nodes_congr same).1, fun key keyWithin => walk_congr same keyWithin⟩

theorem TreeGrows.lift {before after : Volume} {index : Nat} {new : List Nat}
    (nodup : (treeNodes before.device (depth + 1) inb).Nodup)
    (held : ∀ block ∈ treeNodes before.device (depth + 1) inb, live block)
    (within : index < fsNindir)
    (entries : ∀ place, place < fsNindir → place ≠ index → indirectEntry after.device inb place =
      indirectEntry before.device inb place)
    (formed : ∃ blocks, WellFormed ⟨after, fun block => block ∈ new ∨ live block⟩ blocks)
    (size : after.fp.sFsize = before.fp.sFsize) (newNodup : new.Nodup)
    (fresh : ∀ block ∈ new, ¬live block)
    (perm : (treeNodes after.device depth (indirectEntry after.device inb index)).Perm (new ++
      treeNodes before.device depth (indirectEntry before.device inb index)))
    (frame : ∀ block, live block → block ≠ inb → block ∉ treeTables before.device depth
      (indirectEntry before.device inb index) → SameBlock block after.device before.device) :
    TreeGrows live before after (depth + 1) inb inb new := by
  refine ⟨formed, size, newNodup, fresh, ?_, ?_⟩
  · have table (device : ByteMemory) : treeNodes device (depth + 1) inb = inb ::
        (range fsNindir).flatMap fun place =>
          treeNodes device depth (indirectEntry device inb place) :=
      if_neg present
    have children := flatMap_perm_at (nodup_range (n := fsNindir)) (mem_range.2 within)
        (fun place member elsewhere =>
          (children_same present nodup held within entries frame (mem_range.1 member) elsewhere).1)
        perm
    rw [table, table]
    exact (children.cons inb).trans perm_middle.symm
  · intro block isLive notTable
    have table : treeTables before.device (depth + 1) inb = inb ::
        (range fsNindir).flatMap fun place =>
          treeTables before.device depth (indirectEntry before.device inb place) :=
      if_neg present
    rw [table, mem_cons, not_or, mem_flatMap] at notTable
    exact frame block isLive notTable.1 fun member => notTable.2 ⟨index, mem_range.2 within, member⟩

theorem WalkGrows.lift {before after : ByteMemory} {key : Nat} {result : Except Errno (Option Nat)}
    (nodup : (treeNodes before (depth + 1) inb).Nodup)
    (held : ∀ block ∈ treeNodes before (depth + 1) inb, live block)
    (within : key < fsNindir ^ (depth + 1))
    (entries : ∀ place, place < fsNindir → place ≠ key / fsNindir ^ depth →
      indirectEntry after inb place = indirectEntry before inb place)
    (frame : ∀ block, live block → block ≠ inb → block ∉ treeTables before depth
      (indirectEntry before inb (key / fsNindir ^ depth)) → SameBlock block after before)
    (walks : WalkGrows before after depth (indirectEntry before inb (key / fsNindir ^ depth))
      (indirectEntry after inb (key / fsNindir ^ depth)) (key % fsNindir ^ depth) result) :
    WalkGrows before after (depth + 1) inb inb key result := by
  have table (device : ByteMemory) (other : Nat) : treeWalk device (depth + 1) inb other =
      treeWalk device depth (indirectEntry device inb (other / fsNindir ^ depth))
        (other % fsNindir ^ depth) :=
    if_neg present
  have digit := @digit_lt _ shape depth key within
  refine ⟨?_, ?_⟩
  · intro other otherWithin different
    rw [table, table]
    by_cases sameDigit : other / fsNindir ^ depth = key / fsNindir ^ depth
    · rw [sameDigit]
      refine walks.1 _ (@rest_lt _ shape depth other otherWithin) ?_
      intro sameRest
      apply different
      rw [← div_add_mod other (fsNindir ^ depth), sameDigit, sameRest, div_add_mod]
    · exact (children_same present nodup held digit entries frame
        (@digit_lt _ shape depth other otherWithin) sameDigit).2 _
        (@rest_lt _ shape depth other otherWithin)
  · rw [table, table]
    exact walks.2

end

theorem TreeGrows.same {live : Nat → Prop} {volume after : Volume}
    (formed : WellFormed ⟨after, live⟩ blocks) (size : after.fp.sFsize = volume.fp.sFsize)
    {depth root : Nat} (held : ∀ block ∈ treeNodes volume.device depth root, live block)
    (same : ∀ block, live block → SameBlock block after.device volume.device) :
    TreeGrows live volume after depth root root [] ∧ ∀ key, key < fsNindir ^ depth →
      treeWalk after.device depth root key = treeWalk volume.device depth root key := by
  have entries : ∀ node, node ∈ treeTables volume.device depth root → ∀ index, index < fsNindir →
      indirectEntry after.device node index = indirectEntry volume.device node index :=
    fun node member index within =>
      indirectEntry_congr (same node (held node (nodes_of_tables member))) within
  refine ⟨⟨⟨blocks, ?_⟩, size, .nil, by simp, ?_, fun block isLive _ =>
    same block isLive⟩, fun key within => walk_congr entries within⟩
  · exact formed.live fun block isLive => isLive.resolve_left not_mem_nil
  · exact Perm.of_eq (nodes_congr entries).1

theorem indirectIndex (bn levels : Nat) :
    (bn >>> (fsNshift * (levels + 1) - fsNshift)) &&& fsNmask =
      bn % fsNindir ^ (levels + 1) / fsNindir ^ levels ∧
      bn % fsNindir ^ (levels + 1) % fsNindir ^ levels = bn % fsNindir ^ levels := by
  have shift : fsNshift * (levels + 1) - fsNshift = 8 * levels := by
    simp only [fsNshift]
    omega
  have mask (number : Nat) : number &&& fsNmask = number % 2 ^ 8 :=
    and_two_pow_sub_one_eq_mod number 8
  have power : fsNindir ^ levels = 2 ^ (8 * levels) := by
    rw [Nat.pow_mul]
    rfl
  constructor
  · have width : (2 : Nat) ^ 8 = fsNindir := rfl
    rw [shift, mask, shiftRight_eq_div_pow, ← power, width, Nat.pow_succ, mod_mul_right_div_self]
  · exact mod_mul_right_mod bn _ _

theorem new_tree {device : ByteMemory} {block depth : Nat} (present : block ≠ 0) (empty :
    depth ≠ 0 → ∀ index, index < fsNindir → indirectEntry device block index = 0) :
    treeNodes device depth block = [block] ∧ (depth ≠ 0 → ∀ key, key < fsNindir ^ depth →
      treeWalk device depth block key = 0) := by
  cases depth with
  | zero => exact ⟨if_neg present, fun impossible => absurd rfl impossible⟩
  | succ depth =>
    obtain ⟨walks, nodes'⟩ := @empty_table _ _ shape (indirectEntry device) block present
      (empty (succ_ne_zero _)) depth
    exact ⟨nodes', fun _ => walks⟩

/-- **Fetching for write**: the tree grows, the key leads to the block that is
returned, and the others lead where they led. -/
theorem fetchIndirect_write (behaviour : Behaviour) (isDir : Bool) (bn levels : Nat)
    {volume : Volume} {live : Nat → Prop} {inb : Nat}
    (formed : WellFormed ⟨volume, live⟩ blocks) (small : volume.fp.sFsize ≤ 2 ^ 32)
    (present : inb ≠ 0) (nodup : (treeNodes volume.device levels inb).Nodup)
    (held : ∀ block ∈ treeNodes volume.device levels inb, live block) :
    ∃ new, TreeGrows live volume (fetchIndirect behaviour .bWrite isDir bn levels
      (fsNshift * levels) inb volume).2 levels inb inb new ∧
      WalkGrows volume.device (fetchIndirect behaviour .bWrite isDir bn levels
        (fsNshift * levels) inb volume).2.device levels inb inb
        (bn % fsNindir ^ levels)
        (fetchIndirect behaviour .bWrite isDir bn levels (fsNshift * levels) inb volume).1 := by
  induction levels generalizing volume live blocks inb with
  | zero =>
    refine ⟨[], (TreeGrows.same formed rfl held fun _ _ => .refl _ _).1,
      ?_, present, rfl, fun _ => rfl⟩
    intro other within different
    simp only [Nat.pow_zero] at within different
    omega
  | succ levels ih =>
    obtain ⟨digit, rest⟩ := indirectIndex bn levels
    have within : bn % fsNindir ^ (levels + 1) < fsNindir ^ (levels + 1) :=
      mod_lt _ (Nat.pow_pos (by decide))
    have digitWithin : bn % fsNindir ^ (levels + 1) / fsNindir ^ levels < fsNindir :=
      @digit_lt _ shape levels _ within
    have shifted : fsNshift * (levels + 1) - fsNshift = fsNshift * levels := by
      simp only [fsNshift]
      omega
    have inbHeld : live inb := held inb (root_mem_nodes present _)
    obtain ⟨notInside, each, _⟩ := @nodup_nodes_succ _ _ shape _ levels inb present nodup
    unfold fetchIndirect
    simp only [digit]
    by_cases bad : behaviour.badRead inb = true
    · rw [if_pos bad]
      obtain ⟨grows, walks⟩ := TreeGrows.same formed rfl held fun _ _ => .refl _ _
      exact ⟨[], grows, fun other otherWithin _ => walks other otherWithin,
        by decide, walks _ within⟩
    rw [if_neg bad]
    by_cases hole : indirectEntry volume.device inb
      (bn % fsNindir ^ (levels + 1) / fsNindir ^ levels) = 0
    · rw [if_pos hole]
      have taken := takesBlock behaviour formed (decide (levels ≠ 0) || isDir)
      generalize takeBlock behaviour volume (decide (levels ≠ 0) || isDir) = outcome at taken ⊢
      cases taken with
      | @none after formed' size same =>
        obtain ⟨grows, walks⟩ := TreeGrows.same formed' size held same
        exact ⟨[], grows, fun other otherWithin _ => walks other otherWithin,
          by decide, walks _ within⟩
      | @some nb free after nbPresent nbSmall nbFresh formed' size same empty =>
        simp only
        rw [shifted]
        generalize index : bn % fsNindir ^ (levels + 1) / fsNindir ^ levels = i at *
        -- the device with the new block entered
        set entered : Volume :=
          { after with
            device := setIndirectEntry after.device inb i nb } with
          enteredEq
        have nbApart : inb ≠ nb := by
          rintro rfl
          exact nbFresh inbHeld
        have toAfter (block : Nat) (away : block ≠ inb) :
            SameBlock block entered.device after.device :=
          sameBlock_setIndirectEntry _ digitWithin away
        have notFree : inb ∉ free := fun member => formed'.notLive inb member (.inr inbHeld)
        have enteredFormed : WellFormed ⟨entered, fun other => other = nb ∨ live other⟩ free :=
          formed'.onDevice fun block member => toAfter block fun same => notFree (same ▸ member)
        obtain ⟨newNodes, newWalks⟩ := @new_tree entered.device nb levels nbPresent
          (fun inner index' within' => by
            rw [indirectEntry_congr (toAfter nb nbApart.symm) within']
            exact empty (by simp [inner]) index' within')
        obtain ⟨new, grows, walks⟩ := ih enteredFormed (by
          rw [← size] at small
          exact small) nbPresent (newNodes ▸ nodup_singleton nb) (by
            rw [newNodes]
            intro block member
            exact .inl (mem_singleton.1 member))
        have newTables (block : Nat) (away : block ≠ nb) :
            block ∉ treeTables entered.device levels nb := by
          intro member
          have inside := nodes_of_tables member
          change block ∈ treeNodes entered.device levels nb at inside
          rw [newNodes] at inside
          exact away (mem_singleton.1 inside)
        generalize finishedEq : fetchIndirect behaviour .bWrite isDir bn levels
          (fsNshift * levels) nb entered = finished at *
        have toEntered (block : Nat) (isLive : live block) :
            SameBlock block finished.2.device entered.device := by
          refine grows.frame block (.inr isLive) (newTables block ?_)
          rintro rfl
          exact nbFresh isLive
        have own (place : Nat) (placeWithin : place < fsNindir) :
            indirectEntry finished.2.device inb place =
              if place = i then nb
              else indirectEntry volume.device inb place := by
          rw [indirectEntry_congr (toEntered inb inbHeld) placeWithin, enteredEq]
          rw [indirectEntry_setIndirectEntry _ (by omega)]
          split
          · rfl
          · exact indirectEntry_congr (same inb inbHeld) placeWithin
        have frame (block : Nat) (isLive : live block) (away : block ≠ inb) :
            SameBlock block finished.2.device volume.device :=
          ((toEntered block isLive).trans (toAfter block away)).trans (same block isLive)
        have rootNow : indirectEntry finished.2.device inb i = nb := by
          rw [own i digitWithin, if_pos rfl]
        refine ⟨new ++ [nb], ?_, ?_⟩
        · refine TreeGrows.lift present nodup held digitWithin
            (fun place placeWithin elsewhere => by rw [own place placeWithin, if_neg elsewhere])
            ?_ (grows.size.trans size) ?_ ?_ ?_ (fun block isLive away _ => frame block isLive away)
          · obtain ⟨left, leftFormed⟩ := grows.formed
            refine ⟨left, leftFormed.live fun block member => ?_⟩
            rcases member with inNew | isLive
            · rcases mem_append.1 inNew with early | isNb
              · exact .inl early
              · exact .inr (.inl (mem_singleton.1 isNb))
            · exact .inr (.inr isLive)
          · refine nodup_append.2 ⟨grows.nodup, nodup_singleton nb, ?_⟩
            rintro block inNew _ isNb rfl
            exact grows.fresh block inNew (.inl (mem_singleton.1 isNb))
          · intro block member isLive
            rcases mem_append.1 member with early | isNb
            · exact grows.fresh block early (.inr isLive)
            · exact nbFresh (mem_singleton.1 isNb ▸ isLive)
          · have none' : treeNodes volume.device levels 0 = [] := nodes_null levels
            have perm := grows.perm
            rw [newNodes] at perm
            rw [rootNow, hole, none', append_nil]
            exact perm
        · refine WalkGrows.lift present nodup held within (fun place placeWithin elsewhere => ?_)
            (fun block isLive away _ => frame block isLive away) ?_
          · rw [index] at elsewhere
            rw [own place placeWithin, if_neg elsewhere]
          · rw [index, rootNow, hole, rest]
            have oldWalk (key : Nat) : treeWalk volume.device levels 0 key = 0 :=
              walk_null levels key
            constructor
            · intro other otherWithin different
              rw [walks.1 other otherWithin different, oldWalk]
              by_cases inner : levels = 0
              · subst inner
                simp only [Nat.pow_zero] at otherWithin different
                omega
              · exact newWalks inner other otherWithin
            · have found := walks.2
              cases levels with
              | zero =>
                rw [← finishedEq]
                exact ⟨nbPresent, rfl, fun impossible => absurd rfl impossible⟩
              | succ levels =>
                have zero := newWalks (succ_ne_zero _) (bn % fsNindir ^ (levels + 1))
                    (mod_lt _ (Nat.pow_pos (by decide)))
                split at found
                · exact ⟨found.1, found.2.1, fun impossible => absurd rfl impossible⟩
                · exact found
                · exact ⟨found.1, found.2.trans zero⟩
    · rw [if_neg hole, shifted]
      obtain ⟨new, grows, walks⟩ := ih formed small hole (each _ digitWithin) (fun block member =>
        held block ((@mem_nodes_succ _ _ shape _ inb block levels present).2
          (.inr ⟨_, digitWithin, member⟩)))
      generalize fetchIndirect behaviour .bWrite isDir bn levels
        (fsNshift * levels) _ volume = finished at *
      have sameRoot : SameBlock inb finished.2.device volume.device :=
        grows.frame inb inbHeld fun member => notInside _ digitWithin (nodes_of_tables member)
      have own (place : Nat) (placeWithin : place < fsNindir) :
          indirectEntry finished.2.device inb place = indirectEntry volume.device inb place :=
        indirectEntry_congr sameRoot placeWithin
      refine ⟨new, ?_, ?_⟩
      · refine TreeGrows.lift present nodup held digitWithin
          (fun place placeWithin _ => own place placeWithin) grows.formed
          grows.size grows.nodup grows.fresh ?_
          (fun block isLive _ away => grows.frame block isLive away)
        rw [own _ digitWithin]
        exact grows.perm
      · refine WalkGrows.lift present nodup held within
          (fun place placeWithin _ => own place placeWithin)
          (fun block isLive _ away => grows.frame block isLive away) ?_
        rw [own _ digitWithin, rest]
        exact walks

end Uw7.Xxfs
