import Uw7.Xxfs.BlockMapInode
import Uw7.Xxfs.TruncateTree

namespace Uw7.Xxfs

/-!
# Cutting the trees of an inode

`xx_itrunc` goes through the trees of the inode from the highest address down
and stops behind the first one of which it keeps a part, since those below are
then kept whole.
-/

open Lib Lib.RadixTree List

/-- The first logical block of the tree at an address. -/
def treeBase : Nat → Nat
  | 0 => 0
  | address + 1 => treeBase address + fsNindir ^ addressDepth address

/-- How many of the keys of a tree are those of the first `count` logical
blocks. -/
def keepAt (count address : Nat) : Nat := count - treeBase address

theorem treeBase_le {low high : Nat} (below : low < high) :
    treeBase low + fsNindir ^ addressDepth low ≤ treeBase high := by
  induction high with
  | zero => omega
  | succ high ih =>
    simp only [treeBase]
    rcases Nat.lt_succ_iff_lt_or_eq.1 below with less | rfl
    · omega
    · exact le_rfl

theorem treeBase_direct {address : Nat} (direct : address ≤ 10) : treeBase address = address := by
  induction address with
  | zero => rfl
  | succ address ih =>
    have depth : addressDepth address = 0 := addressDepth_direct (by omega)
    simp only [treeBase]
    rw [depth, ih (by omega), Nat.pow_zero]

theorem treeBase_naddr : treeBase naddr = mappableBlocks := rfl

theorem locate_treeBase {lbn address key : Nat} : locate lbn = some (address, key) ↔
    address < naddr ∧ key < fsNindir ^ addressDepth address ∧ lbn = treeBase address + key := by
  have ten : treeBase 10 = 10 := rfl
  have eleven : treeBase 11 = 10 + fsNindir := rfl
  have twelve : treeBase 12 = 10 + fsNindir + fsNindir ^ 2 := rfl
  have base {address : Nat} (below : address < naddr) : (if address < 10 then address
        else if address = 10 then 10
        else if address = 11 then 10 + fsNindir
        else 10 + fsNindir + fsNindir ^ 2) = treeBase address := by
    simp only [naddr] at below
    split_ifs with direct isTen isEleven
    · exact (treeBase_direct (by omega)).symm
    · rw [isTen, ten]
    · rw [isEleven, eleven]
    · have isTwelve : address = 12 := by
        omega
      rw [isTwelve, twelve]
  constructor
  · intro found
    obtain ⟨below, within, _, eq⟩ := locate_eq_some found
    rw [base below] at eq
    exact ⟨below, within, by omega⟩
  · rintro ⟨below, within, rfl⟩
    have mappable : treeBase address + key < mappableBlocks := by
      have reach := treeBase_le below
      rw [treeBase_naddr] at reach
      omega
    cases found : locate (treeBase address + key) with
    | none =>
      have beyond := (locate_eq_none _).1 found
      omega
    | some place =>
      obtain ⟨other, otherKey⟩ := place
      obtain ⟨otherBelow, otherWithin, _, eq⟩ := locate_eq_some found
      rw [base otherBelow] at eq
      have same : other = address := by
        rcases Nat.lt_trichotomy other address with less | same | more
        · have := treeBase_le less
          omega
        · exact same
        · have := treeBase_le more
          omega
      subst same
      have sameKey : otherKey = key := by omega
      rw [sameKey]

/-- The blocks of the trees below an address. -/
def nodesBelow (device : ByteMemory) (iAddr : Nat → Nat) (bound : Nat) : List Nat :=
  (range bound).flatMap fun address =>
    treeNodes device (addressDepth address) (iAddr address)

/-- Those that the first `count` logical blocks do not need. -/
def droppedBelow (device : ByteMemory) (iAddr : Nat → Nat) (count bound : Nat) : List Nat :=
  (range bound).flatMap fun address =>
    dropped shape (indirectEntry device) (addressDepth address)
      (iAddr address) (keepAt count address)

/-- What cutting the trees below an address relies on. -/
structure TreesReady (behaviour : Behaviour) (table : Nat → Prop) (iAddr : Nat → Nat) (count : Nat)
    (volume : Volume)
    (bound : Nat) : Prop where
  nodup : (nodesBelow volume.device iAddr bound).Nodup
  tables : ∀ address, address < bound → ∀ block ∈
      treeTables volume.device (addressDepth address) (iAddr address),
      table block
  readable : ∀ address, address < bound → ∀ block ∈
      treeTables volume.device (addressDepth address) (iAddr address),
      block ∈ dropped shape (indirectEntry volume.device) (addressDepth address) (iAddr address)
          (keepAt count address) ∨
        (0 < keepAt count address ∧ keepAt count address ≤ fsNindir ^ addressDepth address) ∧
          block ∈ path shape (indirectEntry volume.device) (addressDepth address) (iAddr address)
              (keepAt count address - 1) →
      behaviour.badRead block = false
  safe : FreesSafely table volume (droppedBelow volume.device iAddr count bound)

structure TreesCut (table : Nat → Prop) (iAddr : Nat → Nat) (count : Nat) (before after : Freeing)
    (bound : Nat) : Prop where
  frees : Frees table before after (nodesBelow before.volume.device iAddr bound)
      (droppedBelow before.volume.device iAddr count bound)
  cut : ∀ address, address < bound → 0 < keepAt count address →
      CutAt shape (indirectEntry before.volume.device)
        (indirectEntry after.volume.device) (addressDepth address)
        (iAddr address) (keepAt count address)

variable {behaviour : Behaviour} {table : Nat → Prop} {iAddr : Nat → Nat} {count bound : Nat}

theorem nodesBelow_succ (device : ByteMemory) : nodesBelow device iAddr (bound + 1) =
    nodesBelow device iAddr bound ++ treeNodes device (addressDepth bound) (iAddr bound) := by
  simp [nodesBelow, range_succ]

theorem droppedBelow_succ (device : ByteMemory) : droppedBelow device iAddr count (bound + 1) =
    droppedBelow device iAddr count bound ++
      dropped shape (indirectEntry device) (addressDepth bound)
        (iAddr bound) (keepAt count bound) := by
  simp [droppedBelow, range_succ]

theorem tables_same {before middle : Freeing} (ready :
    TreesReady behaviour table iAddr count before.volume (bound + 1))
    {gone : List Nat}
    (one : Frees table before middle (treeNodes before.volume.device (addressDepth bound)
      (iAddr bound)) gone)
    {address : Nat}
    (below : address < bound) :
    ∀ block ∈ treeTables before.volume.device (addressDepth address) (iAddr address),
      SameBlock block middle.volume.device before.volume.device := by
  intro block member
  refine one.frame block (ready.tables address (by omega) block member) ?_
  intro inOne
  have nodup := ready.nodup
  rw [nodesBelow_succ] at nodup
  exact (nodup_append.1 nodup).2.2 block (mem_flatMap.2
    ⟨address, mem_range.2 below, nodes_of_tables member⟩)
    block inOne rfl

theorem treesBelow_same {before middle : ByteMemory} (same : ∀ address, address < bound → ∀ block ∈
    treeTables before (addressDepth address) (iAddr address),
    SameBlock block middle before) :
    nodesBelow middle iAddr bound = nodesBelow before iAddr bound ∧
      droppedBelow middle iAddr count bound = droppedBelow before iAddr count bound := by
  constructor
  · exact flatMap_congr fun address member =>
      (nodes_congr (entries_same (same address (mem_range.1 member)))).1
  · exact flatMap_congr fun address member =>
      (cut_congr (entries_same (same address (mem_range.1 member))) _).2.1

theorem TreesReady.next {before middle : Freeing} (ready :
    TreesReady behaviour table iAddr count before.volume (bound + 1))
    (one : Frees table before middle
      (treeNodes before.volume.device (addressDepth bound) (iAddr bound))
      (dropped shape (indirectEntry before.volume.device)
        (addressDepth bound) (iAddr bound) (keepAt count bound))) :
    TreesReady behaviour table iAddr count middle.volume bound := by
  have same (address : Nat) (below : address < bound) := tables_same ready one below
  obtain ⟨nodes, gone⟩ := @treesBelow_same iAddr count bound _ middle.volume.device same
  have tables (address : Nat) (below : address < bound) :
      treeTables middle.volume.device (addressDepth address) (iAddr address) =
        treeTables before.volume.device (addressDepth address) (iAddr address) :=
    (nodes_congr (entries_same (same address below))).2
  refine ⟨?_, ?_, ?_, ?_⟩
  · have nodup := ready.nodup
    rw [nodesBelow_succ] at nodup
    rw [nodes]
    exact (nodup_append.1 nodup).1
  · intro address below
    rw [tables address below]
    exact ready.tables address (by omega)
  · intro address below block
    have cut := cut_congr (entries_same (same address below)) (keepAt count address)
    rw [tables address below, cut.2.1]
    rintro member (isDropped | ⟨some', onPath⟩)
    · exact ready.readable address (by omega) block member (.inl isDropped)
    · rw [cut.2.2 _ (show keepAt count address - 1 <
        fsNindir ^ addressDepth address by omega)] at onPath
      exact ready.readable address (by omega) block member (.inr ⟨some', onPath⟩)
  · have safe := ready.safe
    rw [droppedBelow_succ] at safe
    rw [gone]
    exact one.safe _ (safe.perm perm_append_comm)

theorem TreesCut.step {before middle after : Freeing} (ready :
    TreesReady behaviour table iAddr count before.volume (bound + 1))
    (one : Frees table before middle
      (treeNodes before.volume.device (addressDepth bound) (iAddr bound))
      (dropped shape (indirectEntry before.volume.device)
        (addressDepth bound) (iAddr bound) (keepAt count bound)))
    (cutOne : 0 < keepAt count bound → CutAt shape (indirectEntry before.volume.device)
      (indirectEntry middle.volume.device) (addressDepth bound)
      (iAddr bound) (keepAt count bound))
    (rest : TreesCut table iAddr count middle after bound) :
    TreesCut table iAddr count before after (bound + 1) := by
  have same (address : Nat) (below : address < bound) := tables_same ready one below
  obtain ⟨nodes, gone⟩ := @treesBelow_same iAddr count bound _ middle.volume.device same
  have frees := rest.frees
  rw [nodes, gone] at frees
  refine ⟨?_, ?_⟩
  · rw [nodesBelow_succ, droppedBelow_succ]
    exact (one.trans frees).weaken (fun block member =>
      (mem_append.1 member).elim (mem_append_right _) (mem_append_left _))
      perm_append_comm
  · intro address below some'
    rcases Nat.lt_succ_iff_lt_or_eq.1 below with less | rfl
    · exact (rest.cut address less some').congr (entries_same (same address less))
    · have cut := cutOne some'
      refine cut.after (entries_same fun block member => ?_)
      have wasTable := cut.tables member
      refine rest.frees.frame block (ready.tables address (by omega) block wasTable) ?_
      rw [nodes]
      intro inRest
      have nodup := ready.nodup
      rw [nodesBelow_succ] at nodup
      exact (nodup_append.1 nodup).2.2 block inRest block (nodes_of_tables wasTable) rfl

theorem TreesCut.idle (state : Freeing) (whole : ∀ address, address < bound →
    fsNindir ^ addressDepth address ≤ keepAt count address) :
    TreesCut table iAddr count state state bound := by
  refine ⟨?_, fun address below _ => CutAt.all (by decide) (whole address below) fun _ _ _ _ => rfl⟩
  have none' : droppedBelow state.volume.device iAddr count bound = [] := by
    refine flatMap_eq_nil_iff.2 fun address member => ?_
    exact (@kept_all _ _ shape _ (by decide) _ _ (whole address (mem_range.1 member)) _).2
  rw [none']
  exact (Frees.refl state).weaken (nil_subset _) (.refl _)

theorem keepAt_whole {address other : Nat} (some' : 0 < keepAt count address)
    (below : other < address) :
    fsNindir ^ addressDepth other ≤ keepAt count other := by
  have reach := treeBase_le below
  unfold keepAt at some' ⊢
  omega

/-- **The direct blocks.** -/
theorem truncDirect_right {state : Freeing} (direct : bound ≤ ndaddr) (ready :
    TreesReady behaviour table iAddr count state.volume bound) :
    TreesCut table iAddr count state (freeLoop (fun i state =>
      if iAddr i = 0 then state
      else freeBlock behaviour state (iAddr i))
      ((count : Int) - 1) bound state)
      bound := by
  have ten : ndaddr = 10 := rfl
  induction bound generalizing state with
  | zero => exact .idle state fun address below => by omega
  | succ bound ih =>
    have base := @treeBase_direct bound (by omega)
    have depth : addressDepth bound = 0 := addressDepth_direct (by omega)
    unfold freeLoop
    by_cases beyond : count ≤ bound
    · rw [if_pos (by omega)]
      have zero : keepAt count bound = 0 := by
        unfold keepAt
        omega
      have one : Frees table state (if iAddr bound = 0 then state
            else freeBlock behaviour state (iAddr bound))
            (treeNodes state.volume.device (addressDepth bound) (iAddr bound))
            (dropped shape (indirectEntry state.volume.device) (addressDepth bound) (iAddr bound)
              (keepAt count bound)) := by
        have safe := ready.safe
        rw [droppedBelow_succ] at safe
        rw [zero, depth] at safe ⊢
        have tree : treeNodes state.volume.device 0 (iAddr bound) =
            if iAddr bound = 0 then [] else [iAddr bound] :=
          rfl
        have gone : dropped shape (indirectEntry state.volume.device) 0 (iAddr bound) 0 =
            if iAddr bound = 0 then [] else [iAddr bound] :=
          dropped_zero 0 _
        by_cases absent : iAddr bound = 0
        · rw [if_pos absent, tree, gone, if_pos absent]
          exact .refl state
        · rw [if_neg absent]
          rw [gone, if_neg absent] at safe
          rw [tree, gone, if_neg absent]
          exact frees_freeBlock behaviour (safe.perm perm_append_comm).left
      exact .step ready one (fun some' => by omega) (ih (by omega) (ready.next one))
    · rw [if_neg (by omega)]
      refine .idle state fun address below => ?_
      have addressBase := @treeBase_direct address (by omega)
      have addressDepth : addressDepth address = 0 := addressDepth_direct (by omega)
      rw [addressDepth, Nat.pow_zero]
      unfold keepAt
      omega

theorem ib_spec {level : Nat} (within : level ≤ triple) : addressDepth (ib level) = level + 1 ∧
    lastiblockKept ((count : Int) - 1) level = (keepAt count (ib level) : Int) - 1 := by
  have ten : treeBase 10 = 10 := rfl
  have eleven : treeBase 11 = 266 := rfl
  have twelve : treeBase 12 = 65802 := rfl
  have isTriple : triple = 2 := rfl
  refine ⟨?_, ?_⟩
  · simp only [addressDepth, ib, ndaddr, naddr, niaddr]
    omega
  · have cases' : level = 0 ∨ level = 1 ∨ level = 2 := by
      omega
    simp only [lastiblockKept, keepAt, ib, ndaddr, naddr, niaddr]
    rcases cases' with rfl | rfl | rfl <;>
      simp only [lastiblock, ndaddr, naddr, niaddr, fsNindir, xxbsize, ten, eleven, twelve] <;>
      split_ifs <;> omega

/-- **The levels**, the highest first, and the direct blocks. -/
theorem truncLevels_right {levels : Nat} (levelsWithin : levels ≤ triple + 1)
    (reach : count ≤ treeBase (ndaddr + levels)) {state : Freeing}
    (ready : TreesReady behaviour table iAddr count state.volume (ndaddr + levels)) :
    TreesCut table iAddr count state (truncLevels behaviour ((count : Int) - 1) iAddr levels state)
      (ndaddr + levels) := by
  induction levels generalizing state with
  | zero => exact truncDirect_right le_rfl ready
  | succ level ih =>
    obtain ⟨depth, last⟩ := @ib_spec count level (by omega)
    have address : ndaddr + level = ib level := rfl
    have keepWithin : keepAt count (ib level) ≤ fsNindir ^ (level + 1) := by
      have next : treeBase (ndaddr + (level + 1)) =
          treeBase (ib level) + fsNindir ^ addressDepth (ib level) :=
        rfl
      rw [depth] at next
      unfold keepAt
      omega
    unfold truncLevels
    dsimp only
    rw [last]
    generalize cutIs : (if iAddr (ib level) = 0 then state
      else
        if (keepAt count (ib level) : Int) - 1 < 0 then
          freeBlock behaviour (xxIndirtrunc behaviour level (iAddr (ib level))
            ((keepAt count (ib level) : Int) - 1) state)
            (iAddr (ib level))
        else
          xxIndirtrunc behaviour level (iAddr (ib level))
            ((keepAt count (ib level) : Int) - 1) state) = cut
    have one : Frees table state cut (treeNodes state.volume.device (addressDepth (ib level))
        (iAddr (ib level)))
        (dropped shape (indirectEntry state.volume.device)
          (addressDepth (ib level)) (iAddr (ib level))
          (keepAt count (ib level))) ∧
        (0 < keepAt count (ib level) → CutAt shape (indirectEntry state.volume.device)
          (indirectEntry cut.volume.device)
          (addressDepth (ib level)) (iAddr (ib level))
          (keepAt count (ib level))) := by
      rw [depth, ← cutIs]
      by_cases absent : iAddr (ib level) = 0
      · rw [if_pos absent, absent]
        have nodes : treeNodes state.volume.device (level + 1) 0 = [] := nodes_null _
        have gone (keep : Nat) : dropped shape (indirectEntry state.volume.device)
            (level + 1) 0 keep = [] :=
          dropped_null _ keep
        exact ⟨.refl state, fun _ => CutAt.absent (level + 1) _⟩
      · rw [if_neg absent]
        have below : ib level < ndaddr + (level + 1) := Nat.lt_succ_self _
        have safe := ready.safe
        rw [show ndaddr + (level + 1) = ib level + 1 from rfl,
          droppedBelow_succ, depth, dropped_succ absent] at safe
        have safe' := (safe.perm perm_append_comm).left
        have nodup := ready.nodup
        rw [show ndaddr + (level + 1) = ib level + 1 from rfl, nodesBelow_succ, depth] at nodup
        have cutReady : CutReady behaviour table state.volume level
            (iAddr (ib level)) (keepAt count (ib level)) :=
          { present := absent
            within := keepWithin
            nodup := (nodup_append.1 nodup).2.1
            tables := by
              have tables := ready.tables (ib level) below
              rwa [depth] at tables
            readable := by
              have readable := ready.readable (ib level) below
              rw [depth] at readable
              intro block member reads
              refine readable block member (reads.imp_right ?_)
              exact fun ⟨some', onPath⟩ => ⟨⟨some', keepWithin⟩, onPath⟩
            safe := (safe'.perm perm_append_comm).left }
        obtain ⟨frees, cuts⟩ := xxIndirtrunc_right level _ _ state cutReady
        rw [dropped_succ absent]
        by_cases none' : keepAt count (ib level) = 0
        · rw [if_pos (by omega), if_pos none']
          rw [if_pos none'] at safe'
          have last := frees.safe _ (safe'.perm perm_append_comm)
          refine ⟨(frees.trans (frees_freeBlock behaviour last)).weaken ?_
            perm_append_comm, fun some' => by omega⟩
          refine append_subset.2 ⟨List.Subset.refl _, ?_⟩
          intro block member
          rw [mem_singleton.1 member]
          exact root_mem_nodes absent _
        · rw [if_neg (by omega), if_neg none', nil_append]
          exact ⟨frees, cuts⟩
    split
    · refine .step ready one.1 one.2 (.idle cut fun other below => ?_)
      exact @keepAt_whole count (ib level) other (by omega) below
    · refine .step ready one.1 one.2 (ih (by omega) ?_ (ready.next one.1))
      rw [address]
      have none' : keepAt count (ib level) = 0 := by omega
      unfold keepAt at none'
      omega

end Uw7.Xxfs
