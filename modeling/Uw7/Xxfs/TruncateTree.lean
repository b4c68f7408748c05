import Uw7.Xxfs.Truncate

namespace Uw7.Xxfs

/-!
# Cutting the tree of an indirect block

`xx_indirtrunc` frees the blocks of a tree that no logical block up to the last
one needs, and cuts the tree there.
-/

open Lib Lib.RadixTree List Nat

/-- What `xx_indirtrunc` relies on: the tree refers to each block once, the
indirect blocks it reads can be read, and the blocks are freed safely. -/
structure CutReady (behaviour : Behaviour) (table : Nat → Prop) (volume : Volume)
    (level bn keep : Nat) : Prop where
  present : bn ≠ 0
  within : keep ≤ fsNindir ^ (level + 1)
  nodup : (treeNodes volume.device (level + 1) bn).Nodup
  tables : ∀ block ∈ treeTables volume.device (level + 1) bn, table block
  readable : ∀ block ∈ treeTables volume.device (level + 1) bn, block ∈
      dropped shape (indirectEntry volume.device) (level + 1) bn keep ∨
      0 < keep ∧ block ∈ path shape (indirectEntry volume.device) (level + 1) bn (keep - 1) →
      behaviour.badRead block = false
  safe : FreesSafely table volume (droppedInside shape (indirectEntry volume.device) level bn keep)

/-- A call that cuts trees of a level. -/
def Indirtruncs (behaviour : Behaviour) (table : Nat → Prop) (level : Nat)
    (call : Nat → Int → Freeing → Freeing) : Prop :=
  ∀ bn keep state, CutReady behaviour table state.volume level bn keep →
    Frees table state (call bn ((keep : Int) - 1) state)
        (treeNodes state.volume.device (level + 1) bn)
        (droppedInside shape (indirectEntry state.volume.device) level bn keep) ∧
      (0 < keep → CutAt shape (indirectEntry state.volume.device) (indirectEntry
          (call bn ((keep : Int) - 1) state).volume.device) (level + 1) bn keep)

variable {behaviour : Behaviour} {table : Nat → Prop}

variable {block first index keep level bn count : Nat} {volume : Volume} {device : ByteMemory}
  {below : Nat → Int → Freeing → Freeing} {state : Freeing}

theorem sameBlock_clearEntries {other : Nat} (device : ByteMemory) (bound : first ≤ fsNindir)
    (different : other ≠ block) : SameBlock other (clearEntries device block first) device := by
  unfold clearEntries
  refine ByteMemory.agreeOn_store _ ?_
  rw [sectorAddress_ltopblk]
  simp only [fsNindir, xxbsize] at bound ⊢
  omega

theorem indirectEntry_clearEntries (device : ByteMemory) (within : index < fsNindir) :
    indirectEntry (clearEntries device block first) block index =
      if index < first then indirectEntry device block index else 0 := by
  unfold indirectEntry clearEntries
  split
  · refine ByteMemory.readLe_congr (ByteMemory.agreeOn_store _ ?_)
    omega
  · have offset : sectorAddress (ltopblk block xxbsize) + 4 * index =
        sectorAddress (ltopblk block xxbsize) + 4 * first + 4 * (index - first) := by
      omega
    rw [offset, ByteMemory.readLe_store, ByteMemory.readLe_zero]
    omega

/-- The index of the last entry, as it is calculated. -/
def lastIndex (level : Nat) (lastbn : Int) : Int :=
  if 0 < lastbn then lastbn / (fsNindir ^ level : Nat) else lastbn

theorem fsNindir_pow_pos (level : Nat) : 0 < fsNindir ^ level := Nat.pow_pos (by decide)

theorem lastIndex_pos (level : Nat) (some' : 0 < keep) :
    lastIndex level ((keep : Int) - 1) = ((keep - 1) / fsNindir ^ level : Nat) := by
  have natural : (keep : Int) - 1 = ((keep - 1 : Nat) : Int) := by omega
  unfold lastIndex
  rw [natural]
  split
  · exact (Int.natCast_ediv _ _).symm
  · have zero : keep - 1 = 0 := by
      omega
    rw [zero, Nat.zero_div]

theorem lastIndex_lt (level keep index : Nat) : lastIndex level ((keep : Int) - 1) < index ↔
    keep ≤ index * fsNindir ^ level := by
  have power := fsNindir_pow_pos level
  rcases Nat.eq_zero_or_pos keep with rfl | some'
  · have last : lastIndex level (((0 : Nat) : Int) - 1) = -1 := rfl
    rw [last]
    omega
  · rw [lastIndex_pos level some', Int.ofNat_lt, Nat.div_lt_iff_lt_mul power]
    omega

theorem lt_first (level keep index : Nat) : index < (lastIndex level ((keep : Int) - 1) + 1).toNat ↔
    index * fsNindir ^ level < keep := by
  have beyond := lastIndex_lt level keep index
  rw [← not_le (a := keep), ← beyond]
  omega

theorem child_nodup (ready : CutReady behaviour table volume level bn keep) :
    (∀ index, index < fsNindir → bn ∉ treeNodes volume.device level
      (indirectEntry volume.device bn index)) ∧
      (∀ index, index < fsNindir → (treeNodes volume.device level
        (indirectEntry volume.device bn index)).Nodup) ∧
      ∀ one two node, one < fsNindir → two < fsNindir → node ∈ treeNodes volume.device level
        (indirectEntry volume.device bn one) →
        node ∈ treeNodes volume.device level (indirectEntry volume.device bn two) → one = two :=
  @nodup_nodes_succ _ _ shape _ level bn ready.present ready.nodup

theorem child_node (present : bn ≠ 0) (within : index < fsNindir)
    (member : block ∈ treeNodes device level (indirectEntry device bn index)) :
    block ∈ treeNodes device (level + 1) bn :=
  (@mem_nodes_succ _ _ shape _ bn block level present).2 (.inr ⟨index, within, member⟩)

theorem child_table (present : bn ≠ 0) (within : index < fsNindir)
    (member : block ∈ treeTables device level (indirectEntry device bn index)) :
    block ∈ treeTables device (level + 1) bn := by
  have tables : treeTables device (level + 1) bn = bn :: (range fsNindir).flatMap fun index =>
      treeTables device level (indirectEntry device bn index) :=
    if_neg present
  rw [tables]
  exact mem_cons_of_mem _ (mem_flatMap.2 ⟨index, mem_range.2 within, member⟩)

theorem child_dropped (within : index < fsNindir)
    (member : block ∈ dropped shape (indirectEntry device) level (indirectEntry device bn index)
      (keep - index * fsNindir ^ level)) :
    block ∈ droppedInside shape (indirectEntry device) level bn keep :=
  mem_flatMap.2 ⟨index, mem_range.2 within, member⟩

theorem entries_same {before after : ByteMemory} {blocks : List Nat}
    (same : ∀ block ∈ blocks, SameBlock block after before) :
    ∀ node ∈ blocks, ∀ index, index < shape.width →
      indirectEntry after node index = indirectEntry before node index :=
  fun node member _ within => indirectEntry_congr (same node member) within

/-- The trees behind the entries from the last one on, below an index. -/
def goneBelow (device : ByteMemory) (level bn keep count : Nat) : List Nat :=
  (range count).flatMap fun index =>
    if keep ≤ index * fsNindir ^ level then
      treeNodes device level (indirectEntry device bn index)
    else []

/-- The body of the loop. -/
def freeEntry (behaviour : Behaviour) (level : Nat) (below : Nat → Int → Freeing → Freeing)
    (copy : Nat → Nat) (index : Nat) (state : Freeing) : Freeing :=
  if copy index = 0 then state
  else
    freeBlock behaviour (if single < level then below (copy index) (-1) state else state)
      (copy index)

/-- **An entry beyond the last one** is freed with all that is behind it. -/
theorem freeEntry_right
    (right : ∀ lower, level = lower + 1 → Indirtruncs behaviour table lower below)
    (ready : CutReady behaviour table volume level bn keep) (within : index < fsNindir)
    (beyond : keep ≤ index * fsNindir ^ level)
    (same : ∀ block ∈ treeTables volume.device level (indirectEntry volume.device bn index),
      SameBlock block state.volume.device volume.device)
    (safe : FreesSafely table state.volume (treeNodes volume.device level
      (indirectEntry volume.device bn index))) :
    Frees table state (freeEntry behaviour level below (indirectEntry volume.device bn) index state)
      (treeNodes volume.device level (indirectEntry volume.device bn index))
      (treeNodes volume.device level (indirectEntry volume.device bn index)) := by
  have zero : keep - index * fsNindir ^ level = 0 := by omega
  unfold freeEntry
  by_cases absent : indirectEntry volume.device bn index = 0
  · have none' : treeNodes volume.device level 0 = [] := nodes_null level
    rw [if_pos absent, absent, none']
    exact .refl state
  rw [if_neg absent]
  cases level with
  | zero =>
    have one : treeNodes volume.device 0 (indirectEntry volume.device bn index) =
        [indirectEntry volume.device bn index] :=
      if_neg absent
    rw [one] at safe ⊢
    exact frees_freeBlock behaviour safe
  | succ lower =>
    have deep : single < lower + 1 := succ_pos lower
    rw [if_pos deep]
    have entries := entries_same same
    have nodes : treeNodes state.volume.device (lower + 1) (indirectEntry volume.device bn index) =
        treeNodes volume.device (lower + 1) (indirectEntry volume.device bn index) :=
      (nodes_congr entries).1
    have tables : treeTables state.volume.device (lower + 1)
        (indirectEntry volume.device bn index) =
        treeTables volume.device (lower + 1) (indirectEntry volume.device bn index) :=
      (nodes_congr entries).2
    have inside : treeNodes volume.device (lower + 1) (indirectEntry volume.device bn index) =
        [indirectEntry volume.device bn index] ++
          droppedInside shape (indirectEntry state.volume.device) lower
            (indirectEntry volume.device bn index) 0 := by
      have cut := (cut_congr entries 0).2.1
      rw [dropped_succ absent, if_pos rfl, dropped_zero] at cut
      exact cut.symm
    have order : (droppedInside shape (indirectEntry state.volume.device) lower
        (indirectEntry volume.device bn index) 0 ++ [indirectEntry volume.device bn index]).Perm
        (treeNodes volume.device (lower + 1) (indirectEntry volume.device bn index)) := by
      rw [inside]
      exact perm_append_comm
    have safe' := safe.perm order.symm
    have child : CutReady behaviour table state.volume lower
        (indirectEntry volume.device bn index) 0 :=
      { present := absent
        within := Nat.zero_le _
        nodup := by
          rw [nodes]
          exact (child_nodup ready).2.1 index within
        tables := by
          rw [tables]
          exact fun block member => ready.tables block (child_table ready.present within member)
        readable := by
          rw [tables]
          intro block member _
          refine ready.readable block (child_table ready.present within member) (.inl ?_)
          rw [dropped_succ ready.present]
          refine mem_append_right _ (child_dropped within ?_)
          rw [zero, dropped_zero]
          exact nodes_of_tables member
        safe := safe'.left }
    obtain ⟨frees, _⟩ := right lower rfl _ 0 state child
    have last := frees.safe _ safe'
    refine (frees.trans (frees_freeBlock behaviour last)).weaken ?_ order
    rw [nodes]
    refine append_subset.2 ⟨List.Subset.refl _, ?_⟩
    intro block member
    rw [mem_singleton.1 member]
    exact root_mem_nodes absent _

theorem goneBelow_succ (device : ByteMemory) (level bn keep count : Nat) :
    goneBelow device level bn keep (count + 1) = goneBelow device level bn keep count ++
      if keep ≤ count * fsNindir ^ level then
        treeNodes device level (indirectEntry device bn count)
      else [] := by
  simp [goneBelow, range_succ]

theorem mem_goneBelow : block ∈ goneBelow device level bn keep count ↔
    ∃ index, index < count ∧ keep ≤ index * fsNindir ^ level ∧
      block ∈ treeNodes device level (indirectEntry device bn index) := by
  unfold goneBelow
  rw [mem_flatMap]
  constructor
  · rintro ⟨index, below, member⟩
    split at member
    · exact ⟨index, mem_range.1 below, ‹_›, member⟩
    · cases member
  · rintro ⟨index, below, beyond, member⟩
    refine ⟨index, mem_range.2 below, ?_⟩
    rw [if_pos beyond]
    exact member

section

variable (right : ∀ lower, level = lower + 1 → Indirtruncs behaviour table lower below)
  (ready : CutReady behaviour table volume level bn keep)
include right ready

/-- **The loop** frees the entries beyond the last one. -/
theorem freeLoop_right (counted : count ≤ fsNindir)
    (same : ∀ index, index < count → ∀ block ∈ treeTables volume.device level
      (indirectEntry volume.device bn index), SameBlock block state.volume.device volume.device)
    (safe : FreesSafely table state.volume (goneBelow volume.device level bn keep count)) :
    Frees table state (freeLoop (freeEntry behaviour level below (indirectEntry volume.device bn))
      (lastIndex level ((keep : Int) - 1)) count state)
      (goneBelow volume.device level bn keep count)
      (goneBelow volume.device level bn keep count) := by
  induction count generalizing state with
  | zero => exact .refl state
  | succ count ih =>
    unfold freeLoop
    by_cases beyond : keep ≤ count * fsNindir ^ level
    · rw [if_pos ((lastIndex_lt level keep count).2 beyond)]
      rw [goneBelow_succ, if_pos beyond] at safe ⊢
      have safe' := safe.perm perm_append_comm
      have one := freeEntry_right right ready counted beyond
          (same count (lt_succ_self count)) safe'.left
      have rest := ih (le_of_succ_le counted) (fun index below block member => by
          refine (one.frame block (ready.tables block (child_table ready.present (by omega) member))
            fun inOne => ?_).trans (same index (by omega) block member)
          have equal := (child_nodup ready).2.2 index count block (by omega)
              (by omega) (nodes_of_tables member) inOne
          omega) (one.safe _ safe')
      exact (one.trans rest).weaken (fun block member =>
        (mem_append.1 member).elim (mem_append_right _) (mem_append_left _)) perm_append_comm
    · have none' : goneBelow volume.device level bn keep (count + 1) = [] := by
        refine flatMap_eq_nil_iff.2 fun index member => ?_
        have within := mem_range.1 member
        have less : index * fsNindir ^ level ≤ count * fsNindir ^ level :=
          Nat.mul_le_mul_right _ (by omega)
        rw [if_neg (by omega)]
      rw [if_neg fun stays => beyond ((lastIndex_lt level keep count).1 stays), none']
      exact .refl state

theorem lastEntry_right {last : Nat} (some' : 0 < keep)
    (isLast : last = (keep - 1) / fsNindir ^ level)
    (same : ∀ block ∈ treeTables volume.device level (indirectEntry volume.device bn last),
      SameBlock block state.volume.device volume.device)
    (safe : FreesSafely table state.volume (dropped shape (indirectEntry volume.device) level
      (indirectEntry volume.device bn last) (keep - last * fsNindir ^ level))) :
    let after :=
      if single < level then
        if indirectEntry volume.device bn last = 0 then state
        else
          below (indirectEntry volume.device bn last)
            (((keep : Int) - 1) % (fsNindir ^ level : Nat)) state
      else state
    Frees table state after (treeNodes volume.device level (indirectEntry volume.device bn last))
      (dropped shape (indirectEntry volume.device) level (indirectEntry volume.device bn last)
        (keep - last * fsNindir ^ level)) ∧
      CutAt shape (indirectEntry volume.device) (indirectEntry after.volume.device) level
        (indirectEntry volume.device bn last) (keep - last * fsNindir ^ level) := by
  have power := fsNindir_pow_pos level
  have parts := div_add_mod' (keep - 1) (fsNindir ^ level)
  have start := div_mul_le_self (keep - 1) (fsNindir ^ level)
  rw [← isLast] at parts start
  have lastKeep : keep - last * fsNindir ^ level = (keep - 1) % fsNindir ^ level + 1 := by omega
  have within : last < fsNindir := by
    have bound := ready.within
    rw [Nat.pow_succ] at bound
    rw [isLast]
    refine Nat.div_lt_of_lt_mul ?_
    omega
  have entries := entries_same same
  dsimp only
  cases level with
  | zero =>
    have shallow : ¬single < 0 := Nat.lt_irrefl 0
    rw [if_neg shallow]
    have all : fsNindir ^ 0 ≤ keep - last * fsNindir ^ 0 := by
      rw [lastKeep]
      exact succ_pos _
    refine ⟨?_, CutAt.all (by decide) all entries⟩
    rw [(@kept_all _ _ shape _ (by decide) 0 _ all _).2]
    exact (Frees.refl state).weaken (nil_subset _) (.refl _)
  | succ lower =>
    have deep : single < lower + 1 := succ_pos lower
    rw [if_pos deep]
    by_cases absent : indirectEntry volume.device bn last = 0
    · have none' (keep : Nat) : dropped shape (indirectEntry volume.device) (lower + 1) 0
          keep = [] :=
        dropped_null (lower + 1) keep
      rw [if_pos absent, absent, none']
      exact ⟨(Frees.refl state).weaken (nil_subset _) (.refl _), CutAt.absent (lower + 1) _⟩
    rw [if_neg absent, lastKeep]
    rw [lastKeep] at safe
    have rest : ((keep : Int) - 1) % (fsNindir ^ (lower + 1) : Nat) =
        (((keep - 1) % fsNindir ^ (lower + 1) + 1 : Nat) : Int) - 1 := by
      have natural : (keep : Int) - 1 = ((keep - 1 : Nat) : Int) := by omega
      rw [natural, ← Int.natCast_emod]
      omega
    rw [rest]
    have cut := cut_congr entries ((keep - 1) % fsNindir ^ (lower + 1) + 1)
    have nodes : treeNodes state.volume.device (lower + 1) (indirectEntry volume.device bn last) =
        treeNodes volume.device (lower + 1) (indirectEntry volume.device bn last) :=
      (nodes_congr entries).1
    have tables : treeTables state.volume.device (lower + 1) (indirectEntry volume.device bn last) =
        treeTables volume.device (lower + 1) (indirectEntry volume.device bn last) :=
      (nodes_congr entries).2
    have inside : droppedInside shape (indirectEntry state.volume.device) lower
        (indirectEntry volume.device bn last) ((keep - 1) % fsNindir ^ (lower + 1) + 1) =
        dropped shape (indirectEntry volume.device) (lower + 1)
          (indirectEntry volume.device bn last) ((keep - 1) % fsNindir ^ (lower + 1) + 1) := by
      rw [← cut.2.1, dropped_succ absent, if_neg (succ_ne_zero _), nil_append]
    have rootOf : ∀ block ∈ treeTables volume.device (lower + 1)
        (indirectEntry volume.device bn last), block ∈ treeTables volume.device (lower + 2) bn :=
      fun block member => child_table ready.present within member
    have child : CutReady behaviour table state.volume lower (indirectEntry volume.device bn last)
        ((keep - 1) % fsNindir ^ (lower + 1) + 1) :=
      { present := absent
        within := mod_lt _ power
        nodup := by
          rw [nodes]
          exact (child_nodup ready).2.1 last within
        tables := by
          rw [tables]
          exact fun block member => ready.tables block (rootOf block member)
        readable := by
          rw [tables, cut.2.1]
          rintro block member (isDropped | ⟨_, onPath⟩)
          · refine ready.readable block (rootOf block member) (.inl ?_)
            rw [dropped_succ ready.present]
            refine mem_append_right _ (child_dropped within ?_)
            rw [lastKeep]
            exact isDropped
          · refine ready.readable block (rootOf block member) (.inr ⟨some', ?_⟩)
            have same' := cut.2.2 ((keep - 1) % fsNindir ^ (lower + 1)) (mod_lt _ power)
            rw [Nat.add_sub_cancel, same', isLast] at onPath
            have table : path shape (indirectEntry volume.device) (lower + 1 + 1) bn (keep - 1) =
                bn :: path shape (indirectEntry volume.device) (lower + 1)
                  (indirectEntry volume.device bn ((keep - 1) / fsNindir ^ (lower + 1)))
                  ((keep - 1) % fsNindir ^ (lower + 1)) :=
              if_neg ready.present
            rw [table]
            exact mem_cons_of_mem _ onPath
        safe := by
          rw [inside]
          exact safe }
    obtain ⟨frees, cuts⟩ := right lower rfl _ _ state child
    rw [nodes, inside] at frees
    exact ⟨frees, (cuts (succ_pos _)).congr entries⟩

end

def lastDropped (device : ByteMemory) (level bn keep : Nat) : List Nat :=
  if keep = 0 then []
  else
    dropped shape (indirectEntry device) level
      (indirectEntry device bn ((keep - 1) / fsNindir ^ level))
      (keep - (keep - 1) / fsNindir ^ level * fsNindir ^ level)

theorem droppedInside_perm (within : keep ≤ fsNindir ^ (level + 1)) :
    (droppedInside shape (indirectEntry device) level bn keep).Perm
      (goneBelow device level bn keep fsNindir ++ lastDropped device level bn keep) := by
  have power := fsNindir_pow_pos level
  have gone (index : Nat) (beyond : keep ≤ index * fsNindir ^ level) :
      dropped shape (indirectEntry device) level (indirectEntry device bn index)
        (keep - index * fsNindir ^ level) =
        treeNodes device level (indirectEntry device bn index) := by
    have zero : keep - index * fsNindir ^ level = 0 := by omega
    rw [zero, dropped_zero]
  unfold lastDropped
  split
  · rename_i none'
    rw [append_nil]
    refine Perm.of_eq (flatMap_congr fun index _ => ?_)
    have beyond : keep ≤ index * fsNindir ^ level := by omega
    rw [if_pos beyond]
    exact gone index beyond
  · rename_i some'
    have start := div_mul_le_self (keep - 1) (fsNindir ^ level)
    have lastWithin : (keep - 1) / fsNindir ^ level < fsNindir := by
      rw [Nat.pow_succ] at within
      exact Nat.div_lt_of_lt_mul (by omega)
    refine (flatMap_perm_at nodup_range (mem_range.2 lastWithin)
      (fun index _ different => ?_) ?_).trans perm_append_comm
    · split
      · rename_i beyond
        exact gone index beyond
      · rename_i below
        have before : index < (keep - 1) / fsNindir ^ level := by
          have reach := (Nat.le_div_iff_mul_le power).2
              (show index * fsNindir ^ level ≤ keep - 1 by omega)
          omega
        have less : (index + 1) * fsNindir ^ level ≤
            (keep - 1) / fsNindir ^ level * fsNindir ^ level :=
          Nat.mul_le_mul_right _ before
        rw [Nat.add_mul, Nat.one_mul] at less
        exact (@kept_all _ _ shape _ (by decide) level (keep - index * fsNindir ^ level)
          (show fsNindir ^ level ≤ _ by omega) _).2
    · rw [if_neg (by omega), append_nil]
      exact .refl _

theorem indirtruncBody_eq (readable : behaviour.badRead bn = false) :
    indirtruncBody behaviour level below bn ((keep : Int) - 1) state =
      let copy := indirectEntry state.volume.device bn
      let written :=
        { state with
          volume :=
            { state.volume with
              device := clearEntries state.volume.device bn
                (lastIndex level ((keep : Int) - 1) + 1).toNat } }
      let freed := freeLoop (freeEntry behaviour level below copy)
        (lastIndex level ((keep : Int) - 1)) fsNindir written
      if 0 < keep then
        if single < level then
          if copy ((keep - 1) / fsNindir ^ level) = 0 then freed
          else
            below (copy ((keep - 1) / fsNindir ^ level))
              (((keep : Int) - 1) % (fsNindir ^ level : Nat)) freed
        else freed
      else freed := by
  have notBad : ¬behaviour.badRead bn = true := by
    rw [readable]
    exact Bool.false_ne_true
  unfold indirtruncBody
  rw [if_neg notBad]
  dsimp only
  by_cases some' : 0 < keep
  · have last := lastIndex_pos level some'
    have index : (lastIndex level ((keep : Int) - 1)).toNat = (keep - 1) / fsNindir ^ level := by
      rw [last]
      exact Int.toNat_natCast _
    have nonneg : (0 : Int) ≤ (keep : Int) - 1 := by omega
    rw [if_pos some', ← index]
    by_cases deep : single < level
    · rw [if_pos ⟨deep, nonneg⟩, if_pos deep]
      rfl
    · rw [if_neg (fun both => deep both.1), if_neg deep]
      rfl
  · have negative : ¬(single < level ∧ (0 : Int) ≤ (keep : Int) - 1) := by
      omega
    rw [if_neg some', if_neg negative]
    rfl

theorem indirtruncBody_right
    (right : ∀ lower, level = lower + 1 → Indirtruncs behaviour table lower below) :
    Indirtruncs behaviour table level (indirtruncBody behaviour level below) := by
  intro bn keep state ready
  have power := fsNindir_pow_pos level
  have inTables : bn ∈ treeTables state.volume.device (level + 1) bn :=
    root_mem_tables ready.present level
  have isTable : table bn := ready.tables bn inTables
  have readable : behaviour.badRead bn = false := by
    refine ready.readable bn inTables ?_
    rcases Nat.eq_zero_or_pos keep with rfl | some'
    · rw [dropped_zero]
      exact .inl (root_mem_nodes ready.present _)
    · exact .inr ⟨some', root_mem_path ready.present _ _⟩
  obtain ⟨notInside, _, apart⟩ := child_nodup ready
  have bound : (lastIndex level ((keep : Int) - 1) + 1).toNat ≤ fsNindir := by
    by_contra above
    have late := (lt_first level keep fsNindir).1 (by omega)
    have within := ready.within
    rw [Nat.pow_succ, Nat.mul_comm] at within
    omega
  rw [indirtruncBody_eq readable]
  dsimp only
  generalize written : ({ state with
        volume :=
          { state.volume with
            device := clearEntries state.volume.device bn
              (lastIndex level ((keep : Int) - 1) + 1).toNat } } :
      Freeing) = cleared
  have clears : Frees table state cleared [bn] [] := by
    rw [← written]
    exact
      { freed := ⟨[], (append_nil _).symm, .refl _⟩
        frame := fun other _ notRoot =>
          sameBlock_clearEntries _ bound fun same => notRoot (mem_singleton.2 same)
        safe := fun _ safe => safe }
  have clearedEntries (index : Nat) (within : index < fsNindir) :
      indirectEntry cleared.volume.device bn index =
        if index * fsNindir ^ level < keep then
          indirectEntry state.volume.device bn index
        else 0 := by
    rw [← written]
    simp only
    rw [indirectEntry_clearEntries _ within]
    simp only [lt_first]
  have clearedSame (index : Nat) (within : index < fsNindir) : ∀ block ∈
      treeTables state.volume.device level (indirectEntry state.volume.device bn index),
      SameBlock block cleared.volume.device state.volume.device := by
    intro block member
    refine clears.frame block (ready.tables block (child_table ready.present within member)) ?_
    intro isRoot
    rw [mem_singleton.1 isRoot] at member
    exact notInside index within (nodes_of_tables member)
  have rest : (droppedInside shape (indirectEntry state.volume.device) level bn keep).Perm
      (goneBelow state.volume.device level bn keep fsNindir ++
        lastDropped state.volume.device level bn keep) :=
    droppedInside_perm ready.within
  have safe := clears.safe _ (ready.safe.perm rest)
  have loops := freeLoop_right right ready le_rfl clearedSame safe.left
  generalize freeLoop (freeEntry behaviour level below (indirectEntry state.volume.device bn))
    (lastIndex level ((keep : Int) - 1)) fsNindir cleared = freed
    at loops ⊢
  have safeLast := loops.safe _ safe
  have goneInside : goneBelow state.volume.device level bn keep fsNindir ⊆
      treeNodes state.volume.device (level + 1) bn := by
    intro block member
    obtain ⟨index, within, _, inside⟩ := mem_goneBelow.1 member
    exact child_node ready.present within inside
  have rootInside : [bn] ⊆ treeNodes state.volume.device (level + 1) bn := by
    intro block member
    rw [mem_singleton.1 member]
    exact root_mem_nodes ready.present _
  rcases Nat.eq_zero_or_pos keep with none' | some'
  · rw [if_neg (by omega)]
    refine ⟨(clears.trans loops).weaken ?_ ?_, fun some' => by omega⟩
    · exact append_subset.2 ⟨rootInside, goneInside⟩
    · have nothing : lastDropped state.volume.device level bn keep = [] := if_pos none'
      rw [nothing, append_nil] at rest
      rw [nil_append]
      exact rest.symm
  · rw [if_pos some']
    have lastIs : lastDropped state.volume.device level bn keep =
        dropped shape (indirectEntry state.volume.device) level
          (indirectEntry state.volume.device bn ((keep - 1) / fsNindir ^ level))
          (keep - (keep - 1) / fsNindir ^ level * fsNindir ^ level) :=
      if_neg (by omega)
    rw [lastIs] at rest safeLast
    have lastWithin : (keep - 1) / fsNindir ^ level < fsNindir := by
      have within := ready.within
      rw [Nat.pow_succ] at within
      exact Nat.div_lt_of_lt_mul (by omega)
    have lastBelow : (keep - 1) / fsNindir ^ level * fsNindir ^ level < keep := by
      have start := div_mul_le_self (keep - 1) (fsNindir ^ level)
      omega
    -- The trees behind the entries kept are still as they were.
    have freedSame (index : Nat) (within : index < fsNindir)
        (below' : index * fsNindir ^ level < keep) :
        ∀ block ∈ treeTables state.volume.device level (indirectEntry state.volume.device bn index),
          SameBlock block freed.volume.device state.volume.device := by
      intro block member
      refine (loops.frame block (ready.tables block (child_table ready.present within member))
        ?_).trans (clearedSame index within block member)
      intro gone
      obtain ⟨other, otherWithin, beyond, inside⟩ := mem_goneBelow.1 gone
      have equal := apart index other block within otherWithin (nodes_of_tables member) inside
      subst equal
      omega
    obtain ⟨cutsLast, cutAt⟩ := lastEntry_right right ready some' rfl
      (freedSame _ lastWithin lastBelow) safeLast
    generalize (if single < level then
      if indirectEntry state.volume.device bn ((keep - 1) / fsNindir ^ level) = 0 then freed
      else
        below (indirectEntry state.volume.device bn ((keep - 1) / fsNindir ^ level))
          (((keep : Int) - 1) % (fsNindir ^ level : Nat)) freed
      else freed) = after at cutsLast cutAt ⊢
    refine ⟨((clears.trans loops).trans cutsLast).weaken ?_ ?_,
      fun _ => CutAt.table ready.present some' ?_ ?_⟩
    · refine append_subset.2 ⟨append_subset.2 ⟨rootInside, goneInside⟩, ?_⟩
      exact fun block member => child_node ready.present lastWithin member
    · rw [nil_append]
      exact rest.symm
    · intro index within
      have own : SameBlock bn after.volume.device cleared.volume.device := by
        refine (cutsLast.frame bn isTable
          (notInside _ lastWithin)).trans (loops.frame bn isTable ?_)
        intro gone
        obtain ⟨other, otherWithin, _, inside⟩ := mem_goneBelow.1 gone
        exact notInside other otherWithin inside
      rw [indirectEntry_congr own within]
      exact clearedEntries index within
    · intro index within (below' : index * fsNindir ^ level < keep)
      rcases Nat.lt_trichotomy index ((keep - 1) / fsNindir ^ level) with before | isLast | beyond
      · have all : fsNindir ^ level ≤ keep - index * fsNindir ^ level := by
          have less : (index + 1) * fsNindir ^ level ≤
              (keep - 1) / fsNindir ^ level * fsNindir ^ level :=
            Nat.mul_le_mul_right _ before
          rw [Nat.add_mul, Nat.one_mul] at less
          omega
        refine CutAt.all (by decide) all (entries_same ?_)
        intro block member
        refine (cutsLast.frame block (ready.tables block (child_table ready.present within member))
          fun inLast => ?_).trans (freedSame index within below' block member)
        have equal := apart index _ block within lastWithin (nodes_of_tables member) inLast
        omega
      · rw [isLast]
        exact cutAt
      · have reach := (Nat.div_lt_iff_lt_mul power).1 beyond
        omega

/-- **`xx_indirtrunc` cuts a tree**, at every level. -/
theorem xxIndirtrunc_right (level : Nat) :
    Indirtruncs behaviour table level (xxIndirtrunc behaviour level) := by
  induction level with
  | zero =>
    exact indirtruncBody_right fun lower impossible => by cases impossible
  | succ level ih =>
    refine indirtruncBody_right fun lower same => ?_
    obtain rfl := Nat.succ.inj same
    exact ih

end Uw7.Xxfs
