import Uw7.Lib.Run
import Uw7.Xxfs.FreeInodes

/-!
# Runs of inode allocations and frees

From the mount of a file system on, the count of free inodes is right, every
free inode is in the stack or ahead of where the scan begins, and what
`xx_ialloc` returns is right, as long as no freed inode becomes the place where
the scan begins while it is the last one of its block.
-/

namespace Uw7.Xxfs

open Lib Function List Nat Option Finset

/-- The free inodes of a file system. -/
def freeInodes (ilist : Ilist) : Finset Nat :=
  (Icc 1 ilist.inodes).filter fun ino => ilist.mode ino = 0

/-- A number is in the stack. -/
def InStack (ilist : Ilist) (ino : Nat) : Prop := ∃ place < ilist.sNinode, ilist.sInode place = ino

/-- A file system that was mounted: the stack is empty, and the count on the
device is right. -/
structure MountedIlist (ilist : Ilist) : Prop where
  noEntries : ilist.sNinode = 0
  noHint : ilist.sInode 0 = 0
  counted : ilist.sTinode = (freeInodes ilist).card
  numbered : ilist.inodes < 2 ^ 16

inductive InodeAction where
  | alloc (calls : Calls) (mode : Nat)
  | free (ino coreMode : Nat)

/-- A call that is made without I/O errors.  An inode that is freed was in use,
and its mode on the device is zero by then; its mode in core is given. -/
inductive InodeStep (before : Ilist) : InodeAction → Ilist → Prop where
  | alloc {calls : Calls} {mode : Nat} {result : IallocResult} {after : Ilist}
      (readable : ∀ adr, calls.unreadable adr = false)
      (used : mode ≠ 0)
      (returns : xxIalloc calls mode before = some (result, after)) :
      InodeStep before (.alloc calls mode) after
  | free {ino coreMode : Nat} (used : before.mode ino ≠ 0)
      (within : ino ∈ Icc 1 before.inodes) :
      InodeStep before (.free ino coreMode)
        (xxIfree { before with mode := update before.mode ino 0 } ino coreMode)

/-- The calls after which nothing is lost: `xx_iget` finds the inode, and a
freed inode is in use in core and is not the last one of the block at which the
scan would begin. -/
def LosesNone (before : Ilist) : InodeAction → Prop
  | .alloc calls _ => ∀ ino, calls.iget ino = none
  | .free ino coreMode =>
    coreMode ≠ 0 ∧ (before.sNinode = 0 → ino % fsInopb = 0 → before.sInode 0 < ino)

/-- What is so between two calls: from `bottom` on the stack holds free inodes,
below is a zero, and the other free inodes are ahead of the scan. -/
structure StackWell (ilist : Ilist) (bottom : Nat) : Prop where
  numbered : ilist.inodes < 2 ^ 16
  within : bottom ≤ ilist.sNinode
  short : ilist.sNinode ≤ xxnicinod
  stop : 0 < bottom → ilist.sInode (bottom - 1) = 0 ∧ ilist.sInode 0 = 0
  free : ∀ place, bottom ≤ place → place < ilist.sNinode → ilist.sInode place ∈ freeInodes ilist
  distinct : ∀ low high, bottom ≤ low → low < high → high < ilist.sNinode →
      ilist.sInode low ≠ ilist.sInode high
  ahead : ∀ ino ∈ freeInodes ilist, (∃ place, bottom ≤ place ∧ place < ilist.sNinode ∧
      ilist.sInode place = ino) ∨ fsInos (ilist.sInode 0) ≤ ino
  hint : ilist.sInode 0 ≤ ilist.inodes
  counted : ilist.sTinode = (freeInodes ilist).card

theorem fsInos_le {hint ino : Nat} (later : hint < ino) : fsInos hint ≤ ino := by
  rw [fsInos_eq]
  omega

theorem fsInos_le_self {ino : Nat} (inside : ino % fsInopb ≠ 0) : fsInos ino ≤ ino := by
  simp only [fsInopb, xxbsize] at inside
  rw [fsInos_eq]
  omega

theorem fsInos_mono {low high : Nat} (lower : low ≤ high) : fsInos low ≤ fsInos high := by
  rw [fsInos_eq, fsInos_eq]
  omega

variable {ilist : Ilist}

theorem fsInos_lt (numbered : ilist.inodes < 2 ^ 16) {hint : Nat}
    (hintWithin : hint ≤ ilist.inodes) :
    fsInos hint ≤ ilist.inodes + 1 ∧ fsInos hint < 2 ^ 16 := by
  rw [fsInos_eq]
  omega

theorem mem_freeInodes {ino : Nat} : ino ∈ freeInodes ilist ↔
    (1 ≤ ino ∧ ino ≤ ilist.inodes) ∧ ilist.mode ino = 0 := by
  simp [freeInodes]

theorem MountedIlist.well (mounted : MountedIlist ilist) : StackWell ilist 0 where
  __ := mounted
  within := Nat.zero_le _
  short := by
    rw [mounted.noEntries]
    exact Nat.zero_le _
  stop := fun positive => absurd positive (Nat.lt_irrefl 0)
  free := fun place _ small => absurd (mounted.noEntries ▸ small) (Nat.not_lt_zero place)
  distinct := fun _ high _ _ small => absurd (mounted.noEntries ▸ small) (Nat.not_lt_zero high)
  ahead := by
    intro ino free
    rw [mounted.noHint]
    exact .inr (mem_freeInodes.1 free).1.1
  hint := by
    rw [mounted.noHint]
    exact Nat.zero_le _

section

variable {ilist : Ilist} {bottom : Nat}

theorem card_freeInodes_le (ilist : Ilist) : (freeInodes ilist).card ≤ ilist.inodes := by
  refine (card_filter_le _ _).trans ?_
  rw [card_Icc]
  omega

variable {ino mode : Nat} {after : Ilist} {scan : Refill}

theorem freeInodes_zeroed (within : ino ∈ Icc 1 ilist.inodes) :
    freeInodes { ilist with mode := update ilist.mode ino 0 } = insert ino (freeInodes ilist) := by
  ext other
  rw [mem_insert, mem_freeInodes, mem_freeInodes]
  by_cases same : other = ino
  · subst same
    simpa [Ilist.inodes] using within
  · simp [same, Ilist.inodes]

theorem freeInodes_used {ino mode : Nat} (used : mode ≠ 0) :
    freeInodes { ilist with mode := update ilist.mode ino mode } =
      (freeInodes ilist).erase ino := by
  ext other
  rw [mem_erase, mem_freeInodes, mem_freeInodes]
  by_cases same : other = ino
  · subst same
    simp [used]
  · simp [same, Ilist.inodes]

theorem xxIfree_stack (ilist : Ilist) {ino coreMode : Nat} (inUse : coreMode ≠ 0) :
    let after := xxIfree ilist ino coreMode
    after.sIsize = ilist.sIsize ∧ after.mode = ilist.mode ∧
      after.sTinode = toUshort (ilist.sTinode + 1) ∧
      ((ilist.sNinode = 0 ∨ xxnicinod ≤ ilist.sNinode) ∧ after.sNinode = ilist.sNinode ∧
        ((ino < ilist.sInode 0 ∧ after.sInode = update ilist.sInode 0 ino) ∨
          (ilist.sInode 0 ≤ ino ∧ after.sInode = ilist.sInode)) ∨
        (0 < ilist.sNinode ∧ ilist.sNinode < xxnicinod ∧ after.sNinode = ilist.sNinode + 1 ∧
          after.sInode = update ilist.sInode ilist.sNinode ino)) := by
  simp only [xxIfree, if_neg inUse]
  split
  case isTrue full =>
    split
    case isTrue lower => exact ⟨rfl, rfl, rfl, .inl ⟨full.symm, rfl, .inl ⟨lower, rfl⟩⟩⟩
    case isFalse higher =>
      exact ⟨rfl, rfl, rfl, .inl ⟨full.symm, rfl, .inr ⟨Nat.le_of_not_lt higher, rfl⟩⟩⟩
  case isFalse room =>
    obtain ⟨short, some⟩ := not_or.1 room
    exact ⟨rfl, rfl, rfl, .inr ⟨Nat.pos_of_ne_zero some, Nat.lt_of_not_le short, rfl, rfl⟩⟩

theorem freed_counts (well : StackWell ilist bottom) (notFree : ino ∉ freeInodes ilist)
    (within : ino ∈ Icc 1 ilist.inodes) (size : after.sIsize = ilist.sIsize)
    (modes : after.mode = update ilist.mode ino 0)
    (count : after.sTinode = toUshort (ilist.sTinode + 1)) :
    freeInodes after = insert ino (freeInodes ilist) ∧ after.inodes = ilist.inodes ∧
      after.sTinode = (freeInodes after).card := by
  have free : freeInodes after = insert ino (freeInodes ilist) := by
    rw [← freeInodes_zeroed within]
    simp [freeInodes, Ilist.inodes, size, modes]
  have inodes : after.inodes = ilist.inodes := by rw [Ilist.inodes, size, ← Ilist.inodes]
  refine ⟨free, inodes, ?_⟩
  have bound := card_freeInodes_le after
  rw [free, card_insert_of_notMem notFree, inodes] at bound
  rw [count, well.counted, free, card_insert_of_notMem notFree]
  exact mod_eq_of_lt (Nat.lt_of_le_of_lt bound well.numbered)

theorem fsInos_le_freed (well : StackWell ilist bottom) (notFree : ino ∉ freeInodes ilist)
    (positive : 1 ≤ ino) (noRoom : ilist.sNinode = 0 ∨ xxnicinod ≤ ilist.sNinode)
    (losesNone : ilist.sNinode = 0 → ino % fsInopb = 0 → ilist.sInode 0 < ino)
    (higher : ilist.sInode 0 ≤ ino) :
    fsInos (ilist.sInode 0) ≤ ino := by
  rcases Nat.lt_or_eq_of_le higher with later | same
  · exact fsInos_le later
  · rcases noRoom with empty | full
    · rw [same]
      refine fsInos_le_self fun last => ?_
      have later := losesNone empty last
      rw [same] at later
      exact Nat.lt_irrefl _ later
    · -- the lowest entry is free, or the zero at the bottom
      rcases Nat.eq_zero_or_pos bottom with none | some
      · have entry := well.free 0 (Nat.le_of_eq none) (Nat.lt_of_lt_of_le (by decide) full)
        rw [same] at entry
        exact absurd entry notFree
      · rw [(well.stop some).2] at same
        rw [← same] at positive
        exact absurd positive (by decide)

section

variable (well : StackWell ilist bottom) (notFree : ino ∉ freeInodes ilist)
  (within : ino ∈ Icc 1 ilist.inodes) (size : after.sIsize = ilist.sIsize)
  (modes : after.mode = update ilist.mode ino 0)
  (count : after.sTinode = toUshort (ilist.sTinode + 1))
include well notFree within size modes count

/-- A free when there is no room, and the number is lower than the hint. -/
theorem StackWell.lowered (noRoom : ilist.sNinode = 0 ∨ xxnicinod ≤ ilist.sNinode)
    (losesNone : ilist.sNinode = 0 → ino % fsInopb = 0 → ilist.sInode 0 < ino)
    (entries : after.sNinode = ilist.sNinode) (lower : ino < ilist.sInode 0)
    (stack : after.sInode = update ilist.sInode 0 ino) :
    StackWell after bottom := by
  obtain ⟨free, inodes, counted⟩ := freed_counts well notFree within size modes count
  obtain rfl : bottom = 0 := by
    by_contra some
    rw [(well.stop (Nat.pos_of_ne_zero some)).2] at lower
    exact Nat.not_lt_zero _ lower
  have lowest : after.sInode 0 = ino := by rw [stack, update_self]
  have others : ∀ place, place ≠ 0 → after.sInode place = ilist.sInode place :=
    fun place apart => by rw [stack, update_of_ne apart]
  have entryApart : ∀ place, place < ilist.sNinode → ilist.sInode place ≠ ino := by
    rintro place small rfl
    exact notFree (well.free place (Nat.zero_le _) small)
  refine
    { numbered := inodes ▸ well.numbered
      within := Nat.zero_le _
      short := entries ▸ well.short
      stop := fun positive => absurd positive (Nat.lt_irrefl 0)
      free := ?_
      distinct := ?_
      ahead := ?_
      hint := ?_
      counted := counted }
  · intro place _ small
    rw [entries] at small
    rw [free]
    by_cases isLowest : place = 0
    · rw [isLowest, lowest]
      exact mem_insert_self _ _
    · rw [others place isLowest]
      exact Finset.mem_insert_of_mem (well.free place (Nat.zero_le _) small)
  · intro low high _ less small
    rw [entries] at small
    rw [others high (by omega)]
    by_cases isLowest : low = 0
    · rw [isLowest, lowest]
      exact (entryApart high small).symm
    · rw [others low isLowest]
      exact well.distinct low high (Nat.zero_le _) less small
  · intro other isFree
    rw [free, mem_insert] at isFree
    rw [lowest]
    rcases isFree with rfl | old
    · rcases noRoom with empty | full
      · exact .inr (fsInos_le_self fun last => absurd (losesNone empty last) (Nat.lt_asymm lower))
      · refine .inl ⟨0, le_rfl, ?_, lowest⟩
        rw [entries]
        exact Nat.lt_of_lt_of_le (by decide) full
    · rcases well.ahead other old with ⟨place, _, small, here⟩ | later
      · by_cases isLowest : place = 0
        · rw [isLowest] at here
          rw [← here]
          exact .inr (fsInos_le lower)
        · refine .inl ⟨place, Nat.zero_le _, ?_, ?_⟩
          · rw [entries]
            exact small
          · rw [others place isLowest]
            exact here
      · exact .inr ((fsInos_mono (Nat.le_of_lt lower)).trans later)
  · rw [lowest, inodes]
    exact (mem_Icc.1 within).2

theorem StackWell.dropped (entries : after.sNinode = ilist.sNinode)
    (later : fsInos (ilist.sInode 0) ≤ ino) (stack : after.sInode = ilist.sInode) :
    StackWell after bottom := by
  obtain ⟨free, inodes, counted⟩ := freed_counts well notFree within size modes count
  refine
    { numbered := inodes ▸ well.numbered
      within := entries ▸ well.within
      short := entries ▸ well.short
      stop := ?_
      free := ?_
      distinct := ?_
      ahead := ?_
      hint := ?_
      counted := counted }
  · rw [stack]
    exact well.stop
  · intro place from1 small
    rw [entries] at small
    rw [free, stack]
    exact Finset.mem_insert_of_mem (well.free place from1 small)
  · intro low high from1 less small
    rw [entries] at small
    rw [stack]
    exact well.distinct low high from1 less small
  · intro other isFree
    rw [free, mem_insert] at isFree
    rw [stack, entries]
    rcases isFree with rfl | old
    · exact .inr later
    · exact well.ahead other old
  · rw [stack, inodes]
    exact well.hint

theorem StackWell.pushed (some : 0 < ilist.sNinode) (room : ilist.sNinode < xxnicinod)
    (entries : after.sNinode = ilist.sNinode + 1)
    (stack : after.sInode = update ilist.sInode ilist.sNinode ino) :
    StackWell after bottom := by
  obtain ⟨free, inodes, counted⟩ := freed_counts well notFree within size modes count
  have top : after.sInode ilist.sNinode = ino := by rw [stack, update_self]
  have below : ∀ place, place < ilist.sNinode → after.sInode place = ilist.sInode place := by
    intro place small
    rw [stack, update_of_ne (Nat.ne_of_lt small)]
  have bottomSmall := well.within
  refine
    { numbered := inodes ▸ well.numbered
      within := by omega
      short := by omega
      stop := ?_
      free := ?_
      distinct := ?_
      ahead := ?_
      hint := ?_
      counted := counted }
  · intro positive
    rw [below _ (by omega), below _ some]
    exact well.stop positive
  · intro place from1 small
    rw [free]
    by_cases isTop : place = ilist.sNinode
    · rw [isTop, top]
      exact mem_insert_self _ _
    · rw [below place (by omega)]
      exact Finset.mem_insert_of_mem (well.free place from1 (by omega))
  · intro low high from1 less small
    rw [below low (by omega)]
    by_cases isTop : high = ilist.sNinode
    · rw [isTop, top]
      rintro rfl
      exact notFree (well.free low from1 (by omega))
    · rw [below high (by omega)]
      exact well.distinct low high from1 less (by omega)
  · intro other isFree
    rw [free, mem_insert] at isFree
    rw [below 0 some]
    rcases isFree with rfl | old
    · exact .inl ⟨ilist.sNinode, bottomSmall, by omega, top⟩
    · refine (well.ahead other old).imp_left ?_
      rintro ⟨place, from1, small, here⟩
      exact ⟨place, from1, by omega, (below place small).trans here⟩
  · rw [below 0 some, inodes]
    exact well.hint

end

section

variable (well : StackWell ilist bottom)
include well

theorem StackWell.xxIfree {coreMode : Nat} (used : ilist.mode ino ≠ 0)
    (within : ino ∈ Icc 1 ilist.inodes) (losesNone : LosesNone ilist (.free ino coreMode)) :
    StackWell (xxIfree { ilist with mode := update ilist.mode ino 0 } ino coreMode) bottom := by
  have notFree : ino ∉ freeInodes ilist := fun isFree => used (mem_freeInodes.1 isFree).2
  obtain ⟨inUse, notLast⟩ := losesNone
  obtain ⟨size, modes, count, way⟩ := @xxIfree_stack
    { ilist with mode := update ilist.mode ino 0 } ino coreMode inUse
  rcases way with ⟨noRoom, entries, lower | higher⟩ | pushes
  · exact well.lowered notFree within size modes count noRoom notLast entries lower.1 lower.2
  · exact well.dropped notFree within size modes count entries
      (fsInos_le_freed well notFree (mem_Icc.1 within).1 noRoom notLast higher.1) higher.2
  · exact well.pushed notFree within size modes count pushes.1 pushes.2.1 pushes.2.2.1 pushes.2.2.2

theorem takeNumber_some (entries : bottom < ilist.sNinode) :
    takeNumber ilist = (some (ilist.sInode (ilist.sNinode - 1)), ilist.sNinode - 1) := by
  have top := well.free (ilist.sNinode - 1) (by omega) (by omega)
  have positive := (mem_freeInodes.1 top).1.1
  unfold takeNumber
  rw [if_pos (zero_lt_of_lt entries)]
  simp only [if_neg (Nat.ne_of_gt positive)]

theorem takeNumber_none (usedUp : bottom = ilist.sNinode) : (takeNumber ilist).1 = none := by
  unfold takeNumber
  split
  case isTrue positive =>
    have zero := (well.stop (usedUp ▸ positive)).1
    rw [usedUp] at zero
    simp [zero]
  case isFalse => rfl

theorem StackWell.taken (entries : bottom < ilist.sNinode) (used : mode ≠ 0) : StackWell
      { ilist with
        sNinode := ilist.sNinode - 1
        mode := update ilist.mode (ilist.sInode (ilist.sNinode - 1)) mode
        sTinode := ilist.sTinode - 1 } bottom := by
  have top := well.free (ilist.sNinode - 1) (by omega) (by omega)
  have short := well.short
  have free := @freeInodes_used ilist (ilist.sInode (ilist.sNinode - 1)) mode used
  have freeAfter : freeInodes
      { ilist with
        sNinode := ilist.sNinode - 1
        mode := update ilist.mode (ilist.sInode (ilist.sNinode - 1)) mode
        sTinode := ilist.sTinode - 1 } =
      (freeInodes ilist).erase (ilist.sInode (ilist.sNinode - 1)) := free
  refine
    { well with
      within := le_sub_one_of_lt entries
      short := (sub_le _ _).trans short
      free := ?_
      distinct := ?_
      ahead := ?_
      counted := ?_ }
  · intro place from1 small
    rw [freeAfter]
    simp only at small
    exact mem_erase.2 ⟨well.distinct place (ilist.sNinode - 1) from1 small (by omega),
      well.free place from1 (by omega)⟩
  · intro low high from1 less small
    simp only at small
    exact well.distinct low high from1 less (by omega)
  · intro other isFree
    rw [freeAfter, mem_erase] at isFree
    refine (well.ahead other isFree.2).imp_left ?_
    rintro ⟨place, from1, small, here⟩
    refine ⟨place, from1, ?_, here⟩
    have notTop : place ≠ ilist.sNinode - 1 := by
      rintro rfl
      exact isFree.1 here.symm
    simp only
    omega
  · rw [freeAfter, card_erase_of_mem top, ← well.counted]

end

/-- What `xx_ialloc` may come to. -/
structure AllocRight (ilist : Ilist) (result : IallocResult) : Prop where
  allocated : ∀ ino, result = .allocated ino → ino ∈ freeInodes ilist
  noSpace : result = .noSpace → freeInodes ilist = ∅

theorem iallocLoop_top (well : StackWell ilist bottom) (entries : bottom < ilist.sNinode)
    (calls : Calls) (used : mode ≠ 0) (fuel : Nat) :
    ∃ result after, iallocLoop calls mode (fuel + 1) ilist = some (result, after) ∧
      AllocRight ilist result ∧
      ((∀ ino, calls.iget ino = none) → ∃ next, StackWell after next) := by
  have top := well.free (ilist.sNinode - 1) (by omega) (by omega)
  have isZero := (mem_freeInodes.1 top).2
  unfold iallocLoop
  rw [takeNumber_some well entries]
  simp only
  cases gets : calls.iget (ilist.sInode (ilist.sNinode - 1)) with
  | some error =>
    refine ⟨_, _, rfl, ⟨fun _ => nofun, nofun⟩, fun got => ?_⟩
    rw [got] at gets
    cases gets
  | none =>
    simp only [if_pos isZero]
    refine ⟨_, _, rfl, ⟨?_, nofun⟩, fun _ => ⟨bottom, well.taken entries used⟩⟩
    rintro ino ⟨⟩
    exact top

theorem StackWell.noInodes (well : StackWell ilist bottom) (none : freeInodes ilist = ∅)
    (size : after.sIsize = ilist.sIsize) (modes : after.mode = ilist.mode)
    (hint : after.sInode 0 ≤ ilist.inodes) :
    StackWell (noInodes after) 0 := by
  have noneAfter : freeInodes (Xxfs.noInodes after) = ∅ := by
    rw [← none]
    simp [freeInodes, Xxfs.noInodes, Ilist.inodes, size, modes]
  have inodes : (Xxfs.noInodes after).inodes = ilist.inodes := by
    simp [Xxfs.noInodes, Ilist.inodes, size]
  refine
    { numbered := inodes ▸ well.numbered
      within := Nat.zero_le _
      short := Nat.zero_le _
      stop := fun positive => absurd positive (Nat.lt_irrefl 0)
      free := fun place _ small => absurd small (Nat.not_lt_zero place)
      distinct := fun _ high _ _ small => absurd small (Nat.not_lt_zero high)
      ahead := ?_
      hint := ?_
      counted := ?_ }
  · intro ino isFree
    rw [noneAfter] at isFree
    exact absurd isFree (notMem_empty ino)
  · rw [inodes]
    exact hint
  · rw [noneAfter]
    rfl

/-- The free inodes in the order of the scan. -/
def freeAhead (ilist : Ilist) : List Nat := freeFrom ilist.mode (fsInos (ilist.sInode 0))
    (ilist.inodes + 1 - fsInos (ilist.sInode 0))

theorem mem_freeAhead (ahead : ∀ ino ∈ freeInodes ilist, fsInos (ilist.sInode 0) ≤ ino)
    {ino : Nat} :
    ino ∈ freeAhead ilist ↔ ino ∈ freeInodes ilist := by
  simp only [freeAhead, freeFrom, mem_filter, mem_range'_1, decide_eq_true_eq, mem_freeInodes]
  constructor
  · rintro ⟨⟨from1, upTo⟩, free⟩
    rw [fsInos_eq] at from1 upTo
    omega
  · rintro ⟨within, free⟩
    have from1 := ahead ino (mem_freeInodes.2 ⟨within, free⟩)
    omega

theorem pairwise_freeAhead (ilist : Ilist) : (freeAhead ilist).Pairwise (· < ·) :=
  List.Pairwise.filter _ pairwise_lt_range'

theorem refilled_above {place : Nat} (above : scan.sNinode ≤ place) :
    refilled scan place = scan.sInode place := by
  unfold refilled
  split
  case isTrue room => rw [update_of_ne (by omega), update_of_ne (by omega)]
  case isFalse => rfl

theorem refilled_stop (room : 0 < scan.sNinode) :
    refilled scan (scan.sNinode - 1) = 0 ∧ refilled scan 0 = 0 := by
  unfold refilled
  rw [if_pos room]
  refine ⟨?_, update_self _ _ _⟩
  by_cases one : scan.sNinode - 1 = 0
  · rw [one]
    exact update_self _ _ _
  · rw [update_of_ne one, update_self]

variable {calls : Calls}

theorem scanIlist_entries (readable : ∀ adr, calls.unreadable adr = false)
    (numbered : ilist.inodes < 2 ^ 16) (hint : ilist.sInode 0 ≤ ilist.inodes) :
    (scanIlist calls ilist).sNinode = xxnicinod - (freeAhead ilist).length ∧
      ∀ place, (scanIlist calls ilist).sNinode ≤ place → place < xxnicinod →
        (freeAhead ilist)[xxnicinod - 1 - place]? =
          some ((scanIlist calls ilist).sInode place) := by
  obtain ⟨short, fits⟩ := fsInos_lt numbered hint
  have same : toUshort (fsInos (ilist.sInode 0)) = fsInos (ilist.sInode 0) := mod_eq_of_lt fits
  have whole : scanIlist calls ilist = (range' (fsInos (ilist.sInode 0))
      (ilist.inodes + 1 - fsInos (ilist.sInode 0))).foldl
      (scanDinode ilist.mode)
      ⟨xxnicinod, ilist.sInode, fsInos (ilist.sInode 0)⟩ := by
    rw [← scannedNumbers_eq fits]
    unfold scanIlist scannedNumbers
    rw [scanBlocks_readable readable, same]
  have bound : fsInos (ilist.sInode 0) + (ilist.inodes + 1 - fsInos (ilist.sInode 0)) < 2 ^ 16 := by
    simp only [Ilist.inodes, fsInopb, xxbsize] at *
    omega
  obtain ⟨room, -, entries⟩ := @scan_range ilist.mode (fsInos (ilist.sInode 0))
    (ilist.inodes + 1 - fsInos (ilist.sInode 0)) xxnicinod ilist.sInode bound
  rw [whole]
  exact ⟨room, entries⟩

/-- The stack that the scan fills is well. -/
theorem refilled_well (readable : ∀ adr, calls.unreadable adr = false)
    (numbered : ilist.inodes < 2 ^ 16) (hint : ilist.sInode 0 ≤ ilist.inodes)
    (ahead : ∀ ino ∈ freeInodes ilist, fsInos (ilist.sInode 0) ≤ ino)
    (counted : ilist.sTinode = (freeInodes ilist).card) :
    StackWell
      { ilist with
        sInode := refilled (scanIlist calls ilist)
        sNinode := xxnicinod }
      (scanIlist calls ilist).sNinode := by
  obtain ⟨room, entries⟩ := scanIlist_entries readable numbered hint
  have entry : ∀ place, (scanIlist calls ilist).sNinode ≤ place → place < xxnicinod →
      (freeAhead ilist)[xxnicinod - 1 - place]? =
        some (refilled (scanIlist calls ilist) place) := by
    intro place from1 small
    rw [refilled_above from1]
    exact entries place from1 small
  have isFree : ∀ place, (scanIlist calls ilist).sNinode ≤ place → place < xxnicinod →
      refilled (scanIlist calls ilist) place ∈ freeInodes ilist :=
    fun place from1 small => (mem_freeAhead ahead).1 (mem_of_getElem? (entry place from1 small))
  have upwards := pairwise_iff_getElem.1 (pairwise_freeAhead ilist)
  refine
    { numbered := numbered
      within := by
        rw [room]
        exact sub_le _ _
      short := le_rfl
      stop := refilled_stop
      free := isFree
      distinct := ?_
      ahead := ?_
      hint := ?_
      counted := counted }
  · intro low high from1 less small same
    have lowEntry := entry low from1 (Nat.lt_trans less small)
    have highEntry := entry high (by omega) small
    simp only at same small
    obtain ⟨lowSmall, lowIs⟩ := List.getElem?_eq_some_iff.1 lowEntry
    obtain ⟨highSmall, highIs⟩ := List.getElem?_eq_some_iff.1 highEntry
    have order := upwards _ _ highSmall lowSmall (by omega)
    rw [lowIs, highIs, same] at order
    exact Nat.lt_irrefl _ order
  · intro ino free
    obtain ⟨index, small, here⟩ := getElem_of_mem ((mem_freeAhead ahead).2 free)
    by_cases kept : index < xxnicinod
    · have from1 : (scanIlist calls ilist).sNinode ≤ xxnicinod - 1 - index := by
        omega
      have found := entry (xxnicinod - 1 - index) from1 (by omega)
      have back : xxnicinod - 1 - (xxnicinod - 1 - index) = index := by omega
      rw [back, List.getElem?_eq_getElem small, some.injEq] at found
      exact .inl ⟨xxnicinod - 1 - index, from1, by simp only; omega, found.symm.trans here⟩
    · -- the stack is full, and its lowest entry was found last
      have lowest := entry 0 (by omega) (by decide)
      obtain ⟨lowSmall, lowIs⟩ := List.getElem?_eq_some_iff.1 lowest
      have order := upwards (xxnicinod - 1 - 0) index lowSmall small
          (by simp only [xxnicinod] at kept ⊢; omega)
      rw [lowIs, here] at order
      exact .inr (fsInos_le order)
  · rcases Nat.eq_zero_or_pos (scanIlist calls ilist).sNinode with full | some
    · exact (mem_freeInodes.1 (isFree 0 (Nat.le_of_eq full) (by decide))).1.2
    · have zero := (refilled_stop some).2
      simp only
      rw [zero]
      exact Nat.zero_le _

theorem StackWell.xxIalloc (well : StackWell ilist bottom)
    (readable : ∀ adr, calls.unreadable adr = false) (used : mode ≠ 0) :
    ∃ result after, xxIalloc calls mode ilist = some (result, after) ∧ AllocRight ilist result ∧
      ((∀ ino, calls.iget ino = none) → ∃ next, StackWell after next) := by
  unfold Xxfs.xxIalloc
  rcases Nat.lt_or_eq_of_le well.within with entries | usedUp
  · exact iallocLoop_top well entries calls used _
  · have noneTaken := takeNumber_none well usedUp
    have ahead : ∀ ino ∈ freeInodes ilist, fsInos (ilist.sInode 0) ≤ ino := by
      intro ino free
      rcases well.ahead ino free with ⟨place, from1, small, _⟩ | later
      · exact absurd (Nat.lt_of_le_of_lt from1 small) (by omega)
      · exact later
    unfold iallocLoop
    rw [← Prod.mk.eta (p := takeNumber ilist), noneTaken]
    simp only
    split
    case isFalse noneCounted =>
      have none : freeInodes ilist = ∅ := by
        rw [← Finset.card_eq_zero, ← well.counted]
        exact Nat.eq_zero_of_not_pos noneCounted
      exact ⟨_, _, rfl, ⟨fun _ => nofun, fun _ => none⟩,
        fun _ => ⟨0, well.noInodes none rfl rfl well.hint⟩⟩
    case isTrue someCounted =>
      have filled := @refilled_well { ilist with sNinode := (takeNumber ilist).2 } calls
          readable well.numbered well.hint ahead well.counted
      have found : (scanIlist calls { ilist with sNinode := (takeNumber ilist).2 }).sNinode <
              xxnicinod := by
        obtain ⟨room, -⟩ := @scanIlist_entries { ilist with sNinode := (takeNumber ilist).2 }
          calls readable well.numbered well.hint
        have some : (freeInodes ilist).Nonempty := by
          rw [← Finset.card_pos, ← well.counted]
          exact someCounted
        obtain ⟨ino, free⟩ := some
        have member : ino ∈ freeAhead { ilist with sNinode := (takeNumber ilist).2 } :=
          (@mem_freeAhead { ilist with sNinode := (takeNumber ilist).2 } ahead ino).2 free
        have positive := length_pos_of_mem member
        rw [room]
        exact sub_lt (by decide) positive
      rw [if_neg (Nat.ne_of_lt found)]
      obtain ⟨result, after, returns, right, kept⟩ :=
        iallocLoop_top filled found calls used ilist.sNinode
      exact ⟨result, after, returns, ⟨right.allocated, right.noSpace⟩, kept⟩

theorem StackWell.reached (well : StackWell ilist bottom) (free : ino ∈ freeInodes ilist) :
    InStack ilist ino ∨ ino ∈ scannedNumbers ilist := by
  rcases well.ahead ino free with ⟨place, _, small, here⟩ | later
  · exact .inl ⟨place, small, here⟩
  · exact .inr ((mem_scannedNumbers (fsInos_lt well.numbered well.hint).2).2
      ⟨later, (mem_freeInodes.1 free).1.2⟩)

/-- In every run from a mount whose calls lose none, the count is that of the
free inodes, each is in the stack or comes in the scan, and what `xx_ialloc`
returns next is free, or `ENOSPC` when nothing is. -/
theorem freeInodes_kept {initial : Ilist} (mounted : MountedIlist initial)
    {actions : List InodeAction} (run : Run (Guarded InodeStep LosesNone) initial actions ilist) :
    ilist.sTinode = (freeInodes ilist).card ∧ (∀ ino ∈ freeInodes ilist,
      InStack ilist ino ∨ ino ∈ scannedNumbers ilist) ∧
      ∀ calls mode, (∀ adr, calls.unreadable adr = false) → mode ≠ 0 → ∃ result after,
        xxIalloc calls mode ilist = some (result, after) ∧
          (∀ ino, result = .allocated ino → ino ∈ freeInodes ilist) ∧
          (result = .noSpace → freeInodes ilist = ∅) := by
  have well : ∃ bottom, StackWell ilist bottom := by
    refine @Run.invariant _ _ _ _ _ _
      (fun fs => ∃ bottom, StackWell fs bottom) ?_ ⟨0, mounted.well⟩ run
    rintro before action after ⟨bottom, well⟩ ⟨step, losesNone⟩
    cases step with
    | alloc readable used returns =>
      obtain ⟨_, next, same, _, kept⟩ := well.xxIalloc readable used
      rw [returns] at same
      cases same
      exact kept losesNone
    | free used within => exact ⟨bottom, well.xxIfree used within losesNone⟩
  obtain ⟨bottom, well⟩ := well
  refine ⟨well.counted, fun _ => well.reached, ?_⟩
  intro calls mode readable used
  obtain ⟨result, after, returns, right, _⟩ := well.xxIalloc readable used
  exact ⟨result, after, returns, right.allocated, right.noSpace⟩

/-- Calls that succeed. -/
def goodCalls : Calls where
  iget := fun _ => none
  unreadable := fun _ => false

/-- A file system of 112 inodes, the last hundred of which are free. -/
def sampleIlist : Ilist where
  sIsize := 9
  sNinode := 0
  sInode := fun _ => 0
  sTinode := 100
  mode := fun ino => if ino ≤ 12 then 1 else 0

theorem mounted_sampleIlist : MountedIlist sampleIlist where
  noEntries := rfl
  noHint := rfl
  counted := by decide +kernel
  numbered := by decide

theorem freeInodes_kept_sample : ∃ fs, xxIalloc goodCalls 1 sampleIlist = some (.allocated 13, fs) ∧
    fs.sTinode = (freeInodes fs).card ∧
    (∀ ino ∈ freeInodes fs, InStack fs ino ∨ ino ∈ scannedNumbers fs) ∧
    ∀ calls mode, (∀ adr, calls.unreadable adr = false) → mode ≠ 0 → ∃ result after,
      xxIalloc calls mode fs = some (result, after) ∧
        (∀ ino, result = .allocated ino → ino ∈ freeInodes fs) ∧
        (result = .noSpace → freeInodes fs = ∅) := by
  have first : (xxIalloc goodCalls 1 sampleIlist).map Prod.fst = some (.allocated 13) := by
    decide +kernel
  obtain ⟨⟨_, fs⟩, returns, rfl⟩ := Option.map_eq_some_iff.1 first
  exact ⟨fs, returns, freeInodes_kept mounted_sampleIlist
    (.single ⟨.alloc (fun _ => rfl) (by decide) returns, fun _ => rfl⟩)⟩

/-- Allocations one after the other. -/
def allocTimes : Nat → Ilist → Option Ilist
  | 0, ilist => some ilist
  | times + 1, ilist =>
    match xxIalloc goodCalls 1 ilist with
    | some (_, after) => allocTimes times after
    | none => none

theorem run_allocTimes {count : Nat} (done : allocTimes count ilist = some after) :
    Run InodeStep ilist (replicate count (.alloc goodCalls 1)) after := by
  induction count generalizing ilist with
  | zero =>
    obtain rfl := some.inj done
    exact .nil
  | succ count ih =>
    unfold allocTimes at done
    split at done
    case h_1 returns =>
      exact (Run.single (.alloc (fun _ => rfl) (by decide) returns)).append (ih done)
    case h_2 => cases done

theorem isSome_allocTimes : (allocTimes 100 sampleIlist).isSome = true := by decide +kernel

/-- The sample once all its inodes are in use. -/
def usedUpIlist : Ilist := (allocTimes 100 sampleIlist).get isSome_allocTimes

/-- Then the last inode, which ends its block, is freed. -/
def lastFreed : Ilist := xxIfree { usedUpIlist with mode := update usedUpIlist.mode 112 0 } 112 1

theorem freeInodes_lost : MountedIlist sampleIlist ∧ ∃ actions,
    Run InodeStep sampleIlist actions lastFreed ∧
      112 ∈ freeInodes lastFreed ∧ ¬ InStack lastFreed 112 ∧
      112 ∉ scannedNumbers lastFreed ∧
      (xxIalloc goodCalls 1 lastFreed).map Prod.fst = some .noSpace := by
  refine ⟨mounted_sampleIlist, replicate 100 (.alloc goodCalls 1) ++ [.free 112 1],
    .snoc (run_allocTimes (some_get isSome_allocTimes).symm)
      (.free (by decide +kernel) (by decide +kernel)), by decide +kernel, ?_,
    by decide +kernel, by decide +kernel⟩
  rintro ⟨place, small, _⟩
  have none : lastFreed.sNinode = 0 := by decide +kernel
  rw [none] at small
  exact Nat.not_lt_zero _ small

end

end Uw7.Xxfs
