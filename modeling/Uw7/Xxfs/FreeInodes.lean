import Mathlib.Order.Interval.Finset.Nat
import Uw7.Xxfs.Alloc

/-!
# Free inodes of a Xenix file system

`xx_ialloc` and `xx_ifree` from `fs/xxfs/xxalloc.c`.  The superblock remembers
some free inode numbers as a stack, whose lowest entry also tells where the scan
of the i-list begins once the stack is used up; a zero ends a stack that the
scan could not fill.

An inode is free when its mode is zero.  The modes are those on the device,
which are those of the inodes in core, since `xx_ialloc` writes the inode it
hands out.  The other fields of an inode and `s_fmod` are left out.
-/

open Function List Nat

namespace Uw7.Xxfs

def xxnicinod : Nat := 100

/-- `fs_inopb`: a `struct xxdinode` has 64 bytes. -/
def fsInopb : Nat := xxbsize / 64

def fsInoshift : Nat := 4

/-- A number held in a `ushort_t`. -/
def toUshort (value : Nat) : Nat := value % 2 ^ 16

/-- `FsINOS`: where the scan begins. -/
def fsInos (ino : Nat) : Nat := ((ino >>> fsInoshift) <<< fsInoshift) + 1

/-- `FsITOD`: the block of an inode. -/
def fsItod (ino : Nat) : Nat := (ino + (2 * fsInopb - 1)) >>> fsInoshift

/-- The number of an inode, by its block and its place there. -/
def inodeNumber (adr index : Nat) : Nat := (adr - 2) * fsInopb + index + 1

/-- The inode fields of `struct xxfilsys`, and the mode of every inode. -/
structure Ilist where
  sIsize : Nat
  sNinode : Nat
  sInode : Nat → Nat
  sTinode : Nat
  mode : Nat → Nat

/-- What calls of other routines come to: the errors of `xx_iget`, and the
blocks that cannot be read. -/
structure Calls where
  iget : Nat → Option Errno
  unreadable : Nat → Bool

/-- What `xx_ialloc` comes to. -/
inductive IallocResult where
  | allocated (ino : Nat)
  | igetFailed (error : Errno)
  | noSpace
deriving DecidableEq

def blockNumbers (adr : Nat) : List Nat := (range fsInopb).map (inodeNumber adr)

/-- How far the scan of the i-list has come: the room left in the stack, the
stack, and the variable `ino`. -/
structure Refill where
  sNinode : Nat
  sInode : Nat → Nat
  ino : Nat

/-- The scan of one inode; it does nothing once the stack is full. -/
def scanDinode (mode : Nat → Nat) (scan : Refill) (number : Nat) : Refill :=
  if scan.sNinode = 0 then scan
  else if mode number = 0 then
    { sNinode := scan.sNinode - 1
      sInode := update scan.sInode (scan.sNinode - 1) scan.ino
      ino := toUshort (scan.ino + 1) }
  else { scan with ino := toUshort (scan.ino + 1) }

def scanBlock (calls : Calls) (mode : Nat → Nat) (scan : Refill) (adr : Nat) : Refill :=
  if scan.sNinode = 0 then scan
  else if calls.unreadable adr then
    { scan with ino := toUshort (scan.ino + fsInopb) }
  else (blockNumbers adr).foldl (scanDinode mode) scan

def scanBlocks (ilist : Ilist) : List Nat :=
  let first := fsItod (toUshort (fsInos (ilist.sInode 0)))
  range' first (ilist.sIsize - first)

/-- The scan of the i-list. -/
def scanIlist (calls : Calls) (ilist : Ilist) : Refill :=
  (scanBlocks ilist).foldl (scanBlock calls ilist.mode)
    ⟨xxnicinod, ilist.sInode, toUshort (fsInos (ilist.sInode 0))⟩

/-- The stack that the scan leaves, with its zeros. -/
def refilled (scan : Refill) : Nat → Nat :=
  if 0 < scan.sNinode then
    update (update scan.sInode (scan.sNinode - 1) 0) 0 0
  else scan.sInode

/-- The condition of the first `if`: the inode number that is taken, if any, and
the entries that are left. -/
def takeNumber (ilist : Ilist) : Option Nat × Nat :=
  if 0 < ilist.sNinode then
    let ino := ilist.sInode (ilist.sNinode - 1)
    (if ino = 0 then none else some ino, ilist.sNinode - 1)
  else (none, ilist.sNinode)

/-- The end of `xx_ialloc` without an inode. -/
def noInodes (ilist : Ilist) : Ilist := { ilist with sNinode := 0, sTinode := 0 }

/-- `xx_ialloc` from the label `loop` on. -/
def iallocLoop (calls : Calls) (mode : Nat) : Nat → Ilist → Option (IallocResult × Ilist)
  | 0, _ => none
  | fuel + 1, ilist =>
    match takeNumber ilist with
    | (some ino, left) =>
      let taken := { ilist with sNinode := left }
      match calls.iget ino with
      | some error => some (.igetFailed error, taken)
      | none =>
        if taken.mode ino = 0 then
          some (.allocated ino,
            { taken with
              mode := update taken.mode ino mode
              sTinode := taken.sTinode - 1 })
        else iallocLoop calls mode fuel taken
    | (none, left) =>
      let ended := { ilist with sNinode := left }
      if 0 < ended.sTinode then
        let scan := scanIlist calls ended
        let filled := { ended with sInode := refilled scan }
        if scan.sNinode = xxnicinod then some (.noSpace, noInodes filled)
        else
          iallocLoop calls mode fuel { filled with sNinode := xxnicinod }
      else some (.noSpace, noInodes ended)

def xxIalloc (calls : Calls) (mode : Nat) (ilist : Ilist) : Option (IallocResult × Ilist) :=
  iallocLoop calls mode (ilist.sNinode + 2) ilist

def xxIfree (ilist : Ilist) (ino coreMode : Nat) : Ilist :=
  if coreMode = 0 then ilist
  else
    let counted := { ilist with sTinode := toUshort (ilist.sTinode + 1) }
    if xxnicinod ≤ ilist.sNinode ∨ ilist.sNinode = 0 then
      if ino < ilist.sInode 0 then
        { counted with sInode := update ilist.sInode 0 ino }
      else counted
    else
      { counted with
        sInode := update ilist.sInode ilist.sNinode ino
        sNinode := ilist.sNinode + 1 }

end Uw7.Xxfs

/-!
# The scan of the i-list

The scan visits inode numbers in order and keeps as many free ones as the stack
has room for, the first one on top.
-/

namespace Uw7.Xxfs

/-- `f_files`: the inodes of a file system. -/
def Ilist.inodes (ilist : Ilist) : Nat := (ilist.sIsize - 2) * fsInopb

/-- The numbers that the scan comes to as long as there is room. -/
def scannedNumbers (ilist : Ilist) : List Nat := (scanBlocks ilist).flatMap blockNumbers

theorem fsItod_fsInos (hint : Nat) : fsItod (fsInos hint) = hint / 16 + 2 := by
  simp only [fsItod, fsInos, fsInopb, fsInoshift, xxbsize, shiftRight_eq_div_pow, shiftLeft_eq]
  omega

theorem fsInos_eq (hint : Nat) : fsInos hint = hint / 16 * 16 + 1 := by
  simp only [fsInos, fsInoshift, shiftRight_eq_div_pow, shiftLeft_eq, reducePow]

theorem flatMap_blockNumbers (first count : Nat) : (range' (first + 2) count).flatMap blockNumbers =
    range' (first * 16 + 1) (count * 16) := by
  induction count generalizing first with
  | zero => rfl
  | succ count ih =>
    have block : blockNumbers (first + 2) = range' (first * 16 + 1) 16 := by
      simp only [blockNumbers, range'_eq_map_range]
      refine map_congr_left fun index _ => ?_
      simp only [inodeNumber, fsInopb, xxbsize]
      omega
    have rest := ih (first + 1)
    rw [range'_succ, flatMap_cons, block]
    have next : first + 2 + 1 = first + 1 + 2 := by omega
    have further : (first + 1) * 16 + 1 = first * 16 + 1 + 1 * 16 := by omega
    rw [next, rest, further, range'_append]
    congr 1
    omega

theorem scannedNumbers_eq {ilist : Ilist} (fits : fsInos (ilist.sInode 0) < 2 ^ 16) :
    scannedNumbers ilist = range' (fsInos (ilist.sInode 0))
      (ilist.inodes + 1 - fsInos (ilist.sInode 0)) := by
  have same : toUshort (fsInos (ilist.sInode 0)) = fsInos (ilist.sInode 0) := mod_eq_of_lt fits
  simp only [scannedNumbers, scanBlocks]
  rw [same, fsItod_fsInos, flatMap_blockNumbers, fsInos_eq]
  congr 1
  simp only [Ilist.inodes, fsInopb, xxbsize]
  omega

theorem mem_scannedNumbers {ilist : Ilist} (fits : fsInos (ilist.sInode 0) < 2 ^ 16) {ino : Nat} :
    ino ∈ scannedNumbers ilist ↔ fsInos (ilist.sInode 0) ≤ ino ∧ ino ≤ ilist.inodes := by
  rw [scannedNumbers_eq fits, mem_range'_1]
  omega

section

variable {mode : Nat → Nat}

theorem scan_full {scan : Refill} (full : scan.sNinode = 0) (numbers : List Nat) :
    numbers.foldl (scanDinode mode) scan = scan := by
  induction numbers with
  | nil => rfl
  | cons number rest ih =>
    rw [foldl_cons, scanDinode, if_pos full]
    exact ih

theorem scanBlocks_readable {calls : Calls} (readable : ∀ adr, calls.unreadable adr = false)
    (blocks : List Nat) (scan : Refill) : blocks.foldl (scanBlock calls mode) scan =
      (blocks.flatMap blockNumbers).foldl (scanDinode mode) scan := by
  induction blocks generalizing scan with
  | nil => rfl
  | cons adr rest ih =>
    have one : scanBlock calls mode scan adr = (blockNumbers adr).foldl (scanDinode mode) scan := by
      unfold scanBlock
      rw [readable adr]
      split
      case isTrue full => exact (scan_full full _).symm
      case isFalse => rfl
    rw [foldl_cons, one, ih, flatMap_cons, foldl_append]

/-- The free ones of consecutive inodes. -/
def freeFrom (mode : Nat → Nat) (first count : Nat) : List Nat :=
  (range' first count).filter fun ino => mode ino = 0

theorem scan_range (first count room : Nat) (stack : Nat → Nat) (fits : first + count < 2 ^ 16) :
    let scan := (range' first count).foldl (scanDinode mode) ⟨room, stack, first⟩
    scan.sNinode = room - (freeFrom mode first count).length ∧
      (∀ place, place < scan.sNinode ∨ room ≤ place → scan.sInode place = stack place) ∧
      ∀ place, scan.sNinode ≤ place → place < room →
        (freeFrom mode first count)[room - 1 - place]? = some (scan.sInode place) := by
  induction count generalizing first room stack with
  | zero =>
    refine ⟨rfl, fun _ _ => rfl, ?_⟩
    intro place from1 upTo
    exact absurd (Nat.lt_of_lt_of_le upTo from1) (Nat.lt_irrefl _)
  | succ count ih =>
    cases room with
    | zero =>
      rw [scan_full rfl]
      refine ⟨(Nat.zero_sub _).symm, fun _ _ => rfl, ?_⟩
      intro place _ upTo
      exact absurd upTo (Nat.not_lt_zero _)
    | succ room =>
      have next : toUshort (first + 1) = first + 1 := by
        unfold toUshort
        omega
      have split : freeFrom mode first (count + 1) =
          if mode first = 0 then first :: freeFrom mode (first + 1) count
          else freeFrom mode (first + 1) count := by
        simp [freeFrom, range'_succ, filter_cons]
      by_cases free : mode first = 0
      · have step : scanDinode mode ⟨room + 1, stack, first⟩ first =
            ⟨room, update stack room first, first + 1⟩ := by
          simp [scanDinode, free, next]
        obtain ⟨left, kept, taken⟩ := ih (first + 1) room (update stack room first) (by omega)
        rw [range'_succ, foldl_cons, step, split, if_pos free]
        refine ⟨?_, ?_, ?_⟩
        · rw [left, length_cons]
          omega
        · intro place outside
          have apart : place ≠ room := by omega
          rw [kept place (by omega), update_of_ne apart]
        · intro place from1 upTo
          by_cases top : place = room
          · subst top
            rw [kept place (.inr le_rfl), update_self]
            simp
          · have entry := taken place from1 (by omega)
            have index : room + 1 - 1 - place = room - 1 - place + 1 := by omega
            rw [index, List.getElem?_cons_succ]
            exact entry
      · have step : scanDinode mode ⟨room + 1, stack, first⟩ first =
            ⟨room + 1, stack, first + 1⟩ := by
          simp [scanDinode, free, next]
        rw [range'_succ, foldl_cons, step, split, if_neg free]
        exact ih (first + 1) (room + 1) stack (by omega)

end

end Uw7.Xxfs
