import Mathlib.Data.Fin.Basic
import Mathlib.Tactic.Ring

namespace Uw7.Lib

/-!
# Byte-addressed memories

Bytes by address, with little-endian numbers of any width read from and written
to them.  A range of addresses can be replaced as a whole, as when a buffer is
written to a device.
-/

/-- There are bytes. -/
instance neZeroByteSize : NeZero 256 := ⟨by decide⟩

/-- An eight-bit byte. -/
abbrev Byte := Fin 256

/-- Bytes by address. -/
abbrev ByteMemory := Nat → Byte

namespace ByteMemory

/-- The little-endian number in `width` bytes. -/
def readLe (memory : ByteMemory) (address : Nat) : Nat → Nat
  | 0 => 0
  | width + 1 => (memory address).val + 256 * readLe memory (address + 1) width

/-- Store the low bytes of a number, least significant first. -/
def writeLe (memory : ByteMemory) (address value : Nat) : Nat → ByteMemory
  | 0 => memory
  | width + 1 =>
    Function.update (writeLe memory (address + 1) (value / 256) width) address (Fin.ofNat 256 value)

def store (memory : ByteMemory) (address length : Nat) (buffer : ByteMemory) :
    ByteMemory :=
  fun target =>
    if address ≤ target ∧ target < address + length then
      buffer (target - address)
    else
      memory target

def view (memory : ByteMemory) (address : Nat) :
    ByteMemory :=
  fun offset => memory (address + offset)

/-- Two memories hold the same bytes in a range. -/
def AgreeOn (address length : Nat) (left right : ByteMemory) : Prop := ∀ target,
    address ≤ target → target < address + length →
    left target = right target

variable {memory : ByteMemory}

namespace AgreeOn

theorem refl (address length : Nat) : AgreeOn address length memory memory := fun _ _ _ => rfl

variable {address length : Nat} {left right : ByteMemory}

theorem symm (agree : AgreeOn address length left right) : AgreeOn address length right left :=
  fun target from_ below => (agree target from_ below).symm

theorem trans {first second third : ByteMemory} (left : AgreeOn address length first second)
    (right : AgreeOn address length second third) : AgreeOn address length first third :=
  fun target from_ below => (left target from_ below).trans (right target from_ below)

theorem part {start width : Nat} (agree : AgreeOn address length left right)
    (starts : address ≤ start) (ends : start + width ≤ address + length) :
    AgreeOn start width left right :=
  fun target from_ below => agree target (by omega) (by omega)

end AgreeOn

theorem readLe_lt (address width : Nat) : readLe memory address width < 256 ^ width := by
  induction width generalizing address with
  | zero => simp [readLe]
  | succ width ih =>
    have high := ih (address + 1)
    rw [readLe, Nat.pow_succ]
    omega

theorem readLe_zero (address width : Nat) : readLe (fun _ => 0) address width = 0 := by
  induction width generalizing address with
  | zero => rfl
  | succ width ih => simp [readLe, ih]

variable {address width value target start length : Nat}

theorem readLe_congr {left right : ByteMemory} (agree : AgreeOn address width left right) :
    readLe left address width = readLe right address width := by
  induction width generalizing address with
  | zero => rfl
  | succ width ih =>
    have first : left address = right address := agree address le_rfl (by omega)
    have rest : readLe left (address + 1) width = readLe right (address + 1) width :=
      ih (agree.part (by omega) (by omega))
    simp [readLe, first, rest]

theorem writeLe_outside (outside : target < address ∨ address + width ≤ target) :
    writeLe memory address value width target = memory target := by
  induction width generalizing address value with
  | zero => rfl
  | succ width ih =>
    rw [writeLe, Function.update_of_ne (by omega)]
    exact ih (by omega)

theorem agreeOn_writeLe (disjoint : start + length ≤ address ∨ address + width ≤ start) :
    AgreeOn start length (writeLe memory address value width) memory :=
  fun _ _ _ => writeLe_outside (by omega)

theorem readLe_writeLe (address value width : Nat) :
    readLe (writeLe memory address value width) address width = value % 256 ^ width := by
  induction width generalizing address value with
  | zero => simp [readLe, Nat.mod_one]
  | succ width ih =>
    have rest : readLe (writeLe memory address value (width + 1)) (address + 1) width =
        value / 256 % 256 ^ width := by
      rw [← ih (address + 1) (value / 256)]
      refine readLe_congr fun target from_ _ => ?_
      rw [writeLe, Function.update_of_ne (by omega)]
    rw [readLe, rest, Nat.pow_succ, Nat.mul_comm (256 ^ width) 256, Nat.mod_mul]
    simp [writeLe]

theorem store_outside (buffer : ByteMemory) (outside : target < address ∨ address + length ≤ target)
    : store memory address length buffer target = memory target :=
  if_neg (by omega)

theorem agreeOn_store (buffer : ByteMemory)
    (disjoint : start + width ≤ address ∨ address + length ≤ start) :
    AgreeOn start width (store memory address length buffer) memory :=
  fun _ _ _ => store_outside buffer (by omega)

theorem store_inside {address length offset : Nat} (buffer : ByteMemory)
    (inside : offset < length) :
    store memory address length buffer (address + offset) = buffer offset := by
  unfold store
  rw [if_pos (by omega), Nat.add_sub_cancel_left]

theorem readLe_store {offset : Nat} (buffer : ByteMemory) (inside : offset + width ≤ length) :
    readLe (store memory address length buffer) (address + offset) width =
      readLe buffer offset width := by
  induction width generalizing offset with
  | zero => rfl
  | succ width ih =>
    rw [readLe, readLe, store_inside buffer (by omega), Nat.add_assoc, ih (by omega)]

/-- Store a buffer `count` times, each copy `stride` bytes after the last. -/
def storeCopies (length stride : Nat) (buffer : ByteMemory) : Nat → Nat → ByteMemory → ByteMemory
  | 0, _, memory => memory
  | count + 1, address, memory =>
    storeCopies length stride buffer count (address + stride)
      (memory.store (address + stride) length buffer)

theorem storeCopies_outside {stride count : Nat} {buffer : ByteMemory}
    (outside : ∀ copy, 1 ≤ copy → copy ≤ count → target < address + copy * stride ∨
      address + copy * stride + length ≤ target) :
    storeCopies length stride buffer count address memory target = memory target := by
  induction count generalizing address memory with
  | zero => rfl
  | succ count ih =>
    rw [storeCopies, ih]
    · have first := outside 1 le_rfl (by omega)
      rw [one_mul] at first
      exact store_outside buffer first
    · intro copy positive bounded
      have later := outside (copy + 1) (by omega) (by omega)
      rw [Nat.succ_mul] at later
      omega

theorem storeCopies_copy {length stride count copy address offset : Nat} {buffer : ByteMemory}
    (apart : length ≤ stride) (positive : 1 ≤ copy) (bounded : copy ≤ count)
    (inside : offset < length) :
    storeCopies length stride buffer count address memory (address + copy * stride + offset) =
      buffer offset := by
  induction count generalizing address memory copy with
  | zero => omega
  | succ count ih =>
    rw [storeCopies]
    rcases Nat.eq_or_lt_of_le positive with isFirst | isLater
    · subst copy
      rw [one_mul, storeCopies_outside, store_inside buffer inside]
      intro later laterPositive _
      have farther : stride ≤ later * stride := Nat.le_mul_of_pos_left stride laterPositive
      omega
    · obtain ⟨earlier, rfl⟩ : ∃ earlier, copy = earlier + 1 := ⟨copy - 1, by omega⟩
      have found := @ih (memory.store (address + stride) length buffer) earlier
          (address + stride) (by omega) (by omega)
      rw [← found]
      congr 1
      ring

theorem store_store_view {source : ByteMemory} (address length start : Nat) :
    (memory.store address length (source.view start)).store
      (address + length) length (source.view (start + length)) =
      memory.store address (length + length) (source.view start) := by
  funext target
  simp only [store, view]
  split_ifs <;> first | omega | rfl | (congr 1; omega)

end ByteMemory

end Uw7.Lib
