import Mathlib.Data.Nat.Bitwise
import Uw7.Lib.ByteMemory

namespace Uw7.Lib

/-!
# Packed arrays of 12-bit entries

Two entries share three bytes: an even entry takes the first byte and the low
half of the second, an odd entry the high half of the second byte and the
third.  Writing an entry preserves the half that belongs to its neighbour.
-/

open Function

namespace Packed12

/-- Offset of the first of the two bytes that hold an entry. -/
def slot (index : Nat) : Nat := index + index / 2

/-- The entry in two bytes, by the parity of its index. -/
def decode (odd : Bool) (first second : Byte) : Nat :=
  let word := first.val + 256 * second.val
  if odd then word / 16 else word % 4096

/-- The first of the two bytes once an entry is stored in them. -/
def encodeFirst (odd : Bool) (first : Byte) (value : Nat) : Byte :=
  if odd then
    Fin.ofNat 256 (first.val % 16 + value % 16 * 16)
  else
    Fin.ofNat 256 value

/-- The second of the two bytes once an entry is stored in them. -/
def encodeSecond (odd : Bool) (second : Byte) (value : Nat) : Byte :=
  if odd then
    Fin.ofNat 256 (value / 16)
  else
    Fin.ofNat 256 (second.val / 16 * 16 + value / 256 % 16)

/-- The parity of an index. -/
def isOdd (index : Nat) : Bool := index % 2 == 1

/-- The entry with an index in the array at an address. -/
def read (memory : ByteMemory) (address index : Nat) : Nat :=
  decode (isOdd index) (memory (address + slot index)) (memory (address + slot index + 1))

/-- Store an entry in the array at an address. -/
def write (memory : ByteMemory) (address index value : Nat) :
    ByteMemory :=
  update (update memory (address + slot index)
      (encodeFirst (isOdd index) (memory (address + slot index)) value))
    (address + slot index + 1)
    (encodeSecond (isOdd index) (memory (address + slot index + 1)) value)

variable {memory : ByteMemory} {address index value : Nat}

theorem decode_encode (odd : Bool) (first second : Byte) : decode odd (encodeFirst odd first value)
    (encodeSecond odd second value) = value % 4096 := by
  cases odd <;> simp only [decode, encodeFirst, encodeSecond, Fin.ofNat_eq_cast,
    Fin.val_natCast, Bool.false_eq_true, if_false, if_true] <;>
    omega

@[simp] theorem write_first : write memory address index value (address + slot index) =
    encodeFirst (isOdd index) (memory (address + slot index))
      value := by
  simp [write]

@[simp] theorem write_second : write memory address index value (address + slot index + 1) =
    encodeSecond (isOdd index) (memory (address + slot index + 1)) value := by
  simp [write]

theorem write_outside {target : Nat} (notFirst : target ≠ address + slot index)
    (notSecond : target ≠ address + slot index + 1) :
    write memory address index value target = memory target := by
  rw [write, update_of_ne notSecond, update_of_ne notFirst]

theorem read_write_same : read (write memory address index value) address index = value % 4096 := by
  rw [read, write_first, write_second, decode_encode]

theorem read_write_other {other : Nat} (different : other ≠ index) :
    read (write memory address index value) address other = read memory address other := by
  have low := (memory (address + slot other)).isLt
  have high := (memory (address + slot other + 1)).isLt
  by_cases following : other = index + 1 ∧ index % 2 = 0
  · -- The first byte of the odd neighbour is the second one written.
    obtain ⟨rfl, even⟩ := following
    have shared : address + slot (index + 1) = address + slot index + 1 := by
      simp only [slot]
      omega
    have untouched : write memory address index value (address + slot index + 1 + 1) =
        memory (address + slot index + 1 + 1) :=
      write_outside (by omega) (by omega)
    have otherOdd : isOdd (index + 1) = true := by
      simp only [isOdd, beq_iff_eq]
      omega
    have notOdd : isOdd index = false := by
      simp only [isOdd, beq_eq_false_iff_ne]
      omega
    simp only [read, shared, write_second, untouched, decode, otherOdd,
      notOdd, encodeSecond, Fin.ofNat_eq_cast, Fin.val_natCast, if_true,
      Bool.false_eq_true, if_false]
    omega
  by_cases preceding : index = other + 1 ∧ other % 2 = 0
  · -- The second byte of the even neighbour is the first one written.
    obtain ⟨rfl, even⟩ := preceding
    have shared : address + slot other + 1 = address + slot (other + 1) := by
      simp only [slot]
      omega
    have untouched : write memory address (other + 1) value (address + slot other) =
        memory (address + slot other) :=
      write_outside (by omega) (by omega)
    have indexOdd : isOdd (other + 1) = true := by
      simp only [isOdd, beq_iff_eq]
      omega
    have notOdd : isOdd other = false := by
      simp only [isOdd, beq_eq_false_iff_ne]
      omega
    simp only [read, untouched, shared, write_first, decode, indexOdd,
      notOdd, encodeFirst, Fin.ofNat_eq_cast, Fin.val_natCast, if_true,
      Bool.false_eq_true, if_false]
    omega
  · have apart : slot other + 2 ≤ slot index ∨ slot index + 2 ≤ slot other := by
      simp only [slot]
      omega
    rw [read, write_outside (by omega) (by omega), write_outside (by omega) (by omega), read]

end Packed12

end Uw7.Lib
