import Mathlib.Logic.Function.Basic

namespace Uw7.Lib

/-!
# Heaps of addressed cells

Allocation takes the next unused address, so that an address is never used
again and a pointer kept past `free` reads as unallocated.
-/

open Function

/-- Cells by address; every address from `next` on is unused. -/
structure Heap (Cell : Type) where
  cell : Nat → Option Cell
  next : Nat

namespace Heap

variable {Cell : Type}

def empty : Heap Cell where
  cell := fun _ => none
  next := 0

/-- Store a value at the next unused address. -/
def alloc (heap : Heap Cell) (value : Cell) : Heap Cell where
  cell := update heap.cell heap.next (some value)
  next := heap.next + 1

def free (heap : Heap Cell) (address : Nat) : Heap Cell :=
  { heap with cell := update heap.cell address none }

def modify (heap : Heap Cell) (address : Nat) (change : Cell → Cell) : Heap Cell :=
  { heap with
    cell := update heap.cell address ((heap.cell address).map change) }

/-- Change every cell whose address satisfies a condition. -/
def modifyWhere (heap : Heap Cell) (condition : Nat → Bool) (change : Cell → Cell) : Heap Cell :=
  { heap with
    cell := fun address =>
      if condition address then
        (heap.cell address).map change
      else
        heap.cell address }

/-- Nothing is stored at an address that allocation may still return. -/
def Bounded (heap : Heap Cell) : Prop := ∀ address, heap.next ≤ address → heap.cell address = none

variable {heap : Heap Cell}

@[simp] theorem cell_alloc (value : Cell) (address : Nat) : (heap.alloc value).cell address =
    if address = heap.next then some value else heap.cell address := by
  simp [alloc, update_apply]

@[simp] theorem next_alloc (value : Cell) : (heap.alloc value).next = heap.next + 1 := rfl

@[simp] theorem cell_free (freed address : Nat) : (heap.free freed).cell address =
    if address = freed then none else heap.cell address := by
  simp [free, update_apply]

@[simp] theorem next_free (freed : Nat) : (heap.free freed).next = heap.next := rfl

@[simp] theorem cell_modify (modified address : Nat) (change : Cell → Cell) :
    (heap.modify modified change).cell address =
      if address = modified then
        (heap.cell address).map change
      else
        heap.cell address := by
  by_cases same : address = modified <;> simp [modify, same]

theorem modify_eq_self {address : Nat} {value : Cell} {change : Cell → Cell}
    (stored : heap.cell address = some value) (unchanged : change value = value) :
    heap.modify address change = heap := by
  have sameCell : (heap.cell address).map change = heap.cell address := by
    rw [stored, Option.map_some, unchanged]
  rw [modify, sameCell, update_eq_self]

@[simp] theorem next_modify (modified : Nat) (change : Cell → Cell) :
    (heap.modify modified change).next = heap.next :=
  rfl

@[simp] theorem cell_modifyWhere (condition : Nat → Bool) (change : Cell → Cell) (address : Nat) :
    (heap.modifyWhere condition change).cell address =
      if condition address then
        (heap.cell address).map change
      else
        heap.cell address :=
  rfl

@[simp] theorem next_modifyWhere (condition : Nat → Bool) (change : Cell → Cell) :
    (heap.modifyWhere condition change).next = heap.next :=
  rfl

section

variable (bounded : heap.Bounded)
include bounded

theorem Bounded.lt_next {address : Nat} {value : Cell} (stored : heap.cell address = some value) :
    address < heap.next := by
  by_contra beyond
  simp [bounded address (by omega)] at stored

theorem Bounded.alloc (value : Cell) : (heap.alloc value).Bounded := by
  intro address beyond
  simp only [next_alloc] at beyond
  rw [cell_alloc, if_neg (by omega)]
  exact bounded address (by omega)

theorem Bounded.free (freed : Nat) : (heap.free freed).Bounded := by
  intro address beyond
  simp [bounded address beyond]

theorem Bounded.modify (modified : Nat) (change : Cell → Cell) :
    (heap.modify modified change).Bounded := by
  intro address beyond
  simp [bounded address beyond]

theorem Bounded.modifyWhere (condition : Nat → Bool) (change : Cell → Cell) :
    (heap.modifyWhere condition change).Bounded := by
  intro address beyond
  simp [bounded address beyond]

end

end Heap

end Uw7.Lib
