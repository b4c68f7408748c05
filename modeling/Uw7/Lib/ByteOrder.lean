import Uw7.Lib.ByteMemory

namespace Uw7.Lib

/-!
# Numbers in either byte order

A number is read from a range of bytes, and written to one, in either order.  A list of
moves reads numbers in one order and writes them in another.  When no move writes where
another one reads or writes, each number that is read is the one before all moves, also
if a move writes where it reads itself.
-/

open List

/-- The order of the bytes of a number: the least or the most significant one first. -/
inductive ByteOrder where
  | lsb
  | msb
  deriving DecidableEq

namespace ByteOrder

variable {order : ByteOrder} {memory : ByteMemory}

/-- The offset of the byte with a significance, and the significance of the byte at an
offset. -/
def place (order : ByteOrder) (width index : Nat) : Nat :=
  match order with
  | .lsb => index
  | .msb => width - 1 - index

variable {width index leftAddress rightAddress : Nat} {left right : ByteMemory}

theorem place_lt (within : index < width) : order.place width index < width := by
  cases order with
  | lsb => exact within
  | msb =>
    simp only [place]
    omega

theorem place_place (within : index < width) :
    order.place width (order.place width index) = index := by
  cases order with
  | lsb => rfl
  | msb =>
    simp only [place]
    omega

/-- The number in a range of bytes. -/
def readInt (order : ByteOrder) (memory : ByteMemory) (address width : Nat) : Nat :=
  ByteMemory.readLe (fun index => memory (address + order.place width index)) 0 width

/-- Store the low bytes of a number in a range. -/
def writeInt (order : ByteOrder) (memory : ByteMemory) (address value width : Nat) : ByteMemory :=
  ByteMemory.store memory address width fun offset =>
    Fin.ofNat 256 (value / 256 ^ order.place width offset)

theorem readLe_digits (value start width : Nat) :
    ByteMemory.readLe (fun index => Fin.ofNat 256 (value / 256 ^ index)) start width =
      value / 256 ^ start % 256 ^ width := by
  induction width generalizing start with
  | zero => simp [ByteMemory.readLe, Nat.mod_one]
  | succ width ih =>
    rw [ByteMemory.readLe, ih, Nat.pow_succ, Nat.pow_succ, ← Nat.div_div_eq_div_mul,
      Nat.mul_comm (256 ^ width), Nat.mod_mul]
    rfl

theorem readLe_injective {leftStart rightStart : Nat}
    (same : ByteMemory.readLe left leftStart width = ByteMemory.readLe right rightStart width)
    (index : Nat) (within : index < width) :
    left (leftStart + index) = right (rightStart + index) := by
  induction width generalizing leftStart rightStart index with
  | zero => exact absurd within (Nat.not_lt_zero index)
  | succ width ih =>
    simp only [ByteMemory.readLe] at same
    cases index with
    | zero =>
      refine Fin.ext ?_
      simp only [Nat.add_zero]
      omega
    | succ index =>
      have inRest := @ih (leftStart + 1) (rightStart + 1) (by omega) index (by omega)
      rwa [Nat.add_assoc, Nat.add_assoc, Nat.add_comm 1] at inRest

theorem readInt_lt (order : ByteOrder) (memory : ByteMemory) (address width : Nat) :
    order.readInt memory address width < 256 ^ width :=
  ByteMemory.readLe_lt 0 width

theorem readInt_congr
    (same : ∀ offset, offset < width → left (leftAddress + offset) = right (rightAddress + offset))
    : order.readInt left leftAddress width = order.readInt right rightAddress width := by
  refine ByteMemory.readLe_congr ?_
  intro index _ below
  exact same _ (place_lt (by omega))

theorem bytes_of_readInt
    (same : order.readInt left leftAddress width = order.readInt right rightAddress width)
    (offset : Nat) (within : offset < width) :
    left (leftAddress + offset) = right (rightAddress + offset) := by
  have bytes := readLe_injective same (order.place width offset) (place_lt within)
  simp only [Nat.zero_add, place_place within] at bytes
  exact bytes

theorem writeInt_outside {address value target : Nat}
    (outside : target < address ∨ address + width ≤ target) :
    order.writeInt memory address value width target = memory target :=
  ByteMemory.store_outside _ outside

theorem readInt_writeInt {address value width : Nat} (fits : value < 256 ^ width) :
    order.readInt (order.writeInt memory address value width) address width =
      value := by
  have digits : order.readInt (order.writeInt memory address value width) address width =
      ByteMemory.readLe (fun index => Fin.ofNat 256 (value / 256 ^ index)) 0 width := by
    refine ByteMemory.readLe_congr ?_
    intro index _ below
    have within : index < width := by omega
    simp only [writeInt]
    rw [ByteMemory.store_inside _ (place_lt within), place_place within]
  rw [digits, readLe_digits, Nat.pow_zero, Nat.div_one, Nat.mod_eq_of_lt fits]

theorem writeInt_readInt (order : ByteOrder) (memory : ByteMemory) (target source width : Nat) :
    order.writeInt memory target (order.readInt memory source width) width =
      memory.store target width (memory.view source) := by
  funext address
  by_cases inside : target ≤ address ∧ address < target + width
  · obtain ⟨offset, within, rfl⟩ : ∃ offset, offset < width ∧ address = target + offset :=
      ⟨address - target, by omega, by omega⟩
    have same := bytes_of_readInt (@readInt_writeInt order memory target
        (order.readInt memory source width) width (readInt_lt order memory source width))
        offset within
    rw [same, ByteMemory.store_inside _ within]
    rfl
  · rw [writeInt_outside (by omega), ByteMemory.store_outside _ (by omega)]

end ByteOrder

/-- A number that is read in one order and written in another. -/
structure Move where
  source : Nat
  target : Nat
  width : Nat
  readOrder : ByteOrder
  writeOrder : ByteOrder

/-- No byte is in both ranges. -/
def RangesApart (start length otherStart otherLength : Nat) : Prop :=
  start + length ≤ otherStart ∨ otherStart + otherLength ≤ start

instance (start length otherStart otherLength : Nat) :
    Decidable (RangesApart start length otherStart otherLength) :=
  inferInstanceAs (Decidable (_ ∨ _))

namespace Move

/-- The number is read before it is written. -/
def perform (memory : ByteMemory) (move : Move) : ByteMemory :=
  move.writeOrder.writeInt memory move.target
    (move.readOrder.readInt memory move.source move.width) move.width

/-- Neither move writes where the other one reads or writes. -/
structure Independent (first second : Move) : Prop where
  targets : RangesApart first.target first.width second.target second.width
  keeps : RangesApart first.target first.width second.source second.width
  kept : RangesApart second.target second.width first.source first.width

variable {moves : List Move} {memory : ByteMemory}

theorem performAll_outside {address : Nat} (outside : ∀ move ∈ moves,
    address < move.target ∨ move.target + move.width ≤ address) :
    moves.foldl perform memory address = memory address := by
  induction moves generalizing memory with
  | nil => rfl
  | cons head rest ih =>
    rw [foldl_cons, ih fun move inRest => outside move (mem_cons_of_mem head inRest)]
    exact ByteOrder.writeInt_outside (outside head mem_cons_self)

/-- **Independent moves** write the numbers that were there before all of them. -/
theorem readInt_performAll (independent : moves.Pairwise Independent) {move : Move}
    (member : move ∈ moves) :
    move.writeOrder.readInt (moves.foldl perform memory) move.target move.width =
      move.readOrder.readInt memory move.source move.width := by
  induction moves generalizing memory with
  | nil => exact absurd member not_mem_nil
  | cons head rest ih =>
    obtain ⟨headIndependent, restIndependent⟩ := pairwise_cons.mp independent
    rw [foldl_cons]
    rcases mem_cons.mp member with isHead | inRest
    · subst isHead
      -- the rest leaves the target of the head alone
      have kept : move.writeOrder.readInt (rest.foldl perform (perform memory move)) move.target
          move.width = move.writeOrder.readInt (perform memory move) move.target move.width := by
        refine ByteOrder.readInt_congr ?_
        intro offset within
        refine performAll_outside ?_
        intro other inRest
        have apart := (headIndependent other inRest).targets
        unfold RangesApart at apart
        omega
      rw [kept]
      exact ByteOrder.readInt_writeInt (ByteOrder.readInt_lt _ _ _ _)
    · rw [ih restIndependent inRest]
      refine ByteOrder.readInt_congr ?_
      intro offset within
      have apart := (headIndependent move inRest).keeps
      unfold RangesApart at apart
      exact ByteOrder.writeInt_outside (by omega)

end Move

end Uw7.Lib
