import Mathlib.Data.Nat.Bitwise

namespace Uw7.Lib

/-!
# Bitmaps in words of a fixed width

Bit `i` of a bitmap is bit `i % width` of word `i / width`.  The search for a
clear bit skips the words whose bits are all set and then takes the lowest
clear bit of the word that it stops at.
-/

open Function Nat

namespace Bitmap

/-- A bit of a bitmap. -/
def bit (width : Nat) (words : Nat → Nat) (index : Nat) : Bool :=
  (words (index / width)).testBit (index % width)

def setBit (width : Nat) (words : Nat → Nat) (index : Nat) : Nat → Nat :=
  update words (index / width) (words (index / width) ||| 2 ^ (index % width))

def clearWordBit (word position : Nat) : Nat := word ^^^ (word &&& 2 ^ position)

def clearBit (width : Nat) (words : Nat → Nat) (index : Nat) : Nat → Nat :=
  update words (index / width) (clearWordBit (words (index / width)) (index % width))

/-- The lowest clear bit of a word among `count` bits from `position` on. -/
def firstClear (word : Nat) : Nat → Nat → Nat
  | position, 0 => position
  | position, count + 1 =>
    if word.testBit position then
      firstClear word (position + 1) count
    else
      position

/-- The lowest clear bit among `count` words from `start` on. -/
def search (width : Nat) (words : Nat → Nat) : Nat → Nat → Option Nat
  | _, 0 => none
  | start, count + 1 =>
    if words start = 2 ^ width - 1 then
      search width words (start + 1) count
    else
      some (start * width + firstClear (words start) 0 width)

variable {width index : Nat} {words : Nat → Nat}

theorem testBit_clearWordBit (word position other : Nat) :
    (clearWordBit word position).testBit other =
      (word.testBit other && decide (other ≠ position)) := by
  simp only [clearWordBit, testBit_xor, testBit_and, testBit_two_pow]
  by_cases same : position = other
  · subst other
    cases word.testBit position <;> simp
  · simp [same, Ne.symm same]

theorem index_eq_iff {other : Nat} (sameWord : other / width = index / width) :
    other % width = index % width ↔ other = index := by
  constructor
  · intro sameBit
    rw [← div_add_mod other width, ← div_add_mod index width, sameWord, sameBit]
  · rintro rfl
    rfl

theorem bit_setBit (other : Nat) : bit width (setBit width words index) other =
    (bit width words other || decide (other = index)) := by
  unfold bit setBit
  by_cases sameWord : other / width = index / width
  · rw [sameWord, update_self, testBit_or, testBit_two_pow]
    congr 1
    rw [decide_eq_decide, eq_comm]
    exact index_eq_iff sameWord
  · have different : other ≠ index := by
      rintro rfl
      exact sameWord rfl
    simp [sameWord, different]

theorem bit_clearBit (other : Nat) : bit width (clearBit width words index) other =
    (bit width words other && decide (other ≠ index)) := by
  unfold bit clearBit
  by_cases sameWord : other / width = index / width
  · rw [sameWord, update_self, testBit_clearWordBit]
    congr 1
    rw [decide_eq_decide, not_iff_not]
    exact index_eq_iff sameWord
  · have different : other ≠ index := by
      rintro rfl
      exact sameWord rfl
    simp [sameWord, different]

theorem split_index {word position : Nat} (inside : position < width) :
    (word * width + position) / width = word ∧ (word * width + position) % width = position := by
  have positive : 0 < width := by omega
  constructor
  · rw [Nat.mul_comm, mul_add_div positive, div_eq_of_lt inside, add_zero]
  · rw [Nat.mul_comm, mul_add_mod, mod_eq_of_lt inside]

theorem setBit_lt (positive : 0 < width) (bounded : ∀ word, words word < 2 ^ width) (word : Nat) :
    setBit width words index word < 2 ^ width := by
  unfold setBit
  by_cases same : word = index / width
  · rw [same, update_self]
    exact or_lt_two_pow (bounded _) (Nat.pow_lt_pow_right (by decide) (mod_lt _ positive))
  · rw [update_of_ne same]
    exact bounded word

theorem clearBit_lt (bounded : ∀ word, words word < 2 ^ width) (word : Nat) :
    clearBit width words index word < 2 ^ width := by
  unfold clearBit
  by_cases same : word = index / width
  · rw [same, update_self, clearWordBit]
    exact xor_lt_two_pow (bounded _) (and_le_left.trans_lt (bounded _))
  · rw [update_of_ne same]
    exact bounded word

theorem full_iff {word : Nat} (bounded : ∀ word, words word < 2 ^ width) :
    words word = 2 ^ width - 1 ↔ ∀ position, position < width →
      bit width words (word * width + position) = true := by
  constructor
  · intro full position inside
    obtain ⟨isWord, isPosition⟩ := @split_index width word position inside
    rw [bit, isWord, isPosition, full, testBit_two_pow_sub_one]
    exact decide_eq_true inside
  · intro allSet
    refine eq_of_testBit_eq fun position => ?_
    by_cases inside : position < width
    · obtain ⟨isWord, isPosition⟩ := @split_index width word position inside
      have isSet := allSet position inside
      rw [bit, isWord, isPosition] at isSet
      simp [isSet, inside]
    · have small : words word < 2 ^ position := (bounded word).trans_le
          (Nat.pow_le_pow_right (by omega) (by omega))
      simp [inside, testBit_lt_two_pow small]

/-- Set `count` bits from `start` on, one after the other. -/
def setRange (width : Nat) : (Nat → Nat) → Nat → Nat → Nat → Nat
  | words, _, 0 => words
  | words, start, count + 1 => setRange width (setBit width words start) (start + 1) count

/-- Clear `count` bits from `start` on, one after the other. -/
def clearRange (width : Nat) : (Nat → Nat) → Nat → Nat → Nat → Nat
  | words, _, 0 => words
  | words, start, count + 1 => clearRange width (clearBit width words start) (start + 1) count

theorem bit_setRange (start count other : Nat) :
    bit width (setRange width words start count) other = (bit width words other ||
      decide (start ≤ other ∧ other < start + count)) := by
  induction count generalizing words start with
  | zero =>
    have never : ¬ (start ≤ other ∧ other < start + 0) := by omega
    rw [setRange, decide_eq_false never, Bool.or_false]
  | succ count ih =>
    rw [setRange, ih, bit_setBit, Bool.or_assoc]
    congr 1
    rw [Bool.eq_iff_iff]
    simp only [Bool.or_eq_true, decide_eq_true_eq]
    omega

theorem bit_clearRange (start count other : Nat) :
    bit width (clearRange width words start count) other = (bit width words other &&
      !decide (start ≤ other ∧ other < start + count)) := by
  induction count generalizing words start with
  | zero =>
    have never : ¬ (start ≤ other ∧ other < start + 0) := by omega
    rw [clearRange, decide_eq_false never, Bool.not_false, Bool.and_true]
  | succ count ih =>
    rw [clearRange, ih, bit_clearBit, Bool.and_assoc]
    congr 1
    rw [Bool.eq_iff_iff]
    simp only [Bool.and_eq_true, decide_eq_true_eq, Bool.not_eq_true', decide_eq_false_iff_not]
    omega

theorem setRange_lt (positive : 0 < width) (bounded : ∀ word, words word < 2 ^ width)
    (start count word : Nat) :
    setRange width words start count word < 2 ^ width := by
  induction count generalizing words start with
  | zero => exact bounded word
  | succ count ih => exact ih (setBit_lt positive bounded) (start + 1)

theorem clearRange_lt (bounded : ∀ word, words word < 2 ^ width) (start count word : Nat) :
    clearRange width words start count word < 2 ^ width := by
  induction count generalizing words start with
  | zero => exact bounded word
  | succ count ih => exact ih (clearBit_lt bounded) (start + 1)

theorem firstClear_spec (word position count : Nat) : position ≤ firstClear word position count ∧
    firstClear word position count ≤ position + count ∧
    (∀ lower, position ≤ lower → lower < firstClear word position count →
      word.testBit lower = true) ∧
    (firstClear word position count < position + count →
      word.testBit (firstClear word position count) = false) := by
  induction count generalizing position with
  | zero =>
    simp [firstClear]
    omega
  | succ count ih =>
    obtain ⟨above, below, full, clear⟩ := ih (position + 1)
    unfold firstClear
    split_ifs with isSet
    · refine ⟨by omega, by omega, fun lower from_ under => ?_, fun inside => clear (by omega)⟩
      rcases Nat.eq_or_lt_of_le from_ with isFirst | isLater
      · exact isFirst ▸ isSet
      · exact full lower isLater under
    · refine ⟨le_rfl, by omega, fun lower from_ under => by omega, fun _ => by simpa using isSet⟩

theorem firstClear_lt {word : Nat} (bounded : word < 2 ^ width) (notFull : word ≠ 2 ^ width - 1) :
    firstClear word 0 width < width := by
  by_contra reached
  obtain ⟨-, -, full, -⟩ := firstClear_spec word 0 width
  refine notFull (eq_of_testBit_eq fun position => ?_)
  by_cases inside : position < width
  · simp [inside, full position (Nat.zero_le _) (by omega)]
  · have small : word < 2 ^ position :=
      bounded.trans_le (Nat.pow_le_pow_right (by omega) (by omega))
    simp [inside, testBit_lt_two_pow small]

theorem bit_of_full (positive : 0 < width) (full : words (index / width) = 2 ^ width - 1) :
    bit width words index = true := by
  rw [bit, full, testBit_two_pow_sub_one]
  exact decide_eq_true (mod_lt _ positive)

theorem search_some {start count found : Nat} (positive : 0 < width)
    (bounded : ∀ word, words word < 2 ^ width)
    (result : search width words start count = some found) :
    start * width ≤ found ∧ found < (start + count) * width ∧ bit width words found = false ∧
      ∀ lower, start * width ≤ lower → lower < found → bit width words lower = true := by
  induction count generalizing start with
  | zero => simp [search] at result
  | succ count ih =>
    unfold search at result
    have wordEnd : (start + 1) * width = start * width + width := succ_mul start width
    split_ifs at result with full
    · obtain ⟨above, below, clear, before⟩ := ih result
      have sameEnd : start + 1 + count = start + (count + 1) := by omega
      rw [sameEnd] at below
      refine ⟨by omega, below, clear, fun lower from_ under => ?_⟩
      by_cases inWord : lower < (start + 1) * width
      · have isStart : lower / width = start := Nat.div_eq_of_lt_le from_ inWord
        exact bit_of_full positive (isStart.symm ▸ full)
      · exact before lower (by omega) under
    · obtain rfl := Option.some.inj result
      have inside := firstClear_lt (bounded start) full
      obtain ⟨-, -, set_, clear⟩ := firstClear_spec (words start) 0 width
      have withinAll : (start + 1) * width ≤ (start + (count + 1)) * width :=
        Nat.mul_le_mul_right _ (by omega)
      refine ⟨by omega, by omega, ?_, fun lower from_ under => ?_⟩
      · obtain ⟨word, position⟩ := @split_index width start _ inside
        rw [bit, word, position]
        exact clear (by omega)
      · have isStart : lower / width = start := Nat.div_eq_of_lt_le from_ (by omega)
        have recompose := div_add_mod lower width
        rw [isStart, Nat.mul_comm] at recompose
        rw [bit, isStart]
        exact set_ _ (Nat.zero_le _) (by omega)

theorem search_none {start count : Nat} (positive : 0 < width)
    (result : search width words start count = none) :
    ∀ index, start * width ≤ index → index < (start + count) * width →
      bit width words index = true := by
  induction count generalizing start with
  | zero =>
    intro index from_ under
    rw [add_zero] at under
    omega
  | succ count ih =>
    intro index from_ under
    unfold search at result
    split_ifs at result with full
    by_cases inWord : index < (start + 1) * width
    · have isStart : index / width = start := Nat.div_eq_of_lt_le from_ inWord
      exact bit_of_full positive (isStart.symm ▸ full)
    · have sameEnd : start + 1 + count = start + (count + 1) := by
        omega
      exact ih result index (by omega) (sameEnd ▸ under)

end Bitmap

end Uw7.Lib
