import Mathlib.Algebra.Order.Ring.Nat
import Uw7.Lib.Bitmap
import Uw7.Lib.FirstFit

namespace Uw7.Util

/-!
# Bit arrays

`BITMASK1_FFS`, `BITMASK1_FFC`, `BITMASKN_FFC`, `BITMASKN_ALLOCRANGE` and
`BITMASKN_FREERANGE` from `util/bitmasks.c`, with the single-bit operations of
`util/bitmasks.h`.  Bit numbers are of type `int` and, as the header says, never
negative: they are natural numbers, and -1 stands only for no bit.
-/

open Lib

def nbitpw : Nat := 32

def bitmaskNwords (nbits : Nat) : Nat := (nbits + nbitpw - 1) / nbitpw

/-- A bit array, a vector of `uint_t`. -/
structure BitArray where
  words : Nat → Nat
  bounded : ∀ word, words word < 2 ^ nbitpw

def BitArray.test1 (bits : BitArray) (bitno : Nat) : Bool := Bitmap.bit nbitpw bits.words bitno

def BitArray.set1 (bits : BitArray) (bitno : Nat) : BitArray where
  words := Bitmap.setBit nbitpw bits.words bitno
  bounded := Bitmap.setBit_lt (by decide) bits.bounded

def BitArray.clr1 (bits : BitArray) (bitno : Nat) : BitArray where
  words := Bitmap.clearBit nbitpw bits.words bitno
  bounded := Bitmap.clearBit_lt bits.bounded

@[simp]
theorem BitArray.test1_set1 (bits : BitArray) (bitno other : Nat) : (bits.set1 bitno).test1 other =
    (bits.test1 other || decide (other = bitno)) :=
  Bitmap.bit_setBit other

@[simp]
theorem BitArray.test1_clr1 (bits : BitArray) (bitno other : Nat) : (bits.clr1 bitno).test1 other =
    (bits.test1 other && decide (other ≠ bitno)) :=
  Bitmap.bit_clearBit other

/--
The binary search of `BITMASK1_FFS`, `levels` levels above a single bit.  It tests the
lower half of the bits from `low` on and goes on in that half or in the other one.
-/
def ffsBelow (word : Nat) : Nat → Nat → Nat
  | low, 0 => low
  | low, levels + 1 =>
    if word &&& ((2 ^ 2 ^ levels - 1) <<< low) ≠ 0 then
      ffsBelow word low levels
    else
      ffsBelow word (low + 2 ^ levels) levels

def bitmask1Ffs (word : Nat) : Int :=
  if word = 0 then -1 else ffsBelow word 0 5

def bitmask1Ffc (word : Nat) : Int := bitmask1Ffs (2 ^ nbitpw - 1 - word)

/-- The loop of `BITMASKN_FFC` at the word `i`, `count` words to go. -/
def bitmasknFfcFrom (bits : BitArray) : Nat → Nat → Int
  | _, 0 => -1
  | i, count + 1 =>
    if bits.words i = 2 ^ nbitpw - 1 then
      bitmasknFfcFrom bits (i + 1) count
    else
      let n := bitmask1Ffc (bits.words i)
      if n = -1 then -1 else i * nbitpw + n

/-- `BITMASKN_FFC`; `n` is not zero. -/
def bitmasknFfc (bits : BitArray) (n : Nat) : Int := bitmasknFfcFrom bits 0 n

/--
The first inner loop of `BITMASKN_ALLOCRANGE`, `count` bits before `end_bit`: a set bit
past `bitno` and before `end_bit`.
-/
def seekSet (bits : BitArray) : Nat → Nat → Option Nat
  | _, 0 => none
  | _, 1 => none
  | bitno, count + 2 =>
    if bits.test1 (bitno + 1) then some (bitno + 1)
    else seekSet bits (bitno + 1) (count + 1)

/--
The second inner loop, `count` bits before the last bit where a run can begin: a clear
bit past `bitno`.
-/
def seekClear (bits : BitArray) : Nat → Nat → Option Nat
  | _, 0 => none
  | bitno, count + 1 =>
    if bits.test1 (bitno + 1) then seekClear bits (bitno + 1) count
    else some (bitno + 1)

/-- The outer loop at `first_bit`, with `fuel` rounds at most. -/
def seekRun (bits : BitArray) (totalbits nbits : Nat) : Nat → Nat → Option Nat
  | 0, _ => none
  | fuel + 1, firstBit =>
    match seekSet bits firstBit nbits with
    | none => some firstBit
    | some bitno =>
      match seekClear bits bitno (totalbits - nbits - bitno) with
      | none => none
      | some next => seekRun bits totalbits nbits fuel next

/-- The loop that sets `count` bits from `first_bit` on, the last one first. -/
def setDown (firstBit : Nat) : Nat → BitArray → BitArray
  | 0, bits => bits
  | count + 1, bits => setDown firstBit count (bits.set1 (firstBit + count))

def bitmasknAllocrange (bits : BitArray) (totalbits nbits : Nat) : Int × BitArray :=
  let firstBit := bitmasknFfc bits (bitmaskNwords totalbits)
  if firstBit = -1 ∨ firstBit > totalbits - nbits then
    (-1, bits)
  else
    match seekRun bits totalbits nbits totalbits firstBit.toNat with
    | none => (-1, bits)
    | some found => (found, setDown found nbits bits)

def bitmasknFreerange : BitArray → Nat → Nat → BitArray
  | bits, _, 0 => bits
  | bits, bitno, nbits + 1 => bitmasknFreerange (bits.clr1 bitno) (bitno + 1) nbits

end Uw7.Util

namespace Uw7.Util

/-!
# Allocation of ranges of bits

`BITMASKN_ALLOCRANGE` takes the first run of clear bits that is long enough.  The binary
search for a set bit finds the lowest one, and each round of the outer loop leaves out
only starts whose run has a set bit.
-/

open Lib

theorem and_mask_eq_zero (word low size : Nat) : word &&& ((2 ^ size - 1) <<< low) = 0 ↔
    ∀ offset, offset < size → word.testBit (low + offset) = false := by
  constructor
  · intro nothing offset inside
    have isClear := congrArg (fun value => Nat.testBit value (low + offset)) nothing
    simpa [Nat.testBit_and, Nat.testBit_shiftLeft, inside] using isClear
  · intro clear
    refine Nat.eq_of_testBit_eq fun position => ?_
    rw [Nat.testBit_and, Nat.testBit_shiftLeft, Nat.testBit_two_pow_sub_one, Nat.zero_testBit]
    by_cases inside : low ≤ position ∧ position - low < size
    · have isClear := clear (position - low) inside.2
      rw [Nat.add_sub_cancel' inside.1] at isClear
      rw [isClear, Bool.false_and]
    · have outside : (decide (low ≤ position) && decide (position - low < size)) =
            false := by
        rw [← Bool.decide_and, decide_eq_false_iff_not]
        exact inside
      rw [outside, Bool.and_false]

theorem ffsBelow_spec (word low levels : Nat) (some' : ∃ offset, offset < 2 ^ levels ∧
    word.testBit (low + offset) = true) :
    low ≤ ffsBelow word low levels ∧ ffsBelow word low levels < low + 2 ^ levels ∧
      word.testBit (ffsBelow word low levels) = true ∧
      ∀ lower, low ≤ lower → lower < ffsBelow word low levels → word.testBit lower = false := by
  induction levels generalizing low with
  | zero =>
    obtain ⟨offset, inside, isSet⟩ := some'
    rw [Nat.pow_zero, Nat.lt_one_iff] at inside
    subst inside
    exact ⟨le_refl low, by simp [ffsBelow], isSet,
      fun lower above below => absurd below (not_lt.2 above)⟩
  | succ levels ih =>
    unfold ffsBelow
    split
    · rename_i inLower
      have lowerHalf : ∃ offset, offset < 2 ^ levels ∧ word.testBit (low + offset) = true := by
        by_contra clear
        refine inLower ((and_mask_eq_zero word low _).2 ?_)
        intro offset inside
        rw [← Bool.not_eq_true]
        exact fun isSet => clear ⟨offset, inside, isSet⟩
      obtain ⟨above, below, isSet, lowest⟩ := ih low lowerHalf
      exact ⟨above, by omega, isSet, lowest⟩
    · rename_i notInLower
      have clear := (and_mask_eq_zero word low _).1 (not_not.1 notInLower)
      have upperHalf : ∃ offset, offset < 2 ^ levels ∧
          word.testBit (low + 2 ^ levels + offset) = true := by
        obtain ⟨offset, inside, isSet⟩ := some'
        have inUpper : 2 ^ levels ≤ offset := by
          by_contra inLower
          rw [clear offset (by omega)] at isSet
          cases isSet
        refine ⟨offset - 2 ^ levels, by omega, ?_⟩
        rwa [Nat.add_assoc, Nat.add_sub_cancel' inUpper]
      obtain ⟨above, below, isSet, lowest⟩ := ih (low + 2 ^ levels) upperHalf
      refine ⟨by omega, by omega, isSet, fun lower from_ under => ?_⟩
      by_cases inLower : lower < low + 2 ^ levels
      · have isClear := clear (lower - low) (by omega)
        rwa [Nat.add_sub_cancel' from_] at isClear
      · exact lowest lower (by omega) under

theorem bitmask1Ffc_eq {word : Nat} (bounded : word < 2 ^ nbitpw)
    (notFull : word ≠ 2 ^ nbitpw - 1) :
    bitmask1Ffc word = (Bitmap.firstClear word 0 nbitpw : Nat) := by
  have inside := Bitmap.firstClear_lt bounded notFull
  obtain ⟨_, _, before, clear⟩ := Bitmap.firstClear_spec word 0 nbitpw
  have complement : ∀ position, position < nbitpw → (2 ^ nbitpw - 1 - word).testBit position =
      !word.testBit position := by
    intro position isBit
    rw [Nat.sub_sub, Nat.add_comm 1 word,
      Nat.testBit_two_pow_sub_succ bounded, decide_eq_true isBit,
      Bool.true_and]
  have isClear := clear (by omega)
  generalize Bitmap.firstClear word 0 nbitpw = first at *
  have someSet : ∃ offset, offset < 2 ^ 5 ∧
      (2 ^ nbitpw - 1 - word).testBit (0 + offset) = true := by
    refine ⟨first, inside, ?_⟩
    rw [Nat.zero_add, complement first inside, isClear]
    rfl
  obtain ⟨_, below, isSet, lowest⟩ := ffsBelow_spec (2 ^ nbitpw - 1 - word) 0 5 someSet
  rw [bitmask1Ffc, bitmask1Ffs, if_neg (by omega)]
  generalize ffsBelow (2 ^ nbitpw - 1 - word) 0 5 = found at *
  have notBefore : ¬ found < first := by
    intro earlier
    rw [complement found (by omega), before found (by omega) earlier] at isSet
    cases isSet
  have notAfter : ¬ first < found := by
    intro later
    have contradiction := lowest first (Nat.zero_le first) later
    rw [complement first inside, isClear] at contradiction
    cases contradiction
  have same : found = first := by omega
  rw [same]

theorem bitmasknFfcFrom_eq (bits : BitArray) (i count : Nat) : bitmasknFfcFrom bits i count =
    match Bitmap.search nbitpw bits.words i count with
    | none => -1
    | some found => (found : Int) := by
  induction count generalizing i with
  | zero => rfl
  | succ count ih =>
    unfold bitmasknFfcFrom Bitmap.search
    by_cases full : bits.words i = 2 ^ nbitpw - 1
    · rw [if_pos full, if_pos full]
      exact ih (i + 1)
    · rw [if_neg full, if_neg full, bitmask1Ffc_eq (bits.bounded i) full]
      rfl

variable {bits : BitArray} {bitno count found totalbits nbits start : Nat}

theorem seekSet_none (nothing : seekSet bits bitno count = none) :
    ∀ place, bitno < place → place < bitno + count → bits.test1 place = false := by
  induction bitno, count using seekSet.induct bits with
  | case1 bitno | case2 bitno =>
    intro place above below
    omega
  | case3 bitno count isSet => simp [seekSet, isSet] at nothing
  | case4 bitno count notSet ih =>
    intro place above below
    rw [seekSet, if_neg notSet] at nothing
    by_cases next : place = bitno + 1
    · subst place
      simpa using notSet
    · exact ih nothing place (by omega) (by omega)

theorem seekSet_some (result : seekSet bits bitno count = some found) :
    bitno < found ∧ found < bitno + count ∧ bits.test1 found = true := by
  induction bitno, count using seekSet.induct bits with
  | case1 bitno => cases result
  | case2 bitno => cases result
  | case3 bitno count isSet =>
    rw [seekSet, if_pos isSet] at result
    obtain rfl := Option.some.inj result
    exact ⟨by omega, by omega, isSet⟩
  | case4 bitno count notSet ih =>
    rw [seekSet, if_neg notSet] at result
    obtain ⟨above, below, isSet⟩ := ih result
    exact ⟨by omega, by omega, isSet⟩

theorem seekClear_none (nothing : seekClear bits bitno count = none) :
    ∀ place, bitno < place → place ≤ bitno + count → bits.test1 place = true := by
  induction bitno, count using seekClear.induct bits with
  | case1 bitno =>
    intro place above below
    omega
  | case2 bitno count isSet ih =>
    intro place above below
    rw [seekClear, if_pos isSet] at nothing
    by_cases next : place = bitno + 1
    · subst place
      exact isSet
    · exact ih nothing place (by omega) (by omega)
  | case3 bitno count notSet => simp [seekClear, notSet] at nothing

theorem seekClear_some (result : seekClear bits bitno count = some found) :
    bitno < found ∧ found ≤ bitno + count ∧ bits.test1 found = false ∧
      ∀ place, bitno < place → place < found → bits.test1 place = true := by
  induction bitno, count using seekClear.induct bits with
  | case1 bitno => cases result
  | case2 bitno count isSet ih =>
    rw [seekClear, if_pos isSet] at result
    obtain ⟨above, below, isClear, before⟩ := ih result
    refine ⟨by omega, by omega, isClear, fun place after under => ?_⟩
    by_cases next : place = bitno + 1
    · subst place
      exact isSet
    · exact before place (by omega) under
  | case3 bitno count notSet =>
    rw [seekClear, if_neg notSet] at result
    obtain rfl := Option.some.inj result
    exact ⟨by omega, by omega, by simpa using notSet, fun place after under => by omega⟩

theorem seekRun_spec {fuel firstBit : Nat} (positive : 0 < nbits)
    (inside : firstBit + nbits ≤ totalbits) (enough : totalbits < firstBit + nbits + fuel)
    (isClear : bits.test1 firstBit = false) (before : FirstFit.NoneBefore bits.test1 nbits firstBit)
    :
    (∀ found, seekRun bits totalbits nbits fuel firstBit = some found →
      found + nbits ≤ totalbits ∧ FirstFit.Fits bits.test1 nbits found ∧
        FirstFit.NoneBefore bits.test1 nbits found) ∧
    (seekRun bits totalbits nbits fuel firstBit = none →
      FirstFit.NoneBefore bits.test1 nbits (totalbits - nbits + 1)) := by
  induction fuel generalizing firstBit with
  | zero => omega
  | succ fuel ih =>
    unfold seekRun
    cases setBit : seekSet bits firstBit nbits with
    | none =>
      have rest := seekSet_none setBit
      refine ⟨fun found isFound => ?_, fun impossible => ?_⟩
      · obtain rfl := Option.some.inj isFound
        refine ⟨inside, fun offset within => ?_, before⟩
        cases offset with
        | zero => exact isClear
        | succ offset => exact rest (firstBit + (offset + 1)) (by omega) (by omega)
      · cases impossible
    | some bitno =>
      obtain ⟨above, below, isSet⟩ := seekSet_some setBit
      have skipped := before.skip below isSet
      simp only
      cases clearBit : seekClear bits bitno (totalbits - nbits - bitno) with
      | none =>
        have allSet := seekClear_none clearBit
        refine ⟨fun found impossible => ?_, fun _ => ?_⟩
        · cases impossible
        · by_cases past : bitno ≤ totalbits - nbits
          · exact skipped.skipBusy positive fun place from_ under =>
              allSet place (by omega) (by omega)
          · intro earlier early
            exact skipped earlier (by omega)
      | some next =>
        obtain ⟨later, within, nextClear, allSet⟩ := seekClear_some clearBit
        refine ih (by omega) (by omega) nextClear ?_
        exact skipped.skipBusy positive fun place from_ under => allSet place (by omega) under

@[simp]
theorem test1_setDown (firstBit count : Nat) (bits : BitArray) (other : Nat) :
    (setDown firstBit count bits).test1 other = (bits.test1 other ||
        decide (firstBit ≤ other ∧ other < firstBit + count)) := by
  induction count generalizing bits with
  | zero =>
    have never : ¬ (firstBit ≤ other ∧ other < firstBit + 0) := by omega
    rw [setDown, decide_eq_false never, Bool.or_false]
  | succ count ih =>
    rw [setDown, ih, BitArray.test1_set1, Bool.or_assoc]
    congr 1
    rw [Bool.eq_iff_iff]
    simp only [Bool.or_eq_true, decide_eq_true_eq]
    omega

@[simp]
theorem test1_bitmasknFreerange (bits : BitArray) (bitno nbits other : Nat) :
    (bitmasknFreerange bits bitno nbits).test1 other = (bits.test1 other &&
        !decide (bitno ≤ other ∧ other < bitno + nbits)) := by
  induction nbits generalizing bits bitno with
  | zero =>
    have never : ¬ (bitno ≤ other ∧ other < bitno + 0) := by omega
    rw [bitmasknFreerange, decide_eq_false never, Bool.not_false, Bool.and_true]
  | succ nbits ih =>
    rw [bitmasknFreerange, ih, BitArray.test1_clr1, Bool.and_assoc]
    congr 1
    rw [Bool.eq_iff_iff]
    simp only [Bool.and_eq_true, decide_eq_true_eq, Bool.not_eq_true', decide_eq_false_iff_not]
    omega

theorem BitArray.ext_test1 {bits' : BitArray} (same : ∀ bitno, bits.test1 bitno = bits'.test1 bitno)
    :
    bits = bits' := by
  obtain ⟨words, bounded⟩ := bits
  obtain ⟨words', bounded'⟩ := bits'
  have sameWords : words = words' := by
    refine funext fun word => Nat.eq_of_testBit_eq fun position => ?_
    by_cases inside : position < nbitpw
    · have sameBit := same (word * nbitpw + position)
      obtain ⟨isWord, isPosition⟩ := @Bitmap.split_index nbitpw word position inside
      simpa [BitArray.test1, Bitmap.bit, isWord, isPosition] using sameBit
    · have small : ∀ value, value < 2 ^ nbitpw → value.testBit position = false := fun value less =>
          Nat.testBit_lt_two_pow (less.trans_le (Nat.pow_le_pow_right (by decide) (by omega)))
      rw [small _ (bounded word), small _ (bounded' word)]
  subst sameWords
  rfl

/-- A range was allocated: the first one that fits, and nothing else was set. -/
structure Allocated (bits after : BitArray) (totalbits nbits start : Nat) : Prop where
  inside : start + nbits ≤ totalbits
  wasClear : ∀ bitno, start ≤ bitno → bitno < start + nbits → bits.test1 bitno = false
  first : ∀ earlier, earlier < start → ∃ bitno, earlier ≤ bitno ∧ bitno < earlier + nbits ∧
      bits.test1 bitno = true
  nowSet : ∀ bitno, after.test1 bitno = (bits.test1 bitno ||
      decide (start ≤ bitno ∧ bitno < start + nbits))
  restored : bitmasknFreerange after start nbits = bits

/-- No range of the length is clear. -/
def NoRange (bits : BitArray) (totalbits nbits : Nat) : Prop := ∀ start, start + nbits ≤ totalbits →
    ∃ bitno, start ≤ bitno ∧ bitno < start + nbits ∧ bits.test1 bitno = true

theorem exists_set_of_not_fits (notFits : ¬ FirstFit.Fits bits.test1 nbits start) :
    ∃ bitno, start ≤ bitno ∧ bitno < start + nbits ∧ bits.test1 bitno = true := by
  by_contra none'
  refine notFits fun offset within => ?_
  rw [← Bool.not_eq_true]
  exact fun isSet => none' ⟨start + offset, by omega, by omega, isSet⟩

theorem allocated_setDown (inside : start + nbits ≤ totalbits)
    (fits : FirstFit.Fits bits.test1 nbits start)
    (before : FirstFit.NoneBefore bits.test1 nbits start) :
    Allocated bits (setDown start nbits bits) totalbits nbits start := by
  have wasClear : ∀ bitno, start ≤ bitno → bitno < start + nbits → bits.test1 bitno = false := by
    intro bitno above below
    have clear := fits (bitno - start) (by omega)
    rwa [Nat.add_sub_cancel' above] at clear
  refine
    { inside := inside
      wasClear := wasClear
      first := fun earlier early => exists_set_of_not_fits (before earlier early)
      nowSet := fun bitno => test1_setDown start nbits bits bitno
      restored := BitArray.ext_test1 fun bitno => ?_ }
  rw [test1_bitmasknFreerange, test1_setDown]
  by_cases within : start ≤ bitno ∧ bitno < start + nbits
  · rw [wasClear bitno within.1 within.2, decide_eq_true within]
    rfl
  · rw [decide_eq_false within, Bool.or_false, Bool.not_false, Bool.and_true]

/--
**`BITMASKN_ALLOCRANGE`** takes the first clear range of the length, and refuses only when
there is none.
-/
theorem bitmasknAllocrange_firstFit (bits : BitArray) (totalbits nbits : Nat) (positive : 1 ≤ nbits)
    (fits : nbits ≤ totalbits) :
    (∃ start : Nat, (bitmasknAllocrange bits totalbits nbits).1 = start ∧
        Allocated bits (bitmasknAllocrange bits totalbits nbits).2 totalbits nbits start) ∨
      bitmasknAllocrange bits totalbits nbits = (-1, bits) ∧ NoRange bits totalbits nbits := by
  have words : totalbits ≤ bitmaskNwords totalbits * nbitpw := by
    simp only [bitmaskNwords, nbitpw]
    omega
  have noneLeft : FirstFit.NoneBefore bits.test1 nbits (totalbits - nbits + 1) →
      NoRange bits totalbits nbits :=
    fun none' start inside => exists_set_of_not_fits (none' start (by omega))
  unfold bitmasknAllocrange bitmasknFfc
  rw [bitmasknFfcFrom_eq]
  cases searched : Bitmap.search nbitpw bits.words 0 (bitmaskNwords totalbits) with
  | none =>
    refine .inr ⟨by simp, fun start inside => ?_⟩
    exact ⟨start, le_refl start, by omega, Bitmap.search_none (by decide) searched start (by omega)
        (by rw [Nat.zero_add]; omega)⟩
  | some firstBit =>
    obtain ⟨_, _, isClear, allSet⟩ := Bitmap.search_some (by decide) bits.bounded searched
    have before : FirstFit.NoneBefore bits.test1 nbits firstBit :=
      FirstFit.noneBefore_zero.skipBusy positive fun place _ under => allSet place (by omega) under
    simp only
    by_cases late : firstBit + nbits ≤ totalbits
    · rw [if_neg (by omega), Int.toNat_natCast]
      obtain ⟨found, refused⟩ := seekRun_spec positive late (by omega : totalbits <
          firstBit + nbits + totalbits) isClear before
      cases sought : seekRun bits totalbits nbits totalbits firstBit with
      | none => exact .inr ⟨rfl, noneLeft (refused sought)⟩
      | some start =>
        obtain ⟨inside, fitting, first⟩ := found start sought
        exact .inl ⟨start, rfl, allocated_setDown inside fitting first⟩
    · rw [if_pos (by omega)]
      refine .inr ⟨rfl, noneLeft ?_⟩
      intro earlier early
      exact before earlier (by omega)

def sampleBits : BitArray := (((⟨fun _ => 0, fun _ => by decide⟩ : BitArray).set1 0).set1 1).set1 33

theorem bitmasknAllocrange_firstFit_sample :
    Allocated sampleBits (bitmasknAllocrange sampleBits 70 35).2 70 35
      34 := by
  have result : (bitmasknAllocrange sampleBits 70 35).1 = 34 := by decide +kernel
  rcases bitmasknAllocrange_firstFit sampleBits 70 35 (by decide) (by decide) with
    ⟨start, isStart, allocated⟩ | ⟨refused, _⟩
  · have same : start = 34 := by omega
    rwa [same] at allocated
  · rw [refused] at result
    exact absurd result (by decide)

end Uw7.Util
