import Mathlib.Data.Nat.Bitwise
import Mathlib.Data.Nat.Digits.Defs

/-!
# Numbers in limbs

A number is a list of limbs of `width` bits, the lowest first.  The value is
Mathlib's `Nat.ofDigits`; what is here is what arithmetic on limbs needs of it.
-/

namespace Uw7.Lib.Limbs

open List Nat

def value (width : Nat) (limbs : List Nat) : Nat := ofDigits (2 ^ width) limbs

def Fits (width : Nat) (limbs : List Nat) : Prop := ∀ limb ∈ limbs, limb < 2 ^ width

variable {width : Nat} {limbs : List Nat}

@[simp] theorem value_nil : value width [] = 0 := rfl

@[simp] theorem value_cons (limb : Nat) :
    value width (limb :: limbs) = limb + 2 ^ width * value width limbs :=
  ofDigits_cons

theorem value_append (low high : List Nat) : value width (low ++ high) =
    value width low + 2 ^ (width * low.length) * value width high := by
  unfold value
  rw [ofDigits_append, Nat.pow_mul]

@[simp] theorem value_replicate_zero (count : Nat) : value width (replicate count 0) = 0 :=
  ofDigits_replicate_zero

@[simp] theorem fits_nil : Fits width [] := by
  intro limb member
  cases member

@[simp] theorem fits_cons {limb : Nat} :
    Fits width (limb :: limbs) ↔ limb < 2 ^ width ∧ Fits width limbs :=
  forall_mem_cons

theorem fits_append {low high : List Nat} :
    Fits width (low ++ high) ↔ Fits width low ∧ Fits width high :=
  forall_mem_append

theorem fits_replicate_zero (count : Nat) : Fits width (replicate count 0) := by
  intro limb member
  rw [eq_of_mem_replicate member]
  exact Nat.two_pow_pos width

theorem value_lt (fits : Fits width limbs) : value width limbs < 2 ^ (width * limbs.length) := by
  induction limbs with
  | nil => exact Nat.one_pos
  | cons limb limbs ih =>
    obtain ⟨limbFits, restFits⟩ := fits_cons.1 fits
    have rest := ih restFits
    have next : 2 ^ width * (value width limbs + 1) ≤ 2 ^ width * 2 ^ (width * limbs.length) :=
      Nat.mul_le_mul_left _ rest
    rw [value_cons, length_cons, mul_succ, Nat.add_comm,
      Nat.pow_add, Nat.mul_comm (2 ^ (width * limbs.length))]
    rw [Nat.mul_add, Nat.mul_one] at next
    omega

theorem value_injective {left right : List Nat} (leftFits : Fits width left)
    (rightFits : Fits width right) (length : left.length = right.length)
    (same : value width left = value width right) :
    left = right := by
  induction left generalizing right with
  | nil => exact (length_eq_zero_iff.1 length.symm).symm
  | cons limb left ih =>
    cases right with
    | nil => cases length
    | cons other right =>
      obtain ⟨limbFits, leftFits⟩ := fits_cons.1 leftFits
      obtain ⟨otherFits, rightFits⟩ := fits_cons.1 rightFits
      rw [value_cons, value_cons] at same
      have low := congrArg (· % 2 ^ width) same
      have high := congrArg (· / 2 ^ width) same
      simp only [add_mul_mod_self_left, mod_eq_of_lt limbFits, mod_eq_of_lt otherFits] at low
      simp only [add_mul_div_left _ _ (Nat.two_pow_pos width),
        div_eq_of_lt limbFits, div_eq_of_lt otherFits, Nat.zero_add] at high
      rw [low, ih leftFits rightFits (Nat.succ.inj length) high]

theorem value_eq_zero {limbs : List Nat} : value width limbs = 0 ↔ ∀ limb ∈ limbs, limb = 0 := by
  induction limbs with
  | nil => simp
  | cons limb limbs ih =>
    have power := Nat.two_pow_pos width
    rw [value_cons, Nat.add_eq_zero_iff, Nat.mul_eq_zero, or_iff_right power.ne', ih,
      forall_mem_cons]

theorem value_snoc (top : Nat) : value width (limbs ++ [top]) =
    value width limbs + 2 ^ (width * limbs.length) * top := by
  rw [value_append, value_cons, value_nil, Nat.mul_zero, Nat.add_zero]

theorem top_eq_div (fits : Fits width limbs) (top : Nat) :
    value width (limbs ++ [top]) / 2 ^ (width * limbs.length) = top := by
  rw [value_snoc, add_mul_div_left _ _ (Nat.two_pow_pos _),
    div_eq_of_lt (value_lt fits), Nat.zero_add]

theorem value_mod_top (fits : Fits width limbs) (top bits : Nat) :
    value width (limbs ++ [top % 2 ^ bits]) = value width (limbs ++ [top]) %
      2 ^ (width * limbs.length + bits) := by
  have low := value_lt fits
  rw [value_snoc, value_snoc, Nat.pow_add, mod_mul, add_mul_mod_self_left, mod_eq_of_lt low,
    add_mul_div_left _ _ (Nat.two_pow_pos _), div_eq_of_lt low, Nat.zero_add]

theorem value_drop (fits : Fits width limbs) {count : Nat} (within : count ≤ limbs.length) :
    value width (limbs.drop count) = value width limbs / 2 ^ (width * count) := by
  have takeFits : Fits width (limbs.take count) :=
    fun limb member => fits limb (mem_of_mem_take member)
  have length : (limbs.take count).length = count := length_take_of_le within
  have below := value_lt takeFits
  rw [length] at below
  have parts := @value_append width (limbs.take count) (limbs.drop count)
  rw [take_append_drop, length] at parts
  rw [parts, add_mul_div_left _ _ (Nat.two_pow_pos _), div_eq_of_lt below, Nat.zero_add]

theorem getD_eq (fits : Fits width limbs) (index : Nat) : limbs.getD index 0 =
    value width limbs / 2 ^ (width * index) % 2 ^ width := by
  have power := Nat.two_pow_pos width
  induction limbs generalizing index with
  | nil => simp
  | cons limb limbs ih =>
    obtain ⟨limbFits, restFits⟩ := fits_cons.1 fits
    cases index with
    | zero =>
      rw [getD_cons_zero, Nat.mul_zero, Nat.pow_zero, Nat.div_one,
        value_cons, add_mul_mod_self_left, mod_eq_of_lt limbFits]
    | succ index =>
      rw [getD_cons_succ, ih restFits, value_cons,
        mul_succ, Nat.add_comm (width * index), Nat.pow_add,
        ← Nat.div_div_eq_div_mul, add_mul_div_left _ _ power, div_eq_of_lt limbFits, Nat.zero_add]

theorem value_replicate_ones (count : Nat) :
    value width (replicate count (2 ^ width - 1)) + 1 = 2 ^ (width * count) := by
  induction count with
  | zero => rfl
  | succ count ih =>
    have power := Nat.two_pow_pos width
    rw [replicate_succ, value_cons, mul_succ, Nat.pow_add, Nat.mul_comm (2 ^ (width * count)), ← ih,
      Nat.mul_add]
    omega

theorem value_eq_ones (fits : Fits width limbs) :
    value width limbs + 1 = 2 ^ (width * limbs.length) ↔ ∀ limb ∈ limbs, limb = 2 ^ width - 1 := by
  have ones := @value_replicate_ones width limbs.length
  constructor
  · intro greatest
    have same : limbs = replicate limbs.length (2 ^ width - 1) := by
      refine value_injective fits ?_ length_replicate.symm (by omega)
      intro limb member
      rw [eq_of_mem_replicate member]
      exact sub_lt (Nat.two_pow_pos width) Nat.one_pos
    intro limb member
    rw [same] at member
    exact eq_of_mem_replicate member
  · intro all
    rw [← ones, ← eq_replicate_of_mem all]

theorem and_two_pow_top {number bit : Nat} (below : number < 2 ^ (bit + 1)) :
    number &&& 2 ^ bit = if 2 ^ bit ≤ number then 2 ^ bit else 0 := by
  rw [and_two_pow, testBit_eq_decide_div_mod_eq]
  have power := Nat.two_pow_pos bit
  split
  · have one : number / 2 ^ bit = 1 := by
      rw [Nat.div_eq_iff power]
      omega
    simp [one]
  · have zero : number / 2 ^ bit = 0 := div_eq_of_lt (by omega)
    simp [zero]

theorem xor_low {number bits : Nat} (below : number < 2 ^ bits) :
    number ^^^ (2 ^ bits - 1) = 2 ^ bits - 1 - number := by
  refine eq_of_testBit_eq fun index => ?_
  rw [testBit_xor, testBit_two_pow_sub_one,
    Nat.sub_right_comm, Nat.sub_sub, testBit_two_pow_sub_succ below]
  by_cases inside : index < bits
  · simp [inside]
  · have high : number.testBit index = false := testBit_lt_two_pow
        (below.trans_le (Nat.pow_le_pow_right Nat.two_pos (by omega)))
    simp [inside, high]

theorem value_or {other : List Nat} (same : limbs.length = other.length) (fits : Fits width limbs)
    (otherFits : Fits width other) : Fits width (zipWith (fun d s => d ||| s) limbs other) ∧
      value width (zipWith (fun d s => d ||| s) limbs other) =
        value width limbs ||| value width other := by
  induction limbs generalizing other with
  | nil =>
    cases other with
    | nil => exact ⟨fits_nil, (Nat.or_self 0).symm⟩
    | cons _ _ => cases same
  | cons limb limbs ih =>
    cases other with
    | nil => cases same
    | cons limb' other =>
      obtain ⟨limbFits, restFits⟩ := fits_cons.1 fits
      obtain ⟨limbFits', restFits'⟩ := fits_cons.1 otherFits
      obtain ⟨orFits, isOr⟩ := ih (Nat.succ.inj same) restFits restFits'
      have both := or_lt_two_pow limbFits limbFits'
      simp only [zipWith_cons_cons, value_cons, fits_cons, isOr]
      refine ⟨⟨both, orFits⟩, ?_⟩
      rw [Nat.add_comm limb, Nat.add_comm limb', Nat.add_comm (limb ||| limb'),
        two_pow_add_eq_or_of_lt limbFits, two_pow_add_eq_or_of_lt limbFits',
        two_pow_add_eq_or_of_lt both]
      simp only [Nat.mul_comm (2 ^ width), ← shiftLeft_eq, shiftLeft_or_distrib]
      ac_rfl

def complement (width : Nat) (limbs : List Nat) : List Nat :=
  limbs.map fun limb => limb ^^^ (2 ^ width - 1)

theorem value_complement (fits : Fits width limbs) :
    value width (complement width limbs) + value width limbs + 1 = 2 ^ (width * limbs.length) := by
  induction limbs with
  | nil => rfl
  | cons limb limbs ih =>
    obtain ⟨limbFits, restFits⟩ := fits_cons.1 fits
    have rest := ih restFits
    have weight : 2 ^ (width * (limbs.length + 1)) = 2 ^ width *
        (value width (complement width limbs) + value width limbs + 1) := by
      rw [rest, mul_succ, Nat.pow_add, Nat.mul_comm]
    have flip := xor_low limbFits
    simp only [complement, map_cons, value_cons, length_cons] at weight ⊢
    rw [weight, flip, Nat.mul_add, Nat.mul_add, Nat.mul_one]
    omega

theorem fits_complement (fits : Fits width limbs) : Fits width (complement width limbs) := by
  intro limb member
  obtain ⟨other, isMember, rfl⟩ := mem_map.1 member
  rw [xor_low (fits other isMember)]
  have := fits other isMember
  omega

end Uw7.Lib.Limbs
