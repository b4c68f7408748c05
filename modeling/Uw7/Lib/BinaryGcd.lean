import Mathlib.Algebra.Order.Ring.Nat
import Mathlib.Data.Nat.GCD.Basic
import Mathlib.Data.Nat.Prime.Basic

/-!
# The binary greatest common divisor

Factors of two of one number do not matter to its common divisors with an odd
number, and neither does subtracting the smaller from the larger.
-/

namespace Uw7.Lib.BinaryGcd

open Nat

/-- What is left of a number without its factors of two. -/
structure OddPart (number odd : Nat) : Prop where
  isOdd : odd % 2 = 1
  times : ∃ twos, number = odd * 2 ^ twos

variable {number odd part : Nat}

theorem OddPart.self (isOdd : number % 2 = 1) : OddPart number number :=
  ⟨isOdd, 0, by rw [Nat.pow_zero, Nat.mul_one]⟩

theorem OddPart.shifted (part : OddPart number odd) (twos : Nat) :
    OddPart (number * 2 ^ twos) odd := by
  obtain ⟨isOdd, before, rfl⟩ := part
  exact ⟨isOdd, before + twos, by rw [Nat.pow_add, Nat.mul_assoc]⟩

theorem OddPart.bounds (part : OddPart number odd) : 0 < odd ∧ odd ≤ number := by
  obtain ⟨isOdd, twos, rfl⟩ := part
  exact ⟨by omega, Nat.le_mul_of_pos_right _ (Nat.two_pow_pos twos)⟩

theorem OddPart.unique {one two : Nat} (isOne : OddPart number one) (isTwo : OddPart number two) :
    one = two := by
  obtain ⟨oneOdd, oneTwos, rfl⟩ := isOne
  obtain ⟨twoOdd, twoTwos, same⟩ := isTwo
  have larger {low high : Nat} (order : low ≤ high) {a b : Nat} (aOdd : a % 2 = 1)
      (same : a * 2 ^ low = b * 2 ^ high) : a = b := by
    obtain ⟨more, rfl⟩ := Nat.exists_eq_add_of_le order
    rw [Nat.pow_add, Nat.mul_comm (2 ^ low), ← Nat.mul_assoc] at same
    have parts := Nat.mul_right_cancel (Nat.two_pow_pos low) same
    cases more with
    | zero => rwa [Nat.pow_zero, Nat.mul_one] at parts
    | succ more =>
      rw [Nat.pow_succ, ← Nat.mul_assoc] at parts
      omega
  rcases le_total oneTwos twoTwos with fewer | more
  · exact larger fewer oneOdd same
  · exact (larger more twoOdd same.symm).symm

theorem coprime_two_pow (isOdd : odd % 2 = 1) (twos : Nat) : Coprime odd (2 ^ twos) :=
  (coprime_two_right.2 (odd_iff.2 isOdd)).pow_right twos

theorem gcd_oddPart (isOdd : odd % 2 = 1) (isPart : OddPart number part) :
    Nat.gcd odd part = Nat.gcd odd number := by
  obtain ⟨_, twos, rfl⟩ := isPart
  exact (Coprime.gcd_mul_right_cancel_right part (coprime_two_pow isOdd twos).symm).symm

/-- **One round**: the smaller of two odd numbers and their difference have the
same common divisors, and a smaller sum. -/
theorem gcd_round (oddPos : 0 < odd) (less : odd < part) : Nat.gcd odd
    (part - odd) = Nat.gcd odd part ∧
    part - odd ≠ 0 ∧ odd + (part - odd) < odd + part := by
  refine ⟨?_, by omega, by omega⟩
  rw [Nat.gcd_comm, gcd_sub_self_left less.le, Nat.gcd_comm]

end Uw7.Lib.BinaryGcd
