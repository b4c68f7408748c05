import Uw7.Intemu.Division

namespace Uw7.Intemu

/-!
# When division is right

Unsigned division gives quotient and remainder.  Signed division truncates, the
remainder has the numerator's sign, and the only quotient that is not
representable is that of the most negative number by -1.
-/

open Lib Lib.Limbs Nat Option Int

variable {config : Config}

/-- All divisions of two numbers are right. -/
structure DivisionRight (config : Config) (numer denom : List Nat) : Prop where
  udivrem : ∃ quot rem, numUdivrem config numer denom = some ⟨quot, rem, 0⟩ ∧
      IsNum config quot ∧ IsNum config rem ∧
      unsignedValue config numer = unsignedValue config quot * unsignedValue config denom +
          unsignedValue config rem ∧
      unsignedValue config rem < unsignedValue config denom
  sdivrem : ∃ quot rem oflow, numSdivrem config numer denom = some ⟨quot, rem, oflow⟩ ∧
      IsNum config quot ∧ IsNum config rem ∧ (unsignedValue config quot : Int) =
        tdiv (signedValue config numer) (signedValue config denom) % 2 ^ config.numsize ∧
      signedValue config rem = tmod (signedValue config numer) (signedValue config denom)
  sdivide : SignedRight config (numSdivide config numer denom)
      (tdiv (signedValue config numer) (signedValue config denom))
  sremainder : SignedRight config (numSremainder config numer denom)
      (tmod (signedValue config numer) (signedValue config denom))

theorem prenum_zero : IsNum config (prenum config 0) ∧
    unsignedValue config (prenum config 0) = 0 := by
  obtain ⟨length, fits, value'⟩ := @setnum_spec config config.npkt 0
  refine ⟨⟨⟨length, fits⟩, ?_⟩, value'⟩
  unfold prenum
  rw [value']
  exact Nat.two_pow_pos _

variable {numer denom np : List Nat}

theorem dividing_start {n : Nat} {rem : List Nat} (remNum : IsNum config rem)
    (isRem : unsignedValue config rem = unsignedValue config numer / 2 ^ n)
    (less : unsignedValue config rem < unsignedValue config denom) :
    Dividing config numer denom n (prenum config 0) rem := by
  obtain ⟨zeroNum, zero⟩ := @prenum_zero config
  refine ⟨zeroNum, remNum, ?_, less⟩
  rw [zero, Nat.zero_mul, Nat.zero_add, isRem]

/-- **Unsigned division** by a denominator that is not zero. -/
theorem numUdivrem_spec (whole : config.Whole) (numerNum : IsNum config numer)
    (denomNum : IsNum config denom) (some' : unsignedValue config denom ≠ 0) :
    ∃ quot rem, numUdivrem config numer denom = some ⟨quot, rem, 0⟩ ∧
      Dividing config numer denom 0 quot rem := by
  obtain ⟨zeroNum, zero⟩ := @prenum_zero config
  rcases numHighbitno_spec denomNum with
    ⟨isZero, _⟩ | ⟨high, highEq, above, below⟩
  · exact absurd isZero some'
  · unfold numUdivrem
    rw [highEq]
    simp only [bind_eq_bind, bind_some]
    by_cases one : (high : Int) = 0
    · obtain rfl : high = 0 := by
        omega
      refine ⟨_, _, rfl, numerNum, zeroNum, ?_, by omega⟩
      have isOne : unsignedValue config denom = 1 := by omega
      rw [zero, isOne, Nat.pow_zero, Nat.div_one, Nat.mul_one, Nat.add_zero]
    · rw [if_neg one]
      -- The numerator's highest bit, or nothing.
      obtain ⟨highNumer, highNumerEq, numerBelow⟩ : ∃ highNumer : Int,
        numHighbitno config numer = some highNumer ∧
          unsignedValue config numer < 2 ^ (highNumer + 1).toNat := by
        rcases numHighbitno_spec numerNum with
          ⟨isZero, eq⟩ | ⟨bit, eq, _, numerBelow⟩
        · exact ⟨-1, eq, by rw [isZero]; exact Nat.two_pow_pos _⟩
        · exact ⟨bit, eq, numerBelow⟩
      rw [highNumerEq]
      simp only [bind_some]
      by_cases short : highNumer - high + 1 ≤ 0
      · rw [if_pos short]
        refine ⟨_, _, rfl, dividing_start numerNum (by simp) ?_⟩
        have fewer := Nat.pow_le_pow_right Nat.two_pos (show (highNumer + 1).toNat ≤ high by omega)
        omega
      · rw [if_neg short]
        obtain ⟨neg, negFlag, negEq, negNum, negValue, _⟩ := numNegate_spec whole denomNum
        have denomBelow : unsignedValue config denom < 2 ^ config.numsize := denomNum.unused
        rw [mod_eq_of_lt (by omega)] at negValue
        obtain ⟨remNum, remValue⟩ := leaves_some.1
          (lrshift_leaves whole numerNum (highNumer - high + 1))
        have count : (highNumer - high + 1).natAbs = (highNumer - high + 1).toNat := by omega
        have quotient : unsignedValue config (numLrshift config numer (highNumer - high + 1)).1 =
            unsignedValue config numer / 2 ^ (highNumer - high + 1).toNat := by
          rw [scaled_right (by omega), natAbs_neg, count] at remValue
          have small : (unsignedValue config numer : Int) / 2 ^ (highNumer - high + 1).toNat =
              ((unsignedValue config numer / 2 ^ (highNumer - high + 1).toNat : Nat) : Int) := by
            rfl
          have power : (2 : Int) ^ config.numsize = ((2 ^ config.numsize : Nat) : Int) := by rfl
          have within : unsignedValue config numer / 2 ^ (highNumer - high + 1).toNat <
              2 ^ config.numsize :=
            (div_le_self _ _).trans_lt numerNum.unused
          rw [small, power, ← natCast_mod, mod_eq_of_lt within] at remValue
          exact_mod_cast remValue
        have less : unsignedValue config numer / 2 ^ (highNumer - high + 1).toNat <
            unsignedValue config denom := by
          refine lt_of_lt_of_le ?_ above
          refine Nat.div_lt_of_lt_mul ?_
          rw [← Nat.pow_add]
          refine numerBelow.trans_le ?_
          exact Nat.pow_le_pow_right Nat.two_pos (by omega)
        rw [negEq]
        simp only [bind_some]
        exact ⟨_, _, rfl, divLoop_spec whole numerNum denomNum negNum (by omega)
          (dividing_start remNum quotient (quotient ▸ less))⟩

theorem tdiv_tmod_natAbs (one two : Int) : tdiv one two =
    (if decide (0 ≤ one) != decide (0 ≤ two) then
      -((one.natAbs / two.natAbs : Nat) : Int)
    else ((one.natAbs / two.natAbs : Nat) : Int)) ∧ tmod one two =
      if 0 ≤ one then ((one.natAbs % two.natAbs : Nat) : Int)
      else -((one.natAbs % two.natAbs : Nat) : Int) := by
  have natMod (a b : Nat) : tmod a b = (a : Int) % b := tmod_eq_emod_of_nonneg (natCast_nonneg a)
  rcases le_or_gt 0 one with onePos | oneNeg
  · obtain ⟨a, rfl⟩ := eq_ofNat_of_zero_le onePos
    rcases le_or_gt 0 two with twoPos | twoNeg
    · obtain ⟨b, rfl⟩ := eq_ofNat_of_zero_le twoPos
      simp [natMod]
    · obtain ⟨b, isB⟩ := eq_ofNat_of_zero_le (show 0 ≤ -two by omega)
      obtain rfl : two = -(b : Int) := by omega
      have bPos : ¬b = 0 := by omega
      simp [Int.tdiv_neg, tmod_neg, natMod, bPos]
  · obtain ⟨a, isA⟩ := eq_ofNat_of_zero_le (show 0 ≤ -one by omega)
    obtain rfl : one = -(a : Int) := by omega
    have aPos : ¬a = 0 := by omega
    rcases le_or_gt 0 two with twoPos | twoNeg
    · obtain ⟨b, rfl⟩ := eq_ofNat_of_zero_le twoPos
      simp [Int.neg_tdiv, neg_tmod, natMod, aPos]
    · obtain ⟨b, isB⟩ := eq_ofNat_of_zero_le (show 0 ≤ -two by omega)
      obtain rfl : two = -(b : Int) := by omega
      have bPos : ¬b = 0 := by omega
      simp [Int.neg_tdiv, neg_tmod, Int.tdiv_neg, tmod_neg, natMod, aPos, bPos]

theorem negateIf_spec (whole : config.Whole) (isNum : IsNum config np) (neg : Bool) :
    ∃ out oflow, negateIf config neg np = some (out, oflow) ∧ IsNum config out ∧
      (unsignedValue config out : Int) = (if neg then -(unsignedValue config np : Int)
        else unsignedValue config np) % 2 ^ config.numsize ∧
      (oflow ≠ 0 ↔ neg = true ∧ unsignedValue config np = 2 ^ (config.numsize - 1)) := by
  cases neg with
  | false =>
    obtain ⟨lower, upper⟩ := unsigned_bounds isNum
    refine ⟨np, 0, rfl, isNum, ?_, by simp⟩
    exact (emod_eq_of_lt (by omega) upper).symm
  | true =>
    obtain ⟨out, oflow, eq, outNum, outValue, flag⟩ := numNegate_spec whole isNum
    refine ⟨out, oflow, eq, outNum, residue_eq outValue ?_, by simp [flag]⟩
    have below : unsignedValue config np < 2 ^ config.numsize := isNum.unused
    rw [cast_sub below.le, sub_eq_neg_add, if_pos rfl]
    exact add_modulus_modEq_iff.2 .rfl

theorem signBit_zero_iff (isNum : IsNum config np) :
    signBit config (unsignedValue config np) = 0 ↔ 0 ≤ signedValue config np := by
  have half := two_pow_numsize config
  obtain ⟨_, wholeCast⟩ := half_cast config
  have cases' := signedValue_spec isNum
  rw [signBit_eq_zero]
  omega

theorem natAbs_signed_le (isNum : IsNum config np) :
    (signedValue config np).natAbs ≤ 2 ^ (config.numsize - 1) := by
  obtain ⟨lower, upper⟩ := signed_bounds isNum
  rw [(half_cast config).1] at lower upper
  omega

/-- **Signed division** by a denominator that is not zero. -/
theorem numSdivrem_spec (whole : config.Whole) (numerNum : IsNum config numer)
    (denomNum : IsNum config denom) (some' : signedValue config denom ≠ 0) :
    ∃ quot rem oflow, numSdivrem config numer denom = some ⟨quot, rem, oflow⟩ ∧
      IsNum config quot ∧ IsNum config rem ∧ (unsignedValue config quot : Int) =
        tdiv (signedValue config numer) (signedValue config denom) % 2 ^ config.numsize ∧
      (unsignedValue config rem : Int) =
        tmod (signedValue config numer) (signedValue config denom) % 2 ^ config.numsize ∧
      oflow ≤ 1 ∧ (oflow ≠ 0 ↔ ¬(-2 ^ (config.numsize - 1) ≤ tdiv (signedValue config numer)
        (signedValue config denom) ∧
        tdiv (signedValue config numer) (signedValue config denom) <
          2 ^ (config.numsize - 1))) := by
  obtain ⟨absNumer, numerEq, absNumerNum, absNumerValue⟩ := makeNonnegative_spec whole numerNum
  obtain ⟨absDenom, denomEq, absDenomNum, absDenomValue⟩ := makeNonnegative_spec whole denomNum
  obtain ⟨quot, rem, divEq, dividing⟩ := numUdivrem_spec whole absNumerNum absDenomNum
    (by rw [absDenomValue]; omega)
  obtain ⟨quotNum, remNum, parts, less⟩ := dividing
  rw [Nat.pow_zero, Nat.div_one, absNumerValue, absDenomValue] at parts
  rw [absDenomValue] at less
  have numerLe := natAbs_signed_le numerNum
  have denomLe := natAbs_signed_le denomNum
  -- The quotient and the remainder of the magnitudes.
  have isQuot : unsignedValue config quot = (signedValue config numer).natAbs /
      (signedValue config denom).natAbs := by
    rw [parts, Nat.mul_comm, mul_add_div (by omega), div_eq_of_lt less, Nat.add_zero]
  have isRem : unsignedValue config rem = (signedValue config numer).natAbs %
      (signedValue config denom).natAbs := by
    rw [parts, Nat.mul_comm, mul_add_mod, mod_eq_of_lt less]
  obtain ⟨tdivIs, tmodIs⟩ := tdiv_tmod_natAbs (signedValue config numer) (signedValue config denom)
  rw [← isQuot] at tdivIs
  rw [← isRem] at tmodIs
  have numerSign : sign config numer = some (signBit config (unsignedValue config numer)) :=
    sign_spec whole numerNum
  have denomSign : sign config denom = some (signBit config (unsignedValue config denom)) :=
    sign_spec whole denomNum
  have quotSign : sign config quot = some (signBit config (unsignedValue config quot)) :=
    sign_spec whole quotNum
  have remSign : sign config rem = some 0 := by
    rw [sign_spec whole remNum, if_neg]
    unfold unsignedValue at less
    omega
  have signs : (decide (signBit config (unsignedValue config numer) = 0) !=
      decide (signBit config (unsignedValue config denom) = 0)) =
      (decide (0 ≤ signedValue config numer) != decide (0 ≤ signedValue config denom)) := by
    simp only [signBit_zero_iff numerNum, signBit_zero_iff denomNum]
  generalize (decide (0 ≤ signedValue config numer) !=
    decide (0 ≤ signedValue config denom)) = negquot at signs tdivIs
  obtain ⟨outQuot, quotOflow, outQuotEq, outQuotNum, outQuotValue, quotFlag⟩ :=
    negateIf_spec whole quotNum negquot
  obtain ⟨outRem, remOflow, outRemEq, outRemNum, outRemValue, _⟩ := negateIf_spec whole remNum
    (decide (signBit config (unsignedValue config numer) ≠ 0))
  have outcome : numSdivrem config numer denom = some ⟨outQuot, outRem,
      (if signBit config (unsignedValue config quot) ≠ 0 ∧ quotOflow = 0 then 1
        else 0) ||| 0⟩ := by
    unfold numSdivrem
    simp only [numerSign, denomSign, numerEq, denomEq, divEq, quotSign,
      remSign, signs, outQuotEq, outRemEq, bind_eq_bind,
      bind_some, ne_eq, not_true_eq_false, if_false, false_and]
    rfl
  refine ⟨_, _, _, outcome, outQuotNum, outRemNum, ?_, ?_, ?_, ?_⟩
  · rw [outQuotValue, tdivIs]
  · rw [outRemValue, tmodIs]
    simp only [ne_eq, signBit_zero_iff numerNum, decide_eq_true_eq, ite_not]
  · rw [or_zero]
    split <;> omega
  · have noOflow : quotOflow = 0 ↔ ¬(negquot = true ∧
        unsignedValue config quot = 2 ^ (config.numsize - 1)) := by
      rw [← quotFlag, Ne, not_not]
    have set := @signBit_eq_zero config (unsignedValue config quot)
    rw [or_zero, Ne, ite_eq_right_iff, Classical.not_imp,
      and_iff_left Nat.one_ne_zero, Ne, set, noOflow, tdivIs, (half_cast config).1]
    cases negquot with
    | false =>
      simp only [Bool.false_eq_true, if_false, false_and, not_false_eq_true, and_true]
      omega
    | true =>
      simp only [if_true, true_and]
      omega

/-- 16-bit packets, a 32-bit `unsigned long` and numbers of 40 bits: the four
packets of a number leave less than nothing to the top one. -/
def emptyTopConfig : Config where
  charBit := 8
  npktbit := 16
  longPkts := 2
  numsize := 40
  charBit_pos := eightBits_pos
  npktbit_pos := sixteenBits_pos
  charBit_dvd_npktbit := eightBits_dvd_sixteen
  longPkts_wide := twoPkts_wide
  numsize_long := by decide
  charBit_dvd_numsize := by decide

/-- A quotient times the denominator, plus the remainder, is the numerator, packet by packet. -/
theorem udivrem_recomposes (whole : config.Whole) (numer denom : IntNum config)
    (nonzero : unsignedValue config denom.pkt ≠ 0) :
    ∃ quot rem, numUdivrem config numer.pkt denom.pkt = some ⟨quot, rem, 0⟩ ∧
      (numUmultiply config quot denom.pkt).2 = 0 ∧
      numUadd config (numUmultiply config quot denom.pkt).1 rem = (numer.pkt, 0) := by
  obtain ⟨quot, rem, divides, quotNum, remNum, split, -⟩ :=
    numUdivrem_spec whole numer.isNum denom.isNum nonzero
  rw [Nat.pow_zero, Nat.div_one] at split
  have below : unsignedValue config numer.pkt < 2 ^ config.numsize := numer.isNum.unused
  obtain ⟨productNum, product, noLoss⟩ := numUmultiply_exact quotNum denom.isNum
    ((Nat.le_add_right _ _).trans_lt (split ▸ below))
  obtain ⟨sumNum, sum, carries⟩ := numUadd_spec whole productNum remNum
  rw [unsignedValue, unsignedValue, product, ← split] at sum carries
  rw [Nat.mod_eq_of_lt below] at sum
  have same := value_injective sumNum.fits numer.isNum.fits
    (sumNum.length.trans numer.isNum.length.symm) sum
  refine ⟨quot, rem, divides, noLoss, Prod.ext same ?_⟩
  by_contra carry
  exact Nat.not_le.2 below (carries.1 carry)

theorem udivrem_recomposes_self : ∃ quot rem,
    numUadd i386Config (numUmultiply i386Config quot mostNegative).1 rem = (mostNegative, 0) := by
  have whole : i386Config.Whole := by unfold Config.Whole; decide +kernel
  have isNum : IsNum i386Config mostNegative := ⟨⟨rfl, by unfold Fits; decide⟩, by decide⟩
  have nonzero : unsignedValue i386Config mostNegative ≠ 0 := by decide
  obtain ⟨quot, rem, -, -, sum⟩ := udivrem_recomposes whole ⟨_, isNum⟩ ⟨_, isNum⟩ nonzero
  exact ⟨quot, rem, sum⟩

end Uw7.Intemu
