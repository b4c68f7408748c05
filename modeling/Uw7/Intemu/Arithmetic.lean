import Mathlib.Data.Int.ModEq
import Uw7.Intemu.Multiply

namespace Uw7.Intemu

/-!
# When the arithmetic is right

A call is right when it leaves the residue of the mathematical result and
reports exactly the results that are not representable.
-/

open Lib Lib.Limbs Nat Option

variable {config : Config}

/-- The residue of a result is left, and the flag says whether the result was
within the range. -/
def CallRight (config : Config) (low high : Int) (outcome : Option (List Nat × Nat))
    (result : Int) : Prop :=
  ∃ dst oflow, outcome = some (dst, oflow) ∧ IsNum config dst ∧
      (unsignedValue config dst : Int) = result % 2 ^ config.numsize ∧
      (oflow ≠ 0 ↔ ¬(low ≤ result ∧ result < high))

/-- The range of signed numbers. -/
def SignedRight (config : Config) : Option (List Nat × Nat) → Int → Prop :=
  CallRight config (-2 ^ (config.numsize - 1)) (2 ^ (config.numsize - 1))

/-- The range of unsigned numbers. -/
def UnsignedRight (config : Config) : Option (List Nat × Nat) → Int → Prop :=
  CallRight config 0 (2 ^ config.numsize)

/-- All calls on two numbers are right. -/
structure ArithmeticRight (config : Config) (a b : List Nat) : Prop where
  sadd : SignedRight config (numSadd config a b) (signedValue config a + signedValue config b)
  uadd : UnsignedRight config (some (numUadd config a b))
      ((unsignedValue config a : Int) + unsignedValue config b)
  ssubtract : SignedRight config (numSsubtract config a b)
      (signedValue config a - signedValue config b)
  usubtract : UnsignedRight config (numUsubtract config a b)
      ((unsignedValue config a : Int) - unsignedValue config b)
  smultiply : SignedRight config (numSmultiply config a b)
      (signedValue config a * signedValue config b)
  umultiply : UnsignedRight config (some (numUmultiply config a b))
      ((unsignedValue config a : Int) * unsignedValue config b)
  negate : SignedRight config (numNegate config a) (-signedValue config a)

structure ArithmeticFits (config : Config) (a b : List Nat) : Prop where
  whole : config.Whole
  subtrahend : ¬(signedValue config b = -2 ^ (config.numsize - 1) ∧ signedValue config a < 0)
  product : ¬(signedValue config a * signedValue config b < -2 ^ (config.numsize - 1) ∧
      signedValue config a * signedValue config b % 2 ^ config.numsize = 2 ^ (config.numsize - 1))

theorem two_pow_numsize (config : Config) : 2 ^ config.numsize = 2 * 2 ^ (config.numsize - 1) := by
  rw [← Nat.pow_succ', succ_eq_add_one, Nat.sub_add_cancel (numsize_pos config)]

theorem add_mod_eq {one two modulus : Nat} (oneBelow : one < modulus) (twoBelow : two < modulus) :
    (one + two) % modulus =
      if one + two < modulus then one + two else one + two - modulus := by
  split
  · rename_i below
    exact mod_eq_of_lt below
  · rw [mod_eq_sub_mod (by omega)]
    exact mod_eq_of_lt (by omega)

def signBit (config : Config) (number : Nat) : Nat :=
  if 2 ^ (config.numsize - 1) ≤ number then
    2 ^ (config.ntopbit.toNat - 1)
  else 0

theorem signBit_eq (one two : Nat) : signBit config one = signBit config two ↔
    (2 ^ (config.numsize - 1) ≤ one ↔ 2 ^ (config.numsize - 1) ≤ two) := by
  have power := (Nat.two_pow_pos (config.ntopbit.toNat - 1)).ne'
  unfold signBit
  by_cases oneBig : 2 ^ (config.numsize - 1) ≤ one
  · by_cases twoBig : 2 ^ (config.numsize - 1) ≤ two <;> simp [oneBig, twoBig]
  · by_cases twoBig : 2 ^ (config.numsize - 1) ≤ two
    · simp [oneBig, twoBig, power.symm]
    · simp [oneBig, twoBig]

theorem one_lt_half (config : Config) : 1 < 2 ^ (config.numsize - 1) := by
  have size := config.numsize_long
  have packets := config.npktbit_pos
  have wide := Nat.mul_le_mul_left config.npktbit config.longPkts_wide
  exact Nat.one_lt_two_pow (by omega)

variable {dst src pkt a b : List Nat} {result : Int}

/-- **Signed addition**, as unsigned numbers. -/
theorem numSadd_spec (whole : config.Whole) (dstNum : IsNum config dst) (srcNum : IsNum config src)
    : ∃ sum oflow, numSadd config dst src = some (sum, oflow) ∧ IsNum config sum ∧
      unsignedValue config sum = (unsignedValue config dst + unsignedValue config src) %
        2 ^ config.numsize ∧
      (oflow ≠ 0 ↔ (2 ^ (config.numsize - 1) ≤ unsignedValue config dst ↔
        2 ^ (config.numsize - 1) ≤ unsignedValue config src) ∧
        ¬(2 ^ (config.numsize - 1) ≤ unsignedValue config sum ↔
          2 ^ (config.numsize - 1) ≤ unsignedValue config dst)) := by
  obtain ⟨length, fits, _, total⟩ :=
    addLoop_spec (dstNum.length.trans srcNum.length.symm) dstNum.fits srcNum.fits (Nat.zero_le 1)
  have sumPkts : IsPkts config (addLoop config 0 dst src).1 := ⟨length.trans dstNum.length, fits⟩
  obtain ⟨sumNum, sumValue⟩ := masked_spec whole.natural sumPkts
  have eq : numSadd config dst src = some (if config.partialTop then
      clearUnused config (addLoop config 0 dst src).1
      else (addLoop config 0 dst src).1,
      if (signBit config (unsignedValue config dst) = signBit config (unsignedValue config src)) ∧
        signBit config (unsignedValue config (if config.partialTop then
          clearUnused config (addLoop config 0 dst src).1
          else (addLoop config 0 dst src).1)) ≠
          signBit config (unsignedValue config dst) then
        1
      else 0) := by
    unfold numSadd
    rw [sign_spec whole dstNum, sign_spec whole srcNum]
    simp only [bind_eq_bind, bind_some, sign_spec whole sumNum]
    rfl
  refine ⟨_, _, eq, sumNum, ?_, ?_⟩
  · rw [unsignedValue, sumValue]
    have holds := numsize_le config
    obtain ⟨times, isTimes⟩ := Nat.pow_dvd_pow 2 holds
    rw [Nat.add_zero, dstNum.length, isTimes, Nat.mul_assoc] at total
    rw [← total, add_mul_mod_self_left]
  · simp only [ne_eq, ite_eq_right_iff, Nat.one_ne_zero, imp_false, not_not, signBit_eq]

/-- **Unsigned addition** of what is held: the residue of the sum, and whether
it was too large. -/
theorem numUadd_held (dstPkts : IsPkts config dst) (srcPkts : IsPkts config src) :
    IsHeld config (numUadd config dst src).1 ∧ unsignedValue config (numUadd config dst src).1 =
      (unsignedValue config dst + unsignedValue config src) % 2 ^ config.capacity ∧
      ((numUadd config dst src).2 ≠ 0 ↔ 2 ^ config.capacity ≤
        unsignedValue config dst + unsignedValue config src) := by
  obtain ⟨length, fits, _, total⟩ :=
    addLoop_spec (dstPkts.length.trans srcPkts.length.symm) dstPkts.fits
      srcPkts.fits (Nat.zero_le 1)
  have sumPkts : IsPkts config (addLoop config 0 dst src).1 := ⟨length.trans dstPkts.length, fits⟩
  rw [Nat.add_zero, dstPkts.length] at total
  exact cut_spec sumPkts Iff.rfl total rfl

/-- **Unsigned addition.** -/
theorem numUadd_spec (whole : config.Whole) (dstNum : IsNum config dst) (srcNum : IsNum config src)
    : IsNum config (numUadd config dst src).1 ∧ unsignedValue config (numUadd config dst src).1 =
      (unsignedValue config dst + unsignedValue config src) % 2 ^ config.numsize ∧
      ((numUadd config dst src).2 ≠ 0 ↔ 2 ^ config.numsize ≤
        unsignedValue config dst + unsignedValue config src) :=
  numsize_of_held whole.natural (numUadd_held dstNum.toIsPkts srcNum.toIsPkts)

/-- **Negation**, as unsigned numbers. -/
theorem numNegate_spec (whole : config.Whole) {np : List Nat} (isNum : IsNum config np) :
    ∃ neg oflow, numNegate config np = some (neg, oflow) ∧ IsNum config neg ∧
      unsignedValue config neg = (2 ^ config.numsize - unsignedValue config np) %
        2 ^ config.numsize ∧
      (oflow ≠ 0 ↔ unsignedValue config np = 2 ^ (config.numsize - 1)) := by
  obtain ⟨complementNum, missing⟩ := numComplement_spec whole isNum
  obtain ⟨oneNum, one⟩ := @prenum_one config
  obtain ⟨neg, oflow, eq, negNum, negValue, flag⟩ := numSadd_spec whole complementNum oneNum
  have half := two_pow_numsize config
  have sum : unsignedValue config (numComplement config np) +
      unsignedValue config (prenum config 1) = 2 ^ config.numsize - unsignedValue config np := by
    rw [unsignedValue, unsignedValue, unsignedValue, one]
    omega
  rw [sum] at negValue
  refine ⟨neg, oflow, eq, negNum, negValue, flag.trans ?_⟩
  have above := one_lt_half config
  have complementValue : unsignedValue config (numComplement config np) =
      2 ^ config.numsize - unsignedValue config np - 1 := by
    unfold unsignedValue
    omega
  have oneValue : unsignedValue config (prenum config 1) = 1 := one
  rw [complementValue, oneValue, negValue]
  by_cases zero : unsignedValue config np = 0
  · omega
  · rw [mod_eq_of_lt (by omega)]
    omega

theorem signedValue_spec (isNum : IsNum config pkt) :
    (signedValue config pkt = unsignedValue config pkt ∧
      unsignedValue config pkt < 2 ^ (config.numsize - 1)) ∨
      (signedValue config pkt = (unsignedValue config pkt : Int) - 2 ^ config.numsize ∧
        2 ^ (config.numsize - 1) ≤ unsignedValue config pkt ∧
        unsignedValue config pkt < 2 ^ config.numsize) := by
  have below := isNum.unused
  unfold signedValue
  split
  · exact .inl ⟨rfl, ‹_›⟩
  · exact .inr ⟨rfl, by omega, below⟩

theorem signedValue_modEq (config : Config) (pkt : List Nat) :
    (unsignedValue config pkt : Int) ≡ signedValue config pkt [ZMOD 2 ^ config.numsize] := by
  unfold signedValue
  split
  · exact .rfl
  · exact Int.modEq_sub_modulus_iff.2 .rfl

theorem residue_eq {number natural : Nat} (isResidue : number = natural % 2 ^ config.numsize)
    (congruent : (natural : Int) ≡ result [ZMOD 2 ^ config.numsize]) :
    (number : Int) = result % 2 ^ config.numsize := by
  rw [isResidue, Int.natCast_mod]
  exact congruent

theorem half_cast (config : Config) : (2 : Int) ^ (config.numsize - 1) =
    ((2 ^ (config.numsize - 1) : Nat) : Int) ∧
    (2 : Int) ^ config.numsize = 2 * ((2 ^ (config.numsize - 1) : Nat) : Int) := by
  have half := two_pow_numsize config
  constructor
  · rfl
  · exact_mod_cast half

section

variable (whole : config.Whole) (aNum : IsNum config a)
include whole aNum

theorem sadd_right (bNum : IsNum config b) :
    SignedRight config (numSadd config a b) (signedValue config a + signedValue config b) := by
  obtain ⟨sum, oflow, eq, sumNum, sumValue, flag⟩ := numSadd_spec whole aNum bNum
  refine ⟨sum, oflow, eq, sumNum, residue_eq sumValue ?_, flag.trans ?_⟩
  · exact (signedValue_modEq config a).add (signedValue_modEq config b)
  · have half := two_pow_numsize config
    obtain ⟨halfCast, wholeCast⟩ := half_cast config
    have aBelow : unsignedValue config a < 2 ^ config.numsize := aNum.unused
    have bBelow : unsignedValue config b < 2 ^ config.numsize := bNum.unused
    rw [add_mod_eq aBelow bBelow] at sumValue
    have aCases := signedValue_spec aNum
    have bCases := signedValue_spec bNum
    split at sumValue <;> omega

theorem uadd_right (bNum : IsNum config b) : UnsignedRight config (some (numUadd config a b))
    ((unsignedValue config a : Int) + unsignedValue config b) := by
  obtain ⟨sumNum, sumValue, flag⟩ := numUadd_spec whole aNum bNum
  refine ⟨_, _, rfl, sumNum, residue_eq sumValue ?_, flag.trans ?_⟩
  · exact .rfl
  · have power : (2 : Int) ^ config.numsize = ((2 ^ config.numsize : Nat) : Int) := by
      rfl
    omega

theorem negate_right : SignedRight config (numNegate config a) (-signedValue config a) := by
  obtain ⟨neg, oflow, eq, negNum, negValue, flag⟩ := numNegate_spec whole aNum
  refine ⟨neg, oflow, eq, negNum, residue_eq negValue ?_, flag.trans ?_⟩
  · have below : unsignedValue config a < 2 ^ config.numsize := aNum.unused
    rw [cast_sub (le_of_lt below), sub_eq_neg_add]
    exact (Int.add_modulus_modEq_iff.2 .rfl).trans (signedValue_modEq config a).neg
  · have half := two_pow_numsize config
    obtain ⟨halfCast, wholeCast⟩ := half_cast config
    have aCases := signedValue_spec aNum
    omega

theorem usubtract_right (bNum : IsNum config b) : UnsignedRight config (numUsubtract config a b)
    ((unsignedValue config a : Int) - unsignedValue config b) := by
  obtain ⟨neg, oflow, eq, negNum, negValue, _⟩ := numNegate_spec whole bNum
  obtain ⟨sumNum, sumValue, _⟩ := numUadd_spec whole aNum negNum
  have aBelow : unsignedValue config a < 2 ^ config.numsize := aNum.unused
  have bBelow : unsignedValue config b < 2 ^ config.numsize := bNum.unused
  have order : numUcompare a b < 0 ↔ unsignedValue config a < unsignedValue config b :=
    comparePkts_spec (aNum.length.trans bNum.length.symm) aNum.fits bNum.fits
  have power : (2 : Int) ^ config.numsize = ((2 ^ config.numsize : Nat) : Int) := by rfl
  refine ⟨(numUadd config a neg).1, if numUcompare a b < 0 then 1 else 0, ?_,
    sumNum, residue_eq sumValue ?_, ?_⟩
  · unfold numUsubtract
    rw [eq]
    rfl
  · rw [negValue]
    push_cast
    rw [cast_sub (le_of_lt bBelow), sub_eq_add_neg]
    refine Int.ModEq.add .rfl ((Int.mod_modEq _ _).trans ?_)
    exact Int.modulus_add_modEq_iff.2 .rfl
  · by_cases less : numUcompare a b < 0
    · rw [if_pos less]
      omega
    · rw [if_neg less]
      omega

theorem umultiply_right (bNum : IsNum config b) :
    UnsignedRight config (some (numUmultiply config a b))
      ((unsignedValue config a : Int) * unsignedValue config b) := by
  obtain ⟨productNum, productValue, flag⟩ := numUmultiply_spec whole aNum bNum
  refine ⟨_, _, rfl, productNum, residue_eq productValue ?_, flag.trans ?_⟩
  · exact .rfl
  · have power : (2 : Int) ^ config.numsize = ((2 ^ config.numsize : Nat) : Int) := by
      rfl
    unfold unsignedValue
    omega

end

theorem callRight_some {low high : Int} {oflow : Nat} (isNum : IsNum config dst)
    (residue : (unsignedValue config dst : Int) = result % 2 ^ config.numsize) :
    CallRight config low high (some (dst, oflow)) result ↔
      (oflow ≠ 0 ↔ ¬(low ≤ result ∧ result < high)) := by
  constructor
  · rintro ⟨_, _, same, _, _, flag⟩
    cases same
    exact flag
  · exact fun flag => ⟨dst, oflow, rfl, isNum, residue, flag⟩

/-- **`num_ssubtract` is right** unless the most negative number is subtracted
from a negative one, where it reports an overflow that is none. -/
theorem ssubtract_iff (whole : config.Whole) (aNum : IsNum config a) (bNum : IsNum config b) :
    SignedRight config (numSsubtract config a b) (signedValue config a - signedValue config b) ↔
      ¬(signedValue config b = -2 ^ (config.numsize - 1) ∧ signedValue config a < 0) := by
  obtain ⟨neg, oflow, negEq, negNum, negValue, negFlag⟩ := numNegate_spec whole bNum
  obtain ⟨sum, more, sumEq, sumNum, sumValue, sumFlag⟩ := numSadd_spec whole aNum negNum
  have aBelow : unsignedValue config a < 2 ^ config.numsize := aNum.unused
  have bBelow : unsignedValue config b < 2 ^ config.numsize := bNum.unused
  have negBelow : unsignedValue config neg < 2 ^ config.numsize := negNum.unused
  have outcome : numSsubtract config a b = some (sum, oflow ||| more) := by
    unfold numSsubtract
    simp only [negEq, sumEq, bind_eq_bind, bind_some]
    rfl
  have residue : (unsignedValue config sum : Int) = (signedValue config a - signedValue config b) %
      2 ^ config.numsize := by
    refine residue_eq sumValue ?_
    rw [negValue]
    push_cast
    rw [cast_sub (le_of_lt bBelow), sub_eq_add_neg (signedValue config a)]
    refine (signedValue_modEq config a).add ((Int.mod_modEq _ _).trans
      (.trans ?_ (signedValue_modEq config b).neg))
    rw [sub_eq_neg_add]
    exact Int.add_modulus_modEq_iff.2 .rfl
  rw [outcome, SignedRight, callRight_some sumNum residue, Ne,
    or_eq_zero_iff, not_and_or, ← Ne, ← Ne, negFlag, sumFlag]
  have half := two_pow_numsize config
  obtain ⟨halfCast, wholeCast⟩ := half_cast config
  rw [add_mod_eq aBelow negBelow] at sumValue
  have aCases := signedValue_spec aNum
  have bCases := signedValue_spec bNum
  by_cases zero : unsignedValue config b = 0
  · rw [zero, Nat.sub_zero, mod_self] at negValue
    split at sumValue <;> omega
  · rw [mod_eq_of_lt (by omega)] at negValue
    split at sumValue <;> omega

theorem makeNonnegative_spec (whole : config.Whole) (isNum : IsNum config pkt) :
    ∃ positive, makeNonnegative config (signBit config (unsignedValue config pkt)) pkt =
      some positive ∧ IsNum config positive ∧
      unsignedValue config positive = (signedValue config pkt).natAbs := by
  obtain ⟨neg, oflow, eq, negNum, negValue, _⟩ := numNegate_spec whole isNum
  have half := two_pow_numsize config
  obtain ⟨halfCast, wholeCast⟩ := half_cast config
  have cases' := signedValue_spec isNum
  have power := (Nat.two_pow_pos (config.ntopbit.toNat - 1)).ne'
  by_cases big : 2 ^ (config.numsize - 1) ≤ unsignedValue config pkt
  · refine ⟨neg, ?_, negNum, ?_⟩
    · unfold makeNonnegative signBit
      rw [if_pos big, if_neg power, eq]
      rfl
    · rw [mod_eq_of_lt (by omega)] at negValue
      omega
  · refine ⟨pkt, ?_, isNum, by omega⟩
    unfold makeNonnegative signBit
    rw [if_neg big, if_pos rfl]

theorem signBit_eq_zero (number : Nat) :
    signBit config number = 0 ↔ number < 2 ^ (config.numsize - 1) := by
  have power := (Nat.two_pow_pos (config.ntopbit.toNat - 1)).ne'
  unfold signBit
  split <;> omega

theorem natAbs_product (one two : Int) : ((0 ≤ one ↔ 0 ≤ two) →
    one * two = ((one.natAbs * two.natAbs : Nat) : Int)) ∧
    (¬(0 ≤ one ↔ 0 ≤ two) → one * two = -((one.natAbs * two.natAbs : Nat) : Int)) := by
  have absolute : ((one.natAbs * two.natAbs : Nat) : Int) = |one * two| := by
    rw [← Int.natAbs_mul, Int.natCast_natAbs]
  rw [absolute]
  constructor
  · intro same
    rcases le_or_gt 0 one with onePos | oneNeg
    · exact (abs_of_nonneg (mul_nonneg onePos (same.1 onePos))).symm
    · have twoNeg : two < 0 := by
        omega
      exact (abs_of_pos (mul_pos_of_neg_of_neg oneNeg twoNeg)).symm
  · intro different
    rcases le_or_gt 0 one with onePos | oneNeg
    · have twoNeg : two < 0 := by
        omega
      rw [abs_of_nonpos (mul_nonpos_of_nonneg_of_nonpos onePos twoNeg.le), neg_neg]
    · have twoPos : 0 ≤ two := by
        omega
      rw [abs_of_nonpos (mul_nonpos_of_nonpos_of_nonneg oneNeg.le twoPos), neg_neg]

theorem neg_emod_half (config : Config) (product : Nat) :
    -(product : Int) % 2 ^ config.numsize = 2 ^ (config.numsize - 1) ↔
      product % 2 ^ config.numsize = 2 ^ (config.numsize - 1) := by
  have half := two_pow_numsize config
  have positive := Nat.two_pow_pos (config.numsize - 1)
  obtain ⟨halfCast, wholeCast⟩ := half_cast config
  rw [halfCast, wholeCast, half]
  generalize 2 ^ (config.numsize - 1) = middle at positive ⊢
  have parts := div_add_mod product (2 * middle)
  have below := mod_lt product (show 0 < 2 * middle by omega)
  generalize product % (2 * middle) = rest at parts below ⊢
  generalize product / (2 * middle) = times at parts
  have isProduct : -(product : Int) = -(rest : Int) + 2 * (middle : Int) * -times := by
    rw [← parts]
    push_cast
    ring
  rw [isProduct, Int.add_mul_emod_self_left]
  by_cases zero : rest = 0
  · rw [zero, cast_zero, neg_zero, Int.zero_emod]
    omega
  · have shifted : -(rest : Int) % (2 * middle) = 2 * middle - rest := by
      rw [← Int.add_emod_right, Int.emod_eq_of_lt] <;> omega
    omega

/-- **`num_smultiply` is right** unless a product too far below the range
leaves the most negative number, where it reports no overflow. -/
theorem smultiply_iff (whole : config.Whole) (aNum : IsNum config a) (bNum : IsNum config b) :
    SignedRight config (numSmultiply config a b) (signedValue config a * signedValue config b) ↔
      ¬(signedValue config a * signedValue config b < -2 ^ (config.numsize - 1) ∧
        signedValue config a * signedValue config b %
          2 ^ config.numsize = 2 ^ (config.numsize - 1)) := by
  obtain ⟨aPos, aEq, aPosNum, aValue⟩ := makeNonnegative_spec whole aNum
  obtain ⟨bPos, bEq, bPosNum, bValue⟩ := makeNonnegative_spec whole bNum
  obtain ⟨productNum, productValue, productFlag⟩ := numUmultiply_spec whole aPosNum bPosNum
  have aSign : sign config a = some (signBit config _) := sign_spec whole aNum
  have bSign : sign config b = some (signBit config _) := sign_spec whole bNum
  have productSign : sign config (numUmultiply config aPos bPos).1 = some (signBit config _) :=
    sign_spec whole productNum
  have half := two_pow_numsize config
  obtain ⟨halfCast, wholeCast⟩ := half_cast config
  have aCases := signedValue_spec aNum
  have bCases := signedValue_spec bNum
  have signs : ((decide (signBit config (unsignedValue config a) = 0) !=
      decide (signBit config (unsignedValue config b) = 0)) = true) ↔
      ¬(0 ≤ signedValue config a ↔ 0 ≤ signedValue config b) := by
    rw [bne_iff_ne, Ne, decide_eq_decide, signBit_eq_zero, signBit_eq_zero]
    omega
  have outcome : numSmultiply config a b =
      let product := numUmultiply config aPos bPos
      let oflow :=
        if product.2 = 0 ∧ signBit config (unsignedValue config product.1) ≠ 0 then 1
        else product.2
      if decide (signBit config (unsignedValue config a) = 0) !=
        decide (signBit config (unsignedValue config b) = 0) then
        (numNegate config product.1).map fun negated =>
          (negated.1, if negated.2 ≠ 0 then 0 else oflow)
      else some (product.1, oflow) := by
    unfold numSmultiply
    simp only [aSign, bSign, bind_eq_bind, bind_some, aEq, bEq, productSign]
  have productValue' : unsignedValue config (numUmultiply config aPos bPos).1 =
      (signedValue config a).natAbs * (signedValue config b).natAbs % 2 ^ config.numsize := by
    rw [← aValue, ← bValue]
    exact productValue
  have flag : ((if (numUmultiply config aPos bPos).2 = 0 ∧ signBit config (unsignedValue config
      (numUmultiply config aPos bPos).1) ≠ 0 then 1
      else (numUmultiply config aPos bPos).2) ≠ 0) ↔
      2 ^ (config.numsize - 1) ≤ (signedValue config a).natAbs * (signedValue config b).natAbs := by
    have productFlag' : (numUmultiply config aPos bPos).2 ≠ 0 ↔ 2 ^ config.numsize ≤
        (signedValue config a).natAbs * (signedValue config b).natAbs := by
      rw [← aValue, ← bValue]
      exact productFlag
    have set := @signBit_eq_zero config (unsignedValue config (numUmultiply config aPos bPos).1)
    rw [productValue'] at set ⊢
    by_cases fits : (numUmultiply config aPos bPos).2 = 0
    · rw [mod_eq_of_lt (by omega)] at set ⊢
      rw [fits]
      split
      · rename_i isSet
        have notSet := isSet.2
        omega
      · rename_i notSet
        have unset : signBit config ((signedValue config a).natAbs *
            (signedValue config b).natAbs) = 0 := by
          by_contra isSet
          exact notSet ⟨rfl, isSet⟩
        omega
    · rw [if_neg (fun both => fits both.1)]
      exact ⟨fun _ => by omega, fun _ => fits⟩
  obtain ⟨sameSign, otherSign⟩ := natAbs_product (signedValue config a) (signedValue config b)
  rw [outcome]
  by_cases different : ¬(0 ≤ signedValue config a ↔ 0 ≤ signedValue config b)
  · rw [if_pos (signs.2 different)]
    have isProduct := otherSign different
    obtain ⟨neg, more, negEq, negNum, negValue, negFlag⟩ := numNegate_spec whole productNum
    have productBelow : unsignedValue config (numUmultiply config aPos bPos).1 <
        2 ^ config.numsize :=
      productNum.unused
    have residue : (unsignedValue config neg : Int) = signedValue config a * signedValue config b %
        2 ^ config.numsize := by
      refine residue_eq negValue ?_
      rw [isProduct, cast_sub (le_of_lt productBelow), productValue', sub_eq_neg_add]
      push_cast
      exact Int.add_modulus_modEq_iff.2 (Int.mod_modEq _ _).neg
    rw [negEq]
    simp only [map_some]
    rw [SignedRight, callRight_some negNum residue, isProduct, neg_emod_half, halfCast]
    rw [productValue'] at negFlag
    by_cases middle : (signedValue config a).natAbs * (signedValue config b).natAbs %
      2 ^ config.numsize = 2 ^ (config.numsize - 1)
    · rw [if_pos (negFlag.2 middle)]
      omega
    · have notMiddle : (signedValue config a).natAbs *
          (signedValue config b).natAbs ≠ 2 ^ (config.numsize - 1) := by
        intro same
        rw [same, mod_eq_of_lt (by omega)] at middle
        exact middle rfl
      rw [if_neg (fun set => middle (negFlag.1 set)), flag]
      omega
  · rw [if_neg (fun set => different (signs.1 set))]
    have isProduct := sameSign (not_not.1 different)
    have residue : (unsignedValue config (numUmultiply config aPos bPos).1 : Int) =
        signedValue config a * signedValue config b % 2 ^ config.numsize := by
      refine residue_eq productValue' ?_
      rw [isProduct]
    rw [SignedRight, callRight_some productNum residue, flag, isProduct, halfCast]
    omega

/--
**The arithmetic is right** exactly when the top packet holds part of the
number, the most negative number is not subtracted from a negative one, and the
product, if it is below the range, does not leave the most negative number.
-/
theorem arithmeticRight_iff (config : Config) (a b : IntNum config) :
    ArithmeticRight config a.pkt b.pkt ↔ ArithmeticFits config a.pkt b.pkt := by
  constructor
  · intro right
    have whole : config.Whole := by
      by_contra notWhole
      obtain ⟨dst, oflow, eq, _⟩ := right.sadd
      have noSign : sign config a.pkt = none := if_neg notWhole
      unfold numSadd at eq
      rw [noSign] at eq
      cases eq
    exact
      { whole := whole
        subtrahend := (ssubtract_iff whole a.isNum b.isNum).1 right.ssubtract
        product := (smultiply_iff whole a.isNum b.isNum).1 right.smultiply }
  · intro fits
    exact
      { sadd := sadd_right fits.whole a.isNum b.isNum
        uadd := uadd_right fits.whole a.isNum b.isNum
        ssubtract := (ssubtract_iff fits.whole a.isNum b.isNum).2 fits.subtrahend
        usubtract := usubtract_right fits.whole a.isNum b.isNum
        smultiply := (smultiply_iff fits.whole a.isNum b.isNum).2 fits.product
        umultiply := umultiply_right fits.whole a.isNum b.isNum
        negate := negate_right fits.whole a.isNum }

theorem eightBits_pos : 0 < 8 := by decide

theorem sixteenBits_pos : 0 < 16 := by decide

theorem eightBits_dvd_sixteen : 8 ∣ 16 := by decide

theorem twoPkts_wide : 2 ≤ 2 := by decide

/-- 16-bit packets, a 32-bit `unsigned long`, and numbers of 64 bits. -/
def i386Config : Config where
  charBit := 8
  npktbit := 16
  longPkts := 2
  numsize := 64
  charBit_pos := eightBits_pos
  npktbit_pos := sixteenBits_pos
  charBit_dvd_npktbit := eightBits_dvd_sixteen
  longPkts_wide := twoPkts_wide
  numsize_long := by decide
  charBit_dvd_numsize := by decide

def mostNegative : List Nat := [0, 0, 0, 0x8000]

/--
`-1 - (-2^63)` is `2^63 - 1`, but an overflow is reported; and `3 * (-2^63)` is
not representable, but no overflow is reported.
-/
theorem arithmetic_wrongOverflow : (IsNum i386Config [0xffff, 0xffff, 0xffff, 0xffff] ∧
    IsNum i386Config [3, 0, 0, 0] ∧ IsNum i386Config mostNegative) ∧
    ¬ArithmeticRight i386Config [0xffff, 0xffff, 0xffff, 0xffff] mostNegative ∧
    ¬ArithmeticRight i386Config [3, 0, 0, 0] mostNegative := by
  refine ⟨⟨?_, ?_, ?_⟩, ?_, ?_⟩
  · exact ⟨⟨rfl, by unfold Fits; decide⟩, by decide⟩
  · exact ⟨⟨rfl, by unfold Fits; decide⟩, by decide⟩
  · exact ⟨⟨rfl, by unfold Fits; decide⟩, by decide⟩
  · intro right
    obtain ⟨dst, oflow, eq, _, _, flag⟩ := right.ssubtract
    have outcome : numSsubtract i386Config [0xffff, 0xffff, 0xffff, 0xffff] mostNegative =
        some ([0xffff, 0xffff, 0xffff, 0x7fff], 1) := by
      decide +kernel
    cases eq
    exact absurd flag (by decide +kernel)
  · intro right
    obtain ⟨dst, oflow, eq, _, _, flag⟩ := right.smultiply
    have outcome : numSmultiply i386Config [3, 0, 0, 0] mostNegative = some (mostNegative, 0) := by
      decide +kernel
    cases eq
    exact absurd flag (by decide +kernel)

end Uw7.Intemu
