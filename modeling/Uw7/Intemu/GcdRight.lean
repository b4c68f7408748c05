import Uw7.Intemu.Gcd

namespace Uw7.Intemu

/-!
# When the common divisor is found

The common divisor and the common multiple are right for numbers that are both
not zero.  With a zero the loops go on forever.  Sizes that leave nothing to the
top packet have no negation; there both are right only where none is needed.
-/

open Lib Lib.Limbs Lib.BinaryGcd Nat Option

variable {config : Config}

/-- The loops end, and `num_gcd` and `num_lcm` are right. -/
structure GcdRight (config : Config) (dst src : List Nat) : Prop where
  gcd : ∃ bound, ∀ fuel ≥ bound, ∃ divisor, numGcd config fuel dst src = some divisor ∧
      IsNum config divisor ∧
      unsignedValue config divisor = Nat.gcd (unsignedValue config dst) (unsignedValue config src)
  lcm : ∃ bound, ∀ fuel ≥ bound, UnsignedRight config (numLcm config fuel dst src)
      (Nat.lcm (unsignedValue config dst) (unsignedValue config src) : Nat)

structure GcdFits (config : Config) (dst src : List Nat) : Prop where
  dstSome : unsignedValue config dst ≠ 0
  srcSome : unsignedValue config src ≠ 0
  negation : config.Whole ∨ (unsignedValue config dst = 1 ∧ OddPart (unsignedValue config src) 1) ∨
      (unsignedValue config src = 1 ∧ OddPart (unsignedValue config dst) 1)

/-- The variables before the main loop. -/
def startState (dst num : List Nat) : GcdState := ⟨decide (lowPkt dst &&& 1 ≠ 0),
    if decide (lowPkt dst &&& 1 ≠ 0) then num else dst, dst, num⟩

theorem lowBit_iff {np : List Nat} (isNum : IsNum config np) :
    lowPkt np &&& 1 ≠ 0 ↔ unsignedValue config np % 2 = 1 := by
  obtain ⟨less, isLess⟩ := Nat.exists_eq_add_of_le' config.npktbit_pos
  rw [lowPkt_eq isNum, isLess, and_one_is_mod, Nat.pow_succ, Nat.mul_comm, mod_mul_right_mod]
  omega

variable {dst num dst' num' numer denom src : List Nat} {twos fuel : Nat} {state : GcdState}

theorem start_ready (stripped : Stripped config dst num twos dst' num')
    (dstSome : unsignedValue config dst ≠ 0) (numSome : unsignedValue config num ≠ 0) :
    GcdReady config (startState dst' num') ∧ (startState dst' num').goal config =
      Nat.gcd (unsignedValue config dst') (unsignedValue config num') ∧
      (startState dst' num').measure config =
        unsignedValue config dst' + unsignedValue config num' := by
  obtain ⟨dstNum, numNum, dstTimes, numTimes, odd⟩ := stripped
  have dstSome' : unsignedValue config dst' ≠ 0 := by
    intro zero
    rw [zero, Nat.zero_mul] at dstTimes
    exact dstSome dstTimes
  have numSome' : unsignedValue config num' ≠ 0 := by
    intro zero
    rw [zero, Nat.zero_mul] at numTimes
    exact numSome numTimes
  have low := lowBit_iff dstNum
  by_cases flag : lowPkt dst' &&& 1 ≠ 0
  · have state : startState dst' num' = ⟨true, num', dst', num'⟩ := by
      unfold startState
      rw [decide_eq_true flag]
      rfl
    rw [state]
    exact ⟨⟨numNum, dstNum, low.1 flag, numSome'⟩, rfl, rfl⟩
  · have state : startState dst' num' = ⟨false, dst', dst', num'⟩ := by
      unfold startState
      rw [decide_eq_false flag]
      rfl
    have numOdd : unsignedValue config num' % 2 = 1 :=
      odd.resolve_left fun dstOdd => flag (low.2 dstOdd)
    rw [state]
    exact ⟨⟨dstNum, numNum, numOdd, dstSome'⟩, Nat.gcd_comm _ _, Nat.add_comm _ _⟩

theorem numGcd_eq {fuel : Nat} {dst num : List Nat} (dstNum : IsNum config dst)
    (numNum : IsNum config num)
    (some' : unsignedValue config dst ≠ 0 ∨ unsignedValue config num ≠ 0)
    (enough : unsignedValue config dst + unsignedValue config num < fuel) :
    ∃ dst' num' twos, Stripped config dst num twos dst' num' ∧ numGcd config fuel dst num =
      (gcdLoop config fuel fuel (startState dst' num')).map
        fun divisor => (numLlshift config divisor twos).1 := by
  obtain ⟨dst', num', twos, eq, stripped⟩ := stripBoth_spec dstNum numNum some' enough 0
  refine ⟨dst', num', twos, stripped, ?_⟩
  unfold numGcd
  rw [eq, Nat.zero_add, map_eq_bind]
  rfl

theorem shiftBack_spec {divisor : List Nat} (isNum : IsNum config divisor)
    (some' : unsignedValue config divisor ≠ 0) {twos : Nat}
    (fits : unsignedValue config divisor * 2 ^ twos < 2 ^ config.numsize) :
    IsNum config (numLlshift config divisor twos).1 ∧
      unsignedValue config (numLlshift config divisor twos).1 =
        unsignedValue config divisor * 2 ^ twos := by
  have within : twos ≤ config.numsize := by
    have power : 2 ^ twos ≤ unsignedValue config divisor * 2 ^ twos :=
      Nat.le_mul_of_pos_left _ (Nat.pos_of_ne_zero some')
    exact ((Nat.pow_lt_pow_iff_right (by decide)).1 (power.trans_lt fits)).le
  rw [llshift_within (by omega) (by omega), Int.natAbs_natCast]
  exact llshiftBy_exact isNum within fits

theorem gcd_lt {dst num : List Nat} (dstNum : IsNum config dst)
    (dstSome : unsignedValue config dst ≠ 0) :
    Nat.gcd (unsignedValue config dst) (unsignedValue config num) < 2 ^ config.numsize :=
  (gcd_le_left _ (Nat.pos_of_ne_zero dstSome)).trans_lt dstNum.unused

theorem gcd_twos (stripped : Stripped config dst num twos dst' num') :
    Nat.gcd (unsignedValue config dst') (unsignedValue config num') * 2 ^ twos =
      Nat.gcd (unsignedValue config dst) (unsignedValue config num) := by
  rw [stripped.dstTimes, stripped.numTimes, gcd_mul_right]

/-- **`num_gcd`** of numbers that are not zero. -/
theorem numGcd_spec (whole : config.Whole) (dstNum : IsNum config dst) (numNum : IsNum config num)
    (dstSome : unsignedValue config dst ≠ 0) (numSome : unsignedValue config num ≠ 0)
    (enough : unsignedValue config dst + unsignedValue config num < fuel) :
    ∃ divisor, numGcd config fuel dst num = some divisor ∧ IsNum config divisor ∧
      unsignedValue config divisor =
        Nat.gcd (unsignedValue config dst) (unsignedValue config num) := by
  obtain ⟨dst', num', twos, stripped, eq⟩ := numGcd_eq dstNum numNum (.inl dstSome) enough
  obtain ⟨ready, goal, measure⟩ := start_ready stripped dstSome numSome
  have dstLe : unsignedValue config dst' ≤ unsignedValue config dst := by
    rw [stripped.dstTimes]
    exact Nat.le_mul_of_pos_right _ (Nat.two_pow_pos twos)
  have numLe : unsignedValue config num' ≤ unsignedValue config num := by
    rw [stripped.numTimes]
    exact Nat.le_mul_of_pos_right _ (Nat.two_pow_pos twos)
  obtain ⟨divisor, loopEq, divisorNum, isGoal⟩ :=
    @gcdLoop_spec config whole fuel fuel _ ready (by omega) (by omega)
  have back := gcd_twos stripped
  have below := @gcd_lt config dst num dstNum dstSome
  rw [goal] at isGoal
  rw [← back, ← isGoal] at below ⊢
  have divisorSome : unsignedValue config divisor ≠ 0 := by
    intro zero
    rw [← isGoal, zero, Nat.zero_mul] at back
    exact gcd_ne_zero_left dstSome back.symm
  refine ⟨_, by rw [eq, loopEq]; rfl, ?_⟩
  exact shiftBack_spec divisorNum divisorSome below

theorem gcdLoop_zero (tmpNum : IsNum config state.tmp) (zero : unsignedValue config state.tmp = 0)
    (limit fuel : Nat) : gcdLoop config limit fuel state = none := by
  cases fuel with
  | zero => rfl
  | succ fuel =>
    unfold gcdLoop gcdRound
    rw [stripOne_zero tmpNum zero]
    rfl

/-- **With a zero** and a number that is not, `num_gcd` never ends. -/
theorem numGcd_zero (dstNum : IsNum config dst) (numNum : IsNum config num)
    (some' : unsignedValue config dst ≠ 0 ∨ unsignedValue config num ≠ 0)
    (zero : unsignedValue config dst = 0 ∨ unsignedValue config num = 0) (fuel : Nat) :
    numGcd config fuel dst num = none := by
  unfold numGcd
  cases eq : stripBoth config fuel dst num 0 with
  | none => rfl
  | some found =>
    have more := stripBoth_more eq (unsignedValue config dst + unsignedValue config num + 1)
    obtain ⟨dst', num', twos, eq', stripped⟩ := @stripBoth_spec config
      (fuel + (unsignedValue config dst + unsignedValue config num + 1))
      dst num dstNum numNum some' (by omega) 0
    rw [more, some.injEq] at eq'
    rw [eq']
    have power := (Nat.two_pow_pos twos).ne'
    have dstTimes := stripped.dstTimes
    have numTimes := stripped.numTimes
    have loop : gcdLoop config fuel fuel (startState dst' num') = none := by
      have low := lowBit_iff stripped.dstNum
      unfold startState
      by_cases flag : lowPkt dst' &&& 1 ≠ 0
      · rw [decide_eq_true flag]
        refine gcdLoop_zero stripped.numNum ?_ fuel fuel
        have dstSome : unsignedValue config dst ≠ 0 := by
          rw [dstTimes]
          exact Nat.mul_ne_zero (by omega) power
        have numZero := zero.resolve_left dstSome
        rw [numTimes] at numZero
        exact (Nat.mul_eq_zero.1 numZero).resolve_right power
      · rw [decide_eq_false flag]
        refine gcdLoop_zero stripped.dstNum ?_ fuel fuel
        have numOdd := stripped.odd.resolve_left fun dstOdd => flag (low.2 dstOdd)
        have numSome : unsignedValue config num ≠ 0 := by
          rw [numTimes]
          exact Nat.mul_ne_zero (by omega) power
        have dstZero := zero.resolve_right numSome
        rw [dstTimes] at dstZero
        exact (Nat.mul_eq_zero.1 dstZero).resolve_right power
    unfold startState at loop
    simp only [bind_eq_bind, bind_some, loop, bind_none]

theorem numNegate_undefined (notWhole : ¬config.Whole) (np : List Nat) :
    numNegate config np = none := by
  have noSign : sign config (numComplement config np) = none := if_neg notWhole
  unfold numNegate numSadd
  rw [noSign]
  rfl

theorem gcdLoop_equal {limit fuel : Nat} {state : GcdState} (ready : GcdReady config state)
    (enough : unsignedValue config state.tmp < limit)
    (equal : OddPart (unsignedValue config state.tmp) (unsignedValue config state.kept)) :
    ∃ dst, gcdLoop config limit (fuel + 1) state = some dst ∧ IsNum config dst ∧
      unsignedValue config dst = unsignedValue config state.kept := by
  obtain ⟨part, partNum, isPart, eq⟩ := gcdRound_eq ready enough
  have same := isPart.unique equal
  unfold gcdLoop
  rw [eq]
  cases state.flag with
  | false =>
    obtain ⟨greater, zero⟩ := numUcompare_spec partNum ready.keptNum
    simp only [Bool.false_eq_true, if_false]
    rw [if_neg (by omega), if_pos (by omega)]
    exact ⟨part, rfl, partNum, same⟩
  | true =>
    obtain ⟨greater, zero⟩ := numUcompare_spec ready.keptNum partNum
    simp only [if_true]
    rw [if_neg (by omega), if_pos (by omega)]
    exact ⟨state.kept, rfl, ready.keptNum, rfl⟩

theorem equal_of_gcdLoop (notWhole : ¬config.Whole) {limit : Nat} (ready : GcdReady config state)
    (enough : unsignedValue config state.tmp < limit)
    (eq : gcdLoop config limit fuel state = some dst) :
    OddPart (unsignedValue config state.tmp) (unsignedValue config state.kept) := by
  obtain ⟨part, partNum, isPart, roundEq⟩ := gcdRound_eq ready enough
  have last : unsignedValue config part = unsignedValue config state.kept := by
    cases fuel with
    | zero => cases eq
    | succ fuel =>
      unfold gcdLoop at eq
      rw [roundEq] at eq
      simp only [numNegate_undefined notWhole, bind_none] at eq
      cases flag : state.flag with
      | false =>
        obtain ⟨_, zero⟩ := numUcompare_spec partNum ready.keptNum
        by_contra different
        simp only [flag, Bool.false_eq_true, if_false, mt zero.1 different, ite_self] at eq
        cases eq
      | true =>
        obtain ⟨_, zero⟩ := numUcompare_spec ready.keptNum partNum
        by_contra different
        simp only [flag, if_true, mt zero.1 (Ne.symm different), if_false, ite_self] at eq
        cases eq
  rw [← last]
  exact isPart

theorem numUdivrem_one (denomNum : IsNum config denom) (one : unsignedValue config denom = 1) :
    numUdivrem config numer denom = some ⟨numer, prenum config 0, 0⟩ := by
  rcases numHighbitno_spec denomNum with
    ⟨isZero, _⟩ | ⟨high, highEq, above, below⟩
  · omega
  · have zero : high = 0 := by
      by_contra positive
      have power := Nat.pow_le_pow_right Nat.two_pos (one_le_iff_ne_zero.2 positive)
      omega
    unfold numUdivrem
    rw [highEq, zero]
    rfl

theorem numUdivrem_undefined (notWhole : ¬config.Whole) (numerNum : IsNum config numer)
    (denomNum : IsNum config denom) (large : 2 ≤ unsignedValue config denom)
    (order : unsignedValue config denom ≤ unsignedValue config numer) :
    numUdivrem config numer denom = none := by
  rcases numHighbitno_spec denomNum with
    ⟨isZero, _⟩ | ⟨high, highEq, above, below⟩
  · omega
  · rcases numHighbitno_spec numerNum with
      ⟨isZero, _⟩ | ⟨highNumer, highNumerEq, aboveNumer, belowNumer⟩
    · omega
    · have positive : high ≠ 0 := by
        rintro rfl
        omega
      have noLess : high ≤ highNumer := by
        have powers : 2 ^ high < 2 ^ (highNumer + 1) := by omega
        have := (Nat.pow_lt_pow_iff_right (by decide)).1 powers
        omega
      unfold numUdivrem
      rw [highEq, highNumerEq]
      simp only [bind_eq_bind, bind_some]
      rw [if_neg (by omega), if_neg (by omega), if_neg (by omega), numNegate_undefined notWhole]
      rfl

theorem numLcm_eq {divisor quot rem : List Nat} {oflow : Nat}
    (gcdEq : numGcd config fuel dst src = some divisor)
    (divEq : numUdivrem config dst divisor = some ⟨quot, rem, oflow⟩) :
    numLcm config fuel dst src = some (numUmultiply config quot src) := by
  unfold numLcm numUdivide
  rw [gcdEq]
  simp only [bind_eq_bind, bind_some, divEq]
  rfl

/-- **`num_lcm`** of numbers that are not zero. -/
theorem numLcm_spec (whole : config.Whole) (dstNum : IsNum config dst) (srcNum : IsNum config src)
    (dstSome : unsignedValue config dst ≠ 0) (srcSome : unsignedValue config src ≠ 0)
    (enough : unsignedValue config dst + unsignedValue config src < fuel) :
    UnsignedRight config (numLcm config fuel dst src) (Nat.lcm (unsignedValue config dst)
      (unsignedValue config src) : Nat) := by
  obtain ⟨divisor, gcdEq, divisorNum, isGcd⟩ :=
    numGcd_spec whole dstNum srcNum dstSome srcSome enough
  have divisorSome : unsignedValue config divisor ≠ 0 := by
    rw [isGcd]
    exact gcd_ne_zero_left dstSome
  obtain ⟨quot, rem, divEq, dividing⟩ := numUdivrem_spec whole dstNum divisorNum divisorSome
  obtain ⟨quotNum, _, parts, less⟩ := dividing
  rw [Nat.pow_zero, Nat.div_one] at parts
  have product : Nat.lcm (unsignedValue config dst) (unsignedValue config src) =
      unsignedValue config quot * unsignedValue config src := by
    have quotient : unsignedValue config dst / unsignedValue config divisor =
        unsignedValue config quot := by
      rw [parts, Nat.mul_comm, mul_add_div (by omega), div_eq_of_lt less, Nat.add_zero]
    unfold Nat.lcm
    rw [← quotient, isGcd, Nat.div_mul_right_comm (Nat.gcd_dvd_left _ _)]
  rw [numLcm_eq gcdEq divEq, product]
  exact umultiply_right whole quotNum srcNum

theorem start_cases (dstNum : IsNum config dst) (num : List Nat) :
    (startState dst num = ⟨true, num, dst, num⟩ ∧ unsignedValue config dst % 2 = 1) ∨
      (startState dst num = ⟨false, dst, dst, num⟩ ∧ unsignedValue config dst % 2 = 0) := by
  have low := lowBit_iff dstNum
  unfold startState
  by_cases flag : lowPkt dst &&& 1 ≠ 0
  · rw [decide_eq_true flag]
    exact .inl ⟨rfl, low.1 flag⟩
  · rw [decide_eq_false flag]
    exact .inr ⟨rfl, by have := mt low.2 flag; omega⟩

theorem stripped_coprime (stripped : Stripped config dst num twos dst' num')
    (coprime : Nat.gcd (unsignedValue config dst) (unsignedValue config num) = 1) :
    twos = 0 ∧ unsignedValue config dst' = unsignedValue config dst ∧
      unsignedValue config num' = unsignedValue config num := by
  have back := gcd_twos stripped
  rw [coprime] at back
  have power : 2 ^ twos = 1 := eq_one_of_mul_eq_one_left back
  have zero : twos = 0 := (Nat.pow_eq_one.1 power).resolve_left (by decide)
  have dstTimes := stripped.dstTimes
  have numTimes := stripped.numTimes
  rw [zero, Nat.pow_zero, Nat.mul_one] at dstTimes numTimes
  exact ⟨zero, dstTimes.symm, numTimes.symm⟩

/-- A power of two and one: nothing has to be negated. -/
theorem gcd_one_spec (dstNum : IsNum config dst) (srcNum : IsNum config src)
    (powers : (unsignedValue config dst = 1 ∧ OddPart (unsignedValue config src) 1) ∨
      (unsignedValue config src = 1 ∧ OddPart (unsignedValue config dst) 1))
    (enough : unsignedValue config dst + unsignedValue config src < fuel) :
    (∃ divisor, numGcd config fuel dst src = some divisor ∧ IsNum config divisor ∧
      unsignedValue config divisor = Nat.gcd (unsignedValue config dst)
        (unsignedValue config src)) ∧
      UnsignedRight config (numLcm config fuel dst src) (Nat.lcm (unsignedValue config dst)
        (unsignedValue config src) : Nat) := by
  have coprime : Nat.gcd (unsignedValue config dst) (unsignedValue config src) = 1 := by
    rcases powers with ⟨one, _⟩ | ⟨one, _⟩
    · rw [one, gcd_one_left]
    · rw [one, gcd_one_right]
  have dstSome : unsignedValue config dst ≠ 0 := by
    rcases powers with ⟨one, _⟩ | ⟨_, part⟩
    · omega
    · have := part.bounds
      omega
  have srcSome : unsignedValue config src ≠ 0 := by
    rcases powers with ⟨_, part⟩ | ⟨one, _⟩
    · have := part.bounds
      omega
    · omega
  obtain ⟨dst', num', twos, stripped, gcdEq⟩ := numGcd_eq dstNum srcNum (.inl dstSome) enough
  obtain ⟨ready, _, measure⟩ := start_ready stripped dstSome srcSome
  obtain ⟨noTwos, dstSame, numSame⟩ := stripped_coprime stripped coprime
  have equal : unsignedValue config (startState dst' num').kept = 1 ∧
      OddPart (unsignedValue config (startState dst' num').tmp) 1 := by
    rcases start_cases stripped.dstNum num' with
      ⟨isStart, odd⟩ | ⟨isStart, even⟩
    · rw [isStart]
      change unsignedValue config dst' = 1 ∧ OddPart (unsignedValue config num') 1
      rw [dstSame, numSame]
      rw [dstSame] at odd
      rcases powers with both | ⟨one, part⟩
      · exact both
      · have dstOne := (OddPart.self odd).unique part
        rw [one]
        exact ⟨dstOne, OddPart.self rfl⟩
    · rw [isStart]
      change unsignedValue config num' = 1 ∧ OddPart (unsignedValue config dst') 1
      rw [dstSame, numSame]
      rcases powers with ⟨one, _⟩ | both
      · omega
      · exact both
  obtain ⟨kept, part⟩ := equal
  obtain ⟨less, rfl⟩ : ∃ less, fuel = less + 1 := ⟨fuel - 1, by omega⟩
  have tmpBelow : unsignedValue config (startState dst' num').tmp < less + 1 := by
    unfold GcdState.measure at measure
    omega
  obtain ⟨divisor, loopEq, divisorNum, isKept⟩ :=
    @gcdLoop_equal config (less + 1) less _ ready tmpBelow (by rw [kept]; exact part)
  rw [kept] at isKept
  have big : 1 < 2 ^ config.numsize := Nat.one_lt_two_pow (numsize_pos config).ne'
  obtain ⟨backNum, backValue⟩ := @shiftBack_spec config divisor divisorNum (by omega) twos
    (by rw [isKept, noTwos]; exact big)
  rw [isKept, noTwos, Nat.pow_zero, Nat.mul_one] at backValue
  rw [loopEq, noTwos] at gcdEq
  rw [noTwos] at backNum
  refine ⟨⟨_, gcdEq, backNum, by rw [backValue, coprime]⟩, ?_⟩
  have fits : unsignedValue config dst * unsignedValue config src < 2 ^ config.numsize := by
    rcases powers with ⟨one, _⟩ | ⟨one, _⟩
    · rw [one, Nat.one_mul]
      exact srcNum.unused
    · rw [one, Nat.mul_one]
      exact dstNum.unused
  obtain ⟨productNum, productValue, noOflow⟩ := numUmultiply_exact dstNum srcNum fits
  have product : Nat.lcm (unsignedValue config dst) (unsignedValue config src) =
      unsignedValue config dst * unsignedValue config src := by
    unfold Nat.lcm
    rw [coprime, Nat.div_one]
  have power : (2 : Int) ^ config.numsize = ((2 ^ config.numsize : Nat) : Int) := by rfl
  rw [numLcm_eq gcdEq (numUdivrem_one backNum backValue), product]
  refine ⟨(numUmultiply config dst src).1, (numUmultiply config dst src).2, rfl, productNum, ?_, ?_⟩
  · rw [unsignedValue, productValue, power]
    exact (Int.emod_eq_of_lt (by omega) (by exact_mod_cast fits)).symm
  · rw [noOflow, power]
    have fitsCast : ((unsignedValue config dst * unsignedValue config src : Nat) : Int) <
        ((2 ^ config.numsize : Nat) : Int) := by
      exact_mod_cast fits
    simp only [ne_eq, not_true_eq_false, false_iff, not_not]
    exact ⟨Int.natCast_nonneg _, fitsCast⟩

theorem powers_of_right (notWhole : ¬config.Whole) (dstNum : IsNum config dst)
    (srcNum : IsNum config src) (dstSome : unsignedValue config dst ≠ 0)
    (srcSome : unsignedValue config src ≠ 0) (right : GcdRight config dst src) :
    (unsignedValue config dst = 1 ∧ OddPart (unsignedValue config src) 1) ∨
      (unsignedValue config src = 1 ∧ OddPart (unsignedValue config dst) 1) := by
  obtain ⟨⟨gcdBound, gcdRight⟩, ⟨lcmBound, lcmRight⟩⟩ := right
  obtain ⟨fuel, isFuel⟩ : ∃ fuel, fuel = gcdBound + lcmBound +
    (unsignedValue config dst + unsignedValue config src + 1) :=
    ⟨_, rfl⟩
  obtain ⟨divisor, gcdEq, divisorNum, isGcd⟩ := gcdRight fuel (by omega)
  obtain ⟨product, oflow, lcmEq, _⟩ := lcmRight fuel (by omega)
  have coprime : Nat.gcd (unsignedValue config dst) (unsignedValue config src) = 1 := by
    have positive : Nat.gcd (unsignedValue config dst) (unsignedValue config src) ≠ 0 :=
      gcd_ne_zero_left dstSome
    by_contra notOne
    have undefined := numUdivrem_undefined notWhole dstNum divisorNum (by omega) (by
        rw [isGcd]
        exact gcd_le_left _ (Nat.pos_of_ne_zero dstSome))
    unfold numLcm numUdivide at lcmEq
    rw [gcdEq] at lcmEq
    simp only [bind_eq_bind, bind_some, undefined, map_none, bind_none] at lcmEq
    cases lcmEq
  obtain ⟨dst', num', twos, stripped, eq⟩ :=
    @numGcd_eq config fuel dst src dstNum srcNum (.inl dstSome) (by omega)
  obtain ⟨ready, goal, measure⟩ := start_ready stripped dstSome srcSome
  obtain ⟨noTwos, dstSame, numSame⟩ := stripped_coprime stripped coprime
  rw [gcdEq] at eq
  obtain ⟨found, loopEq, _⟩ := Option.map_eq_some_iff.1 eq.symm
  have tmpBelow : unsignedValue config (startState dst' num').tmp < fuel := by
    unfold GcdState.measure at measure
    omega
  have equal := equal_of_gcdLoop notWhole ready tmpBelow loopEq
  have keptOne : unsignedValue config (startState dst' num').kept = 1 := by
    rw [dstSame, numSame, coprime] at goal
    obtain ⟨_, times, isTimes⟩ := equal
    unfold GcdState.goal at goal
    rw [isTimes, gcd_mul_right_right] at goal
    exact goal
  rw [keptOne] at equal
  rcases start_cases stripped.dstNum num' with
    ⟨isStart, _⟩ | ⟨isStart, _⟩
  · rw [isStart] at keptOne equal
    change unsignedValue config dst' = 1 at keptOne
    exact .inl ⟨by omega, by rw [← numSame]; exact equal⟩
  · rw [isStart] at keptOne equal
    change unsignedValue config num' = 1 at keptOne
    exact .inr ⟨by omega, by rw [← dstSame]; exact equal⟩

/--
**Common divisor and multiple are right** exactly when neither number is zero,
and the top packet holds part of the number or nothing has to be negated.
-/
theorem gcdRight_iff (config : Config) (dst src : IntNum config) (some' :
    unsignedValue config dst.pkt ≠ 0 ∨ unsignedValue config src.pkt ≠ 0) :
    GcdRight config dst.pkt src.pkt ↔ GcdFits config dst.pkt src.pkt := by
  constructor
  · intro right
    have neither : ¬(unsignedValue config dst.pkt = 0 ∨ unsignedValue config src.pkt = 0) := by
      intro zero
      obtain ⟨bound, gcd⟩ := right.gcd
      obtain ⟨divisor, eq, _⟩ := gcd bound le_rfl
      rw [numGcd_zero dst.isNum src.isNum some' zero] at eq
      cases eq
    push Not at neither
    refine ⟨neither.1, neither.2, ?_⟩
    by_cases whole : config.Whole
    · exact .inl whole
    · exact .inr (powers_of_right whole dst.isNum src.isNum neither.1 neither.2 right)
  · rintro ⟨dstSome, srcSome, whole | powers⟩
    · exact ⟨⟨_, fun fuel enough =>
        numGcd_spec whole dst.isNum src.isNum dstSome srcSome enough⟩, ⟨_, fun fuel enough =>
          numLcm_spec whole dst.isNum src.isNum dstSome srcSome enough⟩⟩
    · exact ⟨⟨_, fun fuel enough =>
        (gcd_one_spec dst.isNum src.isNum powers enough).1⟩, ⟨_, fun fuel enough =>
          (gcd_one_spec dst.isNum src.isNum powers enough).2⟩⟩

theorem gcd_zeroLoops : (IsNum i386Config [6, 0, 0, 0] ∧ IsNum i386Config [0, 0, 0, 0]) ∧ (∀ fuel,
    numGcd i386Config fuel [6, 0, 0, 0] [0, 0, 0, 0] = none) ∧
    ¬GcdRight i386Config [6, 0, 0, 0] [0, 0, 0, 0] := by
  have six : IsNum i386Config [6, 0, 0, 0] := ⟨⟨rfl, by unfold Fits; decide⟩, by decide⟩
  have zero : IsNum i386Config [0, 0, 0, 0] := ⟨⟨rfl, by unfold Fits; decide⟩, by decide⟩
  have loops (fuel : Nat) : numGcd i386Config fuel [6, 0, 0, 0] [0, 0, 0, 0] = none :=
    numGcd_zero six zero (.inl (by decide)) (.inr (by decide)) fuel
  refine ⟨⟨six, zero⟩, loops, fun right => ?_⟩
  obtain ⟨bound, gcd⟩ := right.gcd
  obtain ⟨divisor, eq, _⟩ := gcd bound le_rfl
  rw [loops] at eq
  cases eq

theorem gcdRight_sample : GcdRight i386Config [6, 0, 0, 0] [4, 0, 0, 0] := (gcdRight_iff i386Config
    ⟨[6, 0, 0, 0], ⟨rfl, by unfold Fits; decide⟩, by decide⟩
    ⟨[4, 0, 0, 0], ⟨rfl, by unfold Fits; decide⟩, by decide⟩ (.inl (by decide))).2
    { dstSome := by decide
      srcSome := by decide
      negation := .inl (by
        unfold Config.Whole
        decide +kernel) }

end Uw7.Intemu
