import Uw7.Intemu.DivisionRight
import Uw7.Lib.BinaryGcd

namespace Uw7.Intemu

/-!
# Common divisors and multiples

`num_gcd` removes the common factors of two, then subtracts the smaller of two
odd numbers from the larger and removes the factors of two of the difference.
The flag says which of the two the difference replaces.  The loops have no bound
of their own; a model of them takes one, and `none` stands for a loop that goes on
beyond it, as for undefined calls.
-/

open Lib Lib.Limbs

variable (config : Config)

def lowPkt (pkt : List Nat) : Nat := pkt.getD 0 0

/-- `for (n = 1; ((val >>= 1) & 0x1) == 0; n++)`, for a packet of so many bits
with a bit set. -/
def zeroBits : Nat → Nat → Nat
  | 0, _ => 0
  | bits + 1, val =>
    let val := val >>> 1
    if val &&& 1 ≠ 0 then 1 else zeroBits bits val + 1

def down (np : List Nat) (n : Nat) : List Nat := (numLrshift config np n).1

/-- The first loop of `num_gcd` and the shift behind it: both numbers without
their common factors of two, and how many there were. -/
def stripBoth : Nat → List Nat → List Nat → Nat → Option (List Nat × List Nat × Nat)
  | 0, _, _, _ => none
  | fuel + 1, dst, num, nbit =>
    let val := lowPkt dst ||| lowPkt num
    if val = 0 then
      stripBoth fuel (down config dst config.npktbit)
        (down config num config.npktbit) (nbit + config.npktbit)
    else if val &&& 1 = 0 then
      let n := zeroBits config.npktbit val
      some (down config dst n, down config num n, nbit + n)
    else some (dst, num, nbit)

/-- The inner loop of `num_gcd` and the shift behind it: `tmp` without its
factors of two. -/
def stripOne : Nat → List Nat → Option (List Nat)
  | 0, _ => none
  | fuel + 1, tmp =>
    let val := lowPkt tmp
    if val = 0 then stripOne fuel (down config tmp config.npktbit)
    else if val &&& 1 = 0 then
      some (down config tmp (zeroBits config.npktbit val))
    else some tmp

/-- The variables of the main loop of `num_gcd`. -/
structure GcdState where
  flag : Bool
  tmp : List Nat
  dst : List Nat
  num : List Nat

/-- One round of the main loop: the result, or the next round's variables. -/
def gcdRound (limit : Nat) (state : GcdState) : Option (List Nat ⊕ GcdState) := do
  let tmp ← stripOne config limit state.tmp
  let num := if state.flag then tmp else state.num
  let dst := if state.flag then state.dst else tmp
  let order := numUcompare dst num
  if 0 < order then
    let (tmp, _) ← numNegate config num
    return .inr ⟨false, (numUadd config tmp dst).1, dst, num⟩
  else if order = 0 then
    return .inl dst
  else
    let (tmp, _) ← numNegate config dst
    return .inr ⟨true, (numUadd config tmp num).1, dst, num⟩

/-- The main loop of `num_gcd`. -/
def gcdLoop (limit : Nat) : Nat → GcdState → Option (List Nat)
  | 0, _ => none
  | fuel + 1, state => do
      match ← gcdRound config limit state with
      | .inl dst => some dst
      | .inr next => gcdLoop limit fuel next

/-- `num_gcd`, with at most so many rounds of each loop. -/
def numGcd (fuel : Nat) (dst src : List Nat) : Option (List Nat) := do
  let (dst, num, nbit) ← stripBoth config fuel dst src 0
  let flag := decide (lowPkt dst &&& 1 ≠ 0)
  let tmp := if flag then num else dst
  let dst ← gcdLoop config fuel fuel ⟨flag, tmp, dst, num⟩
  return (numLlshift config dst nbit).1

def numLcm (fuel : Nat) (dst src : List Nat) : Option (List Nat × Nat) := do
  let gcd ← numGcd config fuel dst src
  let (dst, _) ← numUdivide config dst gcd
  return numUmultiply config dst src

end Uw7.Intemu

namespace Uw7.Intemu

/-!
# One round of the binary algorithm

The loops that strip factors of two end because what they strip is not zero; a
round of the main loop makes the sum of its two numbers smaller.
-/

open Lib Lib.Limbs Lib.BinaryGcd

variable {config : Config}

variable {np tmp : List Nat} {fuel one two limit : Nat} {state : GcdState}

theorem lowPkt_eq (isNum : IsNum config np) :
    lowPkt np = unsignedValue config np % 2 ^ config.npktbit := by
  have low := getD_eq isNum.fits 0
  rw [Nat.mul_zero, Nat.pow_zero, Nat.div_one] at low
  exact low

theorem down_spec (isNum : IsNum config np) {n : Nat} (within : n ≤ config.numsize) :
    IsNum config (down config np n) ∧ unsignedValue config (down config np n) =
      unsignedValue config np / 2 ^ n := by
  have count : cutCount config (n : Int) = n := by
    unfold cutCount
    exact Nat.min_eq_left within
  have same : down config np n = lrshiftBy config np n := by
    unfold down numLrshift
    rw [if_neg (by omega), count]
  rw [same]
  exact lrshiftBy_spec isNum within

/-- **The zero bits of a packet** are the factors of two of the number. -/
theorem zeroBits_spec {bits number : Nat} (some' : number % 2 ^ bits ≠ 0)
    (even : number % 2 ^ bits &&& 1 = 0) :
    zeroBits bits (number % 2 ^ bits) ≤ bits ∧
      number / 2 ^ zeroBits bits (number % 2 ^ bits) % 2 = 1 ∧
      number / 2 ^ zeroBits bits (number % 2 ^ bits) *
        2 ^ zeroBits bits (number % 2 ^ bits) = number := by
  induction bits generalizing number with
  | zero =>
    rw [Nat.pow_zero, Nat.mod_one] at some'
    exact absurd rfl some'
  | succ bits ih =>
    have half : (number % 2 ^ (bits + 1)) >>> 1 = number / 2 % 2 ^ bits := by
      rw [Nat.shiftRight_eq_div_pow, Nat.pow_one, Nat.pow_succ,
        Nat.mul_comm, Nat.mod_mul_right_div_self]
    have numberEven : number % 2 = 0 := by
      rw [Nat.and_one_is_mod, Nat.pow_succ, Nat.mul_comm, Nat.mod_mul_right_mod] at even
      exact even
    unfold zeroBits
    rw [half]
    dsimp only
    split
    · rename_i odd
      cases bits with
      | zero =>
        rw [Nat.pow_zero, Nat.mod_one] at odd
        exact absurd rfl odd
      | succ bits =>
        rw [Nat.and_one_is_mod, Nat.pow_succ, Nat.mul_comm (2 ^ bits), Nat.mod_mul_right_mod] at odd
        omega
    · rename_i stillEven
      have halfSome : number / 2 % 2 ^ bits ≠ 0 := by
        intro zero
        have parts := Nat.mod_mul (x := number) (a := 2) (b := 2 ^ bits)
        rw [zero, Nat.mul_zero, Nat.add_zero, numberEven, ← Nat.pow_succ'] at parts
        exact some' parts
      obtain ⟨within, odd, times⟩ := ih halfSome (not_not.1 stillEven)
      rw [Nat.pow_succ', ← Nat.div_div_eq_div_mul]
      refine ⟨by omega, odd, ?_⟩
      rw [Nat.mul_left_comm, times]
      omega

/-- **`tmp` without its factors of two.** -/
theorem stripOne_spec (isNum : IsNum config tmp) (some' : unsignedValue config tmp ≠ 0)
    (enough : unsignedValue config tmp < fuel) :
    ∃ stripped, stripOne config fuel tmp = some stripped ∧ IsNum config stripped ∧
      OddPart (unsignedValue config tmp) (unsignedValue config stripped) := by
  induction fuel generalizing tmp with
  | zero => omega
  | succ fuel ih =>
    have long := npktbit_le_numsize config
    have twice : 2 ≤ 2 ^ config.npktbit := Nat.le_self_pow config.npktbit_pos.ne' 2
    have low := lowPkt_eq isNum
    unfold stripOne
    dsimp only
    rw [low]
    split
    · rename_i zero
      obtain ⟨downNum, downValue⟩ := down_spec isNum long
      have split := Nat.div_add_mod (unsignedValue config tmp) (2 ^ config.npktbit)
      rw [zero, Nat.add_zero, Nat.mul_comm] at split
      have fewer : unsignedValue config tmp / 2 ^ config.npktbit < unsignedValue config tmp :=
        Nat.div_lt_self (Nat.pos_of_ne_zero some') twice
      have downSome : unsignedValue config tmp / 2 ^ config.npktbit ≠ 0 := by
        intro none'
        rw [none', Nat.zero_mul] at split
        exact some' split.symm
      obtain ⟨stripped, eq, strippedNum, part⟩ :=
        ih downNum (by rw [downValue]; exact downSome) (by omega)
      refine ⟨stripped, eq, strippedNum, ?_⟩
      rw [downValue] at part
      have shifted := part.shifted config.npktbit
      rwa [split] at shifted
    · rename_i lowSome
      split
      · rename_i even
        obtain ⟨within, odd, times⟩ := zeroBits_spec lowSome even
        obtain ⟨downNum, downValue⟩ := down_spec isNum (within.trans long)
        refine ⟨_, rfl, downNum, ?_⟩
        rw [downValue]
        exact ⟨odd, _, times.symm⟩
      · rename_i odd
        refine ⟨tmp, rfl, isNum, OddPart.self ?_⟩
        obtain ⟨less, isLess⟩ := Nat.exists_eq_add_of_le' config.npktbit_pos
        rw [isLess, Nat.and_one_is_mod, Nat.pow_succ, Nat.mul_comm, Nat.mod_mul_right_mod] at odd
        omega

theorem stripOne_zero (isNum : IsNum config tmp) (zero : unsignedValue config tmp = 0) (fuel : Nat)
    :
    stripOne config fuel tmp = none := by
  induction fuel generalizing tmp with
  | zero => rfl
  | succ fuel ih =>
    obtain ⟨downNum, downValue⟩ := down_spec isNum (npktbit_le_numsize config)
    unfold stripOne
    rw [lowPkt_eq isNum, zero, Nat.zero_mod, if_pos rfl]
    refine ih downNum ?_
    rw [downValue, zero, Nat.zero_div]

/-- Two numbers without their common factors of two. -/
structure Stripped (config : Config) (dst num : List Nat) (twos : Nat)
    (dst' num' : List Nat) : Prop where
  dstNum : IsNum config dst'
  numNum : IsNum config num'
  dstTimes : unsignedValue config dst = unsignedValue config dst' * 2 ^ twos
  numTimes : unsignedValue config num = unsignedValue config num' * 2 ^ twos
  odd : unsignedValue config dst' % 2 = 1 ∨ unsignedValue config num' % 2 = 1

theorem dvd_of_dvd_or {twos : Nat} (divides : (one ||| two) % 2 ^ twos = 0) :
    one / 2 ^ twos * 2 ^ twos = one ∧ two / 2 ^ twos * 2 ^ twos = two := by
  rw [Nat.or_mod_two_pow, Nat.or_eq_zero_iff] at divides
  exact ⟨Nat.div_mul_cancel (Nat.dvd_of_mod_eq_zero divides.1),
    Nat.div_mul_cancel (Nat.dvd_of_mod_eq_zero divides.2)⟩

theorem odd_or (odd : (one ||| two) % 2 = 1) : one % 2 = 1 ∨ two % 2 = 1 := by
  by_contra none'
  have oneEven : one % 2 ^ 1 = 0 := by omega
  have twoEven : two % 2 ^ 1 = 0 := by omega
  have even := Nat.or_mod_two_pow (a := one) (b := two) (n := 1)
  rw [oneEven, twoEven, Nat.pow_one] at even
  rw [even] at odd
  exact absurd odd (by decide)

/-- **The common factors of two.** -/
theorem stripBoth_spec {fuel : Nat} {dst num : List Nat} (dstNum : IsNum config dst)
    (numNum : IsNum config num)
    (some' : unsignedValue config dst ≠ 0 ∨ unsignedValue config num ≠ 0)
    (enough : unsignedValue config dst + unsignedValue config num < fuel) (nbit : Nat) :
    ∃ dst' num' twos, stripBoth config fuel dst num nbit = some (dst', num', nbit + twos) ∧
      Stripped config dst num twos dst' num' := by
  induction fuel generalizing dst num nbit with
  | zero => omega
  | succ fuel ih =>
    have long := npktbit_le_numsize config
    have twice : 2 ≤ 2 ^ config.npktbit := Nat.le_self_pow config.npktbit_pos.ne' 2
    unfold stripBoth
    dsimp only
    rw [lowPkt_eq dstNum, lowPkt_eq numNum, ← Nat.or_mod_two_pow]
    split
    · rename_i zero
      obtain ⟨dstDownNum, dstDownValue⟩ := down_spec dstNum long
      obtain ⟨numDownNum, numDownValue⟩ := down_spec numNum long
      obtain ⟨dstParts, numParts⟩ := dvd_of_dvd_or zero
      have fewer : unsignedValue config dst / 2 ^ config.npktbit +
          unsignedValue config num / 2 ^ config.npktbit <
          unsignedValue config dst + unsignedValue config num := by
        have dstTwice := Nat.mul_le_mul_left (unsignedValue config dst / 2 ^ config.npktbit) twice
        have numTwice := Nat.mul_le_mul_left (unsignedValue config num / 2 ^ config.npktbit) twice
        omega
      have downSome : unsignedValue config dst / 2 ^ config.npktbit ≠ 0 ∨
          unsignedValue config num / 2 ^ config.npktbit ≠ 0 := by
        by_contra none'
        push Not at none'
        rw [none'.1, Nat.zero_mul] at dstParts
        rw [none'.2, Nat.zero_mul] at numParts
        omega
      obtain ⟨dst', num', twos, eq, stripped⟩ := ih dstDownNum numDownNum
        (by rw [dstDownValue, numDownValue]; exact downSome)
        (by omega) (nbit + config.npktbit)
      refine ⟨dst', num', config.npktbit + twos, ?_, ?_⟩
      · rw [eq, Nat.add_assoc]
      · have dstTimes := stripped.dstTimes
        have numTimes := stripped.numTimes
        rw [dstDownValue] at dstTimes
        rw [numDownValue] at numTimes
        refine ⟨stripped.dstNum, stripped.numNum, ?_, ?_, stripped.odd⟩
        · rw [← dstParts, dstTimes, Nat.pow_add]
          ring
        · rw [← numParts, numTimes, Nat.pow_add]
          ring
    · rename_i lowSome
      split
      · rename_i even
        obtain ⟨within, odd, times⟩ := zeroBits_spec lowSome even
        generalize zeroBits config.npktbit
          ((unsignedValue config dst ||| unsignedValue config num) %
            2 ^ config.npktbit) = twos at within odd times ⊢
        obtain ⟨dstDownNum, dstDownValue⟩ := down_spec dstNum (within.trans long)
        obtain ⟨numDownNum, numDownValue⟩ := down_spec numNum (within.trans long)
        have divides : (unsignedValue config dst ||| unsignedValue config num) % 2 ^ twos = 0 := by
          rw [← times]
          exact Nat.mul_mod_left _ _
        obtain ⟨dstParts, numParts⟩ := dvd_of_dvd_or divides
        refine ⟨_, _, twos, rfl, dstDownNum, numDownNum, ?_, ?_, ?_⟩
        · rw [dstDownValue, dstParts]
        · rw [numDownValue, numParts]
        · rw [dstDownValue, numDownValue]
          refine odd_or ?_
          rw [← Nat.or_div_two_pow]
          exact odd
      · rename_i odd
        refine ⟨dst, num, 0, rfl, dstNum, numNum, ?_, ?_, odd_or ?_⟩
        · rw [Nat.pow_zero, Nat.mul_one]
        · rw [Nat.pow_zero, Nat.mul_one]
        · obtain ⟨less, isLess⟩ := Nat.exists_eq_add_of_le' config.npktbit_pos
          rw [isLess, Nat.and_one_is_mod, Nat.pow_succ, Nat.mul_comm, Nat.mod_mul_right_mod] at odd
          omega

theorem stripBoth_more {dst num : List Nat} {nbit : Nat} {found : List Nat × List Nat × Nat}
    (eq : stripBoth config fuel dst num nbit = some found) (more : Nat) :
    stripBoth config (fuel + more) dst num nbit = some found := by
  induction fuel generalizing dst num nbit with
  | zero => cases eq
  | succ fuel ih =>
    rw [Nat.succ_add]
    unfold stripBoth at eq ⊢
    by_cases zero : lowPkt dst ||| lowPkt num = 0
    · rw [if_pos zero] at eq ⊢
      exact ih eq
    · rw [if_neg zero] at eq ⊢
      exact eq

theorem comparePkts_swap (n1 n2 : List Nat) : comparePkts n2 n1 = -comparePkts n1 n2 := by
  induction n1 generalizing n2 with
  | nil =>
    cases n2 with
    | nil => rfl
    | cons s2 n2 => rfl
  | cons s1 n1 ih =>
    cases n2 with
    | nil => rfl
    | cons s2 n2 =>
      unfold comparePkts
      rcases Nat.lt_trichotomy s1 s2 with less | rfl | more
      · rw [if_neg (by omega), if_pos less, if_pos less]
        rfl
      · simp only [Nat.lt_irrefl, if_false]
        exact ih n2
      · rw [if_pos more, if_neg (by omega), if_pos more]

theorem numUcompare_spec {n1 n2 : List Nat} (isNum1 : IsNum config n1) (isNum2 : IsNum config n2) :
    (0 < numUcompare n1 n2 ↔ unsignedValue config n2 < unsignedValue config n1) ∧
      (numUcompare n1 n2 = 0 ↔ unsignedValue config n1 = unsignedValue config n2) := by
  have above := numUcompare_nonneg isNum1 isNum2
  have below := numUcompare_nonneg isNum2 isNum1
  have swap : numUcompare n2 n1 = -numUcompare n1 n2 := comparePkts_swap n1.reverse n2.reverse
  constructor <;> omega

theorem difference_spec (whole : config.Whole) {less more : List Nat} (lessNum : IsNum config less)
    (moreNum : IsNum config more) (positive : 0 < unsignedValue config less)
    (order : unsignedValue config less ≤ unsignedValue config more) :
    ∃ neg oflow, numNegate config less = some (neg, oflow) ∧
      IsNum config (numUadd config neg more).1 ∧
      unsignedValue config (numUadd config neg more).1 =
        unsignedValue config more - unsignedValue config less := by
  obtain ⟨neg, oflow, eq, negNum, negValue, _⟩ := numNegate_spec whole lessNum
  obtain ⟨sumNum, sumValue, _⟩ := numUadd_spec whole negNum moreNum
  have moreBelow : unsignedValue config more < 2 ^ config.numsize := moreNum.unused
  rw [Nat.mod_eq_of_lt (by omega)] at negValue
  refine ⟨neg, oflow, eq, sumNum, ?_⟩
  have total : 2 ^ config.numsize - unsignedValue config less + unsignedValue config more =
      unsignedValue config more - unsignedValue config less + 2 ^ config.numsize := by
    omega
  rw [sumValue, negValue, total, Nat.add_mod_right, Nat.mod_eq_of_lt (by omega)]

/-- The number that the next difference does not replace. -/
def GcdState.kept (state : GcdState) : List Nat :=
  if state.flag then state.dst else state.num

/-- Between two rounds: the number kept is odd, and what replaces the other is
not zero. -/
structure GcdReady (config : Config) (state : GcdState) : Prop where
  tmpNum : IsNum config state.tmp
  keptNum : IsNum config state.kept
  keptOdd : unsignedValue config state.kept % 2 = 1
  tmpSome : unsignedValue config state.tmp ≠ 0

/-- The common divisor still to be found. -/
def GcdState.goal (config : Config) (state : GcdState) : Nat :=
  Nat.gcd (unsignedValue config state.kept) (unsignedValue config state.tmp)

/-- The sum of the two numbers. -/
def GcdState.measure (config : Config) (state : GcdState) : Nat :=
  unsignedValue config state.kept + unsignedValue config state.tmp

theorem gcdRound_eq (ready : GcdReady config state)
    (enough : unsignedValue config state.tmp < limit) :
    ∃ part, IsNum config part ∧ OddPart (unsignedValue config state.tmp)
      (unsignedValue config part) ∧
      gcdRound config limit state =
        let num := if state.flag then part else state.kept
        let dst := if state.flag then state.kept else part
        if 0 < numUcompare dst num then
          (numNegate config num).bind fun neg =>
            some (.inr ⟨false, (numUadd config neg.1 dst).1, dst, num⟩)
        else if numUcompare dst num = 0 then some (.inl dst)
        else
          (numNegate config dst).bind fun neg =>
            some (.inr ⟨true, (numUadd config neg.1 num).1, dst, num⟩) := by
  obtain ⟨part, eq, partNum, isPart⟩ := stripOne_spec ready.tmpNum ready.tmpSome enough
  refine ⟨part, partNum, isPart, ?_⟩
  unfold gcdRound GcdState.kept
  rw [eq]
  cases state.flag with
  | false => rfl
  | true => rfl

/-- **One round** finds the common divisor, or makes the sum smaller and keeps
the common divisor. -/
theorem gcdRound_spec (whole : config.Whole) (ready : GcdReady config state)
    (enough : unsignedValue config state.tmp < limit) :
    (∃ dst, gcdRound config limit state = some (.inl dst) ∧ IsNum config dst ∧
      unsignedValue config dst = state.goal config) ∨
      ∃ next, gcdRound config limit state = some (.inr next) ∧
        GcdReady config next ∧ next.goal config = state.goal config ∧
        next.measure config < state.measure config := by
  obtain ⟨part, partNum, isPart, eq⟩ := gcdRound_eq ready enough
  obtain ⟨tmpNum, keptNum, keptOdd, tmpSome⟩ := ready
  have same := gcd_oddPart keptOdd isPart
  obtain ⟨partPos, partLe⟩ := isPart.bounds
  have partOdd := isPart.isOdd
  -- The two odd numbers, under the names of the source.
  obtain ⟨dst, num, isEq, dstNum, numNum, dstOdd, numOdd, isGoal, sum⟩ : ∃ dst num,
    (gcdRound config limit state =
      if 0 < numUcompare dst num then
        (numNegate config num).bind fun neg =>
          some (.inr ⟨false, (numUadd config neg.1 dst).1, dst, num⟩)
      else if numUcompare dst num = 0 then some (.inl dst)
      else
        (numNegate config dst).bind fun neg =>
          some (.inr ⟨true, (numUadd config neg.1 num).1, dst, num⟩)) ∧
      IsNum config dst ∧ IsNum config num ∧
      unsignedValue config dst % 2 = 1 ∧
      unsignedValue config num % 2 = 1 ∧
      Nat.gcd (unsignedValue config dst) (unsignedValue config num) = state.goal config ∧
      unsignedValue config dst + unsignedValue config num ≤ state.measure config := by
    unfold GcdState.goal GcdState.measure
    cases flag : state.flag with
    | false =>
      refine ⟨part, state.kept, ?_, partNum, keptNum, partOdd, keptOdd, ?_, by omega⟩
      · rw [eq, flag]
        rfl
      · rw [Nat.gcd_comm, same]
    | true =>
      refine ⟨state.kept, part, ?_, keptNum, partNum, keptOdd, partOdd, same, by omega⟩
      rw [eq, flag]
      rfl
  obtain ⟨greater, equal⟩ := numUcompare_spec dstNum numNum
  rw [isEq, ← isGoal]
  rcases Nat.lt_trichotomy (unsignedValue config dst)
    (unsignedValue config num) with less | same' | more
  · obtain ⟨neg, oflow, negEq, diffNum, diffValue⟩ :=
      difference_spec whole dstNum numNum (by omega) less.le
    obtain ⟨sameGcd, diffSome, fewer⟩ := gcd_round (by omega) less
    rw [if_neg (by omega), if_neg (by omega), negEq]
    refine .inr ⟨_, rfl, ⟨diffNum, dstNum, dstOdd, ?_⟩, ?_, ?_⟩
    · rw [diffValue]
      exact diffSome
    · change Nat.gcd (unsignedValue config dst)
        (unsignedValue config (numUadd config neg num).1) = _
      rw [diffValue, sameGcd]
    · change unsignedValue config dst + unsignedValue config (numUadd config neg num).1 < _
      omega
  · rw [if_neg (by omega), if_pos (by omega)]
    refine .inl ⟨_, rfl, dstNum, ?_⟩
    rw [← same', Nat.gcd_self]
  · obtain ⟨neg, oflow, negEq, diffNum, diffValue⟩ :=
      difference_spec whole numNum dstNum (by omega) more.le
    obtain ⟨sameGcd, diffSome, fewer⟩ := gcd_round (by omega) more
    rw [if_pos (by omega), negEq]
    refine .inr ⟨_, rfl, ⟨diffNum, numNum, numOdd, ?_⟩, ?_, ?_⟩
    · rw [diffValue]
      exact diffSome
    · change Nat.gcd (unsignedValue config num)
        (unsignedValue config (numUadd config neg dst).1) = _
      rw [diffValue, sameGcd, Nat.gcd_comm]
    · change unsignedValue config num + unsignedValue config (numUadd config neg dst).1 < _
      omega

/-- **The main loop ends** with the common divisor. -/
theorem gcdLoop_spec (whole : config.Whole) {limit fuel : Nat} {state : GcdState}
    (ready : GcdReady config state) (within : state.measure config < limit)
    (enough : state.measure config < fuel) :
    ∃ dst, gcdLoop config limit fuel state = some dst ∧ IsNum config dst ∧
      unsignedValue config dst = state.goal config := by
  induction fuel generalizing state with
  | zero => omega
  | succ fuel ih =>
    have tmpWithin : unsignedValue config state.tmp < limit := by
      unfold GcdState.measure at within
      omega
    unfold gcdLoop
    rcases gcdRound_spec whole ready tmpWithin with
      ⟨dst, eq, dstNum, isGoal⟩ | ⟨next, eq, nextReady, same, fewer⟩
    · rw [eq]
      exact ⟨dst, rfl, dstNum, isGoal⟩
    · obtain ⟨dst, loopEq, dstNum, isGoal⟩ := ih nextReady (by omega) (by omega)
      rw [eq]
      exact ⟨dst, loopEq, dstNum, isGoal.trans same⟩

end Uw7.Intemu
