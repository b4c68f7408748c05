import Uw7.Intemu.ShiftCalls

namespace Uw7.Intemu

/-!
# When the shifts are right

The reference is the number times a power of two, rounded down.  The shifts are
right in every configuration whose top packet has no unused bits.  With unused
bits, a negative number shifted right by less than a packet loses its sign.
-/

open Lib Lib.Limbs Nat Option

variable {config : Config}

/-- A number times a power of two, rounded down. -/
def scaled (number count : Int) : Int :=
  if 0 ≤ count then number * 2 ^ count.toNat
  else number / 2 ^ (-count).toNat

/-- The residue of a result is left. -/
def Leaves (config : Config) (outcome : Option (List Nat × Nat)) (result : Int) : Prop :=
  ∃ dst oflow, outcome = some (dst, oflow) ∧ IsNum config dst ∧
      (unsignedValue config dst : Int) = result % 2 ^ config.numsize

/-- What is returned tells whether something is so. -/
def Reports (outcome : Option (List Nat × Nat)) (what : Prop) : Prop :=
  ∀ dst oflow, outcome = some (dst, oflow) → (oflow ≠ 0 ↔ what)

/-- All shifts by a count, and both cuts to so many bits, are right. -/
structure ShiftsRight (config : Config) (np : List Nat) (n : Int) (nb : Nat) : Prop where
  llshift : Leaves config (some (numLlshift config np n)) (scaled (unsignedValue config np) n)
  llshift_oflow : 0 ≤ n → n ≤ config.numsize → Reports (some (numLlshift config np n))
      (2 ^ config.numsize ≤ scaled (unsignedValue config np) n)
  lrshift : Leaves config (some (numLrshift config np n)) (scaled (unsignedValue config np) (-n))
  alshift : Leaves config (numAlshift config np n) (scaled (signedValue config np) n)
  alshift_oflow : 0 ≤ n → n ≤ config.numsize → Reports (numAlshift config np n)
      ¬(-2 ^ (config.numsize - 1) ≤ scaled (signedValue config np) n ∧
        scaled (signedValue config np) n < 2 ^ (config.numsize - 1))
  arshift : Leaves config (numArshift config np n) (scaled (signedValue config np) (-n))
  snarrow : Leaves config (numSnarrow config np nb) (Int.bmod (signedValue config np) (2 ^ nb))
  snarrow_oflow : Reports (numSnarrow config np nb)
      (Int.bmod (signedValue config np) (2 ^ nb) ≠ signedValue config np)
  unarrow : Leaves config (numUnarrow config np nb) ((unsignedValue config np % 2 ^ nb : Nat) : Int)
  unarrow_oflow : Reports (numUnarrow config np nb)
      (unsignedValue config np % 2 ^ nb ≠ unsignedValue config np)

structure ShiftsFit (config : Config) (np : List Nat) (n : Int) (nb : Nat) : Prop where
  whole : config.Whole
  shift : config.partialTop → signedValue config np < 0 → n = 0 ∨ config.npktbit ≤ n.natAbs
  narrow : config.partialTop → Int.bmod (signedValue config np) (2 ^ nb) < 0 →
      nb = config.numsize ∨ config.npktbit ≤ config.numsize - nb

theorem cutCount_le (n : Int) : cutCount config n ≤ config.numsize := Nat.min_le_right _ _

theorem cutCount_neg (n : Int) : cutCount config (-n) = cutCount config n := by
  unfold cutCount
  rw [Int.natAbs_neg]

variable {n number : Int} {np : List Nat} {nb : Nat}

theorem scaled_left (left : 0 ≤ n) (number : Int) : scaled number n = number * 2 ^ n.natAbs := by
  unfold scaled
  rw [if_pos left]
  congr 2
  omega

theorem scaled_right (right : n ≤ 0) (number : Int) : scaled number n = number / 2 ^ n.natAbs := by
  unfold scaled
  split
  · obtain rfl : n = 0 := by
      omega
    simp
  · congr 2
    omega

theorem cut_left (number : Int) (n : Int) : number * 2 ^ cutCount config n ≡ number * 2 ^ n.natAbs
    [ZMOD 2 ^ config.numsize] := by
  unfold cutCount
  rcases le_total n.natAbs config.numsize with within | beyond
  · rw [Nat.min_eq_left within]
  · rw [Nat.min_eq_right beyond]
    obtain ⟨more, isMore⟩ := Nat.exists_eq_add_of_le beyond
    rw [isMore, pow_add]
    have zero (times : Int) : number * (2 ^ config.numsize * times) ≡ 0 [ZMOD 2 ^ config.numsize] :=
      Int.modEq_zero_iff_dvd.2 ⟨number * times, by ring⟩
    have one := zero 1
    rw [mul_one] at one
    exact one.trans (zero (2 ^ more)).symm

theorem cut_right (lower : -2 ^ config.numsize ≤ number) (upper : number < 2 ^ config.numsize)
    (n : Int) : number / 2 ^ cutCount config n = number / 2 ^ n.natAbs := by
  unfold cutCount
  rcases le_total n.natAbs config.numsize with within | beyond
  · rw [Nat.min_eq_left within]
  · rw [Nat.min_eq_right beyond]
    have wide : (2 : Int) ^ config.numsize ≤ 2 ^ n.natAbs := pow_le_pow_right₀ (by decide) beyond
    rcases le_or_gt 0 number with nonnegative | negative
    · rw [Int.ediv_eq_zero_of_lt nonnegative upper,
        Int.ediv_eq_zero_of_lt nonnegative (upper.trans_le wide)]
    · have minusOne {power : Int} (positive : 0 < power) (within : -power ≤ number) :
          number / power = -1 := by
        rw [Int.ediv_eq_iff_of_pos positive]
        constructor <;> omega
      rw [minusOne (by positivity) lower, minusOne (by positivity) (by omega)]

theorem unsigned_bounds (isNum : IsNum config np) :
    -2 ^ config.numsize ≤ (unsignedValue config np : Int) ∧
      (unsignedValue config np : Int) < 2 ^ config.numsize := by
  have below : unsignedValue config np < 2 ^ config.numsize := isNum.unused
  have power : (2 : Int) ^ config.numsize = ((2 ^ config.numsize : Nat) : Int) := by rfl
  omega

theorem llshiftBy_leaves (whole : config.Whole) (isNum : IsNum config np) (left : 0 ≤ n) :
    IsNum config (llshiftBy config np (cutCount config n)).1 ∧ (unsignedValue config
        (llshiftBy config np (cutCount config n)).1 : Int) =
        scaled (unsignedValue config np) n % 2 ^ config.numsize := by
  obtain ⟨shiftedNum, value', _⟩ := llshiftBy_spec whole isNum (cutCount_le n)
  refine ⟨shiftedNum, residue_eq value' ?_⟩
  rw [scaled_left left]
  push_cast
  exact cut_left _ n

theorem lrshiftBy_leaves (isNum : IsNum config np) (right : n ≤ 0) :
    IsNum config (lrshiftBy config np (cutCount config n)) ∧ (unsignedValue config
        (lrshiftBy config np (cutCount config n)) : Int) =
        scaled (unsignedValue config np) n % 2 ^ config.numsize := by
  obtain ⟨shiftedNum, value'⟩ := lrshiftBy_spec isNum (cutCount_le n)
  obtain ⟨lower, upper⟩ := unsigned_bounds isNum
  have below := (unsigned_bounds shiftedNum).2
  refine ⟨shiftedNum, ?_⟩
  have quotient : (unsignedValue config (lrshiftBy config np (cutCount config n)) : Int) =
      scaled (unsignedValue config np) n := by
    rw [value', scaled_right right, ← cut_right lower upper n]
    rfl
  rw [← quotient, Int.emod_eq_of_lt (by omega) below]

theorem llshift_leaves (whole : config.Whole) (isNum : IsNum config np) (n : Int) :
    Leaves config (some (numLlshift config np n)) (scaled (unsignedValue config np) n) := by
  unfold numLlshift
  split
  · exact ⟨_, _, rfl, lrshiftBy_leaves isNum (by omega)⟩
  · exact ⟨_, _, rfl, llshiftBy_leaves whole isNum (by omega)⟩

theorem lrshift_leaves (whole : config.Whole) (isNum : IsNum config np) (n : Int) :
    Leaves config (some (numLrshift config np n)) (scaled (unsignedValue config np) (-n)) := by
  unfold numLrshift
  rw [← cutCount_neg]
  split
  · exact ⟨_, _, rfl, llshiftBy_leaves whole isNum (by omega)⟩
  · exact ⟨_, _, rfl, lrshiftBy_leaves isNum (by omega)⟩

theorem llshift_within (left : 0 ≤ n) (within : n ≤ config.numsize) :
    numLlshift config np n = llshiftBy config np n.natAbs := by
  have count : cutCount config n = n.natAbs := Nat.min_eq_left (by omega)
  unfold numLlshift
  rw [if_neg (by omega), count]
  dsimp only
  rw [if_neg (by omega)]

/-- **`num_llshift`** reports products that are too large. -/
theorem llshift_reports (whole : config.Whole) (isNum : IsNum config np) (left : 0 ≤ n)
    (within : n ≤ config.numsize) : Reports (some (numLlshift config np n))
      (2 ^ config.numsize ≤ scaled (unsignedValue config np) n) := by
  rintro dst oflow outcome
  obtain ⟨_, _, flag⟩ := llshiftBy_spec whole isNum (show n.natAbs ≤ config.numsize by omega)
  rw [llshift_within left within, some.injEq] at outcome
  rw [outcome] at flag
  rw [scaled_left left, flag]
  exact_mod_cast Iff.rfl

theorem sign_cases (whole : config.Whole) (isNum : IsNum config np) :
    (sign config np = some 0 ∧ 0 ≤ signedValue config np ∧
        signedValue config np = unsignedValue config np) ∨
      ∃ set, sign config np = some set ∧ set ≠ 0 ∧ signedValue config np < 0 ∧
          signedValue config np = (unsignedValue config np : Int) - (2 ^ config.numsize : Nat) ∧
          2 ^ (config.numsize - 1) ≤ unsignedValue config np := by
  have signIs := sign_spec whole isNum
  have half := two_pow_numsize config
  obtain ⟨_, wholeCast⟩ := half_cast config
  rcases signedValue_spec isNum with ⟨isValue, small⟩ | ⟨isValue, big, below⟩
  · rw [if_neg (not_le.2 small)] at signIs
    exact .inl ⟨signIs, by omega, isValue⟩
  · rw [if_pos big] at signIs
    exact .inr ⟨_, signIs, (Nat.two_pow_pos _).ne', by omega, by omega, big⟩

theorem signed_bounds (isNum : IsNum config np) :
    -2 ^ (config.numsize - 1) ≤ signedValue config np ∧
      signedValue config np < 2 ^ (config.numsize - 1) := by
  have half := two_pow_numsize config
  obtain ⟨halfCast, wholeCast⟩ := half_cast config
  have cases' := signedValue_spec isNum
  omega

theorem alshiftBy_leaves (whole : config.Whole) (isNum : IsNum config np)
    (negative : 2 ^ (config.numsize - 1) ≤ unsignedValue config np) (left : 0 ≤ n) :
    ∃ shifted oflow, alshiftBy config np (cutCount config n) = some (shifted, oflow) ∧
        IsNum config shifted ∧ (unsignedValue config shifted : Int) =
          scaled (signedValue config np) n % 2 ^ config.numsize := by
  obtain ⟨shifted, oflow, eq, shiftedNum, value', _⟩ :=
    alshiftBy_spec whole isNum negative (cutCount_le n)
  refine ⟨shifted, oflow, eq, shiftedNum, residue_eq value' ?_⟩
  rw [scaled_left left]
  exact ((signedValue_modEq config np).mul_right _).trans (cut_left _ n)

theorem npktbit_le_numsize (config : Config) : config.npktbit ≤ config.numsize := by
  have wide := Nat.mul_le_mul_left config.npktbit config.longPkts_wide
  have long := config.numsize_long
  omega

theorem arshiftBy_zero (np : List Nat) : arshiftBy config np 0 = np := by
  unfold arshiftBy downBits
  simp

theorem arshiftBy_leaves_iff (whole : config.Whole) (isNum : IsNum config np)
    (negative : signedValue config np < 0) (isSigned : signedValue config np =
        (unsignedValue config np : Int) - (2 ^ config.numsize : Nat)) (right : n ≤ 0) :
    (IsNum config (arshiftBy config np (cutCount config n)) ∧ (unsignedValue config
        (arshiftBy config np (cutCount config n)) : Int) =
        scaled (signedValue config np) n % 2 ^ config.numsize) ↔
      (config.partialTop → n = 0 ∨ config.npktbit ≤ n.natAbs) := by
  have long := npktbit_le_numsize config
  have half := two_pow_numsize config
  obtain ⟨halfCast, wholeCast⟩ := half_cast config
  obtain ⟨lower, upper⟩ := signed_bounds isNum
  have reference : scaled (signedValue config np) n % 2 ^ config.numsize =
      ((unsignedValue config np : Int) - (2 ^ config.numsize : Nat)) /
          (2 ^ cutCount config n : Nat) +
        (2 ^ config.numsize : Nat) := by
    have powerCast : (2 : Int) ^ cutCount config n = ((2 ^ cutCount config n : Nat) : Int) := by rfl
    have power := Nat.two_pow_pos (cutCount config n)
    rw [scaled_right right, ← cut_right (by rw [wholeCast]; omega) (by rw [wholeCast]; omega) n,
      ← isSigned, powerCast, half, wholeCast]
    refine emod_negative (Int.ediv_neg_of_neg_of_pos negative (by omega)) ?_
    rw [Int.le_ediv_iff_mul_le (by omega)]
    have atLeast : (2 * ((2 ^ (config.numsize - 1) : Nat) : Int)) ≤
        2 * ((2 ^ (config.numsize - 1) : Nat) : Int) * ((2 ^ cutCount config n : Nat) : Int) :=
      le_mul_of_one_le_right (by omega) (by omega)
    rw [Int.neg_mul]
    exact (neg_le_neg atLeast).trans (by omega)
  rw [reference]
  by_cases bits : config.partialTop ∧ n ≠ 0 ∧ n.natAbs < config.npktbit
  · obtain ⟨part, some', short⟩ := bits
    have count : cutCount config n = n.natAbs := Nat.min_eq_left (by omega)
    constructor
    · intro leaves
      rw [count] at leaves
      exact absurd leaves.2 (arshiftBy_partial_wrong whole part isNum (by omega) short (by omega))
    · intro fits
      have := fits part
      omega
  · constructor
    · intro _ part
      by_contra short
      exact bits ⟨part, by omega⟩
    · intro fits
      by_cases zero : config.partialTop ∧ n = 0
      · obtain ⟨_, rfl⟩ := zero
        have count : cutCount config 0 = 0 := Nat.zero_min _
        rw [count, arshiftBy_zero]
        exact ⟨isNum, by simp⟩
      · refine arshiftBy_spec whole isNum (cutCount_le n) fun part => ?_
        have notZero : n ≠ 0 := fun isZero => zero ⟨part, isZero⟩
        have := fits part
        unfold cutCount
        omega

theorem leaves_some {outcome : List Nat × Nat} {result : Int} :
    Leaves config (some outcome) result ↔ IsNum config outcome.1 ∧
        (unsignedValue config outcome.1 : Int) = result % 2 ^ config.numsize := by
  constructor
  · rintro ⟨dst, oflow, eq, leaves⟩
    cases eq
    exact leaves
  · exact fun leaves => ⟨outcome.1, outcome.2, rfl, leaves⟩

section

variable (whole : config.Whole) (isNum : IsNum config np)
include whole isNum

/-- **`num_alshift` of a number that is not negative** is the logical shift,
with an overflow also where the sign is set. -/
theorem alshift_nonnegative (signIs : sign config np = some 0) (n : Int) :
    ∃ oflow, numAlshift config np n = some ((numLlshift config np n).1, oflow) ∧ (oflow ≠ 0 ↔
        (numLlshift config np n).2 ≠ 0 ∨ 2 ^ (config.numsize - 1) ≤
            unsignedValue config (numLlshift config np n).1) := by
  obtain ⟨shiftedNum, _⟩ := leaves_some.1 (llshift_leaves whole isNum n)
  have newsign : sign config (numLlshift config np n).1 = some (signBit config _) :=
    sign_spec whole shiftedNum
  have set := @signBit_eq_zero config (unsignedValue config (numLlshift config np n).1)
  refine ⟨if (numLlshift config np n).2 = 0 ∧ signBit config
      (unsignedValue config (numLlshift config np n).1) ≠ 0 then 1
      else (numLlshift config np n).2, ?_, ?_⟩
  · unfold numAlshift
    simp only [signIs, bind_eq_bind, bind_some, newsign, if_true]
    rfl
  · by_cases fits : (numLlshift config np n).2 = 0
    · split <;> omega
    · simp only [fits, false_and, if_false, ne_eq, not_false_eq_true, true_or]

/-- **`num_alshift`** leaves the residue, unless it is to shift a negative
number right by less than a packet and there are unused bits. -/
theorem alshift_leaves_iff (n : Int) :
    Leaves config (numAlshift config np n) (scaled (signedValue config np) n) ↔
      (n < 0 → config.partialTop → signedValue config np < 0 → config.npktbit ≤ n.natAbs) := by
  rcases sign_cases whole isNum with
    ⟨signIs, nonnegative, isValue⟩ | ⟨set, signIs, isSet, negative, isValue, big⟩
  · obtain ⟨oflow, eq, _⟩ := alshift_nonnegative whole isNum signIs n
    have leaves := leaves_some.1 (llshift_leaves whole isNum n)
    rw [eq, leaves_some, isValue]
    constructor
    · intro _ _ _ impossible
      omega
    · exact fun _ => leaves
  · unfold numAlshift
    simp only [signIs, bind_eq_bind, bind_some, isSet, if_false]
    split
    · rename_i right
      refine leaves_some.trans ?_
      rw [arshiftBy_leaves_iff whole isNum negative isValue right.le]
      simp only [right, right.ne, false_or, forall_const, negative]
    · rename_i left
      obtain ⟨shifted, oflow, eq, leaves⟩ := alshiftBy_leaves whole isNum big (not_lt.1 left)
      rw [eq]
      refine leaves_some.trans ⟨fun _ right => absurd right left, ?_⟩
      exact fun _ => leaves

/-- **`num_arshift`** leaves the residue, unless it is to shift a negative
number right by less than a packet and there are unused bits. -/
theorem arshift_leaves_iff (n : Int) :
    Leaves config (numArshift config np n) (scaled (signedValue config np) (-n)) ↔
      (0 < n → config.partialTop → signedValue config np < 0 → config.npktbit ≤ n.natAbs) := by
  rcases sign_cases whole isNum with
    ⟨signIs, nonnegative, isValue⟩ | ⟨set, signIs, isSet, negative, isValue, big⟩
  · unfold numArshift
    simp only [signIs, bind_eq_bind, bind_some, if_true]
    rw [isValue]
    constructor
    · intro _ _ _ impossible
      omega
    · exact fun _ => lrshift_leaves whole isNum n
  · unfold numArshift
    simp only [signIs, bind_eq_bind, bind_some, isSet, if_false]
    rw [← cutCount_neg]
    split
    · obtain ⟨shifted, oflow, eq, leaves⟩ := alshiftBy_leaves whole isNum big (show 0 ≤ -n by omega)
      rw [eq]
      refine leaves_some.trans ⟨fun _ right => by omega, ?_⟩
      exact fun _ => leaves
    · refine leaves_some.trans ?_
      rw [arshiftBy_leaves_iff whole isNum negative isValue (by omega)]
      simp only [negative, forall_const, Int.natAbs_neg, neg_eq_zero]
      constructor
      · intro fits positive part
        exact (fits part).resolve_left positive.ne'
      · intro fits part
        by_cases zero : n = 0
        · exact .inl zero
        · exact .inr (fits (by omega) part)

/-- **`num_alshift`** reports products that are not representable. -/
theorem alshift_reports (left : 0 ≤ n) (within : n ≤ config.numsize) :
    Reports (numAlshift config np n)
      ¬(-2 ^ (config.numsize - 1) ≤ scaled (signedValue config np) n ∧
        scaled (signedValue config np) n < 2 ^ (config.numsize - 1)) := by
  intro dst oflow outcome
  have half := two_pow_numsize config
  obtain ⟨halfCast, wholeCast⟩ := half_cast config
  have count : n.natAbs ≤ config.numsize := by omega
  have powerCast : (2 : Int) ^ n.natAbs = ((2 ^ n.natAbs : Nat) : Int) := by rfl
  rw [scaled_left left, halfCast]
  rcases sign_cases whole isNum with
    ⟨signIs, nonnegative, isValue⟩ | ⟨set, signIs, isSet, negative, isValue, big⟩
  · obtain ⟨oflow', eq, flag⟩ := alshift_nonnegative whole isNum signIs n
    rw [eq] at outcome
    cases outcome
    obtain ⟨_, value', more⟩ := llshiftBy_spec whole isNum count
    rw [llshift_within left within] at flag
    rw [flag, more, value', isValue, powerCast, ← cast_mul]
    by_cases fits : 2 ^ config.numsize ≤ unsignedValue config np * 2 ^ n.natAbs
    · omega
    · rw [mod_eq_of_lt (not_le.1 fits)]
      omega
  · obtain ⟨shifted, oflow', eq, _, _, flag⟩ := alshiftBy_spec whole isNum big count
    have cut : cutCount config n = n.natAbs := Nat.min_eq_left count
    unfold numAlshift at outcome
    simp only [signIs, bind_eq_bind, bind_some, isSet,
      if_false, not_lt.2 left, cut, eq, not_lt.2 within] at outcome
    cases outcome
    rw [flag, powerCast]
    have magnitude : signedValue config np * ((2 ^ n.natAbs : Nat) : Int) =
        -((2 ^ config.numsize - unsignedValue config np) * 2 ^ n.natAbs : Nat) := by
      rw [cast_mul, ← Int.neg_mul]
      congr 1
      omega
    omega

end

theorem signedValue_eq (isNum : IsNum config np)
    (residue : (unsignedValue config np : Int) = number % 2 ^ config.numsize) {same : Int}
    (congruent : same ≡ number [ZMOD 2 ^ config.numsize]) (lower : -2 ^ (config.numsize - 1) ≤ same)
    (upper : same < 2 ^ (config.numsize - 1)) : signedValue config np = same := by
  obtain ⟨lower', upper'⟩ := signed_bounds isNum
  obtain ⟨halfCast, wholeCast⟩ := half_cast config
  have both : signedValue config np ≡ same [ZMOD 2 ^ config.numsize] := by
    refine (signedValue_modEq config np).symm.trans ?_
    rw [residue]
    exact (Int.mod_modEq _ _).trans congruent.symm
  have distance := both.symm.dvd
  have zero := Int.eq_zero_of_abs_lt_dvd distance (by rw [abs_lt]; omega)
  omega

theorem bmod_top (within : nb ≤ config.numsize) (number : Int) :
    Int.bmod number (2 ^ nb) * 2 ^ (config.numsize - nb) ≡
        number * 2 ^ (config.numsize - nb) [ZMOD 2 ^ config.numsize] ∧
      -2 ^ (config.numsize - 1) ≤ Int.bmod number (2 ^ nb) * 2 ^ (config.numsize - nb) ∧
      Int.bmod number (2 ^ nb) * 2 ^ (config.numsize - nb) < 2 ^ (config.numsize - 1) := by
  have sizes : (2 : Int) ^ config.numsize = 2 ^ nb * 2 ^ (config.numsize - nb) := by
    rw [← pow_add, Nat.add_sub_cancel' within]
  have residue : Int.bmod number (2 ^ nb) ≡ number [ZMOD 2 ^ nb] := by
    have eq := Int.bmod_emod (x := number) (m := 2 ^ nb)
    exact eq
  refine ⟨?_, ?_⟩
  · rw [sizes]
    exact residue.mul_right'
  · cases nb with
    | zero =>
      have zero : Int.bmod number (2 ^ 0) = 0 := by rw [pow_zero, Int.bmod_one]
      rw [zero, zero_mul]
      have positive : (0 : Int) < 2 ^ (config.numsize - 1) := by positivity
      omega
    | succ less =>
      have power := Nat.two_pow_pos (less + 1)
      have lower := Int.le_bmod (x := number) power
      have upper := Int.bmod_lt (x := number) power
      have half : (2 : Int) ^ (config.numsize - 1) =
          2 ^ less * 2 ^ (config.numsize - (less + 1)) := by
        rw [← pow_add]
        congr 1
        omega
      have shiftPos : (0 : Int) < 2 ^ (config.numsize - (less + 1)) := by positivity
      generalize Int.bmod number (2 ^ (less + 1)) = kept at lower upper ⊢
      push_cast at lower upper
      rw [half, ← neg_mul]
      constructor
      · exact mul_le_mul_of_nonneg_right (by omega) shiftPos.le
      · exact mul_lt_mul_of_pos_right (by omega) shiftPos

theorem bmod_whole (isNum : IsNum config np) :
    Int.bmod (signedValue config np) (2 ^ config.numsize) = signedValue config np := by
  obtain ⟨residue, lower, upper⟩ := bmod_top (le_refl config.numsize) (signedValue config np)
  rw [Nat.sub_self, pow_zero, mul_one] at residue lower upper
  rw [mul_one] at residue
  refine (signedValue_eq isNum ?_ residue lower upper).symm
  obtain ⟨nonnegative, below⟩ := unsigned_bounds isNum
  rw [← signedValue_modEq config np, Int.emod_eq_of_lt (by omega) below]

/-- **`num_snarrow`** keeps the low bits with their sign, unless it loses the
sign on the way back; it reports whether the number changed. -/
theorem snarrow_spec (whole : config.Whole) (isNum : IsNum config np) (within : nb ≤ config.numsize)
    : (Leaves config (numSnarrow config np nb) (Int.bmod (signedValue config np) (2 ^ nb)) ↔
        (config.partialTop → Int.bmod (signedValue config np) (2 ^ nb) < 0 → nb = config.numsize ∨
            config.npktbit ≤ config.numsize - nb)) ∧
      Reports (numSnarrow config np nb) (Int.bmod (signedValue config np) (2 ^ nb) ≠
          signedValue config np) := by
  obtain ⟨residue, lower, upper⟩ := bmod_top within (signedValue config np)
  by_cases all : config.numsize - nb = 0
  · obtain rfl : nb = config.numsize := by
      omega
    have same : numSnarrow config np config.numsize = some (np, 0) := by
      unfold numSnarrow
      simp
    rw [same, bmod_whole isNum]
    refine ⟨⟨fun _ _ _ => .inl rfl, fun _ => leaves_some.2 ⟨isNum, ?_⟩⟩, ?_⟩
    · obtain ⟨nonnegative, below⟩ := unsigned_bounds isNum
      rw [← signedValue_modEq config np, Int.emod_eq_of_lt (by omega) below]
    · intro dst oflow eq
      cases eq
      simp
  · have count : ((config.numsize - nb : Nat) : Int).natAbs = config.numsize - nb :=
      Int.natAbs_natCast _
    have left : 0 ≤ ((config.numsize - nb : Nat) : Int) := Int.natCast_nonneg _
    obtain ⟨up, oflow, upEq, upNum, upValue⟩ :=
      (alshift_leaves_iff whole isNum (config.numsize - nb : Nat)).2
        (fun right => absurd right (not_lt.2 left))
    have upSigned := signedValue_eq upNum upValue residue lower upper
    have power : (0 : Int) < 2 ^ (config.numsize - nb) := by positivity
    have back : scaled (signedValue config up) (-(config.numsize - nb : Nat)) =
        Int.bmod (signedValue config np) (2 ^ nb) := by
      rw [scaled_right (by omega), Int.natAbs_neg, count, upSigned, Int.mul_ediv_cancel _ power.ne']
    have downIff := arshift_leaves_iff whole upNum (config.numsize - nb : Nat)
    rw [back, upSigned, count] at downIff
    have outcome : numSnarrow config np nb = (numArshift config up (config.numsize - nb : Nat)).map
        fun down => (down.1, oflow) := by
      unfold numSnarrow
      rw [if_neg (by omega), if_neg all, upEq]
      simp only [bind_eq_bind, bind_some]
      cases numArshift config up (config.numsize - nb : Nat) with
      | none => rfl
      | some down => rfl
    rw [outcome]
    constructor
    · have narrowed : Leaves config ((numArshift config up (config.numsize - nb : Nat)).map
          fun down => (down.1, oflow)) (Int.bmod (signedValue config np) (2 ^ nb)) ↔
          Leaves config (numArshift config up (config.numsize - nb : Nat))
            (Int.bmod (signedValue config np) (2 ^ nb)) := by
        cases numArshift config up (config.numsize - nb : Nat) with
        | none => simp [Leaves]
        | some down => rw [map_some, leaves_some, leaves_some]
      rw [narrowed, downIff]
      have signs : Int.bmod (signedValue config np) (2 ^ nb) * 2 ^ (config.numsize - nb) < 0 ↔
          Int.bmod (signedValue config np) (2 ^ nb) < 0 :=
        ⟨fun negative => by
          by_contra nonnegative
          exact absurd negative (not_lt.2 (mul_nonneg (not_lt.1 nonnegative) power.le)),
          fun negative => mul_neg_of_neg_of_pos negative power⟩
      rw [signs]
      constructor
      · intro fits part negative
        exact .inr (fits (by omega) part negative)
      · intro fits _ part negative
        exact (fits part negative).resolve_left (by omega)
    · intro dst flag eq
      have isFlag : flag = oflow := by
        cases down : numArshift config up (config.numsize - nb : Nat) with
        | none =>
          rw [down] at eq
          cases eq
        | some down' =>
          rw [down] at eq
          cases eq
          rfl
      have reports := alshift_reports whole isNum left (by omega) up oflow upEq
      rw [isFlag, reports]
      refine not_congr ⟨fun fits => ?_, fun same => ?_⟩
      · have isUp := signedValue_eq upNum upValue Int.ModEq.rfl fits.1 fits.2
        rw [upSigned] at isUp
        exact mul_right_cancel₀ power.ne' isUp
      · rw [same] at lower upper
        exact ⟨lower, upper⟩

/-- **`num_unarrow`** keeps the low bits and reports whether the number
changed. -/
theorem unarrow_spec (whole : config.Whole) (isNum : IsNum config np) (within : nb ≤ config.numsize)
    : Leaves config (numUnarrow config np nb) ((unsignedValue config np % 2 ^ nb : Nat) : Int) ∧
      Reports (numUnarrow config np nb)
        (unsignedValue config np % 2 ^ nb ≠ unsignedValue config np) := by
  have below : unsignedValue config np < 2 ^ config.numsize := isNum.unused
  have power : (2 : Int) ^ config.numsize = ((2 ^ config.numsize : Nat) : Int) := by rfl
  by_cases all : config.numsize - nb = 0
  · obtain rfl : nb = config.numsize := by
      omega
    have same : numUnarrow config np config.numsize = some (np, 0) := by
      unfold numUnarrow
      simp
    rw [same, mod_eq_of_lt below]
    refine ⟨leaves_some.2 ⟨isNum, ?_⟩, ?_⟩
    · dsimp only
      exact (Int.emod_eq_of_lt (by omega) (by omega)).symm
    · intro dst oflow eq
      cases eq
      simp
  · have count : ((config.numsize - nb : Nat) : Int).natAbs = config.numsize - nb :=
      Int.natAbs_natCast _
    have left : 0 ≤ ((config.numsize - nb : Nat) : Int) := Int.natCast_nonneg _
    have sizes : 2 ^ config.numsize = 2 ^ nb * 2 ^ (config.numsize - nb) := by
      rw [← Nat.pow_add, Nat.add_sub_cancel' within]
    have shiftPos := Nat.two_pow_pos (config.numsize - nb)
    obtain ⟨upNum, upValue, upFlag⟩ := llshiftBy_spec whole isNum (sub_le config.numsize nb)
    have up : numLlshift config np (config.numsize - nb : Nat) =
        llshiftBy config np (config.numsize - nb) := by
      rw [llshift_within left (by omega), count]
    rw [sizes, mul_mod_mul_right] at upValue
    rw [sizes, Nat.mul_le_mul_right_iff shiftPos] at upFlag
    have down := leaves_some.1 (lrshift_leaves whole upNum (config.numsize - nb : Nat))
    rw [scaled_right (by omega), Int.natAbs_neg, count, upValue] at down
    have outcome : numUnarrow config np nb = some ((numLrshift config
        (llshiftBy config np (config.numsize - nb)).1 (config.numsize - nb : Nat)).1,
        (llshiftBy config np (config.numsize - nb)).2) := by
      unfold numUnarrow
      rw [if_neg (by omega), if_neg all, up]
    rw [outcome]
    constructor
    · refine leaves_some.2 ⟨down.1, down.2.trans ?_⟩
      have powerCast : (2 : Int) ^ (config.numsize - nb) =
          ((2 ^ (config.numsize - nb) : Nat) : Int) := by
        rfl
      rw [powerCast, ← Int.natCast_div, Nat.mul_div_cancel _ shiftPos]
    · intro dst oflow eq
      cases eq
      rw [upFlag, Ne, mod_eq_iff_lt (Nat.two_pow_pos nb).ne', not_lt]

/--
**The shifts are right** exactly when the top packet holds part of the number,
and, if it has unused bits, no negative number is shifted right by less than a
packet, neither by the count nor on the way back from a cut.
-/
theorem shiftsRight_iff (config : Config) (np : IntNum config) (n : Int) (nb : Nat)
    (within : nb ≤ config.numsize) :
    ShiftsRight config np.pkt n nb ↔ ShiftsFit config np.pkt n nb := by
  constructor
  · intro right
    have whole : config.Whole := by
      by_contra notWhole
      obtain ⟨dst, oflow, eq, _⟩ := right.alshift
      have noSign : sign config np.pkt = none := if_neg notWhole
      unfold numAlshift at eq
      rw [noSign] at eq
      cases eq
    have up := (alshift_leaves_iff whole np.isNum n).1 right.alshift
    have down := (arshift_leaves_iff whole np.isNum n).1 right.arshift
    refine
      { whole := whole
        shift := fun part negative => ?_
        narrow := (snarrow_spec whole np.isNum within).1.1 right.snarrow }
    rcases lt_trichotomy n 0 with below | zero | above
    · exact .inr (up below part negative)
    · exact .inl zero
    · exact .inr (down above part negative)
  · intro fits
    obtain ⟨whole, shift, narrow⟩ := fits
    obtain ⟨snarrow, snarrowFlag⟩ := snarrow_spec whole np.isNum within
    obtain ⟨unarrow, unarrowFlag⟩ := unarrow_spec whole np.isNum within
    exact
      { llshift := llshift_leaves whole np.isNum n
        llshift_oflow := llshift_reports whole np.isNum
        lrshift := lrshift_leaves whole np.isNum n
        alshift := (alshift_leaves_iff whole np.isNum n).2 fun below part negative =>
            (shift part negative).resolve_left below.ne
        alshift_oflow := alshift_reports whole np.isNum
        arshift := (arshift_leaves_iff whole np.isNum n).2 fun above part negative =>
            (shift part negative).resolve_left above.ne'
        snarrow := snarrow.2 narrow
        snarrow_oflow := snarrowFlag
        unarrow := unarrow
        unarrow_oflow := unarrowFlag }

/-- 16-bit packets, a 32-bit `unsigned long`, and numbers of 88 bits: half of
the top packet is not used. -/
def partialConfig : Config where
  charBit := 8
  npktbit := 16
  longPkts := 2
  numsize := 88
  charBit_pos := eightBits_pos
  npktbit_pos := sixteenBits_pos
  charBit_dvd_npktbit := eightBits_dvd_sixteen
  longPkts_wide := twoPkts_wide
  numsize_long := by decide
  charBit_dvd_numsize := by decide

/-- The most negative number of 88 bits. -/
def mostNegative88 : List Nat := [0, 0, 0, 0, 0, 0x80]

theorem mostNegative88_isNum : IsNum partialConfig mostNegative88 :=
  ⟨⟨rfl, by unfold Fits; decide⟩, by decide⟩

theorem arshift_signLost : numArshift partialConfig mostNegative88 1 =
    some ([0, 0, 0, 0, 0, 0x40], 0) ∧ ¬ShiftsRight partialConfig mostNegative88 1 88 := by
  refine ⟨by decide +kernel, fun right => ?_⟩
  obtain ⟨dst, oflow, eq, _, value'⟩ := right.arshift
  have outcome : numArshift partialConfig mostNegative88 1 = some ([0, 0, 0, 0, 0, 0x40], 0) := by
    decide +kernel
  cases eq
  exact absurd value' (by decide +kernel)

theorem shiftsRight_sample : ShiftsRight partialConfig mostNegative88 16 88 :=
  (shiftsRight_iff partialConfig ⟨mostNegative88, mostNegative88_isNum⟩ 16 88 (by decide)).2
    { whole := by
        unfold Config.Whole
        decide +kernel
      shift := fun _ _ => .inr (by decide)
      narrow := fun _ _ => .inl rfl }

end Uw7.Intemu
