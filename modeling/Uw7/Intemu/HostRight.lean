import Uw7.Intemu.DivisionRight
import Uw7.Intemu.Host

namespace Uw7.Intemu

/-!
# When numbers become host integers

The loop computes with the sign extended for ever: what it keeps is the residue,
and it is silent when nothing but signs was shifted out.  For a negative number
that is not yet a sign in the result.
-/

open Lib Lib.Limbs List Nat Option

variable {config : Config}

variable {width n packet : Nat} {np : NumPtr}

theorem low_div (within : n ≤ width) : low width / 2 ^ n = low (width - n) := by
  have power := Nat.two_pow_pos n
  have rest := Nat.two_pow_pos (width - n)
  have split : 2 ^ width = 2 ^ n * 2 ^ (width - n) := by
    rw [← Nat.pow_add, Nat.add_sub_cancel' within]
  unfold low
  rw [split]
  obtain ⟨less, isLess⟩ : ∃ less, 2 ^ (width - n) = less + 1 := ⟨_, (Nat.sub_add_cancel rest).symm⟩
  rw [isLess, Nat.add_sub_cancel, mul_succ, Nat.add_sub_assoc power,
    mul_add_div power, div_eq_of_lt (by omega), Nat.add_zero]

theorem high_eq (within : n ≤ width) : high width n = low n <<< (width - n) := by
  have power := Nat.two_pow_pos n
  have split : 2 ^ width = 2 ^ n * 2 ^ (width - n) := by
    rw [← Nat.pow_add, Nat.add_sub_cancel' within]
  obtain ⟨less, isLess⟩ : ∃ less, 2 ^ n = less + 1 := ⟨_, (Nat.sub_add_cancel power).symm⟩
  have wide : 2 ^ (width - n) ≤ 2 ^ width := Nat.pow_le_pow_right Nat.two_pos (sub_le _ _)
  have rest := Nat.two_pow_pos (width - n)
  unfold high
  rw [shiftRight_eq_div_pow, low_div within]
  unfold low
  rw [xor_low (by omega), shiftLeft_eq, split, isLess, Nat.add_sub_cancel, succ_mul]
  omega

theorem and_high {number : Nat} (within : n ≤ width) (below : number < 2 ^ width) :
    number &&& high width n = number / 2 ^ (width - n) * 2 ^ (width - n) := by
  rw [high_eq within, and_shifted_low, mod_eq_of_lt]
  refine Nat.div_lt_of_lt_mul ?_
  rw [← Nat.pow_add, Nat.sub_add_cancel within]
  exact below

/-- The bits of a sign. -/
def fillBits (negative : Bool) (width : Nat) : Nat :=
  if negative then low width else 0

/-- A sign, extended for ever. -/
def extension (negative : Bool) : Int :=
  if negative then -1 else 0

theorem fillBits_div (within : packet ≤ width) (negative : Bool) :
    fillBits negative width / 2 ^ (width - packet) = fillBits negative packet := by
  cases negative with
  | false => exact Nat.zero_div _
  | true =>
    have ones := low_div (sub_le width packet)
    rw [Nat.sub_sub_self within] at ones
    exact ones

theorem fillBits_lt (negative : Bool) (width : Nat) : fillBits negative width < 2 ^ width := by
  have power := Nat.two_pow_pos width
  cases negative with
  | false => exact power
  | true => exact sub_lt power Nat.one_pos

theorem extension_iff (negative : Bool) {part : Nat} (below : part < 2 ^ packet) (above : Int) :
    above * (2 ^ packet : Nat) + part = extension negative ↔
      part = fillBits negative packet ∧ above = extension negative := by
  have unique {number sign : Int} (eq : number * (2 ^ packet : Nat) + part =
      sign * (2 ^ packet : Nat) + fillBits negative packet) :
      part = fillBits negative packet ∧ number = sign := by
    have fillBelow := fillBits_lt negative packet
    have quotient := congrArg (· / ((2 ^ packet : Nat) : Int)) eq
    rw [Int.mul_comm, Int.mul_add_ediv_left _ _ (by omega),
      Int.mul_comm sign, Int.mul_add_ediv_left _ _ (by omega),
      Int.ediv_eq_zero_of_lt (by omega) (by omega),
      Int.ediv_eq_zero_of_lt (by omega) (by omega)] at quotient
    have same : number = sign := by omega
    rw [same] at eq
    exact ⟨by omega, same⟩
  have isSign : extension negative = extension negative * (2 ^ packet : Nat) +
      fillBits negative packet := by
    cases negative with
    | false => simp [extension, fillBits]
    | true =>
      unfold extension fillBits low
      simp only [if_true]
      omega
  constructor
  · intro eq
    exact unique (eq.trans isSign)
  · rintro ⟨rfl, rfl⟩
    exact isSign.symm

theorem shiftIn_spec (within : packet ≤ width) (negative : Bool) {total : Int} {tdst p : Nat}
    (residue : (tdst : Int) = total % (2 ^ width : Nat)) (below : tdst < 2 ^ width)
    (pBelow : p < 2 ^ packet) :
    (tdst <<< packet) % 2 ^ width ||| p < 2 ^ width ∧
      (((tdst <<< packet) % 2 ^ width ||| p : Nat) : Int) =
        (total * (2 ^ packet : Nat) + p) % (2 ^ width : Nat) ∧
      ((total * (2 ^ packet : Nat) + p) / (2 ^ width : Nat) = extension negative ↔
        tdst &&& high width packet = fillBits negative width &&& high width packet ∧
          total / (2 ^ width : Nat) = extension negative) := by
  have restPos := Nat.two_pow_pos (width - packet)
  have split : 2 ^ width = 2 ^ (width - packet) * 2 ^ packet := by
    rw [← Nat.pow_add, Nat.sub_add_cancel within]
  have kept : (tdst <<< packet) % 2 ^ width ||| p =
      tdst % 2 ^ (width - packet) * 2 ^ packet + p := by
    rw [shiftLeft_eq, split, mul_mod_mul_right, ← shiftLeft_eq, ← shiftLeft_add_eq_or_of_lt pBelow,
      shiftLeft_eq]
  have lowerBelow := mod_lt tdst restPos
  have keptBelow : tdst % 2 ^ (width - packet) * 2 ^ packet + p < 2 ^ width := by
    have step := Nat.mul_le_mul_right (2 ^ packet) lowerBelow
    rw [succ_mul, ← split] at step
    omega
  have upperBelow : tdst / 2 ^ (width - packet) < 2 ^ packet := by
    refine Nat.div_lt_of_lt_mul ?_
    rw [← split]
    exact below
  -- What is kept, and what is shifted out in front of it.
  have parts : total * (2 ^ packet : Nat) + p =
      ((tdst % 2 ^ (width - packet) * 2 ^ packet + p : Nat) : Int) + (2 ^ width : Nat) *
          (total / (2 ^ width : Nat) * (2 ^ packet : Nat) +
            (tdst / 2 ^ (width - packet) : Nat)) := by
    have whole := Int.mul_ediv_add_emod total ((2 ^ width : Nat) : Int)
    rw [← residue] at whole
    have digits := div_add_mod tdst (2 ^ (width - packet))
    have isTotal : total = (2 ^ width : Nat) * (total / (2 ^ width : Nat)) +
        ((2 ^ (width - packet) * (tdst / 2 ^ (width - packet)) +
          tdst % 2 ^ (width - packet) : Nat) : Int) := by
      rw [digits]
      exact whole.symm
    conv_lhs => rw [isTotal]
    rw [split]
    push_cast
    ring
  have positive : (0 : Int) < (2 ^ width : Nat) := by exact_mod_cast Nat.two_pow_pos width
  rw [kept, parts]
  refine ⟨keptBelow, ?_, ?_⟩
  · rw [Int.add_mul_emod_self_left]
    exact (Int.emod_eq_of_lt (by omega) (by exact_mod_cast keptBelow)).symm
  · rw [Int.add_mul_ediv_left _ _ positive.ne',
      Int.ediv_eq_zero_of_lt (by omega) (by exact_mod_cast keptBelow),
      zero_add, extension_iff negative upperBelow,
      and_high within below, and_high within (fillBits_lt negative width),
      Nat.mul_right_cancel_iff restPos, fillBits_div within]

/-- **All packets shifted in.** -/
theorem toLoop_spec {width : Nat} (within : config.npktbit ≤ width) (negative : Bool)
    {pkt : List Nat} (fits : Fits config.npktbit pkt) {total : Int} {tdst oflow : Nat}
    (residue : (tdst : Int) = total % (2 ^ width : Nat)) (below : tdst < 2 ^ width)
    (silent : oflow = 0 ↔ total / (2 ^ width : Nat) = extension negative) :
    ∃ tdst' oflow', toLoop config width (fillBits negative width) tdst oflow pkt = (tdst', oflow') ∧
        tdst' < 2 ^ width ∧
        (tdst' : Int) = (total * (2 ^ (config.npktbit * pkt.length) : Nat) +
            value config.npktbit pkt.reverse) % (2 ^ width : Nat) ∧
        (oflow' = 0 ↔ (total * (2 ^ (config.npktbit * pkt.length) : Nat) +
            value config.npktbit pkt.reverse) / (2 ^ width : Nat) =
            extension negative) := by
  induction pkt generalizing total tdst oflow with
  | nil =>
    refine ⟨tdst, oflow, rfl, below, ?_, ?_⟩
    · simpa using residue
    · simpa using silent
  | cons p pkt ih =>
    obtain ⟨pFits, pktFits⟩ := fits_cons.1 fits
    obtain ⟨nextBelow, nextResidue, nextSilent⟩ := shiftIn_spec within negative residue below pFits
    have sticky : (if tdst &&& high width config.npktbit ≠
        fillBits negative width &&& high width config.npktbit then 1
        else oflow) = 0 ↔
        (total * (2 ^ config.npktbit : Nat) + p) / (2 ^ width : Nat) = extension negative := by
      rw [nextSilent, ← silent]
      split
      · rename_i different
        simp [different]
      · rename_i same
        simp [not_not.1 same]
    obtain ⟨tdst', oflow', eq, below', residue', silent'⟩ := ih pktFits nextResidue nextBelow sticky
    have totals : (total * (2 ^ config.npktbit : Nat) + p) *
        (2 ^ (config.npktbit * pkt.length) : Nat) +
        value config.npktbit pkt.reverse =
        total * (2 ^ (config.npktbit * (p :: pkt).length) : Nat) +
          value config.npktbit (p :: pkt).reverse := by
      rw [reverse_cons, value_snoc, length_reverse, length_cons, mul_succ, Nat.pow_add]
      push_cast
      ring
    rw [totals] at residue' silent'
    exact ⟨tdst', oflow', eq, below', residue', silent'⟩

/-- A number behind a pointer. -/
structure IsPtr (config : Config) (np : NumPtr) : Prop where
  isNum : IsNum config np.pkt
  shared : ∀ index, np.index = some index → index < nprenum config ∧ np.pkt = prenum config index

/-- A conversion is silent for the numbers in the range of its type, and then it
stores the number. -/
def ConversionRight (low high : Int) (outcome : Option (Int × Nat)) (number : Int) : Prop :=
  ∃ stored oflow, outcome = some (stored, oflow) ∧ (oflow = 0 ↔ low ≤ number ∧ number < high) ∧
      (oflow = 0 → stored = number)

theorem nprenum_le (config : Config) : nprenum config ≤ 2 ^ config.npktbit := by
  refine Nat.pow_le_pow_right Nat.two_pos ?_
  exact le_of_dvd config.npktbit_pos config.charBit_dvd_npktbit

theorem prenum_spec {index : Nat} (below : index < nprenum config) :
    IsNum config (prenum config index) ∧ unsignedValue config (prenum config index) = index := by
  have wide := (nprenum_le config).trans
      (Nat.pow_le_pow_right Nat.two_pos (npktbit_le_numsize config))
  have wider := Nat.pow_le_pow_right Nat.two_pos (numsize_le config)
  obtain ⟨length, fits, value'⟩ := @setnum_spec config config.npkt index
  rw [mod_eq_of_lt (by omega)] at value'
  refine ⟨⟨⟨length, fits⟩, ?_⟩, value'⟩
  unfold prenum
  omega

section

variable (within : config.npktbit ≤ width) (isPtr : IsPtr config np)
  (defined : np.index = none → config.npktbit < width)
include within isPtr defined

/-- **To an unsigned type**: the residue, and whether it is the number. -/
theorem toUnsigned_spec : ∃ dst oflow, toUnsigned config width np = some (dst, oflow) ∧
        dst = unsignedValue config np.pkt % 2 ^ width ∧
        (oflow = 0 ↔ unsignedValue config np.pkt < 2 ^ width) := by
  obtain ⟨isNum, shared⟩ := isPtr
  unfold toUnsigned
  cases eq : np.index with
  | some index =>
    obtain ⟨below, isPrenum⟩ := shared index eq
    obtain ⟨_, isIndex⟩ := prenum_spec below
    have small : index < 2 ^ width := (below.trans_le (nprenum_le config)).trans_le
        (Nat.pow_le_pow_right Nat.two_pos within)
    rw [isPrenum, isIndex, mod_eq_of_lt small]
    exact ⟨index, 0, rfl, rfl, by simp [small]⟩
  | none =>
    rw [if_pos (defined eq)]
    have reversed : Fits config.npktbit np.pkt.reverse :=
      fun limb member => isNum.fits limb (mem_reverse.1 member)
    obtain ⟨dst, oflow, loopEq, _, residue, silent⟩ :=
      @toLoop_spec config width within false np.pkt.reverse reversed 0 0 0
        (by simp) (Nat.two_pow_pos width) (by simp [extension])
    rw [reverse_reverse, zero_mul, zero_add] at residue silent
    refine ⟨dst, oflow, by rw [← loopEq]; rfl, ?_, silent.trans ?_⟩
    · exact_mod_cast residue
    · rw [show extension false = ((0 : Nat) : Int) from rfl,
        ← Int.natCast_div, Int.natCast_inj, Nat.div_eq_zero_iff]
      unfold unsignedValue
      omega

theorem toUnsigned_right :
    ConversionRight 0 (2 ^ width : Nat) ((toUnsigned config width np).map fun done =>
        ((done.1 : Int), done.2))
      (unsignedValue config np.pkt) := by
  obtain ⟨dst, oflow, eq, residue, silent⟩ := toUnsigned_spec within isPtr defined
  rw [eq]
  refine ⟨dst, oflow, rfl, ?_, ?_⟩
  · omega
  · intro quiet
    rw [residue, mod_eq_of_lt (silent.1 quiet)]

end

theorem two_pow_width (positive : 0 < width) : 2 ^ width = 2 * 2 ^ (width - 1) := by
  rw [← Nat.pow_succ', succ_eq_add_one, Nat.sub_add_cancel positive]

theorem asSigned_cases (positive : 0 < width) (bits : Nat) : asSigned width bits =
    if bits < 2 ^ (width - 1) then (bits : Int)
    else bits - 2 * (2 ^ (width - 1) : Nat) := by
  unfold asSigned
  have whole : (2 : Int) ^ width = 2 * (2 ^ (width - 1) : Nat) := by
    exact_mod_cast two_pow_width positive
  rw [whole]

/-- **To a signed type**, of a number that is not negative. -/
theorem toSigned_nonnegative (whole : config.Whole) (within : config.npktbit ≤ width)
    (isPtr : IsPtr config np) (defined : np.index = none → config.npktbit < width)
    (nonnegative : 0 ≤ signedValue config np.pkt) :
    ConversionRight (-(2 ^ (width - 1) : Nat)) (2 ^ (width - 1) : Nat)
      (toSigned config width np) (signedValue config np.pkt) := by
  have positive := config.npktbit_pos.trans_le within
  have doubled := two_pow_width positive
  rcases sign_cases whole isPtr.isNum with
    ⟨signIs, _, isValue⟩ | ⟨_, _, _, negative, _, _⟩
  · obtain ⟨dst, oflow, eq, residue, silent⟩ := toUnsigned_spec within isPtr defined
    have cases' := asSigned_cases positive dst
    unfold toSigned
    rw [signIs]
    simp only [bind_eq_bind, bind_some, if_true, eq]
    refine ⟨_, _, rfl, ?_, ?_⟩
    · by_cases fits : unsignedValue config np.pkt < 2 ^ width
      · rw [mod_eq_of_lt fits] at residue
        have quiet := silent.2 fits
        rw [ite_eq_right_iff]
        split at cases' <;> omega
      · have loud : oflow ≠ 0 := fun quiet => fits (silent.1 quiet)
        simp only [loud, ne_eq, not_false_eq_true, true_or, if_true, Nat.one_ne_zero, false_iff]
        omega
    · intro quiet
      rw [ite_eq_right_iff] at quiet
      simp only [Nat.one_ne_zero, imp_false, not_or, not_not, not_lt] at quiet
      rw [mod_eq_of_lt (silent.1 quiet.1)] at residue
      split at cases' <;> omega
  · omega

/-- **To a signed type**, of a negative number: what is stored, and when nothing
is reported. -/
theorem toSigned_negative (whole : config.Whole) (defined : config.npktbit < width)
    (isNum : IsNum config np.pkt) (negative : signedValue config np.pkt < 0) :
    ∃ bits oflow, toSigned config width np = some (asSigned width bits, oflow) ∧ bits < 2 ^ width ∧
        (bits : Int) = ((unsignedValue config np.pkt : Int) -
            (2 ^ (config.npktbit * config.npkt) : Nat)) %
            (2 ^ width : Nat) ∧
        (oflow = 0 ↔ ((unsignedValue config np.pkt : Int) -
            (2 ^ (config.npktbit * config.npkt) : Nat)) /
            (2 ^ width : Nat) = -1) := by
  rcases sign_cases whole isNum with
    ⟨_, nonnegative, _⟩ | ⟨set, signIs, isSet, _, _, _⟩
  · omega
  · have reversed : Fits config.npktbit np.pkt.reverse :=
      fun limb member => isNum.fits limb (mem_reverse.1 member)
    have power : (0 : Int) < (2 ^ width : Nat) := by exact_mod_cast Nat.two_pow_pos width
    have ones : ((low width : Nat) : Int) = -1 % (2 ^ width : Nat) := by
      rw [emod_negative (by decide) (by omega)]
      unfold low
      omega
    have signBits : (-1 : Int) / (2 ^ width : Nat) = -1 := by
      rw [Int.ediv_eq_iff_of_pos power]
      omega
    obtain ⟨bits, oflow, loopEq, below, residue, silent⟩ :=
      @toLoop_spec config width defined.le true np.pkt.reverse reversed (-1)
        (low width) 0 ones (fillBits_lt true width)
        (by simp only [true_iff]; exact signBits)
    rw [reverse_reverse, length_reverse, isNum.length,
      neg_one_mul, neg_add_eq_sub] at residue silent
    refine ⟨bits, oflow, ?_, below, residue, silent⟩
    unfold toSigned
    rw [signIs]
    simp only [bind_eq_bind, bind_some, isSet, if_false, defined, if_true]
    rw [show low width = fillBits true width from rfl] at loopEq ⊢
    rw [loopEq]
    rfl

/-- When a negative number is converted right. -/
def SignedFits (config : Config) (width : Nat) (number : Int) : Prop :=
  if config.partialTop then number < -(2 ^ (width - 1) : Nat)
  else
    ¬(-(2 ^ width : Nat) ≤ number ∧ number < -(2 ^ (width - 1) : Nat))

/-- A negative number is converted right exactly then. -/
theorem toSigned_negative_iff (whole : config.Whole) (defined : config.npktbit < width)
    (isNum : IsNum config np.pkt) (negative : signedValue config np.pkt < 0) :
    ConversionRight (-(2 ^ (width - 1) : Nat)) (2 ^ (width - 1) : Nat)
        (toSigned config width np) (signedValue config np.pkt) ↔
      SignedFits config width (signedValue config np.pkt) := by
  obtain ⟨bits, oflow, eq, below, residue, silent⟩ := toSigned_negative whole defined isNum negative
  have positive : 0 < width := config.npktbit_pos.trans defined
  have doubled := two_pow_width positive
  have cases' := asSigned_cases positive bits
  have widthPos : (0 : Int) < (2 ^ width : Nat) := by exact_mod_cast Nat.two_pow_pos width
  obtain ⟨lower, _⟩ := signed_bounds isNum
  have half := two_pow_numsize config
  rw [(half_cast config).1] at lower
  rw [eq]
  have right : ConversionRight (-(2 ^ (width - 1) : Nat)) (2 ^ (width - 1) : Nat)
      (some (asSigned width bits, oflow)) (signedValue config np.pkt) ↔
      (oflow = 0 ↔ -(2 ^ (width - 1) : Nat) ≤ signedValue config np.pkt) ∧
        (oflow = 0 → asSigned width bits = signedValue config np.pkt) := by
    constructor
    · rintro ⟨stored, oflow', eq', range, same⟩
      cases eq'
      exact ⟨range.trans (by omega), same⟩
    · rintro ⟨range, same⟩
      exact ⟨_, _, rfl, range.trans (by omega), same⟩
  rw [right, silent]
  -- Below the number there are the unused bits of the top packet.
  obtain ⟨extra, isExtra, extraPartial, extraFull⟩ : ∃ extra : Nat,
      ((unsignedValue config np.pkt : Int) - (2 ^ (config.npktbit * config.npkt) : Nat)) =
        signedValue config np.pkt - extra ∧
        (config.partialTop → 2 ^ config.numsize ≤ extra) ∧
        (¬config.partialTop → extra = 0) := by
    have isValue : signedValue config np.pkt =
        (unsignedValue config np.pkt : Int) - (2 ^ config.numsize : Nat) := by
      rcases sign_cases whole isNum with
        ⟨_, nonnegative, _⟩ | ⟨_, _, _, _, isValue, _⟩
      · omega
      · exact isValue
    have wide := Nat.pow_le_pow_right Nat.two_pos (numsize_le config)
    refine ⟨2 ^ (config.npktbit * config.npkt) - 2 ^ config.numsize, by omega,
        fun part => ?_, fun full => ?_⟩
    · obtain ⟨_, _, size⟩ := topbit_spec whole
      have more : config.numsize + 1 ≤ config.npktbit * config.npkt := by
        have next : config.npkt - 1 + 1 = config.npkt := Nat.sub_add_cancel (npkt_pos config)
        unfold Config.partialTop at part
        rw [← next, mul_succ, size]
        omega
      have wider := Nat.pow_le_pow_right Nat.two_pos more
      omega
    · rw [full_size whole full, Nat.sub_self]
  rw [isExtra] at residue ⊢
  rw [Int.ediv_eq_iff_of_pos widthPos]
  have bitsIs (quiet : -(2 ^ width : Nat) ≤ signedValue config np.pkt - (extra : Int)) :
      (bits : Int) = signedValue config np.pkt - extra + (2 ^ width : Nat) := by
    rw [residue]
    exact emod_negative (by omega) quiet
  unfold SignedFits
  by_cases part : config.partialTop
  · rw [if_pos part]
    have large := extraPartial part
    constructor
    · rintro ⟨range, same⟩
      by_contra inRange
      have quiet := range.2 (by omega)
      split at cases' <;> omega
    · intro tooSmall
      exact ⟨by omega, fun quiet => by omega⟩
  · rw [if_neg part]
    have none' := extraFull part
    constructor
    · rintro ⟨range, _⟩
      omega
    · intro notBetween
      refine ⟨by omega, fun quiet => ?_⟩
      split at cases' <;> omega

theorem setnum_number {val : Nat} (below : val < 2 ^ config.numsize) :
    IsNum config (setnum config config.npkt val) ∧
      unsignedValue config (setnum config config.npkt val) = val := by
  have wide := Nat.pow_le_pow_right Nat.two_pos (numsize_le config)
  obtain ⟨length, fits, value'⟩ := @setnum_spec config config.npkt val
  rw [mod_eq_of_lt (by omega)] at value'
  exact ⟨⟨⟨length, fits⟩, by rw [value']; exact below⟩, value'⟩

theorem ulong_magnitude (positive : 0 < width) {val : Int} (negative : val < 0)
    (lower : -(2 ^ (width - 1) : Nat) ≤ val) :
    ((if val ≠ -2 ^ (width - 1) then -val else val) % 2 ^ width).toNat = val.natAbs := by
  have doubled := two_pow_width positive
  have whole : (2 : Int) ^ width = 2 * (2 ^ (width - 1) : Nat) := by exact_mod_cast doubled
  have half : (2 : Int) ^ (width - 1) = (2 ^ (width - 1) : Nat) := by rfl
  split
  · rw [Int.emod_eq_of_lt (by omega) (by omega)]
    omega
  · rename_i same
    rw [not_not.1 same, emod_negative (by omega) (by omega)]
    omega

/-- **`num_fromslong`** gives the number of a long. -/
theorem fromslong_spec (whole : config.Whole) {val : Int}
    (lower : -(2 ^ (config.ulongBit - 1) : Nat) ≤ val)
    (upper : val < (2 ^ (config.ulongBit - 1) : Nat)) :
    ∃ np, numFromslong config val = some np ∧ IsPtr config np ∧
        signedValue config np.pkt = val := by
  have half := two_pow_numsize config
  obtain ⟨_, wholeCast⟩ := half_cast config
  have longPos := ulongBit_pos config
  have fits : 2 ^ (config.ulongBit - 1) ≤ 2 ^ (config.numsize - 1) :=
    Nat.pow_le_pow_right Nat.two_pos (Nat.sub_le_sub_right config.numsize_long 1)
  unfold numFromslong
  by_cases nonnegative : 0 ≤ val
  · rw [if_pos nonnegative]
    obtain ⟨isNum, isVal⟩ := @setnum_number config val.toNat (by omega)
    have cases' := signedValue_spec isNum
    refine ⟨_, rfl, ?_⟩
    unfold numFromulong
    split
    · rename_i small
      refine ⟨⟨isNum, ?_⟩, ?_⟩
      · intro index eq
        cases eq
        exact ⟨small, rfl⟩
      · change signedValue config (setnum config config.npkt val.toNat) = val
        omega
    · refine ⟨⟨isNum, fun index eq => by cases eq⟩, ?_⟩
      change signedValue config (setnum config config.npkt val.toNat) = val
      omega
  · rw [if_neg nonnegative]
    dsimp only
    rw [ulong_magnitude longPos (by omega) lower]
    obtain ⟨isNum, isVal⟩ := @setnum_number config val.natAbs (by omega)
    obtain ⟨neg, oflow, eq, negNum, negValue, _⟩ := numNegate_spec whole isNum
    rw [isVal, mod_eq_of_lt (by omega)] at negValue
    have cases' := signedValue_spec negNum
    rw [eq]
    refine ⟨⟨neg, none⟩, rfl, ⟨negNum, fun index eq => by cases eq⟩, ?_⟩
    change signedValue config neg = val
    omega

/-- All conversions of a number, and of longs to numbers and back, are right. -/
structure ConversionsRight (config : Config) (host : Host config) (np : NumPtr) : Prop where
  touint : ConversionRight 0 (2 ^ host.intBit : Nat)
      ((numTouint config host np).map fun done => ((done.1 : Int), done.2))
      (unsignedValue config np.pkt)
  toulong : ConversionRight 0 (2 ^ config.ulongBit : Nat)
      ((numToulong config np).map fun done => ((done.1 : Int), done.2))
      (unsignedValue config np.pkt)
  toulonglong : ConversionRight 0 (2 ^ host.llongBit : Nat)
      ((numToulonglong config host np).map fun done =>
        ((done.1 : Int), done.2))
      (unsignedValue config np.pkt)
  tosint : ConversionRight (-(2 ^ (host.intBit - 1) : Nat))
      (2 ^ (host.intBit - 1) : Nat) (numTosint config host np)
      (signedValue config np.pkt)
  toslong : ConversionRight (-(2 ^ (config.ulongBit - 1) : Nat))
      (2 ^ (config.ulongBit - 1) : Nat) (numToslong config np)
      (signedValue config np.pkt)
  toslonglong : ConversionRight (-(2 ^ (host.llongBit - 1) : Nat))
      (2 ^ (host.llongBit - 1) : Nat) (numToslonglong config host np)
      (signedValue config np.pkt)
  roundTrip : ∀ val : Int, -(2 ^ (config.ulongBit - 1) : Nat) ≤ val →
      val < (2 ^ (config.ulongBit - 1) : Nat) → ∃ long, numFromslong config val = some long ∧
          numToslong config long = some (val, 0)

structure ConversionsFit (config : Config) (host : Host config) (np : NumPtr) : Prop where
  whole : config.Whole
  full : ¬config.partialTop
  packet : np.index = none → config.npktbit < host.intBit
  signed : ∀ width ∈ [host.intBit, config.ulongBit, host.llongBit],
      ¬(-(2 ^ width : Nat) ≤ signedValue config np.pkt ∧
        signedValue config np.pkt < -(2 ^ (width - 1) : Nat))

theorem npktbit_lt_ulongBit (config : Config) : config.npktbit < config.ulongBit := by
  have wide := Nat.mul_le_mul_left config.npktbit config.longPkts_wide
  have positive := config.npktbit_pos
  unfold Config.ulongBit
  omega

theorem index_of_negative (isPtr : IsPtr config np) (negative : signedValue config np.pkt < 0) :
    np.index = none := by
  cases eq : np.index with
  | none => rfl
  | some index =>
    obtain ⟨below, isPrenum⟩ := isPtr.shared index eq
    obtain ⟨_, isIndex⟩ := prenum_spec below
    have long := npktbit_lt_ulongBit config
    have longer := config.numsize_long
    have small : 2 ^ config.npktbit ≤ 2 ^ (config.numsize - 1) := by
      refine Nat.pow_le_pow_right Nat.two_pos ?_
      unfold Config.ulongBit at long
      omega
    have within := nprenum_le config
    unfold signedValue at negative
    rw [isPrenum, isIndex, if_pos (by omega)] at negative
    omega

theorem toSigned_right (whole : config.Whole) (full : ¬config.partialTop)
    (within : config.npktbit ≤ width) (isPtr : IsPtr config np)
    (defined : np.index = none → config.npktbit < width)
    (fits : ¬(-(2 ^ width : Nat) ≤ signedValue config np.pkt ∧
        signedValue config np.pkt < -(2 ^ (width - 1) : Nat))) :
    ConversionRight (-(2 ^ (width - 1) : Nat)) (2 ^ (width - 1) : Nat)
      (toSigned config width np) (signedValue config np.pkt) := by
  rcases le_or_gt 0 (signedValue config np.pkt) with
    nonnegative | negative
  · exact toSigned_nonnegative whole within isPtr defined nonnegative
  · refine (toSigned_negative_iff whole (defined (index_of_negative isPtr negative)) isPtr.isNum
        negative).2 ?_
    unfold SignedFits
    rw [if_neg full]
    exact fits

theorem fits_of_toSigned (whole : config.Whole) (full : ¬config.partialTop)
    (isPtr : IsPtr config np) (defined : np.index = none → config.npktbit < width)
    (right : ConversionRight (-(2 ^ (width - 1) : Nat)) (2 ^ (width - 1) : Nat)
        (toSigned config width np) (signedValue config np.pkt)) :
    ¬(-(2 ^ width : Nat) ≤ signedValue config np.pkt ∧
      signedValue config np.pkt < -(2 ^ (width - 1) : Nat)) := by
  have power := Nat.two_pow_pos (width - 1)
  rcases le_or_gt 0 (signedValue config np.pkt) with
    nonnegative | negative
  · omega
  · have fits := (toSigned_negative_iff whole
        (defined (index_of_negative isPtr negative)) isPtr.isNum
        negative).1 right
    unfold SignedFits at fits
    rwa [if_neg full] at fits

/--
**The conversions are right** exactly when the top packet is full, a packet is
smaller than an `int`, and the number is not below the range of one of the signed
types by at most another half of it.
-/
theorem conversionsRight_iff (config : Config) (host : Host config) (np : NumPtr)
    (isPtr : IsPtr config np) :
    ConversionsRight config host np ↔ ConversionsFit config host np := by
  have long := npktbit_lt_ulongBit config
  have llong := host.llongBit_long
  constructor
  · intro right
    have whole : config.Whole := by
      by_contra notWhole
      obtain ⟨stored, oflow, eq, _⟩ := right.toslong
      have noSign : sign config np.pkt = none := if_neg notWhole
      unfold numToslong toSigned at eq
      rw [noSign] at eq
      cases eq
    have packet : np.index = none → config.npktbit < host.intBit := by
      intro noIndex
      by_contra wide
      obtain ⟨stored, oflow, eq, _⟩ := right.touint
      unfold numTouint toUnsigned at eq
      rw [noIndex] at eq
      rw [if_neg wide] at eq
      cases eq
    have full : ¬config.partialTop := by
      intro part
      have longPower := Nat.two_pow_pos (config.ulongBit - 1)
      obtain ⟨minusOne, fromEq, toEq⟩ := right.roundTrip (-1) (by omega) (by omega)
      obtain ⟨np', eq, isPtr', isValue⟩ := @fromslong_spec config whole (-1) (by omega) (by omega)
      rw [fromEq] at eq
      cases eq
      have converted : ConversionRight (-(2 ^ (config.ulongBit - 1) : Nat))
          (2 ^ (config.ulongBit - 1) : Nat)
          (toSigned config config.ulongBit minusOne)
          (signedValue config minusOne.pkt) :=
        ⟨-1, 0, toEq, by rw [isValue]; omega, fun _ => isValue.symm⟩
      have fits := (toSigned_negative_iff whole long isPtr'.isNum (by omega)).1 converted
      unfold SignedFits at fits
      rw [if_pos part, isValue] at fits
      omega
    refine ⟨whole, full, packet, ?_⟩
    intro width member
    simp only [mem_cons, not_mem_nil, or_false] at member
    rcases member with rfl | rfl | rfl
    · exact fits_of_toSigned whole full isPtr packet right.tosint
    · exact fits_of_toSigned whole full isPtr (fun _ => long) right.toslong
    · exact fits_of_toSigned whole full isPtr (fun _ => long.trans_le llong) right.toslonglong
  · rintro ⟨whole, full, packet, signed⟩
    exact
      { touint := toUnsigned_right host.intBit_packet isPtr packet
        toulong := toUnsigned_right long.le isPtr fun _ => long
        toulonglong := toUnsigned_right (long.le.trans llong) isPtr fun _ => long.trans_le llong
        tosint := toSigned_right whole full host.intBit_packet isPtr packet (signed _ (by simp))
        toslong := toSigned_right whole full long.le isPtr (fun _ => long) (signed _ (by simp))
        toslonglong := toSigned_right whole full (long.le.trans llong) isPtr
            (fun _ => long.trans_le llong) (signed _ (by simp))
        roundTrip := by
          intro val lower upper
          obtain ⟨longNp, eq, isPtr', isValue⟩ := fromslong_spec whole lower upper
          obtain ⟨stored, oflow, toEq, silent, same⟩ :=
            toSigned_right whole full long.le isPtr' (fun _ => long) (by omega)
          have quiet := silent.2 (by omega)
          refine ⟨longNp, eq, ?_⟩
          rw [← isValue, ← same quiet, ← quiet]
          exact toEq }

/-- 32-bit integers and 64-bit long ones, besides 16-bit packets. -/
def i386Host : Host i386Config where
  intBit := 32
  llongBit := 64
  intBit_packet := by decide
  intBit_long := by decide
  llongBit_long := by decide

/-- The number `-2^32 + 5`. -/
def belowLong : NumPtr := ⟨[5, 0, 0xffff, 0xffff], none⟩

theorem toslong_silent : IsPtr i386Config belowLong ∧
    signedValue i386Config belowLong.pkt = -2 ^ 32 + 5 ∧
    numToslong i386Config belowLong = some (5, 0) ∧
    ¬ConversionsRight i386Config i386Host belowLong := by
  have five : numToslong i386Config belowLong = some (5, 0) := by decide +kernel
  have isValue : signedValue i386Config belowLong.pkt = -2 ^ 32 + 5 := by decide +kernel
  refine ⟨⟨⟨⟨rfl, ?_⟩, by decide⟩, fun index eq => by cases eq⟩, isValue, five, fun right => ?_⟩
  · unfold Fits belowLong
    decide
  · obtain ⟨stored, oflow, eq, _, same⟩ := right.toslong
    cases eq
    exact absurd (same rfl) (by decide)

theorem conversionsRight_five : ConversionsRight i386Config i386Host ⟨[5, 0, 0, 0], none⟩ :=
  (conversionsRight_iff i386Config i386Host ⟨[5, 0, 0, 0], none⟩
    ⟨⟨⟨rfl, by unfold Fits; decide⟩, by decide⟩, fun index eq => by cases eq⟩).2
    { whole := by
        unfold Config.Whole
        decide +kernel
      full := by decide +kernel
      packet := fun _ => by decide
      signed := by decide +kernel }

end Uw7.Intemu
