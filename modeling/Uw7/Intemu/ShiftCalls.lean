import Uw7.Intemu.Shift

namespace Uw7.Intemu

/-!
# What one shift does to a number

Logical shifts multiply or divide the unsigned number.  Shifts of a negative
number are shifts of the packets with their unused bits filled: the packets are
then the number plus a power of two for all of them.
-/

open Lib Lib.Limbs List Nat

variable {config : Config}

theorem unused_pow (whole : config.Whole) : 2 ^ (config.npktbit - config.ntopbit.toNat) *
    2 ^ config.ntopbit.toNat = 2 ^ config.npktbit := by
  obtain ⟨_, topWithin, _⟩ := topbit_spec whole
  rw [← Nat.pow_add, Nat.sub_add_cancel topWithin]

theorem and_shifted_low (number count place : Nat) : number &&& low count <<< place =
    (number / 2 ^ place % 2 ^ count) * 2 ^ place := by
  have shifted : (number / 2 ^ place % 2 ^ count) * 2 ^ place =
      (number >>> place % 2 ^ count) <<< place := by
    rw [shiftLeft_eq, shiftRight_eq_div_pow]
  rw [shifted]
  refine eq_of_testBit_eq fun index => ?_
  unfold low
  by_cases above : place ≤ index
  · simp [above, Nat.add_sub_cancel' above, Bool.and_comm]
  · simp [above]

theorem allUnused_iff (whole : config.Whole) {pkt : List Nat} (isPkts : IsPkts config pkt) :
    topPkt config pkt &&& unusedMask config = unusedMask config ↔
      2 ^ (config.npktbit * config.npkt) ≤ value config.npktbit pkt + 2 ^ config.numsize := by
  obtain ⟨split, length, fits, topFits⟩ := pkts_snoc isPkts
  obtain ⟨positive, topWithin, size⟩ := topbit_spec whole
  have packets := npkt_pos config
  have top := top_eq_div fits (topPkt config pkt)
  rw [← split, length] at top
  have unused := unused_pow whole
  have power := Nat.two_pow_pos config.ntopbit.toNat
  have belowUnused : topPkt config pkt / 2 ^ config.ntopbit.toNat <
      2 ^ (config.npktbit - config.ntopbit.toNat) := by
    refine Nat.div_lt_of_lt_mul ?_
    rw [Nat.mul_comm, unused]
    exact topFits
  have number : topPkt config pkt / 2 ^ config.ntopbit.toNat =
      value config.npktbit pkt / 2 ^ config.numsize := by
    rw [← top, Nat.div_div_eq_div_mul, ← Nat.pow_add, ← size]
  have all : 2 ^ (config.npktbit * config.npkt) = 2 ^ (config.npktbit - config.ntopbit.toNat) *
      2 ^ config.numsize := by
    rw [size, ← Nat.pow_add]
    congr 1
    have next : config.npktbit * config.npkt =
        config.npktbit * (config.npkt - 1) + config.npktbit := by
      rw [← mul_succ, succ_eq_add_one, Nat.sub_add_cancel packets]
    omega
  unfold unusedMask
  rw [and_shifted_low, mod_eq_of_lt belowUnused, shiftLeft_eq,
    Nat.mul_right_cancel_iff power, number, all]
  rw [number] at belowUnused
  unfold low
  have whole' := div_add_mod (value config.npktbit pkt) (2 ^ config.numsize)
  generalize value config.npktbit pkt / 2 ^ config.numsize = times at belowUnused whole' ⊢
  generalize 2 ^ (config.npktbit - config.ntopbit.toNat) = count at belowUnused ⊢
  constructor
  · rintro rfl
    have next : count = count - 1 + 1 := by omega
    rw [next, Nat.add_mul, Nat.mul_comm (count - 1)]
    omega
  · intro close
    by_contra notAll
    have step : (times + 2) * 2 ^ config.numsize ≤ count * 2 ^ config.numsize :=
      Nat.mul_le_mul_right _ (by omega)
    rw [Nat.add_mul, Nat.mul_comm times] at step
    omega

theorem fillUnused_spec (whole : config.Whole) {lower : List Nat} (fits : Fits config.npktbit lower)
    {top : Nat} (below : top < 2 ^ config.ntopbit.toNat) :
    (fillUnused config (lower ++ [top])).length = lower.length + 1 ∧
      Fits config.npktbit (fillUnused config (lower ++ [top])) ∧
      value config.npktbit (fillUnused config (lower ++ [top])) +
        2 ^ (config.npktbit * lower.length + config.ntopbit.toNat) =
        value config.npktbit (lower ++ [top]) + 2 ^ (config.npktbit * (lower.length + 1)) := by
  have unused := unused_pow whole
  have power := Nat.two_pow_pos (config.npktbit - config.ntopbit.toNat)
  have filled : fillUnused config (lower ++ [top]) = lower ++ [top ||| unusedMask config] := by
    unfold fillUnused
    simp [set_append_right]
  have joined : top ||| unusedMask config = low (config.npktbit - config.ntopbit.toNat) *
      2 ^ config.ntopbit.toNat + top := by
    unfold unusedMask
    rw [lor_comm, ← shiftLeft_add_eq_or_of_lt below, shiftLeft_eq]
  have mask : low (config.npktbit - config.ntopbit.toNat) *
      2 ^ config.ntopbit.toNat + 2 ^ config.ntopbit.toNat = 2 ^ config.npktbit := by
    unfold low
    rw [← unused, ← succ_mul, succ_eq_add_one, Nat.sub_add_cancel power]
  rw [filled, joined]
  refine ⟨by simp, ?_, ?_⟩
  · rw [fits_append, fits_cons]
    exact ⟨fits, by omega, fits_nil⟩
  · rw [value_snoc, value_snoc, mul_succ, Nat.pow_add, Nat.pow_add, ← mask]
    ring

variable {n : Nat} {np : List Nat}

theorem count_le (within : n ≤ config.numsize) : n ≤ config.npktbit * config.npkt :=
  within.trans (numsize_le config)

/-- **Logical left** of what is held: the residue of the product, and whether it
was too large. -/
theorem llshiftBy_held (isPkts : IsPkts config np) (within : n ≤ config.numsize) :
    IsHeld config (llshiftBy config np n).1 ∧ unsignedValue config (llshiftBy config np n).1 =
      unsignedValue config np * 2 ^ n % 2 ^ config.capacity ∧
      ((llshiftBy config np n).2 ≠ 0 ↔ 2 ^ config.capacity ≤ unsignedValue config np * 2 ^ n) := by
  obtain ⟨movedPkts, _, product⟩ := movedUp_spec isPkts (count_le within)
  refine cut_spec movedPkts ?_ product rfl
  refine Iff.trans ?_ lostUp_eq_zero.not.symm
  rw [not_not]
  refine ite_eq_right_iff.not.trans ?_
  rw [Classical.not_imp, and_iff_left Nat.one_ne_zero]
  rfl

/-- **Logical left**: the residue of the product, and whether it was too
large. -/
theorem llshiftBy_spec (whole : config.Whole) (isNum : IsNum config np)
    (within : n ≤ config.numsize) :
    IsNum config (llshiftBy config np n).1 ∧ unsignedValue config (llshiftBy config np n).1 =
      unsignedValue config np * 2 ^ n % 2 ^ config.numsize ∧
      ((llshiftBy config np n).2 ≠ 0 ↔ 2 ^ config.numsize ≤ unsignedValue config np * 2 ^ n) :=
  numsize_of_held whole.natural (llshiftBy_held isNum.toIsPkts within)

theorem llshiftBy_exact (isNum : IsNum config np) (within : n ≤ config.numsize)
    (fits : unsignedValue config np * 2 ^ n < 2 ^ config.numsize) :
    IsNum config (llshiftBy config np n).1 ∧ unsignedValue config (llshiftBy config np n).1 =
      unsignedValue config np * 2 ^ n := by
  obtain ⟨isPkts, _, product⟩ := movedUp_spec isNum.toIsPkts (count_le within)
  have wide := Nat.pow_le_pow_right Nat.two_pos (numsize_le config)
  have nothing : lostUp config np n = 0 := by
    by_contra some'
    have once := Nat.mul_le_mul_left (2 ^ (config.npktbit * config.npkt)) (Nat.pos_of_ne_zero some')
    unfold unsignedValue at fits
    omega
  rw [nothing, Nat.mul_zero, Nat.add_zero] at product
  have below := fits
  rw [← product] at below
  have whole : llshiftBy config np n =
      (replicate (n / config.npktbit) 0 ++ (movedUp config np n).1, _) :=
    cut_exact isPkts below rfl
  rw [whole]
  exact ⟨⟨isPkts, below⟩, product⟩

/-- **Logical right**: the quotient. -/
theorem lrshiftBy_spec (isNum : IsNum config np) (within : n ≤ config.numsize) :
    IsNum config (lrshiftBy config np n) ∧ unsignedValue config (lrshiftBy config np n) =
      unsignedValue config np / 2 ^ n := by
  have count := pcnt_le (count_le within)
  have bits := mod_lt n config.npktbit_pos
  have dropFits : Fits config.npktbit (np.drop (n / config.npktbit)) :=
    fun limb member => isNum.fits limb (mem_of_mem_drop member)
  have dropLength : (np.drop (n / config.npktbit)).length = config.npkt - n / config.npktbit := by
    rw [length_drop, isNum.length]
  have dropValue := value_drop isNum.fits (count.trans isNum.length.ge)
  obtain ⟨length, fits, value'⟩ := downBits_spec bits dropFits 0
  rw [zero_shiftLeft] at length fits value'
  have below := value_lt dropFits
  rw [Nat.zero_mul, Nat.zero_add, mod_eq_of_lt ((div_le_self _ _).trans_lt below), dropValue,
    Nat.div_div_eq_div_mul, ← two_pow_count] at value'
  have quotient : value config.npktbit (lrshiftBy config np n) =
      value config.npktbit np / 2 ^ n := by
    unfold lrshiftBy
    rw [value_append, value_replicate_zero, Nat.mul_zero, Nat.add_zero]
    exact value'
  refine ⟨⟨⟨?_, ?_⟩, ?_⟩, quotient⟩
  · unfold lrshiftBy
    rw [length_append, length_replicate, length, dropLength]
    exact Nat.sub_add_cancel count
  · unfold lrshiftBy
    rw [fits_append]
    exact ⟨fits, fits_replicate_zero _⟩
  · rw [quotient]
    exact (div_le_self _ _).trans_lt isNum.unused

theorem full_size (whole : config.Whole) (full : ¬config.partialTop) :
    config.numsize = config.npktbit * config.npkt := by
  obtain ⟨_, topWithin, size⟩ := topbit_spec whole
  have next : config.npkt - 1 + 1 = config.npkt := Nat.sub_add_cancel (npkt_pos config)
  unfold Config.partialTop at full
  rw [← next, mul_succ, size]
  omega

theorem filled_spec (whole : config.Whole) (isNum : IsNum config np) : IsPkts config
    (if config.partialTop then fillUnused config np else np) ∧
    value config.npktbit (if config.partialTop then fillUnused config np else np) +
      2 ^ config.numsize =
      value config.npktbit np + 2 ^ (config.npktbit * config.npkt) := by
  obtain ⟨split, length, fits, _⟩ := pkts_snoc isNum.toIsPkts
  obtain ⟨_, topWithin, size⟩ := topbit_spec whole
  have packets := npkt_pos config
  have next : config.npkt - 1 + 1 = config.npkt := Nat.sub_add_cancel packets
  have top := top_eq_div fits (topPkt config np)
  rw [← split, length] at top
  have topBelow : topPkt config np < 2 ^ config.ntopbit.toNat := by
    rw [← top]
    refine Nat.div_lt_of_lt_mul ?_
    rw [← Nat.pow_add, ← size]
    exact isNum.unused
  split
  · obtain ⟨filledLength, filledFits, filledValue⟩ := fillUnused_spec whole fits topBelow
    rw [← split] at filledLength filledFits filledValue
    rw [length, next, ← size] at filledValue
    rw [length, next] at filledLength
    exact ⟨⟨filledLength, filledFits⟩, filledValue⟩
  · rename_i full
    rw [full_size whole full]
    exact ⟨isNum.toIsPkts, rfl⟩

theorem product_fits_iff {all size half power lost moved negative times : Nat}
    (isAll : all = size * times) (isSize : size = 2 * half) (some' : 0 < times)
    (positive : 0 < negative) (within : negative ≤ half) (powerPos : 0 < power)
    (movedBelow : moved < all) (product : moved + all * lost = (all - negative) * power) :
    (lost + 1 = power ∧ all ≤ moved + size ∧ half ≤ moved % size) ↔ negative * power ≤ half := by
  have sizeLe : size ≤ all := by
    rw [isAll]
    exact Nat.le_mul_of_pos_right size some'
  have distance : 0 < negative * power := Nat.mul_pos positive powerPos
  have total : moved + all * lost + negative * power = all * power := by
    rw [product, ← Nat.add_mul, Nat.sub_add_cancel (by omega)]
  generalize negative * power = distant at distance total ⊢
  have residue (near : distant ≤ size) (isMoved : moved + distant = all) :
      moved % size = size - distant := by
    have isTimes : times = times - 1 + 1 := by omega
    have split : moved = size - distant + size * (times - 1) := by
      rw [isAll, isTimes, mul_succ] at isMoved
      omega
    rw [split, add_mul_mod_self_left]
    exact mod_eq_of_lt (by omega)
  constructor
  · rintro ⟨ones, above, signSet⟩
    rw [← ones, mul_succ] at total
    have isMoved : moved + distant = all := by omega
    omega
  · intro near
    have ones : lost + 1 = power := by
      have less : all * lost < all * power := by omega
      have below := Nat.lt_of_mul_lt_mul_left less
      by_contra more
      have step := Nat.mul_le_mul_left all (show lost + 2 ≤ power by omega)
      rw [Nat.mul_add] at step
      omega
    rw [← ones, mul_succ] at total
    have isMoved : moved + distant = all := by omega
    omega

/-- **Arithmetic left**, of a negative number: the residue of the product, and
whether it was too small. -/
theorem alshiftBy_spec (whole : config.Whole) (isNum : IsNum config np)
    (negative : 2 ^ (config.numsize - 1) ≤ unsignedValue config np) (within : n ≤ config.numsize) :
    ∃ shifted oflow, alshiftBy config np n = some (shifted, oflow) ∧ IsNum config shifted ∧
      unsignedValue config shifted = unsignedValue config np * 2 ^ n % 2 ^ config.numsize ∧
      (oflow ≠ 0 ↔ 2 ^ (config.numsize - 1) <
        (2 ^ config.numsize - unsignedValue config np) * 2 ^ n) := by
  obtain ⟨filledPkts, filledValue⟩ := filled_spec whole isNum
  unfold alshiftBy
  dsimp only
  generalize (if config.partialTop then fillUnused config np else np) = filled
    at filledPkts filledValue ⊢
  rw [show upBits config (n % config.npktbit) (filled.take (config.npkt - n / config.npktbit)) =
    movedUp config filled n from rfl]
  obtain ⟨isPkts, _, product⟩ := movedUp_spec filledPkts (count_le within)
  have lost := lostUp_eq_ones filledPkts (count_le within)
  generalize replicate (n / config.npktbit) 0 ++ (movedUp config filled n).1 =
    pkt at isPkts product ⊢
  obtain ⟨cutNum, cutValue⟩ := masked_spec whole.natural isPkts
  have newsign := sign_spec whole cutNum
  have movedBelow := value_lt isPkts.fits
  rw [isPkts.length] at movedBelow
  have below : unsignedValue config np < 2 ^ config.numsize := isNum.unused
  have half := two_pow_numsize config
  obtain ⟨times, isAll⟩ := Nat.pow_dvd_pow 2 (numsize_le config)
  have some' : 0 < times := by
    rcases Nat.eq_zero_or_pos times with rfl | positive
    · omega
    · exact positive
  have unused : (config.partialTop ∧ topPkt config pkt &&& unusedMask config ≠ unusedMask config) ↔
      ¬2 ^ (config.npktbit * config.npkt) ≤ value config.npktbit pkt + 2 ^ config.numsize := by
    rw [Ne, allUnused_iff whole isPkts]
    by_cases part : config.partialTop
    · simp only [part, true_and]
    · simp only [part, false_and, false_iff, not_not]
      rw [full_size whole part]
      exact Nat.le_add_left _ _
  have filledIs : value config.npktbit filled = 2 ^ (config.npktbit * config.npkt) -
      (2 ^ config.numsize - unsignedValue config np) := by
    unfold unsignedValue at below ⊢
    omega
  have fits := product_fits_iff isAll half some' (Nat.sub_pos_of_lt below) (by omega)
      (Nat.two_pow_pos n) movedBelow (by rw [product, filledIs])
  have residue : value config.npktbit filled * 2 ^ n % 2 ^ config.numsize =
      unsignedValue config np * 2 ^ n % 2 ^ config.numsize := by
    refine ModEq.mul_right _ ?_
    have shifted := congrArg (· % 2 ^ config.numsize) filledValue
    rw [isAll] at shifted
    simpa only [ModEq, unsignedValue, add_mod_right, add_mul_mod_self_left] using shifted
  rw [← product, isAll, Nat.mul_assoc, add_mul_mod_self_left, ← cutValue] at residue
  rw [← cutValue] at fits
  rw [newsign]
  refine ⟨_, _, rfl, cutNum, residue, ?_⟩
  have signSet : signBit config (value config.npktbit
      (if config.partialTop then clearUnused config pkt else pkt)) = 0 ↔ _ :=
    signBit_eq_zero _
  unfold signBit at signSet
  rw [Ne, ite_eq_right_iff, Classical.not_imp, and_iff_left Nat.one_ne_zero, unused, signSet]
  refine Iff.trans ?_ (fits.not.trans not_le)
  simp only [lost, not_and_or, not_not, not_le]

theorem emod_negative {number modulus : Int} (negative : number < 0) (within : -modulus ≤ number) :
    number % modulus = number + modulus := by
  rw [← Int.add_emod_right]
  exact Int.emod_eq_of_lt (by omega) (by omega)

theorem down_negative {number whole packets bits more kept above moved : Nat} {left : Nat}
    (split : whole = packets * above) (room : above ≤ kept) (packetsPos : 0 < packets)
    (bitsPos : 0 < bits) (below : number < whole)
    (isMoved : moved + above = number / packets + kept)
    (isLeft : left = ((bits * more - 1) * kept + moved) / bits % kept) (morePos : 0 < more) :
    (left : Int) = ((number : Int) - whole) / ((packets * bits : Nat) : Int) + kept := by
  have quotient : ((number : Int) - whole) / ((packets * bits : Nat) : Int) =
      (((number / packets : Nat) : Int) - above) / bits := by
    rw [split]
    push_cast
    rw [← Int.ediv_ediv_of_nonneg (by omega), Int.sub_mul_ediv_left _ _ (by omega)]
  have quotientBelow : number / packets < above := by
    refine Nat.div_lt_of_lt_mul ?_
    rw [← split]
    exact below
  have dividend : (((bits * more - 1) * kept + moved : Nat) : Int) =
      ((number / packets : Nat) : Int) - above + bits * (more * kept) := by
    have one : 1 ≤ bits * more := Nat.mul_pos bitsPos morePos
    have total : (bits * more - 1) * kept + kept = bits * (more * kept) := by
      rw [← succ_mul, succ_eq_add_one, Nat.sub_add_cancel one, Nat.mul_assoc]
    have cast : (bits * (more * kept) : Int) = ((bits * (more * kept) : Nat) : Int) := by rfl
    omega
  rw [quotient, isLeft, Int.natCast_mod, Int.natCast_div, dividend,
    Int.add_mul_ediv_left _ _ (by omega), Int.add_mul_emod_self_right]
  refine emod_negative ?_ ?_
  · exact Int.ediv_neg_of_neg_of_pos (by omega) (by omega)
  · rw [Int.le_ediv_iff_mul_le (by omega)]
    have atLeast : (kept : Int) ≤ kept * bits := le_mul_of_one_le_right (by omega) (by omega)
    rw [Int.neg_mul]
    omega

section

variable (whole : config.Whole)
include whole

theorem pcnt_lt_of_partial (part : config.partialTop) (within : n ≤ config.numsize) :
    n / config.npktbit ≤ config.npkt - 1 := by
  obtain ⟨_, _, size⟩ := topbit_spec whole
  refine le_of_lt_succ (Nat.div_lt_of_lt_mul ?_)
  unfold Config.partialTop at part
  rw [mul_succ]
  omega

theorem movedDown_spec (isNum : IsNum config np) (within : n ≤ config.numsize)
    (filled : config.partialTop → config.npktbit ≤ n) {moved : List Nat} (isMoved : moved =
      if n / config.npktbit ≠ 0 ∧ config.partialTop then
        fillUnused config (np.drop (n / config.npktbit))
      else np.drop (n / config.npktbit)) :
    moved.length = config.npkt - n / config.npktbit ∧ Fits config.npktbit moved ∧
      value config.npktbit moved + 2 ^ (config.numsize - config.npktbit * (n / config.npktbit)) =
        unsignedValue config np / 2 ^ (config.npktbit * (n / config.npktbit)) +
          2 ^ (config.npktbit * (config.npkt - n / config.npktbit)) := by
  have count := pcnt_le (count_le within)
  have dropValue := value_drop isNum.fits (count.trans isNum.length.ge)
  have dropFits : Fits config.npktbit (np.drop (n / config.npktbit)) :=
    fun limb member => isNum.fits limb (mem_of_mem_drop member)
  by_cases part : config.partialTop
  · have somePackets : n / config.npktbit ≠ 0 := (Nat.div_pos (filled part) config.npktbit_pos).ne'
    rw [if_pos ⟨somePackets, part⟩] at isMoved
    have fewer := pcnt_lt_of_partial whole part within
    obtain ⟨split, length, fits, _⟩ := pkts_snoc isNum.toIsPkts
    obtain ⟨_, _, size⟩ := topbit_spec whole
    have top := top_eq_div fits (topPkt config np)
    rw [← split, length] at top
    have topBelow : topPkt config np < 2 ^ config.ntopbit.toNat := by
      rw [← top]
      refine Nat.div_lt_of_lt_mul ?_
      rw [← Nat.pow_add, ← size]
      exact isNum.unused
    have dropped : np.drop (n / config.npktbit) =
        (np.take (config.npkt - 1)).drop (n / config.npktbit) ++ [topPkt config np] := by
      conv_lhs => rw [split]
      exact drop_append_of_le_length (by omega)
    have lowerFits : Fits config.npktbit ((np.take (config.npkt - 1)).drop (n / config.npktbit)) :=
      fun limb member => fits limb (mem_of_mem_drop member)
    have lowerLength : ((np.take (config.npkt - 1)).drop (n / config.npktbit)).length =
        config.npkt - 1 - n / config.npktbit := by
      rw [length_drop, length]
    obtain ⟨movedLength, movedFits, movedValue⟩ := fillUnused_spec whole lowerFits topBelow
    have next : config.npkt - 1 - n / config.npktbit + 1 = config.npkt - n / config.npktbit := by
      omega
    rw [lowerLength, next, ← dropped, ← isMoved] at movedLength movedValue
    rw [← dropped, ← isMoved] at movedFits
    have weight : config.npktbit * (config.npkt - 1 - n / config.npktbit) + config.ntopbit.toNat =
        config.numsize - config.npktbit * (n / config.npktbit) := by
      rw [size, Nat.mul_sub]
      have within' := Nat.mul_le_mul_left config.npktbit fewer
      omega
    rw [weight, dropValue] at movedValue
    exact ⟨movedLength, movedFits, movedValue⟩
  · rw [if_neg (fun both => part both.2)] at isMoved
    rw [isMoved, full_size whole part, ← Nat.mul_sub, dropValue]
    exact ⟨by rw [length_drop, isNum.length], dropFits, rfl⟩

theorem fillOnes_spec (within : n ≤ config.numsize)
    (filled : config.partialTop → config.npktbit ≤ n) {fill : List Nat} (isFill : fill =
      if n / config.npktbit ≠ 0 ∧ config.partialTop then
        replicate (n / config.npktbit - 1) (low config.npktbit) ++ [low config.ntopbit.toNat]
      else replicate (n / config.npktbit) (low config.npktbit)) :
    fill.length = n / config.npktbit ∧ Fits config.npktbit fill ∧ value config.npktbit fill + 1 =
      2 ^ (config.numsize - config.npktbit * (config.npkt - n / config.npktbit)) := by
  have count := pcnt_le (count_le within)
  have onesFit (count : Nat) : Fits config.npktbit (replicate count (low config.npktbit)) := by
    intro limb member
    rw [eq_of_mem_replicate member]
    exact sub_lt (Nat.two_pow_pos _) Nat.one_pos
  by_cases part : config.partialTop
  · have somePackets : n / config.npktbit ≠ 0 := (Nat.div_pos (filled part) config.npktbit_pos).ne'
    rw [if_pos ⟨somePackets, part⟩] at isFill
    have fewer := pcnt_lt_of_partial whole part within
    obtain ⟨_, topWithin, size⟩ := topbit_spec whole
    have ones := @value_replicate_ones config.npktbit (n / config.npktbit - 1)
    have topPower := Nat.two_pow_pos config.ntopbit.toNat
    have wide := Nat.pow_le_pow_right Nat.two_pos topWithin
    have weight : config.numsize - config.npktbit * (config.npkt - n / config.npktbit) =
        config.npktbit * (n / config.npktbit - 1) + config.ntopbit.toNat := by
      have parts : config.npktbit * (config.npkt - 1) = config.npktbit * (n / config.npktbit - 1) +
          config.npktbit * (config.npkt - n / config.npktbit) := by
        rw [← Nat.mul_add]
        congr 1
        generalize n / config.npktbit = pcnt at somePackets fewer
        omega
      omega
    rw [isFill]
    refine ⟨?_, ?_, ?_⟩
    · rw [length_append, length_replicate, length_singleton]
      exact Nat.sub_add_cancel (Nat.pos_of_ne_zero somePackets)
    · rw [fits_append, fits_cons]
      refine ⟨onesFit _, ?_, fits_nil⟩
      unfold low
      omega
    · rw [value_snoc, length_replicate, weight, Nat.pow_add, ← ones]
      unfold low
      obtain ⟨less, isLess⟩ : ∃ less, 2 ^ config.ntopbit.toNat = less + 1 :=
        ⟨_, (Nat.sub_add_cancel topPower).symm⟩
      rw [isLess, Nat.add_sub_cancel]
      ring
  · rw [if_neg (fun both => part both.2)] at isFill
    rw [isFill, full_size whole part, ← Nat.mul_sub, Nat.sub_sub_self count]
    exact ⟨length_replicate, onesFit _, value_replicate_ones _⟩

theorem kept_le (filled : config.partialTop → config.npktbit ≤ n) :
    config.npktbit * (config.npkt - n / config.npktbit) ≤ config.numsize := by
  by_cases part : config.partialTop
  · have some' : 1 ≤ n / config.npktbit := Nat.div_pos (filled part) config.npktbit_pos
    obtain ⟨_, _, size⟩ := topbit_spec whole
    have fewer := Nat.mul_le_mul_left config.npktbit (Nat.sub_le_sub_left some' config.npkt)
    omega
  · rw [full_size whole part]
    exact Nat.mul_le_mul_left _ (sub_le _ _)

/-- **Arithmetic right**, of a negative number: the quotient rounded down, when
the unused bits are filled. -/
theorem arshiftBy_spec (isNum : IsNum config np) (within : n ≤ config.numsize)
    (filled : config.partialTop → config.npktbit ≤ n) :
    IsNum config (arshiftBy config np n) ∧ (unsignedValue config (arshiftBy config np n) : Int) =
      ((unsignedValue config np : Int) - (2 ^ config.numsize : Nat)) / (2 ^ n : Nat) +
        (2 ^ config.numsize : Nat) := by
  have count := pcnt_le (count_le within)
  have bits := mod_lt n config.npktbit_pos
  unfold arshiftBy
  dsimp only
  generalize isMoved : (if n / config.npktbit ≠ 0 ∧ config.partialTop then
    fillUnused config (np.drop (n / config.npktbit))
    else np.drop (n / config.npktbit)) = moved
  generalize isFill : (if n / config.npktbit ≠ 0 ∧ config.partialTop then
    replicate (n / config.npktbit - 1) (low config.npktbit) ++ [low config.ntopbit.toNat]
    else replicate (n / config.npktbit) (low config.npktbit)) = fill
  obtain ⟨movedLength, movedFits, movedValue⟩ :=
    movedDown_spec whole isNum within filled isMoved.symm
  obtain ⟨fillLength, fillFits, fillValue⟩ := fillOnes_spec whole within filled isFill.symm
  obtain ⟨downLength, downFits, downValue⟩ := downBits_spec bits movedFits (low config.npktbit)
  rw [movedLength] at downLength downValue
  have keptLe := kept_le whole filled
  have packetsLe : config.npktbit * (n / config.npktbit) ≤ config.numsize :=
    (mul_div_le n config.npktbit).trans within
  have quotient := @down_negative (unsignedValue config np) (2 ^ config.numsize)
      (2 ^ (config.npktbit * (n / config.npktbit))) (2 ^ (n % config.npktbit))
      (2 ^ (config.npktbit - n % config.npktbit))
      (2 ^ (config.npktbit * (config.npkt - n / config.npktbit)))
      (2 ^ (config.numsize - config.npktbit * (n / config.npktbit))) (value config.npktbit moved)
      (value config.npktbit (downBits config (n % config.npktbit)
        (low config.npktbit <<< config.npktbit) moved))
      (by rw [← Nat.pow_add, Nat.add_sub_cancel' packetsLe]) (Nat.pow_le_pow_right Nat.two_pos (by
        rw [Nat.mul_sub]
        exact Nat.sub_le_sub_right (numsize_le config) _))
      (Nat.two_pow_pos _) (Nat.two_pow_pos _) isNum.unused movedValue (by
        rw [← Nat.pow_add, Nat.add_sub_cancel' bits.le]
        exact downValue)
      (Nat.two_pow_pos _)
  rw [← two_pow_count] at quotient
  have total : value config.npktbit (downBits config (n % config.npktbit)
      (low config.npktbit <<< config.npktbit) moved ++ fill) +
      2 ^ (config.npktbit * (config.npkt - n / config.npktbit)) =
      value config.npktbit (downBits config (n % config.npktbit)
        (low config.npktbit <<< config.npktbit) moved) +
        2 ^ config.numsize := by
    rw [value_append, downLength, Nat.add_assoc, ← mul_succ,
      succ_eq_add_one, fillValue, ← Nat.pow_add, Nat.add_sub_cancel' keptLe]
  have pktPkts : IsPkts config (downBits config (n % config.npktbit)
      (low config.npktbit <<< config.npktbit) moved ++ fill) := by
    refine ⟨?_, fits_append.2 ⟨downFits, fillFits⟩⟩
    rw [length_append, downLength, fillLength]
    exact Nat.sub_add_cancel count
  generalize downBits config (n % config.npktbit)
    (low config.npktbit <<< config.npktbit) moved ++ fill = pkt
    at total pktPkts ⊢
  have below : value config.npktbit pkt < 2 ^ config.numsize := by omega
  have isQuotient : (value config.npktbit pkt : Int) =
      ((unsignedValue config np : Int) - (2 ^ config.numsize : Nat)) / (2 ^ n : Nat) +
        (2 ^ config.numsize : Nat) := by
    omega
  split
  · obtain ⟨cutNum, cutValue⟩ := clearUnused_spec whole.natural pktPkts
    rw [mod_eq_of_lt below] at cutValue
    refine ⟨cutNum, ?_⟩
    unfold unsignedValue at *
    rw [cutValue]
    exact isQuotient
  · exact ⟨⟨pktPkts, below⟩, isQuotient⟩

theorem arshiftBy_partTop (part : config.partialTop) (isNum : IsNum config np) (positive : 0 < n)
    (within : n < config.npktbit) : unsignedValue config (arshiftBy config np n) =
      (low config.npktbit * 2 ^ (config.npktbit * config.npkt) +
        unsignedValue config np) / 2 ^ n % 2 ^ config.numsize := by
  have noPackets : n / config.npktbit = 0 := div_eq_of_lt within
  have bits : n % config.npktbit = n := mod_eq_of_lt within
  obtain ⟨length, fits, value'⟩ := downBits_spec within isNum.fits (low config.npktbit)
  have isPkts : IsPkts config (downBits config n (low config.npktbit <<< config.npktbit) np) :=
    ⟨length.trans isNum.length, fits⟩
  have shifted : arshiftBy config np n = clearUnused config
      (downBits config n (low config.npktbit <<< config.npktbit) np) := by
    unfold arshiftBy
    simp [noPackets, bits, positive.ne', part]
  obtain ⟨_, cutValue⟩ := clearUnused_spec whole.natural isPkts
  rw [shifted, unsignedValue, cutValue, value', isNum.length]
  obtain ⟨times, isAll⟩ := Nat.pow_dvd_pow 2 (numsize_le config)
  rw [isAll, mod_mul_right_mod]

theorem arshiftBy_partial_wrong (part : config.partialTop) (isNum : IsNum config np)
    (positive : 0 < n) (within : n < config.npktbit) (fits : n ≤ config.numsize) :
    (unsignedValue config (arshiftBy config np n) : Int) ≠
      ((unsignedValue config np : Int) - (2 ^ config.numsize : Nat)) / (2 ^ n : Nat) +
        (2 ^ config.numsize : Nat) := by
  rw [arshiftBy_partTop whole part isNum positive within]
  obtain ⟨_, _, size⟩ := topbit_spec whole
  have packets := npkt_pos config
  have more : config.numsize < config.npktbit * config.npkt := by
    have next : config.npkt - 1 + 1 = config.npkt := Nat.sub_add_cancel packets
    unfold Config.partialTop at part
    rw [← next, mul_succ, size]
    omega
  obtain ⟨unused, isUnused⟩ := Nat.exists_eq_add_of_lt more
  obtain ⟨upper, isUpper⟩ := Nat.exists_eq_add_of_le fits
  obtain ⟨less, rfl⟩ : ∃ less, n = less + 1 := ⟨n - 1, by omega⟩
  have isWhole : 2 ^ config.numsize = 2 ^ (less + 1) * 2 ^ upper := by rw [isUpper, Nat.pow_add]
  have isAll : 2 ^ (config.npktbit * config.npkt) =
      2 ^ (less + 1) * (2 ^ upper * (2 ^ unused * 2)) := by
    rw [isUnused, Nat.pow_succ, Nat.pow_add, isWhole]
    ring
  have quotient : ((unsignedValue config np : Int) - (2 ^ config.numsize : Nat)) /
      (2 ^ (less + 1) : Nat) =
      ((unsignedValue config np / 2 ^ (less + 1) : Nat) : Int) - (2 ^ upper : Nat) := by
    rw [isWhole, cast_mul, Int.sub_mul_ediv_left _ _ (by positivity)]
    rfl
  rw [quotient, isAll, Nat.mul_left_comm, mul_add_div (Nat.two_pow_pos _), isWhole]
  generalize unsignedValue config np / 2 ^ (less + 1) = kept
  intro same
  have parts := div_add_mod (low config.npktbit * (2 ^ upper * (2 ^ unused * 2)) + kept)
      (2 ^ (less + 1) * 2 ^ upper)
  generalize (low config.npktbit * (2 ^ upper * (2 ^ unused * 2)) + kept) /
    (2 ^ (less + 1) * 2 ^ upper) = times at parts
  have odd : 2 ^ upper * (2 * (low config.npktbit * 2 ^ unused) + 1) =
      2 ^ upper * (2 * (2 ^ less * (times + 1))) := by
    have total : 2 ^ (less + 1) * 2 ^ upper * times + 2 ^ (less + 1) * 2 ^ upper =
        low config.npktbit * (2 ^ upper * (2 ^ unused * 2)) + 2 ^ upper := by
      omega
    calc
      _ = low config.npktbit * (2 ^ upper * (2 ^ unused * 2)) + 2 ^ upper := by ring
      _ = _ := by
        rw [← total]
        ring
  have parity := Nat.mul_left_cancel (Nat.two_pow_pos upper) odd
  omega

end

end Uw7.Intemu
