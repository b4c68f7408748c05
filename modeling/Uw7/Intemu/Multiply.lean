import Uw7.Intemu.Packets

namespace Uw7.Intemu

/-!
# Multiplying packets

The schoolbook loops of `num_umultiply`.  The part of the result behind the
packets already reached is still zero, so that the carry of a row is stored
there and not added.
-/

open Lib Lib.Limbs List Nat

variable {config : Config}

variable {val carry : Nat} {dst result src : List Nat}

theorem mulStep_lt {bound d r : Nat} (valBelow : val < bound) (dBelow : d < bound)
    (rBelow : r < bound) (carryBelow : carry < bound) : carry + (val * d + r) < bound * bound := by
  have product := Nat.mul_le_mul (le_sub_one_of_lt valBelow) (le_sub_one_of_lt dBelow)
  obtain ⟨less, rfl⟩ : ∃ less, bound = less + 1 := ⟨bound - 1, by omega⟩
  simp only [Nat.add_sub_cancel] at product
  have square : (less + 1) * (less + 1) = less * less + 2 * less + 1 := by
    rw [mul_succ, succ_mul]
    omega
  omega

/-- **A packet times a number**, added to the result. -/
theorem mulInner_spec (valFits : val < 2 ^ config.npktbit) (dstFits : Fits config.npktbit dst)
    (resultFits : Fits config.npktbit result) (long : dst.length ≤ result.length)
    (carryFits : carry < 2 ^ config.npktbit) :
    (mulInner config val carry dst result).1.length = dst.length ∧
      Fits config.npktbit (mulInner config val carry dst result).1 ∧
      (mulInner config val carry dst result).2 < 2 ^ config.npktbit ∧
      value config.npktbit (mulInner config val carry dst result).1 +
        2 ^ (config.npktbit * dst.length) * (mulInner config val carry dst result).2 =
        val * value config.npktbit dst + value config.npktbit (result.take dst.length) + carry := by
  induction dst generalizing result carry with
  | nil => simp [mulInner, carryFits]
  | cons d dst ih =>
    cases result with
    | nil => simp at long
    | cons r result =>
      obtain ⟨dFits, dstFits⟩ := fits_cons.1 dstFits
      obtain ⟨rFits, resultFits⟩ := fits_cons.1 resultFits
      have power := Nat.two_pow_pos config.npktbit
      have double := npktbit_double config
      have below := mulStep_lt valFits dFits rFits carryFits
      have same : ulong config (carry + (val * d + r)) = carry + (val * d + r) :=
        mod_eq_of_lt (by omega)
      have carried : (carry + (val * d + r)) >>> config.npktbit < 2 ^ config.npktbit := by
        rw [shiftRight_eq_div_pow]
        exact (Nat.div_lt_iff_lt_mul power).2 below
      obtain ⟨restLength, restFits, restCarry, restValue⟩ := ih dstFits resultFits
        (le_of_succ_le_succ long) carried
      simp only [mulInner, same, length_cons, value_cons, fits_cons, take_succ_cons]
      refine ⟨by rw [restLength], ⟨mod_lt _ power, restFits⟩, restCarry, ?_⟩
      have weight : 2 ^ (config.npktbit * (dst.length + 1)) =
          2 ^ config.npktbit * 2 ^ (config.npktbit * dst.length) := by
        rw [mul_succ, Nat.pow_add, Nat.mul_comm]
      have parts := split_carry config.npktbit (carry + (val * d + r))
          (val * value config.npktbit dst + value config.npktbit (result.take dst.length))
      have total : (carry + (val * d + r)) >>> config.npktbit + (val * value config.npktbit dst +
          value config.npktbit (result.take dst.length)) =
          value config.npktbit (mulInner config val ((carry + (val * d + r)) >>> config.npktbit) dst
            result).1 +
            2 ^ (config.npktbit * dst.length) * (mulInner config val
              ((carry + (val * d + r)) >>> config.npktbit) dst result).2 := by
        omega
      rw [total, Nat.mul_add, ← Nat.mul_assoc, ← weight,
        Nat.mul_add _ (val * value config.npktbit dst)] at parts
      have across : val * (d + 2 ^ config.npktbit * value config.npktbit dst) = val * d +
          2 ^ config.npktbit * (val * value config.npktbit dst) := by
        rw [Nat.mul_add, Nat.mul_left_comm]
      omega

/-- A result of which only the first packets are used. -/
structure Partial (config : Config) (used zeros : Nat) (result : List Nat) : Prop where
  split : ∃ low, result = low ++ replicate zeros 0 ∧ low.length = used
  fits : Fits config.npktbit result

/-- **One row** of the product. -/
theorem mulRow_spec (valFits : val < 2 ^ config.npktbit) (dstFits : Fits config.npktbit dst)
    {zeros : Nat} (part : Partial config dst.length (zeros + 1) result) :
    Partial config (dst.length + 1) zeros (mulRow config val dst result) ∧
      value config.npktbit (mulRow config val dst result) =
        val * value config.npktbit dst + value config.npktbit result := by
  obtain ⟨low, rfl, length⟩ := part.split
  unfold mulRow
  split
  · rename_i zero
    refine ⟨⟨⟨low ++ [0], ?_, ?_⟩, part.fits⟩, ?_⟩
    · rw [replicate_succ, append_assoc]
      rfl
    · rw [length_append, length]
      rfl
    · rw [zero, Nat.zero_mul, Nat.zero_add]
  · obtain ⟨rowLength, rowFits, rowCarry, rowValue⟩ := mulInner_spec valFits dstFits part.fits
      (by rw [length_append, length]; omega) (Nat.two_pow_pos config.npktbit)
    have taken : (low ++ replicate (zeros + 1) 0).take dst.length = low := by
      rw [← length]
      exact take_left
    have dropped : (low ++ replicate (zeros + 1) 0).drop (dst.length + 1) = replicate zeros 0 := by
      rw [← length, drop_append]
      simp
    rw [dropped]
    generalize mulInner config val 0 dst (low ++ replicate (zeros + 1) 0) = row
      at rowLength rowFits rowCarry rowValue ⊢
    refine ⟨⟨⟨row.1 ++ [row.2], ?_, ?_⟩, ?_⟩, ?_⟩
    · rw [append_assoc]
      rfl
    · rw [length_append, rowLength]
      rfl
    · rw [fits_append, fits_cons]
      exact ⟨rowFits, rowCarry, fits_replicate_zero zeros⟩
    · rw [value_append, value_cons, value_replicate_zero, Nat.mul_zero,
        Nat.add_zero, rowLength, rowValue, taken, value_append,
        value_replicate_zero, Nat.mul_zero, Nat.add_zero, Nat.add_zero]

/-- **The product** of packets. -/
theorem mulLoop_spec (dstFits : Fits config.npktbit dst) (srcFits : Fits config.npktbit src)
    (part : Partial config dst.length src.length result) :
    (mulLoop config dst src result).length = result.length ∧
      Fits config.npktbit (mulLoop config dst src result) ∧
      value config.npktbit (mulLoop config dst src result) =
        value config.npktbit dst * value config.npktbit src + value config.npktbit result := by
  induction src generalizing result with
  | nil =>
    refine ⟨rfl, part.fits, ?_⟩
    rw [value_nil, Nat.mul_zero, Nat.zero_add]
    rfl
  | cons val src ih =>
    obtain ⟨valFits, srcFits⟩ := fits_cons.1 srcFits
    obtain ⟨rowPart, rowValue⟩ := mulRow_spec valFits dstFits part
    have rowLength : (mulRow config val dst result).length = result.length := by
      obtain ⟨low, isResult, length⟩ := part.split
      obtain ⟨rowLow, isRow, rowLowLength⟩ := rowPart.split
      rw [isRow, isResult]
      simp only [length_append, length_replicate, length, rowLowLength, length_cons]
      omega
    unfold mulLoop
    generalize mulRow config val dst result = row at rowPart rowValue rowLength ⊢
    obtain ⟨rowLow, rfl, lowLength⟩ := rowPart.split
    cases rowLow with
    | nil => cases lowLength
    | cons low high =>
      have highPart : Partial config dst.length src.length (high ++ replicate src.length 0) :=
        ⟨⟨high, rfl, succ.inj lowLength⟩, (fits_cons.1 rowPart.fits).2⟩
      obtain ⟨length, fits, value'⟩ := ih srcFits highPart
      simp only [cons_append, length_cons, value_cons, fits_cons] at rowValue rowLength ⊢
      refine ⟨by rw [length]; exact rowLength, ⟨(fits_cons.1 rowPart.fits).1, fits⟩, ?_⟩
      rw [value', Nat.mul_add, Nat.mul_add, Nat.mul_left_comm (2 ^ config.npktbit),
        Nat.mul_comm (value config.npktbit dst) val]
      omega

theorem product_spec (dstPkts : IsPkts config dst) (srcPkts : IsPkts config src)
    (isResult : result = mulLoop config dst src (replicate (config.npkt + config.npkt) 0)) :
    IsPkts config (result.take config.npkt) ∧ value config.npktbit (result.take config.npkt) +
      2 ^ (config.npktbit * config.npkt) * value config.npktbit (result.drop config.npkt) =
      value config.npktbit dst * value config.npktbit src := by
  have start : Partial config dst.length src.length (replicate (config.npkt + config.npkt) 0) := by
    refine ⟨⟨replicate config.npkt 0, ?_, ?_⟩, fits_replicate_zero _⟩
    · rw [srcPkts.length, replicate_append_replicate]
    · rw [length_replicate, dstPkts.length]
  obtain ⟨length, fits, product⟩ := mulLoop_spec dstPkts.fits srcPkts.fits start
  rw [value_replicate_zero, Nat.add_zero] at product
  rw [length_replicate] at length
  rw [← isResult] at length fits product
  have lowPkts : IsPkts config (result.take config.npkt) := ⟨by rw [length_take]; omega,
      fun limb member => fits limb (mem_of_mem_take member)⟩
  refine ⟨lowPkts, ?_⟩
  rw [← product]
  conv_rhs => rw [← take_append_drop config.npkt result]
  rw [value_append, lowPkts.length]

/-- **Unsigned multiplication** of what is held: the residue, and whether it is
the product. -/
theorem numUmultiply_held (dstPkts : IsPkts config dst) (srcPkts : IsPkts config src) :
    IsHeld config (numUmultiply config dst src).1 ∧
      value config.npktbit (numUmultiply config dst src).1 =
        value config.npktbit dst * value config.npktbit src % 2 ^ config.capacity ∧
      ((numUmultiply config dst src).2 ≠ 0 ↔ 2 ^ config.capacity ≤
        value config.npktbit dst * value config.npktbit src) := by
  obtain ⟨lowPkts, product⟩ := product_spec dstPkts srcPkts rfl
  refine cut_spec lowPkts ?_ product rfl
  rw [Ne, Ne, value_eq_zero]
  push Not
  split
  · rename_i some'
    exact ⟨fun _ => some', fun _ => Nat.one_ne_zero⟩
  · rename_i none'
    exact ⟨fun impossible => absurd rfl impossible, fun some' => absurd some' none'⟩

/-- **Unsigned multiplication**: the residue, and whether it is the product. -/
theorem numUmultiply_spec (whole : config.Whole) (dstNum : IsNum config dst)
    (srcNum : IsNum config src) : IsNum config (numUmultiply config dst src).1 ∧
      value config.npktbit (numUmultiply config dst src).1 =
        value config.npktbit dst * value config.npktbit src % 2 ^ config.numsize ∧
      ((numUmultiply config dst src).2 ≠ 0 ↔ 2 ^ config.numsize ≤
        value config.npktbit dst * value config.npktbit src) :=
  numsize_of_held whole.natural (numUmultiply_held dstNum.toIsPkts srcNum.toIsPkts)

theorem numUmultiply_exact (dstNum : IsNum config dst) (srcNum : IsNum config src)
    (fits : value config.npktbit dst * value config.npktbit src < 2 ^ config.numsize) :
    IsNum config (numUmultiply config dst src).1 ∧
      value config.npktbit (numUmultiply config dst src).1 =
        value config.npktbit dst * value config.npktbit src ∧
      (numUmultiply config dst src).2 = 0 := by
  obtain ⟨lowPkts, product⟩ := product_spec dstNum.toIsPkts srcNum.toIsPkts rfl
  have wide := Nat.pow_le_pow_right Nat.two_pos (numsize_le config)
  generalize isResult : mulLoop config dst src (replicate (config.npkt + config.npkt) 0) =
    result at lowPkts product
  have nothing : value config.npktbit (result.drop config.npkt) = 0 := by
    by_contra some'
    have once := Nat.mul_le_mul_left (2 ^ (config.npktbit * config.npkt)) (Nat.pos_of_ne_zero some')
    omega
  rw [nothing, Nat.mul_zero, Nat.add_zero] at product
  have below := fits
  rw [← product] at below
  have noneSet : ¬∃ r ∈ result.drop config.npkt, r ≠ 0 := by
    rintro ⟨r, member, some'⟩
    exact some' (value_eq_zero.1 nothing r member)
  have whole : numUmultiply config dst src = (result.take config.npkt, 0) := by
    unfold numUmultiply
    rw [isResult]
    dsimp only
    rw [if_neg noneSet]
    exact cut_exact lowPkts below rfl
  rw [whole]
  exact ⟨⟨lowPkts, below⟩, product, rfl⟩

end Uw7.Intemu
