import Mathlib.Data.Nat.Basic
import Mathlib.Algebra.Group.Nat.Even
import Mathlib.Tactic.IntervalCases

namespace Uw7.Util.DoubleLong

/-!
# Double long arithmetic

`lmul`, `ldivide` and `lmod` from `util/lmul.c` and `util/ldivide.c`, on a `dl_t` as its 64 bits.
-/

open List BitVec

/-- A `dl_t`: `dl_lop` is its lower half. -/
abbrev Dl := BitVec 64

def lshiftl (arg : Dl) (cnt : Int) : Dl :=
  if 0 ≤ cnt then arg <<< cnt.toNat else arg.sshiftRight (-cnt).toNat

def lsign (arg : Dl) : Bool := arg.msb

/-- A round of `lmul`. -/
def lmulRound (lop rop ans : Dl) (jj : Nat) : Dl :=
  if lshiftl rop (-jj) &&& 1 = 0 then ans
  else ans + (lshiftl lop jj &&& 0x7fffffffffffffff)

def lmul (lop rop : Dl) : Dl := (List.range 64).foldl (lmulRound lop rop) 0

/-- The locals of `ldivide`. -/
structure Dividing where
  lop : Dl
  div : Dl
  ans : Dl

/-- A round of `ldivide`. -/
def Dividing.round (rop : Dl) (s : Dividing) : Dividing :=
  let lop := lshiftl s.lop 1
  let div := if lsign lop then lshiftl s.div 1 ||| 1 else lshiftl s.div 1
  let ans := lshiftl s.ans 1
  if lsign (div - rop) then ⟨lop, div, ans⟩ else ⟨lop, div - rop, ans ||| 1⟩

/-- An operand of `ldivide` without its sign. -/
def unsigned (arg : Dl) : Dl := if lsign arg then 0 - arg else arg

def ldivide (lop rop : Dl) : Dl :=
  ((Dividing.round (unsigned rop))^[63] ⟨unsigned lop, 0, 0⟩).ans

def lmod (lop rop : Dl) : Dl := lop - lmul (ldivide lop rop) rop

/-- The three functions do what they are for. -/
def ArithmeticRight (lop rop : Dl) : Prop :=
  lmul lop rop = lop * rop ∧ (rop ≠ 0 →
    (ldivide lop rop).toInt = lop.toInt.tdiv rop.toInt ∧
      (lmod lop rop).toInt = lop.toInt - rop.toInt * (ldivide lop rop).toInt ∧
      (lmod lop rop).toInt.natAbs < rop.toInt.natAbs)

/-- The shifts of `lop` whose sign bit `lmul` clears. -/
def cleared (lop rop : Dl) : Nat :=
  (List.range 64).countP fun jj => rop.getLsbD jj && lop.getLsbD (63 - jj)

theorem and_mask (x : Dl) :
    x &&& 0x7fffffffffffffff = x + if x.msb then intMin 64 else 0 := by
  apply eq_of_toNat_eq
  have masked : (x &&& 0x7fffffffffffffff).toNat = x.toNat % 2 ^ 63 :=
    (toNat_and ..).trans (Nat.and_two_pow_sub_one_eq_mod _ 63)
  have below := x.isLt
  cases negative : x.msb
  · have small := msb_eq_false_iff_two_mul_lt.1 negative
    rw [masked, Nat.mod_eq_of_lt (by omega)]
    simp
  · have large := msb_eq_true_iff_two_mul_ge.1 negative
    rw [masked, if_pos rfl, toNat_add, toNat_intMin]
    omega

theorem lshiftl_bit (rop : Dl) {jj : Nat} (within : jj < 64) :
    lshiftl rop (-jj) &&& 1 = 0 ↔ rop.getLsbD jj = false := by
  have lowest : (lshiftl rop (-jj)).getLsbD 0 = rop.getLsbD jj := by
    unfold lshiftl
    split
    case isTrue zero =>
      obtain rfl : jj = 0 := by omega
      simp
    case isFalse => simp [getElem_sshiftRight, within, getLsbD_eq_getElem]
  rw [show (1 : Dl) = 1#64 from rfl, and_one_eq_setWidth_ofBool_getLsbD, lowest]
  cases rop.getLsbD jj <;> simp

theorem lmulRound_eq (lop rop ans : Dl) {jj : Nat} (within : jj < 64) :
    lmulRound lop rop ans jj = ans + (if rop.getLsbD jj then lop <<< jj else 0) +
      if rop.getLsbD jj && lop.getLsbD (63 - jj) then intMin 64 else 0 := by
  have shift : lshiftl lop jj = lop <<< jj := by simp [lshiftl]
  have sign : (lop <<< jj).msb = lop.getLsbD (63 - jj) := by
    rw [msb_eq_getLsbD_last, getLsbD_shiftLeft]
    simp
    omega
  unfold lmulRound
  simp only [lshiftl_bit rop within, shift, and_mask, sign]
  cases rop.getLsbD jj <;> simp [BitVec.add_assoc]

variable (lop rop : Dl)

theorem lmul_eq : lmul lop rop = lop * rop + BitVec.ofNat 64 (2 ^ 63 * cleared lop rop) := by
  have rounds (count : Nat) (within : count < 64) :
      (List.range (count + 1)).foldl (lmulRound lop rop) 0 = mulRec lop rop count +
        BitVec.ofNat 64 (2 ^ 63 * (List.range (count + 1)).countP fun jj =>
          rop.getLsbD jj && lop.getLsbD (63 - jj)) := by
    have half : intMin 64 = BitVec.ofNat 64 (2 ^ 63) := rfl
    induction count with
    | zero =>
      rw [range_one, foldl_cons, foldl_nil, lmulRound_eq _ _ _ within, mulRec_zero_eq, half,
        countP_singleton]
      generalize rop.getLsbD 0 = bit, lop.getLsbD (63 - 0) = top
      cases bit <;> cases top <;> simp
    | succ count hypothesis =>
      rw [range_succ, foldl_append, hypothesis (by omega), foldl_cons, foldl_nil,
        lmulRound_eq _ _ _ within, mulRec_succ_eq, countP_append, Nat.mul_add, BitVec.ofNat_add,
        half, countP_singleton]
      generalize rop.getLsbD (count + 1) = bit, lop.getLsbD (63 - (count + 1)) = top
      cases bit <;> cases top <;> simp <;> ac_rfl
  have all := rounds 63 (by omega)
  rw [mulRec_eq_mul_signExtend_setWidth] at all
  simpa [lmul, cleared] using all

theorem lmul_eq_iff : lmul lop rop = lop * rop ↔ Even (cleared lop rop) := by
  rw [lmul_eq, BitVec.add_right_eq_self, ← BitVec.toNat_inj, BitVec.toNat_ofNat, Nat.even_iff]
  simp only [BitVec.toNat_ofNat]
  omega

theorem lshiftl_one (x : Dl) : lshiftl x 1 = x + x := by
  rw [← BitVec.two_mul]
  apply eq_of_toNat_eq
  simp [lshiftl, Nat.shiftLeft_eq, Nat.mul_comm]

theorem lshiftl_one_or_one (x : Dl) : lshiftl x 1 ||| 1 = x + x + 1 := by
  rw [lshiftl_one, ← BitVec.two_mul]
  apply eq_of_toNat_eq
  have even : (2#64 * x).toNat = 2 ^ 1 * (x.toNat % 2 ^ 63) := by
    rw [toNat_mul]
    exact Nat.mul_mod_mul_left 2 x.toNat (2 ^ 63)
  have joined := Nat.two_pow_add_eq_or_of_lt (b := 1) (i := 1) (by decide) (x.toNat % 2 ^ 63)
  rw [toNat_or, toNat_add, even, show (1 : Dl).toNat = 1 from rfl, ← joined]
  omega

theorem toNat_unsigned (arg : Dl) : (unsigned arg).toNat = arg.toInt.natAbs := by
  have below := arg.isLt
  unfold unsigned lsign
  rw [BitVec.toInt_eq_msb_cond]
  cases negative : arg.msb
  · simp
  · have large := msb_eq_true_iff_two_mul_ge.1 negative
    simp
    omega

theorem Dividing.round_eq (positive : 0 < rop.toNat) (small : rop.toNat ≤ 2 ^ 63) (seen : Nat) :
    Dividing.round rop
        ⟨lop, BitVec.ofNat 64 (seen % rop.toNat), BitVec.ofNat 64 (seen / rop.toNat)⟩ =
      ⟨lop + lop, BitVec.ofNat 64 ((2 * seen + (lop + lop).msb.toNat) % rop.toNat),
        BitVec.ofNat 64 ((2 * seen + (lop + lop).msb.toNat) / rop.toNat)⟩ := by
  have below := Nat.mod_lt seen positive
  have whole := Nat.mod_add_div seen rop.toNat
  have unique := fun rest quotient => (Nat.div_mod_unique (c := rest) (d := quotient) positive
    (a := 2 * seen + (lop + lop).msb.toNat)).2
  generalize seen % rop.toNat = rest, seen / rop.toNat = quotient at below whole
  have bitBelow := (lop + lop).msb.toNat_le
  have shifted : (if lsign (lop + lop) then lshiftl (BitVec.ofNat 64 rest) 1 ||| 1
      else lshiftl (BitVec.ofNat 64 rest) 1) =
        BitVec.ofNat 64 (2 * rest + (lop + lop).msb.toNat) := by
    unfold lsign
    rw [lshiftl_one_or_one, lshiftl_one]
    cases (lop + lop).msb <;> simp [Nat.two_mul, BitVec.ofNat_add]
  generalize (lop + lop).msb.toNat = bit at *
  have sign : lsign (BitVec.ofNat 64 (2 * rest + bit) - rop) = decide (2 * rest + bit < rop.toNat) := by
    rw [lsign, msb_eq_decide, toNat_sub, toNat_ofNat, decide_eq_decide]
    omega
  unfold Dividing.round
  simp only [lshiftl_one lop, shifted, sign, decide_eq_true_eq]
  split
  case isTrue fits =>
    obtain ⟨quotientEq, restEq⟩ := unique (2 * rest + bit) (2 * quotient) ⟨by
      rw [Nat.mul_left_comm]
      omega, fits⟩
    rw [quotientEq, restEq, lshiftl_one, ← BitVec.ofNat_add, Nat.two_mul quotient]
  case isFalse fits =>
    obtain ⟨quotientEq, restEq⟩ := unique (2 * rest + bit - rop.toNat) (2 * quotient + 1) ⟨by
      rw [Nat.mul_add, Nat.mul_left_comm]
      omega, by omega⟩
    rw [quotientEq, restEq, lshiftl_one_or_one, ← BitVec.ofNat_add, Nat.two_mul quotient,
      BitVec.ofNat_add _ 1]
    congr
    apply eq_of_toNat_eq
    rw [toNat_sub, toNat_ofNat, toNat_ofNat]
    omega

theorem Dividing.iterate (positive : 0 < rop.toNat) (small : rop.toNat ≤ 2 ^ 63)
    {count : Nat} (within : count ≤ 63) :
    (Dividing.round rop)^[count] ⟨lop, 0, 0⟩ =
      ⟨lop <<< count, BitVec.ofNat 64 (lop.toNat % 2 ^ 63 / 2 ^ (63 - count) % rop.toNat),
        BitVec.ofNat 64 (lop.toNat % 2 ^ 63 / 2 ^ (63 - count) / rop.toNat)⟩ := by
  induction count with
  | zero => simp [Nat.div_eq_of_lt (Nat.mod_lt lop.toNat (Nat.two_pow_pos 63))]
  | succ count hypothesis =>
    have double : lop <<< count + lop <<< count = lop <<< (count + 1) := by
      rw [shiftLeft_add]
      exact (lshiftl_one _).symm
    have sign : (lop <<< (count + 1)).msb = (lop.toNat % 2 ^ 63).testBit (62 - count) := by
      rw [msb_eq_getLsbD_last, getLsbD_shiftLeft, Nat.testBit_mod_two_pow,
        show 64 - 1 - (count + 1) = 62 - count by omega, testBit_toNat]
      have inside : ¬ 63 < count + 1 := by omega
      have low : 62 - count < 63 := by omega
      simp [inside, low]
    have next : lop.toNat % 2 ^ 63 / 2 ^ (63 - (count + 1)) =
        2 * (lop.toNat % 2 ^ 63 / 2 ^ (63 - count)) + (lop <<< (count + 1)).msb.toNat := by
      rw [sign, Nat.toNat_testBit, show 63 - count = 62 - count + 1 by omega,
        Nat.pow_succ 2 (62 - count), ← Nat.div_div_eq_div_mul,
        show 63 - (count + 1) = 62 - count by omega]
      omega
    rw [Function.iterate_succ_apply', hypothesis (by omega), Dividing.round_eq _ _ positive small,
      double, ← next]

theorem natAbs_toInt_le (arg : Dl) : arg.toInt.natAbs ≤ 2 ^ 63 := by
  have lower := arg.le_toInt
  have upper := arg.toInt_lt
  omega

theorem natAbs_toInt_lt {arg : Dl} (notLeast : arg ≠ intMin 64) : arg.toInt.natAbs < 2 ^ 63 := by
  have other : arg.toInt ≠ -2 ^ 63 := toInt_ne.2 notLeast
  have small := natAbs_toInt_le arg
  have upper := arg.toInt_lt
  omega

theorem ldivide_eq (nonzero : rop ≠ 0) :
    ldivide lop rop = BitVec.ofNat 64 (lop.toInt.natAbs % 2 ^ 63 / rop.toInt.natAbs) := by
  have positive : 0 < rop.toInt.natAbs := Int.natAbs_pos.2 (toInt_ne.2 nonzero)
  have small := natAbs_toInt_le rop
  rw [← toNat_unsigned] at positive small
  unfold ldivide
  rw [Dividing.iterate _ _ positive small (by decide), toNat_unsigned, toNat_unsigned]
  simp

theorem natAbs_div_eq_iff (lop rop : Int) (nonzero : rop ≠ 0) :
    ((lop.natAbs / rop.natAbs : Nat) : Int) = lop.tdiv rop ↔
      lop.natAbs < rop.natAbs ∨ (lop < 0 ↔ rop < 0) := by
  have size : (lop.tdiv rop).natAbs = lop.natAbs / rop.natAbs := Int.natAbs_tdiv lop rop
  have sign := Int.sign_tdiv lop rop
  rw [← size]
  generalize lop.tdiv rop = quotient at sign
  have positive := Int.sign_eq_one_iff_pos (a := quotient)
  have negative := Int.sign_eq_neg_one_iff_neg (a := quotient)
  have zero := Int.sign_eq_zero_iff_zero (a := quotient)
  split at sign
  case isTrue => omega
  case isFalse large =>
    rcases Int.lt_or_gt_of_ne nonzero with below | above <;>
      rcases Int.lt_or_gt_of_ne (show lop ≠ 0 by omega) with lopBelow | lopAbove <;>
      simp [Int.sign_eq_one_of_pos, Int.sign_eq_neg_one_of_neg, *] at sign <;> omega

theorem lsign_eq (arg : Dl) : lsign arg = decide (arg.toInt < 0) := msb_eq_toInt

theorem ldivide_eq_iff (nonzero : rop ≠ 0) :
    (ldivide lop rop).toInt = lop.toInt.tdiv rop.toInt ↔ lop ≠ intMin 64 ∧
      (lop.toInt.natAbs < rop.toInt.natAbs ∨ lsign lop = lsign rop) := by
  have ropNonzero : rop.toInt ≠ 0 := toInt_ne.2 nonzero
  have small := natAbs_toInt_le lop
  have quotient := natAbs_div_eq_iff lop.toInt rop.toInt ropNonzero
  rw [ldivide_eq _ _ nonzero, lsign_eq, lsign_eq, decide_eq_decide, ← quotient]
  by_cases least : lop = intMin 64
  case pos =>
    have size : (lop.toInt.tdiv rop.toInt).natAbs = 2 ^ 63 / rop.toInt.natAbs := by
      rw [Int.natAbs_tdiv, least]
      rfl
    have zero : lop.toInt.natAbs % 2 ^ 63 = 0 := by
      rw [least]
      rfl
    have some := Nat.div_pos (natAbs_toInt_le rop) (Int.natAbs_pos.2 ropNonzero)
    refine ⟨fun right => ?_, fun right => absurd least right.1⟩
    rw [zero, Nat.zero_div] at right
    rw [← size, ← right] at some
    exact absurd some (by decide)
  case neg =>
    have below := natAbs_toInt_lt least
    have quotientBelow := Nat.lt_of_le_of_lt (Nat.div_le_self _ rop.toInt.natAbs) below
    have fits : (BitVec.ofNat 64 (lop.toInt.natAbs / rop.toInt.natAbs)).toInt =
        (lop.toInt.natAbs / rop.toInt.natAbs : Nat) := by
      generalize lop.toInt.natAbs / rop.toInt.natAbs = result at quotientBelow
      rw [toInt_ofNat']
      exact Int.bmod_eq_of_le (by omega) (by omega)
    rw [Nat.mod_eq_of_lt below, fits]
    exact (and_iff_right least).symm

theorem lmod_eq_iff (nonzero : rop ≠ 0)
    (right : (ldivide lop rop).toInt = lop.toInt.tdiv rop.toInt) :
    (lmod lop rop).toInt = lop.toInt - rop.toInt * (ldivide lop rop).toInt ↔
      Even (cleared (ldivide lop rop) rop) := by
  have exact : (lop - ldivide lop rop * rop).toInt =
      lop.toInt - rop.toInt * (ldivide lop rop).toInt := by
    have rest := Int.tmod_def lop.toInt rop.toInt
    have size : (lop.toInt.tmod rop.toInt).natAbs = _ := Int.natAbs_tmod lop.toInt rop.toInt
    have small := Nat.mod_lt lop.toInt.natAbs (Int.natAbs_pos.2 (toInt_ne.2 nonzero))
    have ropSmall := natAbs_toInt_le rop
    rw [toInt_sub, toInt_mul, Int.sub_bmod_bmod, Int.mul_comm, right, ← rest]
    exact Int.bmod_eq_of_le (by omega) (by omega)
  rw [← exact, toInt_inj, lmod, ← lmul_eq_iff]
  exact BitVec.sub_right_inj lop

/-- `lmul` loses the sign bit of each shifted operand, and `ldivide` the sign of the quotient. -/
theorem dl_arithmeticRight_iff (lop rop : Dl) : ArithmeticRight lop rop ↔ Even (cleared lop rop) ∧
    (rop ≠ 0 → lop ≠ intMin 64 ∧
      (lop.toInt.natAbs < rop.toInt.natAbs ∨ lsign lop = lsign rop) ∧
      Even (cleared (BitVec.ofNat 64 (lop.toInt.natAbs / rop.toInt.natAbs)) rop)) := by
  refine and_congr (lmul_eq_iff lop rop) (forall_congr' fun nonzero => ?_)
  constructor
  case mp =>
    rintro ⟨quotient, rest, -⟩
    obtain ⟨notLeast, signs⟩ := (ldivide_eq_iff lop rop nonzero).1 quotient
    have even := (lmod_eq_iff lop rop nonzero quotient).1 rest
    rw [ldivide_eq lop rop nonzero, Nat.mod_eq_of_lt (natAbs_toInt_lt notLeast)] at even
    exact ⟨notLeast, signs, even⟩
  case mpr =>
    rintro ⟨notLeast, signs, even⟩
    have quotient := (ldivide_eq_iff lop rop nonzero).2 ⟨notLeast, signs⟩
    rw [← Nat.mod_eq_of_lt (natAbs_toInt_lt notLeast), ← ldivide_eq lop rop nonzero] at even
    have rest := (lmod_eq_iff lop rop nonzero quotient).2 even
    refine ⟨quotient, rest, ?_⟩
    rw [rest, quotient, ← Int.tmod_def, Int.natAbs_tmod]
    exact Nat.mod_lt _ (Int.natAbs_pos.2 (toInt_ne.2 nonzero))

theorem dl_arithmeticRight_fails : ¬ ArithmeticRight (-7) 2 := fun right =>
  absurd (right.2 (by decide)).1 (by decide +kernel)

end Uw7.Util.DoubleLong
