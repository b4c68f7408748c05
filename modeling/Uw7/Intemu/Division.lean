import Uw7.Intemu.ShiftsRight

namespace Uw7.Intemu

/-!
# Dividing numbers

`num_udivrem` shifts the numerator into the remainder bit by bit and subtracts
the denominator where it can.  It starts at the highest bit that the quotient can
have, from `num_highbitno`.  `num_sdivrem` divides the magnitudes and puts the
signs back.
-/

open Lib Lib.Limbs

variable (config : Config)

/-- The loop of `num_highbitno` over the bits of a packet, from the top. -/
def packetHigh (p : Nat) : Nat → Option Nat
  | 0 => none
  | bit + 1 => if p &&& 2 ^ bit ≠ 0 then some bit else packetHigh p bit

/-- The loop of `num_highbitno` over packets, the top one first. -/
def highLoop : List Nat → Option Int
  | [] => some (-1)
  | p :: pkt =>
    if p = 0 then highLoop pkt
    else
      (packetHigh p config.npktbit).map fun bit =>
        ((pkt.length * config.npktbit + bit : Nat) : Int)

/-- `num_highbitno`; `none` stands for its fatal error. -/
def numHighbitno (np : List Nat) : Option Int := highLoop config np.reverse

def setLow : List Nat → List Nat
  | p :: pkt => (p ||| 1) :: pkt
  | [] => []

/-- `numer->pkt[n / NPKTBIT] & BIT(n % NPKTBIT)`, when it is not 0. -/
def bitSet (np : List Nat) (n : Nat) : Prop :=
  np.getD (n / config.npktbit) 0 &&& 2 ^ (n % config.npktbit) ≠ 0

instance (np : List Nat) (n : Nat) : Decidable (bitSet config np n) :=
  inferInstanceAs (Decidable (_ ≠ _))

/-- One round of the loop of `num_udivrem`, for a bit of the numerator. -/
def divStep (numer denom negdenom : List Nat) (n : Nat)
    (quot rem : List Nat) : List Nat × List Nat :=
  let rem := (numLlshift config rem 1).1
  let rem := if bitSet config numer n then setLow rem else rem
  let quot := (numLlshift config quot 1).1
  if 0 ≤ numUcompare rem denom then
    (setLow quot, (numUadd config rem negdenom).1)
  else (quot, rem)

/-- The loop of `num_udivrem`, for so many bits of the numerator. -/
def divLoop (numer denom negdenom : List Nat) : Nat → List Nat → List Nat → List Nat × List Nat
  | 0, quot, rem => (quot, rem)
  | n + 1, quot, rem =>
    let next := divStep config numer denom negdenom n quot rem
    divLoop numer denom negdenom n next.1 next.2

/-- "Infinity", the quotient by zero. -/
def infinity : Option (List Nat) :=
  if 0 < config.ntopbit then
    let quot := numComplement config (prenum config 0)
    some (quot.set (config.npkt - 1) (topPkt config quot &&& low (config.ntopbit.toNat - 1)))
  else none

/-- What a division leaves. -/
structure DivRem where
  quot : List Nat
  rem : List Nat
  oflow : Nat
  deriving DecidableEq

def numUdivrem (numer denom : List Nat) : Option DivRem := do
  let highDenomBit ← numHighbitno config denom
  if highDenomBit < 0 then
    let quot ← infinity config return ⟨quot, numer, 1⟩
  else if highDenomBit = 0 then
    return ⟨numer, prenum config 0, 0⟩
  else
    let highNumerBit ← numHighbitno config numer
    let n := highNumerBit - highDenomBit + 1
    if n ≤ 0 then
      return ⟨prenum config 0, numer, 0⟩
    else
      let rem := (numLrshift config numer n).1
      let (negdenom, _) ← numNegate config denom
      let done := divLoop config numer denom negdenom n.toNat (prenum config 0) rem
      return ⟨done.1, done.2, 0⟩

/-- A result is negated if it should be: the number, and whether that was an
overflow. -/
def negateIf (neg : Bool) (np : List Nat) : Option (List Nat × Nat) :=
  if neg then numNegate config np else some (np, 0)

/-- `num_sdivrem`: bit 0 of what is returned is for the quotient, bit 1 for the
remainder. -/
def numSdivrem (numer denom : List Nat) : Option DivRem := do
  let numersign ← sign config numer
  let denomsign ← sign config denom
  let negrem := decide (numersign ≠ 0)
  let negquot := decide (numersign = 0) != decide (denomsign = 0)
  let numer ← makeNonnegative config numersign numer
  let denom ← makeNonnegative config denomsign denom
  let done ← numUdivrem config numer denom
  if done.oflow ≠ 0 then
    let (rem, _) ← negateIf config negrem done.rem
    let quot := if negquot then numComplement config done.quot else done.quot return ⟨quot, rem, 3⟩
  else
    let quotsign ← sign config done.quot
    let remsign ← sign config done.rem
    let (rem, remOflow) ← negateIf config negrem done.rem
    let (quot, quotOflow) ← negateIf config negquot done.quot
    let quotBit := if quotsign ≠ 0 ∧ quotOflow = 0 then 1 else 0
    let remBit := if remsign ≠ 0 ∧ remOflow = 0 then 2 else 0 return ⟨quot, rem, quotBit ||| remBit⟩

def numSdivide (dst src : List Nat) : Option (List Nat × Nat) :=
  (numSdivrem config dst src).map fun done =>
    (done.quot, done.oflow &&& 1)

def numUdivide (dst src : List Nat) : Option (List Nat × Nat) :=
  (numUdivrem config dst src).map fun done => (done.quot, done.oflow)

def numSremainder (dst src : List Nat) : Option (List Nat × Nat) :=
  (numSdivrem config dst src).map fun done => (done.rem, done.oflow >>> 1)

def numUremainder (dst src : List Nat) : Option (List Nat × Nat) :=
  (numUdivrem config dst src).map fun done => (done.rem, done.oflow)

end Uw7.Intemu

namespace Uw7.Intemu

/-!
# One bit of a division

The part of the numerator above the bits that are left is the quotient so far
times the denominator, plus the remainder so far.  Each round keeps this, and
the remainder stays below the denominator.
-/

open Lib Lib.Limbs

variable {config : Config}

theorem packetHigh_spec {p bits : Nat} (below : p < 2 ^ bits) (some' : p ≠ 0) :
    ∃ bit, packetHigh p bits = some bit ∧ 2 ^ bit ≤ p ∧ p < 2 ^ (bit + 1) := by
  induction bits with
  | zero => omega
  | succ bits ih =>
    unfold packetHigh
    rw [and_two_pow_top below]
    have power := (Nat.two_pow_pos bits).ne'
    by_cases high : 2 ^ bits ≤ p
    · rw [if_pos high, if_pos power]
      exact ⟨bits, rfl, high, below⟩
    · rw [if_neg high, if_neg (fun impossible => impossible rfl)]
      exact ih (not_le.1 high)

/-- **The highest bit** of packets from the top. -/
theorem highLoop_spec {pkt : List Nat} (fits : Fits config.npktbit pkt) :
    (value config.npktbit pkt.reverse = 0 ∧ highLoop config pkt = some (-1)) ∨ ∃ bit : Nat,
      highLoop config pkt = some (bit : Int) ∧ 2 ^ bit ≤ value config.npktbit pkt.reverse ∧
        value config.npktbit pkt.reverse < 2 ^ (bit + 1) := by
  induction pkt with
  | nil => exact .inl ⟨rfl, rfl⟩
  | cons p pkt ih =>
    obtain ⟨pFits, pktFits⟩ := fits_cons.1 fits
    have reversed : Fits config.npktbit pkt.reverse :=
      fun limb member => pktFits limb (List.mem_reverse.1 member)
    have lower := value_lt reversed
    rw [List.length_reverse] at lower
    rw [List.reverse_cons, value_snoc, List.length_reverse]
    unfold highLoop
    split
    · rename_i zero
      rw [zero, Nat.mul_zero, Nat.add_zero]
      exact ih pktFits
    · rename_i some'
      obtain ⟨bit, eq, above, below⟩ := packetHigh_spec pFits some'
      rw [eq, Nat.mul_comm pkt.length]
      refine .inr ⟨_, rfl, ?_, ?_⟩
      · rw [Nat.pow_add]
        exact (Nat.mul_le_mul_left _ above).trans (Nat.le_add_left _ _)
      · have step := Nat.mul_le_mul_left (2 ^ (config.npktbit * pkt.length)) below
        rw [Nat.mul_succ, ← Nat.pow_add] at step
        rw [Nat.add_assoc]
        omega

variable {np numer denom negdenom quot rem : List Nat} {n : Nat}

theorem numHighbitno_spec (isNum : IsNum config np) :
    (unsignedValue config np = 0 ∧ numHighbitno config np = some (-1)) ∨ ∃ bit : Nat,
      numHighbitno config np = some (bit : Int) ∧ 2 ^ bit ≤ unsignedValue config np ∧
        unsignedValue config np < 2 ^ (bit + 1) := by
  have reversed : Fits config.npktbit np.reverse :=
    fun limb member => isNum.fits limb (List.mem_reverse.1 member)
  have high := highLoop_spec reversed
  rwa [List.reverse_reverse] at high

theorem bitSet_iff (isNum : IsNum config np) (n : Nat) :
    bitSet config np n ↔ unsignedValue config np / 2 ^ n % 2 = 1 := by
  have bits := Nat.mod_lt n config.npktbit_pos
  unfold bitSet unsignedValue
  rw [Nat.and_two_pow, getD_eq isNum.fits, Nat.testBit_mod_two_pow,
    ← Nat.shiftRight_eq_div_pow, Nat.testBit_shiftRight,
    Nat.div_add_mod, Nat.testBit_eq_decide_div_mod_eq]
  by_cases set : value config.npktbit np / 2 ^ n % 2 = 1
  · simp [set, bits]
  · simp [set]

theorem setLow_spec (isNum : IsNum config np) (even : unsignedValue config np % 2 = 0) :
    IsNum config (setLow np) ∧ unsignedValue config (setLow np) = unsignedValue config np + 1 := by
  have packets := npkt_pos config
  obtain ⟨⟨length, fits⟩, below⟩ := isNum
  cases np with
  | nil =>
    rw [List.length_nil] at length
    omega
  | cons p pkt =>
    obtain ⟨pFits, pktFits⟩ := fits_cons.1 fits
    unfold unsignedValue at even ⊢
    rw [value_cons] at even below
    obtain ⟨less, isLess⟩ := Nat.exists_eq_add_of_le config.npktbit_pos
    have half : 2 ^ config.npktbit = 2 * 2 ^ less := by rw [isLess, Nat.pow_add]
    have pEven : p % 2 = 0 := by
      rw [half, Nat.mul_assoc, Nat.add_mul_mod_self_left] at even
      exact even
    have joined : p ||| 1 = p + 1 := by
      have isTwice : p = (p / 2) <<< 1 := by omega
      rw [isTwice]
      exact (Nat.shiftLeft_add_eq_or_of_lt (by decide) _).symm
    have sizeEven : 2 ^ config.numsize % 2 = 0 := by
      rw [two_pow_numsize config]
      exact Nat.mul_mod_right 2 _
    change IsNum config ((p ||| 1) :: pkt) ∧ value config.npktbit ((p ||| 1) :: pkt) = _
    rw [joined, value_cons, value_cons]
    have room : p + 1 + 2 ^ config.npktbit * value config.npktbit pkt < 2 ^ config.numsize := by
      omega
    refine ⟨⟨⟨length, fits_cons.2 ⟨by omega, pktFits⟩⟩, ?_⟩, by omega⟩
    exact room

theorem double_spec (whole : config.Whole) (isNum : IsNum config np)
    (room : 2 * unsignedValue config np < 2 ^ config.numsize) :
    IsNum config (numLlshift config np 1).1 ∧ unsignedValue config (numLlshift config np 1).1 =
      2 * unsignedValue config np := by
  have size := numsize_pos config
  obtain ⟨shiftedNum, value', _⟩ := llshiftBy_spec whole isNum (show 1 ≤ config.numsize from size)
  rw [llshift_within (by decide) (by exact_mod_cast size)]
  rw [Nat.pow_one, Nat.mul_comm, Nat.mod_eq_of_lt room] at value'
  exact ⟨shiftedNum, value'⟩

theorem numUcompare_nonneg {n1 n2 : List Nat} (isNum1 : IsNum config n1)
    (isNum2 : IsNum config n2) :
    0 ≤ numUcompare n1 n2 ↔ unsignedValue config n2 ≤ unsignedValue config n1 := by
  have less := comparePkts_spec (isNum1.length.trans isNum2.length.symm) isNum1.fits isNum2.fits
  unfold numUcompare unsignedValue
  rw [← not_lt, less, not_lt]

/-- The state of a division with so many bits left. -/
structure Dividing (config : Config) (numer denom : List Nat) (n : Nat)
    (quot rem : List Nat) : Prop where
  quotNum : IsNum config quot
  remNum : IsNum config rem
  parts : unsignedValue config numer / 2 ^ n =
      unsignedValue config quot * unsignedValue config denom + unsignedValue config rem
  less : unsignedValue config rem < unsignedValue config denom

theorem next_bit (number n : Nat) :
    number / 2 ^ n = 2 * (number / 2 ^ (n + 1)) + number / 2 ^ n % 2 := by
  rw [Nat.pow_succ, ← Nat.div_div_eq_div_mul]
  exact (Nat.div_add_mod _ 2).symm

section

variable (whole : config.Whole) (numerNum : IsNum config numer) (denomNum : IsNum config denom)
  (negNum : IsNum config negdenom)
  (isNeg : unsignedValue config negdenom + unsignedValue config denom = 2 ^ config.numsize)
include whole numerNum denomNum negNum isNeg

/-- **One bit of the quotient.** -/
theorem divStep_spec (dividing : Dividing config numer denom (n + 1) quot rem) :
    Dividing config numer denom n (divStep config numer denom negdenom n quot rem).1
      (divStep config numer denom negdenom n quot rem).2 := by
  obtain ⟨quotNum, remNum, parts, less⟩ := dividing
  have next := next_bit (unsignedValue config numer) n
  have numerBelow : unsignedValue config numer < 2 ^ config.numsize := numerNum.unused
  have within := Nat.div_le_self (unsignedValue config numer) (2 ^ n)
  have quotLe : unsignedValue config quot ≤
      unsignedValue config quot * unsignedValue config denom :=
    Nat.le_mul_of_pos_right _ (by omega)
  have isBit := Nat.mod_lt (unsignedValue config numer / 2 ^ n) Nat.two_pos
  -- The remainder takes the bit in, and the quotient makes room.
  obtain ⟨shiftedNum, shiftedValue⟩ := double_spec whole remNum (by omega)
  obtain ⟨roomNum, roomValue⟩ := double_spec whole quotNum (by omega)
  obtain ⟨inNum, inValue⟩ : IsNum config (if bitSet config numer n then
    setLow (numLlshift config rem 1).1
    else (numLlshift config rem 1).1) ∧ unsignedValue config (if bitSet config numer n then
      setLow (numLlshift config rem 1).1
      else (numLlshift config rem 1).1) =
      2 * unsignedValue config rem + unsignedValue config numer / 2 ^ n % 2 := by
    have set := bitSet_iff numerNum n
    split
    · rename_i isSet
      obtain ⟨setNum, setValue⟩ := setLow_spec shiftedNum (by omega)
      exact ⟨setNum, by rw [setValue, shiftedValue, set.1 isSet]⟩
    · rename_i notSet
      rw [set] at notSet
      exact ⟨shiftedNum, by omega⟩
  unfold divStep
  dsimp only
  generalize (if bitSet config numer n then setLow (numLlshift config rem 1).1
    else (numLlshift config rem 1).1) = brought at inNum inValue ⊢
  have compare := numUcompare_nonneg inNum denomNum
  split
  · rename_i large
    obtain ⟨differenceNum, differenceValue, _⟩ := numUadd_spec whole inNum negNum
    obtain ⟨setNum, setValue⟩ := setLow_spec roomNum (by omega)
    have difference : unsignedValue config (numUadd config brought negdenom).1 +
        unsignedValue config denom = unsignedValue config brought := by
      have total : unsignedValue config brought + unsignedValue config negdenom =
          unsignedValue config brought - unsignedValue config denom + 2 ^ config.numsize := by
        omega
      rw [total, Nat.add_mod_right, Nat.mod_eq_of_lt (by omega)] at differenceValue
      omega
    dsimp only
    refine ⟨setNum, differenceNum, ?_, by omega⟩
    rw [next, setValue, roomValue, Nat.add_mul, Nat.mul_assoc]
    omega
  · rename_i small
    dsimp only
    refine ⟨roomNum, inNum, ?_, by omega⟩
    rw [next, roomValue, Nat.mul_assoc]
    omega

/-- **All bits of the quotient.** -/
theorem divLoop_spec (dividing : Dividing config numer denom n quot rem) :
    Dividing config numer denom 0 (divLoop config numer denom negdenom n quot rem).1
      (divLoop config numer denom negdenom n quot rem).2 := by
  induction n generalizing quot rem with
  | zero => exact dividing
  | succ n ih => exact ih (divStep_spec whole numerNum denomNum negNum isNeg dividing)

end

end Uw7.Intemu
