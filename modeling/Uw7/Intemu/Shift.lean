import Uw7.Intemu.Arithmetic

namespace Uw7.Intemu

/-!
# Shifting and narrowing numbers

The four shifts of `intemu.c` and the two functions that cut a number to some
bits.  A shift moves whole packets, and then the rest of the count in bits.  A
count below zero shifts the other way; a count beyond the number is cut to
`NUMSIZE`.
-/

open Lib Lib.Limbs List

variable (config : Config)

def low (n : Nat) : Nat := 2 ^ n - 1

def unusedMask : Nat := low (config.npktbit - config.ntopbit.toNat) <<< config.ntopbit.toNat

/-- `p |= UNUSED` for the last of some packets. -/
def fillUnused (pkt : List Nat) : List Nat := pkt.set (pkt.length - 1)
    (pkt.getD (pkt.length - 1) 0 ||| unusedMask config)

/-- The loop of the left shifts, for bits within a packet. -/
def upLoop (i : Nat) : Nat → List Nat → List Nat × Nat
  | carry, p :: pkt =>
    let carry := carry ||| ulong config (p <<< i)
    let rest := upLoop i (carry >>> config.npktbit) pkt
    (carry % 2 ^ config.npktbit :: rest.1, rest.2)
  | carry, [] => ([], carry)

/-- The packets and the carry of a left shift.  Without bits to shift there is
no loop. -/
def upBits (i : Nat) (pkt : List Nat) : List Nat × Nat :=
  if i = 0 then (pkt, 0) else upLoop config i 0 pkt

/-- The loop of the right shifts, for packets from the top. -/
def downLoop (i : Nat) : Nat → List Nat → List Nat
  | carry, p :: pkt =>
    let carry := carry ||| p
    (carry >>> i) % 2 ^ config.npktbit :: downLoop i (ulong config (carry <<< config.npktbit)) pkt
  | _, [] => []

/-- The packets of a right shift.  Without bits to shift there is no loop. -/
def downBits (i carry : Nat) (pkt : List Nat) : List Nat :=
  if i = 0 then pkt else (downLoop config i carry pkt.reverse).reverse

/-- `num_llshift` for a count from 0 to `NUMSIZE`. -/
def llshiftBy (np : List Nat) (n : Nat) : List Nat × Nat :=
  let pcnt := n / config.npktbit
  let up := upBits config (n % config.npktbit) (np.take (config.npkt - pcnt))
  let pkt := replicate pcnt 0 ++ up.1
  let oflow :=
    if (∃ p ∈ np.drop (config.npkt - pcnt), p ≠ 0) ∨ up.2 ≠ 0 then 1 else 0
  if config.partialTop ∧ hasUnused config pkt then
    (clearUnused config pkt, 1)
  else (pkt, oflow)

/-- `num_lrshift` for a count from 0 to `NUMSIZE`. -/
def lrshiftBy (np : List Nat) (n : Nat) : List Nat :=
  let pcnt := n / config.npktbit
  downBits config (n % config.npktbit) 0 (np.drop pcnt) ++ replicate pcnt 0

/-- `num_alshift` of a negative number, for a count from 0 to `NUMSIZE`. -/
def alshiftBy (np : List Nat) (n : Nat) : Option (List Nat × Nat) := do
  let np := if config.partialTop then fillUnused config np else np
  let pcnt := n / config.npktbit
  let i := n % config.npktbit
  let up := upBits config i (np.take (config.npkt - pcnt))
  let pkt := replicate pcnt 0 ++ up.1
  let lost := (∃ p ∈ np.drop (config.npkt - pcnt), p ≠ low config.npktbit) ∨ (i ≠ 0 ∧ up.2 ≠ low i)
  let unfilled := config.partialTop ∧ topPkt config pkt &&& unusedMask config ≠ unusedMask config
  let pkt := if config.partialTop then clearUnused config pkt else pkt
  let newsign ← sign config pkt
  return (pkt, if lost ∨ unfilled ∨ newsign = 0 then 1 else 0)

/-- `num_arshift` of a negative number, for a count from 0 to `NUMSIZE`.  The
unused bits are filled only where whole packets are moved. -/
def arshiftBy (np : List Nat) (n : Nat) : List Nat :=
  let pcnt := n / config.npktbit
  let i := n % config.npktbit
  let moved := np.drop pcnt
  let moved :=
    if pcnt ≠ 0 ∧ config.partialTop then fillUnused config moved else moved
  let fill :=
    if pcnt ≠ 0 ∧ config.partialTop then
      replicate (pcnt - 1) (low config.npktbit) ++ [low config.ntopbit.toNat]
    else replicate pcnt (low config.npktbit)
  let pkt := downBits config i (low config.npktbit <<< config.npktbit) moved ++ fill
  if i ≠ 0 ∧ config.partialTop then clearUnused config pkt else pkt

/-- A count cut to the size of a number. -/
def cutCount (n : Int) : Nat := min n.natAbs config.numsize

def numLlshift (np : List Nat) (n : Int) : List Nat × Nat :=
  if n < 0 then (lrshiftBy config np (cutCount config n), 1)
  else
    let shifted := llshiftBy config np (cutCount config n)
    (shifted.1, if config.numsize < n then 1 else shifted.2)

def numLrshift (np : List Nat) (n : Int) : List Nat × Nat :=
  if n < 0 then ((llshiftBy config np (cutCount config n)).1, 1)
  else
    (lrshiftBy config np (cutCount config n),
      if config.numsize < n then 1 else 0)

def numAlshift (np : List Nat) (n : Int) : Option (List Nat × Nat) := do
  let origsign ← sign config np
  if origsign = 0 then
    let shifted := numLlshift config np n
    let newsign ← sign config shifted.1 return (shifted.1,
      if shifted.2 = 0 ∧ newsign ≠ 0 then 1 else shifted.2)
  else if n < 0 then
    return (arshiftBy config np (cutCount config n), 1)
  else
    let shifted ← alshiftBy config np (cutCount config n)
    return (shifted.1, if config.numsize < n then 1 else shifted.2)

def numArshift (np : List Nat) (n : Int) : Option (List Nat × Nat) := do
  let origsign ← sign config np
  if origsign = 0 then
    return numLrshift config np n
  else if n < 0 then
    let shifted ← alshiftBy config np (cutCount config n) return (shifted.1, 1)
  else
    return (arshiftBy config np (cutCount config n),
      if config.numsize < n then 1 else 0)

/-- `num_snarrow`; more bits than a number has are fatal. -/
def numSnarrow (np : List Nat) (nb : Nat) : Option (List Nat × Nat) :=
  if config.numsize < nb then none
  else if config.numsize - nb = 0 then some (np, 0)
  else do
    let up ← numAlshift config np (config.numsize - nb : Nat)
    let down ← numArshift config up.1 (config.numsize - nb : Nat) return (down.1, up.2)

/-- `num_unarrow`; more bits than a number has are fatal. -/
def numUnarrow (np : List Nat) (nb : Nat) : Option (List Nat × Nat) :=
  if config.numsize < nb then none
  else if config.numsize - nb = 0 then some (np, 0)
  else
    let up := numLlshift config np (config.numsize - nb : Nat)
    some ((numLrshift config up.1 (config.numsize - nb : Nat)).1, up.2)

end Uw7.Intemu

namespace Uw7.Intemu

/-!
# What the shift loops do to a value

A left shift multiplies; what leaves the packets at the top is what the packets
moved out and the last carry are worth.  A right shift divides, with the bits of
the first carry above the number.
-/

open Lib Lib.Limbs

variable {config : Config}

variable {i carry n width rest : Nat} {pkt np : List Nat}

/-- **Packets moved up** by bits. -/
theorem upLoop_spec (within : i < config.npktbit) (fits : Fits config.npktbit pkt)
    (small : carry < 2 ^ i) : (upLoop config i carry pkt).1.length = pkt.length ∧
      Fits config.npktbit (upLoop config i carry pkt).1 ∧ (upLoop config i carry pkt).2 < 2 ^ i ∧
      value config.npktbit (upLoop config i carry pkt).1 + 2 ^ (config.npktbit * pkt.length) *
        (upLoop config i carry pkt).2 =
        value config.npktbit pkt * 2 ^ i + carry := by
  induction pkt generalizing carry with
  | nil => simp [upLoop, small]
  | cons p pkt ih =>
    obtain ⟨pFits, pktFits⟩ := fits_cons.1 fits
    have power := Nat.two_pow_pos config.npktbit
    have double := npktbit_double config
    have less : 2 ^ i < 2 ^ config.npktbit := Nat.pow_lt_pow_right (by decide) within
    have moved : (p + 1) * 2 ^ i ≤ 2 ^ config.npktbit * 2 ^ i := Nat.mul_le_mul_right _ pFits
    have room : 2 ^ config.npktbit * 2 ^ i ≤ 2 ^ config.npktbit * 2 ^ config.npktbit :=
      Nat.mul_le_mul_left _ less.le
    rw [Nat.succ_mul] at moved
    have same : ulong config (p <<< i) = p <<< i := by exact Nat.mod_eq_of_lt (by omega)
    have joined : carry ||| ulong config (p <<< i) = p * 2 ^ i + carry := by
      rw [same, Nat.lor_comm, ← Nat.shiftLeft_add_eq_or_of_lt small, Nat.shiftLeft_eq]
    have carried : (p * 2 ^ i + carry) >>> config.npktbit < 2 ^ i := by
      rw [Nat.shiftRight_eq_div_pow]
      refine Nat.div_lt_of_lt_mul ?_
      omega
    obtain ⟨restLength, restFits, restCarry, restValue⟩ := ih pktFits carried
    simp only [upLoop, joined, List.length_cons, value_cons, fits_cons]
    refine ⟨by rw [restLength], ⟨Nat.mod_lt _ power, restFits⟩, restCarry, ?_⟩
    have weight : 2 ^ (config.npktbit * (pkt.length + 1)) =
        2 ^ config.npktbit * 2 ^ (config.npktbit * pkt.length) := by
      rw [Nat.mul_succ, Nat.pow_add, Nat.mul_comm]
    have parts := split_carry config.npktbit (p * 2 ^ i + carry) (value config.npktbit pkt * 2 ^ i)
    rw [Nat.add_comm _ (value config.npktbit pkt * 2 ^ i), ← restValue,
      Nat.mul_add, ← Nat.mul_assoc, ← weight] at parts
    rw [Nat.add_mul, Nat.mul_assoc]
    omega

theorem upBits_spec (within : i < config.npktbit) (fits : Fits config.npktbit pkt) :
    (upBits config i pkt).1.length = pkt.length ∧ Fits config.npktbit (upBits config i pkt).1 ∧
      (upBits config i pkt).2 < 2 ^ i ∧ value config.npktbit (upBits config i pkt).1 +
        2 ^ (config.npktbit * pkt.length) * (upBits config i pkt).2 =
        value config.npktbit pkt * 2 ^ i := by
  unfold upBits
  split
  · rename_i zero
    rw [zero]
    simp [fits]
  · exact upLoop_spec within fits (Nat.two_pow_pos i)

/-- The packets that a left shift by so many bits leaves. -/
def movedUp (config : Config) (np : List Nat) (n : Nat) : List Nat × Nat :=
  upBits config (n % config.npktbit) (np.take (config.npkt - n / config.npktbit))

/-- What a left shift loses: the packets moved out and the last carry. -/
def lostUp (config : Config) (np : List Nat) (n : Nat) : Nat := (movedUp config np n).2 +
    2 ^ (n % config.npktbit) * value config.npktbit (np.drop (config.npkt - n / config.npktbit))

theorem pcnt_le (within : n ≤ config.npktbit * config.npkt) : n / config.npktbit ≤ config.npkt := by
  have bound := @Nat.div_le_div_right _ _ config.npktbit within
  rwa [Nat.mul_div_cancel_left _ config.npktbit_pos] at bound

theorem two_pow_count (config : Config) (n : Nat) : 2 ^ n =
    2 ^ (config.npktbit * (n / config.npktbit)) * 2 ^ (n % config.npktbit) := by
  rw [← Nat.pow_add, Nat.div_add_mod]

/-- **A number moved up** is multiplied, but for what is lost. -/
theorem movedUp_spec (isPkts : IsPkts config np) (within : n ≤ config.npktbit * config.npkt) :
    IsPkts config (List.replicate (n / config.npktbit) 0 ++ (movedUp config np n).1) ∧
      (movedUp config np n).2 < 2 ^ (n % config.npktbit) ∧
      value config.npktbit (List.replicate (n / config.npktbit) 0 ++ (movedUp config np n).1) +
        2 ^ (config.npktbit * config.npkt) * lostUp config np n =
        value config.npktbit np * 2 ^ n := by
  have count := pcnt_le within
  have bits := Nat.mod_lt n config.npktbit_pos
  have length := isPkts.length
  have keptFits : Fits config.npktbit (np.take (config.npkt - n / config.npktbit)) :=
    fun limb member => isPkts.fits limb (List.mem_of_mem_take member)
  have keptLength : (np.take (config.npkt - n / config.npktbit)).length =
      config.npkt - n / config.npktbit := by
    rw [List.length_take, length]
    exact Nat.min_eq_left (Nat.sub_le _ _)
  obtain ⟨upLength, upFits, upCarry, upValue⟩ := upBits_spec bits keptFits
  have parts := @value_append config.npktbit (np.take (config.npkt - n / config.npktbit))
      (np.drop (config.npkt - n / config.npktbit))
  have power := two_pow_count config n
  have weight : 2 ^ (config.npktbit * config.npkt) = 2 ^ (config.npktbit * (n / config.npktbit)) *
      2 ^ (config.npktbit * (config.npkt - n / config.npktbit)) := by
    rw [← Nat.pow_add, ← Nat.mul_add, Nat.add_sub_cancel' count]
  rw [List.take_append_drop] at parts
  rw [keptLength] at upLength upValue parts
  unfold lostUp movedUp
  refine ⟨⟨?_, ?_⟩, upCarry, ?_⟩
  · rw [List.length_append, List.length_replicate, upLength]
    exact Nat.add_sub_cancel' count
  · rw [fits_append]
    exact ⟨fits_replicate_zero _, upFits⟩
  · rw [value_append, value_replicate_zero, List.length_replicate,
      Nat.zero_add, parts, power, weight]
    generalize upBits config (n % config.npktbit)
      (np.take (config.npkt - n / config.npktbit)) = up at upValue ⊢
    generalize value config.npktbit (np.drop (config.npkt - n / config.npktbit)) = high
    generalize 2 ^ (config.npktbit * (config.npkt - n / config.npktbit)) = stays at upValue ⊢
    calc
      _ = 2 ^ (config.npktbit * (n / config.npktbit)) * (value config.npktbit up.1 + stays * up.2) +
        2 ^ (config.npktbit * (n / config.npktbit)) *
          (stays * (2 ^ (n % config.npktbit) * high)) := by
        ring
      _ = _ := by
        rw [upValue]
        ring

theorem lostUp_eq_zero : lostUp config np n = 0 ↔
    ¬((∃ p ∈ np.drop (config.npkt - n / config.npktbit), p ≠ 0) ∨ (movedUp config np n).2 ≠ 0) := by
  have power := Nat.two_pow_pos (n % config.npktbit)
  unfold lostUp
  rw [Nat.add_eq_zero_iff, Nat.mul_eq_zero, or_iff_right power.ne', value_eq_zero]
  push Not
  exact and_comm

theorem lostUp_eq_ones (isPkts : IsPkts config np) (within : n ≤ config.npktbit * config.npkt) :
    lostUp config np n + 1 = 2 ^ n ↔ ¬((∃ p ∈ np.drop (config.npkt - n / config.npktbit),
      p ≠ low config.npktbit) ∨
      (n % config.npktbit ≠ 0 ∧ (movedUp config np n).2 ≠ low (n % config.npktbit))) := by
  have count := pcnt_le within
  obtain ⟨_, carry, _⟩ := movedUp_spec isPkts within
  have highFits : Fits config.npktbit (np.drop (config.npkt - n / config.npktbit)) :=
    fun limb member => isPkts.fits limb (List.mem_of_mem_drop member)
  have highLength : (np.drop (config.npkt - n / config.npktbit)).length = n / config.npktbit := by
    rw [List.length_drop, isPkts.length]
    exact Nat.sub_sub_self count
  have ones := value_eq_ones highFits
  have highBelow := value_lt highFits
  rw [highLength] at ones highBelow
  have power := two_pow_count config n
  have carryOnes : (n % config.npktbit ≠ 0 ∧ (movedUp config np n).2 ≠ low (n % config.npktbit)) ↔
      (movedUp config np n).2 + 1 ≠ 2 ^ (n % config.npktbit) := by
    unfold low
    by_cases zero : n % config.npktbit = 0
    · rw [zero] at carry ⊢
      simp at carry ⊢
      exact carry
    · omega
  rw [carryOnes]
  unfold low lostUp
  push Not
  rw [← ones, power]
  generalize 2 ^ (n % config.npktbit) = bits at carry ⊢
  generalize 2 ^ (config.npktbit * (n / config.npktbit)) = packets at highBelow ⊢
  generalize value config.npktbit (np.drop (config.npkt - n / config.npktbit)) = high at highBelow ⊢
  constructor
  · intro total
    have whole : high + 1 = packets := by
      by_contra notAll
      have step : (high + 2) * bits ≤ packets * bits := Nat.mul_le_mul_right _ (by omega)
      rw [Nat.add_mul, Nat.mul_comm high] at step
      omega
    refine ⟨whole, ?_⟩
    rw [← whole, Nat.add_mul, Nat.mul_comm high] at total
    omega
  · rintro ⟨rfl, last⟩
    rw [Nat.add_mul, Nat.mul_comm high]
    omega

theorem down_above (within : i ≤ width) (above p lower : Nat) :
    ((above * 2 ^ width + p) * 2 ^ rest + lower) / 2 ^ i % 2 ^ rest =
      (p * 2 ^ rest + lower) / 2 ^ i % 2 ^ rest := by
  obtain ⟨more, rfl⟩ := Nat.exists_eq_add_of_le within
  have split : (above * 2 ^ (i + more) + p) * 2 ^ rest + lower = (p * 2 ^ rest + lower) +
      2 ^ i * (2 ^ rest * (above * 2 ^ more)) := by
    ring
  rw [split, Nat.add_mul_div_left _ _ (Nat.two_pow_pos i), Nat.add_mul_mod_self_left]

theorem down_step {above p lower : Nat} (within : i ≤ width) (lowerBelow : lower < 2 ^ rest) :
    (p * 2 ^ rest + lower) / 2 ^ i % 2 ^ rest +
      2 ^ rest * ((above * 2 ^ width + p) / 2 ^ i % 2 ^ width) =
      (above * 2 ^ (rest + width) + (lower + 2 ^ rest * p)) / 2 ^ i % 2 ^ (rest + width) := by
  have total : above * 2 ^ (rest + width) + (lower + 2 ^ rest * p) =
      (above * 2 ^ width + p) * 2 ^ rest + lower := by
    ring
  have top : ((above * 2 ^ width + p) * 2 ^ rest + lower) / 2 ^ i / 2 ^ rest =
      (above * 2 ^ width + p) / 2 ^ i := by
    rw [Nat.div_div_eq_div_mul, Nat.mul_comm (2 ^ i),
      ← Nat.div_div_eq_div_mul, Nat.mul_comm _ (2 ^ rest), Nat.mul_add_div (Nat.two_pow_pos rest),
      Nat.div_eq_of_lt lowerBelow, Nat.add_zero]
  rw [total, Nat.pow_add, Nat.mod_mul, top, down_above within]

/-- **Packets moved down** by bits, from the top. -/
theorem downLoop_spec (within : i ≤ config.npktbit) (fits : Fits config.npktbit pkt)
    (low : carry % 2 ^ config.npktbit = 0) : (downLoop config i carry pkt).length = pkt.length ∧
      Fits config.npktbit (downLoop config i carry pkt).reverse ∧
      value config.npktbit (downLoop config i carry pkt).reverse =
        (carry / 2 ^ config.npktbit * 2 ^ (config.npktbit * pkt.length) +
          value config.npktbit pkt.reverse) / 2 ^ i %
          2 ^ (config.npktbit * pkt.length) := by
  induction pkt generalizing carry with
  | nil => simp [downLoop, Nat.mod_one]
  | cons p pkt ih =>
    obtain ⟨pFits, pktFits⟩ := fits_cons.1 fits
    have power := Nat.two_pow_pos config.npktbit
    have parts := Nat.div_add_mod carry (2 ^ config.npktbit)
    rw [low, Nat.add_zero, Nat.mul_comm] at parts
    have joined : carry ||| p = carry / 2 ^ config.npktbit * 2 ^ config.npktbit + p := by
      conv_lhs => rw [← parts, ← Nat.shiftLeft_eq]
      rw [← Nat.shiftLeft_add_eq_or_of_lt pFits, Nat.shiftLeft_eq]
    have wide : config.npktbit + config.npktbit ≤ config.ulongBit := by
      have double := npktbit_double config
      rw [← Nat.pow_add] at double
      exact (Nat.pow_le_pow_iff_right (by decide)).1 double
    obtain ⟨more, isMore⟩ := Nat.exists_eq_add_of_le wide
    have next : ulong config ((carry ||| p) <<< config.npktbit) =
        (carry ||| p) % 2 ^ (config.npktbit + more) * 2 ^ config.npktbit := by
      rw [ulong, isMore, Nat.shiftLeft_eq, Nat.add_assoc,
        Nat.pow_add _ config.npktbit (config.npktbit + more),
        Nat.mul_comm, Nat.mul_mod_mul_left, Nat.mul_comm]
    have nextLow : ulong config ((carry ||| p) <<< config.npktbit) % 2 ^ config.npktbit = 0 := by
      rw [next]
      exact Nat.mul_mod_left _ _
    obtain ⟨length, restFits, restValue⟩ := ih pktFits nextLow
    have pktFits' : Fits config.npktbit pkt.reverse :=
      fun limb member => pktFits limb (List.mem_reverse.1 member)
    have lower := value_lt pktFits'
    rw [List.length_reverse] at lower
    have restIs : value config.npktbit (downLoop config i
        (ulong config ((carry ||| p) <<< config.npktbit)) pkt).reverse =
        (p * 2 ^ (config.npktbit * pkt.length) + value config.npktbit pkt.reverse) / 2 ^ i %
          2 ^ (config.npktbit * pkt.length) := by
      have pLow : (carry ||| p) % 2 ^ (config.npktbit + more) % 2 ^ config.npktbit = p := by
        rw [Nat.pow_add, Nat.mod_mul_right_mod, joined,
          Nat.mul_add_mod_self_right, Nat.mod_eq_of_lt pFits]
      have split := Nat.div_add_mod ((carry ||| p) % 2 ^ (config.npktbit + more))
          (2 ^ config.npktbit)
      rw [pLow, Nat.mul_comm] at split
      rw [restValue, next, Nat.mul_div_cancel _ power, ← split]
      exact down_above within _ _ _
    simp only [downLoop, List.length_cons, List.reverse_cons,
      value_snoc, List.length_reverse, length, fits_append, fits_cons]
    refine ⟨trivial, ⟨restFits, Nat.mod_lt _ power, fits_nil⟩, ?_⟩
    rw [restIs, joined, Nat.shiftRight_eq_div_pow, Nat.mul_succ]
    exact down_step within lower

theorem downBits_spec (within : i < config.npktbit) (fits : Fits config.npktbit pkt) (above : Nat) :
    (downBits config i (above <<< config.npktbit) pkt).length = pkt.length ∧ Fits config.npktbit
      (downBits config i (above <<< config.npktbit) pkt) ∧
      value config.npktbit (downBits config i (above <<< config.npktbit) pkt) =
        (above * 2 ^ (config.npktbit * pkt.length) + value config.npktbit pkt) / 2 ^ i %
          2 ^ (config.npktbit * pkt.length) := by
  have power := Nat.two_pow_pos config.npktbit
  unfold downBits
  split
  · rename_i zero
    refine ⟨rfl, fits, ?_⟩
    rw [zero, Nat.pow_zero, Nat.div_one, Nat.mul_add_mod_self_right,
      Nat.mod_eq_of_lt (value_lt fits)]
  · have reversed : Fits config.npktbit pkt.reverse :=
      fun limb member => fits limb (List.mem_reverse.1 member)
    have low : above <<< config.npktbit % 2 ^ config.npktbit = 0 := by
      rw [Nat.shiftLeft_eq]
      exact Nat.mul_mod_left _ _
    obtain ⟨length, downFits, downValue⟩ := downLoop_spec within.le reversed low
    rw [List.length_reverse] at length downValue
    rw [Nat.shiftLeft_eq, Nat.mul_div_cancel _ power, List.reverse_reverse] at downValue
    rw [Nat.shiftLeft_eq] at downFits length ⊢
    exact ⟨by rw [List.length_reverse, length], downFits, downValue⟩

end Uw7.Intemu
