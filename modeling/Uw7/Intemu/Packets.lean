import Mathlib.Data.List.Induction
import Uw7.Intemu.Number

namespace Uw7.Intemu

/-!
# Packets and their values

What masking, the sign, addition, complement and comparison of packets do to the
value, when the top packet holds part of the number.
-/

open Lib Lib.Limbs List Nat

variable {config : Config}

/-- The top packet holds part of the number. -/
def Config.Whole (config : Config) : Prop := 0 < config.ntopbit

/-- As many packets as a number has. -/
structure IsPkts (config : Config) (pkt : List Nat) : Prop where
  length : pkt.length = config.npkt
  fits : Fits config.npktbit pkt

/-- Packets without unused bits. -/
structure IsNum (config : Config) (pkt : List Nat) : Prop extends IsPkts config pkt where
  unused : value config.npktbit pkt < 2 ^ config.numsize

/-- How many bits the package computes with.  Without a natural `NTOPBIT` the
top packet is never masked. -/
def Config.capacity (config : Config) : Nat :=
  if config.ntopbit < 0 then config.npktbit * config.npkt
  else config.numsize

/-- Packets that hold no more than the package computes with. -/
structure IsHeld (config : Config) (pkt : List Nat) : Prop extends IsPkts config pkt where
  within : value config.npktbit pkt < 2 ^ config.capacity

/-- A number of the package. -/
structure IntNum (config : Config) where
  pkt : List Nat
  isNum : IsNum config pkt

/-- The number read as unsigned. -/
abbrev unsignedValue (config : Config) (pkt : List Nat) : Nat := value config.npktbit pkt

/-- The number read as two's complement. -/
def signedValue (config : Config) (pkt : List Nat) : Int :=
  if unsignedValue config pkt < 2 ^ (config.numsize - 1) then
    unsignedValue config pkt
  else (unsignedValue config pkt : Int) - 2 ^ config.numsize

theorem ulongBit_pos (config : Config) : 0 < config.ulongBit := by
  have wide := config.longPkts_wide
  exact Nat.mul_pos config.npktbit_pos (by omega)

theorem numsize_pos (config : Config) : 0 < config.numsize :=
  (ulongBit_pos config).trans_le config.numsize_long

theorem numsize_le (config : Config) : config.numsize ≤ config.npktbit * config.npkt := by
  have positive := ulongBit_pos config
  have whole := div_add_mod (config.numsize - 1 + config.ulongBit) config.ulongBit
  have rest := mod_lt (config.numsize - 1 + config.ulongBit) positive
  have packets : config.npktbit * config.npkt = config.ulongBit *
      ((config.numsize - 1 + config.ulongBit) / config.ulongBit) := by
    simp only [Config.npkt, Config.ulongBit]
    rw [Nat.mul_comm _ config.longPkts, ← Nat.mul_assoc]
  omega

theorem npkt_pos (config : Config) : 0 < config.npkt := by
  have size := numsize_pos config
  have holds := numsize_le config
  by_contra none'
  have zero : config.npkt = 0 := by omega
  rw [zero, Nat.mul_zero] at holds
  omega

theorem ntopbit_eq (config : Config) : config.ntopbit =
    config.numsize - (config.npktbit * (config.npkt - 1) : Nat) := by
  unfold Config.ntopbit
  rw [cast_mul, cast_sub (npkt_pos config), Int.mul_comm, cast_one]

theorem Config.Whole.natural (whole : config.Whole) : 0 ≤ config.ntopbit := Int.le_of_lt whole

theorem topbit_natural (natural : 0 ≤ config.ntopbit) : config.ntopbit.toNat ≤ config.npktbit ∧
    config.numsize = config.npktbit * (config.npkt - 1) + config.ntopbit.toNat := by
  have packets := npkt_pos config
  have holds := numsize_le config
  have isTop := ntopbit_eq config
  have next : config.npktbit * config.npkt =
      config.npktbit * (config.npkt - 1) + config.npktbit := by
    rw [← mul_succ, succ_eq_add_one, Nat.sub_add_cancel packets]
  omega

theorem topbit_spec (whole : config.Whole) :
    0 < config.ntopbit.toNat ∧ config.ntopbit.toNat ≤ config.npktbit ∧ config.numsize =
      config.npktbit * (config.npkt - 1) + config.ntopbit.toNat := by
  obtain ⟨topWithin, size⟩ := topbit_natural whole.natural
  unfold Config.Whole at whole
  exact ⟨by omega, topWithin, size⟩

theorem numsize_le_capacity (config : Config) : config.numsize ≤ config.capacity := by
  unfold Config.capacity
  split
  · exact numsize_le config
  · exact Nat.le_refl _

theorem capacity_le (config : Config) : config.capacity ≤ config.npktbit * config.npkt := by
  unfold Config.capacity
  split
  · exact Nat.le_refl _
  · exact numsize_le config

theorem capacity_natural (natural : 0 ≤ config.ntopbit) : config.capacity = config.numsize :=
  if_neg (by omega)

variable {pkt : List Nat} {oflow total : Nat} {cut : List Nat × Nat}

theorem IsNum.isHeld (isNum : IsNum config pkt) : IsHeld config pkt :=
  ⟨isNum.toIsPkts, isNum.unused.trans_le
    (Nat.pow_le_pow_right Nat.two_pos (numsize_le_capacity config))⟩

theorem IsHeld.isNum (natural : 0 ≤ config.ntopbit) (isHeld : IsHeld config pkt) :
    IsNum config pkt :=
  ⟨isHeld.toIsPkts, by
    rw [← capacity_natural natural]
    exact isHeld.within⟩

theorem npktbit_double (config : Config) :
    2 ^ config.npktbit * 2 ^ config.npktbit ≤ 2 ^ config.ulongBit := by
  rw [← Nat.pow_add]
  refine Nat.pow_le_pow_right Nat.two_pos ?_
  have wide := Nat.mul_le_mul_left config.npktbit config.longPkts_wide
  unfold Config.ulongBit
  omega

theorem pkts_snoc (isPkts : IsPkts config pkt) :
    pkt = pkt.take (config.npkt - 1) ++ [topPkt config pkt] ∧
      (pkt.take (config.npkt - 1)).length = config.npkt - 1 ∧
      Fits config.npktbit (pkt.take (config.npkt - 1)) ∧
      topPkt config pkt < 2 ^ config.npktbit := by
  have packets := npkt_pos config
  have length := isPkts.length
  have below : config.npkt - 1 < pkt.length := by omega
  have top : topPkt config pkt = pkt[config.npkt - 1] := by
    unfold topPkt
    rw [getD_eq_getElem?_getD, List.getElem?_eq_getElem below]
    rfl
  refine ⟨?_, by simp; omega, fun limb member => isPkts.fits limb (mem_of_mem_take member), ?_⟩
  · rw [top, take_append_getElem]
    rw [take_of_length_le]
    omega
  · rw [top]
    exact isPkts.fits _ (getElem_mem below)

section

variable (natural : 0 ≤ config.ntopbit)
include natural

theorem clearUnused_spec (isPkts : IsPkts config pkt) :
    IsNum config (clearUnused config pkt) ∧ value config.npktbit (clearUnused config pkt) =
      value config.npktbit pkt % 2 ^ config.numsize := by
  obtain ⟨split, length, fits, topFits⟩ := pkts_snoc isPkts
  obtain ⟨_, size⟩ := topbit_natural natural
  have cleared : clearUnused config pkt = pkt.take (config.npkt - 1) ++
      [topPkt config pkt % 2 ^ config.ntopbit.toNat] := by
    unfold clearUnused
    generalize topPkt config pkt % 2 ^ config.ntopbit.toNat = cut
    conv_lhs => rw [split]
    rw [set_append_right _ _ (by omega), length, Nat.sub_self]
    rfl
  have value' : value config.npktbit (clearUnused config pkt) =
      value config.npktbit pkt % 2 ^ config.numsize := by
    rw [cleared, value_mod_top fits, length, ← size, ← split]
  refine ⟨⟨⟨?_, ?_⟩, ?_⟩, value'⟩
  · rw [clearUnused, length_set]
    exact isPkts.length
  · rw [cleared, fits_append, fits_cons]
    exact ⟨fits, (mod_le _ _).trans_lt topFits, fits_nil⟩
  · rw [value']
    exact mod_lt _ (Nat.two_pow_pos _)

theorem hasUnused_iff (isPkts : IsPkts config pkt) :
    hasUnused config pkt ↔ 2 ^ config.numsize ≤ value config.npktbit pkt := by
  obtain ⟨split, length, fits, _⟩ := pkts_snoc isPkts
  obtain ⟨_, size⟩ := topbit_natural natural
  have top := top_eq_div fits (topPkt config pkt)
  rw [← split, length] at top
  unfold hasUnused
  rw [← top, Nat.div_div_eq_div_mul, ← Nat.pow_add, ← size, Nat.div_ne_zero_iff]
  constructor
  · exact fun both => both.2
  · exact fun big => ⟨(Nat.two_pow_pos _).ne', big⟩

theorem value_lt_numsize (full : ¬config.partialTop) (isPkts : IsPkts config pkt) :
    value config.npktbit pkt < 2 ^ config.numsize := by
  obtain ⟨topWithin, size⟩ := topbit_natural natural
  have packets := npkt_pos config
  have bound := value_lt isPkts.fits
  have full' : config.ntopbit.toNat = config.npktbit := by
    unfold Config.partialTop at full
    omega
  have next : config.npktbit * config.npkt =
      config.npktbit * (config.npkt - 1) + config.npktbit := by
    rw [← mul_succ, succ_eq_add_one, Nat.sub_add_cancel packets]
  rw [isPkts.length] at bound
  rw [size, full', ← next]
  exact bound

theorem masked_spec (isPkts : IsPkts config pkt) :
    IsNum config (if config.partialTop then clearUnused config pkt else pkt) ∧ value config.npktbit
      (if config.partialTop then clearUnused config pkt else pkt) =
      value config.npktbit pkt % 2 ^ config.numsize := by
  split
  · exact clearUnused_spec natural isPkts
  · rename_i full
    have below := value_lt_numsize natural full isPkts
    exact ⟨⟨isPkts, below⟩, (mod_eq_of_lt below).symm⟩

end

theorem cut_spec (isPkts : IsPkts config pkt) {lost : Nat} (flag : oflow ≠ 0 ↔ lost ≠ 0)
    (parts : value config.npktbit pkt + 2 ^ (config.npktbit * config.npkt) * lost = total)
    (isCut : cut =
      if config.partialTop ∧ hasUnused config pkt then
        (clearUnused config pkt, 1)
      else (pkt, oflow)) :
    IsHeld config cut.1 ∧ value config.npktbit cut.1 = total % 2 ^ config.capacity ∧
      (cut.2 ≠ 0 ↔ 2 ^ config.capacity ≤ total) := by
  have holds := capacity_le config
  have power := Nat.pow_le_pow_right Nat.two_pos holds
  have residue : value config.npktbit pkt % 2 ^ config.capacity = total % 2 ^ config.capacity := by
    obtain ⟨times, eq⟩ := Nat.pow_dvd_pow 2 holds
    rw [← parts, eq, Nat.mul_assoc, add_mul_mod_self_left]
  rw [isCut]
  by_cases unused : config.partialTop ∧ hasUnused config pkt
  · have natural := unused.1.1
    rw [if_pos unused]
    obtain ⟨isNum, cleared⟩ := clearUnused_spec natural isPkts
    have big := (hasUnused_iff natural isPkts).1 unused.2
    rw [← capacity_natural natural] at big cleared
    refine ⟨isNum.isHeld, cleared.trans residue, ?_⟩
    omega
  · rw [if_neg unused]
    have below : value config.npktbit pkt < 2 ^ config.capacity := by
      rcases lt_or_ge config.ntopbit 0 with negative | natural
      · unfold Config.capacity
        rw [if_pos negative, ← isPkts.length]
        exact value_lt isPkts.fits
      · rw [capacity_natural natural]
        by_cases part : config.partialTop
        · have notUnused : ¬hasUnused config pkt := fun set => unused ⟨part, set⟩
          rw [hasUnused_iff natural isPkts] at notUnused
          omega
        · exact value_lt_numsize natural part isPkts
    refine ⟨⟨isPkts, below⟩, ?_, flag.trans ?_⟩
    · rw [← residue, mod_eq_of_lt below]
    · constructor
      · intro some'
        have once := Nat.mul_le_mul_left (2 ^ (config.npktbit * config.npkt))
            (Nat.pos_of_ne_zero some')
        omega
      · rintro big rfl
        omega

theorem numsize_of_held (natural : 0 ≤ config.ntopbit) (held :
    IsHeld config cut.1 ∧ value config.npktbit cut.1 = total % 2 ^ config.capacity ∧
      (cut.2 ≠ 0 ↔ 2 ^ config.capacity ≤ total)) :
    IsNum config cut.1 ∧ value config.npktbit cut.1 = total % 2 ^ config.numsize ∧
      (cut.2 ≠ 0 ↔ 2 ^ config.numsize ≤ total) := by
  rw [capacity_natural natural] at held
  exact ⟨held.1.isNum natural, held.2⟩

theorem cut_exact (isPkts : IsPkts config pkt)
    (below : value config.npktbit pkt < 2 ^ config.numsize) (isCut : cut =
      if config.partialTop ∧ hasUnused config pkt then
        (clearUnused config pkt, 1)
      else (pkt, oflow)) :
    cut = (pkt, oflow) := by
  rw [isCut, if_neg]
  rintro ⟨⟨natural, _⟩, unused⟩
  obtain ⟨split, length, fits, _⟩ := pkts_snoc isPkts
  have size : config.numsize = config.npktbit * (config.npkt - 1) + config.ntopbit.toNat := by
    have isTop := ntopbit_eq config
    omega
  have top := top_eq_div fits (topPkt config pkt)
  rw [← split, length] at top
  refine unused ?_
  rw [← top, Nat.div_div_eq_div_mul, ← Nat.pow_add, ← size]
  exact div_eq_of_lt below

theorem sign_spec (whole : config.Whole) (isNum : IsNum config pkt) :
    sign config pkt = some (if 2 ^ (config.numsize - 1) ≤ value config.npktbit pkt then
      2 ^ (config.ntopbit.toNat - 1)
      else 0) := by
  obtain ⟨split, length, fits, _⟩ := pkts_snoc isNum.toIsPkts
  obtain ⟨positive, _, size⟩ := topbit_spec whole
  have top := top_eq_div fits (topPkt config pkt)
  rw [← split, length] at top
  have bits : config.numsize - 1 = config.npktbit * (config.npkt - 1) +
      (config.ntopbit.toNat - 1) := by
    omega
  have topBelow : topPkt config pkt < 2 ^ (config.ntopbit.toNat - 1 + 1) := by
    rw [Nat.sub_add_cancel positive, ← top]
    refine Nat.div_lt_of_lt_mul ?_
    rw [← Nat.pow_add, ← size]
    exact isNum.unused
  have same : 2 ^ (config.ntopbit.toNat - 1) ≤ topPkt config pkt ↔
      2 ^ (config.numsize - 1) ≤ value config.npktbit pkt := by
    rw [← top, Nat.le_div_iff_mul_le (Nat.two_pow_pos _), bits, Nat.pow_add, Nat.mul_comm]
  unfold sign
  rw [if_pos (show 0 < config.ntopbit from whole), and_two_pow_top topBelow]
  simp only [same]

theorem split_carry (width carry : Nat) (rest : Nat) :
    carry % 2 ^ width + 2 ^ width * (carry >>> width + rest) = carry + 2 ^ width * rest := by
  have parts := mod_add_div carry (2 ^ width)
  rw [shiftRight_eq_div_pow, Nat.mul_add, ← Nat.add_assoc, parts]

/-- **Adding packets** low to high. -/
theorem addLoop_spec {dst src : List Nat} (length : dst.length = src.length)
    (dstFits : Fits config.npktbit dst) (srcFits : Fits config.npktbit src) {carry : Nat}
    (small : carry ≤ 1) : (addLoop config carry dst src).1.length = dst.length ∧
      Fits config.npktbit (addLoop config carry dst src).1 ∧ (addLoop config carry dst src).2 ≤ 1 ∧
      value config.npktbit (addLoop config carry dst src).1 + 2 ^ (config.npktbit * dst.length) *
        (addLoop config carry dst src).2 =
        value config.npktbit dst + value config.npktbit src + carry := by
  induction dst generalizing src carry with
  | nil =>
    obtain rfl := length_eq_zero_iff.1 length.symm
    simp [addLoop, small]
  | cons d dst ih =>
    cases src with
    | nil => cases length
    | cons s src =>
      obtain ⟨dFits, dstFits⟩ := fits_cons.1 dstFits
      obtain ⟨sFits, srcFits⟩ := fits_cons.1 srcFits
      have power := Nat.two_pow_pos config.npktbit
      have twice : 2 ≤ 2 ^ config.npktbit := Nat.le_self_pow config.npktbit_pos.ne' 2
      have double := npktbit_double config
      have room : 2 * 2 ^ config.npktbit ≤ 2 ^ config.npktbit * 2 ^ config.npktbit :=
        Nat.mul_le_mul_right _ twice
      have same : ulong config (carry + (s + d)) = carry + (s + d) := mod_eq_of_lt (by omega)
      have carried : (carry + (s + d)) >>> config.npktbit ≤ 1 := by
        rw [shiftRight_eq_div_pow]
        refine le_of_lt_succ ((Nat.div_lt_iff_lt_mul power).2 ?_)
        omega
      obtain ⟨restLength, restFits, restCarry, restValue⟩ :=
        ih (Nat.succ.inj length) dstFits srcFits carried
      simp only [addLoop, same, length_cons, value_cons, fits_cons]
      refine ⟨by rw [restLength], ⟨mod_lt _ power, restFits⟩, restCarry, ?_⟩
      have weight : 2 ^ (config.npktbit * (dst.length + 1)) =
          2 ^ config.npktbit * 2 ^ (config.npktbit * dst.length) := by
        rw [mul_succ, Nat.pow_add, Nat.mul_comm]
      have parts := split_carry config.npktbit (carry + (s + d))
          (value config.npktbit dst + value config.npktbit src)
      have total : (carry + (s + d)) >>> config.npktbit +
          (value config.npktbit dst + value config.npktbit src) =
          value config.npktbit (addLoop config ((carry + (s + d)) >>> config.npktbit) dst src).1 +
            2 ^ (config.npktbit * dst.length) * (addLoop config
              ((carry + (s + d)) >>> config.npktbit) dst src).2 := by
        omega
      rw [total, Nat.mul_add, ← Nat.mul_assoc, ← weight,
        Nat.mul_add _ (value config.npktbit dst)] at parts
      omega

theorem numComplement_spec (whole : config.Whole) {np : List Nat} (isNum : IsNum config np) :
    IsNum config (numComplement config np) ∧ value config.npktbit (numComplement config np) +
      value config.npktbit np + 1 = 2 ^ config.numsize := by
  obtain ⟨split, length, fits, _⟩ := pkts_snoc isNum.toIsPkts
  obtain ⟨_, topWithin, size⟩ := topbit_spec whole
  have packets := npkt_pos config
  have top := top_eq_div fits (topPkt config np)
  rw [← split, length] at top
  have topBelow : topPkt config np < 2 ^ config.ntopbit.toNat := by
    rw [← top]
    refine Nat.div_lt_of_lt_mul ?_
    rw [← Nat.pow_add, ← size]
    exact isNum.unused
  have low := value_complement fits
  have flip := xor_low topBelow
  have whole' : value config.npktbit np = value config.npktbit (np.take (config.npkt - 1)) +
      2 ^ (config.npktbit * (config.npkt - 1)) * topPkt config np := by
    conv_lhs => rw [split]
    rw [value_snoc, length]
  have complementLength : (complement config.npktbit (np.take (config.npkt - 1))).length =
      config.npkt - 1 := by
    rw [complement, length_map, length]
  have value' : value config.npktbit (numComplement config np) +
      value config.npktbit np + 1 = 2 ^ config.numsize := by
    unfold numComplement
    rw [value_snoc, complementLength, whole', flip, size, Nat.pow_add]
    rw [length] at low
    have topSum : 2 ^ (config.npktbit * (config.npkt - 1)) *
        (2 ^ config.ntopbit.toNat - 1 - topPkt config np) +
        2 ^ (config.npktbit * (config.npkt - 1)) * topPkt config np +
        2 ^ (config.npktbit * (config.npkt - 1)) =
        2 ^ (config.npktbit * (config.npkt - 1)) * 2 ^ config.ntopbit.toNat := by
      rw [← Nat.mul_add, ← mul_succ]
      congr 1
      omega
    omega
  refine ⟨⟨⟨?_, ?_⟩, by omega⟩, value'⟩
  · rw [numComplement, length_append, complementLength]
    exact Nat.sub_add_cancel packets
  · rw [numComplement, fits_append, fits_cons]
    refine ⟨fits_complement fits, ?_, fits_nil⟩
    have wide := Nat.pow_le_pow_right Nat.two_pos topWithin
    omega

theorem setnum_spec (count val : Nat) : (setnum config count val).length = count ∧
    Fits config.npktbit (setnum config count val) ∧
    value config.npktbit (setnum config count val) = val % 2 ^ (config.npktbit * count) := by
  induction count generalizing val with
  | zero => simp [setnum, mod_one]
  | succ count ih =>
    obtain ⟨length, fits, value'⟩ := ih (val >>> config.npktbit)
    simp only [setnum, length_cons, fits_cons, value_cons, length]
    refine ⟨trivial, ⟨mod_lt _ (Nat.two_pow_pos _), fits⟩, ?_⟩
    have weight : 2 ^ (config.npktbit * (count + 1)) =
        2 ^ config.npktbit * 2 ^ (config.npktbit * count) := by
      rw [mul_succ, Nat.pow_add, Nat.mul_comm]
    rw [value', shiftRight_eq_div_pow, weight, mod_mul]

theorem prenum_one : IsNum config (prenum config 1) ∧
    value config.npktbit (prenum config 1) = 1 := by
  obtain ⟨length, fits, value'⟩ := @setnum_spec config config.npkt 1
  have size := numsize_pos config
  have holds := numsize_le config
  have big : 1 < 2 ^ config.numsize := Nat.one_lt_two_pow size.ne'
  have bigger := Nat.pow_le_pow_right Nat.two_pos holds
  have one : value config.npktbit (prenum config 1) = 1 := by
    unfold prenum
    rw [value']
    exact mod_eq_of_lt (by omega)
  exact ⟨⟨⟨length, fits⟩, by rw [one]; exact big⟩, one⟩

theorem comparePkts_spec {n1 n2 : List Nat} (length : n1.length = n2.length)
    (fits1 : Fits config.npktbit n1) (fits2 : Fits config.npktbit n2) :
    comparePkts n1.reverse n2.reverse < 0 ↔ value config.npktbit n1 < value config.npktbit n2 := by
  induction n1 using reverseRecOn generalizing n2 with
  | nil =>
    obtain rfl := length_eq_zero_iff.1 length.symm
    simp [comparePkts]
  | append_singleton n1 s1 ih =>
    obtain rfl | ⟨n2, s2, rfl⟩ := eq_nil_or_concat n2
    · simp at length
    · rw [concat_eq_append] at length fits2 ⊢
      have length' : n1.length = n2.length := by simpa using length
      rw [fits_append] at fits1 fits2
      have low1 := value_lt fits1.1
      have low2 := value_lt fits2.1
      rw [← length'] at low2
      have rest := ih length' fits1.1 fits2.1
      rw [value_snoc, value_snoc, ← length']
      simp only [reverse_append, reverse_cons, reverse_nil, nil_append, singleton_append,
        comparePkts]
      generalize 2 ^ (config.npktbit * n1.length) = weight at low1 low2 ⊢
      rcases Nat.lt_trichotomy s1 s2 with less | rfl | more
      · have step := Nat.mul_le_mul_left weight less
        rw [mul_succ] at step
        rw [if_pos less]
        constructor
        · intro _
          omega
        · intro _
          decide
      · omega
      · have step := Nat.mul_le_mul_left weight more
        rw [mul_succ] at step
        rw [if_neg (by omega), if_pos more]
        constructor
        · intro impossible
          exact absurd impossible (by decide)
        · intro below
          omega

end Uw7.Intemu
