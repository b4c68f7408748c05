import Uw7.Intemu.FromStr

namespace Uw7.Intemu

/-!
# Collecting digits

What the loops over digits have collected is the value of the digits, as long as
no group of them is too long for the counter.  A loop ends at the first character
that is not a digit of the base.
-/

open Lib Lib.Limbs List Nat Option

variable {config : Config}

/-- What a character is worth as a digit, 36 if it is none. -/
def charValue (s : Char) : Nat :=
  if '0' ≤ s ∧ s ≤ '9' then s.toNat - '0'.toNat
  else if 'a' ≤ s ∧ s ≤ 'z' then s.toNat - 'a'.toNat + 10
  else if 'A' ≤ s ∧ s ≤ 'Z' then s.toNat - 'A'.toNat + 10
  else 36

def digitValue (base : Nat) (s : Char) : Option Nat :=
  if charValue s < base then some (charValue s) else none

/-- The digits that a string begins with. -/
def digitsOf (base : Nat) : List Char → List Nat
  | [] => []
  | s :: rest =>
    match digitValue base s with
    | some dig => dig :: digitsOf base rest
    | none => []

def digitsValue (base before : Nat) (digits : List Nat) : Nat :=
  digits.foldl (fun number dig => number * base + dig) before

variable {base number : Nat} {s t : Char} {radix : Radix} {collected : Collected}

theorem digitValue_lt {dig : Nat} (eq : digitValue base s = some dig) : dig < base := by
  unfold digitValue at eq
  split at eq
  · rename_i below
    cases eq
    exact below
  · cases eq

theorem digitsOf_lt (s : List Char) : ∀ dig ∈ digitsOf base s, dig < base := by
  induction s with
  | nil =>
    intro dig member
    cases member
  | cons first rest ih =>
    intro dig member
    unfold digitsOf at member
    split at member
    · rename_i isDigit
      rcases mem_cons.1 member with rfl | member
      · exact digitValue_lt isDigit
      · exact ih dig member
    · cases member

theorem char_le_iff : s ≤ t ↔ s.toNat ≤ t.toNat := Iff.rfl

theorem char_lt_iff : s < t ↔ s.toNat < t.toNat := Iff.rfl

theorem char_eq_iff : s = t ↔ s.toNat = t.toNat := Char.toNat_inj.symm

theorem charCodes : '0'.toNat = 48 ∧ '1'.toNat = 49 ∧ '7'.toNat = 55 ∧ '9'.toNat = 57 ∧
    'a'.toNat = 97 ∧ 'f'.toNat = 102 ∧ 'z'.toNat = 122 ∧
    'A'.toNat = 65 ∧ 'F'.toNat = 70 ∧ 'Z'.toNat = 90 := by
  decide

/-- **The four ways to read a digit** are that of the base. -/
theorem digit_eq (s : Char) : digit2 s = digitValue 2 s ∧ digit8 s = digitValue 8 s ∧
    digit10 s = digitValue 10 s ∧ digit16 s = digitValue 16 s := by
  obtain ⟨c0, c1, c7, c9, ca, cf, cz, cA, cF, cZ⟩ := charCodes
  unfold digit2 digit8 digit10 digit16 digitValue charValue isdigit
  simp only [char_le_iff, char_lt_iff, char_eq_iff, c0, c1, c7, c9, ca, cf, cz, cA, cF, cZ]
  refine ⟨?_, ?_, ?_, ?_⟩
  all_goals
    split_ifs
    all_goals first | rfl | omega | (congr 1; omega)

/-- What a base owes the loop. -/
structure RadixRight (config : Config) (radix : Radix) : Prop where
  base_small : radix.base ≤ 2 ^ config.ulongBit
  digit : ∀ s, radix.digit s = digitValue radix.base s
  add : ∀ val dig, val < 2 ^ config.ulongBit → dig < radix.base → radix.full val dig = false →
      radix.add val dig = val * radix.base + dig ∧ val * radix.base + dig < 2 ^ config.ulongBit
  full : ∀ val dig, val < 2 ^ config.ulongBit → dig < radix.base → radix.full val dig = true →
      2 ^ config.ulongBit < (val + 1) * radix.base
  spill : ∀ np val digits, IsHeld config np → val < 2 ^ config.ulongBit →
      val < radix.base ^ digits → ∃ np' oflow,
          radix.spill np val (radix.unit * digits) = some (np', oflow) ∧ IsHeld config np' ∧
            (2 ^ config.ulongBit < (unsignedValue config np + 1) * radix.base →
              Tracks config np' oflow (unsignedValue config np * radix.base ^ digits + val))

theorem bitRadix_right (byte : 8 ≤ config.charBit) {bits : Nat} (few : bits ≤ 4)
    {digit : Char → Option Nat} (isDigit : ∀ s, digit s = digitValue (2 ^ bits) s) :
    RadixRight config (bitRadix config bits digit) := by
  have positive := config.npktbit_pos
  have charLong := le_of_dvd positive config.charBit_dvd_npktbit
  have packet := npktbit_lt_ulongBit config
  have fewer : bits ≤ config.ulongBit := by omega
  have split : 2 ^ config.ulongBit = 2 ^ (config.ulongBit - bits) * 2 ^ bits := by
    rw [← Nat.pow_add, Nat.sub_add_cancel fewer]
  have isFull : ∀ {val dig : Nat}, val < 2 ^ config.ulongBit →
      ((bitRadix config bits digit).full val dig = true ↔ 2 ^ (config.ulongBit - bits) ≤ val) := by
    intro val dig below
    change decide _ = true ↔ _
    rw [decide_eq_true_iff, and_high fewer below, Ne, Nat.mul_eq_zero,
      not_or, div_eq_zero_iff_lt (Nat.two_pow_pos _), Nat.not_lt]
    exact and_iff_left (Nat.two_pow_pos _).ne'
  constructor
  · exact Nat.pow_le_pow_right Nat.two_pos fewer
  · exact isDigit
  · intro val dig below isDig notFull
    have low : val < 2 ^ (config.ulongBit - bits) := by
      rw [← Bool.not_eq_true, isFull below] at notFull
      omega
    change dig < 2 ^ bits at isDig
    have shifted : val * 2 ^ bits + dig < 2 ^ config.ulongBit := by
      have next := Nat.mul_le_mul_right (2 ^ bits) (succ_le_of_lt low)
      rw [succ_mul] at next
      omega
    refine ⟨?_, shifted⟩
    change ulong config (val <<< bits) ||| dig = val * 2 ^ bits + dig
    rw [ulong, mod_eq_of_lt, ← shiftLeft_add_eq_or_of_lt isDig, shiftLeft_eq]
    omega
  · intro val dig below isDig full
    have high := (isFull below).1 full
    rw [split]
    exact Nat.mul_lt_mul_of_pos_right (lt_succ_of_le high) (Nat.two_pow_pos _)
  · intro np val digits held small behind
    obtain ⟨orHeld, right⟩ := spillBits_spec byte few held small behind
    refine ⟨_, _, rfl, orHeld, fun spilled => ?_⟩
    exact ⟨orHeld, (right spilled).1, (right spilled).2⟩

theorem decimalRadix_right (byte : 8 ≤ config.charBit) {pow10 : List (List Nat)}
    (powers : PowersOfTen config pow10) : RadixRight config (decimalRadix config pow10) := by
  obtain ⟨few, long⟩ := byte_small byte
  constructor
  · change 10 ≤ 2 ^ config.ulongBit
    omega
  · exact fun s => (digit_eq s).2.2.1
  · intro val dig below isDig notFull
    change dig < 10 at isDig
    change (decide _) = false at notFull
    rw [decide_eq_false_iff_not, not_not] at notFull
    change ulong config (ulong config (val * 10) + dig) = val * 10 + dig ∧
      val * 10 + dig < 2 ^ config.ulongBit
    unfold ulongMax at notFull
    unfold ulong
    have fits : val * 10 + dig < 2 ^ config.ulongBit := by omega
    rw [mod_eq_of_lt (show val * 10 < 2 ^ config.ulongBit by omega), mod_eq_of_lt fits]
    exact ⟨rfl, fits⟩
  · intro val dig below isDig full
    change dig < 10 at isDig
    change (decide _) = true at full
    rw [decide_eq_true_iff] at full
    change 2 ^ config.ulongBit < (val + 1) * 10
    unfold ulongMax at full
    omega
  · intro np val digits held small behind
    obtain ⟨np', oflow, eq, tracks⟩ := @spill10_spec config pow10 powers np held val digits small
    refine ⟨np', oflow, ?_, tracks.held, fun _ => tracks⟩
    change spill10 config pow10 np val (1 * digits) = _
    rw [Nat.one_mul]
    exact eq

/-- No group of digits is too long for the counter. -/
def CountsFit (radix : Radix) (limit : Nat) : Nat → Nat → List Nat → Prop
  | val, number, dig :: digits =>
    if radix.full val dig then CountsFit radix limit dig radix.unit digits
    else
      number + radix.unit ≤ limit ∧ CountsFit radix limit (val * radix.base + dig)
          (number + radix.unit) digits
  | _, _, [] => True

/-- The variables of a loop stand for the digits so far: those spilled, and a
group behind them. -/
structure CollectedRight (config : Config) (radix : Radix) (collected : Collected)
    (number : Nat) : Prop where
  small : collected.val < 2 ^ config.ulongBit
  unspilled : collected.np = none → collected.oflow = 0 ∧ number = collected.val
  spilled : ∀ np, collected.np = some np → ∃ before digits,
      Tracks config np collected.oflow before ∧ 2 ^ config.ulongBit < (before + 1) * radix.base ∧
        collected.count = radix.unit * digits ∧ collected.val < radix.base ^ digits ∧
        number = before * radix.base ^ digits + collected.val

theorem CollectedRight.spill (radixRight : RadixRight config radix)
    (right : CollectedRight config radix collected number) {np : List Nat}
    (isNp : collected.np = some np) :
    ∃ np' oflow, radix.spill np collected.val collected.count = some (np', oflow) ∧
      Tracks config np' (collected.oflow ||| oflow) number ∧
      2 ^ config.ulongBit < (number + 1) * radix.base := by
  obtain ⟨before, digits, tracks, high, isCount, behind, isNumber⟩ := right.spilled np isNp
  obtain ⟨np', oflow, eq, held, spilled⟩ :=
    radixRight.spill np collected.val digits tracks.held right.small behind
  have positive : 0 < radix.base ^ digits := (Nat.zero_le _).trans_lt behind
  have grows : before ≤ number := by
    rw [isNumber]
    exact (Nat.le_mul_of_pos_right _ positive).trans (Nat.le_add_right _ _)
  have trackOf : collected.oflow = 0 → Tracks config np' oflow number := by
    intro quiet
    have isBefore := tracks.exact quiet
    rw [isBefore, ← isNumber] at spilled
    exact spilled high
  refine ⟨np', oflow, by rw [isCount]; exact eq, ⟨held, ?_, ?_⟩, ?_⟩
  · intro zero
    obtain ⟨quiet, none'⟩ := or_eq_zero_iff.1 zero
    exact (trackOf quiet).exact none'
  · intro loud
    by_cases quiet : collected.oflow = 0
    · rw [quiet, zero_or] at loud
      exact (trackOf quiet).large loud
    · exact (tracks.large quiet).trans grows
  · exact high.trans_le (Nat.mul_le_mul_right _ (succ_le_succ grows))

variable {machine : Machine config} {radix : Radix}

/-- **One digit**: it is behind the digits so far, if the counter holds it. -/
theorem collectDigit_spec
    (radixRight : RadixRight config radix) {collected : Collected} {number : Nat}
    (right : CollectedRight config radix collected number) {dig : Nat} (isDig : dig < radix.base) :
    (radix.full collected.val dig = true → ∃ next,
      collectDigit config machine radix collected dig = some next ∧
        next.val = dig ∧ next.count = radix.unit ∧
        CollectedRight config radix next (number * radix.base + dig)) ∧
    (radix.full collected.val dig = false → collected.count + radix.unit ≤ machine.intMax → ∃ next,
      collectDigit config machine radix collected dig = some next ∧
        next.val = collected.val * radix.base + dig ∧
        next.count = collected.count + radix.unit ∧
        CollectedRight config radix next (number * radix.base + dig)) ∧
    (radix.full collected.val dig = false → ¬collected.count + radix.unit ≤ machine.intMax →
      collectDigit config machine radix collected dig = none) := by
  have digSmall := isDig.trans_le radixRight.base_small
  have group : dig < radix.base ^ 1 := by rwa [Nat.pow_one]
  refine ⟨fun full => ?_, fun notFull within => ?_, fun notFull beyond => ?_⟩
  · have high := radixRight.full _ _ right.small isDig full
    unfold collectDigit
    rw [if_pos full]
    cases isNp : collected.np with
    | none =>
      obtain ⟨quiet, isNumber⟩ := right.unspilled isNp
      obtain ⟨held, isVal⟩ := setnum_held right.small
      refine ⟨_, rfl, rfl, rfl, digSmall, ?_, ?_⟩
      · intro impossible
        cases impossible
      · intro np eq
        cases eq
        refine ⟨collected.val, 1, ⟨held, fun _ => isVal, fun loud => absurd quiet loud⟩, high,
          (Nat.mul_one _).symm, group, ?_⟩
        rw [isNumber, Nat.pow_one]
    | some np =>
      obtain ⟨np', oflow, eq, tracks, higher⟩ := right.spill radixRight isNp
      dsimp only
      rw [eq]
      refine ⟨_, rfl, rfl, rfl, digSmall, ?_, ?_⟩
      · intro impossible
        cases impossible
      · intro np eq
        cases eq
        refine ⟨number, 1, tracks, higher, (Nat.mul_one _).symm, group, ?_⟩
        rw [Nat.pow_one]
  · obtain ⟨isAdd, small⟩ := radixRight.add _ _ right.small isDig notFull
    unfold collectDigit
    rw [if_neg (by rw [notFull]; exact Bool.false_ne_true), if_pos within]
    refine ⟨_, rfl, isAdd, rfl, ?_, ?_, ?_⟩
    · rw [isAdd]
      exact small
    · intro isNone
      obtain ⟨quiet, isNumber⟩ := right.unspilled isNone
      refine ⟨quiet, ?_⟩
      rw [isAdd, isNumber]
    · intro np isNp
      obtain ⟨before, digits, tracks, high, isCount, behind, isNumber⟩ := right.spilled np isNp
      refine ⟨before, digits + 1, tracks, high, ?_, ?_, ?_⟩
      · rw [mul_succ, ← isCount]
      · rw [isAdd, Nat.pow_succ]
        have next := Nat.mul_le_mul_right radix.base (succ_le_of_lt behind)
        rw [succ_mul] at next
        change collected.val * radix.base + dig < _
        omega
      · rw [isAdd, isNumber, Nat.pow_succ, Nat.add_mul, Nat.mul_assoc, Nat.add_assoc]
  · unfold collectDigit
    rw [if_neg (by rw [notFull]; exact Bool.false_ne_true), if_neg beyond]

/-- **All digits**: they are collected exactly when no group is too long. -/
theorem collectDigits_spec (radixRight : RadixRight config radix) {digits : List Nat}
    (areDigits : ∀ dig ∈ digits, dig < radix.base) {collected : Collected} {number : Nat}
    (right : CollectedRight config radix collected number) :
    (CountsFit radix machine.intMax collected.val collected.count digits → ∃ last,
      digits.foldlM (collectDigit config machine radix) collected = some last ∧
        CollectedRight config radix last (digitsValue radix.base number digits)) ∧
    (¬CountsFit radix machine.intMax collected.val collected.count digits →
      digits.foldlM (collectDigit config machine radix) collected = none) := by
  induction digits generalizing collected number with
  | nil => exact ⟨fun _ => ⟨collected, rfl, right⟩, fun unfit => absurd trivial unfit⟩
  | cons dig digits ih =>
    obtain ⟨isDig, areDigits'⟩ := forall_mem_cons.1 areDigits
    obtain ⟨full, added, beyond⟩ :=
      @collectDigit_spec config machine radix radixRight collected number right dig isDig
    simp only [CountsFit, foldlM_cons, digitsValue, foldl_cons, bind_eq_bind]
    by_cases isFull : radix.full collected.val dig = true
    · obtain ⟨next, eq, isVal, isCount, nextRight⟩ := full isFull
      have rest := ih areDigits' nextRight
      rw [isVal, isCount] at rest
      rw [if_pos isFull, eq]
      exact rest
    · rw [Bool.not_eq_true] at isFull
      rw [if_neg (by rw [isFull]; exact Bool.false_ne_true)]
      by_cases within : collected.count + radix.unit ≤ machine.intMax
      · obtain ⟨next, eq, isVal, isCount, nextRight⟩ := added isFull within
        have rest := ih areDigits' nextRight
        rw [isVal, isCount] at rest
        rw [and_iff_right within, eq]
        exact rest
      · rw [beyond isFull within]
        exact ⟨fun both => absurd both.1 within, fun _ => rfl⟩

/-- What a loop leaves of an error record. -/
structure LoopErr (position : Nat) (s : List Char) (digits : List Nat)
    (before after : NumStrErr) : Prop where
  whole : digits.length = s.length → after = before
  next : digits.length ≠ s.length → after.next = position + digits.length
  code : digits.length ≠ s.length → after.code = .strerrInvalid

/-- **The loop** collects the digits that the string begins with, and records
where it stops. -/
theorem collectLoop_eq
    (isDigit : ∀ s, radix.digit s = digitValue radix.base s) (s : List Char) (position : Nat)
    (collected : Collected) (err : NumStrErr) :
    ∃ after, LoopErr position s (digitsOf radix.base s) err after ∧
      collectLoop config machine radix position s collected (some err) =
        ((digitsOf radix.base s).foldlM (collectDigit config machine radix) collected).map
          fun last => (last, some after) := by
  induction s generalizing position collected with
  | nil =>
    exact ⟨err, ⟨fun _ => rfl, fun some' => absurd rfl some', fun some' => absurd rfl some'⟩, rfl⟩
  | cons first rest ih =>
    unfold collectLoop digitsOf
    rw [isDigit]
    cases isFirst : digitValue radix.base first with
    | none =>
      refine ⟨baddig position first radix.base, ⟨?_, fun _ => rfl, fun _ => rfl⟩, rfl⟩
      intro same
      cases same
    | some dig =>
      dsimp only
      cases isNext : collectDigit config machine radix collected dig with
      | none =>
        obtain ⟨after, ⟨whole, next, code⟩, _⟩ := ih (position + 1) collected
        refine ⟨after, ⟨fun same => whole (succ.inj same), ?_, fun other => code fun same =>
          other (congrArg succ same)⟩, ?_⟩
        · intro other
          rw [next fun same => other (congrArg succ same), length_cons]
          omega
        · rw [foldlM_cons, isNext]
          rfl
      | some collected' =>
        obtain ⟨after, ⟨whole, next, code⟩, eq⟩ := ih (position + 1) collected'
        refine ⟨after, ⟨fun same => whole (succ.inj same), ?_, fun other => code fun same =>
          other (congrArg succ same)⟩, ?_⟩
        · intro other
          rw [next fun same => other (congrArg succ same), length_cons]
          omega
        · rw [foldlM_cons, isNext, bind_some]
          exact eq

/-- What is returned for the value of some digits. -/
structure FromRight (config : Config) (number : Nat) (result : FromResult) : Prop where
  answer : ∀ np, result.answer = some np →
      number < 2 ^ config.capacity ∧ unsignedValue config np.pkt = number
  overflow : result.answer = none → 2 ^ config.capacity ≤ number

theorem ulong_lt_capacity {val : Nat} (small : val < 2 ^ config.ulongBit) :
    val < 2 ^ config.capacity :=
  small.trans_le (Nat.pow_le_pow_right Nat.two_pos
    (config.numsize_long.trans (numsize_le_capacity config)))

/-- **The end of the digits.** -/
theorem fromCollected_spec (radixRight : RadixRight config radix)
    (right : CollectedRight config radix collected number) (err : Option NumStrErr) :
    ∃ result, fromCollected config radix collected err = some result ∧
      result.err = err ∧ FromRight config number result := by
  unfold fromCollected
  cases isNp : collected.np with
  | none =>
    obtain ⟨_, rfl⟩ := right.unspilled isNp
    obtain ⟨_, isVal⟩ := setnum_held right.small
    refine ⟨_, rfl, rfl, ?_, ?_⟩
    · intro np eq
      cases eq
      refine ⟨ulong_lt_capacity right.small, ?_⟩
      unfold fromVal
      split <;> exact isVal
    · intro impossible
      cases impossible
  | some np =>
    obtain ⟨np', oflow, eq, tracks, _⟩ := right.spill radixRight isNp
    dsimp only
    rw [eq, map_some]
    refine ⟨_, rfl, ?_⟩
    by_cases quiet : collected.oflow ||| oflow = 0
    · rw [if_neg (not_not.2 quiet)]
      refine ⟨rfl, ?_, ?_⟩
      · intro np eq
        cases eq
        have isNumber := tracks.exact quiet
        exact ⟨isNumber ▸ tracks.held.within, isNumber⟩
      · intro impossible
        cases impossible
    · rw [if_pos quiet]
      refine ⟨rfl, ?_, fun _ => tracks.large quiet⟩
      intro np impossible
      cases impossible

/-- **`from2` and the others**: the value of the digits, unless a group of them
is too long. -/
theorem fromDigits_spec
    (radixRight : RadixRight config radix) {val : Nat} (small : val < 2 ^ config.ulongBit)
    (count position : Nat) (s : List Char) (err : NumStrErr) :
    (CountsFit radix machine.intMax val count (digitsOf radix.base s) → ∃ result after,
      fromDigits config machine radix position s (some err) val count = some result ∧
        result.err = some after ∧ LoopErr position s (digitsOf radix.base s) err after ∧
        FromRight config (digitsValue radix.base val (digitsOf radix.base s)) result) ∧
    (¬CountsFit radix machine.intMax val count (digitsOf radix.base s) →
      fromDigits config machine radix position s (some err) val count = none) := by
  have start : CollectedRight config radix ⟨none, 0, val, count⟩ val := by
    refine ⟨small, fun _ => ⟨rfl, rfl⟩, fun np impossible => ?_⟩
    cases impossible
  obtain ⟨fit, unfit⟩ := @collectDigits_spec config machine radix radixRight _
    (digitsOf_lt s) _ _ start
  obtain ⟨after, loopErr, eq⟩ := @collectLoop_eq config machine radix radixRight.digit s position
    ⟨none, 0, val, count⟩ err
  unfold fromDigits
  rw [eq]
  constructor
  · intro counts
    obtain ⟨last, isLast, right⟩ := fit counts
    obtain ⟨result, isResult, isErr, fromRight⟩ := fromCollected_spec radixRight right (some after)
    rw [isLast]
    exact ⟨result, after, isResult, isErr, loopErr, fromRight⟩
  · intro counts
    rw [unfit counts]
    rfl

end Uw7.Intemu
