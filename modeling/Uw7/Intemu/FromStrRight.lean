import Uw7.Intemu.FromStrDigits

namespace Uw7.Intemu

/-!
# `num_fromstr` is right

A literal begins with a base designator, if something follows it, and goes on as
far as there are digits of its base.  The number is that of the literal and the
error record tells where and why it ends, exactly when no group of digits is too
long for its counter and the value is not among those that do not fit a number
but do fit what the package computes with.
-/

open Lib Lib.Limbs List Option

variable {config : Config}

inductive LiteralBase where
  | binary
  | octal
  | decimal
  | hexadecimal
  deriving DecidableEq

def LiteralBase.number : LiteralBase → Nat
  | .binary => 2
  | .octal => 8
  | .decimal => 10
  | .hexadecimal => 16

/-- A base designator for binary numbers. -/
def isBinary (second : Char) : Prop := second = 'b' ∨ second = 'B'

/-- A base designator for hexadecimal numbers. -/
def isHexadecimal (second : Char) : Prop := second = 'x' ∨ second = 'X'

instance (second : Char) : Decidable (isBinary second) := inferInstanceAs (Decidable (_ ∨ _))

instance (second : Char) : Decidable (isHexadecimal second) := inferInstanceAs (Decidable (_ ∨ _))

def literalBase (str : List Char) : LiteralBase :=
  if str.head? = some '0' then
    match str.tail with
    | second :: _ :: _ =>
      if isBinary second then .binary
      else if isHexadecimal second then .hexadecimal
      else .octal
    | _ => .octal
  else .decimal

/-- Where the digits of the literal begin. -/
def LiteralBase.start : LiteralBase → Nat
  | .binary => 2
  | .octal => 0
  | .decimal => 0
  | .hexadecimal => 2

def literalDigits (str : List Char) : List Nat :=
  digitsOf (literalBase str).number (str.drop (literalBase str).start)

def literalValue (str : List Char) : Nat :=
  digitsValue (literalBase str).number 0 (literalDigits str)

/-- The first character that is not a digit of the literal, or the end of the
string. -/
def literalNext (str : List Char) : Nat := (literalBase str).start + (literalDigits str).length

/-- A base designator and nothing behind it. -/
def PrefixOnly (str : List Char) : Prop := str.length = 2 ∧ str.head? = some '0' ∧
    ∀ second ∈ str.tail, isBinary second ∨ isHexadecimal second

instance (str : List Char) : Decidable (PrefixOnly str) := inferInstanceAs (Decidable (_ ∧ _ ∧ _))

/-- Why the literal ends where it does. -/
def literalCode (str : List Char) : StrErrCode :=
  if str = [] then .strerrEmpty
  else if literalNext str = str.length then .strerrNone
  else if PrefixOnly str then .strerrPrefix
  else .strerrInvalid

/-- No group of digits of the literal is too long for its counter.  The first
digit of a decimal number is counted at once, those that tell an octal number
never. -/
def LiteralCounts (config : Config) (machine : Machine config) (pow10 : List (List Nat))
    (str : List Char) : Prop :=
  match literalBase str, literalDigits str with
  | .binary, digits => CountsFit (bitRadix config 1 digit2) machine.intMax 0 0 digits
  | .octal, _ :: dig :: digits => CountsFit (bitRadix config 3 digit8) machine.intMax dig 0 digits
  | .octal, _ => True
  | .decimal, dig :: digits => CountsFit (decimalRadix config pow10) machine.intMax dig 1 digits
  | .decimal, [] => True
  | .hexadecimal, digits => CountsFit (bitRadix config 4 digit16) machine.intMax 0 0 digits

/-- **The claim**: the number is the value of the literal unless that is too
large, which is reported, and the record tells where and why the literal
ends. -/
def FromstrRight (config : Config) (machine : Machine config) (pow10 : List (List Nat))
    (record : NumStrErr)
    (str : List Char) : Prop :=
  ∃ np after, numFromstr config machine pow10 str (some record) = some (np, some after) ∧
      (after.code = .strerrRange ↔ 2 ^ config.numsize ≤ literalValue str) ∧
      (literalValue str < 2 ^ config.numsize → unsignedValue config np.pkt = literalValue str ∧
          after.next = literalNext str ∧ after.code = literalCode str)

/-- When it holds. -/
structure FromstrFits (config : Config) (machine : Machine config) (pow10 : List (List Nat))
    (str : List Char) : Prop where
  counts : LiteralCounts config machine pow10 str
  range : ¬(2 ^ config.numsize ≤ literalValue str ∧ literalValue str < 2 ^ config.capacity)

/-- The record a run over digits starts with. -/
def started (str : List Char) : NumStrErr := ⟨none, str.length, .strerrNone⟩

/-- What is returned for a literal. -/
structure LiteralRight (config : Config) (str : List Char) (result : FromResult)
    (after : NumStrErr) : Prop where
  err : result.err = some after
  number : FromRight config (literalValue str) result
  next : after.next = literalNext str
  code : after.code = literalCode str

theorem fromPrenum_right {number : Nat} (small : number < 2 ^ config.ulongBit)
    {err : Option NumStrErr} :
    FromRight config number (fromPrenum config number err) := by
  obtain ⟨_, isVal⟩ := setnum_held small
  refine ⟨fun np eq => ?_, fun impossible => ?_⟩
  · cases eq
    exact ⟨ulong_lt_capacity small, isVal⟩
  · cases impossible

theorem loopErr_literal {str s : List Char} {position : Nat} {after : NumStrErr} {digits : List Nat}
    (loopErr : LoopErr position s digits (started str) after) (some' : str ≠ [])
    (more : ¬PrefixOnly str) (isLength : str.length = position + s.length)
    (isNext : literalNext str = position + digits.length) :
    after.next = literalNext str ∧ after.code = literalCode str := by
  unfold literalCode
  rw [if_neg some', if_neg more, isNext, isLength]
  by_cases whole : digits.length = s.length
  · rw [loopErr.whole whole, if_pos (by omega)]
    exact ⟨by rw [started, isLength, whole], rfl⟩
  · rw [if_neg (by omega)]
    exact ⟨loopErr.next whole, loopErr.code whole⟩

variable {machine : Machine config}

theorem fromDigits_literal {radix : Radix}
    (radixRight : RadixRight config radix) {val count position : Nat}
    (small : val < 2 ^ config.ulongBit) {str s : List Char} (some' : str ≠ [])
    (more : ¬PrefixOnly str) (isLength : str.length = position + s.length)
    (isNext : literalNext str = position + (digitsOf radix.base s).length)
    (isValue : literalValue str = digitsValue radix.base val (digitsOf radix.base s)) :
    (CountsFit radix machine.intMax val count (digitsOf radix.base s) → ∃ result after,
      fromDigits config machine radix position s (some (started str)) val count =
        some result ∧ LiteralRight config str result after) ∧
    (¬CountsFit radix machine.intMax val count (digitsOf radix.base s) →
      fromDigits config machine radix position s (some (started str)) val count = none) := by
  obtain ⟨fit, unfit⟩ := @fromDigits_spec config machine radix radixRight val small count position
    s (started str)
  refine ⟨fun counts => ?_, unfit⟩
  obtain ⟨result, after, eq, isErr, loopErr, fromRight⟩ := fit counts
  rw [← isValue] at fromRight
  obtain ⟨next, code⟩ := loopErr_literal loopErr some' more isLength isNext
  exact ⟨result, after, eq, isErr, fromRight, next, code⟩

variable {s first second : Char} {base : Nat} {machine : Machine config} {pow10 : List (List Nat)}
  {rest : List Char}

theorem digitValue_decimal (isDigit : isdigit s) :
    digitValue 10 s = some (s.toNat - '0'.toNat) := by
  rw [← (digit_eq s).2.2.1]
  exact if_pos isDigit

theorem isdigit_small (isDigit : isdigit s) : s.toNat - '0'.toNat < 10 :=
  digitValue_lt (digitValue_decimal isDigit)

theorem digitValue_octal (isDigit : '0' ≤ s ∧ s ≤ '7') :
    digitValue 8 s = some (s.toNat - '0'.toNat) := by
  obtain ⟨c0, _, c7, _⟩ := charCodes
  rw [← (digit_eq s).2.1]
  unfold digit8
  simp only [char_le_iff, char_lt_iff, char_eq_iff, c0, c7] at isDigit ⊢
  split_ifs
  · rfl
  · congr 1
    omega
  · omega

theorem digitValue_octal_none (notDigit : ¬('0' ≤ s ∧ s ≤ '7')) : digitValue 8 s = none := by
  obtain ⟨c0, _, c7, _⟩ := charCodes
  rw [← (digit_eq s).2.1]
  unfold digit8
  simp only [char_le_iff, char_lt_iff, char_eq_iff, c0, c7] at notDigit ⊢
  rw [if_neg (by omega), if_neg (by omega)]

/-- What `fromBase` owes a string. -/
structure BaseRight (config : Config) (machine : Machine config) (pow10 : List (List Nat))
    (str : List Char) : Prop where
  fit : LiteralCounts config machine pow10 str → ∃ result after,
      fromBase config machine pow10 (some (started str)) str =
          some result ∧ LiteralRight config str result after
  unfit : ¬LiteralCounts config machine pow10 str →
      fromBase config machine pow10 (some (started str)) str = none

variable {pow10 : List (List Nat)}

theorem fromPrenum_literal {str : List Char}
    {number : Nat} {after : NumStrErr} (counts : LiteralCounts config machine pow10 str)
    (eq : fromBase config machine pow10 (some (started str)) str =
      some (fromPrenum config number (some after)))
    (small : number < 2 ^ config.ulongBit)
    (isValue : literalValue str = number)
    (next : after.next = literalNext str)
    (code : after.code = literalCode str) :
    BaseRight config machine pow10 str := by
  refine ⟨fun _ => ⟨_, after, eq, rfl, ?_, next, code⟩, fun unfit => absurd counts unfit⟩
  rw [isValue]
  exact fromPrenum_right small

theorem digitsOf_cons {dig : Nat} (isFirst : digitValue base first = some dig) (rest : List Char) :
    digitsOf base (first :: rest) = dig :: digitsOf base rest := by
  conv_lhs => unfold digitsOf
  rw [isFirst]

theorem digitsOf_none (isFirst : digitValue base first = none) (rest : List Char) :
    digitsOf base (first :: rest) = [] := by
  conv_lhs => unfold digitsOf
  rw [isFirst]

theorem digitsValue_cons (base dig : Nat) (digits : List Nat) :
    digitsValue base 0 (dig :: digits) = digitsValue base dig digits := by
  unfold digitsValue
  rw [foldl_cons, Nat.zero_mul, Nat.zero_add]

theorem single_right (byte : 8 ≤ config.charBit) (isDigit : isdigit first) :
    BaseRight config machine pow10 [first] := by
  obtain ⟨few, long⟩ := byte_small byte
  have below := isdigit_small isDigit
  by_cases zero : first = '0'
  · subst zero
    refine @fromPrenum_literal config machine pow10 ['0'] 0 (started ['0'])
      ?_ rfl (by omega) ?_ ?_ ?_
    · exact trivial
    · decide
    · decide
    · decide
  · have isBase : literalBase [first] = .decimal := by
      unfold literalBase
      rw [if_neg]
      simpa using zero
    have isDigits : literalDigits [first] = [first.toNat - '0'.toNat] := by
      unfold literalDigits
      rw [isBase]
      exact digitsOf_cons (digitValue_decimal isDigit) []
    have isNext : literalNext [first] = 1 := by
      unfold literalNext
      rw [isDigits, isBase]
      rfl
    refine @fromPrenum_literal config machine pow10 [first]
      (first.toNat - '0'.toNat) (started [first]) ?_ rfl (by omega) ?_ ?_
      ?_
    · unfold LiteralCounts
      rw [isBase, isDigits]
      exact trivial
    · unfold literalValue
      rw [isDigits, isBase, digitsValue_cons]
      rfl
    · rw [isNext]
      rfl
    · unfold literalCode
      rw [if_neg (cons_ne_nil _ _), isNext]
      exact (if_pos rfl).symm

/-- A decimal number. -/
theorem decimal_right (powers : PowersOfTen config pow10) (isDigit : isdigit first)
    (decimal : first ≠ '0') :
    BaseRight config machine pow10 (first :: second :: rest) := by
  have byte := machine.charBit_byte
  obtain ⟨few, long⟩ := byte_small byte
  have below := isdigit_small isDigit
  have radixRight := decimalRadix_right byte powers
  have isBase : literalBase (first :: second :: rest) = .decimal := by
    unfold literalBase
    rw [if_neg]
    simpa using decimal
  have isDigits : literalDigits (first :: second :: rest) =
      (first.toNat - '0'.toNat) :: digitsOf 10 (second :: rest) := by
    unfold literalDigits
    rw [isBase]
    exact digitsOf_cons (digitValue_decimal isDigit) _
  have isNext : literalNext (first :: second :: rest) =
      1 + (digitsOf 10 (second :: rest)).length := by
    unfold literalNext
    rw [isDigits, isBase, length_cons]
    simp only [LiteralBase.start]
    omega
  have isValue : literalValue (first :: second :: rest) = digitsValue 10 (first.toNat - '0'.toNat)
      (digitsOf 10 (second :: rest)) := by
    unfold literalValue
    rw [isDigits, isBase, digitsValue_cons]
    rfl
  have isCounts : LiteralCounts config machine pow10 (first :: second :: rest) ↔
      CountsFit (decimalRadix config pow10) machine.intMax
        (first.toNat - '0'.toNat) 1 (digitsOf 10 (second :: rest)) := by
    unfold LiteralCounts
    rw [isBase, isDigits]
  have more : ¬PrefixOnly (first :: second :: rest) := by
    intro only
    exact decimal (some.inj only.2.1)
  by_cases run : rest ≠ [] ∨ ¬isdigit second
  · have eq : fromBase config machine pow10 (some (started (first :: second :: rest)))
        (first :: second :: rest) =
        fromDigits config machine (decimalRadix config pow10) 1
          (second :: rest) (some (started (first :: second :: rest)))
          (first.toNat - '0'.toNat) 1 := by
      unfold fromBase
      dsimp only
      rw [if_pos decimal, if_pos run]
      rfl
    obtain ⟨fit, unfit⟩ := @fromDigits_literal config machine (decimalRadix config pow10)
      radixRight (first.toNat - '0'.toNat) 1 1 (by omega)
      (first :: second :: rest) (second :: rest) (cons_ne_nil _ _)
      more (Nat.add_comm _ _) isNext isValue
    constructor
    · rw [isCounts, eq]
      exact fit
    · rw [isCounts, eq]
      exact unfit
  · push Not at run
    obtain ⟨rfl, isDigit'⟩ := run
    have below' := isdigit_small isDigit'
    have isRest : digitsOf 10 [second] = [second.toNat - '0'.toNat] :=
      digitsOf_cons (digitValue_decimal isDigit') []
    have notFull : (decimalRadix config pow10).full (first.toNat - '0'.toNat)
        (second.toNat - '0'.toNat) = false := by
      rw [← Bool.not_eq_true]
      intro full
      have high := radixRight.full (first.toNat - '0'.toNat) (second.toNat - '0'.toNat)
          (by omega) below' full
      change 2 ^ config.ulongBit < (first.toNat - '0'.toNat + 1) * 10 at high
      omega
    rw [isRest] at isNext isValue isCounts
    refine @fromPrenum_literal config machine pow10 [first, second]
      ((first.toNat - '0'.toNat) * 10 + (second.toNat - '0'.toNat))
      (started [first, second]) ?_ ?_ (by omega) isValue isNext.symm ?_
    · rw [isCounts]
      unfold CountsFit
      rw [if_neg (by rw [notFull]; exact Bool.false_ne_true)]
      refine ⟨?_, trivial⟩
      have wide : 2 ^ 2 ≤ 2 ^ (machine.intBit - 1) := by
        refine Nat.pow_le_pow_right Nat.two_pos ?_
        have packet := machine.intBit_packet
        have charLong := Nat.le_of_dvd config.npktbit_pos config.charBit_dvd_npktbit
        omega
      unfold Machine.intMax
      change 1 + 1 ≤ _
      omega
    · unfold fromBase
      dsimp only
      rw [if_pos decimal, if_neg]
      push Not
      exact ⟨rfl, isDigit'⟩
    · unfold literalCode
      rw [if_neg (cons_ne_nil _ _), isNext]
      exact (if_pos rfl).symm

theorem literalBase_zero (second third : Char) (rest : List Char) :
    literalBase ('0' :: second :: third :: rest) =
      if isBinary second then .binary
      else if isHexadecimal second then .hexadecimal
      else .octal :=
  if_pos rfl

theorem designated_right (some' : rest ≠ []) (designator : isBinary second ∨ isHexadecimal second) :
    BaseRight config machine pow10 ('0' :: second :: rest) := by
  have byte := machine.charBit_byte
  obtain ⟨third, rest', rfl⟩ := exists_cons_of_ne_nil some'
  have more : ¬PrefixOnly ('0' :: second :: third :: rest') := by
    intro only
    have isTwo := only.1
    simp only [length_cons] at isTwo
    omega
  have isLength : ('0' :: second :: third :: rest').length = 2 + (third :: rest').length :=
    Nat.add_comm _ 2
  by_cases binary : isBinary second
  · have isBase : literalBase ('0' :: second :: third :: rest') = .binary := by
      rw [literalBase_zero, if_pos binary]
    have isCounts : LiteralCounts config machine pow10 ('0' :: second :: third :: rest') ↔
        CountsFit (bitRadix config 1 digit2) machine.intMax 0 0 (digitsOf 2 (third :: rest')) := by
      unfold LiteralCounts literalDigits
      rw [isBase]
      rfl
    have eq : fromBase config machine pow10 (some (started ('0' :: second :: third :: rest')))
        ('0' :: second :: third :: rest') =
        fromDigits config machine (bitRadix config 1 digit2) 2 (third :: rest')
          (some (started ('0' :: second :: third :: rest'))) 0 0 := by
      unfold fromBase
      dsimp only
      unfold isBinary at binary
      rw [if_neg (not_not.2 rfl), if_pos binary, if_neg (cons_ne_nil _ _)]
      rfl
    obtain ⟨fit, unfit⟩ := @fromDigits_literal config machine (bitRadix config 1 digit2)
      (bitRadix_right byte (by decide) fun s => (digit_eq s).1) 0 0 2
      (Nat.two_pow_pos _) ('0' :: second :: third :: rest')
      (third :: rest') (cons_ne_nil _ _) more isLength
      (by unfold literalNext literalDigits; rw [isBase]; rfl)
      (by unfold literalValue literalDigits; rw [isBase]; rfl)
    constructor
    · rw [isCounts, eq]
      exact fit
    · rw [isCounts, eq]
      exact unfit
  · have hexadecimal := designator.resolve_left binary
    have isBase : literalBase ('0' :: second :: third :: rest') = .hexadecimal := by
      rw [literalBase_zero, if_neg binary, if_pos hexadecimal]
    have isCounts : LiteralCounts config machine pow10 ('0' :: second :: third :: rest') ↔
        CountsFit (bitRadix config 4 digit16) machine.intMax 0 0
          (digitsOf 16 (third :: rest')) := by
      unfold LiteralCounts literalDigits
      rw [isBase]
      rfl
    have eq : fromBase config machine pow10 (some (started ('0' :: second :: third :: rest')))
        ('0' :: second :: third :: rest') =
        fromDigits config machine (bitRadix config 4 digit16) 2 (third :: rest')
          (some (started ('0' :: second :: third :: rest'))) 0 0 := by
      unfold fromBase
      dsimp only
      unfold isBinary at binary
      unfold isHexadecimal at hexadecimal
      rw [if_neg (not_not.2 rfl), if_neg binary, if_pos hexadecimal, if_neg (cons_ne_nil _ _)]
      rfl
    obtain ⟨fit, unfit⟩ := @fromDigits_literal config machine (bitRadix config 4 digit16)
      (bitRadix_right byte (by decide) fun s => (digit_eq s).2.2.2) 0 0 2
      (Nat.two_pow_pos _) ('0' :: second :: third :: rest')
      (third :: rest') (cons_ne_nil _ _) more isLength
      (by unfold literalNext literalDigits; rw [isBase]; rfl)
      (by unfold literalValue literalDigits; rw [isBase]; rfl)
    constructor
    · rw [isCounts, eq]
      exact fit
    · rw [isCounts, eq]
      exact unfit

theorem literalBase_octal {second : Char} {rest : List Char}
    (octal : rest = [] ∨ ¬isBinary second ∧ ¬isHexadecimal second) :
    literalBase ('0' :: second :: rest) = .octal := by
  cases rest with
  | nil => exact if_pos rfl
  | cons third rest =>
    obtain ⟨binary, hexadecimal⟩ := octal.resolve_left (cons_ne_nil _ _)
    rw [literalBase_zero, if_neg binary, if_neg hexadecimal]

theorem literalDigits_octal (isBase : literalBase ('0' :: second :: rest) = .octal) :
    literalDigits ('0' :: second :: rest) = 0 :: digitsOf 8 (second :: rest) := by
  unfold literalDigits
  rw [isBase]
  exact digitsOf_cons (show digitValue 8 '0' = some 0 by decide) (second :: rest)

theorem zero_right {second : Char}
    {rest : List Char} (isBase : literalBase ('0' :: second :: rest) = .octal)
    (isSecond : digitValue 8 second = none) {after : NumStrErr}
    (eq : fromBase config machine pow10 (some (started ('0' :: second :: rest)))
      ('0' :: second :: rest) =
      some (fromPrenum config 0 (some after)))
    (next : after.next = 1)
    (code : after.code =
      if PrefixOnly ('0' :: second :: rest) then .strerrPrefix
      else .strerrInvalid) :
    BaseRight config machine pow10 ('0' :: second :: rest) := by
  have isDigits : literalDigits ('0' :: second :: rest) = [0] := by
    rw [literalDigits_octal isBase, digitsOf_none isSecond]
  have isNext : literalNext ('0' :: second :: rest) = 1 := by
    unfold literalNext
    rw [isDigits, isBase]
    rfl
  refine fromPrenum_literal ?_ eq (Nat.two_pow_pos _) ?_ (next.trans isNext.symm) ?_
  · unfold LiteralCounts
    rw [isBase, isDigits]
    exact trivial
  · unfold literalValue
    rw [isDigits, isBase]
    rfl
  · unfold literalCode
    rw [if_neg (cons_ne_nil _ _), isNext, if_neg]
    · exact code
    · simp only [length_cons]
      omega

theorem designator_octal (designator : isBinary second ∨ isHexadecimal second) :
    digitValue 8 second = none := by
  rcases designator with (rfl | rfl) | (rfl | rfl) <;> decide

theorem prefixOnly_right (designator : isBinary second ∨ isHexadecimal second) :
    BaseRight config machine pow10 ['0', second] := by
  have only : PrefixOnly ['0', second] := by
    refine ⟨rfl, rfl, fun other member => ?_⟩
    obtain rfl : other = second := mem_singleton.1 member
    exact designator
  refine @zero_right config machine pow10 second []
    (literalBase_octal (.inl rfl)) (designator_octal designator)
    (badchar "prefix-only number: 0" 1 second .strerrPrefix) ?_ rfl
    (if_pos only).symm
  unfold fromBase
  dsimp only
  rw [if_neg (not_not.2 rfl)]
  by_cases binary : second = 'b' ∨ second = 'B'
  · rw [if_pos binary, if_pos rfl]
    rfl
  · have hexadecimal : second = 'x' ∨ second = 'X' := designator.resolve_left binary
    rw [if_neg binary, if_pos hexadecimal, if_pos rfl]
    rfl

theorem unknown_right (binary : ¬isBinary second) (hexadecimal : ¬isHexadecimal second)
    (notDigit : ¬('0' ≤ second ∧ second ≤ '7')) :
    BaseRight config machine pow10 ('0' :: second :: rest) := by
  have more : ¬PrefixOnly ('0' :: second :: rest) := by
    intro only
    rcases only.2.2 second (mem_cons_self ..) with isOne | isOne
    · exact binary isOne
    · exact hexadecimal isOne
  refine @zero_right config machine pow10 second rest
    (literalBase_octal (.inr ⟨binary, hexadecimal⟩))
    (digitValue_octal_none notDigit)
    (badchar "unknown base designator: 0" 1 second .strerrInvalid) ?_ rfl
    (if_neg more).symm
  unfold isBinary at binary
  unfold isHexadecimal at hexadecimal
  unfold fromBase
  dsimp only
  rw [if_neg (not_not.2 rfl), if_neg binary, if_neg hexadecimal, if_neg notDigit]
  rfl

/-- An octal number. -/
theorem octal_right (isDigit : '0' ≤ second ∧ second ≤ '7') :
    BaseRight config machine pow10 ('0' :: second :: rest) := by
  have byte := machine.charBit_byte
  obtain ⟨few, long⟩ := byte_small byte
  have isSecond := digitValue_octal isDigit
  have below := digitValue_lt isSecond
  have noDesignator : ¬(isBinary second ∨ isHexadecimal second) := by
    intro designator
    rw [designator_octal designator] at isSecond
    cases isSecond
  have more : ¬PrefixOnly ('0' :: second :: rest) := by
    intro only
    exact noDesignator (only.2.2 second (mem_cons_self ..))
  obtain ⟨binary, hexadecimal⟩ := not_or.1 noDesignator
  have isBase := @literalBase_octal second rest (.inr ⟨binary, hexadecimal⟩)
  have isDigits : literalDigits ('0' :: second :: rest) =
      0 :: (second.toNat - '0'.toNat) :: digitsOf 8 rest := by
    rw [literalDigits_octal isBase, digitsOf_cons isSecond]
  have isNext : literalNext ('0' :: second :: rest) = 2 + (digitsOf 8 rest).length := by
    unfold literalNext
    rw [isDigits, isBase]
    simp only [LiteralBase.start, length_cons]
    omega
  have isValue : literalValue ('0' :: second :: rest) =
      digitsValue 8 (second.toNat - '0'.toNat) (digitsOf 8 rest) := by
    unfold literalValue
    rw [isDigits, isBase, digitsValue_cons]
    simp only [LiteralBase.number, digitsValue, foldl_cons, Nat.zero_mul, Nat.zero_add]
  have isCounts : LiteralCounts config machine pow10 ('0' :: second :: rest) ↔
      CountsFit (bitRadix config 3 digit8) machine.intMax
        (second.toNat - '0'.toNat) 0 (digitsOf 8 rest) := by
    unfold LiteralCounts
    rw [isBase, isDigits]
  unfold isBinary at binary
  unfold isHexadecimal at hexadecimal
  by_cases only : rest = []
  · subst only
    refine @fromPrenum_literal config machine pow10 ['0', second]
      (second.toNat - '0'.toNat) (started ['0', second]) ?_ ?_ (by omega)
      isValue isNext.symm ?_
    · rw [isCounts]
      exact trivial
    · unfold fromBase
      dsimp only
      rw [if_neg (not_not.2 rfl), if_neg binary, if_neg hexadecimal, if_pos isDigit, if_pos rfl]
    · unfold literalCode
      rw [if_neg (cons_ne_nil _ _), isNext]
      exact (if_pos rfl).symm
  · have eq : fromBase config machine pow10 (some (started ('0' :: second :: rest)))
        ('0' :: second :: rest) =
        fromDigits config machine (bitRadix config 3 digit8) 2 rest
          (some (started ('0' :: second :: rest)))
          (second.toNat - '0'.toNat) 0 := by
      unfold fromBase
      dsimp only
      rw [if_neg (not_not.2 rfl), if_neg binary, if_neg hexadecimal, if_pos isDigit, if_neg only]
      rfl
    obtain ⟨fit, unfit⟩ := @fromDigits_literal config machine (bitRadix config 3 digit8)
      (bitRadix_right byte (by decide) fun s => (digit_eq s).2.1)
      (second.toNat - '0'.toNat) 0 2 (by omega) ('0' :: second :: rest)
      rest (cons_ne_nil _ _) more (Nat.add_comm _ 2) isNext isValue
    constructor
    · rw [isCounts, eq]
      exact fit
    · rw [isCounts, eq]
      exact unfit

/-- **The bases**: whatever a string that begins with a digit goes on with. -/
theorem fromBase_right (powers : PowersOfTen config pow10) {first : Char} (isDigit : isdigit first)
    (rest : List Char) :
    BaseRight config machine pow10 (first :: rest) := by
  cases rest with
  | nil => exact single_right machine.charBit_byte isDigit
  | cons second rest =>
    by_cases decimal : first ≠ '0'
    · exact decimal_right powers isDigit decimal
    · obtain rfl := not_not.1 decimal
      by_cases designator : isBinary second ∨ isHexadecimal second
      · by_cases only : rest = []
        · subst only
          exact prefixOnly_right designator
        · exact designated_right only designator
      · obtain ⟨binary, hexadecimal⟩ := not_or.1 designator
        by_cases octal : '0' ≤ second ∧ second ≤ '7'
        · exact octal_right octal
        · exact unknown_right binary hexadecimal octal

theorem literalCode_range (str : List Char) : literalCode str ≠ .strerrRange := by
  unfold literalCode
  split_ifs <;> decide

/-- What `num_fromstr` returns when no group of digits is too long. -/
structure StringRight (config : Config) (machine : Machine config) (pow10 : List (List Nat))
    (record : NumStrErr) (str : List Char) (np : NumPtr)
    (after : NumStrErr) : Prop where
  eq : numFromstr config machine pow10 str (some record) = some (np, some after)
  range : after.code = .strerrRange ↔ 2 ^ config.capacity ≤ literalValue str
  fits : literalValue str < 2 ^ config.capacity → unsignedValue config np.pkt = literalValue str ∧
      after.next = literalNext str ∧ after.code = literalCode str

theorem numFromstr_none {record : NumStrErr}
    {str : List Char} (isDigits : literalDigits str = []) (isBase : literalBase str = .decimal)
    {after : NumStrErr}
    (eq : numFromstr config machine pow10 str (some record) =
      some (⟨prenum config 0, some 0⟩, some after))
    (next : after.next = 0)
    (code : after.code = literalCode str) :
    LiteralCounts config machine pow10 str ∧ StringRight config machine pow10 record str
      ⟨prenum config 0, some 0⟩ after := by
  obtain ⟨_, isZero⟩ := @setnum_held config 0 (Nat.two_pow_pos _)
  have isValue : literalValue str = 0 := by
    unfold literalValue
    rw [isDigits]
    rfl
  refine ⟨?_, eq, ?_, fun _ => ⟨?_, ?_, code⟩⟩
  · unfold LiteralCounts
    rw [isBase, isDigits]
    exact trivial
  · rw [code, isValue]
    have power := Nat.two_pow_pos config.capacity
    exact ⟨fun impossible => absurd impossible (literalCode_range str),
      fun large => absurd large (by omega)⟩
  · rw [isValue]
    exact isZero
  · unfold literalNext
    rw [next, isDigits, isBase]
    rfl

/-- **`num_fromstr`**: a number for every string without too long a group of
digits, and for no other. -/
theorem numFromstr_spec (powers : PowersOfTen config pow10) (record : NumStrErr) (str : List Char) :
    (LiteralCounts config machine pow10 str → ∃ np after,
      StringRight config machine pow10 record str np after) ∧
    (¬LiteralCounts config machine pow10 str →
      numFromstr config machine pow10 str (some record) = none) := by
  cases str with
  | nil =>
    obtain ⟨counts, right⟩ := @numFromstr_none config machine pow10 record [] rfl rfl
      ⟨some "empty digit string", 0, .strerrEmpty⟩ rfl rfl rfl
    exact ⟨fun _ => ⟨_, _, right⟩, fun unfit => absurd counts unfit⟩
  | cons first rest =>
    by_cases isDigit : isdigit first
    · obtain ⟨fit, unfit⟩ := @fromBase_right config machine pow10 powers first isDigit rest
      unfold numFromstr
      dsimp only
      rw [if_neg (not_not.2 isDigit)]
      constructor
      · intro counts
        obtain ⟨result, after, eq, isErr, number, next, code⟩ := fit counts
        cases isAnswer : result.answer with
        | none =>
          have large := number.overflow isAnswer
          refine ⟨⟨result.np, none⟩, ⟨some
                  ("overflow--number too big: " ++
                    String.ofList (first :: rest)),
                (first :: rest).length, .strerrRange⟩,
              ?_, ?_, fun small => absurd large (by omega)⟩
          · unfold numFromstr
            dsimp only
            rw [if_neg (not_not.2 isDigit)]
            refine (congrArg (Option.map _) eq).trans ?_
            rw [map_some, isAnswer, isErr]
            rfl
          · exact ⟨fun _ => large, fun _ => rfl⟩
        | some answer =>
          obtain ⟨small, isValue⟩ := number.answer answer isAnswer
          refine ⟨answer, after, ?_, ?_, fun _ => ⟨isValue, next, code⟩⟩
          · unfold numFromstr
            dsimp only
            rw [if_neg (not_not.2 isDigit)]
            refine (congrArg (Option.map _) eq).trans ?_
            rw [map_some, isAnswer, isErr]
          · rw [code]
            exact ⟨fun impossible => absurd impossible (literalCode_range _),
              fun large => absurd large (by omega)⟩
      · intro counts
        refine (congrArg (Option.map _) (unfit counts)).trans ?_
        rfl
    · have isBase : literalBase (first :: rest) = .decimal := by
        unfold literalBase
        rw [if_neg]
        intro zero
        obtain rfl := some.inj zero
        exact isDigit (by decide)
      have isDigits : literalDigits (first :: rest) = [] := by
        unfold literalDigits
        rw [isBase]
        refine digitsOf_none ?_ rest
        change digitValue 10 first = none
        rw [← (digit_eq first).2.2.1]
        exact if_neg isDigit
      have code : literalCode (first :: rest) = .strerrInvalid := by
        have isNext : literalNext (first :: rest) = 0 := by
          unfold literalNext
          rw [isDigits, isBase]
          rfl
        unfold literalCode
        rw [if_neg (cons_ne_nil _ _), isNext, if_neg, if_neg]
        · intro only
          obtain rfl := some.inj only.2.1
          exact isDigit (by decide)
        · rw [length_cons]
          omega
      obtain ⟨counts, right⟩ := @numFromstr_none config machine pow10 record (first :: rest)
        isDigits isBase
        (badchar "nonnumeric initial character: " 0 first .strerrInvalid)
        (if_pos isDigit) rfl code.symm
      exact ⟨fun _ => ⟨_, _, right⟩, fun unfit => absurd counts unfit⟩

/--
**`num_fromstr` is right** exactly when no group of digits is too long for its
counter and the value is not one that is too large for a number and not for what
the package computes with.
-/
theorem fromstrRight_iff (config : Config) (machine : Machine config) (pow10 : List (List Nat))
    (init : numInit config = some pow10) (record : NumStrErr) (str : List Char) :
    FromstrRight config machine pow10 record str ↔ FromstrFits config machine pow10 str := by
  have powers := numInit_spec machine.charBit_byte init
  have wide := Nat.pow_le_pow_right Nat.two_pos (numsize_le_capacity config)
  obtain ⟨fit, unfit⟩ := @numFromstr_spec config machine pow10 powers record str
  constructor
  · rintro ⟨np, after, eq, range, _⟩
    have counts : LiteralCounts config machine pow10 str := by
      by_contra unfit'
      rw [unfit unfit'] at eq
      cases eq
    obtain ⟨np', after', right⟩ := fit counts
    rw [right.eq] at eq
    cases eq
    refine ⟨counts, fun between => ?_⟩
    obtain ⟨_, _, code⟩ := right.fits between.2
    have isRange := range.2 between.1
    rw [code] at isRange
    exact literalCode_range str isRange
  · rintro ⟨counts, range⟩
    obtain ⟨np, after, right⟩ := fit counts
    refine ⟨np, after, right.eq, right.range.trans ⟨fun large => ?_, fun large => ?_⟩,
      fun small => right.fits (by omega)⟩
    · omega
    · exact Nat.le_of_not_lt fun small => range ⟨large, small⟩

/-- 16-bit packets, a 32-bit `long` and a `NUMSIZE` of 232: the top packet has
no part of the number. -/
def wideConfig : Config where
  charBit := 8
  npktbit := 16
  longPkts := 2
  numsize := 232
  charBit_pos := eightBits_pos
  npktbit_pos := sixteenBits_pos
  charBit_dvd_npktbit := eightBits_dvd_sixteen
  longPkts_wide := twoPkts_wide
  numsize_long := by decide
  charBit_dvd_numsize := by decide

/-- 32-bit integers, 64-bit long ones and 8-bit characters. -/
def wideMachine : Machine wideConfig where
  intBit := 32
  llongBit := 64
  intBit_packet := by decide
  intBit_long := by decide
  llongBit_long := by decide
  charBit_byte := by decide

/-- `0x1` and 58 zeros. -/
def overSize : List Char := ['0', 'x', '1'] ++ replicate 58 '0'

/-- A record not set yet. -/
def unsetErr : NumStrErr := ⟨none, 0, .strerrNone⟩

theorem fromstr_noRange : ∃ pow10, numInit wideConfig = some pow10 ∧
    literalValue overSize = 2 ^ wideConfig.numsize ∧
    ¬FromstrRight wideConfig wideMachine pow10 unsetErr overSize := by
  obtain ⟨pow10, init⟩ := Option.isSome_iff_exists.1
    (show (numInit wideConfig).isSome = true by decide +kernel)
  have isValue : literalValue overSize = 2 ^ wideConfig.numsize := by decide +kernel
  refine ⟨pow10, init, isValue, fun right => ?_⟩
  obtain ⟨np, after, eq, range, _⟩ := right
  have noRange : (numFromstr wideConfig wideMachine ((numInit wideConfig).getD [])
      overSize (some unsetErr)).map
      (fun result => result.2.map fun err => err.code) =
      some (some .strerrNone) := by
    decide +kernel
  rw [init, getD_some, eq] at noRange
  have isNone : after.code = .strerrNone := some.inj (some.inj noRange)
  rw [isNone] at range
  exact absurd (range.2 isValue.ge) (by decide)

/-- 32-bit integers besides 16-bit packets. -/
def i386Machine : Machine i386Config where
  toHost := i386Host
  charBit_byte := by decide

/-- The decimal number 42, read right. -/
theorem fromstrRight_sample : ∃ pow10, numInit i386Config = some pow10 ∧
    FromstrRight i386Config i386Machine pow10 unsetErr ['4', '2', 'x'] := by
  obtain ⟨pow10, init⟩ := Option.isSome_iff_exists.1
    (show (numInit i386Config).isSome = true by decide +kernel)
  have isBase : literalBase ['4', '2', 'x'] = .decimal := by decide
  have isDigits : literalDigits ['4', '2', 'x'] = [4, 2] := by decide
  refine ⟨pow10, init, (fromstrRight_iff i386Config i386Machine pow10 init unsetErr
    ['4', '2', 'x']).2 ⟨?_, by decide +kernel⟩⟩
  unfold LiteralCounts
  rw [isBase, isDigits]
  have notFull : (decimalRadix i386Config []).full 4 2 = false := by decide +kernel
  change (decimalRadix i386Config pow10).full 4 2 = false at notFull
  change CountsFit (decimalRadix i386Config pow10) i386Machine.intMax 4 1 [2]
  unfold CountsFit
  rw [if_neg (by rw [notFull]; exact Bool.false_ne_true)]
  refine ⟨?_, trivial⟩
  change 1 + 1 ≤ i386Machine.intMax
  decide +kernel

end Uw7.Intemu
