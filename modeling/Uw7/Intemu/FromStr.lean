import Uw7.Intemu.HostRight

namespace Uw7.Intemu

/-!
# Numbers from digits

`num_fromstr` and what it calls.  The digits of a base are collected in a
`Ulong`; before it would overflow it is spilled into the number, by a shift or by
powers of ten.  A string is what its length admits of it, a position in it is an
index, and a null `err` is `none`.  The counter of a group of digits is an `int`;
what makes it overflow is undefined, and so is a loop that does not end.
-/

open Lib Lib.Limbs

variable (config : Config)

/-- The machine the package runs on.  A character has no fewer than eight
bits. -/
structure Machine extends Host config where
  charBit_byte : 8 ≤ config.charBit

def Machine.intMax {config : Config} (machine : Machine config) : Nat :=
  2 ^ (machine.intBit - 1) - 1

/-- The loop of `num_init`: the powers of ten that are numbers, from the next
one on, when the table has room for so many.  A short table is fatal. -/
def initPow10 : Nat → List Nat → Option (List (List Nat))
  | 0, _ => none
  | room + 1, x =>
    let two := numLlshift config x 1
    let eight := numLlshift config two.1 2
    let ten := numUadd config eight.1 two.1
    if two.2 ≠ 0 ∨ eight.2 ≠ 0 ∨ ten.2 ≠ 0 then some [x]
    else (initPow10 room ten.1).map fun pow10 => x :: pow10

/-- `num_init`: the powers of ten.  `maxpow10` is the last one. -/
def numInit : Option (List (List Nat)) :=
  initPow10 config ((config.numsize + 2) / 3) (prenum config 1)

def numOr (dst src : List Nat) : List Nat := List.zipWith (fun d s => d ||| s) dst src

/-- `NUM_STRERR_NONE` and the others. -/
inductive StrErrCode where
  | strerrNone
  | strerrEmpty
  | strerrPrefix
  | strerrInvalid
  | strerrRange
  deriving DecidableEq

structure NumStrErr where
  emsg : Option String
  next : Nat
  code : StrErrCode
  deriving DecidableEq

/-- An octal digit of a character's code. -/
def octalChar (ch : Nat) : Char := Char.ofNat (ch % 8 + '0'.toNat)

def prtchar (ch : Char) : List Char :=
  if ch = '\\' then ['\\', '\\']
  else if ch = '\n' then ['\\', 'n']
  else if ch = '\t' then ['\\', 't']
  else if ' ' ≤ ch ∧ ch ≤ '~' then [ch]
  else
    ['\\', octalChar (ch.toNat >>> 6), octalChar (ch.toNat >>> 3), octalChar ch.toNat]

def badchar (msg : String) (bad : Nat) (ch : Char) (code : StrErrCode) : NumStrErr :=
  ⟨some (msg ++ String.ofList (prtchar ch)), bad, code⟩

/-- What `baddig` calls a base. -/
def baseName (base : Nat) : String :=
  if base = 2 then "binary"
  else if base = 8 then "octal"
  else if base = 10 then "decimal"
  else "hexadecimal"

def baddig (bad : Nat) (ch : Char) (base : Nat) : NumStrErr := ⟨some
    ("invalid " ++ baseName base ++ " digit: " ++ String.ofList (prtchar ch)),
    bad, .strerrInvalid⟩

/-- How the digits of a base are read and collected: what one adds to the counter,
whether it would overflow the `Ulong`, and how that is spilled. -/
structure Radix where
  base : Nat
  digit : Char → Option Nat
  unit : Nat
  full : Nat → Nat → Bool
  add : Nat → Nat → Nat
  spill : List Nat → Nat → Nat → Option (List Nat × Nat)

/-- The variables of a loop over digits.  `np` is set once a group of them is
spilled. -/
structure Collected where
  np : Option (List Nat)
  oflow : Nat
  val : Nat
  count : Nat
  deriving DecidableEq

/-- What a loop does with a digit. -/
def collectDigit (machine : Machine config) (radix : Radix) (collected : Collected)
    (dig : Nat) : Option Collected :=
  if radix.full collected.val dig then
    match collected.np with
    | some np =>
      (radix.spill np collected.val collected.count).map fun spilled =>
        ⟨some spilled.1, collected.oflow ||| spilled.2, dig, radix.unit⟩
    | none =>
      some ⟨some (setnum config config.npkt collected.val), collected.oflow, dig, radix.unit⟩
  else if collected.count + radix.unit ≤ machine.intMax then
    some
      { collected with
        val := radix.add collected.val dig
        count := collected.count + radix.unit }
  else none

/-- The loop of `from2`, `from8`, `from10` and `from16`.  A bad digit ends it when
there is an `err`, and is a 0 otherwise. -/
def collectLoop (machine : Machine config) (radix : Radix) :
    Nat → List Char → Collected → Option NumStrErr → Option (Collected × Option NumStrErr)
  | _, [], collected, err => some (collected, err)
  | position, s :: rest, collected, err =>
    match radix.digit s, err with
    | some dig, err =>
      (collectDigit config machine radix collected dig).bind fun next =>
        collectLoop machine radix (position + 1) rest next err
    | none, some _ => some (collected, some (baddig position s radix.base))
    | none, none =>
      (collectDigit config machine radix collected 0).bind fun next =>
        collectLoop machine radix (position + 1) rest next none

/-- What `from2` and the others return, with a null pointer for an overflow, and
the number they leave. -/
structure FromResult where
  answer : Option NumPtr
  np : List Nat
  err : Option NumStrErr

/-- A number without overflow, one of `prenum` if it is small. -/
def fromVal (val : Nat) : NumPtr :=
  if val < nprenum config then ⟨prenum config val, some val⟩
  else ⟨setnum config config.npkt val, none⟩

/-- The end of `from2` and the others. -/
def fromCollected (radix : Radix) (collected : Collected)
    (err : Option NumStrErr) : Option FromResult :=
  match collected.np with
  | some np =>
    (radix.spill np collected.val collected.count).map fun spilled =>
      if collected.oflow ||| spilled.2 ≠ 0 then ⟨none, spilled.1, err⟩
      else ⟨some ⟨spilled.1, none⟩, spilled.1, err⟩
  | none =>
    let answer := fromVal config collected.val
    some ⟨some answer, answer.pkt, err⟩

/-- `from2` and the others, for digits from a position on and what was collected
before them. -/
def fromDigits (machine : Machine config) (radix : Radix) (position : Nat) (s : List Char)
    (err : Option NumStrErr)
    (val count : Nat) : Option FromResult :=
  (collectLoop config machine radix position s ⟨none, 0, val, count⟩ err).bind
    fun collected => fromCollected config radix collected.1 collected.2

/-- A binary digit, as `from2` reads it. -/
def digit2 (s : Char) : Option Nat :=
  if s = '1' then some 1 else if s = '0' then some 0 else none

/-- An octal digit, as `from8` reads it. -/
def digit8 (s : Char) : Option Nat :=
  if '0' < s ∧ s ≤ '7' then some (s.toNat - '0'.toNat)
  else if s = '0' then some 0
  else none

def isdigit (s : Char) : Prop := '0' ≤ s ∧ s ≤ '9'

instance (s : Char) : Decidable (isdigit s) := inferInstanceAs (Decidable (_ ∧ _))

/-- A decimal digit, as `from10` reads it. -/
def digit10 (s : Char) : Option Nat :=
  if isdigit s then some (s.toNat - '0'.toNat) else none

/-- A hexadecimal digit, as `from16` reads it. -/
def digit16 (s : Char) : Option Nat :=
  if isdigit s then some (s.toNat - '0'.toNat)
  else if 'a' ≤ s ∧ s ≤ 'f' then some (s.toNat - 'a'.toNat + 10)
  else if 'A' ≤ s ∧ s ≤ 'F' then some (s.toNat - 'A'.toNat + 10)
  else none

/-- The spill of a base that is a power of two. -/
def spillBits (np : List Nat) (val nshift : Nat) : List Nat × Nat :=
  let shifted := numLlshift config np nshift
  (numOr shifted.1 (setnum config config.npkt val), shifted.2)

def bitRadix (bits : Nat) (digit : Char → Option Nat) : Radix where
  base := 2 ^ bits
  digit := digit
  unit := bits
  full val _ := val &&& high config.ulongBit bits ≠ 0
  add val dig := ulong config (val <<< bits) ||| dig
  spill np val nshift := some (spillBits config np val nshift)

/-- `while (ndig > maxpow10)`, in no more rounds than there are digits. -/
def largeLoop (pow10 : List (List Nat)) : Nat → List Nat → Nat → Nat → Option (List Nat × Nat × Nat)
  | rounds, np, oflow, ndig =>
    if pow10.length - 1 < ndig then
      match rounds with
      | 0 => none
      | rounds + 1 =>
        let product := numUmultiply config np (pow10.getD (pow10.length - 1) [])
        largeLoop pow10 rounds product.1 (oflow ||| product.2) (ndig - (pow10.length - 1))
    else some (np, oflow, ndig)

/-- `while (--ndig >= 0)`: times ten. -/
def tenLoop : Nat → List Nat → Nat → List Nat × Nat
  | 0, np, oflow => (np, oflow)
  | ndig + 1, np, oflow =>
    let two := numLlshift config np 1
    let eight := numLlshift config two.1 2
    let ten := numUadd config eight.1 two.1
    tenLoop ndig ten.1 (oflow ||| two.2 ||| eight.2 ||| ten.2)

def spill10 (pow10 : List (List Nat)) (np : List Nat)
    (val ndig : Nat) : Option (List Nat × Nat) := do
  let (np, oflow, ndig) ← largeLoop config pow10 ndig np 0 ndig
  let (np, oflow) :=
    if ndig ≤ config.npkt * config.npkt / (2 * config.npkt) then
      tenLoop config ndig np oflow
    else
      let product := numUmultiply config np (pow10.getD ndig [])
      (product.1, oflow ||| product.2)
  let sum := numUadd config np (setnum config config.npkt val)
  return (sum.1, oflow ||| sum.2)

def ulongMax : Nat := 2 ^ config.ulongBit - 1

/-- Base ten. -/
def decimalRadix (pow10 : List (List Nat)) : Radix where
  base := 10
  digit := digit10
  unit := 1
  full val dig := ¬(val < ulongMax config / 10 ∨
      val = ulongMax config / 10 ∧ dig ≤ ulongMax config % 10)
  add val dig := ulong config (ulong config (val * 10) + dig)
  spill := spill10 config pow10

def from2 (machine : Machine config) (position : Nat) (s : List Char)
    (err : Option NumStrErr) : Option FromResult :=
  fromDigits config machine (bitRadix config 1 digit2) position s err 0 0

def from8 (machine : Machine config) (position : Nat) (s : List Char) (err : Option NumStrErr)
    (dig : Nat) : Option FromResult :=
  fromDigits config machine (bitRadix config 3 digit8) position s err dig 0

def from10 (machine : Machine config) (pow10 : List (List Nat)) (position : Nat) (s : List Char)
    (err : Option NumStrErr)
    (dig : Nat) : Option FromResult :=
  fromDigits config machine (decimalRadix config pow10) position s err dig 1

def from16 (machine : Machine config) (position : Nat) (s : List Char)
    (err : Option NumStrErr) : Option FromResult :=
  fromDigits config machine (bitRadix config 4 digit16) position s err 0 0

/-- A number that is not read by `from2` and the others. -/
def fromPrenum (val : Nat) (err : Option NumStrErr) : FromResult :=
  ⟨some ⟨prenum config val, some val⟩, prenum config val, err⟩

/-- The base of a string that begins with a digit, and the number in it. -/
def fromBase (machine : Machine config) (pow10 : List (List Nat))
    (err : Option NumStrErr) : List Char → Option FromResult
  | [] => none
  | [first] => some (fromPrenum config (first.toNat - '0'.toNat) err)
  | first :: second :: rest =>
    if first ≠ '0' then
      if rest ≠ [] ∨ ¬isdigit second then
        from10 config machine pow10 1 (second :: rest) err (first.toNat - '0'.toNat)
      else
        some (fromPrenum config ((first.toNat - '0'.toNat) * 10 + (second.toNat - '0'.toNat)) err)
    else if second = 'b' ∨ second = 'B' then
      if rest = [] then
        some (fromPrenum config 0 (err.map fun _ =>
            badchar "prefix-only number: 0" 1 second .strerrPrefix))
      else from2 config machine 2 rest err
    else if second = 'x' ∨ second = 'X' then
      if rest = [] then
        some (fromPrenum config 0 (err.map fun _ =>
            badchar "prefix-only number: 0" 1 second .strerrPrefix))
      else from16 config machine 2 rest err
    else if '0' ≤ second ∧ second ≤ '7' then
      if rest = [] then
        some (fromPrenum config (second.toNat - '0'.toNat) err)
      else
        from8 config machine 2 rest err (second.toNat - '0'.toNat)
    else
      some (fromPrenum config 0 (err.map fun _ =>
          badchar "unknown base designator: 0" 1 second .strerrInvalid))

/-- `num_fromstr`: the number, and the error record.  What an earlier message has
left behind the end of the one about an overflow is not part of it. -/
def numFromstr (machine : Machine config) (pow10 : List (List Nat)) (str : List Char)
    (err : Option NumStrErr) : Option (NumPtr × Option NumStrErr) :=
  match str with
  | [] =>
    some (⟨prenum config 0, some 0⟩, err.map fun _ => ⟨some "empty digit string", 0, .strerrEmpty⟩)
  | first :: _ =>
    if ¬isdigit first then
      some (⟨prenum config 0, some 0⟩, err.map fun _ =>
          badchar "nonnumeric initial character: " 0 first .strerrInvalid)
    else
      (fromBase config machine pow10 (err.map fun _ => ⟨none, str.length, .strerrNone⟩) str).map
        fun result =>
          match result.answer with
          | some answer => (answer, result.err)
          | none =>
            (⟨result.np, none⟩, result.err.map fun _ =>
                ⟨some
                    ("overflow--number too big: " ++ String.ofList str),
                  str.length, .strerrRange⟩)

end Uw7.Intemu

namespace Uw7.Intemu

/-!
# Spilling digits

A number and a sticky overflow flag track a value: the number is the value, or
the flag is set and the value is too large.  The powers of ten, the shifts and
the sums of a spill keep that.
-/

open Lib Lib.Limbs

variable {config : Config}

/-- The number is the target, or an overflow is known and the target is too
large. -/
structure Tracks (config : Config) (np : List Nat) (oflow target : Nat) : Prop where
  held : IsHeld config np
  exact : oflow = 0 → unsignedValue config np = target
  large : oflow ≠ 0 → 2 ^ config.capacity ≤ target

theorem Tracks.step {np : List Nat} {oflow target : Nat} (tracks : Tracks config np oflow target)
    {next : List Nat × Nat} {total target' : Nat}
    (right : IsHeld config next.1 ∧ unsignedValue config next.1 = total % 2 ^ config.capacity ∧
        (next.2 ≠ 0 ↔ 2 ^ config.capacity ≤ total))
    (isTotal : oflow = 0 → total = target')
    (grows : target ≤ target') :
    Tracks config next.1 (oflow ||| next.2) target' := by
  obtain ⟨held, residue, large⟩ := right
  refine ⟨held, fun zero => ?_, fun some' => ?_⟩
  · obtain ⟨before, after⟩ := Nat.or_eq_zero_iff.1 zero
    rw [← isTotal before, residue, Nat.mod_eq_of_lt]
    exact Nat.lt_of_not_le fun tooLarge => large.2 tooLarge after
  · by_cases before : oflow = 0
    · rw [before, Nat.zero_or] at some'
      rw [← isTotal before]
      exact large.1 some'
    · exact (tracks.large before).trans grows

theorem setnum_held {val : Nat} (small : val < 2 ^ config.ulongBit) :
    IsHeld config (setnum config config.npkt val) ∧
      unsignedValue config (setnum config config.npkt val) = val := by
  obtain ⟨length, fits, isValue⟩ := @setnum_spec config config.npkt val
  have size := Nat.pow_le_pow_right Nat.two_pos
      (config.numsize_long.trans (numsize_le_capacity config))
  have holds := Nat.pow_le_pow_right Nat.two_pos (capacity_le config)
  have below : val < 2 ^ config.capacity := small.trans_le size
  rw [Nat.mod_eq_of_lt (below.trans_le holds)] at isValue
  exact ⟨⟨⟨length, fits⟩, by rw [isValue]; exact below⟩, isValue⟩

theorem numLlshift_held {np : List Nat} (isPkts : IsPkts config np) {n : Nat}
    (within : n ≤ config.numsize) :
    IsHeld config (numLlshift config np n).1 ∧ unsignedValue config (numLlshift config np n).1 =
        unsignedValue config np * 2 ^ n % 2 ^ config.capacity ∧
      ((numLlshift config np n).2 ≠ 0 ↔ 2 ^ config.capacity ≤ unsignedValue config np * 2 ^ n) := by
  have cut : cutCount config n = n := by
    unfold cutCount
    exact Nat.min_eq_left within
  unfold numLlshift
  rw [if_neg (by omega), cut]
  dsimp only
  rw [if_neg (by omega)]
  exact llshiftBy_held isPkts within

variable {np : List Nat} {oflow target ndig : Nat} {pow10 : List (List Nat)}

theorem numLlshift_long (isPkts : IsPkts config np) {n : Nat} (long : config.numsize < n) :
    IsHeld config (numLlshift config np n).1 ∧ (numLlshift config np n).2 = 1 := by
  have cut : cutCount config n = config.numsize := by
    unfold cutCount
    exact Nat.min_eq_right long.le
  unfold numLlshift
  rw [if_neg (by omega), cut]
  dsimp only
  rw [if_pos (by omega)]
  exact ⟨(llshiftBy_held isPkts (Nat.le_refl _)).1, rfl⟩

theorem two_le_numsize (config : Config) : 2 ≤ config.numsize := by
  have long := npktbit_lt_ulongBit config
  have positive := config.npktbit_pos
  have size := config.numsize_long
  change config.ulongBit ≤ config.numsize at size
  omega

theorem capacity_long (config : Config) : config.capacity + config.charBit ≤
    config.numsize + config.ulongBit := by
  have longDvd : config.charBit ∣ config.ulongBit :=
    config.charBit_dvd_npktbit.mul_right config.longPkts
  have packetsDvd : config.charBit ∣ config.npktbit * config.npkt :=
    config.charBit_dvd_npktbit.mul_right config.npkt
  have positive := ulongBit_pos config
  have charLong := Nat.le_of_dvd positive longDvd
  unfold Config.capacity
  split
  · have size := numsize_pos config
    have packets : config.npktbit * config.npkt = config.ulongBit *
        ((config.numsize - 1 + config.ulongBit) / config.ulongBit) := by
      simp only [Config.npkt, Config.ulongBit]
      rw [Nat.mul_comm _ config.longPkts, ← Nat.mul_assoc]
    have below : config.npktbit * config.npkt < config.numsize + config.ulongBit := by
      have most := Nat.mul_div_le (config.numsize - 1 + config.ulongBit) config.ulongBit
      omega
    obtain ⟨long, isLong⟩ := longDvd
    obtain ⟨packet, isPacket⟩ := packetsDvd
    obtain ⟨size', isSize⟩ := config.charBit_dvd_numsize
    rw [isLong, isPacket, isSize, ← Nat.mul_add] at below ⊢
    exact Nat.mul_le_mul_left _ (Nat.lt_of_mul_lt_mul_left below)
  · omega

theorem spillBits_spec (byte : 8 ≤ config.charBit) {bits : Nat} (few : bits ≤ 4)
    (held : IsHeld config np) {val digits : Nat} (small : val < 2 ^ config.ulongBit)
    (behind : val < (2 ^ bits) ^ digits) :
    IsHeld config (spillBits config np val (bits * digits)).1 ∧
      (2 ^ config.ulongBit < (unsignedValue config np + 1) * 2 ^ bits →
        ((spillBits config np val (bits * digits)).2 = 0 →
          unsignedValue config (spillBits config np val (bits * digits)).1 =
            unsignedValue config np * (2 ^ bits) ^ digits + val) ∧
        ((spillBits config np val (bits * digits)).2 ≠ 0 → 2 ^ config.capacity ≤
            unsignedValue config np * (2 ^ bits) ^ digits + val)) := by
  obtain ⟨valHeld, isVal⟩ := setnum_held small
  rw [← Nat.pow_mul] at behind ⊢
  generalize bits * digits = nshift at behind ⊢
  have ored : ∀ {shifted : List Nat}, IsHeld config shifted → IsHeld config
      (numOr shifted (setnum config config.npkt val)) ∧
      unsignedValue config (numOr shifted (setnum config config.npkt val)) =
        unsignedValue config shifted ||| val := by
    intro shifted shiftedHeld
    have same := shiftedHeld.length.trans valHeld.length.symm
    obtain ⟨fits, isOr⟩ := value_or same shiftedHeld.fits valHeld.fits
    refine ⟨⟨⟨?_, fits⟩, ?_⟩, ?_⟩
    · unfold numOr
      rw [List.length_zipWith, ← same, Nat.min_self]
      exact shiftedHeld.length
    · exact isOr ▸ Nat.or_lt_two_pow shiftedHeld.within valHeld.within
    · unfold unsignedValue at isVal ⊢
      rw [numOr, isOr, isVal]
  unfold spillBits
  rcases le_or_gt nshift config.numsize with within | long
  · obtain ⟨shiftHeld, residue, large⟩ := numLlshift_held held.toIsPkts within
    obtain ⟨orHeld, isOr⟩ := ored shiftHeld
    refine ⟨orHeld, fun _ => ⟨fun quiet => ?_, fun loud => ?_⟩⟩
    · have fits : unsignedValue config np * 2 ^ nshift < 2 ^ config.capacity :=
        Nat.lt_of_not_le fun tooLarge => large.2 tooLarge quiet
      rw [isOr, residue, Nat.mod_eq_of_lt fits, Nat.mul_comm, Nat.two_pow_add_eq_or_of_lt behind]
    · exact (large.1 loud).trans (Nat.le_add_right _ _)
  · obtain ⟨shiftHeld, loud⟩ := numLlshift_long held.toIsPkts long
    refine ⟨(ored shiftHeld).1, fun spilled => ⟨fun quiet => ?_, fun _ => ?_⟩⟩
    · rw [loud] at quiet
      cases quiet
    · -- the number has the high bits of a `Ulong`
      have most := capacity_long config
      have fewer : bits ≤ config.ulongBit := by
        have long := config.npktbit_pos
        have charLong := Nat.le_of_dvd long config.charBit_dvd_npktbit
        have packet := npktbit_lt_ulongBit config
        omega
      have high : 2 ^ (config.ulongBit - bits) ≤ unsignedValue config np := by
        have split : 2 ^ config.ulongBit = 2 ^ (config.ulongBit - bits) * 2 ^ bits := by
          rw [← Nat.pow_add, Nat.sub_add_cancel fewer]
        rw [split] at spilled
        exact Nat.le_of_lt_succ (Nat.lt_of_mul_lt_mul_right spilled)
      calc
        2 ^ config.capacity ≤ 2 ^ (config.ulongBit - bits + nshift) :=
          Nat.pow_le_pow_right Nat.two_pos (by omega)
        _ = 2 ^ (config.ulongBit - bits) * 2 ^ nshift := Nat.pow_add _ _ _
        _ ≤ unsignedValue config np * 2 ^ nshift := Nat.mul_le_mul_right _ high
        _ ≤ unsignedValue config np * 2 ^ nshift + val := Nat.le_add_right _ _

theorem timesTen_tracks (tracks : Tracks config np oflow target) {two eight ten : List Nat × Nat}
    (isTwo : two = numLlshift config np 1) (isEight : eight = numLlshift config two.1 2)
    (isTen : ten = numUadd config eight.1 two.1) :
    Tracks config ten.1 (oflow ||| two.2 ||| eight.2 ||| ten.2) (target * 10) := by
  have size := two_le_numsize config
  have twoTracks : Tracks config two.1 (oflow ||| two.2) (target * 2) := by
    have right := @numLlshift_held config np tracks.held.toIsPkts 1 (by omega)
    rw [Nat.cast_one, ← isTwo, Nat.pow_one] at right
    exact tracks.step right (fun quiet => by rw [tracks.exact quiet]) (by omega)
  have eightTracks : Tracks config eight.1 (oflow ||| two.2 ||| eight.2) (target * 8) := by
    have right := @numLlshift_held config two.1 twoTracks.held.toIsPkts 2 size
    rw [Nat.cast_ofNat, ← isEight] at right
    refine twoTracks.step right (fun quiet => ?_) (by omega)
    rw [twoTracks.exact quiet]
    omega
  have right := numUadd_held eightTracks.held.toIsPkts twoTracks.held.toIsPkts
  rw [← isTen] at right
  refine eightTracks.step right (fun quiet => ?_) (by omega)
  rw [eightTracks.exact quiet, twoTracks.exact (Nat.or_eq_zero_iff.1 quiet).1, ← Nat.mul_add]

theorem initPow10_spec {room : Nat} {x : List Nat} {power : Nat} (tracks : Tracks config x 0 power)
    (eq : initPow10 config room x = some pow10) :
    0 < pow10.length ∧ (power * 10 < 2 ^ config.capacity → 1 < pow10.length) ∧
      ∀ index < pow10.length, Tracks config (pow10.getD index []) 0 (power * 10 ^ index) := by
  induction room generalizing x power pow10 with
  | zero => cases eq
  | succ room ih =>
    unfold initPow10 at eq
    dsimp only at eq
    have tenTracks := timesTen_tracks tracks rfl rfl rfl
    split at eq
    · rename_i loud
      cases eq
      refine ⟨Nat.one_pos, fun fits => ?_, fun index below => ?_⟩
      · have quiet := not_not.1 fun some' => absurd (tenTracks.large some') (by omega)
        simp only [Nat.or_eq_zero_iff] at quiet
        obtain ⟨⟨⟨_, two⟩, eight⟩, ten⟩ := quiet
        rcases loud with loud | loud | loud
        · exact absurd two loud
        · exact absurd eight loud
        · exact absurd ten loud
      · obtain rfl : index = 0 := Nat.lt_one_iff.1 below
        rw [Nat.pow_zero, Nat.mul_one]
        exact tracks
    · rename_i quiet
      push Not at quiet
      obtain ⟨two, eight, ten⟩ := quiet
      obtain ⟨rest, isRest, rfl⟩ := Option.map_eq_some_iff.1 eq
      rw [two, eight, ten, Nat.or_self, Nat.or_self] at tenTracks
      obtain ⟨some', _, powers⟩ := ih tenTracks isRest
      refine ⟨Nat.succ_pos _, fun _ => Nat.succ_lt_succ some', ?_⟩
      intro index below
      cases index with
      | zero =>
        rw [Nat.pow_zero, Nat.mul_one]
        exact tracks
      | succ index =>
        have right := powers index (Nat.lt_of_succ_lt_succ below)
        rw [Nat.mul_assoc, ← Nat.pow_succ'] at right
        exact right

/-- What `num_init` sets up. -/
structure PowersOfTen (config : Config) (pow10 : List (List Nat)) : Prop where
  two : 1 < pow10.length
  power : ∀ index < pow10.length, Tracks config (pow10.getD index []) 0 (10 ^ index)

theorem byte_small (byte : 8 ≤ config.charBit) :
    2 ^ 8 ≤ nprenum config ∧ nprenum config ≤ 2 ^ config.ulongBit := by
  refine ⟨Nat.pow_le_pow_right Nat.two_pos byte, Nat.pow_le_pow_right Nat.two_pos ?_⟩
  exact Nat.le_of_dvd (ulongBit_pos config) (config.charBit_dvd_npktbit.mul_right config.longPkts)

theorem numInit_spec (byte : 8 ≤ config.charBit) (eq : numInit config = some pow10) :
    PowersOfTen config pow10 := by
  obtain ⟨few, long⟩ := byte_small byte
  have size := Nat.pow_le_pow_right Nat.two_pos
      (config.numsize_long.trans (numsize_le_capacity config))
  change 2 ^ config.ulongBit ≤ _ at size
  obtain ⟨held, isOne⟩ := @setnum_held config 1 (by omega)
  have one : Tracks config (prenum config 1) 0 1 :=
    ⟨held, fun _ => isOne, fun loud => absurd rfl loud⟩
  obtain ⟨_, two, powers⟩ := initPow10_spec one eq
  refine ⟨two (by omega), fun index below => ?_⟩
  have right := powers index below
  rwa [Nat.one_mul] at right

theorem powerStep_tracks (powers : PowersOfTen config pow10)
    (tracks : Tracks config np oflow target) {index : Nat} (below : index < pow10.length) :
    Tracks config (numUmultiply config np (pow10.getD index [])).1
      (oflow ||| (numUmultiply config np (pow10.getD index [])).2)
      (target * 10 ^ index) := by
  have power := powers.power index below
  refine tracks.step (numUmultiply_held tracks.held.toIsPkts power.held.toIsPkts)
      (fun quiet => ?_) (Nat.le_mul_of_pos_right _ (Nat.pow_pos (by omega)))
  have exact := power.exact rfl
  have before := tracks.exact quiet
  unfold unsignedValue at exact before
  rw [before, exact]

theorem largeLoop_spec (powers : PowersOfTen config pow10) {rounds : Nat} (enough : ndig ≤ rounds)
    (tracks : Tracks config np oflow target) :
    ∃ np' oflow' rest spent, largeLoop config pow10 rounds np oflow ndig =
        some (np', oflow', rest) ∧
        rest < pow10.length ∧ ndig = spent + rest ∧
        Tracks config np' oflow' (target * 10 ^ spent) := by
  have two := powers.two
  induction rounds generalizing np oflow target ndig with
  | zero =>
    refine ⟨np, oflow, ndig, 0, ?_, by omega, by omega, ?_⟩
    · unfold largeLoop
      rw [if_neg (by omega)]
    · rw [Nat.pow_zero, Nat.mul_one]
      exact tracks
  | succ rounds ih =>
    unfold largeLoop
    by_cases large : pow10.length - 1 < ndig
    · rw [if_pos large]
      obtain ⟨np', oflow', rest, spent, isLoop, within, isNdig, right⟩ :=
        @ih _ _ _ (ndig - (pow10.length - 1)) (by omega)
          (powerStep_tracks powers tracks (show pow10.length - 1 < pow10.length by omega))
      refine ⟨np', oflow', rest, pow10.length - 1 + spent, isLoop, within, by omega, ?_⟩
      rwa [Nat.mul_assoc, ← Nat.pow_add] at right
    · rw [if_neg large]
      refine ⟨np, oflow, ndig, 0, rfl, by omega, by omega, ?_⟩
      rw [Nat.pow_zero, Nat.mul_one]
      exact tracks

theorem tenLoop_spec (tracks : Tracks config np oflow target) :
    Tracks config (tenLoop config ndig np oflow).1
      (tenLoop config ndig np oflow).2 (target * 10 ^ ndig) := by
  induction ndig generalizing np oflow target with
  | zero =>
    rw [Nat.pow_zero, Nat.mul_one]
    exact tracks
  | succ ndig ih =>
    have right := ih (timesTen_tracks tracks rfl rfl rfl)
    rw [Nat.mul_assoc, ← Nat.pow_succ'] at right
    exact right

/-- **Spilled decimal digits** are behind those of the number. -/
theorem spill10_spec {pow10 : List (List Nat)} (powers : PowersOfTen config pow10) {np : List Nat}
    (held : IsHeld config np) {val ndig : Nat} (small : val < 2 ^ config.ulongBit) :
    ∃ np' oflow, spill10 config pow10 np val ndig = some (np', oflow) ∧ Tracks config np' oflow
        (unsignedValue config np * 10 ^ ndig + val) := by
  obtain ⟨valHeld, isVal⟩ := setnum_held small
  obtain ⟨np', oflow, rest, spent, isLoop, within, isNdig, tracks⟩ :=
    largeLoop_spec powers (Nat.le_refl ndig) (⟨held, fun _ => rfl, fun loud => absurd rfl loud⟩ :
        Tracks config np 0 (unsignedValue config np))
  have multiplied : ∀ {np' : List Nat} {oflow : Nat},
      Tracks config np' oflow (unsignedValue config np * 10 ^ ndig) → Tracks config
          (numUadd config np' (setnum config config.npkt val)).1
          (oflow ||| (numUadd config np' (setnum config config.npkt val)).2)
          (unsignedValue config np * 10 ^ ndig + val) := by
    intro np' oflow tracks
    refine tracks.step (numUadd_held tracks.held.toIsPkts valHeld.toIsPkts)
        (fun quiet => ?_) (Nat.le_add_right _ _)
    rw [tracks.exact quiet, isVal]
  have power : 10 ^ ndig = 10 ^ spent * 10 ^ rest := by rw [isNdig, Nat.pow_add]
  unfold spill10
  rw [isLoop]
  simp only [Option.bind_eq_bind, Option.bind_some]
  refine ⟨_, _, rfl, ?_⟩
  split
  · refine multiplied ?_
    rw [power, ← Nat.mul_assoc]
    exact tenLoop_spec tracks
  · refine multiplied ?_
    rw [power, ← Nat.mul_assoc]
    exact powerStep_tracks powers tracks within

end Uw7.Intemu
