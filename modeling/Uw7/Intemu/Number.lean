import Uw7.Lib.Limbs

namespace Uw7.Intemu

/-!
# Numbers of the integer package

Addition, subtraction, negation and multiplication from `intemu.c`.  A number is
an array of packets, the lowest first.  The package is compiled for a packet
type, an `unsigned long` and a `NUMSIZE`; `num_init` refuses what does not fit
its conditions.  A shift of a `Ulong` by as many bits as it has or more is
undefined, and `none` stands for a call that makes one.
-/

open Lib Lib.Limbs

/-- What the package is compiled for, as `num_init` admits it.  Packets are
whole in an `unsigned long`, and characters in packets. -/
structure Config where
  charBit : Nat
  npktbit : Nat
  longPkts : Nat
  numsize : Nat
  charBit_pos : 0 < charBit
  npktbit_pos : 0 < npktbit
  charBit_dvd_npktbit : charBit ∣ npktbit
  longPkts_wide : 2 ≤ longPkts
  numsize_long : npktbit * longPkts ≤ numsize
  charBit_dvd_numsize : charBit ∣ numsize

variable (config : Config)

def Config.ulongBit : Nat := config.npktbit * config.longPkts

/-- `NPKT`: an `IntNum` is as long as its array of `unsigned long`. -/
def Config.npkt : Nat := (config.numsize - 1 + config.ulongBit) / config.ulongBit * config.longPkts

/-- `NTOPBIT`, before it is made unsigned. -/
def Config.ntopbit : Int := config.numsize - ((config.npkt : Int) - 1) * config.npktbit

def ulong (number : Nat) : Nat := number % 2 ^ config.ulongBit

/-- `NTOPBIT < NPKTBIT`, as unsigned numbers. -/
def Config.partialTop : Prop := 0 ≤ config.ntopbit ∧ config.ntopbit < config.npktbit

instance : Decidable config.partialTop := inferInstanceAs (Decidable (_ ∧ _))

/-- The packet with the sign. -/
def topPkt (pkt : List Nat) : Nat := pkt.getD (config.npkt - 1) 0

def sign (pkt : List Nat) : Option Nat :=
  if 0 < config.ntopbit then
    some (topPkt config pkt &&& 2 ^ (config.ntopbit.toNat - 1))
  else none

def clearUnused (pkt : List Nat) : List Nat := pkt.set (config.npkt - 1)
    (topPkt config pkt % 2 ^ config.ntopbit.toNat)

def hasUnused (pkt : List Nat) : Prop := topPkt config pkt / 2 ^ config.ntopbit.toNat ≠ 0

instance (pkt : List Nat) : Decidable (hasUnused config pkt) := inferInstanceAs (Decidable (_ ≠ _))

/-- The loop of `num_sadd` and `num_uadd`. -/
def addLoop : Nat → List Nat → List Nat → List Nat × Nat
  | carry, d :: dst, s :: src =>
    let carry := ulong config (carry + (s + d))
    let rest := addLoop (carry >>> config.npktbit) dst src
    (carry % 2 ^ config.npktbit :: rest.1, rest.2)
  | carry, _, _ => ([], carry)

/-- `num_sadd`: the number after, and what is returned. -/
def numSadd (dst src : List Nat) : Option (List Nat × Nat) := do
  let origsign ← sign config dst
  let srcsign ← sign config src
  let sum := (addLoop config 0 dst src).1
  let dst := if config.partialTop then clearUnused config sum else sum
  let newsign ← sign config dst
  return (dst, if origsign = srcsign ∧ newsign ≠ origsign then 1 else 0)

def numUadd (dst src : List Nat) : List Nat × Nat :=
  let sum := addLoop config 0 dst src
  if config.partialTop ∧ hasUnused config sum.1 then
    (clearUnused config sum.1, 1)
  else sum

def numComplement (np : List Nat) : List Nat :=
  complement config.npktbit (np.take (config.npkt - 1)) ++
    [topPkt config np ^^^ (2 ^ config.ntopbit.toNat - 1)]

/-- `setnum`, for so many packets. -/
def setnum : Nat → Nat → List Nat
  | 0, _ => []
  | count + 1, val => val % 2 ^ config.npktbit :: setnum count (val >>> config.npktbit)

def prenum (val : Nat) : List Nat := setnum config config.npkt val

def numNegate (np : List Nat) : Option (List Nat × Nat) :=
  numSadd config (numComplement config np) (prenum config 1)

/-- Packets compared from the top. -/
def comparePkts : List Nat → List Nat → Int
  | s1 :: n1, s2 :: n2 => if s1 < s2 then -1 else if s2 < s1 then 1 else comparePkts n1 n2
  | _, _ => 0

def numUcompare (n1 n2 : List Nat) : Int := comparePkts n1.reverse n2.reverse

def numSsubtract (dst src : List Nat) : Option (List Nat × Nat) := do
  let (negsrc, oflow) ← numNegate config src
  let (dst, more) ← numSadd config dst negsrc
  return (dst, oflow ||| more)

def numUsubtract (dst src : List Nat) : Option (List Nat × Nat) := do
  let oflow := if numUcompare dst src < 0 then 1 else 0
  let (negsrc, _) ← numNegate config src
  return ((numUadd config dst negsrc).1, oflow)

/-- The inner loop of `num_umultiply`: a packet times `dst`, added to the
result. -/
def mulInner (val : Nat) : Nat → List Nat → List Nat → List Nat × Nat
  | carry, d :: dst, r :: result =>
    let carry := ulong config (carry + (val * d + r))
    let rest := mulInner val (carry >>> config.npktbit) dst result
    (carry % 2 ^ config.npktbit :: rest.1, rest.2)
  | carry, _, _ => ([], carry)

/-- One round of the outer loop, on the result from packet `i` on. -/
def mulRow (val : Nat) (dst result : List Nat) : List Nat :=
  if val = 0 then result
  else
    let row := mulInner config val 0 dst result
    row.1 ++ row.2 :: result.drop (dst.length + 1)

/-- The outer loop of `num_umultiply`. -/
def mulLoop (dst : List Nat) : List Nat → List Nat → List Nat
  | val :: src, result =>
    match mulRow config val dst result with
    | low :: high => low :: mulLoop dst src high
    | [] => []
  | [], result => result

def numUmultiply (dst src : List Nat) : List Nat × Nat :=
  let result := mulLoop config dst src (List.replicate (config.npkt + config.npkt) 0)
  let low := result.take config.npkt
  let oflow := if ∃ r ∈ result.drop config.npkt, r ≠ 0 then 1 else 0
  if config.partialTop ∧ hasUnused config low then
    (clearUnused config low, 1)
  else (low, oflow)

/-- A number is negated if its sign bit is set. -/
def makeNonnegative (signBit : Nat) (np : List Nat) : Option (List Nat) :=
  if signBit = 0 then some np
  else (numNegate config np).map Prod.fst

def numSmultiply (dst src : List Nat) : Option (List Nat × Nat) := do
  let dstsign ← sign config dst
  let srcsign ← sign config src
  let dst ← makeNonnegative config dstsign dst
  let src ← makeNonnegative config srcsign src
  let neg := decide (dstsign = 0) != decide (srcsign = 0)
  let product := numUmultiply config dst src
  let newsign ← sign config product.1
  let oflow := if product.2 = 0 ∧ newsign ≠ 0 then 1 else product.2
  if neg then
    (numNegate config product.1).map fun negated =>
      (negated.1, if negated.2 ≠ 0 then 0 else oflow)
  else some (product.1, oflow)

end Uw7.Intemu
