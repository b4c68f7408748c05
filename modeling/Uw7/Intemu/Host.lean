import Uw7.Intemu.Division

namespace Uw7.Intemu

/-!
# Host integers

Conversion between numbers and the integers of the host.  The `num_to...`
functions shift the packets through a host integer and look at what is shifted
out.  For the three unsigned and the three signed types they differ only in the
width.  A shift by the whole width is undefined.
-/

open Lib Lib.Limbs

variable (config : Config)

/-- The widths of the host integers that the package does not compute with. -/
structure Host where
  intBit : Nat
  llongBit : Nat
  intBit_packet : config.npktbit ≤ intBit
  intBit_long : intBit ≤ config.ulongBit
  llongBit_long : config.ulongBit ≤ llongBit

/-- A pointer to a number; one into `prenum` has an index. -/
structure NumPtr where
  pkt : List Nat
  index : Option Nat
  deriving DecidableEq

/-- `HIGH(n)`, `HIGHINT(n)` and `HIGHLL(n)`, for a type of so many bits. -/
def high (width n : Nat) : Nat := (low width >>> n) ^^^ low width

/-- The loop of the `num_to...` functions, for packets from the top.  The bits
to be shifted out should be those of `fill`. -/
def toLoop (width fill : Nat) : Nat → Nat → List Nat → Nat × Nat
  | tdst, oflow, p :: pkt =>
    let bits := high width config.npktbit
    let oflow := if tdst &&& bits ≠ fill &&& bits then 1 else oflow
    toLoop width fill ((tdst <<< config.npktbit) % 2 ^ width ||| p) oflow pkt
  | tdst, oflow, [] => (tdst, oflow)

/-- `num_touint`, `num_toulong` and `num_toulonglong`: what is stored, and what
is returned. -/
def toUnsigned (width : Nat) (np : NumPtr) : Option (Nat × Nat) :=
  match np.index with
  | some index => some (index, 0)
  | none =>
    if config.npktbit < width then
      some (toLoop config width 0 0 0 np.pkt.reverse)
    else none

/-- The signed integer with the bits of an unsigned one. -/
def asSigned (width : Nat) (bits : Nat) : Int :=
  if bits < 2 ^ (width - 1) then bits else (bits : Int) - 2 ^ width

/-- `num_tosint`, `num_toslong` and `num_toslonglong`: what is stored, and what
is returned. -/
def toSigned (width : Nat) (np : NumPtr) : Option (Int × Nat) := do
  let npsign ← sign config np.pkt
  if npsign = 0 then
    let (dst, oflow) ← toUnsigned config width np
    let dst := asSigned width dst return (dst, if oflow ≠ 0 ∨ dst < 0 then 1 else 0)
  else if config.npktbit < width then
    let (tdst, oflow) := toLoop config width (low width) (low width) 0 np.pkt.reverse
    return (asSigned width tdst, oflow)
  else none

def numTouint (host : Host config) (np : NumPtr) : Option (Nat × Nat) :=
  toUnsigned config host.intBit np

def numToulong (np : NumPtr) : Option (Nat × Nat) := toUnsigned config config.ulongBit np

def numToulonglong (host : Host config) (np : NumPtr) : Option (Nat × Nat) :=
  toUnsigned config host.llongBit np

def numTosint (host : Host config) (np : NumPtr) : Option (Int × Nat) :=
  toSigned config host.intBit np

def numToslong (np : NumPtr) : Option (Int × Nat) := toSigned config config.ulongBit np

def numToslonglong (host : Host config) (np : NumPtr) : Option (Int × Nat) :=
  toSigned config host.llongBit np

def nprenum : Nat := 2 ^ config.charBit

def numFromulong (val : Nat) : NumPtr :=
  if val < nprenum config then ⟨prenum config val, some val⟩
  else ⟨setnum config config.npkt val, none⟩

/-- `num_fromslong`.  `LONG_MIN` has no negative; its bits are those of its
magnitude. -/
def numFromslong (val : Int) : Option NumPtr :=
  if 0 ≤ val then some (numFromulong config val.toNat)
  else
    let val := if val ≠ -2 ^ (config.ulongBit - 1) then -val else val
    let dst := setnum config config.npkt (val % 2 ^ config.ulongBit).toNat
    (numNegate config dst).map fun negated => ⟨negated.1, none⟩

end Uw7.Intemu
