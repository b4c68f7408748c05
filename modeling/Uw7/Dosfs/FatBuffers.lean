import Uw7.Dosfs.Files
import Uw7.Lib.Custody

namespace Uw7.Dosfs

/-!
# The buffers of the FAT routines

`fatentry`, `updateotherfats` and `fillinusemap` from `fs/dosfs/dosfs_fat.c` with the
buffers that they obtain and give back.  Any buffer that is read can have an error.
What the routines compute is left to the models without buffers; the two agree on the
error that is returned.
-/

open Lib Errno List Option

/-- A buffer: how many were obtained before it, and its block. -/
structure Lbuf where
  index : Nat
  bn : Nat
  deriving DecidableEq

/-- A call for a buffer; `NULL` is `none`. -/
inductive BufOp where
  | lbread (lbp : Option Lbuf)
  | lgetblk (lbp : Option Lbuf)
  | lbrelse (lbp : Option Lbuf)
  | lbwrite (lbp : Option Lbuf)
  | lbdwrite (lbp : Option Lbuf)
  deriving DecidableEq

/-- Whether the call obtains the buffer or gives it back. -/
def BufOp.transfer : BufOp → Transfer (Option Lbuf)
  | .lbread lbp | .lgetblk lbp => .take lbp
  | .lbrelse lbp | .lbwrite lbp | .lbdwrite lbp => .giveBack lbp

/-- The calls made for buffers, and the number of buffers obtained. -/
structure BufTrace where
  obtained : Nat
  ops : List BufOp
  deriving DecidableEq

namespace BufTrace

/-- No calls so far. -/
def empty : BufTrace where
  obtained := 0
  ops := []

/-- The next buffer. -/
def lbuf (t : BufTrace) (bn : Nat) : Lbuf where
  index := t.obtained
  bn := bn

/-- `lbread`, which returns the next buffer. -/
def lbread (t : BufTrace) (bn : Nat) : BufTrace where
  obtained := t.obtained + 1
  ops := t.ops ++ [.lbread (some (t.lbuf bn))]

/-- `lgetblk`, which returns the next buffer. -/
def lgetblk (t : BufTrace) (bn : Nat) : BufTrace where
  obtained := t.obtained + 1
  ops := t.ops ++ [.lgetblk (some (t.lbuf bn))]

def lbrelse (t : BufTrace) (lbp : Option Lbuf) : BufTrace :=
  { t with ops := t.ops ++ [.lbrelse lbp] }

/-- `lbwrite` or `lbdwrite`. -/
def fatWrite (waitonfat : Bool) (t : BufTrace) (lbp : Option Lbuf) : BufTrace :=
  { t with
    ops := t.ops ++ [if waitonfat then .lbwrite lbp else .lbdwrite lbp] }

/-- The release of a buffer unless it is `NULL`. -/
def release (t : BufTrace) : Option Lbuf → BufTrace
  | none => t
  | some lbp => t.lbrelse (some lbp)

/-- What was obtained and given back. -/
def transfers (t : BufTrace) : List (Transfer (Option Lbuf)) := t.ops.map BufOp.transfer

end BufTrace

/-- The loop of `updateotherfats`, with `count` copies to go. -/
def copyFatsBufs (waitonfat : Bool) (fatsecs : Nat) (bp1 : Bool) : Nat → Nat → BufTrace → BufTrace
  | 0, _, t => t
  | count + 1, fatbn, t =>
    let fatbn := fatbn + fatsecs
    let bpn0 := t.lbuf fatbn
    let t := (t.lgetblk fatbn).fatWrite waitonfat (some bpn0)
    let t :=
      if bp1 then
        let bpn1 := t.lbuf (fatbn + 1)
        (t.lgetblk (fatbn + 1)).fatWrite waitonfat (some bpn1)
      else t
    copyFatsBufs waitonfat fatsecs bp1 count fatbn t

/-- `updateotherfats`; `bp1` tells whether there is a second block. -/
def updateotherfatsBufs (waitonfat : Bool) (pvp : DosfsVfs) (bp1 : Bool) (fatbn : Nat)
    (t : BufTrace) : BufTrace :=
  copyFatsBufs waitonfat pvp.vfsFatsecs bp1 (pvp.vfsFats - 1) fatbn t

/-- The end of `fatentry`, from `FAT_SET` on. -/
def fatentrySetBufs (waitonfat : Bool) (pvp : DosfsVfs) (function whichblk : Nat) (bp0 : Lbuf)
    (bp1 : Option Lbuf)
    (t : BufTrace) : BufTrace :=
  if function &&& fatSet ≠ 0 then
    let t := updateotherfatsBufs waitonfat pvp bp1.isSome whichblk t
    let t := t.fatWrite waitonfat (some bp0)
    match bp1 with
    | none => t
    | some bp1 => t.fatWrite waitonfat (some bp1)
  else
    (t.release (some bp0)).release bp1

/-- The place of an entry in the FAT, as `fatentry` keeps it in 16 bits. -/
def fatentryByte (pvp : DosfsVfs) (cluster : Nat) : Nat :=
  if fat12 pvp then (cluster + cluster >>> 1) % 2 ^ 16
  else (cluster <<< 1) % 2 ^ 16

/-- The block that `fatentry` reads first. -/
def fatentryBlk (pvp : DosfsVfs) (cluster : Nat) : Nat :=
  fatentryByte pvp cluster >>> vfsBnshift + pvp.vfsFatblk

/-- `fatentry` reads a second block. -/
def fatentryStraddles (pvp : DosfsVfs) (cluster : Nat) : Bool := fat12 pvp &&
    fatentryByte pvp cluster &&& vfsBrbomask == vfsBytesPerSec - 1

/-- `fatentry` behind its checks. -/
def fatentryReadBufs (lgeterror : Lbuf → Option Errno) (waitonfat : Bool) (pvp : DosfsVfs)
    (function cluster : Nat) (t : BufTrace) :
    Option Errno × BufTrace :=
  let whichblk := fatentryBlk pvp cluster
  let bp0 := t.lbuf whichblk
  let t := t.lbread whichblk
  match lgeterror bp0 with
  | some error => (some error, t.lbrelse (some bp0))
  | none =>
    if fatentryStraddles pvp cluster then
      let bp1 := t.lbuf (whichblk + 1)
      let t := t.lbread (whichblk + 1)
      match lgeterror bp1 with
      | some error => (some error, t.lbrelse (some bp1))
      | none => (none, fatentrySetBufs waitonfat pvp function whichblk bp0 (some bp1) t)
    else
      (none, fatentrySetBufs waitonfat pvp function whichblk bp0 none t)

/-- The checks of `fatentry`. -/
def fatentryAccepts (pvp : DosfsVfs) (function cluster : Nat) (oldcontents : Bool) : Bool :=
  !(function &&& (fatSet ||| fatGet) == 0) && !(function &&& fatGet != 0 && !oldcontents) &&
      !(decide (cluster < clustFirst) || decide (cluster > pvp.vfsMaxcluster))

def fatentryBufs (lgeterror : Lbuf → Option Errno) (waitonfat : Bool) (pvp : DosfsVfs)
    (function cluster : Nat) (oldcontents : Bool) (t : BufTrace) :
    Option Errno × BufTrace :=
  if fatentryAccepts pvp function cluster oldcontents then
    fatentryReadBufs lgeterror waitonfat pvp function cluster t
  else
    (some .EINVAL, t)

/-- The place of an entry in the FAT, in `fillinusemap`. -/
def fillByte (pvp : DosfsVfs) (cn : Nat) : Nat :=
  if fat12 pvp then cn + cn >>> 1 else cn <<< 1

/-- The block that the loop of `fillinusemap` needs first. -/
def fillBlk (pvp : DosfsVfs) (cn : Nat) : Nat := fillByte pvp cn >>> vfsBnshift + pvp.vfsFatblk

/-- The loop of `fillinusemap` reads a second block. -/
def fillStraddles (pvp : DosfsVfs) (cn : Nat) : Bool :=
  fat12 pvp && fillByte pvp cn &&& vfsBrbomask == vfsBytesPerSec - 1

/-- The first buffer of a round of the loop, which may be the one of the last round. -/
def fillFirstBufs (lgeterror : Lbuf → Option Errno) (whichblk : Nat) (bp0 : Option Lbuf)
    (t : BufTrace) :
    Option Errno × Option Lbuf × BufTrace :=
  if bp0.map Lbuf.bn = some whichblk then
    (none, bp0, t)
  else
    let t := t.release bp0
    (lgeterror (t.lbuf whichblk), some (t.lbuf whichblk), t.lbread whichblk)

/-- The loop of `fillinusemap`, with `count` clusters to go. -/
def fillLoopBufs (lgeterror : Lbuf → Option Errno) (pvp : DosfsVfs) :
    Nat → Nat → Option Lbuf → BufTrace → Option Errno × BufTrace
  | 0, _, bp0, t => (none, t.lbrelse bp0)
  | count + 1, cn, bp0, t =>
    let whichblk := fillBlk pvp cn
    match fillFirstBufs lgeterror whichblk bp0 t with
    | (some error, bp0, t) => (some error, t.release bp0)
    | (none, bp0, t) =>
      if fillStraddles pvp cn then
        let bp1 := t.lbuf (whichblk + 1)
        let t := t.lbread (whichblk + 1)
        match lgeterror bp1 with
        | some error => (some error, (t.release bp0).release (some bp1))
        | none => fillLoopBufs lgeterror pvp count (cn + 1) (some bp1) (t.lbrelse bp0)
      else
        fillLoopBufs lgeterror pvp count (cn + 1) bp0 t

def fillinusemapBufs (lgeterror : Lbuf → Option Errno) (pvp : DosfsVfs) (t : BufTrace) :
    Option Errno × BufTrace :=
  fillLoopBufs lgeterror pvp (pvp.vfsMaxcluster + 1 - clustFirst) clustFirst none t

/-- A call of one of the routines. -/
inductive FatCall where
  | fatentry (function cluster : Nat) (oldcontents : Bool)
  | fillinusemap
  | updateotherfats (bp1 : Bool) (fatbn : Nat)
  deriving DecidableEq

/-- What a call returns, and its calls for buffers. -/
def FatCall.run (lgeterror : Lbuf → Option Errno) (waitonfat : Bool) (pvp : DosfsVfs) :
    FatCall → Option Errno × BufTrace
  | .fatentry function cluster oldcontents =>
    fatentryBufs lgeterror waitonfat pvp function cluster oldcontents .empty
  | .fillinusemap => fillinusemapBufs lgeterror pvp .empty
  | .updateotherfats bp1 fatbn => (none, updateotherfatsBufs waitonfat pvp bp1 fatbn .empty)

/-- Every buffer that a call obtains is released or written once before it returns. -/
def FatCall.HoldsNone (lgeterror : Lbuf → Option Errno) (waitonfat : Bool) (pvp : DosfsVfs)
    (call : FatCall) : Prop :=
  AllGivenBack (call.run lgeterror waitonfat pvp).2.transfers

/-- The error that a routine returns. -/
def errorOf {Value : Type} : Except Errno Value → Option Errno
  | .error error => some error
  | .ok _ => none

variable {pvp : DosfsVfs}

section

variable (lgeterror : Nat → Option Errno)
include lgeterror

theorem fatentryReadBufs_error (waitonfat : Bool) (pvp : DosfsVfs) (function cluster : Nat)
    (t : BufTrace) :
    (fatentryReadBufs (fun lbp => lgeterror lbp.bn) waitonfat pvp function cluster t).1 =
      readErrors lgeterror (fatentryBlk pvp cluster) (fatentryStraddles pvp cluster) := by
  simp only [fatentryReadBufs, BufTrace.lbuf, readErrors]
  cases first : lgeterror (fatentryBlk pvp cluster) with
  | some error => rfl
  | none =>
    cases straddles : fatentryStraddles pvp cluster with
    | false => rfl
    | true =>
      cases lgeterror (fatentryBlk pvp cluster + 1) with
      | some error => rfl
      | none => rfl

theorem fatentry12_error (function cluster newcontents : Nat)
    (twelve : fat12 pvp = true) :
    errorOf (fatentry12 lgeterror pvp function cluster newcontents) =
      readErrors lgeterror (fatentryBlk pvp cluster) (fatentryStraddles pvp cluster) := by
  simp only [fatentry12, fatentryBlk, fatentryStraddles, fatentryByte,
    twelve, if_true, Bool.true_and]
  cases readErrors lgeterror _ _ with
  | some error => rfl
  | none =>
    simp only
    split <;> rfl

theorem fatentry16_error (function cluster newcontents : Nat)
    (sixteen : fat12 pvp = false) :
    errorOf (fatentry16 lgeterror pvp function cluster newcontents) =
      readErrors lgeterror (fatentryBlk pvp cluster) (fatentryStraddles pvp cluster) := by
  simp only [fatentry16, fatentryBlk, fatentryStraddles, fatentryByte,
    sixteen, Bool.false_eq_true, if_false, Bool.false_and, readErrors,
    or_none]
  cases lgeterror _ with
  | some error => rfl
  | none =>
    simp only
    split <;> rfl

theorem fatentryBufs_error (waitonfat : Bool) (pvp : DosfsVfs) (function cluster : Nat)
    (oldcontents : Bool) (newcontents : Nat) (t : BufTrace) :
    (fatentryBufs (fun lbp => lgeterror lbp.bn) waitonfat pvp function cluster oldcontents t).1 =
      errorOf (fatentry lgeterror pvp function cluster oldcontents newcontents) := by
  unfold fatentryBufs fatentryAccepts fatentry
  by_cases noFunction : function &&& (fatSet ||| fatGet) = 0
  · simp [noFunction, errorOf]
  by_cases noPlace : function &&& fatGet ≠ 0 ∧ oldcontents = false
  · simp [noFunction, noPlace, errorOf]
  by_cases outside : cluster < clustFirst ∨ cluster > pvp.vfsMaxcluster
  · have outside' := outside
    rw [← Bool.decide_or, decide_eq_true outside', if_neg noFunction,
      if_neg noPlace, if_pos outside, Bool.not_true, Bool.and_false]
    rfl
  rw [if_neg noFunction, if_neg noPlace, if_neg outside, if_pos]
  · rw [fatentryReadBufs_error]
    cases size : fat12 pvp with
    | true => exact (fatentry12_error lgeterror _ _ _ size).symm
    | false => exact (fatentry16_error lgeterror _ _ _ size).symm
  · rw [← Bool.decide_or, decide_eq_false outside]
    by_cases gets : function &&& fatGet = 0
    · simp [noFunction, gets]
    · have hasPlace : oldcontents = true := by
        simpa [gets] using noPlace
      simp [noFunction, hasPlace]

theorem lookUpEntry_error (pvp : DosfsVfs) (cn : Nat) : errorOf (lookUpEntry lgeterror pvp cn) =
    readErrors lgeterror (fillBlk pvp cn) (fillStraddles pvp cn) := by
  simp only [lookUpEntry, fillBlk, fillStraddles, fillByte]
  cases readErrors lgeterror _ _ with
  | some error => rfl
  | none =>
    simp only
    split <;> rfl

end

variable {lgeterror : Nat → Option Errno}

theorem fillFirstBufs_error {whichblk : Nat} {bp0 : Option Lbuf}
    (t : BufTrace) (readable : ∀ buf, bp0 = some buf → lgeterror buf.bn = none) :
    (fillFirstBufs (fun lbp => lgeterror lbp.bn) whichblk bp0 t).1 = lgeterror whichblk ∧
      (fillFirstBufs (fun lbp => lgeterror lbp.bn) whichblk bp0 t).2.1.map
        Lbuf.bn = some whichblk := by
  unfold fillFirstBufs
  split
  next same =>
    refine ⟨?_, same⟩
    obtain ⟨buf, isBuf, sameBlk⟩ := Option.map_eq_some_iff.mp same
    rw [← sameBlk, readable buf isBuf]
  next => exact ⟨rfl, rfl⟩

/-- The FAT of a volume is where the other one has it, with entries of the same size. -/
structure SameFat (pvp pvp' : DosfsVfs) : Prop where
  size : pvp'.vfsMaxcluster = pvp.vfsMaxcluster
  fatblk : pvp'.vfsFatblk = pvp.vfsFatblk

variable {count cn : Nat}

section

variable {pvp pvp' : DosfsVfs} (same : SameFat pvp pvp')
include same

theorem SameFat.readErrors_eq (lgeterror : Nat → Option Errno) (cn : Nat) :
    readErrors lgeterror (fillBlk pvp' cn) (fillStraddles pvp' cn) =
      readErrors lgeterror (fillBlk pvp cn) (fillStraddles pvp cn) := by
  have sameBits : fat12 pvp' = fat12 pvp := by rw [fat12, fat12, same.size]
  simp only [fillBlk, fillStraddles, fillByte, sameBits, same.fatblk]

theorem scanFat_error {error : Errno}
    (fails : readErrors lgeterror (fillBlk pvp cn) (fillStraddles pvp cn) = some error) :
    errorOf (scanFat lgeterror cn (count + 1) pvp') = some error := by
  have looked := lookUpEntry_error lgeterror pvp' cn
  rw [same.readErrors_eq, fails] at looked
  rw [scanFat]
  cases entry : lookUpEntry lgeterror pvp' cn with
  | error other =>
    rw [entry] at looked
    exact looked
  | ok word =>
    rw [entry] at looked
    cases looked

theorem scanFat_next {cn : Nat}
    (readable : readErrors lgeterror (fillBlk pvp cn) (fillStraddles pvp cn) = none) (count : Nat) :
    ∃ after, SameFat pvp after ∧ scanFat lgeterror cn (count + 1) pvp' =
      scanFat lgeterror (cn + 1) count after := by
  have looked := lookUpEntry_error lgeterror pvp' cn
  rw [same.readErrors_eq, readable] at looked
  rw [scanFat]
  cases entry : lookUpEntry lgeterror pvp' cn with
  | error other =>
    rw [entry] at looked
    cases looked
  | ok word =>
    refine ⟨_, ?_, rfl⟩
    split
    · exact ⟨same.size, same.fatblk⟩
    · exact same

end

theorem fillLoopBufs_error {pvp pvp' : DosfsVfs}
    {bp0 : Option Lbuf} (t : BufTrace) (same : SameFat pvp pvp')
    (readable : ∀ buf, bp0 = some buf → lgeterror buf.bn = none) :
    (fillLoopBufs (fun lbp => lgeterror lbp.bn) pvp count cn bp0 t).1 =
      errorOf (scanFat lgeterror cn count pvp') := by
  induction count generalizing cn bp0 t pvp' with
  | zero => rfl
  | succ count ih =>
    obtain ⟨firstError, firstBlk⟩ := @fillFirstBufs_error lgeterror (fillBlk pvp cn) bp0 t readable
    rw [fillLoopBufs]
    generalize fillFirstBufs (fun lbp => lgeterror lbp.bn)
      (fillBlk pvp cn) bp0 t = fetched at firstError firstBlk ⊢
    obtain ⟨error, bp, next⟩ := fetched
    cases error with
    | some error =>
      refine (scanFat_error same ?_).symm
      rw [readErrors, ← firstError]
      rfl
    | none =>
      dsimp only
      by_cases straddles : fillStraddles pvp cn = true
      · have onlySecond : readErrors lgeterror (fillBlk pvp cn) (fillStraddles pvp cn) =
            lgeterror (fillBlk pvp cn + 1) := by
          rw [readErrors, ← firstError, if_pos straddles]
          rfl
        rw [if_pos straddles]
        cases secondError : lgeterror (fillBlk pvp cn + 1) with
        | some error =>
          rw [scanFat_error same (onlySecond.trans secondError)]
          simp only [BufTrace.lbuf, secondError]
        | none =>
          obtain ⟨after, sameAfter, goesOn⟩ :=
            scanFat_next same (onlySecond.trans secondError) count
          simp only [BufTrace.lbuf, secondError]
          rw [goesOn]
          refine ih _ sameAfter fun buf isBuf => ?_
          rw [← some.inj isBuf]
          exact secondError
      · have noError : readErrors lgeterror (fillBlk pvp cn) (fillStraddles pvp cn) = none := by
          rw [readErrors, ← firstError, if_neg straddles]
          rfl
        obtain ⟨after, sameAfter, goesOn⟩ := scanFat_next same noError count
        rw [if_neg straddles, goesOn]
        refine ih next sameAfter fun buf isBuf => ?_
        rw [isBuf] at firstBlk
        rw [some.inj firstBlk]
        exact firstError.symm

/-- The log has the buffers in their order, and certain buffers are held. -/
structure BufTrace.Holds (t : BufTrace) (held : Option Lbuf → Prop) : Prop where
  custody : Custody t.transfers held
  numbered : ∀ lbp, Transfer.take lbp ∈ t.transfers →
      ∃ buf : Lbuf, lbp = some buf ∧ buf.index < t.obtained

namespace BufTrace.Holds

variable {t : BufTrace} {held held' : Option Lbuf → Prop}

theorem empty : BufTrace.empty.Holds fun _ => False := by
  refine ⟨Custody.nil, fun lbp isTaken => ?_⟩
  cases isTaken

theorem congr (holds : t.Holds held) (same : ∀ lbp, held' lbp ↔ held lbp) : t.Holds held' :=
  ⟨holds.custody.congr same, holds.numbered⟩

section

variable (holds : t.Holds held)
include holds

theorem fresh (bn : Nat) : Transfer.take (some (t.lbuf bn)) ∉ t.transfers := by
  intro isTaken
  obtain ⟨buf, isBuf, below⟩ := holds.numbered _ isTaken
  cases isBuf
  exact Nat.lt_irrefl _ below

theorem index_lt {buf : Lbuf} (isHeld : held (some buf)) : buf.index < t.obtained := by
  obtain ⟨other, isOther, below⟩ := holds.numbered _ (holds.custody.mem_of_held isHeld)
  cases isOther
  exact below

theorem lbread (bn : Nat) : (t.lbread bn).Holds fun lbp =>
    held lbp ∨ lbp = some (t.lbuf bn) := by
  have transfers : (t.lbread bn).transfers = t.transfers ++ [.take (some (t.lbuf bn))] := map_append
  refine ⟨?_, fun lbp isTaken => ?_⟩
  · rw [transfers]
    exact holds.custody.take (holds.fresh bn)
  · rw [transfers, mem_append, mem_singleton] at isTaken
    cases isTaken with
    | inl before =>
      obtain ⟨buf, isBuf, below⟩ := holds.numbered lbp before
      exact ⟨buf, isBuf, Nat.lt_succ_of_lt below⟩
    | inr isNew => exact ⟨t.lbuf bn, Transfer.take.inj isNew, Nat.lt_succ_self _⟩

variable {lbp : Option Lbuf}

theorem giveBack {t' : BufTrace} (transfers : t'.transfers = t.transfers ++ [.giveBack lbp])
    (obtained : t'.obtained = t.obtained) (isHeld : held lbp) :
    t'.Holds fun other => held other ∧ other ≠ lbp := by
  refine ⟨?_, fun other isTaken => ?_⟩
  · rw [transfers]
    exact holds.custody.giveBack isHeld
  · rw [transfers, mem_append, mem_singleton] at isTaken
    rw [obtained]
    cases isTaken with
    | inl before => exact holds.numbered other before
    | inr isNew => cases isNew

theorem lbrelse (isHeld : held lbp) :
    (t.lbrelse lbp).Holds fun other => held other ∧ other ≠ lbp :=
  holds.giveBack map_append rfl isHeld

theorem fatWrite (waitonfat : Bool) (isHeld : held lbp) :
    (t.fatWrite waitonfat lbp).Holds fun other => held other ∧ other ≠ lbp := by
  refine holds.giveBack ?_ rfl isHeld
  cases waitonfat <;> exact map_append

theorem copy (waitonfat : Bool) (bn : Nat) :
    ((t.lgetblk bn).fatWrite waitonfat (some (t.lbuf bn))).Holds held := by
  have asRead : (t.lgetblk bn).Holds fun lbp => held lbp ∨ lbp = some (t.lbuf bn) :=
    have transfers : (t.lgetblk bn).transfers = (t.lbread bn).transfers := by
      unfold BufTrace.transfers BufTrace.lgetblk BufTrace.lbread
      rw [map_append, map_append]
      rfl
    ⟨transfers ▸ (holds.lbread bn).custody, transfers ▸ (holds.lbread bn).numbered⟩
  refine (asRead.fatWrite waitonfat (.inr rfl)).congr fun lbp => ?_
  have notHeld : ¬held (some (t.lbuf bn)) := fun isHeld =>
    holds.fresh bn (holds.custody.mem_of_held isHeld)
  constructor
  · intro isHeld
    exact ⟨.inl isHeld, fun isNew => notHeld (isNew ▸ isHeld)⟩
  · rintro ⟨wasHeld | isNew, notNew⟩
    · exact wasHeld
    · exact absurd isNew notNew

end

end BufTrace.Holds

theorem copyFatsBufs_holds {held : Option Lbuf → Prop} (waitonfat : Bool) (fatsecs : Nat)
    (bp1 : Bool) (count fatbn : Nat) {t : BufTrace} (holds : t.Holds held) :
    (copyFatsBufs waitonfat fatsecs bp1 count fatbn t).Holds held := by
  induction count generalizing fatbn t with
  | zero => exact holds
  | succ count ih =>
    have first := holds.copy waitonfat (fatbn + fatsecs)
    refine ih (fatbn + fatsecs) ?_
    cases bp1 with
    | false => exact first
    | true => exact first.copy waitonfat (fatbn + fatsecs + 1)

/-- Two buffers that are held, in the order in which they were obtained. -/
def heldPair (bp0 : Lbuf) (bp1 : Option Lbuf) (lbp : Option Lbuf) : Prop :=
  lbp = some bp0 ∨ lbp = bp1 ∧ bp1 ≠ none

theorem heldPair_one {bp0 : Lbuf} (lbp : Option Lbuf) :
    False ↔ heldPair bp0 none lbp ∧ lbp ≠ some bp0 := by
  refine ⟨False.elim, ?_⟩
  rintro ⟨isFirst | ⟨-, noSecond⟩, notFirst⟩
  · exact notFirst isFirst
  · exact noSecond rfl

theorem heldPair_two {bp0 bp1 : Lbuf} (lbp : Option Lbuf) : False ↔
    (heldPair bp0 (some bp1) lbp ∧ lbp ≠ some bp0) ∧ lbp ≠ some bp1 := by
  refine ⟨False.elim, ?_⟩
  rintro ⟨⟨isFirst | ⟨isSecond, -⟩, notFirst⟩, notSecond⟩
  · exact notFirst isFirst
  · exact notSecond isSecond

theorem fatentrySetBufs_holds {waitonfat : Bool} {function whichblk : Nat}
    {bp0 : Lbuf} {bp1 : Option Lbuf} {t : BufTrace} (different : bp1 ≠ some bp0)
    (holds : t.Holds (heldPair bp0 bp1)) :
    (fatentrySetBufs waitonfat pvp function whichblk bp0 bp1 t).Holds fun _ => False := by
  have isHeld : ∀ second, bp1 = some second →
      heldPair bp0 bp1 (some second) ∧ some second ≠ some bp0 := by
    intro second isSecond
    rw [isSecond] at different ⊢
    exact ⟨.inr ⟨rfl, some_ne_none second⟩, different⟩
  simp only [fatentrySetBufs]
  split
  · have copied := copyFatsBufs_holds waitonfat pvp.vfsFatsecs bp1.isSome
        (pvp.vfsFats - 1) whichblk holds
    have first := copied.fatWrite waitonfat (.inl rfl)
    cases bp1 with
    | none => exact first.congr heldPair_one
    | some second => exact (first.fatWrite waitonfat (isHeld second rfl)).congr heldPair_two
  · have first := holds.lbrelse (.inl rfl)
    cases bp1 with
    | none => exact first.congr heldPair_one
    | some second => exact (first.lbrelse (isHeld second rfl)).congr heldPair_two

/-- The read of the second block of an entry fails behind one that did not. -/
def SecondReadFails (lgeterror : Lbuf → Option Errno) (pvp : DosfsVfs) (cluster : Nat)
    (t : BufTrace) : Prop :=
  fatentryStraddles pvp cluster = true ∧ lgeterror (t.lbuf (fatentryBlk pvp cluster)) = none ∧
    lgeterror ((t.lbread (fatentryBlk pvp cluster)).lbuf (fatentryBlk pvp cluster + 1)) ≠ none

section Fatentry

variable {lgeterror : Lbuf → Option Errno} {waitonfat : Bool}
  {pvp : DosfsVfs} {function cluster : Nat} {t : BufTrace}

theorem fatentryReadBufs_holds (holds : t.Holds fun _ => False)
    (reads : ¬SecondReadFails lgeterror pvp cluster t) :
    (fatentryReadBufs lgeterror waitonfat pvp function cluster t).2.Holds fun _ => False := by
  have first := holds.lbread (fatentryBlk pvp cluster)
  simp only [fatentryReadBufs]
  cases firstError : lgeterror (t.lbuf (fatentryBlk pvp cluster)) with
  | some error =>
    refine (first.lbrelse (.inr rfl)).congr fun lbp => ?_
    tauto
  | none =>
    cases straddles : fatentryStraddles pvp cluster with
    | false =>
      refine fatentrySetBufs_holds (some_ne_none _).symm (first.congr fun lbp => ?_)
      unfold heldPair
      tauto
    | true =>
      have both := first.lbread (fatentryBlk pvp cluster + 1)
      simp only [if_true]
      split
      next error secondError =>
        refine absurd ⟨straddles, firstError, ?_⟩ reads
        rw [secondError]
        exact some_ne_none error
      next secondError =>
        refine fatentrySetBufs_holds ?_ (both.congr fun lbp => ?_)
        · intro same
          have sameIndex := congrArg Lbuf.index (some.inj same)
          exact absurd sameIndex (Nat.succ_ne_self _)
        · unfold heldPair
          tauto

theorem fatentryReadBufs_keeps (holds : t.Holds fun _ => False)
    (fails : SecondReadFails lgeterror pvp cluster t) :
    (fatentryReadBufs lgeterror waitonfat pvp function cluster t).2.Holds
      fun lbp => lbp = some (t.lbuf (fatentryBlk pvp cluster)) := by
  obtain ⟨straddles, firstError, secondError⟩ := fails
  have both := (holds.lbread (fatentryBlk pvp cluster)).lbread (fatentryBlk pvp cluster + 1)
  have kept := both.lbrelse (.inr rfl)
  simp only [fatentryReadBufs, firstError, straddles, if_true]
  split
  next error _ =>
    refine kept.congr fun lbp => ?_
    have different : lbp = some (t.lbuf (fatentryBlk pvp cluster)) → lbp ≠
        some ((t.lbread (fatentryBlk pvp cluster)).lbuf (fatentryBlk pvp cluster + 1)) := by
      intro isFirst isSecond
      rw [isFirst] at isSecond
      have sameIndex := congrArg Lbuf.index (some.inj isSecond)
      exact absurd sameIndex (Nat.succ_ne_self _).symm
    tauto
  next noError => exact absurd noError secondError

end Fatentry

/-- The buffer of the last round is held. -/
def heldOne (bp0 lbp : Option Lbuf) : Prop := lbp = bp0 ∧ bp0 ≠ none

section Fillinusemap

variable {lgeterror : Lbuf → Option Errno} {pvp : DosfsVfs} {bp0 : Option Lbuf} {t : BufTrace}

theorem BufTrace.Holds.release (holds : t.Holds (heldOne bp0)) :
    (t.release bp0).Holds fun _ => False := by
  cases bp0 with
  | none =>
    refine holds.congr fun lbp => ⟨False.elim, ?_⟩
    rintro ⟨-, isSome⟩
    exact isSome rfl
  | some buf =>
    refine (holds.lbrelse ⟨rfl, some_ne_none buf⟩).congr fun lbp => ⟨False.elim, ?_⟩
    rintro ⟨⟨isBuf, -⟩, notBuf⟩
    exact notBuf isBuf

theorem fillFirstBufs_holds {whichblk : Nat} (holds : t.Holds (heldOne bp0)) :
    (fillFirstBufs lgeterror whichblk bp0 t).2.1 ≠ none ∧
      (fillFirstBufs lgeterror whichblk bp0 t).2.2.Holds
        (heldOne (fillFirstBufs lgeterror whichblk bp0 t).2.1) := by
  unfold fillFirstBufs
  split
  next same =>
    refine ⟨?_, holds⟩
    rintro rfl
    cases same
  next =>
    refine ⟨some_ne_none _, ?_⟩
    refine (holds.release.lbread whichblk).congr fun lbp => ?_
    exact ⟨fun isNew => .inr isNew.1, fun isNew => ⟨isNew.resolve_left id, some_ne_none _⟩⟩

theorem BufTrace.Holds.nextHeld (holds : t.Holds (heldOne bp0)) (isSome : bp0 ≠ none) (bn : Nat) :
    ((t.lbread bn).lbrelse bp0).Holds (heldOne (some (t.lbuf bn))) := by
  refine ((holds.lbread bn).lbrelse (.inl ⟨rfl, isSome⟩)).congr fun lbp => ?_
  constructor
  · rintro ⟨isNew, -⟩
    refine ⟨.inr isNew, fun isFirst => ?_⟩
    have below := holds.index_lt ⟨isNew ▸ isFirst, isSome⟩
    exact Nat.lt_irrefl _ below
  · rintro ⟨⟨isFirst, -⟩ | isNew, notFirst⟩
    · exact absurd isFirst notFirst
    · exact ⟨isNew, some_ne_none _⟩

theorem fillLoopBufs_holds (hasBuffer : count = 0 → bp0 ≠ none)
    (holds : t.Holds (heldOne bp0)) :
    (fillLoopBufs lgeterror pvp count cn bp0 t).2.Holds fun _ => False := by
  induction count generalizing cn bp0 t with
  | zero =>
    refine (holds.lbrelse ⟨rfl, hasBuffer rfl⟩).congr fun lbp => ⟨False.elim, ?_⟩
    rintro ⟨⟨isBuf, -⟩, notBuf⟩
    exact notBuf isBuf
  | succ count ih =>
    have first := @fillFirstBufs_holds lgeterror bp0 t (fillBlk pvp cn) holds
    simp only [fillLoopBufs]
    generalize fillFirstBufs lgeterror (fillBlk pvp cn) bp0 t = fetched at first
    obtain ⟨firstError, bp, next⟩ := fetched
    obtain ⟨isSome, firstHolds⟩ := first
    dsimp only at isSome firstHolds
    cases firstError with
    | some error => exact firstHolds.release
    | none =>
      simp only
      split
      next =>
        have second := firstHolds.nextHeld isSome (fillBlk pvp cn + 1)
        split
        next error _ =>
          obtain ⟨buf, isBuf⟩ := Option.ne_none_iff_exists'.mp isSome
          rw [isBuf] at second ⊢
          exact second.release
        next => exact ih (fun _ => some_ne_none _) second
      next => exact ih (fun _ => isSome) firstHolds

end Fillinusemap

/--
The condition: no call for an entry fails at its second block, and the volume has a
cluster for `fillinusemap` to look at.
-/
def FatCall.ReadsOrNone (lgeterror : Lbuf → Option Errno) (pvp : DosfsVfs) : FatCall → Prop
  | .fatentry function cluster oldcontents =>
    fatentryAccepts pvp function cluster oldcontents = true →
      ¬SecondReadFails lgeterror pvp cluster .empty
  | .fillinusemap => clustFirst ≤ pvp.vfsMaxcluster
  | .updateotherfats _ _ => True

theorem BufTrace.Holds.allGivenBack {t : BufTrace} (holds : t.Holds fun _ => False) :
    AllGivenBack t.transfers :=
  holds.custody.allGivenBack fun _ => id

theorem fillinusemapBufs_null {lgeterror : Lbuf → Option Errno}
    (noCluster : ¬clustFirst ≤ pvp.vfsMaxcluster) :
    ¬AllGivenBack (fillinusemapBufs lgeterror pvp .empty).2.transfers := by
  have noRound : pvp.vfsMaxcluster + 1 - clustFirst = 0 := by omega
  rw [fillinusemapBufs, noRound]
  intro allReturned
  cases allReturned.own none [] [] rfl

/-- A volume with 12-bit entries. -/
def smallFat : DosfsVfs where
  vfsFatblk := 1
  vfsFatsecs := 2
  vfsFats := 2
  vfsRootdirblk := 5
  vfsRootdirsize := 14
  vfsFirstcluster := 19
  vfsSectPerClust := 1
  vfsCnshift := 9
  vfsCrbomask := 0x1ff
  vfsBpcluster := 512
  vfsRdonly := false
  vfsMaxcluster := 400
  vfsFreeclustercount := 0
  vfsInusemap := fun _ => 0
  device := fun _ => 0

/-- The second block of the FAT cannot be read. -/
def secondBlockBad (lbp : Lbuf) : Option Errno :=
  if lbp.bn = 2 then some EIO else none

end Uw7.Dosfs
