import Uw7.Amigo.LoopCode

/-!
# Which loops are unrolled, and how

The classification of an innermost loop: the pattern of its test, whether its
limits are constant, and the number of iterations of a constant loop.
-/

namespace Uw7.Amigo

/-- The pattern of a loop's test: the loop goes on while it holds. -/
inductive BranchType where
  | unknown
  | notLe
  | notLt
  | notGe
  | notGt
  | notNe
  | notName
deriving DecidableEq

structure LoopFlags where
  noUnroll : Bool
  constLimits : Bool
  invarLimits : Bool
  leaveCounterIncr : Bool
deriving DecidableEq

/-- No flag is set. -/
def LoopFlags.none : LoopFlags := ⟨false, false, false, false⟩

/-- `NO_UNROLL` alone. -/
def LoopFlags.noUnrolling : LoopFlags := ⟨true, false, false, false⟩

/-- `CONST_LIMITS` alone. -/
def LoopFlags.constant : LoopFlags := ⟨false, true, false, false⟩

/-- `INVAR_LIMITS` alone. -/
def LoopFlags.invariant : LoopFlags := ⟨false, false, true, false⟩

def minIterations : Int := 1

/-- The thresholds of the cost model. -/
structure Thresholds where
  luLSizeThreshold : Int
  luThreshold : Int

/-- A constant as a `long`, unless it is too big for one. -/
def numToslong (value : Int) : Option Int :=
  if FitsLong value then some value else Option.none

/-- The pattern of a comparison, below a `NOT` or not. -/
def branchTypeOf (belowNot : Bool) : Relop → Option BranchType
  | .ne => if belowNot then some .notNe else Option.none
  | .eq => if belowNot then Option.none else some .notNe
  | .lt => some (if belowNot then .notLt else .notGe)
  | .le => some (if belowNot then .notLe else .notGt)
  | .gt => some (if belowNot then .notGt else .notLe)
  | .ge => some (if belowNot then .notGe else .notLt)
  | _ => Option.none

/-- The flags and the pattern of a comparison with a limit. -/
def compareTestType (belowNot : Bool) (op : Relop) (right : Tree) : LoopFlags × BranchType :=
  match right with
  | .icon value =>
    match numToslong value with
    | Option.none => (.noUnrolling, .unknown)
    | some _ =>
      match branchTypeOf belowNot op with
      | some branch => (.constant, branch)
      | Option.none => (.noUnrolling, .unknown)
  | .invariant =>
    match branchTypeOf belowNot op with
    | some branch => (.invariant, branch)
    | Option.none => (.noUnrolling, .unknown)
  | _ => (.noUnrolling, .unknown)

def getTestType : Test → LoopFlags × BranchType
  | .name => (.noUnrolling, .unknown)
  | .not .name => (.constant, .notName)
  | .compare op right => compareTestType false op right
  | .not (.compare op right) => compareTestType true op right
  | .not (.not _) => (.noUnrolling, .unknown)

/-- Whether the counter starts from a constant: a start too big for a `long`
is passed over by the search, which then finds no constant. -/
def getInitialType (beginLimit : Tree) : LoopFlags :=
  match beginLimit with
  | .icon value =>
    match numToslong value with
    | Option.none => .invariant
    | some _ => .constant
  | _ => .invariant

/-- The constant the counter starts from. -/
def CountedLoop.beginValue (loop : CountedLoop) : Int :=
  match loop.beginLimit with
  | .icon value => value
  | _ => 0

/-- The constant the counter is compared with; a bare name is compared with
zero. -/
def CountedLoop.endValue (loop : CountedLoop) : Int :=
  match loop.test.endLimit with
  | some (.icon value) => value
  | _ => 0

/-- The macro `COUNT`, in 32-bit arithmetic. -/
def count (low high increment : Int) : Int :=
  if 0 < increment then
    if low < high then wrap32 ((wrap32 (high - low)).tdiv increment + 1)
    else 0
  else 0

/-- The number of iterations of a loop with constant limits. -/
def iterations (branch : BranchType) (low high increment : Int) : Int :=
  match branch with
  | .notLe => count low high increment
  | .notGe => count (wrap32 (-low)) (wrap32 (-high)) (wrap32 (-increment))
  | .notName | .notNe =>
    if (wrap32 (low - high)).tmod increment ≠ 0 then 0
    else if 0 < increment ∧ low < high then
      count low (wrap32 (high - 1)) increment
    else if increment < 0 ∧ high < low then
      count (wrap32 (-low)) (wrap32 (wrap32 (-high) - 1)) (wrap32 (-increment))
    else 0
  | .notLt => count low (wrap32 (high - 1)) increment
  | .notGt => count (wrap32 (-low)) (wrap32 (wrap32 (-high) - 1)) (wrap32 (-increment))
  | .unknown => 0

/-- What `loop_type` leaves: the flags, the pattern and the iterations. -/
structure LoopType where
  flags : LoopFlags
  branch : BranchType
  iterations : Int
deriving DecidableEq

/-- The flags of a loop with constant limits, by its size. -/
def constantFlags (thresholds : Thresholds) (treeCount : Nat) (rounds : Int) : LoopFlags :=
  if minIterations < rounds then
    if wrap32 (thresholds.luLSizeThreshold * thresholds.luThreshold) ≤ treeCount * rounds then
      { LoopFlags.constant with invarLimits := true }
    else .constant
  else .noUnrolling

/-- The flags of a loop with a limit known only at run time. -/
def invariantFlags (branch : BranchType) (increment : Int) : LoopFlags :=
  match branch with
  | .notLe | .notLt => if increment ≤ 0 then .noUnrolling else .invariant
  | .notGe | .notGt => if 0 ≤ increment then .noUnrolling else .invariant
  | _ => .noUnrolling

/-- A counter named between its update and the test keeps its updates, or the
loop as it is. -/
def checkCounterUpdate (usedBehindUpdate : Bool) (flags : LoopFlags) : LoopFlags :=
  if usedBehindUpdate then
    if flags = .constant then .noUnrolling
    else { flags with leaveCounterIncr := true }
  else flags

/-- The checks of the loop's shape that follow the limits. -/
def shapeFlags (loop : CountedLoop) (flags : LoopFlags) : LoopFlags :=
  if flags = .noUnrolling then .noUnrolling
  else if ¬loop.labelFound then .noUnrolling
  else if ¬loop.updateFound then .noUnrolling
  else checkCounterUpdate loop.usedBehindUpdate flags

/-- The flags the limits of a loop give it, and its iterations. -/
def limitFlags (thresholds : Thresholds) (loop : CountedLoop) (tested : LoopFlags)
    (branch : BranchType) : LoopFlags × Int :=
  if tested = .constant then
    let rounds := iterations branch loop.beginValue loop.endValue loop.increment
    (constantFlags thresholds loop.treeCount rounds, rounds)
  else if tested = .invariant then (invariantFlags branch loop.increment, 0)
  else (.noUnrolling, 0)

def loopType (thresholds : Thresholds) (loop : CountedLoop) : LoopType :=
  if loop.increment = 0 then ⟨.none, .unknown, 0⟩
  else if thresholds.luLSizeThreshold < loop.treeCount then
    ⟨.noUnrolling, .unknown, 0⟩
  else
    let found := getTestType loop.test
    let tested :=
      if found.1 = .constant then getInitialType loop.beginLimit
      else found.1
    let limited := limitFlags thresholds loop tested found.2
    ⟨shapeFlags loop limited.1, found.2, limited.2⟩

/-- Which of the three transformations a loop gets. -/
inductive Unrolling where
  | partialUnroll
  | partialConstUnroll
  | completeUnroll
deriving DecidableEq

/-- The transformation chosen by the flags; a body with a second exit is left
as it is. -/
def unrollingOf (thresholds : Thresholds) (loop : CountedLoop) : Option Unrolling :=
  let flags := (loopType thresholds loop).flags
  if ¬loop.singleExit ∨ flags.noUnroll then Option.none
  else if flags.invarLimits then
    if flags.constLimits then some .partialConstUnroll
    else some .partialUnroll
  else if flags.constLimits then some .completeUnroll
  else Option.none

end Uw7.Amigo
