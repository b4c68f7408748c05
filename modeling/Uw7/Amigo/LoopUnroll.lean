import Uw7.Amigo.LoopType

/-!
# The code loop unrolling builds

The three transformations of an innermost counted loop.  A copy of the body
reads a mapped tree in place of the counter; the counter is bumped behind a
group of copies, unless the copies keep their updates.
-/

namespace Uw7.Amigo

open LabelCode

def clusterSize : Nat := 4

/-- The constant a copy of a completely unrolled loop reads, by the number of
times it was reset. -/
def counterVal (loop : CountedLoop) : Nat → Int
  | 0 => loop.beginValue
  | iteration + 1 => wrap32 (counterVal loop iteration + loop.increment)

/-- The tree a copy reads for the counter. -/
def nameMap (flags : LoopFlags) (loop : CountedLoop) (iteration : Nat) : Tree :=
  if flags.leaveCounterIncr then .counter
  else if flags.invarLimits then
    if iteration = 0 then .counter
    else .counterPlus (wrap32 (iteration * loop.increment))
  else .icon (counterVal loop iteration)

/-- One copy of the body; the update is copied only where it is kept. -/
def copyLoopBody (flags : LoopFlags) (loop : CountedLoop) (iteration : Nat) : List Action :=
  .body (nameMap flags loop iteration) ::
    ((if flags.leaveCounterIncr then [.asgPlus loop.increment] else []) ++
      loop.behind (nameMap flags loop iteration))

/-- The copies of the iterations from zero. -/
def copies (flags : LoopFlags) (loop : CountedLoop) (number : Nat) : List Action :=
  (List.range number).flatMap (copyLoopBody flags loop)

/-- The update for several iterations at once. -/
def bumpCounters (flags : LoopFlags) (loop : CountedLoop) (multiple : Nat) : List Action :=
  if flags.leaveCounterIncr then []
  else [.asgPlus (wrap32 (multiple * loop.increment))]

/-- The relation under which a loop of a pattern goes on. -/
def relopOf (branch : BranchType) (increment : Int) : Relop :=
  match branch with
  | .notLe => .le
  | .notLt => .lt
  | .notGe => .ge
  | .notGt => .gt
  | _ => if 0 < increment then .lt else .gt

/-- The relation under which a loop of a pattern ends. -/
def endRelopOf (branch : BranchType) (increment : Int) : Relop :=
  match branch with
  | .notLe => .gt
  | .notLt => .ge
  | .notGe => .lt
  | .notGt => .le
  | _ => if 0 < increment then .ge else .le

/-- The tree the counter is compared with in the new tests. -/
def endTree (loop : CountedLoop) : Tree := loop.test.endLimit.getD (.icon 0)

/-- The guard's temporary: the limit less three increments. -/
def genTempInit (loop : CountedLoop) (branch : BranchType) : Action :=
  .tempInit (if branch = .notName then none else loop.test.endLimit)
    (wrap32 (-(((clusterSize - 1 : Nat) : Int) * loop.increment)))

def newLabel (loop : CountedLoop) (number : Nat) : Nat := loop.label + number

/-- The items before the cluster of a loop with run-time limits. -/
def partialHead (loop : CountedLoop) (type : LoopType) : List Action :=
  copies type.flags loop 1 ++ bumpCounters type.flags loop 1 ++
    [genTempInit loop type.branch, .osLoop .lstart]

/-- Four copies and their update. -/
def clusterActions (loop : CountedLoop) (flags : LoopFlags) : List Action :=
  copies flags loop clusterSize ++ bumpCounters flags loop clusterSize ++ [.osLoop .lcond]

/-- What is left of the original loop behind the cluster. -/
def partialTail (loop : CountedLoop) (type : LoopType) : List QueueItem :=
  [.label (newLabel loop 2), .cbranch (.compare (relopOf type.branch loop.increment) (endTree loop))
      (newLabel loop 3),
    .label loop.label] ++ loop.trip.map .act ++
    [.cbranch loop.test loop.label, .label (newLabel loop 3)]

/-- The cluster of a loop with run-time limits, and all that follows it. -/
def partialCluster (loop : CountedLoop) (type : LoopType) : List QueueItem :=
  (clusterActions loop type.flags).map .act ++ .cbranch
      (.compare (endRelopOf type.branch loop.increment) .temp) (newLabel loop 1) ::
    (([.osLoop .lend, .endSpill].map .act) ++ partialTail loop type)

/-- A loop with run-time limits, run in clusters of four. -/
def partialUnroll (loop : CountedLoop) (type : LoopType) : List QueueItem :=
  (partialHead loop type).map .act ++ .cbranch (.compare (relopOf type.branch loop.increment) .temp)
      (newLabel loop 2) ::
    (([.startSpill, .osLoop .lbody].map .act) ++
      .label (newLabel loop 1) :: partialCluster loop type)

def partialConstCluster (loop : CountedLoop) (type : LoopType) : List QueueItem :=
  (clusterActions loop type.flags).map .act ++ .cbranch
      (.compare (endRelopOf type.branch loop.increment) (endTree loop)) (newLabel loop 1) ::
    [.osLoop .lend, .endSpill].map .act

def tailCount (type : LoopType) : Nat := (type.iterations.tmod clusterSize).toNat

/-- The items before the cluster of a loop with constant limits. -/
def partialConstHead (loop : CountedLoop) (type : LoopType) : List Action :=
  copies type.flags loop (tailCount type) ++ (if tailCount type = 0 then []
    else bumpCounters type.flags loop (tailCount type)) ++
    [.osLoop .lstart, .startSpill, .osLoop .lbody]

/-- A loop with constant limits, run in clusters of four. -/
def partialConstUnroll (loop : CountedLoop) (type : LoopType) : List QueueItem :=
  (partialConstHead loop type).map .act ++ .label (newLabel loop 1) :: partialConstCluster loop type

/-- A loop with constant limits as straight-line code. -/
def completeUnroll (loop : CountedLoop) (type : LoopType) : List QueueItem :=
  (copies type.flags loop type.iterations.toNat ++
    [Action.assign (counterVal loop type.iterations.toNat)]).map Item.act

def loopUnrolling (thresholds : Thresholds) (loop : CountedLoop) : List QueueItem :=
  let type := loopType thresholds loop
  match unrollingOf thresholds loop with
  | some .partialUnroll => partialUnroll loop type
  | some .partialConstUnroll => partialConstUnroll loop type
  | some .completeUnroll => completeUnroll loop type
  | none => loop.source

end Uw7.Amigo
