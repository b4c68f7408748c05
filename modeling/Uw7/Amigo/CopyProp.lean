import Mathlib.Order.Interval.Finset.Nat
import Uw7.Amigo.Trees
import Uw7.Lib.MustSets

/-!
# Copy propagation

The copies of a function are numbered in an assign table; the copies that reach
the beginning of every block are computed over the flow graph; and then every
block is scanned, uses of the left sides of available copies are replaced by
the right sides, and the set of available copies is kept up to date.
-/

open Function

namespace Uw7.Amigo.Opt

/-- The blocks of a function: the trees of each, its lists, the blocks in the
order of the text, the blocks in depth-first order, and the first block. -/
structure FlowGraph where
  nodes : Nat → List Tree
  succ : Nat → List Nat
  pred : Nat → List Nat
  blocks : List Nat
  order : List Nat
  entry : Nat

/-- What the pass is given besides the graph: the table of expressions, the size
of the assign table and the sets, the scopes of objects, the folding of trees
and how deep replacing may go. -/
structure CopyEnv where
  table : ExprTable
  exprArraySize : Nat
  objectInScope : Nat → Nat → Nat → Bool
  fold : Tree → Tree
  fuel : Nat

/-- The assign table: the number given last, the copies by number, and the
numbers of the expressions flagged `IS_COPY`. -/
structure Copies where
  lastAssign : Nat
  assignArray : Nat → Option Tree
  copyId : Tree → Option Nat

/-- The empty assign table. -/
def Copies.none : Copies where
  lastAssign := 0
  assignArray := fun _ => .none
  copyId := fun _ => .none

def leftInfo : Tree → Tree
  | .binary _ _ left _ => left
  | .unary _ _ left => left
  | tree => tree

def rightInfo : Tree → Tree
  | .binary _ _ _ right => right
  | tree => tree

/-- A copy that has no number yet is given the next one, if the table has room
for it. -/
def Copies.enter (size : Nat) (copies : Copies) (node : Tree) : Copies :=
  match copies.copyId node with
  | some _ => copies
  | .none =>
    let last := copies.lastAssign + 1
    if last < size then
      { lastAssign := last
        assignArray := update copies.assignArray last (some node)
        copyId := update copies.copyId node (some last) }
    else { copies with lastAssign := last }

/-- The number an expression carries: that of a copy, or whatever stands in the
field of an assignment that never got one. -/
def Copies.setid (table : ExprTable) (copies : Copies) (node : Tree) : Nat :=
  (copies.copyId node).getD (table.setid node)

/-- `bv_set_bit`; a number outside the set changes memory that is no set. -/
def setBit (size number : Nat) (set : Finset Nat) : Finset Nat :=
  if 1 ≤ number ∧ number ≤ size then insert number set else set

/-- `kills_assign`: a side of the copy of a number is killed. -/
def killsAssign (table : ExprTable) (copies : Copies) (kills : Finset Nat) (assign : Nat) : Bool :=
  match copies.assignArray assign with
  | some copy =>
    decide (table.setid (leftInfo copy) ∈ kills) || decide (table.setid (rightInfo copy) ∈ kills)
  | .none => false

def isValidCopyNode (table : ExprTable) (node : Tree) (kills : Finset Nat) : Bool :=
  match node with
  | .binary .assign _ (.unary (.fld _) _ _) _ => false
  | .binary .assign _ left right =>
    if ¬table.optableForCp left then false
    else if ¬table.candidateObject left then false
    else if ¬table.optableForCp right then false
    else if table.fpType left.type && table.ieeeFp then false
    else if right.isObject then
      decide (table.cost right ≤ table.cost left) && decide (table.setid right ∉ kills)
    else if right.isConst then decide (table.cost right ≤ table.cost left)
    else if right.objectPlusConst then
      (leftInfo right).isObject && table.optable (leftInfo right) &&
        decide (table.setid (leftInfo right) ∉ kills) &&
        decide (table.cost (leftInfo right) ≤ table.cost left)
    else false
  | _ => false

def isConstCopyNode (table : ExprTable) (node : Tree) : Bool :=
  match node with
  | .binary .assign _ left right =>
    table.candidateObject left && (match right with
        | .leaf (.icon ..) _ => true
        | .leaf (.fcon _) _ => !table.ieeeFp
        | _ => false) &&
      table.optableForCp right && table.optableForCp left
  | _ => false

/-- What is known of a block: the expressions it kills and the copies that
reach its end. -/
structure LocalInfo where
  exprsKilled : Finset Nat
  reachesExit : Finset Nat

def collectNode (table : ExprTable) (size : Nat) (collected : Copies × LocalInfo)
    (node : Tree) : Copies × LocalInfo :=
  if node.containsSide then
    let kills := table.recursiveKills node
    let killed := collected.2.exprsKilled ∪ kills
    let reaches := collected.2.reachesExit.filter
        fun assign => killsAssign table collected.1 kills assign = false
    if isValidCopyNode table node kills then
      let entered := collected.1.enter size node
      (entered, ⟨killed, setBit size (entered.setid table node) reaches⟩)
    else (collected.1, ⟨killed, reaches⟩)
  else collected

def collectLocalInfo (table : ExprTable) (size : Nat) (copies : Copies)
    (nodes : List Tree) : Copies × LocalInfo :=
  nodes.foldl (collectNode table size) (copies, ⟨∅, ∅⟩)

def collectBlock (table : ExprTable) (size : Nat) (graph : FlowGraph)
    (collected : Copies × (Nat → LocalInfo)) (block : Nat) : Copies × (Nat → LocalInfo) :=
  let info := collectLocalInfo table size collected.1 (graph.nodes block)
  (info.1, update collected.2 block info.2)

def collectBlocks (table : ExprTable) (size : Nat)
    (graph : FlowGraph) : Copies × (Nat → LocalInfo) :=
  graph.blocks.foldl (collectBlock table size graph) (.none, fun _ => ⟨∅, ∅⟩)

def assignsKilled (table : ExprTable) (size : Nat) (graph : FlowGraph) (copies : Copies)
    (info : Nat → LocalInfo) (block : Nat) : Finset Nat :=
  if block ∈ graph.order then
    (Finset.Icc 1 copies.lastAssign).filter fun assign =>
      assign ≤ size ∧ killsAssign table copies (info block).exprsKilled assign = true
  else ∅

/-- The copies at the end of a block, from those at its beginning. -/
def availOut (killed reaches avin : Finset Nat) : Finset Nat := (avin \ killed) ∪ reaches

/-- The sets of `avail_in`: what all predecessors have at their ends. -/
def availProblem (graph : FlowGraph) (size : Nat)
    (killed reaches : Nat → Finset Nat) : Lib.MustSets.Problem Nat Nat where
  order := graph.order
  pred := graph.pred
  full := Finset.Icc 1 size
  pass := fun before _ avin => availOut (killed before) (reaches before) avin

/-- `avail_in`, which begins with full sets. -/
def availIn (graph : FlowGraph) (size : Nat)
    (killed reaches : Nat → Finset Nat) : Nat → Finset Nat :=
  (availProblem graph size killed reaches).fromFull

def inScope (env : CopyEnv) (block index : Nat) : Tree → Bool
  | .leaf leaf type =>
    leaf.isConst ||
      if (Tree.leaf leaf type).isObject then
        env.objectInScope block index (env.table.leafObject leaf)
      else true
  | .unary op type left =>
    if (Tree.unary op type left).isObject then
      env.objectInScope block index (env.table.objectOf (.unary op type left))
    else inScope env block index left
  | .binary _ _ left right => inScope env block index left && inScope env block index right

/-- A use that was replaced: where it stood in its tree, and the expressions
before and after. -/
structure Replacement where
  path : List Side
  before : Tree
  after : Tree
deriving DecidableEq

/-- A replacement in an operand as one in the node. -/
def Replacement.under (side : Side) (replacement : Replacement) : Replacement :=
  { replacement with path := side :: replacement.path }

/-- Whether a copy may replace a use at a place. -/
def replaces (env : CopyEnv) (block index : Nat) (context : Context) (node copy : Tree) : Bool :=
  !context.isLval && decide (node = leftInfo copy) && inScope env block index (rightInfo copy) &&
    (!(rightInfo copy).objectPlusConst || context.siblingIsConst)

/-- What a use is replaced by, if anything: the first available copy that
may replace it, with the type of the use. -/
def replacement? (env : CopyEnv) (copies : Copies) (avail : Finset Nat) (block index : Nat)
    (context : Context) (node : Tree) : Option Tree :=
  if env.table.optableForCp node && node.isObject then
    ((List.range' 1 env.exprArraySize).filter
        fun assign => decide (assign ∈ avail)).findSome? fun assign =>
      match copies.assignArray assign with
      | some copy =>
        if replaces env block index context node copy then
          some ((rightInfo copy).paint node.type)
        else .none
      | .none => .none
  else .none

/-- `find_and_replace_copies`: the tree and the uses that were replaced, which
say whether it changed. -/
def findAndReplaceCopies (env : CopyEnv) (copies : Copies) (avail : Finset Nat)
    (block index : Nat) : Nat → Context → Tree → Tree × List Replacement
  | 0, _, node => (node, [])
  | fuel + 1, context, node =>
    match replacement? env copies avail block index context node with
    | some after =>
      let rest := findAndReplaceCopies env copies avail block index fuel context after
      (rest.1, ⟨[], node, after⟩ :: rest.2)
    | .none =>
      match node with
      | .leaf leaf type => (.leaf leaf type, [])
      | .unary op type left =>
        let inner := findAndReplaceCopies env copies avail block index fuel
            (getContext (.unary op type left) .left context) left
        (.unary op type inner.1, inner.2.map (.under .left))
      | .binary op type left right =>
        let one := findAndReplaceCopies env copies avail block index fuel
            (getContext (.binary op type left right) .left context) left
        let two := findAndReplaceCopies env copies avail block index fuel
            (getContext (.binary op type one.1 right) .right context)
            right
        (.binary op type one.1 two.1, one.2.map (.under .left) ++ two.2.map (.under .right))

def killAssigns (table : ExprTable) (copies : Copies) (node : Tree)
    (avail : Finset Nat) : Finset Nat :=
  avail.filter fun assign =>
    killsAssign table copies (table.recursiveKills node) assign = false

/-- The copies that are available to the uses in a tree: for an assignment and
a call only the side effects of the right operand are taken away first. -/
def availBefore (table : ExprTable) (copies : Copies) (node : Tree)
    (avail : Finset Nat) : Finset Nat :=
  if node.containsSide then
    match node with
    | .binary .assign _ _ right | .binary .call _ _ right =>
      if right.containsSide then killAssigns table copies right avail
      else avail
    | _ => killAssigns table copies node avail
  else avail

def copyOf (table : ExprTable) (copies : Copies) (node : Tree) : Option Nat :=
  match node with
  | .binary .assign _ left _ => if table.optableForCp left then copies.copyId node else .none
  | _ => .none

/-- A tree that was done: as it is written now, with its replacements. -/
structure Done where
  node : Tree
  replacements : List Replacement
deriving DecidableEq

/-- How far a block was scanned: the table, the available copies, and the trees
that were done. -/
structure Progress where
  copies : Copies
  avail : Finset Nat
  done : List Done

def writeNode (env : CopyEnv) (block : Nat) (progress : Progress) (node : Tree) : Done :=
  let replaced := findAndReplaceCopies env progress.copies
      (availBefore env.table progress.copies node progress.avail) block
      progress.done.length env.fuel .top node
  ⟨if replaced.2 = [] then replaced.1 else env.fold replaced.1, replaced.2⟩

def enterConst (env : CopyEnv) (copies : Copies) (done : Done) : Copies :=
  if done.replacements ≠ [] ∧ isConstCopyNode env.table done.node then
    copies.enter env.exprArraySize done.node
  else copies

/-- The number of the copy that is available after a tree, if there is one. -/
def newAssign (env : CopyEnv) (before after : Copies) (node : Tree) (done : Done) : Option Nat :=
  let old := if node.containsSide then copyOf env.table before node else .none
  if done.replacements ≠ [] ∧ isConstCopyNode env.table done.node then
    (after.copyId done.node).or old
  else old

def copyPropNode (env : CopyEnv) (block : Nat) (progress : Progress) (node : Tree) : Progress :=
  let done := writeNode env block progress node
  let copies := enterConst env progress.copies done
  let before := availBefore env.table progress.copies node progress.avail
  let kept :=
    if node.containsSide then killAssigns env.table copies done.node before
    else before
  { copies := copies
    avail :=
      match newAssign env progress.copies copies node done with
      | some assign => setBit env.exprArraySize assign kept
      | .none => kept
    done := progress.done ++ [done] }

def copyPropBlock (env : CopyEnv) (block : Nat) (copies : Copies) (avin : Finset Nat)
    (nodes : List Tree) : Progress :=
  nodes.foldl (copyPropNode env block) ⟨copies, avin, []⟩

/-- What `init_copy_prop` and `avail_in` compute. -/
def avinOf (env : CopyEnv) (graph : FlowGraph) : Nat → Finset Nat :=
  let collected := collectBlocks env.table env.exprArraySize graph
  availIn graph env.exprArraySize
    (assignsKilled env.table env.exprArraySize graph collected.1 collected.2)
    fun block => (collected.2 block).reachesExit

def writeBlock (env : CopyEnv) (graph : FlowGraph) (avin : Nat → Finset Nat)
    (written : Copies × (Nat → List Done)) (block : Nat) : Copies × (Nat → List Done) :=
  let progress := copyPropBlock env block written.1 (avin block) (graph.nodes block)
  (progress.copies, update written.2 block progress.done)

/-- `copy_prop`: the table at the end, and the trees of each block. -/
def copyProp (env : CopyEnv) (graph : FlowGraph) : Copies × (Nat → List Done) :=
  graph.order.foldl (writeBlock env graph (avinOf env graph))
    ((collectBlocks env.table env.exprArraySize graph).1, fun _ => [])

end Uw7.Amigo.Opt
