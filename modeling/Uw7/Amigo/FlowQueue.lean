import Mathlib.Data.List.Sort

/-!
# Building the flow graph

One pass over the intermediate code queue cuts it into blocks, notes where the
labels and the branches are, and then sends branches to jumps where the jumps
go and adds the edges of the branches.
-/

open Function

namespace Uw7.Amigo.Flow

/-- The items of the queue, as far as they pass or keep control. -/
inductive CgqItem where
  | nd1
  | fixSwbeg
  | cbranch (label : Nat)
  | ret
  | jump (label : Nat)
  | labelOp (label : Nat)
  | swend (cases : List Nat) (default? : Option Nat)
  | setlocctr
  | setlocctrInt
  | dbSBlock
  | dbEBlock
  | other
deriving DecidableEq

def CgqItem.hasNd1 : CgqItem → Bool
  | .nd1 | .fixSwbeg | .cbranch _ | .ret => true
  | _ => false

/-- A basic block: the positions of its first and last item, and its lists. -/
structure Block where
  first : Nat
  last : Nat
  succ : List Nat
  pred : List Nat
deriving DecidableEq

/-- What is known of a label. -/
structure LabelDescriptor where
  block : Option Nat
  mapLabel : Option Nat
deriving DecidableEq

inductive BranchTree where
  | cbranch
  | jump
  | swcase
  | swend
deriving DecidableEq

/-- A branch: its target, its block, and its tree at a position of the queue. -/
structure BranchDescriptor where
  targetLabel : Nat
  block : Nat
  tree : BranchTree
  place : Nat
deriving DecidableEq

/-- The running state of the pass; the current block is the last one made. -/
structure Scan where
  blocks : Nat → Block
  count : Nat
  curlyLevel : Int
  lastLabelSeen : Option Nat
  lastIndex : Nat
  labelTable : Nat → LabelDescriptor
  branches : List BranchDescriptor
  deleted : Nat → Bool

def Scan.current (scan : Scan) : Block := scan.blocks scan.count

/-- The pass before the first item. -/
def Scan.start : Scan where
  blocks := fun _ => ⟨0, 0, [], []⟩
  count := 1
  curlyLevel := 0
  lastLabelSeen := none
  lastIndex := 0
  labelTable := fun _ => ⟨none, none⟩
  branches := []
  deleted := fun _ => false

/-- The current block ends and a new one begins, after it or not. -/
def Scan.newBlock (scan : Scan) (last : Nat) (prevIsPred : Bool) (index : Nat) : Scan :=
  { scan with
    count := scan.count + 1
    blocks := fun number =>
      if number = scan.count then
        { scan.blocks number with
          last := last
          succ :=
            if prevIsPred then [scan.count + 1]
            else (scan.blocks number).succ }
      else if number = scan.count + 1 then
        ⟨index, index, [], if prevIsPred then [scan.count] else []⟩
      else scan.blocks number }

/-- A branch of the current block is entered in the table. -/
def Scan.enterBranch (scan : Scan) (index : Nat) (tree : BranchTree) (label : Nat) : Scan :=
  { scan with
    branches := scan.branches ++ [⟨label, scan.count, tree, index⟩] }

/-- A block marker is deleted; a block that began with it begins behind it. -/
def Scan.deleteMarker (scan : Scan) (index : Nat) : Scan :=
  { scan with
    deleted := update scan.deleted index true
    blocks := update scan.blocks scan.count
        { scan.current with
          first :=
            if scan.current.first = index then index + 1
            else scan.current.first
          last :=
            if scan.current.last = index then index + 1
            else scan.current.last } }

/-- A label that is seen, in the current block. -/
def Scan.seeLabel (scan : Scan) (label : Nat) : Scan :=
  { scan with
    lastLabelSeen := some label
    labelTable := update scan.labelTable label
        { scan.labelTable label with block := some scan.count } }

/-- A jump behind a label: any branch to the label is a jump to a jump. -/
def Scan.mapLabelSeen (scan : Scan) (target : Nat) : Scan :=
  match scan.lastLabelSeen with
  | none => scan
  | some label =>
    { scan with
      lastLabelSeen := none
      labelTable := update scan.labelTable label
          { scan.labelTable label with mapLabel := some target } }

/-- What an item does to the blocks, and whether it is deleted. -/
def Scan.item (scan : Scan) (itemAt : Nat → CgqItem) (index : Nat) : Scan × Bool :=
  match itemAt index with
  | .setlocctr =>
    if scan.current.first ≠ index then
      (scan.newBlock scan.lastIndex true index, false)
    else (scan, false)
  | .dbSBlock =>
    let opened := { scan with curlyLevel := scan.curlyLevel + 1 }
    if 0 < scan.curlyLevel then (opened.deleteMarker index, true)
    else (opened, false)
  | .dbEBlock =>
    let closed := { scan with curlyLevel := scan.curlyLevel - 1 }
    if 0 < closed.curlyLevel then (closed.deleteMarker index, true)
    else (closed, false)
  | .swend cases default? =>
    let entered := cases.foldl (fun reached => reached.enterBranch index .swcase) scan
    match default? with
    | some label =>
      ((entered.enterBranch index .swend label).newBlock index false (index + 1), false)
    | none => (entered.newBlock index true (index + 1), false)
  | .jump label =>
    (((scan.enterBranch index .jump label).newBlock index false
      (index + 1)).mapLabelSeen label, false)
  | .cbranch label =>
    ((scan.enterBranch index .cbranch label).newBlock index true (index + 1), false)
  | .labelOp label =>
    if scan.current.first ≠ index ∧ ¬(scan.lastIndex = scan.current.first ∧
        itemAt scan.lastIndex = .setlocctrInt) then
      ((scan.newBlock scan.lastIndex true index).seeLabel label, false)
    else (scan.seeLabel label, false)
  | .ret => (scan.newBlock index false (index + 1), false)
  | .nd1 | .fixSwbeg | .setlocctrInt | .other => (scan, false)

/-- One round of the pass. -/
def Scan.step (scan : Scan) (itemAt : Nat → CgqItem) (index : Nat) : Scan :=
  let cleared :=
    if (itemAt index).hasNd1 then { scan with lastLabelSeen := none }
    else scan
  let done := cleared.item itemAt index
  if done.2 then done.1 else { done.1 with lastIndex := index }

/-- The pass over the first items. -/
def scanItems (itemAt : Nat → CgqItem) : Nat → Scan
  | 0 => Scan.start
  | index + 1 => (scanItems itemAt index).step itemAt index

/-- The last block ends with the last item kept. -/
def Scan.finish (scan : Scan) : Scan :=
  { scan with
    blocks := update scan.blocks scan.count { scan.current with last := scan.lastIndex } }

/-- The queue and the blocks made from it. -/
structure FlowGraph where
  itemAt : Nat → CgqItem
  deleted : Nat → Bool
  blocks : Nat → Block
  count : Nat

/-- A branch tree with another target. -/
def CgqItem.relabel (item : CgqItem) (label : Nat) : CgqItem :=
  match item with
  | .cbranch _ => .cbranch label
  | .jump _ => .jump label
  | _ => item

/-- A branch to a jump goes where the jump goes; the entries of a switch table
are left alone. -/
def retargetBranch (table : Nat → LabelDescriptor) (branch : BranchDescriptor) : BranchDescriptor :=
  match branch.tree with
  | .cbranch | .jump =>
    { branch with
      targetLabel := (table branch.targetLabel).mapLabel.getD branch.targetLabel }
  | .swcase | .swend => branch

def retargetTree (table : Nat → LabelDescriptor) (itemAt : Nat → CgqItem)
    (branch : BranchDescriptor) : Nat → CgqItem :=
  match branch.tree with
  | .cbranch | .jump =>
    update itemAt branch.place ((itemAt branch.place).relabel
        (retargetBranch table branch).targetLabel)
  | .swcase | .swend => itemAt

def removeJumpToJump (table : Nat → LabelDescriptor) (branches : List BranchDescriptor)
    (itemAt : Nat → CgqItem) : List BranchDescriptor × (Nat → CgqItem) :=
  (branches.map (retargetBranch table), branches.foldl (retargetTree table) itemAt)

/-- The edge of a branch, in both lists. -/
def addEdge (blocks : Nat → Block) (source target : Nat) : Nat → Block :=
  let left := update blocks source { blocks source with succ := target :: (blocks source).succ }
  update left target { left target with pred := source :: (left target).pred }

def resolveBranch (table : Nat → LabelDescriptor) (blocks : Nat → Block)
    (branch : BranchDescriptor) : Nat → Block :=
  match (table branch.targetLabel).block with
  | some target => addEdge blocks branch.block target
  | none => blocks

/-- The edges of the branches, sorted on their labels. -/
def resolve (table : Nat → LabelDescriptor) (branches : List BranchDescriptor)
    (blocks : Nat → Block) : Nat → Block :=
  (branches.mergeSort fun left right =>
    left.targetLabel ≤ right.targetLabel).foldl (resolveBranch table) blocks

def allResolved (table : Nat → LabelDescriptor) (branches : List BranchDescriptor) : Bool :=
  branches.all fun branch => (table branch.targetLabel).block.isSome

/-- `basic_block`, which gives up on a branch to nowhere. -/
def basicBlock (size : Nat) (itemAt : Nat → CgqItem) : Option FlowGraph :=
  let scan := (scanItems itemAt size).finish
  if ¬allResolved scan.labelTable scan.branches then none
  else
    let removed := removeJumpToJump scan.labelTable scan.branches itemAt
    if ¬allResolved scan.labelTable removed.1 then none
    else
      some
        { itemAt := removed.2
          deleted := scan.deleted
          blocks := resolve scan.labelTable removed.1 scan.blocks
          count := scan.count }

end Uw7.Amigo.Flow
