import Uw7.Amigo.CopyPropSteps

/-!
# A machine of cells

A machine whose states give the values of cells and whose addresses are numbers,
with the table of expressions that numbers a list of variables and constants and
lets every side effect kill all of them.  It obeys the laws of copy propagation.
-/

namespace Uw7.Amigo.Opt

open List Function

/-- The value of a constant: a number, or the address of a symbol and an
offset. -/
def cellConstant : Leaf → Int
  | .icon value sid => sid + value
  | .fcon bits => bits
  | _ => 0

/-- The value or the place of a variable. -/
def cellLeaf (leaf : Leaf) (lval : Bool) (state : Int → Int) : Int :=
  match leaf with
  | .name sid off => if lval then sid + off else state (sid + off)
  | _ => 0

/-- What an operator of one operand gives. -/
def cellUnary (op : UnaryOp) (lval : Bool) (state : Int → Int) (value : Int) : Int :=
  match op with
  | .star => if lval then value else state value
  | _ => value

/-- What an operator of two operands gives. -/
def cellBinary (op : BinaryOp) (left right : Int) : Int :=
  match op with
  | .plus => left + right
  | .minus => left - right
  | _ => right

/-- What an operator of two operands leaves: an assignment stores. -/
def cellStored (op : BinaryOp) (state : Int → Int) (left right : Int) : Int → Int :=
  match op with
  | .assign => update state left right
  | _ => state

def cellMachine : Machine (Int → Int) Int where
  constant := fun leaf _ => cellConstant leaf
  leaf := fun leaf _ lval state => cellLeaf leaf lval state
  unary := fun op _ lval state value => cellUnary op lval state value
  binary := fun op _ _ left right => cellBinary op left right
  finishUnary := fun op _ lval before value result after =>
    result = cellUnary op lval before value ∧ after = before
  finishBinary := fun op _ _ before left right result after =>
    result = cellBinary op (left.getD 0) (right.getD 0) ∧
      after = cellStored op before (left.getD 0) (right.getD 0)

/-- Variables and constants. -/
def Tree.isPlain : Tree → Bool
  | .leaf (.name ..) _ => true
  | .leaf (.icon ..) _ => true
  | _ => false

/-- The table that numbers a list of expressions and lets every side effect
kill all of them. -/
def cellTable (numbered : List Tree) : ExprTable where
  setid := fun tree => numbered.idxOf tree + 1
  numbered := fun tree => decide (tree ∈ numbered)
  containsVolatile := fun _ => false
  exceptable := fun _ => false
  pointerException := fun _ => false
  arithException := fun _ => false
  leafObject := fun _ => 0
  addcon := fun _ => none
  genericDeref := 0
  genericCall := 0
  candidate := fun _ => true
  kills := fun _ => Finset.Icc 1 (numbered.length + 1)
  cost := fun _ => 0
  fpType := fun _ => false
  ieeeFp := false

/-- The surroundings of the pass with such a table, an assign table of a size,
no folding and one scope. -/
def cellEnv (numbered : List Tree) (size : Nat) : CopyEnv where
  table := cellTable numbered
  exprArraySize := size
  objectInScope := fun _ _ _ => true
  fold := id
  fuel := 16

section

variable {numbered : List Tree}

theorem setid_mem_cellKills (tree : Tree) : (cellTable numbered).setid tree ∈
    Finset.Icc 1 (numbered.length + 1) := by
  have bound : numbered.idxOf tree ≤ numbered.length := idxOf_le_length
  exact Finset.mem_Icc.2 ⟨Nat.succ_le_succ (Nat.zero_le _), Nat.succ_le_succ bound⟩

theorem cellKills_of_sideEffect {tree : Tree} (side : ExprTable.sideEffect tree = true) :
    Finset.Icc 1 (numbered.length + 1) ⊆ (cellTable numbered).getKills tree := by
  unfold ExprTable.getKills
  rw [if_pos side]
  exact Finset.subset_union_left

theorem cellKills_of_side {tree : Tree} (side : tree.containsSide = true) :
    Finset.Icc 1 (numbered.length + 1) ⊆ (cellTable numbered).recursiveKills tree := by
  induction tree with
  | leaf leaf type => cases side
  | unary op type left ih =>
    by_cases inner : left.containsSide = true
    · exact (ih inner).trans (recursiveKills_unary _ op type left)
    · rw [ExprTable.recursiveKills, if_pos side]
      simp only [Tree.containsSide, inner, Bool.or_false] at side
      have own : ExprTable.sideEffect (.unary op type left) = true := side
      exact (cellKills_of_sideEffect own).trans Finset.subset_union_right
  | binary op type left right leftHypothesis rightHypothesis =>
    by_cases inLeft : left.containsSide = true
    · exact ((leftHypothesis inLeft).trans Finset.subset_union_left).trans
        (recursiveKills_binary _ op type left right)
    · by_cases inRight : right.containsSide = true
      · exact ((rightHypothesis inRight).trans Finset.subset_union_right).trans
          (recursiveKills_binary _ op type left right)
      · rw [ExprTable.recursiveKills, if_pos side]
        simp only [Tree.containsSide, inLeft, inRight, Bool.or_false] at side
        have own : ExprTable.sideEffect (.binary op type left right) = true := side
        exact (cellKills_of_sideEffect own).trans Finset.subset_union_right

theorem killsCover_cellTable : KillsCover cellMachine (cellTable numbered)
    (cellTable numbered).recursiveKills := by
  intro lval tree state value final events evaluates other _ kept
  cases side : tree.containsSide with
  | true => exact absurd (cellKills_of_side side (setid_mem_cellKills other)) kept
  | false =>
    cases evaluates with
    | pure pure => rfl
    | unary contains | leftRight contains | rightLeft contains | leftOnly contains
    | rightOnly contains => rw [side] at contains; cases contains

theorem cellValue_paint (lval : Bool) (tree : Tree) (type : Nat) (state : Int → Int) :
    cellMachine.value lval (tree.paint type) state = cellMachine.value lval tree state := by
  cases tree with
  | leaf leaf old => rfl
  | unary op old left => rfl
  | binary op old left right => rfl

section

variable (plain : ∀ tree ∈ numbered, tree.isPlain = true)
include plain

theorem plain_of_optable {tree : Tree}
    (optable : (cellTable numbered).optableForCp tree = true) : tree.isPlain = true := by
  have usable := optimizable_of_optableForCp optable
  simp only [ExprTable.optimizable, Bool.and_eq_true] at usable
  exact plain tree (of_decide_eq_true usable.2)

theorem cellMachine_stores {type : Nat}
    {left right : Tree} {state final : Int → Int} {value : Int} {events : List (Event (Int → Int))}
    (evaluates : Evaluates cellMachine false (.binary .assign type left right) state value
      final events)
    (leftUsable : (cellTable numbered).optableForCp left = true)
    (object : (cellTable numbered).candidateObject left = true)
    (rightUsable : (cellTable numbered).optableForCp right = true) :
    cellMachine.value false left final = cellMachine.value false right state := by
  have leftPure := pure_of_optimizable (optimizable_of_optableForCp leftUsable)
  have rightPure := pure_of_optimizable (optimizable_of_optableForCp rightUsable)
  have stored : final = update state (cellMachine.value true left state)
      (cellMachine.value false right state) := by
    cases evaluates with
    | pure pure => cases pure
    | leftRight contains visit first second finish =>
      obtain ⟨rfl, rfl, -⟩ := first.of_pure leftPure
      obtain ⟨rfl, rfl, -⟩ := second.of_pure rightPure
      exact finish.2
    | rightLeft contains visit first second finish =>
      obtain ⟨rfl, rfl, -⟩ := first.of_pure rightPure
      obtain ⟨rfl, rfl, -⟩ := second.of_pure leftPure
      exact finish.2
    | leftOnly contains visit | rightOnly contains visit => exact absurd visit (by decide)
  rw [stored]
  -- an object with a number is a variable
  match left, plain_of_optable plain leftUsable, object with
  | .leaf (.name sid off) kind, _, _ => exact update_self _ _ _
  | .leaf (.icon offset sid) kind, _, object => cases object

theorem copyLaws_cellEnv (size : Nat) :
    CopyLaws cellMachine (cellEnv numbered size) where
  cover := killsCover_cellTable
  folds := by
    intro node state value final events evaluates
    exact ⟨value, events, evaluates⟩
  stores := by
    intro type left right state value final events evaluates leftUsable object rightUsable
    rw [cellValue_paint]
    exact cellMachine_stores plain evaluates leftUsable object rightUsable
  paints := by
    intro node type before after _ same
    rw [cellValue_paint, cellValue_paint]
    exact same

end

def cellVariable (sid : Int) : Tree := .leaf (.name sid 0) 0

def cellNumber (value : Int) : Tree := .leaf (.icon value 0) 0

/-- The address of a variable. -/
def cellAddress (sid : Int) : Tree := .leaf (.icon 0 sid) 0

/-- A function of one block. -/
def oneBlock (nodes : List Tree) : FlowGraph where
  nodes := fun block => if block = 0 then nodes else []
  succ := fun _ => []
  pred := fun _ => []
  blocks := [0]
  order := [0]
  entry := 0

theorem wellFormed_oneBlock (nodes : List Tree) : (oneBlock nodes).WellFormed where
  joined := fun _ _ edge => absurd edge not_mem_nil
  entryFirst := rfl
  entryListed := mem_singleton.2 rfl
  listed := fun _ _ _ edge => absurd edge not_mem_nil
  within := fun _ member => member
  once := nodup_singleton 0

theorem leftHarmless_of_pure {table : ExprTable} {graph : FlowGraph} {node : Tree} (pure :
    ∀ op type left right, node = .binary op type left right → left.containsSide = false) :
    LeftHarmless table graph node := by
  intro op type left right same _ use _
  rw [recursiveKills_of_pure (pure op type left right same)]
  exact ⟨Finset.notMem_empty _, fun _ _ _ => Finset.notMem_empty _⟩

end

end Uw7.Amigo.Opt
