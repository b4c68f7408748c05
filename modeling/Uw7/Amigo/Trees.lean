import Mathlib.Data.Finset.Union

/-!
# Expression trees of the optimizer

The trees of the intermediate code, the flags that the table of expressions
keeps of them, the context in which an operand stands, and the expressions that
the side effects of a tree kill.  Two trees that the table does not tell apart
are one tree here: types are those of the machine, and operands that commute
stand in the order of their numbers.
-/

namespace Uw7.Amigo.Opt

/-- The leaves of the trees. -/
inductive Leaf where
  | name (sid : Int) (off : Nat)
  | icon (value : Int) (sid : Int)
  | fcon (bits : Nat)
  | string (text : Nat)
  | jump
  | other (code : Nat)
deriving DecidableEq

/-- The operators of one operand. -/
inductive UnaryOp where
  | star
  | addrOf
  | fld (off : Nat)
  | conv
  | dot
  | not
  | cbranch
  | call
  | other (code : Nat)
deriving DecidableEq

/-- The operators of two operands; `asg` are the compound assignments. -/
inductive BinaryOp where
  | assign
  | asg (code : Nat)
  | plus
  | minus
  | andand
  | oror
  | quest
  | colon
  | comop
  | call
  | stcall
  | stasg
  | bmove
  | other (code : Nat)
deriving DecidableEq

inductive Tree where
  | leaf (leaf : Leaf) (type : Nat)
  | unary (op : UnaryOp) (type : Nat) (left : Tree)
  | binary (op : BinaryOp) (type : Nat) (left right : Tree)
deriving DecidableEq

/-- The operands of a node. -/
inductive Side where
  | left
  | right
deriving DecidableEq

/-- The type of a node. -/
def Tree.type : Tree → Nat
  | .leaf _ type => type
  | .unary _ type _ => type
  | .binary _ type _ _ => type

/-- A tree with another type at its root. -/
def Tree.paint (tree : Tree) (type : Nat) : Tree :=
  match tree with
  | .leaf item _ => .leaf item type
  | .unary op _ left => .unary op type left
  | .binary op _ left right => .binary op type left right

def Leaf.isConst : Leaf → Bool
  | .icon .. | .fcon _ => true
  | _ => false

/-- `op == ICON || op == FCON`. -/
def Tree.isConst : Tree → Bool
  | .leaf item _ => item.isConst
  | _ => false

/-- `SIDE_EFFECT` of an operator of one operand. -/
def UnaryOp.sideEffect : UnaryOp → Bool
  | .call => true
  | _ => false

/-- `SIDE_EFFECT` of an operator of two operands. -/
def BinaryOp.sideEffect : BinaryOp → Bool
  | .assign | .asg _ | .call | .stcall | .stasg | .bmove => true
  | _ => false

def Tree.containsSide : Tree → Bool
  | .leaf .. => false
  | .unary op _ left => op.sideEffect || left.containsSide
  | .binary op _ left right => op.sideEffect || left.containsSide || right.containsSide

/-- The `OBJECT` flag. -/
def Tree.isObject : Tree → Bool
  | .leaf (.name ..) _ | .leaf (.string _) _ | .leaf (.other _) _ => true
  | .leaf .. => false
  | .unary .star .. => true
  | .unary .dot _ left | .unary .conv _ left | .unary (.fld _) _ left => left.isObject
  | .unary .. => false
  | .binary .. => false

/-- The `OBJECT_PLUS_CONST` flag. -/
def Tree.objectPlusConst : Tree → Bool
  | .binary .plus _ left right => left.isObject && right.isConst
  | .binary .minus _ left (.leaf (.icon ..) _) => left.isObject
  | _ => false

/-- What the tables of expressions, objects and symbols say of the trees. -/
structure ExprTable where
  setid : Tree → Nat
  numbered : Tree → Bool
  containsVolatile : Tree → Bool
  exceptable : Tree → Bool
  pointerException : Tree → Bool
  arithException : Tree → Bool
  leafObject : Leaf → Nat
  addcon : Tree → Option Nat
  genericDeref : Nat
  genericCall : Nat
  candidate : Nat → Bool
  kills : Nat → Finset Nat
  cost : Tree → Nat
  fpType : Nat → Bool
  ieeeFp : Bool

namespace ExprTable

variable (table : ExprTable)

/-- The `OPTIMIZABLE` flag: an expression with a number of its own. -/
def optimizable (tree : Tree) : Bool :=
  !tree.containsSide && !table.containsVolatile tree && table.numbered tree

def optable (tree : Tree) : Bool := table.optimizable tree && !table.exceptable tree &&
    !table.pointerException tree && !table.arithException tree

/-- `OPTABLE_FOR_CP`, and `OPTABLE_FOR_DEAD`, which is the same. -/
def optableForCp (tree : Tree) : Bool := table.optable tree ||
    (!table.ieeeFp && table.optimizable tree && !table.exceptable tree &&
      !table.pointerException tree && table.arithException tree)

/-- The object of an expression, or the object it kills. -/
def objectOf : Tree → Nat
  | .leaf item _ => table.leafObject item
  | .unary .star _ left => (table.addcon left).getD table.genericDeref
  | .unary .call .. => table.genericCall
  | .unary _ _ left => objectOf left
  | .binary .call .. | .binary .stcall .. => table.genericCall
  | .binary .bmove _ _ (.unary _ _ left) => (table.addcon left).getD table.genericDeref
  | .binary .bmove _ _ (.binary _ _ left _) => (table.addcon left).getD table.genericDeref
  | .binary .stasg _ left _ => (table.addcon left).getD table.genericDeref
  | .binary _ _ left _ => objectOf left

def candidateObject (tree : Tree) : Bool := tree.isObject && table.candidate (table.objectOf tree)

/-- The node itself has a side effect. -/
def sideEffect : Tree → Bool
  | .leaf .. => false
  | .unary op .. => op.sideEffect
  | .binary op .. => op.sideEffect

/-- `get_kills`: what the node itself kills. -/
def getKills (tree : Tree) : Finset Nat :=
  (if sideEffect tree then table.kills (table.objectOf tree) else ∅) ∪
    if table.exceptable tree || (table.ieeeFp && table.arithException tree)
    then table.kills table.genericDeref
    else ∅

def recursiveKills : Tree → Finset Nat
  | .leaf .. => ∅
  | .unary op type left =>
    if (Tree.unary op type left).containsSide then
      recursiveKills left ∪ table.getKills (.unary op type left)
    else ∅
  | .binary op type left right =>
    if (Tree.binary op type left right).containsSide then
      recursiveKills left ∪ recursiveKills right ∪ table.getKills (.binary op type left right)
    else ∅

end ExprTable

/-- The context flags of an operand. -/
structure Context where
  isLval : Bool
  isCond : Bool
  siblingIsConst : Bool
deriving DecidableEq

/-- The context of a whole tree. -/
def Context.top : Context := ⟨false, false, false⟩

def getContext (node : Tree) (side : Side) (context : Context) : Context :=
  match node with
  | .leaf .. => context
  | .unary (.fld _) .. | .unary .conv .. => context
  | .unary .addrOf .. => { context with isLval := true }
  | .unary .. => { context with isLval := false }
  | .binary .andand .. | .binary .oror .. =>
    match side with
    | .left => context
    | .right => { context with isCond := true }
  | .binary .colon .. => { context with isCond := true }
  | .binary .assign .. | .binary (.asg _) .. =>
    match side with
    | .left => { context with isLval := true }
    | .right => { context with isLval := false }
  | .binary .plus _ left right | .binary .minus _ left right =>
    let sibling :=
      match side with
      | .left => right
      | .right => left
    { context with
      isLval := false
      siblingIsConst := context.siblingIsConst || sibling.isConst }
  | .binary .. => { context with isLval := false }

variable {table : ExprTable}

theorem recursiveKills_of_pure {tree : Tree}
    (pure : tree.containsSide = false) : table.recursiveKills tree = ∅ := by
  cases tree with
  | leaf leaf type => rfl
  | unary op type left =>
    unfold ExprTable.recursiveKills
    rw [pure]
    rfl
  | binary op type left right =>
    unfold ExprTable.recursiveKills
    rw [pure]
    rfl

theorem recursiveKills_unary (table : ExprTable) (op : UnaryOp) (type : Nat) (left : Tree) :
    table.recursiveKills left ⊆ table.recursiveKills (.unary op type left) := by
  by_cases side : (Tree.unary op type left).containsSide = true
  · rw [ExprTable.recursiveKills, if_pos side]
    exact Finset.subset_union_left
  · have pure : left.containsSide = false := by
      simp only [Tree.containsSide, Bool.or_eq_true, not_or, Bool.not_eq_true] at side
      exact side.2
    rw [recursiveKills_of_pure pure]
    exact Finset.empty_subset _

theorem recursiveKills_binary (table : ExprTable) (op : BinaryOp) (type : Nat) (left right : Tree) :
    table.recursiveKills left ∪ table.recursiveKills right ⊆
      table.recursiveKills (.binary op type left right) := by
  by_cases side : (Tree.binary op type left right).containsSide = true
  · rw [ExprTable.recursiveKills, if_pos side]
    exact Finset.subset_union_left
  · simp only [Tree.containsSide, Bool.or_eq_true, not_or, Bool.not_eq_true] at side
    rw [recursiveKills_of_pure side.1.2, recursiveKills_of_pure side.2]
    exact Finset.empty_subset _

theorem pure_of_optimizable {tree : Tree}
    (optimizable : table.optimizable tree = true) : tree.containsSide = false := by
  simp only [ExprTable.optimizable, Bool.and_eq_true, Bool.not_eq_true'] at optimizable
  exact optimizable.1.1

theorem optimizable_of_optableForCp {tree : Tree}
    (optable : table.optableForCp tree = true) : table.optimizable tree = true := by
  simp only [ExprTable.optableForCp, ExprTable.optable, Bool.or_eq_true,
    Bool.and_eq_true] at optable
  rcases optable with here | here
  · exact here.1.1.1
  · exact here.1.1.1.2

@[simp] theorem containsSide_paint (tree : Tree) (type : Nat) :
    (tree.paint type).containsSide = tree.containsSide := by
  cases tree <;> rfl

end Uw7.Amigo.Opt
