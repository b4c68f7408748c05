import Uw7.Amigo.CopyProp
import Uw7.Lib.Run

/-!
# Evaluation of trees

A machine gives the values of leaves and operators, and says how an operator
finishes whose operands have been evaluated.  Trees without side effects have a
value in a state; other trees are evaluated operand by operand, in an order that
the operator allows, and the evaluation records in which state each part without
side effects is taken and when each other node acts.
-/

namespace Uw7.Amigo.Opt

open List

/-- What a machine does for the leaves and operators of each type; the flag
tells that the place of an operand is wanted and not its value. -/
structure Machine (State Value : Type) where
  constant : Leaf → Nat → Value
  leaf : Leaf → Nat → Bool → State → Value
  unary : UnaryOp → Nat → Bool → State → Value → Value
  binary : BinaryOp → Nat → Bool → Value → Value → Value
  finishUnary : UnaryOp → Nat → Bool → State → Value → Value → State → Prop
  finishBinary : BinaryOp → Nat → Bool → State → Option Value → Option Value → Value → State → Prop

/-- Whether the place of the operand is wanted. -/
def UnaryOp.lvalBelow (op : UnaryOp) (lval : Bool) : Bool :=
  match op with
  | .addrOf => true
  | .fld _ | .conv => lval
  | _ => false

/-- Whether the place of the left operand is wanted. -/
def BinaryOp.lvalLeft : BinaryOp → Bool
  | .assign | .asg _ => true
  | _ => false

/-- The operands an operator visits, in order. -/
inductive Visit where
  | leftRight
  | rightLeft
  | leftOnly
  | rightOnly
deriving DecidableEq

/-- The visits an operator may make. -/
def BinaryOp.visits : BinaryOp → List Visit
  | .andand | .oror => [.leftRight, .leftOnly]
  | .quest | .comop => [.leftRight]
  | .colon => [.leftOnly, .rightOnly]
  | _ => [.leftRight, .rightLeft]

/-- What happens in an evaluation: a part without side effects is taken, or a
node acts when its operands have been evaluated. -/
inductive Event (State : Type) where
  | takes (path : List Side) (state : State)
  | acts (path : List Side) (before after : State)

/-- An event of an operand as an event of the node. -/
def Event.under {State : Type} (side : Side) : Event State → Event State
  | .takes path state => .takes (side :: path) state
  | .acts path before after => .acts (side :: path) before after

section

variable {State Value : Type} (machine : Machine State Value)

/-- The value, or the place, of a tree without side effects. -/
def Machine.value : Bool → Tree → State → Value
  | lval, .leaf leaf type, state =>
    if leaf.isConst then machine.constant leaf type
    else machine.leaf leaf type lval state
  | lval, .unary op type left, state =>
    machine.unary op type lval state (Machine.value (op.lvalBelow lval) left state)
  | lval, .binary op type left right, state =>
    machine.binary op type lval (Machine.value op.lvalLeft left state)
      (Machine.value false right state)

inductive Evaluates : Bool → Tree → State → Value → State → List (Event State) → Prop where
  | pure {lval : Bool} {tree : Tree} {state : State} (pure : tree.containsSide = false) :
      Evaluates lval tree state (machine.value lval tree state) state [.takes [] state]
  | unary {lval : Bool} {op : UnaryOp} {type : Nat} {left : Tree} {state middle final : State}
      {value result : Value}
      {events : List (Event State)} (side : (Tree.unary op type left).containsSide = true)
      (operand : Evaluates (op.lvalBelow lval) left state value middle events)
      (finish : machine.finishUnary op type lval middle value result final) :
      Evaluates lval (.unary op type left) state result final
        (events.map (.under .left) ++ [.acts [] middle final])
  | leftRight {lval : Bool} {op : BinaryOp} {type : Nat} {left right : Tree}
      {state middle later final : State}
      {leftValue rightValue result : Value}
      {leftEvents rightEvents : List (Event State)}
      (side : (Tree.binary op type left right).containsSide = true) (visit : .leftRight ∈ op.visits)
      (first : Evaluates op.lvalLeft left state leftValue middle leftEvents)
      (second : Evaluates false right middle rightValue later rightEvents)
      (finish : machine.finishBinary op type lval later (some leftValue)
          (some rightValue) result final) :
      Evaluates lval (.binary op type left right) state result final
        (leftEvents.map (.under .left) ++ rightEvents.map (.under .right) ++ [.acts [] later final])
  | rightLeft {lval : Bool} {op : BinaryOp} {type : Nat} {left right : Tree}
      {state middle later final : State}
      {leftValue rightValue result : Value}
      {leftEvents rightEvents : List (Event State)}
      (side : (Tree.binary op type left right).containsSide = true) (visit : .rightLeft ∈ op.visits)
      (first : Evaluates false right state rightValue middle rightEvents)
      (second : Evaluates op.lvalLeft left middle leftValue later leftEvents)
      (finish : machine.finishBinary op type lval later (some leftValue)
          (some rightValue) result final) :
      Evaluates lval (.binary op type left right) state result final
        (rightEvents.map (.under .right) ++ leftEvents.map (.under .left) ++ [.acts [] later final])
  | leftOnly {lval : Bool} {op : BinaryOp} {type : Nat} {left right : Tree}
      {state middle final : State}
      {leftValue result : Value}
      {leftEvents : List (Event State)}
      (side : (Tree.binary op type left right).containsSide = true) (visit : .leftOnly ∈ op.visits)
      (first : Evaluates op.lvalLeft left state leftValue middle leftEvents)
      (finish : machine.finishBinary op type lval middle (some leftValue) none result final) :
      Evaluates lval (.binary op type left right) state result final
        (leftEvents.map (.under .left) ++ [.acts [] middle final])
  | rightOnly {lval : Bool} {op : BinaryOp} {type : Nat} {left right : Tree}
      {state middle final : State}
      {rightValue result : Value}
      {rightEvents : List (Event State)}
      (side : (Tree.binary op type left right).containsSide = true) (visit : .rightOnly ∈ op.visits)
      (first : Evaluates false right state rightValue middle rightEvents)
      (finish : machine.finishBinary op type lval middle none (some rightValue) result final) :
      Evaluates lval (.binary op type left right) state result final
        (rightEvents.map (.under .right) ++ [.acts [] middle final])

/-- An occurrence is read in a state: it stands in a part without side effects
that is taken there. -/
def ReadAt (events : List (Event State)) (path : List Side) (state : State) : Prop :=
  ∃ taken, taken <+: path ∧ Event.takes taken state ∈ events

/-- Every expression whose number is not killed has the same value in two
states. -/
def Keeps (table : ExprTable) (killed : Finset Nat) (before after : State) : Prop :=
  ∀ tree, table.optimizable tree = true → table.setid tree ∉ killed →
    machine.value false tree before = machine.value false tree after

def KillsCover (table : ExprTable) (kills : Tree → Finset Nat) : Prop :=
  ∀ lval tree state value final events, Evaluates machine lval tree state value final events →
    Keeps machine table (kills tree) state final

end

section

variable {State Value : Type} {machine : Machine State Value} {table : ExprTable}

theorem Keeps.refl (killed : Finset Nat) (state : State) : Keeps machine table killed state state :=
  fun _ _ _ => rfl

variable {killed : Finset Nat} {before middle after state taken final : State}
  {events : List (Event State)} {side : Side} {path : List Side} {lval : Bool} {value : Value}

theorem Keeps.trans (first : Keeps machine table killed before middle)
    (second : Keeps machine table killed middle after) : Keeps machine table killed before after :=
  fun tree optimizable kept => (first tree optimizable kept).trans (second tree optimizable kept)

theorem Keeps.mono {more : Finset Nat} (keeps : Keeps machine table killed before after)
    (included : killed ⊆ more) : Keeps machine table more before after :=
  fun tree optimizable kept => keeps tree optimizable fun member => kept (included member)

theorem takes_under (member : Event.takes path state ∈ events.map (Event.under side)) :
    ∃ rest, path = side :: rest ∧ Event.takes rest state ∈ events := by
  obtain ⟨event, inside, same⟩ := mem_map.1 member
  cases event with
  | takes rest other =>
    cases same
    exact ⟨rest, rfl, inside⟩
  | acts rest before after => cases same

theorem takes_append (member : Event.takes path state ∈ events ++ [Event.acts [] before after]) :
    Event.takes path state ∈ events := by
  rcases mem_append.1 member with inside | last
  · exact inside
  · cases mem_singleton.1 last

theorem ReadAt.under {all : List (Event State)} (read : ReadAt events path state)
    (included : events.map (Event.under side) ⊆ all) : ReadAt all (side :: path) state := by
  obtain ⟨taken, leads, member⟩ := read
  exact ⟨side :: taken, (cons_prefix_cons).2 ⟨rfl, leads⟩, included (mem_map.2 ⟨_, member, rfl⟩)⟩

/-- Kills that grow from the operands to their node. -/
structure KillsGrow (kills : Tree → Finset Nat) : Prop where
  unary : ∀ op type left, kills left ⊆ kills (.unary op type left)
  binary : ∀ op type left right, kills left ∪ kills right ⊆ kills (.binary op type left right)

theorem killsGrow_recursiveKills : KillsGrow table.recursiveKills :=
  ⟨recursiveKills_unary table, recursiveKills_binary table⟩

variable {kills : Tree → Finset Nat}

theorem keeps_takes_pair {first second : Tree} {firstLval : Bool} {firstSide secondSide : Side}
    {firstValue : Value} {firstEvents secondEvents : List (Event State)}
    (cover : KillsCover machine table kills)
    (one : Evaluates machine firstLval first state firstValue middle firstEvents)
    (oneKeeps : ∀ path taken, .takes path taken ∈ firstEvents →
      Keeps machine table (kills first) state taken)
    (twoKeeps : ∀ path taken, .takes path taken ∈ secondEvents →
      Keeps machine table (kills second) middle taken)
    (member : Event.takes path taken ∈ firstEvents.map (.under firstSide) ++
      secondEvents.map (.under secondSide) ++ [.acts [] before after]) :
    Keeps machine table (kills first ∪ kills second) state taken := by
  rcases mem_append.1 (takes_append member) with inside | inside
  · obtain ⟨rest, -, here⟩ := takes_under inside
    exact (oneKeeps rest taken here).mono Finset.subset_union_left
  · obtain ⟨rest, -, here⟩ := takes_under inside
    have passed : Keeps machine table (kills first ∪ kills second) state middle :=
      (cover _ _ _ _ _ _ one).mono Finset.subset_union_left
    exact passed.trans ((twoKeeps rest taken here).mono Finset.subset_union_right)

theorem Evaluates.keeps_takes (grow : KillsGrow kills) (cover : KillsCover machine table kills)
    {tree : Tree} (evaluates : Evaluates machine lval tree state value final events) :
    ∀ path taken, .takes path taken ∈ events → Keeps machine table (kills tree) state taken := by
  induction evaluates with
  | pure pure =>
    intro path taken member
    cases mem_singleton.1 member
    exact .refl _ _
  | unary side operand finish ih =>
    intro path taken member
    obtain ⟨rest, -, here⟩ := takes_under (takes_append member)
    exact (ih rest taken here).mono (grow.unary _ _ _)
  | leftRight side visit first second finish firstKeeps secondKeeps =>
    intro path taken member
    exact (keeps_takes_pair cover first firstKeeps secondKeeps member).mono (grow.binary _ _ _ _)
  | rightLeft side visit first second finish firstKeeps secondKeeps =>
    intro path taken member
    have pair := keeps_takes_pair cover first firstKeeps secondKeeps member
    rw [Finset.union_comm] at pair
    exact pair.mono (grow.binary _ _ _ _)
  | leftOnly side visit first finish firstKeeps =>
    intro path taken member
    obtain ⟨rest, -, here⟩ := takes_under (takes_append member)
    exact (firstKeeps rest taken here).mono (Finset.subset_union_left.trans (grow.binary _ _ _ _))
  | rightOnly side visit first finish firstKeeps =>
    intro path taken member
    obtain ⟨rest, -, here⟩ := takes_under (takes_append member)
    exact (firstKeeps rest taken here).mono (Finset.subset_union_right.trans (grow.binary _ _ _ _))

theorem Evaluates.keeps_takes_operands (grow : KillsGrow kills)
    (cover : KillsCover machine table kills) {op : BinaryOp} {type : Nat} {left right : Tree}
    (evaluates : Evaluates machine lval (.binary op type left right) state value final events)
    (member : .takes path taken ∈ events) :
    Keeps machine table (kills left ∪ kills right) state taken := by
  cases evaluates with
  | pure pure =>
    cases mem_singleton.1 member
    exact .refl _ _
  | leftRight side visit first second finish =>
    exact keeps_takes_pair cover first (first.keeps_takes grow cover)
      (second.keeps_takes grow cover) member
  | rightLeft side visit first second finish =>
    have pair := keeps_takes_pair cover first (first.keeps_takes grow cover)
        (second.keeps_takes grow cover) member
    rw [Finset.union_comm] at pair
    exact pair
  | leftOnly side visit first finish =>
    obtain ⟨rest, -, here⟩ := takes_under (takes_append member)
    exact (first.keeps_takes grow cover rest taken here).mono Finset.subset_union_left
  | rightOnly side visit first finish =>
    obtain ⟨rest, -, here⟩ := takes_under (takes_append member)
    exact (first.keeps_takes grow cover rest taken here).mono Finset.subset_union_right

end

end Uw7.Amigo.Opt

/-!
# Runs of a function

Control stands before a tree of a block, evaluates it and goes on, and at the
end of the block goes to one of its successors.  The history of a run lists the
trees that were evaluated with the states they left.
-/

namespace Uw7.Amigo.Opt

/-- What `basic_block` and `init_depth_first` promise: the lists are inverse,
the first block is not entered again since no label stands at the beginning of
a function, and the depth-first order lists what can be reached, once. -/
structure FlowGraph.WellFormed (graph : FlowGraph) : Prop where
  joined : ∀ block next, next ∈ graph.succ block → block ∈ graph.pred next
  entryFirst : graph.pred graph.entry = []
  entryListed : graph.entry ∈ graph.order
  listed : ∀ block ∈ graph.order, ∀ next ∈ graph.succ block, next ∈ graph.order
  within : ∀ block ∈ graph.order, block ∈ graph.blocks
  once : graph.order.Nodup

/-- A tree that was evaluated, by its place, and the state it left. -/
structure Entry (State : Type) where
  block : Nat
  index : Nat
  after : State

/-- Where control stands, in which state, and what was evaluated before. -/
structure Config (State : Type) where
  block : Nat
  index : Nat
  state : State
  history : List (Entry State)

/-- The beginning of a function. -/
def Config.start {State : Type} (graph : FlowGraph) (state : State) : Config State :=
  ⟨graph.entry, 0, state, []⟩

/-- A step: a tree is evaluated, or control leaves the block. -/
inductive Moves {State Value : Type} (machine : Machine State Value) (graph : FlowGraph) :
    Config State → Option Nat → Config State → Prop where
  | tree {config : Config State} {node : Tree} {value : Value} {final : State}
      {events : List (Event State)} (stands : (graph.nodes config.block)[config.index]? = some node)
      (evaluates : Evaluates machine false node config.state value final events) :
      Moves machine graph config none
        { config with
          index := config.index + 1
          state := final
          history := config.history ++ [⟨config.block, config.index, final⟩] }
  | edge {config : Config State} {next : Nat}
      (ends : config.index = (graph.nodes config.block).length)
      (edge : next ∈ graph.succ config.block) :
      Moves machine graph config (some next) { config with block := next, index := 0 }

end Uw7.Amigo.Opt
