import Mathlib.Data.BitVec
import Uw7.Amigo.LoopType

/-!
# The increment of a loop

`find_ind_vars` and `find_ind_var_defs` of `loops.c`, with the induction variables
of a block from `local_info.c`, and `fix_counter_update` of `l_unroll.c` behind the
commas that strength reduction puts on the definitions.  The trees of a loop are
those of its queue items, in the order of its blocks.

One variable `sign` serves all trees: a subtraction sets it, and nothing sets it
back.
-/

namespace Uw7.Amigo.Induction

open List Function

/-- An object that a tree kills, or those a call or a store through a pointer may. -/
inductive Kill where
  | object (setid : Nat)
  | call
  | deref
deriving DecidableEq

/-- The left side of an update: a scalar variable, another object, or none. -/
inductive Left where
  | name (setid : Nat)
  | object (setid : Nat)
  | deref
deriving DecidableEq

/-- The right side of an update: a constant, an address, or a tree that is none. -/
inductive Right where
  | icon (value : Int)
  | address
  | other (kills : List Kill)
deriving DecidableEq

inductive Update where
  | asgPlus (right : Right)
  | asgMinus (right : Right)
  | incr (value : Int)
  | decr (value : Int)
deriving DecidableEq

/-- The tree of a queue item, with the object it is for. -/
inductive Node where
  | assign (update : Update) (left : Left)
  | comma (left right : Node)
  | other (object : Option Nat) (kills : List Kill)
deriving DecidableEq

def Left.object? : Left → Option Nat
  | .name setid | .object setid => some setid
  | .deref => none

/-- What an update with a left side kills. -/
def Left.kill : Left → Kill
  | .name setid | .object setid => .object setid
  | .deref => .deref

/-- The operator of a right side is `ICON`. -/
def Right.isIcon : Right → Bool
  | .icon _ | .address => true
  | .other _ => false

def Right.kills : Right → List Kill
  | .icon _ | .address => []
  | .other kills => kills

/-- The constant of a right side as a `long`, unless it is too big or is none. -/
def Right.value? : Right → Option (BitVec 32)
  | .icon value => (numToslong value).map (BitVec.ofInt 32)
  | .address | .other _ => none

def Update.right : Update → Right
  | .asgPlus right | .asgMinus right => right
  | .incr value | .decr value => .icon value

def Update.subtracts : Update → Bool
  | .asgMinus _ | .decr _ => true
  | .asgPlus _ | .incr _ => false

/-- What a tree kills. -/
def Node.kills : Node → List Kill
  | .assign update left => update.right.kills ++ [left.kill]
  | .comma left right => left.kills ++ right.kills
  | .other _ kills => kills

/-- The variable that `block_kills` takes a tree for an update of. -/
def Node.induces : Node → Option Nat
  | .assign update (.name setid) => if update.right.isIcon then some setid else none
  | _ => none

/-- A tree at the top level that subtracts. -/
def Node.subtracts : Node → Bool
  | .assign update _ => update.subtracts
  | _ => false

/-- A tree at the top level that updates an object. -/
def Node.assigns (setid : Nat) : Node → Bool
  | .assign _ left => left.object? == some setid
  | _ => false

/-- The trees of a loop with their blocks, what its nested loops kill, and the
objects that calls and stores through pointers kill. -/
structure LoopTrees where
  trees : List (Nat × Node)
  childKills : List Kill
  testBlock : Nat
  callKills : Nat → Bool
  derefKills : Nat → Bool

def LoopTrees.treesOf (loop : LoopTrees) (block : Nat) : List Node :=
  (loop.trees.filter fun tree => tree.1 == block).map Prod.snd

/-- A variable is in `ind_vars` of a block. -/
def LoopTrees.blockIndVar (loop : LoopTrees) (block setid : Nat) : Bool :=
  (loop.treesOf block).any (fun node => node.induces == some setid) &&
    !(loop.treesOf block).any fun node =>
      node.induces == none && node.kills.contains (.object setid)

def LoopTrees.kills (loop : LoopTrees) : List Kill :=
  loop.trees.flatMap (fun tree => tree.2.kills) ++ loop.childKills

def findIndVars (loop : LoopTrees) (setid : Nat) : Bool :=
  loop.trees.any (fun tree => loop.blockIndVar tree.1 setid) && loop.trees.all (fun tree =>
      !tree.2.kills.contains (.object setid) || loop.blockIndVar tree.1 setid) &&
    !loop.childKills.contains (.object setid) &&
    !(loop.kills.contains .call && loop.callKills setid) &&
    !(loop.kills.contains .deref && loop.derefKills setid)

/-- What `find_ind_var_defs` keeps. -/
structure Defs where
  negative : Bool
  indVars : Nat → Bool
  defs : Nat → Option (Nat × Node)
  loopIncrementIndex : Option Nat
  increment : BitVec 32

/-- `find_ind_var_defs` on the tree at an index. -/
def defStep (loop : LoopTrees) (state : Defs) (index : Nat) (tree : Nat × Node) : Defs :=
  match tree.2 with
  | .assign update left =>
    let negative := state.negative || update.subtracts
    match left.object? with
    | none => { state with negative }
    | some setid =>
      if state.indVars setid then
        match state.defs setid, update.right.value? with
        | none, some val =>
          let defs := Function.update state.defs setid (some tree)
          if tree.1 = loop.testBlock then
            { state with
              negative, defs
              loopIncrementIndex := some index
              increment := if negative then -val else val }
          else { state with negative, defs }
        | _, _ =>
          { state with
            negative
            indVars := Function.update state.indVars setid false
            defs := Function.update state.defs setid none
            loopIncrementIndex := none }
      else { state with negative }
  | .comma _ _ | .other _ _ => state

/-- `find_ind_var_defs` on the trees from an index on. -/
def defsFrom (loop : LoopTrees) : Defs → Nat → List (Nat × Node) → Defs
  | state, _, [] => state
  | state, index, tree :: rest => defsFrom loop (defStep loop state index tree) (index + 1) rest

def findIndVarDefs (loop : LoopTrees) : Defs :=
  defsFrom loop ⟨false, findIndVars loop, fun _ => none, none, 0⟩ 0 loop.trees

/-- The updates of temporaries that `gen_update_code` joins to the tree at an
index; a temporary is a new object. -/
structure Temporaries (loop : LoopTrees) where
  updates : Nat → List (Nat × Int)
  fresh : ∀ index, ∀ update ∈ updates index, findIndVars loop update.1 = false

def genUpdateCode (updates : List (Nat × Int)) (node : Node) : Node :=
  updates.foldl (fun node update =>
    .comma node (.assign (.asgPlus (.icon update.2)) (.name update.1))) node

/-- `fix_counter_update`: the tree it finds, behind the commas that it splits. -/
def fixCounterUpdate (counter : Nat) : Node → Option Node
  | .comma left right => (fixCounterUpdate counter left).or (fixCounterUpdate counter right)
  | .assign update left => if left.object? = some counter then some (.assign update left) else none
  | .other object kills => if object = some counter then some (.other object kills) else none

def counterIncrement (loop : LoopTrees) (temps : Temporaries loop) (counter : Nat) :
    Option (BitVec 32) :=
  let found := findIndVarDefs loop
  match found.loopIncrementIndex with
  | none => none
  | some index =>
    if found.increment = 0 ∨ found.indVars counter = false then none
    else
      match loop.trees[index]? with
      | none => none
      | some tree =>
        (fixCounterUpdate counter (genUpdateCode (temps.updates index) tree.2)).map
          fun _ => found.increment

/-- The values of the variables, as wide as a `long`. -/
abbrev Values := Nat → BitVec 32

def LoopTrees.mayChange (loop : LoopTrees) (kills : List Kill) (setid : Nat) : Bool :=
  kills.contains (.object setid) || (kills.contains .call && loop.callKills setid) ||
    (kills.contains .deref && loop.derefKills setid)

/-- The variable that a tree adds a constant to, and the constant. -/
def Node.change : Node → Option (Nat × BitVec 32)
  | .assign update (.name setid) =>
    match update.right with
    | .icon value =>
      some (setid, if update.subtracts then -BitVec.ofInt 32 value else BitVec.ofInt 32 value)
    | .address | .other _ => none
  | _ => none

/-- What a tree does as a whole: all but updates by constants may change what they kill. -/
def Does (loop : LoopTrees) (node : Node) (before after : Values) : Prop :=
  match node.change with
  | some (setid, delta) => after = update before setid (before setid + delta)
  | none => ∀ setid, loop.mayChange node.kills setid = false → after setid = before setid

/-- What a tree does, one side of a comma after the other. -/
def Executes (loop : LoopTrees) : Node → Values → Values → Prop
  | .comma left right, before, after =>
    ∃ between, Executes loop left before between ∧ Executes loop right between after
  | .assign update left, before, after => Does loop (.assign update left) before after
  | .other object kills, before, after => Does loop (.other object kills) before after

/-- What trees do one after another. -/
def ExecutesAll (loop : LoopTrees) : List Node → Values → Values → Prop
  | [], before, after => after = before
  | node :: rest, before, after =>
    ∃ between, Executes loop node before between ∧ ExecutesAll loop rest between after

/-- What blocks of the loop and nested loops do on a path. -/
def ExecutesPath (loop : LoopTrees) : List (Option Nat) → Values → Values → Prop
  | [], before, after => after = before
  | some block :: rest, before, after =>
    ∃ between, ExecutesAll loop (loop.treesOf block) before between ∧
      ExecutesPath loop rest between after
  | none :: rest, before, after =>
    ∃ between : Values,
      (∀ setid, loop.mayChange loop.childKills setid = false → between setid = before setid) ∧
      ExecutesPath loop rest between after

/-- Every iteration, which passes the block of the test once, adds a constant to
a variable. -/
def CountsBy (loop : LoopTrees) (counter : Nat) (delta : BitVec 32) : Prop :=
  ∀ path before after, path.count (some loop.testBlock) = 1 →
    ExecutesPath loop path before after → after counter = before counter + delta

def ChangedOnce (loop : LoopTrees) (counter : Nat) : Prop :=
  (loop.trees.filter fun tree => loop.mayChange tree.2.kills counter).length = 1 ∧
    loop.mayChange loop.childKills counter = false

/-- No tree that subtracts stands before the first update of the counter when that adds,
unless the constant is its own negation. -/
def SignKept (loop : LoopTrees) (counter : Nat) : Prop :=
  ∀ update left value, (loop.testBlock, Node.assign update left) ∈ loop.trees →
    left.object? = some counter → update.right = .icon value → update.subtracts = false →
    (loop.trees.takeWhile fun tree => !tree.2.assigns counter).any
      (fun tree => tree.2.subtracts) = true →
    BitVec.ofInt 32 value = -BitVec.ofInt 32 value

variable {loop : LoopTrees} {counter : Nat}

variable {tree : Nat × Node} {passed : List (Nat × Node)} {state : Defs} {node : Node}
  {delta : BitVec 32} {before after : Values} {update : Update}

theorem contains_kills {kill : Kill} (member : tree ∈ loop.trees)
    (listed : tree.2.kills.contains kill = true) : loop.kills.contains kill = true := by
  simp only [LoopTrees.kills, contains_iff_mem, mem_append, mem_flatMap] at *
  exact .inl ⟨tree, member, listed⟩

theorem findIndVars_right (isIndVar : findIndVars loop counter = true) :
    loop.mayChange loop.childKills counter = false ∧
      ∀ tree ∈ loop.trees, loop.mayChange tree.2.kills counter = true →
        tree.2.induces = some counter := by
  simp only [findIndVars, Bool.and_eq_true, all_eq_true, Bool.or_eq_true,
    Bool.not_eq_true'] at isIndVar
  obtain ⟨⟨⟨⟨-, killed⟩, children⟩, calls⟩, derefs⟩ := isIndVar
  refine ⟨?_, fun tree member changes => ?_⟩
  · have childOf : ∀ kill, loop.childKills.contains kill = true →
        loop.kills.contains kill = true := by
      intro kill listed
      simp only [LoopTrees.kills, contains_iff_mem, mem_append] at *
      exact .inr listed
    by_contra changes
    simp only [LoopTrees.mayChange, Bool.not_eq_false, Bool.or_eq_true, Bool.and_eq_true,
      children, Bool.false_eq_true, false_or] at changes
    obtain ⟨listed, kills⟩ | ⟨listed, kills⟩ := changes
    · rw [childOf _ listed, kills] at calls
      cases calls
    · rw [childOf _ listed, kills] at derefs
      cases derefs
  · simp only [LoopTrees.mayChange, Bool.or_eq_true, Bool.and_eq_true] at changes
    obtain (listed | ⟨listed, kills⟩) | ⟨listed, kills⟩ := changes
    · have block := (killed tree member).resolve_left (by rw [listed]; decide)
      simp only [LoopTrees.blockIndVar, Bool.and_eq_true, Bool.not_eq_true', any_eq_false] at block
      have inBlock : tree.2 ∈ loop.treesOf tree.1 :=
        mem_map.2 ⟨tree, mem_filter.2 ⟨member, beq_self_eq_true _⟩, rfl⟩
      have notOther := block.2 tree.2 inBlock
      cases induced : tree.2.induces with
      | none => exact absurd ⟨by rw [induced]; rfl, listed⟩ notOther
      | some setid =>
        -- The only kill of an update by a constant is its variable.
        unfold Node.induces at induced
        split at induced
        · rename_i update name isTree
          split at induced
          · cases right : update.right <;>
              simp_all [Right.isIcon, Node.kills, Right.kills, Left.kill]
          · cases induced
        · cases induced
    · rw [contains_kills member listed, kills] at calls
      cases calls
    · rw [contains_kills member listed, kills] at derefs
      cases derefs

/-- What holds when `find_ind_var_defs` has passed some trees. -/
structure Passed (loop : LoopTrees) (passed : List (Nat × Node)) (state : Defs) : Prop where
  negative : state.negative = passed.any fun tree => tree.2.subtracts
  indVars : ∀ setid, state.indVars setid = true → findIndVars loop setid = true ∧
    (passed.filter fun tree => tree.2.assigns setid) = (state.defs setid).toList
  increment : ∀ index, state.loopIncrementIndex = some index → ∃ update left val,
    passed[index]? = some (loop.testBlock, .assign update left) ∧
    update.right.value? = some val ∧
    state.increment =
      if (passed.take (index + 1)).any (fun tree => tree.2.subtracts) then -val else val

theorem Passed.increment_append (holds : Passed loop passed state) (tree : Nat × Node) (index : Nat)
    (isIndex : state.loopIncrementIndex = some index) : ∃ update left val,
      (passed ++ [tree])[index]? = some (loop.testBlock, .assign update left) ∧
      update.right.value? = some val ∧
      state.increment = if ((passed ++ [tree]).take (index + 1)).any fun tree => tree.2.subtracts
        then -val else val := by
  obtain ⟨update, left, val, place, isVal, sign⟩ := holds.increment index isIndex
  obtain ⟨below, -⟩ := List.getElem?_eq_some_iff.1 place
  refine ⟨update, left, val, by rw [List.getElem?_append_left below, place], isVal, ?_⟩
  rw [take_append_of_le_length below]
  exact sign

theorem Passed.ignore (holds : Passed loop passed state) (tree : Nat × Node)
    (unassigned : ∀ setid, state.indVars setid = true → tree.2.assigns setid = false) :
    Passed loop (passed ++ [tree])
      { state with negative := state.negative || tree.2.subtracts } where
  negative := by simp [holds.negative]
  indVars setid isSet := by
    obtain ⟨isIndVar, once⟩ := holds.indVars setid isSet
    refine ⟨isIndVar, ?_⟩
    rw [filter_append, once]
    simp [unassigned setid isSet]
  increment := holds.increment_append tree

/-- What one tree preserves. -/
theorem Passed.step {passed : List (Nat × Node)} {state : Defs} (holds : Passed loop passed state)
    (tree : Nat × Node) :
    Passed loop (passed ++ [tree]) (defStep loop state passed.length tree) := by
  obtain ⟨block, node⟩ := tree
  cases node with
  | comma left right =>
    simpa [defStep, Node.subtracts] using holds.ignore (block, .comma left right) fun _ _ => rfl
  | other object kills =>
    simpa [defStep, Node.subtracts] using holds.ignore (block, .other object kills) fun _ _ => rfl
  | assign update left =>
    simp only [defStep]
    cases isObject : left.object? with
    | none =>
      exact holds.ignore (block, .assign update left) fun setid _ => by
        simp [Node.assigns, isObject]
    | some target =>
      dsimp only
      by_cases isSet : state.indVars target = true
      swap
      · rw [if_neg isSet]
        refine holds.ignore (block, .assign update left) fun setid isIndVar => ?_
        have other : target ≠ setid := fun same => isSet (same ▸ isIndVar)
        simp [Node.assigns, isObject, other]
      rw [if_pos isSet]
      have assigned : ∀ setid, (Node.assign update left).assigns setid = (target == setid) := by
        intro setid
        simp [Node.assigns, isObject]
      split
      · rename_i val noDef isVal
        have defined : ∀ setid, state.indVars setid = true → findIndVars loop setid = true ∧
            ((passed ++ [(block, Node.assign update left)]).filter fun tree =>
              tree.2.assigns setid) =
              (Function.update state.defs target (some (block, .assign update left))
                setid).toList := by
          intro setid setidSet
          obtain ⟨isIndVar, once⟩ := holds.indVars setid setidSet
          refine ⟨isIndVar, ?_⟩
          rw [filter_append, once]
          by_cases same : target = setid
          · subst same
            simp [assigned, noDef]
          · simp [assigned, same, Function.update_of_ne (Ne.symm same)]
        split
        · rename_i inTest
          subst inTest
          refine ⟨by simp [holds.negative, Node.subtracts], defined, fun index isIndex => ?_⟩
          cases isIndex
          refine ⟨update, left, val, by simp, isVal, ?_⟩
          rw [take_of_length_le (by simp), holds.negative, any_append,
            any_cons, any_nil, Bool.or_false]
          rfl
        · refine ⟨by simp [holds.negative, Node.subtracts], defined, ?_⟩
          exact holds.increment_append _
      · refine ⟨by simp [holds.negative, Node.subtracts], fun setid setidSet => ?_,
          fun index isIndex => by cases isIndex⟩
        dsimp only at setidSet ⊢
        by_cases same : setid = target
        · subst same
          simp at setidSet
        · rw [Function.update_of_ne same] at setidSet ⊢
          obtain ⟨isIndVar, once⟩ := holds.indVars setid setidSet
          refine ⟨isIndVar, ?_⟩
          rw [filter_append, once]
          simp [assigned, Ne.symm same]

theorem Passed.run (rest : List (Nat × Node)) (holds : Passed loop passed state) :
    Passed loop (passed ++ rest) (defsFrom loop state passed.length rest) := by
  induction rest generalizing passed state with
  | nil => simpa [defsFrom] using holds
  | cons tree rest ih =>
    have next := ih (holds.step tree)
    simpa [defsFrom] using next

theorem passed_findIndVarDefs (loop : LoopTrees) : Passed loop loop.trees
    (findIndVarDefs loop) := by
  have start : Passed loop [] ⟨false, findIndVars loop, fun _ => none, none, 0⟩ :=
    ⟨rfl, fun _ isIndVar => ⟨isIndVar, rfl⟩, fun _ isIndex => by cases isIndex⟩
  exact start.run loop.trees

theorem mayChange_append (left right : List Kill) (setid : Nat) :
    loop.mayChange (left ++ right) setid =
      (loop.mayChange left setid || loop.mayChange right setid) := by
  simp only [LoopTrees.mayChange, contains_append]
  grind

theorem change_eq_some {setid : Nat} (changes : node.change = some (setid, delta)) :
    loop.mayChange node.kills setid = true ∧ node.induces = some setid := by
  cases node with
  | assign update left =>
    cases left <;> cases isRight : update.right <;>
      simp_all [Node.change, Node.kills, Node.induces, LoopTrees.mayChange, Left.kill, Right.isIcon]
  | comma left right => cases changes
  | other object kills => cases changes

theorem Does.frame (does : Does loop node before after)
    (leaves : loop.mayChange node.kills counter = false) : after counter = before counter := by
  unfold Does at does
  cases changes : node.change with
  | none =>
    rw [changes] at does
    exact does counter leaves
  | some change =>
    rw [changes] at does
    have other : counter ≠ change.1 := by
      rintro rfl
      rw [(change_eq_some changes).1] at leaves
      cases leaves
    rw [does, update_of_ne other]

theorem Executes.frame (runs : Executes loop node before after)
    (leaves : loop.mayChange node.kills counter = false) : after counter = before counter := by
  induction node generalizing before after with
  | assign update left => exact Does.frame runs leaves
  | other object kills => exact Does.frame runs leaves
  | comma left right leftHypothesis rightHypothesis =>
    obtain ⟨between, first, second⟩ := runs
    rw [Node.kills, mayChange_append, Bool.or_eq_false_iff] at leaves
    rw [rightHypothesis second leaves.2, leftHypothesis first leaves.1]

theorem exists_executes (loop : LoopTrees) (node : Node) (before : Values) :
    ∃ after, Executes loop node before after := by
  have does : ∀ (node : Node) (before : Values), ∃ after, Does loop node before after := by
    intro node before
    unfold Does
    cases node.change with
    | none => exact ⟨before, fun _ _ => rfl⟩
    | some change => exact ⟨_, rfl⟩
  induction node generalizing before with
  | assign update left => exact does _ before
  | other object kills => exact does _ before
  | comma left right leftHypothesis rightHypothesis =>
    obtain ⟨between, first⟩ := leftHypothesis before
    obtain ⟨after, second⟩ := rightHypothesis between
    exact ⟨after, between, first, second⟩

theorem exists_executesAll (loop : LoopTrees) (nodes : List Node) (before : Values) :
    ∃ after, ExecutesAll loop nodes before after := by
  induction nodes generalizing before with
  | nil => exact ⟨before, rfl⟩
  | cons node rest ih =>
    obtain ⟨between, first⟩ := exists_executes loop node before
    obtain ⟨after, others⟩ := ih between
    exact ⟨after, between, first, others⟩

/-- Only one tree of a loop may change a variable, and it adds a constant to it. -/
structure OnlyChange (loop : LoopTrees) (counter : Nat) (update : Update) (delta : BitVec 32) :
    Prop where
  change : (Node.assign update (.name counter)).change = some (counter, delta)
  once : (loop.trees.filter fun tree => loop.mayChange tree.2.kills counter) =
    [(loop.testBlock, .assign update (.name counter))]
  assigned : (loop.trees.filter fun tree => tree.2.assigns counter) =
    [(loop.testBlock, .assign update (.name counter))]
  children : loop.mayChange loop.childKills counter = false

section

variable (only : OnlyChange loop counter update delta)
include only

theorem OnlyChange.executesAll {nodes : List Node}
    (inLoop : ∀ other ∈ nodes, loop.mayChange other.kills counter = true →
      other = .assign update (.name counter)) (runs : ExecutesAll loop nodes before after) :
    after counter = before counter +
      (nodes.countP fun other => loop.mayChange other.kills counter) • delta := by
  induction nodes generalizing before with
  | nil =>
    cases runs
    simp
  | cons head rest ih =>
    obtain ⟨between, first, others⟩ := runs
    rw [ih (fun other member => inLoop other (.tail _ member)) others]
    by_cases changes : loop.mayChange head.kills counter = true
    · obtain rfl := inLoop head (.head _) changes
      have does : Does loop _ before between := first
      rw [Does, only.change] at does
      rw [countP_cons_of_pos (by exact changes), succ_nsmul, does, update_self]
      rw [add_assoc, add_comm delta]
    · rw [countP_cons_of_neg (by exact changes), first.frame (Bool.eq_false_iff.2 changes)]

theorem OnlyChange.countP_treesOf (block : Nat) :
    ((loop.treesOf block).countP fun other => loop.mayChange other.kills counter) =
      if loop.testBlock = block then 1 else 0 := by
  rw [LoopTrees.treesOf, countP_map, countP_eq_length_filter, filter_filter]
  have swap : (loop.trees.filter fun tree =>
      ((fun other : Node => loop.mayChange other.kills counter) ∘ Prod.snd) tree &&
        (tree.1 == block)) =
      [(loop.testBlock, Node.assign update (.name counter))].filter
        fun tree => tree.1 == block := by
    rw [← only.once, filter_filter]
    exact filter_congr fun tree _ => Bool.and_comm ..
  rw [swap]
  by_cases same : loop.testBlock = block <;> simp [same]

theorem OnlyChange.countsBy : CountsBy loop counter delta := by
  have along : ∀ (path : List (Option Nat)) (before after : Values),
      ExecutesPath loop path before after →
      after counter = before counter + path.count (some loop.testBlock) • delta := by
    intro path
    induction path with
    | nil =>
      rintro before after rfl
      simp
    | cons piece rest ih =>
      intro before after runs
      cases piece with
      | none =>
        obtain ⟨between, first, others⟩ := runs
        rw [ih _ _ others, first counter only.children]
        simp
      | some block =>
        obtain ⟨between, first, others⟩ := runs
        have inLoop : ∀ other ∈ loop.treesOf block, loop.mayChange other.kills counter = true →
            other = .assign update (.name counter) := by
          intro other member changes
          obtain ⟨tree, inBlock, rfl⟩ := mem_map.1 member
          have listed : tree ∈ loop.trees.filter fun tree =>
              loop.mayChange tree.2.kills counter :=
            mem_filter.2 ⟨(mem_filter.1 inBlock).1, changes⟩
          rw [only.once, mem_singleton] at listed
          rw [listed]
        rw [ih _ _ others, only.executesAll inLoop first,
          only.countP_treesOf, count_cons, add_assoc, ← add_nsmul]
        by_cases same : loop.testBlock = block
        · rw [if_pos same, if_pos (by simp [same]), add_comm 1]
        · rw [if_neg same, if_neg (by simpa using Ne.symm same), Nat.zero_add, Nat.add_zero]
  intro path before after once runs
  rw [along path before after runs, once, one_nsmul]

end

theorem fixCounterUpdate_genUpdateCode {updates : List (Nat × Int)} {found : Node}
    (other : ∀ update ∈ updates, update.1 ≠ counter)
    (finds : fixCounterUpdate counter (genUpdateCode updates node) = some found) :
    fixCounterUpdate counter node = some found := by
  induction updates generalizing node with
  | nil => exact finds
  | cons update rest ih =>
    have inner := ih (fun item member => other item (.tail _ member)) finds
    have notTemp : update.1 ≠ counter := other update (.head _)
    simpa [fixCounterUpdate, Left.object?, notTemp] using inner

/-- The increment that is used comes from the only tree that changes the counter. -/
theorem counterIncrement_cases {temps : Temporaries loop} {increment : BitVec 32}
    (unrolls : counterIncrement loop temps counter = some increment) :
    ∃ index update value,
      loop.trees[index]? = some (loop.testBlock, .assign update (.name counter)) ∧
      update.right = .icon value ∧
      OnlyChange loop counter update
        (if update.subtracts then -BitVec.ofInt 32 value else BitVec.ofInt 32 value) ∧
      increment = if (loop.trees.take (index + 1)).any fun tree => tree.2.subtracts
        then -BitVec.ofInt 32 value else BitVec.ofInt 32 value := by
  have passed := passed_findIndVarDefs loop
  unfold counterIncrement at unrolls
  dsimp only at unrolls
  split at unrolls
  · cases unrolls
  rename_i index isIndex
  split at unrolls
  · cases unrolls
  rename_i used
  have isSet : (findIndVarDefs loop).indVars counter = true := by simpa using (not_or.1 used).2
  obtain ⟨isIndVar, once⟩ := passed.indVars counter isSet
  obtain ⟨update, left, val, place, isVal, isIncrement⟩ := passed.increment index isIndex
  rw [place] at unrolls
  obtain ⟨found, finds, same⟩ := Option.map_eq_some_iff.1 unrolls
  have ofCounter : left.object? = some counter := by
    have leaf := fixCounterUpdate_genUpdateCode (fun item member isTemp => by
      have fresh := temps.fresh index item member
      rw [isTemp, isIndVar] at fresh
      cases fresh) finds
    rw [fixCounterUpdate] at leaf
    by_contra other
    rw [if_neg other] at leaf
    cases leaf
  have member := mem_of_getElem? place
  obtain ⟨children, induced⟩ := findIndVars_right isIndVar
  have killed : ∀ tree ∈ loop.trees, loop.mayChange tree.2.kills counter =
      tree.2.assigns counter := by
    intro tree listed
    rw [Bool.eq_iff_iff]
    constructor
    · intro changes
      have isUpdate := induced tree listed changes
      unfold Node.induces at isUpdate
      split at isUpdate
      · rename_i isTree
        rw [isTree]
        obtain ⟨_, ⟨⟩⟩ := Option.ite_none_right_eq_some.1 isUpdate
        simp [Node.assigns, Left.object?]
      · cases isUpdate
    · intro assigns
      unfold Node.assigns at assigns
      split at assigns
      · rename_i side isTree
        cases side <;> simp_all [Node.kills, LoopTrees.mayChange, Left.kill, Left.object?]
      · cases assigns
  have assigns : (Node.assign update left).assigns counter = true := by
    simp [Node.assigns, ofCounter]
  obtain ⟨value, isValue, isRight⟩ : ∃ value, val = BitVec.ofInt 32 value ∧
    update.right = .icon value := by
    cases right : update.right with
    | icon value =>
      rw [right, Right.value?, Option.map_eq_some_iff] at isVal
      obtain ⟨long, fits, isLong⟩ := isVal
      unfold numToslong at fits
      split at fits
      · cases fits
        exact ⟨value, isLong.symm, rfl⟩
      · cases fits
    | address => rw [right] at isVal; cases isVal
    | other kills => rw [right] at isVal; cases isVal
  obtain rfl : left = .name counter := by
    have isUpdate := induced _ member ((killed _ member).trans assigns)
    cases left <;> simp_all [Node.induces, Left.object?]
  have assigned : (loop.trees.filter fun tree => tree.2.assigns counter) =
      [(loop.testBlock, .assign update (.name counter))] := by
    rw [once]
    have listed : (loop.testBlock, Node.assign update (.name counter)) ∈
        ((findIndVarDefs loop).defs counter).toList := by
      rw [← once]
      exact mem_filter.2 ⟨member, assigns⟩
    rw [Option.mem_toList] at listed
    rw [Option.mem_def.1 listed]
    rfl
  refine ⟨index, update, value, place, isRight, ⟨?_, ?_, assigned, children⟩, ?_⟩
  · simp [Node.change, isRight]
  · rw [filter_congr killed, assigned]
  · rw [← same, isIncrement, isValue]

theorem takeWhile_eq_take {trees : List (Nat × Node)} {p : Nat × Node → Bool} {index : Nat}
    (once : trees.filter p = [tree]) (place : trees[index]? = some tree) :
    (trees.takeWhile fun tree => !p tree) = trees.take index := by
  obtain ⟨below, isTree⟩ := List.getElem?_eq_some_iff.1 place
  have passes : p tree = true := (mem_filter.1 (once ▸ mem_singleton_self tree)).2
  have split : trees = trees.take index ++ tree :: trees.drop (index + 1) := by
    rw [← isTree, ← drop_eq_getElem_cons below, take_append_drop]
  have none : (trees.take index).filter p = [] := by
    have sum := congrArg length once
    rw [split, filter_append, filter_cons_of_pos passes, length_append] at sum
    exact length_eq_zero_iff.1 (by simp at sum; omega)
  have none' := filter_eq_nil_iff.1 none
  conv_lhs => rw [split]
  rw [takeWhile_append_of_pos (by simpa using none'),
    takeWhile_cons_of_neg (by simp [passes]), append_nil]

/-- The increment that is used is the constant by which every iteration changes the
counter, which nothing else changes, exactly when the sign is kept. -/
theorem counterIncrement_right (loop : LoopTrees) (temps : Temporaries loop) (counter : Nat)
    (increment : BitVec 32) (unrolls : counterIncrement loop temps counter = some increment) :
    (CountsBy loop counter increment ∧ ChangedOnce loop counter) ↔ SignKept loop counter := by
  obtain ⟨index, update, value, place, isRight, only, isIncrement⟩ := counterIncrement_cases unrolls
  have changedOnce : ChangedOnce loop counter := ⟨by rw [only.once]; rfl, only.children⟩
  have counts : CountsBy loop counter increment ↔ increment =
      if update.subtracts then -BitVec.ofInt 32 value else BitVec.ofInt 32 value := by
    constructor
    · intro countsBy
      obtain ⟨after, runs⟩ := exists_executesAll loop (loop.treesOf loop.testBlock) fun _ => 0
      have path : ExecutesPath loop [some loop.testBlock] (fun _ => 0) after := ⟨after, runs, rfl⟩
      have once : [some loop.testBlock].count (some loop.testBlock) = 1 := count_singleton_self
      have byIncrement := countsBy _ _ _ once path
      rw [only.countsBy _ _ _ once path] at byIncrement
      exact (add_left_cancel byIncrement).symm
    · rintro rfl
      exact only.countsBy
  have upTo : (loop.trees.take (index + 1)).any (fun tree => tree.2.subtracts) =
      ((loop.trees.takeWhile fun tree => !tree.2.assigns counter).any
        (fun tree => tree.2.subtracts) || update.subtracts) := by
    obtain ⟨below, isTree⟩ := List.getElem?_eq_some_iff.1 place
    rw [take_succ_eq_append_getElem below, any_append, isTree,
      takeWhile_eq_take only.assigned place]
    simp [Node.subtracts]
  rw [and_iff_left changedOnce, counts, isIncrement, upTo]
  constructor
  · intro right otherUpdate left otherValue member ofCounter otherRight adds earlier
    have listed : (loop.testBlock, Node.assign otherUpdate left) ∈
        loop.trees.filter fun tree => tree.2.assigns counter :=
      mem_filter.2 ⟨member, by simp [Node.assigns, ofCounter]⟩
    rw [only.assigned, mem_singleton] at listed
    cases listed
    rw [isRight] at otherRight
    cases otherRight
    rw [earlier, adds] at right
    simpa using right.symm
  · intro kept
    cases adds : update.subtracts with
    | true => simp
    | false =>
      by_cases earlier : (loop.trees.takeWhile fun tree => !tree.2.assigns counter).any
        (fun tree => tree.2.subtracts) = true
      · simpa [earlier] using (kept update (.name counter) value (mem_of_getElem? place) rfl
          isRight adds earlier).symm
      · simp [Bool.eq_false_iff.2 earlier]

/-- A loop whose test block updates the variables 1 and 2. -/
def twoUpdates (first second : Update) : LoopTrees where
  trees := [(7, .assign first (.name 2)), (7, .assign second (.name 1))]
  childKills := []
  testBlock := 7
  callKills _ := false
  derefKills _ := false

/-- Strength reduction has no candidates. -/
def noTemporaries (loop : LoopTrees) : Temporaries loop where
  updates _ := []
  fresh _ _ member := absurd member not_mem_nil

theorem counterIncrement_right_decrements :
    (CountsBy (twoUpdates (.incr 1) (.asgMinus (.icon 2))) 1 (-2) ∧
      ChangedOnce (twoUpdates (.incr 1) (.asgMinus (.icon 2))) 1) ↔
    SignKept (twoUpdates (.incr 1) (.asgMinus (.icon 2))) 1 :=
  counterIncrement_right _ (noTemporaries _) 1 (-2) (by decide)

/-- The counter goes up by 1 behind the `--` of another variable, and the increment is -1. -/
theorem counterIncrement_behind_decr :
    counterIncrement (twoUpdates (.decr 1) (.incr 1)) (noTemporaries _) 1 = some (-1) ∧
      ¬ CountsBy (twoUpdates (.decr 1) (.incr 1)) 1 (-1) := by
  refine ⟨by decide, fun counts => ?_⟩
  have after := counts [some 7] (fun _ => 0) _ (by decide) ⟨_, ⟨_, rfl, _, rfl, rfl⟩, rfl⟩
  revert after
  decide

end Uw7.Amigo.Induction
