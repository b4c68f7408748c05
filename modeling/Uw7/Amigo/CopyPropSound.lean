import Uw7.Amigo.CellMachine

/-!
# Copy propagation is sound

On every path from the beginning of a function, a copy that reaches a block
stands for it, so that a use that was replaced has the value of its replacement
wherever it is read: when the assign table has room for the copies of the
function and no left operand changes what its tree may come to use.
-/

namespace Uw7.Amigo.Opt

open Uw7.Lib Function List

variable {env : CopyEnv} {graph : FlowGraph}

theorem copyPropBlock_append (block : Nat) (copies : Copies) (avin : Finset Nat) (nodes : List Tree)
    (node : Tree) : copyPropBlock env block copies avin (nodes ++ [node]) =
      copyPropNode env block (copyPropBlock env block copies avin nodes)
        node := by
  simp [copyPropBlock]

theorem done_foldl (block : Nat) (nodes : List Tree) (progress : Progress) : ∃ tail,
    (nodes.foldl (copyPropNode env block) progress).done = progress.done ++ tail := by
  induction nodes generalizing progress with
  | nil => exact ⟨[], (append_nil _).symm⟩
  | cons node rest ih =>
    obtain ⟨tail, same⟩ := ih (copyPropNode env block progress node)
    refine ⟨writeNode env block progress node :: tail, ?_⟩
    rw [foldl_cons, same]
    simp [copyPropNode]

theorem length_done (block : Nat) (copies : Copies) (avin : Finset Nat) (nodes : List Tree) :
    (copyPropBlock env block copies avin nodes).done.length = nodes.length := by
  induction nodes using reverseRecOn with
  | nil => rfl
  | append_singleton earlier node ih =>
    rw [copyPropBlock_append]
    simp [copyPropNode, ih]

theorem done_of_node (block : Nat) (copies : Copies) (avin : Finset Nat) {nodes : List Tree}
    {index : Nat} {node : Tree} (place : nodes[index]? = some node) :
    (copyPropBlock env block copies avin nodes).done[index]? = some (writeNode env block
      (copyPropBlock env block copies avin (nodes.take index)) node) := by
  obtain ⟨within, same⟩ := List.getElem?_eq_some_iff.1 place
  have split : nodes = nodes.take index ++ node :: nodes.drop (index + 1) := by
    rw [← same, ← drop_eq_getElem_cons within]
    exact (take_append_drop index nodes).symm
  have length : (copyPropBlock env block copies avin (nodes.take index)).done.length =
        index := by
    rw [length_done, length_take]
    exact Nat.min_eq_left (Nat.le_of_lt within)
  obtain ⟨tail, whole⟩ := @done_foldl env block (nodes.drop (index + 1)) (copyPropNode env block
    (copyPropBlock env block copies avin (nodes.take index)) node)
  have all : copyPropBlock env block copies avin nodes =
      (nodes.drop (index + 1)).foldl (copyPropNode env block) (copyPropNode env block
        (copyPropBlock env block copies avin (nodes.take index)) node) := by
    conv_lhs => rw [split]
    simp [copyPropBlock]
  rw [all, whole]
  simp only [copyPropNode, append_assoc]
  rw [List.getElem?_append_right (by rw [length]), length, Nat.sub_self]
  rfl

theorem ok_copyPropBlock {statement : Tree → Prop} {copies : Copies}
    (ok : CopiesOk env.table env.exprArraySize statement copies) (block : Nat) (avin : Finset Nat)
    (nodes : List Tree) : CopiesOk env.table env.exprArraySize statement
      (copyPropBlock env block copies avin nodes).copies ∧
      copies.Extends (copyPropBlock env block copies avin nodes).copies := by
  induction nodes using reverseRecOn with
  | nil => exact ⟨ok, .refl copies⟩
  | append_singleton earlier node ih =>
    obtain ⟨going, extension⟩ := ih
    rw [copyPropBlock_append]
    obtain ⟨done, longer⟩ := ok_enterConst going (writeNode env block
      (copyPropBlock env block copies avin earlier) node)
    exact ⟨done, extension.trans longer⟩

/-- The table a block is scanned with, and what is written for it. -/
def WrittenWith (env : CopyEnv) (graph : FlowGraph) (collected : Copies) (written : Nat → List Done)
    (block : Nat) (copies : Copies) : Prop :=
  CopiesOk env.table env.exprArraySize (fun copy => copy ∈ copyStatements env.table graph) copies ∧
    collected.Extends copies ∧
    written block = (copyPropBlock env block copies (avinOf env graph block)
        (graph.nodes block)).done

theorem writtenWith_foldl {collected : Copies} (ok : CopiesOk env.table env.exprArraySize
    (fun copy => copy ∈ copyStatements env.table graph) collected) (order : List Nat)
    (once : order.Nodup) :
    let result := order.foldl (writeBlock env graph (avinOf env graph)) (collected, fun _ => [])
    (CopiesOk env.table env.exprArraySize
      (fun copy => copy ∈ copyStatements env.table graph) result.1 ∧
      collected.Extends result.1) ∧
      ∀ block ∈ order, ∃ copies, WrittenWith env graph collected result.2 block copies := by
  induction order using reverseRecOn with
  | nil => exact ⟨⟨ok, .refl collected⟩, fun _ none => nomatch none⟩
  | append_singleton earlier block ih =>
    obtain ⟨distinct, _, apart⟩ := nodup_append.1 once
    obtain ⟨⟨going, extension⟩, blocks⟩ := ih distinct
    simp only [foldl_append, foldl_cons, foldl_nil]
    generalize earlier.foldl (writeBlock env graph (avinOf env graph))
      (collected, fun _ => []) = before
      at going extension blocks ⊢
    obtain ⟨done, longer⟩ := ok_copyPropBlock going block (avinOf env graph block)
      (graph.nodes block)
    refine ⟨⟨done, extension.trans longer⟩, ?_⟩
    intro other member
    rcases mem_append.1 member with old | new
    · obtain ⟨copies, right, extends', same⟩ := blocks other old
      have different : other ≠ block := apart other old block (mem_singleton.2 rfl)
      exact ⟨copies, right, extends', (update_of_ne different _ _).trans same⟩
    · rw [mem_singleton.1 new]
      exact ⟨before.1, going, extension, update_self _ _ _⟩

/-- A tree stands at a place, in the function or in what was written for it. -/
def WrittenAt (graph : FlowGraph) (written : Nat → List Done) (block index : Nat)
    (tree : Tree) : Prop :=
  (graph.nodes block)[index]? = some tree ∨
    ∃ done, (written block)[index]? = some done ∧ done.node = tree

section

variable {State Value : Type} {machine : Machine State Value}

/-- What holds where control stands: copies that reach the block and were not
killed since stand, so do copies made in the block, and the scan of the block
is right. -/
structure HoldsAt (machine : Machine State Value) (env : CopyEnv) (graph : FlowGraph)
    (collected : Copies) (copiesAt : Nat → Copies) (config : Config State) : Prop where
  listed : config.block ∈ graph.order
  within : config.index ≤ (graph.nodes config.block).length
  avin : ∀ assign ∈ avinOf env graph config.block,
      ∃ copy, collected.assignArray assign = some copy ∧
        ((∀ node ∈ (graph.nodes config.block).take config.index,
            Survives env.table copy (env.table.recursiveKills node)) →
          Stands machine (WrittenAt graph (copyProp env graph).2) config.history config.state copy)
  made : ∀ before node after, (graph.nodes config.block).take config.index =
      before ++ node :: after → isCopyStatement env.table node = true →
      (∀ later ∈ after, Survives env.table node (env.table.recursiveKills later)) →
      Stands machine (WrittenAt graph (copyProp env graph).2) config.history config.state node
  scan : ScanRight machine env graph (WrittenAt graph (copyProp env graph).2)
      config.history config.state
      (copyPropBlock env config.block (copiesAt config.block) (avinOf env graph config.block)
        ((graph.nodes config.block).take config.index))

/-- The tables the blocks are scanned with. -/
def ScannedWith (env : CopyEnv) (graph : FlowGraph) (collected : Copies)
    (copiesAt : Nat → Copies) : Prop :=
  ∀ block ∈ graph.order, WrittenWith env graph collected (copyProp env graph).2 block
      (copiesAt block)

variable {collected : Copies} {copiesAt : Nat → Copies} {config : Config State}

theorem holdsAt_entered (scanned : ScannedWith env graph collected copiesAt) {block : Nat}
    (listed : block ∈ graph.order) {history : List (Entry State)} {state : State}
    (stand : AllStand machine (WrittenAt graph (copyProp env graph).2) history state
      collected (avinOf env graph block)) :
    HoldsAt machine env graph collected copiesAt ⟨block, 0, state, history⟩ := by
  obtain ⟨ok, extension, -⟩ := scanned block listed
  refine ⟨listed, Nat.zero_le _, ?_, ?_, ok, ?_⟩
  · intro assign member
    obtain ⟨copy, entry, stands⟩ := stand assign member
    exact ⟨copy, entry, fun _ => stands⟩
  · intro before node after split
    cases before <;> cases split
  · intro assign member
    obtain ⟨copy, entry, stands⟩ := stand assign member
    exact ⟨copy, extension.array assign copy entry, stands⟩

/-- A tree that is evaluated keeps what holds. -/
theorem holdsAt_tree (laws : CopyLaws machine env)
    (inBlocks : ∀ block ∈ graph.order, block ∈ graph.blocks)
    (ok : CopiesOk env.table env.exprArraySize
      (fun copy => copy ∈ copyStatements env.table graph) collected)
    (scanned : ScannedWith env graph collected copiesAt)
    (harmless : ∀ block ∈ graph.order, ∀ node ∈ graph.nodes block,
      LeftHarmless env.table graph node)
    (holds : HoldsAt machine env graph collected copiesAt config) {node : Tree}
    (stands : (graph.nodes config.block)[config.index]? = some node) {value : Value} {final : State}
    {events : List (Event State)}
    (evaluates : Evaluates machine false node config.state value final events) :
    HoldsAt machine env graph collected copiesAt
      { config with
        index := config.index + 1
        state := final
        history := config.history ++ [⟨config.block, config.index, final⟩] } := by
  obtain ⟨below, here⟩ := List.getElem?_eq_some_iff.1 stands
  have member : node ∈ graph.nodes config.block := mem_of_getElem? stands
  have keeps := laws.cover _ _ _ _ _ _ evaluates
  have longer : (graph.nodes config.block).take (config.index + 1) =
      (graph.nodes config.block).take config.index ++ [node] := by
    rw [take_add_one, stands]
    rfl
  have oldWritten : WrittenAt graph (copyProp env graph).2 config.block config.index node :=
    .inl stands
  -- a copy that the tree does not kill stands after it
  have stay {copy : Tree} (shape : CopyShape env.table copy) (stood :
      Stands machine (WrittenAt graph (copyProp env graph).2) config.history config.state copy)
      (survives : Survives env.table copy (env.table.recursiveKills node)) :
      Stands machine (WrittenAt graph (copyProp env graph).2)
        (config.history ++ [⟨config.block, config.index, final⟩]) final
        copy :=
    stood.after laws shape (sameSides_of_survives keeps shape survives) _ _
  refine ⟨holds.listed, below, ?_, ?_, ?_⟩
  · intro assign inside
    obtain ⟨copy, entry, stood⟩ := holds.avin assign inside
    refine ⟨copy, entry, ?_⟩
    intro survive
    rw [longer] at survive
    refine stay (ok.shape assign copy entry)
      (stood fun other place => survive other (mem_append_left _ place))
      (survive node (mem_append_right _ (mem_singleton.2 rfl)))
  · intro before copy after split isCopy survive
    rw [longer] at split
    have valid : isValidCopyNode env.table copy (env.table.recursiveKills copy) =
        true := by
      rw [isCopyStatement, Bool.and_eq_true] at isCopy
      exact isCopy.2
    rcases eq_nil_or_concat' after with rfl | ⟨middle, last, rfl⟩
    · -- the tree is the copy
      obtain ⟨-, same⟩ := append_inj' split rfl
      cases same
      refine stands_new oldWritten ?_
      have statement : node ∈ copyStatements env.table graph := mem_toFinset.2 (mem_filter.2
          ⟨mem_flatMap.2 ⟨_, inBlocks _ holds.listed, member⟩, isCopy⟩)
      exact copied_of_statement laws (copyShape_of_valid valid) (.inl statement) evaluates
    · -- the copy was made before
      have split' : (graph.nodes config.block).take config.index ++ [node] =
          (before ++ copy :: middle) ++ [last] := by
        rw [split]
        simp
      obtain ⟨earlier, same⟩ := append_inj' split' rfl
      cases same
      refine stay (copyShape_of_valid valid) (holds.made before copy middle earlier isCopy ?_) ?_
      · intro later place
        exact survive later (mem_append_left _ place)
      · exact survive node (mem_append_right _ (mem_singleton.2 rfl))
  · obtain ⟨-, -, written⟩ := scanned config.block holds.listed
    have new : WrittenAt graph (copyProp env graph).2 config.block config.index
        (writeNode env config.block (copyPropBlock env config.block (copiesAt config.block)
          (avinOf env graph config.block)
          ((graph.nodes config.block).take config.index)) node).node := by
      refine .inr ⟨_, ?_, rfl⟩
      rw [written]
      exact done_of_node _ _ _ stands
    rw [longer, copyPropBlock_append]
    exact (scanRight_copyPropNode laws holds.scan
      (harmless _ holds.listed node member) evaluates oldWritten new).1

theorem grows_availProblem (size : Nat) (killed reaches : Nat → Finset Nat) :
    (availProblem graph size killed reaches).Grows := by
  intro before place lower upper below
  exact Finset.union_subset_union (Finset.sdiff_subset_sdiff below (Finset.Subset.refl _))
    (Finset.Subset.refl _)

theorem sound_avinOf (env : CopyEnv) (graph : FlowGraph) : MustSets.Problem.Sound
    (availProblem graph env.exprArraySize (assignsKilled env.table env.exprArraySize graph
      (collectBlocks env.table env.exprArraySize graph).1
      (collectBlocks env.table env.exprArraySize graph).2)
      fun block => ((collectBlocks env.table env.exprArraySize graph).2 block).reachesExit)
    (avinOf env graph) :=
  MustSets.Problem.sound_fromFull (grows_availProblem _ _ _)

theorem holdsAt_edge (wellFormed : graph.WellFormed)
    (room : (copyStatements env.table graph).card < env.exprArraySize)
    (scanned : ScannedWith env graph (collectBlocks env.table env.exprArraySize graph).1 copiesAt)
    (holds : HoldsAt machine env graph
      (collectBlocks env.table env.exprArraySize graph).1 copiesAt config)
    (ends : config.index = (graph.nodes config.block).length) {next : Nat}
    (edge : next ∈ graph.succ config.block) :
    HoldsAt machine env graph (collectBlocks env.table env.exprArraySize graph).1 copiesAt
      { config with block := next, index := 0 } := by
  obtain ⟨collecting, blocks⟩ := localRight_collectBlocks room
  have right := blocks config.block (wellFormed.within _ holds.listed)
  have nextListed := wellFormed.listed _ holds.listed next edge
  have whole : (graph.nodes config.block).take config.index = graph.nodes config.block := by
    rw [ends]
    exact take_length
  refine holdsAt_entered scanned nextListed ?_
  intro assign member
  have passed := (sound_avinOf env graph).passed next nextListed config.block
      (wellFormed.joined _ _ edge) member
  rcases Finset.mem_union.1 passed with through | made
  · obtain ⟨inside, notKilled⟩ := Finset.mem_sdiff.1 through
    obtain ⟨copy, entry, stands⟩ := holds.avin assign inside
    refine ⟨copy, entry, stands ?_⟩
    rw [whole]
    intro node place
    -- the block does not kill the copy
    obtain ⟨from1, upTo, below⟩ := collecting.ok.within assign copy entry
    have spared : killsAssign env.table (collectBlocks env.table env.exprArraySize graph).1
        ((collectBlocks env.table env.exprArraySize graph).2
          config.block).exprsKilled assign = false := by
      by_contra killed
      rw [Bool.not_eq_false] at killed
      refine notKilled ?_
      unfold assignsKilled
      rw [if_pos holds.listed]
      exact Finset.mem_filter.2 ⟨Finset.mem_Icc.2 ⟨from1, upTo⟩, Nat.le_of_lt below, killed⟩
    obtain ⟨leftSpared, rightSpared⟩ := (survives_iff entry _).1 spared
    exact ⟨fun hit => leftSpared (right.killed node place hit),
      fun hit => rightSpared (right.killed node place hit)⟩
  · obtain ⟨before, node, after, split, isCopy, entry, survive⟩ := right.reaches assign made
    refine ⟨node, entry, holds.made before node after ?_ isCopy survive⟩
    rw [whole, split]

theorem holdsAt_run (laws : CopyLaws machine env) (wellFormed : graph.WellFormed)
    (room : (copyStatements env.table graph).card < env.exprArraySize)
    (harmless : ∀ block ∈ graph.order, ∀ node ∈ graph.nodes block,
      LeftHarmless env.table graph node) :
    ∃ copiesAt, ScannedWith env graph (collectBlocks env.table env.exprArraySize graph).1 copiesAt ∧
      ∀ (state : State) actions config,
        Run (Moves machine graph) (Config.start graph state) actions config →
        HoldsAt machine env graph (collectBlocks env.table env.exprArraySize graph).1 copiesAt
          config := by
  obtain ⟨collecting, -⟩ := localRight_collectBlocks room
  obtain ⟨-, blocks⟩ := writtenWith_foldl collecting.ok graph.order wellFormed.once
  have : Inhabited Copies := ⟨.none⟩
  choose! copiesAt scanned using blocks
  refine ⟨copiesAt, scanned, ?_⟩
  intro state actions config run
  refine run.invariant ?_ ?_
  · intro before action after holds step
    cases step with
    | tree stands evaluates =>
      exact holdsAt_tree laws wellFormed.within collecting.ok scanned
        harmless holds stands evaluates
    | edge ends edge => exact holdsAt_edge wellFormed room scanned holds ends edge
  · refine holdsAt_entered scanned wellFormed.entryListed ?_
    rw [(sound_avinOf env graph).empty _ wellFormed.entryFirst]
    exact fun _ none => absurd none (Finset.notMem_empty _)

/-- Wherever a tree reads a use that copy propagation replaced, a copy of the
use by what replaced it was evaluated before, neither side was changed since,
and both have one value. -/
theorem copyProp_sound (laws : CopyLaws machine env) (wellFormed : graph.WellFormed)
    (room : (copyStatements env.table graph).card < env.exprArraySize)
    (harmless : ∀ block ∈ graph.order, ∀ node ∈ graph.nodes block,
      LeftHarmless env.table graph node)
    {start : State}
    {actions : List (Option Nat)}
    {config : Config State}
    (run : Run (Moves machine graph) (Config.start graph start) actions config)
    {node : Tree} (stands : (graph.nodes config.block)[config.index]? = some node)
    {value : Value}
    {final : State}
    {events : List (Event State)}
    (evaluates : Evaluates machine false node config.state value final events)
    {done : Done} (written : ((copyProp env graph).2 config.block)[config.index]? = some done) :
    ∀ replacement ∈ done.replacements, ∀ taken, ReadAt events replacement.path taken →
      ∃ copy, replacement.before = leftInfo copy ∧ replacement.after =
        (rightInfo copy).paint replacement.before.type ∧
        Stands machine (WrittenAt graph (copyProp env graph).2) config.history taken copy ∧
        machine.value false replacement.before taken =
          machine.value false replacement.after taken := by
  intro replacement member taken read
  obtain ⟨copiesAt, scanned, runs⟩ := holdsAt_run laws wellFormed room harmless
  have holds := runs start actions config run
  have place : node ∈ graph.nodes config.block := mem_of_getElem? stands
  obtain ⟨-, -, same⟩ := scanned config.block holds.listed
  rw [same, done_of_node _ _ _ stands, Option.some.injEq] at written
  subst written
  obtain ⟨copy, before, after, stood⟩ :=
    stands_of_read laws holds.scan (harmless _ holds.listed node place) evaluates member read
  refine ⟨copy, before, after, stood, ?_⟩
  rw [after, before]
  exact stood.2

/-- Some variables and constants. -/
def cellExpressions : List Tree :=
  [cellVariable 1, cellVariable 2, cellNumber 5, cellNumber 0, cellAddress 2, cellAddress 3]

def copiedNumber : List Tree := [.binary .assign 0 (cellVariable 1) (cellNumber 5),
    .binary .assign 0 (cellVariable 2) (cellVariable 1)]

def storedBehind : List Tree := [.binary .assign 0 (cellVariable 1) (cellAddress 2),
    .binary .assign 0 (.unary .star 0 (.binary .comop 0
        (.binary .assign 0 (cellVariable 1) (cellAddress 3)) (cellVariable 1)))
      (cellNumber 0)]

/-- In `q = p` the use is replaced by the number that was copied. -/
theorem copyProp_sound_copiedNumber : ∃ copy, cellVariable 1 = leftInfo copy ∧
    cellNumber 5 = (rightInfo copy).paint (cellVariable 1).type ∧
    Stands cellMachine (WrittenAt (oneBlock copiedNumber)
      (copyProp (cellEnv cellExpressions 8) (oneBlock copiedNumber)).2)
      [⟨0, 0, update (fun _ => 0) 1 5⟩] (update (fun _ => 0) 1 5) copy ∧
    cellMachine.value false (cellVariable 1) (update (fun _ => 0) 1 5) =
      cellMachine.value false (cellNumber 5) (update (fun _ => 0) 1 5) := by
  have plain : ∀ tree ∈ cellExpressions, tree.isPlain = true := by decide
  have harmless : ∀ block ∈ (oneBlock copiedNumber).order,
      ∀ node ∈ (oneBlock copiedNumber).nodes block,
      LeftHarmless (cellEnv cellExpressions 8).table (oneBlock copiedNumber)
        node := by
    intro block member node inside
    refine leftHarmless_of_pure ?_
    intro op type left right same
    obtain rfl := mem_singleton.1 member
    rcases mem_pair.1 inside with rfl | rfl
    · cases same
      rfl
    · cases same
      rfl
  have first : Evaluates cellMachine false
      (.binary .assign 0 (cellVariable 1) (cellNumber 5)) (fun _ => 0) 5
      (update (fun _ => 0) 1 5) _ :=
    .leftRight rfl (by decide) (.pure rfl) (.pure rfl) ⟨rfl, rfl⟩
  have written : ((copyProp (cellEnv cellExpressions 8) (oneBlock copiedNumber)).2 0)[1]? =
      some ⟨.binary .assign 0 (cellVariable 2) (cellNumber 5),
        [⟨[.right], cellVariable 1, cellNumber 5⟩]⟩ := by
    rfl
  exact copyProp_sound (copyLaws_cellEnv plain 8)
    (wellFormed_oneBlock copiedNumber) (by decide +kernel) harmless
    (.snoc .nil (.tree rfl first)) rfl
    (.leftRight rfl (by decide) (.pure rfl) (.pure rfl) ⟨rfl, rfl⟩) written
    ⟨[.right], cellVariable 1, cellNumber 5⟩ (mem_singleton.2 rfl) (update (fun _ => 0) 1 5)
    ⟨[.right], prefix_rfl, .tail _ (.head _)⟩

/-- In `*(p = &b, p) = 0` the use is replaced by `&a`, though the left operand
has changed `p` when it is read. -/
theorem copyProp_storedBehind : CopyLaws cellMachine (cellEnv cellExpressions 8) ∧
    (oneBlock storedBehind).WellFormed ∧
    (copyStatements (cellEnv cellExpressions 8).table (oneBlock storedBehind)).card <
      (cellEnv cellExpressions 8).exprArraySize ∧
    ∃ actions config node value final events done replacement taken,
      Run (Moves cellMachine (oneBlock storedBehind))
        (Config.start (oneBlock storedBehind) fun _ => 0) actions config ∧
        ((oneBlock storedBehind).nodes config.block)[config.index]? = some node ∧
        Evaluates cellMachine false node config.state value final events ∧
        ((copyProp (cellEnv cellExpressions 8) (oneBlock storedBehind)).2
          config.block)[config.index]? = some done ∧
        replacement ∈ done.replacements ∧ ReadAt events replacement.path taken ∧
        cellMachine.value false replacement.before taken ≠
          cellMachine.value false replacement.after taken := by
  have plain : ∀ tree ∈ cellExpressions, tree.isPlain = true := by decide
  have first : Evaluates cellMachine false
      (.binary .assign 0 (cellVariable 1) (cellAddress 2)) (fun _ => 0) 2
      (update (fun _ => 0) 1 2) _ :=
    .leftRight rfl (by decide) (.pure rfl) (.pure rfl) ⟨rfl, rfl⟩
  have inner : Evaluates cellMachine false (.binary .assign 0 (cellVariable 1) (cellAddress 3))
      (update (fun _ => 0) 1 2) 3 (update (update (fun _ => 0) 1 2) 1 3) _ :=
    .leftRight rfl (by decide) (.pure rfl) (.pure rfl) ⟨rfl, rfl⟩
  refine ⟨copyLaws_cellEnv plain 8, wellFormed_oneBlock storedBehind,
    by decide +kernel, _, _, _, _, _, _,
    ⟨_, [⟨[.left, .left, .right], cellVariable 1, cellAddress 2⟩]⟩,
    ⟨[.left, .left, .right], cellVariable 1, cellAddress 2⟩, update (update (fun _ => 0) 1 2) 1 3,
    .snoc .nil (.tree rfl first), rfl,
    .leftRight rfl (by decide) (.unary rfl (.leftRight rfl (by decide) inner (.pure rfl) ⟨rfl, rfl⟩)
      ⟨rfl, rfl⟩)
      (.pure rfl) ⟨rfl, rfl⟩, rfl, mem_singleton.2 rfl, ?_, ?_⟩
  · exact ⟨[.left, .left, .right], prefix_rfl, .tail _ (.tail _ (.tail _ (.head _)))⟩
  · decide +kernel

end

end Uw7.Amigo.Opt
