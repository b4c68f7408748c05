import Uw7.Amigo.FlowLabels

/-!
# The edges of the branches

Resolving the branches adds an edge to both of its lists for every branch, so
that the lists stay each other's inverse, and changes no block otherwise.
-/

namespace Uw7.Amigo.Flow

open List

/-- The labels an item may pass control to. -/
def CgqItem.targets : CgqItem → List Nat
  | .cbranch label => [label]
  | .jump label => [label]
  | .swend cases default? => cases ++ default?.toList
  | _ => []

section

variable (blocks : Nat → Block) (source : Nat) (target : Nat) (number : Nat)
include blocks source target number

theorem addEdge_apply : addEdge blocks source target number =
      { blocks number with
        succ :=
          if number = source then target :: (blocks number).succ
          else (blocks number).succ
        pred :=
          if number = target then source :: (blocks number).pred
          else (blocks number).pred } := by
  by_cases atTarget : number = target
  · subst atTarget
    by_cases atSource : number = source
    · subst atSource
      simp [addEdge]
    · simp [addEdge, atSource]
  · by_cases atSource : number = source
    · subst atSource
      simp [addEdge, atTarget]
    · simp [addEdge, atTarget, atSource]

theorem count_succ_addEdge (other : Nat) :
    ((addEdge blocks source target number).succ).count other = (blocks number).succ.count other +
      if source = number ∧ target = other then 1 else 0 := by
  rw [addEdge_apply]
  by_cases atSource : number = source
  · simp [atSource, count_cons]
  · have away : source ≠ number := fun same => atSource same.symm
    simp [atSource, away]

theorem count_pred_addEdge (other : Nat) :
    ((addEdge blocks source target number).pred).count other = (blocks number).pred.count other +
      if source = other ∧ target = number then 1 else 0 := by
  rw [addEdge_apply]
  by_cases atTarget : number = target
  · simp [atTarget, count_cons]
  · have away : target ≠ number := fun same => atTarget same.symm
    simp [atTarget, away]

end

/-- A branch from one block whose label has another. -/
def BranchDescriptor.joins (table : Nat → LabelDescriptor) (source target : Nat)
    (branch : BranchDescriptor) : Bool :=
  branch.block == source && (table branch.targetLabel).block == some target

section

variable (table : Nat → LabelDescriptor) (branches : List BranchDescriptor) (blocks : Nat → Block)
  (number : Nat) (other : Nat)
include table branches blocks number other

theorem count_foldl_resolveBranch :
    (((branches.foldl (resolveBranch table) blocks number).succ).count other =
      (blocks number).succ.count other +
        branches.countP (BranchDescriptor.joins table number other)) ∧
      (((branches.foldl (resolveBranch table) blocks number).pred).count other =
        (blocks number).pred.count other +
          branches.countP (BranchDescriptor.joins table other number)) ∧
      (branches.foldl (resolveBranch table) blocks number).first = (blocks number).first ∧
      (branches.foldl (resolveBranch table) blocks number).last = (blocks number).last := by
  induction branches generalizing blocks with
  | nil => simp
  | cons branch branches ih =>
    obtain ⟨succs, preds, first, last⟩ := ih (resolveBranch table blocks branch)
    simp only [foldl_cons, succs, preds, first, last, countP_cons]
    cases block : (table branch.targetLabel).block with
    | none => simp [resolveBranch, block, BranchDescriptor.joins]
    | some target =>
      have step : resolveBranch table blocks branch = addEdge blocks branch.block target := by
        simp [resolveBranch, block]
      have joins (source into : Nat) : branch.joins table source into = true ↔
          branch.block = source ∧ target = into := by
        simp [BranchDescriptor.joins, block]
      simp only [step, joins, count_succ_addEdge, count_pred_addEdge]
      refine ⟨by omega, by omega, ?_, ?_⟩ <;> rw [addEdge_apply]

theorem count_resolve :
    (((resolve table branches blocks number).succ).count other = (blocks number).succ.count other +
      branches.countP (BranchDescriptor.joins table number other)) ∧
      (((resolve table branches blocks number).pred).count other =
        (blocks number).pred.count other +
          branches.countP (BranchDescriptor.joins table other number)) ∧
      (resolve table branches blocks number).first = (blocks number).first ∧
      (resolve table branches blocks number).last = (blocks number).last := by
  have sorted := mergeSort_perm branches fun left right => left.targetLabel ≤ right.targetLabel
  have counted := count_foldl_resolveBranch table (branches.mergeSort fun left right =>
      left.targetLabel ≤ right.targetLabel) blocks number other
  rw [sorted.countP_eq, sorted.countP_eq] at counted
  exact counted

end

def retargetItem (table : Nat → LabelDescriptor) (item : CgqItem) : CgqItem :=
  match item with
  | .cbranch label => .cbranch ((table label).mapLabel.getD label)
  | .jump label => .jump ((table label).mapLabel.getD label)
  | _ => item

/-- A branch stands for its tree: the item it was entered for. -/
def BranchDescriptor.ofTree (itemAt : Nat → CgqItem) (branch : BranchDescriptor) : Prop :=
  branch ∈ branchesOf (itemAt branch.place) branch.block branch.place

variable {branch : BranchDescriptor} {scan : Scan}

theorem retargetTree_eq {table : Nat → LabelDescriptor} {itemAt reached : Nat → CgqItem}
    (entered : branch.ofTree itemAt) (sofar : reached branch.place = itemAt branch.place ∨
      reached branch.place = retargetItem table (itemAt branch.place)) (position : Nat) :
    retargetTree table reached branch position =
      if position = branch.place then
        if branch.tree = .cbranch ∨ branch.tree = .jump then
          retargetItem table (itemAt position)
        else reached position
      else reached position := by
  obtain ⟨label, block, tree, place⟩ := branch
  unfold BranchDescriptor.ofTree at entered
  by_cases here : position = place
  · subst here
    cases item : itemAt position with
    | cbranch target | jump target =>
      simp only [item, branchesOf, mem_singleton, BranchDescriptor.mk.injEq] at entered
      obtain ⟨rfl, _, rfl, _⟩ := entered
      simp only [item, retargetItem] at sofar ⊢
      rcases sofar with same | same <;> simp [retargetTree, retargetBranch, same, CgqItem.relabel]
    | swend cases default? =>
      simp only [item, branchesOf, mem_append, mem_map, BranchDescriptor.mk.injEq] at entered
      rcases entered with ⟨_, _, _, _, rfl, _⟩ | ⟨_, _, _, _, rfl, _⟩ <;> simp [retargetTree]
    | nd1 | fixSwbeg | ret | labelOp _ | setlocctr | setlocctrInt
      | dbSBlock | dbEBlock | other => simp [item, branchesOf] at entered
  · cases tree <;> simp [retargetTree, here]

theorem foldl_retargetTree {table : Nat → LabelDescriptor} {itemAt reached : Nat → CgqItem}
    {branches : List BranchDescriptor}
    (entered : ∀ branch, branch ∈ branches → branch.ofTree itemAt)
    (sofar : ∀ position, reached position = itemAt position ∨
      reached position = retargetItem table (itemAt position))
    (position : Nat) : (branches.foldl (retargetTree table) reached position = reached position ∨
      branches.foldl (retargetTree table) reached position = retargetItem table (itemAt position)) ∧
      (reached position = retargetItem table (itemAt position) ∨
        (∃ branch, branch ∈ branches ∧ branch.place = position ∧
          (branch.tree = .cbranch ∨ branch.tree = .jump)) →
        branches.foldl (retargetTree table) reached position =
          retargetItem table (itemAt position)) := by
  induction branches generalizing reached with
  | nil => simp
  | cons branch branches ih =>
    have tree := retargetTree_eq (entered branch mem_cons_self) (sofar branch.place)
    have later : ∀ position, retargetTree table reached branch position = itemAt position ∨
        retargetTree table reached branch position = retargetItem table (itemAt position) := by
      intro other
      rw [tree other]
      split
      · split
        · exact .inr rfl
        · exact sofar other
      · exact sofar other
    obtain ⟨either, retargeted⟩ := ih (fun other member => entered other (mem_cons_of_mem _ member))
      later
    rw [foldl_cons]
    constructor
    · rcases either with same | same
      · rw [same, tree position]
        split
        · split
          · exact .inr rfl
          · exact .inl rfl
        · exact .inl rfl
      · exact .inr same
    · intro reason
      apply retargeted
      rcases reason with done | ⟨found, member, place, kind⟩
      · left
        rw [tree position]
        split
        · split
          · rfl
          · exact done
        · exact done
      · rcases mem_cons.1 member with rfl | inRest
        · left
          rw [tree position, if_pos place.symm, if_pos kind]
        · exact .inr ⟨found, inRest, place, kind⟩

theorem of_mem_branchesOf {item : CgqItem} {block place : Nat}
    (member : branch ∈ branchesOf item block place) :
    branch.block = block ∧ branch.place = place := by
  cases item with
  | cbranch label | jump label =>
    rw [branchesOf, mem_singleton] at member
    rw [member]
    exact ⟨rfl, rfl⟩
  | swend cases default? =>
    simp only [branchesOf, mem_append, mem_map] at member
    rcases member with ⟨_, _, rfl⟩ | ⟨_, _, rfl⟩ <;> exact ⟨rfl, rfl⟩
  | nd1 | fixSwbeg | ret | labelOp _ | setlocctr | setlocctrInt | dbSBlock
    | dbEBlock | other => simp [branchesOf] at member

theorem targets_branchesOf (table : Nat → LabelDescriptor) (item : CgqItem) (block place : Nat) :
    (branchesOf item block place).map (fun branch => (retargetBranch table branch).targetLabel) =
      (retargetItem table item).targets := by
  cases item with
  | swend cases default? =>
    cases default? <;> simp [branchesOf, retargetItem, CgqItem.targets, retargetBranch,
      Function.comp_def]
  | cbranch label | jump label => rfl
  | nd1 | fixSwbeg | ret | labelOp _ | setlocctr | setlocctrInt | dbSBlock
    | dbEBlock | other => rfl

theorem Layout.mem_branches {itemAt : Nat → CgqItem} {index : Nat}
    (layout : Layout itemAt index scan) :
    branch ∈ scan.branches ↔ ∃ number, 1 ≤ number ∧ number < scan.count ∧ branch ∈
      branchesOf (itemAt (scan.blocks number).last) number (scan.blocks number).last := by
  rw [layout.branches, mem_flatMap]
  constructor
  · rintro ⟨number, member, entered⟩
    have range := mem_range'_1.1 member
    exact ⟨number, range.1, by omega, entered⟩
  · rintro ⟨number, from1, below, entered⟩
    exact ⟨number, mem_range'_1.2 ⟨from1, by omega⟩, entered⟩

section

variable {itemAt : Nat → CgqItem} {size : Nat} (layout : Layout itemAt size scan)
  (table : Nat → LabelDescriptor)
include layout table

/-- **The retargeted queue**: every item of it is retargeted where its label is
mapped. -/
theorem Layout.retargeted {position : Nat} (within : position < size) :
    scan.branches.foldl (retargetTree table) itemAt position =
      retargetItem table (itemAt position) := by
  have entered : ∀ branch, branch ∈ scan.branches → branch.ofTree itemAt := by
    intro branch member
    obtain ⟨number, _, _, ofItem⟩ := layout.mem_branches.1 member
    obtain ⟨block, place⟩ := of_mem_branchesOf ofItem
    unfold BranchDescriptor.ofTree
    rw [block, place]
    exact ofItem
  obtain ⟨either, retargeted⟩ := @foldl_retargetTree table itemAt itemAt scan.branches entered
    (fun _ => .inl rfl) position
  -- a jump or a conditional branch was entered when its block ended
  have jumps (tree : BranchTree) (label : Nat) (kind : tree = .cbranch ∨ tree = .jump)
      (transfers : (itemAt position).transfers = true)
      (own : ∀ block, ⟨label, block, tree, position⟩ ∈
        branchesOf (itemAt position) block position) :
      scan.branches.foldl (retargetTree table) itemAt position =
        retargetItem table (itemAt position) := by
    obtain ⟨number, from1, below, ends⟩ := layout.exits position within transfers
    refine retargeted (.inr ⟨⟨label, number, tree, position⟩, ?_, rfl, kind⟩)
    refine layout.mem_branches.2 ⟨number, from1, below, ?_⟩
    rw [← ends]
    exact own number
  cases item : itemAt position with
  | cbranch label =>
    rw [← item]
    exact jumps .cbranch label (.inl rfl) (by rw [item]; rfl)
      (fun block => by rw [item]; simp [branchesOf])
  | jump label =>
    rw [← item]
    exact jumps .jump label (.inr rfl) (by rw [item]; rfl)
      (fun block => by rw [item]; simp [branchesOf])
  | swend _ _ | nd1 | fixSwbeg | ret | labelOp _ | setlocctr | setlocctrInt
    | dbSBlock | dbEBlock | other =>
      rw [item] at either
      rcases either with same | same <;> exact same

theorem Layout.joins_iff (source target : Nat) :
    (∃ branch, branch ∈ scan.branches.map (retargetBranch table) ∧
      branch.joins table source target = true) ↔
      1 ≤ source ∧ source < scan.count ∧ ∃ label, label ∈ (retargetItem table
        (itemAt (scan.blocks source).last)).targets ∧ (table label).block = some target := by
  have blockKept (branch : BranchDescriptor) :
      (retargetBranch table branch).block = branch.block := by
    cases kind : branch.tree <;> simp [retargetBranch, kind]
  constructor
  · rintro ⟨_, member, joins⟩
    obtain ⟨branch, entered, rfl⟩ := mem_map.1 member
    obtain ⟨number, from1, below, ofItem⟩ := layout.mem_branches.1 entered
    simp only [BranchDescriptor.joins, Bool.and_eq_true, beq_iff_eq, blockKept] at joins
    obtain ⟨block, goes⟩ := joins
    obtain rfl : number = source := (of_mem_branchesOf ofItem).1.symm.trans block
    refine ⟨from1, below, _, ?_, goes⟩
    rw [← targets_branchesOf table _ number]
    exact mem_map.2 ⟨branch, ofItem, rfl⟩
  · rintro ⟨from1, below, label, member, goes⟩
    rw [← targets_branchesOf table _ source (scan.blocks source).last] at member
    obtain ⟨branch, ofItem, rfl⟩ := mem_map.1 member
    refine ⟨retargetBranch table branch, mem_map.2 ⟨branch, ?_, rfl⟩, ?_⟩
    · exact layout.mem_branches.2 ⟨source, from1, below, ofItem⟩
    · simp only [BranchDescriptor.joins, Bool.and_eq_true, beq_iff_eq, blockKept]
      exact ⟨(of_mem_branchesOf ofItem).1, goes⟩

end

end Uw7.Amigo.Flow

/-!
# Branches to jumps

A branch to a jump that is sent where the jump goes reaches the same first item
to execute, in the queue as it was and in the queue with every such branch
retargeted.
-/

namespace Uw7.Amigo.Flow

def CgqItem.executes : CgqItem → Bool
  | .nd1 | .fixSwbeg | .cbranch _ | .ret | .swend _ _ => true
  | _ => false

def CgqItem.passesOver : CgqItem → Bool
  | .labelOp _ => true
  | item => item.passive

/-- From a position, the first item to execute is found in a number of steps:
control passes over markers and labels, and follows jumps. -/
inductive FirstExecIn (size : Nat) (itemAt : Nat → CgqItem) : Nat → Nat → Option Nat → Prop where
  | here {position : Nat} : position < size → (itemAt position).executes = true →
      FirstExecIn size itemAt 0 position (some position)
  | ends : FirstExecIn size itemAt 0 size none
  | onward {steps position : Nat} {first : Option Nat} : position < size →
      (itemAt position).passesOver = true → FirstExecIn size itemAt steps (position + 1) first →
      FirstExecIn size itemAt (steps + 1) position first
  | jump {steps position label place : Nat} {first : Option Nat} : position < size →
      itemAt position = .jump label → place < size → itemAt place = .labelOp label →
      FirstExecIn size itemAt steps place first → FirstExecIn size itemAt (steps + 1) position first

def FirstExec (size : Nat) (itemAt : Nat → CgqItem) (position : Nat) (first : Option Nat) : Prop :=
  ∃ steps, FirstExecIn size itemAt steps position first

variable {size : Nat} {itemAt : Nat → CgqItem}

theorem firstExecIn_of_behind {position jump target place steps : Nat} {first : Option Nat}
    (wellFormed : WellFormed size itemAt) (before : position ≤ jump) (within : jump < size)
    (item : itemAt jump = .jump target)
    (onward : ∀ between, position ≤ between → between < jump → (itemAt between).passesOver = true)
    (placeWithin : place < size) (labelled : itemAt place = .labelOp target)
    (found : FirstExecIn size itemAt steps position first) :
    ∃ fewer, fewer < steps ∧ FirstExecIn size itemAt fewer place first := by
  induction found with
  | @here position _ executes =>
    rcases eq_or_lt_of_le before with rfl | early
    · rw [item] at executes
      cases executes
    · have passes := onward position le_rfl early
      cases kind : itemAt position <;> simp [kind, CgqItem.executes, CgqItem.passesOver,
        CgqItem.passive] at executes passes
  | ends => omega
  | @onward steps position first _ passes _ ih =>
    rcases eq_or_lt_of_le before with rfl | early
    · rw [item] at passes
      cases passes
    · obtain ⟨fewer, less, rest⟩ := ih early (fun between after => onward between (by omega))
      exact ⟨fewer, Nat.lt_succ_of_lt less, rest⟩
  | @jump steps position label' place' first _ jumps placeWithin' labelled' rest _ =>
    rcases eq_or_lt_of_le before with rfl | early
    · rw [item] at jumps
      cases jumps
      have same := wellFormed.once place place' target placeWithin placeWithin' labelled labelled'
      subst same
      exact ⟨steps, Nat.lt_succ_self _, rest⟩
    · have passes := onward position le_rfl early
      rw [jumps] at passes
      cases passes

theorem firstExec_of_behind {position jump target place : Nat} {first : Option Nat}
    (before : position ≤ jump) (within : jump < size) (item : itemAt jump = .jump target)
    (onward : ∀ between, position ≤ between → between < jump → (itemAt between).passesOver = true)
    (placeWithin : place < size) (labelled : itemAt place = .labelOp target)
    (found : FirstExec size itemAt place first) : FirstExec size itemAt position first := by
  induction before using Nat.decreasingInduction with
  | self =>
    obtain ⟨steps, found⟩ := found
    exact ⟨steps + 1, .jump within item placeWithin labelled found⟩
  | of_succ earlier early ih =>
    obtain ⟨steps, rest⟩ := ih fun between after => onward between (by omega)
    exact ⟨steps + 1, .onward (by omega) (onward earlier le_rfl early) rest⟩

theorem JumpBehind.onward {index label target : Nat}
    (behind : JumpBehind itemAt index label target) :
    ∃ position jump, position ≤ jump ∧ jump < index ∧
      itemAt position = .labelOp label ∧ itemAt jump = .jump target ∧
      ∀ between, position ≤ between → between < jump → (itemAt between).passesOver = true := by
  obtain ⟨position, jump, before, within, item, jumps, passive⟩ := behind
  refine ⟨position, jump, le_of_lt before, within, item, jumps, ?_⟩
  intro between after early
  rcases eq_or_lt_of_le after with rfl | later
  · rw [item]
    rfl
  · have passes := passive between later early
    cases kind : itemAt between <;> simp [kind, CgqItem.passesOver, CgqItem.passive] at passes ⊢

theorem retargetItem_kind (table : Nat → LabelDescriptor) (item : CgqItem) :
    (retargetItem table item).executes = item.executes ∧
      (retargetItem table item).passesOver = item.passesOver ∧
      (retargetItem table item).falls = item.falls ∧
      (retargetItem table item).transfers = item.transfers ∧
      ∀ label, retargetItem table item = .labelOp label ↔ item = .labelOp label := by
  cases item <;> simp [retargetItem, CgqItem.executes, CgqItem.passesOver,
    CgqItem.passive, CgqItem.falls, CgqItem.transfers]

/-- **Retargeted branches reach the same first item**: from every position the
queue as it was and the retargeted queue execute the same item first. -/
theorem firstExec_retarget {table : Nat → LabelDescriptor} {retargeted : Nat → CgqItem}
    (wellFormed : WellFormed size itemAt)
    (mapped : ∀ label target, (table label).mapLabel = some target →
      JumpBehind itemAt size label target)
    (defined : ∀ position target, position < size → itemAt position = .jump target →
      ∃ place, place < size ∧ itemAt place = .labelOp target)
    (items : ∀ position, position < size →
      retargeted position = retargetItem table (itemAt position))
    (position : Nat) (first : Option Nat) :
    FirstExec size itemAt position first ↔ FirstExec size retargeted position first := by
  have kinds (place : Nat) := retargetItem_kind table (itemAt place)
  have labels {place label : Nat} (within : place < size) :
      retargeted place = .labelOp label ↔ itemAt place = .labelOp label := by
    rw [items place within]
    exact (kinds place).2.2.2.2 label
  constructor
  · -- on the number of steps: the target of a mapped label is found in fewer
    rintro ⟨steps, found⟩
    induction steps using Nat.strong_induction_on generalizing position with
    | h steps ih =>
      cases found with
      | here within executes =>
        refine ⟨0, .here within ?_⟩
        rw [items position within, (kinds position).1]
        exact executes
      | ends => exact ⟨0, .ends⟩
      | @onward fewer _ _ within passes rest =>
        obtain ⟨more, later⟩ := ih fewer (Nat.lt_succ_self _) _ rest
        refine ⟨more + 1, .onward within ?_ later⟩
        rw [items position within, (kinds position).2.1]
        exact passes
      | @jump fewer _ label place _ within jumps placeWithin labelled rest =>
        have item := items position within
        rw [jumps] at item
        cases mapping : (table label).mapLabel with
        | none =>
          simp only [retargetItem, mapping, Option.getD_none] at item
          obtain ⟨more, later⟩ := ih fewer (Nat.lt_succ_self _) _ rest
          exact ⟨more + 1, .jump within item placeWithin ((labels placeWithin).2 labelled) later⟩
        | some target =>
          simp only [retargetItem, mapping, Option.getD_some] at item
          obtain ⟨start, jump, before, jumpWithin, starts, jumpItem,
            onward⟩ := (mapped label target mapping).onward
          obtain ⟨goal, goalWithin, goalItem⟩ := defined jump target jumpWithin jumpItem
          have same := wellFormed.once start place label (by omega) placeWithin starts labelled
          subst same
          obtain ⟨less, few, further⟩ := firstExecIn_of_behind wellFormed before jumpWithin
            jumpItem onward goalWithin goalItem rest
          obtain ⟨more, later⟩ := ih less (by omega) _ further
          exact ⟨more + 1, .jump within item goalWithin ((labels goalWithin).2 goalItem) later⟩
  · rintro ⟨steps, found⟩
    induction found with
    | @here position within executes =>
      refine ⟨0, .here within ?_⟩
      rw [items position within, (kinds position).1] at executes
      exact executes
    | ends => exact ⟨0, .ends⟩
    | @onward steps position first within passes _ ih =>
      obtain ⟨more, later⟩ := ih
      refine ⟨more + 1, .onward within ?_ later⟩
      rw [items position within, (kinds position).2.1] at passes
      exact passes
    | @jump steps position label place first within jumps placeWithin labelled _ ih =>
      rw [labels placeWithin] at labelled
      rw [items position within] at jumps
      cases old : itemAt position <;>
        simp only [old, retargetItem, reduceCtorEq, CgqItem.jump.injEq] at jumps
      rename_i target
      cases mapping : (table target).mapLabel with
      | none =>
        simp only [mapping, Option.getD_none] at jumps
        subst jumps
        obtain ⟨more, later⟩ := ih
        exact ⟨more + 1, .jump within old placeWithin labelled later⟩
      | some goal =>
        simp only [mapping, Option.getD_some] at jumps
        subst jumps
        obtain ⟨start, jump, before, jumpWithin, starts, jumpItem,
          onward⟩ := (mapped target goal mapping).onward
        obtain ⟨more, later⟩ := firstExec_of_behind before jumpWithin jumpItem onward
          placeWithin labelled ih
        exact ⟨more + 1, .jump within old (by omega) starts later⟩

end Uw7.Amigo.Flow
