import Uw7.Amigo.FlowLayout

/-!
# Where the pass finds the labels

The pass keeps its layout over every item; a label stands first in its block,
or behind a location counter that does; and a label mapped to another stands
before a jump to it, with nothing to execute between.
-/

open Function

namespace Uw7.Amigo.Flow

/-- Items that do nothing and pass no control. -/
def CgqItem.passive : CgqItem → Bool
  | .setlocctr | .setlocctrInt | .dbSBlock | .dbEBlock | .other => true
  | _ => false

theorem foldl_enterBranch (scan : Scan) (index : Nat) (cases : List Nat) :
    cases.foldl (fun reached => reached.enterBranch index .swcase) scan =
      { scan with
        branches := scan.branches ++
          cases.map fun label => ⟨label, scan.count, .swcase, index⟩ } := by
  induction cases generalizing scan with
  | nil => simp
  | cons label cases ih =>
    rw [List.foldl_cons, ih]
    simp [Scan.enterBranch]

theorem mapLabelSeen_layout (scan : Scan) (target : Nat) :
    (scan.mapLabelSeen target).blocks = scan.blocks ∧
      (scan.mapLabelSeen target).count = scan.count ∧
      (scan.mapLabelSeen target).lastIndex = scan.lastIndex ∧
      (scan.mapLabelSeen target).branches = scan.branches ∧
      (scan.mapLabelSeen target).deleted = scan.deleted := by
  unfold Scan.mapLabelSeen
  split <;> simp

/-- What an item does to the layout, by what it is. -/
inductive ItemStep (itemAt : Nat → CgqItem) (index : Nat) (scan : Scan) : Scan → Prop where
  | keep {next : Scan} : (itemAt index).transfers = false →
      next.blocks = scan.blocks →
      next.count = scan.count →
      next.lastIndex = index →
      next.branches = scan.branches →
      next.deleted = scan.deleted → ItemStep itemAt index scan next
  | cutKeep {next : Scan} : (itemAt index).transfers = false → scan.current.first ≠ index →
      next.blocks = (scan.newBlock scan.lastIndex true index).blocks →
      next.count = scan.count + 1 →
      next.lastIndex = index →
      next.branches = scan.branches →
      next.deleted = scan.deleted → ItemStep itemAt index scan next
  | transfer {next : Scan} :
      next.blocks = (scan.newBlock index (itemAt index).falls (index + 1)).blocks →
      next.count = scan.count + 1 →
      next.lastIndex = index →
      next.branches = scan.branches ++ branchesOf (itemAt index) scan.count index →
      next.deleted = scan.deleted → ItemStep itemAt index scan next
  | delete {next : Scan} : (itemAt index).isMarker = true →
      next.blocks = (scan.deleteMarker index).blocks →
      next.count = scan.count →
      next.lastIndex = scan.lastIndex →
      next.branches = scan.branches →
      next.deleted = (scan.deleteMarker index).deleted → ItemStep itemAt index scan next

variable {itemAt : Nat → CgqItem} {index : Nat} {scan : Scan}

theorem step_of_item {next : Scan} {deletes : Bool} (noNd1 : (itemAt index).hasNd1 = false)
    (item : scan.item itemAt index = (next, deletes)) : scan.step itemAt index =
      if deletes then next else { next with lastIndex := index } := by
  simp only [Scan.step, noNd1, Bool.false_eq_true, if_false, item]

theorem step_labelOp {label : Nat} (item : itemAt index = .labelOp label) :
    scan.step itemAt index =
      { Scan.seeLabel (if scan.current.first ≠ index ∧ ¬(scan.lastIndex = scan.current.first ∧
            itemAt scan.lastIndex = .setlocctrInt) then scan.newBlock scan.lastIndex true index
          else scan) label with lastIndex := index } := by
  have noNd1 : (itemAt index).hasNd1 = false := by rw [item]; rfl
  split_ifs with cuts
  · exact @step_of_item _ _ _ _ false noNd1 (by simp only [Scan.item, item, if_pos cuts])
  · exact @step_of_item _ _ _ _ false noNd1 (by simp only [Scan.item, item, if_neg cuts])

/-- Every round of the pass is one of these. -/
theorem itemStep_of_step (itemAt : Nat → CgqItem) (index : Nat) (scan : Scan) :
    ItemStep itemAt index scan (scan.step itemAt index) := by
  cases kind : itemAt index with
  | nd1 | fixSwbeg | setlocctrInt | other =>
    refine .keep (by rw [kind]; rfl) ?_ ?_ ?_ ?_ ?_ <;>
      simp [Scan.step, Scan.item, kind, CgqItem.hasNd1]
  | ret =>
    refine .transfer ?_ ?_ ?_ ?_ ?_ <;>
      simp [Scan.step, Scan.item, kind, CgqItem.hasNd1, Scan.newBlock, branchesOf, CgqItem.falls]
  | cbranch label =>
    refine .transfer ?_ ?_ ?_ ?_ ?_ <;>
      simp [Scan.step, Scan.item, kind, CgqItem.hasNd1, Scan.newBlock,
        Scan.enterBranch, branchesOf, CgqItem.falls]
  | jump label =>
    obtain ⟨blocks, count, _, branches, deleted⟩ := mapLabelSeen_layout
      ((scan.enterBranch index .jump label).newBlock index false (index + 1)) label
    have item : scan.item itemAt index = (((scan.enterBranch index .jump label).newBlock index false
        (index + 1)).mapLabelSeen label, false) := by
      simp only [Scan.item, kind]
    rw [step_of_item (by rw [kind]; rfl) item]
    refine .transfer ?_ count rfl ?_ deleted
    · rw [kind]
      exact blocks
    · rw [kind]
      exact branches
  | swend cases default? =>
    cases default? with
    | none =>
      refine .transfer ?_ ?_ ?_ ?_ ?_ <;> simp [Scan.step, Scan.item, kind, CgqItem.hasNd1,
        foldl_enterBranch, Scan.newBlock, branchesOf, CgqItem.falls]
    | some label =>
      refine .transfer ?_ ?_ ?_ ?_ ?_ <;> simp [Scan.step, Scan.item, kind, CgqItem.hasNd1,
        foldl_enterBranch, Scan.newBlock, Scan.enterBranch, branchesOf, CgqItem.falls]
  | setlocctr =>
    by_cases begins : scan.current.first = index
    · refine .keep (by rw [kind]; rfl) ?_ ?_ ?_ ?_ ?_ <;>
        simp [Scan.step, Scan.item, kind, CgqItem.hasNd1, begins]
    · refine .cutKeep (by rw [kind]; rfl) begins ?_ ?_ ?_ ?_ ?_ <;>
        simp [Scan.step, Scan.item, kind, CgqItem.hasNd1, begins, Scan.newBlock]
  | labelOp label =>
    rw [step_labelOp kind]
    split_ifs with cuts
    · exact .cutKeep (by rw [kind]; rfl) cuts.1 rfl rfl rfl rfl rfl
    · exact .keep (by rw [kind]; rfl) rfl rfl rfl rfl rfl
  | dbSBlock =>
    by_cases nested : 0 < scan.curlyLevel
    · have item : scan.item itemAt index = (Scan.deleteMarker
          { scan with curlyLevel := scan.curlyLevel + 1 } index, true) := by
        simp only [Scan.item, kind, if_pos nested]
      rw [step_of_item (by rw [kind]; rfl) item]
      exact .delete (by rw [kind]; rfl) rfl rfl rfl rfl rfl
    · have item : scan.item itemAt index =
          ({ scan with curlyLevel := scan.curlyLevel + 1 }, false) := by
        simp only [Scan.item, kind, if_neg nested]
      rw [step_of_item (by rw [kind]; rfl) item]
      exact .keep (by rw [kind]; rfl) rfl rfl rfl rfl rfl
  | dbEBlock =>
    by_cases nested : 0 < scan.curlyLevel - 1
    · have item : scan.item itemAt index = (Scan.deleteMarker
          { scan with curlyLevel := scan.curlyLevel - 1 } index, true) := by
        simp only [Scan.item, kind, if_pos nested]
      rw [step_of_item (by rw [kind]; rfl) item]
      exact .delete (by rw [kind]; rfl) rfl rfl rfl rfl rfl
    · have item : scan.item itemAt index =
          ({ scan with curlyLevel := scan.curlyLevel - 1 }, false) := by
        simp only [Scan.item, kind, if_neg nested]
      rw [step_of_item (by rw [kind]; rfl) item]
      exact .keep (by rw [kind]; rfl) rfl rfl rfl rfl rfl

theorem layout_step (layout : Layout itemAt index scan) :
    Layout itemAt (index + 1) (scan.step itemAt index) := by
  rcases itemStep_of_step itemAt index scan with
    ⟨stays, blocks, count, last, branches, deleted⟩ |
    ⟨stays, cuts, blocks, count, last, branches, deleted⟩ |
    ⟨blocks, count, last, branches, deleted⟩ | ⟨marker, blocks, count, last, branches, deleted⟩
  · exact (layout.keep stays).congr blocks count last branches deleted
  · have begun := lt_of_le_of_ne layout.began cuts
    exact ((layout.cut begun).keep stays).congr blocks count last branches deleted
  · exact layout.transfer.congr blocks count last branches deleted
  · exact (layout.delete marker).congr blocks count last branches deleted

theorem layout_scanItems (itemAt : Nat → CgqItem) (size : Nat) :
    Layout itemAt size (scanItems itemAt size) := by
  induction size with
  | zero => exact layout_start itemAt
  | succ size ih => exact layout_step ih

/-- A position where control enters a block: its first item, or the next one
behind a location counter. -/
structure Entry (itemAt : Nat → CgqItem) (scan : Scan) (number position : Nat) : Prop where
  from1 : 1 ≤ number
  within : number ≤ scan.count
  place : position = (scan.blocks number).first ∨
      (itemAt (scan.blocks number).first = .setlocctrInt ∧ (scan.blocks number).first < position ∧
        ∀ between, (scan.blocks number).first < between →
          between < position → scan.deleted between = true)
  ends : number < scan.count → position ≤ (scan.blocks number).last

variable {itemAt : Nat → CgqItem}

/-- A label keeps its block. -/
theorem Entry.step {index number position : Nat} {scan : Scan}
    (layout : Layout itemAt index scan) (entry : Entry itemAt scan number position)
    (seen : position < index) (unmarked : (itemAt position).isMarker = false) :
    Entry itemAt (scan.step itemAt index) number position := by
  have kept : scan.deleted position ≠ true := by
    intro deleted
    have marked := (layout.marker position deleted).2
    rw [unmarked] at marked
    cases marked
  obtain ⟨from1, within, place, ends⟩ := entry
  rcases itemStep_of_step itemAt index scan with
    ⟨_, blocks, count, _, _, deleted⟩ | ⟨_, cuts, blocks, count, _, _, deleted⟩ |
    ⟨blocks, count, _, _, deleted⟩ | ⟨_, blocks, count, _, _, deleted⟩
  · refine ⟨from1, count ▸ within, ?_, ?_⟩
    · rw [blocks, deleted]
      exact place
    · rw [blocks, count]
      exact ends
  · have first := first_newBlock scan scan.lastIndex true index within
    refine ⟨from1, by omega, ?_, ?_⟩
    · rw [blocks, deleted, first]
      exact place
    · intro _
      rw [blocks]
      rcases eq_or_lt_of_le within with rfl | below
      · -- the label is not behind the last item kept
        have begun := lt_of_le_of_ne layout.began cuts
        obtain ⟨_, _, _, _, gap⟩ := layout.going begun
        rw [blocks_newBlock_self]
        by_contra past
        exact kept (gap position (not_le.1 past) seen)
      · rw [blocks_newBlock_before _ _ _ _ below]
        exact ends below
  · have first := first_newBlock scan index (itemAt index).falls (index + 1) within
    refine ⟨from1, by omega, ?_, ?_⟩
    · rw [blocks, deleted, first]
      exact place
    · intro _
      rw [blocks]
      rcases eq_or_lt_of_le within with rfl | below
      · rw [blocks_newBlock_self]
        exact le_of_lt seen
      · rw [blocks_newBlock_before _ _ _ _ below]
        exact ends below
  · have notFirst : number = scan.count → scan.current.first ≠ index := by
      rintro rfl begins
      rcases place with here | ⟨_, behind, _⟩
      · rw [here] at seen
        exact absurd begins (ne_of_lt seen)
      · have early := lt_trans behind seen
        exact absurd begins (ne_of_lt early)
    have first : ((scan.deleteMarker index).blocks number).first = (scan.blocks number).first := by
      rw [blocks_deleteMarker]
      split
      case isTrue same =>
        subst same
        exact if_neg (notFirst rfl)
      case isFalse => rfl
    refine ⟨from1, count ▸ within, ?_, ?_⟩
    · rw [blocks, deleted, first]
      rcases place with here | ⟨counter, behind, gap⟩
      · exact .inl here
      · refine .inr ⟨counter, behind, ?_⟩
        intro between after before
        rw [deleted_deleteMarker]
        exact .inr (gap between after before)
    · rw [blocks, count]
      intro below
      rw [blocks_deleteMarker, if_neg (by omega)]
      exact ends below

theorem entry_of_label {label : Nat} (layout : Layout itemAt index scan)
    (item : itemAt index = .labelOp label) :
    Entry itemAt (scan.step itemAt index) (scan.step itemAt index).count
      index := by
  rw [step_labelOp item]
  split_ifs with cuts
  · refine ⟨Nat.le_add_left 1 scan.count, le_rfl, .inl ?_, fun below => absurd below (lt_irrefl _)⟩
    simp [Scan.seeLabel]
  · refine ⟨layout.some1, le_rfl, ?_, fun below => absurd below (lt_irrefl _)⟩
    by_cases begins : scan.current.first = index
    · exact .inl begins.symm
    · obtain ⟨same, counter⟩ : scan.lastIndex = scan.current.first ∧
        itemAt scan.lastIndex = .setlocctrInt := by
        by_contra other
        exact cuts ⟨begins, other⟩
      have begun := lt_of_le_of_ne layout.began begins
      obtain ⟨_, _, _, _, gap⟩ := layout.going begun
      rw [same] at counter gap
      exact .inr ⟨counter, begun, gap⟩

inductive LabelStep (itemAt : Nat → CgqItem) (index : Nat) (scan next : Scan) : Prop where
  | sees (label : Nat) : itemAt index = .labelOp label →
      next.labelTable = update scan.labelTable label
          { scan.labelTable label with block := some next.count } →
      next.lastLabelSeen = some label → LabelStep itemAt index scan next
  | maps (label target : Nat) : itemAt index = .jump target → scan.lastLabelSeen = some label →
      next.labelTable = update scan.labelTable label
          { scan.labelTable label with mapLabel := some target } →
      next.lastLabelSeen = none → LabelStep itemAt index scan next
  | forgets : (∀ label, itemAt index ≠ .labelOp label) → (itemAt index).passive = false →
      (∀ target, itemAt index = .jump target → scan.lastLabelSeen = none) →
      next.labelTable = scan.labelTable →
      next.lastLabelSeen = none → LabelStep itemAt index scan next
  | passes : ((itemAt index).passive = true ∨
      ∃ cases default?, itemAt index = .swend cases default?) →
      next.labelTable = scan.labelTable →
      next.lastLabelSeen = scan.lastLabelSeen → LabelStep itemAt index scan next

theorem labelStep_of_step (itemAt : Nat → CgqItem) (index : Nat) (scan : Scan) :
    LabelStep itemAt index scan (scan.step itemAt index) := by
  cases kind : itemAt index with
  | nd1 | fixSwbeg =>
    refine .forgets (by simp [kind]) (by rw [kind]; rfl) (by simp [kind]) ?_ ?_ <;>
      simp [Scan.step, Scan.item, kind, CgqItem.hasNd1]
  | setlocctrInt | other =>
    refine .passes (.inl (by rw [kind]; rfl)) ?_ ?_ <;>
      simp [Scan.step, Scan.item, kind, CgqItem.hasNd1]
  | ret | cbranch label =>
    refine .forgets (by simp [kind]) (by rw [kind]; rfl) (by simp [kind]) ?_ ?_ <;>
      simp [Scan.step, Scan.item, kind, CgqItem.hasNd1, Scan.newBlock, Scan.enterBranch]
  | jump target =>
    cases seen : scan.lastLabelSeen with
    | none =>
      refine .forgets (by simp [kind]) (by rw [kind]; rfl) (fun _ _ => seen) ?_ ?_ <;>
        simp [Scan.step, Scan.item, kind, CgqItem.hasNd1, Scan.newBlock,
          Scan.enterBranch, Scan.mapLabelSeen, seen]
    | some label =>
      refine .maps label target kind seen ?_ ?_ <;>
        simp [Scan.step, Scan.item, kind, CgqItem.hasNd1, Scan.newBlock,
          Scan.enterBranch, Scan.mapLabelSeen, seen]
  | swend cases default? =>
    refine .passes (.inr ⟨cases, default?, kind⟩) ?_ ?_ <;> cases default? <;>
      simp [Scan.step, Scan.item, kind, CgqItem.hasNd1, foldl_enterBranch,
        Scan.newBlock, Scan.enterBranch]
  | setlocctr =>
    by_cases begins : scan.current.first = index <;>
      refine .passes (.inl (by rw [kind]; rfl)) ?_ ?_ <;>
      simp [Scan.step, Scan.item, kind, CgqItem.hasNd1, begins, Scan.newBlock]
  | labelOp label =>
    rw [step_labelOp kind]
    split_ifs <;> exact .sees label kind rfl rfl
  | dbSBlock =>
    refine .passes (.inl (by rw [kind]; rfl)) ?_ ?_ <;> by_cases nested : 0 < scan.curlyLevel <;>
      simp [Scan.step, Scan.item, kind, CgqItem.hasNd1, nested, Scan.deleteMarker]
  | dbEBlock =>
    refine .passes (.inl (by rw [kind]; rfl)) ?_ ?_ <;> by_cases nested : 1 < scan.curlyLevel <;>
      simp [Scan.step, Scan.item, kind, CgqItem.hasNd1, nested, Scan.deleteMarker]

/-- A label stands before a jump, with nothing to execute between. -/
def JumpBehind (itemAt : Nat → CgqItem) (index label target : Nat) : Prop :=
  ∃ position jump, position < jump ∧ jump < index ∧
    itemAt position = .labelOp label ∧ itemAt jump = .jump target ∧
    ∀ between, position < between → between < jump → (itemAt between).passive = true

/-- What the front end promises of a queue: each label is defined once, and the
end of a switch follows its beginning. -/
structure WellFormed (size : Nat) (itemAt : Nat → CgqItem) : Prop where
  once : ∀ one other label, one < size → other < size →
      itemAt one = .labelOp label → itemAt other = .labelOp label → one = other
  switch : ∀ position cases default?, position < size → itemAt position = .swend cases default? →
      ∃ before, position = before + 1 ∧ itemAt before = .fixSwbeg
  ends : 0 < size ∧ itemAt (size - 1) = .other

/-- The labels found over the first items. -/
structure LabelsFound (itemAt : Nat → CgqItem) (index : Nat) (scan : Scan) : Prop where
  found : ∀ position label, position < index → itemAt position = .labelOp label →
      ∃ number, (scan.labelTable label).block = some number ∧ Entry itemAt scan number position
  mapped : ∀ label target, (scan.labelTable label).mapLabel = some target →
      JumpBehind itemAt index label target
  seen : ∀ label, scan.lastLabelSeen = some label →
      ∃ position, position < index ∧ itemAt position = .labelOp label ∧
        ∀ between, position < between → between < index → (itemAt between).passive = true

variable {itemAt : Nat → CgqItem} {index label target size : Nat}

theorem JumpBehind.mono {later : Nat} (behind : JumpBehind itemAt index label target)
    (further : index ≤ later) : JumpBehind itemAt later label target := by
  obtain ⟨position, jump, before, within, items⟩ := behind
  exact ⟨position, jump, before, lt_of_lt_of_le within further, items⟩

/-- One round keeps what is known of the labels. -/
theorem LabelsFound.step {size index : Nat} {scan : Scan}
    (wellFormed : WellFormed size itemAt) (within : index < size)
    (layout : Layout itemAt index scan) (labels : LabelsFound itemAt index scan) :
    LabelsFound itemAt (index + 1) (scan.step itemAt index) := by
  have old {position label : Nat} (seen : position < index)
      (item : itemAt position = .labelOp label) :
      ∃ number, (scan.labelTable label).block = some number ∧
        Entry itemAt (scan.step itemAt index) number position := by
    obtain ⟨number, block, entry⟩ := labels.found position label seen item
    exact ⟨number, block, entry.step layout seen (by rw [item]; rfl)⟩
  -- between a label seen and the item stands nothing to execute
  have behind {label target : Nat} (last : scan.lastLabelSeen = some label)
      (jump : itemAt index = .jump target) : JumpBehind itemAt (index + 1) label target := by
    obtain ⟨position, seen, item, passive⟩ := labels.seen label last
    exact ⟨position, index, seen, Nat.lt_succ_self _, item, jump, passive⟩
  have longer {label : Nat} (last : scan.lastLabelSeen = some label)
      (passive : (itemAt index).passive = true) :
      ∃ position, position < index + 1 ∧ itemAt position = .labelOp label ∧
        ∀ between, position < between → between < index + 1 → (itemAt between).passive = true := by
    obtain ⟨position, seen, item, passives⟩ := labels.seen label last
    refine ⟨position, Nat.lt_succ_of_lt seen, item, ?_⟩
    intro between after before
    rcases Nat.lt_or_eq_of_le (Nat.lt_succ_iff.1 before) with earlier | rfl
    · exact passives between after earlier
    · exact passive
  have unchanged (noLabel : ∀ label, itemAt index ≠ .labelOp label)
      (table : (scan.step itemAt index).labelTable = scan.labelTable) :
      (∀ position label, position < index + 1 → itemAt position = .labelOp label → ∃ number,
        ((scan.step itemAt index).labelTable label).block = some number ∧
          Entry itemAt (scan.step itemAt index) number position) ∧
      ∀ label target, ((scan.step itemAt index).labelTable label).mapLabel = some target →
        JumpBehind itemAt (index + 1) label target := by
    rw [table]
    refine ⟨?_, fun label target mapped => (labels.mapped label target mapped).mono (Nat.le_succ _)⟩
    intro position label below item
    rcases Nat.lt_or_eq_of_le (Nat.lt_succ_iff.1 below) with earlier | rfl
    · exact old earlier item
    · exact absurd item (noLabel label)
  cases labelStep_of_step itemAt index scan with
  | sees label item table last =>
    refine ⟨?_, ?_, ?_⟩
    · intro position other seen label'
      rw [table]
      rcases Nat.lt_or_eq_of_le (Nat.lt_succ_iff.1 seen) with
        earlier | rfl
      · obtain ⟨number, block, entry⟩ := old earlier label'
        have differ : other ≠ label := by
          rintro rfl
          have same := wellFormed.once position index other (by omega) within label' item
          omega
        exact ⟨number, by rw [update_of_ne differ]; exact block, entry⟩
      · obtain rfl : label = other := by
          rw [item] at label'
          cases label'
          rfl
        refine ⟨(scan.step itemAt position).count, ?_, entry_of_label layout item⟩
        rw [update_self]
    · intro label' target
      rw [table]
      by_cases same : label' = label
      · subst same
        rw [update_self]
        intro mapped
        exact (labels.mapped _ _ mapped).mono (Nat.le_succ _)
      · rw [update_of_ne same]
        intro mapped
        exact (labels.mapped _ _ mapped).mono (Nat.le_succ _)
    · intro label' seen
      rw [last] at seen
      cases seen
      refine ⟨index, Nat.lt_succ_self _, item, ?_⟩
      intro between after before
      omega
  | maps label target jump seen table last =>
    refine ⟨?_, ?_, ?_⟩
    · intro position other below item
      have earlier : position < index := by
        rcases Nat.lt_or_eq_of_le (Nat.lt_succ_iff.1 below) with
          earlier | rfl
        · exact earlier
        · rw [jump] at item
          cases item
      obtain ⟨number, block, entry⟩ := old earlier item
      refine ⟨number, ?_, entry⟩
      rw [table]
      by_cases same : other = label
      · subst same
        rw [update_self]
        exact block
      · rw [update_of_ne same]
        exact block
    · intro other target'
      rw [table]
      by_cases same : other = label
      · subst same
        rw [update_self]
        rintro ⟨⟩
        exact behind seen jump
      · rw [update_of_ne same]
        intro mapped
        exact (labels.mapped _ _ mapped).mono (Nat.le_succ _)
    · intro other none'
      rw [last] at none'
      cases none'
  | forgets noLabel _ _ table last =>
    obtain ⟨found, mapped⟩ := unchanged noLabel table
    refine ⟨found, mapped, ?_⟩
    intro label seen
    rw [last] at seen
    cases seen
  | passes kind table last =>
    have noLabel (label : Nat) : itemAt index ≠ .labelOp label := by
      intro item
      rw [item] at kind
      rcases kind with passive | ⟨_, _, other⟩
      · cases passive
      · cases other
    obtain ⟨found, mapped⟩ := unchanged noLabel table
    refine ⟨found, mapped, ?_⟩
    intro label seen
    rw [last] at seen
    rcases kind with passive | ⟨cases, default?, item⟩
    · exact longer seen passive
    · -- the beginning of the switch has cleared the label
      obtain ⟨before, rfl, begins⟩ := wellFormed.switch index cases default? within item
      obtain ⟨position, below, labelled, passives⟩ := labels.seen label seen
      rcases Nat.lt_or_eq_of_le (Nat.lt_succ_iff.1 below) with
        earlier | rfl
      · have passive := passives before earlier (Nat.lt_succ_self _)
        rw [begins] at passive
        cases passive
      · rw [begins] at labelled
        cases labelled

theorem labelsFound_scanItems (wellFormed : WellFormed size itemAt) (within : index ≤ size) :
    LabelsFound itemAt index (scanItems itemAt index) := by
  induction index with
  | zero =>
    refine ⟨by simp, ?_, ?_⟩
    · intro label target mapped
      cases mapped
    · intro label seen
      cases seen
  | succ index ih => exact (ih (by omega)).step wellFormed within (layout_scanItems itemAt index)

/-- The jumps behind labels that the pass has found: a label with nothing but
passive items behind it is still seen, and a label before a jump is mapped. -/
structure JumpsMapped (itemAt : Nat → CgqItem) (index : Nat) (scan : Scan) : Prop where
  pending : ∀ position label, position < index → itemAt position = .labelOp label →
      (∀ between, position < between → between < index → (itemAt between).passive = true) →
      scan.lastLabelSeen = some label
  mapped : ∀ label target, JumpBehind itemAt index label target →
      (scan.labelTable label).mapLabel = some target

theorem JumpBehind.of_succ (behind : JumpBehind itemAt (index + 1) label target) :
    JumpBehind itemAt index label target ∨ itemAt index = .jump target ∧
      ∃ position, position < index ∧ itemAt position = .labelOp label ∧
        ∀ between, position < between → between < index → (itemAt between).passive = true := by
  obtain ⟨position, jump, before, within, item, jumps, passive⟩ := behind
  rcases Nat.lt_or_eq_of_le (Nat.lt_succ_iff.1 within) with early | rfl
  · exact .inl ⟨position, jump, before, early, item, jumps, passive⟩
  · exact .inr ⟨jumps, position, before, item, passive⟩

/-- One round keeps the labels before jumps mapped. -/
theorem JumpsMapped.step {size index : Nat} {scan : Scan}
    (wellFormed : WellFormed size itemAt) (within : index < size)
    (labels : LabelsFound itemAt index scan) (jumps : JumpsMapped itemAt index scan) :
    JumpsMapped itemAt (index + 1) (scan.step itemAt index) := by
  -- the item just scanned is passive if it stands behind a label still seen
  have here {position : Nat} (seen : position < index + 1) (notHere : position ≠ index) (passive :
      ∀ between, position < between → between < index + 1 → (itemAt between).passive = true) :
      position < index ∧ (itemAt index).passive = true ∧
        ∀ between, position < between → between < index → (itemAt between).passive = true := by
    have earlier : position < index := by omega
    exact ⟨earlier, passive index earlier (Nat.lt_succ_self _),
      fun between after before => passive between after (by omega)⟩
  cases labelStep_of_step itemAt index scan with
  | sees label item table last =>
    constructor
    · intro position other seen labelled passive
      by_cases same : position = index
      · subst same
        rw [item] at labelled
        cases labelled
        exact last
      · have idle := (here seen same passive).2.1
        rw [item] at idle
        cases idle
    · intro other target behind
      rcases behind.of_succ with old | ⟨jump, _⟩
      · rw [table, ← jumps.mapped other target old]
        by_cases same : other = label
        · subst same
          rw [update_self]
        · rw [update_of_ne same]
      · rw [item] at jump
        cases jump
  | maps label target jump seen table last =>
    constructor
    · intro position other below labelled passive
      by_cases same : position = index
      · subst same
        rw [jump] at labelled
        cases labelled
      · have idle := (here below same passive).2.1
        rw [jump] at idle
        cases idle
    · intro other target' behind
      rw [table]
      rcases behind.of_succ with old | ⟨jump', position, below, item, idle⟩
      · -- the label just mapped stood before no jump so far
        have differ : other ≠ label := by
          rintro rfl
          obtain ⟨place, placeBelow, placeItem, placeIdle⟩ := labels.seen other seen
          obtain ⟨position, jump', before, below, item, jumps', _⟩ := old
          obtain rfl : position = place :=
            wellFormed.once position place other (by omega) (by omega) item placeItem
          have idle := placeIdle jump' before below
          rw [jumps'] at idle
          cases idle
        rw [update_of_ne differ]
        exact jumps.mapped other target' old
      · have same := jumps.pending position other below item idle
        rw [seen] at same
        cases same
        rw [jump] at jump'
        cases jump'
        rw [update_self]
  | forgets noLabel busy noneSeen table last =>
    constructor
    · intro position other below labelled passive
      by_cases same : position = index
      · subst same
        exact absurd labelled (noLabel other)
      · have idle := (here below same passive).2.1
        rw [busy] at idle
        cases idle
    · intro other target behind
      rw [table]
      rcases behind.of_succ with old | ⟨jump, position, below, item, idle⟩
      · exact jumps.mapped other target old
      · have seen := jumps.pending position other below item idle
        rw [noneSeen target jump] at seen
        cases seen
  | passes kind table last =>
    constructor
    · intro position other below labelled passive
      by_cases same : position = index
      · subst same
        rw [labelled] at kind
        rcases kind with idle | ⟨_, _, switch⟩
        · cases idle
        · cases switch
      · obtain ⟨earlier, _, idle⟩ := here below same passive
        rw [last]
        exact jumps.pending position other earlier labelled idle
    · intro other target behind
      rw [table]
      rcases behind.of_succ with old | ⟨jump, _⟩
      · exact jumps.mapped other target old
      · rw [jump] at kind
        rcases kind with idle | ⟨_, _, switch⟩
        · cases idle
        · cases switch

/-- **The labels that are mapped** are those that stand before a jump, with
nothing to execute between. -/
theorem mapLabel_scanItems (wellFormed : WellFormed size itemAt) (within : index ≤ size)
    (label target : Nat) : ((scanItems itemAt index).labelTable label).mapLabel = some target ↔
      JumpBehind itemAt index label target := by
  have mapped : JumpsMapped itemAt index (scanItems itemAt index) := by
    induction index with
    | zero =>
      refine ⟨by simp, ?_⟩
      rintro label target ⟨_, _, _, below, _⟩
      omega
    | succ index ih =>
      exact (ih (by omega)).step wellFormed within (labelsFound_scanItems wellFormed (by omega))
  exact ⟨(labelsFound_scanItems wellFormed within).mapped label target, mapped.mapped label target⟩

end Uw7.Amigo.Flow
