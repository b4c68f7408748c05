import Uw7.Amigo.CopyProp

/-!
# The assign table

As long as the table has room, every copy of the function gets a number of its
own and keeps it; the copies that reach a point of a block are those that were
made in it and not killed since.
-/

open Function List Option

namespace Uw7.Amigo.Opt

variable {table : ExprTable} {size : Nat}

def isCopyStatement (table : ExprTable) (node : Tree) : Bool :=
  node.containsSide && isValidCopyNode table node (table.recursiveKills node)

/-- The copies of a function. -/
def copyStatements (table : ExprTable) (graph : FlowGraph) : Finset Tree :=
  ((graph.blocks.flatMap graph.nodes).filter fun node => isCopyStatement table node).toFinset

structure CopyShape (table : ExprTable) (copy : Tree) : Prop where
  assign : ∃ type, copy = .binary .assign type (leftInfo copy) (rightInfo copy)
  leftUsable : table.optableForCp (leftInfo copy) = true
  leftCandidate : table.candidateObject (leftInfo copy) = true
  rightUsable : table.optableForCp (rightInfo copy) = true

variable {node : Tree} {copies : Copies} {assign : Nat} {nodes : List Tree} {info : LocalInfo}
  {statements : Finset Tree} {graph : FlowGraph}

theorem copyShape_of_valid {kills : Finset Nat} (valid : isValidCopyNode table node kills = true) :
    CopyShape table node := by
  unfold isValidCopyNode at valid
  split at valid
  · cases valid
  · split at valid
    · cases valid
    · rename_i leftUsable
      split at valid
      · cases valid
      · rename_i leftCandidate
        split at valid
        · cases valid
        · rename_i rightUsable
          exact ⟨⟨_, rfl⟩, not_not.1 leftUsable, not_not.1 leftCandidate, not_not.1 rightUsable⟩
  · cases valid

theorem copyShape_of_const (const : isConstCopyNode table node = true) :
    CopyShape table node ∧ (rightInfo node).isConst = true := by
  unfold isConstCopyNode at const
  split at const
  · rename_i type left right
    simp only [Bool.and_eq_true] at const
    obtain ⟨⟨⟨candidate, isConst⟩, rightUsable⟩, leftUsable⟩ := const
    refine ⟨⟨⟨type, rfl⟩, leftUsable, candidate, rightUsable⟩, ?_⟩
    split at isConst
    · rfl
    · rfl
    · cases isConst
  · cases const

/-- A table that holds copies of a function and copies of constants. -/
structure CopiesOk (table : ExprTable) (size : Nat) (statement : Tree → Prop)
    (copies : Copies) : Prop where
  within : ∀ assign copy, copies.assignArray assign = some copy →
      1 ≤ assign ∧ assign ≤ copies.lastAssign ∧ assign < size
  flagged : ∀ copy assign, copies.copyId copy = some assign → copies.assignArray assign = some copy
  shape : ∀ assign copy, copies.assignArray assign = some copy → CopyShape table copy
  source : ∀ assign copy, copies.assignArray assign = some copy →
      statement copy ∨ (rightInfo copy).isConst = true

/-- What one table says, the other says too. -/
structure Copies.Extends (earlier later : Copies) : Prop where
  array : ∀ assign copy, earlier.assignArray assign = some copy →
      later.assignArray assign = some copy
  copyId : ∀ copy assign, earlier.copyId copy = some assign → later.copyId copy = some assign

theorem Copies.Extends.refl (copies : Copies) : copies.Extends copies :=
  ⟨fun _ _ same => same, fun _ _ same => same⟩

theorem Copies.Extends.trans {first second third : Copies} (one : first.Extends second)
    (two : second.Extends third) :
    first.Extends third :=
  ⟨fun assign copy entry => two.array assign copy (one.array assign copy entry),
    fun copy assign entry => two.copyId copy assign (one.copyId copy assign entry)⟩

theorem Copies.enter_known (known : copies.copyId node = some assign) :
    copies.enter size node = copies := by
  simp only [Copies.enter, known]

theorem Copies.enter_new (unknown : copies.copyId node = .none)
    (room : copies.lastAssign + 1 < size) : copies.enter size node =
      { lastAssign := copies.lastAssign + 1
        assignArray := update copies.assignArray (copies.lastAssign + 1) (some node)
        copyId := update copies.copyId node (some (copies.lastAssign + 1)) } := by
  simp only [Copies.enter, unknown, if_pos room]

theorem Copies.enter_full (unknown : copies.copyId node = .none)
    (full : ¬copies.lastAssign + 1 < size) :
    copies.enter size node = { copies with lastAssign := copies.lastAssign + 1 } := by
  simp only [Copies.enter, unknown, if_neg full]

/-- Entering a copy keeps the table right, and what it says. -/
theorem CopiesOk.enter {statement : Tree → Prop} {copies : Copies}
    (ok : CopiesOk table size statement copies) {node : Tree} (shape : CopyShape table node)
    (source : statement node ∨ (rightInfo node).isConst = true) :
    CopiesOk table size statement (copies.enter size node) ∧
      copies.Extends (copies.enter size node) := by
  cases known : copies.copyId node with
  | some assign =>
    rw [Copies.enter_known known]
    exact ⟨ok, .refl copies⟩
  | none =>
    by_cases room : copies.lastAssign + 1 < size
    · have older (assign : Nat) (copy : Tree) (entry : copies.assignArray assign = some copy) :
          assign ≠ copies.lastAssign + 1 := by
        have bound := (ok.within assign copy entry).2.1
        omega
      rw [Copies.enter_new known room]
      -- an entry is the new one or an old one
      have cases' (assign : Nat) (copy : Tree) (entry :
          update copies.assignArray (copies.lastAssign + 1) (some node) assign = some copy) :
          (assign = copies.lastAssign + 1 ∧ node = copy) ∨
            copies.assignArray assign = some copy := by
        by_cases here : assign = copies.lastAssign + 1
        · subst here
          rw [update_self] at entry
          exact .inl ⟨rfl, some.inj entry⟩
        · rw [update_of_ne here] at entry
          exact .inr entry
      refine ⟨⟨?_, ?_, ?_, ?_⟩, ⟨?_, ?_⟩⟩
      · intro assign copy entry
        rcases cases' assign copy entry with ⟨rfl, -⟩ | old
        · exact ⟨Nat.le_add_left _ _, le_rfl, room⟩
        · obtain ⟨from1, bound, below⟩ := ok.within assign copy old
          exact ⟨from1, Nat.le_succ_of_le bound, below⟩
      · intro copy assign entry
        by_cases here : copy = node
        · subst here
          simp only [update_self, some.injEq] at entry
          subst entry
          exact update_self _ _ _
        · simp only [update_of_ne here] at entry
          have old := ok.flagged copy assign entry
          simp only
          rw [update_of_ne (older assign copy old)]
          exact old
      · intro assign copy entry
        rcases cases' assign copy entry with ⟨-, rfl⟩ | old
        · exact shape
        · exact ok.shape assign copy old
      · intro assign copy entry
        rcases cases' assign copy entry with ⟨-, rfl⟩ | old
        · exact source
        · exact ok.source assign copy old
      · intro assign copy entry
        simp only
        rw [update_of_ne (older assign copy entry)]
        exact entry
      · intro copy assign entry
        have other : copy ≠ node := by
          rintro rfl
          rw [known] at entry
          cases entry
        simp only
        rw [update_of_ne other]
        exact entry
    · rw [Copies.enter_full known room]
      refine ⟨⟨?_, ok.flagged, ok.shape, ok.source⟩,
        ⟨fun _ _ entry => entry, fun _ _ entry => entry⟩⟩
      intro assign copy entry
      obtain ⟨from1, bound, below⟩ := ok.within assign copy entry
      exact ⟨from1, Nat.le_succ_of_le bound, below⟩

theorem copiesOk_none (statement : Tree → Prop) : CopiesOk table size statement .none := by
  constructor <;> simp [Copies.none]

/-- Every number given so far is that of a copy of the function. -/
def Filled (statements : Finset Tree) (copies : Copies) : Prop :=
  ∀ assign, 1 ≤ assign → assign ≤ copies.lastAssign →
    ∃ copy ∈ statements, copies.copyId copy = some assign

theorem Filled.enter {statements : Finset Tree} {copies : Copies}
    (filled : Filled statements copies) (room : statements.card < size) {node : Tree}
    (member : node ∈ statements) : Filled statements (copies.enter size node) ∧
      ∃ assign, (copies.enter size node).copyId node = some assign := by
  cases known : copies.copyId node with
  | some assign =>
    rw [Copies.enter_known known]
    exact ⟨filled, assign, known⟩
  | none =>
    have counted : copies.lastAssign < statements.card := by
      have fewer : (Finset.Icc 1 copies.lastAssign).card ≤ (statements.erase node).card := by
        have choice (assign : Nat) (listed : assign ∈ Finset.Icc 1 copies.lastAssign) :
            ∃ copy ∈ statements.erase node, copies.copyId copy = some assign := by
          obtain ⟨from1, bound⟩ := Finset.mem_Icc.1 listed
          obtain ⟨copy, inside, number⟩ := filled assign from1 bound
          refine ⟨copy, Finset.mem_erase.2 ⟨?_, inside⟩, number⟩
          rintro rfl
          rw [known] at number
          cases number
        have : Inhabited Tree := ⟨node⟩
        choose! copy inside number using choice
        refine Finset.card_le_card_of_injOn copy inside ?_
        intro one oneListed two twoListed same
        have first := number one oneListed
        rw [same, number two twoListed] at first
        exact (some.inj first).symm
      rw [Nat.card_Icc, Finset.card_erase_of_mem member] at fewer
      have some1 := Finset.card_pos.2 ⟨node, member⟩
      omega
    have fits : copies.lastAssign + 1 < size := by omega
    rw [Copies.enter_new known fits]
    refine ⟨?_, copies.lastAssign + 1, update_self _ _ _⟩
    intro assign from1 bound
    by_cases here : assign = copies.lastAssign + 1
    · subst here
      exact ⟨node, member, update_self _ _ _⟩
    · obtain ⟨copy, inside, number⟩ := filled assign from1 (by simp only at bound; omega)
      refine ⟨copy, inside, ?_⟩
      have other : copy ≠ node := by
        rintro rfl
        rw [known] at number
        cases number
      simp only
      rw [update_of_ne other]
      exact number

/-- Neither side of a copy is killed. -/
def Survives (table : ExprTable) (copy : Tree) (kills : Finset Nat) : Prop :=
  table.setid (leftInfo copy) ∉ kills ∧ table.setid (rightInfo copy) ∉ kills

theorem survives_iff {copy : Tree} (entry : copies.assignArray assign = some copy)
    (kills : Finset Nat) :
    killsAssign table copies kills assign = false ↔ Survives table copy kills := by
  unfold killsAssign Survives
  rw [entry]
  simp

/-- What is known of some trees of a block, in terms of a table. -/
structure LocalRight (table : ExprTable) (copies : Copies) (nodes : List Tree)
    (info : LocalInfo) : Prop where
  killed : ∀ node ∈ nodes, table.recursiveKills node ⊆ info.exprsKilled
  reaches : ∀ assign ∈ info.reachesExit, ∃ before node after, nodes = before ++ node :: after ∧
      isCopyStatement table node = true ∧ copies.assignArray assign = some node ∧
      ∀ later ∈ after, Survives table node (table.recursiveKills later)

theorem LocalRight.extends {earlier later : Copies} (right : LocalRight table earlier nodes info)
    (extension : earlier.Extends later) : LocalRight table later nodes info := by
  refine ⟨right.killed, ?_⟩
  intro assign member
  obtain ⟨before, node, after, split, copy, entry, survives⟩ := right.reaches assign member
  exact ⟨before, node, after, split, copy, extension.array assign node entry, survives⟩

/-- A table in which every copy of the function that was met has a number. -/
structure Collecting (table : ExprTable) (size : Nat) (statements : Finset Tree)
    (copies : Copies) : Prop where
  ok : CopiesOk table size (fun copy => copy ∈ statements) copies
  filled : Filled statements copies

theorem mem_setBit {number : Nat} {set : Finset Nat} (member : assign ∈ setBit size number set) :
    assign = number ∨ assign ∈ set := by
  unfold setBit at member
  split at member
  · exact Finset.mem_insert.1 member
  · exact .inr member

/-- One tree more is looked at. -/
theorem localRight_collectNode (room : statements.card < size)
    (collecting : Collecting table size statements copies)
    (right : LocalRight table copies nodes info)
    (listed : isCopyStatement table node = true → node ∈ statements) :
    Collecting table size statements (collectNode table size (copies, info) node).1 ∧
      copies.Extends (collectNode table size (copies, info) node).1 ∧
      LocalRight table (collectNode table size (copies, info) node).1
        (nodes ++ [node]) (collectNode table size (copies, info) node).2 := by
  by_cases side : node.containsSide = true
  · -- a copy that is not killed by the tree still reaches the end
    have stays (assign : Nat) (member : assign ∈ info.reachesExit.filter fun assign =>
        killsAssign table copies (table.recursiveKills node) assign = false) :
        ∃ before copy after, nodes ++ [node] = before ++ copy :: after ∧
          isCopyStatement table copy = true ∧ copies.assignArray assign = some copy ∧
          ∀ later ∈ after, Survives table copy (table.recursiveKills later) := by
      obtain ⟨inside, spared⟩ := Finset.mem_filter.1 member
      obtain ⟨before, copy, after, split, isCopy, entry, survives⟩ := right.reaches assign inside
      refine ⟨before, copy, after ++ [node], by rw [split]; simp, isCopy, entry, ?_⟩
      intro later place
      rcases mem_append.1 place with earlier | last
      · exact survives later earlier
      · rw [mem_singleton.1 last]
        exact (survives_iff entry _).1 spared
    have killed : ∀ other ∈ nodes ++ [node], table.recursiveKills other ⊆
        info.exprsKilled ∪ table.recursiveKills node := by
      intro other place
      rcases mem_append.1 place with earlier | last
      · exact (right.killed other earlier).trans Finset.subset_union_left
      · rw [mem_singleton.1 last]
        exact Finset.subset_union_right
    by_cases valid : isValidCopyNode table node (table.recursiveKills node) = true
    · have isCopy : isCopyStatement table node = true := by
        simp [isCopyStatement, side, valid]
      obtain ⟨ok, extension⟩ :=
        collecting.ok.enter (copyShape_of_valid valid) (.inl (listed isCopy))
      obtain ⟨filled, number, given⟩ := collecting.filled.enter room (listed isCopy)
      simp only [collectNode, side, valid, ↓reduceIte]
      refine ⟨⟨ok, filled⟩, extension, killed, ?_⟩
      intro assign member
      rcases mem_setBit member with new | old
      · rw [Copies.setid, given, getD_some] at new
        subst new
        exact ⟨nodes, node, [], rfl, isCopy, ok.flagged node _ given, fun _ none => nomatch none⟩
      · obtain ⟨before, copy, after, split, other, entry, survives⟩ := stays assign old
        exact ⟨before, copy, after, split, other, extension.array assign copy entry, survives⟩
    · simp only [collectNode, side, valid, ↓reduceIte, Bool.false_eq_true]
      exact ⟨collecting, .refl copies, killed, stays⟩
  · have pure : node.containsSide = false := by
      simpa using side
    simp only [collectNode, pure, Bool.false_eq_true, ↓reduceIte]
    refine ⟨collecting, .refl copies, ?_, ?_⟩
    · intro other place
      rcases mem_append.1 place with earlier | last
      · exact right.killed other earlier
      · rw [mem_singleton.1 last, recursiveKills_of_pure pure]
        exact Finset.empty_subset _
    · intro assign member
      obtain ⟨before, copy, after, split, isCopy, entry, survives⟩ := right.reaches assign member
      refine ⟨before, copy, after ++ [node], by rw [split]; simp, isCopy, entry, ?_⟩
      intro later place
      rcases mem_append.1 place with earlier | last
      · exact survives later earlier
      · rw [mem_singleton.1 last, recursiveKills_of_pure pure]
        exact ⟨Finset.notMem_empty _, Finset.notMem_empty _⟩

theorem localRight_collectLocalInfo (room : statements.card < size)
    (collecting : Collecting table size statements copies) (nodes : List Tree)
    (listed : ∀ node ∈ nodes, isCopyStatement table node = true → node ∈ statements) :
    Collecting table size statements (collectLocalInfo table size copies nodes).1 ∧
      copies.Extends (collectLocalInfo table size copies nodes).1 ∧
      LocalRight table (collectLocalInfo table size copies nodes).1 nodes
        (collectLocalInfo table size copies nodes).2 := by
  induction nodes using reverseRecOn with
  | nil =>
    exact ⟨collecting, .refl copies, fun _ member => (nomatch member),
      fun _ member => absurd member (Finset.notMem_empty _)⟩
  | append_singleton earlier node ih =>
    obtain ⟨going, extension, right⟩ := ih fun other member =>
      listed other (mem_append_left _ member)
    have step : collectLocalInfo table size copies (earlier ++ [node]) = collectNode table size
        (collectLocalInfo table size copies earlier) node := by
      simp [collectLocalInfo]
    rw [step]
    obtain ⟨done, longer, local'⟩ := localRight_collectNode room going right
      (listed node (mem_append_right _ (mem_singleton.2 rfl)))
    exact ⟨done, extension.trans longer, local'⟩

theorem localRight_foldl (room : (copyStatements table graph).card < size) (blocks : List Nat)
    (within : blocks ⊆ graph.blocks) :
    Collecting table size (copyStatements table graph) (blocks.foldl (collectBlock table size graph)
      (.none, fun _ => ⟨∅, ∅⟩)).1 ∧
      ∀ block ∈ blocks, LocalRight table (blocks.foldl (collectBlock table size graph)
        (.none, fun _ => ⟨∅, ∅⟩)).1 (graph.nodes block)
        ((blocks.foldl (collectBlock table size graph) (.none, fun _ => ⟨∅, ∅⟩)).2 block) := by
  induction blocks using reverseRecOn with
  | nil =>
    refine ⟨⟨copiesOk_none _, ?_⟩, fun _ member => nomatch member⟩
    intro assign from1 bound
    exact absurd (from1.trans bound) (by simp [Copies.none])
  | append_singleton earlier block ih =>
    obtain ⟨going, rights⟩ := ih (append_subset.1 within).1
    simp only [foldl_append, foldl_cons, foldl_nil]
    have inside := within (mem_append_right _ (mem_singleton.2 rfl))
    obtain ⟨done, extension, right⟩ :=
      localRight_collectLocalInfo room going (graph.nodes block) (by
        intro node member isCopy
        exact mem_toFinset.2 (mem_filter.2 ⟨mem_flatMap.2 ⟨block, inside, member⟩, isCopy⟩))
    refine ⟨done, ?_⟩
    intro other member
    simp only [collectBlock]
    by_cases here : other = block
    · subst here
      rw [update_self]
      exact right
    · rw [update_of_ne here]
      rcases mem_append.1 member with old | last
      · exact (rights other old).extends extension
      · exact absurd (mem_singleton.1 last) here

theorem localRight_collectBlocks (room : (copyStatements table graph).card < size) :
    Collecting table size (copyStatements table graph) (collectBlocks table size graph).1 ∧
      ∀ block ∈ graph.blocks, LocalRight table (collectBlocks table size graph).1
        (graph.nodes block) ((collectBlocks table size graph).2 block) :=
  localRight_foldl room graph.blocks (List.Subset.refl _)

end Uw7.Amigo.Opt
