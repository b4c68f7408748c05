import Uw7.Amigo.CopyPropReplace
import Uw7.Amigo.CopyPropTable

/-!
# One tree in copy propagation

A copy stands for a point of a run when a tree that is the copy was evaluated
before and neither side was changed since.  The copies that are available
before a tree stand wherever the tree reads a use that one of them replaced,
and the copies that are available after it stand after it.
-/

namespace Uw7.Amigo.Opt

open List Bool

variable {table : ExprTable} {graph : FlowGraph}

/-- A use that a copy may replace. -/
def isUse (table : ExprTable) (context : Context) (node : Tree) : Bool :=
  table.optableForCp node && node.isObject && !context.isLval

/-- The uses in a tree that copies may replace. -/
def uses (table : ExprTable) (context : Context) : Tree → List Tree
  | .leaf leaf type => if isUse table context (.leaf leaf type) then [.leaf leaf type] else []
  | .unary op type left =>
    (if isUse table context (.unary op type left) then [.unary op type left]
      else []) ++
      uses table (getContext (.unary op type left) .left context) left
  | .binary op type left right =>
    (if isUse table context (.binary op type left right) then
        [.binary op type left right]
      else []) ++
      uses table (getContext (.binary op type left right) .left context) left ++
      uses table (getContext (.binary op type left right) .right context) right

/-- The expressions that may come to stand in a tree where a use was: the uses
in it, and the uses in the right sides of copies of such expressions. -/
inductive Involved (table : ExprTable) (graph : FlowGraph) (node : Tree) : Tree → Prop where
  | use {use : Tree} (member : use ∈ uses table .top node) : Involved table graph node use
  | copied {use copy inner : Tree} (earlier : Involved table graph node use)
      (statement : copy ∈ copyStatements table graph) (same : leftInfo copy = use)
      (member : inner ∈ uses table .top ((rightInfo copy).paint use.type)) :
      Involved table graph node inner

/-- The left operand of an assignment or a call changes no expression that may
come to stand in the tree, and no right side of a copy of one. -/
def LeftHarmless (table : ExprTable) (graph : FlowGraph) (node : Tree) : Prop :=
  ∀ op type left right, node = .binary op type left right →
    op = .assign ∨ op = .call → ∀ use, Involved table graph node use →
      table.setid use ∉ table.recursiveKills left ∧
        ∀ copy ∈ copyStatements table graph, leftInfo copy = use →
          table.setid (rightInfo copy) ∉ table.recursiveKills left

theorem isUse_congr {one two : Context} (same : one.isLval = two.isLval) (node : Tree) :
    isUse table one node = isUse table two node := by
  simp [isUse, same]

theorem uses_congr {one two : Context} (same : one.isLval = two.isLval) (node : Tree) :
    uses table one node = uses table two node := by
  induction node generalizing one two with
  | leaf leaf type =>
    unfold uses
    rw [isUse_congr same]
  | unary op type left ih =>
    have below : (getContext (.unary op type left) .left one).isLval =
        (getContext (.unary op type left) .left two).isLval := by
      cases op <;> simp [getContext, same]
    unfold uses
    rw [isUse_congr same, ih below]
  | binary op type left right leftHypothesis rightHypothesis =>
    have leftBelow : (getContext (.binary op type left right) .left one).isLval =
        (getContext (.binary op type left right) .left two).isLval := by
      cases op <;> simp [getContext, same]
    have rightBelow : (getContext (.binary op type left right) .right one).isLval =
        (getContext (.binary op type left right) .right two).isLval := by
      cases op <;> simp [getContext, same]
    unfold uses
    rw [isUse_congr same, leftHypothesis leftBelow, rightHypothesis rightBelow]

theorem isLval_getContext_right (op : BinaryOp) (type : Nat) (one two right : Tree)
    (context : Context) : (getContext (.binary op type one right) .right context).isLval =
      (getContext (.binary op type two right) .right context).isLval := by
  cases op <;> rfl

theorem exists_of_mem_under {side : Side} {replacements : List Replacement}
    {replacement : Replacement} (member : replacement ∈ replacements.map (.under side)) :
    ∃ inner ∈ replacements, inner.before = replacement.before := by
  obtain ⟨inner, inside, rfl⟩ := mem_map.1 member
  exact ⟨inner, inside, rfl⟩

theorem uses_of_const {tree : Tree} (const : tree.isConst = true) {context : Context} {type : Nat} :
    uses table context (tree.paint type) = [] := by
  cases tree with
  | leaf leaf own =>
    cases leaf <;> simp_all [Tree.isConst, Leaf.isConst, uses, isUse, Tree.paint, Tree.isObject]
  | unary op own left => cases const
  | binary op own left right => cases const

variable {env : CopyEnv} {size : Nat} {copies : Copies} {avail : Finset Nat}

theorem involved_of_replaced {node : Tree} (ok : CopiesOk env.table size
    (fun copy => copy ∈ copyStatements env.table graph) copies)
    {block index : Nat} (fuel : Nat)
    {context : Context}
    {part : Tree}
    (involved : ∀ use ∈ uses env.table context part, Involved env.table graph node use) :
    ∀ replacement ∈ (findAndReplaceCopies env copies avail block index fuel context part).2,
      Involved env.table graph node replacement.before := by
  induction fuel generalizing context part with
  | zero => exact fun _ member => absurd member not_mem_nil
  | succ fuel ih =>
    intro replacement member
    unfold findAndReplaceCopies at member
    cases found : replacement? env copies avail block index context part with
    | some after =>
      simp only [found] at member
      obtain ⟨optable, object, notLval, assign, copy, -, entry, same, rfl⟩ := of_replacement? found
      have use : isUse env.table context part = true := by simp [isUse, optable, object, notLval]
      have here : part ∈ uses env.table context part := by cases part <;> simp [uses, use]
      rcases mem_cons.1 member with rfl | later
      · exact involved part here
      · refine ih ?_ replacement later
        intro inner inside
        rcases ok.source assign copy entry with statement | const
        · rw [@uses_congr env.table context .top notLval] at inside
          exact .copied (involved part here) statement same.symm inside
        · rw [uses_of_const const] at inside
          exact absurd inside not_mem_nil
    | none =>
      simp only [found] at member
      cases part with
      | leaf leaf type => exact absurd member not_mem_nil
      | unary op type left =>
        obtain ⟨inner, inside, same⟩ := exists_of_mem_under member
        rw [← same]
        refine ih ?_ inner inside
        intro use place
        exact involved use (mem_append_right _ place)
      | binary op type left right =>
        rcases mem_append.1 member with first | second
        · obtain ⟨inner, inside, same⟩ := exists_of_mem_under first
          rw [← same]
          refine ih ?_ inner inside
          intro use place
          exact involved use (mem_append_left _ (mem_append_right _ place))
        · obtain ⟨inner, inside, same⟩ := exists_of_mem_under second
          rw [← same]
          refine ih ?_ inner inside
          intro use place
          rw [uses_congr (isLval_getContext_right op type _ left right context)] at place
          exact involved use (mem_append_right _ place)

section

variable {State Value : Type} (machine : Machine State Value)

/-- What the pass relies on: the kills of a tree contain what it may change,
folding keeps what a tree does, an assignment leaves the value of its right side
in its left one, read with the type of the left one, and reading an unchanged
value with another type gives an unchanged value. -/
structure CopyLaws (env : CopyEnv) : Prop where
  cover : KillsCover machine env.table env.table.recursiveKills
  folds : ∀ node state value final events, Evaluates machine false node state value final events →
      ∃ result later, Evaluates machine false (env.fold node) state result final later
  stores : ∀ type left right state value final events,
      Evaluates machine false (.binary .assign type left right) state value final events →
      env.table.optableForCp left = true → env.table.candidateObject left = true →
      env.table.optableForCp right = true →
      machine.value false left final = machine.value false (right.paint left.type) state
  paints : ∀ node type before after, node.containsSide = false →
      machine.value false node before = machine.value false node after →
      machine.value false (node.paint type) before = machine.value false (node.paint type) after

def SameSides (copy : Tree) (before after : State) : Prop :=
  machine.value false (leftInfo copy) before = machine.value false (leftInfo copy) after ∧
    machine.value false (rightInfo copy) before = machine.value false (rightInfo copy) after

def Copied (copy : Tree) (state : State) : Prop := machine.value false (leftInfo copy) state =
    machine.value false ((rightInfo copy).paint (leftInfo copy).type) state

/-- A copy was evaluated in a history, as the tree of a place or as what was
written there, neither side was changed from then up to a state, and there its
sides are equal. -/
def Stands (written : Nat → Nat → Tree → Prop) (history : List (Entry State)) (state : State)
    (copy : Tree) : Prop :=
  (∃ earlier entry later, history = earlier ++ entry :: later ∧
    written entry.block entry.index copy ∧
    (∀ other ∈ later, SameSides machine copy entry.after other.after) ∧
    SameSides machine copy entry.after state) ∧
  Copied machine copy state

end

section

variable {State Value : Type} {machine : Machine State Value} {written : Nat → Nat → Tree → Prop}
  {history : List (Entry State)}
  {state final : State}
  {copy : Tree}

theorem SameSides.refl (copy : Tree) (state : State) : SameSides machine copy state state :=
  ⟨rfl, rfl⟩

theorem SameSides.trans {before middle after : State} (one : SameSides machine copy before middle)
    (two : SameSides machine copy middle after) : SameSides machine copy before after :=
  ⟨one.1.trans two.1, one.2.trans two.2⟩

variable {node : Tree} {block index assign : Nat} {value : Value} {events : List (Event State)}
  {taken : State}

theorem value_of_isConst (const : node.isConst = true) (lval : Bool) (before after : State) :
    machine.value lval node before = machine.value lval node after := by
  cases node with
  | leaf leaf type =>
    have isConst : leaf.isConst = true := const
    simp [Machine.value, isConst]
  | unary op type left => cases const
  | binary op type left right => cases const

theorem isConst_paint (node : Tree) (type : Nat) : (node.paint type).isConst = node.isConst := by
  cases node <;> rfl

theorem sameSides_of_survives {killed : Finset Nat}
    (keeps : Keeps machine env.table killed state final) (shape : CopyShape env.table copy)
    (survives : Survives env.table copy killed) : SameSides machine copy state final :=
  ⟨keeps _ (optimizable_of_optableForCp shape.leftUsable) survives.1,
    keeps _ (optimizable_of_optableForCp shape.rightUsable) survives.2⟩

section

variable (laws : CopyLaws machine env) (shape : CopyShape env.table copy)
  (stands : Stands machine written history state copy) (same : SameSides machine copy state final)
include laws shape stands same

theorem Stands.stay : Stands machine written history final copy := by
  obtain ⟨⟨earlier, entry, later, split, place, between, upTo⟩, copied⟩ := stands
  refine ⟨⟨earlier, entry, later, split, place, between, upTo.trans same⟩, ?_⟩
  have right := laws.paints (rightInfo copy) (leftInfo copy).type state final
      (pure_of_optimizable (optimizable_of_optableForCp shape.rightUsable)) same.2
  exact same.1.symm.trans (copied.trans right)

theorem Stands.after (block index : Nat) :
    Stands machine written (history ++ [⟨block, index, final⟩]) final copy := by
  obtain ⟨⟨earlier, entry, later, split, place, between, upTo⟩, copied⟩ :=
    stands.stay laws shape same
  refine ⟨⟨earlier, entry, later ++ [⟨block, index, final⟩], ?_, place, ?_, upTo⟩, copied⟩
  · rw [split]
    simp
  · intro other member
    rcases mem_append.1 member with old | new
    · exact between other old
    · rw [mem_singleton.1 new]
      exact upTo

end

theorem stands_new (place : written block index copy) (copied : Copied machine copy final) :
    Stands machine written (history ++ [⟨block, index, final⟩]) final copy :=
  ⟨⟨history, ⟨block, index, final⟩, [], rfl, place,
    fun _ none => (nomatch none), .refl copy final⟩, copied⟩

theorem value_of_objectPlusConst (plus : node.objectPlusConst = true)
    (kept : machine.value false (leftInfo node) state = machine.value false (leftInfo node) final) :
    machine.value false node state = machine.value false node final := by
  unfold Tree.objectPlusConst at plus
  split at plus
  · rw [and_eq_true] at plus
    simp only [Machine.value, BinaryOp.lvalLeft]
    rw [value_of_isConst plus.2 false state final]
    exact congrArg (fun value => machine.binary _ _ _ value _) kept
  · exact congrArg (fun value => machine.binary _ _ _ value _) kept
  · cases plus

theorem killsAssign_empty (table : ExprTable) (copies : Copies) (assign : Nat) :
    killsAssign table copies ∅ assign = false := by
  unfold killsAssign
  split <;> simp

theorem mem_availBefore (available : assign ∈ availBefore table copies node avail) :
    assign ∈ avail ∧ (killsAssign table copies (table.recursiveKills node) assign = false ∨
      ∃ op type left right, node = .binary op type left right ∧ (op = .assign ∨ op = .call) ∧
        killsAssign table copies (table.recursiveKills right) assign = false) := by
  have rightOnly (right : Tree) (member : assign ∈ if right.containsSide = true then
      killAssigns table copies right avail
      else avail) : assign ∈ avail ∧ killsAssign table copies (table.recursiveKills right) assign =
        false := by
    split at member
    · exact Finset.mem_filter.1 member
    · rename_i pure
      rw [not_eq_true] at pure
      rw [recursiveKills_of_pure pure, killsAssign_empty]
      exact ⟨member, rfl⟩
  unfold availBefore at available
  split at available
  · split at available
    · rename_i type left right side
      obtain ⟨old, spared⟩ := rightOnly right available
      exact ⟨old, .inr ⟨_, _, _, _, rfl, .inl rfl, spared⟩⟩
    · rename_i type left right side
      obtain ⟨old, spared⟩ := rightOnly right available
      exact ⟨old, .inr ⟨_, _, _, _, rfl, .inr rfl, spared⟩⟩
    · obtain ⟨old, spared⟩ := Finset.mem_filter.1 available
      exact ⟨old, .inl spared⟩
  · rename_i pure
    rw [not_eq_true] at pure
    rw [recursiveKills_of_pure pure, killsAssign_empty]
    exact ⟨available, .inl rfl⟩

theorem sameSides_of_availBefore (laws : CopyLaws machine env)
    (harmless : LeftHarmless env.table graph node)
    (available : assign ∈ availBefore env.table copies node avail)
    (entry : copies.assignArray assign = some copy) (shape : CopyShape env.table copy)
    (source : copy ∈ copyStatements env.table graph ∨ (rightInfo copy).isConst = true)
    (involved : Involved env.table graph node (leftInfo copy))
    (evaluates : Evaluates machine false node state value final events) {path : List Side}
    (read : ReadAt events path taken) : SameSides machine copy state taken := by
  obtain ⟨part, -, member⟩ := read
  have grow := @killsGrow_recursiveKills env.table
  obtain ⟨-, spared | ⟨op, type, left, right, rfl, kind, spared⟩⟩ := mem_availBefore available
  · exact sameSides_of_survives (evaluates.keeps_takes grow laws.cover part taken member) shape
      ((survives_iff entry _).1 spared)
  · have keeps := evaluates.keeps_takes_operands grow laws.cover member
    obtain ⟨leftSpared, rightSpared⟩ := (survives_iff entry _).1 spared
    obtain ⟨useSpared, copySpared⟩ := harmless op type left right rfl kind _ involved
    refine ⟨keeps _ (optimizable_of_optableForCp shape.leftUsable) ?_, ?_⟩
    · exact fun inside => (Finset.mem_union.1 inside).elim useSpared leftSpared
    · rcases source with statement | const
      · refine keeps _ (optimizable_of_optableForCp shape.rightUsable) ?_
        exact fun inside =>
          (Finset.mem_union.1 inside).elim (copySpared copy statement rfl) rightSpared
      · exact value_of_isConst const false state taken

theorem rightInfo_kept {kills : Finset Nat} (valid : isValidCopyNode env.table node kills = true)
    (keeps : Keeps machine env.table kills state final) :
    machine.value false (rightInfo node) state = machine.value false (rightInfo node) final := by
  have shape := copyShape_of_valid valid
  have rightUsable := optimizable_of_optableForCp shape.rightUsable
  obtain ⟨type, form⟩ := shape.assign
  generalize leftInfo node = left at form
  generalize rightInfo node = right at form rightUsable ⊢
  subst form
  unfold isValidCopyNode at valid
  split at valid
  · cases valid
  · rename_i same
    cases same
    split_ifs at valid with _ _ _ _ object const plus
    · rw [and_eq_true, decide_eq_true_eq, decide_eq_true_eq] at valid
      exact keeps right rightUsable valid.2
    · exact value_of_isConst const false state final
    · simp only [and_eq_true, decide_eq_true_eq] at valid
      obtain ⟨⟨⟨_, optable⟩, survives⟩, _⟩ := valid
      have optimizable : env.table.optimizable (leftInfo right) = true := by
        simp only [ExprTable.optable, and_eq_true] at optable
        exact optable.1.1.1
      have kept := keeps (leftInfo right) optimizable survives
      exact value_of_objectPlusConst plus kept
  · cases valid

/-- Every copy of a set has an entry and stands. -/
def AllStand (machine : Machine State Value) (written : Nat → Nat → Tree → Prop)
    (history : List (Entry State)) (state : State) (copies : Copies) (avail : Finset Nat) : Prop :=
  ∀ assign ∈ avail, ∃ copy, copies.assignArray assign = some copy ∧
    Stands machine written history state copy

/-- What is so of the table of a scan that stands before a tree. -/
structure ScanRight (machine : Machine State Value) (env : CopyEnv) (graph : FlowGraph)
    (written : Nat → Nat → Tree → Prop) (history : List (Entry State)) (state : State)
    (progress : Progress) : Prop where
  ok : CopiesOk env.table env.exprArraySize
      (fun copy => copy ∈ copyStatements env.table graph) progress.copies
  stand : AllStand machine written history state progress.copies progress.avail

variable {progress : Progress}

theorem stands_of_read (laws : CopyLaws machine env)
    (right : ScanRight machine env graph written history state progress)
    (harmless : LeftHarmless env.table graph node)
    (evaluates : Evaluates machine false node state value final events) {replacement : Replacement}
    (member : replacement ∈ (writeNode env block progress node).replacements)
    (read : ReadAt events replacement.path taken) :
    ∃ copy, replacement.before = leftInfo copy ∧ replacement.after =
      (rightInfo copy).paint replacement.before.type ∧
      Stands machine written history taken copy := by
  obtain ⟨assign, copy, available, entry, same, after⟩ := copy_of_replaced env.fuel member
  have shape := right.ok.shape assign copy entry
  obtain ⟨other, otherEntry, stands⟩ := right.stand assign (mem_availBefore available).1
  rw [entry] at otherEntry
  cases otherEntry
  have involved := involved_of_replaced right.ok env.fuel
      (fun use inside => Involved.use inside) replacement member
  rw [same] at involved
  exact ⟨copy, same, after, stands.stay laws shape
    (sameSides_of_availBefore laws harmless available entry shape
      (right.ok.source assign copy entry) involved evaluates read)⟩

theorem evaluates_writeNode (laws : CopyLaws machine env)
    (right : ScanRight machine env graph written history state progress) {block : Nat} {node : Tree}
    (harmless : LeftHarmless env.table graph node) {value : Value} {events : List (Event State)}
    (evaluates : Evaluates machine false node state value final events) :
    ∃ result later, Evaluates machine false (writeNode env block progress node).node state
      result final later := by
  have pureRights : PureRights progress.copies
      (availBefore env.table progress.copies node progress.avail) := by
    intro assign _ copy entry
    exact pure_of_optimizable (optimizable_of_optableForCp
      (right.ok.shape assign copy entry).rightUsable)
  have same : SameReads machine (writeNode env block progress node).replacements
        events := by
    intro replacement member taken read
    obtain ⟨copy, before, after, -, copied⟩ :=
      stands_of_read laws right harmless evaluates member read
    rw [after, before]
    exact copied
  obtain ⟨later, replaced⟩ := evaluates_findAndReplaceCopies pureRights env.fuel
    (Context.Covers.value .top) evaluates same
  simp only [writeNode]
  split
  · exact ⟨value, later, replaced⟩
  · exact laws.folds _ _ _ _ _ replaced

theorem ok_enterConst {statement : Tree → Prop}
    (ok : CopiesOk env.table env.exprArraySize statement copies) (done : Done) :
    CopiesOk env.table env.exprArraySize statement (enterConst env copies done) ∧
      copies.Extends (enterConst env copies done) := by
  unfold enterConst
  split
  · rename_i const
    obtain ⟨shape, isConst⟩ := copyShape_of_const const.2
    exact ok.enter shape (.inr isConst)
  · exact ⟨ok, .refl copies⟩

section

variable (laws : CopyLaws machine env)
include laws

theorem copied_of_const (const : isConstCopyNode env.table node = true)
    (evaluates : Evaluates machine false node state value final events) :
    Copied machine node final := by
  obtain ⟨shape, isConst⟩ := copyShape_of_const const
  obtain ⟨type, form⟩ := shape.assign
  rw [form] at evaluates
  have stored := laws.stores type _ _ state value final events evaluates shape.leftUsable
      shape.leftCandidate shape.rightUsable
  refine stored.trans (value_of_isConst ?_ false state final)
  rw [isConst_paint]
  exact isConst

theorem copied_of_statement (shape : CopyShape env.table node)
    (source : node ∈ copyStatements env.table graph ∨ (rightInfo node).isConst = true)
    (evaluates : Evaluates machine false node state value final events) :
    Copied machine node final := by
  have keeps := laws.cover _ _ _ _ _ _ evaluates
  have rightKept : machine.value false (rightInfo node) state =
      machine.value false (rightInfo node) final := by
    rcases source with statement | const
    · have listed := mem_toFinset.1 statement
      have isCopy := (mem_filter.1 listed).2
      rw [isCopyStatement, and_eq_true] at isCopy
      exact rightInfo_kept isCopy.2 keeps
    · exact value_of_isConst const false state final
  obtain ⟨type, form⟩ := shape.assign
  rw [form] at evaluates
  have stored := laws.stores type _ _ state value final events evaluates shape.leftUsable
      shape.leftCandidate shape.rightUsable
  exact stored.trans (laws.paints _ _ state final
    (pure_of_optimizable (optimizable_of_optableForCp shape.rightUsable))
    rightKept)

theorem allStand_kept
    (right : ScanRight machine env graph written history state progress) {block : Nat} {node : Tree}
    (harmless : LeftHarmless env.table graph node) {value : Value} {events : List (Event State)}
    (evaluates : Evaluates machine false node state value final events) {later : Copies}
    (ok : CopiesOk env.table env.exprArraySize
      (fun copy => copy ∈ copyStatements env.table graph) later)
    (extension : progress.copies.Extends later) (index : Nat) :
    AllStand machine written (history ++ [⟨block, index, final⟩]) final later
      (if node.containsSide then
        killAssigns env.table later (writeNode env block progress node).node
          (availBefore env.table progress.copies node progress.avail)
      else availBefore env.table progress.copies node progress.avail) := by
  intro assign member
  -- the copy stood before the tree, and its sides stay the same
  have stay (available : assign ∈ availBefore env.table progress.copies node progress.avail) (same :
      ∀ copy, progress.copies.assignArray assign = some copy → SameSides machine copy state final) :
      ∃ copy, later.assignArray assign = some copy ∧
        Stands machine written (history ++ [⟨block, index, final⟩]) final
          copy := by
    obtain ⟨copy, entry, stands⟩ := right.stand assign (mem_availBefore available).1
    exact ⟨copy, extension.array assign copy entry,
      stands.after laws (right.ok.shape assign copy entry) (same copy entry) block index⟩
  split at member
  · obtain ⟨available, spared⟩ := Finset.mem_filter.1 member
    refine stay available ?_
    intro copy entry
    obtain ⟨result, others, wrote⟩ :=
      @evaluates_writeNode _ _ _ _ _ _ _ _ _ _ laws right block _ harmless _ _ evaluates
    have laterEntry := extension.array assign copy entry
    exact sameSides_of_survives (laws.cover _ _ _ _ _ _ wrote) (ok.shape assign copy laterEntry)
      ((survives_iff laterEntry _).1 spared)
  · rename_i pure
    rw [not_eq_true] at pure
    obtain ⟨-, rfl, -⟩ := evaluates.of_pure pure
    exact stay member fun copy _ => .refl copy final

theorem scanRight_copyPropNode (right : ScanRight machine env graph written history state progress)
    (harmless : LeftHarmless env.table graph node)
    (evaluates : Evaluates machine false node state value final events)
    (old : written block index node)
    (new : written block index (writeNode env block progress node).node) :
    ScanRight machine env graph written (history ++ [⟨block, index, final⟩]) final
      (copyPropNode env block progress node) ∧
      progress.copies.Extends (copyPropNode env block progress node).copies := by
  obtain ⟨ok, extension⟩ := ok_enterConst right.ok (writeNode env block progress node)
  have kept := @allStand_kept _ _ _ _ _ _ _ _ _ _ laws right block _ harmless _ _
      evaluates _ ok extension index
  refine ⟨⟨ok, ?_⟩, extension⟩
  simp only [copyPropNode]
  cases made : newAssign env progress.copies
    (enterConst env progress.copies (writeNode env block progress node))
    node (writeNode env block progress node) with
  | none => exact kept
  | some number =>
    intro assign member
    rcases mem_setBit member with rfl | before
    · -- the tree itself, or what was written for it, is the copy
      have oldCopy (isCopy : (if node.containsSide then
          copyOf env.table progress.copies node
          else none) = some assign) : ∃ copy, (enterConst env progress.copies
            (writeNode env block progress node)).assignArray assign = some copy ∧
            Stands machine written (history ++ [⟨block, index, final⟩]) final copy := by
        rw [Option.ite_none_right_eq_some] at isCopy
        have number := isCopy.2
        unfold copyOf at number
        split at number
        · rw [Option.ite_none_right_eq_some] at number
          have entry := right.ok.flagged _ assign number.2
          exact ⟨_, extension.array assign _ entry, stands_new old
            (copied_of_statement laws (right.ok.shape assign _ entry)
              (right.ok.source assign _ entry) evaluates)⟩
        · cases number
      simp only [newAssign] at made
      split at made
      · rename_i const
        rcases Option.or_eq_some_iff.1 made with written' | ⟨-, copy⟩
        · obtain ⟨result, others, wrote⟩ :=
            @evaluates_writeNode _ _ _ _ _ _ _ _ _ _ laws right block _ harmless _ _ evaluates
          exact ⟨_, ok.flagged _ assign written',
            stands_new new (copied_of_const laws const.2 wrote)⟩
        · exact oldCopy copy
      · exact oldCopy made
    · exact kept assign before

end

end

end Uw7.Amigo.Opt
