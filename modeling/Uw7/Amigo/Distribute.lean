import Mathlib.Tactic.SplitIfs

/-!
# The distributive rewrite

`distribute` from `const.c`, for trees of `&&`, `||` and `!`.  An operand may do anything to
the state, and its truth value may depend on it.
-/

namespace Uw7.Amigo.Cond

inductive LogicalOp where
  | ANDAND
  | OROR
  deriving DecidableEq

/-- The value of a left operand that is the value of the whole. -/
def LogicalOp.stop (op : LogicalOp) : Bool := op = .OROR

/-- `ND1`; `opt` is the `setid` of a node that is `OPTABLE`. -/
inductive Nd1 (State : Type) where
  | operand (opt : Option Nat) (run : State → Bool × State)
  | not (opt : Option Nat) (left : Nd1 State)
  | logical (op : LogicalOp) (opt : Option Nat) (left right : Nd1 State)

variable {State : Type}

namespace Nd1

def opt : Nd1 State → Option Nat
  | operand opt _ | not opt _ | logical _ opt _ _ => opt

/-- The truth value of a tree and the state behind its side effects. -/
def eval : Nd1 State → State → Bool × State
  | operand _ run, s => run s
  | not _ left, s => (!(left.eval s).1, (left.eval s).2)
  | logical op _ left right, s =>
    if (left.eval s).1 = op.stop then (op.stop, (left.eval s).2) else right.eval (left.eval s).2

/-- `distribute` at a `&&` or `||` behind its operands. -/
def rewrite (op1 : LogicalOp) (opt : Option Nat) : Nd1 State → Nd1 State → Nd1 State
  | logical op2 optLeft temp left, logical op2' optRight temp' right =>
    if op2 = op2' ∧ temp.opt.isSome ∧ temp.opt = temp'.opt then
      logical op2 opt temp (logical op1 optRight left right)
    else logical op1 opt (logical op2 optLeft temp left) (logical op2' optRight temp' right)
  | left, right => logical op1 opt left right

def distribute : Nd1 State → Nd1 State
  | operand opt run => operand opt run
  | not opt left => not opt left.distribute
  | logical op opt left right => rewrite op opt left.distribute right.distribute

/-- A property of all nodes of a tree. -/
def Each (property : Nd1 State → Prop) : Nd1 State → Prop
  | operand opt run => property (operand opt run)
  | not opt left => property (not opt left) ∧ left.Each property
  | logical op opt left right =>
    property (logical op opt left right) ∧ left.Each property ∧ right.Each property

/-- What `OPTABLE` and `setid` stand for: the node has no side effects, and its value in a
state is that of its number. -/
def Numbered (value : Nat → State → Bool) (node : Nd1 State) : Prop :=
  ∀ setid, node.opt = some setid → ∀ s, node.eval s = (value setid s, s)

/-- The rewritten tree does at each state what the tree did. -/
def Kept (node : Nd1 State) : Prop := ∀ s, node.distribute.eval s = node.eval s

/-- The operands that a rewrite brings together: where `temp` lets `left` be evaluated, and
`left` does not decide, `temp` has not changed, or `right` does and has its value then. -/
def Undisturbed (op1 : LogicalOp) : Nd1 State → Nd1 State → Prop
  | logical op2 _ temp left, logical op2' _ temp' right =>
    op2 = op2' → temp.opt.isSome → temp.opt = temp'.opt → ∀ s, (temp.eval s).1 ≠ op2.stop →
      (left.eval s).1 ≠ op1.stop → (temp.eval (left.eval s).2).1 = op2.stop →
      right.eval (left.eval s).2 = (op2.stop, (left.eval s).2)
  | _, _ => True

def RewritesRight : Nd1 State → Prop
  | logical op _ left right => Undisturbed op left.distribute right.distribute
  | _ => True

/-- The nodes from a tree to the left are numbered. -/
def SpineNumbered (value : Nat → State → Bool) : Nd1 State → Prop
  | logical op opt left right =>
    Numbered value (logical op opt left right) ∧ left.SpineNumbered value
  | node => Numbered value node

variable {value : Nat → State → Bool} {node left right : Nd1 State}

theorem SpineNumbered.numbered (spine : SpineNumbered value node) : Numbered value node := by
  cases node with
  | logical op opt left right => exact spine.1
  | _ => exact spine

theorem rewrite_cases (op1 : LogicalOp) (opt : Option Nat) (left right : Nd1 State) :
    (∃ op2 optLeft temp l optRight temp' r setid, left = logical op2 optLeft temp l ∧
      right = logical op2 optRight temp' r ∧ temp.opt = some setid ∧ temp'.opt = some setid ∧
      rewrite op1 opt left right = logical op2 opt temp (logical op1 optRight l r)) ∨
    (rewrite op1 opt left right = logical op1 opt left right ∧ Undisturbed op1 left right) := by
  cases left with
  | logical op2 optLeft temp l =>
    cases right with
    | logical op2' optRight temp' r =>
      by_cases same : op2 = op2' ∧ temp.opt.isSome ∧ temp.opt = temp'.opt
      · obtain ⟨rfl, numbered, equal⟩ := same
        obtain ⟨setid, isSetid⟩ := Option.isSome_iff_exists.1 numbered
        exact .inl ⟨op2, optLeft, temp, l, optRight, temp', r, setid, rfl, rfl, isSetid,
          equal ▸ isSetid, if_pos ⟨rfl, numbered, equal⟩⟩
      · exact .inr ⟨if_neg same, fun sameOp numbered equal => absurd ⟨sameOp, numbered, equal⟩ same⟩
    | _ => exact .inr ⟨rfl, trivial⟩
  | _ => exact .inr ⟨rfl, trivial⟩

theorem rewrite_spine {op : LogicalOp} {opt : Option Nat} (spineLeft : SpineNumbered value left)
    (numbered : Numbered value (rewrite op opt left right)) :
    SpineNumbered value (rewrite op opt left right) := by
  obtain ⟨op2, optLeft, temp, l, optRight, temp', r, setid, rfl, rfl, -, -, rewritten⟩ |
    ⟨same, -⟩ := rewrite_cases op opt left right
  · rw [rewritten] at numbered ⊢
    exact ⟨numbered, spineLeft.2⟩
  · rw [same] at numbered ⊢
    exact ⟨numbered, spineLeft⟩

theorem rewrite_eval_iff (op : LogicalOp) (opt : Option Nat) (spineLeft : SpineNumbered value left)
    (spineRight : SpineNumbered value right) :
    (∀ s, (rewrite op opt left right).eval s = (logical op opt left right).eval s) ↔
      Undisturbed op left right := by
  obtain ⟨op2, optLeft, temp, l, optRight, temp', r, setid, rfl, rfl, isTemp, isTemp', rewritten⟩ |
    ⟨same, undisturbed⟩ := rewrite_cases op opt left right
  · rw [rewritten]
    have first := spineLeft.2.numbered setid isTemp
    have again := spineRight.2.numbered setid isTemp'
    simp only [Undisturbed, isTemp, isTemp', Option.isSome_some, forall_const, eval, first, again]
    refine forall_congr' fun s => ?_
    by_cases stops : value setid s = op2.stop
    · by_cases sameStop : op2.stop = op.stop <;> simp [stops, sameStop]
    · by_cases decides : (l.eval s).1 = op.stop
      · simp [stops, decides]
      · by_cases changed : value setid (l.eval s).2 = op2.stop <;> simp [stops, decides, changed]
  · simp only [same, implies_true, undisturbed]

theorem eval_logical {op : LogicalOp} {opt : Option Nat} {left' right' : Nd1 State}
    (sameLeft : ∀ s, left'.eval s = left.eval s) (sameRight : ∀ s, right'.eval s = right.eval s)
    (s : State) : (logical op opt left' right').eval s = (logical op opt left right).eval s := by
  simp only [eval, sameLeft, sameRight]

theorem Each.root {property : Nd1 State → Prop} (each : node.Each property) : property node := by
  cases node with
  | operand => exact each
  | not => exact each.1
  | logical => exact each.1

theorem distribute_spine (numbered : node.Each (Numbered value)) (kept : node.Each Kept) :
    SpineNumbered value node.distribute := by
  induction node with
  | operand opt run => exact numbered
  | not opt left ih => exact fun setid isSetid s => (kept.1 s).trans (numbered.1 setid isSetid s)
  | logical op opt left right ihLeft ihRight =>
    refine rewrite_spine (ihLeft numbered.2.1 kept.2.1) fun setid isSetid s => ?_
    have sameOpt : (rewrite op opt left.distribute right.distribute).opt = opt := by
      obtain ⟨_, _, _, _, _, _, _, _, -, -, -, -, rewritten⟩ | ⟨same, -⟩ :=
        rewrite_cases op opt left.distribute right.distribute
      · rw [rewritten, Nd1.opt]
      · rw [same, Nd1.opt]
    exact (kept.1 s).trans (numbered.1 setid (sameOpt ▸ isSetid) s)

/-- **`distribute`** does what the tree did, at each of its nodes, exactly when no rewrite is
disturbed by the side effects of the operand that it keeps. -/
theorem distribute_kept_iff (numbered : node.Each (Numbered value)) :
    node.Each Kept ↔ node.Each RewritesRight := by
  induction node with
  | operand opt run => exact ⟨fun _ => trivial, fun _ _ => rfl⟩
  | not opt left ih =>
    rw [Each, Each, ← ih numbered.2]
    refine and_congr_left fun kept => ⟨fun _ => trivial, fun _ s => ?_⟩
    simp only [distribute, eval, kept.root s]
  | logical op opt left right ihLeft ihRight =>
    rw [Each, Each, ← ihLeft numbered.2.1, ← ihRight numbered.2.2]
    refine and_congr_left fun kept => ?_
    rw [RewritesRight, ← rewrite_eval_iff op opt (distribute_spine numbered.2.1 kept.1)
      (distribute_spine numbered.2.2 kept.2)]
    refine forall_congr' fun s => ?_
    rw [distribute, eval_logical kept.1.root kept.2.root]

/-- `(a && (a = 0)) || (a && c)`, where `c` is true; the state is whether `a` is. -/
def assigns : Nd1 Bool :=
  let a := operand (some 1) fun s => (s, s)
  logical .OROR none (logical .ANDAND none a (operand none fun _ => (false, false)))
    (logical .ANDAND none a (operand none fun s => (true, s)))

theorem numbered_assigns : assigns.Each (Numbered fun _ s => s) := by
  simp [assigns, Each, Numbered, Nd1.opt, eval]

theorem distribute_assigns :
    assigns.Each (Numbered fun _ s => s) ∧ assigns.eval true = (false, false) ∧
      assigns.distribute.eval true = (true, false) :=
  ⟨numbered_assigns, rfl, rfl⟩

theorem distribute_kept_assigns : ¬ assigns.Each RewritesRight := by
  rw [← distribute_kept_iff numbered_assigns]
  intro kept
  cases kept.root true

end Nd1

end Uw7.Amigo.Cond
