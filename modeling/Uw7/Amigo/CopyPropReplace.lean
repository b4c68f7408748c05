import Uw7.Amigo.Evaluation

/-!
# Replacing uses by copies

Where every use that was replaced has the value of its replacement in the states
in which it is read, the tree that is written evaluates as the old one did.
-/

namespace Uw7.Amigo.Opt

open List

variable {State Value : Type} {machine : Machine State Value} {env : CopyEnv} {copies : Copies}
  {avail : Finset Nat}
  {block index : Nat} {context : Context}

theorem of_replacement? {node after : Tree} (found :
    replacement? env copies avail block index context node = some after) :
    env.table.optableForCp node = true ∧ node.isObject = true ∧ context.isLval = false ∧
      ∃ assign copy, assign ∈ avail ∧ copies.assignArray assign = some copy ∧ node = leftInfo copy ∧
        after = (rightInfo copy).paint node.type := by
  unfold replacement? at found
  split at found
  · rename_i usable
    obtain ⟨assign, member, hit⟩ := List.exists_of_findSome?_eq_some found
    have available := of_decide_eq_true (mem_filter.1 member).2
    cases entry : copies.assignArray assign with
    | none =>
      rw [entry] at hit
      cases hit
    | some copy =>
      rw [entry] at hit
      simp only [Option.ite_none_right_eq_some, Option.some.injEq] at hit
      obtain ⟨allowed, rfl⟩ := hit
      simp only [replaces, Bool.and_eq_true, Bool.not_eq_true', decide_eq_true_eq] at allowed
      rw [Bool.and_eq_true] at usable
      exact ⟨usable.1, usable.2, allowed.1.1.1, assign, copy, available, entry, allowed.1.1.2, rfl⟩
  · cases found

theorem copy_of_replaced (fuel : Nat) {node : Tree} {replacement : Replacement}
    (member : replacement ∈ (findAndReplaceCopies env copies avail block index fuel context
      node).2) :
    ∃ assign copy, assign ∈ avail ∧ copies.assignArray assign = some copy ∧
      replacement.before = leftInfo copy ∧
      replacement.after = (rightInfo copy).paint replacement.before.type := by
  induction fuel generalizing context node replacement with
  | zero => exact nomatch member
  | succ fuel ih =>
    unfold findAndReplaceCopies at member
    -- a replacement in an operand is one of the operand
    have under (side : Side) (context : Context) (operand : Tree) (inside : replacement ∈
        (findAndReplaceCopies env copies avail block index fuel context
          operand).2.map (.under side)) :
        ∃ assign copy, assign ∈ avail ∧ copies.assignArray assign = some copy ∧
          replacement.before = leftInfo copy ∧
          replacement.after = (rightInfo copy).paint replacement.before.type := by
      obtain ⟨inner, place, rfl⟩ := mem_map.1 inside
      have found := ih place
      exact found
    cases found : replacement? env copies avail block index context node with
    | some after =>
      simp only [found] at member
      obtain ⟨-, -, -, assign, copy, available, entry, same, written⟩ := of_replacement? found
      rcases mem_cons.1 member with rfl | later
      · exact ⟨assign, copy, available, entry, same, written⟩
      · exact ih later
    | none =>
      simp only [found] at member
      cases node with
      | leaf leaf type => exact nomatch member
      | unary op type left => exact under _ _ _ member
      | binary op type left right =>
        rcases mem_append.1 member with first | second
        · exact under _ _ _ first
        · exact under _ _ _ second

/-- The copies whose right sides may be written have right sides without side
effects. -/
def PureRights (copies : Copies) (avail : Finset Nat) : Prop :=
  ∀ assign ∈ avail, ∀ copy, copies.assignArray assign = some copy →
    (rightInfo copy).containsSide = false

theorem containsSide_findAndReplaceCopies (pureRights : PureRights copies avail) (fuel : Nat)
    (context : Context) (node : Tree) :
    (findAndReplaceCopies env copies avail block index fuel context
      node).1.containsSide = node.containsSide := by
  induction fuel generalizing context node with
  | zero => rfl
  | succ fuel ih =>
    unfold findAndReplaceCopies
    cases found : replacement? env copies avail block index context node with
    | some after =>
      obtain ⟨optable, -, -, assign, copy, available, entry, -, rfl⟩ := of_replacement? found
      rw [ih, containsSide_paint, pureRights assign available copy entry,
        pure_of_optimizable (optimizable_of_optableForCp optable)]
    | none =>
      cases node with
      | leaf leaf type => rfl
      | unary op type left => simp only [Tree.containsSide, ih]
      | binary op type left right => simp only [Tree.containsSide, ih]

def SameValues (machine : Machine State Value) (replacements : List Replacement)
    (state : State) : Prop :=
  ∀ replacement ∈ replacements, machine.value false replacement.before state =
      machine.value false replacement.after state

theorem SameValues.of_under {side : Side} {replacements all : List Replacement} {state : State}
    (same : SameValues machine all state) (included : replacements.map (.under side) ⊆ all) :
    SameValues machine replacements state := by
  intro replacement member
  exact same (replacement.under side) (included (mem_map.2 ⟨replacement, member, rfl⟩))

/-- A wanted place is a place in the context of the code too. -/
def Context.Covers (context : Context) (lval : Bool) : Prop := lval = true → context.isLval = true

variable {lval : Bool}

theorem Context.Covers.unary (covers : context.Covers lval)
    (op : UnaryOp) (type : Nat) (left : Tree) :
    (getContext (.unary op type left) .left context).Covers (op.lvalBelow lval) := by
  intro wanted
  cases op <;> simp_all [UnaryOp.lvalBelow, getContext, Context.Covers]

theorem Context.Covers.left (context : Context) (op : BinaryOp) (type : Nat) (left right : Tree) :
    (getContext (.binary op type left right) .left context).Covers op.lvalLeft := by
  intro wanted
  cases op <;> simp_all [BinaryOp.lvalLeft, getContext]

theorem Context.Covers.value (context : Context) : context.Covers false := by
  intro wanted
  cases wanted

theorem value_findAndReplaceCopies {state : State} (fuel : Nat) (context : Context)
    (covers : context.Covers lval) (node : Tree)
    (same : SameValues machine (findAndReplaceCopies env copies avail block index fuel context
      node).2 state) :
    machine.value lval (findAndReplaceCopies env copies avail block index fuel context
      node).1 state =
      machine.value lval node state := by
  induction fuel generalizing context node lval with
  | zero => rfl
  | succ fuel ih =>
    unfold findAndReplaceCopies at same ⊢
    cases found : replacement? env copies avail block index context node with
    | some after =>
      simp only [found] at same ⊢
      obtain ⟨-, -, notLval, -⟩ := of_replacement? found
      have wanted : lval = false := by
        cases lval with
        | false => rfl
        | true => exact absurd (covers rfl) (by simp [notLval])
      subst wanted
      rw [ih context covers after fun replacement member =>
        same replacement (mem_cons_of_mem _ member)]
      exact (same _ mem_cons_self).symm
    | none =>
      simp only [found] at same ⊢
      cases node with
      | leaf leaf type => rfl
      | unary op type left =>
        simp only [Machine.value]
        rw [ih _ (covers.unary op type left) left (same.of_under (List.Subset.refl _))]
      | binary op type left right =>
        simp only [Machine.value]
        rw [ih _ (.left context op type left right) left (same.of_under (subset_append_left _ _)),
          ih _ (.value _) right (same.of_under (subset_append_right _ _))]

/-- The uses that were replaced have the values of their replacements wherever
an evaluation reads them. -/
def SameReads (machine : Machine State Value) (replacements : List Replacement)
    (events : List (Event State)) : Prop :=
  ∀ replacement ∈ replacements, ∀ state, ReadAt events replacement.path state →
    machine.value false replacement.before state = machine.value false replacement.after state

theorem SameReads.of_under {side : Side} {replacements all : List Replacement}
    {events every : List (Event State)} (same : SameReads machine all every)
    (included : replacements.map (.under side) ⊆ all) (within : events.map (.under side) ⊆ every) :
    SameReads machine replacements events := by
  intro replacement member state read
  exact same (replacement.under side) (included (mem_map.2 ⟨replacement, member, rfl⟩)) state
    (read.under within)

theorem Evaluates.of_pure {node : Tree} {state final : State} {value : Value}
    {events : List (Event State)} (evaluates : Evaluates machine lval node state value final events)
    (pure : node.containsSide = false) :
    value = machine.value lval node state ∧ final = state ∧ events = [.takes [] state] := by
  cases evaluates with
  | pure _ => exact ⟨rfl, rfl, rfl⟩
  | unary side _ _ | leftRight side _ _ _ _ | rightLeft side _ _ _ _
  | leftOnly side _ _ _ | rightOnly side _ _ _ =>
    rw [pure] at side
    cases side

/-- The tree that is written evaluates as the old one did. -/
theorem evaluates_findAndReplaceCopies (pureRights : PureRights copies avail) (fuel : Nat)
    (covers : context.Covers lval) {node : Tree}
    {state final : State} {value : Value} {events : List (Event State)}
    (evaluates : Evaluates machine lval node state value final events)
    (same : SameReads machine (findAndReplaceCopies env copies avail block index fuel context
      node).2 events) :
    ∃ written, Evaluates machine lval
      (findAndReplaceCopies env copies avail block index fuel context
        node).1 state value final written := by
  induction fuel generalizing context lval node state value final events with
  | zero => exact ⟨events, evaluates⟩
  | succ fuel ih =>
    have sideKept := @containsSide_findAndReplaceCopies env copies avail block index
        pureRights (fuel + 1) context node
    by_cases pure : node.containsSide = false
    · obtain ⟨rfl, rfl, rfl⟩ := evaluates.of_pure pure
      have kept := value_findAndReplaceCopies (fuel + 1) context covers node
          fun replacement member =>
            same replacement member final ⟨[], nil_prefix, mem_singleton.2 rfl⟩
      rw [← kept]
      exact ⟨_, .pure (sideKept.trans pure)⟩
    · have unreplaced : replacement? env copies avail block index context node =
            none := by
        cases found : replacement? env copies avail block index context node with
        | none => rfl
        | some after =>
          obtain ⟨optable, -⟩ := of_replacement? found
          exact absurd (pure_of_optimizable (optimizable_of_optableForCp optable)) pure
      rw [Bool.not_eq_false] at pure
      rw [pure] at sideKept
      unfold findAndReplaceCopies at same sideKept ⊢
      simp only [unreplaced] at same sideKept ⊢
      cases evaluates with
      | pure none =>
        rw [pure] at none
        cases none
      | unary side operand finish =>
        obtain ⟨_, inner⟩ := ih (covers.unary _ _ _) operand
          (same.of_under (List.Subset.refl _) (subset_append_left _ _))
        exact ⟨_, .unary sideKept inner finish⟩
      | leftRight side visit first second finish =>
        obtain ⟨_, one⟩ := ih (.left context _ _ _ _) first (same.of_under (subset_append_left _ _)
              (List.Subset.trans (subset_append_left _ _) (subset_append_left _ _)))
        obtain ⟨_, two⟩ := ih (.value _) second (same.of_under (subset_append_right _ _)
          (List.Subset.trans (subset_append_right _ _) (subset_append_left _ _)))
        exact ⟨_, .leftRight sideKept visit one two finish⟩
      | rightLeft side visit first second finish =>
        obtain ⟨_, one⟩ := ih (.value _) first (same.of_under (subset_append_right _ _)
              (List.Subset.trans (subset_append_left _ _) (subset_append_left _ _)))
        obtain ⟨_, two⟩ := ih (.left context _ _ _ _) second (same.of_under (subset_append_left _ _)
          (List.Subset.trans (subset_append_right _ _) (subset_append_left _ _)))
        exact ⟨_, .rightLeft sideKept visit one two finish⟩
      | leftOnly side visit first finish =>
        obtain ⟨_, one⟩ := ih (.left context _ _ _ _) first
          (same.of_under (subset_append_left _ _) (subset_append_left _ _))
        exact ⟨_, .leftOnly sideKept visit one finish⟩
      | rightOnly side visit first finish =>
        obtain ⟨_, two⟩ := ih (.value _) first
          (same.of_under (subset_append_right _ _) (subset_append_left _ _))
        exact ⟨_, .rightOnly sideKept visit two finish⟩

end Uw7.Amigo.Opt
