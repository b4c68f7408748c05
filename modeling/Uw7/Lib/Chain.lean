import Mathlib.Data.List.Nodup

namespace Uw7.Lib

/-!
# Chains in a table of successors

A chain is the list of nodes that one visits from a start until a node is not
valid.  It is determined by its start, so that a finite chain never visits a
node twice: a table with a cycle has no chain into it.
-/

open List

variable {Node : Type}

inductive Chain (next : Node → Node) (valid : Node → Prop) : Node → List Node → Prop where
  | stop {start : Node} (invalid : ¬ valid start) : Chain next valid start []
  | link {start : Node} {nodes : List Node} (isValid : valid start)
      (rest : Chain next valid (next start) nodes) : Chain next valid start (start :: nodes)

namespace Chain

variable {next next' : Node → Node} {valid : Node → Prop} {start node : Node}
  {nodes nodes' : List Node}

theorem unique (chain : Chain next valid start nodes) (other : Chain next valid start nodes') :
    nodes = nodes' := by
  induction chain generalizing nodes' with
  | stop invalid =>
    cases other with
    | stop _ => rfl
    | link isValid _ => exact absurd isValid invalid
  | link isValid _ ih =>
    cases other with
    | stop invalid => exact absurd isValid invalid
    | link _ rest => rw [ih rest]

theorem valid_of_mem (chain : Chain next valid start nodes) (member : node ∈ nodes) :
    valid node := by
  induction chain with
  | stop => cases member
  | link isValid _ ih =>
    rcases mem_cons.mp member with rfl | inRest
    · exact isValid
    · exact ih inRest

theorem from_mem (chain : Chain next valid start nodes) (member : node ∈ nodes) :
    ∃ rest, Chain next valid node rest ∧ rest.length ≤ nodes.length := by
  induction chain with
  | stop => cases member
  | @link start nodes isValid tail ih =>
    rcases mem_cons.mp member with rfl | inRest
    · exact ⟨_, .link isValid tail, Nat.le_refl _⟩
    · obtain ⟨rest, restChain, shorter⟩ := ih inRest
      exact ⟨rest, restChain, by rw [length_cons]; omega⟩

theorem start_notMem (isValid : valid start) (rest : Chain next valid (next start) nodes) :
    start ∉ nodes := by
  intro returns
  obtain ⟨again, againChain, shorter⟩ := rest.from_mem returns
  have same := againChain.unique (.link isValid rest)
  rw [same, length_cons] at shorter
  omega

theorem nodup (chain : Chain next valid start nodes) : nodes.Nodup := by
  induction chain with
  | stop => exact nodup_nil
  | link isValid rest ih => exact nodup_cons.mpr ⟨start_notMem isValid rest, ih⟩

theorem congr (chain : Chain next valid start nodes)
    (same : ∀ node ∈ nodes, next' node = next node) : Chain next' valid start nodes := by
  induction chain with
  | stop invalid => exact .stop invalid
  | @link start nodes isValid _ ih =>
    refine .link isValid ?_
    rw [same start (by simp)]
    exact ih fun node inRest => same node (by simp [inRest])

section

variable {index : Nat} (chain : Chain next valid start nodes) (found : nodes[index]? = some node)
include index chain found

theorem next_of_getElem? :
    nodes[index + 1]? = some (next node) ∨ (index + 1 = nodes.length ∧ ¬ valid (next node)) := by
  induction chain generalizing index with
  | stop => simp at found
  | @link start nodes _ tail ih =>
    cases index with
    | zero =>
      obtain rfl : start = node := by simpa using found
      cases tail with
      | stop invalid => exact .inr ⟨rfl, invalid⟩
      | link _ _ => exact .inl rfl
    | succ index =>
      rw [List.getElem?_cons_succ, length_cons]
      rcases ih found with follows | ⟨last, invalid⟩
      · exact .inl follows
      · exact .inr ⟨by omega, invalid⟩

theorem rest_of_getElem? : Chain next valid (next node) (nodes.drop (index + 1)) := by
  induction chain generalizing index with
  | stop => simp at found
  | @link start nodes _ tail ih =>
    cases index with
    | zero =>
      obtain rfl : start = node := by simpa using found
      simpa using tail
    | succ index => exact ih found

theorem splice (same : ∀ other ∈ nodes, other ≠ node → next' other = next other)
    (tail : Chain next' valid (next' node) nodes') :
    Chain next' valid start (nodes.take (index + 1) ++ nodes') := by
  induction chain generalizing index with
  | stop => simp at found
  | @link start nodes isValid rest ih =>
    cases index with
    | zero =>
      obtain rfl : start = node := by simpa using found
      exact .link isValid tail
    | succ index =>
      have different : start ≠ node := by
        rintro rfl
        exact start_notMem isValid rest (mem_of_getElem? found)
      refine .link isValid ?_
      rw [same start mem_cons_self different]
      exact ih found fun other inRest => same other (mem_cons_of_mem start inRest)

end

theorem append_last {last new : Node} (chain : Chain next valid start nodes)
    (isLast : nodes.getLast? = some last) (isValid : valid new) (ends : ¬ valid (next' new))
    (leads : next' last = new) (same : ∀ other ∈ nodes, other ≠ last → next' other = next other) :
    Chain next' valid start (nodes ++ [new]) := by
  rw [getLast?_eq_getElem?] at isLast
  have tail : Chain next' valid (next' last) [new] := by
    rw [leads]
    exact .link isValid (.stop ends)
  have spliced := chain.splice isLast same tail
  obtain ⟨below, -⟩ := List.getElem?_eq_some_iff.1 isLast
  rwa [Nat.sub_add_cancel (by omega), take_length] at spliced

theorem eraseIdx {prev : Node} {index : Nat} (chain : Chain next valid start nodes)
    (before : nodes[index]? = some prev) (found : nodes[index + 1]? = some node)
    (leads : next' prev = next node)
    (same : ∀ other ∈ nodes, other ≠ prev → next' other = next other) :
    Chain next' valid start (nodes.eraseIdx (index + 1)) := by
  have tail : Chain next' valid (next' prev) (nodes.drop (index + 2)) := by
    rw [leads]
    refine (chain.rest_of_getElem? found).congr fun other member => ?_
    refine same other (mem_of_mem_drop member) ?_
    rintro rfl
    obtain ⟨place, found'⟩ := mem_iff_getElem?.1 member
    rw [List.getElem?_drop] at found'
    have equal := (List.getElem?_inj (List.getElem?_eq_some_iff.1 before).1 chain.nodup).1
      (before.trans found'.symm)
    omega
  rw [eraseIdx_eq_take_drop_succ]
  exact chain.splice before same tail

end Chain

end Uw7.Lib
