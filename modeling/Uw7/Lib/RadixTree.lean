import Mathlib.Algebra.Order.Ring.Nat
import Mathlib.Data.List.Nodup
import Mathlib.Data.List.Perm.Basic
import Mathlib.Data.List.Range

/-!
# Trees of tables

A tree of a given depth is a table whose entries are trees of one level less; an
entry may be null.  A key is looked up by its digits, the most significant one
first.  When a tree refers to each node once, different keys lead to different
leaves, and none of them to a table.
-/

namespace Uw7.Lib.RadixTree

open List

theorem eq_of_mem_lists {Item : Type*} {lists : Nat → List Item} {number one two : Nat}
    {item : Item} (apart : (range number).Pairwise (Function.onFun List.Disjoint lists))
    (oneWithin : one < number) (twoWithin : two < number) (inOne : item ∈ lists one)
    (inTwo : item ∈ lists two) : one = two := by
  have symmetric : Std.Symm (Function.onFun List.Disjoint lists) :=
    ⟨fun _ _ disjoint _ inOne inTwo => disjoint inTwo inOne⟩
  by_contra different
  exact apart.forall (mem_range.2 oneWithin) (mem_range.2 twoWithin) different inOne inTwo

variable {α : Type*} [DecidableEq α]

/-- The shape of the trees: what stands for no node, and the size of a table. -/
structure Shape (α : Type*) where
  null : α
  width : Nat

variable {shape : Shape α} {entry other : α → Nat → α}

/-- The leaf a key leads to. -/
def walk (shape : Shape α) (entry : α → Nat → α) : Nat → α → Nat → α
  | 0, root, _ => root
  | depth + 1, root, key =>
    if root = shape.null then shape.null
    else
      walk shape entry depth (entry root (key / shape.width ^ depth)) (key % shape.width ^ depth)

/-- The nodes of a tree, a table before what its entries refer to. -/
def nodes (shape : Shape α) (entry : α → Nat → α) : Nat → α → List α
  | 0, root => if root = shape.null then [] else [root]
  | depth + 1, root =>
    if root = shape.null then []
    else
      root :: (range shape.width).flatMap fun index =>
          nodes shape entry depth (entry root index)

/-- The tables of a tree. -/
def tables (shape : Shape α) (entry : α → Nat → α) : Nat → α → List α
  | 0, _ => []
  | depth + 1, root =>
    if root = shape.null then []
    else
      root :: (range shape.width).flatMap fun index =>
          tables shape entry depth (entry root index)

@[simp] theorem walk_null (depth key : Nat) :
    walk shape entry depth shape.null key = shape.null := by
  cases depth with
  | zero => rfl
  | succ depth => simp [walk]

@[simp] theorem nodes_null (depth : Nat) : nodes shape entry depth shape.null = [] := by
  cases depth with
  | zero => simp [nodes]
  | succ depth => simp [nodes]

@[simp] theorem tables_null (depth : Nat) : tables shape entry depth shape.null = [] := by
  cases depth with
  | zero => rfl
  | succ depth => simp [tables]

theorem root_mem_nodes {root : α} (present : root ≠ shape.null) (depth : Nat) :
    root ∈ nodes shape entry depth root := by
  cases depth with
  | zero => simp [nodes, present]
  | succ depth => simp [nodes, present]

theorem mem_nodes_succ {root node : α} {depth : Nat} (present : root ≠ shape.null) :
    node ∈ nodes shape entry (depth + 1) root ↔ node = root ∨ ∃ index, index < shape.width ∧
      node ∈ nodes shape entry depth (entry root index) := by
  simp [nodes, present]

theorem nodes_of_tables {depth : Nat} {root node : α}
    (member : node ∈ tables shape entry depth root) : node ∈ nodes shape entry depth root := by
  induction depth generalizing root with
  | zero => cases member
  | succ depth ih =>
    by_cases present : root = shape.null
    · simp [tables, present] at member
    · simp only [tables, if_neg present, mem_cons, mem_flatMap, mem_range] at member
      rw [mem_nodes_succ present]
      rcases member with rfl | ⟨index, within, inside⟩
      · exact .inl rfl
      · exact .inr ⟨index, within, ih inside⟩

theorem root_mem_tables {root : α} (present : root ≠ shape.null) (depth : Nat) :
    root ∈ tables shape entry (depth + 1) root := by
  simp [tables, present]

omit [DecidableEq α] in
theorem digit_lt {depth key : Nat} (within : key < shape.width ^ (depth + 1)) :
    key / shape.width ^ depth < shape.width := by
  rw [Nat.pow_succ, Nat.mul_comm] at within
  exact Nat.div_lt_of_lt_mul (by rwa [Nat.mul_comm] at within)

omit [DecidableEq α] in
theorem rest_lt {depth key : Nat} (within : key < shape.width ^ (depth + 1)) :
    key % shape.width ^ depth < shape.width ^ depth := by
  apply Nat.mod_lt
  by_contra zero
  have none' : shape.width ^ depth = 0 := by omega
  rw [Nat.pow_succ, none', Nat.zero_mul] at within
  omega

theorem walk_mem_nodes {depth key : Nat} {root : α} (within : key < shape.width ^ depth)
    (found : walk shape entry depth root key ≠ shape.null) :
    walk shape entry depth root key ∈ nodes shape entry depth root := by
  induction depth generalizing root key with
  | zero => exact root_mem_nodes found 0
  | succ depth ih =>
    by_cases present : root = shape.null
    · simp [walk, present] at found
    · rw [mem_nodes_succ present]
      simp only [walk, if_neg present] at found ⊢
      exact .inr ⟨_, digit_lt within, ih (rest_lt within) found⟩

theorem nodup_nodes_succ {depth : Nat} {root : α} (present : root ≠ shape.null)
    (nodup : (nodes shape entry (depth + 1) root).Nodup) :
    (∀ index, index < shape.width → root ∉ nodes shape entry depth (entry root index)) ∧
      (∀ index, index < shape.width → (nodes shape entry depth (entry root index)).Nodup) ∧
      ∀ one two node, one < shape.width → two < shape.width →
        node ∈ nodes shape entry depth (entry root one) →
        node ∈ nodes shape entry depth (entry root two) → one = two := by
  simp only [nodes, if_neg present, nodup_cons, mem_flatMap, mem_range, nodup_flatMap] at nodup
  obtain ⟨notInside, each, apart⟩ := nodup
  refine ⟨fun index within inside => notInside ⟨index, within, inside⟩, each, ?_⟩
  intro one two node oneWithin twoWithin inOne inTwo
  exact eq_of_mem_lists apart oneWithin twoWithin inOne inTwo

/-- **Different keys lead to different leaves.** -/
theorem walk_injective {depth one two : Nat} {root : α}
    (nodup : (nodes shape entry depth root).Nodup) (oneWithin : one < shape.width ^ depth)
    (twoWithin : two < shape.width ^ depth) (found : walk shape entry depth root one ≠ shape.null)
    (same : walk shape entry depth root one = walk shape entry depth root two) : one = two := by
  induction depth generalizing root one two with
  | zero =>
    simp only [Nat.pow_zero, Nat.lt_one_iff] at oneWithin twoWithin
    rw [oneWithin, twoWithin]
  | succ depth ih =>
    by_cases present : root = shape.null
    · simp [walk, present] at found
    · obtain ⟨_, each, apart⟩ := nodup_nodes_succ present nodup
      simp only [walk, if_neg present] at found same
      have inOne := walk_mem_nodes (rest_lt oneWithin) found
      have inTwo := walk_mem_nodes (rest_lt twoWithin) (same ▸ found)
      rw [← same] at inTwo
      have digits := apart _ _ _ (digit_lt oneWithin) (digit_lt twoWithin) inOne inTwo
      rw [← digits] at same
      have rests := ih (each _ (digit_lt oneWithin))
          (rest_lt oneWithin) (rest_lt twoWithin) found same
      rw [← Nat.div_add_mod one (shape.width ^ depth),
        ← Nat.div_add_mod two (shape.width ^ depth), digits, rests]

theorem walk_notMem_tables {depth key : Nat} {root : α}
    (nodup : (nodes shape entry depth root).Nodup) (within : key < shape.width ^ depth)
    (found : walk shape entry depth root key ≠ shape.null) :
    walk shape entry depth root key ∉ tables shape entry depth root := by
  induction depth generalizing root key with
  | zero => exact not_mem_nil
  | succ depth ih =>
    by_cases present : root = shape.null
    · simp [walk, present] at found
    · obtain ⟨notInside, each, apart⟩ := nodup_nodes_succ present nodup
      simp only [walk, if_neg present] at found
      have inside := walk_mem_nodes (rest_lt within) found
      simp only [walk, tables, if_neg present, mem_cons, mem_flatMap, mem_range]
      rintro (isRoot | ⟨index, indexWithin, isTable⟩)
      · rw [isRoot] at inside
        exact notInside _ (digit_lt within) inside
      · have digit := apart _ _ _ (digit_lt within) indexWithin inside (nodes_of_tables isTable)
        subst digit
        exact ih (each _ (digit_lt within)) (rest_lt within) found isTable

section

variable {depth : Nat} {root : α}
  (same : ∀ node, node ∈ tables shape entry depth root → ∀ index, index < shape.width →
    other node index = entry node index)
include depth root same

theorem walk_congr {key : Nat} (within : key < shape.width ^ depth) :
    walk shape other depth root key = walk shape entry depth root key := by
  induction depth generalizing root key with
  | zero => rfl
  | succ depth ih =>
    by_cases present : root = shape.null
    · simp [walk, present]
    · have own := same root (by simp [tables, present]) _ (digit_lt within)
      simp only [walk, if_neg present]
      rw [own]
      refine ih (fun node member => ?_) (rest_lt within)
      refine same node ?_
      simp only [tables, if_neg present, mem_cons, mem_flatMap, mem_range]
      exact .inr ⟨_, digit_lt within, member⟩

theorem nodes_congr : nodes shape other depth root = nodes shape entry depth root ∧
    tables shape other depth root = tables shape entry depth root := by
  induction depth generalizing root with
  | zero => exact ⟨rfl, rfl⟩
  | succ depth ih =>
    by_cases present : root = shape.null
    · simp [nodes, tables, present]
    · have children (index : Nat) (within : index < shape.width) :
          nodes shape other depth (other root index) = nodes shape entry depth (entry root index) ∧
            tables shape other depth (other root index) =
              tables shape entry depth (entry root index) := by
        have own := same root (by simp [tables, present]) index within
        rw [own]
        refine ih fun node member => ?_
        refine same node ?_
        simp only [tables, if_neg present, mem_cons, mem_flatMap, mem_range]
        exact .inr ⟨index, within, member⟩
      simp only [nodes, tables, if_neg present, List.cons.injEq, true_and]
      constructor
      · exact flatMap_congr fun index member => (children index (mem_range.1 member)).1
      · exact flatMap_congr fun index member => (children index (mem_range.1 member)).2

end

theorem empty_table {root : α} (present : root ≠ shape.null) (empty :
    ∀ index, index < shape.width → entry root index = shape.null) (depth : Nat) :
    (∀ key, key < shape.width ^ (depth + 1) → walk shape entry (depth + 1) root key = shape.null) ∧
      nodes shape entry (depth + 1) root = [root] := by
  constructor
  · intro key within
    simp only [walk, if_neg present]
    rw [empty _ (digit_lt within)]
    exact walk_null depth _
  · simp only [nodes, if_neg present, List.cons.injEq, true_and]
    refine flatMap_eq_nil_iff.2 fun index member => ?_
    rw [empty index (mem_range.1 member)]
    exact nodes_null depth

omit [DecidableEq α] in
theorem flatMap_perm_at {indices : List Nat} {index : Nat} {before after : Nat → List α}
    {new : List α} (nodup : indices.Nodup) (member : index ∈ indices)
    (same : ∀ place, place ∈ indices → place ≠ index → after place = before place)
    (more : (after index).Perm (new ++ before index)) :
    (indices.flatMap after).Perm (new ++ indices.flatMap before) := by
  induction indices with
  | nil => cases member
  | cons place rest ih =>
    obtain ⟨notInRest, restNodup⟩ := nodup_cons.1 nodup
    simp only [flatMap_cons]
    by_cases here : place = index
    · subst here
      have unchanged : rest.flatMap after = rest.flatMap before :=
        flatMap_congr fun other inside =>
          same other (mem_cons_of_mem _ inside) fun isPlace => notInRest (isPlace ▸ inside)
      rw [unchanged, ← append_assoc]
      exact more.append_right _
    · have later := ih restNodup ((mem_cons.1 member).resolve_left fun isPlace =>
          here isPlace.symm) fun other inside => same other (mem_cons_of_mem _ inside)
      rw [same place mem_cons_self here]
      refine (later.append_left _).trans ?_
      rw [← append_assoc, ← append_assoc]
      exact perm_append_comm.append_right _

end Uw7.Lib.RadixTree

/-!
# Cutting a tree of tables

The nodes of a tree are those on the paths of the keys below a bound, and the
others.  A tree is cut at the bound when its tables lose the entries that no
such key needs.
-/

namespace Uw7.Lib.RadixTree

variable {α : Type*} [DecidableEq α]

variable {shape : Shape α} {entry other : α → Nat → α}

/-- The nodes on the way of a key. -/
def path (shape : Shape α) (entry : α → Nat → α) : Nat → α → Nat → List α
  | 0, root, _ => if root = shape.null then [] else [root]
  | depth + 1, root, key =>
    if root = shape.null then []
    else
      root :: path shape entry depth (entry root (key / shape.width ^ depth))
          (key % shape.width ^ depth)

/-- The nodes that the keys below `keep` need. -/
def kept (shape : Shape α) (entry : α → Nat → α) : Nat → α → Nat → List α
  | 0, root, keep => if root = shape.null ∨ keep = 0 then [] else [root]
  | depth + 1, root, keep =>
    if root = shape.null ∨ keep = 0 then []
    else
      root :: (List.range shape.width).flatMap fun index =>
          kept shape entry depth (entry root index) (keep - index * shape.width ^ depth)

/-- The nodes that none of the keys below `keep` needs. -/
def dropped (shape : Shape α) (entry : α → Nat → α) : Nat → α → Nat → List α
  | 0, root, keep => if root = shape.null ∨ keep ≠ 0 then [] else [root]
  | depth + 1, root, keep =>
    if root = shape.null then []
    else
      (if keep = 0 then [root] else []) ++ (List.range shape.width).flatMap fun index =>
          dropped shape entry depth (entry root index) (keep - index * shape.width ^ depth)

/-- Those of them behind a table. -/
def droppedInside (shape : Shape α) (entry : α → Nat → α) (depth : Nat) (root : α)
    (keep : Nat) : List α :=
  (List.range shape.width).flatMap fun index =>
    dropped shape entry depth (entry root index) (keep - index * shape.width ^ depth)

theorem dropped_succ {root : α} (present : root ≠ shape.null) (depth keep : Nat) :
    dropped shape entry (depth + 1) root keep = (if keep = 0 then [root] else []) ++
      droppedInside shape entry depth root keep :=
  if_neg present

@[simp] theorem dropped_null (depth keep : Nat) :
    dropped shape entry depth shape.null keep = [] := by
  cases depth with
  | zero => simp [dropped]
  | succ depth => simp [dropped]

@[simp] theorem kept_null (depth keep : Nat) : kept shape entry depth shape.null keep = [] := by
  cases depth with
  | zero => simp [kept]
  | succ depth => simp [kept]

@[simp] theorem kept_zero (depth : Nat) (root : α) : kept shape entry depth root 0 = [] := by
  cases depth with
  | zero => simp [kept]
  | succ depth => simp [kept]

theorem dropped_zero (depth : Nat) (root : α) :
    dropped shape entry depth root 0 = nodes shape entry depth root := by
  induction depth generalizing root with
  | zero => simp [dropped, nodes]
  | succ depth ih => simp [dropped, nodes, ih]

theorem kept_all (wide : 0 < shape.width) {depth keep : Nat} (all : shape.width ^ depth ≤ keep)
    (root : α) : kept shape entry depth root keep = nodes shape entry depth root ∧
      dropped shape entry depth root keep = [] := by
  induction depth generalizing root keep with
  | zero =>
    have some' : keep ≠ 0 := by
      simp only [Nat.pow_zero] at all
      omega
    simp [kept, dropped, nodes, some']
  | succ depth ih =>
    have some' : keep ≠ 0 := by
      have := Nat.pow_pos wide (n := depth + 1)
      omega
    by_cases present : root = shape.null
    · simp [present]
    · have children (index : Nat) (within : index < shape.width) :=
        @ih (keep - index * shape.width ^ depth) (by
          have bound : (index + 1) * shape.width ^ depth ≤ shape.width ^ (depth + 1) := by
            rw [Nat.pow_succ, Nat.mul_comm _ shape.width]
            exact Nat.mul_le_mul_right _ within
          rw [Nat.add_mul, Nat.one_mul] at bound
          omega)
          (entry root index)
      constructor
      · simp only [kept, nodes, present, some', or_self, if_false, List.cons.injEq, true_and]
        exact List.flatMap_congr fun index member => (children index (List.mem_range.1 member)).1
      · rw [dropped_succ present, if_neg some', List.nil_append]
        exact List.flatMap_eq_nil_iff.2 fun index member =>
          (children index (List.mem_range.1 member)).2

theorem nodes_perm (depth keep : Nat) (root : α) : (nodes shape entry depth root).Perm
    (kept shape entry depth root keep ++ dropped shape entry depth root keep) := by
  induction depth generalizing root keep with
  | zero =>
    by_cases present : root = shape.null
    · simp [present]
    · by_cases none' : keep = 0 <;> simp [nodes, kept, dropped, present, none']
  | succ depth ih =>
    by_cases present : root = shape.null
    · simp [present]
    · by_cases none' : keep = 0
      · subst none'
        rw [kept_zero, dropped_zero, List.nil_append]
      · simp only [nodes, kept, present, none', or_self, if_false]
        rw [dropped_succ present, if_neg none', List.nil_append, List.cons_append]
        refine List.Perm.cons root ?_
        refine .trans ?_ (List.flatMap_append_perm _ _ _).symm
        exact List.Perm.flatMap_left _ fun index _ => ih _ _

theorem mem_kept (wide : 0 < shape.width) {depth keep : Nat} {root node : α} :
    node ∈ kept shape entry depth root keep ↔ ∃ key, key < keep ∧ key < shape.width ^ depth ∧
      node ∈ path shape entry depth root key := by
  induction depth generalizing root keep with
  | zero =>
    by_cases present : root = shape.null
    · simp [present, path]
    · by_cases none' : keep = 0
      · simp [none']
      · simp only [kept, path, present, none', or_self, if_false, Nat.pow_zero, Nat.lt_one_iff]
        constructor
        · intro member
          exact ⟨0, by omega, rfl, member⟩
        · rintro ⟨_, _, _, member⟩
          exact member
  | succ depth ih =>
    by_cases present : root = shape.null
    · simp [present, path]
    by_cases none' : keep = 0
    · simp [none']
    have power := Nat.pow_pos wide (n := depth)
    simp only [kept, path, present, none', or_self, if_false,
      List.mem_cons, List.mem_flatMap, List.mem_range]
    constructor
    · rintro (isRoot | ⟨index, within, inside⟩)
      · exact ⟨0, by omega, Nat.pow_pos wide, .inl isRoot⟩
      · obtain ⟨rest, below, restWithin, onPath⟩ := ih.1 inside
        have digit : (index * shape.width ^ depth + rest) / shape.width ^ depth = index := by
          rw [Nat.mul_comm, Nat.mul_add_div power, Nat.div_eq_of_lt restWithin, Nat.add_zero]
        have remainder : (index * shape.width ^ depth + rest) % shape.width ^ depth = rest := by
          rw [Nat.mul_comm, Nat.mul_add_mod, Nat.mod_eq_of_lt restWithin]
        refine ⟨index * shape.width ^ depth + rest, by omega, ?_, .inr ?_⟩
        · have bound : (index + 1) * shape.width ^ depth ≤ shape.width ^ (depth + 1) := by
            rw [Nat.pow_succ, Nat.mul_comm _ shape.width]
            exact Nat.mul_le_mul_right _ within
          rw [Nat.add_mul, Nat.one_mul] at bound
          omega
        · rw [digit, remainder]
          exact onPath
    · rintro ⟨key, below, within, isRoot | onPath⟩
      · exact .inl isRoot
      · refine .inr ⟨_, digit_lt within, ih.2 ⟨_, ?_, rest_lt within, onPath⟩⟩
        have parts := Nat.div_add_mod' key (shape.width ^ depth)
        omega

theorem root_mem_path {root : α} (present : root ≠ shape.null) (depth key : Nat) :
    root ∈ path shape entry depth root key := by
  cases depth with
  | zero => simp [path, present]
  | succ depth => simp [path, present]

theorem cut_congr {depth : Nat} {root : α} (same : ∀ node ∈ tables shape entry depth root,
    ∀ index, index < shape.width → other node index = entry node index) (keep : Nat) :
    kept shape other depth root keep = kept shape entry depth root keep ∧
      dropped shape other depth root keep = dropped shape entry depth root keep ∧
      ∀ key, key < shape.width ^ depth → path shape other depth root key =
        path shape entry depth root key := by
  induction depth generalizing root keep with
  | zero => exact ⟨rfl, rfl, fun _ _ => rfl⟩
  | succ depth ih =>
    by_cases present : root = shape.null
    · simp [present, path]
    · have children (index keep : Nat) (within : index < shape.width) :
          kept shape other depth (other root index) keep =
            kept shape entry depth (entry root index) keep ∧
            dropped shape other depth (other root index) keep =
              dropped shape entry depth (entry root index) keep ∧
            ∀ key, key < shape.width ^ depth → path shape other depth (other root index) key =
              path shape entry depth (entry root index) key := by
        have own := same root (by simp [tables, present]) index within
        rw [own]
        refine ih (fun node member => ?_) keep
        refine same node ?_
        simp only [tables, if_neg present, List.mem_cons, List.mem_flatMap, List.mem_range]
        exact .inr ⟨index, within, member⟩
      refine ⟨?_, ?_, ?_⟩
      · by_cases none' : keep = 0
        · simp [none']
        · simp only [kept, present, none', or_self, if_false, List.cons.injEq, true_and]
          exact List.flatMap_congr fun index member =>
            (children index _ (List.mem_range.1 member)).1
      · rw [dropped_succ present, dropped_succ present]
        refine congrArg _ (List.flatMap_congr fun index member => ?_)
        exact (children index _ (List.mem_range.1 member)).2.1
      · intro key within
        simp only [path, present, if_false, List.cons.injEq, true_and]
        exact (children _ 0 (digit_lt within)).2.2 _ (rest_lt within)

/-- A tree after it was cut. -/
structure CutAt (shape : Shape α) (before after : α → Nat → α) (depth : Nat) (root : α)
    (keep : Nat) : Prop where
  nodes : nodes shape after depth root = kept shape before depth root keep
  tables : tables shape after depth root ⊆ tables shape before depth root
  walk : ∀ key, key < shape.width ^ depth → walk shape after depth root key =
      if key < keep then walk shape before depth root key
      else shape.null

namespace CutAt

/-- **A table is cut** when its entries that no key needs are gone, and its
other trees are cut. -/
theorem table {depth keep : Nat} {root : α} (present : root ≠ shape.null) (some' : 0 < keep)
    (entries : ∀ index, index < shape.width → other root index =
      if index * shape.width ^ depth < keep then entry root index
      else shape.null)
    (children : ∀ index, index < shape.width → index * shape.width ^ depth < keep →
      CutAt shape entry other depth (entry root index) (keep - index * shape.width ^ depth)) :
    CutAt shape entry other (depth + 1) root keep := by
  have some'' : keep ≠ 0 := by omega
  refine ⟨?_, ?_, ?_⟩
  · simp only [RadixTree.nodes, kept, present, some'', or_self, if_false, List.cons.injEq, true_and]
    refine List.flatMap_congr fun index member => ?_
    have within := List.mem_range.1 member
    rw [entries index within]
    split
    · rename_i below
      exact (children index within below).nodes
    · have zero : keep - index * shape.width ^ depth = 0 := by
        omega
      rw [zero, nodes_null, kept_zero]
  · intro node member
    simp only [RadixTree.tables, if_neg present, List.mem_cons,
      List.mem_flatMap, List.mem_range] at member ⊢
    rcases member with isRoot | ⟨index, within, inside⟩
    · exact .inl isRoot
    · rw [entries index within] at inside
      split at inside
      · rename_i below
        exact .inr ⟨index, within, (children index within below).tables inside⟩
      · rw [tables_null] at inside
        cases inside
  · intro key within
    have digit := digit_lt within
    have parts := Nat.div_add_mod' key (shape.width ^ depth)
    simp only [RadixTree.walk, present, if_false]
    rw [entries _ digit]
    split
    · rename_i below
      rw [(children _ digit below).walk _ (rest_lt within)]
      split
      · rw [if_pos (by omega)]
      · rw [if_neg (by omega)]
    · have start := Nat.div_mul_le_self key (shape.width ^ depth)
      rw [walk_null, if_neg (by omega)]

theorem all (wide : 0 < shape.width) {depth keep : Nat} {root : α}
    (all : shape.width ^ depth ≤ keep)
    (same : ∀ node ∈ RadixTree.tables shape entry depth root, ∀ index, index < shape.width →
      other node index = entry node index) :
    CutAt shape entry other depth root keep := by
  refine ⟨?_, ?_, fun key within => ?_⟩
  · rw [(nodes_congr same).1, (kept_all wide all root).1]
  · rw [(nodes_congr same).2]
    exact List.Subset.refl _
  · rw [walk_congr same within, if_pos (by omega)]

theorem congr {middle : α → Nat → α} {depth keep : Nat} {root : α}
    (cut : CutAt shape middle other depth root keep)
    (same : ∀ node ∈ RadixTree.tables shape entry depth root, ∀ index, index < shape.width →
      middle node index = entry node index) :
    CutAt shape entry other depth root keep := by
  refine ⟨?_, ?_, fun key within => ?_⟩
  · rw [cut.nodes, (cut_congr same keep).1]
  · rw [← (nodes_congr same).2]
    exact cut.tables
  · rw [cut.walk key within, walk_congr same within]

theorem after {later : α → Nat → α} {depth keep : Nat} {root : α}
    (cut : CutAt shape entry other depth root keep)
    (same : ∀ node ∈ RadixTree.tables shape other depth root, ∀ index, index < shape.width →
      later node index = other node index) :
    CutAt shape entry later depth root keep := by
  refine ⟨?_, ?_, fun key within => ?_⟩
  · rw [(nodes_congr same).1, cut.nodes]
  · rw [(nodes_congr same).2]
    exact cut.tables
  · rw [walk_congr same within, cut.walk key within]

theorem absent (depth keep : Nat) : CutAt shape entry other depth shape.null keep := by
  refine ⟨by simp, by simp, by simp⟩

end CutAt

end Uw7.Lib.RadixTree
