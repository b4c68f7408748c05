import Mathlib.Logic.Relation
import Mathlib.Data.List.Basic

namespace Uw7.Lib

/-!
# Depth-first walks of ordered graphs

A graph gives every node the list of its successors.  A depth-first walk reads a
list from its last entry to its first, goes below an entry if its node is new, and
then writes the node down, new or not.  So it writes down every entry of the list
of every node that it goes below, once, and an entry is known by its path: the
indices that lead to it.
-/

open List Nat

variable {Node : Type}

/-- The node at the end of a path into a list of nodes. -/
def follow (next : Node → List Node) : List Node → List Nat → Option Node
  | _, [] => none
  | nodes, index :: [] => nodes[index]?
  | nodes, index :: deeper :: rest =>
    nodes[index]?.bind fun node => follow next (next node) (deeper :: rest)

/-- Post-order: later indices come first, and what is below a node before it. -/
def Before : List Nat → List Nat → Prop
  | [], _ => False
  | _ :: _, [] => True
  | i :: p, j :: q => j < i ∨ (i = j ∧ Before p q)

/-- Pre-order: later indices come first, and a node before what is below it. -/
def Earlier : List Nat → List Nat → Prop
  | _, [] => False
  | [], _ :: _ => True
  | i :: p, j :: q => j < i ∨ (i = j ∧ Earlier p q)

/-- One node has the other among its successors. -/
def Leads (next : Node → List Node) (node successor : Node) : Prop := successor ∈ next node

/-- One of the nodes leads to a node, over any number of steps. -/
def Below (next : Node → List Node) (nodes : List Node) (node : Node) : Prop :=
  ∃ start ∈ nodes, Relation.ReflTransGen (Leads next) start node

def Acyclic (next : Node → List Node) : Prop := ∀ node, ¬ Relation.TransGen (Leads next) node node

variable {next : Node → List Node}

theorem follow_succ (node : Node) (nodes : List Node) (index : Nat) (rest : List Nat) :
    follow next (node :: nodes) ((index + 1) :: rest) = follow next nodes (index :: rest) := by
  cases rest with
  | nil => simp [follow]
  | cons deeper rest => simp [follow]

theorem follow_zero (node : Node) (nodes : List Node) (deeper : Nat) (rest : List Nat) :
    follow next (node :: nodes) (0 :: deeper :: rest) =
      follow next (next node) (deeper :: rest) := by
  simp [follow]

@[simp] theorem follow_zero_nil (node : Node) (nodes : List Node) :
    follow next (node :: nodes) [0] = some node :=
  rfl

theorem follow_nil (path : List Nat) : follow next [] path = none := by
  match path with
  | [] => rfl
  | [_] => simp [follow]
  | _ :: _ :: _ => simp [follow]

theorem Before.asymm {p q : List Nat} (before : Before p q) : ¬ Before q p := by
  induction p generalizing q with
  | nil => exact before.elim
  | cons i p ih =>
    cases q with
    | nil => exact id
    | cons j q =>
      obtain less | ⟨rfl, before⟩ := before
      · rintro (greater | ⟨same, -⟩)
        · omega
        · omega
      · rintro (less | ⟨-, after⟩)
        · exact Nat.lt_irrefl i less
        · exact ih before after

theorem Earlier.not_nil (p : List Nat) : ¬ Earlier p [] := by cases p <;> exact id

/-- A path into a list, seen from the list with one more head. -/
def shift : List Nat → List Nat
  | [] => []
  | index :: rest => (index + 1) :: rest

theorem Before.shift {p q : List Nat} (before : Before p q) : Before (shift p) (shift q) := by
  cases p with
  | nil => exact before.elim
  | cons i p =>
    cases q with
    | nil => trivial
    | cons j q =>
      obtain less | ⟨same, before⟩ := before
      · exact .inl (succ_lt_succ less)
      · exact .inr ⟨congrArg (· + 1) same, before⟩

theorem follow_shift (node : Node) (nodes : List Node) (path : List Nat) :
    follow next (node :: nodes) (shift path) = follow next nodes path := by
  cases path with
  | nil => simp [shift, follow]
  | cons index rest => exact follow_succ node nodes index rest

theorem acyclic_of_rank (rank : Node → Nat)
    (smaller : ∀ node, ∀ successor ∈ next node, rank successor < rank node) : Acyclic next := by
  have below : ∀ {node far}, Relation.TransGen (Leads next) node far → rank far < rank node := by
    intro node far leads
    induction leads with
    | single leads => exact smaller _ _ leads
    | tail _ leads ih => exact Nat.lt_trans (smaller _ _ leads) ih
  exact fun node leads => Nat.lt_irrefl _ (below leads)

namespace Below

theorem head (node : Node) (nodes : List Node) : Below next (node :: nodes) node :=
  ⟨node, mem_cons_self, .refl⟩

theorem tail {node below : Node} {nodes : List Node} (isBelow : Below next nodes below) :
    Below next (node :: nodes) below := by
  obtain ⟨start, isStart, leads⟩ := isBelow
  exact ⟨start, mem_cons_of_mem node isStart, leads⟩

theorem step {node below : Node} {nodes : List Node} (isBelow : Below next nodes node)
    (leads : below ∈ next node) : Below next nodes below := by
  obtain ⟨start, isStart, path⟩ := isBelow
  exact ⟨start, isStart, path.tail leads⟩

theorem up {node below : Node} {nodes : List Node} (isBelow : Below next (next node) below) :
    Below next (node :: nodes) below := by
  obtain ⟨start, isStart, path⟩ := isBelow
  exact ⟨node, mem_cons_self, path.head isStart⟩

theorem cases_cons {node below : Node} {nodes : List Node}
    (isBelow : Below next (node :: nodes) below) :
    below = node ∨ Below next (next node) below ∨ Below next nodes below := by
  obtain ⟨start, isStart, path⟩ := isBelow
  obtain rfl | inRest := mem_cons.mp isStart
  · obtain rfl | ⟨middle, leads, path⟩ := path.cases_head
    · exact .inl rfl
    · exact .inr (.inl ⟨middle, leads, path⟩)
  · exact .inr (.inr ⟨start, inRest, path⟩)

theorem irrefl (acyclic : Acyclic next) (node : Node) : ¬ Below next (next node) node := by
  rintro ⟨start, isStart, path⟩
  exact acyclic node (.head' isStart path)

theorem of_follow {nodes : List Node} {path : List Nat} {node : Node}
    (found : follow next nodes path = some node) : Below next nodes node := by
  match path with
  | [] => cases found
  | [index] => exact ⟨node, mem_of_getElem? found, .refl⟩
  | index :: deeper :: rest =>
    obtain ⟨start, isStart, found⟩ := Option.bind_eq_some_iff.mp found
    obtain ⟨middle, leads, path⟩ := of_follow found
    exact ⟨start, mem_of_getElem? isStart, path.head leads⟩

theorem exists_follow {nodes : List Node} {node : Node} (isBelow : Below next nodes node) :
    ∃ path, follow next nodes path = some node := by
  obtain ⟨start, isStart, leads⟩ := isBelow
  induction leads using Relation.ReflTransGen.head_induction_on generalizing nodes with
  | refl =>
    obtain ⟨index, isAt⟩ := mem_iff_getElem?.mp isStart
    exact ⟨[index], isAt⟩
  | head step _ ih =>
    obtain ⟨index, isAt⟩ := mem_iff_getElem?.mp isStart
    obtain ⟨path, found⟩ := ih step
    cases path with
    | nil => cases found
    | cons deeper rest => exact ⟨index :: deeper :: rest, by simp [follow, isAt, found]⟩

end Below

/-- The first path in pre-order that leads to a node that is not seen. -/
def Fresh (next : Node → List Node) (seen : Node → Prop) (nodes : List Node)
    (path : List Nat) : Prop :=
  ∃ node, follow next nodes path = some node ∧ ¬ seen node ∧
      ∀ other, Earlier other path → follow next nodes other ≠ some node

/-- The paths of the entries that a walk writes down. -/
def Walked (next : Node → List Node) (seen : Node → Prop) (nodes : List Node)
    (path : List Nat) : Prop :=
  (follow next nodes path).isSome = true ∧
    (path.dropLast = [] ∨ Fresh next seen nodes path.dropLast)

def Settled (next : Node → List Node) (seen : Node → Prop) (nodes : List Node) : Prop :=
  ∀ node, Below next nodes node → seen node → ∀ successor ∈ next node, seen successor

theorem Settled.below {seen : Node → Prop} {nodes : List Node} {node below : Node}
    (settled : Settled next seen nodes) (isBelow : Below next nodes node) (isSeen : seen node)
    (path : Relation.ReflTransGen (Leads next) node below) : seen below := by
  have both : Below next nodes below ∧ seen below := by
    induction path with
    | refl => exact ⟨isBelow, isSeen⟩
    | tail _ leads ih =>
      obtain ⟨isBelow, isSeen⟩ := ih
      exact ⟨isBelow.step leads, settled _ isBelow isSeen _ leads⟩
  exact both.2

section

variable {seen : Node → Prop} {nodes : List Node} {node : Node}

theorem fresh_succ (index : Nat) (rest : List Nat) :
    Fresh next seen (node :: nodes) ((index + 1) :: rest) ↔
      Fresh next seen nodes (index :: rest) := by
  unfold Fresh
  simp only [follow_succ]
  refine exists_congr fun found => and_congr_right fun _ =>
    and_congr_right fun _ => ⟨fun first other earlier => ?_, fun first other earlier => ?_⟩
  · cases other with
    | nil => simp [follow]
    | cons j other =>
      rw [← follow_succ node]
      refine first _ ?_
      obtain less | ⟨same, earlier⟩ := earlier
      · exact .inl (succ_lt_succ less)
      · exact .inr ⟨congrArg (· + 1) same, earlier⟩
  · cases other with
    | nil => simp [follow]
    | cons j other =>
      cases j with
      | zero =>
        obtain less | ⟨same, -⟩ := earlier
        · exact absurd less (Nat.not_lt_zero _)
        · cases same
      | succ j =>
        rw [follow_succ]
        refine first _ ?_
        obtain less | ⟨same, earlier⟩ := earlier
        · exact .inl (lt_of_succ_lt_succ less)
        · exact .inr ⟨Nat.succ.inj same, earlier⟩

theorem walked_succ (index : Nat) (rest : List Nat) :
    Walked next seen (node :: nodes) ((index + 1) :: rest) ↔
      Walked next seen nodes (index :: rest) := by
  unfold Walked
  rw [follow_succ]
  cases rest with
  | nil => simp
  | cons deeper rest =>
    simp only [dropLast_cons_cons, cons_ne_nil, false_or]
    rw [fresh_succ]

theorem walked_zero_nil : Walked next seen (node :: nodes) [0] := by simp [Walked]

theorem fresh_zero_nil : Fresh next seen (node :: nodes) [0] ↔
    ¬ (seen node ∨ Below next nodes node) := by
  constructor
  · rintro ⟨found, isFound, notSeen, first⟩
    obtain rfl : node = found := Option.some.inj isFound
    rintro (isSeen | isBelow)
    · exact notSeen isSeen
    · obtain ⟨path, isPath⟩ := isBelow.exists_follow
      cases path with
      | nil => cases isPath
      | cons j path =>
        refine first ((j + 1) :: path) (.inl (succ_pos j)) ?_
        rw [follow_succ, isPath]
  · intro isNew
    refine ⟨node, rfl, fun isSeen => isNew (.inl isSeen), ?_⟩
    intro other earlier isOther
    match other with
    | [] => cases isOther
    | 0 :: _ =>
      obtain less | ⟨-, earlier⟩ := earlier
      · exact Nat.lt_irrefl 0 less
      · exact Earlier.not_nil _ earlier
    | (i + 1) :: other =>
      rw [follow_succ] at isOther
      exact isNew (.inr (.of_follow isOther))

theorem fresh_zero (settled : Settled next seen (node :: nodes)) (deeper : Nat) (rest : List Nat) :
    Fresh next seen (node :: nodes) (0 :: deeper :: rest) ↔ ¬ (seen node ∨ Below next nodes node) ∧
      Fresh next (fun other => other = node ∨ seen other ∨ Below next nodes other)
        (next node) (deeper :: rest) := by
  unfold Fresh
  simp only [follow_zero]
  constructor
  · rintro ⟨found, isFound, notSeen, first⟩
    have under : Relation.ReflTransGen (Leads next) node found := by
      obtain ⟨start, leads, path⟩ := Below.of_follow isFound
      exact path.head leads
    have notRest : ¬ Below next nodes found := by
      intro isBelow
      obtain ⟨path, isPath⟩ := isBelow.exists_follow
      cases path with
      | nil => cases isPath
      | cons j path =>
        refine first ((j + 1) :: path) (.inl (succ_pos j)) ?_
        rw [follow_succ, isPath]
    refine ⟨?_, found, isFound, ?_, ?_⟩
    · rintro (isSeen | ⟨start, isStart, path⟩)
      · exact notSeen (settled.below (Below.head ..) isSeen under)
      · exact notRest ⟨start, isStart, path.trans under⟩
    · rintro (rfl | isSeen | isBelow)
      · exact first [0] (.inr ⟨rfl, trivial⟩) rfl
      · exact notSeen isSeen
      · exact notRest isBelow
    · intro other earlier isOther
      cases other with
      | nil => cases isOther
      | cons j other =>
        refine first (0 :: j :: other) (.inr ⟨rfl, earlier⟩) ?_
        rw [follow_zero, isOther]
  · rintro ⟨isNew, found, isFound, notSeen, first⟩
    refine ⟨found, isFound, fun isSeen => notSeen (.inr (.inl isSeen)), ?_⟩
    intro other earlier isOther
    match other with
    | [] => cases isOther
    | 0 :: [] => exact notSeen (.inl (Option.some.inj isOther).symm)
    | 0 :: j :: other =>
      obtain less | ⟨-, earlier⟩ := earlier
      · exact absurd less (Nat.lt_irrefl 0)
      · exact first _ earlier isOther
    | (i + 1) :: other =>
      rw [follow_succ] at isOther
      exact notSeen (.inr (.inr (.of_follow isOther)))

theorem walked_zero (settled : Settled next seen (node :: nodes)) (deeper : Nat) (rest : List Nat) :
    Walked next seen (node :: nodes) (0 :: deeper :: rest) ↔ ¬ (seen node ∨ Below next nodes node) ∧
      Walked next (fun other => other = node ∨ seen other ∨ Below next nodes other)
        (next node) (deeper :: rest) := by
  unfold Walked
  cases rest with
  | nil =>
    have isFresh := @fresh_zero_nil Node next seen nodes node
    simp only [dropLast_cons_cons, dropLast_singleton,
      cons_ne_nil, false_or, true_or, and_true, isFresh]
    exact and_comm
  | cons deepest rest =>
    simp only [dropLast_cons_cons, cons_ne_nil, false_or]
    rw [fresh_zero settled]
    tauto

end

/--
`order` is what a depth-first walk of `nodes` writes down, and `seen'` what is
seen behind it.
-/
structure WalkOf (next : Node → List Node) (seen : Node → Prop) (nodes order : List Node)
    (seen' : Node → Prop) : Prop where
  adds : ∀ node, seen' node ↔ seen node ∨ Below next nodes node
  paths : ∃ paths : List (List Nat), paths.map (follow next nodes) = order.map some ∧
      paths.Pairwise Before ∧ ∀ path, path ∈ paths ↔ Walked next seen nodes path
  covers : ∀ node, Below next nodes node → node ∈ order ∨ seen node
  deps : ∀ before node after, order = before ++ node :: after →
      ∀ successor ∈ next node, successor ∈ before ∨ seen successor

namespace WalkOf

variable {seen seen' seen'' : Node → Prop} {nodes order below : List Node} {node : Node}

theorem nil : WalkOf next seen [] [] seen := by
  refine ⟨fun node => ?_, ⟨[], rfl, .nil, fun path => ?_⟩, ?_, ?_⟩
  · simp [Below]
  · simp [Walked, follow_nil]
  · simp [Below]
  · intro before node after empty
    simp at empty

theorem below_of_mem (walk : WalkOf next seen nodes order seen') (isMember : node ∈ order) :
    Below next nodes node := by
  obtain ⟨paths, same, -, -⟩ := walk.paths
  have isEnd : some node ∈ paths.map (follow next nodes) := by
    rw [same]
    exact mem_map_of_mem isMember
  obtain ⟨path, -, found⟩ := mem_map.mp isEnd
  exact .of_follow found

theorem paths_cons (walk : WalkOf next seen nodes order seen') {deepPaths : List (List Nat)}
    (ends : deepPaths.map (follow next (next node)) = below.map some)
    (ordered : deepPaths.Pairwise Before)
    (walked : ∀ path, path ∈ deepPaths ↔ path ≠ [] ∧ Walked next seen (node :: nodes) (0 :: path)) :
    ∃ paths : List (List Nat), paths.map (follow next (node :: nodes)) =
      (order ++ below ++ [node]).map some ∧ paths.Pairwise Before ∧
      ∀ path, path ∈ paths ↔ Walked next seen (node :: nodes) path := by
  obtain ⟨paths, same, sorted, all⟩ := walk.paths
  have notNil : ∀ {path}, path ∈ paths.map shift ↔
      ∃ index rest, index :: rest ∈ paths ∧ path = (index + 1) :: rest := by
    intro path
    rw [mem_map]
    constructor
    · rintro ⟨other, isMember, rfl⟩
      cases other with
      | nil => simpa [Walked, follow] using (all []).mp isMember
      | cons index rest => exact ⟨index, rest, isMember, rfl⟩
    · rintro ⟨index, rest, isMember, rfl⟩
      exact ⟨_, isMember, rfl⟩
  refine ⟨paths.map shift ++ deepPaths.map (0 :: ·) ++ [[0]], ?_, ?_, ?_⟩
  · have shifted : (paths.map shift).map (follow next (node :: nodes)) = order.map some := by
      rw [← same, map_map]
      exact map_congr_left fun path _ => follow_shift node nodes path
    have deeper : (deepPaths.map (0 :: ·)).map (follow next (node :: nodes)) = below.map some := by
      rw [← ends, map_map]
      refine map_congr_left fun path isDeep => ?_
      cases path with
      | nil => exact absurd rfl ((walked []).mp isDeep).1
      | cons deeper rest => exact follow_zero node nodes deeper rest
    simp only [map_append, shifted, deeper]
    rfl
  · rw [pairwise_append, pairwise_append]
    refine ⟨⟨?_, ?_, ?_⟩, pairwise_singleton .., ?_⟩
    · exact sorted.map shift fun _ _ => Before.shift
    · exact ordered.map (0 :: ·) fun _ _ before => .inr ⟨rfl, before⟩
    · rintro _ inShifted _ inDeep
      obtain ⟨index, rest, -, rfl⟩ := notNil.mp inShifted
      obtain ⟨path, -, rfl⟩ := mem_map.mp inDeep
      exact .inl (succ_pos index)
    · intro path isMember last isLast
      obtain rfl := mem_singleton.mp isLast
      obtain inShifted | inDeep := mem_append.mp isMember
      · obtain ⟨index, rest, -, rfl⟩ := notNil.mp inShifted
        exact .inl (succ_pos index)
      · obtain ⟨path, isDeep, rfl⟩ := mem_map.mp inDeep
        cases path with
        | nil => exact absurd rfl ((walked []).mp isDeep).1
        | cons deeper rest => exact .inr ⟨rfl, trivial⟩
  · intro path
    rw [mem_append, mem_append, notNil, mem_singleton]
    match path with
    | [] => simp [Walked, follow]
    | (index + 1) :: rest =>
      rw [walked_succ, ← all]
      simp
    | [0] => simp [walked_zero_nil]
    | 0 :: deeper :: rest => simp [walked]

theorem split_last {entries before after : List Node} {last entry : Node}
    (split : entries ++ [last] = before ++ entry :: after) :
    (entries = before ∧ last = entry) ∨ ∃ rest, entries = before ++ entry :: rest := by
  obtain rfl | ⟨rest, final, rfl⟩ := eq_nil_or_concat after
  · have same := append_inj' split rfl
    exact .inl ⟨same.1, singleton_inj.mp same.2⟩
  · rw [concat_eq_append, ← cons_append, ← append_assoc] at split
    exact .inr ⟨rest, (append_inj' split rfl).1⟩

theorem old (walk : WalkOf next seen nodes order seen')
    (settled : Settled next seen (node :: nodes)) (isSeen : seen' node) :
    WalkOf next seen (node :: nodes) (order ++ [node]) seen' := by
  have wasSeen := (walk.adds node).mp isSeen
  refine ⟨?_, ?_, ?_, ?_⟩
  · intro other
    rw [walk.adds other]
    refine ⟨fun known => known.imp_right .tail, fun known => ?_⟩
    obtain isOld | ⟨start, isStart, path⟩ := known
    · exact .inl isOld
    obtain rfl | inRest := mem_cons.mp isStart
    · obtain isOld | ⟨first, isFirst, up⟩ := wasSeen
      · exact .inl (settled.below (.head ..) isOld path)
      · exact .inr ⟨first, isFirst, up.trans path⟩
    · exact .inr ⟨start, inRest, path⟩
  · have none : ∀ path : List Nat, path ∈ ([] : List (List Nat)) ↔
        path ≠ [] ∧ Walked next seen (node :: nodes) (0 :: path) := by
      intro path
      refine ⟨fun isMember => (by cases isMember), fun ⟨notNil, walked⟩ => ?_⟩
      cases path with
      | nil => exact absurd rfl notNil
      | cons deeper rest =>
        rw [walked_zero settled] at walked
        exact absurd wasSeen walked.1
    simpa using @paths_cons _ _ _ _ _ _ [] node walk [] rfl .nil none
  · intro other isBelow
    obtain rfl | under | inRest := isBelow.cases_cons
    · exact .inl (by simp)
    · obtain isOld | ⟨first, isFirst, up⟩ := wasSeen
      · obtain ⟨start, leads, path⟩ := under
        exact .inr (settled.below (.head ..) isOld (path.head leads))
      · obtain ⟨start, leads, path⟩ := under
        have again : Below next nodes other := ⟨first, isFirst, up.trans (path.head leads)⟩
        exact (walk.covers other again).imp_left (mem_append_left _)
    · exact (walk.covers other inRest).imp_left (mem_append_left _)
  · intro before last after split successor leads
    obtain ⟨rfl, rfl⟩ | ⟨rest, rfl⟩ := split_last split
    · obtain isOld | isBelow := wasSeen
      · exact .inr (settled _ (.head ..) isOld _ leads)
      · exact walk.covers successor (isBelow.step leads)
    · exact walk.deps before last rest rfl successor leads

/-- The head of a list that is gone below. -/
theorem new (acyclic : Acyclic next) (walk : WalkOf next seen nodes order seen')
    (settled : Settled next seen (node :: nodes)) (isNew : ¬ seen' node)
    (deeper : WalkOf next (fun other => other = node ∨ seen' other) (next node) below seen'') :
    WalkOf next seen (node :: nodes) (order ++ below ++ [node]) seen'' := by
  refine ⟨?_, ?_, ?_, ?_⟩
  · intro other
    rw [deeper.adds other, walk.adds other]
    constructor
    · rintro ((rfl | isOld | isBelow) | isUnder)
      · exact .inr (.head ..)
      · exact .inl isOld
      · exact .inr isBelow.tail
      · exact .inr isUnder.up
    · rintro (isOld | isBelow)
      · exact .inl (.inr (.inl isOld))
      · obtain rfl | isUnder | inRest := isBelow.cases_cons
        · exact .inl (.inl rfl)
        · exact .inr isUnder
        · exact .inl (.inr (.inr inRest))
  · obtain ⟨deepPaths, ends, ordered, all⟩ := deeper.paths
    refine walk.paths_cons ends ordered fun path => ?_
    cases path with
    | nil => simp [all, Walked, follow]
    | cons index rest =>
      have notSeen : ¬ (seen node ∨ Below next nodes node) := by
        rw [← walk.adds node]
        exact isNew
      rw [walked_zero settled, all]
      simp only [walk.adds]
      simp [notSeen]
  · intro other isBelow
    obtain rfl | under | inRest := isBelow.cases_cons
    · exact .inl (by simp)
    · obtain isMember | rfl | wasSeen := deeper.covers other under
      · exact .inl (by simp [isMember])
      · exact absurd under (Below.irrefl acyclic other)
      · obtain isOld | inRest := (walk.adds other).mp wasSeen
        · exact .inr isOld
        · exact (walk.covers other inRest).imp_left fun isMember => by simp [isMember]
    · exact (walk.covers other inRest).imp_left fun isMember => by simp [isMember]
  · -- what the walk of the rest has written down stands before
    have written : ∀ successor, seen' successor → successor ∈ order ∨ seen successor := by
      intro successor isSeen
      obtain isOld | inRest := (walk.adds successor).mp isSeen
      · exact .inr isOld
      · exact walk.covers successor inRest
    intro before last after split successor leads
    obtain ⟨rfl, rfl⟩ | ⟨rest, split⟩ := split_last split
    · have isBelow : Below next (next node) successor := ⟨successor, leads, .refl⟩
      obtain isMember | rfl | isSeen := deeper.covers successor isBelow
      · exact .inl (mem_append_right _ isMember)
      · exact absurd isBelow (Below.irrefl acyclic successor)
      · exact (written successor isSeen).imp_left (mem_append_left _)
    · obtain ⟨middle, rfl, isBelow⟩ | ⟨middle, isOrder, isRest⟩ := append_eq_append_iff.mp split
      · obtain isMember | rfl | isSeen := deeper.deps middle last rest isBelow successor leads
        · exact .inl (mem_append_right _ isMember)
        · have isUnder : Below next (next successor) last := deeper.below_of_mem (by simp [isBelow])
          exact absurd (isUnder.step leads) (Below.irrefl acyclic successor)
        · exact (written successor isSeen).imp_left (mem_append_left _)
      · cases middle with
        | nil =>
          have isBelow : below = last :: rest := isRest.symm
          obtain isMember | rfl | isSeen := deeper.deps [] last rest isBelow successor leads
          · cases isMember
          · have isUnder : Below next (next successor) last :=
              deeper.below_of_mem (by simp [isBelow])
            exact absurd (isUnder.step leads) (Below.irrefl acyclic successor)
          · rw [isOrder] at written
            simpa using written successor isSeen
        | cons first middle =>
          obtain ⟨rfl, -⟩ := cons_eq_cons.mp isRest
          exact walk.deps before last middle isOrder successor leads

theorem deps_trans (walk : WalkOf next seen nodes order seen')
    (unseen : ∀ node, Below next nodes node → ¬ seen node) {before after : List Node}
    {node far : Node} (split : order = before ++ node :: after)
    (leads : Relation.TransGen (Leads next) node far) : far ∈ before := by
  have step : ∀ {before after : List Node} {node successor : Node},
      order = before ++ node :: after → successor ∈ next node → successor ∈ before := by
    intro before after node successor split leads
    refine (walk.deps before node after split successor leads).resolve_right ?_
    have isBelow : Below next nodes node := walk.below_of_mem (by simp [split])
    exact unseen successor (isBelow.step leads)
  induction leads with
  | single leads => exact step split leads
  | @tail middle far _ leads ih =>
    obtain ⟨front, back, rfl⟩ := append_of_mem ih
    have again : order = front ++ middle :: (back ++ node :: after) := by simpa using split
    exact mem_append_left _ (step again leads)

theorem last_iff (walk : WalkOf next seen nodes order seen') {node other : Node}
    (different : node ≠ other) :
    (∃ before after, order = before ++ node :: after ∧ other ∉ after) ↔ ∃ path,
      Walked next seen nodes path ∧ follow next nodes path = some node ∧
        ∀ path', Walked next seen nodes path' →
          follow next nodes path' = some other → Before path' path := by
  obtain ⟨paths, ends, ordered, all⟩ := walk.paths
  constructor
  · rintro ⟨before, after, rfl, notAfter⟩
    rw [map_append, map_cons] at ends
    obtain ⟨front, rest, rfl, isFront, isRest⟩ := map_eq_append_iff.mp ends
    obtain ⟨path, back, rfl, found, isBack⟩ := map_eq_cons_iff.mp isRest
    refine ⟨path, (all path).mp (by simp), found, fun path' walked found' => ?_⟩
    have isMember := (all path').mpr walked
    rw [mem_append, mem_cons] at isMember
    obtain inFront | rfl | inBack := isMember
    · exact (pairwise_append.mp ordered).2.2 path' inFront path mem_cons_self
    · exact absurd (Option.some.inj (found.symm.trans found')) different
    · have isAfter : some other ∈ after.map some := by
        rw [← isBack, ← found']
        exact mem_map_of_mem inBack
      obtain ⟨same, isMember, isSame⟩ := mem_map.mp isAfter
      rw [Option.some.inj isSame] at isMember
      exact absurd isMember notAfter
  · rintro ⟨path, walked, found, last⟩
    obtain ⟨front, back, rfl⟩ := append_of_mem ((all path).mpr walked)
    rw [map_append, map_cons] at ends
    obtain ⟨before, rest, rfl, -, isRest⟩ := map_eq_append_iff.mp ends.symm
    obtain ⟨same, after, rfl, isSame, isBack⟩ := map_eq_cons_iff.mp isRest
    obtain rfl : same = node := Option.some.inj (isSame.trans found)
    refine ⟨before, after, rfl, fun isAfter => ?_⟩
    have inBack : some other ∈ back.map (follow next nodes) := by
      rw [← isBack]
      exact mem_map_of_mem isAfter
    obtain ⟨path', isMember, found'⟩ := mem_map.mp inBack
    have walked' : Walked next seen nodes path' := (all path').mp (by simp [isMember])
    have later : Before path path' := rel_of_pairwise_cons (pairwise_append.mp ordered).2.1 isMember
    exact later.asymm (last path' walked' found')

end WalkOf

theorem walked_congr {seen : Node → Prop} {nodes : List Node}
    (unseen : ∀ node, Below next nodes node → ¬ seen node) (path : List Nat) :
    Walked next seen nodes path ↔ Walked next (fun _ => False) nodes path := by
  have fresh : ∀ path, Fresh next seen nodes path ↔ Fresh next (fun _ => False) nodes path := by
    intro path
    refine exists_congr fun node => and_congr_right fun found => ?_
    simp [unseen node (.of_follow found)]
  rw [Walked, Walked, fresh]

end Uw7.Lib
