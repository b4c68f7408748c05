import Mathlib.Data.List.GetD
import Mathlib.Order.Interval.Finset.Nat
import Uw7.Tsort.Nodelist

/-!
# Printing in order

The main loop of `tsort`: the first live node without a live predecessor is
printed, and if every live node has one, a node that a search over live
predecessors comes back to.
-/

open Function List Nat

namespace Uw7.Tsort

/-- What a search leaves: the states of the nodes, the node it came back to, and
the nodes it has named on its way back. -/
structure Marked where
  live : Nat → Live
  found : Option Nat
  named : List Nat

/-- The loop of `mark` over the predecessors of a node. -/
def markPreds (markNode : (Nat → Live) → Nat → Option Marked)
    (i : Nat) : List Nat → (Nat → Live) → Option Marked
  | [], live => some ⟨live, none, []⟩
  | pred :: rest, live =>
    match markNode live pred with
    | none => none
    | some ⟨live, none, _⟩ => markPreds markNode i rest live
    | some ⟨live, some j, named⟩ => some ⟨live, some j, named ++ [i]⟩

/-- `mark`, when its calls are no deeper than a number. -/
def mark (inedges : Nat → List Nat) : Nat → (Nat → Live) → Nat → Option Marked
  | 0, _, _ => none
  | depth + 1, live, i =>
    match live i with
    | .dead => some ⟨live, none, []⟩
    | .visited => some ⟨live, some i, []⟩
    | .live => markPreds (mark inedges depth) i (inedges i) (update live i .visited)

def Nodelist.nodes (list : Nodelist) : List Nat := range list.names.length

def anypred (list : Nodelist) (i : Nat) : Bool :=
  (list.inedges i).any fun pred => list.live pred = .live

/-- `findloop`: the search from the first live node, whose marks are taken back;
it finds a node, or there is a program error. -/
def findloop (list : Nodelist) : Option (Nat × Nodelist × List Nat) :=
  let i := (list.nodes.find? fun i => list.live i = .live).getD list.names.length
  match mark list.inedges (list.names.length + 1) list.live i with
  | some ⟨live, some j, named⟩ =>
    some (j,
        { list with
          live := fun i =>
            if i < list.names.length ∧ live i = .visited then .live
            else live i },
        named)
  | _ => none

/-- A round of the main loop: the cycle that is reported, if one is, and the
item that is printed. -/
structure Round (Node : Type) where
  cycle : Option (List Node)
  item : Node

/-- A round, with its nodes under other names. -/
def Round.map {Node Name : Type} (name : Node → Name) (round : Round Node) : Round Name where
  cycle := round.cycle.map (List.map name)
  item := name round.item

/-- What a sweep of the main loop comes to. -/
inductive Sweep where
  | finished
  | prints (round : Round Nat) (list : Nodelist)
  | programError

def Nodelist.print (list : Nodelist) (i : Nat) : Nodelist :=
  { list with live := update list.live i .dead }

/-- One sweep of the main loop. -/
def sweep (list : Nodelist) : Sweep :=
  match list.nodes.find? fun i => list.live i = .live && !anypred list i with
  | some i => .prints ⟨none, i⟩ (list.print i)
  | none =>
    if list.nodes.any fun i => list.live i = .live then
      match findloop list with
      | some (i, list, named) => .prints ⟨some named, i⟩ (list.print i)
      | none => .programError
    else .finished

/-- The main loop: its rounds, when they are fewer than a number. -/
def printLoop : Nat → Nodelist → Option (List (Round Nat))
  | 0, _ => none
  | rounds + 1, list =>
    match sweep list with
    | .finished => some []
    | .prints round list => (printLoop rounds list).map (round :: ·)
    | .programError => none

/-- `main`, on the pairs of its input. -/
def tsort (rounds : Nat) (pairs : List (String × String)) : Option (List (Round String)) :=
  (printLoop rounds (readGraph pairs)).map (List.map (Round.map (readGraph pairs).name))

variable {inedges : Nat → List Nat} {alive : Nat → Prop}

/-- From a node to one of its predecessors, of some nodes. -/
def BackTo (inedges : Nat → List Nat) (alive : Nat → Prop) (i pred : Nat) : Prop :=
  pred ∈ inedges i ∧ alive i ∧ alive pred

/-- Every one of some nodes has a predecessor among them. -/
def Stuck (inedges : Nat → List Nat) (alive : Nat → Prop) : Prop :=
  ∀ i, alive i → ∃ pred ∈ inedges i, alive pred

/-- What a search that finds something has found: a node it leads back to, which
was visited before or lies on a cycle. -/
structure Finds (inedges : Nat → List Nat) (alive : Nat → Prop) (live : Nat → Live) (i : Nat)
    (marked : Marked)
    (found : Nat) : Prop where
  node : marked.found = some found
  kept : ∀ j, marked.live j ≠ .dead ↔ alive j
  back : Relation.ReflTransGen (BackTo inedges alive) i found
  cycle : live found = .visited ∨ Relation.TransGen (BackTo inedges alive) found found

theorem markPreds_of_finds {markNode : (Nat → Live) → Nat → Option Marked} {live : Nat → Live}
    {i : Nat} {preds : List Nat}
    (dead : ∀ pred, ¬alive pred → markNode live pred = some ⟨live, none, []⟩)
    (finds : ∀ pred, alive pred → ∃ marked found, markNode live pred = some marked ∧
      Finds inedges alive live pred marked found)
    (some1 : ∃ pred ∈ preds, alive pred) :
    ∃ pred ∈ preds, alive pred ∧ ∃ marked found, markPreds markNode i preds live = some marked ∧
      Finds inedges alive live pred marked found := by
  induction preds with
  | nil =>
    obtain ⟨pred, member, -⟩ := some1
    cases member
  | cons pred rest ih =>
    unfold markPreds
    by_cases here : alive pred
    · obtain ⟨⟨after, at', named⟩, found, result, right⟩ := finds pred here
      have node : at' = some found := right.node
      subst node
      rw [result]
      exact ⟨pred, mem_cons_self, here, _, found, rfl,
        { node := rfl, kept := right.kept, back := right.back
          cycle := right.cycle }⟩
    · rw [dead pred here]
      have later : ∃ pred ∈ rest, alive pred := by
        obtain ⟨other, member, lives⟩ := some1
        rcases mem_cons.1 member with rfl | inRest
        · exact absurd lives here
        · exact ⟨other, inRest, lives⟩
      obtain ⟨other, member, lives, result⟩ := ih later
      exact ⟨other, mem_cons_of_mem _ member, lives, result⟩

/-- The live nodes, among some. -/
def liveNodes (nodes : Finset Nat) (live : Nat → Live) : Finset Nat :=
  nodes.filter fun i => live i = .live

variable {nodes : Finset Nat} {live : Nat → Live} {i : Nat} {list : Nodelist}

theorem card_liveNodes_visit (inside : i ∈ nodes) (lives : live i = .live) :
    (liveNodes nodes (update live i .visited)).card < (liveNodes nodes live).card := by
  refine Finset.card_lt_card ⟨?_, ?_⟩
  · intro j member
    obtain ⟨within, still⟩ := Finset.mem_filter.1 member
    refine Finset.mem_filter.2 ⟨within, ?_⟩
    by_cases same : j = i
    · rw [same]
      exact lives
    · rwa [update_of_ne same] at still
  · intro all
    have member := all (Finset.mem_filter.2 ⟨inside, lives⟩)
    have still := (Finset.mem_filter.1 member).2
    rw [update_self] at still
    cases still

/-- **The search finds a node**, where every node has a predecessor: one that it
has visited, or one on a cycle. -/
theorem finds_mark (inside : ∀ i, alive i → i ∈ nodes) (stuck : Stuck inedges alive) {depth : Nat}
    (states : ∀ j, live j ≠ .dead ↔ alive j) (enough : (liveNodes nodes live).card < depth)
    (lives : alive i) :
    ∃ marked found, mark inedges depth live i = some marked ∧
      Finds inedges alive live i marked found := by
  induction depth generalizing live i with
  | zero => exact absurd enough (Nat.not_lt_zero _)
  | succ depth ih =>
    unfold mark
    cases state : live i with
    | dead => exact absurd state ((states i).2 lives)
    | visited =>
      exact ⟨_, i, rfl,
        { node := rfl, kept := states
          back := Relation.ReflTransGen.refl, cycle := .inl state }⟩
    | live =>
      have fewer := card_liveNodes_visit (inside i lives) state
      have visited : ∀ j, update live i .visited j ≠ .dead ↔ alive j := by
        intro j
        by_cases same : j = i
        · subst same
          rw [update_self]
          exact iff_of_true Live.noConfusion lives
        · rw [update_of_ne same]
          exact states j
      have below : (liveNodes nodes (update live i .visited)).card <
            depth := by
        omega
      obtain ⟨pred, member, predLives, marked, found, result, right⟩ :=
        @markPreds_of_finds inedges alive (mark inedges depth)
          (update live i .visited) i (inedges i)
          (fun pred gone => by
            have dead := not_not.1 (mt (visited pred).1 gone)
            obtain ⟨less, rfl⟩ := exists_eq_succ_of_ne_zero (Nat.ne_zero_of_lt below)
            rw [mark, dead])
          (fun pred predLives => ih visited below predLives)
          (stuck i lives)
      have edge : BackTo inedges alive i pred := ⟨member, lives, predLives⟩
      refine ⟨marked, found, result, ?_⟩
      refine
        { node := right.node, kept := right.kept
          back := right.back.head edge, cycle := ?_ }
      rcases right.cycle with seen | cycle
      · by_cases same : found = i
        · -- the search is back where it was
          subst same
          exact .inr (Relation.TransGen.head' edge right.back)
        · rw [update_of_ne same] at seen
          exact .inl seen
      · exact .inr cycle

/-- A node list whose live nodes are some of its nodes, the others dead. -/
structure Unprinted (list : Nodelist) (alive : Nat → Prop) : Prop where
  live : ∀ i, list.live i = .live ↔ alive i
  dead : ∀ i, list.live i = .dead ↔ ¬alive i
  within : ∀ i, alive i → i < list.names.length

/-- **The search from the first live node** comes back to a node on a cycle, and
its marks are taken back. -/
theorem Unprinted.findloop (unprinted : Unprinted list alive) (stuck : Stuck list.inedges alive)
    (some1 : ∃ i, alive i) :
    ∃ i named, findloop list = some (i, list, named) ∧ alive i ∧
      Relation.TransGen (BackTo list.inedges alive) i i := by
  obtain ⟨first, chosen⟩ : ∃ first,
    list.nodes.find? (fun i => list.live i = .live) = some first := by
    obtain ⟨i, lives⟩ := some1
    refine Option.isSome_iff_exists.1 (List.find?_isSome.2 ⟨i, ?_, ?_⟩)
    · exact mem_range.2 (unprinted.within i lives)
    · exact decide_eq_true ((unprinted.live i).2 lives)
  have firstLives : alive first := by
    have holds := List.find?_some chosen
    exact (unprinted.live first).1 (of_decide_eq_true holds)
  have states (j : Nat) : list.live j ≠ .dead ↔ alive j :=
    (not_congr (unprinted.dead j)).trans not_not
  have enough : (liveNodes (Finset.range list.names.length) list.live).card <
      list.names.length + 1 := by
    have bounded := Finset.card_filter_le (Finset.range list.names.length)
        fun i => list.live i = .live
    rw [Finset.card_range] at bounded
    exact lt_succ_of_le bounded
  obtain ⟨⟨live, at', named⟩, found, result, right⟩ :=
    finds_mark (fun i lives => Finset.mem_range.2 (unprinted.within i lives))
      stuck states enough firstLives
  have node : at' = some found := right.node
  subst node
  have cycle := right.cycle.resolve_left fun visited => by
      have dead : ¬alive found := by
        rw [← unprinted.live, visited]
        exact Live.noConfusion
      have gone := (unprinted.dead found).2 dead
      rw [visited] at gone
      cases gone
  have foundLives : alive found := by
    obtain ⟨_, edge, _⟩ := Relation.TransGen.head'_iff.1 cycle
    exact edge.2.1
  refine ⟨found, named, ?_, foundLives, cycle⟩
  unfold Tsort.findloop
  simp only [chosen, Option.getD_some, result]
  -- the marks that are taken back are those of live nodes
  have restored : (fun i =>
      if i < list.names.length ∧ live i = .visited then .live
      else live i) =
      list.live := by
    funext i
    by_cases lives : alive i
    · rw [(unprinted.live i).2 lives]
      have notDead := (right.kept i).2 lives
      cases state : live i with
      | dead => exact absurd state notDead
      | live => simp
      | visited => simp [unprinted.within i lives]
    · have dead : live i = .dead := not_not.1 (mt (right.kept i).1 lives)
      rw [(unprinted.dead i).2 lives, dead]
      simp
  rw [restored]

/-- What a round may print, of some nodes: one without a predecessor among them,
or, when every one has a predecessor, one on a cycle, which is reported. -/
structure RoundRight (inedges : Nat → List Nat) (alive : Nat → Prop)
    (round : Round Nat) : Prop where
  item : alive round.item
  order : (∃ pred ∈ inedges round.item, alive pred) →
      Stuck inedges alive ∧ round.cycle.isSome = true ∧
        Relation.TransGen (BackTo inedges alive) round.item round.item

theorem Unprinted.print (unprinted : Unprinted list alive) (i : Nat) :
    Unprinted (list.print i) fun j => alive j ∧ j ≠ i where
  live := by
    intro j
    unfold Nodelist.print
    by_cases same : j = i
    · subst same
      simp
    · simp [same, unprinted.live]
  dead := by
    intro j
    unfold Nodelist.print
    by_cases same : j = i
    · subst same
      simp
    · simp [same, unprinted.dead]
  within := fun j lives => unprinted.within j lives.1

/-- **One sweep** prints what a round may print, or there is nothing left. -/
theorem Unprinted.sweep (unprinted : Unprinted list alive) :
    (sweep list = .finished ∧ ∀ i, ¬alive i) ∨
      ∃ round, sweep list = .prints round (list.print round.item) ∧
        RoundRight list.inedges alive round := by
  have anypred_iff (i : Nat) : anypred list i = true ↔ ∃ pred ∈ list.inedges i, alive pred := by
    simp [anypred, unprinted.live]
  unfold Tsort.sweep
  cases chosen : list.nodes.find? fun i => list.live i = .live && !anypred list i with
  | some i =>
    right
    have holds := List.find?_some chosen
    obtain ⟨lives, alone⟩ := Bool.and_eq_true_iff.1 holds
    refine ⟨⟨none, i⟩, rfl, ?_, ?_⟩
    · exact (unprinted.live i).1 (of_decide_eq_true lives)
    · intro pred
      rw [(anypred_iff i).2 pred] at alone
      cases alone
  | none =>
    have stuck : Stuck list.inedges alive := by
      intro i lives
      have listed : i ∈ list.nodes := mem_range.2 (unprinted.within i lives)
      have passed := List.find?_eq_none.1 chosen i listed
      rw [(unprinted.live i).2 lives] at passed
      exact (anypred_iff i).1 (by simpa using passed)
    by_cases some1 : ∃ i, alive i
    · right
      have any : (list.nodes.any fun i => list.live i = .live) = true := by
        obtain ⟨i, lives⟩ := some1
        refine any_eq_true.2 ⟨i, ?_, ?_⟩
        · exact mem_range.2 (unprinted.within i lives)
        · exact decide_eq_true ((unprinted.live i).2 lives)
      obtain ⟨i, named, found, lives, cycle⟩ := unprinted.findloop stuck some1
      refine ⟨⟨some named, i⟩, ?_, lives, fun _ => ⟨stuck, rfl, cycle⟩⟩
      simp only [any, ↓reduceIte, found]
    · left
      have none' : (list.nodes.any fun i => list.live i = .live) = false := by
        refine any_eq_false.2 fun i _ lives => ?_
        exact some1 ⟨i, (unprinted.live i).1 (of_decide_eq_true lives)⟩
      refine ⟨?_, not_exists.1 some1⟩
      simp [none']

/-- Rounds that print some nodes, one after the other. -/
inductive Prints (inedges : Nat → List Nat) : (Nat → Prop) → List (Round Nat) → Prop where
  | finished {alive : Nat → Prop} : (∀ i, ¬alive i) → Prints inedges alive []
  | round {alive : Nat → Prop} {round : Round Nat} {rest : List (Round Nat)} :
      RoundRight inedges alive round →
      Prints inedges (fun j => alive j ∧ j ≠ round.item) rest →
      Prints inedges alive (round :: rest)

/-- **The main loop comes to an end**, and its rounds print the live nodes. -/
theorem Unprinted.printLoop (unprinted : Unprinted list alive) {rounds : Nat}
    (enough : (liveNodes (Finset.range list.names.length) list.live).card < rounds) :
    ∃ printed, (∀ more, rounds ≤ more → printLoop more list = some printed) ∧
      Prints list.inedges alive printed := by
  induction rounds generalizing list alive with
  | zero => exact absurd enough (Nat.not_lt_zero _)
  | succ rounds ih =>
    rcases unprinted.sweep with ⟨finished, none'⟩ | ⟨round, prints, right⟩
    · refine ⟨[], fun more later => ?_, .finished none'⟩
      obtain ⟨more, rfl⟩ := Nat.exists_eq_add_of_le' later
      rw [add_succ, Tsort.printLoop, finished]
    · have lives := (unprinted.live round.item).2 right.item
      have fewer : (liveNodes (Finset.range list.names.length) (list.print round.item).live).card <
          (liveNodes (Finset.range list.names.length) list.live).card := by
        refine Finset.card_lt_card ⟨?_, ?_⟩
        · intro j member
          obtain ⟨inside, still⟩ := Finset.mem_filter.1 member
          refine Finset.mem_filter.2 ⟨inside, ?_⟩
          have kept := ((unprinted.print round.item).live j).1 still
          exact (unprinted.live j).2 kept.1
        · intro all
          have member := all (Finset.mem_filter.2
              ⟨Finset.mem_range.2 (unprinted.within _ right.item), lives⟩)
          have still := (Finset.mem_filter.1 member).2
          exact (((unprinted.print round.item).live _).1 still).2 rfl
      obtain ⟨rest, result, printed⟩ := ih (unprinted.print round.item)
        (Nat.lt_of_lt_of_le fewer (le_of_lt_succ enough))
      refine ⟨round :: rest, fun more later => ?_, .round right printed⟩
      obtain ⟨more, rfl⟩ := Nat.exists_eq_add_of_le' later
      rw [add_succ, Tsort.printLoop, prints]
      simp only [result _ (Nat.le_add_left rounds more), Option.map_some]

theorem Prints.once {rounds : List (Round Nat)} (prints : Prints inedges alive rounds) :
    (rounds.map Round.item).Nodup ∧ ∀ i, i ∈ rounds.map Round.item ↔ alive i := by
  induction prints with
  | finished none' => exact ⟨nodup_nil, fun i => iff_of_false not_mem_nil (none' i)⟩
  | round right _ ih =>
    obtain ⟨nodup, members⟩ := ih
    refine ⟨nodup_cons.2 ⟨fun member => ?_, nodup⟩, fun i => ?_⟩
    · exact ((members _).1 member).2 rfl
    · rw [map_cons, mem_cons, members]
      constructor
      · rintro (rfl | ⟨lives, -⟩)
        · exact right.item
        · exact lives
      · intro lives
        exact or_iff_not_imp_left.2 fun differ => ⟨lives, differ⟩

theorem Prints.roundRight {before after : List (Round Nat)} {round : Round Nat}
    (prints : Prints inedges alive (before ++ round :: after)) :
    RoundRight inedges (fun i => alive i ∧ i ∉ before.map Round.item) round := by
  induction before generalizing alive with
  | nil =>
    cases prints with
    | round right _ => simpa using right
  | cons first before ih =>
    cases prints with
    | round _ rest =>
      have later := ih rest
      have same : (fun i => (alive i ∧ i ≠ first.item) ∧ i ∉ before.map Round.item) =
          fun i => alive i ∧ i ∉ (first :: before).map Round.item := by
        funext i
        simp [and_assoc]
      rw [same] at later
      exact later

/-- What is asked of the rounds of `tsort`: every item is printed once, and one
with a predecessor that is not printed yet only if every item left has such a
predecessor; then a cycle is reported, and the item is on one. -/
structure PrintsRight (pairs : List (String × String)) (rounds : List (Round String)) : Prop where
  once : (rounds.map Round.item).Nodup
  items : ∀ s, s ∈ rounds.map Round.item ↔ Item pairs s
  order : ∀ before round after, rounds = before ++ round :: after →
      (∃ pred, Precedes pairs pred round.item ∧ pred ∉ before.map Round.item) →
      (∀ s, Item pairs s → s ∉ before.map Round.item →
        ∃ pred, Precedes pairs pred s ∧ pred ∉ before.map Round.item) ∧
        round.cycle.isSome = true ∧
        Relation.TransGen (fun s pred => Precedes pairs pred s ∧
            s ∉ before.map Round.item ∧ pred ∉ before.map Round.item)
          round.item round.item

theorem Holds.name {pairs : List (String × String)} (holds : Holds pairs list) :
    (∀ s, Item pairs s → list.names.idxOf s < list.names.length ∧
      list.name (list.names.idxOf s) = s) ∧
      ∀ i, i < list.names.length →
        Item pairs (list.name i) ∧ list.names.idxOf (list.name i) = i := by
  refine ⟨fun s item => ?_, fun i within => ?_⟩
  · have known := (holds.named s).2 item
    have within := idxOf_lt_length_of_mem known
    refine ⟨within, ?_⟩
    unfold Nodelist.name
    rw [getD_eq_getElem _ _ within, getElem_idxOf]
  · unfold Nodelist.name
    rw [getD_eq_getElem _ _ within]
    refine ⟨(holds.named _).1 (getElem_mem within), ?_⟩
    exact holds.once.idxOf_getElem i within

/-- **tsort is right**, for every list of pairs. -/
theorem tsort_right (pairs : List (String × String)) : ∃ rounds,
    (∃ enough, ∀ more, enough ≤ more → tsort more pairs = some rounds) ∧
      PrintsRight pairs rounds := by
  have holds := holds_readGraph pairs
  unfold tsort
  generalize readGraph pairs = list at holds ⊢
  have unprinted : Unprinted list (· < list.names.length) := by
    refine ⟨fun i => ?_, fun i => ?_, fun i lives => lives⟩
    · rw [holds.live]
      by_cases within : i < list.names.length <;> simp [within]
    · rw [holds.live]
      by_cases within : i < list.names.length <;> simp [within]
  obtain ⟨printed, ends, prints⟩ := unprinted.printLoop (lt_succ_self _)
  refine ⟨printed.map (Round.map list.name),
    ⟨_, fun more later => by rw [ends more later]; rfl⟩, ?_⟩
  obtain ⟨nodeOf, nameOf⟩ := holds.name
  obtain ⟨once, all⟩ := prints.once
  -- the printed items are the names of the printed nodes
  have items (rounds : List (Round Nat)) : (rounds.map (Round.map list.name)).map Round.item =
      (rounds.map Round.item).map list.name := by
    rw [map_map, map_map]
    rfl
  have edge {i j : Nat} (iWithin : i < list.names.length) (jWithin : j < list.names.length) :
      i ∈ list.inedges j ↔ Precedes pairs (list.name i) (list.name j) := by
    rw [holds.edges]
    constructor
    · rintro ⟨one, other, precedes, rfl, rfl⟩
      rw [(nodeOf one ⟨_, precedes.1, .inl rfl⟩).2, (nodeOf other ⟨_, precedes.1, .inr rfl⟩).2]
      exact precedes
    · intro precedes
      exact ⟨_, _, precedes, (nameOf i iWithin).2, (nameOf j jWithin).2⟩
  refine ⟨?_, fun s => ?_, ?_⟩
  · rw [items]
    refine once.map_on fun i iIn j jIn same => ?_
    rw [← (nameOf i ((all i).1 iIn)).2, same, (nameOf j ((all j).1 jIn)).2]
  · rw [items, mem_map]
    constructor
    · rintro ⟨i, member, rfl⟩
      exact (nameOf i ((all i).1 member)).1
    · intro item
      obtain ⟨within, name⟩ := nodeOf s item
      exact ⟨_, (all _).2 within, name⟩
  · intro namedBefore namedRound namedAfter split
    obtain ⟨before, rest, rfl, rfl, restEq⟩ := map_eq_append_iff.1 split
    obtain ⟨round, after, rfl, rfl, rfl⟩ := map_eq_cons_iff.1 restEq
    have right := prints.roundRight
    have gone {i : Nat} (within : i < list.names.length) :
        list.name i ∈ (before.map (Round.map list.name)).map Round.item ↔
          i ∈ before.map Round.item := by
      rw [items, mem_map]
      constructor
      · rintro ⟨j, member, same⟩
        have jWithin : j < list.names.length := by
          refine (all j).1 ?_
          rw [map_append]
          exact mem_append_left _ member
        have equal : i = j := by rw [← (nameOf i within).2, ← same, (nameOf j jWithin).2]
        rw [equal]
        exact member
      · intro member
        exact ⟨i, member, rfl⟩
    rintro ⟨pred, precedes, waits⟩
    obtain ⟨predWithin, predName⟩ := nodeOf pred ⟨_, precedes.1, .inl rfl⟩
    obtain ⟨stuck, reported, cycle⟩ := right.order ⟨list.names.idxOf pred,
      (edge predWithin right.item.1).2 (by rw [predName]; exact precedes),
      predWithin,
      fun member => waits (predName ▸ (gone predWithin).2 member)⟩
    refine ⟨fun s item left => ?_, ?_, ?_⟩
    · obtain ⟨within, name⟩ := nodeOf s item
      obtain ⟨p, member, pWithin, pLeft⟩ := stuck (list.names.idxOf s)
        ⟨within, fun member => left (name ▸ (gone within).2 member)⟩
      refine ⟨list.name p, ?_, fun printed => pLeft ((gone pWithin).1 printed)⟩
      have precedes := (edge pWithin within).1 member
      rwa [name] at precedes
    · exact Option.isSome_map.trans reported
    · refine cycle.lift list.name fun i p back => ?_
      obtain ⟨member, ⟨iWithin, iLeft⟩, pWithin, pLeft⟩ := back
      exact ⟨(edge pWithin iWithin).1 member, fun printed => iLeft ((gone iWithin).1 printed),
        fun printed => pLeft ((gone pWithin).1 printed)⟩

example : (tsort 9 [("a", "b"), ("b", "a"), ("c", "a"), ("c", "c"), ("b", "d")]).map
    (List.map fun round => (round.cycle, round.item)) =
    some [(none, "c"), (some ["b", "a"], "a"), (none, "b"), (none, "d")] := by
  decide

end Uw7.Tsort
