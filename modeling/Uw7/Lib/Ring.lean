import Mathlib.Data.List.Nodup

namespace Uw7.Lib

/-!
# Circular lists with links in both directions

Every node has a forward and a backward link.  A ring is a list of different
nodes whose links lead from each node to the next one and back, and from the
last node to the first.  Nodes are added behind the last node or behind the
first one and unlinked anywhere; the links of other nodes do not matter.
-/

open Function List

namespace Ring

variable {Node : Type}

def Linked (flink blink : Node → Node) : Node → List Node → Node → Prop
  | first, [], last => flink first = last ∧ blink last = first
  | first, node :: rest, last =>
    flink first = node ∧ blink node = first ∧ Linked flink blink node rest last

def IsRing (flink blink : Node → Node) : List Node → Prop
  | [] => True
  | head :: rest => (head :: rest).Nodup ∧ Linked flink blink head rest head

/-- Follow the links until a node is accepted, over `count` nodes. -/
def seek (flink : Node → Node) (accept : Node → Bool) : Nat → Node → Option Node
  | 0, _ => none
  | count + 1, node =>
    if accept node then some node
    else seek flink accept count (flink node)

variable {flink blink flink' blink' : Node → Node}
  {first last head node : Node} {rest nodes : List Node}

theorem seek_more {accept : Node → Bool} {count more : Nat}
    (found : seek flink accept count first = some node) (atLeast : count ≤ more) :
    seek flink accept more first = some node := by
  induction count generalizing first more with
  | zero => cases found
  | succ count ih =>
    obtain ⟨more, rfl⟩ := Nat.exists_eq_succ_of_ne_zero
      (Nat.ne_of_gt (Nat.lt_of_lt_of_le (Nat.succ_pos count) atLeast))
    unfold seek at found ⊢
    cases accepted : accept first with
    | true =>
      rw [accepted] at found
      exact found
    | false =>
      rw [accepted] at found
      exact ih found (Nat.le_of_succ_le_succ atLeast)

theorem linked_append {middle : Node} {later : List Node} :
    Linked flink blink first (rest ++ middle :: later) last ↔ Linked flink blink first rest middle ∧
      Linked flink blink middle later last := by
  induction rest generalizing first with
  | nil => simp only [nil_append, Linked, and_assoc]
  | cons node rest ih => simp only [cons_append, Linked, ih, and_assoc]

theorem Linked.congr (linked : Linked flink blink first rest last)
    (sameForward : ∀ node ∈ first :: rest, flink' node = flink node)
    (sameBackward : ∀ node ∈ rest ++ [last], blink' node = blink node) :
    Linked flink' blink' first rest last := by
  induction rest generalizing first with
  | nil =>
    obtain ⟨forward, backward⟩ := linked
    refine ⟨?_, ?_⟩
    · rw [sameForward first (by simp), forward]
    · rw [sameBackward last (by simp), backward]
  | cons node rest ih =>
    obtain ⟨forward, backward, linked⟩ := linked
    refine ⟨?_, ?_, ih linked ?_ ?_⟩
    · rw [sameForward first (by simp), forward]
    · rw [sameBackward node (by simp), backward]
    · exact fun other member => sameForward other (mem_cons_of_mem _ member)
    · exact fun other member => sameBackward other (mem_cons_of_mem _ member)

section

variable (linked : Linked flink blink first rest last)
include linked

theorem Linked.blink_mem : blink last ∈ first :: rest := by
  induction rest generalizing first with
  | nil =>
    rw [linked.2]
    exact mem_singleton_self first
  | cons node rest ih => exact mem_cons_of_mem _ (ih linked.2.2)

theorem Linked.flink_blink : flink (blink last) = last := by
  induction rest generalizing first with
  | nil =>
    rw [linked.2]
    exact linked.1
  | cons node rest ih => exact ih linked.2.2

theorem Linked.blink_eq : blink last = (first :: rest).getLast (cons_ne_nil first rest) := by
  induction rest generalizing first with
  | nil => exact linked.2
  | cons node rest ih => exact ih linked.2.2

end

theorem Linked.replaceLast [DecidableEq Node] (linked : Linked flink blink first rest last)
    (noDuplicates : (first :: rest).Nodup) (fresh : node ∉ rest) :
    Linked (update flink (blink last) node) (update blink node (blink last)) first rest node := by
  induction rest generalizing first with
  | nil =>
    obtain ⟨-, backward⟩ := linked
    rw [backward]
    exact ⟨update_self _ _ _, update_self _ _ _⟩
  | cons following rest ih =>
    obtain ⟨forward, backward, linked⟩ := linked
    obtain ⟨notIn, noDuplicates⟩ := nodup_cons.mp noDuplicates
    have inRest := linked.blink_mem
    have notFirst : first ≠ blink last := by
      rintro rfl
      exact notIn inRest
    have notNode : following ≠ node := by
      rintro rfl
      exact fresh (mem_cons_self ..)
    refine ⟨?_, ?_, ih linked noDuplicates ?_⟩
    · rw [update_of_ne notFirst, forward]
    · rw [update_of_ne notNode, backward]
    · exact fun member => fresh (mem_cons_of_mem _ member)

theorem Linked.seek_eq (linked : Linked flink blink first rest last) (accept : Node → Bool) :
    seek flink accept (rest.length + 1) first = (first :: rest).find? accept := by
  induction rest generalizing first with
  | nil =>
    simp only [length_nil, seek, List.find?]
    cases accept first <;> rfl
  | cons node rest ih =>
    obtain ⟨forward, -, linked⟩ := linked
    rw [length_cons, seek, forward, ih linked]
    cases accepted : accept first <;> simp [List.find?, accepted]

theorem IsRing.nodup (ring : IsRing flink blink nodes) : nodes.Nodup := by
  cases nodes with
  | nil => exact nodup_nil
  | cons head rest => exact ring.1

theorem IsRing.congr (ring : IsRing flink blink nodes)
    (sameForward : ∀ node ∈ nodes, flink' node = flink node)
    (sameBackward : ∀ node ∈ nodes, blink' node = blink node) : IsRing flink' blink' nodes := by
  cases nodes with
  | nil => trivial
  | cons head rest =>
    refine ⟨ring.1, ring.2.congr sameForward fun node member => ?_⟩
    refine sameBackward node ?_
    simp only [mem_append, mem_singleton] at member
    rcases member with inRest | rfl
    · exact mem_cons_of_mem _ inRest
    · exact mem_cons_self ..

theorem IsRing.rotate {later : List Node}
    (ring : IsRing flink blink (head :: rest ++ node :: later)) :
    IsRing flink blink (node :: later ++ head :: rest) := by
  have noDuplicates := ring.nodup
  refine ⟨?_, ?_⟩
  · exact (perm_append_comm.nodup_iff).mp noDuplicates
  · obtain ⟨before, after⟩ := linked_append.mp ring.2
    exact linked_append.mpr ⟨after, before⟩

theorem IsRing.seek_eq (ring : IsRing flink blink (head :: rest)) (accept : Node → Bool) :
    seek flink accept (head :: rest).length head = (head :: rest).find? accept :=
  ring.2.seek_eq accept

theorem IsRing.flink_head (ring : IsRing flink blink (head :: node :: rest)) : flink head = node :=
  ring.2.1

section

variable (ring : IsRing flink blink nodes) (member : node ∈ nodes)
include ring member

theorem IsRing.blink_mem : blink node ∈ nodes := by
  obtain ⟨before, after, rfl⟩ := append_of_mem member
  cases before with
  | nil => exact ring.2.blink_mem
  | cons head before =>
    have inRotated := ring.rotate.2.blink_mem
    exact perm_append_comm.mem_iff.mp inRotated

theorem IsRing.flink_mem : flink node ∈ nodes := by
  have fromHead : ∀ later, IsRing flink blink (node :: later) → flink node ∈ node :: later := by
    intro later ring
    cases later with
    | nil =>
      rw [ring.2.1]
      exact mem_singleton_self node
    | cons following later =>
      rw [ring.flink_head]
      simp
  obtain ⟨before, after, rfl⟩ := append_of_mem member
  cases before with
  | nil => exact fromHead after ring
  | cons head before =>
    have inRotated := fromHead _ ring.rotate
    exact perm_append_comm.mem_iff.mp inRotated

theorem IsRing.flink_eq_self : flink node = node ↔ nodes = [node] := by
  constructor
  · intro same
    have fromHead : ∀ later, IsRing flink blink (node :: later) → later = [] := by
      intro later ring
      cases later with
      | nil => rfl
      | cons following later =>
        have distinct := (nodup_cons.mp ring.1).1
        rw [← ring.flink_head, same] at distinct
        exact absurd (mem_cons_self ..) distinct
    obtain ⟨before, after, rfl⟩ := append_of_mem member
    cases before with
    | nil =>
      rw [fromHead after ring]
      rfl
    | cons head before =>
      have noRest := fromHead _ ring.rotate
      simp at noRest
  · rintro rfl
    exact ring.2.1

end

section Changes

variable [DecidableEq Node]

/-- The forward links once a node is linked in behind the last one. -/
def addFlink (flink blink : Node → Node) (head node : Node) : Node → Node :=
  update (update flink (blink head) node) node head

/-- The backward links once a node is linked in behind the last one. -/
def addBlink (blink : Node → Node) (head node : Node) : Node → Node :=
  update (update blink head node) node (blink head)

theorem IsRing.add (ring : IsRing flink blink (head :: rest)) (fresh : node ∉ head :: rest) :
    IsRing (addFlink flink blink head node) (addBlink blink head node)
      (head :: rest ++ [node]) := by
  obtain ⟨noDuplicates, linked⟩ := ring
  have notHead : head ≠ node := by
    rintro rfl
    exact fresh (mem_cons_self ..)
  refine ⟨?_, ?_⟩
  · refine nodup_append.mpr ⟨noDuplicates, nodup_singleton node, ?_⟩
    rintro other member _ (isNode | ⟨_, ⟨⟩⟩) rfl
    exact fresh member
  · refine linked_append.mpr ⟨?_, ?_, ?_⟩
    · have replaced := linked.replaceLast noDuplicates
          fun member => fresh (mem_cons_of_mem _ member)
      refine replaced.congr (fun other member => ?_) fun other member => ?_
      · have different : other ≠ node := by
          rintro rfl
          exact fresh member
        rw [addFlink, update_of_ne different]
      · simp only [mem_append, mem_singleton] at member
        rcases member with inRest | rfl
        · have different : other ≠ node := by
            rintro rfl
            exact fresh (mem_cons_of_mem _ inRest)
          have notFirst : other ≠ head := by
            rintro rfl
            exact (nodup_cons.mp noDuplicates).1 inRest
          rw [addBlink, update_of_ne different, update_of_ne notFirst, update_of_ne different]
        · rw [addBlink, update_self, update_self]
    · exact update_self _ _ _
    · rw [addBlink, update_of_ne notHead, update_self]

/-- The forward links once a node is unlinked and linked to itself. -/
def unlinkFlink (flink blink : Node → Node) (node : Node) : Node → Node :=
  update (update flink (blink node) (flink node)) node node

/-- The backward links once a node is unlinked and linked to itself. -/
def unlinkBlink (flink blink : Node → Node) (node : Node) : Node → Node :=
  update (update blink (flink node) (blink node)) node node

theorem IsRing.unlinkHead (ring : IsRing flink blink (node :: rest)) :
    IsRing (unlinkFlink flink blink node) (unlinkBlink flink blink node)
      rest := by
  obtain ⟨noDuplicates, linked⟩ := ring
  obtain ⟨notIn, restNodup⟩ := nodup_cons.mp noDuplicates
  cases rest with
  | nil => trivial
  | cons following rest =>
    obtain ⟨forward, -, linked⟩ := linked
    have replaced := linked.replaceLast restNodup (nodup_cons.mp restNodup).1
    refine ⟨restNodup, replaced.congr (fun other member => ?_) fun other member => ?_⟩
    · have different : other ≠ node := by
        rintro rfl
        exact notIn member
      rw [unlinkFlink, update_of_ne different, forward]
    · have different : other ≠ node := by
        rintro rfl
        simp only [mem_append, mem_singleton] at member
        rcases member with inRest | rfl
        · exact notIn (mem_cons_of_mem _ inRest)
        · exact notIn (mem_cons_self ..)
      rw [unlinkBlink, update_of_ne different, forward]

theorem IsRing.unlinkBetween {before after : List Node}
    (ring : IsRing flink blink (before ++ node :: after)) :
    IsRing (unlinkFlink flink blink node) (unlinkBlink flink blink node) (before ++ after) := by
  cases before with
  | nil => exact ring.unlinkHead
  | cons head before =>
    have unlinked := ring.rotate.unlinkHead
    cases after with
    | nil =>
      rw [append_nil]
      exact unlinked
    | cons following after => exact unlinked.rotate

theorem IsRing.unlink (ring : IsRing flink blink nodes) (member : node ∈ nodes) :
    IsRing (unlinkFlink flink blink node) (unlinkBlink flink blink node) (nodes.erase node) := by
  obtain ⟨before, after, rfl⟩ := append_of_mem member
  have notBefore : node ∉ before := by
    intro inBefore
    exact disjoint_of_nodup_append ring.nodup inBefore (mem_cons_self ..)
  rw [erase_append_right _ notBefore, erase_cons_head]
  exact ring.unlinkBetween

theorem IsRing.unlink_apart {others : List Node} (ring : IsRing flink blink nodes)
    (member : node ∈ nodes) (other : IsRing flink blink others)
    (apart : ∀ entry ∈ others, entry ∉ nodes) :
    IsRing (unlinkFlink flink blink node) (unlinkBlink flink blink node)
      others := by
  refine other.congr (fun entry inOthers => ?_) fun entry inOthers => ?_
  · have notNode : entry ≠ node := by
      rintro rfl
      exact apart entry inOthers member
    have notBefore : entry ≠ blink node := by
      rintro rfl
      exact apart _ inOthers (ring.blink_mem member)
    rw [unlinkFlink, update_of_ne notNode, update_of_ne notBefore]
  · have notNode : entry ≠ node := by
      rintro rfl
      exact apart entry inOthers member
    have notBehind : entry ≠ flink node := by
      rintro rfl
      exact apart _ inOthers (ring.flink_mem member)
    rw [unlinkBlink, update_of_ne notNode, update_of_ne notBehind]

/-- The forward links once a node is linked in behind the first one. -/
def insertFlink (flink : Node → Node) (head node : Node) : Node → Node :=
  update (update flink head node) node (flink head)

/-- The backward links once a node is linked in behind the first one. -/
def insertBlink (flink blink : Node → Node) (head node : Node) : Node → Node :=
  update (update blink (flink head) node) node head

theorem IsRing.insert (ring : IsRing flink blink (head :: rest)) (fresh : node ∉ head :: rest) :
    IsRing (insertFlink flink head node) (insertBlink flink blink head node)
      (head :: node :: rest) := by
  cases rest with
  | nil =>
    have forward : flink head = head := ring.2.1
    have backward : blink head = head := ring.2.2
    have added := ring.add fresh
    rw [addFlink, addBlink, backward] at added
    rw [insertFlink, insertBlink, forward]
    exact added
  | cons first rest =>
    have forward : flink head = first := ring.2.1
    have backward : blink first = head := ring.2.2.1
    have rotated : IsRing flink blink (first :: rest ++ [head]) :=
      @IsRing.rotate Node flink blink head first [] rest ring
    have stillFresh : node ∉ first :: rest ++ [head] := by
      intro member
      exact fresh ((perm_append_singleton head (first :: rest)).mem_iff.mp member)
    have added := rotated.add stillFresh
    rw [addFlink, addBlink, backward] at added
    rw [insertFlink, insertBlink, forward]
    have shape : first :: rest ++ [head] ++ [node] = first :: rest ++ head :: [node] := by simp
    exact IsRing.rotate (shape ▸ added)

theorem IsRing.insert_apart {others : List Node} (ring : IsRing flink blink (head :: rest))
    (other : IsRing flink blink others) (fresh : node ∉ others)
    (apart : ∀ entry ∈ others, entry ∉ head :: rest) :
    IsRing (insertFlink flink head node) (insertBlink flink blink head node)
      others := by
  have isHead : head ∈ head :: rest := mem_cons_self ..
  refine other.congr (fun entry inOthers => ?_) fun entry inOthers => ?_
  · have notNode : entry ≠ node := by
      rintro rfl
      exact fresh inOthers
    have notHead : entry ≠ head := by
      rintro rfl
      exact apart entry inOthers isHead
    rw [insertFlink, update_of_ne notNode, update_of_ne notHead]
  · have notNode : entry ≠ node := by
      rintro rfl
      exact fresh inOthers
    have notFirst : entry ≠ flink head := by
      rintro rfl
      exact apart _ inOthers (ring.flink_mem isHead)
    rw [insertBlink, update_of_ne notNode, update_of_ne notFirst]

end Changes

end Ring

end Uw7.Lib
