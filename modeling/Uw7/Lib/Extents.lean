import Mathlib.Order.Lattice
import Mathlib.Data.List.Pairwise

namespace Uw7.Lib

/-!
# Maps of disjoint extents

An extent is a nonempty half-open range of natural numbers that carries a value.  A map
holds extents in ascending order, none overlapping another.  Its operations ask whether
a range is free, find the extent that covers a point, remove a range and insert an
extent in a free range.
-/

open List

/-- The points from `start` up to but not including `start + size`. -/
structure Extent (Value : Type) where
  start : Nat
  size : Nat
  value : Value
  deriving DecidableEq

namespace Extent

/-- The first point past the extent. -/
def stop (extent : Extent Value) : Nat := extent.start + extent.size

def Contains (extent : Extent Value) (point : Nat) : Prop :=
  extent.start ≤ point ∧ point < extent.stop

instance (extent : Extent Value) (point : Nat) : Decidable (extent.Contains point) :=
  inferInstanceAs (Decidable (_ ∧ _))

/-- The pieces of an extent outside the range from `low` up to `high`. -/
def cut (low high : Nat) (extent : Extent Value) : List (Extent Value) :=
  (if extent.start < min low extent.stop then
    [{ extent with size := min low extent.stop - extent.start }]
  else []) ++
  (if max high extent.start < extent.stop then
    [{ extent with
        start := max high extent.start
        size := extent.stop - max high extent.start }]
  else [])

variable {low high : Nat}

theorem mem_cut {extent piece : Extent Value}
    (member : piece ∈ extent.cut low high) : 0 < piece.size ∧ piece.value = extent.value ∧
      extent.start ≤ piece.start ∧ piece.stop ≤ extent.stop ∧
      (piece.stop ≤ low ∨ high ≤ piece.start) := by
  rcases mem_append.mp member with before | after
  · split at before
    · obtain rfl := mem_singleton.mp before
      refine ⟨?_, rfl, Nat.le_refl _, ?_, .inl ?_⟩ <;> simp only [stop] at * <;> omega
    · simp at before
  · split at after
    · obtain rfl := mem_singleton.mp after
      refine ⟨?_, rfl, ?_, ?_, .inr ?_⟩ <;> simp only [stop] at * <;> omega
    · simp at after

theorem cut_contains (extent : Extent Value) (point : Nat) :
    (∃ piece ∈ extent.cut low high, piece.Contains point) ↔
      extent.Contains point ∧ ¬ (low ≤ point ∧ point < high) := by
  constructor
  · rintro ⟨piece, member, inside⟩
    have facts := mem_cut member
    simp only [Contains] at *
    omega
  · rintro ⟨inside, outside⟩
    by_cases before : point < low
    · refine ⟨{ extent with
        size := min low extent.stop - extent.start }, ?_, ?_⟩
      · refine mem_append_left _ ?_
        rw [if_pos (by simp only [Contains] at inside; omega)]
        simp
      · simp only [Contains, stop] at *
        omega
    · refine ⟨{ extent with
        start := max high extent.start
        size := extent.stop - max high extent.start }, ?_, ?_⟩
      · refine mem_append_right _ ?_
        rw [if_pos (by simp only [Contains] at inside; omega)]
        simp
      · simp only [Contains, stop] at *
        omega

theorem cut_apart (ordered : low ≤ high) (extent : Extent Value) :
    (extent.cut low high).Pairwise fun first second => first.stop ≤ second.start := by
  unfold cut
  split <;> split <;> simp [stop]
  omega

end Extent

/-- Nonempty extents in ascending order that do not overlap. -/
structure ExtentMap (Value : Type) where
  extents : List (Extent Value)
  sized : ∀ extent ∈ extents, 0 < extent.size
  apart : extents.Pairwise fun first second =>
      first.stop ≤ second.start

namespace ExtentMap

def Covers (map : ExtentMap Value) (point : Nat) : Prop :=
  ∃ extent ∈ map.extents, extent.Contains point

/-- No extent of the map has a point in common with the range. -/
def isFree (map : ExtentMap Value) (low size : Nat) : Bool := map.extents.all fun extent =>
    decide (min extent.stop (low + size) ≤ max extent.start low)

variable (map : ExtentMap Value)

theorem isFree_iff (low size : Nat) : map.isFree low size = true ↔
    ∀ point, low ≤ point → point < low + size → ¬ map.Covers point := by
  simp only [isFree, all_eq_true, decide_eq_true_eq]
  constructor
  · rintro free point above below ⟨extent, member, inside⟩
    have apart := free extent member
    simp only [Extent.Contains] at inside
    omega
  · intro free extent member
    by_contra overlaps
    refine free (max extent.start low) (by omega) (by omega) ⟨extent, member, ?_, ?_⟩ <;> omega

variable {map : ExtentMap Value} {low size : Nat} {added : Extent Value}

theorem isFree_part {part : Nat} (free : map.isFree low size = true) (fits : part ≤ size) :
    map.isFree low part = true := by
  rw [isFree_iff] at *
  exact fun point above below => free point above (by omega)

theorem isFree_join {first second whole : Nat} (freeFirst : map.isFree low first = true)
    (freeSecond : map.isFree (low + first) second = true) (fits : whole ≤ first + second) :
    map.isFree low whole = true := by
  rw [isFree_iff] at *
  intro point above below
  by_cases inFirst : point < low + first
  · exact freeFirst point above inFirst
  · exact freeSecond point (by omega) (by omega)

def locate (map : ExtentMap Value) (point : Nat) : Option (Extent Value) :=
  map.extents.find? fun extent => decide (extent.Contains point)

theorem contains_unique {first second : Extent Value}
    (firstMember : first ∈ map.extents) (secondMember : second ∈ map.extents) {point : Nat}
    (inFirst : first.Contains point) (inSecond : second.Contains point) :
    first = second := by
  have together : ∀ first second : Extent Value, first.stop ≤ second.start →
      ∀ point, ¬ (first.Contains point ∧ second.Contains point) := by
    intro first second apart point both
    simp only [Extent.Contains] at both
    omega
  refine List.Pairwise.forall_of_forall_of_flip (R := fun first second =>
    ∀ point, first.Contains point → second.Contains point → first = second)
    (fun _ _ _ _ _ => rfl) (map.apart.imp fun apart point inFirst inSecond =>
      absurd ⟨inFirst, inSecond⟩ (together _ _ apart point))
    (map.apart.imp fun apart point inSecond inFirst =>
      absurd ⟨inFirst, inSecond⟩ (together _ _ apart point))
    firstMember secondMember point inFirst inSecond

theorem locate_eq_some (point : Nat) (extent : Extent Value) :
    map.locate point = some extent ↔ extent ∈ map.extents ∧ extent.Contains point := by
  constructor
  · intro located
    have inside := List.find?_some located
    exact ⟨List.mem_of_find?_eq_some located, by simpa using inside⟩
  · rintro ⟨member, inside⟩
    unfold locate
    cases found : map.extents.find? (fun extent => decide (extent.Contains point)) with
    | none =>
      have misses := List.find?_eq_none.mp found extent member
      simp [inside] at misses
    | some other =>
      have otherInside : other.Contains point := by simpa using List.find?_some found
      rw [map.contains_unique (List.mem_of_find?_eq_some found) member otherInside inside]

/-- The map without the points of a range. -/
def remove (map : ExtentMap Value) (low size : Nat) : ExtentMap Value where
  extents := map.extents.flatMap (Extent.cut low (low + size))
  sized := by
    intro piece member
    obtain ⟨extent, _, inCut⟩ := mem_flatMap.mp member
    exact (Extent.mem_cut inCut).1
  apart := by
    refine pairwise_flatMap.mpr ⟨?_, ?_⟩
    · intro extent _
      exact Extent.cut_apart (Nat.le_add_right low size) extent
    · refine map.apart.imp ?_
      intro first second apart firstPiece inFirst secondPiece inSecond
      have firstFacts := Extent.mem_cut inFirst
      have secondFacts := Extent.mem_cut inSecond
      omega

theorem remove_covers (low size point : Nat) : (map.remove low size).Covers point ↔
      map.Covers point ∧ ¬ (low ≤ point ∧ point < low + size) := by
  constructor
  · rintro ⟨piece, member, inside⟩
    obtain ⟨extent, inMap, inCut⟩ := mem_flatMap.mp member
    have facts := (Extent.cut_contains extent point).mp ⟨piece, inCut, inside⟩
    exact ⟨⟨extent, inMap, facts.1⟩, facts.2⟩
  · rintro ⟨⟨extent, inMap, inside⟩, outside⟩
    obtain ⟨piece, inCut, inPiece⟩ := (Extent.cut_contains extent point).mpr ⟨inside, outside⟩
    exact ⟨piece, mem_flatMap.mpr ⟨extent, inMap, inCut⟩, inPiece⟩

theorem remove_isFree (low size : Nat) : (map.remove low size).isFree low size = true := by
  rw [isFree_iff]
  intro point above below covered
  exact ((map.remove_covers low size point).mp covered).2 ⟨above, below⟩

theorem isFree_remove (free : map.isFree low size = true) (removedLow removedSize : Nat) :
    (map.remove removedLow removedSize).isFree low size = true := by
  rw [isFree_iff] at *
  intro point above below covered
  exact free point above below ((map.remove_covers removedLow removedSize point).mp covered).1

/-- The list with an extent added before the first one that starts after it. -/
def place (added : Extent Value) : List (Extent Value) → List (Extent Value)
  | [] => [added]
  | extent :: rest =>
    if extent.start < added.start then extent :: place added rest
    else added :: extent :: rest

theorem mem_place {extent : Extent Value} (extents : List (Extent Value)) :
    extent ∈ place added extents ↔ extent = added ∨ extent ∈ extents := by
  induction extents with
  | nil => simp [place]
  | cons head rest ih =>
    unfold place
    split
    · simp [ih, or_left_comm]
    · simp

theorem place_apart (sized : 0 < added.size) {extents : List (Extent Value)}
    (apart : extents.Pairwise fun first second => first.stop ≤ second.start)
    (clear : ∀ extent ∈ extents, 0 < extent.size ∧
      (extent.stop ≤ added.start ∨ added.stop ≤ extent.start)) :
    (place added extents).Pairwise fun first second => first.stop ≤ second.start := by
  induction extents with
  | nil => simp [place]
  | cons head rest ih =>
    obtain ⟨headApart, restApart⟩ := pairwise_cons.mp apart
    have headClear := clear head (by simp)
    unfold place
    split
    · refine pairwise_cons.mpr ⟨?_, ih restApart fun extent member =>
        clear extent (by simp [member])⟩
      intro extent member
      rcases (mem_place rest).mp member with isAdded | inRest
      · subst extent
        simp only [Extent.stop] at *
        omega
      · exact headApart extent inRest
    · refine pairwise_cons.mpr ⟨?_, apart⟩
      intro extent member
      rcases mem_cons.mp member with isHead | inRest
      · subst extent
        simp only [Extent.stop] at *
        omega
      · have after := headApart extent inRest
        simp only [Extent.stop] at *
        omega

def insert (map : ExtentMap Value) (added : Extent Value) (sized : 0 < added.size)
    (free : map.isFree added.start added.size = true) : ExtentMap Value where
  extents := place added map.extents
  sized := by
    intro extent member
    rcases (mem_place map.extents).mp member with isAdded | inMap
    · subst extent
      exact sized
    · exact map.sized extent inMap
  apart := by
    refine place_apart sized map.apart ?_
    intro extent member
    have positive := map.sized extent member
    have clear := of_decide_eq_true (all_eq_true.mp free extent member)
    simp only [Extent.stop] at *
    omega

end ExtentMap

end Uw7.Lib
