import Mathlib.Data.List.Basic

namespace Uw7.Lib

/-!
# Binary search

A binary search of a list that is sorted as a comparison with the key sees it.
The interval is half open, and the fuel is the length of the list.
-/

variable {Item : Type}

/-- The loop of a binary search, on the places from `low` to before `high`.  It
returns the item, if there is one, and the place where it is or would go. -/
def binarySearchLoop (compareKey : Item → Ordering)
    (items : List Item) : Nat → Nat → Nat → Option Item × Nat
  | 0, low, _ => (none, low)
  | fuel + 1, low, high =>
    if low < high then
      match items[(low + (high - 1)) / 2]? with
      | none => (none, low)
      | some item =>
        match compareKey item with
        | .eq => (some item, (low + (high - 1)) / 2)
        | .lt => binarySearchLoop compareKey items fuel low ((low + (high - 1)) / 2)
        | .gt => binarySearchLoop compareKey items fuel ((low + (high - 1)) / 2 + 1) high
    else (none, low)

def binarySearch (compareKey : Item → Ordering) (items : List Item) : Option Item × Nat :=
  binarySearchLoop compareKey items items.length 0 items.length

/-- The list is sorted as the key sees it: after an item that is greater than the
key all are greater, and before one that is less all are less. -/
def SortedFor (compareKey : Item → Ordering) (items : List Item) : Prop :=
  items.Pairwise fun earlier later =>
    (compareKey earlier = .lt → compareKey later = .lt) ∧
      (compareKey later = .gt → compareKey earlier = .gt)

variable {compareKey : Item → Ordering} {items : List Item} {fuel low high : Nat} {item : Item}

theorem binarySearchLoop_found
    (found : (binarySearchLoop compareKey items fuel low high).1 = some item) :
    item ∈ items ∧ compareKey item = .eq := by
  induction fuel generalizing low high with
  | zero => cases found
  | succ fuel ih =>
    unfold binarySearchLoop at found
    split at found
    case isFalse => cases found
    case isTrue =>
      split at found
      case h_1 => cases found
      case h_2 middle there =>
        split at found
        case h_1 same =>
          cases found
          exact ⟨List.mem_of_getElem? there, same⟩
        case h_2 => exact ih found
        case h_3 => exact ih found

theorem binarySearch_found (found : (binarySearch compareKey items).1 = some item) :
    item ∈ items ∧ compareKey item = .eq :=
  binarySearchLoop_found found

theorem binarySearchLoop_finds (sorted : SortedFor compareKey items) {place : Nat}
    (there : items[place]? = some item) (same : compareKey item = .eq) (above : low ≤ place)
    (below : place < high) (inside : high ≤ items.length) (enough : high - low ≤ fuel) :
    ∃ found, (binarySearchLoop compareKey items fuel low high).1 = some found := by
  induction fuel generalizing low high with
  | zero => omega
  | succ fuel ih =>
    unfold binarySearchLoop
    rw [if_pos (by omega)]
    have within : (low + (high - 1)) / 2 < items.length := by omega
    rw [List.getElem?_eq_getElem within]
    have reached := List.pairwise_iff_getElem.1 sorted
    obtain ⟨placed, rfl⟩ := List.getElem?_eq_some_iff.1 there
    simp only
    split
    case h_1 => exact ⟨_, rfl⟩
    case h_2 less =>
      -- the key is below the middle item, so its place is
      have before : place < (low + (high - 1)) / 2 := by
        by_contra notBefore
        rcases Nat.lt_or_eq_of_le (Nat.le_of_not_lt notBefore) with
          after | at'
        · have := (reached _ _ within placed after).1 less
          rw [same] at this
          cases this
        · simp only [at', same] at less
          cases less
      exact ih above before (by omega) (by omega)
    case h_3 greater =>
      have after : (low + (high - 1)) / 2 < place := by
        by_contra notAfter
        rcases Nat.lt_or_eq_of_le (Nat.le_of_not_lt notAfter) with
          before | at'
        · have := (reached _ _ placed within before).2 greater
          rw [same] at this
          cases this
        · simp only [← at', same] at greater
          cases greater
      exact ih (by omega) below inside (by omega)

theorem binarySearch_finds (sorted : SortedFor compareKey items) (member : item ∈ items)
    (same : compareKey item = .eq) : ∃ found, (binarySearch compareKey items).1 = some found := by
  obtain ⟨place, there⟩ := List.getElem?_of_mem member
  have placed := (List.getElem?_eq_some_iff.1 there).1
  exact binarySearchLoop_finds sorted there same (Nat.zero_le _) placed (Nat.le_refl _) (by omega)

end Uw7.Lib
