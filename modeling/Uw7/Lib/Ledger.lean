import Mathlib.Data.Finset.Card
import Mathlib.Algebra.Order.Ring.Int

namespace Uw7.Lib

/-!
# A set recorded twice

A ledger keeps the free ones among finitely many items in a map of the taken
items and in a count.  Both records stay right when an item that is not free is
given back, when a free item is taken, and when an item is relabelled without
becoming free or taken.
-/

open Finset

variable {Item : Type}

/-- The map and the count record which items are free. -/
structure Ledger (items : Finset Item) (free : Item → Bool) (taken : Item → Bool)
    (count : Int) : Prop where
  map : ∀ item ∈ items, taken item = !free item
  counted : count = (items.filter fun item => free item).card

namespace Ledger

variable {items : Finset Item} {free free' taken taken' : Item → Bool} {count : Int} {item : Item}

theorem congr (ledger : Ledger items free taken count)
    (sameFree : ∀ other ∈ items, free' other = free other)
    (sameTaken : ∀ other ∈ items, taken' other = taken other) :
    Ledger items free' taken' count where
  map := by
    intro other inItems
    rw [sameFree other inItems, sameTaken other inItems]
    exact ledger.map other inItems
  counted := by
    rw [ledger.counted]
    congr 2
    refine filter_congr fun other inItems => ?_
    rw [sameFree other inItems]

theorem filter_release [DecidableEq Item] (isItem : item ∈ items) (nowFree : free' item = true)
    (others : ∀ other ∈ items, other ≠ item → free' other = free other) :
    (items.filter fun other => free' other) =
      insert item (items.filter fun other => free other) := by
  ext other
  simp only [mem_filter, mem_insert]
  by_cases same : other = item
  · subst other
    simp [isItem, nowFree]
  · simp only [same, false_or]
    exact and_congr_right fun inItems => by rw [others other inItems same]

theorem noneFree (notFree : ∀ item ∈ items, free item = false)
    (allTaken : ∀ item ∈ items, taken item = true) : Ledger items free taken 0 where
  map := by
    intro item inItems
    rw [notFree item inItems, allTaken item inItems]
    rfl
  counted := by
    have empty : (items.filter fun item => free item) = ∅ :=
      filter_eq_empty_iff.mpr fun item inItems => by simp [notFree item inItems]
    rw [empty]
    rfl

theorem allFree (isFree : ∀ item ∈ items, free item = true)
    (noneTaken : ∀ item ∈ items, taken item = false) : Ledger items free taken items.card where
  map := by
    intro item inItems
    rw [isFree item inItems, noneTaken item inItems]
    rfl
  counted := by rw [filter_true_of_mem isFree]

section

variable (ledger : Ledger items free taken count)
include ledger

theorem count_eq_card_iff :
    count = items.card ↔ ∀ item ∈ items, taken item = false := by
  rw [ledger.counted, Nat.cast_inj, card_filter_eq_iff]
  refine forall₂_congr fun item inItems => ?_
  simp [ledger.map item inItems]

theorem release [DecidableEq Item] (isItem : item ∈ items)
    (notFree : free item = false) (nowFree : free' item = true)
    (others : ∀ other ∈ items, other ≠ item → free' other = free other)
    (cleared : taken' item = false)
    (kept : ∀ other ∈ items, other ≠ item → taken' other = taken other) :
    Ledger items free' taken' (count + 1) where
  map := by
    intro other inItems
    by_cases same : other = item
    · subst other
      rw [cleared, nowFree]
      rfl
    · rw [others other inItems same, kept other inItems same]
      exact ledger.map other inItems
  counted := by
    rw [filter_release isItem nowFree others,
      card_insert_of_notMem (by simp [notFree]), ledger.counted]
    omega

theorem take [DecidableEq Item] (isItem : item ∈ items)
    (wasFree : free item = true) (notFree : free' item = false)
    (others : ∀ other ∈ items, other ≠ item → free' other = free other) (set : taken' item = true)
    (kept : ∀ other ∈ items, other ≠ item → taken' other = taken other) :
    Ledger items free' taken' (count - 1) where
  map := by
    intro other inItems
    by_cases same : other = item
    · subst other
      rw [set, notFree]
      rfl
    · rw [others other inItems same, kept other inItems same]
      exact ledger.map other inItems
  counted := by
    have before := filter_release isItem wasFree fun other inItems different =>
        (others other inItems different).symm
    rw [ledger.counted, before, card_insert_of_notMem (by simp [notFree])]
    omega

theorem relabel [DecidableEq Item]
    (notFree : item ∈ items → free item = false) (stillNot : item ∈ items → free' item = false)
    (others : ∀ other ∈ items, other ≠ item → free' other = free other) :
    Ledger items free' taken count := by
  refine ledger.congr (fun other inItems => ?_) fun _ _ => rfl
  by_cases same : other = item
  · subst other
    rw [notFree inItems, stillNot inItems]
  · exact others other inItems same

theorem insert [DecidableEq Item] (fresh : item ∉ items)
    (isTaken : taken item = true) (notFree : free' item = false)
    (others : ∀ other ∈ items, free' other = free other) :
    Ledger (insert item items) free' taken count where
  map := by
    intro other inItems
    rcases mem_insert.mp inItems with rfl | inRest
    · rw [isTaken, notFree]
      rfl
    · rw [others other inRest]
      exact ledger.map other inRest
  counted := by
    rw [ledger.counted, filter_insert, if_neg (by simp [notFree])]
    congr 2
    refine filter_congr fun other inItems => ?_
    rw [others other inItems]

theorem count_eq_zero_iff :
    count = 0 ↔ ∀ item ∈ items, taken item = true := by
  rw [ledger.counted]
  simp only [Nat.cast_eq_zero, card_eq_zero, filter_eq_empty_iff]
  refine forall₂_congr fun item inItems => ?_
  simp [ledger.map item inItems]

end

end Ledger

end Uw7.Lib
