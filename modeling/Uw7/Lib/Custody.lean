import Mathlib.Data.List.Count

namespace Uw7.Lib

/-!
# Taking and giving back

A log of the items that are taken and given back.  At its end each item that was
taken should have been given back once, and nothing else.
-/

open List

/-- One entry of a log. -/
inductive Transfer (Item : Type) where
  | take (item : Item)
  | giveBack (item : Item)
  deriving DecidableEq

variable {Item : Type} [DecidableEq Item]

structure AllGivenBack (log : List (Transfer Item)) : Prop where
  once : ∀ item, Transfer.take item ∈ log →
      log.count (.take item) = 1 ∧ log.count (.giveBack item) = 1
  own : ∀ item earlier later, log = earlier ++ Transfer.giveBack item :: later →
      Transfer.take item ∈ earlier

structure Custody (log : List (Transfer Item)) (held : Item → Prop) : Prop where
  taken : ∀ item, log.count (.take item) ≤ 1
  holds : ∀ item, held item → Transfer.take item ∈ log ∧ log.count (.giveBack item) = 0
  returned : ∀ item, Transfer.take item ∈ log → ¬held item → log.count (.giveBack item) = 1
  own : ∀ item earlier later, log = earlier ++ Transfer.giveBack item :: later →
      Transfer.take item ∈ earlier

namespace Custody

variable {log : List (Transfer Item)} {held held' : Item → Prop} {item : Item}

theorem nil : Custody ([] : List (Transfer Item)) fun _ => False := by
  refine ⟨fun _ => Nat.zero_le _, fun _ isHeld => isHeld.elim, ?_, ?_⟩
  · intro item isTaken
    cases isTaken
  · intro item earlier later split
    cases earlier <;> cases split

section

variable (custody : Custody log held)
include custody

theorem congr (same : ∀ item, held' item ↔ held item) :
    Custody log held' := by
  have equal : held' = held := funext fun item => propext (same item)
  rw [equal]
  exact custody

theorem mem_of_held (isHeld : held item) : Transfer.take item ∈ log := (custody.holds item isHeld).1

theorem own_concat {last : Transfer Item}
    (isOwn : ∀ item, last = .giveBack item → Transfer.take item ∈ log) (item : Item)
    (earlier later : List (Transfer Item))
    (split : log ++ [last] = earlier ++ Transfer.giveBack item :: later) :
    Transfer.take item ∈ earlier := by
  cases eq_nil_or_concat later with
  | inl noLater =>
    rw [noLater] at split
    obtain ⟨sameLog, sameLast⟩ := append_inj' split rfl
    rw [← sameLog]
    exact isOwn item (cons.inj sameLast).1
  | inr hasLater =>
    obtain ⟨rest, other, isLater⟩ := hasLater
    rw [isLater, concat_eq_append, ← cons_append, ← append_assoc] at split
    obtain ⟨sameLog, -⟩ := append_inj' split rfl
    exact custody.own item earlier rest sameLog

theorem take (fresh : Transfer.take item ∉ log) :
    Custody (log ++ [.take item]) fun other => held other ∨ other = item := by
  refine ⟨fun other => ?_, fun other isHeld => ?_, fun other isTaken notHeld => ?_, ?_⟩
  · have before := custody.taken other
    rw [count_append, count_singleton]
    by_cases isItem : other = item
    · rw [isItem, count_eq_zero_of_not_mem fresh]
      split <;> decide
    · rw [if_neg (by simpa using Ne.symm isItem)]
      exact before
  · rw [count_append, mem_append]
    cases isHeld with
    | inl wasHeld =>
      obtain ⟨wasTaken, notReturned⟩ := custody.holds other wasHeld
      exact ⟨.inl wasTaken, by rw [notReturned]; rfl⟩
    | inr isItem =>
      rw [isItem]
      refine ⟨.inr (mem_singleton_self _), ?_⟩
      have notReturned : Transfer.giveBack item ∉ log := by
        intro isReturned
        obtain ⟨earlier, later, split⟩ := append_of_mem isReturned
        have isTaken := custody.own item earlier later split
        exact fresh (by rw [split]; exact mem_append_left _ isTaken)
      rw [count_eq_zero_of_not_mem notReturned]
      rfl
  · have notNew : other ≠ item := fun isItem => notHeld (.inr isItem)
    rw [mem_append, mem_singleton] at isTaken
    have wasTaken : Transfer.take other ∈ log := by
      cases isTaken with
      | inl before => exact before
      | inr isLast => exact absurd (Transfer.take.inj isLast) notNew
    rw [count_append, custody.returned other wasTaken fun wasHeld => notHeld (.inl wasHeld)]
    rfl
  · refine custody.own_concat fun other isLast => ?_
    cases isLast

theorem giveBack (isHeld : held item) :
    Custody (log ++ [.giveBack item]) fun other => held other ∧ other ≠ item := by
  obtain ⟨wasTaken, notReturned⟩ := custody.holds item isHeld
  refine ⟨fun other => ?_, fun other stillHeld => ?_, fun other isTaken notHeld => ?_, ?_⟩
  · rw [count_append]
    exact custody.taken other
  · obtain ⟨otherTaken, otherNotReturned⟩ := custody.holds other stillHeld.1
    refine ⟨mem_append_left _ otherTaken, ?_⟩
    rw [count_append, otherNotReturned, count_singleton,
      if_neg (by simpa using Ne.symm stillHeld.2)]
  · rw [count_append, count_singleton]
    by_cases isItem : other = item
    · rw [isItem, notReturned, if_pos (by simp)]
    · rw [if_neg (by simpa using Ne.symm isItem)]
      rw [mem_append, mem_singleton] at isTaken
      refine custody.returned other ?_ fun wasHeld => notHeld ⟨wasHeld, isItem⟩
      cases isTaken with
      | inl before => exact before
      | inr isLast => cases isLast
  · refine custody.own_concat fun other isLast => ?_
    cases isLast
    exact wasTaken

theorem allGivenBack (nothing : ∀ item, ¬held item) :
    AllGivenBack log := by
  refine ⟨fun item isTaken => ⟨?_, ?_⟩, custody.own⟩
  · have some := count_pos_iff.mpr isTaken
    have most := custody.taken item
    omega
  · exact custody.returned item isTaken (nothing item)

theorem not_allGivenBack (isHeld : held item) : ¬AllGivenBack log := by
  intro allReturned
  obtain ⟨isTaken, notReturned⟩ := custody.holds item isHeld
  have isReturned := (allReturned.once item isTaken).2
  omega

end

end Custody

end Uw7.Lib
