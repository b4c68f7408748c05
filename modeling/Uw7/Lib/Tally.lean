import Mathlib.Data.Set.Card

namespace Uw7.Lib

/-!
# Counting members

A tally says how many items of a type, which may be infinite, are members.  It moves
with one item that becomes a member, or is none any more.
-/

variable {Item : Type}

def Tally (member : Item → Prop) (number : Nat) : Prop := {item | member item}.encard = number

namespace Tally

variable {member member' : Item → Prop} {number : Nat} {item : Item}

theorem none (noMember : ∀ item, ¬ member item) : Tally member 0 := by
  have empty : {item | member item} = ∅ := Set.eq_empty_iff_forall_notMem.mpr noMember
  rw [Tally, empty, Set.encard_empty]
  rfl

section

variable (tally : Tally member number)
include tally

theorem congr (same : ∀ item, member' item ↔ member item) :
    Tally member' number := by
  have equal : {item | member' item} = {item | member item} := Set.ext same
  rw [Tally, equal]
  exact tally

theorem enter (wasNot : ¬ member item) (isNow : member' item)
    (others : ∀ other, other ≠ item → (member' other ↔ member other)) :
    Tally member' (number + 1) := by
  have inserted : {item | member' item} = insert item {item | member item} := by
    ext other
    by_cases same : other = item
    · subst other
      simp [isNow]
    · simp [same, others other same]
  have notIn : item ∉ {item | member item} := wasNot
  unfold Tally at tally ⊢
  rw [inserted, Set.encard_insert_of_notMem notIn, tally]
  rfl

theorem leave (was : member item) (isNot : ¬ member' item)
    (others : ∀ other, other ≠ item → (member' other ↔ member other)) :
    ∃ rest, number = rest + 1 ∧ Tally member' rest := by
  have inserted : {item | member item} = insert item {item | member' item} := by
    ext other
    by_cases same : other = item
    · subst other
      simp [was]
    · simp [same, others other same]
  have notIn : item ∉ {item | member' item} := isNot
  unfold Tally at tally
  rw [inserted, Set.encard_insert_of_notMem notIn] at tally
  have finite : {item | member' item}.encard ≠ ⊤ := by
    intro isTop
    rw [isTop] at tally
    exact absurd tally (by simp)
  obtain ⟨rest, isRest⟩ := ENat.ne_top_iff_exists.mp finite
  refine ⟨rest, ?_, isRest.symm⟩
  rw [← isRest] at tally
  exact_mod_cast tally.symm

theorem le {wider : Nat} (tally' : Tally member' wider)
    (included : ∀ item, member item → member' item) : number ≤ wider := by
  have more : {item | member item}.encard ≤ {item | member' item}.encard :=
    Set.encard_le_encard included
  rw [tally, tally'] at more
  exact_mod_cast more

end

theorem below (bound : Nat) : Tally (fun index => index < bound) bound := by
  have interval : {index | index < bound} = ((Finset.range bound : Finset Nat) : Set Nat) := by
    ext index
    simp
  rw [Tally, interval, Set.encard_coe_eq_coe_finsetCard, Finset.card_range]

end Tally

end Uw7.Lib
