import Mathlib.Data.Fintype.Card

namespace Uw7.Lib

/-!
# Relations without cycles

Where finitely many items can be reached, a walk that follows a relation ends
exactly when no item it can come to leads back to itself.
-/

open Relation

variable {Item : Type} {leads : Item → Item → Prop} {start : Item}

/-- An item that can be reached leads back to itself. -/
def Cyclic (leads : Item → Item → Prop) (start : Item) : Prop :=
  ∃ item, ReflTransGen leads start item ∧ TransGen leads item item

theorem not_cyclic_of_acc (ends : Acc (fun below above => leads above below) start) :
    ¬ Cyclic leads start := by
  rintro ⟨item, reaches, back⟩
  have itemEnds : Acc (fun below above => leads above below) item := by
    clear back
    induction reaches with
    | refl => exact ends
    | tail _ step ih => exact Acc.inv ih step
  -- An item that ends is not below itself in the transitive closure.
  have closure := itemEnds.transGen
  induction closure with
  | intro item _ ih =>
    exact ih item (transGen_swap.1 back) (reaches.trans back.to_reflTransGen) back itemEnds

theorem acc_of_not_cyclic (finite : Set.Finite {item | ReflTransGen leads start item})
    (acyclic : ¬ Cyclic leads start) : Acc (fun below above => leads above below) start := by
  let Reached : Type := {item // ReflTransGen leads start item}
  let below : Reached → Reached → Prop := fun lower upper => TransGen leads upper.1 lower.1
  have : Finite Reached := finite
  have : Std.Irrefl below := ⟨fun item back => acyclic ⟨item.1, item.2, back⟩⟩
  have wellFounded : WellFounded below := Finite.wellFounded_of_trans_of_irrefl below
  have ends : ∀ item : Reached, Acc (fun lower upper => leads upper lower) item.1 := by
    intro item
    induction item using wellFounded.induction with
    | _ item ih =>
      refine Acc.intro item.1 fun next step => ?_
      exact ih ⟨next, item.2.tail step⟩ (.single step)
  exact ends ⟨start, .refl⟩

theorem acc_iff_not_cyclic (finite : Set.Finite {item | ReflTransGen leads start item}) :
    Acc (fun below above => leads above below) start ↔ ¬ Cyclic leads start :=
  ⟨not_cyclic_of_acc, acc_of_not_cyclic finite⟩

end Uw7.Lib
