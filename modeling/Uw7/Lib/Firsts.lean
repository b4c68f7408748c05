import Mathlib.Data.List.Nodup

namespace Uw7.Lib

/-!
# First occurrences

A list is read from its head, and an item is taken when its flag is not set; the
flag is set then.  What is taken is the first occurrence of every item whose flag
was clear, in the order of the list.
-/

open Function List

variable {Item : Type} [DecidableEq Item]

/-- The items whose flags are clear when they are met. -/
def firsts : (Item → Bool) → List Item → List Item
  | _, [] => []
  | flag, item :: rest =>
    if flag item then firsts flag rest
    else item :: firsts (update flag item true) rest

variable {flag : Item → Bool} {items : List Item} {item : Item}

theorem mem_firsts : item ∈ firsts flag items ↔ item ∈ items ∧ flag item = false := by
  induction items generalizing flag with
  | nil => simp [firsts]
  | cons head rest ih =>
    rw [firsts, mem_cons]
    by_cases same : item = head
    · subst same
      cases isSet : flag item <;> simp [isSet, ih]
    · cases isSet : flag head <;> simp [same, ih]

theorem nodup_firsts : (firsts flag items).Nodup := by
  induction items generalizing flag with
  | nil => exact nodup_nil
  | cons head rest ih =>
    rw [firsts]
    split
    · exact ih
    · refine nodup_cons.mpr ⟨?_, ih⟩
      simp [mem_firsts]

theorem firsts_congr {other : Item → Bool} (agree : ∀ item ∈ items, flag item = other item) :
    firsts flag items = firsts other items := by
  induction items generalizing flag other with
  | nil => rfl
  | cons head rest ih =>
    have agreeRest : ∀ item ∈ rest, flag item = other item :=
      fun item member => agree item (mem_cons_of_mem head member)
    have agreeUpdated : ∀ item ∈ rest, update flag head true item =
        update other head true item := by
      intro item member
      by_cases same : item = head
      · simp [same]
      · simpa [same] using agreeRest item member
    rw [firsts, firsts, agree head mem_cons_self, ih agreeRest, ih agreeUpdated]

theorem firsts_update (absent : item ∉ items) :
    firsts (update flag item true) items = firsts flag items := by
  induction items generalizing flag with
  | nil => rfl
  | cons head rest ih =>
    obtain ⟨notHead, notRest⟩ := ne_and_not_mem_of_not_mem_cons absent
    have other : head ≠ item := fun same => notHead same.symm
    rw [firsts, firsts, update_of_ne other, ih notRest, update_comm notHead, ih notRest]

theorem firsts_split {before after : List Item}
    (split : firsts flag items = before ++ item :: after) :
    ∃ front back, items = front ++ item :: back ∧ item ∉ front ∧
      ∀ other, other ∈ before ↔ other ∈ front ∧ flag other = false := by
  induction items generalizing flag before with
  | nil => simp [firsts] at split
  | cons head rest ih =>
    rw [firsts] at split
    split at split
    case isTrue isSet =>
      have clear : flag item = false := by
        have isTaken : item ∈ firsts flag rest := by simp [split]
        exact (mem_firsts.mp isTaken).2
      obtain ⟨front, back, rfl, isFirst, same⟩ := ih split
      refine ⟨head :: front, back, rfl, ?_, fun other => ?_⟩
      · refine not_mem_cons_of_ne_of_not_mem ?_ isFirst
        rintro rfl
        rw [isSet] at clear
        cases clear
      · rw [same, mem_cons]
        constructor
        · exact fun ⟨isMember, isClear⟩ => ⟨.inr isMember, isClear⟩
        · rintro ⟨rfl | isMember, isClear⟩
          · rw [isSet] at isClear
            cases isClear
          · exact ⟨isMember, isClear⟩
    case isFalse isClear =>
      cases before with
      | nil =>
        obtain ⟨rfl, -⟩ := cons_eq_cons.mp split
        exact ⟨[], rest, rfl, not_mem_nil, by simp⟩
      | cons first before =>
        obtain ⟨rfl, inRest⟩ := cons_eq_cons.mp split
        have isTaken : item ∈ firsts (update flag head true) rest := by simp [inRest]
        have other : item ≠ head := by
          rintro rfl
          simp [mem_firsts] at isTaken
        obtain ⟨front, back, rfl, isFirst, same⟩ := ih inRest
        refine ⟨head :: front, back, rfl, not_mem_cons_of_ne_of_not_mem other isFirst, fun x => ?_⟩
        rw [mem_cons, mem_cons, same]
        by_cases isHead : x = head
        · subst isHead
          simpa using isClear
        · simp [isHead]

omit [DecidableEq Item] in
theorem filter_split {keep : Item → Bool} {front back : List Item}
    (split : items.filter keep = front ++ item :: back) :
    ∃ before after, items = before ++ item :: after ∧ before.filter keep = front := by
  obtain ⟨before, rest, rfl, isFront, isRest⟩ := filter_eq_append_iff.mp split
  obtain ⟨skipped, after, rfl, dropped, -, -⟩ := filter_eq_cons_iff.mp isRest
  refine ⟨before ++ skipped, after, by simp, ?_⟩
  rw [filter_append, isFront]
  have none : skipped.filter keep = [] := filter_eq_nil_iff.mpr dropped
  rw [none, append_nil]

omit [DecidableEq Item] in
theorem mem_front_of_split {front back front' back' : List Item} {item other : Item}
    (different : item ≠ other) (split : front ++ other :: back = front' ++ item :: back')
    (absent : other ∉ front') : item ∈ front := by
  obtain ⟨middle, isFront', isBack⟩ | ⟨middle, isFront, isBack⟩ := append_eq_append_iff.mp split
  · cases middle with
    | nil => exact absurd (cons_eq_cons.mp isBack).1.symm different
    | cons first middle =>
      obtain ⟨rfl, -⟩ := cons_eq_cons.mp isBack
      exact absurd (by simp [isFront']) absent
  · cases middle with
    | nil => exact absurd (cons_eq_cons.mp isBack).1 different
    | cons first middle =>
      obtain ⟨rfl, -⟩ := cons_eq_cons.mp isBack
      simp [isFront]

end Uw7.Lib
