import Mathlib.Data.List.Pairwise
import Mathlib.Order.Lattice

namespace Uw7.Lib

/-!
# Lists of closed intervals

Elements of a type `Element` carry a closed interval `[lower, upper]` of a
linear order.  A list of them is *ordered* when every interval is nonempty and
each ends before every later one starts.
-/

namespace Intervals

variable {Element Point : Type} [LinearOrder Point]
variable {lower upper : Element → Point}

def Contains (lower upper : Element → Point) (point : Point) (element : Element) : Prop :=
  lower element ≤ point ∧ point ≤ upper element

instance (point : Point) (element : Element) : Decidable (Contains lower upper point element) :=
  inferInstanceAs (Decidable (_ ∧ _))

/-- Nonempty intervals, each ending before every later one starts. -/
structure Ordered (lower upper : Element → Point) (elements : List Element) : Prop where
  nonempty : ∀ element ∈ elements, lower element ≤ upper element
  apart : elements.Pairwise fun first second =>
      upper first < lower second

variable {elements : List Element}

namespace Ordered

theorem nil : Ordered lower upper [] := ⟨by simp, .nil⟩

theorem cons_iff {head : Element} {rest : List Element} : Ordered lower upper (head :: rest) ↔
    lower head ≤ upper head ∧ (∀ element ∈ rest, upper head < lower element) ∧
      Ordered lower upper rest := by
  constructor
  · intro ordered
    have split := List.pairwise_cons.mp ordered.apart
    exact ⟨ordered.nonempty head (by simp), split.1, ⟨fun element member =>
      ordered.nonempty element (by simp [member]),
      split.2⟩⟩
  · rintro ⟨headNonempty, headApart, restOrdered⟩
    refine ⟨?_, List.pairwise_cons.mpr ⟨headApart, restOrdered.apart⟩⟩
    intro element member
    rcases List.mem_cons.mp member with isHead | inRest
    · subst element
      exact headNonempty
    · exact restOrdered.nonempty element inRest

theorem sorted (ordered : Ordered lower upper elements) :
    elements.Pairwise fun first second => lower first < lower second := by
  induction elements with
  | nil => exact .nil
  | cons head rest ih =>
    obtain ⟨headNonempty, headApart, restOrdered⟩ := cons_iff.mp ordered
    refine List.pairwise_cons.mpr ⟨?_, ih restOrdered⟩
    intro element member
    exact lt_of_le_of_lt headNonempty (headApart element member)

theorem disjoint (ordered : Ordered lower upper elements) :
    elements.Pairwise fun first second =>
      ∀ point, ¬ (Contains lower upper point first ∧ Contains lower upper point second) :=
  ordered.apart.imp fun apart _ contained =>
    absurd (le_trans contained.2.1 contained.1.2) (not_le.mpr apart)

end Ordered

/-- Linear search that gives up at the first element starting past `point`. -/
def search (lower upper : Element → Point) (point : Point) : List Element → Option Element
  | [] => none
  | element :: rest =>
    if point < lower element then
      none
    else if Contains lower upper point element then
      some element
    else
      search lower upper point rest

theorem search_eq_find? (ordered : Ordered lower upper elements)
    (point : Point) : search lower upper point elements = elements.find? fun element =>
      decide (Contains lower upper point element) := by
  induction elements with
  | nil => rfl
  | cons head rest ih =>
    obtain ⟨headNonempty, headApart, restOrdered⟩ := Ordered.cons_iff.mp ordered
    by_cases before : point < lower head
    · have headMisses : ¬ Contains lower upper point head :=
        fun contained => absurd contained.1 (not_le.mpr before)
      have restMisses : ∀ element ∈ rest, ¬ Contains lower upper point element := by
        intro element member contained
        have pastHead : upper head < point := lt_of_lt_of_le (headApart element member) contained.1
        exact absurd (lt_of_le_of_lt headNonempty pastHead) (not_lt.mpr before.le)
      have restNone : rest.find? (fun element =>
          decide (Contains lower upper point element)) = none := by
        simpa [List.find?_eq_none] using restMisses
      simp [search, before, headMisses, restNone]
    · by_cases contained : Contains lower upper point head
      · simp [search, before, contained]
      · simp [search, before, contained, ih restOrdered]

end Intervals

end Uw7.Lib
