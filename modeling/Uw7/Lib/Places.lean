import Mathlib.Data.List.Perm.Basic
import Mathlib.Data.List.Nodup

namespace Uw7.Lib

/-!
# Tokens in places

A place holds a list of tokens.  Every known token is in exactly one place, once,
and an unknown one in none; this stays so when one token moves from a place to
another and when a new token appears.
-/

open List

variable {Place Token : Type}

/-- Every known token is in one place, once; other tokens are nowhere. -/
structure Placed (held : Place → List Token) (known : Token → Prop) : Prop where
  nodup : ∀ place, (held place).Nodup
  unique : ∀ token first second, token ∈ held first → token ∈ held second → first = second
  covered : ∀ token, known token → ∃ place, token ∈ held place
  sound : ∀ place token, token ∈ held place → known token

namespace Placed

variable {held held' : Place → List Token} {known : Token → Prop}

section

variable (placed : Placed held known)
include placed

theorem congr (same : ∀ place, held' place = held place) :
    Placed held' known := by
  have equal : held' = held := funext same
  rw [equal]
  exact placed

variable {source target : Place}

/-- Some of the tokens of one place move to another one. -/
theorem transferList (moved : List Token) (different : source ≠ target)
    (left : (held source).Perm (moved ++ held' source))
    (arrived : (held' target).Perm (moved ++ held target))
    (others : ∀ place, place ≠ source → place ≠ target → held' place = held place) :
    Placed held' known := by
  obtain ⟨distinct, stays, apart⟩ := nodup_append.mp (left.nodup_iff.mp (placed.nodup source))
  have inSource : ∀ token ∈ moved, token ∈ held source :=
    fun token isMoved => left.mem_iff.mpr (mem_append_left _ isMoved)
  have origin : ∀ place token, token ∈ held' place →
      token ∈ held place ∧ (place = source → token ∉ moved) ∨ place = target ∧ token ∈ moved := by
    intro place token inPlace
    by_cases isTarget : place = target
    · subst place
      refine (mem_append.mp (arrived.mem_iff.mp inPlace)).symm.imp (fun wasThere => ?_) (.intro rfl)
      exact ⟨wasThere, fun isSource => absurd isSource.symm different⟩
    · by_cases isSource : place = source
      · subst place
        refine .inl ⟨left.mem_iff.mpr (mem_append_right _ inPlace), fun _ isMoved => ?_⟩
        exact apart token isMoved token inPlace rfl
      · rw [others place isSource isTarget] at inPlace
        exact .inl ⟨inPlace, fun wasSource => absurd wasSource isSource⟩
  refine ⟨fun place => ?_, fun token first second inFirst inSecond => ?_,
    fun token isKnown => ?_, fun place token inPlace => ?_⟩
  · by_cases isTarget : place = target
    · subst place
      refine arrived.nodup_iff.mpr (nodup_append.mpr ⟨distinct, placed.nodup _, ?_⟩)
      rintro token isMoved _ inTarget rfl
      exact different (placed.unique token _ _ (inSource token isMoved) inTarget)
    · by_cases isSource : place = source
      · subst place
        exact stays
      · rw [others place isSource isTarget]
        exact placed.nodup place
  · have notMoved : ∀ place, token ∈ held place ∧ (place = source → token ∉ moved) →
        token ∉ moved := fun place was isMoved =>
      was.2 (placed.unique token _ _ was.1 (inSource token isMoved)) isMoved
    rcases origin first token inFirst with wasFirst | ⟨isTarget, isMoved⟩
    · rcases origin second token inSecond with wasSecond | ⟨_, isMoved⟩
      · exact placed.unique token _ _ wasFirst.1 wasSecond.1
      · exact absurd isMoved (notMoved first wasFirst)
    · rcases origin second token inSecond with wasSecond | ⟨alsoTarget, _⟩
      · exact absurd isMoved (notMoved second wasSecond)
      · rw [isTarget, alsoTarget]
  · obtain ⟨place, inPlace⟩ := placed.covered token isKnown
    by_cases isSource : place = source
    · subst place
      rcases mem_append.mp (left.mem_iff.mp inPlace) with isMoved | isLeft
      · exact ⟨target, arrived.mem_iff.mpr (mem_append_left _ isMoved)⟩
      · exact ⟨source, isLeft⟩
    · by_cases isTarget : place = target
      · subst place
        exact ⟨target, arrived.mem_iff.mpr (mem_append_right _ inPlace)⟩
      · exact ⟨place, by rwa [others place isSource isTarget]⟩
  · rcases origin place token inPlace with wasThere | ⟨_, isMoved⟩
    · exact placed.sound place token wasThere.1
    · exact placed.sound source token (inSource token isMoved)

theorem transfer (moved : Token)
    (different : source ≠ target) (left : (held source).Perm (moved :: held' source))
    (arrived : (held' target).Perm (moved :: held target))
    (others : ∀ place, place ≠ source → place ≠ target → held' place = held place) :
    Placed held' known :=
  placed.transferList [moved] different left arrived others

theorem transferAll (different : source ≠ target) (left : held' source = [])
    (arrived : (held' target).Perm (held source ++ held target))
    (others : ∀ place, place ≠ source → place ≠ target → held' place = held place) :
    Placed held' known :=
  placed.transferList (held source) different (by rw [left, append_nil]) arrived others

theorem introduce (added : Token) (new : ¬ known added)
    {target : Place} (arrived : (held' target).Perm (added :: held target))
    (others : ∀ place, place ≠ target → held' place = held place) :
    Placed held' (fun token => token = added ∨ known token) := by
  have absent : ∀ place, added ∉ held place :=
    fun place inPlace => new (placed.sound place added inPlace)
  have elsewhere : ∀ place token, token ≠ added → (token ∈ held' place ↔ token ∈ held place) := by
    intro place token notAdded
    by_cases isTarget : place = target
    · subst place
      simp [arrived.mem_iff, notAdded]
    · rw [others place isTarget]
  have home : ∀ place, added ∈ held' place → place = target := by
    intro place inPlace
    by_contra notTarget
    rw [others place notTarget] at inPlace
    exact absent place inPlace
  refine ⟨fun place => ?_, fun token first second => ?_,
    fun token isKnown => ?_, fun place token inPlace => ?_⟩
  · by_cases isTarget : place = target
    · subst place
      exact arrived.nodup_iff.mpr (nodup_cons.mpr ⟨absent target, placed.nodup target⟩)
    · rw [others place isTarget]
      exact placed.nodup place
  · intro inFirst inSecond
    by_cases isAdded : token = added
    · subst token
      rw [home first inFirst, home second inSecond]
    · exact placed.unique token _ _ ((elsewhere first token isAdded).mp inFirst)
        ((elsewhere second token isAdded).mp inSecond)
  · by_cases isAdded : token = added
    · subst token
      exact ⟨target, arrived.mem_iff.mpr mem_cons_self⟩
    · obtain ⟨place, inPlace⟩ := placed.covered token (isKnown.resolve_left isAdded)
      exact ⟨place, (elsewhere place token isAdded).mpr inPlace⟩
  · by_cases isAdded : token = added
    · exact .inl isAdded
    · exact .inr (placed.sound place token ((elsewhere place token isAdded).mp inPlace))

end

end Placed

end Uw7.Lib
