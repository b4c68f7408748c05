import Uw7.Fga.PhysicalPages

namespace Uw7.Fga

/-!
# Softlocks

The softlock count of a page is the number of softlocks that were granted there and
not given back, and of those that requests have and may still return.
-/

open Lib Function Nat

variable {V : Type}

structure Softlocks (s : SegState V) : Prop where
  counted : ∀ page, ∃ pending, Tally (fun l => (s.lwp l).Pending page) pending ∧
      (s.vpg page).softlockCnt = s.granted page + pending
  bounded : ∀ page, (s.vpg page).softlockCnt ≤ vpgMaxSoftlockCount

/-- Requests before and behind the softlock of the current page. -/
def PagePoint.turning : PagePoint → Bool
  | .recover _ _ | .unlock => true
  | _ => false

section Pending

variable {caller : PageCaller} {page other : Nat} {point point' : PagePoint}

theorem pending_plain {request : FaultRequest} (notTurning : point.turning = false) :
    (FgaLwp.onPage (.fault request) page point).Pending other ↔
      request.isSoftlock = true ∧ request.first ≤ other ∧ other < page := by
  cases point with
  | recover | unlock => cases notTurning
  | _ => rfl

theorem pending_same (notTurning : point.turning = false) (notTurning' : point'.turning = false) :
    (FgaLwp.onPage caller page point').Pending other ↔
      (FgaLwp.onPage caller page point).Pending other := by
  cases caller with
  | fault request => rw [pending_plain notTurning, pending_plain notTurning']
  | reaffine => rfl
  | lockmem => rfl

theorem pending_other (notFault : ∀ request, caller ≠ .fault request) :
    ¬ (FgaLwp.onPage caller page point).Pending other := by
  intro pending
  cases caller with
  | fault request => exact notFault request rfl
  | reaffine | lockmem => exact pending

theorem pending_faulted (notTurning : point.turning = false) :
    (FgaLwp.onPage caller page caller.faulted).Pending other ↔
      (FgaLwp.onPage caller page point).Pending other := by
  cases caller with
  | fault request =>
    cases isSoftlock : request.isSoftlock with
    | true =>
      have atSoftlock : (PageCaller.fault request).faulted = .softlock := by
        simp [PageCaller.faulted, isSoftlock]
      rw [atSoftlock]
      exact pending_same notTurning rfl
    | false =>
      constructor
      · intro pending
        have isTrue := pending.1
        rw [isSoftlock] at isTrue
        cases isTrue
      · intro pending
        have isTrue := pending.1
        rw [isSoftlock] at isTrue
        cases isTrue
  | reaffine => rfl
  | lockmem => rfl

end Pending

namespace Softlocks

variable {s s' : SegState V} {l : Nat} {next : FgaLwp}

theorem congr (softlocks : Softlocks s) (sameCount :
    ∀ page, (s'.vpg page).softlockCnt = (s.vpg page).softlockCnt)
    (sameGranted : s'.granted = s.granted) (sameLwp : s'.lwp = update s.lwp l next)
    (samePending : ∀ page, next.Pending page ↔ (s.lwp l).Pending page) : Softlocks s' := by
  refine ⟨fun page => ?_, fun page => by
    rw [sameCount page]
    exact softlocks.bounded page⟩
  obtain ⟨pending, isPending, isCount⟩ := softlocks.counted page
  refine ⟨pending, isPending.congr fun k => ?_, ?_⟩
  · by_cases isLwp : k = l
    · subst k
      rw [sameLwp, update_self]
      exact samePending page
    · rw [sameLwp, update_of_ne isLwp]
  · rw [sameCount page, sameGranted]
    exact isCount

theorem same (softlocks : Softlocks s) (sameVpg : s'.vpg = s.vpg)
    (sameGranted : s'.granted = s.granted) (sameLwp : s'.lwp = s.lwp) : Softlocks s' := by
  refine ⟨?_, ?_⟩
  · rw [sameVpg, sameGranted, sameLwp]
    exact softlocks.counted
  · rw [sameVpg]
    exact softlocks.bounded

variable {request : FaultRequest} {segPgOffset numPages : Nat} {page : Nat}

theorem increment (softlocks : Softlocks s)
    (atPage : s.lwp l = .onPage (.fault request) page .increment)
    (isSoftlock : request.isSoftlock = true) (isFirst : request.first ≤ page)
    (notFull : (s.vpg page).softlockCnt < vpgMaxSoftlockCount)
    (sameLwp : s'.lwp = update s.lwp l (.onPage (.fault request) page .unlock))
    (nowCount : (s'.vpg page).softlockCnt = intIncr (s.vpg page).softlockCnt)
    (others : ∀ other, other ≠ page → s'.vpg other = s.vpg other)
    (sameGranted : s'.granted = s.granted) : Softlocks s' := by
  have oneMore : (s'.vpg page).softlockCnt = (s.vpg page).softlockCnt + 1 := by
    rw [nowCount, intIncr]
    unfold vpgMaxSoftlockCount at notFull
    exact mod_eq_of_lt (by omega)
  have otherLwps : ∀ other k, k ≠ l → ((s'.lwp k).Pending other ↔ (s.lwp k).Pending other) := by
    intro other k isLwp
    rw [sameLwp, update_of_ne isLwp]
  refine ⟨fun other => ?_, fun other => ?_⟩
  · obtain ⟨pending, isPending, isCount⟩ := softlocks.counted other
    by_cases isPage : other = page
    · subst other
      refine ⟨pending + 1, isPending.enter ?_ ?_ (otherLwps page), ?_⟩
      · rw [atPage]
        exact fun isPending => lt_irrefl page isPending.2.2
      · rw [sameLwp, update_self]
        exact ⟨isSoftlock, isFirst, le_rfl⟩
      · rw [oneMore, sameGranted]
        omega
    · refine ⟨pending, isPending.congr fun k => ?_, ?_⟩
      · by_cases isLwp : k = l
        · subst k
          rw [sameLwp, update_self, atPage]
          exact and_congr_right fun _ => by omega
        · exact otherLwps other k isLwp
      · rw [others other isPage, sameGranted]
        exact isCount
  · by_cases isPage : other = page
    · subst other
      rw [oneMore]
      exact notFull
    · rw [others other isPage]
      exact softlocks.bounded other

theorem count_pos (softlocks : Softlocks s)
    (held : 0 < s.granted page ∨ ∃ k, (s.lwp k).Pending page) : 0 < (s.vpg page).softlockCnt := by
  obtain ⟨pending, isPending, isCount⟩ := softlocks.counted page
  rcases held with isGranted | ⟨k, isHolder⟩
  · omega
  · have notNone : pending ≠ 0 := by
      intro isNone
      rw [isNone] at isPending
      have empty : {l | (s.lwp l).Pending page} = ∅ := Set.encard_eq_zero.mp isPending
      have isMember : k ∈ {l | (s.lwp l).Pending page} := isHolder
      rw [empty] at isMember
      exact isMember
    omega

theorem intDecr_pos {count : Nat} (pos : 0 < count) (bounded : count ≤ vpgMaxSoftlockCount) :
    intDecr count = count - 1 := by
  unfold intDecr vpgMaxSoftlockCount at *
  omega

theorem recover (softlocks : Softlocks s)
    (atPage : s.lwp l = .onPage (.fault request) page (.recover segPgOffset (numPages + 1)))
    (isSoftlock : request.isSoftlock = true) (isBefore : segPgOffset < page)
    (sameLwp : s'.lwp = update s.lwp l
      (.onPage (.fault request) page (.recover (segPgOffset + 1) numPages)))
    (nowCount : (s'.vpg segPgOffset).softlockCnt = intDecr (s.vpg segPgOffset).softlockCnt)
    (others : ∀ other, other ≠ segPgOffset → s'.vpg other = s.vpg other)
    (sameGranted : s'.granted = s.granted) : Softlocks s' := by
  have isHolder : (s.lwp l).Pending segPgOffset := by
    rw [atPage]
    exact ⟨isSoftlock, le_rfl, isBefore⟩
  have oneLess := intDecr_pos (softlocks.count_pos (.inr ⟨l, isHolder⟩))
    (softlocks.bounded segPgOffset)
  have otherLwps : ∀ other k, k ≠ l → ((s'.lwp k).Pending other ↔ (s.lwp k).Pending other) := by
    intro other k isLwp
    rw [sameLwp, update_of_ne isLwp]
  refine ⟨fun other => ?_, fun other => ?_⟩
  · obtain ⟨pending, isPending, isCount⟩ := softlocks.counted other
    by_cases isPage : other = segPgOffset
    · subst other
      obtain ⟨rest, isRest, nowPending⟩ :=
        @Tally.leave _ _ (fun k => (s'.lwp k).Pending segPgOffset) _ l isPending isHolder (by
          rw [sameLwp, update_self]
          exact fun isPending => not_succ_le_self _ isPending.2.1)
          (otherLwps segPgOffset)
      refine ⟨rest, nowPending, ?_⟩
      rw [nowCount, oneLess, sameGranted]
      omega
    · refine ⟨pending, isPending.congr fun k => ?_, ?_⟩
      · by_cases isLwp : k = l
        · subst k
          rw [sameLwp, update_self, atPage]
          exact and_congr_right fun _ => by omega
        · exact otherLwps other k isLwp
      · rw [others other isPage, sameGranted]
        exact isCount
  · by_cases isPage : other = segPgOffset
    · subst other
      rw [nowCount, oneLess]
      exact (sub_le _ _).trans (softlocks.bounded segPgOffset)
    · rw [others other isPage]
      exact softlocks.bounded other

theorem giveBack (softlocks : Softlocks s)
    (atUnlock : s.lwp l = .softunlock segPgOffset (numPages + 1))
    (isGranted : 0 < s.granted segPgOffset)
    (sameLwp : s'.lwp = update s.lwp l (.softunlock (segPgOffset + 1) numPages))
    (nowCount : (s'.vpg segPgOffset).softlockCnt = intDecr (s.vpg segPgOffset).softlockCnt)
    (others : ∀ other, other ≠ segPgOffset → s'.vpg other = s.vpg other)
    (nowGranted : s'.granted = update s.granted segPgOffset (s.granted segPgOffset - 1)) :
    Softlocks s' := by
  have oneLess := intDecr_pos (softlocks.count_pos (.inl isGranted)) (softlocks.bounded segPgOffset)
  have samePending : ∀ other k, (s'.lwp k).Pending other ↔ (s.lwp k).Pending other := by
    intro other k
    by_cases isLwp : k = l
    · subst k
      rw [sameLwp, update_self, atUnlock]
      rfl
    · rw [sameLwp, update_of_ne isLwp]
  refine ⟨fun other => ?_, fun other => ?_⟩
  · obtain ⟨pending, isPending, isCount⟩ := softlocks.counted other
    refine ⟨pending, isPending.congr (samePending other), ?_⟩
    rw [nowGranted]
    by_cases isPage : other = segPgOffset
    · subst other
      rw [nowCount, oneLess, update_self]
      omega
    · rw [others other isPage, update_of_ne isPage]
      exact isCount
  · by_cases isPage : other = segPgOffset
    · subst other
      rw [nowCount, oneLess]
      exact (sub_le _ _).trans (softlocks.bounded segPgOffset)
    · rw [others other isPage]
      exact softlocks.bounded other

theorem complete (softlocks : Softlocks s)
    (atPage : s.lwp l = .onPage (.fault request) page .unlock)
    (isLast : page + 1 = request.first + request.pages) (sameLwp : s'.lwp = update s.lwp l .idle)
    (sameCount : ∀ other, (s'.vpg other).softlockCnt = (s.vpg other).softlockCnt)
    (nowGranted : s'.granted = (s.grant request).granted) : Softlocks s' := by
  refine ⟨fun other => ?_, fun other => by
    rw [sameCount other]
    exact softlocks.bounded other⟩
  obtain ⟨pending, isPending, isCount⟩ := softlocks.counted other
  have otherLwps : ∀ k, k ≠ l → ((s'.lwp k).Pending other ↔ (s.lwp k).Pending other) := by
    intro k isLwp
    rw [sameLwp, update_of_ne isLwp]
  have notPending : ¬ (s'.lwp l).Pending other := by
    rw [sameLwp, update_self]
    exact fun isPending => isPending
  by_cases isHolder : (s.lwp l).Pending other
  · obtain ⟨rest, isRest, nowPending⟩ :=
      @Tally.leave _ _ (fun k => (s'.lwp k).Pending other) _ l isPending
        isHolder notPending otherLwps
    refine ⟨rest, nowPending, ?_⟩
    rw [atPage] at isHolder
    obtain ⟨isSoftlock, isFirst, isBefore⟩ := isHolder
    rw [sameCount other, nowGranted, SegState.grant, if_pos isSoftlock]
    simp only
    rw [if_pos ⟨isFirst, by omega⟩]
    omega
  · refine ⟨pending, isPending.congr fun k => ?_, ?_⟩
    · by_cases isLwp : k = l
      · subst k
        exact ⟨fun now => absurd now notPending, fun was => absurd was isHolder⟩
      · exact otherLwps k isLwp
    · rw [atPage] at isHolder
      rw [sameCount other, nowGranted, SegState.grant]
      split
      · rename_i isSoftlock
        simp only
        rw [if_neg]
        · exact isCount
        · intro inRange
          exact isHolder ⟨isSoftlock, inRange.1, by omega⟩
      · exact isCount

end Softlocks

end Uw7.Fga
