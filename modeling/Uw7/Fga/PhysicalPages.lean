import Uw7.Fga.PageInvariant

namespace Uw7.Fga

/-!
# Physical pages

Each page of identityless memory is free, with another user, behind one page of the
segment, or with one LWP that migrates.  The segment holds no more of them than it
has reserved.
-/

open Lib Function List Option

variable {V : Type}

/-- The page has a physical page of its own. -/
def Backed (s : SegState V) (page : Nat) : Prop :=
  (s.vpg page).ppid ≠ none ∧ ∀ l, (s.lwp l).assigned ≠ some page

inductive PhysicalPlace where
  | page (page : Nat)
  | lwp (l : Nat)
  | free
  | others
  deriving DecidableEq

open Classical in
noncomputable def holding (s : SegState V) : PhysicalPlace → List Nat
  | .page page => if Backed s page then (s.vpg page).ppid.toList else []
  | .lwp l => (s.lwp l).point.newPpid.toList
  | .free => s.free
  | .others => s.others

/-- Physical pages are in one place, and within the reservation. -/
structure Physical (seg : FgaSegment) (pool : List Nat) (s : SegState V) : Prop where
  placed : Placed (holding s) (· ∈ pool)
  held : ∃ backed moving, Tally (Backed s) backed ∧
      Tally (fun l => (s.lwp l).point.newPpid ≠ none) moving ∧ s.pagesHeld = backed + moving
  reserved : ∃ extra, Tally (fun l => (s.lwp l).point.reserving = true) extra ∧
      s.reserved = seg.numPages + extra
  inSegment : ∀ page, (s.vpg page).ppid ≠ none → page < seg.numPages

section Holding

variable {s s' : SegState V} {page : Nat}

theorem holding_backed {ppid : Nat} (backed : Backed s page)
    (isPpid : (s.vpg page).ppid = some ppid) : holding s (.page page) = [ppid] := by
  simp only [holding, if_pos backed, isPpid, toList_some]

theorem holding_not_backed (notBacked : ¬ Backed s page) : holding s (.page page) = [] := by
  simp only [holding, if_neg notBacked]

section

variable (samePpid : (s'.vpg page).ppid = (s.vpg page).ppid)
  (sameAssigned : ∀ l, (s'.lwp l).assigned = some page ↔ (s.lwp l).assigned = some page)
include samePpid sameAssigned

theorem backed_congr : Backed s' page ↔ Backed s page := by
  unfold Backed
  rw [samePpid]
  exact and_congr_right fun _ => forall_congr' fun l => not_congr (sameAssigned l)

theorem holding_page_congr : holding s' (.page page) = holding s (.page page) := by
  by_cases backed : Backed s page
  · have backed' := (backed_congr samePpid sameAssigned).mpr backed
    simp only [holding, if_pos backed, if_pos backed', samePpid]
  · have notBacked := (not_congr (backed_congr samePpid sameAssigned)).mpr backed
    rw [holding_not_backed backed, holding_not_backed notBacked]

end

end Holding

namespace Physical

variable {seg : FgaSegment} {pool : List Nat} {s s' : SegState V}

theorem held_le (physical : Physical seg pool s) : s.pagesHeld ≤ s.reserved := by
  obtain ⟨backed, moving, isBacked, isMoving, isHeld⟩ := physical.held
  obtain ⟨extra, isExtra, isReserved⟩ := physical.reserved
  have inPages : backed ≤ seg.numPages := isBacked.le (Tally.below seg.numPages) fun page isPage =>
      physical.inSegment page isPage.1
  have inExtra : moving ≤ extra := by
    refine isMoving.le isExtra fun l hasPage => ?_
    cases atPoint : (s.lwp l).point with
    | place | pcopy | pageFree | assign | putBack => rfl
    | _ =>
      rw [atPoint] at hasPage
      exact absurd rfl hasPage
  omega

theorem congr (physical : Physical seg pool s)
    (samePpid : ∀ page, (s'.vpg page).ppid = (s.vpg page).ppid)
    (sameLwp : ∀ l, (s'.lwp l).physical = (s.lwp l).physical) (sameFree : s'.free = s.free)
    (sameOthers : s'.others = s.others) (sameHeld : s'.pagesHeld = s.pagesHeld)
    (sameReserved : s'.reserved = s.reserved) : Physical seg pool s' := by
  have sameNew : ∀ l, (s'.lwp l).point.newPpid = (s.lwp l).point.newPpid :=
    fun l => congrArg Prod.fst (sameLwp l)
  have sameReserving : ∀ l, (s'.lwp l).point.reserving = (s.lwp l).point.reserving :=
    fun l => congrArg (fun triple => triple.2.1) (sameLwp l)
  have sameAssigned : ∀ l, (s'.lwp l).assigned = (s.lwp l).assigned :=
    fun l => congrArg (fun triple => triple.2.2) (sameLwp l)
  constructor
  case placed =>
    refine physical.placed.congr fun place => ?_
    cases place with
    | page page =>
      exact holding_page_congr (samePpid page) fun l => by rw [sameAssigned l]
    | lwp l => exact congrArg toList (sameNew l)
    | free => exact sameFree
    | others => exact sameOthers
  case held =>
    obtain ⟨backed, moving, isBacked, isMoving, isHeld⟩ := physical.held
    refine ⟨backed, moving, isBacked.congr fun page =>
      backed_congr (samePpid page) fun l => by rw [sameAssigned l],
      isMoving.congr fun l => by rw [sameNew l], sameHeld.trans isHeld⟩
  case reserved =>
    obtain ⟨extra, isExtra, isReserved⟩ := physical.reserved
    exact ⟨extra, isExtra.congr fun l => by rw [sameReserving l], sameReserved.trans isReserved⟩
  case inSegment =>
    intro page isBacked
    rw [samePpid page] at isBacked
    exact physical.inSegment page isBacked

theorem unshared (physical : Physical seg pool s) {page ppid : Nat} (backed : Backed s page)
    (isPpid : (s.vpg page).ppid = some ppid) {place : PhysicalPlace}
    (inPlace : ppid ∈ holding s place) : place = .page page := by
  refine physical.placed.unique ppid _ _ inPlace ?_
  rw [holding_backed backed isPpid]
  exact mem_cons_self

end Physical

section Lwp

variable {s : SegState V} {l page : Nat} {next : FgaLwp}

theorem physical_update (same : next.physical = (s.lwp l).physical) (k : Nat) :
    (update s.lwp l next k).physical = (s.lwp k).physical := by
  by_cases isLwp : k = l
  · subst k
    rw [update_self]
    exact same
  · rw [update_of_ne isLwp]

theorem assigned_elsewhere {caller : PageCaller} {point point' : PagePoint}
    (atPage : s.lwp l = .onPage caller page point) {other : Nat} (isOther : other ≠ page)
    (k : Nat) : (update s.lwp l (.onPage caller page point') k).assigned = some other ↔
      (s.lwp k).assigned = some other := by
  by_cases isLwp : k = l
  · subst k
    rw [update_self, atPage]
    simp only [FgaLwp.assigned]
    constructor
    · intro isAssigned
      split at isAssigned
      · exact absurd (some.inj isAssigned).symm isOther
      · cases isAssigned
    · intro isAssigned
      split at isAssigned
      · exact absurd (some.inj isAssigned).symm isOther
      · cases isAssigned
  · rw [update_of_ne isLwp]

theorem FgaLwp.lockedPage_of_assigned {lwp : FgaLwp} (isAssigned : lwp.assigned = some page) :
    lwp.lockedPage = some page := by
  cases lwp with
  | idle | softunlock => cases isAssigned
  | onPage caller current point =>
    cases point with
    | assign newPpid => exact isAssigned
    | _ => cases isAssigned

theorem not_assigned (alone : ∀ k, (s.lwp k).lockedPage = some page → k = l)
    (notHere : next.assigned ≠ some page) (k : Nat) :
    (update s.lwp l next k).assigned ≠ some page := by
  by_cases isLwp : k = l
  · subst k
    rw [update_self]
    exact notHere
  · rw [update_of_ne isLwp]
    intro isAssigned
    exact isLwp (alone k (FgaLwp.lockedPage_of_assigned isAssigned))

end Lwp

/-- An LWP goes on at its page, and leaves the other pages alone. -/
structure PageStep (s s' : SegState V) (l page : Nat) (caller : PageCaller)
    (point' : PagePoint) : Prop where
  lwp : s'.lwp = update s.lwp l (.onPage caller page point')
  vpg : ∀ other, other ≠ page → s'.vpg other = s.vpg other
  others : s'.others = s.others

section Moves

variable {seg : FgaSegment} {pool : List Nat} {s s' : SegState V}
  {l page : Nat} {caller : PageCaller} {point point' : PagePoint}

section

variable (step : PageStep s s' l page caller point')
include step

theorem PageStep.tally_others (property : PagePoint → Prop) (k : Nat) (isOther : k ≠ l) :
    property (s'.lwp k).point ↔ property (s.lwp k).point := by
  rw [step.lwp, update_of_ne isOther]

theorem PageStep.atPoint : (s'.lwp l).point = point' := by
  rw [step.lwp, update_self]
  rfl

section

variable (atPage : s.lwp l = .onPage caller page point)
include atPage

theorem PageStep.tally_same (property : PagePoint → Prop) (same : property point' ↔ property point)
    (k : Nat) : property (s'.lwp k).point ↔ property (s.lwp k).point := by
  by_cases isLwp : k = l
  · subst k
    rw [step.atPoint, atPage]
    exact same
  · exact step.tally_others property k isLwp

theorem PageStep.backed_elsewhere (other : Nat) (isOther : other ≠ page) :
    Backed s' other ↔ Backed s other := by
  refine backed_congr (by rw [step.vpg other isOther]) fun k => ?_
  rw [step.lwp]
  exact assigned_elsewhere atPage isOther k

theorem PageStep.holding_elsewhere (other : Nat) (isOther : other ≠ page) :
    holding s' (.page other) = holding s (.page other) := by
  refine holding_page_congr (by rw [step.vpg other isOther]) fun k => ?_
  rw [step.lwp]
  exact assigned_elsewhere atPage isOther k

theorem PageStep.holding_pages (samePpid : (s'.vpg page).ppid = (s.vpg page).ppid)
    (sameAssigned : point'.assigning = point.assigning) (other : Nat) :
    holding s' (.page other) = holding s (.page other) ∧ (Backed s' other ↔ Backed s other) := by
  by_cases isOther : other = page
  · subst other
    have same : ∀ k, (s'.lwp k).assigned = some page ↔ (s.lwp k).assigned = some page := by
      intro k
      by_cases isLwp : k = l
      · subst k
        rw [step.lwp, update_self, atPage]
        simp only [FgaLwp.assigned, sameAssigned]
      · rw [step.lwp, update_of_ne isLwp]
    exact ⟨holding_page_congr samePpid same, backed_congr samePpid same⟩
  · exact ⟨step.holding_elsewhere atPage other isOther, step.backed_elsewhere atPage other isOther⟩

end

theorem PageStep.holding_lwp (k : Nat) (isOther : k ≠ l) :
    holding s' (.lwp k) = holding s (.lwp k) := by
  simp only [holding, step.lwp, update_of_ne isOther]

theorem PageStep.holding_self : holding s' (.lwp l) = point'.newPpid.toList := by
  simp only [holding, step.atPoint]

end

theorem holding_at (atPage : s.lwp l = .onPage caller page point) :
    holding s (.lwp l) = point.newPpid.toList := by
  simp only [holding, atPage, FgaLwp.point]

theorem PageStep.holding_lwps (step : PageStep s s' l page caller point')
    (atPage : s.lwp l = .onPage caller page point) (same : point'.newPpid = point.newPpid)
    (k : Nat) : holding s' (.lwp k) = holding s (.lwp k) := by
  by_cases isLwp : k = l
  · subst k
    rw [step.holding_self, holding_at atPage, same]
  · exact step.holding_lwp k isLwp

variable {ppid newPpid : Nat}

theorem PageStep.backed (step : PageStep s s' l page caller point')
    (alone : ∀ k, (s.lwp k).lockedPage = some page → k = l)
    (notAssigning : point'.assigning = false) (nowPpid : (s'.vpg page).ppid = some ppid) :
    Backed s' page := by
  refine ⟨by rw [nowPpid]; simp, ?_⟩
  rw [step.lwp]
  exact not_assigned alone (by simp [FgaLwp.assigned, notAssigning])

theorem PageStep.inSegment (step : PageStep s s' l page caller point')
    (physical : Physical seg pool s) (isPage : page < seg.numPages) (other : Nat)
    (hasPpid : (s'.vpg other).ppid ≠ none) : other < seg.numPages := by
  by_cases isOther : other = page
  · rw [isOther]
    exact isPage
  · rw [step.vpg other isOther] at hasPpid
    exact physical.inSegment other hasPpid

section

variable (step : PageStep s s' l page caller point') (atPage : s.lwp l = .onPage caller page point)
  (physical : Physical seg pool s)
include step atPage physical

theorem PageStep.reserved (same : point'.reserving = point.reserving)
    (sameReserved : s'.reserved = s.reserved) :
    ∃ extra, Tally (fun l => (s'.lwp l).point.reserving = true) extra ∧
      s'.reserved = seg.numPages + extra := by
  obtain ⟨extra, isExtra, isReserved⟩ := physical.reserved
  refine ⟨extra, isExtra.congr fun k => ?_, sameReserved.trans isReserved⟩
  exact step.tally_same atPage (fun point => point.reserving = true) (by rw [same]) k

section

variable (samePpid : (s'.vpg page).ppid = (s.vpg page).ppid)
  (sameAssigned : point'.assigning = point.assigning) (same : point'.newPpid = point.newPpid)
include samePpid sameAssigned same

theorem PageStep.held (sameHeld : s'.pagesHeld = s.pagesHeld) :
    ∃ backed moving, Tally (Backed s') backed ∧
      Tally (fun l => (s'.lwp l).point.newPpid ≠ none) moving ∧ s'.pagesHeld = backed + moving := by
  obtain ⟨backed, moving, isBacked, isMoving, isHeld⟩ := physical.held
  refine ⟨backed, moving, isBacked.congr fun other =>
    (step.holding_pages atPage samePpid sameAssigned other).2,
    isMoving.congr fun k => ?_, sameHeld.trans isHeld⟩
  exact step.tally_same atPage (fun point => point.newPpid ≠ none) (by rw [same]) k

theorem PageStep.placed (sameFree : s'.free = s.free) : Placed (holding s') (· ∈ pool) := by
  refine physical.placed.congr fun place => ?_
  cases place with
  | page other => exact (step.holding_pages atPage samePpid sameAssigned other).1
  | lwp k => exact step.holding_lwps atPage same k
  | free => exact sameFree
  | others => exact step.others

end

end

theorem PageStep.getPage (step : PageStep s s' l page caller .pzero)
    (atPage : s.lwp l = .onPage caller page .fault)
    (alone : ∀ k, (s.lwp k).lockedPage = some page → k = l) (physical : Physical seg pool s)
    (noPpid : (s.vpg page).ppid = none) (isPage : page < seg.numPages) (isFree : ppid ∈ s.free)
    (nowPpid : (s'.vpg page).ppid = some ppid) (nowFree : s'.free = s.free.erase ppid)
    (nowHeld : s'.pagesHeld = s.pagesHeld + 1) (sameReserved : s'.reserved = s.reserved) :
    Physical seg pool s' := by
  have notBacked : ¬ Backed s page := fun backed => backed.1 noPpid
  have nowBacked : Backed s' page := step.backed alone rfl nowPpid
  refine ⟨?_, ?_, step.reserved atPage physical rfl sameReserved, step.inSegment physical isPage⟩
  · refine physical.placed.transfer ppid (by simp : PhysicalPlace.free ≠ .page page) ?_ ?_ ?_
    · change s.free.Perm (ppid :: s'.free)
      rw [nowFree]
      exact perm_cons_erase isFree
    · rw [holding_backed nowBacked nowPpid, holding_not_backed notBacked]
    · intro place notFree notPage
      cases place with
      | page other =>
        exact step.holding_elsewhere atPage other fun isPage => notPage (by rw [isPage])
      | lwp k => exact step.holding_lwps atPage rfl k
      | free => exact absurd rfl notFree
      | others => exact step.others
  · obtain ⟨backed, moving, isBacked, isMoving, isHeld⟩ := physical.held
    refine ⟨backed + 1, moving, isBacked.enter notBacked nowBacked (step.backed_elsewhere atPage),
      isMoving.congr (step.tally_same atPage (fun point => point.newPpid ≠ none) Iff.rfl), ?_⟩
    omega

theorem PageStep.getNew (step : PageStep s s' l page caller (.place ppid))
    (atPage : s.lwp l = .onPage caller page .pageGet) (physical : Physical seg pool s)
    (isPage : page < seg.numPages) (isFree : ppid ∈ s.free)
    (samePpid : (s'.vpg page).ppid = (s.vpg page).ppid) (nowFree : s'.free = s.free.erase ppid)
    (nowHeld : s'.pagesHeld = s.pagesHeld + 1) (sameReserved : s'.reserved = s.reserved) :
    Physical seg pool s' := by
  refine ⟨?_, ?_, step.reserved atPage physical rfl sameReserved, step.inSegment physical isPage⟩
  · refine physical.placed.transfer ppid (by simp : PhysicalPlace.free ≠ .lwp l) ?_ ?_ ?_
    · change s.free.Perm (ppid :: s'.free)
      rw [nowFree]
      exact perm_cons_erase isFree
    · rw [step.holding_self, holding_at atPage]
      exact Perm.refl _
    · intro place notFree notLwp
      cases place with
      | page other => exact (step.holding_pages atPage samePpid rfl other).1
      | lwp k => exact step.holding_lwp k fun isLwp => notLwp (by rw [isLwp])
      | free => exact absurd rfl notFree
      | others => exact step.others
  · obtain ⟨backed, moving, isBacked, isMoving, isHeld⟩ := physical.held
    refine ⟨backed, moving + 1, isBacked.congr fun other =>
      (step.holding_pages atPage samePpid rfl other).2, isMoving.enter (by
        rw [atPage]
        exact fun hasPage => hasPage rfl)
        (by
          rw [step.atPoint]
          exact some_ne_none ppid)
        (step.tally_others fun point => point.newPpid ≠ none), ?_⟩
    omega

theorem PageStep.freeOld (step : PageStep s s' l page caller (.assign newPpid))
    (atPage : s.lwp l = .onPage caller page (.pageFree newPpid))
    (alone : ∀ k, (s.lwp k).lockedPage = some page → k = l) (physical : Physical seg pool s)
    (isPage : page < seg.numPages) (isPpid : (s.vpg page).ppid = some ppid)
    (nowFree : s'.free = ppid :: s.free) (nowHeld : s'.pagesHeld = s.pagesHeld - 1)
    (sameReserved : s'.reserved = s.reserved) : Physical seg pool s' := by
  have wasBacked : Backed s page := by
    refine ⟨by rw [isPpid]; simp, fun k isAssigned => ?_⟩
    have isLwp := alone k (FgaLwp.lockedPage_of_assigned isAssigned)
    rw [isLwp, atPage] at isAssigned
    cases isAssigned
  have notBacked : ¬ Backed s' page := by
    intro backed
    refine backed.2 l ?_
    rw [step.lwp, update_self]
    rfl
  refine ⟨?_, ?_, step.reserved atPage physical rfl sameReserved, step.inSegment physical isPage⟩
  · refine physical.placed.transfer ppid (by simp : PhysicalPlace.page page ≠ .free) ?_ ?_ ?_
    · rw [holding_backed wasBacked isPpid, holding_not_backed notBacked]
    · change s'.free.Perm (ppid :: s.free)
      rw [nowFree]
    · intro place notPage notFree
      cases place with
      | page other =>
        exact step.holding_elsewhere atPage other fun isPage => notPage (by rw [isPage])
      | lwp k => exact step.holding_lwps atPage rfl k
      | free => exact absurd rfl notFree
      | others => exact step.others
  · obtain ⟨backed, moving, isBacked, isMoving, isHeld⟩ := physical.held
    obtain ⟨rest, isRest, nowBacked⟩ :=
      isBacked.leave wasBacked notBacked (step.backed_elsewhere atPage)
    refine ⟨rest, moving, nowBacked, isMoving.congr
      (step.tally_same atPage (fun point => point.newPpid ≠ none) Iff.rfl), ?_⟩
    omega

theorem PageStep.assignNew (step : PageStep s s' l page caller .unresv)
    (atPage : s.lwp l = .onPage caller page (.assign newPpid))
    (alone : ∀ k, (s.lwp k).lockedPage = some page → k = l) (physical : Physical seg pool s)
    (isPage : page < seg.numPages) (nowPpid : (s'.vpg page).ppid = some newPpid)
    (sameFree : s'.free = s.free) (sameHeld : s'.pagesHeld = s.pagesHeld)
    (sameReserved : s'.reserved = s.reserved) : Physical seg pool s' := by
  have notBacked : ¬ Backed s page := by
    intro backed
    refine backed.2 l ?_
    rw [atPage]
    rfl
  have nowBacked : Backed s' page := step.backed alone rfl nowPpid
  refine ⟨?_, ?_, step.reserved atPage physical rfl sameReserved, step.inSegment physical isPage⟩
  · refine physical.placed.transfer newPpid (by simp : PhysicalPlace.lwp l ≠ .page page) ?_ ?_ ?_
    · rw [holding_at atPage, step.holding_self]
      exact Perm.refl _
    · rw [holding_backed nowBacked nowPpid, holding_not_backed notBacked]
    · intro place notLwp notPage
      cases place with
      | page other =>
        exact step.holding_elsewhere atPage other fun isPage => notPage (by rw [isPage])
      | lwp k => exact step.holding_lwp k fun isLwp => notLwp (by rw [isLwp])
      | free => exact sameFree
      | others => exact step.others
  · obtain ⟨backed, moving, isBacked, isMoving, isHeld⟩ := physical.held
    obtain ⟨rest, isRest, nowMoving⟩ :=
      @Tally.leave _ _ (fun l => (s'.lwp l).point.newPpid ≠ none) _ l isMoving (by
        rw [atPage]
        exact some_ne_none newPpid)
        (by
          rw [step.atPoint]
          exact fun hasPage => hasPage rfl)
        (step.tally_others fun point => point.newPpid ≠ none)
    refine ⟨backed + 1, rest, isBacked.enter notBacked nowBacked (step.backed_elsewhere atPage),
      nowMoving, ?_⟩
    omega

theorem PageStep.putBack (step : PageStep s s' l page caller .unresv)
    (atPage : s.lwp l = .onPage caller page (.putBack newPpid)) (physical : Physical seg pool s)
    (isPage : page < seg.numPages) (samePpid : (s'.vpg page).ppid = (s.vpg page).ppid)
    (nowFree : s'.free = newPpid :: s.free) (nowHeld : s'.pagesHeld = s.pagesHeld - 1)
    (sameReserved : s'.reserved = s.reserved) : Physical seg pool s' := by
  refine ⟨?_, ?_, step.reserved atPage physical rfl sameReserved, step.inSegment physical isPage⟩
  · refine physical.placed.transfer newPpid (by simp : PhysicalPlace.lwp l ≠ .free) ?_ ?_ ?_
    · rw [holding_at atPage, step.holding_self]
      exact Perm.refl _
    · change s'.free.Perm (newPpid :: s.free)
      rw [nowFree]
    · intro place notLwp notFree
      cases place with
      | page other => exact (step.holding_pages atPage samePpid rfl other).1
      | lwp k => exact step.holding_lwp k fun isLwp => notLwp (by rw [isLwp])
      | free => exact absurd rfl notFree
      | others => exact step.others
  · obtain ⟨backed, moving, isBacked, isMoving, isHeld⟩ := physical.held
    obtain ⟨rest, isRest, nowMoving⟩ :=
      @Tally.leave _ _ (fun l => (s'.lwp l).point.newPpid ≠ none) _ l isMoving (by
        rw [atPage]
        exact some_ne_none newPpid)
        (by
          rw [step.atPoint]
          exact fun hasPage => hasPage rfl)
        (step.tally_others fun point => point.newPpid ≠ none)
    refine ⟨backed, rest, isBacked.congr fun other =>
      (step.holding_pages atPage samePpid rfl other).2, nowMoving, ?_⟩
    omega

theorem PageStep.resv (step : PageStep s s' l page caller .pageGet)
    (atPage : s.lwp l = .onPage caller page .resv) (physical : Physical seg pool s)
    (isPage : page < seg.numPages) (samePpid : (s'.vpg page).ppid = (s.vpg page).ppid)
    (sameFree : s'.free = s.free) (sameHeld : s'.pagesHeld = s.pagesHeld)
    (nowReserved : s'.reserved = s.reserved + 1) : Physical seg pool s' := by
  refine ⟨step.placed atPage physical samePpid rfl rfl sameFree,
    step.held atPage physical samePpid rfl rfl sameHeld, ?_, step.inSegment physical isPage⟩
  obtain ⟨extra, isExtra, isReserved⟩ := physical.reserved
  refine ⟨extra + 1, isExtra.enter (by
    rw [atPage]
    exact Bool.false_ne_true) (by
      rw [step.atPoint]
      rfl)
    (step.tally_others fun point => point.reserving = true), ?_⟩
  omega

theorem PageStep.unresv (step : PageStep s s' l page caller .load)
    (atPage : s.lwp l = .onPage caller page .unresv) (physical : Physical seg pool s)
    (isPage : page < seg.numPages) (samePpid : (s'.vpg page).ppid = (s.vpg page).ppid)
    (sameFree : s'.free = s.free) (sameHeld : s'.pagesHeld = s.pagesHeld)
    (nowReserved : s'.reserved = s.reserved - 1) : Physical seg pool s' := by
  refine ⟨step.placed atPage physical samePpid rfl rfl sameFree,
    step.held atPage physical samePpid rfl rfl sameHeld, ?_, step.inSegment physical isPage⟩
  obtain ⟨extra, isExtra, isReserved⟩ := physical.reserved
  obtain ⟨rest, isRest, nowExtra⟩ :=
    @Tally.leave _ _ (fun l => (s'.lwp l).point.reserving = true) _ l isExtra (by
      rw [atPage]
      rfl)
      (by
        rw [step.atPoint]
        exact Bool.false_ne_true)
      (step.tally_others fun point => point.reserving = true)
  exact ⟨rest, nowExtra, by omega⟩

end Moves

theorem Physical.exchange {seg : FgaSegment} {pool : List Nat} {s s' : SegState V}
    (physical : Physical seg pool s) {ppid : Nat} {source target : PhysicalPlace}
    (different : source ≠ target) (isSource : source = .free ∨ source = .others)
    (isTarget : target = .free ∨ target = .others)
    (left : (holding s source).Perm (ppid :: holding s' source))
    (arrived : (holding s' target).Perm (ppid :: holding s target)) (sameVpg : s'.vpg = s.vpg)
    (sameLwp : s'.lwp = s.lwp) (sameHeld : s'.pagesHeld = s.pagesHeld)
    (sameReserved : s'.reserved = s.reserved) : Physical seg pool s' := by
  have sameBacked : Backed s' = Backed s := by
    unfold Backed
    rw [sameVpg, sameLwp]
  refine ⟨?_, ?_, ?_, ?_⟩
  · refine physical.placed.transfer ppid different left arrived fun place notSource notTarget => ?_
    cases place with
    | page page => exact holding_page_congr (by rw [sameVpg]) fun l => by rw [sameLwp]
    | lwp l => simp only [holding, sameLwp]
    | free =>
      rcases isSource with rfl | rfl
      · exact absurd rfl notSource
      · rcases isTarget with rfl | rfl
        · exact absurd rfl notTarget
        · exact absurd rfl different
    | others =>
      rcases isSource with rfl | rfl
      · rcases isTarget with rfl | rfl
        · exact absurd rfl different
        · exact absurd rfl notTarget
      · exact absurd rfl notSource
  · rw [sameBacked, sameLwp, sameHeld]
    exact physical.held
  · rw [sameLwp, sameReserved]
    exact physical.reserved
  · rw [sameVpg]
    exact physical.inSegment

end Uw7.Fga
