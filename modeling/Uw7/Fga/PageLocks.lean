import Uw7.Fga.Softlocks

namespace Uw7.Fga

/-!
# Page locks

Each page is locked by one LWP at most, and the state of the page is the one that goes
with the place where that LWP is.  What another LWP or a processor does keeps this.
-/

open Lib Function

variable {V : Type} [Inhabited V]

/-- The place of the LWP that has the page locked. -/
def pointAt (s : SegState V) : Option Nat → PagePoint
  | none => .enter
  | some l => (s.lwp l).point

structure Latched (s : SegState V) (owner : Nat → Option Nat) : Prop where
  owned : Owned owner fun l => (s.lwp l).lockedPage
  flag : ∀ page, (s.vpg page).lockFlag = (owner page).isSome
  pages : ∀ page, PageOk s page (pointAt s (owner page))

namespace Latched

variable {seg : FgaSegment} {pool : List Nat} {s s' : SegState V}
  {owner : Nat → Option Nat} {l page : Nat} {caller : PageCaller}
  {point point' : PagePoint} {next : FgaLwp}

section

variable (latched : Latched s owner)
include latched

theorem ok (atPage : s.lwp l = .onPage caller page point) (holds : point.holdsLock = true) :
    owner page = some l ∧ PageOk s page point := by
  have isOwner : owner page = some l := by
    refine (latched.owned page l).mpr ?_
    simp only [atPage]
    exact if_pos holds
  have isOk := latched.pages page
  rw [isOwner] at isOk
  simp only [pointAt, atPage] at isOk
  exact ⟨isOwner, isOk⟩

theorem alone (atPage : s.lwp l = .onPage caller page point) (holds : point.holdsLock = true)
    (k : Nat) (isLocked : (s.lwp k).lockedPage = some page) : k = l := by
  refine latched.owned.exclusive isLocked ?_
  simp only [atPage]
  exact if_pos holds

theorem unlocked (isFree : (s.vpg page).lockFlag = false) : owner page = none ∧ Stable s page := by
  have noOwner : owner page = none := by
    rw [latched.flag page] at isFree
    exact Option.not_isSome_iff_eq_none.mp (by simp [isFree])
  have isOk := latched.pages page
  rw [noOwner] at isOk
  exact ⟨noOwner, isOk⟩

theorem pointAt_other (sameLwp : s'.lwp = update s.lwp l next) {other : Nat}
    (notHere : (s.lwp l).lockedPage ≠ some other) :
    pointAt s' (owner other) = pointAt s (owner other) := by
  cases isOwner : owner other with
  | none => rfl
  | some k =>
    have isLocked := (latched.owned other k).mp isOwner
    have isLwp : k ≠ l := by
      intro isLwp
      subst k
      exact notHere isLocked
    simp only [pointAt, sameLwp, update_of_ne isLwp]

theorem backed {ppid : Nat} (isPpid : (s.vpg page).ppid = some ppid)
    (notAssigning : (pointAt s (owner page)).assigning = false) : Backed s page := by
  refine ⟨by rw [isPpid]; simp, fun k isAssigned => ?_⟩
  have isOwner : owner page = some k :=
    (latched.owned page k).mpr (FgaLwp.lockedPage_of_assigned isAssigned)
  rw [isOwner] at notAssigning
  cases isLwp : s.lwp k with
  | idle | softunlock =>
    rw [isLwp] at isAssigned
    cases isAssigned
  | onPage other current place =>
    rw [isLwp] at isAssigned
    simp only [pointAt, isLwp, FgaLwp.point] at notAssigning
    simp [FgaLwp.assigned, notAssigning] at isAssigned

theorem sameData (physical : Physical seg pool s) {written : Nat} {place : PhysicalPlace}
    (isPlace : written ∈ holding s place)
    (sameMemory : ∀ other, other ≠ written → s'.memory other = s.memory other)
    (notHere : place ≠ .page page) (notAssigning : (pointAt s (owner page)).assigning = false) :
    SameData s s' page := by
  intro ppid isPpid
  refine sameMemory ppid fun isWritten => ?_
  rw [isWritten] at isPpid
  exact notHere (physical.unshared (latched.backed isPpid notAssigning) isPpid isPlace)

end

omit [Inhabited V] in
theorem sameNew (physical : Physical seg pool s) {written : Nat} {place : PhysicalPlace}
    (isPlace : written ∈ holding s place)
    (sameMemory : ∀ other, other ≠ written → s'.memory other = s.memory other)
    (notThere : ∀ k, owner page = some k → place ≠ .lwp k) (newPpid : Nat)
    (isNew : (pointAt s (owner page)).newPpid = some newPpid) :
    s'.memory newPpid = s.memory newPpid := by
  cases isOwner : owner page with
  | none =>
    rw [isOwner] at isNew
    cases isNew
  | some k =>
    rw [isOwner] at isNew
    refine sameMemory newPpid fun isWritten => ?_
    have inLwp : written ∈ holding s (.lwp k) := by
      rw [← isWritten]
      change newPpid ∈ (pointAt s (some k)).newPpid.toList
      rw [isNew]
      exact List.mem_cons_self
    exact notThere k isOwner (physical.placed.unique written place (.lwp k) isPlace inLwp)

section

variable (latched : Latched s owner) (atPage : s.lwp l = .onPage caller page point)
  (holds : point.holdsLock = true) (step : PageStep s s' l page caller point')
  (holds' : point'.holdsLock = true) (sameLock : (s'.vpg page).lockFlag = (s.vpg page).lockFlag)
  (sameXlat : ∀ other, other ≠ page → s'.xlat other = s.xlat other)
  (fewerTlb : ∀ other, ∀ cached ∈ s'.tlb other, cached ∈ s.tlb other)
  (sameContents : s'.contents = s.contents)
include latched atPage holds step holds' sameLock sameXlat fewerTlb sameContents

theorem onPage (sameData : ∀ other, other ≠ page →
    (pointAt s (owner other)).assigning = false → SameData s s' other)
    (sameNew : ∀ other, other ≠ page → ∀ newPpid, (pointAt s (owner other)).newPpid = some newPpid →
      s'.memory newPpid = s.memory newPpid) (ok : PageOk s' page point') :
    Latched s' owner := by
  have lockedHere : (s.lwp l).lockedPage = some page := by
    rw [atPage]
    exact if_pos holds
  refine ⟨?_, ?_, ?_⟩
  · refine latched.owned.congr (fun _ => rfl) fun k => ?_
    by_cases isLwp : k = l
    · subst k
      rw [lockedHere, step.lwp, update_self]
      exact if_pos holds'
    · rw [step.lwp, update_of_ne isLwp]
  · intro other
    by_cases isPage : other = page
    · subst other
      rw [sameLock]
      exact latched.flag page
    · rw [step.vpg other isPage]
      exact latched.flag other
  · intro other
    by_cases isPage : other = page
    · subst other
      rw [(latched.ok atPage holds).1]
      simp only [pointAt, step.atPoint]
      exact ok
    · rw [latched.pointAt_other step.lwp (by
        rw [lockedHere]
        exact fun isSame => isPage (Option.some.inj isSame).symm)]
      refine (latched.pages other).frame ⟨?_, ?_, ?_, ?_, sameXlat other isPage, fewerTlb other,
        congrFun sameContents other⟩ (sameData other isPage) (sameNew other isPage)
      all_goals rw [step.vpg other isPage]

theorem onPageQuietly (sameMemory : s'.memory = s.memory) (ok : PageOk s' page point') :
    Latched s' owner :=
  latched.onPage atPage holds step holds' sameLock sameXlat fewerTlb
    sameContents (fun _ _ _ ppid _ => congrFun sameMemory ppid)
    (fun _ _ newPpid _ => congrFun sameMemory newPpid) ok

end

omit [Inhabited V] in
theorem samePages (sameVpg : ∀ page, s'.vpg page =
    { s.vpg page with lockFlag := (s'.vpg page).lockFlag }) (sameXlat : s'.xlat = s.xlat)
    (sameTlb : s'.tlb = s.tlb) (sameContents : s'.contents = s.contents) (page : Nat) :
    SamePage s s' page where
  migrate := by rw [sameVpg page]
  delMigrate := by rw [sameVpg page]
  count := by rw [sameVpg page]
  ppid := by rw [sameVpg page]
  xlat := congrFun sameXlat page
  tlb := by
    rw [sameTlb]
    exact fun _ inTlb => inTlb
  contents := congrFun sameContents page

section

variable (latched : Latched s owner)
include latched

theorem lock (atPage : s.lwp l = .onPage caller page .enter)
    (isFree : (s.vpg page).lockFlag = false)
    (sameLwp : s'.lwp = update s.lwp l (.onPage caller page point'))
    (holds' : point'.holdsLock = true)
    (stableThere : ∀ s : SegState V, Stable s page → PageOk s page point')
    (sameVpg : ∀ page, s'.vpg page = { s.vpg page with lockFlag := (s'.vpg page).lockFlag })
    (nowLocked : (s'.vpg page).lockFlag = true)
    (others : ∀ other, other ≠ page → s'.vpg other = s.vpg other) (sameXlat : s'.xlat = s.xlat)
    (sameTlb : s'.tlb = s.tlb) (sameContents : s'.contents = s.contents)
    (sameMemory : s'.memory = s.memory) : Latched s' (update owner page (some l)) := by
  obtain ⟨noOwner, stable⟩ := latched.unlocked isFree
  have notHere : ∀ other, (s.lwp l).lockedPage ≠ some other := by
    intro other isLocked
    rw [atPage] at isLocked
    cases isLocked
  refine ⟨?_, ?_, ?_⟩
  · refine @Owned.acquire _ _ _ _ _ _ page l latched.owned noOwner
      (by rw [atPage]; rfl) (update_self _ _ _)
      (fun other isPage => update_of_ne isPage _ _) ?_ ?_
    · simp only [sameLwp, update_self]
      exact if_pos holds'
    · intro k isLwp
      rw [sameLwp, update_of_ne isLwp]
  · intro other
    by_cases isPage : other = page
    · subst other
      rw [nowLocked, update_self]
      rfl
    · rw [others other isPage, update_of_ne isPage]
      exact latched.flag other
  · intro other
    have same := @samePages V s s' sameVpg sameXlat sameTlb sameContents other
    have sameData : SameData s s' other := fun ppid _ => congrFun sameMemory ppid
    by_cases isPage : other = page
    · subst other
      simp only [pointAt, sameLwp, update_self]
      exact stableThere s' (stable.carried (same.carried sameData))
    · rw [update_of_ne isPage, latched.pointAt_other sameLwp (notHere other)]
      exact (latched.pages other).frame same (fun _ => sameData)
        fun newPpid _ => congrFun sameMemory newPpid

theorem unlock (atPage : s.lwp l = .onPage caller page point)
    (holds : point.holdsLock = true) (stable : Stable s page)
    (sameLwp : s'.lwp = update s.lwp l next) (notHolding : next.lockedPage = none)
    (sameVpg : ∀ page, s'.vpg page = { s.vpg page with lockFlag := (s'.vpg page).lockFlag })
    (nowFree : (s'.vpg page).lockFlag = false)
    (others : ∀ other, other ≠ page → s'.vpg other = s.vpg other) (sameXlat : s'.xlat = s.xlat)
    (sameTlb : s'.tlb = s.tlb) (sameContents : s'.contents = s.contents)
    (sameMemory : s'.memory = s.memory) : Latched s' (update owner page none) := by
  have lockedHere : (s.lwp l).lockedPage = some page := by
    rw [atPage]
    exact if_pos holds
  refine ⟨?_, ?_, ?_⟩
  · refine @Owned.release _ _ _ _ _ _ page l latched.owned lockedHere (update_self _ _ _)
      (fun other isPage => update_of_ne isPage _ _) ?_ ?_
    · simp only [sameLwp, update_self]
      exact notHolding
    · intro k isLwp
      rw [sameLwp, update_of_ne isLwp]
  · intro other
    by_cases isPage : other = page
    · subst other
      rw [nowFree, update_self]
      rfl
    · rw [others other isPage, update_of_ne isPage]
      exact latched.flag other
  · intro other
    have same := @samePages V s s' sameVpg sameXlat sameTlb sameContents other
    have sameData : SameData s s' other := fun ppid _ => congrFun sameMemory ppid
    by_cases isPage : other = page
    · subst other
      rw [update_self]
      exact stable.carried (same.carried sameData)
    · rw [update_of_ne isPage, latched.pointAt_other sameLwp (by
        rw [lockedHere]
        exact fun isSame => isPage (Option.some.inj isSame).symm)]
      exact (latched.pages other).frame same (fun _ => sameData)
        fun newPpid _ => congrFun sameMemory newPpid

theorem outside (sameLwp : s'.lwp = update s.lwp l next)
    (wasNot : (s.lwp l).lockedPage = none) (isNot : next.lockedPage = none)
    (sameVpg : s'.vpg = s.vpg) (sameXlat : s'.xlat = s.xlat) (sameTlb : s'.tlb = s.tlb)
    (sameContents : s'.contents = s.contents) (sameMemory : s'.memory = s.memory) :
    Latched s' owner := by
  refine ⟨?_, ?_, ?_⟩
  · refine latched.owned.congr (fun _ => rfl) fun k => ?_
    by_cases isLwp : k = l
    · subst k
      rw [sameLwp, update_self, isNot, wasNot]
    · rw [sameLwp, update_of_ne isLwp]
  · intro page
    rw [sameVpg]
    exact latched.flag page
  · intro page
    rw [latched.pointAt_other sameLwp (by
      rw [wasNot]
      exact fun isSome => by cases isSome)]
    refine (latched.pages page).frame (samePages (fun page => by rw [sameVpg]) sameXlat sameTlb
      sameContents page) (fun _ ppid _ => congrFun sameMemory ppid)
      fun newPpid _ => congrFun sameMemory newPpid

theorem fromOutside (sameLwp : s'.lwp = s.lwp)
    (sameFlag : ∀ page, (s'.vpg page).lockFlag = (s.vpg page).lockFlag)
    (pages : ∀ page, PageOk s page (pointAt s (owner page)) →
      PageOk s' page (pointAt s (owner page))) :
    Latched s' owner := by
  refine ⟨?_, ?_, ?_⟩
  · rw [sameLwp]
    exact latched.owned
  · intro page
    rw [sameFlag page]
    exact latched.flag page
  · intro page
    have samePoint : pointAt s' (owner page) = pointAt s (owner page) := by
      unfold pointAt
      rw [sameLwp]
    rw [samePoint]
    exact pages page (latched.pages page)

end

end Latched

end Uw7.Fga
