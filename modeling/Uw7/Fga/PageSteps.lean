import Uw7.Fga.PageLocks

namespace Uw7.Fga

/-!
# Steps of an LWP on a page

One lemma for each place in the routines: what the LWP does there keeps the invariant,
and no page with a softlock gets another physical page.
-/

open Lib Function Option

variable {V : Type} [Inhabited V]

/-- What holds between two accesses. -/
structure FgaInv (seg : FgaSegment) (pool : List Nat) (s : SegState V) : Prop where
  latched : ∃ owner, Latched s owner
  physical : Physical seg pool s
  softlocks : Softlocks s
  fits : ∀ l, (s.lwp l).Fits seg
  confined : s.wild = false

/-- Pages with softlocks keep their physical pages. -/
def Stays (s s' : SegState V) : Prop := ∀ page, 0 < (s.vpg page).softlockCnt →
    (s'.vpg page).ppid = (s.vpg page).ppid

/-- What an LWP does at a place keeps the invariant. -/
def PointKept (seg : FgaSegment) (pool : List Nat) (s : SegState V) (l : Nat)
    (outcome : FgaOutcome) (caller : PageCaller) (page : Nat) (point : PagePoint) : Prop :=
  FgaInv seg pool s → s.lwp l = .onPage caller page point →
    ∀ s', pageStep seg s l outcome caller page point = some s' → FgaInv seg pool s' ∧ Stays s s'

/-- A step of an LWP that has to do with its page only, and stores nothing. -/
structure Quietly (s s' : SegState V) (l page : Nat) (caller : PageCaller)
    (point' : PagePoint) : Prop
    extends PageStep s s' l page caller point' where
  lock : (s'.vpg page).lockFlag = (s.vpg page).lockFlag
  count : (s'.vpg page).softlockCnt = (s.vpg page).softlockCnt
  ppid : (s'.vpg page).ppid = (s.vpg page).ppid
  xlat : ∀ other, other ≠ page → s'.xlat other = s.xlat other
  tlb : ∀ other, ∀ cached ∈ s'.tlb other, cached ∈ s.tlb other
  contents : s'.contents = s.contents
  memory : s'.memory = s.memory
  free : s'.free = s.free
  held : s'.pagesHeld = s.pagesHeld
  reserved : s'.reserved = s.reserved
  granted : s'.granted = s.granted
  wild : s'.wild = s.wild

section Quiet

variable {seg : FgaSegment} {pool : List Nat} {s s' : SegState V}
  {l page : Nat} {caller : PageCaller} {point point' : PagePoint}

omit [Inhabited V] in
theorem quietly_setLwp : Quietly s (s.setLwp l (.onPage caller page point')) l page caller
    point' where
  lwp := rfl
  vpg := fun _ _ => rfl
  others := rfl
  lock := rfl
  count := rfl
  ppid := rfl
  xlat := fun _ _ => rfl
  tlb := fun _ _ inTlb => inTlb
  contents := rfl
  memory := rfl
  free := rfl
  held := rfl
  reserved := rfl
  granted := rfl
  wild := rfl

omit [Inhabited V] in
theorem quietly_setVpg {change : Vpg → Vpg}
    (sameLock : (change (s.vpg page)).lockFlag = (s.vpg page).lockFlag)
    (sameCount : (change (s.vpg page)).softlockCnt = (s.vpg page).softlockCnt)
    (samePpid : (change (s.vpg page)).ppid = (s.vpg page).ppid) :
    Quietly s ((s.setVpg page change).setLwp l (.onPage caller page point')) l page
      caller point' where
  lwp := rfl
  vpg := fun _ isPage => update_of_ne isPage _ _
  others := rfl
  lock := by
    simp only [SegState.setLwp, SegState.setVpg, update_self]
    exact sameLock
  count := by
    simp only [SegState.setLwp, SegState.setVpg, update_self]
    exact sameCount
  ppid := by
    simp only [SegState.setLwp, SegState.setVpg, update_self]
    exact samePpid
  xlat := fun _ _ => rfl
  tlb := fun _ _ inTlb => inTlb
  contents := rfl
  memory := rfl
  free := rfl
  held := rfl
  reserved := rfl
  granted := rfl
  wild := rfl

omit [Inhabited V] in
theorem quietly_xlat {mapped : Option Nat} : Quietly s
    ((s.setXlat page mapped).setLwp l (.onPage caller page point')) l page caller point' :=
  { @quietly_setLwp V s l page caller point' with
    xlat := fun _ isPage => update_of_ne isPage _ _ }

omit [Inhabited V] in
theorem quietly_tlb : Quietly s (({ s with tlb := fun _ => [] } : SegState V).setLwp l
    (.onPage caller page point')) l page caller point' :=
  { @quietly_setLwp V s l page caller point' with
    tlb := fun _ _ inTlb => (by cases inTlb) }

omit [Inhabited V] in
theorem Quietly.counts (quietly : Quietly s s' l page caller point') (other : Nat) :
    (s'.vpg other).softlockCnt = (s.vpg other).softlockCnt := by
  by_cases isPage : other = page
  · subst other
    exact quietly.count
  · rw [quietly.vpg other isPage]

omit [Inhabited V] in
theorem Quietly.ppids (quietly : Quietly s s' l page caller point') (other : Nat) :
    (s'.vpg other).ppid = (s.vpg other).ppid := by
  by_cases isPage : other = page
  · subst other
    exact quietly.ppid
  · rw [quietly.vpg other isPage]

omit [Inhabited V] in
theorem fits_update (fits : ∀ l, (s.lwp l).Fits seg) {next : FgaLwp}
    (sameLwp : s'.lwp = update s.lwp l next) (fitsNext : next.Fits seg) (k : Nat) :
    (s'.lwp k).Fits seg := by
  by_cases isLwp : k = l
  · subst k
    rw [sameLwp, update_self]
    exact fitsNext
  · rw [sameLwp, update_of_ne isLwp]
    exact fits k

omit [Inhabited V] in
theorem FgaInv.at [Inhabited V] (inv : FgaInv seg pool s)
    (atPage : s.lwp l = .onPage caller page point) :
    caller.Fits seg page ∧ point.Fits caller page := by
  have fits := inv.fits l
  rw [atPage] at fits
  exact fits

theorem FgaInv.quiet (inv : FgaInv seg pool s) (atPage : s.lwp l = .onPage caller page point)
    (holds : point.holdsLock = true) (quietly : Quietly s s' l page caller point')
    (holds' : point'.holdsLock = true) (physical : (FgaLwp.onPage caller page point').physical =
      (FgaLwp.onPage caller page point).physical)
    (pending : ∀ other, (FgaLwp.onPage caller page point').Pending other ↔
      (FgaLwp.onPage caller page point).Pending other)
    (fits : point'.Fits caller page) (ok : PageOk s page point → PageOk s' page point') :
    FgaInv seg pool s' ∧ Stays s s' := by
  obtain ⟨owner, latched⟩ := inv.latched
  refine ⟨⟨⟨owner, ?_⟩, ?_, ?_, ?_, ?_⟩, fun other _ => quietly.ppids other⟩
  · exact latched.onPageQuietly atPage holds quietly.toPageStep holds'
      quietly.lock quietly.xlat quietly.tlb quietly.contents
      quietly.memory (ok (latched.ok atPage holds).2)
  · refine inv.physical.congr quietly.ppids (fun k => ?_) quietly.free
      quietly.others quietly.held quietly.reserved
    rw [quietly.lwp]
    exact physical_update (by rw [atPage]; exact physical) k
  · exact inv.softlocks.congr quietly.counts quietly.granted quietly.lwp fun other => by
      rw [atPage]
      exact pending other
  · exact fits_update inv.fits quietly.lwp ⟨(inv.at atPage).1, fits⟩
  · exact quietly.wild.trans inv.confined

end Quiet

section Local

variable {s s' : SegState V} {l page : Nat} {caller : PageCaller}

omit [Inhabited V] in
theorem Keeps.of_same {ppid : Nat} (keeps : Keeps s page ppid)
    (samePpid : (s'.vpg page).ppid = (s.vpg page).ppid)
    (fewerTlb : ∀ cached ∈ s'.tlb page, cached ∈ s.tlb page)
    (sameMemory : s'.memory ppid = s.memory ppid) (sameContents : s'.contents = s.contents) :
    Keeps s' page ppid where
  here := samePpid.trans keeps.here
  tlb := fun cached inTlb => keeps.tlb cached (fewerTlb cached inTlb)
  data := by
    rw [sameMemory, sameContents]
    exact keeps.data

omit [Inhabited V] in
theorem samePage_of_eq (sameVpg : s'.vpg page = s.vpg page) (sameXlat : s'.xlat page = s.xlat page)
    (fewerTlb : ∀ cached ∈ s'.tlb page, cached ∈ s.tlb page)
    (sameContents : s'.contents = s.contents) : SamePage s s' page where
  migrate := by rw [sameVpg]
  delMigrate := by rw [sameVpg]
  count := by rw [sameVpg]
  ppid := by rw [sameVpg]
  xlat := sameXlat
  tlb := fewerTlb
  contents := congrFun sameContents page

theorem PageOk.goOn {point : PagePoint} {next : FgaLwp} (ok : PageOk s page point) :
    PageOk (s.setLwp l next) page point :=
  ok.frame (samePage_of_eq rfl rfl (fun _ inTlb => inTlb) rfl) (fun _ _ _ => rfl) fun _ _ => rfl

omit [Inhabited V] in
theorem vpg_setVpg (change : Vpg → Vpg) (next : FgaLwp) :
    ((s.setVpg page change).setLwp l next).vpg page = change (s.vpg page) := by
  simp only [SegState.setLwp, SegState.setVpg, update_self]

theorem Cleared.stable {ppid : Nat} (keeps : Keeps s page ppid) (cleared : Cleared s page)
    (mapped : s'.xlat page = some ppid) (sameVpg : s'.vpg page = s.vpg page)
    (sameTlb : s'.tlb = s.tlb) (sameMemory : s'.memory = s.memory)
    (sameContents : s'.contents = s.contents) : Settled s' page := by
  have keeps' : Keeps s' page ppid :=
    keeps.of_same (by rw [sameVpg]) (by rw [sameTlb]; exact fun _ h => h)
      (by rw [sameMemory]) sameContents
  constructor
  case toStable =>
    constructor
    case exclusive =>
      rw [sameVpg, cleared.migrate]
      exact fun both => by cases both.1
    case absent =>
      intro noPpid
      exact absurd (keeps'.here.symm.trans noPpid) (by simp)
    case migrating =>
      rw [sameVpg, cleared.migrate]
      exact fun isTrue => by cases isTrue
    case present =>
      intro other isPpid
      have same : ppid = other := some.inj (keeps'.here.symm.trans isPpid)
      subst same
      exact ⟨keeps', fun _ => mapped⟩
  case backed =>
    rw [keeps'.here]
    exact some_ne_none ppid
  case staying =>
    rw [sameVpg]
    exact cleared.migrate

theorem PageOk.mark (ok : PageOk s page .check) (isMarked :
    (s.vpg page).softlockCnt = 0 ∧ (s.vpg page).delMigrateFlag = true) :
    PageOk ((s.setVpg page fun v =>
      { v with delMigrateFlag := false, migrateFlag := true }).setLwp l
        (.onPage caller page .unload)) page .unload := by
  have stable : Stable s page := ok
  obtain ⟨noLocks, isDelayed⟩ := isMarked
  cases isPpid : (s.vpg page).ppid with
  | none =>
    rw [(stable.absent isPpid).2.2.1] at isDelayed
    cases isDelayed
  | some ppid =>
    obtain ⟨keeps, mapped⟩ := stable.present ppid isPpid
    have staying : (s.vpg page).migrateFlag = false := by
      by_contra isMigrating
      exact stable.exclusive ⟨by simpa using isMigrating, isDelayed⟩
    refine ⟨ppid, ?_, ?_, ?_, ?_, ?_⟩
    · exact keeps.of_same (by rw [vpg_setVpg]) (fun _ inTlb => inTlb) rfl rfl
    · rw [vpg_setVpg]
      exact noLocks
    · rw [vpg_setVpg]
    · rw [vpg_setVpg]
    · intro other isMapped
      change s.xlat page = some other at isMapped
      rw [mapped staying] at isMapped
      exact (some.inj isMapped).symm

theorem PageOk.unload (ok : PageOk s page .unload) : PageOk
    ((s.setXlat page none).setLwp l (.onPage caller page .shootdown)) page .shootdown := by
  obtain ⟨ppid, keeps, noLocks, notDelayed, isMigrating, _⟩ := ok
  exact ⟨ppid, keeps.of_same rfl (fun _ inTlb => inTlb) rfl rfl, noLocks,
    notDelayed, isMigrating, update_self _ _ _⟩

theorem Keeps.migrating {ppid : Nat} (keeps : Keeps s page ppid)
    (noLocks : (s.vpg page).softlockCnt = 0) (notDelayed : (s.vpg page).delMigrateFlag = false)
    (isMigrating : (s.vpg page).migrateFlag = true) (noXlat : s.xlat page = none)
    (noTlb : s.tlb page = []) : Stable s page where
  exclusive := by
    rw [notDelayed]
    exact fun both => by cases both.2
  absent := fun noPpid => absurd (keeps.here.symm.trans noPpid) (by simp)
  migrating := fun _ => ⟨noLocks, noXlat, noTlb⟩
  present := by
    intro other isPpid
    have same : ppid = other := some.inj (keeps.here.symm.trans isPpid)
    subst same
    refine ⟨keeps, fun staying => ?_⟩
    rw [isMigrating] at staying
    cases staying

theorem PageOk.shootdown (ok : PageOk s page .shootdown) : PageOk
    (({ s with tlb := fun _ => [] } : SegState V).setLwp l
      (.onPage caller page .fault)) page .fault := by
  obtain ⟨ppid, keeps, noLocks, notDelayed, isMigrating, noXlat⟩ := ok
  have keeps' : Keeps (({ s with tlb := fun _ => [] } : SegState V).setLwp l
      (.onPage caller page .fault)) page ppid :=
    keeps.of_same rfl (fun _ inTlb => by cases inTlb) rfl rfl
  exact keeps'.migrating noLocks notDelayed isMigrating noXlat rfl

theorem PageOk.reaffine (ok : PageOk s page .reaffineCheck) (isBacked : (s.vpg page).ppid ≠ none)
    (noLocks : (s.vpg page).softlockCnt = 0) :
    PageOk (s.setLwp l (.onPage caller page .reaffineUnload)) page .reaffineUnload := by
  have stable : Stable s page := ok
  obtain ⟨ppid, isPpid⟩ := Option.ne_none_iff_exists'.mp isBacked
  obtain ⟨keeps, mapped⟩ := stable.present ppid isPpid
  refine ⟨ppid, keeps.of_same rfl (fun _ inTlb => inTlb) rfl rfl, noLocks, stable.exclusive, ?_⟩
  intro other isMapped
  change s.xlat page = some other at isMapped
  cases isMigrating : (s.vpg page).migrateFlag with
  | true =>
    rw [(stable.migrating isMigrating).2.1] at isMapped
    cases isMapped
  | false =>
    rw [mapped isMigrating] at isMapped
    exact (some.inj isMapped).symm

theorem PageOk.delay (ok : PageOk s page .reaffineCheck) (isBacked : (s.vpg page).ppid ≠ none)
    (isLocked : (s.vpg page).softlockCnt ≠ 0) :
    PageOk ((s.setVpg page fun v => { v with delMigrateFlag := true }).setLwp l
      (.onPage caller page .unlock)) page .unlock := by
  have stable : Stable s page := ok
  have staying := (stable.of_softlock isLocked).2
  constructor
  case exclusive =>
    rw [vpg_setVpg]
    exact fun both => absurd (staying.symm.trans both.1) (by simp)
  case absent =>
    rw [vpg_setVpg]
    exact fun noPpid => absurd noPpid isBacked
  case migrating =>
    rw [vpg_setVpg]
    exact fun isMigrating => absurd (staying.symm.trans isMigrating) (by simp)
  case present =>
    rw [vpg_setVpg]
    intro ppid isPpid
    obtain ⟨keeps, mapped⟩ := stable.present ppid isPpid
    exact ⟨keeps.of_same (by rw [vpg_setVpg]) (fun _ inTlb => inTlb) rfl rfl, mapped⟩

theorem PageOk.reaffineUnload (ok : PageOk s page .reaffineUnload) : PageOk
    ((s.setXlat page none).setLwp l (.onPage caller page .reaffineShootdown)) page
    .reaffineShootdown := by
  obtain ⟨ppid, keeps, noLocks, exclusive, _⟩ := ok
  exact ⟨ppid, keeps.of_same rfl (fun _ inTlb => inTlb) rfl rfl, noLocks,
    exclusive, update_self _ _ _⟩

theorem PageOk.reaffineShootdown (ok : PageOk s page .reaffineShootdown) : PageOk
    (({ s with tlb := fun _ => [] } : SegState V).setLwp l
      (.onPage caller page .reaffineFlags)) page .reaffineFlags := by
  obtain ⟨ppid, keeps, noLocks, exclusive, noXlat⟩ := ok
  exact ⟨ppid, keeps.of_same rfl (fun _ inTlb => by cases inTlb) rfl rfl,
    noLocks, exclusive, noXlat, rfl⟩

theorem PageOk.reaffineFlags {point : PagePoint} (ok : PageOk s page .reaffineFlags) : Stable
    ((s.setVpg page fun v =>
      { v with delMigrateFlag := false, migrateFlag := true }).setLwp l
        (.onPage caller page point)) page := by
  obtain ⟨ppid, keeps, noLocks, _, noXlat, noTlb⟩ := ok
  have keeps' : Keeps ((s.setVpg page fun v =>
      { v with delMigrateFlag := false, migrateFlag := true }).setLwp l
        (.onPage caller page point)) page ppid :=
    keeps.of_same (by rw [vpg_setVpg]) (fun _ inTlb => inTlb) rfl rfl
  refine keeps'.migrating ?_ ?_ ?_ noXlat noTlb
  all_goals rw [vpg_setVpg]
  exact noLocks

theorem PageOk.migrate (ok : PageOk s page .fault) (isBacked : (s.vpg page).ppid ≠ none)
    (isMigrating : (s.vpg page).migrateFlag = true) :
    PageOk ((s.setVpg page fun v => { v with migrateFlag := false }).setLwp l
      (.onPage caller page .resv)) page .resv := by
  have stable : Stable s page := ok
  obtain ⟨ppid, isPpid⟩ := Option.ne_none_iff_exists'.mp isBacked
  obtain ⟨keeps, _⟩ := stable.present ppid isPpid
  obtain ⟨noLocks, noXlat, noTlb⟩ := stable.migrating isMigrating
  have notDelayed : (s.vpg page).delMigrateFlag = false := by
    by_contra isDelayed
    exact stable.exclusive ⟨isMigrating, by simpa using isDelayed⟩
  refine ⟨⟨ppid, keeps.of_same (by rw [vpg_setVpg]) (fun _ inTlb => inTlb) rfl rfl⟩,
    ?_, ?_, ?_, noXlat, noTlb⟩
  all_goals rw [vpg_setVpg]
  · exact noLocks
  · exact notDelayed

theorem PageOk.load (ok : PageOk s page .load) : Settled
    ((s.setXlat page (s.vpg page).ppid).setLwp l (.onPage caller page caller.faulted)) page := by
  obtain ⟨⟨ppid, keeps⟩, cleared⟩ := ok
  refine cleared.stable keeps ?_ rfl rfl rfl rfl
  change update s.xlat page (s.vpg page).ppid page = some ppid
  rw [update_self]
  exact keeps.here

theorem Settled.faulted (settled : Settled s page) : PageOk s page caller.faulted := by
  cases caller with
  | fault request =>
    cases isSoftlock : request.isSoftlock with
    | true =>
      simp only [PageCaller.faulted, isSoftlock, if_true]
      exact settled
    | false =>
      simp only [PageCaller.faulted, isSoftlock, Bool.false_eq_true, if_false]
      exact settled.toStable
  | reaffine | lockmem => exact settled.toStable

theorem PageOk.settled (ok : PageOk s page .fault) (isBacked : (s.vpg page).ppid ≠ none)
    (notMigrating : ¬ (s.vpg page).migrateFlag = true) : Settled s page :=
  ⟨ok, isBacked, by simpa using notMigrating⟩

end Local

section Steps

variable {seg : FgaSegment} {pool : List Nat} {s s' : SegState V}
  {l page : Nat} {caller : PageCaller} {point point' : PagePoint}

theorem FgaInv.goOn (inv : FgaInv seg pool s)
    (atPage : s.lwp l = .onPage caller page point) (holds : point.holdsLock = true)
    (holds' : point'.holdsLock = true) (physical : (FgaLwp.onPage caller page point').physical =
      (FgaLwp.onPage caller page point).physical)
    (pending : ∀ other, (FgaLwp.onPage caller page point').Pending other ↔
      (FgaLwp.onPage caller page point).Pending other)
    (fits : point'.Fits caller page) (ok : PageOk s page point → PageOk s page point') :
    FgaInv seg pool (s.setLwp l (.onPage caller page point')) ∧
      Stays s (s.setLwp l (.onPage caller page point')) :=
  inv.quiet atPage holds quietly_setLwp holds' physical pending fits fun isOk => (ok isOk).goOn

theorem PageCaller.faulted_plain (caller : PageCaller) : caller.faulted.holdsLock = true ∧
    (FgaLwp.onPage caller page caller.faulted).physical = (none, false, none) ∧
    caller.faulted.Fits caller page := by
  cases caller with
  | fault request =>
    cases isSoftlock : request.isSoftlock with
    | true =>
      simp only [PageCaller.faulted, isSoftlock, if_true]
      exact ⟨rfl, rfl, request, rfl, isSoftlock⟩
    | false =>
      simp only [PageCaller.faulted, isSoftlock, Bool.false_eq_true, if_false]
      exact ⟨rfl, rfl, trivial⟩
  | reaffine | lockmem => exact ⟨rfl, rfl, trivial⟩

theorem PageCaller.marked_plain (caller : PageCaller) : caller.marked = .fault ∨
    caller.marked = .unlock ∧ ∀ request, caller ≠ .fault request := by
  cases caller with
  | fault request => exact .inl rfl
  | reaffine last firstUsage migrate =>
    cases firstUsage with
    | true => exact .inr ⟨rfl, fun _ isFault => by cases isFault⟩
    | false => exact .inl rfl
  | lockmem => exact .inl rfl

variable {outcome : FgaOutcome} {newPpid : Nat}

theorem PointKept.check : PointKept seg pool s l outcome caller page .check := by
  intro inv atPage s' stepped
  simp only [pageStep] at stepped
  split at stepped
  · rename_i isMarked
    obtain rfl := some.inj stepped
    exact inv.quiet atPage rfl (quietly_setVpg rfl rfl rfl) rfl rfl
      (fun _ => pending_same rfl rfl) trivial fun ok => ok.mark isMarked
  · obtain rfl := some.inj stepped
    exact inv.goOn atPage rfl rfl rfl (fun _ => pending_same rfl rfl) trivial fun ok => ok

theorem PointKept.reaffineCheck : PointKept seg pool s l outcome caller page .reaffineCheck := by
  intro inv atPage s' stepped
  cases caller with
  | fault request => cases stepped
  | lockmem => cases stepped
  | reaffine last firstUsage migrate =>
    simp only [pageStep] at stepped
    split at stepped
    · obtain rfl := some.inj stepped
      cases firstUsage with
      | true | false => exact inv.goOn atPage rfl rfl rfl (fun _ => Iff.rfl) trivial fun ok => ok
    · rename_i isBacked
      split at stepped
      · split at stepped
        · rename_i noLocks
          obtain rfl := some.inj stepped
          exact inv.quiet atPage rfl quietly_setLwp rfl rfl (fun _ => Iff.rfl)
            trivial fun ok => ok.reaffine isBacked noLocks
        · rename_i isLocked
          obtain rfl := some.inj stepped
          exact inv.quiet atPage rfl (quietly_setVpg rfl rfl rfl) rfl rfl (fun _ => Iff.rfl) trivial
            fun ok => ok.delay isBacked isLocked
      · obtain rfl := some.inj stepped
        exact inv.goOn atPage rfl rfl rfl (fun _ => Iff.rfl) trivial fun ok => ok

theorem PointKept.reaffineFlags : PointKept seg pool s l outcome caller page .reaffineFlags := by
  intro inv atPage s' stepped
  obtain rfl := some.inj stepped
  rcases @PageCaller.marked_plain caller with isFault | ⟨isUnlock, notFault⟩
  · rw [isFault]
    exact inv.quiet atPage rfl (quietly_setVpg rfl rfl rfl) rfl rfl
      (fun _ => pending_same rfl rfl) trivial fun ok => ok.reaffineFlags
  · rw [isUnlock]
    refine inv.quiet atPage rfl (quietly_setVpg rfl rfl rfl) rfl rfl
      (fun other => ?_) trivial fun ok => ok.reaffineFlags
    exact ⟨fun pending => absurd pending (pending_other notFault),
      fun pending => absurd pending (pending_other notFault)⟩

theorem FgaInv.move (inv : FgaInv seg pool s)
    (atPage : s.lwp l = .onPage caller page point)
    (holds : point.holdsLock = true) (step : PageStep s s' l page caller point')
    (holds' : point'.holdsLock = true) (notTurning : point.turning = false)
    (notTurning' : point'.turning = false) (fits : point'.Fits caller page)
    (nowVpg : s'.vpg page = { s.vpg page with ppid := (s'.vpg page).ppid })
    (sameXlat : s'.xlat = s.xlat) (sameTlb : s'.tlb = s.tlb)
    (sameContents : s'.contents = s.contents) (sameMemory : s'.memory = s.memory)
    (sameGranted : s'.granted = s.granted) (sameWild : s'.wild = s.wild)
    (physical : PageOk s page point → Physical seg pool s')
    (unlocked : PageOk s page point → (s'.vpg page).ppid = (s.vpg page).ppid ∨
      (s.vpg page).softlockCnt = 0) (ok : PageOk s page point → PageOk s' page point') :
    FgaInv seg pool s' ∧ Stays s s' := by
  obtain ⟨owner, latched⟩ := inv.latched
  have isOk := (latched.ok atPage holds).2
  refine ⟨⟨⟨owner, ?_⟩, physical isOk, ?_, ?_, ?_⟩, ?_⟩
  · exact latched.onPageQuietly atPage holds step holds' (by rw [nowVpg])
      (fun other _ => congrFun sameXlat other)
      (fun other => by rw [sameTlb]; exact fun _ inTlb => inTlb) sameContents sameMemory (ok isOk)
  · refine inv.softlocks.congr (fun other => ?_) sameGranted step.lwp fun other => by
      rw [atPage]
      exact pending_same notTurning notTurning'
    by_cases isPage : other = page
    · subst other
      rw [nowVpg]
    · rw [step.vpg other isPage]
  · exact fits_update inv.fits step.lwp ⟨(inv.at atPage).1, fits⟩
  · exact sameWild.trans inv.confined
  · intro other isLocked
    by_cases isPage : other = page
    · subst other
      rcases unlocked isOk with same | noLocks
      · exact same
      · rw [noLocks] at isLocked
        exact absurd isLocked (lt_irrefl 0)
    · rw [step.vpg other isPage]

theorem PointKept.fault : PointKept seg pool s l outcome caller page .fault := by
  intro inv atPage s' stepped
  simp only [pageStep] at stepped
  split at stepped
  · rename_i noPpid
    obtain ⟨_, stepped⟩ := ite_none_right_eq_some.1 stepped
    rename_i isFree
    obtain rfl := some.inj stepped
    obtain ⟨owner, latched⟩ := inv.latched
    have step : PageStep s (((s.pageGot outcome.ppid).setVpg page fun v =>
        { v with ppid := some outcome.ppid }).setLwp l
          (.onPage caller page .pzero)) l page caller .pzero :=
      ⟨rfl, fun _ isPage => update_of_ne isPage _ _, rfl⟩
    refine inv.move atPage rfl step rfl rfl rfl trivial
      (by rw [vpg_setVpg]; rfl) rfl rfl rfl rfl rfl rfl (fun _ => ?_)
      (fun ok => .inr (Stable.absent ok noPpid).1) fun ok => ?_
    · exact step.getPage atPage (latched.alone atPage rfl) inv.physical noPpid
        (inv.at atPage).1.lt isFree (by rw [vpg_setVpg]) rfl rfl rfl
    · obtain ⟨noLocks, staying, notDelayed, noXlat, noTlb, blank⟩ := Stable.absent ok noPpid
      refine ⟨⟨outcome.ppid, by rw [vpg_setVpg]⟩, ⟨?_, ?_, ?_, noXlat, noTlb⟩, blank⟩
      all_goals rw [vpg_setVpg]
      · exact noLocks
      · exact staying
      · exact notDelayed
  · rename_i isBacked
    split at stepped
    · rename_i isMigrating
      obtain rfl := some.inj stepped
      exact inv.quiet atPage rfl (quietly_setVpg rfl rfl rfl) rfl rfl
        (fun _ => pending_same rfl rfl) trivial fun ok => ok.migrate isBacked isMigrating
    · rename_i notMigrating
      obtain rfl := some.inj stepped
      obtain ⟨holds, physical, fits⟩ := @PageCaller.faulted_plain page caller
      exact inv.goOn atPage rfl holds physical (fun _ => pending_faulted rfl) fits
        fun ok => (ok.settled isBacked notMigrating).faulted

theorem PointKept.load : PointKept seg pool s l outcome caller page .load := by
  intro inv atPage s' stepped
  obtain rfl := some.inj stepped
  obtain ⟨holds, physical, fits⟩ := @PageCaller.faulted_plain page caller
  exact inv.quiet atPage rfl quietly_xlat holds physical
    (fun _ => pending_faulted rfl) fits fun ok => ok.load.faulted

theorem FgaInv.write {written : Nat} {value : V} {place : PhysicalPlace}
    (inv : FgaInv seg pool s) (atPage : s.lwp l = .onPage caller page point)
    (holds : point.holdsLock = true) (holds' : point'.holdsLock = true)
    (physical : (FgaLwp.onPage caller page point').physical =
      (FgaLwp.onPage caller page point).physical)
    (notTurning : point.turning = false) (notTurning' : point'.turning = false)
    (fits : point'.Fits caller page) (isPlace : written ∈ holding s place)
    (isOwn : place = .page page ∨ place = .lwp l) (ok : PageOk s page point → PageOk
      ((s.setMemory written value).setLwp l (.onPage caller page point')) page point') :
    FgaInv seg pool ((s.setMemory written value).setLwp l (.onPage caller page point')) ∧ Stays s
      ((s.setMemory written value).setLwp l (.onPage caller page point')) := by
  obtain ⟨owner, latched⟩ := inv.latched
  have isOk := latched.ok atPage holds
  have sameMemory : ∀ other, other ≠ written → ((s.setMemory written value).setLwp l
      (.onPage caller page point')).memory other = s.memory other :=
    fun other isWritten => update_of_ne isWritten _ _
  refine ⟨⟨⟨owner, ?_⟩, ?_, ?_, ?_, inv.confined⟩, fun _ _ => rfl⟩
  · refine latched.onPage atPage holds ⟨rfl, fun _ _ => rfl, rfl⟩ holds' rfl
      (fun _ _ => rfl) (fun _ _ inTlb => inTlb) rfl ?_ ?_ (ok isOk.2)
    · intro other isPage notAssigning
      refine latched.sameData inv.physical isPlace sameMemory ?_ notAssigning
      rcases isOwn with rfl | rfl
      · exact fun isSame => isPage (PhysicalPlace.page.inj isSame).symm
      · exact fun isSame => by cases isSame
    · intro other isPage newPpid isNew
      refine Latched.sameNew inv.physical isPlace sameMemory ?_ newPpid isNew
      intro k isOwner
      rcases isOwn with rfl | rfl
      · exact fun isSame => by cases isSame
      · intro isSame
        have isLwp : l = k := PhysicalPlace.lwp.inj isSame
        subst k
        have isHere := (latched.owned page l).mp isOk.1
        have isThere := (latched.owned other l).mp isOwner
        exact isPage (some.inj (isThere.symm.trans isHere))
  · refine inv.physical.congr (fun _ => rfl) (fun k => ?_) rfl rfl rfl rfl
    exact @physical_update V s l (.onPage caller page point') (by rw [atPage]; exact physical) k
  · exact inv.softlocks.congr (fun _ => rfl) rfl rfl fun other => by
      rw [atPage]
      exact pending_same notTurning notTurning'
  · exact fits_update inv.fits rfl ⟨(inv.at atPage).1, fits⟩

theorem PointKept.pzero : PointKept seg pool s l outcome caller page .pzero := by
  intro inv atPage s' stepped
  obtain ⟨owner, latched⟩ := inv.latched
  obtain ⟨isOwner, isOk⟩ := latched.ok atPage rfl
  obtain ⟨⟨ppid, isPpid⟩, cleared, blank⟩ := isOk
  simp only [pageStep, isPpid, map_some, some.injEq] at stepped
  subst stepped
  have backed : Backed s page := by
    refine latched.backed isPpid ?_
    rw [isOwner]
    simp only [pointAt, atPage, FgaLwp.point]
    rfl
  refine @FgaInv.write _ _ _ _ _ _ _ _ .pzero .load ppid default (.page page) inv
    atPage rfl rfl rfl rfl rfl trivial ?_ (.inl rfl) fun _ => ?_
  · rw [holding_backed backed isPpid]
    exact List.mem_cons_self
  · refine ⟨⟨ppid, isPpid, ?_, ?_⟩, cleared.count, cleared.migrate,
      cleared.delMigrate, cleared.xlat, cleared.tlb⟩
    · intro cached inTlb
      change cached ∈ s.tlb page at inTlb
      rw [cleared.tlb] at inTlb
      cases inTlb
    · change update s.memory ppid default ppid = s.contents page
      rw [update_self, blank]

theorem PointKept.pcopy : PointKept seg pool s l outcome caller page (.pcopy newPpid) := by
  intro inv atPage s' stepped
  obtain ⟨owner, latched⟩ := inv.latched
  obtain ⟨isOwner, isOk⟩ := latched.ok atPage rfl
  obtain ⟨⟨ppid, keeps⟩, cleared⟩ := isOk
  simp only [pageStep, keeps.here, map_some, some.injEq] at stepped
  subst stepped
  have backed : Backed s page := by
    refine latched.backed keeps.here ?_
    rw [isOwner]
    simp only [pointAt, atPage, FgaLwp.point]
    rfl
  have isPlace : newPpid ∈ holding s (.lwp l) := by
    rw [holding_at atPage]
    exact List.mem_cons_self
  have different : ppid ≠ newPpid := by
    intro isSame
    rw [← isSame] at isPlace
    have samePlace := inv.physical.unshared backed keeps.here isPlace
    cases samePlace
  refine @FgaInv.write _ _ _ _ _ _ _ _ (.pcopy newPpid) (.pageFree newPpid)
    newPpid (s.memory ppid) (.lwp l) inv atPage rfl rfl rfl rfl rfl trivial
    isPlace (.inr rfl) fun _ => ?_
  refine ⟨⟨ppid, keeps.here, keeps.tlb, ?_⟩,
    ⟨cleared.count, cleared.migrate, cleared.delMigrate, cleared.xlat, cleared.tlb⟩, ?_⟩
  · change update s.memory newPpid (s.memory ppid) ppid = s.contents page
    rw [update_of_ne different]
    exact keeps.data
  · change update s.memory newPpid (s.memory ppid) newPpid = s.contents page
    rw [update_self]
    exact keeps.data

omit [Inhabited V] in
theorem Cleared.of_same (cleared : Cleared s page) (nowVpg :
    s'.vpg page = { s.vpg page with ppid := (s'.vpg page).ppid }) (sameXlat : s'.xlat = s.xlat)
    (sameTlb : s'.tlb = s.tlb) : Cleared s' page where
  count := by
    rw [nowVpg]
    exact cleared.count
  migrate := by
    rw [nowVpg]
    exact cleared.migrate
  delMigrate := by
    rw [nowVpg]
    exact cleared.delMigrate
  xlat := by
    rw [sameXlat]
    exact cleared.xlat
  tlb := by
    rw [sameTlb]
    exact cleared.tlb

theorem PointKept.resv : PointKept seg pool s l outcome caller page .resv := by
  intro inv atPage s' stepped
  simp only [pageStep] at stepped
  split at stepped
  · obtain rfl := some.inj stepped
    refine inv.move atPage rfl ⟨rfl, fun _ _ => rfl, rfl⟩ rfl rfl rfl trivial rfl
      rfl rfl rfl rfl rfl rfl (fun _ => ?_) (fun _ => .inl rfl) fun ok => ?_
    · exact PageStep.resv (by exact ⟨rfl, fun _ _ => rfl, rfl⟩) atPage inv.physical
        (inv.at atPage).1.lt rfl rfl rfl rfl
    · obtain ⟨⟨ppid, keeps⟩, cleared⟩ := ok
      exact ⟨⟨ppid, keeps.of_same rfl (fun _ inTlb => inTlb) rfl rfl⟩, cleared.of_same rfl rfl rfl⟩
  · obtain rfl := some.inj stepped
    exact inv.goOn atPage rfl rfl rfl (fun _ => pending_same rfl rfl) trivial fun ok => ok

theorem PointKept.pageGet : PointKept seg pool s l outcome caller page .pageGet := by
  intro inv atPage s' stepped
  simp only [pageStep] at stepped
  split at stepped
  · rename_i isFree
    obtain rfl := some.inj stepped
    refine inv.move atPage rfl ⟨rfl, fun _ _ => rfl, rfl⟩ rfl rfl rfl trivial rfl
      rfl rfl rfl rfl rfl rfl (fun _ => ?_) (fun _ => .inl rfl) fun ok => ?_
    · exact PageStep.getNew (by exact ⟨rfl, fun _ _ => rfl, rfl⟩) atPage inv.physical
        (inv.at atPage).1.lt isFree rfl rfl rfl rfl
    · obtain ⟨⟨ppid, keeps⟩, cleared⟩ := ok
      exact ⟨⟨ppid, keeps.of_same rfl (fun _ inTlb => inTlb) rfl rfl⟩, cleared.of_same rfl rfl rfl⟩
  · cases stepped

theorem PointKept.place : PointKept seg pool s l outcome caller page (.place newPpid) := by
  intro inv atPage s' stepped
  obtain rfl := some.inj stepped
  by_cases isPlaced : idfPlace newPpid = outcome.placeCg
  · rw [if_pos isPlaced]
    exact inv.goOn atPage rfl rfl rfl (fun _ => pending_same rfl rfl) trivial fun ok => ok
  · rw [if_neg isPlaced]
    exact inv.goOn atPage rfl rfl rfl (fun _ => pending_same rfl rfl) trivial fun ok => ok

theorem PointKept.pageFree : PointKept seg pool s l outcome caller page (.pageFree newPpid) := by
  intro inv atPage s' stepped
  obtain ⟨owner, latched⟩ := inv.latched
  obtain ⟨⟨ppid, keeps⟩, cleared, copied⟩ := (latched.ok atPage rfl).2
  simp only [pageStep, keeps.here, map_some, some.injEq] at stepped
  subst stepped
  refine inv.move atPage rfl ⟨rfl, fun _ _ => rfl, rfl⟩ rfl rfl rfl trivial rfl
    rfl rfl rfl rfl rfl rfl (fun _ => ?_) (fun _ => .inl rfl)
    fun _ => ⟨⟨ppid, keeps.here⟩, cleared.of_same rfl rfl rfl, copied⟩
  exact PageStep.freeOld (by exact ⟨rfl, fun _ _ => rfl, rfl⟩) atPage
    (latched.alone atPage rfl) inv.physical (inv.at atPage).1.lt keeps.here rfl rfl rfl

theorem PointKept.assign : PointKept seg pool s l outcome caller page (.assign newPpid) := by
  intro inv atPage s' stepped
  obtain ⟨owner, latched⟩ := inv.latched
  obtain rfl := some.inj stepped
  have step : PageStep s ((s.setVpg page fun v => { v with ppid := some newPpid }).setLwp l
      (.onPage caller page .unresv)) l page caller .unresv :=
    ⟨rfl, fun _ isPage => update_of_ne isPage _ _, rfl⟩
  refine inv.move atPage rfl step rfl rfl rfl trivial
    (by rw [vpg_setVpg]) rfl rfl rfl rfl rfl rfl (fun _ => ?_)
    (fun ok => .inr ok.2.1.count) fun ok => ?_
  · exact step.assignNew atPage (latched.alone atPage rfl) inv.physical
      (inv.at atPage).1.lt (by rw [vpg_setVpg]) rfl rfl rfl
  · obtain ⟨_, cleared, copied⟩ := ok
    refine ⟨⟨newPpid, by rw [vpg_setVpg], ?_, copied⟩, cleared.of_same (by rw [vpg_setVpg]) rfl rfl⟩
    intro cached inTlb
    change cached ∈ s.tlb page at inTlb
    rw [cleared.tlb] at inTlb
    cases inTlb

theorem PointKept.putBack : PointKept seg pool s l outcome caller page (.putBack newPpid) := by
  intro inv atPage s' stepped
  obtain rfl := some.inj stepped
  refine inv.move atPage rfl ⟨rfl, fun _ _ => rfl, rfl⟩ rfl rfl rfl trivial rfl
    rfl rfl rfl rfl rfl rfl (fun _ => ?_) (fun _ => .inl rfl) fun ok => ?_
  · exact PageStep.putBack (by exact ⟨rfl, fun _ _ => rfl, rfl⟩) atPage inv.physical
      (inv.at atPage).1.lt rfl rfl rfl rfl
  · obtain ⟨⟨ppid, keeps⟩, cleared⟩ := ok
    exact ⟨⟨ppid, keeps.of_same rfl (fun _ inTlb => inTlb) rfl rfl⟩, cleared.of_same rfl rfl rfl⟩

theorem PointKept.unresv : PointKept seg pool s l outcome caller page .unresv := by
  intro inv atPage s' stepped
  obtain rfl := some.inj stepped
  refine inv.move atPage rfl ⟨rfl, fun _ _ => rfl, rfl⟩ rfl rfl rfl trivial rfl
    rfl rfl rfl rfl rfl rfl (fun _ => ?_) (fun _ => .inl rfl) fun ok => ?_
  · exact PageStep.unresv (by exact ⟨rfl, fun _ _ => rfl, rfl⟩) atPage inv.physical
      (inv.at atPage).1.lt rfl rfl rfl rfl
  · obtain ⟨⟨ppid, keeps⟩, cleared⟩ := ok
    exact ⟨⟨ppid, keeps.of_same rfl (fun _ inTlb => inTlb) rfl rfl⟩, cleared.of_same rfl rfl rfl⟩

end Steps

end Uw7.Fga
