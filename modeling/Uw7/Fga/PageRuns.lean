import Uw7.Fga.PageSteps

namespace Uw7.Fga

/-!
# The pages of a segment over runs

While no request for softlocks fails on a full count behind its first page, in an
address space where the segment is not at address zero, every page that is not locked
is in one of the documented combinations, and all that was stored in it is there.
-/

open Lib Function List Nat Option

variable {V : Type} [Inhabited V]

/-- The count is not full where the pages before would be unlocked wrongly. -/
def FgaGuard (s : SegState V) : SegAction V → Prop
  | .run l _ =>
    ∀ request page, s.lwp l = .onPage (.fault request) page .softlock →
      (s.vpg page).softlockCnt = vpgMaxSoftlockCount → page ≠ request.first → request.base = 0
  | _ => True

section Steps

variable {seg : FgaSegment} {pool : List Nat} {s s' : SegState V}
  {l page : Nat} {caller : PageCaller}

variable {outcome : FgaOutcome} {ppid : Nat}

theorem PointKept.softlock (guard : FgaGuard s (.run l outcome)) :
    PointKept seg pool s l outcome caller page .softlock := by
  intro inv atPage s' stepped
  obtain ⟨callerFits, request, rfl, isSoftlock⟩ := inv.at atPage
  simp only [pageStep] at stepped
  split at stepped
  · rename_i isFull
    obtain rfl := some.inj stepped
    have recovers : ∀ numPages, request.first + numPages = page → FgaInv seg pool (s.setLwp l
        (.onPage (.fault request) page (.recover request.first numPages))) ∧
        Stays s (s.setLwp l (.onPage (.fault request) page (.recover request.first numPages))) := by
      intro numPages isPage
      exact inv.goOn atPage rfl rfl rfl (fun _ => Iff.rfl)
        ⟨request, rfl, isSoftlock, le_rfl, isPage⟩ fun ok => Settled.toStable ok
    by_cases isFirst : page ≠ request.first
    · rw [if_pos isFirst, FaultRequest.recoverLen_zero
        (guard request page atPage isFull isFirst) callerFits.1
        (Nat.lt_trans callerFits.lt seg.numPages_lt)]
      refine recovers _ ?_
      have := callerFits.1
      omega
    · rw [if_neg isFirst]
      exact recovers 0 (not_not.mp isFirst).symm
  · rename_i notFull
    obtain rfl := some.inj stepped
    have isLess : (s.vpg page).softlockCnt < vpgMaxSoftlockCount :=
      Nat.lt_of_le_of_ne (inv.softlocks.bounded page) notFull
    exact inv.goOn atPage rfl rfl rfl (fun _ => pending_same rfl rfl)
      ⟨request, rfl, isSoftlock⟩ fun ok => ⟨ok, isLess⟩

variable {next : FgaLwp}

theorem Settled.counted {count : Nat} (settled : Settled s page) : Stable
    ((s.setVpg page fun v => { v with softlockCnt := count }).setLwp l
      next) page := by
  constructor
  case exclusive =>
    rw [vpg_setVpg]
    exact settled.exclusive
  case absent =>
    rw [vpg_setVpg]
    exact fun noPpid => absurd noPpid settled.backed
  case migrating =>
    rw [vpg_setVpg]
    exact fun isMigrating => absurd (settled.staying.symm.trans isMigrating) (by simp)
  case present =>
    rw [vpg_setVpg]
    intro ppid isPpid
    obtain ⟨keeps, mapped⟩ := settled.present ppid isPpid
    exact ⟨keeps.of_same (by rw [vpg_setVpg]) (fun _ inTlb => inTlb) rfl rfl, mapped⟩

theorem PointKept.increment : PointKept seg pool s l outcome caller page .increment := by
  intro inv atPage s' stepped
  obtain ⟨owner, latched⟩ := inv.latched
  obtain ⟨settled, notFull⟩ := (latched.ok atPage rfl).2
  obtain ⟨callerFits, request, rfl, isSoftlock⟩ := inv.at atPage
  obtain rfl := some.inj stepped
  have samePpid : ∀ other, (((s.setVpg page fun v =>
      { v with softlockCnt := intIncr v.softlockCnt }).setLwp l
        (.onPage (.fault request) page .unlock)).vpg other).ppid =
      (s.vpg other).ppid := by
    intro other
    by_cases isPage : other = page
    · subst other
      rw [vpg_setVpg]
    · exact congrArg Vpg.ppid (update_of_ne isPage _ _)
  refine ⟨⟨⟨owner, ?_⟩, ?_, ?_, ?_, inv.confined⟩, fun other _ => samePpid other⟩
  · exact latched.onPageQuietly atPage rfl ⟨rfl, fun _ isPage => update_of_ne isPage _ _, rfl⟩ rfl
      (by rw [vpg_setVpg]) (fun _ _ => rfl) (fun _ _ inTlb => inTlb) rfl
      rfl settled.counted
  · refine inv.physical.congr samePpid (fun k => ?_) rfl rfl rfl rfl
    exact @physical_update V s l (.onPage (.fault request) page .unlock) (by rw [atPage]; rfl) k
  · exact inv.softlocks.increment atPage isSoftlock callerFits.1 notFull rfl (by rw [vpg_setVpg])
      (fun _ isPage => update_of_ne isPage _ _) rfl
  · exact fits_update inv.fits rfl ⟨callerFits, trivial⟩

omit [Inhabited V] in
theorem decrSoftlock_inside (inside : page < seg.numPages) : s.decrSoftlock seg page =
    s.setVpg page fun v => { v with softlockCnt := intDecr v.softlockCnt } := by
  have small : page % 2 ^ 20 = page := mod_eq_of_lt (Nat.lt_trans inside seg.numPages_lt)
  simp only [SegState.decrSoftlock, small, if_pos inside]

omit [Inhabited V] in
theorem setVpg_vpg (change : Vpg → Vpg) : (s.setVpg page change).vpg page = change (s.vpg page) :=
  update_self _ _ _

theorem Latched.decr {owner : Nat → Option Nat} (latched : Latched s owner)
    (softlocks : Softlocks s) (isLocked : 0 < (s.vpg page).softlockCnt) :
    Latched (s.setVpg page fun v => { v with softlockCnt := intDecr v.softlockCnt }) owner := by
  have isFewer : intDecr (s.vpg page).softlockCnt ≤ (s.vpg page).softlockCnt := by
    rw [Softlocks.intDecr_pos isLocked (softlocks.bounded page)]
    exact sub_le _ _
  refine latched.fromOutside rfl (fun other => ?_) fun other ok => ?_
  · by_cases isPage : other = page
    · subst other
      rw [setVpg_vpg]
    · exact congrArg Vpg.lockFlag (update_of_ne isPage _ _)
  · by_cases isPage : other = page
    · subst other
      exact ok.fewer (Nat.pos_iff_ne_zero.mp isLocked) isFewer (by rw [setVpg_vpg]) rfl rfl rfl rfl
    · refine ok.frame (samePage_of_eq (update_of_ne isPage _ _) rfl (fun _ inTlb => inTlb) rfl)
        (fun _ _ _ => rfl) fun _ _ => rfl

omit [Inhabited V] in
theorem ppid_decr (other : Nat) : ((s.setVpg page fun v =>
    { v with softlockCnt := intDecr v.softlockCnt }).vpg other).ppid = (s.vpg other).ppid := by
  by_cases isPage : other = page
  · subst other
    rw [setVpg_vpg]
  · exact congrArg Vpg.ppid (update_of_ne isPage _ _)

theorem FgaInv.release {point : PagePoint} (inv : FgaInv seg pool s)
    (atPage : s.lwp l = .onPage caller page point) (holds : point.holdsLock = true)
    (isStable : PageOk s page point → Stable s page)
    (plain : (s.lwp l).physical = (none, false, none))
    (sameLwp : s'.lwp = update s.lwp l next) (notHolding : next.lockedPage = none)
    (nextPlain : next.physical = (none, false, none)) (nextFits : next.Fits seg)
    (nowVpg : s'.vpg = (s.setVpg page fun v => { v with lockFlag := false }).vpg)
    (sameXlat : s'.xlat = s.xlat) (sameTlb : s'.tlb = s.tlb)
    (sameContents : s'.contents = s.contents) (sameMemory : s'.memory = s.memory)
    (sameFree : s'.free = s.free) (sameOthers : s'.others = s.others)
    (sameHeld : s'.pagesHeld = s.pagesHeld) (sameReserved : s'.reserved = s.reserved)
    (sameWild : s'.wild = s.wild)
    (softlocks : (∀ other, (s'.vpg other).softlockCnt = (s.vpg other).softlockCnt) → Softlocks s') :
    FgaInv seg pool s' ∧ Stays s s' := by
  obtain ⟨owner, latched⟩ := inv.latched
  have isStableHere := isStable (latched.ok atPage holds).2
  have atHere : s'.vpg page = { s.vpg page with lockFlag := false } := by
    rw [nowVpg]
    exact setVpg_vpg _
  have atOthers : ∀ other, other ≠ page → s'.vpg other = s.vpg other := by
    intro other isPage
    rw [nowVpg]
    exact update_of_ne isPage _ _
  have sameVpg : ∀ other, s'.vpg other =
      { s.vpg other with lockFlag := (s'.vpg other).lockFlag } := by
    intro other
    by_cases isPage : other = page
    · subst other
      rw [atHere]
    · rw [atOthers other isPage]
  refine ⟨⟨⟨_, latched.unlock atPage holds isStableHere sameLwp notHolding sameVpg
    (by rw [atHere]) atOthers sameXlat sameTlb sameContents sameMemory⟩, ?_, ?_, ?_, ?_⟩, ?_⟩
  · refine inv.physical.congr (fun other => by rw [sameVpg other]) (fun k => ?_)
      sameFree sameOthers sameHeld sameReserved
    rw [sameLwp]
    exact physical_update (nextPlain.trans plain.symm) k
  · exact softlocks fun other => by rw [sameVpg other]
  · exact fits_update inv.fits sameLwp nextFits
  · exact sameWild.trans inv.confined
  · exact fun other _ => by rw [sameVpg other]

omit [Inhabited V] in
theorem advance_cases (fits : caller.Fits seg page) : (∃ point, (point = .enter ∨ point = .peek) ∧
    s.advance seg l page caller = s.setLwp l (.onPage caller (page + 1) point) ∧
    caller.Fits seg (page + 1) ∧ point.Fits caller (page + 1)) ∨
    (∃ request, caller = .fault request ∧ page + 1 = request.first + request.pages ∧
      s.advance seg l page caller = (s.grant request).setLwp l .idle) ∨
    ((∀ request, caller ≠ .fault request) ∧ s.advance seg l page caller = s.setLwp l .idle) := by
  cases caller with
  | fault request =>
    obtain ⟨isFirst, isInside, inSegment⟩ := fits
    simp only [SegState.advance]
    by_cases goesOn : page + 1 < request.first + request.pages
    · rw [if_pos goesOn]
      exact .inl ⟨.enter, .inl rfl, rfl, ⟨le_succ_of_le isFirst, goesOn, inSegment⟩, trivial⟩
    · rw [if_neg goesOn]
      exact .inr (.inl ⟨request, rfl, by omega, rfl⟩)
  | reaffine last firstUsage migrate =>
    simp only [SegState.advance]
    by_cases goesOn : page + 1 < last
    · rw [if_pos goesOn]
      exact .inl ⟨.enter, .inl rfl, rfl, ⟨goesOn, fits.2⟩, trivial⟩
    · rw [if_neg goesOn]
      exact .inr (.inr ⟨fun _ isFault => (by cases isFault), rfl⟩)
  | lockmem =>
    simp only [SegState.advance]
    by_cases goesOn : page + 1 < seg.numPages
    · rw [if_pos goesOn]
      exact .inl ⟨.peek, .inr rfl, rfl, goesOn, rfl⟩
    · rw [if_neg goesOn]
      exact .inr (.inr ⟨fun _ isFault => (by cases isFault), rfl⟩)

theorem PointKept.unlock : PointKept seg pool s l outcome caller page .unlock := by
  intro inv atPage s' stepped
  obtain rfl := some.inj stepped
  have plain : (s.lwp l).physical = (none, false, none) := by
    rw [atPage]
    rfl
  rcases @advance_cases V seg (s.setVpg page fun v => { v with lockFlag := false }) l page caller
    (inv.at atPage).1 with
    ⟨point, isPoint, isNext, nextFits⟩ | ⟨request, rfl, isLast, isNext⟩ | ⟨notFault, isNext⟩
  · rw [isNext]
    refine inv.release atPage rfl (fun ok => ok) plain rfl ?_ ?_ nextFits rfl rfl
      rfl rfl rfl rfl rfl rfl rfl rfl fun sameCount => ?_
    · rcases isPoint with rfl | rfl <;> rfl
    · rcases isPoint with rfl | rfl <;> rfl
    · refine inv.softlocks.congr sameCount rfl rfl fun other => ?_
      rw [atPage]
      have notTurning : point.turning = false := by rcases isPoint with rfl | rfl <;> rfl
      cases caller with
      | fault request =>
        rw [pending_plain notTurning]
        exact and_congr_right fun _ => and_congr_right fun _ => Nat.lt_succ_iff
      | reaffine | lockmem => exact Iff.rfl
  · rw [isNext]
    have granted : ∀ t : SegState V, (t.grant request).vpg = t.vpg ∧ (t.grant request).lwp = t.lwp ∧
        (t.grant request).xlat = t.xlat ∧ (t.grant request).tlb = t.tlb ∧
        (t.grant request).contents = t.contents ∧ (t.grant request).memory = t.memory ∧
        (t.grant request).free = t.free ∧ (t.grant request).others = t.others ∧
        (t.grant request).pagesHeld = t.pagesHeld ∧ (t.grant request).reserved = t.reserved ∧
        (t.grant request).wild = t.wild := by
      intro t
      unfold SegState.grant
      split <;> exact ⟨rfl, rfl, rfl, rfl, rfl, rfl, rfl, rfl, rfl, rfl, rfl⟩
    obtain ⟨vpg, lwp, xlat, tlb, contents, memory, free, others, held, reserved, wild⟩ :=
      granted (s.setVpg page fun v => { v with lockFlag := false })
    have sameLwp : (((s.setVpg page fun v => { v with lockFlag := false }).grant
        request).setLwp l .idle).lwp = update s.lwp l .idle := by
      simp only [SegState.setLwp, lwp]
      rfl
    refine inv.release atPage rfl (fun ok => ok) plain sameLwp rfl rfl trivial vpg
      xlat tlb contents memory free others held reserved wild fun sameCount => ?_
    refine inv.softlocks.complete atPage isLast sameLwp sameCount ?_
    simp only [SegState.setLwp, SegState.grant]
    split <;> rfl
  · rw [isNext]
    refine inv.release atPage rfl (fun ok => ok) plain rfl rfl rfl trivial rfl rfl
      rfl rfl rfl rfl rfl rfl rfl rfl fun sameCount => ?_
    refine inv.softlocks.congr sameCount rfl rfl fun other => ?_
    rw [atPage]
    exact ⟨fun pending => absurd pending fun isPending => isPending,
      fun pending => absurd pending (pending_other notFault)⟩

theorem PointKept.recover {segPgOffset numPages : Nat} :
    PointKept seg pool s l outcome caller page (.recover segPgOffset numPages) := by
  intro inv atPage s' stepped
  obtain ⟨callerFits, request, rfl, isSoftlock, isFirst, isBefore⟩ := inv.at atPage
  have plain : (s.lwp l).physical = (none, false, none) := by
    rw [atPage]
    rfl
  cases numPages with
  | zero =>
    obtain rfl := some.inj stepped
    refine inv.release atPage rfl (fun ok => ok) plain rfl rfl rfl trivial rfl
      rfl rfl rfl rfl rfl rfl rfl rfl rfl fun sameCount => ?_
    refine inv.softlocks.congr sameCount rfl rfl fun other => ?_
    rw [atPage]
    refine ⟨fun pending => absurd pending fun isPending => isPending, fun pending => ?_⟩
    obtain ⟨_, isHeld, isBehind⟩ := pending
    omega
  | succ rest =>
    obtain rfl := some.inj stepped
    have inside : segPgOffset < seg.numPages := by
      have := callerFits.lt
      omega
    have isHolder : (s.lwp l).Pending segPgOffset := by
      rw [atPage]
      exact ⟨isSoftlock, le_rfl, by omega⟩
    have isLocked := inv.softlocks.count_pos (.inr ⟨l, isHolder⟩)
    obtain ⟨owner, latched⟩ := inv.latched
    rw [decrSoftlock_inside inside]
    have latched' := latched.decr inv.softlocks isLocked
    have isOk := (latched'.ok atPage rfl).2
    refine ⟨⟨⟨owner, ?_⟩, ?_, ?_, ?_, inv.confined⟩, fun other _ => ppid_decr other⟩
    · exact latched'.onPageQuietly atPage rfl ⟨rfl, fun _ _ => rfl, rfl⟩ rfl rfl
        (fun _ _ => rfl) (fun _ _ inTlb => inTlb) rfl rfl isOk.goOn
    · refine inv.physical.congr ppid_decr (fun k => ?_) rfl rfl rfl rfl
      exact @physical_update V s l (.onPage (.fault request) page (.recover (segPgOffset + 1) rest))
        (by rw [atPage]; rfl) k
    · exact inv.softlocks.recover atPage isSoftlock (by omega) rfl (by rw [vpg_setVpg])
        (fun _ isPage => update_of_ne isPage _ _) rfl
    · exact fits_update inv.fits rfl ⟨callerFits, request, rfl, isSoftlock, by omega, by omega⟩

theorem FgaInv.outside (inv : FgaInv seg pool s)
    (wasNot : (s.lwp l).lockedPage = none) (isNot : next.lockedPage = none)
    (physical : next.physical = (s.lwp l).physical)
    (pending : ∀ other, next.Pending other ↔ (s.lwp l).Pending other) (fits : next.Fits seg) :
    FgaInv seg pool (s.setLwp l next) ∧ Stays s (s.setLwp l next) := by
  obtain ⟨owner, latched⟩ := inv.latched
  exact ⟨⟨⟨owner, latched.outside rfl wasNot isNot rfl rfl rfl rfl rfl⟩,
    inv.physical.congr (fun _ => rfl) (physical_update physical) rfl rfl rfl rfl,
    inv.softlocks.congr (fun _ => rfl) rfl rfl pending,
    fits_update inv.fits rfl fits, inv.confined⟩, fun _ _ => rfl⟩

theorem PointKept.peek : PointKept seg pool s l outcome caller page .peek := by
  intro inv atPage s' stepped
  obtain ⟨callerFits, isLockmem⟩ := inv.at atPage
  change caller = .lockmem at isLockmem
  subst isLockmem
  have wasNot : (s.lwp l).lockedPage = none := by
    rw [atPage]
    rfl
  simp only [pageStep] at stepped
  split at stepped
  · obtain rfl := some.inj stepped
    exact inv.outside wasNot rfl (by rw [atPage]; rfl)
      (fun _ => by rw [atPage]; rfl) ⟨callerFits, trivial⟩
  · obtain rfl := some.inj stepped
    simp only [SegState.advance]
    split
    · rename_i goesOn
      exact inv.outside wasNot rfl (by rw [atPage]; rfl)
        (fun _ => by rw [atPage]; rfl) ⟨goesOn, rfl⟩
    · exact inv.outside wasNot rfl (by rw [atPage]; rfl) (fun _ => by rw [atPage]; rfl) trivial

theorem PointKept.enter : PointKept seg pool s l outcome caller page .enter := by
  intro inv atPage s' stepped
  obtain ⟨_, stepped⟩ := ite_none_left_eq_some.1 stepped
  rename_i isFree
  obtain rfl := some.inj stepped
  obtain ⟨owner, latched⟩ := inv.latched
  have atLock : caller.locked.holdsLock = true ∧ caller.locked.turning = false ∧
      (FgaLwp.onPage caller page caller.locked).physical = (none, false, none) ∧
      caller.locked.Fits caller page ∧
      ∀ s : SegState V, Stable s page → PageOk s page caller.locked := by
    cases caller with
    | fault request => exact ⟨rfl, rfl, rfl, trivial, fun _ stable => stable⟩
    | reaffine | lockmem => exact ⟨rfl, rfl, rfl, trivial, fun _ stable => stable⟩
  obtain ⟨holds, notTurning, physical, fits, stable⟩ := atLock
  have sameVpg : ∀ other, ((s.setVpg page fun v => { v with lockFlag := true }).setLwp l
      (.onPage caller page caller.locked)).vpg other =
      { s.vpg other with
        lockFlag := (((s.setVpg page fun v =>
          { v with lockFlag := true }).setLwp l
            (.onPage caller page caller.locked)).vpg other).lockFlag } := by
    intro other
    by_cases isPage : other = page
    · subst other
      rw [vpg_setVpg]
    · have same : ((s.setVpg page fun v => { v with lockFlag := true }).setLwp l
          (.onPage caller page caller.locked)).vpg other = s.vpg other :=
        update_of_ne isPage _ _
      rw [same]
  refine ⟨⟨⟨_, latched.lock atPage (by simpa using isFree) rfl holds stable sameVpg
    (by rw [vpg_setVpg]) (fun _ isPage => update_of_ne isPage _ _) rfl rfl rfl
    rfl⟩, ?_, ?_, ?_, inv.confined⟩, fun other _ => by rw [sameVpg other]⟩
  · refine inv.physical.congr (fun other => by rw [sameVpg other]) (fun k => ?_) rfl rfl rfl rfl
    exact @physical_update V s l (.onPage caller page caller.locked)
      (by rw [atPage]; exact physical) k
  · exact inv.softlocks.congr (fun other => by rw [sameVpg other]) rfl rfl fun other => by
      rw [atPage]
      exact pending_same rfl notTurning
  · exact fits_update inv.fits rfl ⟨(inv.at atPage).1, fits⟩

theorem PointKept.pageStep {point : PagePoint} (guard : FgaGuard s (.run l outcome)) :
    PointKept seg pool s l outcome caller page point := by
  intro inv atPage s' stepped
  cases point with
  | peek => exact PointKept.peek inv atPage s' stepped
  | enter => exact PointKept.enter inv atPage s' stepped
  | check => exact PointKept.check inv atPage s' stepped
  | unload =>
    obtain rfl := some.inj stepped
    exact inv.quiet atPage rfl quietly_xlat rfl rfl
      (fun _ => pending_same rfl rfl) trivial PageOk.unload
  | shootdown =>
    obtain rfl := some.inj stepped
    exact inv.quiet atPage rfl quietly_tlb rfl rfl
      (fun _ => pending_same rfl rfl) trivial PageOk.shootdown
  | reaffineCheck => exact PointKept.reaffineCheck inv atPage s' stepped
  | reaffineUnload =>
    obtain rfl := some.inj stepped
    exact inv.quiet atPage rfl quietly_xlat rfl rfl
      (fun _ => pending_same rfl rfl) trivial PageOk.reaffineUnload
  | reaffineShootdown =>
    obtain rfl := some.inj stepped
    exact inv.quiet atPage rfl quietly_tlb rfl rfl
      (fun _ => pending_same rfl rfl) trivial PageOk.reaffineShootdown
  | reaffineFlags => exact PointKept.reaffineFlags inv atPage s' stepped
  | fault => exact PointKept.fault inv atPage s' stepped
  | pzero => exact PointKept.pzero inv atPage s' stepped
  | resv => exact PointKept.resv inv atPage s' stepped
  | pageGet => exact PointKept.pageGet inv atPage s' stepped
  | place newPpid => exact PointKept.place inv atPage s' stepped
  | pcopy newPpid => exact PointKept.pcopy inv atPage s' stepped
  | pageFree newPpid => exact PointKept.pageFree inv atPage s' stepped
  | assign newPpid => exact PointKept.assign inv atPage s' stepped
  | putBack newPpid => exact PointKept.putBack inv atPage s' stepped
  | unresv => exact PointKept.unresv inv atPage s' stepped
  | load => exact PointKept.load inv atPage s' stepped
  | softlock => exact PointKept.softlock guard inv atPage s' stepped
  | increment => exact PointKept.increment inv atPage s' stepped
  | recover segPgOffset numPages => exact PointKept.recover inv atPage s' stepped
  | unlock => exact PointKept.unlock inv atPage s' stepped

theorem FgaInv.lwpStep (inv : FgaInv seg pool s) (guard : FgaGuard s (.run l outcome))
    (stepped : lwpStep seg s l outcome = some s') : FgaInv seg pool s' ∧ Stays s s' := by
  unfold Fga.lwpStep at stepped
  cases atLwp : s.lwp l with
  | idle =>
    rw [atLwp] at stepped
    cases stepped
  | onPage caller page point =>
    rw [atLwp] at stepped
    exact PointKept.pageStep guard inv atLwp _ stepped
  | softunlock segPgOffset numPages =>
    have fits := inv.fits l
    rw [atLwp] at stepped fits
    have wasNot : (s.lwp l).lockedPage = none := by
      rw [atLwp]
      rfl
    cases numPages with
    | zero =>
      obtain rfl := some.inj stepped
      exact inv.outside wasNot rfl (by rw [atLwp]; rfl) (fun _ => by rw [atLwp]; rfl) trivial
    | succ rest =>
      dsimp only at stepped
      obtain ⟨_, stepped⟩ := ite_none_left_eq_some.1 stepped
      rename_i notNone
      obtain rfl := some.inj stepped
      have isGranted : 0 < s.granted segPgOffset := Nat.pos_of_ne_zero notNone
      change segPgOffset + (rest + 1) ≤ seg.numPages at fits
      rw [decrSoftlock_inside (by omega : segPgOffset < seg.numPages)]
      obtain ⟨owner, latched⟩ := inv.latched
      have latched' := latched.decr inv.softlocks (inv.softlocks.count_pos (.inl isGranted))
      refine ⟨⟨⟨owner, latched'.outside rfl wasNot rfl rfl rfl rfl rfl rfl⟩,
        ?_, ?_, ?_, inv.confined⟩, fun other _ => ppid_decr other⟩
      · refine inv.physical.congr ppid_decr (fun k => ?_) rfl rfl rfl rfl
        exact @physical_update V s l (.softunlock (segPgOffset + 1) rest) (by rw [atLwp]; rfl) k
      · exact inv.softlocks.giveBack atLwp isGranted rfl (by
          simp only [SegState.setLwp, SegState.setVpg, update_self])
          (fun _ isPage => update_of_ne isPage _ _) rfl
      · refine fits_update inv.fits rfl ?_
        change segPgOffset + 1 + rest ≤ seg.numPages
        omega

theorem acceptRequest_nbytes {policy : PlacePolicy} {groups : CpuGroups}
    {fgashmDefGranularity mapsize : Nat} {shmp : ShmidDs} {request : Accepted}
    (accepted : acceptRequest policy groups fgashmDefGranularity mapsize shmp = .ok request) :
    request.nbytes % pageSize = 0 := by
  simp only [acceptRequest, bind, Except.bind, pure, Except.pure,
    throw, throwThe, MonadExceptOf.throw] at accepted
  split_ifs at accepted with badPolicy badBits outside empty <;> cases named :
    requestCg policy groups (shmp.placepolicy &&& policy.affinityMask) shmp.cg <;>
    simp only [named, reduceCtorEq] at accepted
  obtain rfl := Except.ok.inj accepted
  exact mul_mod_left _ _

omit [Inhabited V] in
theorem reaffineLoop_fits (shmp : ShmidDs) : (reaffineLoop seg shmp).Fits seg ∧
    (reaffineLoop seg shmp).lockedPage = none ∧
    (reaffineLoop seg shmp).physical = (none, false, none) ∧
    ∀ other, ¬ (reaffineLoop seg shmp).Pending other := by
  unfold reaffineLoop
  split
  · exact ⟨trivial, rfl, rfl, fun _ isPending => isPending⟩
  · rename_i request accepted
    dsimp only
    split
    · exact ⟨trivial, rfl, rfl, fun _ isPending => isPending⟩
    · rename_i isPartial
      split
      · exact ⟨trivial, rfl, rfl, fun _ isPending => isPending⟩
      · have inRange := acceptRequest_inRange seg.fits accepted
        have whole := acceptRequest_nbytes accepted
        have notEmpty : request.nbytes ≠ 0 := by
          intro isEmpty
          exact isPartial ⟨inRange.emptyAtZero isEmpty, .inl isEmpty⟩
        have ends := inRange.ends
        refine ⟨⟨⟨?_, ?_⟩, trivial⟩, rfl, rfl, fun _ isPending => isPending⟩
        · unfold pageSize at whole ⊢
          omega
        · unfold FgaSegment.mapsize pageSize at ends
          unfold pageSize
          omega

section

variable (inv : FgaInv seg pool s)
include inv

theorem FgaInv.begin (isIdle : s.lwp l = .idle)
    (isNot : next.lockedPage = none) (plain : next.physical = (none, false, none))
    (notPending : ∀ other, ¬ next.Pending other) (fits : next.Fits seg) :
    FgaInv seg pool (s.setLwp l next) ∧ Stays s (s.setLwp l next) := by
  refine inv.outside (by rw [isIdle]; rfl) isNot ?_ (fun other => ?_) fits
  · rw [isIdle]
    exact plain
  · rw [isIdle]
    exact ⟨fun pending => absurd pending (notPending other),
      fun pending => absurd pending fun isPending => isPending⟩

theorem FgaInv.store {value : V}
    (mapped : ∀ point, PageOk s page point → Keeps s page ppid ∧ point.mapped = true) :
    FgaInv seg pool
      { s.setMemory ppid value with
        contents := update s.contents page value } ∧
      Stays s
        { s.setMemory ppid value with
          contents := update s.contents page value } := by
  obtain ⟨owner, latched⟩ := inv.latched
  obtain ⟨keeps, isMapped⟩ := mapped _ (latched.pages page)
  obtain ⟨noNew, notAssigning⟩ := PagePoint.mapped_plain isMapped
  have backed := latched.backed keeps.here notAssigning
  have isPlace : ppid ∈ holding s (.page page) := by
    rw [holding_backed backed keeps.here]
    exact mem_cons_self
  have sameMemory : ∀ other, other ≠ ppid → update s.memory ppid value other = s.memory other :=
    fun other isPpid => update_of_ne isPpid _ _
  refine ⟨⟨⟨owner, latched.fromOutside rfl (fun _ => rfl) fun other ok => ?_⟩,
    inv.physical.congr (fun _ => rfl) (fun _ => rfl) rfl rfl rfl rfl,
    inv.softlocks.same rfl rfl rfl, inv.fits, inv.confined⟩, fun _ _ => rfl⟩
  by_cases isPage : other = page
  · subst other
    refine ok.store isMapped keeps rfl rfl rfl ?_
    simp only [SegState.setMemory, update_self]
  · refine ok.frame ⟨rfl, rfl, rfl, rfl, rfl, fun _ inTlb => inTlb, update_of_ne isPage _ _⟩
      (latched.sameData inv.physical isPlace sameMemory
        fun isSame => isPage (PhysicalPlace.page.inj isSame).symm)
      (Latched.sameNew inv.physical isPlace sameMemory fun _ _ isSame => by cases isSame)

theorem FgaInv.elsewhere (physical : Physical seg pool s')
    (sameVpg : s'.vpg = s.vpg) (sameXlat : s'.xlat = s.xlat) (sameTlb : s'.tlb = s.tlb)
    (sameContents : s'.contents = s.contents)
    (sameMemory : ∀ other, other ∉ s.others → s'.memory other = s.memory other)
    (sameLwp : s'.lwp = s.lwp) (sameGranted : s'.granted = s.granted)
    (sameWild : s'.wild = s.wild) : FgaInv seg pool s' ∧ Stays s s' := by
  obtain ⟨owner, latched⟩ := inv.latched
  refine ⟨⟨⟨owner, latched.fromOutside sameLwp (fun _ => by rw [sameVpg])
    fun page ok => ?_⟩, physical, inv.softlocks.same sameVpg sameGranted sameLwp,
    (by rw [sameLwp]; exact inv.fits), sameWild.trans inv.confined⟩,
    fun page _ => by rw [sameVpg]⟩
  refine ok.frame (samePage_of_eq (by rw [sameVpg]) (by rw [sameXlat])
    (by rw [sameTlb]; exact fun _ inTlb => inTlb) sameContents)
    (fun notAssigning ppid isPpid => sameMemory ppid fun isOther => ?_)
    fun newPpid isNew => sameMemory newPpid fun isOther => ?_
  · have inOthers : ppid ∈ holding s .others := isOther
    have samePlace := inv.physical.unshared (latched.backed isPpid notAssigning) isPpid inOthers
    cases samePlace
  · cases isOwner : owner page with
    | none =>
      rw [isOwner] at isNew
      cases isNew
    | some k =>
      rw [isOwner] at isNew
      have inLwp : newPpid ∈ holding s (.lwp k) := by
        change newPpid ∈ (pointAt s (some k)).newPpid.toList
        rw [isNew]
        exact mem_cons_self
      have inOthers : newPpid ∈ holding s .others := isOther
      have samePlace := inv.physical.placed.unique newPpid _ _ inLwp inOthers
      cases samePlace

theorem FgaInv.tlbFill (isXlat : s.xlat page = some ppid) :
    FgaInv seg pool { s with tlb := update s.tlb page (ppid :: s.tlb page) } ∧ Stays s
      { s with tlb := update s.tlb page (ppid :: s.tlb page) } := by
  obtain ⟨owner, latched⟩ := inv.latched
  refine ⟨⟨⟨owner, latched.fromOutside rfl (fun _ => rfl) fun other ok => ?_⟩,
    inv.physical.congr (fun _ => rfl) (fun _ => rfl) rfl rfl rfl rfl,
    inv.softlocks.same rfl rfl rfl, inv.fits, inv.confined⟩, fun _ _ => rfl⟩
  by_cases isPage : other = page
  · subst other
    exact ok.fill isXlat rfl rfl (update_self _ _ _) rfl rfl
  · refine ok.frame (samePage_of_eq rfl rfl (fun cached inTlb => ?_) rfl)
      (fun _ _ _ => rfl) fun _ _ => rfl
    simp only [update_of_ne isPage] at inTlb
    exact inTlb

/-- One step of the system. -/
theorem FgaInv.step {action : SegAction V} (guard : FgaGuard s action)
    (stepped : segStep seg s action = some s') : FgaInv seg pool s' ∧ Stays s s' := by
  cases action with
  | fault l request =>
    simp only [segStep] at stepped
    split at stepped
    · rename_i isStart
      obtain ⟨isIdle, notEmpty, inside⟩ := isStart
      obtain rfl := some.inj stepped
      refine inv.begin isIdle rfl rfl (fun other pending => ?_)
        ⟨⟨le_rfl, by omega, inside⟩, trivial⟩
      exact absurd pending.2.1 (Nat.not_le_of_lt pending.2.2)
    · cases stepped
  | softunlock l segPgOffset numPages =>
    simp only [segStep] at stepped
    split at stepped
    · rename_i isStart
      obtain rfl := some.inj stepped
      exact inv.begin isStart.1 rfl rfl (fun _ isPending => isPending) isStart.2
    · cases stepped
  | reaffine l shmp =>
    simp only [segStep] at stepped
    split at stepped
    · rename_i isIdle
      obtain rfl := some.inj stepped
      obtain ⟨fits, isNot, plain, notPending⟩ := @reaffineLoop_fits seg shmp
      exact inv.begin isIdle isNot plain notPending fits
    · cases stepped
  | lockmem l =>
    simp only [segStep] at stepped
    split at stepped
    · rename_i isStart
      obtain rfl := some.inj stepped
      exact inv.begin isStart.1 rfl rfl (fun _ isPending => isPending) ⟨isStart.2, rfl⟩
    · cases stepped
  | run l outcome => exact inv.lwpStep guard stepped
  | tlbFill page =>
    simp only [segStep] at stepped
    cases isXlat : s.xlat page with
    | none =>
      rw [isXlat] at stepped
      cases stepped
    | some ppid =>
      rw [isXlat] at stepped
      obtain rfl := some.inj stepped
      exact inv.tlbFill isXlat
  | store page ppid value =>
    simp only [segStep] at stepped
    split at stepped
    · rename_i inTlb
      obtain rfl := some.inj stepped
      exact inv.store fun _ ok => ok.of_tlb inTlb
    · cases stepped
  | io page value =>
    obtain ⟨_, stepped⟩ := ite_none_left_eq_some.1 stepped
    rename_i isLocked
    cases isPpid : (s.vpg page).ppid with
    | none =>
      rw [isPpid] at stepped
      cases stepped
    | some ppid =>
      rw [isPpid] at stepped
      obtain rfl := some.inj stepped
      refine inv.store fun _ ok => ?_
      obtain ⟨stable, isMapped⟩ := ok.of_softlock isLocked
      exact ⟨(stable.present ppid isPpid).1, isMapped⟩
  | otherGet ppid =>
    simp only [segStep] at stepped
    split at stepped
    · rename_i isFree
      obtain rfl := some.inj stepped
      refine inv.elsewhere (@Physical.exchange V seg pool s _ inv.physical ppid .free
        .others (by simp) (.inl rfl) (.inr rfl)
        (perm_cons_erase isFree) (Perm.refl _) rfl rfl rfl
        rfl)
        rfl rfl rfl rfl (fun _ _ => rfl) rfl rfl rfl
    · cases stepped
  | otherFree ppid =>
    simp only [segStep] at stepped
    split at stepped
    · rename_i isOther
      obtain rfl := some.inj stepped
      refine inv.elsewhere (@Physical.exchange V seg pool s _ inv.physical ppid .others
        .free (by simp) (.inr rfl) (.inl rfl)
        (perm_cons_erase isOther) (Perm.refl _) rfl rfl rfl
        rfl)
        rfl rfl rfl rfl (fun _ _ => rfl) rfl rfl rfl
    · cases stepped
  | otherStore ppid value =>
    simp only [segStep] at stepped
    split at stepped
    · rename_i isOther
      obtain rfl := some.inj stepped
      refine inv.elsewhere (inv.physical.congr (fun _ => rfl) (fun _ => rfl) rfl rfl rfl rfl)
        rfl rfl rfl rfl (fun other notOther => ?_) rfl rfl rfl
      refine update_of_ne (fun isPpid => ?_) _ _
      rw [isPpid] at notOther
      exact notOther isOther
    · cases stepped

end

/-- A new segment. -/
theorem fgaInv_initial (memory : Nat → V) {free others : List Nat}
    (distinct : (free ++ others).Nodup) :
    FgaInv seg (free ++ others) (segInitial seg memory free others) := by
  have notBacked : ∀ page, ¬ Backed (segInitial seg memory free others) page :=
    fun page backed => backed.1 rfl
  obtain ⟨nodupFree, nodupOthers, disjoint⟩ := nodup_append.mp distinct
  constructor
  case latched =>
    refine ⟨fun _ => none, ?_, fun _ => rfl, fun page => ?_⟩
    · intro page l
      exact ⟨fun isSome => (by cases isSome), fun isSome => (by cases isSome)⟩
    · exact ⟨fun both => (by cases both.1), fun _ => ⟨rfl, rfl, rfl, rfl, rfl, rfl⟩,
        fun isMigrating => (by cases isMigrating), fun _ isPpid => (by cases isPpid)⟩
  case physical =>
    refine ⟨?_, ⟨0, 0, Tally.none notBacked, Tally.none fun l hasPage => hasPage rfl, rfl⟩,
      ⟨0, Tally.none fun l isTrue => (by cases isTrue), rfl⟩,
      fun page isBacked => absurd rfl isBacked⟩
    constructor
    case nodup =>
      intro place
      cases place with
      | page page =>
        rw [holding_not_backed (notBacked page)]
        exact nodup_nil
      | lwp l => exact nodup_nil
      | free => exact nodupFree
      | others => exact nodupOthers
    case unique =>
      intro ppid first second inFirst inSecond
      have places : ∀ place, ppid ∈ holding (segInitial seg memory free others) place →
          place = .free ∧ ppid ∈ free ∨ place = .others ∧ ppid ∈ others := by
        intro place inPlace
        cases place with
        | page page =>
          rw [holding_not_backed (notBacked page)] at inPlace
          cases inPlace
        | lwp l => cases inPlace
        | free => exact .inl ⟨rfl, inPlace⟩
        | others => exact .inr ⟨rfl, inPlace⟩
      rcases places first inFirst with ⟨rfl, isFree⟩ | ⟨rfl, isOther⟩
      · rcases places second inSecond with ⟨rfl, _⟩ | ⟨rfl, isOther⟩
        · rfl
        · exact absurd rfl (disjoint ppid isFree ppid isOther)
      · rcases places second inSecond with ⟨rfl, isFree⟩ | ⟨rfl, _⟩
        · exact absurd rfl (disjoint ppid isFree ppid isOther)
        · rfl
    case covered =>
      intro ppid isKnown
      rcases mem_append.mp isKnown with isFree | isOther
      · exact ⟨.free, isFree⟩
      · exact ⟨.others, isOther⟩
    case sound =>
      intro place ppid inPlace
      cases place with
      | page page =>
        rw [holding_not_backed (notBacked page)] at inPlace
        cases inPlace
      | lwp l => cases inPlace
      | free => exact mem_append_left _ inPlace
      | others => exact mem_append_right _ inPlace
  case softlocks =>
    refine ⟨fun page => ⟨0, Tally.none fun l isPending => isPending, rfl⟩, ?_⟩
    intro page
    exact Nat.zero_le _
  case fits => exact fun l => trivial
  case confined => rfl

end Steps

/-- What is documented of the pages of a segment. -/
structure FgaWell (s : SegState V) : Prop where
  /-- A page that does not exist. -/
  absent : ∀ page, (s.vpg page).lockFlag = false → (s.vpg page).ppid = none →
      (s.vpg page).softlockCnt = 0 ∧ (s.vpg page).migrateFlag = false ∧ s.xlat page = none
  /-- One flag at most is set, at any time. -/
  exclusive : ∀ page, ¬ ((s.vpg page).migrateFlag = true ∧ (s.vpg page).delMigrateFlag = true)
  /-- A page to be migrated. -/
  migrating : ∀ page, (s.vpg page).lockFlag = false → (s.vpg page).migrateFlag = true →
      (s.vpg page).softlockCnt = 0 ∧ s.xlat page = none
  /-- Any other page that exists. -/
  present : ∀ page ppid, (s.vpg page).lockFlag = false →
      (s.vpg page).ppid = some ppid → (s.vpg page).migrateFlag = false → s.xlat page = some ppid
  /-- What was stored in a page is there. -/
  contents : ∀ page ppid, (s.vpg page).lockFlag = false →
      (s.vpg page).ppid = some ppid → s.memory ppid = s.contents page
  /-- A physical page has one owner. -/
  owned : ∀ page ppid, (s.vpg page).lockFlag = false → (s.vpg page).ppid = some ppid →
      ppid ∉ s.free ∧ ppid ∉ s.others ∧ ∀ other, (s.vpg other).lockFlag = false →
          (s.vpg other).ppid = some ppid → other = page
  /-- The segment has no more pages than it has reserved. -/
  held : s.pagesHeld ≤ s.reserved

theorem FgaInv.well {seg : FgaSegment} {pool : List Nat} {s : SegState V}
    (inv : FgaInv seg pool s) : FgaWell s := by
  obtain ⟨owner, latched⟩ := inv.latched
  have isBacked : ∀ page ppid, (s.vpg page).lockFlag = false →
      (s.vpg page).ppid = some ppid → Backed s page := by
    intro page ppid isFree isPpid
    refine latched.backed isPpid ?_
    rw [(latched.unlocked isFree).1]
    rfl
  constructor
  case absent =>
    intro page isFree noPpid
    obtain ⟨noLocks, staying, _, noXlat, _, _⟩ := (latched.unlocked isFree).2.absent noPpid
    exact ⟨noLocks, staying, noXlat⟩
  case exclusive =>
    intro page
    exact (latched.pages page).exclusive
  case migrating =>
    intro page isFree isMigrating
    obtain ⟨noLocks, noXlat, _⟩ := (latched.unlocked isFree).2.migrating isMigrating
    exact ⟨noLocks, noXlat⟩
  case present =>
    intro page ppid isFree isPpid staying
    exact ((latched.unlocked isFree).2.present ppid isPpid).2 staying
  case contents =>
    intro page ppid isFree isPpid
    exact ((latched.unlocked isFree).2.present ppid isPpid).1.data
  case owned =>
    intro page ppid isFree isPpid
    have backed := isBacked page ppid isFree isPpid
    refine ⟨fun inFree => ?_, fun inOthers => ?_, ?_⟩
    · have inPlace : ppid ∈ holding s .free := inFree
      have same := inv.physical.unshared backed isPpid inPlace
      cases same
    · have inPlace : ppid ∈ holding s .others := inOthers
      have same := inv.physical.unshared backed isPpid inPlace
      cases same
    · intro other otherFree otherPpid
      have inOther : ppid ∈ holding s (.page other) := by
        rw [holding_backed (isBacked other ppid otherFree otherPpid) otherPpid]
        exact mem_cons_self
      exact PhysicalPlace.page.inj (inv.physical.unshared backed isPpid inOther)
  case held => exact inv.physical.held_le

def SegStep (seg : FgaSegment) (before : SegState V) (action : SegAction V)
    (after : SegState V) : Prop :=
  segStep seg before action = some after

theorem fgaWell_of_run {seg : FgaSegment} {memory : Nat → V} {free others : List Nat}
    (distinct : (free ++ others).Nodup) {actions : List (SegAction V)} {final : SegState V}
    (run : Run (Guarded (SegStep seg) FgaGuard) (segInitial seg memory free others) actions final) :
    FgaWell final ∧ ∀ action next, Guarded (SegStep seg) FgaGuard final action next →
      ∀ page, 0 < (final.vpg page).softlockCnt → (next.vpg page).ppid = (final.vpg page).ppid := by
  have inv : FgaInv seg (free ++ others) final := run.invariant
      (fun before action after inv step => (inv.step step.2 step.1).1)
      (fgaInv_initial memory distinct)
  exact ⟨inv.well, fun action next step => (inv.step step.2 step.1).2⟩

/-- A segment of four megabytes. -/
def smallSegment : FgaSegment where
  policy := samplePolicy
  groups := sampleGroups
  fgashmDefGranularity := pageSize
  numPages := 1024
  whole := by decide
  fits := by decide

/-- LWP 0 goes on; `idf_page_get` returns a certain page. -/
def goOn (ppid : Nat) : SegAction Nat := .run 0 ⟨true, ppid, 0⟩

omit [Inhabited V] in
theorem guard_of_point {s : SegState V} {l : Nat} {outcome : FgaOutcome}
    (elsewhere : (s.lwp l).point ≠ .softlock) : FgaGuard s (.run l outcome) := by
  intro request page atPage
  rw [atPage] at elsewhere
  exact absurd rfl elsewhere

theorem goesOn {initial middle next : SegState Nat} {actions : List (SegAction Nat)} (ppid : Nat)
    (earlier : Run (Guarded (SegStep smallSegment) FgaGuard) initial actions middle)
    (isNext : segStep smallSegment middle (goOn ppid) = some next)
    (elsewhere : (middle.lwp 0).point ≠ .softlock) :
    Run (Guarded (SegStep smallSegment) FgaGuard) initial (actions ++ [goOn ppid]) next :=
  .snoc earlier ⟨isNext, guard_of_point elsewhere⟩

theorem fgaWell_of_run_fault : ∃ final, Run (SegStep smallSegment)
    (segInitial smallSegment (fun _ => 0) [7, 8] [])
    [.fault 0 ⟨0x400000, 1, 1, false⟩, goOn 7, goOn 7, goOn 7, goOn 7, goOn 7, goOn 7] final ∧
    (final.vpg 1).ppid = some 7 ∧ FgaWell final := by
  have called : Run (Guarded (SegStep smallSegment) FgaGuard)
      (segInitial smallSegment (fun _ => 0) [7, 8] []) [.fault 0 ⟨0x400000, 1, 1, false⟩] _ :=
    .single ⟨rfl, trivial⟩
  have first := goesOn 7 called rfl (by decide)
  have second := goesOn 7 first rfl (by decide)
  have third := goesOn 7 second rfl (by decide)
  have fourth := goesOn 7 third rfl (by decide)
  have fifth := goesOn 7 fourth rfl (by decide)
  have sixth := goesOn 7 fifth rfl (by decide)
  exact ⟨_, sixth.unguarded, by decide, (@fgaWell_of_run Nat _ smallSegment (fun _ => 0) [7, 8] []
    (by decide) _ _ sixth).1⟩

/-- States in which LWP 0 works on the first three pages, and memory is zeroed. -/
def stage (v0 v1 v2 : Vpg) (x0 x1 : Option Nat) (free : List Nat) (held : Nat) (lwp : FgaLwp)
    (granted : Nat) : SegState Nat where
  vpg := fun page =>
    if page = 0 then v0
    else if page = 1 then v1
    else if page = 2 then v2
    else ⟨false, false, false, 0, none⟩
  xlat := fun page =>
    if page = 0 then x0 else if page = 1 then x1 else none
  tlb := fun _ => []
  memory := fun _ => 0
  free := free
  others := []
  pagesHeld := held
  reserved := 1024
  lwp := fun l => if l = 0 then lwp else .idle
  contents := fun _ => 0
  granted := fun page => if page = 1 then granted else 0
  wild := false

section Stage

variable (v0 v1 v2 : Vpg) (x0 x1 : Option Nat) (free : List Nat) (held : Nat)
  (lwp next : FgaLwp) (granted : Nat)

@[simp] theorem stage_setLwp : (stage v0 v1 v2 x0 x1 free held lwp granted).setLwp 0 next =
    stage v0 v1 v2 x0 x1 free held next granted := by
  simp only [stage, SegState.setLwp]
  congr 1
  funext l
  by_cases isLwp : l = 0 <;> simp [isLwp]

@[simp] theorem stage_setVpg_zero (change : Vpg → Vpg) :
    (stage v0 v1 v2 x0 x1 free held lwp granted).setVpg 0 change =
      stage (change v0) v1 v2 x0 x1 free held lwp granted := by
  simp only [stage, SegState.setVpg]
  congr 1
  funext page
  by_cases isPage : page = 0 <;> simp [isPage]

@[simp] theorem stage_setVpg_one (change : Vpg → Vpg) :
    (stage v0 v1 v2 x0 x1 free held lwp granted).setVpg 1 change =
      stage v0 (change v1) v2 x0 x1 free held lwp granted := by
  simp only [stage, SegState.setVpg]
  congr 1
  funext page
  by_cases isPage : page = 1 <;> simp [isPage]

@[simp] theorem stage_setVpg_two (change : Vpg → Vpg) :
    (stage v0 v1 v2 x0 x1 free held lwp granted).setVpg 2 change =
      stage v0 v1 (change v2) x0 x1 free held lwp granted := by
  simp only [stage, SegState.setVpg]
  congr 1
  funext page
  by_cases isPage : page = 2 <;> simp [isPage]

@[simp] theorem stage_pageGot (ppid : Nat) :
    (stage v0 v1 v2 x0 x1 free held lwp granted).pageGot ppid =
      stage v0 v1 v2 x0 x1 (free.erase ppid) (held + 1) lwp granted :=
  rfl

@[simp] theorem stage_grant (base : Nat) :
    (stage v0 v1 v2 x0 x1 free held lwp granted).grant ⟨base, 1, 1, true⟩ =
      stage v0 v1 v2 x0 x1 free held lwp (granted + 1) := by
  simp only [stage, SegState.grant, if_true]
  congr 1
  funext page
  by_cases isPage : page = 1
  · simp [isPage]
  · have outside : 1 ≤ page → 1 < page := by omega
    simpa [isPage] using outside

@[simp] theorem stage_setMemory (ppid : Nat) :
    (stage v0 v1 v2 x0 x1 free held lwp granted).setMemory ppid 0 =
      stage v0 v1 v2 x0 x1 free held lwp granted := by
  simp only [stage, SegState.setMemory]
  congr 1
  exact update_eq_self ppid fun _ => 0

@[simp] theorem stage_setXlat_zero (mapped : Option Nat) :
    (stage v0 v1 v2 x0 x1 free held lwp granted).setXlat 0 mapped =
      stage v0 v1 v2 mapped x1 free held lwp granted := by
  simp only [stage, SegState.setXlat]
  congr 1
  funext page
  by_cases isPage : page = 0 <;> simp [isPage]

@[simp] theorem stage_setXlat_one (mapped : Option Nat) :
    (stage v0 v1 v2 x0 x1 free held lwp granted).setXlat 1 mapped =
      stage v0 v1 v2 x0 mapped free held lwp granted := by
  simp only [stage, SegState.setXlat]
  congr 1
  funext page
  by_cases isPage : page = 1 <;> simp [isPage]

@[simp] theorem stage_lwp : (stage v0 v1 v2 x0 x1 free held lwp granted).lwp 0 = lwp := rfl

@[simp] theorem stage_vpg_zero : (stage v0 v1 v2 x0 x1 free held lwp granted).vpg 0 = v0 := rfl

@[simp] theorem stage_vpg_one : (stage v0 v1 v2 x0 x1 free held lwp granted).vpg 1 = v1 := rfl

@[simp] theorem stage_vpg_two : (stage v0 v1 v2 x0 x1 free held lwp granted).vpg 2 = v2 := rfl

@[simp] theorem stage_free : (stage v0 v1 v2 x0 x1 free held lwp granted).free = free := rfl

end Stage

def softlocked (count : Nat) : SegState Nat :=
  stage ⟨false, false, false, 0, none⟩ ⟨false, false, false, count, some 7⟩
    ⟨false, false, false, 0, none⟩ none (some 7) [8] 1 .idle count

theorem segInitial_stage : segInitial smallSegment (fun _ => 0) [7, 8] [] =
    stage ⟨false, false, false, 0, none⟩ ⟨false, false, false, 0, none⟩
      ⟨false, false, false, 0, none⟩ none none [7, 8] 0 .idle 0 := by
  simp only [segInitial, stage, ite_self]
  rfl

theorem softlocked_one : run? (segStep smallSegment)
    (segInitial smallSegment (fun _ => 0) [7, 8] [])
    (.fault 0 ⟨0x400000, 1, 1, true⟩ :: replicate 8 (goOn 7)) = some (softlocked 1) := by
  have notFull : 0 ≠ vpgMaxSoftlockCount := by decide
  rw [segInitial_stage]
  simp [run?, segStep, lwpStep, pageStep, goOn, replicate, softlocked,
    smallSegment, PageCaller.locked, PageCaller.faulted, SegState.advance, notFull, intIncr]

theorem softlocked_succ {count : Nat} (notFull : count < vpgMaxSoftlockCount) :
    run? (segStep smallSegment) (softlocked count)
      (.fault 0 ⟨0x400000, 1, 1, true⟩ :: replicate 6 (goOn 7)) =
        some (softlocked (count + 1)) := by
  have isLess : count ≠ vpgMaxSoftlockCount := Nat.ne_of_lt notFull
  have oneMore : intIncr count = count + 1 := by
    unfold intIncr vpgMaxSoftlockCount at *
    omega
  simp [run?, segStep, lwpStep, pageStep, goOn, replicate, softlocked,
    smallSegment, PageCaller.locked, PageCaller.faulted, SegState.advance, isLess, oneMore]

theorem softlocked_reached (count : Nat) (notFull : count < vpgMaxSoftlockCount) : ∃ actions,
    Run (SegStep smallSegment) (segInitial smallSegment (fun _ => 0) [7, 8] []) actions
      (softlocked (count + 1)) := by
  induction count with
  | zero => exact ⟨_, Run.of_run? softlocked_one⟩
  | succ count ih =>
    obtain ⟨actions, earlier⟩ := ih (lt_of_succ_lt notFull)
    exact ⟨_, earlier.append (Run.of_run? (softlocked_succ notFull))⟩

/-- The state three pages into the recovery. -/
def recovering : SegState Nat := stage ⟨false, false, false, 0, some 8⟩
    ⟨true, false, false, vpgMaxSoftlockCount - 1, some 7⟩
    ⟨false, false, false, vpgMaxSoftlockCount, none⟩ (some 8) (some 7) [] 2
    (.onPage (.fault ⟨0x400000, 0, 2, true⟩) 1 (.recover 3 1047550)) vpgMaxSoftlockCount

theorem recovering_reached : run? (segStep smallSegment) (softlocked vpgMaxSoftlockCount)
    (.fault 0 ⟨0x400000, 0, 2, true⟩ :: replicate 15 (goOn 8)) = some recovering := by
  have notFull : 0 ≠ vpgMaxSoftlockCount := by decide
  have decrMax : intDecr vpgMaxSoftlockCount = vpgMaxSoftlockCount - 1 := by decide
  have decrZero : intDecr 0 = vpgMaxSoftlockCount := by decide
  have decrOne : intDecr 1 = 0 := by decide
  have len : FaultRequest.recoverLen ⟨0x400000, 0, 2, true⟩ 1 / pageSize =
        1047553 := by
    decide
  simp [run?, segStep, lwpStep, pageStep, goOn, replicate, softlocked,
    recovering, smallSegment, PageCaller.locked, PageCaller.faulted,
    SegState.advance, SegState.decrSoftlock, notFull, intIncr, decrMax, decrZero, decrOne, len]

theorem fgaWell_fails_on_full_count : ∃ actions final, Run (SegStep smallSegment)
    (segInitial smallSegment (fun _ => 0) [7, 8] []) actions final ∧ (final.vpg 2).ppid = none ∧
    (final.vpg 2).softlockCnt = vpgMaxSoftlockCount ∧ ¬ FgaWell final := by
  obtain ⟨actions, isFull⟩ := softlocked_reached (vpgMaxSoftlockCount - 1) (by decide)
  refine ⟨_, recovering, isFull.append (Run.of_run? recovering_reached), rfl, rfl, ?_⟩
  intro well
  have noLocks : vpgMaxSoftlockCount = 0 := (well.absent 2 rfl rfl).1
  exact absurd noLocks (by decide)

end Uw7.Fga
