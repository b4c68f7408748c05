import Uw7.Fga.PageState
import Uw7.Fga.AffinityOrder
import Uw7.Lib.Ownership
import Uw7.Lib.Places
import Uw7.Lib.Tally

namespace Uw7.Fga

/-!
# What holds of a segment between two accesses

For each place in the routines, what the holder of a page's lock can rely on; where
each physical page is; and who has a softlock.  Each part comes with the changes that
do not touch it.
-/

open Lib Option

variable {V : Type}

def PagePoint.holdsLock : PagePoint → Bool
  | .peek | .enter => false
  | _ => true

/-- The page got for a migration. -/
def PagePoint.newPpid : PagePoint → Option Nat
  | .place newPpid | .pcopy newPpid | .pageFree newPpid
  | .assign newPpid | .putBack newPpid => some newPpid
  | _ => none

def PagePoint.reserving : PagePoint → Bool
  | .pageGet | .place _ | .pcopy _ | .pageFree _ | .assign _ | .putBack _
  | .unresv => true
  | _ => false

/-- `fvp_ppid` is a page that was freed. -/
def PagePoint.assigning : PagePoint → Bool
  | .assign _ => true
  | _ => false

namespace FgaLwp

def lockedPage : FgaLwp → Option Nat
  | .onPage _ page point => if point.holdsLock then some page else none
  | _ => none

/-- The place within a routine; outside, any place without the lock. -/
def point : FgaLwp → PagePoint
  | .onPage _ _ point => point
  | _ => .enter

/-- The page that is without a physical page of its own. -/
def assigned : FgaLwp → Option Nat
  | .onPage _ page point => if point.assigning then some page else none
  | _ => none

/-- What an LWP has to do with physical pages. -/
def physical (lwp : FgaLwp) : Option Nat × Bool × Option Nat :=
  (lwp.point.newPpid, lwp.point.reserving, lwp.assigned)

/-- The pages on which a request for softlocks has one, and will return it. -/
def Pending (page : Nat) : FgaLwp → Prop
  | .onPage (.fault request) current point =>
    request.isSoftlock = true ∧
      match point with
      | .recover segPgOffset _ => segPgOffset ≤ page ∧ page < current
      | .unlock => request.first ≤ page ∧ page ≤ current
      | _ => request.first ≤ page ∧ page < current
  | _ => False

end FgaLwp

/-- A routine stays within the segment. -/
def PageCaller.Fits (seg : FgaSegment) (page : Nat) : PageCaller → Prop
  | .fault request =>
    request.first ≤ page ∧ page < request.first + request.pages ∧
      request.first + request.pages ≤ seg.numPages
  | .reaffine last _ _ => page < last ∧ last ≤ seg.numPages
  | .lockmem => page < seg.numPages

/-- A place fits the routine. -/
def PagePoint.Fits (caller : PageCaller) (page : Nat) : PagePoint → Prop
  | .peek => caller = .lockmem
  | .softlock | .increment => ∃ request, caller = .fault request ∧ request.isSoftlock = true
  | .recover segPgOffset numPages =>
    ∃ request, caller = .fault request ∧ request.isSoftlock = true ∧
      request.first ≤ segPgOffset ∧ segPgOffset + numPages = page
  | _ => True

/-- An LWP stays within the segment. -/
def FgaLwp.Fits (seg : FgaSegment) : FgaLwp → Prop
  | .idle => True
  | .softunlock segPgOffset numPages => segPgOffset + numPages ≤ seg.numPages
  | .onPage caller page point => caller.Fits seg page ∧ point.Fits caller page

theorem PageCaller.Fits.lt {seg : FgaSegment} {page : Nat} {caller : PageCaller}
    (fits : caller.Fits seg page) : page < seg.numPages := by
  cases caller with
  | fault request => exact Nat.lt_of_lt_of_le fits.2.1 fits.2.2
  | reaffine last firstUsage migrate => exact Nat.lt_of_lt_of_le fits.1 fits.2
  | lockmem => exact fits

/-- The page is backed, and all that is said to be stored in it is there. -/
structure Keeps (s : SegState V) (page ppid : Nat) : Prop where
  here : (s.vpg page).ppid = some ppid
  tlb : ∀ cached ∈ s.tlb page, cached = ppid
  data : s.memory ppid = s.contents page

/-- The combinations that are documented. -/
structure Stable [Inhabited V] (s : SegState V) (page : Nat) : Prop where
  exclusive : ¬ ((s.vpg page).migrateFlag = true ∧ (s.vpg page).delMigrateFlag = true)
  absent : (s.vpg page).ppid = none →
      (s.vpg page).softlockCnt = 0 ∧ (s.vpg page).migrateFlag = false ∧
        (s.vpg page).delMigrateFlag = false ∧ s.xlat page = none ∧
        s.tlb page = [] ∧ s.contents page = default
  migrating : (s.vpg page).migrateFlag = true →
      (s.vpg page).softlockCnt = 0 ∧ s.xlat page = none ∧ s.tlb page = []
  present : ∀ ppid, (s.vpg page).ppid = some ppid → Keeps s page ppid ∧
      ((s.vpg page).migrateFlag = false → s.xlat page = some ppid)

/-- The page is backed and not to be migrated now. -/
structure Settled [Inhabited V] (s : SegState V) (page : Nat) : Prop extends Stable s page where
  backed : (s.vpg page).ppid ≠ none
  staying : (s.vpg page).migrateFlag = false

/-- No softlock, no flag and no translation. -/
structure Cleared (s : SegState V) (page : Nat) : Prop where
  count : (s.vpg page).softlockCnt = 0
  migrate : (s.vpg page).migrateFlag = false
  delMigrate : (s.vpg page).delMigrateFlag = false
  xlat : s.xlat page = none
  tlb : s.tlb page = []

/-- The state of a page at a place in the routines. -/
def PageOk [Inhabited V] (s : SegState V) (page : Nat) : PagePoint → Prop
  | .peek | .enter | .check | .fault | .recover _ _ | .unlock
  | .reaffineCheck => Stable s page
  | .softlock => Settled s page
  | .increment => Settled s page ∧ (s.vpg page).softlockCnt < vpgMaxSoftlockCount
  | .unload =>
    ∃ ppid, Keeps s page ppid ∧ (s.vpg page).softlockCnt = 0 ∧ (s.vpg page).delMigrateFlag = false ∧
      (s.vpg page).migrateFlag = true ∧ ∀ mapped, s.xlat page = some mapped → mapped = ppid
  | .shootdown =>
    ∃ ppid, Keeps s page ppid ∧ (s.vpg page).softlockCnt = 0 ∧ (s.vpg page).delMigrateFlag = false ∧
      (s.vpg page).migrateFlag = true ∧ s.xlat page = none
  | .reaffineUnload =>
    ∃ ppid, Keeps s page ppid ∧ (s.vpg page).softlockCnt = 0 ∧ ¬ ((s.vpg page).migrateFlag = true ∧
        (s.vpg page).delMigrateFlag = true) ∧
      ∀ mapped, s.xlat page = some mapped → mapped = ppid
  | .reaffineShootdown =>
    ∃ ppid, Keeps s page ppid ∧ (s.vpg page).softlockCnt = 0 ∧ ¬ ((s.vpg page).migrateFlag = true ∧
        (s.vpg page).delMigrateFlag = true) ∧ s.xlat page = none
  | .reaffineFlags =>
    ∃ ppid, Keeps s page ppid ∧ (s.vpg page).softlockCnt = 0 ∧ ¬ ((s.vpg page).migrateFlag = true ∧
        (s.vpg page).delMigrateFlag = true) ∧ s.xlat page = none ∧
      s.tlb page = []
  | .pzero => (∃ ppid, (s.vpg page).ppid = some ppid) ∧ Cleared s page ∧ s.contents page = default
  | .resv | .pageGet | .place _ | .pcopy _ | .putBack _ | .unresv | .load =>
    (∃ ppid, Keeps s page ppid) ∧ Cleared s page
  | .pageFree newPpid =>
    (∃ ppid, Keeps s page ppid) ∧ Cleared s page ∧ s.memory newPpid = s.contents page
  | .assign newPpid =>
    (∃ ppid, (s.vpg page).ppid = some ppid) ∧ Cleared s page ∧ s.memory newPpid = s.contents page

/-- What a step leaves of a page: all but its lock, and translations may go. -/
structure SamePage (s s' : SegState V) (page : Nat) : Prop where
  migrate : (s'.vpg page).migrateFlag = (s.vpg page).migrateFlag
  delMigrate : (s'.vpg page).delMigrateFlag = (s.vpg page).delMigrateFlag
  count : (s'.vpg page).softlockCnt = (s.vpg page).softlockCnt
  ppid : (s'.vpg page).ppid = (s.vpg page).ppid
  xlat : s'.xlat page = s.xlat page
  tlb : ∀ cached ∈ s'.tlb page, cached ∈ s.tlb page
  contents : s'.contents page = s.contents page

/-- What is in the physical page of a page stays. -/
def SameData (s s' : SegState V) (page : Nat) : Prop :=
  ∀ ppid, (s.vpg page).ppid = some ppid → s'.memory ppid = s.memory ppid

variable {ppid : Nat}

section Frame

variable {s s' : SegState V} {page : Nat}

theorem SamePage.noTlb (same : SamePage s s' page) (noTlb : s.tlb page = []) :
    s'.tlb page = [] := by
  apply List.eq_nil_iff_forall_not_mem.mpr
  intro cached inTlb
  have was := same.tlb cached inTlb
  rw [noTlb] at was
  cases was

theorem Keeps.frame (keeps : Keeps s page ppid) (same : SamePage s s' page)
    (sameData : SameData s s' page) : Keeps s' page ppid where
  here := same.ppid.trans keeps.here
  tlb := fun cached inTlb => keeps.tlb cached (same.tlb cached inTlb)
  data := by
    rw [sameData ppid keeps.here, same.contents]
    exact keeps.data

theorem Keeps.absent {changed : Prop} (keeps : Keeps s page ppid)
    (noPpid : (s.vpg page).ppid = none) : changed := by
  cases keeps.here.symm.trans noPpid

theorem Cleared.frame (cleared : Cleared s page) (same : SamePage s s' page) : Cleared s' page where
  count := same.count.trans cleared.count
  migrate := same.migrate.trans cleared.migrate
  delMigrate := same.delMigrate.trans cleared.delMigrate
  xlat := same.xlat.trans cleared.xlat
  tlb := same.noTlb cleared.tlb

/-- A change that leaves what is known of a page. -/
structure Carried (s s' : SegState V) (page : Nat) : Prop where
  migrate : (s'.vpg page).migrateFlag = (s.vpg page).migrateFlag
  delMigrate : (s'.vpg page).delMigrateFlag = (s.vpg page).delMigrateFlag
  count : (s'.vpg page).softlockCnt ≤ (s.vpg page).softlockCnt
  xlat : s'.xlat page = s.xlat page
  tlb : s.xlat page = none → s.tlb page = [] → s'.tlb page = []
  absent : (s.vpg page).ppid = none → (s'.vpg page).ppid = none ∧ s'.contents page = s.contents page
  kept : ∀ ppid, Keeps s page ppid → Keeps s' page ppid

theorem SamePage.carried (same : SamePage s s' page) (sameData : SameData s s' page) :
    Carried s s' page where
  __ := same
  count := same.count.le
  tlb := fun _ => same.noTlb
  absent := fun noPpid => ⟨same.ppid.trans noPpid, same.contents⟩
  kept := fun _ keeps => keeps.frame same sameData

theorem Carried.noLocks (carried : Carried s s' page) (noLocks : (s.vpg page).softlockCnt = 0) :
    (s'.vpg page).softlockCnt = 0 :=
  Nat.le_zero.mp (carried.count.trans noLocks.le)

variable [Inhabited V]

theorem Stable.carried (stable : Stable s page) (carried : Carried s s' page) : Stable s' page := by
  constructor
  case exclusive =>
    rw [carried.migrate, carried.delMigrate]
    exact stable.exclusive
  case absent =>
    intro noPpid
    cases isPpid : (s.vpg page).ppid with
    | some ppid =>
      have keeps' := carried.kept ppid (stable.present ppid isPpid).1
      cases keeps'.here.symm.trans noPpid
    | none =>
      obtain ⟨noLocks, migrate, delMigrate, xlat, tlb, contents⟩ := stable.absent isPpid
      rw [carried.migrate, carried.delMigrate, carried.xlat, (carried.absent isPpid).2]
      exact ⟨carried.noLocks noLocks, migrate, delMigrate, xlat, carried.tlb xlat tlb, contents⟩
  case migrating =>
    intro isMigrating
    rw [carried.migrate] at isMigrating
    obtain ⟨noLocks, xlat, tlb⟩ := stable.migrating isMigrating
    exact ⟨carried.noLocks noLocks, carried.xlat.trans xlat, carried.tlb xlat tlb⟩
  case present =>
    intro ppid isPpid'
    cases isPpid : (s.vpg page).ppid with
    | none => cases (carried.absent isPpid).1.symm.trans isPpid'
    | some own =>
      obtain ⟨keeps, mapped⟩ := stable.present own isPpid
      have keeps' := carried.kept own keeps
      obtain rfl : own = ppid := some.inj (keeps'.here.symm.trans isPpid')
      rw [carried.migrate, carried.xlat]
      exact ⟨keeps', mapped⟩

theorem Settled.carried (settled : Settled s page) (carried : Carried s s' page) :
    Settled s' page where
  toStable := settled.toStable.carried carried
  backed := by
    obtain ⟨ppid, isPpid⟩ := ne_none_iff_exists'.mp settled.backed
    rw [(carried.kept ppid (settled.present ppid isPpid).1).here]
    exact some_ne_none ppid
  staying := carried.migrate.trans settled.staying

/-- Places at which the page may be mapped, or have softlocks. -/
def PagePoint.mapped : PagePoint → Bool
  | .peek | .enter | .check | .fault | .recover _ _ | .unlock
  | .reaffineCheck | .softlock | .increment | .unload | .shootdown
  | .reaffineUnload | .reaffineShootdown => true
  | _ => false

variable {point : PagePoint}

theorem PageOk.carried (ok : PageOk s page point) (isMapped : point.mapped = true)
    (carried : Carried s s' page) : PageOk s' page point := by
  cases point with
  | peek | enter | check | fault | recover | unlock | reaffineCheck =>
    exact Stable.carried ok carried
  | softlock => exact Settled.carried ok carried
  | increment => exact ⟨ok.1.carried carried, Nat.lt_of_le_of_lt carried.count ok.2⟩
  | unload | shootdown | reaffineUnload | reaffineShootdown =>
    obtain ⟨ppid, keeps, noLocks, rest⟩ := ok
    refine ⟨ppid, carried.kept ppid keeps, carried.noLocks noLocks, ?_⟩
    rw [carried.delMigrate, carried.migrate, carried.xlat]
    exact rest
  | _ => cases isMapped

theorem PageOk.frame (ok : PageOk s page point) (same : SamePage s s' page)
    (sameData : point.assigning = false → SameData s s' page)
    (sameNew : ∀ newPpid, point.newPpid = some newPpid → s'.memory newPpid = s.memory newPpid) :
    PageOk s' page point := by
  cases point with
  | reaffineFlags =>
    obtain ⟨ppid, keeps, count, exclusive, xlat, tlb⟩ := ok
    refine ⟨ppid, keeps.frame same (sameData rfl), ?_⟩
    rw [same.count, same.delMigrate, same.migrate, same.xlat]
    exact ⟨count, exclusive, xlat, same.noTlb tlb⟩
  | pzero =>
    obtain ⟨⟨ppid, isPpid⟩, cleared, contents⟩ := ok
    exact ⟨⟨ppid, same.ppid.trans isPpid⟩, cleared.frame same, same.contents.trans contents⟩
  | resv | pageGet | place | pcopy | putBack | unresv | load =>
    obtain ⟨⟨ppid, keeps⟩, cleared⟩ := ok
    exact ⟨⟨ppid, keeps.frame same (sameData rfl)⟩, cleared.frame same⟩
  | pageFree newPpid =>
    obtain ⟨⟨ppid, keeps⟩, cleared, copied⟩ := ok
    refine ⟨⟨ppid, keeps.frame same (sameData rfl)⟩, cleared.frame same, ?_⟩
    rw [sameNew newPpid rfl, same.contents]
    exact copied
  | assign newPpid =>
    obtain ⟨⟨ppid, isPpid⟩, cleared, copied⟩ := ok
    refine ⟨⟨ppid, same.ppid.trans isPpid⟩, cleared.frame same, ?_⟩
    rw [sameNew newPpid rfl, same.contents]
    exact copied
  | _ => exact ok.carried rfl (same.carried (sameData rfl))

end Frame

section Outside

variable [Inhabited V] {s s' : SegState V} {page : Nat} {point : PagePoint}

theorem PagePoint.mapped_plain (isMapped : point.mapped = true) :
    point.newPpid = none ∧ point.assigning = false := by
  cases point <;> first
    | exact ⟨rfl, rfl⟩
    | cases isMapped

section

variable (ok : PageOk s page point)
include ok

/-- What is known of a page at all places: it is as documented, or about to lose its translation,
or has lost it. -/
theorem PageOk.view : Stable s page ∧ point.mapped = true ∨
    (∃ ppid, Keeps s page ppid ∧ (s.vpg page).softlockCnt = 0 ∧ ¬ ((s.vpg page).migrateFlag = true ∧
      (s.vpg page).delMigrateFlag = true) ∧
      (point.mapped = true ∨ s.xlat page = none ∧ s.tlb page = []) ∧
      ∀ mapped, s.xlat page = some mapped → mapped = ppid) ∨
    Cleared s page := by
  have unmapped {ppid : Nat} (noXlat : s.xlat page = none) (mapped : Nat)
      (isXlat : s.xlat page = some mapped) : mapped = ppid := by
    rw [noXlat] at isXlat
    cases isXlat
  have ofDelayed : (s.vpg page).delMigrateFlag = false → ¬ ((s.vpg page).migrateFlag = true ∧
      (s.vpg page).delMigrateFlag = true) := by
    intro notDelayed both
    rw [notDelayed] at both
    cases both.2
  cases point with
  | peek | enter | check | fault | recover | unlock | reaffineCheck => exact .inl ⟨ok, rfl⟩
  | softlock => exact .inl ⟨Settled.toStable ok, rfl⟩
  | increment => exact .inl ⟨ok.1.toStable, rfl⟩
  | unload =>
    obtain ⟨ppid, keeps, noLocks, notDelayed, _, isOwn⟩ := ok
    exact .inr (.inl ⟨ppid, keeps, noLocks, ofDelayed notDelayed, .inl rfl, isOwn⟩)
  | shootdown =>
    obtain ⟨ppid, keeps, noLocks, notDelayed, _, noXlat⟩ := ok
    exact .inr (.inl ⟨ppid, keeps, noLocks, ofDelayed notDelayed, .inl rfl, unmapped noXlat⟩)
  | reaffineUnload =>
    obtain ⟨ppid, keeps, noLocks, exclusive, isOwn⟩ := ok
    exact .inr (.inl ⟨ppid, keeps, noLocks, exclusive, .inl rfl, isOwn⟩)
  | reaffineShootdown =>
    obtain ⟨ppid, keeps, noLocks, exclusive, noXlat⟩ := ok
    exact .inr (.inl ⟨ppid, keeps, noLocks, exclusive, .inl rfl, unmapped noXlat⟩)
  | reaffineFlags =>
    obtain ⟨ppid, keeps, noLocks, exclusive, noXlat⟩ := ok
    exact .inr (.inl ⟨ppid, keeps, noLocks, exclusive, .inr noXlat, unmapped noXlat.1⟩)
  | pzero | pageFree | assign => exact .inr (.inr ok.2.1)
  | resv | pageGet | place | pcopy | putBack | unresv | load => exact .inr (.inr ok.2)

theorem PageOk.exclusive :
    ¬ ((s.vpg page).migrateFlag = true ∧ (s.vpg page).delMigrateFlag = true) := by
  rcases ok.view with ⟨stable, _⟩ | ⟨_, _, _, exclusive, _⟩ | cleared
  · exact stable.exclusive
  · exact exclusive
  · rw [cleared.migrate]
    exact fun both => by cases both.1

theorem PageOk.of_tlb {cached : Nat} (inTlb : cached ∈ s.tlb page) :
    Keeps s page cached ∧ point.mapped = true := by
  have ofKeeps : ∀ ppid, Keeps s page ppid → Keeps s page cached := by
    intro ppid keeps
    rw [keeps.tlb cached inTlb]
    exact keeps
  have noTlb : s.tlb page ≠ [] := List.ne_nil_of_mem inTlb
  rcases ok.view with ⟨stable, isMapped⟩ | ⟨ppid, keeps, _, _, isMapped, _⟩ | cleared
  · cases isPpid : (s.vpg page).ppid with
    | none => exact absurd (stable.absent isPpid).2.2.2.2.1 noTlb
    | some ppid => exact ⟨ofKeeps ppid (stable.present ppid isPpid).1, isMapped⟩
  · exact ⟨ofKeeps ppid keeps, isMapped.resolve_right fun unmapped => noTlb unmapped.2⟩
  · exact absurd cleared.tlb noTlb

theorem PageOk.of_softlock (isLocked : (s.vpg page).softlockCnt ≠ 0) :
    Stable s page ∧ point.mapped = true := by
  rcases ok.view with stable | ⟨_, _, noLocks, _⟩ | cleared
  · exact stable
  · exact absurd noLocks isLocked
  · exact absurd cleared.count isLocked

end

theorem Stable.of_softlock (stable : Stable s page) (isLocked : (s.vpg page).softlockCnt ≠ 0) :
    (∃ ppid, Keeps s page ppid) ∧ (s.vpg page).migrateFlag = false := by
  have staying : (s.vpg page).migrateFlag = false := by
    by_contra isMigrating
    exact isLocked (stable.migrating (by simpa using isMigrating)).1
  cases isPpid : (s.vpg page).ppid with
  | none => exact absurd (stable.absent isPpid).1 isLocked
  | some ppid => exact ⟨⟨ppid, (stable.present ppid isPpid).1⟩, staying⟩

section

variable (ok : PageOk s page point)
include ok

theorem PageOk.store (isMapped : point.mapped = true)
    (keeps : Keeps s page ppid) (sameVpg : s'.vpg page = s.vpg page)
    (sameXlat : s'.xlat page = s.xlat page) (sameTlb : s'.tlb page = s.tlb page)
    (stored : s'.memory ppid = s'.contents page) : PageOk s' page point := by
  refine ok.carried isMapped ⟨by rw [sameVpg], by rw [sameVpg], by rw [sameVpg], sameXlat,
    fun _ noTlb => sameTlb.trans noTlb, keeps.absent, fun other otherKeeps => ?_⟩
  obtain rfl : other = ppid := some.inj (otherKeeps.here.symm.trans keeps.here)
  exact ⟨by rw [sameVpg]; exact keeps.here, by rw [sameTlb]; exact keeps.tlb, stored⟩

theorem PageOk.of_xlat (isXlat : s.xlat page = some ppid) :
    Keeps s page ppid ∧ point.mapped = true := by
  have mapped : s.xlat page ≠ none := by
    rw [isXlat]
    exact some_ne_none ppid
  rcases ok.view with ⟨stable, isMapped⟩ | ⟨own, keeps, _, _, isMapped, isOwn⟩ | cleared
  · have staying : (s.vpg page).migrateFlag = false := by
      by_contra isMigrating
      exact mapped (stable.migrating (by simpa using isMigrating)).2.1
    cases isPpid : (s.vpg page).ppid with
    | none => exact absurd (stable.absent isPpid).2.2.2.1 mapped
    | some own =>
      obtain ⟨keeps, isOwn⟩ := stable.present own isPpid
      obtain rfl : own = ppid := some.inj ((isOwn staying).symm.trans isXlat)
      exact ⟨keeps, isMapped⟩
  · rw [isOwn ppid isXlat]
    exact ⟨keeps, isMapped.resolve_right fun unmapped => mapped unmapped.1⟩
  · exact absurd cleared.xlat mapped

/-- A processor loads the translation of the page. -/
theorem PageOk.fill (isXlat : s.xlat page = some ppid)
    (sameVpg : s'.vpg page = s.vpg page) (sameXlat : s'.xlat page = s.xlat page)
    (nowTlb : s'.tlb page = ppid :: s.tlb page) (sameMemory : s'.memory = s.memory)
    (sameContents : s'.contents page = s.contents page) : PageOk s' page point := by
  obtain ⟨keeps, isMapped⟩ := ok.of_xlat isXlat
  refine ok.carried isMapped ⟨by rw [sameVpg], by rw [sameVpg], by rw [sameVpg], sameXlat,
    fun noXlat => ?_, keeps.absent, fun other otherKeeps => ?_⟩
  · cases isXlat.symm.trans noXlat
  · have same : other = ppid := some.inj (otherKeeps.here.symm.trans keeps.here)
    refine ⟨by rw [sameVpg]; exact otherKeeps.here, ?_, ?_⟩
    · rw [nowTlb]
      intro cached inTlb
      rcases List.mem_cons.mp inTlb with rfl | wasCached
      · exact same.symm
      · exact otherKeeps.tlb cached wasCached
    · rw [sameMemory, sameContents]
      exact otherKeeps.data

theorem PageOk.fewer (isLocked : (s.vpg page).softlockCnt ≠ 0)
    {count : Nat} (isFewer : count ≤ (s.vpg page).softlockCnt)
    (nowVpg : s'.vpg page = { s.vpg page with softlockCnt := count })
    (sameXlat : s'.xlat page = s.xlat page) (sameTlb : s'.tlb page = s.tlb page)
    (sameMemory : s'.memory = s.memory) (sameContents : s'.contents page = s.contents page) :
    PageOk s' page point := by
  refine ok.carried (ok.of_softlock isLocked).2 ⟨by rw [nowVpg], by rw [nowVpg], ?_, sameXlat,
    fun _ noTlb => sameTlb.trans noTlb, fun noPpid => ⟨?_, sameContents⟩, fun other keeps => ?_⟩
  · rw [nowVpg]
    exact isFewer
  · rw [nowVpg]
    exact noPpid
  · refine ⟨by rw [nowVpg]; exact keeps.here, by rw [sameTlb]; exact keeps.tlb, ?_⟩
    rw [sameMemory, sameContents]
    exact keeps.data

end

end Outside

end Uw7.Fga
