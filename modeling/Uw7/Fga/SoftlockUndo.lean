import Uw7.Lib.FirstFit
import Uw7.Fga.AffinityOrder
import Uw7.Fga.PageState

namespace Uw7.Fga

/-!
# The softlocks of one request

`segfga_fault` from `mem/seg_fga.c` for softlocks, without other LWPs, as far as the
softlock counts go.
-/

open Function

/-- The softlock counts, and whether a count behind the segment was changed. -/
structure SoftCounts where
  cnt : Nat → Nat
  bounded : ∀ page, cnt page ≤ vpgMaxSoftlockCount
  wild : Bool

/-- A range of pages of a segment that is mapped at a base. -/
structure SoftlockRange (seg : FgaSegment) where
  base : Nat
  first : Nat
  pages : Nat
  aligned : base % pageSize = 0
  fits : base + seg.mapsize ≤ 2 ^ 32
  nonempty : 0 < pages
  inside : first + pages ≤ seg.numPages

def SoftlockRange.request {seg : FgaSegment} (range : SoftlockRange seg) : FaultRequest where
  base := range.base
  first := range.first
  pages := range.pages
  isSoftlock := true

namespace SoftCounts

def incr (counts : SoftCounts) (page : Nat) : SoftCounts where
  cnt := update counts.cnt page (intIncr (counts.cnt page))
  bounded := by
    intro other
    by_cases isPage : other = page
    · rw [isPage, update_self, intIncr, vpgMaxSoftlockCount]
      omega
    · rw [update_of_ne isPage]
      exact counts.bounded other
  wild := counts.wild

/-- `atomic_int_decr` of the count at a page number of 20 bits. -/
def decr (seg : FgaSegment) (counts : SoftCounts) (segPgOffset : Nat) : SoftCounts :=
  let page := segPgOffset % 2 ^ 20
  if page < seg.numPages then
    { cnt := update counts.cnt page (intDecr (counts.cnt page))
      bounded := by
        intro other
        by_cases isPage : other = page
        · rw [isPage, update_self, intDecr, vpgMaxSoftlockCount]
          omega
        · rw [update_of_ne isPage]
          exact counts.bounded other
      wild := counts.wild }
  else
    { counts with wild := true }

end SoftCounts

/-- The loop of `segfga_fault` for `F_SOFTUNLOCK`. -/
def softunlockLoop (seg : FgaSegment) : Nat → Nat → SoftCounts → SoftCounts
  | 0, _, counts => counts
  | numPages + 1, segPgOffset, counts =>
    softunlockLoop seg numPages (segPgOffset + 1) (counts.decr seg segPgOffset)

/-- The loop for a softlock; it returns true for success and false for `EAGAIN`. -/
def softlockLoop (seg : FgaSegment) (request : FaultRequest) :
    Nat → Nat → SoftCounts → Bool × SoftCounts
  | 0, _, counts => (true, counts)
  | numPages + 1, segPgOffset, counts =>
    if counts.cnt segPgOffset = vpgMaxSoftlockCount then
      (false,
        if segPgOffset ≠ request.first then
          softunlockLoop seg (request.recoverLen segPgOffset / pageSize) request.first counts
        else counts)
    else
      softlockLoop seg request numPages (segPgOffset + 1) (counts.incr segPgOffset)

/-- `segfga_fault` for `F_SOFTLOCK` or `F_MAXPROT_SOFTLOCK`. -/
def segfgaSoftlock (seg : FgaSegment) (range : SoftlockRange seg) (counts : SoftCounts) :
    Bool × SoftCounts :=
  softlockLoop seg range.request range.pages range.first counts

/-- `segfga_fault` for `F_SOFTUNLOCK`. -/
def segfgaSoftunlock (seg : FgaSegment) (range : SoftlockRange seg)
    (counts : SoftCounts) : SoftCounts :=
  softunlockLoop seg range.pages range.first counts

/-- The pages of a segment have the same counts, and no others were changed. -/
structure SameCounts (seg : FgaSegment) (counts counts' : SoftCounts) : Prop where
  cnt : ∀ page, page < seg.numPages → counts'.cnt page = counts.cnt page
  wild : counts'.wild = counts.wild

def SoftlockRange.Contains {seg : FgaSegment} (range : SoftlockRange seg) (page : Nat) : Prop :=
  range.first ≤ page ∧ page < range.first + range.pages

instance {seg : FgaSegment} (range : SoftlockRange seg) (page : Nat) :
    Decidable (range.Contains page) :=
  inferInstanceAs (Decidable (_ ∧ _))

/--
A request that fails leaves the counts as they were, and one that succeeds counts once
in every page of the range, until it is given back.
-/
structure SoftlocksWhole (seg : FgaSegment) (range : SoftlockRange seg)
    (counts : SoftCounts) : Prop where
  undone : (segfgaSoftlock seg range counts).1 = false →
      SameCounts seg counts (segfgaSoftlock seg range counts).2
  locked : (segfgaSoftlock seg range counts).1 = true →
      (∀ page, (segfgaSoftlock seg range counts).2.cnt page =
        counts.cnt page + if range.Contains page then 1 else 0) ∧
      (segfgaSoftlock seg range counts).2.wild = counts.wild
  givenBack : (segfgaSoftlock seg range counts).1 = true → SameCounts seg counts
      (segfgaSoftunlock seg range (segfgaSoftlock seg range counts).2)

variable {seg : FgaSegment} {page : Nat}

namespace SoftCounts

theorem incr_cnt {counts : SoftCounts}
    (notFull : counts.cnt page ≠ vpgMaxSoftlockCount) (other : Nat) :
    (counts.incr page).cnt other = counts.cnt other + if other = page then 1 else 0 := by
  have bounded := counts.bounded page
  by_cases isPage : other = page
  · rw [if_pos isPage, isPage]
    simp only [incr, update_self, intIncr]
    unfold vpgMaxSoftlockCount at *
    omega
  · rw [if_neg isPage]
    exact update_of_ne isPage _ _

theorem decr_cnt {counts : SoftCounts} {segPgOffset page : Nat}
    (inSegment : page < seg.numPages) :
    (counts.decr seg segPgOffset).cnt page =
      if segPgOffset % 2 ^ 20 = page then intDecr (counts.cnt page)
      else counts.cnt page := by
  simp only [decr]
  split
  · by_cases isPage : segPgOffset % 2 ^ 20 = page
    · rw [if_pos isPage, ← isPage]
      exact update_self _ _ _
    · rw [if_neg isPage]
      exact update_of_ne (Ne.symm isPage) _ _
  · rw [if_neg (by omega)]

theorem decr_wild {counts : SoftCounts} {segPgOffset : Nat}
    (inSegment : segPgOffset % 2 ^ 20 < seg.numPages) :
    (counts.decr seg segPgOffset).wild = counts.wild := by
  simp only [decr]
  rw [if_pos inSegment]

/-- The loop of a request, on pages that are not full. -/
def incrPages (counts : SoftCounts) : Nat → Nat → SoftCounts
  | 0, _ => counts
  | numPages + 1, page => (counts.incr page).incrPages numPages (page + 1)

theorem incrPages_cnt {counts : SoftCounts} {numPages first : Nat} (notFull :
    ∀ page, first ≤ page → page < first + numPages → counts.cnt page ≠ vpgMaxSoftlockCount)
    (page : Nat) :
    (counts.incrPages numPages first).cnt page = counts.cnt page +
      if first ≤ page ∧ page < first + numPages then 1 else 0 := by
  induction numPages generalizing counts first with
  | zero =>
    rw [if_neg (by omega)]
    rfl
  | succ numPages ih =>
    have firstUp := incr_cnt (notFull first (by omega) (by omega))
    rw [incrPages, ih, firstUp page]
    · split <;> split <;> split <;> omega
    · intro other later inside
      rw [firstUp other, if_neg (by omega)]
      exact notFull other (by omega) (by omega)

@[simp] theorem incrPages_wild (counts : SoftCounts) (numPages first : Nat) :
    (counts.incrPages numPages first).wild = counts.wild := by
  induction numPages generalizing counts first with
  | zero => rfl
  | succ numPages ih => exact ih (counts.incr first) (first + 1)

end SoftCounts

theorem softunlockLoop_add (seg : FgaSegment) (numPages more first : Nat) (counts : SoftCounts) :
    softunlockLoop seg (numPages + more) first counts = softunlockLoop seg more (first + numPages)
      (softunlockLoop seg numPages first counts) := by
  induction numPages generalizing first counts with
  | zero =>
    rw [Nat.zero_add]
    rfl
  | succ numPages ih =>
    rw [Nat.add_right_comm, softunlockLoop, ih, softunlockLoop, Nat.add_assoc, Nat.add_comm 1]

variable {numPages first page : Nat}

theorem softunlockLoop_other {counts : SoftCounts}
    (inSegment : page < seg.numPages) (other : ∀ j, j < numPages → (first + j) % 2 ^ 20 ≠ page) :
    (softunlockLoop seg numPages first counts).cnt page = counts.cnt page := by
  induction numPages generalizing first counts with
  | zero => rfl
  | succ numPages ih =>
    have notFirst : first % 2 ^ 20 ≠ page := other 0 (by omega)
    rw [softunlockLoop, ih, SoftCounts.decr_cnt inSegment, if_neg notFirst]
    intro j below
    have later := other (j + 1) (by omega)
    rwa [show first + 1 + j = first + (j + 1) by omega]

theorem softunlockLoop_once {numPages first j : Nat} {counts : SoftCounts}
    (few : numPages ≤ 2 ^ 20) (below : j < numPages)
    (inSegment : (first + j) % 2 ^ 20 < seg.numPages) :
    (softunlockLoop seg numPages first counts).cnt ((first + j) % 2 ^ 20) =
      intDecr (counts.cnt ((first + j) % 2 ^ 20)) := by
  obtain ⟨rest, split⟩ : ∃ rest, numPages = j + (rest + 1) := ⟨numPages - j - 1, by omega⟩
  rw [split, softunlockLoop_add, softunlockLoop,
    softunlockLoop_other inSegment (fun later _ => by omega),
    SoftCounts.decr_cnt inSegment, if_pos rfl,
    softunlockLoop_other inSegment (fun earlier _ => by omega)]

section

variable {seg : FgaSegment} {counts : SoftCounts} (inside : first + numPages ≤ seg.numPages)
include inside

theorem softunlockLoop_inside (inSegment : page < seg.numPages) :
    (softunlockLoop seg numPages first counts).cnt page =
      if first ≤ page ∧ page < first + numPages then
        intDecr (counts.cnt page)
      else counts.cnt page := by
  have fewPages := seg.numPages_lt
  split
  next isIn =>
    have once := @softunlockLoop_once seg numPages first (page - first) counts (by omega) (by omega)
    rw [show (first + (page - first)) % 2 ^ 20 = page by omega] at once
    exact once inSegment
  next isOut => exact softunlockLoop_other inSegment (fun j _ => by omega)

theorem softunlockLoop_wild : (softunlockLoop seg numPages first counts).wild = counts.wild := by
  induction numPages generalizing first counts with
  | zero => rfl
  | succ numPages ih => rw [softunlockLoop, ih (by omega), SoftCounts.decr_wild (by omega)]

theorem softunlockLoop_incrPages (notFull : ∀ page, first ≤ page → page < first + numPages →
        counts.cnt page ≠ vpgMaxSoftlockCount) :
    SameCounts seg counts (softunlockLoop seg numPages first
      (counts.incrPages numPages first)) := by
  refine ⟨fun page inSegment => ?_, ?_⟩
  · have bounded := counts.bounded page
    rw [softunlockLoop_inside inside inSegment, SoftCounts.incrPages_cnt notFull]
    split
    · unfold intDecr vpgMaxSoftlockCount at *
      omega
    · rfl
  · rw [softunlockLoop_wild inside, SoftCounts.incrPages_wild]

end

theorem softlockLoop_add {request : FaultRequest} {numPages more first : Nat}
    {counts : SoftCounts}
    (notFull : ∀ page, first ≤ page → page < first + numPages →
      counts.cnt page ≠ vpgMaxSoftlockCount) :
    softlockLoop seg request (numPages + more) first counts =
      softlockLoop seg request more (first + numPages) (counts.incrPages numPages first) := by
  induction numPages generalizing first counts with
  | zero =>
    rw [Nat.zero_add]
    rfl
  | succ numPages ih =>
    have firstNotFull := notFull first (by omega) (by omega)
    rw [Nat.add_right_comm, softlockLoop, if_neg firstNotFull, ih,
      SoftCounts.incrPages, Nat.add_assoc, Nat.add_comm 1]
    intro page later below
    rw [SoftCounts.incr_cnt firstNotFull, if_neg (by omega)]
    exact notFull page (by omega) (by omega)

namespace SoftlockRange

variable {seg : FgaSegment}

def NoneFull (range : SoftlockRange seg) (counts : SoftCounts) : Prop :=
  ∀ page, range.Contains page → counts.cnt page ≠ vpgMaxSoftlockCount

structure FirstFull (range : SoftlockRange seg) (counts : SoftCounts) (page : Nat) : Prop where
  contains : range.Contains page
  full : counts.cnt page = vpgMaxSoftlockCount
  before : ∀ earlier, range.first ≤ earlier → earlier < page →
      counts.cnt earlier ≠ vpgMaxSoftlockCount

variable {range : SoftlockRange seg}

theorem FirstFull.notFull {counts : SoftCounts}
    (firstFull : range.FirstFull counts page) (earlier : Nat) (later : range.first ≤ earlier)
    (isEarlier : earlier < range.first + (page - range.first)) :
    counts.cnt earlier ≠ vpgMaxSoftlockCount :=
  firstFull.before earlier later (by omega)

theorem noneFull_or_firstFull (range : SoftlockRange seg) (counts : SoftCounts) :
    range.NoneFull counts ∨ ∃ page, range.FirstFull counts page := by
  have noneOrFirst := Lib.none_or_first (counts.cnt · = vpgMaxSoftlockCount) range.first
      (range.first + range.pages)
  rcases noneOrFirst with none | ⟨page, notBefore, below, full, before⟩
  · exact .inl fun page contains => none page contains.1 contains.2
  · exact .inr ⟨page, ⟨notBefore, below⟩, full, before⟩

theorem NoneFull.segfgaSoftlock_eq {counts : SoftCounts} (noneFull : range.NoneFull counts) :
    segfgaSoftlock seg range counts = (true, counts.incrPages range.pages range.first) := by
  have goesOn := @softlockLoop_add seg range.request range.pages 0 range.first counts
      fun page notBefore below => noneFull page ⟨notBefore, below⟩
  rwa [Nat.add_zero] at goesOn

/-- The length with which the softlocks before a page are given back, in pages. -/
def undonePages (range : SoftlockRange seg) (page : Nat) : Nat :=
  range.request.recoverLen page / pageSize

theorem FirstFull.segfgaSoftlock_eq {counts : SoftCounts}
    (firstFull : range.FirstFull counts page) :
    segfgaSoftlock seg range counts = (false,
      if page ≠ range.first then
        softunlockLoop seg (range.undonePages page) range.first
          (counts.incrPages (page - range.first) range.first)
      else counts) := by
  obtain ⟨notBefore, below⟩ := firstFull.contains
  obtain ⟨more, isMore⟩ : ∃ more, range.pages = (page - range.first) + (more + 1) :=
    ⟨range.first + range.pages - page - 1, by omega⟩
  have notFull := firstFull.notFull
  have stillFull : (counts.incrPages (page - range.first) range.first).cnt page =
        vpgMaxSoftlockCount := by
    rw [SoftCounts.incrPages_cnt notFull, if_neg (by omega)]
    exact firstFull.full
  rw [segfgaSoftlock, isMore, softlockLoop_add notFull,
    show range.first + (page - range.first) = page by omega,
    softlockLoop, if_pos stillFull]
  by_cases isFirst : page = range.first
  · have notLater : ¬page ≠ range.first := not_not.mpr isFirst
    rw [show range.request.first = range.first from rfl,
      if_neg notLater, if_neg notLater, isFirst, Nat.sub_self]
    rfl
  · rw [show range.request.first = range.first from rfl, if_pos isFirst, if_pos isFirst]
    rfl

theorem undonePages_base_zero (isZero : range.base = 0) (contains : range.Contains page) :
    range.undonePages page = page - range.first := by
  have fewPages := seg.numPages_lt
  have inside := range.inside
  obtain ⟨notBefore, below⟩ := contains
  have atZero : range.request.base = 0 := isZero
  exact FaultRequest.recoverLen_zero atZero notBefore (by omega)

theorem undonePages_ne (notZero : range.base ≠ 0) (contains : range.Contains page) :
    range.undonePages page ≠ page - range.first := by
  have inside := range.inside
  have aligned := range.aligned
  have fits := range.fits
  obtain ⟨notBefore, below⟩ := contains
  simp only [FgaSegment.mapsize, pageSize] at aligned fits
  simp only [undonePages, FaultRequest.recoverLen, request, pageSize]
  omega

theorem undonePages_lt (range : SoftlockRange seg) (page : Nat) :
    range.undonePages page < 2 ^ 20 := by
  simp only [undonePages, FaultRequest.recoverLen, pageSize]
  omega

end SoftlockRange

theorem SoftlockRange.FirstFull.counts_eq {range : SoftlockRange seg}
    {counts : SoftCounts} (firstFull : range.FirstFull counts page)
    (notFirst : page ≠ range.first) :
    (segfgaSoftlock seg range counts).2 = softunlockLoop seg (range.undonePages page) range.first
      (counts.incrPages (page - range.first) range.first) := by
  rw [firstFull.segfgaSoftlock_eq]
  exact if_pos notFirst

theorem SameCounts.refl (seg : FgaSegment) (counts : SoftCounts) : SameCounts seg counts counts :=
  ⟨fun _ _ => rfl, rfl⟩

section Whole

variable {seg : FgaSegment}
variable {range : SoftlockRange seg}
variable {counts : SoftCounts}

theorem SoftlockRange.NoneFull.whole (noneFull : range.NoneFull counts) :
    SoftlocksWhole seg range counts := by
  have notFull : ∀ page, range.first ≤ page → page < range.first + range.pages →
      counts.cnt page ≠ vpgMaxSoftlockCount :=
    fun page notBefore below => noneFull page ⟨notBefore, below⟩
  refine ⟨fun fails => ?_, fun _ => ?_, fun _ => ?_⟩
  · rw [noneFull.segfgaSoftlock_eq] at fails
    cases fails
  · rw [noneFull.segfgaSoftlock_eq]
    exact ⟨SoftCounts.incrPages_cnt notFull, SoftCounts.incrPages_wild counts _ _⟩
  · rw [noneFull.segfgaSoftlock_eq]
    exact softunlockLoop_incrPages range.inside notFull

section

variable {page : Nat} (firstFull : range.FirstFull counts page)
include firstFull

theorem SoftlockRange.FirstFull.whole_iff : SoftlocksWhole seg range counts ↔
      SameCounts seg counts (segfgaSoftlock seg range counts).2 := by
  have fails : (segfgaSoftlock seg range counts).1 = false := by rw [firstFull.segfgaSoftlock_eq]
  refine ⟨fun whole => whole.undone fails, fun same => ?_⟩
  refine ⟨fun _ => same, fun succeeds => ?_, fun succeeds => ?_⟩
  · rw [fails] at succeeds
    cases succeeds
  · rw [fails] at succeeds
    cases succeeds

theorem SoftlockRange.FirstFull.same_of_first (isFirst : page = range.first) :
    SameCounts seg counts (segfgaSoftlock seg range counts).2 := by
  rw [firstFull.segfgaSoftlock_eq, if_neg (not_not.mpr isFirst)]
  exact SameCounts.refl seg counts

theorem SoftlockRange.FirstFull.same_of_length
    (length : range.undonePages page = page - range.first) :
    SameCounts seg counts (segfgaSoftlock seg range counts).2 := by
  have inside := range.inside
  obtain ⟨notBefore, below⟩ := firstFull.contains
  by_cases isFirst : page = range.first
  · exact firstFull.same_of_first isFirst
  · rw [firstFull.counts_eq isFirst, length]
    exact softunlockLoop_incrPages (by omega) firstFull.notFull

theorem SoftlockRange.FirstFull.not_same_short (short : range.undonePages page < page - range.first)
    :
    ¬SameCounts seg counts (segfgaSoftlock seg range counts).2 := by
  intro same
  have inside := range.inside
  obtain ⟨notBefore, below⟩ := firstFull.contains
  have kept := same.cnt (range.first + range.undonePages page) (by omega)
  have notFull := firstFull.notFull
  rw [firstFull.counts_eq (by omega), softunlockLoop_other (by omega) (fun j _ => by omega),
    SoftCounts.incrPages_cnt notFull, if_pos (by omega)] at kept
  omega

theorem SoftlockRange.FirstFull.not_same_long (notFirst : page ≠ range.first)
    (long : page - range.first < range.undonePages page) :
    ¬SameCounts seg counts (segfgaSoftlock seg range counts).2 := by
  intro same
  have fewPages := seg.numPages_lt
  have inside := range.inside
  have few := range.undonePages_lt page
  obtain ⟨notBefore, below⟩ := firstFull.contains
  have isPage : (range.first + (page - range.first)) % 2 ^ 20 = page := by omega
  have kept := same.cnt page (by omega)
  have notFull := firstFull.notFull
  have once := @softunlockLoop_once seg (range.undonePages page) range.first (page - range.first)
      (counts.incrPages (page - range.first) range.first)
      (by omega) long (by omega)
  rw [isPage, SoftCounts.incrPages_cnt notFull, if_neg (by omega),
    Nat.add_zero, firstFull.full] at once
  rw [firstFull.counts_eq notFirst, once, firstFull.full] at kept
  unfold intDecr vpgMaxSoftlockCount at kept
  omega

end

/--
The condition: the segment is at base 0, or the full page is the first one, or there is
no full page.
-/
def SoftlockRange.Undoes {seg : FgaSegment} (range : SoftlockRange seg)
    (counts : SoftCounts) : Prop :=
  range.base = 0 ∨ counts.cnt range.first = vpgMaxSoftlockCount ∨ range.NoneFull counts

theorem SoftlocksWhole.of_undoes (undoes : range.Undoes counts) :
    SoftlocksWhole seg range counts := by
  cases range.noneFull_or_firstFull counts with
  | inl noneFull => exact noneFull.whole
  | inr someFull =>
    obtain ⟨page, firstFull⟩ := someFull
    rw [firstFull.whole_iff]
    rcases undoes with atZero | fullFirst | noneFull
    · exact firstFull.same_of_length (SoftlockRange.undonePages_base_zero atZero firstFull.contains)
    · refine firstFull.same_of_first ?_
      have notBefore := firstFull.contains.1
      by_contra notFirst
      exact firstFull.before range.first (Nat.le_refl _) (by omega) fullFirst
    · exact absurd firstFull.full (noneFull page firstFull.contains)

theorem SoftlocksWhole.undoes (whole : SoftlocksWhole seg range counts) : range.Undoes counts := by
  cases range.noneFull_or_firstFull counts with
  | inl noneFull => exact .inr (.inr noneFull)
  | inr someFull =>
    obtain ⟨page, firstFull⟩ := someFull
    rw [firstFull.whole_iff] at whole
    by_cases atZero : range.base = 0
    · exact .inl atZero
    by_cases isFirst : page = range.first
    · refine .inr (.inl ?_)
      rw [← isFirst]
      exact firstFull.full
    have wrong := SoftlockRange.undonePages_ne atZero firstFull.contains
    rcases Nat.lt_or_gt_of_ne wrong with short | long
    · exact absurd whole (firstFull.not_same_short short)
    · exact absurd whole (firstFull.not_same_long isFirst long)

end Whole

theorem softlocksWhole_iff (seg : FgaSegment) (range : SoftlockRange seg) (counts : SoftCounts) :
    SoftlocksWhole seg range counts ↔ range.Undoes counts :=
  ⟨SoftlocksWhole.undoes, SoftlocksWhole.of_undoes⟩

/-- A segment of eight megabytes. -/
def wideSegment : FgaSegment where
  policy := samplePolicy
  groups := sampleGroups
  fgashmDefGranularity := pageSize
  numPages := 2048
  whole := by decide
  fits := by decide

/-- Two pages of it, when it is at four megabytes. -/
def twoPages : SoftlockRange wideSegment where
  base := 0x400000
  first := 0
  pages := 2
  aligned := by decide
  fits := by decide
  nonempty := Nat.two_pos
  inside := by decide

def secondFull : SoftCounts where
  cnt := fun page => if page = 1 then vpgMaxSoftlockCount else 0
  bounded := by
    intro page
    split
    · exact Nat.le_refl _
    · exact Nat.zero_le _
  wild := false

theorem softlocks_notUndone :
    ¬∀ (seg : FgaSegment) (range : SoftlockRange seg) (counts : SoftCounts),
      SoftlocksWhole seg range counts := by
  intro allWhole
  rcases (allWhole wideSegment twoPages secondFull).undoes with
    atZero | fullFirst | noneFull
  · exact absurd atZero (by decide)
  · exact absurd fullFirst (by decide)
  · exact noneFull 1 (by decide) rfl

end Uw7.Fga
