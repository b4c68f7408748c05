import Uw7.Fga.Affinity
import Uw7.Lib.Run

namespace Uw7.Fga

/-!
# What the affinity list says about every offset

The abstract meaning of a sequence of placement requests is that each offset
follows the most recent request covering it.  The insertion loop keeps the list
ordered, and the lookup agrees with that meaning, exactly as long as no request
ends inside an element that it does not also start in: for such a request the
trimmed element ends up in front of the new one.
-/

open List

def Accepted.Applies (mapsize offset : Nat) (request : Accepted) : Prop :=
  request.WholeSegment mapsize ∨ (request.off ≤ offset ∧ offset < request.off + request.nbytes)

instance (mapsize offset : Nat) (request : Accepted) : Decidable (request.Applies mapsize offset) :=
  inferInstanceAs (Decidable (_ ∨ _))

/--
What the most recent request covering `offset` asked for; `requests` lists the
accepted requests in order, and `default` applies where none covers it.
-/
def mostRecent (mapsize : Nat) (default : Selection) (requests : List Accepted) (offset : Nat) :
    Selection :=
  match requests.reverse.find? fun request =>
      decide (request.Applies mapsize offset) with
  | some request => request.selection
  | none => default

/-- The list is sorted by `fa_soffset` and no offset lies in two elements. -/
def SortedDisjoint (elements : List FgashmAffinity) : Prop := (elements.Pairwise fun first second =>
    first.soffset < second.soffset) ∧ elements.Pairwise fun first second =>
      ∀ offset, ¬ (Covers offset first ∧ Covers offset second)

/-- The element starts inside the inserted range and ends after it. -/
def Straddles (inserted element : FgashmAffinity) : Prop := inserted.soffset ≤ element.soffset ∧
    element.soffset ≤ inserted.eoffset ∧ inserted.eoffset < element.eoffset

/-- The request leaves every existing element either trimmed at its end, split,
removed or untouched. -/
def KeepsOrder (mapsize : Nat) (head : FgashmAffHead) (request : Accepted) : Prop :=
  request.WholeSegment mapsize ∨ ∀ element ∈ head.anchor, ¬ Straddles request.element element

def ReaffineStep (policy : PlacePolicy) (mapsize : Nat) (before : FgashmAffHead)
    (request : Accepted) (after : FgashmAffHead) : Prop :=
  ∃ groups fgashmDefGranularity shmp,
    acceptRequest policy groups fgashmDefGranularity mapsize shmp = .ok request ∧
      fgashmReaffine policy groups fgashmDefGranularity mapsize before shmp = .ok after

/-- A segment size that `shm_makefga` accepts. -/
structure SegmentSize where
  bytes : Nat
  nonzero : bytes ≠ 0
  quantum : bytes % fgashmSizeQuanta = 0
  fits : bytes < 2 ^ 32

theorem mem_insertElement (inserted : FgashmAffinity) (elements : List FgashmAffinity) :
    inserted ∈ insertElement inserted elements := by
  induction elements with
  | nil => simp [insertElement]
  | cons element rest ih =>
    unfold insertElement
    split_ifs <;> simp [ih]

theorem insertElement_above {inserted : FgashmAffinity} {elements : List FgashmAffinity}
    {bound : Nat} (insertedAbove : bound < inserted.soffset)
    (insertedNonempty : inserted.soffset ≤ inserted.eoffset)
    (elementsAbove : ∀ element ∈ elements, bound < element.soffset) :
    ∀ element ∈ insertElement inserted elements, bound < element.soffset := by
  induction elements with
  | nil => simpa [insertElement] using insertedAbove
  | cons head rest ih =>
    have headAbove : bound < head.soffset := elementsAbove head (by simp)
    have restAbove : ∀ element ∈ rest, bound < element.soffset :=
      fun element member => elementsAbove element (by simp [member])
    have later := ih restAbove
    have pastInserted : bound < inserted.eoffset + 1 := by omega
    unfold insertElement
    split_ifs
    · simpa using ⟨insertedAbove, headAbove, restAbove⟩
    · simpa using ⟨headAbove, later⟩
    · exact later
    · exact forall_mem_cons.mpr ⟨pastInserted, later⟩
    · simpa using ⟨headAbove, later⟩
    · exact forall_mem_cons.mpr ⟨headAbove, forall_mem_cons.mpr
        ⟨insertedAbove, forall_mem_cons.mpr ⟨pastInserted, restAbove⟩⟩⟩
    · simpa using ⟨headAbove, later⟩

def selected (offset : Nat) (elements : List FgashmAffinity) : Option Selection :=
  (elements.find? fun element => decide (Covers offset element)).map FgashmAffinity.selection

@[simp] theorem selected_nil (offset : Nat) : selected offset [] = none := rfl

theorem selected_cons (offset : Nat) (head : FgashmAffinity) (rest : List FgashmAffinity) :
    selected offset (head :: rest) =
      if Covers offset head then
        some head.selection
      else
        selected offset rest := by
  by_cases covers : Covers offset head <;> simp [selected, covers]

section NoStraddle

variable {inserted : FgashmAffinity} {elements : List FgashmAffinity}

section

variable (insertedNonempty : inserted.soffset ≤ inserted.eoffset) (ordered : Ordered elements)
include insertedNonempty ordered

theorem insertElement_ordered (noStraddle : ∀ element ∈ elements, ¬ Straddles inserted element) :
    Ordered (insertElement inserted elements) := by
  induction elements with
  | nil => exact Lib.Intervals.Ordered.cons_iff.mpr ⟨insertedNonempty, by simp, .nil⟩
  | cons head rest ih =>
    obtain ⟨headNonempty, headApart, restOrdered⟩ := Lib.Intervals.Ordered.cons_iff.mp ordered
    have restKept : Ordered (insertElement inserted rest) := ih restOrdered
        fun element member => noStraddle element (by simp [member])
    have headFits : ¬ Straddles inserted head := noStraddle head (by simp)
    simp only [Straddles, not_and, not_lt] at headFits
    unfold insertElement
    split_ifs with afterInserted beforeInserted startsInside endsInside endOverlaps contains
    · -- The insertion point: everything from `head` on lies after it.
      refine Lib.Intervals.Ordered.cons_iff.mpr ⟨insertedNonempty, ?_, ordered⟩
      simp only [mem_cons, forall_eq_or_imp]
      refine ⟨by omega, fun element member => ?_⟩
      have := headApart element member
      omega
    · refine Lib.Intervals.Ordered.cons_iff.mpr ⟨headNonempty, ?_, restKept⟩
      exact insertElement_above (by omega) insertedNonempty headApart
    · exact restKept
    · exact absurd (headFits startsInside.1 startsInside.2) (by omega)
    · refine Lib.Intervals.Ordered.cons_iff.mpr ⟨by simp only; omega, ?_, restKept⟩
      refine insertElement_above (by simp only; omega) insertedNonempty fun element member => ?_
      have := headApart element member
      simp only
      omega
    · refine Lib.Intervals.Ordered.cons_iff.mpr ⟨by simp only; omega, ?_,
        Lib.Intervals.Ordered.cons_iff.mpr ⟨insertedNonempty, ?_,
          Lib.Intervals.Ordered.cons_iff.mpr ⟨by simp only; omega, headApart, restOrdered⟩⟩⟩
      · simp only [mem_cons, forall_eq_or_imp]
        refine ⟨by omega, by omega, fun element member => ?_⟩
        have := headApart element member
        omega
      · simp only [mem_cons, forall_eq_or_imp]
        refine ⟨by omega, fun element member => ?_⟩
        have := headApart element member
        omega
    · omega

theorem selected_insertElement (noStraddle : ∀ element ∈ elements, ¬ Straddles inserted element)
    (offset : Nat) : selected offset (insertElement inserted elements) =
      if Covers offset inserted then
        some inserted.selection
      else
        selected offset elements := by
  induction elements with
  | nil => simp [insertElement, selected_cons]
  | cons head rest ih =>
    obtain ⟨headNonempty, headApart, restOrdered⟩ := Lib.Intervals.Ordered.cons_iff.mp ordered
    have restSelected := ih restOrdered fun element member => noStraddle element (by simp [member])
    have headFits : ¬ Straddles inserted head := noStraddle head (by simp)
    simp only [Straddles, not_and, not_lt] at headFits
    -- Each branch compares the pieces of `head` with `head` itself.
    generalize expectedIs : (if Covers offset inserted then
      some inserted.selection
      else
        selected offset (head :: rest)) = expected
    unfold insertElement
    split_ifs with afterInserted beforeInserted startsInside endsInside
      endOverlaps contains <;> rw [← expectedIs]
    · rw [selected_cons]
    · rw [selected_cons, restSelected, selected_cons]
      split_ifs with coversHead coversInserted <;>
        first | rfl | (simp only [Covers, Lib.Intervals.Contains] at *; omega)
    · rw [restSelected, selected_cons]
      split_ifs with coversInserted coversHead <;>
        first | rfl | (simp only [Covers, Lib.Intervals.Contains] at *; omega)
    · exact absurd (headFits startsInside.1 startsInside.2) (by omega)
    · rw [selected_cons, restSelected, selected_cons]
      split_ifs with coversTrimmed coversInserted coversHead <;>
        first | rfl | (simp only [Covers, Lib.Intervals.Contains] at *; omega)
    · rw [selected_cons, selected_cons, selected_cons, selected_cons]
      split_ifs with coversLeft coversInserted coversRight coversHead <;>
        first | rfl | (simp only [Covers, Lib.Intervals.Contains] at *; omega)
    · omega

theorem insertElement_unsorted {straddler : FgashmAffinity} (member : straddler ∈ elements)
    (straddles : Straddles inserted straddler) : ¬ (insertElement inserted elements).Pairwise
      fun first second => first.soffset < second.soffset := by
  obtain ⟨straddlerFrom, straddlerInside, straddlerPast⟩ := straddles
  induction elements with
  | nil => simp at member
  | cons head rest ih =>
    obtain ⟨headNonempty, headApart, restOrdered⟩ := Lib.Intervals.Ordered.cons_iff.mp ordered
    rcases mem_cons.mp member with isHead | inRest
    · subst straddler
      have trims : insertElement inserted (head :: rest) =
          { head with soffset := inserted.eoffset + 1 } :: insertElement inserted rest := by
        rw [insertElement, if_neg (by omega), if_neg (by omega),
          if_pos ⟨straddlerFrom, straddlerInside⟩, if_neg (by omega)]
      rw [trims, pairwise_cons]
      rintro ⟨trimmedFirst, -⟩
      have := trimmedFirst inserted (mem_insertElement inserted rest)
      simp only at this
      omega
    · have pastHead : head.eoffset < straddler.soffset := headApart straddler inRest
      have restUnsorted := ih restOrdered inRest
      unfold insertElement
      split_ifs
      · omega
      · exact fun sorted => restUnsorted sorted.of_cons
      · exact restUnsorted
      · exact fun sorted => restUnsorted sorted.of_cons
      · exact fun sorted => restUnsorted sorted.of_cons
      · omega
      · exact fun sorted => restUnsorted sorted.of_cons

end

end NoStraddle

theorem SortedDisjoint.of_ordered {elements : List FgashmAffinity} (ordered : Ordered elements) :
    SortedDisjoint elements :=
  ⟨ordered.sorted, ordered.disjoint⟩

theorem findAffinity_eq_selected {head : FgashmAffHead} (ordered : Ordered head.anchor)
    (offset : Nat) :
    findAffinity head offset = (selected offset head.anchor).getD head.defaultSelection := by
  unfold findAffinity selected
  rw [Lib.Intervals.search_eq_find? ordered]
  cases head.anchor.find? fun element => decide (Covers offset element) <;> rfl

section Accepted

variable {policy : PlacePolicy} {groups : CpuGroups}
variable {fgashmDefGranularity mapsize : Nat}
variable {shmp : ShmidDs} {request : Accepted}

theorem roundToPage_lt (size : Nat) : roundToPage size < 2 ^ 32 := by
  have bounded : sizeAdd size (pageSize - 1) < 2 ^ 32 := Nat.mod_lt _ (by decide)
  exact lt_of_le_of_lt (Nat.div_mul_le_self _ _) bounded

/-- What the range checks establish, once the 32-bit wrap is excluded. -/
structure Accepted.InRange (mapsize : Nat) (request : Accepted) : Prop where
  starts : request.off < mapsize
  ends : request.off + request.nbytes ≤ mapsize
  plainSum : sizeAdd request.off request.nbytes = request.off + request.nbytes
  emptyAtZero : request.nbytes = 0 → request.off = 0

theorem acceptRequest_inRange (fits : mapsize < 2 ^ 32) (accepted :
    acceptRequest policy groups fgashmDefGranularity mapsize shmp = .ok request) :
    request.InRange mapsize := by
  simp only [acceptRequest, bind, Except.bind, pure, Except.pure,
    throw, throwThe, MonadExceptOf.throw] at accepted
  split_ifs at accepted with badPolicy badBits outside empty <;> cases named :
    requestCg policy groups (shmp.placepolicy &&& policy.affinityMask) shmp.cg <;>
    simp only [named, reduceCtorEq] at accepted
  obtain rfl := Except.ok.inj accepted
  have rounded := roundToPage_lt shmp.nbytes
  have starts : shmp.off < mapsize := by omega
  have plainSum : sizeAdd shmp.off (roundToPage shmp.nbytes) =
      shmp.off + roundToPage shmp.nbytes := by
    have noWrap : shmp.off ≤ sizeAdd shmp.off (roundToPage shmp.nbytes) := by omega
    unfold sizeAdd at noWrap ⊢
    omega
  exact
    { starts := starts
      ends := by simp only; omega
      plainSum := plainSum
      emptyAtZero := by simp only; omega }

theorem Accepted.covers_element_iff (inRange : request.InRange mapsize)
    (partialRequest : ¬ request.WholeSegment mapsize) (offset : Nat) :
    Covers offset request.element ↔ request.Applies mapsize offset := by
  have nonempty : request.nbytes ≠ 0 := fun empty =>
    partialRequest ⟨inRange.emptyAtZero empty, .inl empty⟩
  simp only [Covers, Lib.Intervals.Contains, Accepted.element,
    inRange.plainSum, Accepted.Applies, partialRequest, false_or]
  omega

theorem Accepted.element_nonempty (inRange : request.InRange mapsize)
    (partialRequest : ¬ request.WholeSegment mapsize) :
    request.element.soffset ≤ request.element.eoffset := by
  have nonempty : request.nbytes ≠ 0 := fun empty =>
    partialRequest ⟨inRange.emptyAtZero empty, .inl empty⟩
  simp only [Accepted.element, inRange.plainSum]
  omega

end Accepted

section OneRequest

variable {mapsize : Nat} {before : FgashmAffHead} {request : Accepted}

theorem ReaffineStep.inRange_install {policy : PlacePolicy} {after : FgashmAffHead}
    (fits : mapsize < 2 ^ 32) (taken : ReaffineStep policy mapsize before request after) :
    request.InRange mapsize ∧ after = installAffinity mapsize before request := by
  obtain ⟨groups, fgashmDefGranularity, shmp, accepted, result⟩ := taken
  refine ⟨acceptRequest_inRange fits accepted, ?_⟩
  simpa [fgashmReaffine, accepted, bind, Except.bind, pure, Except.pure] using result.symm

section

variable (inRange : request.InRange mapsize) (ordered : Ordered before.anchor)
include inRange ordered

theorem installAffinity_ordered (keeps : KeepsOrder mapsize before request) :
    Ordered (installAffinity mapsize before request).anchor := by
  unfold installAffinity
  split_ifs with whole
  · exact .nil
  · exact insertElement_ordered (request.element_nonempty inRange whole)
      ordered (keeps.resolve_left whole)

theorem findAffinity_installAffinity (keeps : KeepsOrder mapsize before request) (offset : Nat) :
    findAffinity (installAffinity mapsize before request) offset =
      if request.Applies mapsize offset then
        request.selection
      else
        findAffinity before offset := by
  rw [findAffinity_eq_selected (installAffinity_ordered inRange ordered keeps),
    findAffinity_eq_selected ordered]
  by_cases whole : request.WholeSegment mapsize
  · have applies : request.Applies mapsize offset := .inl whole
    simp [installAffinity, whole, applies, FgashmAffHead.defaultSelection]
  · have overrides := selected_insertElement (request.element_nonempty inRange whole)
        ordered (keeps.resolve_left whole) offset
    simp only [request.covers_element_iff inRange whole] at overrides
    simp only [installAffinity, whole, if_false, overrides]
    split_ifs <;> rfl

theorem installAffinity_unsorted (breaks : ¬ KeepsOrder mapsize before request) :
    ¬ SortedDisjoint (installAffinity mapsize before request).anchor := by
  simp only [KeepsOrder, not_or, not_forall, not_not] at breaks
  obtain ⟨whole, straddler, member, straddles⟩ := breaks
  simp only [installAffinity, whole, if_false]
  exact fun sorted =>
    insertElement_unsorted (request.element_nonempty inRange whole)
      ordered member straddles sorted.1

end

end OneRequest

theorem mostRecent_append_single (mapsize : Nat) (default : Selection) (requests : List Accepted)
    (request : Accepted) (offset : Nat) :
    mostRecent mapsize default (requests ++ [request]) offset =
      if request.Applies mapsize offset then
        request.selection
      else
        mostRecent mapsize default requests offset := by
  by_cases applies : request.Applies mapsize offset <;> simp [mostRecent, applies]

/-- The list and the lookup agree with the requests made so far. -/
structure FollowsRequests (policy : PlacePolicy) (mapsize : Nat) (default : Selection)
    (requests : List Accepted) (head : FgashmAffHead) : Prop where
  sortedDisjoint : SortedDisjoint head.anchor
  found : ∀ offset < mapsize, findAffinity head offset = mostRecent mapsize default requests offset
  placed : ∀ groups, ∀ offset < mapsize, fgashmFindCg policy groups head offset =
      placeBySelection policy groups offset (mostRecent mapsize default requests offset)

theorem reaffine_run_invariant {policy : PlacePolicy} {mapsize : Nat} {initial head : FgashmAffHead}
    {requests : List Accepted} (fits : mapsize < 2 ^ 32) (start : initial.anchor = [])
    (run : Lib.Run (Lib.Guarded (ReaffineStep policy mapsize) (KeepsOrder mapsize))
      initial requests head) :
    Ordered head.anchor ∧ ∀ offset, findAffinity head offset =
      mostRecent mapsize initial.defaultSelection requests offset := by
  induction run with
  | nil =>
    exact ⟨start ▸ .nil, fun offset => by
      simp [findAffinity, start, Lib.Intervals.search, mostRecent]⟩
  | snoc earlier last ih =>
    obtain ⟨ordered, found⟩ := ih
    obtain ⟨inRange, rfl⟩ := last.1.inRange_install fits
    refine ⟨installAffinity_ordered inRange ordered last.2, ?_⟩
    intro offset
    rw [findAffinity_installAffinity inRange ordered last.2, mostRecent_append_single, found]

/--
As long as no accepted request ends inside an element that starts in its range,
the affinity list of a segment follows the requests; the first such request
leaves the list unsorted.
-/
theorem affinity_follows_requests (policy : PlacePolicy) (groups : CpuGroups)
    (fgashmDefGranularity flag : Nat) (segment : SegmentSize) (requests : List Accepted)
    (head : FgashmAffHead)
    (run : Lib.Run (Lib.Guarded (ReaffineStep policy segment.bytes) (KeepsOrder segment.bytes))
      (shmMakefga policy groups fgashmDefGranularity flag) requests head) :
    FollowsRequests policy segment.bytes (shmMakefga policy groups fgashmDefGranularity
      flag).defaultSelection requests head ∧
      ∀ request after, ReaffineStep policy segment.bytes head request after →
        (SortedDisjoint after.anchor ↔ KeepsOrder segment.bytes head request) := by
  obtain ⟨ordered, found⟩ := reaffine_run_invariant segment.fits rfl run
  refine ⟨⟨.of_ordered ordered, fun offset _ => found offset, ?_⟩, ?_⟩
  · intro groups offset _
    rw [fgashmFindCg, found]
  · intro request after taken
    obtain ⟨inRange, rfl⟩ := taken.inRange_install segment.fits
    constructor
    · intro sorted
      by_contra breaks
      exact installAffinity_unsorted inRange ordered breaks sorted
    · intro keeps
      exact .of_ordered (installAffinity_ordered inRange ordered keeps)

/-- Distinct placement constants. -/
def samplePolicy : PlacePolicy where
  affinityMask := 7
  migrate := 8
  balanced := 2
  cpuGroup := 3
  firstUsage := 4
  plcDefault := 1

/-- Two CPU groups, both online, with the LWP in the first. -/
def sampleGroups : CpuGroups where
  mycg := 0
  cgNone := -1
  cgCurrent := -2
  ncg := 2
  cgid2cgnum := id
  isCGOnforU := fun _ => true
  isCGOnline := fun _ => true

/-- The smallest segment. -/
def sampleSegment : SegmentSize where
  bytes := fgashmSizeQuanta
  nonzero := by decide
  quantum := by decide
  fits := by decide

/-- A request to place a range on the second CPU group. -/
def sampleRequest (off nbytes : Nat) : ShmidDs where
  placepolicy := samplePolicy.cpuGroup
  cg := 1
  granularity := 0
  off := off
  nbytes := nbytes

def sampleAccepted (off nbytes : Nat) : Accepted where
  off := off
  nbytes := nbytes
  selection := { affinity := samplePolicy.cpuGroup, cgnum := 1, granularity := 0 }

/-- The new segment with first-usage placement as its default. -/
def sampleInitial : FgashmAffHead :=
  shmMakefga samplePolicy sampleGroups pageSize samplePolicy.firstUsage

theorem affinity_follows_requests_single : FollowsRequests samplePolicy sampleSegment.bytes
    sampleInitial.defaultSelection [sampleAccepted 0x1000 0x2000]
    { sampleInitial with
      anchor := [(sampleAccepted 0x1000 0x2000).element] } :=
  (affinity_follows_requests samplePolicy sampleGroups pageSize
    samplePolicy.firstUsage sampleSegment _ _
    (.single ⟨⟨sampleGroups, pageSize, sampleRequest 0x1000 0x2000,
      by decide +kernel, by decide +kernel⟩, .inr (fun _ member => absurd member not_mem_nil)⟩)).1

/--
The second request ends inside the first one's element: the trimmed element is
put first, and the lookup at offset 0 falls back to the default.
-/
theorem straddling_request_unsorted : ∃ head,
    Lib.Run (ReaffineStep samplePolicy sampleSegment.bytes) sampleInitial
      [sampleAccepted 0x1000 0x2000, sampleAccepted 0 0x2000] head ∧
      ¬ SortedDisjoint head.anchor ∧ findAffinity head 0 = sampleInitial.defaultSelection ∧
      mostRecent sampleSegment.bytes sampleInitial.defaultSelection
        [sampleAccepted 0x1000 0x2000, sampleAccepted 0 0x2000] 0 =
        (sampleAccepted 0 0x2000).selection ∧
      ¬ FollowsRequests samplePolicy sampleSegment.bytes sampleInitial.defaultSelection
        [sampleAccepted 0x1000 0x2000, sampleAccepted 0 0x2000] head := by
  refine ⟨installAffinity sampleSegment.bytes (installAffinity sampleSegment.bytes sampleInitial
    (sampleAccepted 0x1000 0x2000)) (sampleAccepted 0 0x2000), ?_, ?_, by decide, by decide, ?_⟩
  · have first : Lib.Run (ReaffineStep samplePolicy sampleSegment.bytes)
        sampleInitial [sampleAccepted 0x1000 0x2000]
        (installAffinity sampleSegment.bytes sampleInitial (sampleAccepted 0x1000 0x2000)) :=
      .single ⟨sampleGroups, pageSize, sampleRequest 0x1000 0x2000,
        by decide +kernel, by decide +kernel⟩
    exact first.append (.single ⟨sampleGroups, pageSize, sampleRequest 0 0x2000,
      by decide +kernel, by decide +kernel⟩)
  · exact fun sorted => absurd sorted.1 (by decide)
  · exact fun follows => absurd follows.sortedDisjoint.1 (by decide)

end Uw7.Fga
