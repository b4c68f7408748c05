import Uw7.Fga.AffinityOrder

namespace Uw7.Fga

/-!
# The granularity of balanced placement

`fgashm_find_cg` divides by the granularity of what it finds.  A granularity comes from
the system-wide default when the segment is made, and from the request or the default
when the segment is given another affinity.
-/

open List Option

/-- `fgashm_find_cg` divides by the granularity of a selection with this policy. -/
def Divides (policy : PlacePolicy) (affinity : Nat) : Prop :=
  affinity = policy.balanced ∨ affinity = policy.plcDefault

instance (policy : PlacePolicy) (affinity : Nat) : Decidable (Divides policy affinity) :=
  inferInstanceAs (Decidable (_ ∨ _))

/-- Where the granularity is divided by, it is a number of pages and not zero. -/
def Selection.Divisible (policy : PlacePolicy) (selection : Selection) : Prop :=
  Divides policy selection.affinity →
    selection.granularity ≠ 0 ∧ selection.granularity % pageSize = 0

/-- No placement in the segment divides by zero. -/
structure GranularitySafe (policy : PlacePolicy) (mapsize : Nat) (head : FgashmAffHead) : Prop where
  elements : ∀ element ∈ head.anchor, element.selection.Divisible policy
  default : head.defaultSelection.Divisible policy
  defined : ∀ offset, offset < mapsize → Divides policy (findAffinity head offset).affinity →
      (findAffinity head offset).granularity ≠ 0

/-- What happens to the affinity of a segment. -/
inductive AffinityAction where
  /-- `shm_makefga`, with the system-wide default at the time. -/
  | made (fgashmDefGranularity flag : Nat)
  /-- An accepted request, with the default at the time. -/
  | reaffined (fgashmDefGranularity : Nat) (shmp : ShmidDs)
  /-- A request that is refused. -/
  | refused (fgashmDefGranularity : Nat) (shmp : ShmidDs)
  deriving DecidableEq

/-- One call; before `shm_makefga` there is no affinity. -/
inductive AffinityStep (policy : PlacePolicy) (mapsize : Nat) :
    Option FgashmAffHead → AffinityAction → Option FgashmAffHead → Prop where
  | made (groups : CpuGroups) (fgashmDefGranularity flag : Nat) :
      AffinityStep policy mapsize none (.made fgashmDefGranularity flag)
        (some (shmMakefga policy groups fgashmDefGranularity flag))
  | reaffined {groups : CpuGroups} {fgashmDefGranularity : Nat} {before after : FgashmAffHead}
      {shmp : ShmidDs}
      (result : fgashmReaffine policy groups fgashmDefGranularity mapsize before shmp = .ok after) :
      AffinityStep policy mapsize (some before) (.reaffined fgashmDefGranularity shmp) (some after)
  | refused {groups : CpuGroups} {fgashmDefGranularity : Nat} {before : FgashmAffHead}
      {shmp : ShmidDs}
      {error : Errno} (result : fgashmReaffine policy groups fgashmDefGranularity mapsize before
          shmp = .error error) :
      AffinityStep policy mapsize (some before) (.refused fgashmDefGranularity shmp) (some before)

/-- The affinity that a request asks for. -/
def ShmidDs.affinity (policy : PlacePolicy) (shmp : ShmidDs) : Nat :=
  shmp.placepolicy &&& policy.affinityMask

/--
Where the granularity is divided by, the default of a new segment is a number of pages,
and what a request asks for is neither zero nor so large that rounding it up wraps.
-/
def GranularityFits (policy : PlacePolicy) : Option FgashmAffHead → AffinityAction → Prop
  | _, .made fgashmDefGranularity flag =>
    Divides policy (if flag &&& policy.affinityMask ≠ 0 then
        flag &&& policy.affinityMask
        else policy.plcDefault) →
      fgashmDefGranularity % pageSize = 0
  | _, .reaffined fgashmDefGranularity shmp =>
    Divides policy (shmp.affinity policy) →
      let granularity := requestGranularity policy fgashmDefGranularity
          (shmp.affinity policy) shmp.granularity
      0 < granularity ∧ granularity ≤ 2 ^ 32 - pageSize
  | _, .refused _ _ => True

variable {policy : PlacePolicy} {groups : CpuGroups}
  {fgashmDefGranularity mapsize : Nat} {shmp : ShmidDs}
  {request : Accepted}

theorem roundToPage_divisible {size : Nat} (positive : 0 < size) (fits : size ≤ 2 ^ 32 - pageSize) :
    roundToPage size ≠ 0 ∧ roundToPage size % pageSize = 0 := by
  simp only [roundToPage, sizeAdd, pageSize] at *
  omega

theorem acceptRequest_selection (accepted :
    acceptRequest policy groups fgashmDefGranularity mapsize shmp = .ok request) :
    request.selection.affinity = shmp.affinity policy ∧ request.selection.granularity = roundToPage
      (requestGranularity policy fgashmDefGranularity (shmp.affinity policy) shmp.granularity) := by
  simp only [acceptRequest, bind, Except.bind, pure, Except.pure,
    throw, throwThe, MonadExceptOf.throw] at accepted
  split_ifs at accepted <;> cases named :
    requestCg policy groups (shmp.placepolicy &&& policy.affinityMask) shmp.cg <;>
    simp only [named, reduceCtorEq] at accepted
  obtain rfl := Except.ok.inj accepted
  exact ⟨rfl, rfl⟩

theorem insertElement_selection (inserted : FgashmAffinity) (elements : List FgashmAffinity) :
    ∀ element ∈ insertElement inserted elements, element.selection = inserted.selection ∨
      ∃ old ∈ elements, element.selection = old.selection := by
  induction elements with
  | nil =>
    intro element member
    obtain rfl := mem_singleton.mp member
    exact .inl rfl
  | cons head rest ih =>
    have later : ∀ element ∈ insertElement inserted rest, element.selection = inserted.selection ∨
        ∃ old ∈ head :: rest, element.selection = old.selection := by
      intro element member
      rcases ih element member with same | copied
      · exact .inl same
      · obtain ⟨old, inRest, same⟩ := copied
        exact .inr ⟨old, mem_cons_of_mem head inRest, same⟩
    have ofHead : ∀ element : FgashmAffinity, element.selection = head.selection →
        element.selection = inserted.selection ∨
          ∃ old ∈ head :: rest, element.selection = old.selection :=
      fun element same => .inr ⟨head, mem_cons_self, same⟩
    have ofRest : ∀ element ∈ rest, element.selection = inserted.selection ∨
        ∃ old ∈ head :: rest, element.selection = old.selection :=
      fun element member => .inr ⟨element, mem_cons_of_mem head member, rfl⟩
    unfold insertElement
    split_ifs
    · exact forall_mem_cons.mpr ⟨.inl rfl, forall_mem_cons.mpr ⟨ofHead head rfl, ofRest⟩⟩
    · exact forall_mem_cons.mpr ⟨ofHead head rfl, later⟩
    · exact later
    · exact forall_mem_cons.mpr ⟨ofHead _ rfl, later⟩
    · exact forall_mem_cons.mpr ⟨ofHead _ rfl, later⟩
    · exact forall_mem_cons.mpr ⟨ofHead _ rfl, forall_mem_cons.mpr
        ⟨.inl rfl, forall_mem_cons.mpr ⟨ofHead _ rfl, ofRest⟩⟩⟩
    · exact forall_mem_cons.mpr ⟨ofHead head rfl, later⟩

theorem findAffinity_selects (head : FgashmAffHead) (offset : Nat) :
    findAffinity head offset = head.defaultSelection ∨ ∃ element ∈ head.anchor,
      findAffinity head offset = element.selection := by
  have found : ∀ elements : List FgashmAffinity, ∀ element,
      Lib.Intervals.search FgashmAffinity.soffset FgashmAffinity.eoffset
        offset elements = some element → element ∈ elements := by
    intro elements
    induction elements with
    | nil =>
      intro element impossible
      cases impossible
    | cons first rest ih =>
      intro element result
      unfold Lib.Intervals.search at result
      split_ifs at result
      · obtain rfl := some.inj result
        exact mem_cons_self
      · exact mem_cons_of_mem first (ih element result)
  unfold findAffinity
  cases search : Lib.Intervals.search FgashmAffinity.soffset FgashmAffinity.eoffset
    offset head.anchor with
  | none => exact .inl rfl
  | some element => exact .inr ⟨element, found head.anchor element search, rfl⟩

theorem GranularitySafe.of_selections {head : FgashmAffHead}
    (elements : ∀ element ∈ head.anchor, element.selection.Divisible policy)
    (default : head.defaultSelection.Divisible policy) : GranularitySafe policy mapsize head where
  elements := elements
  default := default
  defined := by
    intro offset _ divides
    rcases findAffinity_selects head offset with isDefault | isElement
    · rw [isDefault] at divides ⊢
      exact (default divides).1
    · obtain ⟨element, member, same⟩ := isElement
      rw [same] at divides ⊢
      exact (elements element member divides).1

theorem shmMakefga_safe {flag : Nat} (fits :
    GranularityFits policy none (.made fgashmDefGranularity flag)) :
    GranularitySafe policy mapsize (shmMakefga policy groups fgashmDefGranularity flag) := by
  refine .of_selections ?_ fun divides => ?_
  · intro element member
    exact absurd member not_mem_nil
  · have pages := fits divides
    simp only [shmMakefga, FgashmAffHead.defaultSelection]
    split
    · exact ⟨by decide, by decide⟩
    · rename_i notZero
      exact ⟨notZero, pages⟩

theorem fgashmReaffine_safe {before after : FgashmAffHead}
    (safe : GranularitySafe policy mapsize before)
    (result : fgashmReaffine policy groups fgashmDefGranularity mapsize before shmp = .ok after)
    (fits : GranularityFits policy (some before) (.reaffined fgashmDefGranularity shmp)) :
    GranularitySafe policy mapsize after := by
  unfold fgashmReaffine at result
  cases accepted : acceptRequest policy groups fgashmDefGranularity mapsize shmp with
  | error error =>
    rw [accepted] at result
    cases result
  | ok request =>
    rw [accepted] at result
    obtain rfl : installAffinity mapsize before request = after := Except.ok.inj result
    obtain ⟨isAffinity, isGranularity⟩ := acceptRequest_selection accepted
    have installed : request.selection.Divisible policy := by
      intro divides
      rw [isAffinity] at divides
      obtain ⟨positive, below⟩ := fits divides
      rw [isGranularity]
      exact roundToPage_divisible positive below
    unfold installAffinity
    split
    · exact .of_selections (fun element member => absurd member not_mem_nil) installed
    · refine .of_selections (fun element member => ?_) safe.default
      rcases insertElement_selection request.element before.anchor
        element member with same | ⟨old, isOld, same⟩
      · rw [same]
        exact installed
      · rw [same]
        exact safe.elements old isOld

/-- Once the segment is made its placement never divides by zero. -/
def SafeIfMade (policy : PlacePolicy) (mapsize : Nat) (state : Option FgashmAffHead) : Prop :=
  ∀ head, state = some head → GranularitySafe policy mapsize head

theorem AffinityStep.safe {before after : Option FgashmAffHead} {action : AffinityAction}
    (safe : SafeIfMade policy mapsize before)
    (taken : AffinityStep policy mapsize before action after)
    (fits : GranularityFits policy before action) : SafeIfMade policy mapsize after := by
  intro head isHead
  cases taken with
  | made groups fgashmDefGranularity flag =>
    obtain rfl := some.inj isHead
    exact shmMakefga_safe fits
  | reaffined result =>
    obtain rfl := some.inj isHead
    exact fgashmReaffine_safe (safe _ rfl) result fits
  | refused result => exact safe head isHead

/--
**Placement never divides by zero** in a run in which the granularities that are divided
by are numbers of pages to begin with, or are rounded up to such.
-/
theorem granularity_of_run (policy : PlacePolicy) (segment : SegmentSize) (head : FgashmAffHead)
    (actions : List AffinityAction)
    (run : Lib.Run (Lib.Guarded (AffinityStep policy segment.bytes) (GranularityFits policy))
      none actions (some head)) :
    GranularitySafe policy segment.bytes head := by
  have safe : SafeIfMade policy segment.bytes (some head) := run.invariant
      (fun _ _ _ safe taken => AffinityStep.safe safe taken.1 taken.2)
      (fun _ impossible => by cases impossible)
  exact safe head rfl

/-- A request for balanced placement of the second page. -/
def balancedRequest (granularity : Nat) : ShmidDs where
  placepolicy := samplePolicy.balanced
  cg := 0
  granularity := granularity
  off := 0x1000
  nbytes := 0x1000

/-- The element that it installs. -/
def balancedElement (granularity : Nat) : FgashmAffinity where
  soffset := 0x1000
  eoffset := 0x1fff
  affinity := samplePolicy.balanced
  cgnum := -1
  granularity := granularity

/-- The new segment with the default placement. -/
def defaultInitial : FgashmAffHead := shmMakefga samplePolicy sampleGroups pageSize 0

theorem granularity_wraps : ∃ head actions,
    Lib.Run (AffinityStep samplePolicy sampleSegment.bytes) none actions (some head) ∧
      ¬ GranularitySafe samplePolicy sampleSegment.bytes head := by
  refine ⟨{ defaultInitial with anchor := [balancedElement 0] },
    [.made pageSize 0, .reaffined pageSize (balancedRequest (2 ^ 32 - 1))],
    .snoc (.single (.made sampleGroups pageSize 0)) ?_, fun safe => ?_⟩
  · exact @AffinityStep.reaffined samplePolicy sampleSegment.bytes
      sampleGroups pageSize defaultInitial _ _ (by decide +kernel)
  · exact (safe.elements (balancedElement 0) (by simp) (by decide)).1 rfl

theorem granularity_of_run_page : GranularitySafe samplePolicy sampleSegment.bytes
    { defaultInitial with anchor := [balancedElement pageSize] } := by
  have made : Lib.Guarded (AffinityStep samplePolicy sampleSegment.bytes)
      (GranularityFits samplePolicy) none (.made pageSize 0) (some defaultInitial) :=
    ⟨.made sampleGroups pageSize 0, fun _ => rfl⟩
  have reaffined : AffinityStep samplePolicy sampleSegment.bytes (some defaultInitial)
      (.reaffined pageSize (balancedRequest 1)) (some { defaultInitial with
        anchor := [balancedElement pageSize] }) :=
    @AffinityStep.reaffined samplePolicy sampleSegment.bytes sampleGroups
      pageSize defaultInitial _ _ (by decide +kernel)
  have fits : GranularityFits samplePolicy (some defaultInitial)
      (.reaffined pageSize (balancedRequest 1)) :=
    fun _ => by decide
  exact granularity_of_run samplePolicy sampleSegment _ _ (.snoc (.single made) ⟨reaffined, fits⟩)

end Uw7.Fga
