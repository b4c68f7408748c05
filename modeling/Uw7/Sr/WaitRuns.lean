import Uw7.Sr.WaitTable
import Uw7.Lib.Run
import Mathlib.Tactic.Ring

namespace Uw7.Sr

/-!
# Messages over runs of the wait table

While a message for an address in the table comes from the stream of that entry,
and not between the last look at the entry's queue and its release, and no stream
is closed at whose entry `srwsrv` works, every message is waiting, freed or passed
on once, on the queue it arrived on.
-/

open Lib List Option Function

/-- The state before a step does not lead into a branch that goes wrong. -/
def SrGuard (before : SrState) : SrAction → Prop
  | .srwput msg =>
    ∀ elem, before.waitElem msg.destaddr = some elem →
      (before.tab elem).srStreamq = some msg.arrivedOn ∧ ∀ rest, before.service ≠ .release elem rest
  | .close q => ∀ elem, before.service.elem = some elem → (before.tab elem).srStreamq ≠ some q
  | _ => True

/-- The entries in use are for different addresses, with messages for them only. -/
structure SrEntries (tab : Fin maxWaitTabSize → SrWaitElem) (recorded : Nat → List Nat) : Prop where
  used : ∀ elem, (tab elem).srState = .unused → (tab elem).srWaitq = []
  own : ∀ elem msg, msg ∈ (tab elem).srWaitq → msg.destaddr = (tab elem).srWaitMacaddr ∧
      (tab elem).srStreamq = some msg.arrivedOn
  distinct : ∀ first second, (tab first).srState ≠ .unused → (tab second).srState ≠ .unused →
      (tab first).srWaitMacaddr = (tab second).srWaitMacaddr →
      first = second
  known : ∀ elem, (tab elem).srState = .routeKnown →
      (tab elem).route = recorded (tab elem).srWaitMacaddr

/-- Where `srwsrv` is agrees with the state of its entry. -/
def SrService.Agrees (tab : Fin maxWaitTabSize → SrWaitElem) : SrService → Prop
  | .idle | .scan _ => True
  | .count elem known _ => (tab elem).srState = if known then .routeKnown else .routeUnknown
  | .flush elem _ => (tab elem).srState = .routeKnown ∨ (tab elem).srState = .routeUnknown
  | .drain elem _ => (tab elem).srState = .routeKnown
  | .release elem _ =>
    ((tab elem).srState = .routeKnown ∨ (tab elem).srState = .routeUnknown) ∧
    (tab elem).srWaitq = []

/-- What every step keeps. -/
structure SrKept (state : SrState) : Prop where
  placed : Placed state.held (· ∈ state.messages)
  passed : ∀ passed ∈ state.passed, passed.streamq = some passed.msg.arrivedOn ∧
      passed.route = passed.recorded
  entries : SrEntries state.tab state.recorded
  service : state.service.Agrees state.tab
  waiting : state.srWaiting + state.service.counted = state.used.card
  armed : 0 < state.srWaiting → 0 < state.timers

section Entries

variable {tab : Fin maxWaitTabSize → SrWaitElem}
  {recorded recorded' : Nat → List Nat} {elem : Fin maxWaitTabSize}
  {changed : SrWaitElem} {service : SrService}

theorem SrEntries.update (entries : SrEntries tab recorded)
    (used : changed.srState = .unused → changed.srWaitq = [])
    (own : ∀ msg ∈ changed.srWaitq, msg.destaddr = changed.srWaitMacaddr ∧
      changed.srStreamq = some msg.arrivedOn)
    (distinct : changed.srState ≠ .unused → ∀ other, other ≠ elem → (tab other).srState ≠ .unused →
      (tab other).srWaitMacaddr ≠ changed.srWaitMacaddr)
    (known : changed.srState = .routeKnown → changed.route = recorded' changed.srWaitMacaddr)
    (others : ∀ other, other ≠ elem → (tab other).srState = .routeKnown →
      recorded' (tab other).srWaitMacaddr = recorded (tab other).srWaitMacaddr) :
    SrEntries (Function.update tab elem changed) recorded' where
  used := by
    intro other
    by_cases same : other = elem
    · subst other
      simpa using used
    · rw [update_of_ne same]
      exact entries.used other
  own := by
    intro other
    by_cases same : other = elem
    · subst other
      simpa using own
    · rw [update_of_ne same]
      exact entries.own other
  distinct := by
    intro first second firstUsed secondUsed sameAddr
    by_cases isFirst : first = elem
    · by_cases isSecond : second = elem
      · rw [isFirst, isSecond]
      · subst first
        rw [update_self] at firstUsed sameAddr
        rw [update_of_ne isSecond] at secondUsed sameAddr
        exact absurd sameAddr.symm (distinct firstUsed _ isSecond secondUsed)
    · rw [update_of_ne isFirst] at firstUsed sameAddr
      by_cases isSecond : second = elem
      · subst second
        rw [update_self] at secondUsed sameAddr
        exact absurd sameAddr (distinct secondUsed _ isFirst firstUsed)
      · rw [update_of_ne isSecond] at secondUsed sameAddr
        exact entries.distinct _ _ firstUsed secondUsed sameAddr
  known := by
    intro other
    by_cases same : other = elem
    · subst other
      simpa using known
    · rw [update_of_ne same]
      intro isKnown
      rw [others other same isKnown]
      exact entries.known other isKnown

theorem SrEntries.modify (entries : SrEntries tab recorded) (inUse : (tab elem).srState ≠ .unused)
    (sameAddr : changed.srWaitMacaddr = (tab elem).srWaitMacaddr)
    (used : changed.srState = .unused → changed.srWaitq = [])
    (own : ∀ msg ∈ changed.srWaitq, msg.destaddr = changed.srWaitMacaddr ∧
      changed.srStreamq = some msg.arrivedOn)
    (known : changed.srState = .routeKnown → changed.route = recorded changed.srWaitMacaddr) :
    SrEntries (Function.update tab elem changed) recorded := by
  refine entries.update used own ?_ known fun _ _ _ => rfl
  intro _ other notElem otherUsed same
  rw [sameAddr] at same
  exact notElem (entries.distinct other elem otherUsed inUse same)

section

variable (agrees : service.Agrees tab)
include agrees

theorem SrService.Agrees.congr {tab' : Fin maxWaitTabSize → SrWaitElem}
    (same : ∀ elem, service.elem = some elem → tab' elem = tab elem) :
    service.Agrees tab' := by
  cases service with
  | idle => trivial
  | scan _ => trivial
  | count other known rest => simpa only [SrService.Agrees, same other rfl] using agrees
  | flush other rest | drain other rest | release other rest =>
    simpa only [SrService.Agrees, same other rfl] using agrees

theorem SrService.Agrees.update (elsewhere : service.elem ≠ some elem) :
    service.Agrees (Function.update tab elem changed) := by
  refine agrees.congr fun other isAt => ?_
  have different : other ≠ elem := fun equal => elsewhere (equal ▸ isAt)
  exact update_of_ne different ..

theorem SrService.Agrees.sameState (same : changed.srState = (tab elem).srState)
    (notReleased : (∃ rest, service = .release elem rest) → changed.srWaitq = []) :
    service.Agrees (Function.update tab elem changed) := by
  have sameState : ∀ other, (Function.update tab elem changed other).srState =
      (tab other).srState := by
    intro other
    by_cases isElem : other = elem
    · rw [isElem, update_self, same]
    · rw [update_of_ne isElem]
  cases service with
  | idle => trivial
  | scan _ => trivial
  | count other known rest => simpa only [SrService.Agrees, sameState] using agrees
  | flush other rest | drain other rest => simpa only [SrService.Agrees, sameState] using agrees
  | release other rest =>
    refine ⟨by simpa only [sameState] using agrees.1, ?_⟩
    by_cases isElem : other = elem
    · subst other
      rw [update_self]
      exact notReleased ⟨rest, rfl⟩
    · rw [update_of_ne isElem]
      exact agrees.2

theorem SrService.Agrees.settled (isAt : service.elem = some elem) :
    (tab elem).srState = .routeKnown ∨ (tab elem).srState = .routeUnknown := by
  cases service with
  | idle => cases isAt
  | scan _ => cases isAt
  | count other known rest =>
    obtain rfl := some.inj isAt
    cases known with
    | true => exact .inl agrees
    | false => exact .inr agrees
  | flush other rest =>
    obtain rfl := some.inj isAt
    exact agrees
  | drain other rest =>
    obtain rfl := some.inj isAt
    exact .inl agrees
  | release other rest =>
    obtain rfl := some.inj isAt
    exact agrees.1

theorem SrService.Agrees.elsewhere (notKnown : (tab elem).srState ≠ .routeKnown)
    (notUnknown : (tab elem).srState ≠ .routeUnknown) :
    service.elem ≠ some elem := by
  intro isAt
  exact (agrees.settled isAt).elim notKnown notUnknown

end

end Entries

section Places

variable {state : SrState} {elem : Fin maxWaitTabSize} {changed : SrWaitElem} {known : SrMsg → Prop}

@[simp]
theorem mem_used : elem ∈ state.used ↔ (state.tab elem).srState ≠ .unused :=
  Finset.mem_filter_univ elem

@[simp]
theorem setElem_tab : (state.setElem elem changed).tab = Function.update state.tab elem changed :=
  rfl

theorem held_setElem {place : SrPlace} (different : place ≠ .elem elem) :
    (state.setElem elem changed).held place = state.held place := by
  cases place with
  | elem other =>
    have notElem : other ≠ elem := fun same => different (same ▸ rfl)
    simp [SrState.held, SrState.setElem, update_of_ne notElem]
  | freed => rfl
  | passed => rfl

theorem placed_setElem (placed : Placed state.held known)
    (same : changed.srWaitq = (state.tab elem).srWaitq) :
    Placed (state.setElem elem changed).held known := by
  refine placed.congr fun place => ?_
  by_cases isElem : place = .elem elem
  · subst place
    simpa [SrState.held, SrState.setElem] using same
  · exact held_setElem isElem

theorem card_used_congr {state' : SrState} (same : ∀ elem, (state'.tab elem).srState = .unused ↔
    (state.tab elem).srState = .unused) :
    state'.used.card = state.used.card := by
  congr 1
  ext elem
  simp [same]

theorem card_used_keep (same : changed.srState = .unused ↔ (state.tab elem).srState = .unused) :
    (state.setElem elem changed).used.card = state.used.card := by
  refine card_used_congr fun other => ?_
  by_cases isElem : other = elem
  · subst other
    simp [same]
  · simp [update_of_ne isElem]

theorem card_used_occupy (wasUnused : (state.tab elem).srState = .unused)
    (isUsed : changed.srState ≠ .unused) :
    (state.setElem elem changed).used.card = state.used.card + 1 := by
  have inserted : (state.setElem elem changed).used = insert elem state.used := by
    ext other
    by_cases isElem : other = elem
    · subst other
      simp [isUsed]
    · simp [isElem]
  rw [inserted, Finset.card_insert_of_notMem]
  simp [wasUnused]

theorem card_used_release (wasUsed : (state.tab elem).srState ≠ .unused)
    (isUnused : changed.srState = .unused) :
    (state.setElem elem changed).used.card + 1 = state.used.card := by
  have erased : (state.setElem elem changed).used = state.used.erase elem := by
    ext other
    by_cases isElem : other = elem
    · subst other
      simp [isUnused]
    · simp [isElem]
  rw [erased]
  apply Finset.card_erase_add_one
  simp [wasUsed]

theorem firstElem_sound {matching : Fin maxWaitTabSize → Bool}
    (found : firstElem matching = some elem) :
    matching elem = true := by
  have held := List.find?_some found
  exact held

theorem firstElem_none {matching : Fin maxWaitTabSize → Bool} (missed : firstElem matching = none) :
    ∀ other, matching other = false := by
  intro other
  have absent := List.find?_eq_none.mp missed other (mem_finRange other)
  simpa using absent

theorem waitElem_some {macaddr : Nat} (found : state.waitElem macaddr = some elem) :
    (state.tab elem).srState ≠ .unused ∧ (state.tab elem).srWaitMacaddr = macaddr :=
  of_decide_eq_true (firstElem_sound found)

theorem waitElem_none {macaddr : Nat} (missed : state.waitElem macaddr = none)
    (other : Fin maxWaitTabSize) (inUse : (state.tab other).srState ≠ .unused) :
    (state.tab other).srWaitMacaddr ≠ macaddr := by
  intro same
  exact of_decide_eq_false (firstElem_none missed other) ⟨inUse, same⟩

section

variable {msg : SrMsg} (placed : Placed state.held (· ∈ state.messages))
  (new : msg ∉ state.messages)
include placed new

theorem placed_put (queue : changed.srWaitq = (state.tab elem).srWaitq ++ [msg]) :
    Placed (state.setElem elem changed).held (· ∈ msg :: state.messages) := by
  have arrived : ((state.setElem elem changed).held (.elem elem)).Perm
      (msg :: state.held (.elem elem)) := by
    simp only [SrState.held, setElem_tab, update_self, queue]
    exact perm_append_singleton msg _
  have introduced := placed.introduce msg new arrived fun place different => held_setElem different
  simpa only [mem_cons] using introduced

theorem placed_free : Placed ({ state with freed := state.freed ++ [msg] } : SrState).held
      (· ∈ msg :: state.messages) := by
  have arrived : (({ state with freed := state.freed ++ [msg] } : SrState).held
      .freed).Perm (msg :: state.held .freed) :=
    perm_append_singleton msg _
  have introduced := placed.introduce msg new arrived fun place different => by
      cases place with
      | elem _ => rfl
      | freed => exact absurd rfl different
      | passed => rfl
  simpa only [mem_cons] using introduced

end

end Places

section Steps

variable {state : SrState} {elem : Fin maxWaitTabSize} {changed : SrWaitElem} {msg : SrMsg}

section

variable (kept : SrKept state) (new : msg ∉ state.messages)
include kept new

theorem SrKept.join (guarded : SrGuard state (.srwput msg))
    (found : state.waitElem msg.destaddr = some elem) :
    SrKept
      { state.setElem elem
        { state.tab elem with
          srWaitq := (state.tab elem).srWaitq ++ [msg] } with
        messages := msg :: state.messages } := by
  obtain ⟨inUse, isAddr⟩ := waitElem_some found
  obtain ⟨isStream, notReleased⟩ := guarded elem found
  refine ⟨placed_put kept.placed new rfl, kept.passed,
    kept.entries.modify inUse rfl (fun unused => absurd unused inUse)
      ?_ (kept.entries.known elem), ?_, ?_, kept.armed⟩
  · intro other isQueued
    rcases mem_append.mp isQueued with wasQueued | isNew
    · exact kept.entries.own elem other wasQueued
    · obtain rfl := mem_singleton.mp isNew
      exact ⟨isAddr.symm, isStream⟩
  · refine kept.service.sameState rfl ?_
    rintro ⟨rest, isReleased⟩
    exact absurd isReleased (notReleased rest)
  · have same := @card_used_keep state elem
        { state.tab elem with
          srWaitq := (state.tab elem).srWaitq ++ [msg] }
        Iff.rfl
    exact kept.waiting.trans (congrArg _ same.symm)

theorem SrKept.occupy (missed : state.waitElem msg.destaddr = none)
    (isUnused : (state.tab elem).srState = .unused) :
    SrKept
      { state.setElem elem
        { state.tab elem with
          srState := .waitingForLocalReply
          srTimerVal := localReplyWait
          srStreamq := some msg.arrivedOn
          srWaitMacaddr := msg.destaddr
          srWaitq := (state.tab elem).srWaitq ++ [msg] } with
        messages := msg :: state.messages
        srWaiting := state.srWaiting + 1
        timers :=
          if state.srWaiting = 0 then state.timers + 1
          else state.timers } := by
  have empty := kept.entries.used elem isUnused
  have elsewhere : state.service.elem ≠ some elem :=
    kept.service.elsewhere (by simp [isUnused]) (by simp [isUnused])
  refine ⟨placed_put kept.placed new rfl, kept.passed,
    kept.entries.update (fun unused => by cases unused) ?_
      (fun _ other _ otherUsed => waitElem_none missed other otherUsed)
      (fun known => by cases known) (fun _ _ _ => rfl),
    kept.service.update elsewhere, ?_, ?_⟩
  · intro other isQueued
    rw [empty, nil_append] at isQueued
    obtain rfl := mem_singleton.mp isQueued
    exact ⟨rfl, rfl⟩
  · have before := kept.waiting
    have one := @card_used_occupy state elem
      { state.tab elem with
        srState := .waitingForLocalReply
        srTimerVal := localReplyWait
        srStreamq := some msg.arrivedOn
        srWaitMacaddr := msg.destaddr
        srWaitq := (state.tab elem).srWaitq ++ [msg] }
      isUnused (by simp)
    change state.srWaiting + 1 + state.service.counted = ((state.setElem elem _).used.card : Int)
    rw [one]
    omega
  · intro isWaiting
    dsimp only at isWaiting ⊢
    have before := kept.armed
    split <;> omega

theorem SrKept.srAddWaitTab (guarded : SrGuard state (.srwput msg)) : SrKept (({ state with
        messages := msg :: state.messages } : SrState).srAddWaitTab msg) := by
  have same : ({ state with
        messages := msg :: state.messages } : SrState).waitElem
          msg.destaddr = state.waitElem msg.destaddr :=
    rfl
  unfold SrState.srAddWaitTab
  rw [same]
  cases found : state.waitElem msg.destaddr with
  | some elem => exact kept.join new guarded found
  | none =>
    dsimp only
    split
    · next freep isFree =>
        have isUnused := firstElem_sound isFree
        exact kept.occupy new found (by simpa using isUnused)
    · exact { kept with placed := placed_free kept.placed new }

end

theorem SrKept.srSetupRouteInfo (kept : SrKept state) (macaddr : Nat) (srcRoute : List Nat) :
    SrKept (state.srSetupRouteInfo macaddr srcRoute) := by
  unfold SrState.srSetupRouteInfo
  dsimp only
  split
  · next elem found =>
      have isFound := firstElem_sound found
      obtain ⟨waits, isAddr⟩ := by simpa using isFound
      have notUnused : (state.tab elem).srState ≠ .unused := by
        intro unused
        simp [unused, SrElemState.waits] at waits
      have elsewhere : state.service.elem ≠ some elem := by
        refine kept.service.elsewhere ?_ ?_ <;> intro isSettled <;>
          simp [isSettled, SrElemState.waits] at waits
      have sameCard := @card_used_keep state elem
          { state.tab elem with
            srTimerVal := timerOff
            srState := .routeKnown
            srRoute := srcRoute ++ (state.tab elem).srRoute.drop srcRoute.length
            srRouteSize := srcRoute.length }
          (by simp [notUnused])
      refine ⟨placed_setElem kept.placed rfl, kept.passed,
        kept.entries.update (fun unused => by cases unused) (kept.entries.own elem) ?_ ?_ ?_,
        kept.service.update elsewhere,
        kept.waiting.trans (congrArg _ sameCard.symm), kept.armed⟩
      · intro _ other notElem otherUsed same
        exact notElem (kept.entries.distinct other elem otherUsed notUnused same)
      · intro _
        simp [SrWaitElem.route, isAddr]
      · intro other notElem otherKnown
        refine update_of_ne (fun same => notElem ?_) ..
        refine kept.entries.distinct other elem ?_ notUnused ?_
        · simp [otherKnown]
        · rw [same, isAddr]
  · exact kept

end Steps

namespace SrWaitElem

@[simp]
theorem timeout_srWaitq (elem : SrWaitElem) : elem.timeout.srWaitq = elem.srWaitq := by
  unfold timeout
  split_ifs <;> rfl

@[simp]
theorem timeout_srWaitMacaddr (elem : SrWaitElem) :
    elem.timeout.srWaitMacaddr = elem.srWaitMacaddr := by
  unfold timeout
  split_ifs <;> rfl

@[simp]
theorem timeout_srStreamq (elem : SrWaitElem) : elem.timeout.srStreamq = elem.srStreamq := by
  unfold timeout
  split_ifs <;> rfl

@[simp]
theorem timeout_unused (elem : SrWaitElem) :
    elem.timeout.srState = .unused ↔ elem.srState = .unused := by
  unfold timeout
  split_ifs with waits
  all_goals
    cases isState : elem.srState <;> simp_all [SrElemState.waits]

theorem timeout_settled {elem : SrWaitElem} (settled : elem.srState.waits = false) :
    elem.timeout = elem := by
  simp [timeout, settled]

theorem timeout_known {elem : SrWaitElem} (known : elem.timeout.srState = .routeKnown) :
    elem.timeout = elem := by
  cases waits : elem.srState.waits with
  | false => exact timeout_settled waits
  | true =>
    unfold timeout at known
    split_ifs at known
    all_goals simp_all [SrElemState.waits]

end SrWaitElem

variable {elem : Fin maxWaitTabSize}

section Timer

variable {state : SrState}

theorem SrEntries.timeout {tab : Fin maxWaitTabSize → SrWaitElem} {recorded : Nat → List Nat}
    (entries : SrEntries tab recorded) :
    SrEntries (fun elem => (tab elem).timeout) recorded where
  used := by
    intro elem
    simpa using entries.used elem
  own := by
    intro elem
    simpa using entries.own elem
  distinct := by
    intro first second
    simpa using entries.distinct first second
  known := by
    intro elem isKnown
    have same := SrWaitElem.timeout_known isKnown
    rw [same] at isKnown ⊢
    exact entries.known elem isKnown

theorem SrService.Agrees.notWaits {service : SrService} {tab : Fin maxWaitTabSize → SrWaitElem}
    (agrees : service.Agrees tab) (isAt : service.elem = some elem) :
    (tab elem).srState.waits = false := by
  rcases agrees.settled isAt with isKnown | isUnknown
  · rw [isKnown]
    rfl
  · rw [isUnknown]
    rfl

theorem SrKept.srTimeout (kept : SrKept state) : SrKept state.srTimeout := by
  have armed : 0 < state.srTimeout.srWaiting → 0 < state.srTimeout.timers := by
    intro isWaiting
    have isWaiting' : state.srWaiting > 0 := isWaiting
    simp [SrState.srTimeout, isWaiting']
  by_cases sem : state.srWaitTabSem = true
  · have same : state.srTimeout.tab = state.tab := by
      simp [SrState.srTimeout, sem]
    refine ⟨kept.placed.congr fun place => ?_, kept.passed, ?_, ?_, ?_, armed⟩
    · cases place with
      | elem elem => simp [SrState.held, same]
      | freed => rfl
      | passed => rfl
    · rw [same]
      exact kept.entries
    · rw [same]
      exact kept.service
    · have sameCard : state.srTimeout.used.card = state.used.card :=
        card_used_congr fun elem => by rw [same]
      exact kept.waiting.trans (congrArg _ sameCard.symm)
  · have ticked : state.srTimeout.tab = fun elem => (state.tab elem).timeout := by
      simp [SrState.srTimeout, sem]
    refine ⟨kept.placed.congr fun place => ?_, kept.passed, ?_, ?_, ?_, armed⟩
    · cases place with
      | elem elem => simp [SrState.held, ticked]
      | freed => rfl
      | passed => rfl
    · rw [ticked]
      exact kept.entries.timeout
    · rw [ticked]
      exact kept.service.congr fun elem isAt =>
        SrWaitElem.timeout_settled (kept.service.notWaits isAt)
    · have sameCard : state.srTimeout.used.card = state.used.card := card_used_congr fun elem => by
          rw [ticked]
          exact SrWaitElem.timeout_unused _
      exact kept.waiting.trans (congrArg _ sameCard.symm)

end Timer

section Close

variable {state : SrState} {q : Nat}

/-- No entry of a stream is one at which `srwsrv` works. -/
def ClosesElsewhere (q : Nat) (state : SrState) : Prop := ∀ elem, state.service.elem = some elem →
    (state.tab elem).srStreamq ≠ some q

theorem SrKept.cleanup (kept : SrKept state)
    (inUse : (state.tab elem).srState ≠ .unused) (elsewhere : state.service.elem ≠ some elem) :
    SrKept
      { state.setElem elem
        { state.tab elem with
          srWaitq := []
          srStreamq := none
          srState := .unused } with
        srWaiting := state.srWaiting - 1
        freed := state.freed ++ (state.tab elem).srWaitq } := by
  have released := @card_used_release state elem
      { state.tab elem with
        srWaitq := []
        srStreamq := none
        srState := .unused }
      inUse rfl
  refine ⟨?_, kept.passed, kept.entries.update (fun _ => rfl) (fun _ isQueued => by cases isQueued)
    (fun used => absurd rfl used) (fun known => by cases known)
    (fun _ _ _ => rfl),
    kept.service.update elsewhere, ?_, ?_⟩
  · refine kept.placed.transferAll (by simp : SrPlace.elem elem ≠ SrPlace.freed) ?_ ?_ ?_
    · simp [SrState.held]
    · exact perm_append_comm
    · intro place notElem notFreed
      cases place with
      | freed => exact absurd rfl notFreed
      | passed => rfl
      | elem other =>
        have different : other ≠ elem := fun same => notElem (same ▸ rfl)
        simp [SrState.held, update_of_ne different]
  · have before := kept.waiting
    change state.srWaiting - 1 + state.service.counted = ((state.setElem elem _).used.card : Int)
    omega
  · intro isWaiting
    refine kept.armed ?_
    dsimp only at isWaiting
    omega

theorem SrKept.cleanupElem (kept : SrKept state) (elsewhere : ClosesElsewhere q state)
    (elem : Fin maxWaitTabSize) :
    SrKept (SrState.cleanupElem q state elem) ∧
      ClosesElsewhere q (SrState.cleanupElem q state elem) := by
  unfold SrState.cleanupElem
  split_ifs with isUnused isStream
  · exact ⟨kept, elsewhere⟩
  · refine ⟨kept.cleanup isUnused fun isAt => elsewhere elem isAt isStream, ?_⟩
    intro other isAt
    by_cases same : other = elem
    · subst other
      simp
    · simpa [update_of_ne same] using elsewhere other isAt
  · exact ⟨kept, elsewhere⟩

theorem SrKept.srWaitTabCleanup (kept : SrKept state) (elsewhere : ClosesElsewhere q state) :
    SrKept (state.srWaitTabCleanup q) := by
  have loop : ∀ (elems : List (Fin maxWaitTabSize)) (state : SrState),
      SrKept state → ClosesElsewhere q state →
        SrKept (elems.foldl (SrState.cleanupElem q) state) := by
    intro elems
    induction elems with
    | nil =>
      intro state kept _
      exact kept
    | cons elem rest ih =>
      intro state kept elsewhere
      obtain ⟨keptNext, elsewhereNext⟩ := kept.cleanupElem elsewhere elem
      exact ih _ keptNext elsewhereNext
  exact loop _ state kept elsewhere

end Close

section Service

variable {state : SrState} {elem : Fin maxWaitTabSize} {rest : List (Fin maxWaitTabSize)}

theorem SrKept.goOn (kept : SrKept state) (sem : Bool) (service : SrService)
    (agrees : service.Agrees state.tab) (counted : service.counted = state.service.counted) :
    SrKept { state with service := service, srWaitTabSem := sem } := by
  refine ⟨kept.placed, kept.passed, kept.entries, agrees, ?_, kept.armed⟩
  rw [counted]
  exact kept.waiting

theorem SrKept.scanElem (kept : SrKept state) (isAt : state.service = .scan (elem :: rest)) :
    SrKept (state.scanElem elem rest) := by
  unfold SrState.scanElem
  split_ifs with isUnknown isKnown
  · exact kept.goOn _ (.count elem false rest) isUnknown (by rw [isAt]; rfl)
  · exact kept.goOn _ (.count elem true rest) isKnown (by rw [isAt]; rfl)
  · exact kept.goOn _ (.scan rest) trivial (by rw [isAt]; rfl)

theorem SrKept.count {known : Bool} (kept : SrKept state)
    (isAt : state.service = .count elem known rest) (inserted : Bool) :
    SrKept
      { state with
        srWaiting := state.srWaiting - 1
        service :=
          if known ∧ inserted then .drain elem rest
          else .flush elem rest } := by
  have agrees := kept.service
  rw [isAt] at agrees
  have before := kept.waiting
  rw [isAt] at before
  refine ⟨kept.placed, kept.passed, kept.entries, ?_, ?_, ?_⟩
  · cases known <;> cases inserted
    · exact .inr agrees
    · exact .inr agrees
    · exact .inl agrees
    · exact agrees
  · have counted : (if known ∧ inserted then SrService.drain elem rest
          else SrService.flush elem rest).counted = 1 := by
      split_ifs <;> rfl
    change state.srWaiting - 1 + SrService.counted _ = _
    rw [counted]
    change _ = (state.used.card : Int)
    simp only [SrService.counted] at before
    omega
  · intro isWaiting
    refine kept.armed ?_
    dsimp only at isWaiting
    omega

theorem SrKept.take {msg : SrMsg} {others : List SrMsg} {freed : List SrMsg}
    {passed : List SrPassed} {target : SrPlace} (kept : SrKept state)
    (isAt : state.service.elem = some elem) (isFirst : (state.tab elem).srWaitq = msg :: others)
    (notElem : SrPlace.elem elem ≠ target)
    (arrived : (({ state.setElem elem { state.tab elem with srWaitq := others } with
          freed := freed
          passed := passed } : SrState).held target).Perm
        (msg :: state.held target))
    (same : ∀ place, place ≠ .elem elem → place ≠ target → ({ state with
          freed := freed
          passed := passed } : SrState).held place = state.held place)
    (passedOk : ∀ sent ∈ passed, sent.streamq = some sent.msg.arrivedOn ∧
      sent.route = sent.recorded) :
    SrKept
      { state.setElem elem { state.tab elem with srWaitq := others } with
        freed := freed
        passed := passed } := by
  have settled := kept.service.settled isAt
  have inUse : (state.tab elem).srState ≠ .unused := by
    rcases settled with isKnown | isUnknown
    · simp [isKnown]
    · simp [isUnknown]
  have sameCard := @card_used_keep state elem { state.tab elem with srWaitq := others } Iff.rfl
  refine ⟨kept.placed.transfer msg notElem ?_ arrived ?_, passedOk,
    kept.entries.modify inUse rfl (fun unused => absurd unused inUse) ?_
      (kept.entries.known elem), ?_,
    kept.waiting.trans (congrArg _ sameCard.symm), kept.armed⟩
  · simp [SrState.held, isFirst]
  · intro place different notTarget
    rw [← same place different notTarget]
    exact @held_setElem
      { state with
        freed := freed
        passed := passed }
      elem _ place different
  · intro queued isQueued
    refine kept.entries.own elem queued ?_
    rw [isFirst]
    exact mem_cons_of_mem msg isQueued
  · refine kept.service.sameState rfl ?_
    rintro ⟨rest, isReleased⟩
    have agrees := kept.service
    rw [isReleased] at agrees
    rw [agrees.2] at isFirst
    cases isFirst

theorem SrKept.flushOne (kept : SrKept state) (isAt : state.service = .flush elem rest) :
    SrKept (state.flushOne elem rest) := by
  have atElem : state.service.elem = some elem := by rw [isAt]; rfl
  unfold SrState.flushOne
  cases queue : (state.tab elem).srWaitq with
  | nil =>
    have settled := kept.service.settled atElem
    exact kept.goOn _ (.release elem rest) ⟨settled, queue⟩ (by rw [isAt]; rfl)
  | cons msg others =>
    refine kept.take atElem queue (by simp : SrPlace.elem elem ≠ SrPlace.freed)
      (perm_append_singleton msg _) ?_ kept.passed
    intro place _ notFreed
    cases place with
    | freed => exact absurd rfl notFreed
    | elem _ => rfl
    | passed => rfl

theorem SrKept.drainOne (kept : SrKept state) (isAt : state.service = .drain elem rest) :
    SrKept (state.drainOne elem rest) := by
  have atElem : state.service.elem = some elem := by rw [isAt]; rfl
  have isKnown : (state.tab elem).srState = .routeKnown := by
    have agrees := kept.service
    rwa [isAt] at agrees
  unfold SrState.drainOne
  cases queue : (state.tab elem).srWaitq with
  | nil => exact kept.goOn _ (.release elem rest) ⟨.inl isKnown, queue⟩ (by rw [isAt]; rfl)
  | cons msg others =>
    have own := kept.entries.own elem msg (by rw [queue]; simp)
    refine kept.take atElem queue (by simp : SrPlace.elem elem ≠ SrPlace.passed) ?_ ?_ ?_
    · simp [SrState.held, perm_append_singleton]
    · intro place _ notPassed
      cases place with
      | freed => rfl
      | elem _ => rfl
      | passed => exact absurd rfl notPassed
    · intro sent isSent
      rcases mem_append.mp isSent with wasSent | isNew
      · exact kept.passed sent wasSent
      · obtain rfl := mem_singleton.mp isNew
        refine ⟨own.2, ?_⟩
        rw [own.1]
        exact kept.entries.known elem isKnown

theorem SrKept.release (kept : SrKept state) (isAt : state.service = .release elem rest) : SrKept
    { state.setElem elem { state.tab elem with srState := .unused } with
      service := .scan rest } := by
  have agrees := kept.service
  rw [isAt] at agrees
  have inUse : (state.tab elem).srState ≠ .unused := by
    rcases agrees.1 with isKnown | isUnknown
    · simp [isKnown]
    · simp [isUnknown]
  have released := @card_used_release state elem
      { state.tab elem with srState := .unused } inUse rfl
  refine ⟨placed_setElem kept.placed rfl, kept.passed,
    kept.entries.update (fun _ => agrees.2) (kept.entries.own elem)
      (fun used => absurd rfl used) (fun known => by cases known)
      (fun _ _ _ => rfl),
    trivial, ?_, kept.armed⟩
  have before := kept.waiting
  rw [isAt] at before
  change state.srWaiting + 0 = ((state.setElem elem _).used.card : Int)
  simp only [SrService.counted] at before
  omega

end Service

section Runs

variable {before after state : SrState} {action : SrAction} {actions : List SrAction}

theorem srKept_init : SrKept srWaitTabInit where
  placed :=
    { nodup := fun place => by cases place <;> exact nodup_nil
      unique := fun msg first _ inFirst => by cases first <;> cases inFirst
      covered := fun msg isKnown => by cases isKnown
      sound := fun place msg inPlace => by cases place <;> cases inPlace }
  passed := fun sent isSent => by cases isSent
  entries :=
    { used := fun _ _ => rfl
      own := fun _ msg isQueued => by cases isQueued
      distinct := fun first _ inUse => absurd rfl inUse
      known := fun elem isKnown => by cases isKnown }
  service := trivial
  waiting := rfl
  armed := fun isWaiting => absurd isWaiting (by decide)

theorem SrKept.step (kept : SrKept before) (step : SrStep before action after)
    (guarded : SrGuard before action) :
    SrKept after := by
  cases step with
  | srwput new => exact kept.srAddWaitTab new guarded
  | testCon macaddr srcRoute => exact kept.srSetupRouteInfo macaddr srcRoute
  | timeout _ => exact kept.srTimeout
  | close q => exact kept.srWaitTabCleanup guarded
  | start idle => exact kept.goOn _ (.scan _) trivial (by rw [idle]; rfl)
  | scan isAt => exact kept.scanElem isAt
  | finish isAt => exact kept.goOn _ .idle trivial (by rw [isAt]; rfl)
  | count inserted isAt => exact kept.count isAt inserted
  | flush isAt => exact kept.flushOne isAt
  | drain isAt => exact kept.drainOne isAt
  | release isAt => exact kept.release isAt

theorem SrKept.timer (kept : SrKept state)
    (inUse : (state.tab elem).srState ≠ .unused)
    (uncounted : state.service.elem ≠ some elem ∨ state.service.counted = 0) :
    0 < state.timers := by
  have isMember : elem ∈ state.used := mem_used.mpr inUse
  have some_used : 0 < state.used.card := Finset.card_pos.mpr ⟨elem, isMember⟩
  have waiting := kept.waiting
  refine kept.armed ?_
  by_cases isCounted : state.service.counted = 0
  · omega
  · have elsewhere := uncounted.resolve_right isCounted
    -- the entry of `srwsrv` is in use as well
    obtain ⟨other, isAt, one⟩ : ∃ other, state.service.elem = some other ∧
      state.service.counted = 1 := by
      cases isService : state.service with
      | idle => simp [isService, SrService.counted] at isCounted
      | scan _ | count _ _ _ => simp [isService, SrService.counted] at isCounted
      | flush other _ | drain other _ | release other _ => exact ⟨other, rfl, rfl⟩
    have otherUsed : other ∈ state.used := by
      refine mem_used.mpr fun unused => ?_
      rcases kept.service.settled isAt with isKnown | isUnknown
      · rw [unused] at isKnown
        cases isKnown
      · rw [unused] at isUnknown
        cases isUnknown
    have different : elem ≠ other := fun same => elsewhere (same ▸ isAt)
    have two : 1 < state.used.card :=
      Finset.one_lt_card.mpr ⟨elem, isMember, other, otherUsed, different⟩
    omega

theorem SrKept.well (kept : SrKept state) : SrWell state where
  __ := kept
  unused := kept.entries.used
  timer := fun _ inUse uncounted => kept.timer inUse uncounted

end Runs

end Uw7.Sr
