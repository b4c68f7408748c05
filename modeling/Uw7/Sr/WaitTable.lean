import Mathlib.Algebra.Order.Ring.Nat
import Mathlib.Data.Finset.Card
import Mathlib.Data.Fintype.Basic
import Uw7.Lib.Places

namespace Uw7.Sr

/-!
# The wait table of the source routing module

`io/sr/sr_wait.c` and the service procedure from `io/sr/sr_str.c`.  A section at `splhi`
is one step; the service procedure takes its other steps one by one.  Addresses,
queues and messages are numbers, and a route is the list of its bytes.
-/

open Lib

abbrev maxWaitTabSize : Nat := 10

def localReplyWait : Nat := 3

def remoteReplyWait : Nat := 6

/-- The value -1 of a timer, which is a `ushort`. -/
def timerOff : Nat := 2 ^ 16 - 1

inductive SrElemState where
  | unused
  | waitingForLocalReply
  | waitingForRemoteReply
  | routeKnown
  | routeUnknown
  deriving DecidableEq

/-- The states that `sr_timeout` and replies look for. -/
def SrElemState.waits : SrElemState → Bool
  | .waitingForLocalReply | .waitingForRemoteReply => true
  | _ => false

/-- A `DL_UNITDATA_REQ`, its destination address and the queue it arrived on. -/
structure SrMsg where
  mp : Nat
  destaddr : Nat
  arrivedOn : Nat
  deriving DecidableEq

structure SrWaitElem where
  srWaitMacaddr : Nat
  srState : SrElemState
  srTimerVal : Nat
  srRouteSize : Nat
  srRoute : List Nat
  srStreamq : Option Nat
  srWaitq : List SrMsg
  deriving DecidableEq

/-- The bytes that are added to a message. -/
def SrWaitElem.route (elem : SrWaitElem) : List Nat := elem.srRoute.take elem.srRouteSize

/-- A message that was passed on, with the route recorded then for its address. -/
structure SrPassed where
  msg : SrMsg
  streamq : Option Nat
  route : List Nat
  recorded : List Nat
  deriving DecidableEq

/-- Where `srwsrv` is; `rest` are the entries it will still look at. -/
inductive SrService where
  | idle
  | scan (rest : List (Fin maxWaitTabSize))
  /-- At `sr_waiting--` for an entry whose route is known or not. -/
  | count (elem : Fin maxWaitTabSize) (known : Bool) (rest : List (Fin maxWaitTabSize))
  | flush (elem : Fin maxWaitTabSize) (rest : List (Fin maxWaitTabSize))
  | drain (elem : Fin maxWaitTabSize) (rest : List (Fin maxWaitTabSize))
  /-- Behind the last `sr_get_queue`, at `sr_state = SR_UNUSED`. -/
  | release (elem : Fin maxWaitTabSize) (rest : List (Fin maxWaitTabSize))
  deriving DecidableEq

/-- The entry at which `srwsrv` works. -/
def SrService.elem : SrService → Option (Fin maxWaitTabSize)
  | .idle | .scan _ => none
  | .count elem _ _ | .flush elem _ | .drain elem _ | .release elem _ => some elem

/-- `srwsrv` has taken its entry out of `sr_waiting`. -/
def SrService.counted : SrService → Int
  | .flush _ _ | .drain _ _ | .release _ _ => 1
  | _ => 0

/--
The wait table with its timer and the service procedure.  `recorded` are the routes
that replies have reported for addresses in the table, and `timers` the timeouts that
are pending.
-/
structure SrState where
  tab : Fin maxWaitTabSize → SrWaitElem
  srWaiting : Int
  srWaitTabSem : Bool
  timers : Nat
  service : SrService
  messages : List SrMsg
  freed : List SrMsg
  passed : List SrPassed
  recorded : Nat → List Nat

def srWaitTabInit : SrState where
  tab := fun _ => ⟨0, .unused, 0, 0, [], none, []⟩
  srWaiting := 0
  srWaitTabSem := false
  timers := 0
  service := .idle
  messages := []
  freed := []
  passed := []
  recorded := fun _ => []

/-- The first entry with a property. -/
def firstElem (matching : Fin maxWaitTabSize → Bool) : Option (Fin maxWaitTabSize) :=
  (List.finRange maxWaitTabSize).find? matching

namespace SrState

/-- One entry changes. -/
def setElem (state : SrState) (elem : Fin maxWaitTabSize) (changed : SrWaitElem) : SrState :=
  { state with tab := Function.update state.tab elem changed }

/-- The entry of `sr_add_wait_tab` for an address, if there is one. -/
def waitElem (state : SrState) (macaddr : Nat) : Option (Fin maxWaitTabSize) :=
  firstElem fun elem =>
    decide ((state.tab elem).srState ≠ .unused ∧ (state.tab elem).srWaitMacaddr = macaddr)

def srAddWaitTab (state : SrState) (msg : SrMsg) : SrState :=
  match state.waitElem msg.destaddr with
  | some elem =>
    state.setElem elem { state.tab elem with srWaitq := (state.tab elem).srWaitq ++ [msg] }
  | none =>
    match firstElem fun elem => (state.tab elem).srState == .unused with
    | some freep =>
      { state.setElem freep
          { state.tab freep with
            srState := .waitingForLocalReply
            srTimerVal := localReplyWait
            srStreamq := some msg.arrivedOn
            srWaitMacaddr := msg.destaddr
            srWaitq := (state.tab freep).srWaitq ++ [msg] } with
        srWaiting := state.srWaiting + 1
        timers :=
          if state.srWaiting = 0 then state.timers + 1
          else state.timers }
    | none => { state with freed := state.freed ++ [msg] }

def srSetupRouteInfo (state : SrState) (macaddr : Nat) (srcRoute : List Nat) : SrState :=
  let found := firstElem fun elem =>
      (state.tab elem).srState.waits && decide ((state.tab elem).srWaitMacaddr = macaddr)
  match found with
  | some elem =>
    { state.setElem elem
        { state.tab elem with
          srTimerVal := timerOff
          srState := .routeKnown
          srRoute := srcRoute ++ (state.tab elem).srRoute.drop srcRoute.length
          srRouteSize := srcRoute.length } with
      recorded := Function.update state.recorded macaddr srcRoute }
  | none => state

end SrState

def SrWaitElem.timeout (elem : SrWaitElem) : SrWaitElem :=
  if elem.srState.waits then
    if elem.srTimerVal - 1 = 0 then
      if elem.srState = .waitingForLocalReply then
        { elem with
          srState := .waitingForRemoteReply
          srTimerVal := remoteReplyWait }
      else
        { elem with srState := .routeUnknown, srTimerVal := timerOff }
    else
      { elem with srTimerVal := elem.srTimerVal - 1 }
  else
    elem

namespace SrState

def srTimeout (state : SrState) : SrState :=
  { state with
    tab :=
      if state.srWaitTabSem then state.tab
      else fun elem => (state.tab elem).timeout
    timers :=
      if state.srWaiting > 0 then state.timers - 1 + 1
      else state.timers - 1 }

def cleanupElem (q : Nat) (state : SrState) (elem : Fin maxWaitTabSize) : SrState :=
  if (state.tab elem).srState = .unused then
    state
  else if (state.tab elem).srStreamq = some q then
    { state.setElem elem
        { state.tab elem with
          srWaitq := []
          srStreamq := none
          srState := .unused } with
      srWaiting := state.srWaiting - 1
      freed := state.freed ++ (state.tab elem).srWaitq }
  else
    state

def srWaitTabCleanup (q : Nat) (state : SrState) : SrState :=
  (List.finRange maxWaitTabSize).foldl (cleanupElem q) state

/-- `srwsrv` looks at the state of the next entry. -/
def scanElem (state : SrState) (elem : Fin maxWaitTabSize)
    (rest : List (Fin maxWaitTabSize)) : SrState :=
  { state with
    service :=
      if (state.tab elem).srState = .routeUnknown then .count elem false rest
      else if (state.tab elem).srState = .routeKnown then
        .count elem true rest
      else .scan rest }

/-- One message is taken from the queue of an entry and freed. -/
def flushOne (state : SrState) (elem : Fin maxWaitTabSize)
    (rest : List (Fin maxWaitTabSize)) : SrState :=
  match (state.tab elem).srWaitq with
  | msg :: others =>
    { state.setElem elem { state.tab elem with srWaitq := others } with
      freed := state.freed ++ [msg] }
  | [] => { state with service := .release elem rest }

/-- One message is taken from the queue of an entry and passed on. -/
def drainOne (state : SrState) (elem : Fin maxWaitTabSize)
    (rest : List (Fin maxWaitTabSize)) : SrState :=
  match (state.tab elem).srWaitq with
  | msg :: others =>
    { state.setElem elem { state.tab elem with srWaitq := others } with
      passed := state.passed ++ [⟨msg, (state.tab elem).srStreamq, (state.tab elem).route,
          state.recorded msg.destaddr⟩] }
  | [] => { state with service := .release elem rest }

end SrState

/-- What may happen next. -/
inductive SrAction where
  | srwput (msg : SrMsg)
  | testCon (macaddr : Nat) (srcRoute : List Nat)
  | timeout
  | close (q : Nat)
  | start
  | scan
  | finish
  | count (inserted : Bool)
  | flush
  | drain
  | release
  deriving DecidableEq

/--
The steps of the put procedures, of the timer, of a close and of the service
procedure.  `inserted` is the result of `sr_insert`.
-/
inductive SrStep (before : SrState) : SrAction → SrState → Prop where
  | srwput {msg : SrMsg} (new : msg ∉ before.messages) : SrStep before (.srwput msg) (({ before with
        messages := msg :: before.messages } : SrState).srAddWaitTab msg)
  | testCon (macaddr : Nat) (srcRoute : List Nat) : SrStep before (.testCon macaddr srcRoute)
      (before.srSetupRouteInfo macaddr srcRoute)
  | timeout (pending : 0 < before.timers) : SrStep before .timeout before.srTimeout
  | close (q : Nat) : SrStep before (.close q) (before.srWaitTabCleanup q)
  | start (idle : before.service = .idle) : SrStep before .start
      { before with
        srWaitTabSem := true
        service := .scan (List.finRange maxWaitTabSize) }
  | scan {elem : Fin maxWaitTabSize} {rest : List (Fin maxWaitTabSize)}
      (isAt : before.service = .scan (elem :: rest)) :
      SrStep before .scan (before.scanElem elem rest)
  | finish (isAt : before.service = .scan []) : SrStep before .finish
      { before with srWaitTabSem := false, service := .idle }
  | count {elem : Fin maxWaitTabSize} {known : Bool} {rest : List (Fin maxWaitTabSize)}
      (inserted : Bool) (isAt : before.service = .count elem known rest) :
      SrStep before (.count inserted)
        { before with
          srWaiting := before.srWaiting - 1
          service :=
            if known ∧ inserted then .drain elem rest else .flush elem rest }
  | flush {elem : Fin maxWaitTabSize} {rest : List (Fin maxWaitTabSize)}
      (isAt : before.service = .flush elem rest) : SrStep before .flush (before.flushOne elem rest)
  | drain {elem : Fin maxWaitTabSize} {rest : List (Fin maxWaitTabSize)}
      (isAt : before.service = .drain elem rest) : SrStep before .drain (before.drainOne elem rest)
  | release {elem : Fin maxWaitTabSize} {rest : List (Fin maxWaitTabSize)}
      (isAt : before.service = .release elem rest) : SrStep before .release
        { before.setElem elem { before.tab elem with srState := .unused } with
          service := .scan rest }

/-- The places of messages. -/
inductive SrPlace where
  | elem (elem : Fin maxWaitTabSize)
  | freed
  | passed
  deriving DecidableEq

/-- The messages in a place. -/
def SrState.held (state : SrState) : SrPlace → List SrMsg
  | .elem elem => (state.tab elem).srWaitq
  | .freed => state.freed
  | .passed => state.passed.map SrPassed.msg

/-- The entries in use. -/
def SrState.used (state : SrState) : Finset (Fin maxWaitTabSize) :=
  Finset.univ.filter fun elem => (state.tab elem).srState ≠ .unused

/-- What the wait table promises. -/
structure SrWell (state : SrState) : Prop where
  /-- No message is lost, freed twice or passed on twice. -/
  placed : Placed state.held (· ∈ state.messages)
  /-- Messages go on where they arrived, with the route for their address. -/
  passed : ∀ passed ∈ state.passed, passed.streamq = some passed.msg.arrivedOn ∧
      passed.route = passed.recorded
  /-- No message is on an entry that is not in use. -/
  unused : ∀ elem, (state.tab elem).srState = .unused → (state.tab elem).srWaitq = []
  /-- `sr_waiting` counts the entries in use that `srwsrv` has not counted off. -/
  waiting : state.srWaiting + state.service.counted = state.used.card
  /-- The timer runs while an entry is in use that `srwsrv` has not counted off. -/
  timer : ∀ elem, (state.tab elem).srState ≠ .unused →
      state.service.elem ≠ some elem ∨ state.service.counted = 0 → 0 < state.timers

end Uw7.Sr
