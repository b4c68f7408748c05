import Uw7.Dlpi.TxInterface
import Uw7.Lib.Run

namespace Uw7.Dlpi

/-!
# Messages over runs of the transmit interface

While every `TRYLOCK` succeeds, no passed message meets a stale `qmsg` and the
interface stays enabled under the calls that need its queue, every message is
on a queue, with one call, or processed once, and in order.
-/

open Lib Function List Option

/-- The state before a step does not lead into a branch that goes wrong. -/
def TxGuard (flags : TxFlags) (before : TxIf) : TxAction → Prop
  | .tryLockFails _ => False
  | .tryLock caller | .lock caller =>
    ∀ call, before.calls caller = some call → call.msg ≠ none → before.q ≠ none
  | .take caller =>
    flags = .mpSafe → ∀ call queue, before.calls caller = some call →
        before.q = some queue → before.contents queue = [] →
        call.qmsg = none
  | .relock _ | .putBack _ => before.q ≠ none
  | _ => True

/-- The events agree with the queues and with the processed messages. -/
structure TxHistory (flags : TxFlags) (events : List TxEvent) (contents : Nat → List Nat)
    (processed : List Nat) : Prop where
  fifo : ∀ queue, queuedOn queue events = takenFrom queue events ++ contents queue
  passed : ∀ earlier queue msg later, events = earlier ++ .passed queue msg :: later →
      queuedOn queue earlier = takenFrom queue earlier
  order : flags = .mpSafe → processed = assignedMsgs events

section Histories

variable {flags : TxFlags} {events : List TxEvent} {event : TxEvent}
  {contents : Nat → List Nat} {processed processed' : List Nat}
  {queue msg : Nat}

theorem passed_concat (before : ∀ earlier queue msg later,
    events = earlier ++ .passed queue msg :: later →
      queuedOn queue earlier = takenFrom queue earlier)
    (last : ∀ queue msg, event = .passed queue msg →
        queuedOn queue events = takenFrom queue events) :
    ∀ earlier queue msg later, events ++ [event] = earlier ++ .passed queue msg :: later →
        queuedOn queue earlier = takenFrom queue earlier := by
  intro earlier queue msg later split
  rcases eq_nil_or_concat later with rfl | ⟨between, final, rfl⟩
  · obtain ⟨rfl, isPassed⟩ := append_inj' split rfl
    exact last queue msg (List.cons.inj isPassed).1
  · rw [concat_eq_append, ← cons_append, ← append_assoc] at split
    exact before earlier queue msg between (append_inj' split rfl).1

namespace TxHistory

section

variable (history : TxHistory flags events contents processed)
include history

theorem putq (queue msg : Nat) :
    TxHistory flags (events ++ [.queued queue msg])
      (update contents queue (contents queue ++ [msg]))
      processed where
  fifo := by
    intro other
    have before := history.fifo other
    by_cases same : other = queue
    · simp_all [queuedOn, takenFrom]
    · simp_all [queuedOn, takenFrom, Ne.symm same]
  passed := passed_concat history.passed fun _ _ isPassed => by cases isPassed
  order := by
    intro safe
    simp [assignedMsgs, history.order safe]

theorem getq {first : Nat} {rest : List Nat} (isFirst : contents queue = first :: rest)
    (order : flags = .mpSafe → processed' = processed ++ [first]) :
    TxHistory flags (events ++ [.first queue first]) (update contents queue rest) processed' where
  fifo := by
    intro other
    have before := history.fifo other
    by_cases same : other = queue
    · subst other
      simp_all [queuedOn, takenFrom]
    · simp_all [queuedOn, takenFrom, Ne.symm same]
  passed := passed_concat history.passed fun _ _ isPassed => by cases isPassed
  order := by
    intro safe
    simp [order safe, assignedMsgs, history.order safe]

theorem takePassed
    (empty : contents queue = []) (order : flags = .mpSafe → processed' = processed ++ [msg]) :
    TxHistory flags (events ++ [.passed queue msg]) contents processed' where
  fifo := by
    intro other
    simpa [queuedOn, takenFrom] using history.fifo other
  passed := by
    refine passed_concat history.passed fun other _ isPassed => ?_
    cases isPassed
    have before := history.fifo queue
    rwa [empty, append_nil] at before
  order := by
    intro safe
    simp [order safe, assignedMsgs, history.order safe]

end

theorem ofMt (history : TxHistory .mpMt events contents processed) :
    TxHistory .mpMt events contents processed' :=
  { history with order := fun safe => by cases safe }

end TxHistory

end Histories

/-- The calls agree with the lock and with the enabled queue. -/
structure TxLocks (flags : TxFlags) (q txlock : Option Nat)
    (calls : Nat → Option TxCall) : Prop where
  owner : ∀ caller, txlock = some caller ↔ ∃ call, calls caller = some call ∧ call.point.Locked
  enabled : ∀ caller call, calls caller = some call →
      call.point = .test ∨ call.point = .take → q ≠ none
  safe : flags = .mpSafe → ∀ caller call, calls caller = some call →
      call.point ≠ .process ∧ call.point ≠ .relock

section Locks

variable {flags : TxFlags} {q txlock txlock' : Option Nat}
  {calls : Nat → Option TxCall} {caller : Nat} {call call' : TxCall}

namespace TxLocks

theorem update (locks : TxLocks flags q txlock calls) (next : Option TxCall) (own :
    txlock' = some caller ↔ ∃ call, next = some call ∧ call.point.Locked)
    (others : ∀ other, other ≠ caller → (txlock' = some other ↔ txlock = some other))
    (enabled : ∀ call, next = some call → call.point = .test ∨ call.point = .take → q ≠ none)
    (safe : flags = .mpSafe → ∀ call, next = some call →
        call.point ≠ .process ∧ call.point ≠ .relock) :
    TxLocks flags q txlock' (update calls caller next) where
  owner := by
    intro other
    by_cases same : other = caller
    · subst other
      simpa using own
    · rw [others other same, update_of_ne same]
      exact locks.owner other
  enabled := by
    intro other call isCall
    by_cases same : other = caller
    · subst other
      rw [update_self] at isCall
      exact enabled call isCall
    · rw [update_of_ne same] at isCall
      exact locks.enabled other call isCall
  safe := by
    intro isSafe other call isCall
    by_cases same : other = caller
    · subst other
      rw [update_self] at isCall
      exact safe isSafe call isCall
    · rw [update_of_ne same] at isCall
      exact locks.safe isSafe other call isCall

theorem held (locks : TxLocks flags q txlock calls) (isCall : calls caller = some call)
    (locked : call.point.Locked) :
    txlock = some caller :=
  (locks.owner caller).mpr ⟨call, isCall, locked⟩

theorem not_held (locks : TxLocks flags q txlock calls) (isCall : calls caller = some call)
    (unlocked : ¬ call.point.Locked) :
    txlock ≠ some caller := by
  intro held
  obtain ⟨other, isOther, locked⟩ := (locks.owner caller).mp held
  rw [isCall] at isOther
  obtain rfl := some.inj isOther
  exact unlocked locked

end TxLocks

end Locks

section Places

variable {txint : TxIf} {known : Nat → Prop} {caller queue msg : Nat}
  {call call' : TxCall} {rest : List Nat}

theorem held_setCall {next : Option TxCall} {place : TxPlace} (notPassed : place ≠ .passed caller)
    (notAssigned : place ≠ .assigned caller) :
    (txint.setCall caller next).held place = txint.held place := by
  cases place with
  | queue _ => rfl
  | processed => rfl
  | passed other =>
    have different : other ≠ caller := fun same => notPassed (same ▸ rfl)
    simp [TxIf.held, TxIf.setCall, update_of_ne different]
  | assigned other =>
    have different : other ≠ caller := fun same => notAssigned (same ▸ rfl)
    simp [TxIf.held, TxIf.setCall, update_of_ne different]

theorem held_setCall_passed (next : Option TxCall) :
    (txint.setCall caller next).held (.passed caller) = (next.bind TxCall.msg).toList := by
  simp [TxIf.held, TxIf.setCall]

theorem held_setCall_assigned (next : Option TxCall) :
    (txint.setCall caller next).held (.assigned caller) = (next.bind TxCall.assigned).toList := by
  simp [TxIf.held, TxIf.setCall]

theorem placed_setCall (placed : Placed txint.held known) (isCall : txint.calls caller = some call)
    (next : Option TxCall) (sameMsg : next.bind TxCall.msg = call.msg)
    (sameAssigned : next.bind TxCall.assigned = call.assigned) :
    Placed (txint.setCall caller next).held known := by
  refine placed.congr fun place => ?_
  by_cases isPassed : place = .passed caller
  · subst place
    rw [held_setCall_passed, sameMsg]
    simp [TxIf.held, isCall]
  · by_cases isAssigned : place = .assigned caller
    · subst place
      rw [held_setCall_assigned, sameAssigned]
      simp [TxIf.held, isCall]
    · exact held_setCall isPassed isAssigned

theorem held_getq {place : TxPlace} (notQueue : place ≠ .queue queue) :
    (txint.getq queue msg rest).held place = txint.held place := by
  cases place with
  | queue other =>
    have different : other ≠ queue := fun same => notQueue (same ▸ rfl)
    simp [TxIf.held, TxIf.getq, update_of_ne different]
  | processed => rfl
  | passed _ => rfl
  | assigned _ => rfl

theorem placed_getq_processMsg (placed : Placed txint.held known)
    (isFirst : txint.contents queue = msg :: rest) :
    Placed ((txint.getq queue msg rest).processMsg (some msg)).held
      known := by
  refine placed.transfer msg (by simp : TxPlace.queue queue ≠ TxPlace.processed) ?_ ?_ ?_
  · simp [TxIf.held, TxIf.getq, TxIf.processMsg, isFirst]
  · exact perm_append_singleton msg txint.processed
  · intro place notQueue notProcessed
    have same := @held_getq txint queue msg rest place notQueue
    cases place with
    | processed => exact absurd rfl notProcessed
    | queue _ => exact same
    | passed _ => rfl
    | assigned _ => rfl

theorem placed_getq_assigned (placed : Placed txint.held known)
    (isFirst : txint.contents queue = msg :: rest) (isCall : txint.calls caller = some call)
    (unassigned : call.assigned = none) (sameMsg : call'.msg = call.msg)
    (assigned : call'.assigned = some msg) :
    Placed ((txint.getq queue msg rest).setCall caller (some call')).held
      known := by
  refine placed.transfer msg (by simp : TxPlace.queue queue ≠ TxPlace.assigned caller) ?_ ?_ ?_
  · rw [held_setCall (by simp) (by simp)]
    simp [TxIf.held, TxIf.getq, isFirst]
  · rw [held_setCall_assigned]
    simp [TxIf.held, isCall, assigned, unassigned]
  · intro place notQueue notAssigned
    by_cases isPassed : place = .passed caller
    · subst place
      rw [held_setCall_passed]
      simp [TxIf.held, isCall, sameMsg]
    · rw [held_setCall isPassed notAssigned, held_getq notQueue]

theorem placed_passed_processed (placed : Placed txint.held known)
    (isCall : txint.calls caller = some call) (isMsg : call.msg = some msg)
    (noMsg : call'.msg = none) (sameAssigned : call'.assigned = call.assigned) :
    Placed ((txint.processMsg (some msg)).setCall caller (some call')).held
      known := by
  refine placed.transfer msg (by simp : TxPlace.passed caller ≠ TxPlace.processed) ?_ ?_ ?_
  · rw [held_setCall_passed]
    simp [TxIf.held, isCall, isMsg, noMsg]
  · exact perm_append_singleton msg txint.processed
  · intro place notPassed notProcessed
    by_cases isAssigned : place = .assigned caller
    · subst place
      rw [held_setCall_assigned]
      simp [TxIf.held, isCall, sameAssigned]
    · rw [held_setCall notPassed isAssigned]
      cases place with
      | processed => exact absurd rfl notProcessed
      | queue _ => rfl
      | passed _ => rfl
      | assigned _ => rfl

section

variable (placed : Placed txint.held known) (isCall : txint.calls caller = some call)
include placed isCall

theorem placed_passed_assigned (unassigned : call.assigned = none) (noMsg : call'.msg = none)
    (assigned : call'.assigned = call.msg) :
    Placed (txint.setCall caller (some call')).held known := by
  cases isMsg : call.msg with
  | none =>
    refine placed_setCall placed isCall (some call') ?_ ?_
    · rw [bind_some, noMsg, isMsg]
    · rw [bind_some, assigned, isMsg, unassigned]
  | some msg =>
    refine placed.transfer msg (by simp : TxPlace.passed caller ≠ TxPlace.assigned caller) ?_ ?_ ?_
    · rw [held_setCall_passed]
      simp [TxIf.held, isCall, isMsg, noMsg]
    · rw [held_setCall_assigned]
      simp [TxIf.held, isCall, isMsg, assigned, unassigned]
    · intro place notPassed notAssigned
      exact held_setCall notPassed notAssigned

theorem placed_putBack (isMsg : call.msg = some msg) (unassigned : call.assigned = none) :
    Placed ((txint.putq queue msg).setCall caller none).held known := by
  refine placed.transfer msg (by simp : TxPlace.passed caller ≠ TxPlace.queue queue) ?_ ?_ ?_
  · rw [held_setCall_passed]
    simp [TxIf.held, isCall, isMsg]
  · rw [held_setCall (by simp) (by simp)]
    simp only [TxIf.held, TxIf.putq, update_self]
    exact perm_append_singleton msg _
  · intro place notPassed notQueue
    by_cases isAssigned : place = .assigned caller
    · subst place
      rw [held_setCall_assigned]
      simp [TxIf.held, isCall, unassigned]
    · rw [held_setCall notPassed isAssigned]
      cases place with
      | processed => rfl
      | queue other =>
        have different : other ≠ queue := fun same => notQueue (same ▸ rfl)
        simp [TxIf.held, TxIf.putq, update_of_ne different]
      | passed _ => rfl
      | assigned _ => rfl

theorem placed_assigned_processed (assigned : call.assigned = call.qmsg)
    (sameMsg : call'.msg = call.msg) (unassigned : call'.assigned = none) :
    Placed ((txint.processMsg call.qmsg).setCall caller (some call')).held
      known := by
  cases isMsg : call.qmsg with
  | none =>
    have same := placed_setCall placed isCall (some call') sameMsg
        (unassigned.trans (assigned.trans isMsg).symm)
    refine same.congr fun place => ?_
    cases place <;> simp [TxIf.held, TxIf.setCall, TxIf.processMsg]
  | some msg =>
    refine placed.transfer msg (by simp : TxPlace.assigned caller ≠ TxPlace.processed) ?_ ?_ ?_
    · rw [held_setCall_assigned]
      simp [TxIf.held, isCall, isMsg, assigned, unassigned]
    · exact perm_append_singleton msg txint.processed
    · intro place notAssigned notProcessed
      by_cases isPassed : place = .passed caller
      · subst place
        rw [held_setCall_passed]
        simp [TxIf.held, isCall, sameMsg]
      · rw [held_setCall isPassed notAssigned]
        cases place with
        | processed => exact absurd rfl notProcessed
        | queue _ => rfl
        | passed _ => rfl
        | assigned _ => rfl

end

end Places

/-- What every step keeps. -/
structure TxKept (flags : TxFlags) (txint : TxIf) : Prop where
  placed : Placed txint.held (· ∈ txint.messages)
  history : TxHistory flags txint.events txint.contents txint.processed
  locks : TxLocks flags txint.q txint.txlock txint.calls
  strayUnlocks : txint.strayUnlocks = 0
  nullQueue : txint.nullQueue = false

section Steps

variable {flags : TxFlags} {txint after : TxIf} {caller : Nat} {call : TxCall} {action : TxAction}

theorem TxCall.assigned_eq_none (notProcess : call.point ≠ .process) : call.assigned = none :=
  if_neg notProcess

namespace TxKept

theorem setCall (kept : TxKept flags txint) (isCall : txint.calls caller = some call)
    {next : Option TxCall} {txlock' : Option Nat} {active' : Nat}
    (sameMsg : next.bind TxCall.msg = call.msg)
    (sameAssigned : next.bind TxCall.assigned = call.assigned)
    (locks : TxLocks flags txint.q txlock' (update txint.calls caller next)) :
    TxKept flags
      { txint.setCall caller next with
        txlock := txlock'
        active := active' } where
  __ := kept
  placed := placed_setCall kept.placed isCall next sameMsg sameAssigned
  locks := locks

theorem locked (kept : TxKept flags txint) (isCall : txint.calls caller = some call)
    (point : call.point = .entry) (free : txint.txlock = none)
    (enabled : call.msg ≠ none → txint.q ≠ none) :
    TxKept flags (txint.locked caller call) := by
  have unassigned : call.assigned = none := TxCall.assigned_eq_none (by simp [point])
  rw [TxIf.locked]
  cases isQ : txint.q with
  | none =>
    have noMsg : call.msg = none := by
      by_contra isMsg
      exact enabled isMsg isQ
    refine kept.setCall isCall noMsg.symm unassigned.symm ?_
    refine kept.locks.update none ?_ (fun _ _ => Iff.rfl) ?_ ?_
    · simp [free]
    · intro call isNone
      cases isNone
    · intro _ call isNone
      cases isNone
  | some queue =>
    have stillUnassigned : ({ call with point := .test } : TxCall).assigned = none :=
      TxCall.assigned_eq_none (by simp)
    refine kept.setCall isCall rfl (stillUnassigned.trans unassigned.symm) ?_
    refine kept.locks.update _ ?_ ?_ ?_ ?_
    · simp [TxPoint.Locked]
    · intro other different
      simp [free, Ne.symm different]
    · intro _ _ _
      rw [isQ]
      simp
    · rintro _ _ ⟨⟩
      simp

theorem test (kept : TxKept flags txint) (isCall : txint.calls caller = some call)
    (point : call.point = .test) (available : Bool) :
    TxKept flags (txint.test caller call available) := by
  have unassigned : call.assigned = none := TxCall.assigned_eq_none (by simp [point])
  have enabled := kept.locks.enabled caller call isCall (.inl point)
  have held := kept.locks.held isCall (by simp [point, TxPoint.Locked])
  rw [TxIf.test]
  cases isQ : txint.q with
  | none => exact absurd isQ enabled
  | some queue =>
    have step : ∀ next : TxPoint, next = .take ∨ next = .unlock → TxKept flags
        (txint.setCall caller (some { call with point := next })) := by
      intro next isNext
      have stillUnassigned : ({ call with point := next } : TxCall).assigned = none :=
        TxCall.assigned_eq_none (by rcases isNext with rfl | rfl <;> simp)
      refine kept.setCall isCall rfl (stillUnassigned.trans unassigned.symm) ?_
      refine kept.locks.update _ ?_ (fun _ _ => Iff.rfl) ?_ ?_
      · rcases isNext with rfl | rfl <;> simp [held, TxPoint.Locked]
      · exact fun _ _ _ => enabled
      · rintro _ _ ⟨⟩
        rcases isNext with rfl | rfl <;> simp
    refine step _ ?_
    split_ifs
    · exact .inl rfl
    · exact .inr rfl

/-- The body of the loop with `MDI_TX_MP_SAFE`. -/
theorem takeSafe (kept : TxKept .mpSafe txint) (isCall : txint.calls caller = some call)
    (point : call.point = .take)
    (fresh : ∀ queue, txint.q = some queue → txint.contents queue = [] → call.qmsg = none) :
    TxKept .mpSafe (txint.takeSafe caller call) := by
  have unassigned : call.assigned = none := TxCall.assigned_eq_none (by simp [point])
  have enabled := kept.locks.enabled caller call isCall (.inr point)
  have held := kept.locks.held isCall (by simp [point, TxPoint.Locked])
  have locks : ∀ call' : TxCall, call'.point = .test → TxLocks .mpSafe txint.q txint.txlock
      (update txint.calls caller (some call')) := by
    intro call' isTest
    refine kept.locks.update _ ?_ (fun _ _ => Iff.rfl) ?_ ?_
    · simp [held, isTest, TxPoint.Locked]
    · exact fun _ _ _ => enabled
    · rintro _ _ ⟨⟩
      simp [isTest]
  rw [TxIf.takeSafe]
  cases isQ : txint.q with
  | none => exact absurd isQ enabled
  | some queue =>
    dsimp only
    cases isContents : txint.contents queue with
    | cons first rest =>
      have placed := placed_setCall (placed_getq_processMsg kept.placed isContents)
          isCall (some { call with point := .test, qmsg := some first })
          rfl
          ((TxCall.assigned_eq_none (by simp)).trans unassigned.symm)
      exact
        { kept with
          placed := placed
          history := kept.history.getq isContents fun _ => rfl
          locks := locks _ rfl }
    | nil =>
      have noStale := fresh queue isQ isContents
      simp only [noStale]
      cases isMsg : call.msg with
      | none =>
        have placed := placed_setCall kept.placed isCall
            (some { point := .test, msg := none, qmsg := none })
            isMsg.symm
            ((TxCall.assigned_eq_none (by simp)).trans unassigned.symm)
        have noEvent : txint.events ++ [] = txint.events := by simp
        have noMsg : txint.processed ++ [] = txint.processed := by simp
        refine
          { kept with
            placed := placed.congr fun place => ?_
            history := ?_
            locks := locks _ rfl }
        · cases place <;> simp [TxIf.held, TxIf.setCall, TxIf.processMsg, TxIf.takePassed]
        · have history := kept.history
          rw [← noEvent, ← noMsg] at history
          exact history
      | some msg =>
        have placed := @placed_passed_processed txint _ caller msg call
            { point := .test, msg := none, qmsg := some msg }
            kept.placed isCall isMsg rfl
            ((TxCall.assigned_eq_none (by simp)).trans unassigned.symm)
        exact
          { kept with
            placed := placed
            history := kept.history.takePassed isContents fun _ => rfl
            locks := locks _ rfl }

theorem takeMt (kept : TxKept .mpMt txint) (isCall : txint.calls caller = some call)
    (point : call.point = .take) :
    TxKept .mpMt (txint.takeMt caller call) := by
  have unassigned : call.assigned = none := TxCall.assigned_eq_none (by simp [point])
  have enabled := kept.locks.enabled caller call isCall (.inr point)
  have held := kept.locks.held isCall (by simp [point, TxPoint.Locked])
  have locks : ∀ call' : TxCall, call'.point = .process → TxLocks .mpMt txint.q none
      (update txint.calls caller (some call')) := by
    intro call' isProcess
    refine kept.locks.update _ ?_ ?_ ?_ ?_
    · simp [isProcess, TxPoint.Locked]
    · intro other different
      simp [held, Ne.symm different]
    · exact fun _ _ _ => enabled
    · rintro ⟨⟩
  rw [TxIf.takeMt]
  cases isQ : txint.q with
  | none => exact absurd isQ enabled
  | some queue =>
    dsimp only
    cases isContents : txint.contents queue with
    | cons first rest =>
      exact
        { kept with
          placed := placed_getq_assigned kept.placed isContents isCall unassigned rfl rfl
          history := kept.history.getq isContents fun safe => by cases safe
          locks := locks _ rfl }
    | nil =>
      refine
        { kept with
          placed := placed_passed_assigned kept.placed isCall unassigned rfl rfl
          history := ?_
          locks := locks _ rfl }
      cases isMsg : call.msg with
      | none => simpa [TxIf.takePassed, TxIf.setCall] using kept.history
      | some msg =>
        exact kept.history.takePassed isContents fun safe => by cases safe

section

variable (kept : TxKept flags txint)
include kept

section

variable (isCall : txint.calls caller = some call)
include isCall

theorem process (point : call.point = .process) :
    TxKept flags ((txint.processMsg call.qmsg).setCall caller
        (some { call with point := .relock })) := by
  cases flags with
  | mpSafe => exact absurd point (kept.locks.safe rfl caller call isCall).1
  | mpMt =>
    have notHeld := kept.locks.not_held isCall (by simp [point, TxPoint.Locked])
    refine
      { kept with
        placed := placed_assigned_processed kept.placed isCall (if_pos point) rfl
            (TxCall.assigned_eq_none (by simp))
        history := kept.history.ofMt
        locks := ?_ }
    refine kept.locks.update _ ?_ (fun _ _ => Iff.rfl) ?_ ?_
    · refine ⟨fun held => absurd held notHeld, ?_⟩
      rintro ⟨_, ⟨⟩, locked⟩
      exact absurd locked (by simp [TxPoint.Locked])
    · rintro _ ⟨⟩ (isTest | isTake)
      · cases isTest
      · cases isTake
    · rintro ⟨⟩

theorem relock
    (point : call.point = .relock) (free : txint.txlock = none) (enabled : txint.q ≠ none) :
    TxKept flags
      { txint.setCall caller (some { call with point := .test }) with
        txlock := some caller
        active := txint.active - 1 } := by
  have unassigned : call.assigned = none := TxCall.assigned_eq_none (by simp [point])
  have stillUnassigned : ({ call with point := .test } : TxCall).assigned = none :=
    TxCall.assigned_eq_none (by simp)
  refine kept.setCall isCall rfl (stillUnassigned.trans unassigned.symm) ?_
  refine kept.locks.update _ ?_ ?_ (fun _ _ _ => enabled) ?_
  · simp [TxPoint.Locked]
  · intro other different
    simp [free, Ne.symm different]
  · rintro _ _ ⟨⟩
    simp

theorem unlock (point : call.point = .unlock) :
    TxKept flags (txint.unlock caller call) := by
  have unassigned : call.assigned = none := TxCall.assigned_eq_none (by simp [point])
  have held := kept.locks.held isCall (by simp [point, TxPoint.Locked])
  have released : ∀ next : Option TxCall, (∀ call', next = some call' → call'.point = .putBack) →
      TxLocks flags txint.q none (update txint.calls caller next) := by
    intro next isPutBack
    refine kept.locks.update next ?_ ?_ ?_ ?_
    · simp only [reduceCtorEq, false_iff]
      rintro ⟨call', isNext, locked⟩
      rw [isPutBack call' isNext] at locked
      exact locked
    · intro other different
      simp [held, Ne.symm different]
    · intro call' isNext isPoint
      rw [isPutBack call' isNext] at isPoint
      simp at isPoint
    · intro _ call' isNext
      rw [isPutBack call' isNext]
      simp
  rw [TxIf.unlock, if_pos held]
  by_cases noMsg : call.msg = none
  · rw [if_pos noMsg]
    refine kept.setCall isCall noMsg.symm unassigned.symm (released none ?_)
    intro call' isNone
    cases isNone
  · rw [if_neg noMsg]
    have stillUnassigned : ({ call with point := .putBack } : TxCall).assigned = none :=
      TxCall.assigned_eq_none (by simp)
    refine kept.setCall isCall rfl (stillUnassigned.trans unassigned.symm) (released _ ?_)
    rintro _ ⟨⟩
    rfl

theorem putBack (point : call.point = .putBack) (enabled : txint.q ≠ none) :
    TxKept flags (txint.putBack caller call) := by
  have unassigned : call.assigned = none := TxCall.assigned_eq_none (by simp [point])
  have notHeld := kept.locks.not_held isCall (by simp [point, TxPoint.Locked])
  have locks : TxLocks flags txint.q txint.txlock (update txint.calls caller none) := by
    refine kept.locks.update none ?_ (fun _ _ => Iff.rfl) ?_ ?_
    · simp [notHeld]
    · intro call' isNone
      cases isNone
    · intro _ call' isNone
      cases isNone
  rw [TxIf.putBack]
  cases isQ : txint.q with
  | none => exact absurd isQ enabled
  | some queue =>
    cases isMsg : call.msg with
    | none => exact kept.setCall isCall isMsg.symm unassigned.symm locks
    | some msg =>
      exact
        { kept with
          placed := placed_putBack kept.placed isCall isMsg unassigned
          history := kept.history.putq queue msg
          locks := locks }

end

theorem putq {queue msg : Nat} (new : msg ∉ txint.messages) :
    TxKept flags { txint.putq queue msg with messages := msg :: txint.messages } := by
  have placed := @Placed.introduce _ _ txint.held (txint.putq queue msg).held _
      kept.placed msg new (.queue queue)
      (by
        simp only [TxIf.held, TxIf.putq, update_self]
        exact perm_append_singleton msg _)
      (by
        intro place notQueue
        cases place with
        | queue other =>
          have different : other ≠ queue := fun same => notQueue (same ▸ rfl)
          simp [TxIf.held, TxIf.putq, update_of_ne different]
        | processed => rfl
        | passed _ => rfl
        | assigned _ => rfl)
  simp only [← mem_cons] at placed
  exact
    { kept with
      placed := placed
      history := kept.history.putq queue msg }

theorem start (msg qmsg : Option Nat) (idle : txint.calls caller = none)
    (new : ∀ passed, msg = some passed → passed ∉ txint.messages) :
    TxKept flags
      { txint.setCall caller (some ⟨.entry, msg, qmsg⟩) with
        messages := msg.toList ++ txint.messages } := by
  have unassigned : (⟨.entry, msg, qmsg⟩ : TxCall).assigned = none :=
    TxCall.assigned_eq_none (by simp)
  have notHeld : txint.txlock ≠ some caller := by
    intro held
    obtain ⟨_, isCall, -⟩ := (kept.locks.owner caller).mp held
    rw [idle] at isCall
    cases isCall
  have assigned : (txint.setCall caller (some ⟨.entry, msg, qmsg⟩)).held (.assigned caller) =
      txint.held (.assigned caller) := by
    rw [held_setCall_assigned, bind_some, unassigned]
    simp [TxIf.held, idle]
  refine
    { kept with
      placed := ?_
      locks := ?_ }
  · cases isMsg : msg with
    | none =>
      subst msg
      refine kept.placed.congr fun place => ?_
      by_cases isPassed : place = .passed caller
      · subst place
        exact (held_setCall_passed _).trans (by simp [TxIf.held, idle])
      · by_cases isAssigned : place = .assigned caller
        · subst place
          exact assigned
        · exact @held_setCall txint caller (some ⟨.entry, none, qmsg⟩) place isPassed isAssigned
    | some passed =>
      subst msg
      have placed := kept.placed.introduce passed (new passed rfl) (show Perm
          ((txint.setCall caller (some ⟨.entry, some passed, qmsg⟩)).held (.passed caller))
          (passed :: txint.held (.passed caller)) by
          rw [held_setCall_passed]
          simp [TxIf.held, idle])
          (by
            intro place notPassed
            by_cases isAssigned : place = .assigned caller
            · subst place
              exact assigned
            · exact held_setCall notPassed isAssigned)
      simp only [← mem_cons] at placed
      exact placed
  · refine kept.locks.update _ ?_ (fun _ _ => Iff.rfl) ?_ ?_
    · refine ⟨fun held => absurd held notHeld, ?_⟩
      rintro ⟨_, ⟨⟩, locked⟩
      exact absurd locked (by simp [TxPoint.Locked])
    · rintro _ ⟨⟩ (isTest | isTake)
      · cases isTest
      · cases isTake
    · rintro _ _ ⟨⟩
      simp

theorem setQ {queue : Option Nat}
    (allowed : queue = none → txint.txlock = none) :
    TxKept flags { txint with q := queue } where
  __ := kept
  locks :=
    { kept.locks with
      enabled := by
        intro caller call isCall point isNone
        have held : txint.txlock = some caller := kept.locks.held isCall
            (by rcases point with isPoint | isPoint <;> simp [isPoint, TxPoint.Locked])
        rw [allowed isNone] at held
        cases held }

end

end TxKept

theorem TxStep.kept (kept : TxKept flags txint) (taken : TxStep flags txint action after)
    (guard : TxGuard flags txint action) :
    TxKept flags after := by
  cases taken with
  | enable queue => exact kept.setQ fun isNone => by cases isNone
  | disable free => exact kept.setQ fun _ => free
  | putq new => exact kept.putq new
  | call msg qmsg idle new => exact kept.start msg qmsg idle new
  | tryLock safe isCall point free => exact kept.locked isCall point free (guard _ isCall)
  | tryLockFails => exact guard.elim
  | lock mt isCall point free => exact kept.locked isCall point free (guard _ isCall)
  | test isCall point available => exact kept.test isCall point available
  | take isCall point =>
    cases flags with
    | mpSafe => exact kept.takeSafe isCall point fun queue => guard rfl _ queue isCall
    | mpMt => exact kept.takeMt isCall point
  | process isCall point => exact kept.process isCall point
  | relock isCall point free => exact kept.relock isCall point free guard
  | unlock isCall point => exact kept.unlock isCall point
  | putBack isCall point => exact kept.putBack isCall point guard

theorem txIfInit_kept : TxKept flags txIfInit where
  placed :=
    { nodup := by
        intro place
        cases place <;> simp [TxIf.held, txIfInit]
      unique := by
        intro token first _ inFirst
        cases first <;> simp [TxIf.held, txIfInit] at inFirst
      covered := fun _ isKnown => by cases isKnown
      sound := by
        intro place token inPlace
        cases place <;> simp [TxIf.held, txIfInit] at inPlace }
  history :=
    { fifo := fun _ => rfl
      passed := by
        intro earlier _ _ _ split
        simp [txIfInit] at split
      order := fun _ => rfl }
  locks :=
    { owner := by
        intro caller
        simp [txIfInit]
      enabled := fun _ _ isCall => by cases isCall
      safe := fun _ _ _ isCall => by cases isCall }
  strayUnlocks := rfl
  nullQueue := rfl

theorem TxKept.well (kept : TxKept flags txint) : TxWell flags txint where
  __ := kept.history
  __ := kept
  owner := kept.locks.owner

end Steps

theorem txWell_of_run (flags : TxFlags) (actions : List TxAction) (final : TxIf)
    (run : Run (Guarded (TxStep flags) (TxGuard flags)) txIfInit actions final) :
    TxWell flags final := by
  have kept : TxKept flags final := run.invariant
      (fun _ _ _ kept taken => taken.1.kept kept taken.2)
      txIfInit_kept
  exact kept.well

theorem txWell_of_run_passed : ∃ final, Run (Guarded (TxStep .mpSafe) (TxGuard .mpSafe)) txIfInit
    [.enable 0, .call 0 (some 2), .tryLock 0, .test 0 true, .take 0]
    final ∧
    final.processed = [2] ∧ TxWell .mpSafe final := by
  have enabled : Guarded (TxStep .mpSafe) (TxGuard .mpSafe) txIfInit
      (.enable 0) _ := ⟨.enable 0, trivial⟩
  have called := (Run.single enabled).snoc
    ⟨@TxStep.call .mpSafe _ 0 (some 2) none rfl (by simp [txIfInit]), trivial⟩
  have locked := called.snoc ⟨@TxStep.tryLock .mpSafe _ 0 _ rfl rfl rfl rfl,
      fun _ _ _ => some_ne_none 0⟩
  have tested := locked.snoc ⟨@TxStep.test .mpSafe _ 0 _ rfl rfl true, trivial⟩
  have taken := tested.snoc ⟨@TxStep.take .mpSafe _ 0 _ rfl rfl, fun _ call _ isCall _ _ => by
      obtain rfl := some.inj isCall
      rfl⟩
  exact ⟨_, taken, rfl, txWell_of_run .mpSafe _ _ taken⟩

theorem txWell_fails_behind_queued : ¬ ∀ (flags : TxFlags) (actions : List TxAction) (final : TxIf),
    Run (TxStep flags) txIfInit actions final → TxWell flags final := by
  intro always
  have enabled : Run (TxStep .mpSafe) txIfInit [.enable 0] _ := .single (.enable 0)
  have queued := enabled.snoc (@TxStep.putq .mpSafe _ 0 1 (by simp [txIfInit]))
  have called := queued.snoc (@TxStep.call .mpSafe _ 0 (some 2) none rfl (by simp [txIfInit]))
  have locked := called.snoc (@TxStep.tryLock .mpSafe _ 0 _ rfl rfl rfl rfl)
  have tested := locked.snoc (@TxStep.test .mpSafe _ 0 _ rfl rfl true)
  have taken := tested.snoc (@TxStep.take .mpSafe _ 0 _ rfl rfl)
  have again := taken.snoc (@TxStep.test .mpSafe _ 0 _ rfl rfl true)
  have repeated := again.snoc (@TxStep.take .mpSafe _ 0 _ rfl rfl)
  have distinct : [1, 1].Nodup := (always .mpSafe _ _ repeated).placed.nodup .processed
  exact absurd distinct (by decide)

end Uw7.Dlpi
