import Uw7.Lib.Places

namespace Uw7.Dlpi

/-!
# The transmit interface of MDI drivers

`io/nd/dlpi/mditx.c`.  Calls of `mdi_tx_if` come from put, service and interrupt
routines; each is at some point of the routine and has the message it was passed
and the variable `qmsg`.  Messages and queues are addressed by numbers.
-/

open Lib Function

/-- `txint->flags`. -/
inductive TxFlags where
  | mpSafe
  | mpMt
  deriving DecidableEq

/-- The points of `mdi_tx_if` between which other calls may take steps. -/
inductive TxPoint where
  /-- Before the lock is taken. -/
  | entry
  /-- At the condition of the loop, with the lock. -/
  | test
  /-- In the body of the loop, with the lock and a transmit resource. -/
  | take
  /-- Without the lock, at the call of `process_msg` (`MDI_TX_MP_MT`). -/
  | process
  /-- Behind that call. -/
  | relock
  /-- At the last `UNLOCK`. -/
  | unlock
  /-- At `putq`. -/
  | putBack
  deriving DecidableEq

/-- A call of `mdi_tx_if`; `none` is `NULL`. -/
structure TxCall where
  point : TxPoint
  msg : Option Nat
  qmsg : Option Nat
  deriving DecidableEq

/-- What has happened to the queues. -/
inductive TxEvent where
  /-- A message was put at the end of a queue. -/
  | queued (queue msg : Nat)
  /-- The first message of the queue was taken for a transmit resource. -/
  | first (queue msg : Nat)
  /-- The passed message was taken instead, with this queue enabled. -/
  | passed (queue msg : Nat)
  deriving DecidableEq

/--
The interface with its queues and calls.  `messages` are all that were passed or
queued, and `processed` are the arguments of `process_msg`.
-/
structure TxIf where
  q : Option Nat
  active : Nat
  /-- The call that holds `txlock`. -/
  txlock : Option Nat
  contents : Nat → List Nat
  calls : Nat → Option TxCall
  messages : List Nat
  processed : List Nat
  events : List TxEvent
  /-- The number of releases of `txlock` by calls that did not hold it. -/
  strayUnlocks : Nat
  /-- A queue was read or written through a `NULL` pointer. -/
  nullQueue : Bool

/-- The interface behind `mdi_tx_if_init`. -/
def txIfInit : TxIf where
  q := none
  active := 0
  txlock := none
  contents := fun _ => []
  calls := fun _ => none
  messages := []
  processed := []
  events := []
  strayUnlocks := 0
  nullQueue := false

namespace TxIf

/-- A call goes on, or has returned. -/
def setCall (txint : TxIf) (caller : Nat) (call : Option TxCall) : TxIf :=
  { txint with calls := update txint.calls caller call }

/-- A call uses the `NULL` queue and never returns. -/
def fault (txint : TxIf) (caller : Nat) : TxIf :=
  { txint.setCall caller none with nullQueue := true }

def putq (txint : TxIf) (queue msg : Nat) : TxIf :=
  { txint with
    contents := update txint.contents queue (txint.contents queue ++ [msg])
    events := txint.events ++ [.queued queue msg] }

def getq (txint : TxIf) (queue first : Nat) (rest : List Nat) : TxIf :=
  { txint with
    contents := update txint.contents queue rest
    events := txint.events ++ [.first queue first] }

def takePassed (txint : TxIf) (queue : Nat) (msg : Option Nat) : TxIf :=
  { txint with
    events := txint.events ++ (msg.map (TxEvent.passed queue)).toList }

/-- A call of `process_msg`; drivers are prepared for `NULL`. -/
def processMsg (txint : TxIf) (qmsg : Option Nat) : TxIf :=
  { txint with processed := txint.processed ++ qmsg.toList }

/-- The first section of a call, behind its `TRYLOCK` or `LOCK`. -/
def locked (txint : TxIf) (caller : Nat) (call : TxCall) : TxIf :=
  match txint.q with
  | none => txint.setCall caller none
  | some _ =>
    { txint.setCall caller (some { call with point := .test }) with
      txlock := some caller }

/-- The condition of the loop; `available` is the result of `tx_avail`. -/
def test (txint : TxIf) (caller : Nat) (call : TxCall) (available : Bool) : TxIf :=
  match txint.q with
  | none => txint.fault caller
  | some queue =>
    let more := (txint.contents queue ≠ [] ∨ call.msg ≠ none) ∧ available
    txint.setCall caller (some { call with point := if more then .take else .unlock })

/-- The body of the loop with `MDI_TX_MP_SAFE`. -/
def takeSafe (txint : TxIf) (caller : Nat) (call : TxCall) : TxIf :=
  match txint.q with
  | none => txint.fault caller
  | some queue =>
    match txint.contents queue with
    | first :: rest =>
      ((txint.getq queue first rest).processMsg (some first)).setCall
        caller (some { call with point := .test, qmsg := some first })
    | [] =>
      match call.qmsg with
      | none =>
        ((txint.takePassed queue call.msg).processMsg call.msg).setCall
          caller (some { point := .test, msg := none, qmsg := call.msg })
      | some stale =>
        (txint.processMsg (some stale)).setCall caller (some { call with point := .test })

/-- The body of the loop with `MDI_TX_MP_MT`, up to its `UNLOCK`. -/
def takeMt (txint : TxIf) (caller : Nat) (call : TxCall) : TxIf :=
  match txint.q with
  | none => txint.fault caller
  | some queue =>
    let taken :=
      match txint.contents queue with
      | first :: rest =>
        (txint.getq queue first rest).setCall caller
          (some { call with point := .process, qmsg := some first })
      | [] =>
        (txint.takePassed queue call.msg).setCall caller
          (some { point := .process, msg := none, qmsg := call.msg })
    { taken with active := txint.active + 1, txlock := none }

/-- The body of the loop. -/
def take (flags : TxFlags) (txint : TxIf) (caller : Nat) (call : TxCall) : TxIf :=
  match flags with
  | .mpSafe => txint.takeSafe caller call
  | .mpMt => txint.takeMt caller call

/-- The last `UNLOCK` of a call. -/
def unlock (txint : TxIf) (caller : Nat) (call : TxCall) : TxIf :=
  { txint.setCall caller (if call.msg = none then none else some { call with point := .putBack })
    with
    txlock := none
    strayUnlocks :=
      if txint.txlock = some caller then txint.strayUnlocks
      else txint.strayUnlocks + 1 }

/-- The passed message goes to the end of the queue. -/
def putBack (txint : TxIf) (caller : Nat) (call : TxCall) : TxIf :=
  match txint.q, call.msg with
  | none, _ => txint.fault caller
  | some _, none => txint.setCall caller none
  | some queue, some msg => (txint.putq queue msg).setCall caller none

end TxIf

/-- What may happen next. -/
inductive TxAction where
  | enable (queue : Nat)
  | disable
  | putq (queue msg : Nat)
  | call (caller : Nat) (msg : Option Nat)
  | tryLock (caller : Nat)
  | tryLockFails (caller : Nat)
  | lock (caller : Nat)
  | test (caller : Nat) (available : Bool)
  | take (caller : Nat)
  | process (caller : Nat)
  | relock (caller : Nat)
  | unlock (caller : Nat)
  | putBack (caller : Nat)
  deriving DecidableEq

/--
The steps of the interface.  A call starts with any value in `qmsg`, which has no
initializer, and other code may put messages on the queues.
-/
inductive TxStep (flags : TxFlags) (before : TxIf) : TxAction → TxIf → Prop where
  | enable (queue : Nat) : TxStep flags before (.enable queue) { before with q := some queue }
  | disable (free : before.txlock = none) : TxStep flags before .disable { before with q := none }
  | putq {queue msg : Nat} (new : msg ∉ before.messages) : TxStep flags before (.putq queue msg)
      { before.putq queue msg with messages := msg :: before.messages }
  | call {caller : Nat} (msg qmsg : Option Nat) (idle : before.calls caller = none)
      (new : ∀ passed, msg = some passed → passed ∉ before.messages) :
      TxStep flags before (.call caller msg)
        { before.setCall caller (some ⟨.entry, msg, qmsg⟩) with
          messages := msg.toList ++ before.messages }
  | tryLock {caller : Nat} {call : TxCall} (safe : flags = .mpSafe)
      (isCall : before.calls caller = some call) (point : call.point = .entry)
      (free : before.txlock = none) :
      TxStep flags before (.tryLock caller) (before.locked caller call)
  | tryLockFails {caller : Nat} {call : TxCall} (safe : flags = .mpSafe)
      (isCall : before.calls caller = some call) (point : call.point = .entry) :
      TxStep flags before (.tryLockFails caller)
        (before.setCall caller (some { call with point := .unlock }))
  | lock {caller : Nat} {call : TxCall} (mt : flags = .mpMt)
      (isCall : before.calls caller = some call) (point : call.point = .entry)
      (free : before.txlock = none) : TxStep flags before (.lock caller) (before.locked caller call)
  | test {caller : Nat} {call : TxCall} (isCall : before.calls caller = some call)
      (point : call.point = .test) (available : Bool) :
      TxStep flags before (.test caller available) (before.test caller call available)
  | take {caller : Nat} {call : TxCall} (isCall : before.calls caller = some call)
      (point : call.point = .take) :
      TxStep flags before (.take caller) (before.take flags caller call)
  | process {caller : Nat} {call : TxCall} (isCall : before.calls caller = some call)
      (point : call.point = .process) :
      TxStep flags before (.process caller) ((before.processMsg call.qmsg).setCall caller
          (some { call with point := .relock }))
  | relock {caller : Nat} {call : TxCall} (isCall : before.calls caller = some call)
      (point : call.point = .relock) (free : before.txlock = none) :
      TxStep flags before (.relock caller)
        { before.setCall caller (some { call with point := .test }) with
          txlock := some caller
          active := before.active - 1 }
  | unlock {caller : Nat} {call : TxCall} (isCall : before.calls caller = some call)
      (point : call.point = .unlock) :
      TxStep flags before (.unlock caller) (before.unlock caller call)
  | putBack {caller : Nat} {call : TxCall} (isCall : before.calls caller = some call)
      (point : call.point = .putBack) :
      TxStep flags before (.putBack caller) (before.putBack caller call)

/-- The places of messages. -/
inductive TxPlace where
  | queue (queue : Nat)
  /-- In the variable `msg` of a call. -/
  | passed (caller : Nat)
  /-- With a call that has a transmit resource for it. -/
  | assigned (caller : Nat)
  | processed
  deriving DecidableEq

/-- The message that a call has a transmit resource for. -/
def TxCall.assigned (call : TxCall) : Option Nat :=
  if call.point = .process then call.qmsg else none

/-- The messages in a place. -/
def TxIf.held (txint : TxIf) : TxPlace → List Nat
  | .queue queue => txint.contents queue
  | .passed caller => ((txint.calls caller).bind TxCall.msg).toList
  | .assigned caller => ((txint.calls caller).bind TxCall.assigned).toList
  | .processed => txint.processed

/-- The messages put on a queue, in order. -/
def queuedOn (queue : Nat) (events : List TxEvent) : List Nat := events.filterMap fun event =>
    match event with
    | .queued other msg => if other = queue then some msg else none
    | _ => none

/-- The messages taken from a queue, in order. -/
def takenFrom (queue : Nat) (events : List TxEvent) : List Nat := events.filterMap fun event =>
    match event with
    | .first other msg => if other = queue then some msg else none
    | _ => none

/-- The messages taken for a transmit resource, in order. -/
def assignedMsgs (events : List TxEvent) : List Nat := events.filterMap fun event =>
    match event with
    | .first _ msg | .passed _ msg => some msg
    | .queued _ _ => none

/-- A call holds the lock at these points. -/
def TxPoint.Locked : TxPoint → Prop
  | .test | .take | .unlock => True
  | _ => False

/-- What the interface promises. -/
structure TxWell (flags : TxFlags) (txint : TxIf) : Prop where
  /-- No message is lost or processed twice, and no other one is processed. -/
  placed : Placed txint.held (· ∈ txint.messages)
  /-- Messages leave a queue in the order in which they were put there. -/
  fifo : ∀ queue, queuedOn queue txint.events = takenFrom queue txint.events ++ txint.contents queue
  /-- A passed message comes after all that were queued before it. -/
  passed : ∀ earlier queue msg later, txint.events = earlier ++ .passed queue msg :: later →
      queuedOn queue earlier = takenFrom queue earlier
  /-- `process_msg` is called in this order. -/
  order : flags = .mpSafe → txint.processed = assignedMsgs txint.events
  /-- The lock is held by a call that will release it, or by none. -/
  owner : ∀ caller, txint.txlock = some caller ↔
      ∃ call, txint.calls caller = some call ∧ call.point.Locked
  strayUnlocks : txint.strayUnlocks = 0
  nullQueue : txint.nullQueue = false

end Uw7.Dlpi
