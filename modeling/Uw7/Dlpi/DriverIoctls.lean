import Uw7.Dlpi.Multicast

namespace Uw7.Dlpi

/-!
# One ioctl at the driver

`dlpi_iocblk`, `ioctl_sap`, `ioctl_handler` and `ioctl_queue` of a card, from
`io/nd/dlpi/mdiioctl.c`, `mdi.c` and `dlpi.c`, while the driver is ready.  A section
under `lock_card` is one step, and so are a `putnext` with the stores in front of it,
a failed allocation with the call of its handler, and an acknowledgement with the
call of its handler.
-/

open Lib

inductive IoctlHandler where
  /-- `dlpi_send_dl_get_statistics_ack`. -/
  | getStatistics
  /-- `dlpi_send_dl_clr_statistics_ack`. -/
  | clrStatistics
  /-- `dlpi_send_dl_ok_or_error_ack`. -/
  | okOrError
  /-- `dlpi_delmca_ack`. -/
  | delmca
  /-- `mdi_isdn_handle_release_ioctl`. -/
  | release
  deriving DecidableEq

/-- A `MACIOC` ioctl with the stream and the handler that issued it. -/
structure Macioc where
  iocmp : Nat
  sap : Nat
  handler : IoctlHandler
  deriving DecidableEq

/-- An acknowledgement, and the stream and the handler it was given to. -/
structure GivenAck where
  ioctl : Macioc
  sap : Option Nat
  handler : Option IoctlHandler
  deriving DecidableEq

/--
The ioctl fields of a card.  `claimed` are the ioctls of callers between the section
that set `dlpi_iocblk` and `dlpi_putnext_down_queue`, `sent` those at the driver, and
`answering` says that `mdi_message` has called a handler and not yet looked at the
queue.  `issued`, `queued`, `dequeued`, `given`, `disposed` and `failed` record what
has happened.
-/
structure IoctlCard where
  dlpiIocblk : Iocblk
  ioctlSap : Option Nat
  ioctlHandler : Option IoctlHandler
  ioctlQueue : List Macioc
  claimed : List Macioc
  sent : List Macioc
  answering : Bool
  issued : List Nat
  queued : List Nat
  dequeued : List Nat
  given : List GivenAck
  disposed : List Nat
  failed : List Nat
  fault : Bool
  deriving DecidableEq

/-- A card whose driver has just become ready. -/
def ioctlCardInit : IoctlCard where
  dlpiIocblk := .free
  ioctlSap := none
  ioctlHandler := none
  ioctlQueue := []
  claimed := []
  sent := []
  answering := false
  issued := []
  queued := []
  dequeued := []
  given := []
  disposed := []
  failed := []
  fault := false

namespace IoctlCard

def letNextRun (cp : IoctlCard) : IoctlCard := { cp with ioctlSap := none, dlpiIocblk := .free }

def claim (cp : IoctlCard) (iocblk : Iocblk) (ioctl : Macioc) : IoctlCard :=
  { cp with dlpiIocblk := iocblk, claimed := cp.claimed ++ [ioctl] }

/-- The end of `mdi_send_MACIOC_generic` and `mdi_send_MACIOC_cp_queue`. -/
def send (cp : IoctlCard) (ioctl : Macioc) (claimed : List Macioc) : IoctlCard :=
  { cp with
    ioctlSap := some ioctl.sap
    ioctlHandler := some ioctl.handler
    claimed := claimed
    sent := cp.sent ++ [ioctl] }

/-- `mdi_send_MACIOC_cp_queue` without a failure. -/
def cpQueue (cp : IoctlCard) (ioctl : Macioc) : IoctlCard :=
  if cp.dlpiIocblk = .free then
    cp.claim (.request ioctl.iocmp) ioctl
  else
    { cp with
      ioctlQueue := cp.ioctlQueue ++ [ioctl]
      queued := cp.queued ++ [ioctl.iocmp] }

/-- A handler gets a null message; every handler then lets the next ioctl run. -/
def callHandler (cp : IoctlCard) (handler : Option IoctlHandler) : IoctlCard :=
  match handler with
  | some _ => cp.letNextRun
  | none => { cp with fault := true }

/--
`ioctl_handler` gets the acknowledgement of an ioctl, which leaves the driver as
`sent`.
-/
def answer (cp : IoctlCard) (ioctl : Macioc) (sent : List Macioc) (nak : Bool) : IoctlCard :=
  let given : IoctlCard :=
    { cp with
      sent := sent
      answering := true
      given := cp.given ++ [⟨ioctl, cp.ioctlSap, cp.ioctlHandler⟩] }
  let freed : IoctlCard := { given with disposed := cp.disposed ++ [ioctl.iocmp] }
  match cp.ioctlHandler, cp.ioctlSap with
  | some .delmca, none | some .release, none => freed
  | some .okOrError, some _ =>
    -- a negative acknowledgement is not freed
    if nak then given.letNextRun else freed.letNextRun
  | some _, some _ => freed.letNextRun
  | _, _ => { given with fault := true }

/-- `mdi_message` looks at the queue. -/
def lookAtQueue (cp : IoctlCard) : IoctlCard :=
  match cp.dlpiIocblk, cp.ioctlQueue with
  | .free, ioctl :: rest =>
    { cp with
      ioctlQueue := rest
      dequeued := cp.dequeued ++ [ioctl.iocmp]
      ioctlSap := some ioctl.sap
      ioctlHandler := some ioctl.handler
      dlpiIocblk := .request ioctl.iocmp
      sent := cp.sent ++ [ioctl]
      answering := false }
  | _, _ => { cp with answering := false }

/-- An ioctl is made. -/
def issue (cp : IoctlCard) (ioctl : Macioc) : IoctlCard :=
  { cp with issued := ioctl.iocmp :: cp.issued }

def giveUp (cp : IoctlCard) (ioctl : Macioc) : IoctlCard :=
  { cp with failed := cp.failed ++ [ioctl.iocmp] }

end IoctlCard

/-- Where an allocation of `mdi_send_MACIOC_cp_queue` fails. -/
inductive CpQueueFailure where
  | data
  | iocmp
  | block
  deriving DecidableEq

/-- What may happen next. -/
inductive IoctlAction where
  | primitive (ioctl : Macioc)
  | closing (ioctl : Macioc)
  | send (ioctl : Macioc)
  | sendFails (ioctl : Macioc)
  | cpQueue (ioctl : Macioc)
  | cpQueueFails (ioctl : Macioc) (failure : CpQueueFailure)
  | ack (nak : Bool)
  | lookAtQueue
  deriving DecidableEq

/-- The steps of streams, of the driver and of `mdi_message`. -/
inductive IoctlStep (before : IoctlCard) : IoctlAction → IoctlCard → Prop where
  /-- A DL primitive claims `dlpi_iocblk`. -/
  | primitive {ioctl : Macioc} (new : ioctl.iocmp ∉ before.issued)
      (isPrimitive : ioctl.handler ≠ .delmca ∧ ioctl.handler ≠ .release)
      (free : before.dlpiIocblk = .free) :
      IoctlStep before (.primitive ioctl) ((before.issue ioctl).claim (.request ioctl.iocmp) ioctl)
  /-- `dlpi_clear_sap_multicasts` deletes one address, or all-multicast. -/
  | closing {ioctl : Macioc} (new : ioctl.iocmp ∉ before.issued)
      (isClosing : ioctl.handler = .delmca)
      (notBusy : before.dlpiIocblk = .free ∨ before.dlpiIocblk = .closing) :
      IoctlStep before (.closing ioctl) ((before.issue ioctl).claim .closing ioctl)
  | send {ioctl : Macioc} {earlier later : List Macioc}
      (isClaimed : before.claimed = earlier ++ ioctl :: later) :
      IoctlStep before (.send ioctl) (before.send ioctl (earlier ++ later))
  /-- An allocation fails in `mdi_send_MACIOC_generic` or in front of it. -/
  | sendFails {ioctl : Macioc} {earlier later : List Macioc}
      (isClaimed : before.claimed = earlier ++ ioctl :: later)
      (notQueued : ioctl.handler ≠ .release) (inGeneric : Bool) :
      IoctlStep before (.sendFails ioctl) (({ before with
            claimed := earlier ++ later
            ioctlHandler :=
              if inGeneric then some ioctl.handler
              else before.ioctlHandler } : IoctlCard).giveUp
          ioctl).letNextRun
  | cpQueue {ioctl : Macioc} (new : ioctl.iocmp ∉ before.issued)
      (isRelease : ioctl.handler = .release) :
      IoctlStep before (.cpQueue ioctl) ((before.issue ioctl).cpQueue ioctl)
  | dataFails {ioctl : Macioc} (new : ioctl.iocmp ∉ before.issued)
      (isRelease : ioctl.handler = .release) : IoctlStep before (.cpQueueFails ioctl .data)
        (((before.issue ioctl).giveUp ioctl).callHandler (some ioctl.handler))
  | iocmpFails {ioctl : Macioc} (new : ioctl.iocmp ∉ before.issued)
      (isRelease : ioctl.handler = .release) : IoctlStep before (.cpQueueFails ioctl .iocmp)
        (((before.issue ioctl).giveUp ioctl).callHandler before.ioctlHandler)
  | blockFails {ioctl : Macioc} (new : ioctl.iocmp ∉ before.issued)
      (isRelease : ioctl.handler = .release) (busy : before.dlpiIocblk ≠ .free) :
      IoctlStep before (.cpQueueFails ioctl .block)
        (((before.issue ioctl).giveUp ioctl).callHandler before.ioctlHandler)
  | ack {ioctl : Macioc} {rest : List Macioc} (nak : Bool) (isFirst : before.sent = ioctl :: rest)
      (ready : before.answering = false) :
      IoctlStep before (.ack nak) (before.answer ioctl rest nak)
  | lookAtQueue (answering : before.answering = true) :
      IoctlStep before .lookAtQueue before.lookAtQueue

inductive IoctlPlace where
  | queued
  | claimed
  | sent
  | disposed
  | failed
  deriving DecidableEq

/-- The ioctls in a place; a disposed one is an acknowledgement that was freed. -/
def IoctlCard.held (cp : IoctlCard) : IoctlPlace → List Nat
  | .queued => cp.ioctlQueue.map Macioc.iocmp
  | .claimed => cp.claimed.map Macioc.iocmp
  | .sent => cp.sent.map Macioc.iocmp
  | .disposed => cp.disposed
  | .failed => cp.failed

structure IoctlWell (cp : IoctlCard) : Prop where
  /-- One ioctl at most is at the driver or on its way there. -/
  one : (cp.claimed ++ cp.sent).length ≤ 1
  /-- `dlpi_iocblk` is set exactly then. -/
  mark : cp.dlpiIocblk ≠ .free ↔ cp.claimed ++ cp.sent ≠ []
  /-- Acknowledgements go to the handler and the stream of their ioctl. -/
  given : ∀ given ∈ cp.given, given.sap = some given.ioctl.sap ∧
      given.handler = some given.ioctl.handler
  /-- Each acknowledgement is given to a handler and disposed of once. -/
  once : cp.given.map (fun given => given.ioctl.iocmp) = cp.disposed
  /-- No ioctl is lost or sent twice. -/
  placed : Placed cp.held (· ∈ cp.issued)
  /-- Queued ioctls are sent in order. -/
  fifo : cp.queued = cp.dequeued ++ cp.ioctlQueue.map Macioc.iocmp
  /-- A queued ioctl waits for an acknowledgement that will send it. -/
  waiting : cp.ioctlQueue ≠ [] → cp.claimed ++ cp.sent ≠ [] ∨ cp.answering = true
  /-- No null pointer was followed. -/
  fault : cp.fault = false

end Uw7.Dlpi
