import Uw7.Lib.Places
import Mathlib.Data.Fintype.Basic

namespace Uw7.Dlpi

/-!
# The multicast table of a card

`mcahashtbl` and the all-multicast flags from `io/nd/dlpi/dlpi.c`.  A request and
an acknowledgement of the driver are one step each; acknowledgements are positive,
they reach the stream that sent the ioctl, and allocations succeed.  The streams
of a card are the entries of its `sap_table`.
-/

open Lib Function

/-- `macaddr_t`. -/
abbrev MacAddr := Vector UInt8 6

def dlpiHsh (dest : MacAddr) (size : Nat) : Nat := (dest.toList.foldl
    (fun (hsh : UInt32) byte => byte.toUInt32 + 31 * hsh) 0).toNat % size

/-- `card_mca_t`: the first `sap_mca_t` is part of it, the others are allocated. -/
structure CardMca (maxsaps : Nat) where
  mca : MacAddr
  sapMca : Fin maxsaps
  nextSap : List (Fin maxsaps)
  deriving DecidableEq

section Chains

variable {maxsaps : Nat}

/-- Streams are compared by their entries in the table. -/
scoped instance lawfulStreams (maxsaps : Nat) : LawfulBEq (Fin maxsaps) := inferInstance

def CardMca.saps (cm : CardMca maxsaps) : List (Fin maxsaps) := cm.sapMca :: cm.nextSap

/-- `dlpi_mcahashtbl_entry` in one chain. -/
def mcaEntry (addr : MacAddr) : List (CardMca maxsaps) → Option (CardMca maxsaps)
  | [] => none
  | cm :: rest => if cm.mca = addr then some cm else mcaEntry addr rest

def dlpiAllocMca (sp : Fin maxsaps) (addr : MacAddr) :
    List (CardMca maxsaps) → List (CardMca maxsaps)
  | [] => [⟨addr, sp, []⟩]
  | cm :: rest =>
    if cm.mca = addr then
      -- the loop leaves at the last `sap_mca_t`, which it does not compare
      if sp ∈ cm.saps.dropLast then cm :: rest
      else { cm with nextSap := cm.nextSap ++ [sp] } :: rest
    else
      cm :: dlpiAllocMca sp addr rest

inductive DeletedSap (maxsaps : Nat) where
  /-- It returns 1: the `card_mca_t` goes. -/
  | last
  | kept (cm : CardMca maxsaps)
  /-- It follows a null pointer at the end of the list. -/
  | fault
  deriving DecidableEq

def dlpiDeleteMcaSap (cm : CardMca maxsaps) (sp : Fin maxsaps) : DeletedSap maxsaps :=
  match cm.nextSap with
  | [] => .last
  | next :: others =>
    if cm.sapMca = sp then
      .kept { cm with sapMca := next, nextSap := others }
    else if sp ∈ cm.nextSap then
      .kept { cm with nextSap := cm.nextSap.erase sp }
    else
      .fault

/-- The entry of an address gives up one stream; `none` is a fault. -/
def deleteMca (sp : Fin maxsaps) (addr : MacAddr) :
    List (CardMca maxsaps) → Option (List (CardMca maxsaps))
  | [] => some []
  | cm :: rest =>
    if cm.mca = addr then
      match dlpiDeleteMcaSap cm sp with
      | .last => some rest
      | .kept cm' => some (cm' :: rest)
      | .fault => none
    else
      (deleteMca sp addr rest).map (cm :: ·)

/-- A chain after a close, and the addresses for which a `MACIOC_DELMCA` is due. -/
structure ClearedChain (maxsaps : Nat) where
  chain : List (CardMca maxsaps)
  deleted : List MacAddr
  deriving DecidableEq

/--
The loop of `dlpi_clear_sap_multicasts` over one chain; `passed` are the entries in
front of `cm`, the nearest first, and `none` is a fault.
-/
def clearChain (sp : Fin maxsaps) (passed : List (CardMca maxsaps)) :
    List (CardMca maxsaps) → Option (ClearedChain maxsaps)
  | [] => some ⟨passed.reverse, []⟩
  | cm :: rest =>
    if sp ∈ cm.saps then
      match dlpiDeleteMcaSap cm sp with
      | .fault => none
      | .kept cm' => clearChain sp (cm' :: passed) rest
      | .last =>
        match passed with
        | [] =>
          (clearChain sp [] rest).map fun cleared =>
            { cleared with deleted := cm.mca :: cleared.deleted }
        | pcm :: before =>
          -- `pcm` is looked at again
          if sp ∈ pcm.saps then
            match dlpiDeleteMcaSap pcm sp with
            | .fault => none
            | .kept pcm' =>
              (clearChain sp (pcm' :: before) rest).map fun cleared =>
                { cleared with
                  deleted := cm.mca :: cleared.deleted }
            | .last =>
              -- behind the head, `pcm` would be freed and used
              if before = [] then
                (clearChain sp [] rest).map fun cleared =>
                  { cleared with
                    deleted := cm.mca :: pcm.mca :: cleared.deleted }
              else none
          else
            (clearChain sp (pcm :: before) rest).map fun cleared =>
              { cleared with deleted := cm.mca :: cleared.deleted }
    else
      clearChain sp (cm :: passed) rest

end Chains

/-- The ioctls for multicast addresses. -/
inductive MacCmd where
  | setmca (addr : MacAddr)
  | delmca (addr : MacAddr)
  | setallmca
  | delallmca
  deriving DecidableEq

/--
An ioctl at the driver.  The handler is `dlpi_send_dl_ok_or_error_ack` for a request
`mp`, else `dlpi_delmca_ack`.
-/
structure MacIoctl (maxsaps : Nat) where
  sp : Fin maxsaps
  cmd : MacCmd
  mp : Option Nat
  deriving DecidableEq

/-- `dlpi_iocblk`: zero, the mark 0xBF or a request. -/
inductive Iocblk where
  | free
  | closing
  | request (mp : Nat)
  deriving DecidableEq

/-- The requests. -/
inductive McaPrim where
  | enabmulti (addr : MacAddr)
  | disabmulti (addr : MacAddr)
  | enaballmulti
  | disaballmulti
  deriving DecidableEq

/-- `dlpi_prim` of the stream that sent an ioctl for a request. -/
def MacCmd.prim : MacCmd → McaPrim
  | .setmca addr => .enabmulti addr
  | .delmca addr => .disabmulti addr
  | .setallmca => .enaballmulti
  | .delallmca => .disaballmulti

/--
The multicast state of a card.  `onCard` are the addresses set by the ioctls sent;
`enabled` and `allEnabled` are the addresses and the all-multicast reception that
streams have enabled and not disabled, by the acknowledgements they were given.
-/
structure McaCard (maxsaps : Nat) where
  nmcahash : Nat
  mcahashtbl : Nat → List (CardMca maxsaps)
  allMca : Bool
  sapAllMca : Fin maxsaps → Bool
  dlpiIocblk : Iocblk
  sent : List (MacIoctl maxsaps)
  onCard : MacAddr → Bool
  isOpen : Fin maxsaps → Bool
  enabled : Fin maxsaps → MacAddr → Bool
  allEnabled : Fin maxsaps → Bool
  requests : List Nat
  answers : List (Nat × Bool)
  fault : Bool

/-- A card without streams. -/
def mcaCardInit (maxsaps nmcahash : Nat) : McaCard maxsaps where
  nmcahash := nmcahash
  mcahashtbl := fun _ => []
  allMca := false
  sapAllMca := fun _ => false
  dlpiIocblk := .free
  sent := []
  onCard := fun _ => false
  isOpen := fun _ => false
  enabled := fun _ _ => false
  allEnabled := fun _ => false
  requests := []
  answers := []
  fault := false

namespace McaCard

variable {maxsaps : Nat}

def chain (cp : McaCard maxsaps) (addr : MacAddr) : List (CardMca maxsaps) :=
  cp.mcahashtbl (dlpiHsh addr 6)

/-- The streams in the entry of an address, none without an entry. -/
def saps (cp : McaCard maxsaps) (addr : MacAddr) : List (Fin maxsaps) :=
  ((mcaEntry addr (cp.chain addr)).map CardMca.saps).getD []

def dlpiSapMcaSet (cp : McaCard maxsaps) (sp : Fin maxsaps) (addr : MacAddr) : Bool :=
  if cp.sapAllMca sp then true
  else
    match mcaEntry addr (cp.chain addr) with
    | none => false
    | some cm => decide (sp ∈ cm.saps)

def setChain (cp : McaCard maxsaps) (addr : MacAddr)
    (chain : List (CardMca maxsaps)) : McaCard maxsaps :=
  { cp with
    mcahashtbl := update cp.mcahashtbl (dlpiHsh addr 6) chain }

/-- A stream was told that its request is done. -/
def granted (cp : McaCard maxsaps) (sp : Fin maxsaps) : McaPrim → McaCard maxsaps
  | .enabmulti addr =>
    { cp with
      enabled := update cp.enabled sp (update (cp.enabled sp) addr true) }
  | .disabmulti addr =>
    { cp with
      enabled := update cp.enabled sp (update (cp.enabled sp) addr false) }
  | .enaballmulti => { cp with allEnabled := update cp.allEnabled sp true }
  | .disaballmulti => { cp with allEnabled := update cp.allEnabled sp false }

def dlpiSendDlOkAck (cp : McaCard maxsaps) (mp : Nat) (sp : Fin maxsaps)
    (prim : McaPrim) : McaCard maxsaps :=
  { cp.granted sp prim with answers := cp.answers ++ [(mp, true)] }

def dlpiSendDlErrorAck (cp : McaCard maxsaps) (mp : Nat) : McaCard maxsaps :=
  { cp with answers := cp.answers ++ [(mp, false)] }

/-- `all_mca` of a stream. -/
def setAll (cp : McaCard maxsaps) (sp : Fin maxsaps) (isSet : Bool) : McaCard maxsaps :=
  { cp with sapAllMca := update cp.sapAllMca sp isSet }

/-- An ioctl goes to the driver. -/
def send (cp : McaCard maxsaps) (ioctl : MacIoctl maxsaps) : McaCard maxsaps :=
  { cp with
    sent := cp.sent ++ [ioctl]
    onCard :=
      match ioctl.cmd with
      | .setmca addr => update cp.onCard addr true
      | .delmca addr => update cp.onCard addr false
      | _ => cp.onCard }

/-- A request claims `dlpi_iocblk` and sends its ioctl, or stays on its queue. -/
def claim (cp : McaCard maxsaps) (mp : Nat) (sp : Fin maxsaps)
    (cmd : MacCmd) : Option (McaCard maxsaps) :=
  if cp.dlpiIocblk = .free then
    some (({ cp with dlpiIocblk := .request mp } : McaCard maxsaps).send ⟨sp, cmd, some mp⟩)
  else none

/-- `dlpi_delete_mca_sap` at the entry of an address, for one stream. -/
def deleteSap (cp : McaCard maxsaps) (sp : Fin maxsaps) (addr : MacAddr) : McaCard maxsaps :=
  match deleteMca sp addr (cp.chain addr) with
  | none => { cp with fault := true }
  | some chain => cp.setChain addr chain

def allocMca (cp : McaCard maxsaps) (sp : Fin maxsaps) (addr : MacAddr) : McaCard maxsaps :=
  cp.setChain addr (dlpiAllocMca sp addr (cp.chain addr))

/-- The multicast requests of `dlpi_primitive`; `none` puts the request back. -/
def dlpiPrimitive (cp : McaCard maxsaps) (mp : Nat) (sp : Fin maxsaps)
    (prim : McaPrim) : Option (McaCard maxsaps) :=
  match prim with
  | .enabmulti addr =>
    match mcaEntry addr (cp.chain addr) with
    | some _ => some ((cp.allocMca sp addr).dlpiSendDlOkAck mp sp prim)
    | none => cp.claim mp sp (.setmca addr)
  | .disabmulti addr =>
    match mcaEntry addr (cp.chain addr) with
    | none => some (cp.dlpiSendDlErrorAck mp)
    | some cm =>
      if cm.nextSap ≠ [] then
        some ((cp.deleteSap sp addr).dlpiSendDlOkAck mp sp prim)
      else cp.claim mp sp (.delmca addr)
  | .enaballmulti =>
    if cp.allMca then some ((cp.setAll sp true).dlpiSendDlOkAck mp sp prim)
    else cp.claim mp sp .setallmca
  | .disaballmulti =>
    if cp.allMca = false ∨ cp.sapAllMca sp = false then
      some ((cp.setAll sp false).dlpiSendDlErrorAck mp)
    else if ∃ tsp, tsp ≠ sp ∧ cp.sapAllMca tsp = true then
      -- no acknowledgement here
      some (cp.setAll sp false)
    else cp.claim mp sp .delallmca

def dlpiSendDlOkOrErrorAck (cp : McaCard maxsaps) (sp : Fin maxsaps) (mp : Nat)
    (cmd : MacCmd) : McaCard maxsaps :=
  let changed :=
    match cmd with
    | .setmca addr => cp.allocMca sp addr
    | .delmca addr => cp.deleteSap sp addr
    | .setallmca => ({ cp with allMca := true } : McaCard maxsaps).setAll sp true
    | .delallmca => ({ cp with allMca := false } : McaCard maxsaps).setAll sp false
  { changed.dlpiSendDlOkAck mp sp cmd.prim with dlpiIocblk := .free }

/-- The handler of an ioctl gets its acknowledgement. -/
def ioctlHandler (cp : McaCard maxsaps) (ioctl : MacIoctl maxsaps) : McaCard maxsaps :=
  match ioctl.mp with
  | some mp => cp.dlpiSendDlOkOrErrorAck ioctl.sp mp ioctl.cmd
  | none => { cp with dlpiIocblk := .free }

/-- An ioctl of a closing stream, unless a request has claimed `dlpi_iocblk`. -/
def sendClosing (sp : Fin maxsaps) (cp : McaCard maxsaps) (cmd : MacCmd) : McaCard maxsaps :=
  match cp.dlpiIocblk with
  | .request _ => cp
  | _ => ({ cp with dlpiIocblk := .closing } : McaCard maxsaps).send ⟨sp, cmd, none⟩

/-- `dlpi_clear_sap_multicasts` at one chain. -/
def clearHash (sp : Fin maxsaps) (cp : McaCard maxsaps) (hsh : Nat) : McaCard maxsaps :=
  match clearChain sp [] (cp.mcahashtbl hsh) with
  | none => { cp with fault := true }
  | some cleared =>
    (cleared.deleted.map MacCmd.delmca).foldl (sendClosing sp)
      { cp with
        mcahashtbl := update cp.mcahashtbl hsh cleared.chain }

/-- The all-multicast part of `dlpi_clear_sap_multicasts`. -/
def clearAll (cp : McaCard maxsaps) (sp : Fin maxsaps) : McaCard maxsaps :=
  if cp.allMca then
    let cleared := { cp with sapAllMca := update cp.sapAllMca sp false }
    match cp.dlpiIocblk with
    | .request _ => cleared
    | _ =>
      if ∃ tsp, tsp ≠ sp ∧ cp.sapAllMca tsp = true then cleared
      else
        ({ cleared with allMca := false } : McaCard maxsaps).sendClosing sp .delallmca
  else cp

def dlpiClearSapMulticasts (cp : McaCard maxsaps) (sp : Fin maxsaps) : McaCard maxsaps :=
  ((List.range cp.nmcahash).foldl (clearHash sp) cp).clearAll sp

def dlpiclose (cp : McaCard maxsaps) (sp : Fin maxsaps) : McaCard maxsaps :=
  let cleared := cp.dlpiClearSapMulticasts sp
  { cleared with
    isOpen := update cleared.isOpen sp false
    enabled := update cleared.enabled sp fun _ => false
    allEnabled := update cleared.allEnabled sp false }

end McaCard

/-- What may happen next. -/
inductive McaAction (maxsaps : Nat) where
  | dlpiopen (sp : Fin maxsaps)
  | primitive (mp : Nat) (sp : Fin maxsaps) (prim : McaPrim)
  | ack (ioctl : MacIoctl maxsaps)
  | close (sp : Fin maxsaps)
  deriving DecidableEq

/-- The steps of streams and of the driver. -/
inductive McaStep {maxsaps : Nat} (before : McaCard maxsaps) :
    McaAction maxsaps → McaCard maxsaps → Prop where
  | dlpiopen {sp : Fin maxsaps} (closed : before.isOpen sp = false) : McaStep before (.dlpiopen sp)
      { before with isOpen := update before.isOpen sp true }
  | primitive {mp : Nat} {sp : Fin maxsaps} {prim : McaPrim} {after : McaCard maxsaps}
      (isOpen : before.isOpen sp = true) (new : mp ∉ before.requests)
      (processed : before.dlpiPrimitive mp sp prim = some after) :
      McaStep before (.primitive mp sp prim) { after with requests := mp :: before.requests }
  | ack {ioctl : MacIoctl maxsaps} {earlier later : List (MacIoctl maxsaps)}
      (isSent : before.sent = earlier ++ ioctl :: later) : McaStep before (.ack ioctl)
        (({ before with sent := earlier ++ later } : McaCard maxsaps).ioctlHandler ioctl)
  | close {sp : Fin maxsaps} (isOpen : before.isOpen sp = true) :
      McaStep before (.close sp) (before.dlpiclose sp)

/-- The places of requests. -/
inductive McaPlace where
  | outstanding
  | answered
  deriving DecidableEq

/-- The requests in a place. -/
def McaCard.held {maxsaps : Nat} (cp : McaCard maxsaps) : McaPlace → List Nat
  | .outstanding => cp.sent.filterMap MacIoctl.mp
  | .answered => cp.answers.map Prod.fst

/-- No request with a command is at the driver. -/
def McaCard.without {maxsaps : Nat} (cp : McaCard maxsaps) (cmd : MacCmd) : Prop :=
  ∀ ioctl ∈ cp.sent, ioctl.mp ≠ none → ioctl.cmd ≠ cmd

/-- What the multicast state promises. -/
structure McaWell {maxsaps : Nat} (cp : McaCard maxsaps) : Prop where
  /-- An address has one entry at most, in the chain of its hash. -/
  chains : ∀ hsh, ((cp.mcahashtbl hsh).map CardMca.mca).Nodup ∧
      ∀ cm ∈ cp.mcahashtbl hsh, dlpiHsh cm.mca 6 = hsh
  /-- An entry lists the streams that have enabled its address, once each. -/
  listed : ∀ addr, (cp.saps addr).Nodup ∧ ∀ sp, sp ∈ cp.saps addr ↔ cp.enabled sp addr = true
  /-- Only open streams have anything enabled. -/
  isOpen : ∀ sp, cp.isOpen sp = false →
      cp.allEnabled sp = false ∧ ∀ addr, cp.enabled sp addr = false
  /-- `dlpi_sap_mca_set` is true for what a stream has enabled. -/
  sapMcaSet : ∀ sp addr, cp.dlpiSapMcaSet sp addr = true ↔
      cp.enabled sp addr = true ∨ cp.allEnabled sp = true
  /-- The card has the addresses of the table, apart from an unanswered request. -/
  onCard : ∀ addr, cp.without (.setmca addr) → cp.without (.delmca addr) →
      (cp.onCard addr = true ↔ cp.saps addr ≠ [])
  /-- Every request is answered once, or its ioctl is at the driver. -/
  answered : Placed cp.held (· ∈ cp.requests)
  /-- A stream cannot disable what it has not enabled. -/
  disabled : ∀ mp sp addr, cp.enabled sp addr = false → (cp.saps addr = [] ∨ sp ∈ cp.saps addr) →
      cp.dlpiPrimitive mp sp (.disabmulti addr) = some (cp.dlpiSendDlErrorAck mp)
  /-- No list was followed behind its end. -/
  fault : cp.fault = false

end Uw7.Dlpi
