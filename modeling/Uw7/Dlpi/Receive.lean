import Mathlib.Algebra.Order.Ring.Nat
import Mathlib.Data.List.Range

namespace Uw7.Dlpi

/-!
# Demultiplexing of received frames

`dlpilrsrv` and `mdi_primitive_handler` for one `M_DATA` message, with `dlpi_llc_rx`
and the indications, from `io/nd/dlpi/mdi.c`, `llc.c` and `dlpidata.c`.  The message
is number 0 and the copies are 1, 2 and so on.  The frame description `f` and the
bytes it points to are those of message 0, whatever message is delivered.
-/

inductive FrameType where
  | etherII
  | xns
  | llc
  | snap
  | isdn
  deriving DecidableEq

def llcCmdUi : UInt8 := 0x03

def llcCmdXid : UInt8 := 0xaf

def llcCmdTest : UInt8 := 0xe3

def llcPollFinal : UInt8 := 0x10

def llcResponse : UInt8 := 0x01

def llcHeaderSize : Nat := 3

def snapHeaderSize : Nat := 5

/-- A frame as `rx_parse` and `dlpiSR_rx_parse` leave it. -/
structure RxFrame where
  frameType : FrameType
  frameSap : Nat
  /-- `dest_type` is `FR_MULTICAST`. -/
  multicast : Bool
  bytes : List UInt8
  /-- The end of the MAC header and of the route. -/
  frameData : Nat
  deriving DecidableEq

/-- `per_sap_info_t`, as far as received frames go. -/
structure RxSap where
  bound : Bool
  sapType : FrameType
  sap : Nat
  sapProtid : Nat
  /-- `llcmode` is `LLC_1`, not `LLC_OFF`. -/
  llc1 : Bool
  /-- `DL_AUTO_XID` in `llcxidtest_flg`. -/
  autoXid : Bool
  /-- `DL_AUTO_TEST` in `llcxidtest_flg`. -/
  autoTest : Bool
  deriving DecidableEq

/-- What the calls made for a stream return. -/
structure RxOutcomes where
  /-- `dlpi_sap_mca_set` for the frame's address. -/
  mcaSet : Bool
  canput : Bool
  copymsg : Bool
  allocb : Bool
  /-- A filter is set, and it rejects the frame. -/
  rejected : Bool
  /-- `make_hdr` fails. -/
  noHeader : Bool
  /-- In a copy, `info` is below `b_wptr`; they point to different buffers. -/
  infoBelow : Bool
  deriving DecidableEq

/-- A stream that gets a frame; the one for the null DSAP is in no table. -/
structure RxReceiver where
  index : Option Nat
  sap : RxSap
  calls : RxOutcomes
  deriving DecidableEq

/-- All that the handling of a frame depends on. -/
structure RxInput where
  frame : RxFrame
  sapTable : List RxSap
  outcomes : Nat → RxOutcomes
  /-- The calls for the stream of the null DSAP, and its counters. -/
  nullOutcomes : RxOutcomes
  nullCounters : Bool
  issuspended : Bool

structure RxPointer where
  buffer : Nat
  offset : Nat
  deriving DecidableEq

/-- What has become of a message. -/
inductive RxFate where
  | freed
  /-- Passed up in an indication, with its `b_rptr`. -/
  | up (index : Nat) (rptr : RxPointer)
  /-- Sent back as a response. -/
  | back
  deriving DecidableEq

/-- One message and its fate. -/
structure RxDisposal where
  mp : Nat
  fate : RxFate
  deriving DecidableEq

/-- The state of the handler. -/
structure RxState where
  bytes : List UInt8
  frameData : Nat
  copies : Nat
  done : List RxDisposal
  /-- A message was passed to a null queue. -/
  fault : Bool
  deriving DecidableEq

namespace RxState

/-- A byte of the frame. -/
def byteAt (f : RxState) (offset : Nat) : UInt8 := f.bytes.getD offset 0

/-- `lp->cmd` without `LLC_POLL_FINAL`. -/
def cmd (f : RxState) : UInt8 := f.byteAt (f.frameData + 2) &&& ~~~llcPollFinal

/-- `lp->ssap` says that the frame is a response. -/
def response (f : RxState) : Bool := f.byteAt (f.frameData + 1) &&& llcResponse != 0

/-- A message has found its end. -/
def dispose (f : RxState) (mp : Nat) (fate : RxFate) : RxState :=
  { f with done := f.done ++ [⟨mp, fate⟩] }

/-- `dlpi_putnext` to the stream's queue. -/
def putnext (f : RxState) (mp : Nat) (sp : RxReceiver) (rptr : RxPointer) : RxState :=
  match sp.index with
  | some index => f.dispose mp (.up index rptr)
  | none => { f with fault := true }

/-- `dlpi_send_dl_unitdata_ind`. -/
def unitdataInd (f : RxState) (mp : Nat) (sp : RxReceiver) : RxState :=
  if sp.calls.allocb = false then f.dispose mp .freed
  else if sp.calls.rejected then f.dispose mp .freed
  -- `frame_data` points into message 0
  else f.putnext mp sp ⟨0, f.frameData⟩

/-- `dlpi_send_dl_xid_ind`, `_xid_con`, `_test_ind` and `_test_con`. -/
def xidTestInd (f : RxState) (mp : Nat) (sp : RxReceiver) : RxState :=
  if sp.calls.allocb = false then f.dispose mp .freed
  else f.putnext mp sp ⟨mp, 0⟩

def sendLlcResponse (f : RxState) (issuspended : Bool) (mp : Nat) (sp : RxReceiver) : RxState :=
  if issuspended then f.dispose mp .freed
  else if sp.calls.allocb = false then f.dispose mp .freed
  else if sp.calls.noHeader then f.dispose mp .freed
  else f.dispose mp .back

/-- The header of a response, made in the frame. -/
def turnHeader (f : RxState) (sap : Nat) : RxState :=
  { f with
    bytes := (f.bytes.set f.frameData (f.byteAt (f.frameData + 1))).set
        (f.frameData + 1) (UInt8.ofNat sap ||| llcResponse) }

/-- The information field of an XID response. -/
def xidInfo (f : RxState) (infoBelow : Bool) : RxState :=
  if infoBelow then
    { f with
      bytes := ((f.bytes.set (f.frameData + 3) 0x81).set
          (f.frameData + 4) 0x80).set (f.frameData + 5) 0 }
  else f

def processXidFrame (f : RxState) (issuspended : Bool) (mp : Nat) (sp : RxReceiver)
    (r : Bool) : RxState :=
  if r then
    if sp.sap.autoXid then f else f.xidTestInd mp sp
  else if sp.sap.autoXid then
    ((f.turnHeader sp.sap.sap).xidInfo (if mp = 0 then decide (f.frameData + 3 < f.bytes.length)
        else sp.calls.infoBelow)).sendLlcResponse issuspended mp sp
  else f.xidTestInd mp sp

def processTestFrame (f : RxState) (issuspended : Bool) (mp : Nat) (sp : RxReceiver)
    (r : Bool) : RxState :=
  if r then
    if sp.sap.autoTest then f else f.xidTestInd mp sp
  else if sp.sap.autoTest then
    (f.turnHeader sp.sap.sap).sendLlcResponse issuspended mp sp
  else f.xidTestInd mp sp

def llcRx (f : RxState) (issuspended : Bool) (mp : Nat) (sp : RxReceiver) : RxState :=
  if f.cmd = llcCmdUi then
    ({ f with
      frameData := f.frameData + llcHeaderSize +
          if sp.sap.sapType = .snap then snapHeaderSize else 0 } :
      RxState).unitdataInd mp sp
  else if f.cmd = llcCmdXid then
    f.processXidFrame issuspended mp sp f.response
  else if f.cmd = llcCmdTest then
    f.processTestFrame issuspended mp sp f.response
  else f.dispose mp .freed

/-- A message for a stream. -/
def deliver (f : RxState) (issuspended : Bool) (mp : Nat) (sp : RxReceiver) : RxState :=
  if sp.sap.llc1 then f.llcRx issuspended mp sp else f.unitdataInd mp sp

/-- The loop over the other streams of a frame for all LLC streams. -/
def copyLoop (multicast issuspended : Bool) (f : RxState) : List RxReceiver → RxState
  | [] => f
  | sp1 :: rest =>
    if multicast ∧ ¬ sp1.calls.mcaSet then
      copyLoop multicast issuspended f rest
    else if sp1.calls.copymsg = false then f
    else
      let copied := { f with copies := f.copies + 1 }
      if sp1.calls.canput = false then
        -- the copy stays behind
        copyLoop multicast issuspended copied rest
      else
        copyLoop multicast issuspended (copied.deliver issuspended copied.copies sp1) rest

end RxState

namespace RxInput

/-- The streams of a kind in the order of `sap_table`. -/
def findsaps (input : RxInput) (isKind : RxSap → Bool) : List RxReceiver :=
  (input.sapTable.zipIdx.filter fun entry =>
    entry.1.bound && isKind entry.1).map fun entry =>
      ⟨some entry.2, entry.1, input.outcomes entry.2⟩

def dlpiFindsap (input : RxInput) (sapType : FrameType) (sap : Nat) : Option RxReceiver :=
  (input.findsaps fun sp => sp.sapType == sapType && sp.sap == sap).head?

def dlpiFindsnapsap (input : RxInput) (protId sap : Nat) : Option RxReceiver :=
  (input.findsaps fun sp =>
    sp.sapType == .snap && sp.sapProtid == protId && sp.sap == sap).head?

def snapByte (input : RxInput) (offset : Nat) : Nat := (input.frame.bytes.getD
    (input.frame.frameData + llcHeaderSize + offset) 0).toNat

/--
`dlpi_findfirstllcsap`, followed by what `dlpi_findnextllcsap` finds from there on.
-/
def llcSaps (input : RxInput) : List RxReceiver :=
  if input.frame.frameSap = 0xFF then
    input.findsaps fun sp => sp.sapType == .llc
  else if input.frame.frameSap = 0xAA then
    (input.dlpiFindsnapsap (input.snapByte 0 + 2 ^ 8 * input.snapByte 1 + 2 ^ 16 * input.snapByte 2)
      (2 ^ 8 * input.snapByte 3 + input.snapByte 4)).toList
  else
    match input.dlpiFindsap .llc input.frame.frameSap with
    | some sp => [sp]
    | none => (input.dlpiFindsap .llc 0xfffffffe).toList

/-- The stream that answers frames for the null DSAP. -/
def nullReceiver (input : RxInput) : RxReceiver :=
  ⟨none, ⟨true, .llc, 0, 0, true, false, true⟩, input.nullOutcomes⟩

def start (input : RxInput) : RxState := ⟨input.frame.bytes, input.frame.frameData, 0, [], false⟩

/-- A multicast frame whose address is not set for a stream. -/
def unwanted (input : RxInput) (sp : RxReceiver) : Bool := input.frame.multicast && !sp.calls.mcaSet

def nullDsap (input : RxInput) : RxState :=
  let f := input.start
  if f.cmd = llcCmdXid ∨ f.cmd = llcCmdTest then
    if input.nullCounters then
      f.llcRx input.issuspended 0 input.nullReceiver
    else f
  else f

/-- `mdi_primitive_handler` for `M_DATA`, and the `freemsg` of `dlpilrsrv`. -/
def mdiPrimitiveHandler (input : RxInput) : RxState :=
  let f := input.start
  match input.frame.frameType with
  | .etherII | .xns =>
    match input.dlpiFindsap input.frame.frameType input.frame.frameSap with
    | none => f.dispose 0 .freed
    | some sp =>
      if input.unwanted sp then f.dispose 0 .freed
      else if sp.calls.canput = false then f.dispose 0 .freed
      else f.unitdataInd 0 sp
  | .llc =>
    if input.frame.frameSap = 0 then input.nullDsap
    else
      match input.llcSaps with
      | [] => f.dispose 0 .freed
      | sp :: others =>
        let f := f.copyLoop input.frame.multicast input.issuspended others
        if sp.calls.canput = false then f.dispose 0 .freed
        else if input.unwanted sp then f.dispose 0 .freed
        else f.deliver input.issuspended 0 sp
  | _ => f.dispose 0 .freed

end RxInput

/-- The streams that a frame is for. -/
def RxInput.selected (input : RxInput) : List RxReceiver :=
  let found :=
    match input.frame.frameType with
    | .etherII | .xns => (input.dlpiFindsap input.frame.frameType input.frame.frameSap).toList
    | .llc => if input.frame.frameSap = 0 then [] else input.llcSaps
    | _ => []
  found.filter fun sp => !input.unwanted sp

/-- Where the data begins for a stream, behind the headers that its mode strips. -/
def RxInput.dataStart (input : RxInput) (sp : RxSap) : Nat := input.frame.frameData +
    if input.frame.frameType = .llc ∧ sp.llc1 then
      llcHeaderSize + if sp.sapType = .snap then snapHeaderSize else 0
    else 0

/-- The stream of an indication. -/
def RxDisposal.stream (disposal : RxDisposal) : Option Nat :=
  match disposal.fate with
  | .up index _ => some index
  | _ => none

/-- What the handling of a frame promises. -/
structure RxWell (input : RxInput) (result : RxState) : Prop where
  /-- The message and every copy find exactly one end. -/
  disposed : (result.done.map RxDisposal.mp).Perm (List.range (result.copies + 1))
  /-- A stream gets one indication at most. -/
  once : (result.done.filterMap RxDisposal.stream).Nodup
  /-- Indications go to selected streams, and their data is that of the frame. -/
  indicated : ∀ disposal ∈ result.done, ∀ index rptr, disposal.fate = .up index rptr →
      ∃ sp ∈ input.selected, sp.index = some index ∧ rptr = ⟨disposal.mp, input.dataStart sp.sap⟩
  /-- No message was passed to a null queue. -/
  fault : result.fault = false

end Uw7.Dlpi
