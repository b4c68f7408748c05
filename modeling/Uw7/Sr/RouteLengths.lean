import Uw7.Sr.RouteTableRuns
import Uw7.Sr.WaitTable

namespace Uw7.Sr

/-!
# The lengths of received routes

`DL_UNITDATA_IND` and `DL_TEST_CON` in `srrput` from `io/sr/sr_str.c`.  The route lies
behind the address in a message, and its length is that of the address without
`std_addr_length`.
-/

open Lib Function List Nat

def ipSap : Nat := 0x800

/-- `srdev_t` without its queue. -/
structure Srdev where
  macaddr : Macaddr
  stdAddrLength : Fin (2 ^ 32)
  srSap : Nat

def ulongAt (message : ByteMemory) (index : Nat) : Nat := message.readLe (4 * index) 4

/-- The address at an offset. -/
def macaddrAt (message : ByteMemory) (srcaddr : Nat) : Macaddr := fun i => message (srcaddr + i)

/-- `SOURCE_ROUTE_BIT` is cleared in the first byte of an address. -/
def clearSourceRoute (message : ByteMemory) (srcaddr : Nat) : ByteMemory :=
  update message srcaddr (message srcaddr &&& 0x7F)

def srSizeOf (dlSrcAddrLength stdAddrLength : Nat) : Int :=
  Int.bmod (dlSrcAddrLength - stdAddrLength) (2 ^ 32)

def srRouteAt (srcaddr stdAddrLength : Nat) : Nat := (srcaddr + stdAddrLength) % 2 ^ 32

/-- The broadcast bits are cleared and the direction bit is flipped, if there is a route. -/
def directRoute (message : ByteMemory) (srRoute : Nat) (srSize : Int) : ByteMemory :=
  if 0 < srSize then
    let message := update message srRoute (message srRoute &&& 0x1F)
    update message (srRoute + 1) (message (srRoute + 1) ^^^ 0x80)
  else message

/-- A call of the route table or the wait table. -/
structure SrCall where
  macaddr : Macaddr
  srRoute : ByteMemory
  srSize : Int

def srrputUnitdataInd (srp : Srdev) (message : ByteMemory) : ByteMemory × Option SrCall :=
  let srcaddr := ulongAt message 4
  let message := clearSourceRoute message srcaddr
  let srSize := srSizeOf (ulongAt message 3) srp.stdAddrLength.val
  let message := message.writeLe 12 srp.stdAddrLength.val 4
  if srp.srSap = ipSap ∨ macaddrAt message srcaddr = srp.macaddr then (message, none)
  else
    let srRoute := srRouteAt srcaddr srp.stdAddrLength.val
    let message := directRoute message srRoute srSize
    (message, some ⟨macaddrAt message srcaddr, message.view srRoute, srSize⟩)

/-- `DL_TEST_CON` in `srrput`: the call of `sr_setup_route_info`. -/
def srrputTestCon (srp : Srdev) (message : ByteMemory) : SrCall :=
  let srcaddr := ulongAt message 5
  let message := clearSourceRoute message srcaddr
  let srSize := srSizeOf (ulongAt message 4) srp.stdAddrLength.val
  let srRoute := srRouteAt srcaddr srp.stdAddrLength.val
  let message := directRoute message srRoute srSize
  ⟨macaddrAt message srcaddr, message.view srRoute, srSize⟩

/-- The messages that bring routes. -/
inductive SrPrimitive where
  | unitdataInd
  | testCon

/-- Where `dl_src_addr_length` is, in front of `dl_src_addr_offset`. -/
def SrPrimitive.addrLength : SrPrimitive → Nat
  | .unitdataInd => 3
  | .testCon => 4

/-- The source address lies in the message, behind the six fields. -/
def SrPrimitive.Inside (primitive : SrPrimitive) (message : ByteMemory) (length : Nat) : Prop :=
  24 ≤ ulongAt message (primitive.addrLength + 1) ∧
    ulongAt message (primitive.addrLength + 1) + ulongAt message primitive.addrLength ≤ length ∧
    length < 2 ^ 32

/-- A byte of a route with the direction bit flipped and the broadcast bits cleared. -/
def directedByte (index : Nat) (byte : Byte) : Byte :=
  if index = 0 then byte &&& 0x1F else if index = 1 then byte ^^^ 0x80 else byte

def routeBehind (message : ByteMemory) (srcaddr dlSrcAddrLength stdAddrLength : Nat) : List Byte :=
  (range (dlSrcAddrLength - stdAddrLength)).map fun i =>
    directedByte i (message (srcaddr + stdAddrLength + i))

/-- The route that a message brought, directed. -/
def receivedRoute (primitive : SrPrimitive) (srp : Srdev) (message : ByteMemory) : List Byte :=
  routeBehind message (ulongAt message (primitive.addrLength + 1))
    (ulongAt message primitive.addrLength) srp.stdAddrLength.val

/-- The length that is passed is within bounds, and the bytes are those of a route. -/
def SrCall.Brings (call : SrCall) (route : List Byte) : Prop :=
  (0 ≤ call.srSize ∧ call.srSize ≤ maxRouteSize) ∧ routeBytes call.srRoute call.srSize = route

/-- Once the call is accepted, a look-up finds the route until another one is accepted for
the address or its route is deleted. -/
def SrCall.Inserts (call : SrCall) (route : List Byte) : Prop :=
  ∀ (isYoung : Nat → Nat → Bool) (garbage : Nat → SrElem) (clock : Option Nat) (memory : Bool)
    (earlier later : List (SrTableAction × Bool)) (final : SrTable),
    Run (Guarded (SrTableStep isYoung) fun _ label => SizeFits label.1) (.srTabInit garbage)
      (earlier ++ (.insert clock call.macaddr call.srRoute call.srSize memory, true) :: later)
      final →
    (∀ label ∈ later, ∀ recorded, record recorded label call.macaddr = recorded call.macaddr) →
    ∃ elem, final.srTabLookup call.macaddr = some elem ∧ elem ≠ 0 ∧ (final.elems elem).route = route

/-- An entry that waits for the address gets the route. -/
def SrCall.SetsUp (call : SrCall) (route : List Byte) : Prop :=
  ∀ (number : Macaddr → Nat) (state : SrState) (elem : Fin maxWaitTabSize),
    firstElem (fun elem => (state.tab elem).srState.waits &&
      decide ((state.tab elem).srWaitMacaddr = number call.macaddr)) = some elem →
    ((state.srSetupRouteInfo (number call.macaddr)
      ((routeBytes call.srRoute call.srSize).map Fin.val)).tab elem).route = route.map Fin.val

/-- What is passed on of a message is the route that it brought, and so is what is appended. -/
def SrPrimitive.Right (srp : Srdev) (message : ByteMemory) : SrPrimitive → Prop
  | .unitdataInd => ∀ call, (srrputUnitdataInd srp message).2 = some call →
    call.Brings (receivedRoute .unitdataInd srp message) ∧
      call.Inserts (receivedRoute .unitdataInd srp message)
  | .testCon => (srrputTestCon srp message).Brings (receivedRoute .testCon srp message) ∧
    (srrputTestCon srp message).SetsUp (receivedRoute .testCon srp message)

/-- A message for IP, or from the station itself, is not looked at. -/
def SrPrimitive.Ignores (srp : Srdev) (message : ByteMemory) : SrPrimitive → Prop
  | .unitdataInd => srp.srSap = ipSap ∨
    macaddrAt (clearSourceRoute message (ulongAt message 4)) (ulongAt message 4) = srp.macaddr
  | .testCon => False

/-- The address is as long as the standard one, or longer by a route of at most 18 bytes. -/
def SrPrimitive.LengthFits (primitive : SrPrimitive) (srp : Srdev) (message : ByteMemory) : Prop :=
  srp.stdAddrLength.val ≤ ulongAt message primitive.addrLength ∧
    ulongAt message primitive.addrLength ≤ srp.stdAddrLength.val + maxRouteSize

theorem and_broadcast (byte : Byte) : (byte &&& 0x7F) &&& 0x1F = byte &&& 0x1F := by
  apply Fin.ext
  change ((byte.val &&& 0x7F) % 256 &&& 0x1F) % 256 = (byte.val &&& 0x1F) % 256
  rw [mod_eq_of_lt (and_lt_two_pow _ (by decide : 0x7F < 2 ^ 8)), Nat.and_assoc]
  rfl

variable {message : ByteMemory} {srcaddr index : Nat} {call : SrCall} {route : List Byte}

theorem directRoute_view {changed : ByteMemory} {stdAddrLength srRoute : Nat} {srSize : Int}
    (behind : 24 ≤ srcaddr) (isRoute : srRoute = srcaddr + stdAddrLength)
    (isMessage : ∀ target, 24 ≤ target → changed target = clearSourceRoute message srcaddr target)
    (below : index < srSize.toNat) :
    (directRoute changed srRoute srSize).view srRoute index =
      directedByte index (message (srRoute + index)) := by
  have positive : 0 < srSize := by omega
  rw [ByteMemory.view, directRoute, if_pos positive]
  rcases index with - | - | index
  · simp only [Nat.add_zero]
    rw [update_of_ne (by omega), update_self, isMessage _ (by omega), directedByte, if_pos rfl]
    by_cases isSource : srRoute = srcaddr
    · rw [isSource, clearSourceRoute, update_self, and_broadcast]
    · rw [clearSourceRoute, update_of_ne isSource]
  · rw [update_self, update_of_ne (by omega), isMessage _ (by omega),
      clearSourceRoute, update_of_ne (by omega)]
    rfl
  · rw [update_of_ne (by omega), update_of_ne (by omega),
      isMessage _ (by omega), clearSourceRoute, update_of_ne (by omega)]
    rfl

theorem brings_iff {message changed : ByteMemory} {srcaddr stdAddrLength dlSrcAddrLength : Nat}
    {call : SrCall} (behind : 24 ≤ srcaddr) (inside : srcaddr + dlSrcAddrLength < 2 ^ 32)
    (isUlong : stdAddrLength < 2 ^ 32)
    (isMessage : ∀ target, 24 ≤ target → changed target = clearSourceRoute message srcaddr target)
    (size : call.srSize = srSizeOf dlSrcAddrLength stdAddrLength)
    (bytes : call.srRoute = (directRoute changed (srRouteAt srcaddr stdAddrLength)
      (srSizeOf dlSrcAddrLength stdAddrLength)).view (srRouteAt srcaddr stdAddrLength)) :
    call.Brings (routeBehind message srcaddr dlSrcAddrLength stdAddrLength) ↔
      stdAddrLength ≤ dlSrcAddrLength ∧ dlSrcAddrLength ≤ stdAddrLength + maxRouteSize := by
  simp only [SrCall.Brings, maxRouteSize, size]
  constructor
  · rintro ⟨⟨nonneg, fits⟩, sameBytes⟩
    have sameLength := congrArg List.length sameBytes
    simp only [routeBytes, routeBehind, length_map, length_range] at sameLength
    simp only [srSizeOf, Int.bmod] at nonneg fits sameLength
    split at sameLength <;> omega
  · rintro ⟨covers, fits⟩
    have isSize : srSizeOf dlSrcAddrLength stdAddrLength =
        (dlSrcAddrLength - stdAddrLength : Nat) := by
      simp only [srSizeOf, Int.bmod]
      split <;> omega
    have isRoute : srRouteAt srcaddr stdAddrLength = srcaddr + stdAddrLength :=
      mod_eq_of_lt (by omega)
    refine ⟨by rw [isSize]; omega, ?_⟩
    rw [bytes, routeBytes, routeBehind, isSize, Int.toNat_natCast]
    refine map_congr_left fun index listed => ?_
    rw [directRoute_view behind isRoute isMessage (by simpa using listed), isRoute]

theorem ulongAt_clearSourceRoute (behind : 24 ≤ srcaddr) (isField : index < 6) :
    ulongAt (clearSourceRoute message srcaddr) index = ulongAt message index :=
  ByteMemory.readLe_congr fun _ _ below => update_of_ne (by omega) ..

theorem SrCall.Brings.inserts (brings : call.Brings route) : call.Inserts route := by
  intro isYoung garbage clock memory earlier later final run leaves
  obtain ⟨chains, kept⟩ := SrTable.kept_of_run run
  have accepted : lastAccepted (earlier ++
      (.insert clock call.macaddr call.srRoute call.srSize memory, true) :: later) call.macaddr =
      some route := by
    rw [lastAccepted, foldl_append, foldl_cons]
    generalize earlier.foldl record _ = before
    have newest : record before
        (.insert clock call.macaddr call.srRoute call.srSize memory, true) call.macaddr =
        some route := (update_self ..).trans (congrArg some brings.2)
    generalize record before _ = recorded at newest ⊢
    clear run kept
    induction later generalizing recorded with
    | nil => exact newest
    | cons label rest ih =>
      exact ih (fun other member => leaves other (mem_cons_of_mem _ member))
        _ ((leaves label mem_cons_self recorded).trans newest)
  obtain ⟨elem, member, isMac, found⟩ | ⟨absent, found⟩ := kept.srTabLookup call.macaddr
  · refine ⟨elem, found, kept.ne_zero member, ?_⟩
    have isRoute := (kept.listed _ elem member).route
    rw [isMac, accepted] at isRoute
    exact (Option.some.inj isRoute).symm
  · have missing := kept.missing call.macaddr absent
    rw [accepted] at missing
    cases missing

theorem SrCall.Brings.setsUp (brings : call.Brings route) : call.SetsUp route := by
  intro number state elem found
  simp only [SrState.srSetupRouteInfo, found, SrState.setElem, update_self,
    SrWaitElem.route, take_left', brings.2]

theorem SrPrimitive.right_iff {primitive : SrPrimitive} {srp : Srdev} {length : Nat}
    (inside : primitive.Inside message length) :
    primitive.Right srp message ↔
      primitive.Ignores srp message ∨ primitive.LengthFits srp message := by
  obtain ⟨behind, ends, isUlong⟩ := inside
  have isField : primitive.addrLength + 1 < 6 := by cases primitive <;> decide
  have sameLength : ulongAt (clearSourceRoute message (ulongAt message (primitive.addrLength + 1)))
      primitive.addrLength = ulongAt message primitive.addrLength :=
    ulongAt_clearSourceRoute behind (by omega)
  cases primitive with
  | unitdataInd =>
    simp only [SrPrimitive.addrLength, reduceAdd] at behind ends sameLength
    have below : ulongAt message 4 + ulongAt message 3 < 2 ^ 32 := by omega
    have isMessage : ∀ target, 24 ≤ target →
        (clearSourceRoute message (ulongAt message 4)).writeLe 12 srp.stdAddrLength.val 4 target =
          clearSourceRoute message (ulongAt message 4) target :=
      fun target behind => ByteMemory.writeLe_outside (by omega)
    have isMac : macaddrAt ((clearSourceRoute message (ulongAt message 4)).writeLe 12
        srp.stdAddrLength.val 4) (ulongAt message 4) =
        macaddrAt (clearSourceRoute message (ulongAt message 4)) (ulongAt message 4) :=
      funext fun i => isMessage _ (by omega)
    simp only [SrPrimitive.Right, srrputUnitdataInd, sameLength, isMac]
    by_cases ignores : SrPrimitive.unitdataInd.Ignores srp message
    · have ignored := ignores
      simp only [SrPrimitive.Ignores] at ignored
      simp [ignored, ignores]
    · have looked := ignores
      simp only [SrPrimitive.Ignores] at looked
      rw [if_neg looked, or_iff_right ignores]
      refine ⟨fun right => ?_, fun fits call isCall => ?_⟩
      · exact (brings_iff behind below srp.stdAddrLength.isLt isMessage rfl rfl).1 (right _ rfl).1
      · have isCall := Option.some.inj isCall
        have brings : call.Brings (receivedRoute .unitdataInd srp message) :=
          (brings_iff behind below srp.stdAddrLength.isLt isMessage (by rw [← isCall])
            (by rw [← isCall])).2 fits
        exact ⟨brings, brings.inserts⟩
  | testCon =>
    simp only [SrPrimitive.addrLength, reduceAdd] at behind ends sameLength
    simp only [SrPrimitive.Right, srrputTestCon, sameLength, SrPrimitive.Ignores, false_or]
    have below : ulongAt message 5 + ulongAt message 4 < 2 ^ 32 := by omega
    have iff := @brings_iff message _ _ _ _ (srrputTestCon srp message) behind below
      srp.stdAddrLength.isLt (fun _ _ => rfl) (by rw [srrputTestCon, sameLength])
      (by rw [srrputTestCon, sameLength])
    simp only [srrputTestCon, sameLength] at iff
    exact ⟨fun right => iff.1 right.1, fun fits => ⟨iff.2 fits, (iff.2 fits).setsUp⟩⟩

theorem srrput_right (primitive : SrPrimitive) (srp : Srdev) (message : ByteMemory) (length : Nat)
    (inside : primitive.Inside message length) :
    primitive.Right srp message ↔
      primitive.Ignores srp message ∨ primitive.LengthFits srp message :=
  SrPrimitive.right_iff inside

/-- A `DL_TEST_CON` with an address of some length behind its fields. -/
def testConOf (dlSrcAddrLength : Nat) : ByteMemory :=
  (ByteMemory.writeLe (fun _ => 0) 16 dlSrcAddrLength 4).writeLe 20 24 4

/-- A station with addresses of seven bytes. -/
def sevenBytes : Srdev := ⟨fun _ => 1, 7, 0xAA⟩

theorem srrput_right_longest : SrPrimitive.testCon.Right sevenBytes (testConOf 25) := by
  have inside : SrPrimitive.testCon.Inside (testConOf 25) 49 := by
    unfold SrPrimitive.Inside
    decide
  refine (srrput_right _ sevenBytes (testConOf 25) 49 inside).2 (.inr ?_)
  unfold SrPrimitive.LengthFits
  decide

theorem srrput_overlong : ∃ length, SrPrimitive.testCon.Inside (testConOf 27) length ∧
    ¬ SrPrimitive.testCon.Right sevenBytes (testConOf 27) := by
  have inside : SrPrimitive.testCon.Inside (testConOf 27) 51 := by
    unfold SrPrimitive.Inside
    decide
  refine ⟨51, inside, fun right => ?_⟩
  obtain ignores | fits := (SrPrimitive.right_iff inside).1 right
  · exact ignores
  · unfold SrPrimitive.LengthFits at fits
    revert fits
    decide

end Uw7.Sr
