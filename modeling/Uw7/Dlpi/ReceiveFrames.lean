import Uw7.Dlpi.ReceiveDelivery

namespace Uw7.Dlpi

/-!
# Received frames from end to end

The result of `mdi_primitive_handler` for every frame: what the streams of a frame
have in common, what a well handled frame looks like, and what is left of one that
was not.
-/

open List

section Streams

variable {input : RxInput} {sp : RxReceiver}

theorem findsaps_entry {isKind : RxSap → Bool} (isFound : sp ∈ input.findsaps isKind) :
    ∃ index, sp.index = some index ∧ input.sapTable[index]? = some sp.sap := by
  obtain ⟨entry, isEntry, rfl⟩ := mem_map.mp isFound
  have inTable := (mem_filter.mp isEntry).1
  exact ⟨entry.2, rfl, List.mem_zipIdx_iff_getElem?.mp inTable⟩

theorem findsaps_head {isKind : RxSap → Bool} (isFirst : (input.findsaps isKind).head? = some sp) :
    sp ∈ input.findsaps isKind :=
  List.mem_of_head? isFirst

theorem llcSaps_entry (isFound : sp ∈ input.llcSaps) :
    ∃ index, sp.index = some index ∧ input.sapTable[index]? = some sp.sap := by
  unfold RxInput.llcSaps at isFound
  split at isFound
  · exact findsaps_entry isFound
  · split at isFound
    · exact findsaps_entry (findsaps_head (Option.mem_toList.mp isFound))
    · split at isFound
      · rename_i first isFirst
        rw [mem_singleton.mp isFound]
        exact findsaps_entry (findsaps_head isFirst)
      · exact findsaps_entry (findsaps_head (Option.mem_toList.mp isFound))

theorem llcSaps_sap {other : RxReceiver} {index : Nat} (isFound : sp ∈ input.llcSaps)
    (otherFound : other ∈ input.llcSaps) (isIndex : sp.index = some index)
    (otherIndex : other.index = some index) :
    sp.sap = other.sap := by
  obtain ⟨place, isPlace, entry⟩ := llcSaps_entry isFound
  obtain ⟨otherPlace, isOtherPlace, otherEntry⟩ := llcSaps_entry otherFound
  rw [isIndex] at isPlace
  rw [otherIndex] at isOtherPlace
  cases isPlace
  cases isOtherPlace
  rw [entry] at otherEntry
  exact Option.some.inj otherEntry

end Streams

section Well

variable {input : RxInput} {result : RxState}

theorem rxWell_of_copiesFreed {number : Nat} {fate : RxFate} (done :
    result.done = (input.start.copiesFreed number).done ++ [⟨0, fate⟩])
    (copies : result.copies = number)
    (fault : result.fault = false)
    (indicated : ∀ index rptr, fate = .up index rptr →
      ∃ sp ∈ input.selected, sp.index = some index ∧ rptr = ⟨0, input.dataStart sp.sap⟩) :
    RxWell input result := by
  have doneList : result.done = ((range number).map fun k => (⟨1 + k, .freed⟩ : RxDisposal)) ++
      [⟨0, fate⟩] := by
    rw [done]
    simp [RxState.copiesFreed, RxInput.start]
  constructor
  case disposed =>
    rw [doneList, copies, range_succ_eq_map, map_append, map_map]
    have copyNumbers : (range number).map
        (RxDisposal.mp ∘ fun k => (⟨1 + k, .freed⟩ : RxDisposal)) =
        (range number).map Nat.succ := by
      apply map_congr_left
      intro k _
      exact Nat.add_comm 1 k
    rw [copyNumbers]
    exact perm_append_singleton 0 _
  case once =>
    rw [doneList, filterMap_append, filterMap_map]
    have noStream : (range number).filterMap
        (RxDisposal.stream ∘ fun k => (⟨1 + k, .freed⟩ : RxDisposal)) =
        [] := by
      rw [filterMap_eq_nil_iff]
      intro k _
      rfl
    rw [noStream, nil_append]
    cases fate with
    | freed | back => exact nodup_nil
    | up index rptr => exact nodup_singleton index
  case indicated =>
    intro disposal isDone index rptr isUp
    rw [doneList, mem_append] at isDone
    rcases isDone with isCopy | isLast
    · obtain ⟨k, _, rfl⟩ := mem_map.mp isCopy
      cases isUp
    · rw [mem_singleton] at isLast
      subst isLast
      exact indicated index rptr isUp
  case fault => exact fault

theorem rxWell_freed {number : Nat} :
    RxWell input ((input.start.copiesFreed number).dispose 0 .freed) :=
  rxWell_of_copiesFreed rfl (Nat.zero_add number) rfl (by simp)

theorem rxWell_freed_alone : RxWell input (input.start.dispose 0 .freed) := by
  have well := @rxWell_freed input 0
  exact well

theorem rxWell_of_endsWell {number : Nat} {sp : RxReceiver} (ends :
    EndsWell 0 sp ⟨0, input.dataStart sp.sap⟩ (input.start.copiesFreed number) result)
    (isSelected : sp ∈ input.selected) :
    RxWell input result := by
  obtain ⟨fate, done, up⟩ := ends.done
  refine rxWell_of_copiesFreed done (ends.copies.trans (Nat.zero_add number)) ends.fault ?_
  intro index rptr isUp
  obtain ⟨isIndex, isData⟩ := up index rptr isUp
  exact ⟨sp, isSelected, isIndex, isData⟩

end Well

section OneStream

variable {input : RxInput}

theorem rxWell_findsap (notLlc : input.frame.frameType ≠ .llc) :
    RxWell input input.mdiPrimitiveHandler := by
  unfold RxInput.mdiPrimitiveHandler
  have oneStream : ∀ sp, input.dlpiFindsap input.frame.frameType input.frame.frameSap = some sp →
      (input.frame.frameType = .etherII ∨ input.frame.frameType = .xns) →
      RxWell input (if input.unwanted sp then input.start.dispose 0 .freed
        else if sp.calls.canput = false then input.start.dispose 0 .freed
        else input.start.unitdataInd 0 sp) := by
    intro sp isFound isKind
    split
    · exact rxWell_freed_alone
    · rename_i isWanted
      split
      · exact rxWell_freed_alone
      · obtain ⟨index, hasQueue, _⟩ := findsaps_entry (findsaps_head isFound)
        have ends := @endsWell_unitdataInd (input.start.copiesFreed 0) sp 0 index hasQueue
        refine @rxWell_of_endsWell input _ 0 sp ?_ ?_
        · unfold RxInput.dataStart
          rw [if_neg (fun isLlc => notLlc isLlc.1)]
          exact ends
        · apply mem_filter.mpr
          refine ⟨?_, by simpa using isWanted⟩
          rcases isKind with isKind | isKind
          · rw [isKind] at isFound
            rw [isKind]
            exact Option.mem_toList.mpr isFound
          · rw [isKind] at isFound
            rw [isKind]
            exact Option.mem_toList.mpr isFound
  cases isKind : input.frame.frameType with
  | etherII =>
    cases isFound : input.dlpiFindsap .etherII input.frame.frameSap with
    | none => exact rxWell_freed_alone
    | some sp => exact oneStream sp (by rw [isKind]; exact isFound) (.inl isKind)
  | xns =>
    cases isFound : input.dlpiFindsap .xns input.frame.frameSap with
    | none => exact rxWell_freed_alone
    | some sp => exact oneStream sp (by rw [isKind]; exact isFound) (.inr isKind)
  | llc => exact absurd isKind notLlc
  | snap | isdn => exact rxWell_freed_alone

theorem mdiPrimitiveHandler_null (isLlc : input.frame.frameType = .llc)
    (isNull : input.frame.frameSap = 0) :
    input.mdiPrimitiveHandler = input.nullDsap := by
  unfold RxInput.mdiPrimitiveHandler
  rw [isLlc]
  exact if_pos isNull

theorem rxWell_nullDsap (fine : input.NullFine) : RxWell input input.nullDsap := by
  obtain ⟨counters, kind⟩ := fine
  unfold RxInput.nullDsap
  have ends : EndsWell 0 input.nullReceiver ⟨1, 0⟩ (input.start.copiesFreed 0)
      (input.start.llcRx input.issuspended 0 input.nullReceiver) := by
    unfold RxState.llcRx
    rcases kind with ⟨isXid, noBlock⟩ | ⟨isTest, isCommand⟩
    · rw [isXid, if_neg (by decide), if_pos rfl]
      exact endsWell_processXidFrame noBlock
    · rw [isTest, if_neg (by decide), if_neg (by decide), if_pos rfl]
      exact endsWell_processTestFrame isCommand
  have isAnswered : input.start.cmd = llcCmdXid ∨ input.start.cmd = llcCmdTest :=
    kind.imp And.left And.left
  rw [if_pos isAnswered, if_pos counters]
  obtain ⟨fate, done, up⟩ := ends.done
  refine @rxWell_of_copiesFreed input _ 0 fate done ends.copies ends.fault ?_
  intro index rptr isUp
  obtain ⟨isIndex, _⟩ := up index rptr isUp
  cases isIndex

theorem RxWell.message_mem {result : RxState} (well : RxWell input result) :
    ∃ disposal ∈ result.done, disposal.mp = 0 := by
  have inRange : 0 ∈ range (result.copies + 1) := mem_range.mpr (Nat.succ_pos _)
  exact mem_map.mp (well.disposed.mem_iff.mpr inRange)

theorem nullFine_of_rxWell (well : RxWell input input.nullDsap) : input.NullFine := by
  have stays : ¬ RxWell input input.start := by
    intro wellStart
    obtain ⟨_, isDone, _⟩ := wellStart.message_mem
    cases isDone
  unfold RxInput.nullDsap at well
  dsimp only at well
  split at well
  · rename_i isAnswered
    split at well
    · rename_i counters
      refine ⟨counters, ?_⟩
      unfold RxState.llcRx at well
      rcases isAnswered with isXid | isTest
      · left
        refine ⟨isXid, ?_⟩
        by_contra block
        rw [isXid, if_neg (by decide), if_pos rfl] at well
        have fault := well.fault
        simp [RxState.processXidFrame, RxState.xidTestInd,
          RxState.putnext, RxInput.nullReceiver, block] at fault
      · right
        refine ⟨isTest, ?_⟩
        by_contra isResponse
        rw [isTest, if_neg (by decide), if_neg (by decide), if_pos rfl] at well
        simp only [RxState.processTestFrame, RxInput.nullReceiver, isResponse, if_true] at well
        exact stays well
    · exact absurd well stays
  · exact absurd well stays

end OneStream

section LlcStreams

variable {input : RxInput} {sp : RxReceiver} {others : List RxReceiver}

/-- The handler for LLC streams, once the copies were made. -/
def RxInput.lastDelivery (input : RxInput) (sp : RxReceiver) (f : RxState) : RxState :=
  if sp.calls.canput = false then f.dispose 0 .freed
  else if input.unwanted sp then f.dispose 0 .freed
  else f.deliver input.issuspended 0 sp

theorem mdiPrimitiveHandler_llc (isLlc : input.frame.frameType = .llc)
    (notNull : input.frame.frameSap ≠ 0) (isFound : input.llcSaps = sp :: others) :
    input.mdiPrimitiveHandler = input.lastDelivery sp
      (input.start.copyLoop input.frame.multicast input.issuspended others) := by
  unfold RxInput.mdiPrimitiveHandler
  rw [isLlc]
  dsimp only
  rw [if_neg notNull, isFound]
  rfl

theorem delivers_lastDelivery {f : RxState} : Delivers 0 f (input.lastDelivery sp f) := by
  unfold RxInput.lastDelivery
  split_ifs
  · exact ⟨.inr ⟨_, rfl⟩, rfl⟩
  · exact ⟨.inr ⟨_, rfl⟩, rfl⟩
  · exact delivers_deliver

theorem llcSaps_selected (isLlc : input.frame.frameType = .llc) (notNull : input.frame.frameSap ≠ 0)
    (isFound : sp ∈ input.llcSaps) (isWanted : input.unwanted sp = false) :
    sp ∈ input.selected := by
  unfold RxInput.selected
  rw [isLlc]
  rw [if_neg notNull]
  exact mem_filter.mpr ⟨isFound, by simp [isWanted]⟩

theorem selected_llcSaps (isLlc : input.frame.frameType = .llc) (notNull : input.frame.frameSap ≠ 0)
    (isSelected : sp ∈ input.selected) :
    sp ∈ input.llcSaps := by
  unfold RxInput.selected at isSelected
  rw [isLlc] at isSelected
  rw [if_neg notNull] at isSelected
  exact (mem_filter.mp isSelected).1

theorem dataStart_llc (isLlc : input.frame.frameType = .llc) : input.dataStart sp.sap =
    input.frame.frameData +
      if sp.sap.llc1 then llcStripped sp.sap else 0 := by
  unfold RxInput.dataStart llcStripped
  cases sp.sap.llc1 <;> simp [isLlc]

section

variable (isLlc : input.frame.frameType = .llc) (notNull : input.frame.frameSap ≠ 0)
  (isFound : input.llcSaps = sp :: others)
include isLlc notNull isFound

theorem rxWell_llc (harmless : ∀ sp1 ∈ input.copied others, input.start.Harmless sp1)
    (fits : sp.calls.canput = true → input.unwanted sp = false →
      sp.sap.llc1 = true → input.start.Fits sp) :
    RxWell input input.mdiPrimitiveHandler := by
  rw [mdiPrimitiveHandler_llc isLlc notNull isFound, copyLoop_harmless harmless]
  unfold RxInput.lastDelivery
  split
  · exact rxWell_freed
  · rename_i canput
    split
    · exact rxWell_freed
    · rename_i isWanted
      have inSaps : sp ∈ input.llcSaps := by
        rw [isFound]
        exact mem_cons_self
      obtain ⟨index, hasQueue, _⟩ := llcSaps_entry inSaps
      refine @rxWell_of_endsWell input _ (copiedFor input.frame.multicast others).length sp ?_
        (llcSaps_selected isLlc notNull inSaps (by simpa using isWanted))
      rw [dataStart_llc isLlc]
      have ends := @endsWell_deliver (input.start.copiesFreed
          (copiedFor input.frame.multicast others).length)
          sp 0 input.issuspended index hasQueue fun isLlc1 =>
            fits (by simpa using canput) (by simpa using isWanted) isLlc1
      exact ends

theorem not_rxWell_of_misplaced {f : RxState}
    (misplaced : RxState.Misplaced 0 input.frame.frameData others f) :
    ¬ RxWell input (input.lastDelivery sp f) := by
  intro well
  have last := @delivers_lastDelivery input sp f
  rcases misplaced with ⟨mp, isCopy, isMade, noEnd⟩ |
    ⟨disposal, isDone, sp1, isOther, index, rptr, isCopy, isUp, isIndex, wrong⟩
  · have inRange : mp ∈ range ((input.lastDelivery sp f).copies + 1) := by
      rw [last.copies]
      exact mem_range.mpr (Nat.lt_succ_of_le isMade)
    obtain ⟨disposal, isDone, isEnd⟩ := mem_map.mp (well.disposed.mem_iff.mpr inRange)
    rcases last.done with same | ⟨fate, one⟩
    · rw [same] at isDone
      exact noEnd disposal isDone isEnd
    · rw [one, mem_append, mem_singleton] at isDone
      rcases isDone with isOld | rfl
      · exact noEnd disposal isOld isEnd
      · change 0 = mp at isEnd
        omega
  · have stillDone : disposal ∈ (input.lastDelivery sp f).done := by
      rcases last.done with same | ⟨fate, one⟩
      · rw [same]
        exact isDone
      · rw [one]
        exact mem_append_left _ isDone
    obtain ⟨other, isSelected, otherIndex, isData⟩ :=
      well.indicated disposal stillDone index rptr isUp
    rcases wrong with inMessage | ⟨inCopy, isLlc1⟩
    · rw [inMessage] at isData
      have isMessage : 0 = disposal.mp := congrArg RxPointer.buffer isData
      omega
    · rw [inCopy] at isData
      have noStrip : 0 = input.dataStart other.sap := congrArg RxPointer.offset isData
      have sameSap : other.sap = sp1.sap := by
        refine llcSaps_sap (selected_llcSaps isLlc notNull isSelected) ?_ otherIndex isIndex
        rw [isFound]
        exact mem_cons_of_mem sp isOther
      rw [sameSap, dataStart_llc isLlc, isLlc1, if_pos rfl] at noStrip
      simp [llcStripped, llcHeaderSize] at noStrip
      omega

theorem not_rxWell_of_unfit {number : Nat} (canput : sp.calls.canput = true)
    (isWanted : input.unwanted sp = false) (isLlc1 : sp.sap.llc1 = true)
    (unfit : ¬ input.start.Fits sp) :
    ¬ RxWell input (input.lastDelivery sp (input.start.copiesFreed number)) := by
  intro well
  unfold RxInput.lastDelivery at well
  rw [if_neg (by simp [canput]), if_neg (by simp [isWanted])] at well
  have inSaps : sp ∈ input.llcSaps := by
    rw [isFound]
    exact mem_cons_self
  rcases @deliver_unfit (input.start.copiesFreed number) sp 0
    input.issuspended isLlc1 unfit with stays | isUp
  · rw [stays] at well
    obtain ⟨disposal, isDone, isMessage⟩ := well.message_mem
    simp only [RxState.copiesFreed, RxInput.start, nil_append, mem_map, mem_range] at isDone
    obtain ⟨k, _, rfl⟩ := isDone
    change 0 + 1 + k = 0 at isMessage
    omega
  · obtain ⟨index, hasQueue, _⟩ := llcSaps_entry inSaps
    rw [isUp, RxState.putnext, hasQueue] at well
    obtain ⟨other, isSelected, otherIndex, isData⟩ := well.indicated ⟨0, .up index ⟨0, 0⟩⟩
      (mem_append_right _ mem_cons_self) index ⟨0, 0⟩ rfl
    have noStrip : 0 = input.dataStart other.sap := congrArg RxPointer.offset isData
    have sameSap : other.sap = sp.sap :=
      llcSaps_sap (selected_llcSaps isLlc notNull isSelected) inSaps otherIndex hasQueue
    rw [sameSap, dataStart_llc isLlc, isLlc1, if_pos rfl] at noStrip
    simp [llcStripped, llcHeaderSize] at noStrip
    omega

end

end LlcStreams

/--
A frame that is fine is handled well, and when no copy changes the description of the
frame, no other frame is.
-/
theorem rxWell_iff_fine (input : RxInput) : (input.Fine → RxWell input input.mdiPrimitiveHandler) ∧
    (input.Untouched → RxWell input input.mdiPrimitiveHandler → input.Fine) := by
  constructor
  · intro fine
    by_cases isLlc : input.frame.frameType = .llc
    · have kinds := fine isLlc
      by_cases isNull : input.frame.frameSap = 0
      · rw [if_pos isNull] at kinds
        rw [mdiPrimitiveHandler_null isLlc isNull]
        exact rxWell_nullDsap kinds
      · rw [if_neg isNull] at kinds
        cases isFound : input.llcSaps with
        | nil =>
          unfold RxInput.mdiPrimitiveHandler
          rw [isLlc]
          dsimp only
          rw [if_neg isNull, isFound]
          exact rxWell_freed_alone
        | cons sp others =>
          obtain ⟨harmless, fits⟩ := kinds sp others isFound
          exact rxWell_llc isLlc isNull isFound harmless fits
    · exact rxWell_findsap isLlc
  · intro untouched well isLlc
    by_cases isNull : input.frame.frameSap = 0
    · rw [if_pos isNull]
      rw [mdiPrimitiveHandler_null isLlc isNull] at well
      exact nullFine_of_rxWell well
    · rw [if_neg isNull]
      intro sp others isFound
      rw [mdiPrimitiveHandler_llc isLlc isNull isFound] at well
      have harmless : ∀ sp1 ∈ input.copied others, input.start.Harmless sp1 := by
        by_contra harmful
        push Not at harmful
        have hasQueue : ∀ sp1 ∈ others, ∃ index, sp1.index = some index := by
          intro sp1 isOther
          have inSaps : sp1 ∈ input.llcSaps := by
            rw [isFound]
            exact mem_cons_of_mem sp isOther
          obtain ⟨index, isIndex, _⟩ := llcSaps_entry inSaps
          exact ⟨index, isIndex⟩
        have misplaced := @copyLoop_broken input.frame.multicast input.issuspended
            input.start others hasQueue (fun _ isDone => by cases isDone)
            (untouched isLlc isNull sp others isFound) harmful
        exact not_rxWell_of_misplaced isLlc isNull isFound misplaced well
      refine ⟨harmless, ?_⟩
      intro canput isWanted isLlc1
      by_contra unfit
      rw [copyLoop_harmless harmless] at well
      exact not_rxWell_of_unfit isLlc isNull isFound canput isWanted isLlc1 unfit well

/-- An LLC stream in mode `LLC_1`. -/
def boundLlc (sap : Nat) : RxSap := ⟨true, .llc, sap, 0, true, false, false⟩

/-- A UI frame with four bytes of data for the streams of a table. -/
def uiFrame (dsap : UInt8) (sapTable : List RxSap) : RxInput where
  frame := ⟨.llc, dsap.toNat, false, replicate 14 0 ++ [dsap, 0x40, 0x03, 1, 2, 3, 4], 14⟩
  sapTable := sapTable
  outcomes := fun _ => ⟨true, true, true, true, false, false, true⟩
  nullOutcomes := ⟨true, true, true, true, false, false, true⟩
  nullCounters := true
  issuspended := false

/-- One stream is bound to the SAP of a UI frame. -/
theorem rxWell_iff_fine_bound : (uiFrame 0x42 [boundLlc 0x44, boundLlc 0x42]).Fine ∧
    RxWell (uiFrame 0x42 [boundLlc 0x44, boundLlc 0x42])
      (uiFrame 0x42 [boundLlc 0x44, boundLlc 0x42]).mdiPrimitiveHandler := by
  have isFine : (uiFrame 0x42 [boundLlc 0x44, boundLlc 0x42]).Fine := by
    intro _ sp others isFound
    have oneStream : (uiFrame 0x42 [boundLlc 0x44, boundLlc 0x42]).llcSaps =
        [⟨some 1, boundLlc 0x42, ⟨true, true, true, true, false, false, true⟩⟩] := by
      decide
    cases isFound
    refine ⟨fun sp1 isCopied => (by cases isCopied), ?_⟩
    intro _ _ _
    exact ⟨fun isXid => absurd isXid (by decide), fun isTest => absurd isTest (by decide)⟩
  have well := (rxWell_iff_fine (uiFrame 0x42 [boundLlc 0x44, boundLlc 0x42])).1 isFine
  refine ⟨(rxWell_iff_fine _).2 ?_ well, well⟩
  intro _ _ sp others isFound sp1 isCopied
  have noOthers : others = [] := by
    have oneStream : (uiFrame 0x42 [boundLlc 0x44, boundLlc 0x42]).llcSaps.length = 1 := by decide
    rw [isFound] at oneStream
    exact length_eq_zero_iff.mp (Nat.succ.inj oneStream)
  rw [noOthers] at isCopied
  cases isCopied

theorem rxWell_fails_on_global_dsap :
    (uiFrame 0xFF [boundLlc 0x44, boundLlc 0x42]).mdiPrimitiveHandler.done =
      [⟨1, .up 1 ⟨0, 17⟩⟩, ⟨0, .up 0 ⟨0, 20⟩⟩] ∧
      ¬ RxWell (uiFrame 0xFF [boundLlc 0x44, boundLlc 0x42])
        (uiFrame 0xFF [boundLlc 0x44, boundLlc 0x42]).mdiPrimitiveHandler := by
  have done : (uiFrame 0xFF [boundLlc 0x44, boundLlc 0x42]).mdiPrimitiveHandler.done =
      [⟨1, .up 1 ⟨0, 17⟩⟩, ⟨0, .up 0 ⟨0, 20⟩⟩] := by
    decide
  refine ⟨done, ?_⟩
  intro well
  have isDone : (⟨1, .up 1 ⟨0, 17⟩⟩ : RxDisposal) ∈ (uiFrame 0xFF
      [boundLlc 0x44, boundLlc 0x42]).mdiPrimitiveHandler.done := by
    exact mem_cons_self
  obtain ⟨_, _, _, isData⟩ := well.indicated _ isDone 1 ⟨0, 17⟩ rfl
  have sameBuffer : 0 = 1 := congrArg RxPointer.buffer isData
  cases sameBuffer

end Uw7.Dlpi
