import Uw7.Dlpi.Receive
import Mathlib.Data.List.Nodup
import Mathlib.Data.List.Perm.Basic

namespace Uw7.Dlpi

/-!
# Which received frames are delivered well

A frame is handled as it should be when no copy reaches a stream that looks at the
shared frame description, every copy is freed, and an XID or TEST frame is answered
by the module itself.
-/

open List Nat Bool

namespace RxState

/-- An XID or TEST frame is a command that is answered, or it is given up. -/
def Fits (f : RxState) (sp : RxReceiver) : Prop := (f.cmd = llcCmdXid →
    if sp.sap.autoXid then f.response = false
    else sp.calls.allocb = false) ∧ (f.cmd = llcCmdTest →
      if sp.sap.autoTest then f.response = false
      else sp.calls.allocb = false)

/-- A copy for a stream is freed, and nothing else happens. -/
def Harmless (f : RxState) (sp : RxReceiver) : Prop := sp.calls.canput = true ∧
    if sp.sap.llc1 then
      f.cmd ≠ llcCmdUi ∧ (f.cmd = llcCmdXid → sp.sap.autoXid = false ∧ sp.calls.allocb = false) ∧
        (f.cmd = llcCmdTest → sp.sap.autoTest = false ∧ sp.calls.allocb = false)
    else sp.calls.allocb = false ∨ sp.calls.rejected = true

/-- A copy for a stream changes the description that the others use. -/
def Touches (f : RxState) (sp : RxReceiver) : Prop := sp.calls.canput = true ∧ sp.sap.llc1 = true ∧
    (f.cmd = llcCmdUi ∨ f.response = false ∧ (f.cmd = llcCmdXid ∧ sp.sap.autoXid = true ∨
        f.cmd = llcCmdTest ∧ sp.sap.autoTest = true))

end RxState

namespace RxInput

/-- The streams for which copies are made. -/
def copied (input : RxInput) (others : List RxReceiver) : List RxReceiver :=
  (others.filter fun sp => !input.unwanted sp).takeWhile fun sp => sp.calls.copymsg

/-- A frame for the null DSAP is answered or given up. -/
def NullFine (input : RxInput) : Prop := input.nullCounters = true ∧
    (input.start.cmd = llcCmdXid ∧ input.nullOutcomes.allocb = false ∨
      input.start.cmd = llcCmdTest ∧ input.start.response = false)

/-- A frame is handled as it should be. -/
def Fine (input : RxInput) : Prop := input.frame.frameType = .llc →
    if input.frame.frameSap = 0 then input.NullFine
    else
      ∀ sp others, input.llcSaps = sp :: others →
        (∀ sp1 ∈ input.copied others, input.start.Harmless sp1) ∧
          (sp.calls.canput = true → input.unwanted sp = false →
            sp.sap.llc1 = true → input.start.Fits sp)

/-- No copy changes the description of the frame. -/
def Untouched (input : RxInput) : Prop := input.frame.frameType = .llc → input.frame.frameSap ≠ 0 →
    ∀ sp others, input.llcSaps = sp :: others →
      ∀ sp1 ∈ input.copied others, ¬ input.start.Touches sp1

end RxInput

section Deliver

variable {f : RxState} {sp : RxReceiver} {mp : Nat} {issuspended : Bool}

/-- What a delivery adds to the record: at most the end of its own message. -/
structure Delivers (mp : Nat) (before after : RxState) : Prop where
  done : after.done = before.done ∨ ∃ fate, after.done = before.done ++ [⟨mp, fate⟩]
  copies : after.copies = before.copies

theorem delivers_putnext (rptr : RxPointer) : Delivers mp f (f.putnext mp sp rptr) := by
  unfold RxState.putnext
  split
  · exact ⟨.inr ⟨_, rfl⟩, rfl⟩
  · exact ⟨.inl rfl, rfl⟩

theorem delivers_unitdataInd : Delivers mp f (f.unitdataInd mp sp) := by
  unfold RxState.unitdataInd
  split_ifs
  · exact ⟨.inr ⟨_, rfl⟩, rfl⟩
  · exact ⟨.inr ⟨_, rfl⟩, rfl⟩
  · exact delivers_putnext _

theorem delivers_xidTestInd : Delivers mp f (f.xidTestInd mp sp) := by
  unfold RxState.xidTestInd
  split_ifs
  · exact ⟨.inr ⟨_, rfl⟩, rfl⟩
  · exact delivers_putnext _

theorem delivers_sendLlcResponse : Delivers mp f (f.sendLlcResponse issuspended mp sp) := by
  unfold RxState.sendLlcResponse
  split_ifs <;> exact ⟨.inr ⟨_, rfl⟩, rfl⟩

variable {before changed after : RxState} {r : Bool} {data : RxPointer}

theorem Delivers.described (delivers : Delivers mp changed after)
    (sameDone : changed.done = before.done) (sameCopies : changed.copies = before.copies) :
    Delivers mp before after := by
  refine ⟨?_, delivers.copies.trans sameCopies⟩
  rw [← sameDone]
  exact delivers.done

@[simp] theorem xidInfo_done (infoBelow : Bool) : (f.xidInfo infoBelow).done = f.done := by
  unfold RxState.xidInfo
  split <;> rfl

@[simp] theorem xidInfo_copies (infoBelow : Bool) : (f.xidInfo infoBelow).copies = f.copies := by
  unfold RxState.xidInfo
  split <;> rfl

theorem delivers_processXidFrame : Delivers mp f (f.processXidFrame issuspended mp sp r) := by
  unfold RxState.processXidFrame
  split
  · split
    · exact ⟨.inl rfl, rfl⟩
    · exact delivers_xidTestInd
  · split
    · exact delivers_sendLlcResponse.described (xidInfo_done _) (xidInfo_copies _)
    · exact delivers_xidTestInd

theorem delivers_processTestFrame : Delivers mp f (f.processTestFrame issuspended mp sp r) := by
  unfold RxState.processTestFrame
  split
  · split
    · exact ⟨.inl rfl, rfl⟩
    · exact delivers_xidTestInd
  · split
    · exact delivers_sendLlcResponse.described rfl rfl
    · exact delivers_xidTestInd

theorem delivers_llcRx : Delivers mp f (f.llcRx issuspended mp sp) := by
  unfold RxState.llcRx
  by_cases isUi : f.cmd = llcCmdUi
  · rw [if_pos isUi]
    exact delivers_unitdataInd.described rfl rfl
  · rw [if_neg isUi]
    split
    · exact delivers_processXidFrame
    · split
      · exact delivers_processTestFrame
      · exact ⟨.inr ⟨_, rfl⟩, rfl⟩

theorem delivers_deliver : Delivers mp f (f.deliver issuspended mp sp) := by
  unfold RxState.deliver
  split_ifs
  · exact delivers_llcRx
  · exact delivers_unitdataInd

theorem deliver_harmless (harmless : f.Harmless sp) :
    f.deliver issuspended mp sp = f.dispose mp .freed := by
  obtain ⟨_, quiet⟩ := harmless
  unfold RxState.deliver
  split_ifs with isLlc
  · rw [if_pos isLlc] at quiet
    obtain ⟨notUi, xid, test⟩ := quiet
    unfold RxState.llcRx
    rw [if_neg notUi]
    split_ifs with isXid isTest
    · obtain ⟨notAuto, noBlock⟩ := xid isXid
      simp [RxState.processXidFrame, RxState.xidTestInd, notAuto, noBlock]
    · obtain ⟨notAuto, noBlock⟩ := test isTest
      simp [RxState.processTestFrame, RxState.xidTestInd, notAuto, noBlock]
    · rfl
  · rw [if_neg isLlc] at quiet
    unfold RxState.unitdataInd
    rcases quiet with noBlock | isRejected
    · simp [noBlock]
    · simp [isRejected]

/-- A message finds its end, and an indication has a given data pointer. -/
structure EndsWell (mp : Nat) (sp : RxReceiver) (data : RxPointer)
    (before after : RxState) : Prop where
  done : ∃ fate, after.done = before.done ++ [⟨mp, fate⟩] ∧ ∀ index rptr, fate = .up index rptr →
      sp.index = some index ∧ rptr = data
  copies : after.copies = before.copies
  fault : after.fault = before.fault

theorem endsWell_dispose {fate : RxFate} (notUp : ∀ index rptr, fate ≠ .up index rptr) :
    EndsWell mp sp data f (f.dispose mp fate) :=
  ⟨⟨fate, rfl, fun index rptr isUp => absurd isUp (notUp index rptr)⟩, rfl, rfl⟩

theorem EndsWell.described (ends : EndsWell mp sp data changed after)
    (sameDone : changed.done = before.done) (sameCopies : changed.copies = before.copies)
    (sameFault : changed.fault = before.fault) : EndsWell mp sp data before after := by
  refine ⟨?_, ends.copies.trans sameCopies, ends.fault.trans sameFault⟩
  rw [← sameDone]
  exact ends.done

theorem endsWell_unitdataInd {index : Nat} (hasQueue : sp.index = some index) :
    EndsWell mp sp ⟨0, f.frameData⟩ f (f.unitdataInd mp sp) := by
  unfold RxState.unitdataInd
  split
  · exact endsWell_dispose (by simp)
  · split
    · exact endsWell_dispose (by simp)
    · unfold RxState.putnext
      rw [hasQueue]
      refine ⟨⟨_, rfl, ?_⟩, rfl, rfl⟩
      intro other rptr isUp
      cases isUp
      exact ⟨hasQueue, rfl⟩

theorem endsWell_sendLlcResponse : EndsWell mp sp data f (f.sendLlcResponse issuspended mp sp) := by
  unfold RxState.sendLlcResponse
  split_ifs <;> exact endsWell_dispose (by simp)

@[simp] theorem xidInfo_fault (infoBelow : Bool) : (f.xidInfo infoBelow).fault = f.fault := by
  unfold RxState.xidInfo
  split <;> rfl

theorem endsWell_processXidFrame
    (fits : if sp.sap.autoXid then f.response = false else sp.calls.allocb = false) :
    EndsWell mp sp data f (f.processXidFrame issuspended mp sp f.response) := by
  unfold RxState.processXidFrame
  cases isAuto : sp.sap.autoXid with
  | true =>
    rw [isAuto, if_pos rfl] at fits
    simp only [fits, false_eq_true, if_false, if_true]
    exact endsWell_sendLlcResponse.described (xidInfo_done _) (xidInfo_copies _) (xidInfo_fault _)
  | false =>
    rw [isAuto, if_neg (by decide)] at fits
    simp only [RxState.xidTestInd, fits, false_eq_true, if_false, if_true, ite_self]
    exact endsWell_dispose (by simp)

theorem endsWell_processTestFrame
    (fits : if sp.sap.autoTest then f.response = false else sp.calls.allocb = false) :
    EndsWell mp sp data f (f.processTestFrame issuspended mp sp f.response) := by
  unfold RxState.processTestFrame
  cases isAuto : sp.sap.autoTest with
  | true =>
    rw [isAuto, if_pos rfl] at fits
    simp only [fits, false_eq_true, if_false, if_true]
    exact endsWell_sendLlcResponse.described rfl rfl rfl
  | false =>
    rw [isAuto, if_neg (by decide)] at fits
    simp only [RxState.xidTestInd, fits, false_eq_true, if_false, if_true, ite_self]
    exact endsWell_dispose (by simp)

def llcStripped (sp : RxSap) : Nat :=
  llcHeaderSize + if sp.sapType = .snap then snapHeaderSize else 0

theorem endsWell_llcRx {index : Nat} (hasQueue : sp.index = some index) (fits : f.Fits sp) :
    EndsWell mp sp ⟨0, f.frameData + llcStripped sp.sap⟩ f (f.llcRx issuspended mp sp) := by
  unfold RxState.llcRx
  by_cases isUi : f.cmd = llcCmdUi
  · rw [if_pos isUi]
    rw [llcStripped, ← Nat.add_assoc]
    have ends := @endsWell_unitdataInd
        { f with
          frameData := f.frameData + llcHeaderSize +
            if sp.sap.sapType = .snap then snapHeaderSize else 0 }
        sp mp index hasQueue
    exact ends.described rfl rfl rfl
  · rw [if_neg isUi]
    split
    · rename_i isXid
      exact endsWell_processXidFrame (fits.1 isXid)
    · split
      · rename_i isTest
        exact endsWell_processTestFrame (fits.2 isTest)
      · exact endsWell_dispose (by simp)

theorem endsWell_deliver {index : Nat} (hasQueue : sp.index = some index)
    (fits : sp.sap.llc1 = true → f.Fits sp) :
    EndsWell mp sp ⟨0, f.frameData + if sp.sap.llc1 then llcStripped sp.sap else 0⟩ f
      (f.deliver issuspended mp sp) := by
  unfold RxState.deliver
  cases isLlc : sp.sap.llc1 with
  | true => exact endsWell_llcRx hasQueue (fits isLlc)
  | false => exact endsWell_unitdataInd hasQueue

theorem deliver_unfit (isLlc : sp.sap.llc1 = true) (unfit : ¬ f.Fits sp) :
    f.deliver issuspended mp sp = f ∨ f.deliver issuspended mp sp = f.putnext mp sp ⟨mp, 0⟩ := by
  unfold RxState.Fits at unfit
  unfold RxState.deliver RxState.llcRx
  have kind : f.cmd = llcCmdXid ∨ f.cmd = llcCmdTest := by
    by_contra neither
    obtain ⟨notXid, notTest⟩ := not_or.mp neither
    exact unfit ⟨fun isXid => absurd isXid notXid, fun isTest => absurd isTest notTest⟩
  rcases kind with isXid | isTest
  · have notUi : f.cmd ≠ llcCmdUi := by
      rw [isXid]
      decide
    have notTest : f.cmd ≠ llcCmdTest := by
      rw [isXid]
      decide
    unfold RxState.processXidFrame
    cases isAuto : sp.sap.autoXid <;> simp_all [RxState.xidTestInd]
  · have notUi : f.cmd ≠ llcCmdUi := by
      rw [isTest]
      decide
    have notXid : f.cmd ≠ llcCmdXid := by
      rw [isTest]
      decide
    unfold RxState.processTestFrame
    cases isAuto : sp.sap.autoTest <;> simp_all [RxState.xidTestInd]

/-- A delivery that is neither harmless nor touches the description goes wrong. -/
theorem deliver_broken (canput : sp.calls.canput = true) (harmful : ¬ f.Harmless sp)
    (untouched : ¬ f.Touches sp) : f.deliver issuspended mp sp = f ∨ (∃ rptr : RxPointer,
      f.deliver issuspended mp sp = f.putnext mp sp rptr ∧ (rptr = ⟨0, f.frameData⟩ ∨
        rptr = ⟨mp, 0⟩ ∧ sp.sap.llc1 = true)) := by
  unfold RxState.Harmless at harmful
  unfold RxState.deliver
  split_ifs with isLlc
  · rw [if_pos isLlc] at harmful
    have notUi : f.cmd ≠ llcCmdUi := fun isUi => untouched ⟨canput, isLlc, .inl isUi⟩
    unfold RxState.llcRx
    rw [if_neg notUi]
    split_ifs with isXid isTest
    · have notTest : f.cmd ≠ llcCmdTest := by
        rw [isXid]
        decide
      unfold RxState.processXidFrame
      cases isAuto : sp.sap.autoXid with
      | true =>
        left
        have isResponse : f.response = true := by
          by_contra notResponse
          exact untouched ⟨canput, isLlc, .inr ⟨by simpa using notResponse, .inl ⟨isXid, isAuto⟩⟩⟩
        simp [isResponse]
      | false =>
        right
        have block : sp.calls.allocb = true := by
          by_contra noBlock
          exact harmful ⟨canput, notUi, fun _ => ⟨isAuto, by simpa using noBlock⟩,
            fun isTest => absurd isTest notTest⟩
        refine ⟨⟨mp, 0⟩, ?_, .inr ⟨rfl, isLlc⟩⟩
        simp [RxState.xidTestInd, block]
    · have notXid : f.cmd ≠ llcCmdXid := isXid
      unfold RxState.processTestFrame
      cases isAuto : sp.sap.autoTest with
      | true =>
        left
        have isResponse : f.response = true := by
          by_contra notResponse
          exact untouched ⟨canput, isLlc, .inr ⟨by simpa using notResponse, .inr ⟨isTest, isAuto⟩⟩⟩
        simp [isResponse]
      | false =>
        right
        have block : sp.calls.allocb = true := by
          by_contra noBlock
          exact harmful ⟨canput, notUi, fun isXid => absurd isXid notXid,
            fun _ => ⟨isAuto, by simpa using noBlock⟩⟩
        refine ⟨⟨mp, 0⟩, ?_, .inr ⟨rfl, isLlc⟩⟩
        simp [RxState.xidTestInd, block]
    · exact absurd ⟨canput, notUi, fun isXid' => absurd isXid' isXid,
        fun isTest' => absurd isTest' isTest⟩ harmful
  · right
    rw [if_neg isLlc] at harmful
    refine ⟨⟨0, f.frameData⟩, ?_, .inl rfl⟩
    have block : sp.calls.allocb = true := by
      by_contra noBlock
      exact harmful ⟨canput, .inl (by simpa using noBlock)⟩
    have accepted : sp.calls.rejected = false := by
      by_contra isRejected
      exact harmful ⟨canput, .inr (by simpa using isRejected)⟩
    simp [RxState.unitdataInd, block, accepted]

end Deliver

section Copies

variable {multicast issuspended : Bool} {f : RxState} {others : List RxReceiver}

/-- The streams of the loop for which copies are made. -/
def copiedFor (multicast : Bool) (others : List RxReceiver) : List RxReceiver :=
  (others.filter fun sp => !(multicast && !sp.calls.mcaSet)).takeWhile fun sp => sp.calls.copymsg

variable {sp1 : RxReceiver}

theorem copiedFor_unwanted (unwanted : multicast = true ∧ ¬ sp1.calls.mcaSet = true) :
    copiedFor multicast (sp1 :: others) = copiedFor multicast others := by
  unfold copiedFor
  simp [unwanted.1, unwanted.2]

theorem copiedFor_wanted (wanted : ¬ (multicast = true ∧ ¬ sp1.calls.mcaSet = true)) :
    copiedFor multicast (sp1 :: others) =
      if sp1.calls.copymsg then sp1 :: copiedFor multicast others else [] := by
  unfold copiedFor
  rw [filter_cons_of_pos, takeWhile_cons]
  cases multicast <;> simp_all

/-- The state after copies were made and freed. -/
def RxState.copiesFreed (f : RxState) (number : Nat) : RxState :=
  { f with
    copies := f.copies + number
    done := f.done ++ (range number).map fun k => ⟨f.copies + 1 + k, .freed⟩ }

theorem copyLoop_harmless (harmless : ∀ sp1 ∈ copiedFor multicast others, f.Harmless sp1) :
    f.copyLoop multicast issuspended others =
      f.copiesFreed (copiedFor multicast others).length := by
  induction others generalizing f with
  | nil => simp [RxState.copyLoop, copiedFor, RxState.copiesFreed]
  | cons sp1 rest ih =>
    rw [RxState.copyLoop]
    by_cases unwanted : multicast = true ∧ ¬ sp1.calls.mcaSet = true
    · rw [if_pos unwanted]
      rw [copiedFor_unwanted unwanted] at harmless ⊢
      exact ih harmless
    · rw [if_neg unwanted]
      rw [copiedFor_wanted unwanted] at harmless ⊢
      cases isCopied : sp1.calls.copymsg with
      | false => simp [RxState.copiesFreed]
      | true =>
        rw [isCopied, if_pos rfl] at harmless
        have quiet := harmless sp1 mem_cons_self
        have canput : sp1.calls.canput = true := quiet.1
        have freed : ({ f with copies := f.copies + 1 } : RxState).deliver
            issuspended (f.copies + 1) sp1 =
            ({ f with copies := f.copies + 1 } : RxState).dispose (f.copies + 1) .freed :=
          deliver_harmless quiet
        simp only [canput, true_eq_false, if_false, if_true, freed]
        have next := @ih (({ f with copies := f.copies + 1 } : RxState).dispose
            (f.copies + 1) .freed) fun other inRest => harmless other (mem_cons_of_mem sp1 inRest)
        rw [next]
        simp only [RxState.copiesFreed, RxState.dispose, length_cons,
          range_succ_eq_map, map_cons, map_map]
        congr 1
        · omega
        · rw [append_assoc]
          congr 1
          simp only [singleton_append]
          congr 1
          apply map_congr_left
          intro k _
          congr 1
          omega

theorem copyLoop_grows : ∃ new : List RxDisposal,
    (f.copyLoop multicast issuspended others).done = f.done ++ new ∧
      (∀ disposal ∈ new, f.copies < disposal.mp) ∧
      f.copies ≤ (f.copyLoop multicast issuspended others).copies := by
  induction others generalizing f with
  | nil => exact ⟨[], by simp [RxState.copyLoop], by simp, le_rfl⟩
  | cons sp1 rest ih =>
    rw [RxState.copyLoop]
    split_ifs
    · exact ih
    · exact ⟨[], by simp, by simp, le_rfl⟩
    · obtain ⟨new, done, later, more⟩ := @ih { f with copies := f.copies + 1 }
      exact ⟨new, done, fun disposal isNew => lt_of_succ_lt (later disposal isNew),
        le_of_succ_le more⟩
    · have delivers := @delivers_deliver { f with copies := f.copies + 1 } sp1
          (f.copies + 1) issuspended
      obtain ⟨new, done, later, more⟩ := @ih
        (({ f with copies := f.copies + 1 } : RxState).deliver issuspended (f.copies + 1) sp1)
      rw [delivers.copies] at later more
      have later' : ∀ disposal ∈ new, f.copies < disposal.mp :=
        fun disposal isNew => lt_of_succ_lt (later disposal isNew)
      rcases delivers.done with same | ⟨fate, one⟩
      · rw [same] at done
        exact ⟨new, done, later', le_of_succ_le more⟩
      · rw [one] at done
        refine ⟨⟨f.copies + 1, fate⟩ :: new, by simpa using done, ?_, le_of_succ_le more⟩
        intro disposal isNew
        rcases mem_cons.mp isNew with rfl | isLater
        · exact lt_succ_self f.copies
        · exact later' disposal isLater

/-- A copy without an end, or with the data of another message. -/
def RxState.Misplaced (copies : Nat) (frameData : Nat) (others : List RxReceiver)
    (result : RxState) : Prop :=
  (∃ mp, copies < mp ∧ mp ≤ result.copies ∧ ∀ disposal ∈ result.done, disposal.mp ≠ mp) ∨
    ∃ disposal ∈ result.done, ∃ sp1 ∈ others, ∃ index rptr,
      copies < disposal.mp ∧ disposal.fate = .up index rptr ∧ sp1.index = some index ∧
        (rptr = ⟨0, frameData⟩ ∨ rptr = ⟨disposal.mp, 0⟩ ∧ sp1.sap.llc1 = true)

theorem RxState.Misplaced.earlier {copies fewer frameData : Nat}
    {result : RxState} (misplaced : RxState.Misplaced copies frameData others result)
    (isFewer : fewer ≤ copies) : RxState.Misplaced fewer frameData (sp1 :: others) result := by
  rcases misplaced with ⟨mp, isLater, isMade, noEnd⟩ |
    ⟨disposal, isDone, other, isOther, index, rptr, isLater, wrong⟩
  · exact .inl ⟨mp, Nat.lt_of_le_of_lt isFewer isLater, isMade, noEnd⟩
  · exact .inr ⟨disposal, isDone, other, mem_cons_of_mem sp1 isOther, index,
      rptr, Nat.lt_of_le_of_lt isFewer isLater, wrong⟩

theorem copyLoop_leaks {made : RxState} (number : made.copies = f.copies + 1)
    (same : made.done = f.done) (known : ∀ disposal ∈ f.done, disposal.mp ≤ f.copies)
    {frameData : Nat} {streams : List RxReceiver} :
    RxState.Misplaced f.copies frameData streams (made.copyLoop multicast issuspended others) := by
  obtain ⟨new, done, later, more⟩ := @copyLoop_grows multicast issuspended made others
  rw [number] at later more
  refine .inl ⟨f.copies + 1, lt_succ_self _, more, ?_⟩
  intro disposal isDone isCopy
  rw [done, same, mem_append] at isDone
  rcases isDone with isOld | isNew
  · have := known disposal isOld
    omega
  · have := later disposal isNew
    omega

/-- A copy that is not harmless is misplaced. -/
theorem copyLoop_broken (hasQueue : ∀ sp1 ∈ others, ∃ index, sp1.index = some index)
    (known : ∀ disposal ∈ f.done, disposal.mp ≤ f.copies)
    (untouched : ∀ sp1 ∈ copiedFor multicast others, ¬ f.Touches sp1)
    (harmful : ∃ sp1 ∈ copiedFor multicast others, ¬ f.Harmless sp1) :
    RxState.Misplaced f.copies f.frameData others (f.copyLoop multicast issuspended others) := by
  induction others generalizing f with
  | nil =>
    obtain ⟨sp1, isCopied, _⟩ := harmful
    exact absurd isCopied (by simp [copiedFor])
  | cons sp1 rest ih =>
    have restQueue : ∀ other ∈ rest, ∃ index, other.index = some index :=
      fun other inRest => hasQueue other (mem_cons_of_mem sp1 inRest)
    rw [RxState.copyLoop]
    by_cases unwanted : multicast = true ∧ ¬ sp1.calls.mcaSet = true
    · rw [copiedFor_unwanted unwanted] at harmful untouched
      rw [if_pos unwanted]
      exact (ih restQueue known untouched harmful).earlier le_rfl
    · rw [copiedFor_wanted unwanted] at harmful untouched
      rw [if_neg unwanted]
      cases isCopied : sp1.calls.copymsg with
      | false =>
        rw [isCopied] at harmful
        obtain ⟨other, isOther, _⟩ := harmful
        exact absurd isOther (by simp)
      | true =>
        rw [isCopied, if_pos rfl] at harmful untouched
        rw [if_neg (by decide)]
        cases canput : sp1.calls.canput with
        | false =>
          exact @copyLoop_leaks multicast issuspended f rest
            { f with copies := f.copies + 1 } rfl rfl known _ _
        | true =>
          rw [if_neg (by decide)]
          by_cases quiet : f.Harmless sp1
          · -- the harm is done by a later stream
            have freed : ({ f with copies := f.copies + 1 } : RxState).deliver
                issuspended (f.copies + 1) sp1 =
                ({ f with copies := f.copies + 1 } : RxState).dispose (f.copies + 1) .freed :=
              deliver_harmless quiet
            rw [freed]
            have laterHarm : ∃ other ∈ copiedFor multicast rest, ¬ f.Harmless other := by
              obtain ⟨other, isOther, isHarmful⟩ := harmful
              rcases mem_cons.mp isOther with rfl | inRest
              · exact absurd quiet isHarmful
              · exact ⟨other, inRest, isHarmful⟩
            refine (@ih (({ f with copies := f.copies + 1 } :
              RxState).dispose (f.copies + 1) .freed) restQueue ?_ (fun other inRest =>
                untouched other (mem_cons_of_mem sp1 inRest))
              laterHarm).earlier (le_succ f.copies)
            intro disposal isDone
            change disposal.mp ≤ f.copies + 1
            rcases mem_append.mp isDone with isOld | isNew
            · exact le_succ_of_le (known disposal isOld)
            · rw [mem_singleton.mp isNew]
          · have wrong := @deliver_broken { f with copies := f.copies + 1 } sp1
                (f.copies + 1) issuspended canput quiet (untouched sp1 mem_cons_self)
            rcases wrong with nothing | ⟨rptr, isUp, isWrong⟩
            · rw [nothing]
              exact @copyLoop_leaks multicast issuspended f rest
                { f with copies := f.copies + 1 } rfl rfl known _ _
            · obtain ⟨index, isIndex⟩ := hasQueue sp1 mem_cons_self
              rw [isUp, RxState.putnext, isIndex]
              obtain ⟨new, done, _, _⟩ := @copyLoop_grows multicast issuspended
                (({ f with copies := f.copies + 1 } : RxState).dispose (f.copies + 1)
                  (.up index rptr)) rest
              refine .inr ⟨⟨f.copies + 1, .up index rptr⟩, ?_, sp1, mem_cons_self, index, rptr,
                lt_succ_self _, rfl, isIndex, isWrong⟩
              rw [done]
              exact mem_append_left _ (mem_append_right _ mem_cons_self)

end Copies

end Uw7.Dlpi
