import Uw7.Dlpi.DriverIoctls
import Uw7.Lib.Run

namespace Uw7.Dlpi

/-!
# Driver ioctls over runs

While a close sends one ioctl at a time, no allocation fails where another ioctl is
concerned, and no request of `dlpi_send_dl_ok_or_error_ack` is refused by the driver,
one ioctl at most is at the driver and its acknowledgement goes where it belongs.
-/

open Lib List

/-- The state before a step does not lead into a branch that goes wrong. -/
def IoctlGuard (before : IoctlCard) : IoctlAction → Prop
  | .closing _ => before.dlpiIocblk ≠ .closing
  | .sendFails _ => before.ioctlQueue = [] ∨ before.answering = true
  | .cpQueueFails _ .data => before.dlpiIocblk = .free
  | .cpQueueFails _ _ => False
  | .ack nak => nak = true → before.ioctlHandler ≠ some .okOrError
  | _ => True

/-- What every step keeps. -/
structure IoctlKept (cp : IoctlCard) : Prop where
  well : IoctlWell cp
  owner : ∀ ioctl ∈ cp.sent, cp.ioctlSap = some ioctl.sap ∧ cp.ioctlHandler = some ioctl.handler

section Steps

variable {cp : IoctlCard} {ioctl : Macioc} {earlier later rest : List Macioc}

theorem IoctlWell.idle (well : IoctlWell cp) (free : cp.dlpiIocblk = .free) :
    cp.claimed = [] ∧ cp.sent = [] := by
  have nothing : cp.claimed ++ cp.sent = [] := by
    by_contra something
    exact well.mark.mpr something free
  exact append_eq_nil_iff.mp nothing

theorem IoctlWell.only_claimed (well : IoctlWell cp)
    (isClaimed : cp.claimed = earlier ++ ioctl :: later) :
    earlier ++ later = [] ∧ cp.sent = [] := by
  have one := well.one
  rw [isClaimed] at one
  simp only [length_append, length_cons] at one
  refine ⟨length_eq_zero_iff.mp ?_, length_eq_zero_iff.mp ?_⟩
  · rw [length_append]
    omega
  · omega

theorem IoctlWell.only_sent (well : IoctlWell cp) (isSent : cp.sent = ioctl :: rest) :
    cp.claimed = [] ∧ rest = [] := by
  have one := well.one
  rw [isSent] at one
  simp only [length_append, length_cons] at one
  exact ⟨length_eq_zero_iff.mp (by omega), length_eq_zero_iff.mp (by omega)⟩

theorem placed_issue {cp' : IoctlCard} {target : IoctlPlace}
    (placed : Placed cp.held (· ∈ cp.issued)) (new : ioctl.iocmp ∉ cp.issued)
    (isIssued : cp'.issued = ioctl.iocmp :: cp.issued)
    (arrived : (cp'.held target).Perm (ioctl.iocmp :: cp.held target))
    (others : ∀ place, place ≠ target → cp'.held place = cp.held place) :
    Placed cp'.held (· ∈ cp'.issued) := by
  have introduced := placed.introduce ioctl.iocmp new arrived others
  simpa only [isIssued, mem_cons] using introduced

theorem IoctlKept.claim {iocblk : Iocblk} (kept : IoctlKept cp) (new : ioctl.iocmp ∉ cp.issued)
    (free : cp.dlpiIocblk = .free) (isMark : iocblk ≠ .free) :
    IoctlKept ((cp.issue ioctl).claim iocblk ioctl) := by
  obtain ⟨noneClaimed, noneSent⟩ := kept.well.idle free
  refine ⟨⟨?_, ?_, kept.well.given, kept.well.once, ?_, kept.well.fifo, ?_, kept.well.fault⟩, ?_⟩
  · simp [IoctlCard.claim, IoctlCard.issue, noneClaimed, noneSent]
  · simp [IoctlCard.claim, isMark]
  · refine @placed_issue cp ioctl _ .claimed kept.well.placed new rfl ?_ ?_
    · simp [IoctlCard.held, IoctlCard.claim, IoctlCard.issue, perm_append_singleton]
    · intro place notClaimed
      cases place with
      | claimed => exact absurd rfl notClaimed
      | queued => rfl
      | sent => rfl
      | disposed => rfl
      | failed => rfl
  · intro _
    exact .inl (by simp [IoctlCard.claim])
  · intro other isSent
    change other ∈ cp.sent at isSent
    rw [noneSent] at isSent
    cases isSent

theorem IoctlKept.send (kept : IoctlKept cp) (isClaimed : cp.claimed = earlier ++ ioctl :: later) :
    IoctlKept (cp.send ioctl (earlier ++ later)) := by
  obtain ⟨noOthers, noneSent⟩ := kept.well.only_claimed isClaimed
  have isMark : cp.dlpiIocblk ≠ .free := kept.well.mark.mpr (by simp [isClaimed])
  refine ⟨⟨?_, ?_, kept.well.given, kept.well.once, ?_, kept.well.fifo, ?_, kept.well.fault⟩, ?_⟩
  · simp [IoctlCard.send, noOthers, noneSent]
  · simp [IoctlCard.send, isMark]
  · refine kept.well.placed.transfer ioctl.iocmp
      (by simp : IoctlPlace.claimed ≠ IoctlPlace.sent) ?_ ?_ ?_
    · simp [IoctlCard.held, IoctlCard.send, isClaimed, perm_middle]
    · simp [IoctlCard.held, IoctlCard.send, perm_append_singleton]
    · intro place notClaimed notSent
      cases place with
      | claimed => exact absurd rfl notClaimed
      | sent => exact absurd rfl notSent
      | queued => rfl
      | disposed => rfl
      | failed => rfl
  · intro _
    exact .inl (by simp [IoctlCard.send])
  · intro other isSent
    have isIoctl : other ∈ cp.sent ++ [ioctl] := isSent
    rw [noneSent, nil_append] at isIoctl
    rw [mem_singleton.mp isIoctl]
    exact ⟨rfl, rfl⟩

theorem IoctlKept.sendFails (kept : IoctlKept cp)
    (isClaimed : cp.claimed = earlier ++ ioctl :: later)
    (guarded : cp.ioctlQueue = [] ∨ cp.answering = true) (handler : Option IoctlHandler) : IoctlKept
      (({ cp with
        claimed := earlier ++ later
        ioctlHandler := handler } : IoctlCard).giveUp ioctl).letNextRun := by
  obtain ⟨noOthers, noneSent⟩ := kept.well.only_claimed isClaimed
  refine ⟨⟨?_, ?_, kept.well.given, kept.well.once, ?_, kept.well.fifo, ?_, kept.well.fault⟩, ?_⟩
  · simp [IoctlCard.letNextRun, IoctlCard.giveUp, noOthers, noneSent]
  · simp [IoctlCard.letNextRun, IoctlCard.giveUp, noOthers, noneSent]
  · refine kept.well.placed.transfer ioctl.iocmp
      (by simp : IoctlPlace.claimed ≠ IoctlPlace.failed) ?_ ?_ ?_
    · simp [IoctlCard.held, IoctlCard.letNextRun, IoctlCard.giveUp, isClaimed, perm_middle]
    · simp [IoctlCard.held, IoctlCard.letNextRun, IoctlCard.giveUp, perm_append_singleton]
    · intro place notClaimed notFailed
      cases place with
      | claimed => exact absurd rfl notClaimed
      | failed => exact absurd rfl notFailed
      | queued => rfl
      | sent => rfl
      | disposed => rfl
  · intro notEmpty
    exact .inr (guarded.resolve_left notEmpty)
  · intro other isSent
    rw [noneSent] at isSent
    cases isSent

theorem IoctlKept.cpQueue (kept : IoctlKept cp) (new : ioctl.iocmp ∉ cp.issued) :
    IoctlKept ((cp.issue ioctl).cpQueue ioctl) := by
  unfold IoctlCard.cpQueue
  by_cases free : (cp.issue ioctl).dlpiIocblk = .free
  · rw [if_pos free]
    exact kept.claim new free (by simp)
  · rw [if_neg free]
    refine ⟨⟨kept.well.one, kept.well.mark, kept.well.given, kept.well.once, ?_, ?_,
      ?_, kept.well.fault⟩, kept.owner⟩
    · refine @placed_issue cp ioctl _ .queued kept.well.placed new rfl ?_ ?_
      · simp [IoctlCard.held, IoctlCard.issue, perm_append_singleton]
      · intro place notQueued
        cases place with
        | queued => exact absurd rfl notQueued
        | claimed => rfl
        | sent => rfl
        | disposed => rfl
        | failed => rfl
    · simp [IoctlCard.issue, kept.well.fifo]
    · intro _
      exact .inl (kept.well.mark.mp free)

theorem IoctlKept.dataFails (kept : IoctlKept cp) (new : ioctl.iocmp ∉ cp.issued)
    (free : cp.dlpiIocblk = .free) : IoctlKept ((cp.issue ioctl).giveUp ioctl).letNextRun := by
  obtain ⟨noneClaimed, noneSent⟩ := kept.well.idle free
  refine ⟨⟨kept.well.one, ?_, kept.well.given, kept.well.once, ?_, kept.well.fifo,
    kept.well.waiting, kept.well.fault⟩, ?_⟩
  · simp [IoctlCard.letNextRun, IoctlCard.giveUp, IoctlCard.issue, noneClaimed, noneSent]
  · refine @placed_issue cp ioctl _ .failed kept.well.placed new rfl ?_ ?_
    · simp [IoctlCard.held, IoctlCard.letNextRun, IoctlCard.giveUp,
        IoctlCard.issue, perm_append_singleton]
    · intro place notFailed
      cases place with
      | failed => exact absurd rfl notFailed
      | queued => rfl
      | claimed => rfl
      | sent => rfl
      | disposed => rfl
  · intro other isSent
    change other ∈ cp.sent at isSent
    rw [noneSent] at isSent
    cases isSent

theorem answer_eq (kept : IoctlKept cp) (nak : Bool) (isSent : cp.sent = ioctl :: rest)
    (guarded : nak = true → cp.ioctlHandler ≠ some .okOrError) : cp.answer ioctl rest nak =
      ({ cp with
        sent := rest
        answering := true
        given := cp.given ++ [⟨ioctl, some ioctl.sap, some ioctl.handler⟩]
        disposed := cp.disposed ++ [ioctl.iocmp] } : IoctlCard).letNextRun := by
  obtain ⟨isSap, isHandler⟩ := kept.owner ioctl (by simp [isSent])
  unfold IoctlCard.answer
  rw [isSap, isHandler]
  cases isKind : ioctl.handler with
  | okOrError =>
    cases nak with
    | false => rfl
    | true => exact absurd (isHandler.trans (congrArg some isKind)) (guarded rfl)
  | getStatistics => rfl
  | clrStatistics => rfl
  | delmca => rfl
  | release => rfl

theorem IoctlKept.ack (kept : IoctlKept cp) (nak : Bool) (isSent : cp.sent = ioctl :: rest)
    (guarded : nak = true → cp.ioctlHandler ≠ some .okOrError) :
    IoctlKept (cp.answer ioctl rest nak) := by
  obtain ⟨noneClaimed, noOthers⟩ := kept.well.only_sent isSent
  rw [answer_eq kept nak isSent guarded]
  refine ⟨⟨?_, ?_, ?_, ?_, ?_, kept.well.fifo, fun _ => .inr rfl, kept.well.fault⟩, ?_⟩
  · simp [IoctlCard.letNextRun, noneClaimed, noOthers]
  · simp [IoctlCard.letNextRun, noneClaimed, noOthers]
  · intro given isGiven
    rcases mem_append.mp isGiven with wasGiven | isNew
    · exact kept.well.given given wasGiven
    · rw [mem_singleton.mp isNew]
      exact ⟨rfl, rfl⟩
  · simp [IoctlCard.letNextRun, kept.well.once]
  · refine kept.well.placed.transfer ioctl.iocmp
      (by simp : IoctlPlace.sent ≠ IoctlPlace.disposed) ?_ ?_ ?_
    · simp [IoctlCard.held, IoctlCard.letNextRun, isSent]
    · simp [IoctlCard.held, IoctlCard.letNextRun, perm_append_singleton]
    · intro place notSent notDisposed
      cases place with
      | sent => exact absurd rfl notSent
      | disposed => exact absurd rfl notDisposed
      | queued => rfl
      | claimed => rfl
      | failed => rfl
  · intro other isLeft
    rw [noOthers] at isLeft
    cases isLeft

theorem IoctlKept.lookAtQueue (kept : IoctlKept cp) : IoctlKept cp.lookAtQueue := by
  unfold IoctlCard.lookAtQueue
  split
  · next ioctl rest free isQueue =>
      obtain ⟨noneClaimed, noneSent⟩ := kept.well.idle free
      refine ⟨⟨?_, ?_, kept.well.given, kept.well.once, ?_, ?_, ?_, kept.well.fault⟩, ?_⟩
      · simp [noneClaimed, noneSent]
      · simp
      · refine kept.well.placed.transfer ioctl.iocmp
          (by simp : IoctlPlace.queued ≠ IoctlPlace.sent) ?_ ?_ ?_
        · simp [IoctlCard.held, isQueue]
        · simp [IoctlCard.held, perm_append_singleton]
        · intro place notQueued notSent
          cases place with
          | queued => exact absurd rfl notQueued
          | sent => exact absurd rfl notSent
          | claimed => rfl
          | disposed => rfl
          | failed => rfl
      · simp [kept.well.fifo, isQueue]
      · intro _
        exact .inl (by simp)
      · intro other isSent
        rw [noneSent, nil_append] at isSent
        rw [mem_singleton.mp isSent]
        exact ⟨rfl, rfl⟩
  · next notBoth =>
      refine ⟨{ kept.well with waiting := ?_ }, kept.owner⟩
      intro notEmpty
      left
      refine kept.well.mark.mp fun free => ?_
      cases isQueue : cp.ioctlQueue with
      | nil => exact notEmpty isQueue
      | cons ioctl rest => exact notBoth ioctl rest free isQueue

end Steps

section Runs

variable {before after : IoctlCard} {action : IoctlAction}

theorem ioctlKept_init : IoctlKept ioctlCardInit where
  well :=
    { one := Nat.zero_le 1
      mark := by simp [ioctlCardInit]
      given := fun given isGiven => by cases isGiven
      once := rfl
      placed :=
        { nodup := fun place => by cases place <;> exact nodup_nil
          unique := fun token first _ inFirst => by cases first <;> cases inFirst
          covered := fun token isIssued => by cases isIssued
          sound := fun place token inPlace => by cases place <;> cases inPlace }
      fifo := rfl
      waiting := fun notEmpty => absurd rfl notEmpty
      fault := rfl }
  owner := fun ioctl isSent => by cases isSent

theorem IoctlKept.step (kept : IoctlKept before) (step : IoctlStep before action after)
    (guarded : IoctlGuard before action) : IoctlKept after := by
  cases step with
  | primitive new isPrimitive free => exact kept.claim new free (by simp)
  | closing new isClosing notBusy => exact kept.claim new (notBusy.resolve_right guarded) (by simp)
  | send isClaimed => exact kept.send isClaimed
  | sendFails isClaimed notQueued inGeneric => exact kept.sendFails isClaimed guarded _
  | cpQueue new isRelease => exact kept.cpQueue new
  | dataFails new isRelease => exact kept.dataFails new guarded
  | iocmpFails new isRelease => exact absurd guarded id
  | blockFails new isRelease busy => exact absurd guarded id
  | ack nak isFirst ready => exact kept.ack nak isFirst guarded
  | lookAtQueue answering => exact kept.lookAtQueue

theorem ioctlWell_of_run (actions : List IoctlAction) (final : IoctlCard) (run :
    Run (Guarded IoctlStep IoctlGuard) ioctlCardInit actions final) : IoctlWell final := by
  have kept : IoctlKept final := run.invariant (fun _ _ _ kept taken => kept.step taken.1 taken.2)
      ioctlKept_init
  exact kept.well

theorem ioctlWell_of_run_queued : ∃ final, Run (Guarded IoctlStep IoctlGuard) ioctlCardInit
    [.primitive ⟨0, 3, .okOrError⟩, .send ⟨0, 3, .okOrError⟩,
      .cpQueue ⟨1, 4, .release⟩, .ack false, .lookAtQueue]
    final ∧ final.sent = [⟨1, 4, .release⟩] ∧ IoctlWell final := by
  have claimed : Guarded IoctlStep IoctlGuard ioctlCardInit (.primitive ⟨0, 3, .okOrError⟩) _ :=
    ⟨.primitive (by decide) (by decide) rfl, trivial⟩
  have sent := (Run.single claimed).snoc ⟨@IoctlStep.send _ ⟨0, 3, .okOrError⟩ [] [] rfl, trivial⟩
  have queued := sent.snoc ⟨@IoctlStep.cpQueue _ ⟨1, 4, .release⟩ (by decide) rfl, trivial⟩
  have acked := queued.snoc ⟨@IoctlStep.ack _ ⟨0, 3, .okOrError⟩ [] false rfl rfl,
      fun isNak => by cases isNak⟩
  have looked := acked.snoc ⟨IoctlStep.lookAtQueue rfl, trivial⟩
  exact ⟨_, looked, rfl, ioctlWell_of_run _ _ looked⟩

theorem ioctlWell_fails_on_close : ¬ ∀ (actions : List IoctlAction) (final : IoctlCard),
    Run IoctlStep ioctlCardInit actions final → IoctlWell final := by
  intro always
  have first : Run IoctlStep ioctlCardInit [.closing ⟨0, 3, .delmca⟩] _ :=
    .single (.closing (by decide) rfl (.inl rfl))
  have sent := first.snoc (@IoctlStep.send _ ⟨0, 3, .delmca⟩ [] [] rfl)
  have second := sent.snoc (@IoctlStep.closing _ ⟨1, 3, .delmca⟩ (by decide) rfl (.inr rfl))
  exact absurd (always _ _ second).one (by decide)

end Runs

end Uw7.Dlpi
